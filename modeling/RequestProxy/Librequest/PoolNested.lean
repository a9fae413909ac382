import RequestProxy.Librequest.PoolLedger
import RequestProxy.Librequest.PoolTermination

namespace RequestProxy.Librequest

universe u

variable {Job : Type u} {numThreads : Nat}

def WorkerPc.nested : WorkerPc Job → List (Request Job)
  | .adding _ nested _ => [nested]
  | _ => []

/-- The request, when `queue_enqueue` refuses it. -/
def Slot.refuses (slot : Slot Job) (req : Request Job) : List (Request Job) :=
  match slot.queue with
  | some q => if q.closed then [req] else []
  | none => []

/-- The requests that `queue_enqueue` refuses in a step. -/
def Pool.refusals (pool : Pool Job) : Pool.Label Job → List (Request Job)
  | .main _ =>
    match pool.main with
    | .enqueueing req index => (pool.slots index).refuses req
    | _ => []
  | .nestedEnqueue index _ =>
    match (pool.slots index).thread with
    | .adding _ nested target => (pool.slots target).refuses nested
    | _ => []
  | .worker _ | .spurious _ | .nestedAdd _ _ _ => []

/-- The pool with the requests that were refused so far. -/
structure Records (Job : Type u) where
  pool : Pool Job
  refused : List (Request Job)

namespace Records

def init (script : List (Job × Nat)) : Records Job := ⟨.init script, []⟩

def step (numThreads : Nat) (records : Records Job) (label : Pool.Label Job) :
    Option (Records Job) := do
  let pool ← records.pool.step numThreads label
  return { pool, refused := records.refused ++ records.pool.refusals label }

theorem step_pool {records next : Records Job} (taken : step numThreads records label = some next) :
    records.pool.step numThreads label = some next.pool ∧
      next.refused = records.refused ++ records.pool.refusals label := by
  simp only [step, Option.bind_eq_bind, Option.bind_eq_some_iff, Option.pure_def,
    Option.some.injEq] at taken
  obtain ⟨pool, moved, rfl⟩ := taken
  exact ⟨moved, rfl⟩

end Records

/-- How often an entry has a request: its queue took it, or its work function
is adding it. -/
def Slot.mentions (number : Nat) (slot : Slot Job) : Nat :=
  numberCount number slot.accepted + numberCount number slot.thread.nested

private theorem wake_nested (thread : WorkerPc Job) : thread.wake.nested = thread.nested := by
  cases thread <;> rfl

private theorem mentions_kept {slot after : Slot Job} (accepted : after.accepted = slot.accepted)
    (thread : after.thread.nested = slot.thread.nested) (number : Nat) :
    after.mentions number = slot.mentions number := by
  rw [Slot.mentions, Slot.mentions, accepted, thread]

private theorem workerFunc_nested {slot after : Slot Job} (ran : workerFunc slot = some after) :
    slot.thread.nested = [] ∧ after.thread.nested = [] := by
  have dequeued : slot.dequeue = some after → after.thread.nested = [] := by
    intro ran
    simp only [Slot.dequeue, Option.bind_eq_bind, Option.bind_eq_some_iff] at ran
    obtain ⟨q, _, taken, _, ran⟩ := ran
    cases taken <;> cases ran <;> rfl
  unfold workerFunc at ran
  split at ran
  case h_2 place | h_3 place => exact ⟨by rw [place]; rfl, dequeued ran⟩
  case h_1 place | h_4 place | h_5 place | h_6 place =>
    cases ran
    exact ⟨by rw [place]; rfl, rfl⟩
  all_goals cases ran

/-- A request that is passed to a queue is accepted or refused. -/
theorem SlotOk.enqueue_mentions {phase : Phase} {slot after : Slot Job} (valid : SlotOk phase slot)
    (present : slot.queue = some q) (called : slot.enqueue q node req = some after)
    (number : Nat) :
    after.mentions number + numberCount number (slot.refuses req) =
      slot.mentions number + numberCount number [req] := by
  obtain ⟨_, items, contents⟩ := valid.queue q present
  obtain ⟨_, accepted, _, _, woken⟩ := valid.enqueue present called
  have thread : after.thread.nested = slot.thread.nested := by
    rcases woken with same | same
    · rw [same]
    · rw [same, wake_nested]
  have refuses : slot.refuses req = if phase.isClosed then [req] else [] := by
    simp [Slot.refuses, present, contents.closed]
  rw [Slot.mentions, Slot.mentions, accepted, thread, refuses]
  cases phase.isClosed with
  | true => simp
  | false =>
    simp
    omega

namespace Pool

variable {pool next : Pool Job}

/-- How often the pool has a request, on its way to a queue or in an entry. -/
def mentions (numThreads : Nat) (pool : Pool Job) (number : Nat) : Nat :=
  numberCount number (pool.main.pending.map Prod.fst) +
    ∑ i ∈ Finset.range numThreads, (pool.slots i).mentions number

private theorem mentions_quiet (slots : next.slots = pool.slots)
    (pending : next.main.pending = pool.main.pending) (number : Nat) :
    next.mentions numThreads number = pool.mentions numThreads number := by
  rw [mentions, mentions, slots, pending]

private theorem mentions_slot {slot : Slot Job} {main : MainPc Job} (number : Nat)
    (pending : main.pending = pool.main.pending)
    (same : slot.mentions number = (pool.slots i).mentions number) :
    mentions numThreads { pool.setSlot i slot with main } number =
      pool.mentions numThreads number := by
  have entries : ∀ k, ((pool.setSlot i slot).slots k).mentions number =
      (pool.slots k).mentions number := by
    intro k
    by_cases here : k = i
    · subst here
      simpa [setSlot] using same
    · simp [setSlot, here]
  simp only [mentions, pending, entries]

private theorem PoolOk.enqueueOn_mentions (valid : PoolOk numThreads pool)
    (inside : index < numThreads)
    (sound : next.fault = false) (called : pool.enqueueOn index node req = some next)
    (number : Nat) :
    next.main = pool.main ∧ next.requests = pool.requests ∧
      (∑ i ∈ Finset.range numThreads, (next.slots i).mentions number) +
          numberCount number ((pool.slots index).refuses req) =
        (∑ i ∈ Finset.range numThreads, (pool.slots i).mentions number) +
          numberCount number [req] := by
  rcases enqueueOn_cases called with ⟨_, rfl⟩ | ⟨q, slot, present, ran, rfl⟩
  · cases sound
  · have one := (valid.slots index).enqueue_mentions present ran number
    have total := Transition.sum_update (Slot.mentions number) pool.slots
      (Finset.mem_range.mpr inside) slot
    refine ⟨rfl, rfl, ?_⟩
    simp only [setSlot]
    omega

private theorem setThread_mentions (pool : Pool Job) (inside : i < numThreads)
    (thread : WorkerPc Job)
    (number : Nat) :
    (∑ k ∈ Finset.range numThreads, ((pool.setThread i thread).slots k).mentions number) +
        numberCount number (pool.slots i).thread.nested =
      (∑ k ∈ Finset.range numThreads, (pool.slots k).mentions number) +
        numberCount number thread.nested := by
  have total := Transition.sum_update (Slot.mentions number) pool.slots (Finset.mem_range.mpr inside)
    { pool.slots i with thread }
  have after : Slot.mentions number { pool.slots i with thread } +
      numberCount number (pool.slots i).thread.nested =
      (pool.slots i).mentions number + numberCount number thread.nested := by
    simp only [Slot.mentions]
    omega
  simp only [setThread, setSlot] at total after ⊢
  omega

/-- The step makes the next request, or moves the requests that there are. -/
structure Accounts (numThreads : Nat) (pool next : Pool Job) (refused : List (Request Job))
    (made : Nat) : Prop where
  single : made ≤ 1
  requests : next.requests = pool.requests + made
  mentions : ∀ number, next.mentions numThreads number + numberCount number refused =
    pool.mentions numThreads number + if pool.requests = number then made else 0

theorem Accounts.quiet (requests : next.requests = pool.requests)
    (mentions : ∀ number, next.mentions numThreads number = pool.mentions numThreads number) :
    Accounts numThreads pool next [] 0 where
  single := Nat.zero_le 1
  requests := requests
  mentions := by
    intro number
    simp [mentions number]

theorem PoolOk.accounts (valid : PoolOk numThreads pool) (draws : DrawsInside numThreads pool)
    (taken : Stepped numThreads pool label next) (sound : next.fault = false) :
    ∃ made, Accounts numThreads pool next (pool.refusals label) made := by
  have bounds := valid.bounds
  cases taken with
  | @create i node place more =>
    have unborn : (pool.slots i).thread = .unborn := by
      apply (valid.slots i).unborn.mpr
      simp [place, MainPc.phase]
    refine ⟨0, ?_⟩
    simp only [refusals, place]
    refine .quiet rfl fun number => mentions_slot number (by rw [place]; rfl) ?_
    exact mentions_kept (valid.idle i place i).symm (by rw [unborn]; rfl) number
  | @created i node place | @destroy node place | @closed i node place | @join i node place
  | @joined i node place | @finish node place =>
    refine ⟨0, ?_⟩
    simp only [refusals, place]
    refine .quiet rfl fun number => mentions_quiet ?_ ?_ number
    · rfl
    · rw [place]
      rfl
  | @add job rand rest node place calls found =>
    refine ⟨1, le_rfl, rfl, fun number => ?_⟩
    simp only [refusals, place, mentions, MainPc.pending, List.map_cons, List.map_nil,
      numberCount_cons, numberCount_nil]
    omega
  | addFault => cases sound
  | @enqueue req index node after place called =>
    have inside : index < numThreads := by simpa [place, InBounds] using bounds
    have unharmed : after.fault = false := sound
    have same (number) := valid.enqueueOn_mentions inside unharmed called number
    refine ⟨0, Nat.zero_le 1, (same 0).2.1, fun number => ?_⟩
    have entries := (same number).2.2
    simp only [refusals, mentions, place, MainPc.pending, List.map_cons, List.map_nil, numberCount_nil,
      ite_self] at entries ⊢
    omega
  | @close i q node place more live =>
    refine ⟨0, ?_⟩
    simp only [refusals, place]
    refine .quiet rfl fun number => mentions_slot number (by rw [place]; rfl) ?_
    refine mentions_kept ?_ ?_ number
    · rfl
    · exact wake_nested _
  | @drain i q r req node place live turn =>
    cases (valid.drain_empty place live).symm.trans turn
  | @drained i q node place | @release i node place =>
    refine ⟨0, ?_⟩
    simp only [refusals, place]
    exact .quiet rfl fun number => mentions_slot number (by rw [place]; rfl) rfl
  | @worker i slot ran =>
    obtain ⟨before, after⟩ := workerFunc_nested ran
    refine ⟨0, .quiet rfl fun number => mentions_slot number rfl ?_⟩
    exact mentions_kept ((valid.slots i).workerFunc ran).2 (after.trans before.symm) number
  | @spurious i waits =>
    refine ⟨0, .quiet rfl fun number => mentions_slot number rfl ?_⟩
    refine mentions_kept ?_ ?_ number
    · rfl
    · rw [waits]
      rfl
  | @nestedAdd i req rand job runs found =>
    have inside : i < numThreads := valid.inside (by simp [runs])
    refine ⟨1, le_rfl, rfl, fun number => ?_⟩
    have total := pool.setThread_mentions inside
      (.adding req ⟨pool.requests, job⟩ (rand % numThreads)) number
    rw [runs] at total
    simp only [WorkerPc.nested, numberCount_cons, numberCount_nil] at total
    simp only [refusals, mentions, setThread, setSlot, numberCount_nil] at total ⊢
    omega
  | nestedFault => cases sound
  | @nestedEnqueue i req nested target node after runs called =>
    have inside : i < numThreads := valid.inside (by simp [runs])
    have unharmed : after.fault = false := sound
    obtain ⟨_, _, woken, _⟩ := valid.enqueueOn_work (draws i req nested target runs) called
    have place : (after.slots i).thread = .adding req nested target := by
      rcases woken i with same | same <;> simp [same, runs, WorkerPc.wake]
    have same (number) := valid.enqueueOn_mentions (draws i req nested target runs) unharmed called
      number
    refine ⟨0, Nat.zero_le 1, (same 0).2.1, fun number => ?_⟩
    have entries := (same number).2.2
    have total := after.setThread_mentions inside (.working req) number
    rw [place] at total
    simp only [WorkerPc.nested, numberCount_nil] at total
    simp only [refusals, runs, mentions, setThread, setSlot, (same number).1, ite_self] at total ⊢
    omega

end Pool

namespace Records

open Pool

variable {records : Records Job}

/-- Until a fault, each request that was made is in the pool or was refused, once. -/
def Numbered (numThreads : Nat) (records : Records Job) : Prop :=
  Alive numThreads records.pool ∧ (records.pool.fault = false → ∀ number,
    records.pool.mentions numThreads number + numberCount number records.refused =
      if number < records.pool.requests then 1 else 0)

theorem numbered_invariant (positive : 0 < numThreads) (script : List (Job × Nat)) :
    Transition.Invariant (step numThreads) (fun _ => True) (init script) (Numbered numThreads) where
  initial := by
    refine ⟨alive_init numThreads script, fun _ number => ?_⟩
    simp [init, Pool.init, mentions, MainPc.pending, Slot.mentions, Slot.vacant, WorkerPc.nested]
  preserved := by
    rintro records label next ⟨alive, numbered⟩ - taken
    obtain ⟨moved, recorded⟩ := step_pool taken
    refine ⟨alive.step positive moved, fun still number => ?_⟩
    obtain ⟨sound, happened⟩ := stepped moved
    obtain ⟨valid, draws⟩ := alive sound
    obtain ⟨made, accounts⟩ := valid.accounts draws happened still
    have before := numbered sound number
    have after := accounts.mentions number
    have single := accounts.single
    rw [recorded, numberCount_append, accounts.requests]
    split at before <;> split at after <;> split <;> omega

/-- When `thread_pool_destroy` returns, no request is on its way any more. -/
theorem returned_mentions {pool : Pool Job} (valid : PoolOk numThreads pool)
    (done : pool.main = .returned) (number : Nat) :
    pool.mentions numThreads number =
      ∑ i ∈ Finset.range numThreads, numberCount number (pool.slots i).executed := by
  have pending : pool.main.pending = [] := by
    rw [done]
    rfl
  rw [mentions, pending, List.map_nil, numberCount_nil, Nat.zero_add]
  apply Finset.sum_congr rfl
  intro i member
  have inside := Finset.mem_range.mp member
  have ok := valid.slots i
  have gone : pool.main.phase numThreads i = .gone := by
    simp [done, MainPc.phase, Nat.not_le.mpr inside]
  rw [gone] at ok
  rw [Slot.mentions, (valid.vacated done i).accepted, ok.exited rfl]
  rfl

private theorem numberCount_flatMap (requests : Nat → List (Request Job)) (count number : Nat) :
    numberCount number ((List.range count).flatMap requests) =
      ∑ i ∈ Finset.range count, numberCount number (requests i) := by
  induction count with
  | zero => rfl
  | succ count ih =>
    rw [List.range_succ, List.flatMap_append, numberCount_append, ih, Finset.sum_range_succ]
    simp

/-- Each request that was made is at the end with a worker or was refused. -/
theorem Numbered.settled (numbered : Numbered numThreads records)
    (sound : records.pool.fault = false) (done : records.pool.main = .returned) :
    ((((List.range numThreads).flatMap fun i => (records.pool.slots i).executed) ++
      records.refused).map Request.number).Perm (List.range records.pool.requests) := by
  rw [List.perm_iff_count]
  intro number
  have once := numbered.2 sound number
  rw [returned_mentions (numbered.1 sound).1 done, ← numberCount_flatMap,
    ← numberCount_append] at once
  rw [List.nodup_range.count]
  simpa only [numberCount, List.mem_range] using once

/-- Work functions may add to the pool at any time, also while it is destroyed.
When `thread_pool_destroy` returns and no call has used a freed object, each
request that was made was executed by one worker, once, and freed by it, or it
was refused by a closed queue and is freed by nobody. -/
theorem nested_requests_settled (positive : 0 < numThreads) (script : List (Job × Nat))
    (labels : List (Label Job))
    (ran : Transition.run (step numThreads) (init script) labels = some records)
    (sound : records.pool.fault = false) (done : records.pool.main = .returned) :
    ((((List.range numThreads).flatMap fun i => (records.pool.slots i).executed) ++
        records.refused).map Request.number).Perm (List.range records.pool.requests) ∧
      (∀ i, (records.pool.slots i).executed = (records.pool.slots i).accepted ∧
        (records.pool.slots i).freed = (records.pool.slots i).executed) ∧
      records.pool.drained = [] := by
  have numbered := (numbered_invariant positive script).run (fun _ _ => trivial) ran
  have valid := (numbered.1 sound).1
  refine ⟨numbered.settled sound done, ?_, valid.drained⟩
  intro i
  have vacated := valid.vacated done i
  exact ⟨vacated.accepted.symm, vacated.freed⟩

/-- The run goes on until the pool is destroyed; the added request is refused. -/
def ownAddEnd : List (Label Nat) :=
  ownAdd ++ [.worker 1, .worker 1, .worker 1, .worker 1, .main 0, .main 0, .main 0, .main 0,
    .main 0]

theorem nested_requests_settled_sample :
    ∃ records : Records Nat, Transition.run (step 2) (init [(7, 1)]) ownAddEnd = some records ∧
      records.pool.fault = false ∧ records.pool.main = .returned ∧ records.refused = [⟨1, 8⟩] ∧
      ((((List.range 2).flatMap fun i => (records.pool.slots i).executed) ++
        records.refused).map Request.number).Perm (List.range records.pool.requests) ∧
      (∀ i, (records.pool.slots i).executed = (records.pool.slots i).accepted ∧
        (records.pool.slots i).freed = (records.pool.slots i).executed) ∧
      records.pool.drained = [] :=
  ⟨_, rfl, rfl, rfl, rfl, nested_requests_settled (by decide) [(7, 1)] ownAddEnd rfl rfl rfl⟩

end Records

end RequestProxy.Librequest
