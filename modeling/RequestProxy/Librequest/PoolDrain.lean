import Mathlib.Algebra.BigOperators.Ring.Finset
import RequestProxy.Librequest.PoolInvariant
import RequestProxy.Abstract.Routing

namespace RequestProxy.Librequest

open Abstract

universe u

variable {Job : Type u} {numThreads : Nat}

namespace Pool

/-- The requests that calls of `thread_pool_add` make, each with the index it
is routed to. -/
def submissions (numThreads : Nat) : Nat → List (Job × Nat) → List (Request Job × Nat)
  | _, [] => []
  | number, (job, rand) :: script =>
    (⟨number, job⟩, rand % numThreads) :: submissions numThreads (number + 1) script

/-- A step in which no work function calls the pool. -/
def Label.External : Label Job → Prop
  | .main _ | .worker _ | .spurious _ => True
  | .nestedAdd _ _ _ | .nestedEnqueue _ _ => False

/-- A step that a thread takes by itself, no spurious wake-up. -/
def Label.OfThread : Label Job → Prop
  | .main _ | .worker _ => True
  | .spurious _ | .nestedAdd _ _ _ | .nestedEnqueue _ _ => False

end Pool

/-- The request a call of `thread_pool_add` has made and not yet enqueued. -/
def MainPc.pending : MainPc Job → List (Request Job × Nat)
  | .enqueueing req index => [(req, index)]
  | _ => []

/-- The owner can still make requests. -/
def MainPc.Submitting (main : MainPc Job) : Prop :=
  (∃ i, main = .creating i) ∨ main = .adding ∨ ∃ req index, main = .enqueueing req index

/-- The work function of a worker is inside a call of `thread_pool_add`. -/
def WorkerPc.Nested (thread : WorkerPc Job) : Prop :=
  ∃ req nested index, thread = .adding req nested index

namespace Pool

private theorem submissions_length (number : Nat) (script : List (Job × Nat)) :
    (submissions numThreads number script).length = script.length := by
  induction script generalizing number with
  | nil => rfl
  | cons call script ih => simp [submissions, ih]

theorem submissions_inside (positive : 0 < numThreads) (number : Nat)
    (script : List (Job × Nat)) :
    ∀ send ∈ submissions numThreads number script, send.2 < numThreads := by
  induction script generalizing number with
  | nil => simp [submissions]
  | cons call script ih =>
    intro send member
    rcases List.mem_cons.mp member with first | later
    · rw [first]
      exact Nat.mod_lt _ positive
    · exact ih (number + 1) send later

theorem submissions_numbers (number : Nat) (script : List (Job × Nat)) :
    (submissions numThreads number script).map (fun send => send.1.number) =
      List.range' number script.length := by
  induction script generalizing number with
  | nil => rfl
  | cons call script ih => simp [submissions, List.range'_succ, ih]

theorem submissions_nodup (number : Nat) (script : List (Job × Nat)) :
    ((submissions numThreads number script).map Prod.fst).Nodup := by
  apply List.Nodup.of_map Request.number
  rw [List.map_map]
  exact submissions_numbers number script ▸ List.nodup_range'

/-- The requests made so far are in the queues they were routed to. -/
structure Routed (numThreads : Nat) (script : List (Job × Nat)) (pool : Pool Job) : Prop where
  made : ∃ made, made ++ pool.main.pending ++
      submissions numThreads pool.requests pool.script = submissions numThreads 0 script ∧
    ∀ i, (pool.slots i).accepted = routed i made
  finished : ¬pool.main.Submitting → pool.script = []
  plain : ∀ i, ¬(pool.slots i).thread.Nested

theorem routed_init (numThreads : Nat) (script : List (Job × Nat)) :
    Routed numThreads script (init script) where
  made := ⟨[], rfl, fun _ => rfl⟩
  finished := fun done => absurd (.inl ⟨0, rfl⟩) done
  plain := by simp [init, Slot.vacant, WorkerPc.Nested]

theorem PoolOk.no_fault {pool next : Pool Job} (valid : PoolOk numThreads pool)
    (positive : 0 < numThreads) (external : label.External)
    (taken : Stepped numThreads pool label next) : next.fault = false := by
  cases taken with
  | @addFault job rand rest node place calls missing =>
    have opened := opened_adding place (Nat.mod_lt rand positive)
    rw [(valid.found opened).1] at missing
    cases missing
  | @enqueue req index node after place called =>
    have inside : index < numThreads := by simpa [place, InBounds] using valid.bounds
    have opened := opened_enqueueing place inside
    obtain ⟨_, q, _, there, _⟩ := valid.found opened
    rcases enqueueOn_cases called with ⟨absent, _⟩ | ⟨_, _, _, _, rfl⟩
    · cases absent.symm.trans there
    · exact valid.sound
  | nestedAdd | nestedFault | nestedEnqueue => exact external.elim
  | _ => exact valid.sound

private theorem accepted_set {pool : Pool Job} {made : List (Request Job × Nat)}
    (routes : ∀ i, (pool.slots i).accepted = routed i made)
    (same : slot.accepted = (pool.slots i).accepted) (index : Nat) :
    (Function.update pool.slots i slot index).accepted = routed index made := by
  by_cases here : index = i
  · subst here
    simpa [same] using routes index
  · simpa [here] using routes index

private theorem plain_set {pool : Pool Job} (plain : ∀ i, ¬(pool.slots i).thread.Nested)
    (changed : ¬slot.thread.Nested) (index : Nat) :
    ¬(Function.update pool.slots i slot index).thread.Nested := by
  by_cases here : index = i
  · subst here
    simpa using changed
  · simpa [here] using plain index

private theorem not_nested_wake {thread : WorkerPc Job} (plain : ¬thread.Nested) :
    ¬thread.wake.Nested := by
  cases thread <;> simp_all [WorkerPc.wake, WorkerPc.Nested]

private theorem not_nested_workerFunc {slot after : Slot Job} (ran : workerFunc slot = some after) :
    ¬after.thread.Nested := by
  have dequeued : slot.dequeue = some after → ¬after.thread.Nested := by
    intro ran
    simp only [Slot.dequeue, Option.bind_eq_bind, Option.bind_eq_some_iff] at ran
    obtain ⟨q, _, taken, _, ran⟩ := ran
    cases taken <;> cases ran <;> simp [WorkerPc.Nested]
  unfold workerFunc at ran
  split at ran
  case h_2 | h_3 => exact dequeued ran
  all_goals cases ran
  all_goals simp [WorkerPc.Nested]

theorem Routed.step {script : List (Job × Nat)} {pool next : Pool Job}
    (routes : Routed numThreads script pool) (valid : PoolOk numThreads pool)
    (positive : 0 < numThreads) (external : label.External)
    (taken : Stepped numThreads pool label next) : Routed numThreads script next := by
  obtain ⟨made, calls, accepted⟩ := routes.made
  have plain := routes.plain
  have finished := routes.finished
  cases taken with
  | @create i node place more =>
    have nothing := valid.idle i place
    rw [place] at calls
    refine ⟨⟨made, calls, accepted_set accepted ?_⟩, ?_, plain_set plain ?_⟩
    · exact (nothing i).symm
    · exact fun done => absurd (.inl ⟨i + 1, rfl⟩) done
    · simp [createWorkerThread, WorkerPc.Nested]
  | @created i node place last =>
    rw [place] at calls
    exact ⟨⟨made, calls, accepted⟩, fun done => absurd (.inr (.inl rfl)) done, plain⟩
  | @add job rand rest node place listed found =>
    rw [place, listed] at calls
    refine ⟨⟨made, ?_, accepted⟩, fun done => absurd (.inr (.inr ⟨_, _, rfl⟩)) done, plain⟩
    simpa [MainPc.pending, submissions] using calls
  | addFault =>
    exact ⟨⟨made, calls, accepted⟩, finished, plain⟩
  | @enqueue req index node after place called =>
    have inside : index < numThreads := by simpa [place, InBounds] using valid.bounds
    have opened := opened_enqueueing place inside
    have sound := valid.no_fault positive external (.enqueue place called)
    rcases enqueueOn_cases called with ⟨_, rfl⟩ | ⟨q, slot, present, ran, rfl⟩
    · cases sound
    · obtain ⟨_, took, _, _, woken⟩ := (valid.slots index).enqueue present ran
      rw [opened] at took
      rw [place] at calls
      refine ⟨⟨made ++ [(req, index)], by simpa [MainPc.pending, setSlot] using calls, ?_⟩,
        fun done => absurd (.inr (.inl rfl)) done, plain_set plain ?_⟩
      · intro i
        by_cases here : i = index
        · subst here
          simpa [setSlot, accepted, routed_single, Phase.isClosed] using took
        · simp [setSlot, here, accepted, routed_single, Ne.symm here]
      · rcases woken with same | same
        · exact same ▸ plain index
        · exact same ▸ not_nested_wake (plain index)
  | destroy place listed =>
    rw [place] at calls
    exact ⟨⟨made, calls, accepted⟩, fun _ => listed, plain⟩
  | @close i q node place more live =>
    rw [place] at calls finished
    refine ⟨⟨made, calls, accepted_set accepted rfl⟩, fun _ => ?_, plain_set plain ?_⟩
    · exact finished (by simp [MainPc.Submitting])
    · exact not_nested_wake (plain i)
  | closed place | join place | joined place | finish place =>
    rw [place] at calls finished
    exact ⟨⟨made, calls, accepted⟩, fun _ => finished (by simp [MainPc.Submitting]), plain⟩
  | @drain i q r req node place live turn =>
    rw [place] at calls
    refine ⟨⟨made, place ▸ calls, accepted_set accepted rfl⟩, finished, plain_set plain ?_⟩
    exact plain i
  | @drained i q node place live turn =>
    rw [place] at calls finished
    refine ⟨⟨made, calls, accepted_set accepted rfl⟩, fun _ => ?_, plain_set plain (plain i)⟩
    exact finished (by simp [MainPc.Submitting])
  | @release i node place =>
    rw [place] at calls finished
    refine ⟨⟨made, calls, accepted_set accepted rfl⟩, fun _ => ?_, plain_set plain (plain i)⟩
    exact finished (by simp [MainPc.Submitting])
  | @worker i slot ran =>
    exact ⟨⟨made, calls, accepted_set accepted ((valid.slots i).workerFunc ran).2⟩, finished,
      plain_set plain (not_nested_workerFunc ran)⟩
  | @spurious i waits =>
    refine ⟨⟨made, calls, accepted_set accepted rfl⟩, finished, plain_set plain ?_⟩
    simp [WorkerPc.Nested]
  | nestedAdd | nestedFault | nestedEnqueue => exact external.elim

/-- What holds in every state of a run without nested calls. -/
theorem drain_invariant (positive : 0 < numThreads) (script : List (Job × Nat)) :
    Transition.Invariant (step numThreads) Label.External (init script)
      (fun pool => PoolOk numThreads pool ∧ Routed numThreads script pool) where
  initial := ⟨poolOk_init numThreads script, routed_init numThreads script⟩
  preserved := by
    intro pool label next ⟨valid, routes⟩ external taken
    have moved := (stepped taken).2
    exact ⟨valid.step positive moved (valid.no_fault positive external moved),
      routes.step valid positive external moved⟩

/-- Before `thread_pool_destroy` returns, the owner can move, or the worker that
it waits for can. -/
theorem PoolOk.not_stuck {pool : Pool Job} (valid : PoolOk numThreads pool)
    (plain : ∀ i, ¬(pool.slots i).thread.Nested) (busy : pool.main ≠ .returned) :
    ∃ label next, label.OfThread ∧ Pool.step numThreads pool label = some next := by
  have bounds := valid.bounds
  suffices moves : (∃ node next, mainStep numThreads pool node = some next) ∨
      ∃ i slot, workerFunc (pool.slots i) = some slot by
    rcases moves with ⟨node, next, moves⟩ | ⟨i, slot, moves⟩
    · exact ⟨.main node, next, trivial, by simp [Pool.step, valid.sound, moves]⟩
    · exact ⟨.worker i, pool.setSlot i slot, trivial, by simp [Pool.step, valid.sound, moves]⟩
  cases place : pool.main with
  | creating i =>
    refine .inl ⟨0, ?_⟩
    by_cases more : i < numThreads <;> simp [mainStep, place, more]
  | adding =>
    refine .inl ⟨0, ?_⟩
    cases calls : pool.script with
    | nil => simp [mainStep, place, calls]
    | cons call rest =>
      cases found : pool.present (call.2 % numThreads) <;> simp [mainStep, place, calls, found]
  | enqueueing req index =>
    have inside : index < numThreads := by simpa [place, InBounds] using bounds
    have opened := opened_enqueueing place inside
    obtain ⟨_, q, items, there, settled⟩ := valid.found opened
    obtain ⟨node, r, accepted, ran⟩ := settled.enqueue_enabled req
    refine .inl ⟨node, ?_⟩
    cases accepted <;> simp [mainStep, place, enqueueOn, there, Slot.enqueue, ran]
  | closing i =>
    refine .inl ⟨0, ?_⟩
    by_cases more : i < numThreads
    · have opened : pool.main.phase numThreads i = .opened := by grind [MainPc.phase]
      obtain ⟨_, q, items, there, settled⟩ := valid.found opened
      simp [mainStep, place, more, there]
    · simp [mainStep, place, more]
  | joining i =>
    by_cases more : i < numThreads
    · have closed : pool.main.phase numThreads i = .closed := by grind [MainPc.phase]
      have ok := valid.slots i
      rw [closed] at ok
      have dequeues : ∃ slot, (pool.slots i).dequeue = some slot := by
        cases there : (pool.slots i).queue with
        | none => exact absurd (ok.absent there).1 (by simp [Phase.hasQueue])
        | some q =>
          obtain ⟨_, items, contents⟩ := ok.queue q there
          cases items with
          | nil => simp [Slot.dequeue, there, contents.settled.dequeue_empty, contents.closed,
              Phase.isClosed]
          | cons req items =>
            obtain ⟨r, ran, _⟩ := contents.settled.dequeue
            simp [Slot.dequeue, there, ran]
      cases thread : (pool.slots i).thread with
      | exited => exact .inl ⟨0, by simp [mainStep, place, more, thread]⟩
      | unborn => cases (ok.unborn.mp thread)
      | parked =>
        -- the close woke this worker, and no step parks on a closed queue
        cases there : (pool.slots i).queue with
        | none => exact absurd (ok.absent there).1 (by simp [Phase.hasQueue])
        | some q =>
          obtain ⟨_, items, contents⟩ := ok.queue q there
          have opened := (contents.parked thread).2
          rw [contents.closed] at opened
          cases opened
      | adding req nested index => exact absurd ⟨req, nested, index, thread⟩ (plain i)
      | dequeuing | woken => exact .inr ⟨i, by simpa [workerFunc, thread] using dequeues⟩
      | starting | working | freeing | exiting => exact .inr ⟨i, by simp [workerFunc, thread]⟩
    · exact .inl ⟨0, by simp [mainStep, place, more]⟩
  | draining i =>
    have inside : i < numThreads := by simpa [place, InBounds] using bounds
    have joined : pool.main.phase numThreads i = .joined := by grind [MainPc.phase]
    have ok := valid.slots i
    rw [joined] at ok
    refine .inl ⟨0, ?_⟩
    cases there : (pool.slots i).queue with
    | none => exact absurd (ok.absent there).1 (by simp [Phase.hasQueue])
    | some q =>
      obtain ⟨_, items, contents⟩ := ok.queue q there
      obtain ⟨rfl, _⟩ := contents.stopped (.inr (ok.exited rfl))
      simp [mainStep, place, there, contents.settled.destroy_empty]
  | releasing i => exact .inl ⟨0, by simp [mainStep, place]⟩
  | finishing => exact .inl ⟨0, by simp [mainStep, place]⟩
  | returned => exact absurd place busy

/-- When `thread_pool_destroy` has returned, every entry is vacated, and its
requests are executed and freed. -/
structure Vacated (numThreads index : Nat) (slot : Slot Job) : Prop where
  worker : slot.worker = false
  queue : slot.queue = none
  created : slot.thread = .unborn ↔ numThreads ≤ index
  accepted : slot.accepted = slot.executed
  freed : slot.freed = slot.executed

theorem PoolOk.vacated {pool : Pool Job} (valid : PoolOk numThreads pool)
    (done : pool.main = .returned) (i : Nat) : Vacated numThreads i (pool.slots i) := by
  have ok := valid.slots i
  have phase : pool.main.phase numThreads i = if numThreads ≤ i then .unborn else .gone := by
    rw [done]
    rfl
  have nothing : (pool.slots i).queue = none := by
    cases there : (pool.slots i).queue with
    | none => rfl
    | some q =>
      have live := (ok.queue q there).1
      rw [phase] at live
      split at live <;> cases live
  have idle : (pool.slots i).thread.current = [] := by
    by_cases outside : numThreads ≤ i
    · simp [ok.unborn.mpr (by rw [phase, if_pos outside]), WorkerPc.current]
    · simp [ok.exited (by rw [phase, if_neg outside]; rfl), WorkerPc.current]
  refine ⟨?_, nothing, ?_, (ok.absent nothing).2, ?_⟩
  · rw [ok.worker, phase]
    split <;> rfl
  · rw [ok.unborn, phase]
    simp
  · rw [ok.freed, idle, List.append_nil]

/-- Every worker has then run exactly the requests that were routed to it. -/
theorem Routed.returned {script : List (Job × Nat)} {pool : Pool Job}
    (routes : Routed numThreads script pool)
    (valid : PoolOk numThreads pool) (done : pool.main = .returned) (i : Nat) :
    (pool.slots i).executed = routed i (submissions numThreads 0 script) ∧
      (pool.slots i).freed = (pool.slots i).executed := by
  obtain ⟨made, calls, accepted⟩ := routes.made
  have everything : made = submissions numThreads 0 script := by
    simpa [done, MainPc.pending, routes.finished (by simp [done, MainPc.Submitting]),
      submissions] using calls
  have vacated := valid.vacated done i
  exact ⟨by rw [← vacated.accepted, accepted, everything], vacated.freed⟩

/-- A worker that has run fewer than 2^31 requests has counted them. -/
theorem Routed.counted {script : List (Job × Nat)} {pool : Pool Job}
    (routes : Routed numThreads script pool)
    (valid : PoolOk numThreads pool) (done : pool.main = .returned) {i : Nat}
    (few : (routed i (submissions numThreads 0 script)).length < 2 ^ 31) :
    (pool.slots i).processed.toInt = (pool.slots i).executed.length := by
  obtain ⟨executed, freed⟩ := routes.returned valid done i
  rw [(valid.slots i).processed, freed]
  exact Int32.toInt_ofNat_of_lt (executed ▸ few)

/-- A run of the pool in which no work function adds to it. When
`thread_pool_destroy` returns, every request was run exactly once, by the worker
it was routed to and in order, and was freed by that worker; until then some
thread can move. The counts add up as long as no `processed_count` overflows. -/
theorem pool_drains (positive : 0 < numThreads) (script : List (Job × Nat))
    (labels : List (Label Job)) (external : ∀ label ∈ labels, label.External)
    (ran : Transition.run (step numThreads) (init script) labels = some pool) :
    (pool.main = .returned →
      (((submissions numThreads 0 script).map Prod.fst).Nodup ∧
        ((List.range numThreads).flatMap fun i => (pool.slots i).executed).Perm
          ((submissions numThreads 0 script).map Prod.fst)) ∧
      (∀ i, (pool.slots i).executed = routed i (submissions numThreads 0 script)) ∧
      ((∀ i, (routed i (submissions numThreads 0 script)).length < 2 ^ 31) →
        ((List.range numThreads).map fun i => (pool.slots i).processed.toInt).sum =
          script.length) ∧
      (∀ i, (pool.slots i).freed = (pool.slots i).executed) ∧ pool.drained = []) ∧
    (pool.main ≠ .returned →
      ∃ label next, label.OfThread ∧ step numThreads pool label = some next) := by
  obtain ⟨valid, routes⟩ := (drain_invariant positive script).run external ran
  refine ⟨fun done => ?_, fun busy => valid.not_stuck routes.plain busy⟩
  have executed : (fun i => (pool.slots i).executed) =
      fun i => routed i (submissions numThreads 0 script) :=
    funext fun i => (routes.returned valid done i).1
  have complete : ((List.range numThreads).flatMap fun i => (pool.slots i).executed).Perm
      ((submissions numThreads 0 script).map Prod.fst) :=
    executed ▸ routed_perm_all _ (submissions_inside positive 0 script)
  refine ⟨⟨submissions_nodup 0 script, complete⟩, congrFun executed, fun few => ?_,
    fun i => (routes.returned valid done i).2, valid.drained⟩
  have counted : (fun i => (pool.slots i).processed.toInt) =
      fun i => ((pool.slots i).executed.length : Int) :=
    funext fun i => routes.counted valid done (few i)
  have all : ((List.range numThreads).map fun i => (pool.slots i).executed.length).sum =
      script.length := by
    rw [← List.length_flatMap, complete.length_eq, List.length_map, submissions_length]
  rw [counted, ← all, Nat.cast_list_sum, List.map_map]
  rfl

/-- Two workers, one of which parks before its request comes; each runs one
request. -/
def drainTwo : List (Label Nat) :=
  [.main 0, .main 0, .worker 1, .worker 1, .main 0, .main 0, .main 40, .worker 1, .main 0,
    .main 40, .main 0, .main 0, .worker 1, .main 0, .main 0, .worker 0, .worker 0, .worker 0,
    .worker 0, .worker 0, .worker 0, .main 0, .main 0, .main 0, .worker 1, .worker 1, .worker 1,
    .main 0, .main 0, .main 0, .main 0, .main 0]

theorem pool_drains_sample :
    ∃ pool : Pool Nat, Transition.run (step 2) (init [(7, 5), (8, 2)]) drainTwo = some pool ∧
      pool.main = .returned ∧
      (((submissions 2 0 [(7, 5), (8, 2)]).map Prod.fst).Nodup ∧
        ((List.range 2).flatMap fun i => (pool.slots i).executed).Perm
          ((submissions 2 0 [(7, 5), (8, 2)]).map Prod.fst)) ∧
      (∀ i, (pool.slots i).executed = routed i (submissions 2 0 [(7, 5), (8, 2)])) ∧
      ((∀ i, (routed i (submissions 2 0 [(7, 5), (8, 2)])).length < 2 ^ 31) →
        ((List.range 2).map fun i => (pool.slots i).processed.toInt).sum = 2) ∧
      (∀ i, (pool.slots i).freed = (pool.slots i).executed) ∧ pool.drained = [] := by
  refine ⟨_, rfl, rfl, ?_⟩
  exact (pool_drains (by decide) [(7, 5), (8, 2)] drainTwo
    (by simp [drainTwo, Label.External]) rfl).1 rfl

end Pool

end RequestProxy.Librequest
