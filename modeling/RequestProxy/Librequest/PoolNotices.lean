import Mathlib.Data.Int.Interval
import Mathlib.Data.Set.Function
import RequestProxy.Librequest.PoolNested
import RequestProxy.Transition.Record

/-! The numbers of the workers and what the library prints. A worker takes the next
value of `thread_counter` before its loop, and behind the loop it prints how many
requests it has processed. -/

namespace RequestProxy.Librequest

open Transition

universe u

variable {Job : Type u} {numThreads : Nat}

/-- What is printed: two lines by each worker, and one by `queue_enqueue` on a
closed queue. -/
inductive Notice where
  | starting (localId : Int32)
  | exiting (localId processedCount : Int32)
  | refused
  deriving DecidableEq

namespace Notice

def localId : Notice → Option Int32
  | .starting localId => some localId
  | .exiting localId _ => some localId
  | .refused => none

@[simp] theorem starting_localId (number : Int32) :
    (Notice.starting number).localId = some number := rfl

@[simp] theorem exiting_localId (number count : Int32) :
    (Notice.exiting number count).localId = some number := rfl

@[simp] theorem refused_localId : Notice.refused.localId = none := rfl

def text : Notice → String
  | .starting localId => s!"thread-{localId.toInt} starting\n"
  | .exiting localId processedCount =>
    s!"thread-{localId.toInt} exiting. Processed {processedCount.toInt} requests.\n"
  | .refused => "queue_enqueue called on closed queue.\n"

end Notice

/-- `thread_counter`, the number of each worker that has one, and what was
printed. -/
structure Numbers where
  threadCounter : Int32
  localId : Nat → Int32
  printed : List Notice

/-- The counter is the process's own: earlier pools have left it where it is. -/
def Numbers.start (threadCounter : Int32) : Numbers := ⟨threadCounter, fun _ => 0, []⟩

/-- What `worker_func` does besides its steps, before and behind its loop, and
`queue_enqueue` when it refuses a request. -/
def Numbers.note (pool : Pool Job) (label : Pool.Label Job) (_ : Pool Job)
    (numbers : Numbers) : Numbers :=
  match label with
  | .worker i =>
    match (pool.slots i).thread with
    | .starting => {
        threadCounter := numbers.threadCounter + 1
        localId := Function.update numbers.localId i numbers.threadCounter
        printed := numbers.printed ++ [.starting numbers.threadCounter] }
    | .exiting => { numbers with
        printed := numbers.printed ++ [.exiting (numbers.localId i) (pool.slots i).processed] }
    | _ => numbers
  | label => { numbers with
      printed := numbers.printed ++ (pool.refusals label).map fun _ => .refused }

/-- The worker has its number. -/
def WorkerPc.named : WorkerPc Job → Bool
  | .unborn | .starting => false
  | .dequeuing | .parked | .woken | .working _ | .adding _ _ _ | .freeing _ | .exiting
  | .exited => true

/-- What the worker of an entry has printed. -/
def Slot.notices (slot : Slot Job) (localId : Int32) : List Notice :=
  match slot.thread with
  | .unborn | .starting => []
  | .dequeuing | .parked | .woken | .working _ | .adding _ _ _ | .freeing _ | .exiting =>
    [.starting localId]
  | .exited => [.starting localId, .exiting localId slot.processed]

/-- The worker of an entry neither takes its number nor prints. -/
structure Slot.Quiet (slot after : Slot Job) : Prop where
  named : after.thread.named = slot.thread.named
  notices : ∀ localId, after.notices localId = slot.notices localId

theorem Slot.Quiet.refl (slot : Slot Job) : slot.Quiet slot := ⟨rfl, fun _ => rfl⟩

theorem Slot.Quiet.woken {slot after : Slot Job}
    (thread : after.thread = slot.thread ∨ after.thread = slot.thread.wake)
    (processed : after.processed = slot.processed) : slot.Quiet after := by
  constructor
  · rcases thread with same | same <;> rw [same]
    cases slot.thread <;> rfl
  · intro localId
    rw [Slot.notices, Slot.notices, processed]
    rcases thread with same | same <;> rw [same]
    cases slot.thread <;> rfl

theorem Slot.Quiet.running {slot after : Slot Job} (was : ∀ localId,
      slot.notices localId = [.starting localId])
    (now : ∀ localId, after.notices localId = [.starting localId]) : slot.Quiet after := by
  have named : ∀ {slot : Slot Job}, (∀ localId, slot.notices localId = [.starting localId]) →
      slot.thread.named = true := by
    intro slot printed
    have first := printed 0
    rw [Slot.notices] at first
    cases place : slot.thread with
    | unborn | starting => simp [place] at first
    | _ => rfl
  exact ⟨(named now).trans (named was).symm, fun localId => (now localId).trans (was localId).symm⟩

namespace Pool

variable {pool next : Pool Job} {slot : Slot Job}

private theorem workerFunc_quiet {slot after : Slot Job} (ran : workerFunc slot = some after)
    (started : slot.thread ≠ .starting) (stays : slot.thread ≠ .exiting) : slot.Quiet after := by
  have dequeued : slot.dequeue = some after → ∀ localId,
      after.notices localId = [.starting localId] := by
    intro ran localId
    simp only [Slot.dequeue, Option.bind_eq_bind, Option.bind_eq_some_iff] at ran
    obtain ⟨q, _, taken, _, ran⟩ := ran
    cases taken <;> cases ran <;> rfl
  cases place : slot.thread with
  | starting => exact absurd place started
  | exiting => exact absurd place stays
  | unborn | parked | adding | exited => simp [workerFunc, place] at ran
  | dequeuing | woken =>
    simp only [workerFunc, place] at ran
    exact .running (by simp [Slot.notices, place]) (dequeued ran)
  | working req | freeing req =>
    simp only [workerFunc, place, Option.some.injEq] at ran
    subst ran
    exact .running (by simp [Slot.notices, place]) (by simp [Slot.notices])

private theorem quiet_set (changed : (pool.slots i).Quiet slot) (index : Nat) :
    (pool.slots index).Quiet (Function.update pool.slots i slot index) := by
  by_cases here : index = i
  · subst here
    simpa using changed
  · simpa [here] using Slot.Quiet.refl _

private theorem enqueueOn_quiet {after : Pool Job} (valid : PoolOk numThreads pool)
    (called : pool.enqueueOn index node req = some after) (i : Nat) :
    (pool.slots i).Quiet (after.slots i) := by
  rcases enqueueOn_cases called with ⟨_, rfl⟩ | ⟨q, slot, present, ran, rfl⟩
  · exact .refl _
  · obtain ⟨ok, _, _, freed, woken⟩ := (valid.slots index).enqueue present ran
    refine quiet_set (.woken woken ?_) i
    rw [ok.processed, freed, (valid.slots index).processed]

/-- A worker prints before its loop and behind it, and nowhere else. -/
theorem Stepped.quiet (taken : Stepped numThreads pool label next)
    (valid : PoolOk numThreads pool)
    (other : ∀ i, label = .worker i → (pool.slots i).thread ≠ .starting ∧
      (pool.slots i).thread ≠ .exiting) (i : Nat) : (pool.slots i).Quiet (next.slots i) := by
  cases taken with
  | @create k node place more =>
    have phase : pool.main.phase numThreads k = .unborn := by simp [place, MainPc.phase]
    have unborn := (valid.slots k).unborn.mpr phase
    refine quiet_set ⟨by rw [unborn]; rfl, fun localId => ?_⟩ i
    simp [Slot.notices, unborn, createWorkerThread]
  | created | add | addFault | destroy | closed | join | joined | finish | nestedFault =>
    exact .refl _
  | enqueue place called => exact enqueueOn_quiet valid called i
  | close =>
    refine quiet_set (.woken (.inr ?_) ?_) i
    · rfl
    · rfl
  | drain | drained | release =>
    refine quiet_set (.woken (.inl ?_) ?_) i
    · rfl
    · rfl
  | @worker k slot ran =>
    obtain ⟨started, stays⟩ := other k rfl
    exact quiet_set (workerFunc_quiet ran started stays) i
  | spurious waits =>
    refine quiet_set (.running ?_ ?_) i
    · simp [Slot.notices, waits]
    · simp [Slot.notices]
  | nestedAdd runs found =>
    refine quiet_set (.running ?_ ?_) i
    · simp [Slot.notices, runs]
    · simp [Slot.notices]
  | @nestedEnqueue k req nested target node after runs called =>
    have before := enqueueOn_quiet valid called
    by_cases here : i = k
    · subst here
      refine .running (by simp [Slot.notices, runs]) ?_
      simp [setThread, setSlot, Slot.notices]
    · simpa [setThread, setSlot, here] using before i

end Pool

namespace Numbers

variable {pool next : Pool Job} {numbers : Numbers} {slot : Slot Job} {first : Int32}

private theorem toInt_succ {number : Int32} (below : number.toInt + 1 < 2 ^ 31) :
    (number + 1).toInt = number.toInt + 1 := by
  have above := number.le_toInt
  have one : (1 : Int32).toInt = 1 := by decide
  rw [Int32.toInt_add, one]
  exact Int.bmod_eq_of_le (by omega) (by omega)

/-- Each number from the first one to `thread_counter` belongs to one worker, and
what was printed with it was printed by that worker. -/
structure Assigned (first : Int32) (pool : Pool Job) (numbers : Numbers) : Prop where
  above : first.toInt ≤ numbers.threadCounter.toInt
  inside : ∀ i, (pool.slots i).thread.named = true →
    first.toInt ≤ (numbers.localId i).toInt ∧
      (numbers.localId i).toInt < numbers.threadCounter.toInt
  owned : ∀ number, first.toInt ≤ number → number < numbers.threadCounter.toInt →
    ∃ i, (pool.slots i).thread.named = true ∧ (numbers.localId i).toInt = number
  distinct : ∀ i j, (pool.slots i).thread.named = true → (pool.slots j).thread.named = true →
    numbers.localId i = numbers.localId j → i = j
  told : ∀ i, (pool.slots i).thread.named = true →
    numbers.printed.filter (fun notice => notice.localId = some (numbers.localId i)) =
      (pool.slots i).notices (numbers.localId i)
  known : ∀ notice ∈ numbers.printed, ∀ number, notice.localId = some number →
    first.toInt ≤ number.toInt ∧ number.toInt < numbers.threadCounter.toInt

private theorem assigned_init (first : Int32) (script : List (Job × Nat)) :
    Assigned first (Pool.init script) (.start first) where
  above := le_rfl
  inside := by simp [Pool.init, Slot.vacant, WorkerPc.named]
  owned := by
    intro number above below
    exact absurd below (Int.not_lt.mpr above)
  distinct := by simp [Pool.init, Slot.vacant, WorkerPc.named]
  told := by simp [Pool.init, Slot.vacant, WorkerPc.named]
  known := by simp [start]

theorem Assigned.quiet (assigned : Assigned first pool numbers)
    (quiet : ∀ i, (pool.slots i).Quiet (next.slots i)) (refused : List (Request Job)) :
    Assigned first next { numbers with
      printed := numbers.printed ++ refused.map fun _ => .refused } where
  above := assigned.above
  inside := fun i named => assigned.inside i ((quiet i).named ▸ named)
  owned := by
    intro number above below
    obtain ⟨i, named, same⟩ := assigned.owned number above below
    exact ⟨i, (quiet i).named.trans named, same⟩
  distinct := fun i j first second =>
    assigned.distinct i j ((quiet i).named ▸ first) ((quiet j).named ▸ second)
  told := by
    intro i named
    rw [List.filter_append, assigned.told i ((quiet i).named ▸ named), (quiet i).notices]
    simp
  known := by
    intro notice printed number named
    rcases List.mem_append.mp printed with earlier | last
    · exact assigned.known notice earlier number named
    · obtain ⟨_, _, rfl⟩ := List.mem_map.mp last
      cases named

/-- The workers that have a number are as many as the counter has gone up. -/
theorem Assigned.count (assigned : Assigned first pool numbers) {named : Finset Nat}
    (exact : ∀ i, i ∈ named ↔ (pool.slots i).thread.named = true) :
    numbers.threadCounter.toInt = first.toInt + named.card := by
  have image : named.image (fun i => (numbers.localId i).toInt) =
      Finset.Ico first.toInt numbers.threadCounter.toInt := by
    ext number
    simp only [Finset.mem_image, Finset.mem_Ico]
    constructor
    · rintro ⟨i, member, rfl⟩
      exact assigned.inside i ((exact i).mp member)
    · rintro ⟨above, below⟩
      obtain ⟨i, has, same⟩ := assigned.owned number above below
      exact ⟨i, (exact i).mpr has, same⟩
  have injective : Set.InjOn (fun i => (numbers.localId i).toInt) named := by
    intro i one j other same
    exact assigned.distinct i j ((exact i).mp (by simpa using one))
      ((exact j).mp (by simpa using other)) (Int32.toInt_inj.mp same)
  have sizes := congrArg Finset.card image
  rw [Finset.card_image_of_injOn injective, Int.card_Ico] at sizes
  have above := assigned.above
  omega

theorem Assigned.room (assigned : Assigned first pool numbers)
    (valid : Pool.PoolOk numThreads pool) (place : (pool.slots i).thread = .starting) :
    numbers.threadCounter.toInt + 1 ≤ first.toInt + numThreads := by
  have inside : ∀ j, (pool.slots j).thread.named = true → j < numThreads := by
    intro j named
    refine valid.inside fun unborn => ?_
    simp [unborn, WorkerPc.named] at named
  have exact : ∀ j, j ∈ (Finset.range numThreads).filter
      (fun j => (pool.slots j).thread.named = true) ↔ (pool.slots j).thread.named = true := by
    intro j
    simpa using inside j
  have count := assigned.count exact
  have others : (Finset.range numThreads).filter (fun j => (pool.slots j).thread.named = true) ⊆
      (Finset.range numThreads).erase i := by
    intro j member
    obtain ⟨below, named⟩ := Finset.mem_filter.mp member
    refine Finset.mem_erase.mpr ⟨?_, below⟩
    rintro rfl
    simp [place, WorkerPc.named] at named
  have few := Finset.card_le_card others
  have own : i < numThreads := valid.inside (by simp [place])
  rw [Finset.card_erase_of_mem (Finset.mem_range.mpr own), Finset.card_range] at few
  omega

theorem Assigned.starting (assigned : Assigned first pool numbers)
    (place : (pool.slots i).thread = .starting)
    (room : numbers.threadCounter.toInt + 1 < 2 ^ 31) :
    Assigned first (pool.setThread i .dequeuing) {
      threadCounter := numbers.threadCounter + 1
      localId := Function.update numbers.localId i numbers.threadCounter
      printed := numbers.printed ++ [.starting numbers.threadCounter] } := by
  have counted := toInt_succ room
  have others : ∀ {j}, j ≠ i → ((pool.setThread i .dequeuing).slots j) = pool.slots j := by
    intro j apart
    simp [Pool.setThread, Pool.setSlot, apart]
  have own : ((pool.setThread i .dequeuing).slots i).thread = .dequeuing := by
    simp [Pool.setThread, Pool.setSlot]
  have fresh : ∀ {j}, j ≠ i → ((pool.setThread i .dequeuing).slots j).thread.named = true →
      numbers.localId j ≠ numbers.threadCounter := by
    intro j apart named same
    rw [others apart] at named
    have below := (assigned.inside j named).2
    rw [same] at below
    exact below.false
  have above := assigned.above
  refine ⟨?_, ?_, ?_, ?_, ?_, ?_⟩
  · simp only [counted]
    omega
  · intro j named
    by_cases here : j = i
    · subst here
      simp only [Function.update_self, counted]
      omega
    · rw [others here] at named
      have inside := assigned.inside j named
      simp only [Function.update_of_ne here, counted]
      omega
  · intro number least below
    simp only [counted] at below
    rcases Int.lt_or_eq_of_le (Int.lt_add_one_iff.mp below) with earlier | same
    · obtain ⟨j, named, rfl⟩ := assigned.owned number least earlier
      have apart : j ≠ i := by
        rintro rfl
        simp [place, WorkerPc.named] at named
      exact ⟨j, by rwa [others apart], by simp [apart]⟩
    · exact ⟨i, by rw [own]; rfl, by simp [same]⟩
  · intro j k one two same
    by_cases hereFirst : j = i <;> by_cases hereSecond : k = i
    · rw [hereFirst, hereSecond]
    · subst hereFirst
      simp only [Function.update_self, Function.update_of_ne hereSecond] at same
      exact absurd same.symm (fresh hereSecond two)
    · subst hereSecond
      simp only [Function.update_self, Function.update_of_ne hereFirst] at same
      exact absurd same (fresh hereFirst one)
    · simp only [Function.update_of_ne hereFirst, Function.update_of_ne hereSecond] at same
      rw [others hereFirst] at one
      rw [others hereSecond] at two
      exact assigned.distinct j k one two same
  · intro j named
    by_cases here : j = i
    · subst here
      have none : numbers.printed.filter
          (fun notice => notice.localId = some numbers.threadCounter) = [] := by
        rw [List.filter_eq_nil_iff]
        intro notice printed same
        exact (assigned.known notice printed _ (by simpa using same)).2.false
      simp [List.filter_append, none, Slot.notices, own]
    · have apart := fresh here named
      rw [others here] at named ⊢
      simp [List.filter_append, Function.update_of_ne here, assigned.told j named, apart.symm]
  · intro notice printed number named
    rcases List.mem_append.mp printed with earlier | last
    · have inside := assigned.known notice earlier number named
      simp only [counted]
      omega
    · rw [List.mem_singleton.mp last] at named
      cases named
      simp only [counted]
      omega

theorem Assigned.exiting (assigned : Assigned first pool numbers)
    (place : (pool.slots i).thread = .exiting) :
    Assigned first (pool.setThread i .exited) { numbers with
      printed := numbers.printed ++
        [.exiting (numbers.localId i) (pool.slots i).processed] } := by
  have others : ∀ {j}, j ≠ i → ((pool.setThread i .exited).slots j) = pool.slots j := by
    intro j apart
    simp [Pool.setThread, Pool.setSlot, apart]
  have was : (pool.slots i).thread.named = true := by
    rw [place]
    rfl
  have same : ∀ j, ((pool.setThread i .exited).slots j).thread.named =
      (pool.slots j).thread.named := by
    intro j
    by_cases here : j = i
    · subst here
      rw [was]
      simp [Pool.setThread, Pool.setSlot, WorkerPc.named]
    · rw [others here]
  refine ⟨assigned.above, ?_, ?_, ?_, ?_, ?_⟩
  · intro j named
    exact assigned.inside j (same j ▸ named)
  · intro number above below
    obtain ⟨j, named, owner⟩ := assigned.owned number above below
    exact ⟨j, (same j).trans named, owner⟩
  · intro j k one two
    exact assigned.distinct j k (same j ▸ one) (same k ▸ two)
  · intro j named
    rw [same] at named
    by_cases here : j = i
    · subst here
      simp [List.filter_append, assigned.told j named, Slot.notices, place, Pool.setThread,
        Pool.setSlot]
    · have apart : numbers.localId i ≠ numbers.localId j := fun shared =>
        here (assigned.distinct j i named was shared.symm)
      rw [others here]
      simp [List.filter_append, assigned.told j named, apart]
  · intro notice printed number named
    rcases List.mem_append.mp printed with earlier | last
    · exact assigned.known notice earlier number named
    · rw [List.mem_singleton.mp last] at named
      cases named
      exact assigned.inside i was

theorem Assigned.step (assigned : Assigned first pool numbers)
    (valid : Pool.PoolOk numThreads pool) (few : first.toInt + numThreads < 2 ^ 31)
    {label : Pool.Label Job} (taken : Pool.Stepped numThreads pool label next) :
    Assigned first next (numbers.note pool label next) := by
  have happened := taken
  cases taken with
  | @worker i slot ran =>
    cases place : (pool.slots i).thread with
    | starting =>
      have room := assigned.room valid place
      simp only [workerFunc, place, Option.some.injEq] at ran
      simpa [note, place, ← ran, Pool.setThread] using assigned.starting place (by omega)
    | exiting =>
      simp only [workerFunc, place, Option.some.injEq] at ran
      simpa [note, place, ← ran, Pool.setThread] using assigned.exiting place
    | _ =>
      have loops : ∀ j, Pool.Label.worker i = (.worker j : Pool.Label Job) →
          (pool.slots j).thread ≠ .starting ∧ (pool.slots j).thread ≠ .exiting := by
        rintro _ ⟨⟩
        simp [place]
      simpa [note, place] using assigned.quiet (happened.quiet valid loops) []
  | _ => exact assigned.quiet (happened.quiet valid (by simp)) _

/-- What holds in every state of a recorded run. -/
theorem assigned_invariant (positive : 0 < numThreads)
    (few : first.toInt + numThreads < 2 ^ 31) (script : List (Job × Nat)) :
    Invariant (recorded (Pool.step numThreads) note) (fun _ => True)
      (Pool.init script, start first)
      (fun whole => Pool.Alive numThreads whole.1 ∧
        (whole.1.fault = false → Assigned first whole.1 whole.2)) where
  initial := ⟨Pool.alive_init numThreads script, fun _ => assigned_init first script⟩
  preserved := by
    rintro ⟨pool, numbers⟩ label ⟨next, noted⟩ ⟨alive, assigned⟩ - taken
    have moved : Pool.step numThreads pool label = some next := (recorded_step taken).1
    have same : noted = numbers.note pool label next := (recorded_step taken).2
    subst same
    obtain ⟨sound, happened⟩ := Pool.stepped moved
    exact ⟨alive.step positive moved, fun _ => (assigned sound).step (alive sound).1 few happened⟩

private theorem note_refused (numbers : Numbers) (pool next : Pool Job) (label : Pool.Label Job) :
    (numbers.note pool label next).printed.count .refused =
      numbers.printed.count .refused + (pool.refusals label).length := by
  cases label with
  | worker i =>
    simp only [note, Pool.refusals, List.length_nil, Nat.add_zero]
    split <;> simp
  | main _ | nestedAdd _ _ _ | nestedEnqueue _ _ | spurious _ => simp [note]

/-- `queue_enqueue` prints a line for each request that it refuses. -/
theorem refusals_noted (records : Records Job) (numbers final : Numbers)
    (labels : List (Pool.Label Job))
    (noted : run (recorded (Pool.step numThreads) note) (records.pool, numbers) labels =
      some (pool, final)) :
    ∃ ended, run (Records.step numThreads) records labels = some ended ∧ ended.pool = pool ∧
      final.printed.count .refused + records.refused.length =
        numbers.printed.count .refused + ended.refused.length := by
  induction labels generalizing records numbers with
  | nil =>
    cases noted
    exact ⟨records, rfl, rfl, rfl⟩
  | cons label rest ih =>
    rw [run_cons] at noted
    obtain ⟨⟨next, after⟩, taken, continued⟩ := Option.bind_eq_some_iff.mp noted
    obtain ⟨moved, same⟩ := recorded_step taken
    simp only at moved same
    subst same
    obtain ⟨ended, ran, there, counted⟩ :=
      ih ⟨next, records.refused ++ records.pool.refusals label⟩ _ continued
    refine ⟨ended, ?_, there, ?_⟩
    · rw [run_cons, Records.step, moved]
      exact ran
    · rw [note_refused, List.length_append] at counted
      omega

/-- What has been printed when the pool is destroyed: each worker has a number of
its own, from the first one on, and has told once that it starts and then, once,
how many requests it has run. The other lines are those of `queue_enqueue`, one
for each request that no worker has run. -/
structure Announced (numThreads : Nat) (first : Int32) (pool : Pool Job) (numbers : Numbers) :
    Prop where
  numbered : Set.BijOn (fun i => (numbers.localId i).toInt) {i | i < numThreads}
    {number | first.toInt ≤ number ∧ number < first.toInt + numThreads}
  told : ∀ i < numThreads,
    numbers.printed.filter (fun notice => notice.localId = some (numbers.localId i)) =
      [.starting (numbers.localId i),
        .exiting (numbers.localId i) (Int32.ofNat (pool.slots i).executed.length)]
  known : ∀ notice ∈ numbers.printed, notice = .refused ∨
    ∃ i < numThreads, notice.localId = some (numbers.localId i)
  refused : numbers.printed.count .refused +
    ∑ i ∈ Finset.range numThreads, (pool.slots i).executed.length = pool.requests

/-- The workers print their own numbers, and no other notice has one. -/
theorem Assigned.announced (assigned : Assigned first pool numbers)
    (valid : Pool.PoolOk numThreads pool) (done : pool.main = .returned)
    (counted : numbers.printed.count .refused +
      ∑ i ∈ Finset.range numThreads, (pool.slots i).executed.length = pool.requests) :
    Announced numThreads first pool numbers := by
  have exited : ∀ i < numThreads, (pool.slots i).thread = .exited := by
    intro i inside
    have ok := valid.slots i
    have gone : pool.main.phase numThreads i = .gone := by
      simp [done, MainPc.phase, Nat.not_le.mpr inside]
    rw [gone] at ok
    exact ok.exited rfl
  have all : ∀ i, i ∈ Finset.range numThreads ↔ (pool.slots i).thread.named = true := by
    intro i
    rw [Finset.mem_range]
    constructor
    · intro inside
      rw [exited i inside]
      rfl
    · intro named
      refine valid.inside fun unborn => ?_
      simp [unborn, WorkerPc.named] at named
  have named : ∀ i < numThreads, (pool.slots i).thread.named = true :=
    fun i inside => (all i).mp (Finset.mem_range.mpr inside)
  have counter := assigned.count all
  rw [Finset.card_range] at counter
  refine ⟨⟨?_, ?_, ?_⟩, ?_, ?_, counted⟩
  · intro i inside
    exact counter ▸ assigned.inside i (named i inside)
  · intro i one j other same
    exact assigned.distinct i j (named i one) (named j other) (Int32.toInt_inj.mp same)
  · rintro number ⟨above, below⟩
    obtain ⟨i, has, same⟩ := assigned.owned number above (counter ▸ below)
    exact ⟨i, Finset.mem_range.mp ((all i).mpr has), same⟩
  · intro i inside
    have vacated := valid.vacated done i
    rw [assigned.told i (named i inside), Slot.notices, exited i inside,
      (valid.slots i).processed, vacated.freed]
  · intro notice printed
    cases number : notice.localId with
    | none => cases notice <;> first | exact .inl rfl | cases number
    | some id =>
      obtain ⟨above, below⟩ := assigned.known notice printed id number
      obtain ⟨i, has, same⟩ := assigned.owned id.toInt above below
      exact .inr ⟨i, Finset.mem_range.mp ((all i).mpr has),
        (Int32.toInt_inj.mp same) ▸ rfl⟩

/-- When `thread_pool_destroy` has returned, the workers have printed the numbers
from `thread_counter` on, each of them one number twice, with the count of the
requests it has run, and `queue_enqueue` has told of the others. -/
theorem workers_announced (positive : 0 < numThreads) (first : Int32)
    (few : first.toInt + numThreads < 2 ^ 31) (script : List (Job × Nat))
    (labels : List (Pool.Label Job))
    (ran : run (Pool.step numThreads) (.init script) labels = some pool)
    (sound : pool.fault = false) (done : pool.main = .returned) :
    ∃ numbers, run (recorded (Pool.step numThreads) note) (.init script, start first) labels =
        some (pool, numbers) ∧ Announced numThreads first pool numbers := by
  obtain ⟨numbers, noted⟩ := run_recorded note ran (start first)
  obtain ⟨alive, assigned⟩ :=
    (assigned_invariant positive few script).run (fun _ _ => trivial) noted
  obtain ⟨ended, recorded, rfl, counted⟩ :=
    refusals_noted (Records.init script) (start first) numbers labels noted
  have settled := ((Records.numbered_invariant positive script).run (fun _ _ => trivial)
    recorded).settled sound done
  have lengths := settled.length_eq
  refine ⟨numbers, noted, (assigned sound).announced (alive sound).1 done ?_⟩
  simp only [List.length_map, List.length_append, List.length_flatMap, List.length_range]
    at lengths
  have total : ∑ i ∈ Finset.range numThreads, (ended.pool.slots i).executed.length =
      ((List.range numThreads).map fun i => (ended.pool.slots i).executed.length).sum := rfl
  have none : (Records.init script).refused.length = 0 ∧ (start first).printed.count .refused = 0 :=
    ⟨rfl, rfl⟩
  simp only [total]
  omega

/-- An earlier pool of one worker has counted to 2. -/
theorem workers_announced_sample :
    ∃ pool : Pool Nat, run (Pool.step 2) (.init [(7, 1)]) Records.ownAddEnd = some pool ∧
      pool.main = .returned ∧
      ∃ numbers, run (recorded (Pool.step 2) note) (.init [(7, 1)], start 2) Records.ownAddEnd =
        some (pool, numbers) ∧ Announced 2 2 pool numbers :=
  ⟨_, rfl, rfl, workers_announced (by decide) 2 (by decide) [(7, 1)] Records.ownAddEnd rfl rfl rfl⟩

end Numbers

end RequestProxy.Librequest
