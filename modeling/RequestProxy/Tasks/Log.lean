import Mathlib.Algebra.BigOperators.Group.Finset.Basic
import Mathlib.Tactic.Ring
import RequestProxy.Librequest.PoolDrain
import RequestProxy.Transition.Record

/-! The program that runs `example_task` on the pool, and the file its tasks
write. The lines of a task reach the file together, when `fclose` writes the
buffer of its stream. -/

namespace RequestProxy.Tasks

open Abstract Librequest Transition

/-- What a line of the log says. -/
inductive Entry where
  | message (val : Int)
  | sum (x total : Int)
  | delay (delayMs : Nat)
  deriving DecidableEq

structure LogLine where
  timestamp : String
  tid : Nat
  entry : Entry
  deriving DecidableEq

def LogLine.text (line : LogLine) : String :=
  let head := s!"{line.timestamp} [Thread {line.tid}] "
  match line.entry with
  | .message val => head ++ s!"Log message {val}\n"
  | .sum x total => head ++ s!"Sum of numbers < {x} is {total}\n"
  | .delay delayMs =>
    head ++ s!"Simulated delay of 0 seconds and {delayMs} milliseconds.\n"

/-- What a task gets from the system: whether the file can be opened, the time,
its thread, and the results of its first two calls of `rand`. -/
structure Surroundings where
  opened : Bool
  timestamp : String
  tid : Nat
  choice : Nat
  draw : Nat

/-- The calls of `thread_pool_add` that `main` makes, with what `rand` returns to
each. `NUM_THREADS` and `NUM_TASKS` stay parameters. -/
def script (numTasks : Nat) (rand : Nat → Nat) : List (Int × Nat) :=
  (List.range numTasks).map fun (i : Nat) => ((i : Int), rand i)

/-- The tasks that have written to the file, in order, each with the index of its
worker. -/
abbrev Written := List ((Request Int × Surroundings) × Nat)

/-- A step of the program, with what a task gets from the system if it returns in
this step. -/
def step (numThreads : Nat) (pool : Pool Int) (label : Pool.Label Int × Surroundings) :
    Option (Pool Int) :=
  Pool.step numThreads pool label.1

/-- A task writes when it returns. -/
def note (pool : Pool Int) (label : Pool.Label Int × Surroundings) (_ : Pool Int)
    (written : Written) : Written :=
  match label.1 with
  | .worker i =>
    match (pool.slots i).thread with
    | .working req => written ++ [((req, label.2), i)]
    | _ => written
  | _ => written

/-- The task that has returned, and the request of which is not freed. -/
def finished : WorkerPc Int → List (Request Int)
  | .freeing req => [req]
  | _ => []

private theorem finished_wake (thread : WorkerPc Int) : finished thread.wake = finished thread := by
  cases thread <;> rfl

/-- The tasks that have written are those whose requests are freed, or are about
to be. -/
structure Wrote (numThreads : Nat) (pool : Pool Int) (written : Written) : Prop where
  tasks : ∀ i, (routed i written).map Prod.fst =
    (pool.slots i).freed ++ finished (pool.slots i).thread
  inside : ∀ task ∈ written, task.2 < numThreads

variable {numThreads : Nat} {pool next : Pool Int} {written : Written}

theorem Wrote.set (wrote : Wrote numThreads pool written) {slot : Slot Int} (i : Nat)
    (slots : next.slots = Function.update pool.slots i slot)
    (same : slot.freed ++ finished slot.thread =
      (pool.slots i).freed ++ finished (pool.slots i).thread) :
    Wrote numThreads next written where
  tasks := by
    intro index
    rw [slots]
    by_cases here : index = i
    · subst here
      simpa [same] using wrote.tasks index
    · simpa [here] using wrote.tasks index
  inside := wrote.inside

private theorem dequeue_kept {slot after : Slot Int} (ran : slot.dequeue = some after) :
    after.freed = slot.freed ∧ finished after.thread = [] := by
  simp only [Slot.dequeue, Option.bind_eq_bind, Option.bind_eq_some_iff] at ran
  obtain ⟨q, _, taken, _, ran⟩ := ran
  cases taken <;> cases ran <;> exact ⟨rfl, rfl⟩

/-- A worker that moves on writes just when its task returns. -/
theorem Wrote.worker (wrote : Wrote numThreads pool written) (valid : Pool.PoolOk numThreads pool)
    (ran : workerFunc (pool.slots i) = some slot) (around : Surroundings) :
    Wrote numThreads (pool.setSlot i slot)
      (note pool (.worker i, around) (pool.setSlot i slot) written) := by
  have quiet : (∀ req, (pool.slots i).thread ≠ .working req) →
      note pool (.worker i, around) (pool.setSlot i slot) written = written := by
    intro idle
    cases place : (pool.slots i).thread with
    | working req => exact absurd place (idle req)
    | _ => simp [note, place]
  have inside : i < numThreads := by
    refine valid.inside fun unborn => ?_
    simp [workerFunc, unborn] at ran
  cases place : (pool.slots i).thread with
  | unborn | parked | adding | exited => simp [workerFunc, place] at ran
  | starting | exiting =>
    rw [quiet (by simp [place])]
    simp only [workerFunc, place, Option.some.injEq] at ran
    exact wrote.set i rfl (by rw [← ran, place]; rfl)
  | dequeuing | woken =>
    rw [quiet (by simp [place])]
    simp only [workerFunc, place] at ran
    obtain ⟨freed, idle⟩ := dequeue_kept ran
    exact wrote.set i rfl (by rw [freed, idle, place]; rfl)
  | freeing req =>
    rw [quiet (by simp [place])]
    simp only [workerFunc, place, Option.some.injEq] at ran
    exact wrote.set i rfl (by rw [← ran, place]; simp [finished])
  | working req =>
    simp only [workerFunc, place, Option.some.injEq] at ran
    have noted : note pool (.worker i, around) (pool.setSlot i slot) written =
        written ++ [((req, around), i)] := by simp [note, place]
    rw [noted]
    refine ⟨fun index => ?_, ?_⟩
    · have before := wrote.tasks index
      by_cases here : index = i
      · subst here
        simp [routed_single, before, ← ran, Pool.setSlot, place, finished]
      · simp [routed_single, before, Pool.setSlot, here, Ne.symm here]
    · intro task member
      rcases List.mem_append.mp member with earlier | last
      · exact wrote.inside task earlier
      · rw [List.mem_singleton.mp last]
        exact inside

private theorem unborn_empty (valid : Pool.PoolOk numThreads pool)
    (place : pool.main = .creating i) :
    (pool.slots i).freed = [] ∧ (pool.slots i).thread = .unborn := by
  have ok := valid.slots i
  have phase : pool.main.phase numThreads i = .unborn := by simp [place, MainPc.phase]
  rw [phase] at ok
  have executed : (pool.slots i).executed = [] := by
    cases found : (pool.slots i).queue with
    | none => rw [← (ok.absent found).2, valid.idle i place i]
    | some q => cases (ok.queue q found).1
  exact ⟨(List.append_eq_nil_iff.mp (ok.freed.symm.trans executed)).1, ok.unborn.mpr rfl⟩

theorem Wrote.step (wrote : Wrote numThreads pool written) (valid : Pool.PoolOk numThreads pool)
    {label : Pool.Label Int} (external : label.External)
    (taken : Pool.Stepped numThreads pool label next) (around : Surroundings) :
    Wrote numThreads next (note pool (label, around) next written) := by
  cases taken with
  | @create i node place more =>
    obtain ⟨freed, unborn⟩ := unborn_empty valid place
    exact wrote.set i rfl (by rw [freed, unborn]; rfl)
  | created | add | addFault | destroy | closed | join | joined | finish =>
    exact ⟨wrote.tasks, wrote.inside⟩
  | @enqueue req index node after place called =>
    rcases Pool.enqueueOn_cases called with ⟨_, rfl⟩ | ⟨q, slot, present, ran, rfl⟩
    · exact ⟨wrote.tasks, wrote.inside⟩
    · obtain ⟨_, _, _, freed, woken⟩ := (valid.slots index).enqueue present ran
      refine wrote.set index rfl ?_
      rcases woken with same | same
      · rw [freed, same]
      · rw [freed, same, finished_wake]
  | @close i q node place more live =>
    refine wrote.set i rfl ?_
    rw [Slot.close, finished_wake]
  | @drain i | @drained i | @release i => exact wrote.set i rfl rfl
  | @worker i slot ran => exact wrote.worker valid ran around
  | @spurious i waits =>
    refine wrote.set i rfl ?_
    rw [waits]
    rfl
  | nestedAdd | nestedFault | nestedEnqueue => exact external.elim

theorem Wrote.returned (wrote : Wrote numThreads pool written)
    (valid : Pool.PoolOk numThreads pool) (done : pool.main = .returned) (i : Nat) :
    (routed i written).map Prod.fst = (pool.slots i).executed := by
  have freed := (valid.vacated done i).freed
  have balance := (valid.slots i).freed
  rw [freed] at balance
  have idle : (pool.slots i).thread.current = [] := by simpa using balance
  have nothing : finished (pool.slots i).thread = [] := by
    cases place : (pool.slots i).thread with
    | freeing req => simp [place, WorkerPc.current] at idle
    | _ => rfl
  rw [wrote.tasks, nothing, List.append_nil, freed]

end RequestProxy.Tasks
