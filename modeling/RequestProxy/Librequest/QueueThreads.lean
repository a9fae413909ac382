import RequestProxy.Abstract.ClosableFifo
import RequestProxy.Librequest.Queue
import RequestProxy.Transition.System
import Mathlib.Data.Finset.Card

/-! Threads sharing one queue. The mutex, the condition variable and each
thread's place in the code are explicit; a label names the thread that moves
and what the environment decides for it: the address `malloc` returns and the
waiting threads a signal moves. Between two mutex operations only the owner of
the mutex touches the queue, so each such stretch of code is one step. -/

namespace RequestProxy.Librequest

open RequestProxy.Abstract

universe u

variable {Tid α : Type u}

/-- The queue function a thread is in, with the locals it has when it reaches
the critical section. -/
inductive Body (α : Type u) where
  | enqueue (node : Addr) (req : α)
  | dequeue
  | close
  | isclosed
  | size

/-- The locals a thread takes out of its critical section. -/
inductive Locals where
  | accepted
  | refused
  | null
  | node (node : Addr)
  | closed
  | status (closed : Bool)
  | size (size : Int32)

/-- What a call returns. `queue_enqueue` returns nothing, but prints a line
when it refuses. -/
inductive Returned (α : Type u) where
  | accepted
  | refused
  | item (req : α)
  | null
  | closed
  | status (closed : Bool)
  | size (size : Int32)

/-- The wake-up call a critical section makes before it unlocks. -/
inductive Wake where
  | none
  | signal
  | broadcast

/-- The waiting threads a wake-up call may move: none without a call, at least
one of them with a signal, all of them with a broadcast. -/
def Wake.Moves (parked chosen : Finset Tid) : Wake → Prop
  | .none => chosen = ∅
  | .signal => chosen ⊆ parked ∧ (parked = ∅ ∨ chosen ≠ ∅)
  | .broadcast => chosen = parked

instance [DecidableEq Tid] (parked chosen : Finset Tid) (wake : Wake) :
    Decidable (wake.Moves parked chosen) := by
  cases wake <;> unfold Wake.Moves <;> infer_instance

/-- The end of one stretch of code under the mutex. -/
inductive Section (α : Type u) where
  | wait
  | unlock (q : Queue α) (locals : Locals) (wake : Wake)

/-- The code between LOCK_MTX, or the return of `pthread_cond_wait`, and the
next release of the mutex. -/
def criticalSection (q : Queue α) : Body α → Option (Section α)
  | .enqueue node _ => do
    let (q, accepted) ← enqueueLocked q node
    return if accepted then .unlock q .accepted .signal else .unlock q .refused .none
  | .dequeue => do
    match ← dequeueLocked q with
    | .wait => return .wait
    | .null => return .unlock q .null .none
    | .node q node => return .unlock q (.node node) .none
  | .close => some (.unlock (closeLocked q) .closed .broadcast)
  | .isclosed => some (.unlock q (.status q.closed) .none)
  | .size => some (.unlock q (.size q.size) .none)

/-- The code before LOCK_MTX: `queue_enqueue` allocates and fills its node. -/
def prologue (q : Queue α) (node : Addr) : Op α → Option (Queue α × Body α)
  | .enqueue req => do
    let q ← q.malloc node req
    return (q, .enqueue node req)
  | .dequeue => some (q, .dequeue)
  | .close => some (q, .close)
  | .isclosed => some (q, .isclosed)
  | .size => some (q, .size)

/-- The code after UNLOCK_MTX: `queue_dequeue` reads `node->data` and frees
the node. -/
def epilogue (q : Queue α) : Locals → Option (Queue α × Returned α)
  | .accepted => some (q, .accepted)
  | .refused => some (q, .refused)
  | .null => some (q, .null)
  | .node node => do
    let cell ← q.nodes node
    let q ← q.free node
    return (q, .item cell.data)
  | .closed => some (q, .closed)
  | .status closed => some (q, .status closed)
  | .size size => some (q, .size size)

def Body.op : Body α → Op α
  | .enqueue _ req => .enqueue req
  | .dequeue => .dequeue
  | .close => .close
  | .isclosed => .isclosed
  | .size => .size

/-- Where a thread is. The ticket is the place of its critical section in the
order in which critical sections ran. -/
inductive Place (α : Type u) where
  | outside
  | locking (body : Body α)
  | inside (body : Body α)
  | waiting
  | unlocking (ticket : Nat) (locals : Locals)
  | leaving (ticket : Nat) (locals : Locals)

/-- The shared state. `history` and `returned` record the operations in
critical-section order and the values calls returned, by ticket; no step reads
them. -/
structure Threads (Tid α : Type u) where
  queue : Queue α
  owner : Option Tid
  parked : Finset Tid
  woken : Finset Tid
  place : Tid → Place α
  history : List (Op α)
  returned : List (Nat × Returned α)

namespace Threads

/-- `queue_init` has run and no thread has called anything yet. -/
def init : Threads Tid α where
  queue := queueInit
  owner := none
  parked := ∅
  woken := ∅
  place := fun _ => .outside
  history := []
  returned := []

inductive Label (Tid α : Type u) where
  | call (thread : Tid) (op : Op α) (node : Addr)
  | lock (thread : Tid)
  | critical (thread : Tid) (chosen : Finset Tid)
  | unlock (thread : Tid)
  | leave (thread : Tid)
  | relock (thread : Tid)
  | spurious (thread : Tid)

variable [DecidableEq Tid]

def goto (threads : Threads Tid α) (thread : Tid) (place : Place α) : Threads Tid α :=
  { threads with place := Function.update threads.place thread place }

section Goto

variable (threads : Threads Tid α) (thread : Tid) (place : Place α)

@[simp] theorem goto_place : (threads.goto thread place).place =
    Function.update threads.place thread place := rfl
@[simp] theorem goto_queue : (threads.goto thread place).queue = threads.queue := rfl
@[simp] theorem goto_owner : (threads.goto thread place).owner = threads.owner := rfl
@[simp] theorem goto_parked : (threads.goto thread place).parked = threads.parked := rfl
@[simp] theorem goto_woken : (threads.goto thread place).woken = threads.woken := rfl
@[simp] theorem goto_history : (threads.goto thread place).history = threads.history := rfl
@[simp] theorem goto_returned : (threads.goto thread place).returned = threads.returned := rfl

end Goto

def step (threads : Threads Tid α) : Label Tid α → Option (Threads Tid α)
  | .call thread op node =>
    match threads.place thread with
    | .outside => do
      let (queue, body) ← prologue threads.queue node op
      return { threads with queue }.goto thread (.locking body)
    | _ => none
  | .lock thread =>
    match threads.owner, threads.place thread with
    | none, .locking body =>
      some ({ threads with owner := some thread }.goto thread (.inside body))
    | _, _ => none
  | .critical thread chosen =>
    match threads.place thread with
    | .inside body => do
      match ← criticalSection threads.queue body with
      | .wait =>
        -- pthread_cond_wait releases the mutex and parks the thread at once
        if chosen = ∅ then
          return { threads with
            owner := none
            parked := insert thread threads.parked }.goto thread .waiting
        else none
      | .unlock queue locals wake =>
        if wake.Moves threads.parked chosen then
          return { threads with
            queue
            parked := threads.parked \ chosen
            woken := threads.woken ∪ chosen
            history := threads.history ++ [body.op]
          }.goto thread (.unlocking threads.history.length locals)
        else none
    | _ => none
  | .unlock thread =>
    match threads.place thread with
    | .unlocking ticket locals =>
      some ({ threads with owner := none }.goto thread (.leaving ticket locals))
    | _ => none
  | .leave thread =>
    match threads.place thread with
    | .leaving ticket locals => do
      let (queue, value) ← epilogue threads.queue locals
      return { threads with
        queue
        returned := threads.returned ++ [(ticket, value)] }.goto thread .outside
    | _ => none
  | .relock thread =>
    match threads.owner with
    | none =>
      if thread ∈ threads.woken then
        some ({ threads with
          owner := some thread
          woken := threads.woken.erase thread }.goto thread (.inside .dequeue))
      else none
    | some _ => none
  | .spurious thread =>
    if thread ∈ threads.parked then
      some { threads with
        parked := threads.parked.erase thread
        woken := insert thread threads.woken }
    else none

/-- A state some run of some number of threads ends in. -/
def Reachable (threads : Threads Tid α) : Prop :=
  ∃ labels, Transition.run step (init : Threads Tid α) labels = some threads

/-- All a step can do, with the guard it passed. -/
inductive Took (threads : Threads Tid α) : Label Tid α → Threads Tid α → Prop where
  | call (idle : threads.place thread = .outside)
      (began : prologue threads.queue node op = some (q, body)) :
      Took threads (.call thread op node) ({ threads with queue := q }.goto thread (.locking body))
  | lock (free : threads.owner = none) (ready : threads.place thread = .locking body) :
      Took threads (.lock thread)
        ({ threads with owner := some thread }.goto thread (.inside body))
  | wait (ready : threads.place thread = .inside body)
      (waits : criticalSection threads.queue body = some .wait) :
      Took threads (.critical thread chosen) ({ threads with
        owner := none, parked := insert thread threads.parked }.goto thread .waiting)
  | finish (ready : threads.place thread = .inside body)
      (finished : criticalSection threads.queue body = some (.unlock q locals wake))
      (moves : wake.Moves threads.parked chosen) :
      Took threads (.critical thread chosen) ({ threads with
        queue := q
        parked := threads.parked \ chosen
        woken := threads.woken ∪ chosen
        history := threads.history ++ [body.op]
      }.goto thread (.unlocking threads.history.length locals))
  | unlock (ready : threads.place thread = .unlocking ticket locals) :
      Took threads (.unlock thread)
        ({ threads with owner := none }.goto thread (.leaving ticket locals))
  | leave (ready : threads.place thread = .leaving ticket locals)
      (ended : epilogue threads.queue locals = some (q, value)) :
      Took threads (.leave thread) ({ threads with
        queue := q, returned := threads.returned ++ [(ticket, value)] }.goto thread .outside)
  | relock (free : threads.owner = none) (called : thread ∈ threads.woken) :
      Took threads (.relock thread) ({ threads with
        owner := some thread, woken := threads.woken.erase thread }.goto thread (.inside .dequeue))
  | spurious (waits : thread ∈ threads.parked) :
      Took threads (.spurious thread) { threads with
        parked := threads.parked.erase thread, woken := insert thread threads.woken }

theorem took {threads next : Threads Tid α} (taken : step threads label = some next) :
    Took threads label next := by
  cases label with
  | call thread op node =>
    simp only [step] at taken
    split at taken
    · rename_i idle
      simp only [Option.bind_eq_bind, Option.bind_eq_some_iff, Prod.exists, Option.pure_def,
        Option.some.injEq] at taken
      obtain ⟨q, body, began, rfl⟩ := taken
      exact .call idle began
    · cases taken
  | lock thread =>
    simp only [step] at taken
    split at taken
    · rename_i free ready
      cases taken
      exact .lock free ready
    · cases taken
  | critical thread chosen =>
    simp only [step] at taken
    split at taken
    · rename_i body ready
      simp only [Option.bind_eq_bind, Option.bind_eq_some_iff] at taken
      obtain ⟨ending, ran, taken⟩ := taken
      cases ending with
      | wait =>
        simp only [Option.pure_def, Option.ite_none_right_eq_some, Option.some.injEq] at taken
        obtain ⟨_, rfl⟩ := taken
        exact .wait ready ran
      | unlock q locals wake =>
        simp only [Option.pure_def, Option.ite_none_right_eq_some, Option.some.injEq] at taken
        obtain ⟨moves, rfl⟩ := taken
        exact .finish ready ran moves
    · cases taken
  | unlock thread =>
    simp only [step] at taken
    split at taken
    · rename_i ready
      cases taken
      exact .unlock ready
    · cases taken
  | leave thread =>
    simp only [step] at taken
    split at taken
    · rename_i ready
      simp only [Option.bind_eq_bind, Option.bind_eq_some_iff, Prod.exists, Option.pure_def,
        Option.some.injEq] at taken
      obtain ⟨q, value, ended, rfl⟩ := taken
      exact .leave ready ended
    · cases taken
  | relock thread =>
    simp only [step] at taken
    split at taken
    · rename_i free
      simp only [Option.ite_none_right_eq_some, Option.some.injEq] at taken
      obtain ⟨called, rfl⟩ := taken
      exact .relock free called
    · cases taken
  | spurious thread =>
    simp only [step, Option.ite_none_right_eq_some, Option.some.injEq] at taken
    obtain ⟨waits, rfl⟩ := taken
    exact .spurious waits

end Threads

end RequestProxy.Librequest
