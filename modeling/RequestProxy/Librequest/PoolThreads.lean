import RequestProxy.Librequest.Pool
import RequestProxy.Librequest.QueueView

/-! The thread pool with the queue functions step by step. Each queue is shared
by the threads that call it, with its mutex and its condition variable, and a
thread inside a queue function moves as the threads of that queue do. -/

namespace RequestProxy.Librequest

open RequestProxy.Abstract

variable {Job : Type}

inductive Caller where
  | owner
  | worker (index : Nat)
  deriving DecidableEq

/-- Where `worker_func` is. How far it has come in `queue_dequeue`, or in the
`queue_enqueue` of a nested call, is kept with the queue. -/
inductive WorkerAt (Job : Type) where
  | unborn
  | starting
  | dequeuing
  | working (req : Request Job)
  | adding (req nested : Request Job) (index : Nat)
  | freeing (req : Request Job)
  | exiting
  | exited

/-- One entry of `pool->workers`, with the threads that share its queue. -/
structure Entry (Job : Type) where
  worker : Bool
  shared : Option (Threads Caller (Request Job))
  thread : WorkerAt Job
  executed : List (Request Job)
  freed : List (Request Job)
  processed : Int32

def Entry.vacant : Entry Job := ⟨false, none, .unborn, [], [], 0⟩

/-- `create_worker_thread`. -/
def Entry.create : Entry Job :=
  { Entry.vacant with worker := true, shared := some Threads.init, thread := .starting }

/-- A step of `worker_func` outside the queue functions. -/
def Entry.run (entry : Entry Job) : Option (Entry Job) :=
  match entry.thread with
  | .starting => some { entry with thread := .dequeuing }
  | .working req => some { entry with thread := .freeing req }
  | .freeing req => some { entry with
      thread := .dequeuing
      freed := entry.freed ++ [req]
      processed := entry.processed + 1 }
  | .exiting => some { entry with thread := .exited }
  | .unborn | .dequeuing | .adding _ _ _ | .exited => none

/-- What `worker_func` does when the queue function it is in returns. -/
def Entry.resume (entry : Entry Job) (value : Returned (Request Job)) : Entry Job :=
  match entry.thread, value with
  | .dequeuing, .item req => { entry with
      thread := .working req
      executed := entry.executed ++ [req] }
  | .dequeuing, .null => { entry with thread := .exiting }
  | .adding req _ _, _ => { entry with thread := .working req }
  | _, _ => entry

/-- Where the owner goes on when the queue function it is in returns. -/
def MainPc.resume : MainPc Job → MainPc Job
  | .enqueueing _ _ => .adding
  | .closing i => .closing (i + 1)
  | main => main

/-- `thread_pool_t` with its workers and the thread that owns it. -/
structure ThreadedPool (Job : Type) where
  allocated : Bool
  main : MainPc Job
  script : List (Job × Nat)
  entries : Nat → Entry Job
  requests : Nat
  drained : List (Request Job)
  fault : Bool

/-- A step of a thread inside a queue function, with what the environment
decides for it. -/
inductive Move where
  | call (node : Addr)
  | lock
  | critical (chosen : Finset Caller)
  | unlock
  | leave
  | relock
  | spurious

def Move.own : Move → Bool
  | .spurious => false
  | _ => true

/-- A step that the program outside the queue function cannot tell. -/
def Move.silent : Move → Bool
  | .critical _ => false
  | .spurious => false
  | _ => true

def Move.label (caller : Caller) (op : Op (Request Job)) :
    Move → Threads.Label Caller (Request Job)
  | .call node => .call caller op node
  | .lock => .lock caller
  | .critical chosen => .critical caller chosen
  | .unlock => .unlock caller
  | .leave => .leave caller
  | .relock => .relock caller
  | .spurious => .spurious caller

namespace ThreadedPool

def init (script : List (Job × Nat)) : ThreadedPool Job where
  allocated := true
  main := .creating 0
  script := script
  entries := fun _ => .vacant
  requests := 0
  drained := []
  fault := false

def setEntry (pool : ThreadedPool Job) (index : Nat) (entry : Entry Job) : ThreadedPool Job :=
  { pool with entries := Function.update pool.entries index entry }

/-- `pool->workers[index]` can be followed to a live worker. -/
def present (pool : ThreadedPool Job) (index : Nat) : Bool :=
  pool.allocated && (pool.entries index).worker

/-- The queue function that a thread has to call, or is in, and the entry whose
queue it calls it on. -/
def calling (numThreads : Nat) (pool : ThreadedPool Job) : Caller → Option (Nat × Op (Request Job))
  | .owner =>
    match pool.main with
    | .enqueueing req index => some (index, .enqueue req)
    | .closing i => if i < numThreads then some (i, .close) else none
    | _ => none
  | .worker i =>
    match (pool.entries i).thread with
    | .dequeuing => some (i, .dequeue)
    | .adding _ nested index => some (index, .enqueue nested)
    | _ => none

/-- The queue of an entry, with the threads that share it, in a new state. -/
def share (pool : ThreadedPool Job) (index : Nat) (shared : Threads Caller (Request Job)) :
    ThreadedPool Job :=
  pool.setEntry index { pool.entries index with shared := some shared }

/-- A thread goes on after the queue function it was in. -/
def resume (pool : ThreadedPool Job) (value : Returned (Request Job)) :
    Caller → ThreadedPool Job
  | .owner => { pool with main := pool.main.resume }
  | .worker i => pool.setEntry i ((pool.entries i).resume value)

inductive Label (Job : Type) where
  | main
  | worker (index : Nat)
  | nestedAdd (index : Nat) (job : Job) (rand : Nat)
  | queue (caller : Caller) (move : Move)

/-- A step of the owner outside the queue functions that take the mutex. -/
def mainStep (numThreads : Nat) (pool : ThreadedPool Job) : Option (ThreadedPool Job) :=
  match pool.main with
  | .creating i =>
    if i < numThreads then some { pool.setEntry i .create with main := .creating (i + 1) }
    else some { pool with main := .adding }
  | .adding =>
    match pool.script with
    | [] => some { pool with main := .closing 0 }
    | (job, rand) :: script =>
      if pool.present (rand % numThreads) then
        some { pool with
          script
          requests := pool.requests + 1
          main := .enqueueing ⟨pool.requests, job⟩ (rand % numThreads) }
      else some { pool with fault := true }
  | .enqueueing _ _ => none
  | .closing i => if i < numThreads then none else some { pool with main := .joining 0 }
  | .joining i =>
    if i < numThreads then
      match (pool.entries i).thread with
      | .exited => some { pool with main := .draining i }
      | _ => none
    else some { pool with main := .finishing }
  | .draining i => do
    let shared ← (pool.entries i).shared
    match ← queueDestroyTurn shared.queue with
    | some (queue, req) => return { pool.share i { shared with queue } with
        drained := pool.drained ++ [req] }
    | none => return { pool.setEntry i { pool.entries i with shared := none } with
        main := .releasing i }
  | .releasing i =>
    some { pool.setEntry i { pool.entries i with worker := false } with main := .joining (i + 1) }
  | .finishing => some { pool with allocated := false, main := .returned }
  | .returned => none

/-- A step of a thread inside a queue function. A queue that was freed under it
is a fault. -/
def queueMove (numThreads : Nat) (pool : ThreadedPool Job) (caller : Caller) (move : Move) :
    Option (ThreadedPool Job) := do
  let (index, op) ← pool.calling numThreads caller
  match (pool.entries index).shared with
  | none => return { pool with fault := true }
  | some shared =>
    let next ← shared.step (move.label caller op)
    match move with
    | .leave =>
      let value ← shared.returns caller
      return (pool.share index next).resume value caller
    | _ => return pool.share index next

/-- UNLOCK_MTX is the last that `queue_enqueue` does with the queue, which may be
freed before the call has returned. -/
def lastUse (numThreads : Nat) (pool : ThreadedPool Job) (caller : Caller) (move : Move) : Bool :=
  match move, pool.calling numThreads caller with
  | .unlock, some (_, .enqueue _) => true
  | _, _ => false

/-- A step of a thread inside a queue function, with the return when nothing else
is left to do. -/
def queueStep (numThreads : Nat) (pool : ThreadedPool Job) (caller : Caller) (move : Move) :
    Option (ThreadedPool Job) := do
  let after ← pool.queueMove numThreads caller move
  if pool.lastUse numThreads caller move && !after.fault then
    after.queueMove numThreads caller .leave
  else return after

/-- One step of the pool. Nothing is said about what follows a fault. -/
def step (numThreads : Nat) (pool : ThreadedPool Job) (label : Label Job) :
    Option (ThreadedPool Job) :=
  if pool.fault then none
  else match label with
  | .main => mainStep numThreads pool
  | .worker index => do
    let entry ← (pool.entries index).run
    return pool.setEntry index entry
  | .nestedAdd index job rand =>
    match (pool.entries index).thread with
    | .working req =>
      if pool.present (rand % numThreads) then
        some { pool.setEntry index { pool.entries index with
            thread := .adding req ⟨pool.requests, job⟩ (rand % numThreads) } with
          requests := pool.requests + 1 }
      else some { pool with fault := true }
    | _ => none
  | .queue caller move => queueStep numThreads pool caller move

/-- All a thread can do inside a queue function. -/
inductive Moved (numThreads : Nat) (pool : ThreadedPool Job) (caller : Caller) :
    Move → ThreadedPool Job → Prop where
  | fault (calls : pool.calling numThreads caller = some (index, op))
      (missing : (pool.entries index).shared = none) :
      Moved numThreads pool caller move { pool with fault := true }
  | stay (calls : pool.calling numThreads caller = some (index, op))
      (there : (pool.entries index).shared = some shared)
      (stepped : shared.step (move.label caller op) = some next) (inside : move ≠ .leave) :
      Moved numThreads pool caller move (pool.share index next)
  | leave (calls : pool.calling numThreads caller = some (index, op))
      (there : (pool.entries index).shared = some shared)
      (stepped : shared.step (.leave caller) = some next)
      (returned : shared.returns caller = some value) :
      Moved numThreads pool caller .leave ((pool.share index next).resume value caller)

theorem moved {pool after : ThreadedPool Job}
    (taken : pool.queueMove numThreads caller move = some after) :
    Moved numThreads pool caller move after := by
  simp only [queueMove, Option.bind_eq_bind, Option.bind_eq_some_iff, Prod.exists] at taken
  obtain ⟨index, op, calls, taken⟩ := taken
  cases there : (pool.entries index).shared with
  | none =>
    simp only [there, Option.pure_def, Option.some.injEq] at taken
    exact taken ▸ .fault calls there
  | some shared =>
    simp only [there, Option.bind_eq_some_iff] at taken
    obtain ⟨next, stepped, taken⟩ := taken
    cases move with
    | leave =>
      simp only [Option.bind_eq_some_iff] at taken
      obtain ⟨value, returned, taken⟩ := taken
      cases taken
      exact .leave calls there stepped returned
    | call | lock | critical | unlock | relock | spurious =>
      cases taken
      exact .stay calls there stepped (by simp)

theorem lastUse_unlock {pool : ThreadedPool Job}
    (last : pool.lastUse numThreads caller move = true) :
    move = .unlock ∧ ∃ index req, pool.calling numThreads caller = some (index, .enqueue req) := by
  unfold lastUse at last
  split at last
  · rename_i index req calls
    exact ⟨rfl, index, req, calls⟩
  · cases last

/-- A step is one such move, or the last two of a call of `queue_enqueue`. -/
theorem queueStepped {pool after : ThreadedPool Job}
    (taken : pool.queueStep numThreads caller move = some after) :
    Moved numThreads pool caller move after ∨
      pool.lastUse numThreads caller move = true ∧ ∃ middle, middle.fault = false ∧
        Moved numThreads pool caller .unlock middle ∧
        Moved numThreads middle caller .leave after := by
  simp only [queueStep, Option.bind_eq_bind, Option.bind_eq_some_iff, Option.pure_def] at taken
  obtain ⟨middle, first, taken⟩ := taken
  split at taken
  · rename_i both
    simp only [Bool.and_eq_true, Bool.not_eq_true'] at both
    have unlocks := (lastUse_unlock both.1).1
    subst unlocks
    exact .inr ⟨both.1, middle, both.2, moved first, moved taken⟩
  · cases taken
    exact .inl (moved first)

end ThreadedPool

end RequestProxy.Librequest
