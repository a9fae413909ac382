import RequestProxy.Librequest.Queue
import RequestProxy.Transition.System

/-! The thread pool: the thread that initialises it, adds to it and destroys
it, and its workers. A critical section of a queue is one step here, and so is
each turn of the loop of `queue_destroy`, which takes no mutex. The labels choose
who moves, the addresses `malloc` returns, and what `rand` returns to a task. -/

namespace RequestProxy.Librequest

universe u

variable {Job : Type u}

/-- `request_t`: the work function with its argument. The number tells the
allocations apart, also when `malloc` reuses an address. -/
structure Request (Job : Type u) where
  number : Nat
  job : Job
  deriving DecidableEq

/-- Where `worker_func` is. `adding` is inside a call of `thread_pool_add` that
the running work function makes. -/
inductive WorkerPc (Job : Type u) where
  | unborn
  | starting
  | dequeuing
  | parked
  | woken
  | working (req : Request Job)
  | adding (req nested : Request Job) (index : Nat)
  | freeing (req : Request Job)
  | exiting
  | exited

/-- Where the thread that owns the pool is. -/
inductive MainPc (Job : Type u) where
  | creating (index : Nat)
  | adding
  | enqueueing (req : Request Job) (index : Nat)
  | closing (index : Nat)
  | joining (index : Nat)
  | draining (index : Nat)
  | releasing (index : Nat)
  | finishing
  | returned

/-- One entry of `pool->workers`: whether its `worker_thread_t` is live, its
queue while that is live, and its thread. `accepted`, `executed` and `freed`
record the requests its queue took and its thread ran and freed. -/
structure Slot (Job : Type u) where
  worker : Bool
  queue : Option (Queue (Request Job))
  thread : WorkerPc Job
  accepted : List (Request Job)
  executed : List (Request Job)
  freed : List (Request Job)
  processed : Int32

/-- An entry before `thread_pool_init` fills it. -/
def Slot.vacant : Slot Job := ⟨false, none, .unborn, [], [], [], 0⟩

def createWorkerThread : Slot Job :=
  { Slot.vacant with worker := true, queue := some queueInit, thread := .starting }

/-- A signal or a broadcast on the condition variable of a queue: only the
worker of the queue waits on it. -/
def WorkerPc.wake : WorkerPc Job → WorkerPc Job
  | .parked => .woken
  | pc => pc

/-- `queue_enqueue` on the queue `q` of an entry. -/
def Slot.enqueue (slot : Slot Job) (q : Queue (Request Job)) (node : Addr) (req : Request Job) :
    Option (Slot Job) := do
  let (q, accepted) ← queueEnqueue q node req
  if accepted then
    return { slot with
      queue := some q
      accepted := slot.accepted ++ [req]
      thread := slot.thread.wake }
  else return { slot with queue := some q }

/-- `queue_close` on the queue `q` of an entry. -/
def Slot.close (slot : Slot Job) (q : Queue (Request Job)) : Slot Job :=
  { slot with queue := some (closeLocked q), thread := slot.thread.wake }

/-- The call of `queue_dequeue` in `worker_func`, and the start of the work
function when it returns a request. -/
def Slot.dequeue (slot : Slot Job) : Option (Slot Job) := do
  let q ← slot.queue
  match ← queueDequeue q with
  | .wait => return { slot with thread := .parked }
  | .null => return { slot with thread := .exiting }
  | .item q req => return { slot with
      queue := some q
      thread := .working req
      executed := slot.executed ++ [req] }

/-- One step of `worker_func`. The thread number it prints is left out. -/
def workerFunc (slot : Slot Job) : Option (Slot Job) :=
  match slot.thread with
  | .starting => some { slot with thread := .dequeuing }
  | .dequeuing => slot.dequeue
  | .woken => slot.dequeue
  | .working req => some { slot with thread := .freeing req }
  | .freeing req => some { slot with
      thread := .dequeuing
      freed := slot.freed ++ [req]
      processed := slot.processed + 1 }
  | .exiting => some { slot with thread := .exited }
  | .unborn | .parked | .adding _ _ _ | .exited => none

/-- `thread_pool_t` with its workers and the thread that owns it. `script`
lists the calls of `thread_pool_add` still to be made with what `rand` returns
to each, `drained` the requests that `queue_destroy` freed, and `fault` tells
that a call of `thread_pool_add` used an object that was freed. -/
structure Pool (Job : Type u) where
  allocated : Bool
  main : MainPc Job
  script : List (Job × Nat)
  slots : Nat → Slot Job
  requests : Nat
  drained : List (Request Job)
  fault : Bool

namespace Pool

def init (script : List (Job × Nat)) : Pool Job where
  allocated := true
  main := .creating 0
  script := script
  slots := fun _ => .vacant
  requests := 0
  drained := []
  fault := false

def setSlot (pool : Pool Job) (index : Nat) (slot : Slot Job) : Pool Job :=
  { pool with slots := Function.update pool.slots index slot }

def setThread (pool : Pool Job) (index : Nat) (thread : WorkerPc Job) : Pool Job :=
  pool.setSlot index { pool.slots index with thread }

/-- `pool->workers[index]` can be followed to a live worker. -/
def present (pool : Pool Job) (index : Nat) : Bool :=
  pool.allocated && (pool.slots index).worker

/-- The call of `queue_enqueue` in `thread_pool_add`. -/
def enqueueOn (pool : Pool Job) (index : Nat) (node : Addr) (req : Request Job) :
    Option (Pool Job) :=
  match (pool.slots index).queue with
  | none => some { pool with fault := true }
  | some q => do
    let slot ← (pool.slots index).enqueue q node req
    return pool.setSlot index slot

inductive Label (Job : Type u) where
  | main (node : Addr)
  | worker (index : Nat)
  | spurious (index : Nat)
  | nestedAdd (index : Nat) (job : Job) (rand : Nat)
  | nestedEnqueue (index : Nat) (node : Addr)

/-- One step of the owner: `thread_pool_init`, the calls of `thread_pool_add`,
and `thread_pool_destroy` with its calls of `join_worker_thread`. -/
def mainStep (numThreads : Nat) (pool : Pool Job) (node : Addr) : Option (Pool Job) :=
  match pool.main with
  | .creating i =>
    if i < numThreads then
      some { pool.setSlot i createWorkerThread with main := .creating (i + 1) }
    else some { pool with main := .adding }
  | .adding =>
    match pool.script with
    | [] => some { pool with main := .closing 0 }
    | (job, rand) :: script =>
      if pool.present (rand % numThreads) then
        some { pool with
          script
          requests := pool.requests + 1
          main := .enqueueing ⟨pool.requests, job⟩ (rand % numThreads) }
      else some { pool with fault := true }
  | .enqueueing req index => do
    let pool ← pool.enqueueOn index node req
    return { pool with main := .adding }
  | .closing i =>
    if i < numThreads then do
      let q ← (pool.slots i).queue
      return { pool.setSlot i ((pool.slots i).close q) with main := .closing (i + 1) }
    else some { pool with main := .joining 0 }
  | .joining i =>
    if i < numThreads then
      -- pthread_join blocks until the worker has exited
      match (pool.slots i).thread with
      | .exited => some { pool with main := .draining i }
      | _ => none
    else some { pool with main := .finishing }
  | .draining i => do
    let q ← (pool.slots i).queue
    match ← queueDestroyTurn q with
    | some (q, req) => return { pool.setSlot i { pool.slots i with queue := some q } with
        drained := pool.drained ++ [req] }
    | none => return { pool.setSlot i { pool.slots i with queue := none } with
        main := .releasing i }
  | .releasing i =>
    some { pool.setSlot i { pool.slots i with worker := false } with main := .joining (i + 1) }
  | .finishing => some { pool with allocated := false, main := .returned }
  | .returned => none

/-- One step of the pool. Nothing is said about what follows a fault. -/
def step (numThreads : Nat) (pool : Pool Job) (label : Label Job) : Option (Pool Job) :=
  if pool.fault then none
  else match label with
  | .main node => mainStep numThreads pool node
  | .worker index => do
    let slot ← workerFunc (pool.slots index)
    return pool.setSlot index slot
  | .spurious index =>
    match (pool.slots index).thread with
    | .parked => some (pool.setThread index .woken)
    | _ => none
  | .nestedAdd index job rand =>
    match (pool.slots index).thread with
    | .working req =>
      if pool.present (rand % numThreads) then
        some { pool.setThread index (.adding req ⟨pool.requests, job⟩ (rand % numThreads)) with
          requests := pool.requests + 1 }
      else some { pool with fault := true }
    | _ => none
  | .nestedEnqueue index node =>
    match (pool.slots index).thread with
    | .adding req nested target => do
      let pool ← pool.enqueueOn target node nested
      return pool.setThread index (.working req)
    | _ => none

/-- All a step can do, with the guard it passed. -/
inductive Stepped (numThreads : Nat) (pool : Pool Job) : Label Job → Pool Job → Prop where
  | create (place : pool.main = .creating i) (more : i < numThreads) :
      Stepped numThreads pool (.main node)
        { pool.setSlot i createWorkerThread with main := .creating (i + 1) }
  | created (place : pool.main = .creating i) (last : numThreads ≤ i) :
      Stepped numThreads pool (.main node) { pool with main := .adding }
  | add (place : pool.main = .adding) (calls : pool.script = (job, rand) :: rest)
      (found : pool.present (rand % numThreads) = true) :
      Stepped numThreads pool (.main node) { pool with
        script := rest
        requests := pool.requests + 1
        main := .enqueueing ⟨pool.requests, job⟩ (rand % numThreads) }
  | addFault (place : pool.main = .adding) (calls : pool.script = (job, rand) :: rest)
      (missing : pool.present (rand % numThreads) = false) :
      Stepped numThreads pool (.main node) { pool with fault := true }
  | enqueue (place : pool.main = .enqueueing req index)
      (called : pool.enqueueOn index node req = some after) :
      Stepped numThreads pool (.main node) { after with main := .adding }
  | destroy (place : pool.main = .adding) (calls : pool.script = []) :
      Stepped numThreads pool (.main node) { pool with main := .closing 0 }
  | close (place : pool.main = .closing i) (more : i < numThreads)
      (live : (pool.slots i).queue = some q) :
      Stepped numThreads pool (.main node)
        { pool.setSlot i ((pool.slots i).close q) with main := .closing (i + 1) }
  | closed (place : pool.main = .closing i) (last : numThreads ≤ i) :
      Stepped numThreads pool (.main node) { pool with main := .joining 0 }
  | join (place : pool.main = .joining i) (more : i < numThreads)
      (exited : (pool.slots i).thread = .exited) :
      Stepped numThreads pool (.main node) { pool with main := .draining i }
  | joined (place : pool.main = .joining i) (last : numThreads ≤ i) :
      Stepped numThreads pool (.main node) { pool with main := .finishing }
  | drain (place : pool.main = .draining i) (live : (pool.slots i).queue = some q)
      (turn : queueDestroyTurn q = some (some (r, req))) :
      Stepped numThreads pool (.main node)
        { pool.setSlot i { pool.slots i with queue := some r } with
          drained := pool.drained ++ [req] }
  | drained (place : pool.main = .draining i) (live : (pool.slots i).queue = some q)
      (turn : queueDestroyTurn q = some none) :
      Stepped numThreads pool (.main node)
        { pool.setSlot i { pool.slots i with queue := none } with main := .releasing i }
  | release (place : pool.main = .releasing i) :
      Stepped numThreads pool (.main node)
        { pool.setSlot i { pool.slots i with worker := false } with main := .joining (i + 1) }
  | finish (place : pool.main = .finishing) :
      Stepped numThreads pool (.main node) { pool with allocated := false, main := .returned }
  | worker (ran : workerFunc (pool.slots i) = some slot) :
      Stepped numThreads pool (.worker i) (pool.setSlot i slot)
  | spurious (waits : (pool.slots i).thread = .parked) :
      Stepped numThreads pool (.spurious i) (pool.setThread i .woken)
  | nestedAdd (runs : (pool.slots i).thread = .working req)
      (found : pool.present (rand % numThreads) = true) :
      Stepped numThreads pool (.nestedAdd i job rand)
        { pool.setThread i (.adding req ⟨pool.requests, job⟩ (rand % numThreads)) with
          requests := pool.requests + 1 }
  | nestedFault (runs : (pool.slots i).thread = .working req)
      (missing : pool.present (rand % numThreads) = false) :
      Stepped numThreads pool (.nestedAdd i job rand) { pool with fault := true }
  | nestedEnqueue (runs : (pool.slots i).thread = .adding req nested target)
      (called : pool.enqueueOn target node nested = some after) :
      Stepped numThreads pool (.nestedEnqueue i node) (after.setThread i (.working req))

private theorem mainStepped {pool next : Pool Job}
    (taken : mainStep numThreads pool node = some next) :
    Stepped numThreads pool (.main node) next := by
  unfold mainStep at taken
  split at taken
  · rename_i i place
    split at taken
    · rename_i more
      cases taken
      exact .create place more
    · rename_i last
      cases taken
      exact .created place (Nat.le_of_not_lt last)
  · rename_i place
    split at taken
    · rename_i calls
      cases taken
      exact .destroy place calls
    · rename_i calls
      split at taken
      · rename_i found
        cases taken
        exact .add place calls found
      · rename_i missing
        cases taken
        exact .addFault place calls (Bool.eq_false_iff.mpr missing)
  · rename_i place
    simp only [Option.bind_eq_bind, Option.bind_eq_some_iff, Option.pure_def,
      Option.some.injEq] at taken
    obtain ⟨after, called, rfl⟩ := taken
    exact .enqueue place called
  · rename_i i place
    split at taken
    · rename_i more
      simp only [Option.bind_eq_bind, Option.bind_eq_some_iff, Option.pure_def,
        Option.some.injEq] at taken
      obtain ⟨q, live, rfl⟩ := taken
      exact .close place more live
    · rename_i last
      cases taken
      exact .closed place (Nat.le_of_not_lt last)
  · rename_i i place
    split at taken
    · rename_i more
      split at taken
      · rename_i exited
        cases taken
        exact .join place more exited
      · cases taken
    · rename_i last
      cases taken
      exact .joined place (Nat.le_of_not_lt last)
  · rename_i i place
    simp only [Option.bind_eq_bind, Option.bind_eq_some_iff] at taken
    obtain ⟨q, live, turned, turn, taken⟩ := taken
    cases turned with
    | some pair =>
      cases taken
      exact .drain place live turn
    | none =>
      cases taken
      exact .drained place live turn
  · rename_i i place
    cases taken
    exact .release place
  · rename_i place
    cases taken
    exact .finish place
  · cases taken

theorem stepped {pool next : Pool Job} (taken : step numThreads pool label = some next) :
    pool.fault = false ∧ Stepped numThreads pool label next := by
  unfold step at taken
  split at taken
  · cases taken
  · rename_i sound
    refine ⟨Bool.eq_false_iff.mpr sound, ?_⟩
    split at taken
    · exact mainStepped taken
    · simp only [Option.bind_eq_bind, Option.bind_eq_some_iff, Option.pure_def,
        Option.some.injEq] at taken
      obtain ⟨slot, ran, rfl⟩ := taken
      exact .worker ran
    · split at taken
      · rename_i waits
        cases taken
        exact .spurious waits
      · cases taken
    · split at taken
      · rename_i runs
        split at taken
        · rename_i found
          cases taken
          exact .nestedAdd runs found
        · rename_i missing
          cases taken
          exact .nestedFault runs (Bool.eq_false_iff.mpr missing)
      · cases taken
    · split at taken
      · rename_i runs
        simp only [Option.bind_eq_bind, Option.bind_eq_some_iff, Option.pure_def,
          Option.some.injEq] at taken
        obtain ⟨after, called, rfl⟩ := taken
        exact .nestedEnqueue runs called
      · cases taken

/-- `queue_enqueue` either meets a queue that was freed or runs on a live one. -/
theorem enqueueOn_cases {pool after : Pool Job}
    (called : pool.enqueueOn index node req = some after) :
    ((pool.slots index).queue = none ∧ after = { pool with fault := true }) ∨
    ∃ q slot, (pool.slots index).queue = some q ∧
      (pool.slots index).enqueue q node req = some slot ∧ after = pool.setSlot index slot := by
  unfold enqueueOn at called
  split at called
  · rename_i missing
    cases called
    exact .inl ⟨missing, rfl⟩
  · rename_i q live
    simp only [Option.bind_eq_bind, Option.bind_eq_some_iff, Option.pure_def,
      Option.some.injEq] at called
    obtain ⟨slot, ran, rfl⟩ := called
    exact .inr ⟨q, slot, live, ran, rfl⟩

end Pool

end RequestProxy.Librequest
