import RequestProxy.Abstract.Ledger
import RequestProxy.Librequest.PoolDrain

/-! The heap objects of the thread pool, from `thread_pool_init` to the return of
`thread_pool_destroy`. A ledger next to the pool records every `malloc` and
`free` of the library. -/

namespace RequestProxy.Librequest

open Abstract

universe u

variable {Job : Type u} {numThreads : Nat}

/-- What belongs to one entry of `pool->workers`: its `worker_thread_t`, the
mutex, the condition variable and the `queue_t` made for it, and for every
request that `thread_pool_add` makes for it the `request_t` and the `node_t`. -/
inductive Part where
  | worker
  | mutex
  | cond
  | queue
  | node (number : Nat)
  | request (number : Nat)
  deriving DecidableEq

/-- A heap object of the library. Objects that follow one another at the same
address are different. -/
inductive Object where
  | pool
  | workers
  | entry (index : Nat) (part : Part)
  deriving DecidableEq

def createCalls : List (Entry Part) :=
  [.acquire .worker, .acquire .mutex, .acquire .cond, .acquire .queue]

namespace Slot

/-- The calls of `queue_enqueue`; a queue that is freed is no queue. -/
def enqueueCalls (slot : Slot Job) (req : Request Job) : List (Entry Part) :=
  match slot.queue with
  | none => []
  | some q => .acquire (.node req.number) :: if q.closed then [.release (.node req.number)] else []

def dequeueCalls (slot : Slot Job) : List (Entry Part) :=
  match slot.queue.bind queueDequeue with
  | some (.item _ req) => [.release (.node req.number)]
  | _ => []

/-- The calls of one turn of `queue_destroy`, or of its end. -/
def destroyCalls (slot : Slot Job) : List (Entry Part) :=
  match slot.queue.bind queueDestroyTurn with
  | some (some (_, req)) => [.release (.request req.number), .release (.node req.number)]
  | some none => [.release .queue]
  | none => []

def workerCalls (slot : Slot Job) : List (Entry Part) :=
  match slot.thread with
  | .dequeuing | .woken => slot.dequeueCalls
  | .freeing req => [.release (.request req.number)]
  | _ => []

end Slot

def onEntry (index : Nat) (calls : List (Entry Part)) : List (Entry Object) :=
  calls.map (Entry.rename (Object.entry index))

namespace Pool

def mainCalls (numThreads : Nat) (pool : Pool Job) : List (Entry Object) :=
  match pool.main with
  | .creating i => if i < numThreads then onEntry i createCalls else []
  | .adding =>
    match pool.script with
    | [] => []
    | (_, rand) :: _ => onEntry (rand % numThreads) [.acquire (.request pool.requests)]
  | .enqueueing req index => onEntry index ((pool.slots index).enqueueCalls req)
  | .draining i => onEntry i (pool.slots i).destroyCalls
  | .releasing i => onEntry i [.release .worker]
  | .finishing => [.release .workers, .release .pool]
  | .closing _ | .joining _ | .returned => []

/-- The calls of `malloc` and `free` in a step. -/
def heapCalls (numThreads : Nat) (pool : Pool Job) : Label Job → List (Entry Object)
  | .main _ => mainCalls numThreads pool
  | .worker index => onEntry index (pool.slots index).workerCalls
  | .spurious _ => []
  | .nestedAdd index _ rand =>
    match (pool.slots index).thread with
    | .working _ => onEntry (rand % numThreads) [.acquire (.request pool.requests)]
    | _ => []
  | .nestedEnqueue index _ =>
    match (pool.slots index).thread with
    | .adding _ nested target => onEntry target ((pool.slots target).enqueueCalls nested)
    | _ => []

end Pool

structure Heap (Job : Type u) where
  pool : Pool Job
  ledger : Ledger Object

namespace Heap

/-- `thread_pool_init` has allocated the pool and the array of its workers. -/
def init (script : List (Job × Nat)) : Heap Job where
  pool := .init script
  ledger := (Ledger.start ∅).record [.acquire .pool, .acquire .workers]

def step (numThreads : Nat) (heap : Heap Job) (label : Pool.Label Job) : Option (Heap Job) := do
  let pool ← heap.pool.step numThreads label
  return { pool, ledger := heap.ledger.record (heap.pool.heapCalls numThreads label) }

/-- Nothing is live, as before `thread_pool_init`, and every object that was
allocated has been freed once. -/
structure Balanced (ledger : Ledger Object) : Prop where
  live : ledger.live = ∅
  freed : ∀ object ∈ ledger.acquired, ledger.released.count object = 1

end Heap

/-- The thread of the entry was created. -/
def WorkerPc.born : WorkerPc Job → Bool
  | .unborn => false
  | _ => true

def numberCount (number : Nat) (requests : List (Request Job)) : Nat :=
  (requests.map Request.number).count number

namespace Slot

/-- How often a part of the entry was allocated, but for the request that the
owner is about to enqueue. -/
def allocations (slot : Slot Job) : Part → Nat
  | .node number => numberCount number slot.accepted
  | .request number => numberCount number slot.accepted
  | _ => if slot.thread.born then 1 else 0

def frees (slot : Slot Job) : Part → Nat
  | .worker => if slot.thread.born && !slot.worker then 1 else 0
  | .queue => if slot.thread.born && slot.queue.isNone then 1 else 0
  | .mutex => 0
  | .cond => 0
  | .node number => numberCount number slot.executed
  | .request number => numberCount number slot.freed

end Slot

/-- The request on its way to an entry. -/
def MainPc.submitted (main : MainPc Job) (index : Nat) : Part → Nat
  | .request number => numberCount number (routed index main.pending)
  | _ => 0

namespace Pool

def allocations (pool : Pool Job) : Object → Nat
  | .pool => 1
  | .workers => 1
  | .entry index part => (pool.slots index).allocations part + pool.main.submitted index part

def frees (pool : Pool Job) : Object → Nat
  | .pool => if pool.allocated then 0 else 1
  | .workers => if pool.allocated then 0 else 1
  | .entry index part => (pool.slots index).frees part

end Pool

/-- The ledger agrees with the state of the pool. -/
structure Pool.Mirrored (pool : Pool Job) (ledger : Ledger Object) : Prop where
  conserved : ledger.Conserved ∅
  acquired : ∀ object, ledger.acquired.count object = pool.allocations object
  released : ∀ object, ledger.released.count object = pool.frees object

@[simp] theorem numberCount_nil (number : Nat) :
    numberCount number ([] : List (Request Job)) = 0 := rfl

@[simp] theorem numberCount_cons (number : Nat) (req : Request Job) (requests : List (Request Job)) :
    numberCount number (req :: requests) =
      numberCount number requests + if req.number = number then 1 else 0 := by
  simp [numberCount, List.count_cons]

@[simp] theorem numberCount_append (number : Nat) (first second : List (Request Job)) :
    numberCount number (first ++ second) = numberCount number first + numberCount number second := by
  simp [numberCount]

/-- The calls of a step of one entry are those that its state counts, and each
can be made. -/
structure Slot.Books (slot after : Slot Job) (calls : List (Entry Part)) : Prop where
  allocated : ∀ part, after.allocations part =
    slot.allocations part + (Ledger.acquires calls).count part
  freed : ∀ part, after.frees part = slot.frees part + (Ledger.releases calls).count part
  distinct : (calls.map Entry.resource).Nodup
  absent : ∀ part, .acquire part ∈ calls →
    (∀ number, part ≠ .request number) ∧ slot.allocations part = 0
  held : ∀ part, .release part ∈ calls → slot.frees part < slot.allocations part

private theorem wake_born (thread : WorkerPc Job) : thread.wake.born = thread.born := by
  cases thread <;> rfl

section Books

variable {phase : Phase} {slot after : Slot Job}

private theorem allocations_kept (born : after.thread.born = slot.thread.born)
    (accepted : after.accepted = slot.accepted) (part : Part) :
    after.allocations part = slot.allocations part := by
  cases part <;> simp [Slot.allocations, born, accepted]

private theorem books_quiet (born : after.thread.born = slot.thread.born)
    (worker : after.worker = slot.worker) (queue : after.queue.isNone = slot.queue.isNone)
    (accepted : after.accepted = slot.accepted) (executed : after.executed = slot.executed)
    (freed : after.freed = slot.freed) : slot.Books after [] where
  allocated := allocations_kept born accepted
  freed := by
    intro part
    cases part <;> simp [Slot.frees, born, worker, queue, executed, freed, Ledger.releases]
  distinct := List.nodup_nil
  absent := fun _ member => absurd member List.not_mem_nil
  held := fun _ member => absurd member List.not_mem_nil

private theorem books_free (born : after.thread.born = slot.thread.born)
    (accepted : after.accepted = slot.accepted)
    (freed : ∀ other, after.frees other = slot.frees other + [part].count other)
    (held : slot.frees part < slot.allocations part) : slot.Books after [.release part] where
  allocated := allocations_kept born accepted
  freed := freed
  distinct := List.nodup_singleton _
  absent := by simp
  held := by
    intro other member
    cases List.mem_singleton.mp member
    exact held

private theorem books_create (valid : SlotOk .unborn slot) (idle : slot.accepted = []) :
    slot.Books createWorkerThread createCalls := by
  have unborn : slot.thread = .unborn := valid.unborn.mpr rfl
  have executed : slot.executed = [] := by
    cases present : slot.queue with
    | none => exact (valid.absent present).2.symm.trans idle
    | some q => exact absurd (valid.queue q present).1 (by simp [Phase.hasQueue])
  have freed : slot.freed = [] := (List.append_eq_nil_iff.mp (valid.freed.symm.trans executed)).1
  constructor
  · intro part
    cases part <;> simp [Slot.allocations, createWorkerThread, Slot.vacant, unborn, idle,
      WorkerPc.born, createCalls, Ledger.acquires]
  · intro part
    cases part <;> simp [Slot.frees, createWorkerThread, Slot.vacant, unborn, executed, freed,
      WorkerPc.born, createCalls, Ledger.releases]
  · decide
  · intro part member
    cases part <;> simp [createCalls, Slot.allocations, unborn, WorkerPc.born] at member ⊢
  · simp [createCalls]

theorem SlotOk.born (valid : SlotOk phase slot) (created : phase ≠ .unborn) :
    slot.thread.born = true := by
  cases place : slot.thread with
  | unborn => exact absurd (valid.unborn.mp place) created
  | _ => rfl

private theorem books_destroy (valid : SlotOk phase slot) (created : phase ≠ .unborn)
    (live : slot.queue = some q) : slot.Books { slot with queue := none } [.release .queue] := by
  have born := valid.born created
  refine books_free rfl rfl ?_ ?_
  · intro part
    cases part <;> simp [Slot.frees, born, live]
  · simp [Slot.frees, Slot.allocations, born, live]

private theorem books_release (valid : SlotOk phase slot) (there : phase.hasWorker = true) :
    slot.Books { slot with worker := false } [.release .worker] := by
  have born : slot.thread.born = true := by
    apply valid.born
    rintro rfl
    cases there
  have worker : slot.worker = true := valid.worker.trans there
  refine books_free rfl rfl ?_ ?_
  · intro part
    cases part <;> simp [Slot.frees, born, worker]
  · simp [Slot.frees, Slot.allocations, born, worker]

private theorem enqueue_kept {slot after : Slot Job}
    (called : slot.enqueue q node req = some after) :
    after.worker = slot.worker ∧ ∃ r, after.queue = some r := by
  simp only [Slot.enqueue, Option.bind_eq_bind, Option.bind_eq_some_iff, Prod.exists] at called
  obtain ⟨r, accepted, _, called⟩ := called
  cases accepted <;> cases called <;> exact ⟨rfl, r, rfl⟩

private theorem SlotOk.executed_le (valid : SlotOk phase slot) (number : Nat) :
    numberCount number slot.executed ≤ numberCount number slot.accepted := by
  cases present : slot.queue with
  | none => rw [(valid.absent present).2]
  | some q =>
    obtain ⟨_, items, ok⟩ := valid.queue q present
    simp [ok.accepted]

private theorem books_dequeue (valid : SlotOk phase slot) (born : slot.thread.born = true)
    (ran : slot.dequeue = some after) : slot.Books after slot.dequeueCalls := by
  simp only [Slot.dequeue, Option.bind_eq_bind, Option.bind_eq_some_iff] at ran
  obtain ⟨q, present, taken, called, ran⟩ := ran
  obtain ⟨_, items, ok⟩ := valid.queue q present
  rw [Slot.dequeueCalls, present, Option.bind_some, called]
  cases taken with
  | wait | null =>
    cases ran
    exact books_quiet born.symm rfl rfl rfl rfl rfl
  | item r req =>
    cases ran
    have accepted : ∃ rest, slot.accepted = slot.executed ++ req :: rest := by
      cases items with
      | nil =>
        rw [ok.settled.dequeue_empty] at called
        split at called <;> cases called
      | cons front rest =>
        obtain ⟨_, dequeued, _, _⟩ := ok.settled.dequeue
        cases called.symm.trans dequeued
        exact ⟨rest, ok.accepted⟩
    obtain ⟨rest, accepted⟩ := accepted
    have working : (WorkerPc.working req).born = true := rfl
    change slot.Books _ [.release (.node req.number)]
    refine books_free born.symm rfl ?_ ?_
    · intro part
      cases part <;> simp [Slot.frees, born, working, present, List.count_singleton]
    · simp [Slot.frees, Slot.allocations, accepted]

private theorem books_workerFunc (valid : SlotOk phase slot) (ran : workerFunc slot = some after) :
    slot.Books after slot.workerCalls := by
  unfold workerFunc at ran
  rw [Slot.workerCalls]
  split at ran
  case h_2 place | h_3 place =>
    rw [place]
    exact books_dequeue valid (by rw [place]; rfl) ran
  case h_5 req place =>
    cases ran
    have born : slot.thread.born = true := by rw [place]; rfl
    have dequeuing : (WorkerPc.dequeuing : WorkerPc Job).born = true := rfl
    rw [place]
    change slot.Books _ [.release (.request req.number)]
    refine books_free born.symm rfl ?_ ?_
    · intro part
      cases part <;> simp [Slot.frees, born, dequeuing, List.count_singleton]
    · have executed := valid.freed
      rw [place] at executed
      have accepted := valid.executed_le req.number
      simp only [executed, WorkerPc.current, numberCount_append, numberCount_cons, if_true,
        numberCount_nil] at accepted
      simp only [Slot.frees, Slot.allocations]
      omega
  case h_1 place | h_4 place | h_6 place =>
    cases ran
    have born : slot.thread.born = true := by rw [place]; rfl
    rw [place]
    exact books_quiet born.symm rfl rfl rfl rfl rfl
  all_goals cases ran

end Books

private theorem count_onEntry (index : Nat) (parts : List Part) (object : Object) :
    (parts.map (Object.entry index)).count object =
      match object with
      | .entry other part => if other = index then parts.count part else 0
      | _ => 0 := by
  cases object with
  | entry other part =>
    by_cases same : other = index
    · subst same
      rw [List.count_map_of_injective parts _ fun _ _ equal => (Object.entry.inj equal).2]
      exact (if_pos rfl).symm
    · simp only [same, if_false, List.count_eq_zero]
      intro member
      obtain ⟨_, _, equal⟩ := List.mem_map.mp member
      exact same (Object.entry.inj equal).1.symm
  | pool | workers => simp [List.count_eq_zero]

namespace Pool

variable {pool next : Pool Job} {ledger : Ledger Object}

private theorem Mirrored.live_iff (mirrored : pool.Mirrored ledger) (object : Object) :
    object ∈ ledger.live ↔ pool.frees object < pool.allocations object := by
  rw [mirrored.conserved.mem_live_iff, mirrored.acquired, mirrored.released]

/-- A step with its calls, when both count the same. -/
theorem Mirrored.record (mirrored : pool.Mirrored ledger) {calls : List (Entry Object)}
    (possible : ledger.Possible calls)
    (acquired : ∀ object, next.allocations object =
      pool.allocations object + (Ledger.acquires calls).count object)
    (released : ∀ object, next.frees object =
      pool.frees object + (Ledger.releases calls).count object) :
    next.Mirrored (ledger.record calls) where
  conserved := mirrored.conserved.record possible
  acquired := by
    intro object
    rw [Ledger.record_acquired, List.count_append, mirrored.acquired, acquired]
  released := by
    intro object
    rw [Ledger.record_released, List.count_append, mirrored.released, released]

theorem Mirrored.quiet (mirrored : pool.Mirrored ledger) (slots : next.slots = pool.slots)
    (allocated : next.allocated = pool.allocated)
    (submitted : next.main.submitted = pool.main.submitted) : next.Mirrored ledger where
  conserved := mirrored.conserved
  acquired := by
    intro object
    rw [mirrored.acquired]
    cases object <;> simp [allocations, slots, submitted]
  released := by
    intro object
    rw [mirrored.released]
    cases object <;> simp [frees, slots, allocated]

/-- A step on one entry: nothing is allocated that is live, nothing freed that is
not, and the other entries stay as they are. -/
theorem Mirrored.entry (mirrored : pool.Mirrored ledger) {calls : List (Entry Part)}
    (others : ∀ index, index ≠ i → next.slots index = pool.slots index ∧
      next.main.submitted index = pool.main.submitted index)
    (allocated : next.allocated = pool.allocated)
    (acquired : ∀ part, next.allocations (.entry i part) =
      pool.allocations (.entry i part) + (Ledger.acquires calls).count part)
    (released : ∀ part, next.frees (.entry i part) =
      pool.frees (.entry i part) + (Ledger.releases calls).count part)
    (distinct : (calls.map Entry.resource).Nodup)
    (absent : ∀ part, .acquire part ∈ calls → pool.allocations (.entry i part) = 0)
    (held : ∀ part, .release part ∈ calls →
      pool.frees (.entry i part) < pool.allocations (.entry i part)) :
    next.Mirrored (ledger.record (onEntry i calls)) := by
  have names : (onEntry i calls).map Entry.resource =
      (calls.map Entry.resource).map (Object.entry i) := by
    rw [onEntry, List.map_map, List.map_map]
    refine List.map_congr_left fun call _ => ?_
    cases call <;> rfl
  have injective : Function.Injective (Object.entry i) := fun _ _ equal => (Object.entry.inj equal).2
  apply mirrored.record
  · refine ⟨names ▸ distinct.map injective, ?_, ?_⟩
    · intro object member live
      obtain ⟨call, listed, same⟩ := List.mem_map.mp member
      cases call <;> cases same
      have free := (mirrored.live_iff _).mp live
      rw [absent _ listed] at free
      exact Nat.not_lt_zero _ free
    · intro object member
      obtain ⟨call, listed, same⟩ := List.mem_map.mp member
      cases call <;> cases same
      exact (mirrored.live_iff _).mpr (held _ listed)
  · intro object
    rw [onEntry, Ledger.acquires_rename, count_onEntry]
    cases object with
    | entry index part =>
      by_cases here : index = i
      · subst here
        simpa using acquired part
      · simp [allocations, others index here, here]
    | pool | workers => rfl
  · intro object
    rw [onEntry, Ledger.releases_rename, count_onEntry]
    cases object with
    | entry index part =>
      by_cases here : index = i
      · subst here
        simpa using released part
      · simp [frees, others index here, here]
    | pool | workers => simp [frees, allocated]

theorem Mirrored.slot (mirrored : pool.Mirrored ledger) (books : (pool.slots i).Books after calls)
    (main : MainPc Job) (submitted : main.submitted = pool.main.submitted) :
    Mirrored { pool.setSlot i after with main } (ledger.record (onEntry i calls)) := by
  apply mirrored.entry
  · intro index other
    exact ⟨Function.update_of_ne other _ _, congrFun submitted index⟩
  · rfl
  · intro part
    have counts := books.allocated part
    simp only [allocations, setSlot, Function.update_self, submitted]
    omega
  · intro part
    simpa [frees, setSlot] using books.freed part
  · exact books.distinct
  · intro part member
    obtain ⟨plain, none⟩ := books.absent part member
    cases part with
    | request number => exact absurd rfl (plain number)
    | _ => exact none
  · intro part member
    exact Nat.lt_add_right _ (books.held part member)

/-- Calls that are still to be made have numbers of their own. -/
theorem Routed.unused {script : List (Job × Nat)} (routes : Routed numThreads script pool)
    (ahead : pool.main.pending ++ submissions numThreads pool.requests pool.script =
      (req, target) :: rest) (index : Nat) :
    numberCount req.number (pool.slots index).accepted = 0 := by
  obtain ⟨made, calls, accepted⟩ := routes.made
  rw [List.append_assoc, ahead] at calls
  have numbers : (submissions numThreads 0 script).map (fun send => send.1.number) =
      List.range' 0 script.length := submissions_numbers 0 script
  rw [← calls, List.map_append, List.map_cons] at numbers
  have distinct := (List.nodup_append.mp (numbers ▸ List.nodup_range')).2.2
  rw [numberCount, accepted, List.count_eq_zero]
  intro member
  obtain ⟨other, listed, same⟩ := List.mem_map.mp member
  obtain ⟨send, sent, rfl⟩ := List.mem_map.mp listed
  exact distinct _ (List.mem_map.mpr ⟨send, (List.mem_filter.mp sent).1, rfl⟩) _ (by simp) same

private theorem submitted_eq {main other : MainPc Job} (same : main.pending = other.pending) :
    main.submitted = other.submitted := by
  funext index part
  cases part <;> simp [MainPc.submitted, same]

private theorem submitted_none {main : MainPc Job} (nothing : main.pending = []) (index : Nat)
    (part : Part) : main.submitted index part = 0 := by
  cases part <;> simp [MainPc.submitted, nothing]

private theorem submitted_enqueueing (req : Request Job) (index other : Nat) (part : Part) :
    (MainPc.enqueueing req index).submitted other part =
      if other = index then [Part.request req.number].count part else 0 := by
  by_cases here : index = other
  · cases part <;> simp [MainPc.submitted, MainPc.pending, routed_single, here,
      List.count_singleton]
  · cases part <;> simp [MainPc.submitted, MainPc.pending, routed_single, here, Ne.symm here]

private theorem Mirrored.submit (mirrored : pool.Mirrored ledger) (place : pool.main = .adding)
    (unused : numberCount pool.requests (pool.slots index).accepted = 0) :
    Mirrored { pool with
        script := rest
        requests := pool.requests + 1
        main := .enqueueing ⟨pool.requests, job⟩ index }
      (ledger.record (onEntry index [.acquire (.request pool.requests)])) := by
  have before := submitted_none (place ▸ rfl : pool.main.pending = [])
  have after := submitted_enqueueing ⟨pool.requests, job⟩ index
  apply mirrored.entry
  · intro other elsewhere
    refine ⟨rfl, funext fun part => ?_⟩
    rw [after, before, if_neg elsewhere]
  · rfl
  · intro part
    simp [allocations, after, before, Ledger.acquires]
  · exact fun part => rfl
  · exact List.nodup_singleton _
  · intro part member
    cases List.mem_singleton.mp member
    simpa [allocations, Slot.allocations, before] using unused
  · simp

theorem Mirrored.enqueue (mirrored : pool.Mirrored ledger) (valid : PoolOk numThreads pool)
    (place : pool.main = .enqueueing req index)
    (unused : numberCount req.number (pool.slots index).accepted = 0)
    (sound : next.fault = false) (called : pool.enqueueOn index node req = some next) :
    Mirrored { next with main := .adding }
      (ledger.record (onEntry index ((pool.slots index).enqueueCalls req))) := by
  have inside : index < numThreads := by simpa [place, InBounds] using valid.bounds
  have opened := opened_enqueueing place inside
  have ok := valid.slots index
  rw [opened] at ok
  rcases enqueueOn_cases called with ⟨_, rfl⟩ | ⟨q, slot, live, ran, rfl⟩
  · cases sound
  · obtain ⟨_, items, contents⟩ := ok.queue q live
    have calls : (pool.slots index).enqueueCalls req = [.acquire (.node req.number)] := by
      simp [Slot.enqueueCalls, live, contents.closed, Phase.isClosed]
    obtain ⟨_, accepted, executed, freed, woken⟩ := ok.enqueue live ran
    obtain ⟨worker, r, queue⟩ := enqueue_kept ran
    have born : slot.thread.born = (pool.slots index).thread.born := by
      rcases woken with same | same
      · rw [same]
      · rw [same, wake_born]
    have before := submitted_enqueueing req index
    rw [← place] at before
    have after := submitted_none (rfl : (MainPc.adding : MainPc Job).pending = [])
    rw [calls]
    apply mirrored.entry
    · intro other elsewhere
      refine ⟨Function.update_of_ne elsewhere _ _, funext fun part => ?_⟩
      rw [after, before, if_neg elsewhere]
    · rfl
    · intro part
      simp only [allocations, setSlot, Function.update_self, before, after]
      cases part <;> simp [Slot.allocations, accepted, born, Phase.isClosed, Ledger.acquires,
        List.count_singleton]
    · intro part
      simp only [frees, setSlot, Function.update_self]
      cases part <;> simp [Slot.frees, executed, freed, born, worker, queue, live, Ledger.releases]
    · exact List.nodup_singleton _
    · intro part member
      cases List.mem_singleton.mp member
      simpa [allocations, Slot.allocations, before] using unused
    · simp

/-- Every step of the pool keeps the ledger in agreement. -/
theorem Mirrored.step {script : List (Job × Nat)} (mirrored : pool.Mirrored ledger)
    (valid : PoolOk numThreads pool) (routes : Routed numThreads script pool)
    (positive : 0 < numThreads) (external : label.External)
    (taken : Stepped numThreads pool label next) :
    next.Mirrored (ledger.record (pool.heapCalls numThreads label)) := by
  have sound := valid.no_fault positive external taken
  cases taken with
  | @create i node place more =>
    have unborn : pool.main.phase numThreads i = .unborn := by simp [place, MainPc.phase]
    have calls : pool.heapCalls numThreads (.main node) = onEntry i createCalls := by
      simp [heapCalls, mainCalls, place, more]
    rw [calls]
    have books := books_create (unborn ▸ valid.slots i) (valid.idle i place i)
    exact mirrored.slot books _ (submitted_eq (by rw [place]; rfl))
  | @created i node place last =>
    have calls : pool.heapCalls numThreads (.main node) = [] := by
      simp [heapCalls, mainCalls, place, Nat.not_lt.mpr last]
    rw [calls]
    exact mirrored.quiet rfl rfl (submitted_eq (by rw [place]; rfl))
  | @add job rand rest node place listed found =>
    have calls : pool.heapCalls numThreads (.main node) =
        onEntry (rand % numThreads) [.acquire (.request pool.requests)] := by
      simp [heapCalls, mainCalls, place, listed]
    have unused := routes.unused (by rw [place, listed]; rfl)
    rw [calls]
    exact mirrored.submit place (unused _)
  | addFault => cases sound
  | @enqueue req index node after place called =>
    have calls : pool.heapCalls numThreads (.main node) =
        onEntry index ((pool.slots index).enqueueCalls req) := by
      simp [heapCalls, mainCalls, place]
    have unused := routes.unused (by rw [place]; rfl)
    rw [calls]
    exact mirrored.enqueue valid place (unused index) sound called
  | @destroy node place listed =>
    have calls : pool.heapCalls numThreads (.main node) = [] := by
      simp [heapCalls, mainCalls, place, listed]
    rw [calls]
    exact mirrored.quiet rfl rfl (submitted_eq (by rw [place]; rfl))
  | @close i q node place more live =>
    have calls : pool.heapCalls numThreads (.main node) = onEntry i [] := by
      simp [heapCalls, mainCalls, place, onEntry]
    rw [calls]
    have books : (pool.slots i).Books ((pool.slots i).close q) [] :=
      books_quiet (wake_born _) rfl (by rw [live]; rfl) rfl rfl rfl
    exact mirrored.slot books _ (submitted_eq (by rw [place]; rfl))
  | @closed i node place last | @join i node place last | @joined i node place last =>
    have calls : pool.heapCalls numThreads (.main node) = [] := by
      simp [heapCalls, mainCalls, place]
    rw [calls]
    exact mirrored.quiet rfl rfl (submitted_eq (by rw [place]; rfl))
  | @drain i q r req node place live turn =>
    cases (valid.drain_empty place live).symm.trans turn
  | @drained i q node place live turn =>
    have calls : pool.heapCalls numThreads (.main node) = onEntry i [.release .queue] := by
      simp [heapCalls, mainCalls, place, Slot.destroyCalls, live, turn]
    have inside : i < numThreads := by simpa [place, InBounds] using valid.bounds
    have joined : pool.main.phase numThreads i ≠ .unborn := by
      simp [place, MainPc.phase, Nat.not_le.mpr inside]
    rw [calls]
    have books := books_destroy (valid.slots i) joined live
    exact mirrored.slot books _ (submitted_eq (by rw [place]; rfl))
  | @release i node place =>
    have calls : pool.heapCalls numThreads (.main node) = onEntry i [.release .worker] := by
      simp [heapCalls, mainCalls, place]
    have inside : i < numThreads := by simpa [place, InBounds] using valid.bounds
    have emptied : pool.main.phase numThreads i = .emptied := by
      simp [place, MainPc.phase, Nat.not_le.mpr inside]
    rw [calls]
    have books := books_release (valid.slots i) (by rw [emptied]; rfl)
    exact mirrored.slot books _ (submitted_eq (by rw [place]; rfl))
  | @finish node place =>
    have calls : pool.heapCalls numThreads (.main node) = [.release .workers, .release .pool] := by
      simp [heapCalls, mainCalls, place]
    have allocated : pool.allocated = true := valid.allocated.mpr (by simp [place])
    have submitted : (MainPc.returned : MainPc Job).submitted = pool.main.submitted :=
      submitted_eq (by rw [place]; rfl)
    rw [calls]
    apply mirrored.record
    · refine ⟨by decide, by simp, ?_⟩
      intro object member
      apply (mirrored.live_iff object).mpr
      have which : object = .workers ∨ object = .pool := by simpa using member
      rcases which with rfl | rfl <;> simp [frees, allocations, allocated]
    · intro object
      cases object <;> simp [allocations, submitted, Ledger.acquires]
    · intro object
      cases object <;> simp [frees, allocated, Ledger.releases]
  | @worker i after ran =>
    exact mirrored.slot (books_workerFunc (valid.slots i) ran) pool.main rfl
  | @spurious i waits =>
    have parked : (pool.slots i).thread.born = true := by rw [waits]; rfl
    have books : (pool.slots i).Books { pool.slots i with thread := .woken } [] :=
      books_quiet parked.symm rfl rfl rfl rfl rfl
    exact mirrored.slot books pool.main rfl
  | nestedAdd | nestedFault | nestedEnqueue => exact external.elim

private theorem mirrored_init (script : List (Job × Nat)) :
    (init script).Mirrored (Heap.init script).ledger where
  conserved := by
    apply (Ledger.conserved_start ∅).record
    exact ⟨by decide, by simp [Ledger.start], by simp⟩
  acquired := by
    intro object
    cases object with
    | entry index part => cases part <;> rfl
    | pool | workers => rfl
  released := by
    intro object
    cases object with
    | entry index part => cases part <;> rfl
    | pool | workers => rfl

end Pool

namespace Heap

variable {heap : Heap Job}

/-- The ledger only watches the pool. -/
theorem step_pool {next : Heap Job} (taken : step numThreads heap label = some next) :
    heap.pool.step numThreads label = some next.pool ∧
      next.ledger = heap.ledger.record (heap.pool.heapCalls numThreads label) := by
  simp only [step, Option.bind_eq_bind, Option.bind_eq_some_iff, Option.pure_def,
    Option.some.injEq] at taken
  obtain ⟨pool, moved, rfl⟩ := taken
  exact ⟨moved, rfl⟩

/-- What holds in every state of a run without nested calls. -/
theorem ledger_invariant (positive : 0 < numThreads) (script : List (Job × Nat)) :
    Transition.Invariant (step numThreads) Pool.Label.External (init script)
      (fun heap => (Pool.PoolOk numThreads heap.pool ∧ Pool.Routed numThreads script heap.pool) ∧
        heap.pool.Mirrored heap.ledger) := by
  have base : Transition.Invariant (step numThreads) Pool.Label.External (init script)
      (fun heap : Heap Job => Pool.PoolOk numThreads heap.pool ∧
        Pool.Routed numThreads script heap.pool) := by
    apply Transition.Invariant.pullback Heap.pool (init script)
      (Pool.drain_invariant positive script)
    intro heap label next taken
    exact (step_pool taken).1
  apply base.and (Pool.mirrored_init script)
  rintro heap label next ⟨valid, routes⟩ mirrored external taken
  obtain ⟨moved, recorded⟩ := step_pool taken
  rw [recorded]
  exact mirrored.step valid routes positive external (Pool.stepped moved).2

/-- The mutex and the condition variable of one of the workers. -/
def IsLock (numThreads : Nat) (object : Object) : Prop :=
  ∃ i < numThreads, object = .entry i .mutex ∨ object = .entry i .cond

private theorem routed_once (script : List (Job × Nat)) (index number : Nat) :
    numberCount number (routed index (Pool.submissions numThreads 0 script)) ≤ 1 := by
  have numbers : ((Pool.submissions numThreads 0 script).map fun send => send.1.number).Nodup :=
    Pool.submissions_numbers 0 script ▸ List.nodup_range'
  have part : ((routed index (Pool.submissions numThreads 0 script)).map Request.number).Sublist
      ((Pool.submissions numThreads 0 script).map fun send => send.1.number) := by
    rw [routed, List.map_map]
    exact List.filter_sublist.map _
  exact List.nodup_iff_count_le_one.mp (numbers.sublist part) number

variable {script : List (Job × Nat)}

private theorem returned_born (valid : Pool.PoolOk numThreads heap.pool)
    (done : heap.pool.main = .returned) (index : Nat) :
    (heap.pool.slots index).thread.born = true ↔ index < numThreads := by
  rw [← Nat.not_le, ← (valid.vacated done index).created]
  cases (heap.pool.slots index).thread <;> simp [WorkerPc.born]

/-- What is allocated and not freed when `thread_pool_destroy` returns. -/
theorem returned_leaks (valid : Pool.PoolOk numThreads heap.pool)
    (done : heap.pool.main = .returned) (object : Object) :
    heap.pool.frees object < heap.pool.allocations object ↔ IsLock numThreads object := by
  have allocated : heap.pool.allocated = false := by
    rw [Bool.eq_false_iff, Ne, valid.allocated, not_not]
    exact done
  cases object with
  | pool | workers => simp [Pool.frees, Pool.allocations, allocated, IsLock]
  | entry index part =>
    have vacated := valid.vacated done index
    have born := returned_born valid done index
    have submitted := Pool.submitted_none (by rw [done]; rfl : heap.pool.main.pending = [])
    by_cases inside : index < numThreads
    all_goals
      cases part <;> simp [Pool.frees, Pool.allocations, Slot.frees, Slot.allocations, IsLock,
        submitted, vacated.worker, vacated.queue, vacated.accepted, vacated.freed, born, inside]

private theorem returned_once (valid : Pool.PoolOk numThreads heap.pool)
    (routes : Pool.Routed numThreads script heap.pool) (done : heap.pool.main = .returned)
    (object : Object) : heap.pool.allocations object ≤ 1 := by
  cases object with
  | pool | workers => exact Nat.le_refl 1
  | entry index part =>
    have submitted := Pool.submitted_none (by rw [done]; rfl : heap.pool.main.pending = [])
    have accepted : (heap.pool.slots index).accepted =
        routed index (Pool.submissions numThreads 0 script) := by
      rw [(valid.vacated done index).accepted, (routes.returned valid done index).1]
    have single : ∀ number,
        numberCount number (routed index (Pool.submissions numThreads 0 script)) ≤ 1 :=
      routed_once script index
    cases part with
    | node number | request number =>
      simpa [Pool.allocations, Slot.allocations, submitted, accepted] using single number
    | worker | mutex | cond | queue =>
      simp only [Pool.allocations, Slot.allocations, submitted]
      split <;> omega

/-- A pool of one worker, which is destroyed before anything is added. -/
def unusedPool : List (Pool.Label Nat) :=
  [.main 0, .main 0, .main 0, .main 0, .main 0, .worker 0, .worker 0, .worker 0, .main 0,
    .main 0, .main 0, .main 0, .main 0]

theorem unused_pool_leaks :
    ¬∀ (numThreads : Nat) (script : List (Nat × Nat)) (labels : List (Pool.Label Nat))
      (heap : Heap Nat), 0 < numThreads → (∀ label ∈ labels, label.External) →
        Transition.run (step numThreads) (init script) labels = some heap →
        heap.pool.main = .returned → Balanced heap.ledger := by
  intro balances
  have external : ∀ label ∈ unusedPool, label.External := by simp [unusedPool, Pool.Label.External]
  have balanced := balances 1 [] unusedPool _ (by decide) external rfl rfl
  have freed := balanced.freed (.entry 0 .mutex) (by decide)
  revert freed
  decide

/-- When `thread_pool_destroy` returns, everything that the library has allocated
was freed once, but for the mutexes and the condition variables of the workers,
which are never freed. -/
theorem pool_leaks_locks (positive : 0 < numThreads) (script : List (Job × Nat))
    (labels : List (Pool.Label Job)) (external : ∀ label ∈ labels, label.External)
    (ran : Transition.run (step numThreads) (init script) labels = some heap)
    (done : heap.pool.main = .returned) :
    ¬Balanced heap.ledger ∧
      (∀ object, object ∈ heap.ledger.live ↔ IsLock numThreads object) ∧
      ∀ object ∈ heap.ledger.acquired, heap.ledger.acquired.count object = 1 ∧
        (¬IsLock numThreads object → heap.ledger.released.count object = 1) ∧
        (IsLock numThreads object → heap.ledger.released.count object = 0) := by
  obtain ⟨⟨valid, routes⟩, mirrored⟩ := (ledger_invariant positive script).run external ran
  have leaks : ∀ object, object ∈ heap.ledger.live ↔ IsLock numThreads object := fun object =>
    (mirrored.live_iff object).trans (returned_leaks valid done object)
  refine ⟨?_, leaks, ?_⟩
  · intro balanced
    have mutex := (leaks (.entry 0 .mutex)).mpr ⟨0, positive, .inl rfl⟩
    rw [balanced.live] at mutex
    exact Finset.notMem_empty _ mutex
  · intro object member
    have there := List.count_pos_iff.mpr member
    have once := returned_once valid routes done object
    rw [← mirrored.acquired] at once
    have counts := mirrored.conserved.count_eq object
    rw [Finset.empty_val, Multiset.count_zero] at counts
    refine ⟨by omega, fun other => ?_, fun lock => ?_⟩
    · have gone := Multiset.count_eq_zero.mpr (mt (leaks object).mp other)
      omega
    · have kept := Multiset.count_pos.mpr ((leaks object).mpr lock)
      omega

theorem pool_leaks_locks_sample :
    ∃ heap : Heap Nat,
      Transition.run (step 2) (init [(7, 5), (8, 2)]) Pool.drainTwo = some heap ∧
      heap.pool.main = .returned ∧ ¬Balanced heap.ledger ∧
      (∀ object, object ∈ heap.ledger.live ↔ IsLock 2 object) ∧
      ∀ object ∈ heap.ledger.acquired, heap.ledger.acquired.count object = 1 ∧
        (¬IsLock 2 object → heap.ledger.released.count object = 1) ∧
        (IsLock 2 object → heap.ledger.released.count object = 0) := by
  refine ⟨_, rfl, rfl, ?_⟩
  exact pool_leaks_locks (by decide) [(7, 5), (8, 2)] Pool.drainTwo
    (by simp [Pool.drainTwo, Pool.Label.External]) rfl rfl

end Heap

end RequestProxy.Librequest
