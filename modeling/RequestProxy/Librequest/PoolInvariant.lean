import RequestProxy.Librequest.Pool
import RequestProxy.Librequest.QueueCalls

namespace RequestProxy.Librequest

universe u

variable {Job : Type u}

/-- The life of one entry of `pool->workers`. -/
inductive Phase where
  | unborn
  | opened
  | closed
  | joined
  | emptied
  | gone
  deriving DecidableEq

namespace Phase

def hasWorker : Phase → Bool
  | unborn => false
  | opened => true
  | closed => true
  | joined => true
  | emptied => true
  | gone => false

def hasQueue : Phase → Bool
  | unborn => false
  | opened => true
  | closed => true
  | joined => true
  | emptied => false
  | gone => false

def isClosed : Phase → Bool
  | unborn => false
  | opened => false
  | _ => true

/-- `pthread_join` has returned for the worker. -/
def isJoined : Phase → Bool
  | joined => true
  | emptied => true
  | gone => true
  | _ => false

end Phase

/-- The phase of entry `index` when the owner is at a given place. -/
def MainPc.phase (numThreads : Nat) (main : MainPc Job) (index : Nat) : Phase :=
  if numThreads ≤ index then .unborn
  else match main with
    | .creating i => if index < i then .opened else .unborn
    | .adding => .opened
    | .enqueueing _ _ => .opened
    | .closing i => if index < i then .closed else .opened
    | .joining i => if index < i then .gone else .closed
    | .draining i => if index < i then .gone else if index = i then .joined else .closed
    | .releasing i => if index < i then .gone else if index = i then .emptied else .closed
    | .finishing => .gone
    | .returned => .gone

/-- The request the work function of which runs, or has run and is not freed. -/
def WorkerPc.current : WorkerPc Job → List (Request Job)
  | .working req => [req]
  | .adding req _ _ => [req]
  | .freeing req => [req]
  | _ => []

/-- The worker has received NULL. -/
def WorkerPc.Stopped (thread : WorkerPc Job) : Prop :=
  thread = .exiting ∨ thread = .exited

/-- The queue of an entry holds the accepted requests that were not executed
yet; a parked worker has an empty open queue, a stopped one an empty closed
queue. -/
structure QueueOk (phase : Phase) (slot : Slot Job) (q : Queue (Request Job))
    (items : List (Request Job)) : Prop where
  settled : Settled q items
  accepted : slot.accepted = slot.executed ++ items
  closed : q.closed = phase.isClosed
  parked : slot.thread = .parked → items = [] ∧ q.closed = false
  stopped : slot.thread.Stopped → items = [] ∧ q.closed = true

structure SlotOk (phase : Phase) (slot : Slot Job) : Prop where
  worker : slot.worker = phase.hasWorker
  unborn : slot.thread = .unborn ↔ phase = .unborn
  exited : phase.isJoined = true → slot.thread = .exited
  queue : ∀ q, slot.queue = some q → phase.hasQueue = true ∧ ∃ items, QueueOk phase slot q items
  absent : slot.queue = none → phase.hasQueue = false ∧ slot.accepted = slot.executed
  freed : slot.executed = slot.freed ++ slot.thread.current
  processed : slot.processed = Int32.ofNat slot.freed.length

variable {phase : Phase} {slot after : Slot Job} {q : Queue (Request Job)}

private theorem slotOk_vacant : SlotOk .unborn (Slot.vacant : Slot Job) where
  worker := rfl
  unborn := by simp [Slot.vacant]
  exited := by simp [Phase.isJoined]
  queue := by simp [Slot.vacant]
  absent := by simp [Slot.vacant, Phase.hasQueue]
  freed := rfl
  processed := rfl

private theorem slotOk_create : SlotOk .opened (createWorkerThread : Slot Job) where
  worker := rfl
  unborn := by simp [createWorkerThread]
  exited := by simp [Phase.isJoined]
  queue := by
    intro q found
    cases found
    exact ⟨rfl, [], settled_init, rfl, rfl, by simp [createWorkerThread],
      by simp [createWorkerThread, WorkerPc.Stopped]⟩
  absent := by simp [createWorkerThread]
  freed := rfl
  processed := rfl

private theorem current_wake (thread : WorkerPc Job) : thread.wake.current = thread.current := by
  cases thread <;> rfl

private theorem wake_unborn (thread : WorkerPc Job) : thread.wake = .unborn ↔ thread = .unborn := by
  cases thread <;> simp [WorkerPc.wake]

private theorem wake_exited (thread : WorkerPc Job) : thread.wake = .exited ↔ thread = .exited := by
  cases thread <;> simp [WorkerPc.wake]

private theorem wake_parked (thread : WorkerPc Job) : thread.wake ≠ .parked := by
  cases thread <;> simp [WorkerPc.wake]

private theorem wake_stopped (thread : WorkerPc Job) : thread.wake.Stopped ↔ thread.Stopped := by
  cases thread <;> simp [WorkerPc.wake, WorkerPc.Stopped]

/-- A request goes to an open queue and not to a closed one; nothing else
about the entry changes, but for a worker that is woken. -/
theorem SlotOk.enqueue (valid : SlotOk phase slot) (present : slot.queue = some q)
    (called : slot.enqueue q node req = some after) :
    SlotOk phase after ∧
      after.accepted = slot.accepted ++ (if phase.isClosed then [] else [req]) ∧
      after.executed = slot.executed ∧ after.freed = slot.freed ∧
      (after.thread = slot.thread ∨ after.thread = slot.thread.wake) := by
  obtain ⟨live, items, ok⟩ := valid.queue q present
  simp only [Slot.enqueue, Option.bind_eq_bind, Option.bind_eq_some_iff, Prod.exists] at called
  obtain ⟨r, accepted, ran, called⟩ := called
  obtain ⟨rfl, same, settled⟩ := ok.settled.enqueue ran
  rw [ok.closed] at same settled called
  cases shut : phase.isClosed with
  | true =>
    simp only [shut, Bool.not_true, Bool.false_eq_true, ↓reduceIte, Option.pure_def,
      Option.some.injEq] at called settled
    subst called
    refine ⟨⟨valid.worker, valid.unborn, valid.exited, ?_, by simp, valid.freed,
      valid.processed⟩, by simp, rfl, rfl, .inl rfl⟩
    intro s found
    cases found
    refine ⟨live, items, settled, ok.accepted, same, ?_, ?_⟩
    · intro waits
      exact ⟨(ok.parked waits).1, by rw [same, ← ok.closed]; exact (ok.parked waits).2⟩
    · intro stopped
      exact ⟨(ok.stopped stopped).1, by rw [same, ← ok.closed]; exact (ok.stopped stopped).2⟩
  | false =>
    simp only [shut, Bool.not_false, ↓reduceIte, Option.pure_def, Option.some.injEq,
      Bool.false_eq_true] at called settled
    subst called
    refine ⟨⟨valid.worker, by rw [wake_unborn]; exact valid.unborn, ?_, ?_, by simp, ?_,
      valid.processed⟩, by simp, rfl, rfl, .inr rfl⟩
    · intro joined
      exact (wake_exited _).mpr (valid.exited joined)
    · intro s found
      cases found
      refine ⟨live, items ++ [req], settled, ?_, same, ?_, ?_⟩
      · simp [ok.accepted]
      · exact fun waits => absurd waits (wake_parked _)
      · intro stopped
        have closed := (ok.stopped ((wake_stopped _).mp stopped)).2
        simp [ok.closed, shut] at closed
    · rw [current_wake]
      exact valid.freed

theorem SlotOk.close (valid : SlotOk .opened slot) (present : slot.queue = some q) :
    SlotOk .closed (slot.close q) where
  worker := valid.worker
  unborn := by simp [Slot.close, wake_unborn, valid.unborn]
  exited := by simp [Phase.isJoined]
  queue := by
    obtain ⟨_, items, ok⟩ := valid.queue q present
    intro s found
    cases found
    refine ⟨rfl, items, ok.settled.close, ok.accepted, rfl, ?_, ?_⟩
    · exact fun waits => absurd waits (wake_parked _)
    · exact fun stopped => ⟨(ok.stopped ((wake_stopped _).mp stopped)).1, rfl⟩
  absent := by simp [Slot.close]
  freed := by simpa [Slot.close, current_wake] using valid.freed
  processed := valid.processed

theorem SlotOk.join (valid : SlotOk .closed slot) (exited : slot.thread = .exited) :
    SlotOk .joined slot where
  worker := valid.worker
  unborn := by simp [exited]
  exited := fun _ => exited
  queue := by
    intro q present
    obtain ⟨_, items, ok⟩ := valid.queue q present
    exact ⟨rfl, items, ok.settled, ok.accepted, ok.closed, ok.parked, ok.stopped⟩
  absent := by
    intro missing
    exact absurd (valid.absent missing).1 (by simp [Phase.hasQueue])
  freed := valid.freed
  processed := valid.processed

private theorem SlotOk.joined_empty (valid : SlotOk .joined slot) (present : slot.queue = some q) :
    Settled q [] ∧ slot.accepted = slot.executed := by
  obtain ⟨_, items, ok⟩ := valid.queue q present
  obtain ⟨rfl, _⟩ := ok.stopped (.inr (valid.exited rfl))
  exact ⟨ok.settled, by simpa using ok.accepted⟩

private theorem SlotOk.freeQueue (valid : SlotOk .joined slot) (present : slot.queue = some q) :
    SlotOk .emptied { slot with queue := none } where
  worker := valid.worker
  unborn := by simp [valid.exited rfl]
  exited := fun _ => valid.exited rfl
  queue := by simp
  absent := fun _ => ⟨rfl, (valid.joined_empty present).2⟩
  freed := valid.freed
  processed := valid.processed

private theorem SlotOk.freeWorker (valid : SlotOk .emptied slot) :
    SlotOk .gone { slot with worker := false } where
  worker := rfl
  unborn := by simp [valid.exited rfl]
  exited := fun _ => valid.exited rfl
  queue := by
    intro q present
    exact absurd (valid.queue q present).1 (by simp [Phase.hasQueue])
  absent := fun missing => ⟨rfl, (valid.absent missing).2⟩
  freed := valid.freed
  processed := valid.processed

/-- A change of place that keeps the current request, from and to places where
the worker neither waits nor stops. -/
theorem SlotOk.moved (valid : SlotOk phase slot) {thread : WorkerPc Job}
    (current : thread.current = slot.thread.current)
    (born : thread ≠ .unborn) (was : slot.thread ≠ .unborn) (running : slot.thread ≠ .exited)
    (awake : thread ≠ .parked) (going : ¬thread.Stopped) :
    SlotOk phase { slot with thread } where
  worker := valid.worker
  unborn := ⟨fun same => absurd same born, fun same => absurd (valid.unborn.mpr same) was⟩
  exited := fun joined => absurd (valid.exited joined) running
  queue := by
    intro q found
    obtain ⟨live, items, ok⟩ := valid.queue q found
    exact ⟨live, items, ok.settled, ok.accepted, ok.closed, fun same => absurd same awake,
      fun stopped => absurd stopped going⟩
  absent := valid.absent
  freed := by rw [current]; exact valid.freed
  processed := valid.processed

theorem SlotOk.dequeue (valid : SlotOk phase slot) (born : slot.thread ≠ .unborn)
    (running : slot.thread ≠ .exited) (idle : slot.thread.current = [])
    (ran : slot.dequeue = some after) : SlotOk phase after ∧ after.accepted = slot.accepted := by
  simp only [Slot.dequeue, Option.bind_eq_bind, Option.bind_eq_some_iff] at ran
  obtain ⟨q, present, taken, called, ran⟩ := ran
  obtain ⟨live, items, ok⟩ := valid.queue q present
  have notUnborn : phase ≠ .unborn := fun same => born (valid.unborn.mpr same)
  have notJoined : phase.isJoined ≠ true := fun joined => running (valid.exited joined)
  have balance := valid.freed
  rw [idle, List.append_nil] at balance
  cases items with
  | nil =>
    rw [ok.settled.dequeue_empty] at called
    cases shut : q.closed with
    | false =>
      simp only [shut, Bool.false_eq_true, ↓reduceIte, Option.some.injEq] at called
      subst called
      cases ran
      refine ⟨⟨valid.worker, by simp [notUnborn], by simp [notJoined], ?_, valid.absent,
        by simp [WorkerPc.current, balance], valid.processed⟩, rfl⟩
      intro s found
      cases present.symm.trans found
      exact ⟨live, [], ok.settled, ok.accepted, ok.closed, fun _ => ⟨rfl, shut⟩,
        by simp [WorkerPc.Stopped]⟩
    | true =>
      simp only [shut, ↓reduceIte, Option.some.injEq] at called
      subst called
      cases ran
      refine ⟨⟨valid.worker, by simp [notUnborn], by simp [notJoined], ?_, valid.absent,
        by simp [WorkerPc.current, balance], valid.processed⟩, rfl⟩
      intro s found
      cases present.symm.trans found
      exact ⟨live, [], ok.settled, ok.accepted, ok.closed, by simp, fun _ => ⟨rfl, shut⟩⟩
  | cons req items =>
    obtain ⟨r, dequeued, closed, settled⟩ := ok.settled.dequeue
    cases called.symm.trans dequeued
    cases ran
    refine ⟨⟨valid.worker, by simp [notUnborn], by simp [notJoined], ?_, by simp,
      by simp [WorkerPc.current, balance], valid.processed⟩, rfl⟩
    intro s found
    cases found
    exact ⟨live, items, settled, by simp [ok.accepted], closed.trans ok.closed, by simp,
      by simp [WorkerPc.Stopped]⟩

/-- A step of `worker_func` keeps the entry in order, and its queue accepts
nothing by it. -/
theorem SlotOk.workerFunc (valid : SlotOk phase slot) (ran : workerFunc slot = some after) :
    SlotOk phase after ∧ after.accepted = slot.accepted := by
  unfold Librequest.workerFunc at ran
  split at ran
  · rename_i place
    cases ran
    exact ⟨valid.moved (by simp [place, WorkerPc.current]) (by simp) (by simp [place])
      (by simp [place]) (by simp) (by simp [WorkerPc.Stopped]), rfl⟩
  · rename_i place
    exact valid.dequeue (by simp [place]) (by simp [place]) (by simp [place, WorkerPc.current]) ran
  · rename_i place
    exact valid.dequeue (by simp [place]) (by simp [place]) (by simp [place, WorkerPc.current]) ran
  · rename_i req place
    cases ran
    exact ⟨valid.moved (by simp [place, WorkerPc.current]) (by simp) (by simp [place])
      (by simp [place]) (by simp) (by simp [WorkerPc.Stopped]), rfl⟩
  · rename_i req place
    cases ran
    have balance := valid.freed
    refine ⟨⟨valid.worker, ?_, ?_, ?_, valid.absent, ?_, ?_⟩, rfl⟩
    · simpa [place] using valid.unborn
    · simpa [place] using valid.exited
    · intro s found
      obtain ⟨live, items, ok⟩ := valid.queue s found
      exact ⟨live, items, ok.settled, ok.accepted, ok.closed, by simp, by simp [WorkerPc.Stopped]⟩
    · simpa [place, WorkerPc.current] using balance
    · rw [valid.processed, List.length_append, List.length_singleton, Int32.ofNat_add]
      rfl
  · rename_i place
    cases ran
    refine ⟨⟨valid.worker, ?_, by simp, ?_, valid.absent, ?_, valid.processed⟩, rfl⟩
    · simpa [place] using valid.unborn
    · intro s found
      obtain ⟨live, items, ok⟩ := valid.queue s found
      refine ⟨live, items, ok.settled, ok.accepted, ok.closed, by simp, fun _ => ?_⟩
      exact ok.stopped (.inl place)
    · simpa [place, WorkerPc.current] using valid.freed
  all_goals cases ran

namespace Pool

/-- The loop counters of the owner stay within the array. -/
def InBounds (numThreads : Nat) : MainPc Job → Prop
  | .creating i => i ≤ numThreads
  | .enqueueing _ index => index < numThreads
  | .closing i => i ≤ numThreads
  | .joining i => i ≤ numThreads
  | .draining i => i < numThreads
  | .releasing i => i < numThreads
  | .adding | .finishing | .returned => True

structure PoolOk (numThreads : Nat) (pool : Pool Job) : Prop where
  sound : pool.fault = false
  bounds : InBounds numThreads pool.main
  allocated : pool.allocated = true ↔ pool.main ≠ .returned
  drained : pool.drained = []
  idle : ∀ i, pool.main = .creating i → ∀ index, (pool.slots index).accepted = []
  slots : ∀ index, SlotOk (pool.main.phase numThreads index) (pool.slots index)

theorem poolOk_init (numThreads : Nat) (script : List (Job × Nat)) :
    PoolOk numThreads (init script) where
  sound := rfl
  bounds := Nat.zero_le _
  allocated := by simp [init]
  drained := rfl
  idle := fun _ _ _ => rfl
  slots := by
    intro index
    have unborn : (init script).main.phase numThreads index = .unborn := by
      simp [init, MainPc.phase]
    rw [unborn]
    exact slotOk_vacant

/-- A step that changes one entry and the phase of at most that entry. -/
private theorem slots_set {pool : Pool Job} {main : MainPc Job}
    (slots : ∀ index, SlotOk (pool.main.phase numThreads index) (pool.slots index))
    (changed : SlotOk (main.phase numThreads i) slot)
    (others : ∀ index, index ≠ i →
      main.phase numThreads index = pool.main.phase numThreads index) (index : Nat) :
    SlotOk (main.phase numThreads index) (Function.update pool.slots i slot index) := by
  by_cases same : index = i
  · subst same
    simpa using changed
  · rw [others index same, Function.update_of_ne same]
    exact slots index

private theorem slots_kept {main next : MainPc Job} {slots : Nat → Slot Job}
    (ok : ∀ index, SlotOk (main.phase numThreads index) (slots index))
    (same : ∀ index, next.phase numThreads index = main.phase numThreads index)
    (index : Nat) : SlotOk (next.phase numThreads index) (slots index) := by
  rw [same index]
  exact ok index

private theorem idle_set {pool : Pool Job} (idle : ∀ index, (pool.slots index).accepted = [])
    (kept : slot.accepted = []) (index : Nat) : ((pool.setSlot i slot).slots index).accepted = [] := by
  by_cases same : index = i
  · subst same
    simpa [setSlot] using kept
  · simpa [setSlot, same] using idle index

theorem PoolOk.not_running {pool : Pool Job} (valid : PoolOk numThreads pool)
    (runs : (pool.slots index).thread.current ≠ []) (i : Nat) : pool.main ≠ .creating i := by
  intro place
  have nothing := valid.idle i place index
  have ok := valid.slots index
  have ran : (pool.slots index).executed = [] := by
    cases present : (pool.slots index).queue with
    | none => exact (ok.absent present).2.symm.trans nothing
    | some q =>
      obtain ⟨_, items, contents⟩ := ok.queue q present
      exact (List.append_eq_nil_iff.mp (contents.accepted.symm.trans nothing)).1
  exact runs (List.append_eq_nil_iff.mp (ok.freed.symm.trans ran)).2

theorem opened_adding {pool : Pool Job} (place : pool.main = .adding)
    (inside : index < numThreads) : pool.main.phase numThreads index = .opened := by
  simp [place, MainPc.phase, Nat.not_le.mpr inside]

theorem opened_enqueueing {pool : Pool Job} (place : pool.main = .enqueueing req i)
    (inside : index < numThreads) : pool.main.phase numThreads index = .opened := by
  simp [place, MainPc.phase, Nat.not_le.mpr inside]

/-- The worker and the queue that `thread_pool_add` looks up are there while
their phase is open. -/
theorem PoolOk.found {pool : Pool Job} (valid : PoolOk numThreads pool)
    (phase : pool.main.phase numThreads index = .opened) :
    pool.present index = true ∧ ∃ q items, (pool.slots index).queue = some q ∧ Settled q items := by
  have ok := valid.slots index
  rw [phase] at ok
  have running : pool.main ≠ .returned := by
    intro place
    simp [place, MainPc.phase] at phase
    grind
  refine ⟨by simp [present, valid.allocated.mpr running, ok.worker, Phase.hasWorker], ?_⟩
  cases there : (pool.slots index).queue with
  | none => exact absurd (ok.absent there).1 (by simp [Phase.hasQueue])
  | some q =>
    obtain ⟨_, items, contents⟩ := ok.queue q there
    exact ⟨q, items, rfl, contents.settled⟩

private theorem PoolOk.enqueued {pool after : Pool Job} (valid : PoolOk numThreads pool)
    (called : pool.enqueueOn index node req = some after) (sound : after.fault = false) :
    (∀ i, SlotOk (pool.main.phase numThreads i) (after.slots i)) ∧
      after.main = pool.main ∧ after.allocated = pool.allocated ∧
      after.drained = pool.drained ∧
      ∀ i, (after.slots i).thread = (pool.slots i).thread ∨
        (after.slots i).thread = (pool.slots i).thread.wake := by
  rcases enqueueOn_cases called with ⟨_, rfl⟩ | ⟨q, slot, present, ran, rfl⟩
  · cases sound
  · obtain ⟨ok, _, _, _, woken⟩ := (valid.slots index).enqueue present ran
    refine ⟨slots_set valid.slots ok fun _ _ => rfl, rfl, rfl, rfl, ?_⟩
    intro i
    by_cases same : i = index
    · subst same
      simpa [setSlot] using woken
    · simp [setSlot, same]

theorem PoolOk.inside {pool : Pool Job} (valid : PoolOk numThreads pool)
    (born : (pool.slots i).thread ≠ .unborn) : i < numThreads := by
  by_contra outside
  have phase : pool.main.phase numThreads i = .unborn := by
    simp [MainPc.phase, Nat.le_of_not_lt outside]
  exact born ((valid.slots i).unborn.mpr phase)

/-- A worker that has exited leaves nothing for `queue_destroy` to free. -/
theorem PoolOk.drain_empty {pool : Pool Job} (valid : PoolOk numThreads pool)
    (place : pool.main = .draining i) (live : (pool.slots i).queue = some q) :
    queueDestroyTurn q = some none := by
  have inside : i < numThreads := by simpa [place, InBounds] using valid.bounds
  have joined : pool.main.phase numThreads i = .joined := by
    simp [place, MainPc.phase, Nat.not_le.mpr inside]
  have ok := valid.slots i
  rw [joined] at ok
  exact (ok.joined_empty live).1.destroy_empty

/-- Every step that is no fault keeps the pool in order. -/
theorem PoolOk.step {pool next : Pool Job} (valid : PoolOk numThreads pool)
    (positive : 0 < numThreads) (taken : Stepped numThreads pool label next)
    (sound : next.fault = false) : PoolOk numThreads next := by
  have bounds := valid.bounds
  have slots := valid.slots
  cases taken with
  | @create i node place more =>
    rw [place] at bounds
    refine ⟨valid.sound, more, by simp [setSlot, valid.allocated, place], valid.drained, ?_, ?_⟩
    · intro _ _
      exact idle_set (valid.idle i place) rfl
    · refine slots_set slots ?_ ?_
      · have opened : (MainPc.creating (i + 1) : MainPc Job).phase numThreads i = .opened := by
          grind [MainPc.phase]
        rw [opened]
        exact slotOk_create
      · intro index different
        grind [MainPc.phase]
  | @created i node place last =>
    rw [place] at bounds
    have full : i = numThreads := Nat.le_antisymm bounds last
    refine ⟨valid.sound, trivial, by simp [valid.allocated, place], valid.drained, by simp, ?_⟩
    apply slots_kept slots
    intro index
    grind [MainPc.phase]
  | @add job rand rest node place calls found =>
    refine ⟨valid.sound, Nat.mod_lt _ positive, by simp [valid.allocated, place], valid.drained,
      by simp, ?_⟩
    apply slots_kept slots
    intro index
    grind [MainPc.phase]
  | addFault place calls missing => cases sound
  | @enqueue req index node after place called =>
    obtain ⟨ok, main, allocated, drained, _⟩ := valid.enqueued called sound
    refine ⟨sound, trivial, by simp [allocated, valid.allocated, place],
      drained.trans valid.drained, by simp, ?_⟩
    apply slots_kept ok
    intro i
    grind [MainPc.phase]
  | destroy place calls =>
    refine ⟨valid.sound, Nat.zero_le _, by simp [valid.allocated, place], valid.drained,
      by simp, ?_⟩
    apply slots_kept slots
    intro index
    grind [MainPc.phase]
  | @close i q node place more live =>
    refine ⟨valid.sound, more, by simp [setSlot, valid.allocated, place], valid.drained,
      by simp, ?_⟩
    refine slots_set slots ?_ ?_
    · have opened : pool.main.phase numThreads i = .opened := by grind [MainPc.phase]
      have closed : (MainPc.closing (i + 1) : MainPc Job).phase numThreads i = .closed := by
        grind [MainPc.phase]
      rw [closed]
      exact SlotOk.close (opened ▸ slots i) live
    · intro index different
      grind [MainPc.phase]
  | closed place last =>
    refine ⟨valid.sound, Nat.zero_le _, by simp [valid.allocated, place], valid.drained,
      by simp, ?_⟩
    apply slots_kept slots
    intro index
    grind [MainPc.phase]
  | @join i node place more exited =>
    refine ⟨valid.sound, more, by simp [valid.allocated, place], valid.drained, by simp, ?_⟩
    intro index
    by_cases here : index = i
    · subst here
      have before : pool.main.phase numThreads index = .closed := by grind [MainPc.phase]
      have after : (MainPc.draining index : MainPc Job).phase numThreads index = .joined := by
        grind [MainPc.phase]
      rw [after]
      exact SlotOk.join (before ▸ slots index) exited
    · have same : (MainPc.draining i : MainPc Job).phase numThreads index =
          pool.main.phase numThreads index := by grind [MainPc.phase]
      exact same ▸ slots index
  | joined place last =>
    refine ⟨valid.sound, trivial, by simp [valid.allocated, place], valid.drained, by simp, ?_⟩
    apply slots_kept slots
    intro index
    grind [MainPc.phase]
  | @drain i q r req node place live turn =>
    cases (valid.drain_empty place live).symm.trans turn
  | @drained i q node place live turn =>
    rw [place] at bounds
    have joined : pool.main.phase numThreads i = .joined := by
      simp only [InBounds] at bounds
      grind [MainPc.phase]
    refine ⟨valid.sound, bounds, by simp [setSlot, valid.allocated, place], valid.drained,
      by simp, ?_⟩
    refine slots_set slots ?_ ?_
    · have emptied : (MainPc.releasing i : MainPc Job).phase numThreads i = .emptied := by
        simp only [InBounds] at bounds
        grind [MainPc.phase]
      rw [emptied]
      exact SlotOk.freeQueue (joined ▸ slots i) live
    · intro index different
      grind [MainPc.phase]
  | @release i node place =>
    rw [place] at bounds
    simp only [InBounds] at bounds
    refine ⟨valid.sound, bounds, by simp [setSlot, valid.allocated, place], valid.drained,
      by simp, ?_⟩
    refine slots_set slots ?_ ?_
    · have emptied : pool.main.phase numThreads i = .emptied := by grind [MainPc.phase]
      have gone : (MainPc.joining (i + 1) : MainPc Job).phase numThreads i = .gone := by
        grind [MainPc.phase]
      rw [gone]
      exact SlotOk.freeWorker (emptied ▸ slots i)
    · intro index different
      grind [MainPc.phase]
  | finish place =>
    refine ⟨valid.sound, trivial, by simp, valid.drained, by simp, ?_⟩
    apply slots_kept slots
    intro index
    grind [MainPc.phase]
  | @worker i slot ran =>
    obtain ⟨ok, accepted⟩ := (slots i).workerFunc ran
    refine ⟨valid.sound, bounds, valid.allocated, valid.drained, ?_,
      slots_set slots ok fun _ _ => rfl⟩
    intro k place
    exact idle_set (valid.idle k place) (accepted.trans (valid.idle k place i))
  | @spurious i waits =>
    refine ⟨valid.sound, bounds, valid.allocated, valid.drained, ?_,
      slots_set slots ((slots i).moved ?_ ?_ ?_ ?_ ?_ ?_) fun _ _ => rfl⟩
    · intro k place
      exact idle_set (valid.idle k place) (valid.idle k place i)
    all_goals simp [waits, WorkerPc.current, WorkerPc.Stopped]
  | @nestedAdd i req rand job runs found =>
    have busy : (pool.slots i).thread.current ≠ [] := by simp [runs, WorkerPc.current]
    refine ⟨valid.sound, bounds, valid.allocated, valid.drained, ?_,
      slots_set slots ((slots i).moved ?_ ?_ ?_ ?_ ?_ ?_) fun _ _ => rfl⟩
    · intro k place
      exact absurd place (valid.not_running busy k)
    all_goals simp [runs, WorkerPc.current, WorkerPc.Stopped]
  | nestedFault runs missing => cases sound
  | @nestedEnqueue i req nested target node after runs called =>
    obtain ⟨ok, main, allocated, drained, woken⟩ := valid.enqueued called sound
    have place : (after.slots i).thread = .adding req nested target := by
      rcases woken i with same | same <;> simp [same, runs, WorkerPc.wake]
    refine ⟨sound, main ▸ bounds, by simp [setThread, setSlot, allocated, main, valid.allocated],
      drained.trans valid.drained, ?_, ?_⟩
    · intro k creating
      have busy : (pool.slots i).thread.current ≠ [] := by simp [runs, WorkerPc.current]
      exact absurd (main.symm.trans creating) (valid.not_running busy k)
    · rw [← main] at ok
      refine slots_set ok ((ok i).moved ?_ ?_ ?_ ?_ ?_ ?_) fun _ _ => rfl
      all_goals simp [place, WorkerPc.current, WorkerPc.Stopped]

end Pool

end RequestProxy.Librequest
