import RequestProxy.Librequest.PoolDrain
import RequestProxy.Librequest.PoolLifetime
import RequestProxy.Transition.Variant

/-! How long the pool runs. The owner and the workers pay for each step out of
a finite amount of work; only a spurious wake-up, and a work function that calls
`thread_pool_add`, makes more of it. -/

namespace RequestProxy.Librequest

universe u

variable {Job : Type u} {numThreads : Nat}

/-- A step of the code of the library: everything but a spurious wake-up and
the decision of a work function to call `thread_pool_add`. -/
def Pool.Label.own : Pool.Label Job → Bool
  | .main _ => true
  | .worker _ => true
  | .nestedEnqueue _ _ => true
  | .spurious _ => false
  | .nestedAdd _ _ _ => false

/-- What a worker still has to do before it parks or exits, on an empty queue.
A call of `thread_pool_add` also pays for the request it adds. -/
def WorkerPc.work : WorkerPc Job → Nat
  | .unborn => 0
  | .parked => 0
  | .exited => 0
  | .exiting => 1
  | .dequeuing => 2
  | .woken => 2
  | .starting => 3
  | .freeing _ => 3
  | .working _ => 4
  | .adding _ _ _ => 10

/-- Each pending request costs a turn of the loop of `worker_func`. -/
def Slot.work (slot : Slot Job) : Nat :=
  slot.thread.work + 3 * (slot.accepted.length - slot.executed.length)

/-- What the owner still has to do, with `calls` calls of `thread_pool_add`
ahead. -/
def MainPc.work (numThreads calls : Nat) : MainPc Job → Nat
  | .creating i => 4 * (numThreads - i) + 7 * calls + 6 * numThreads + 5
  | .adding => 7 * calls + 6 * numThreads + 4
  | .enqueueing _ _ => 7 * calls + 6 * numThreads + 10
  | .closing i => 3 * (numThreads - i) + 3 * numThreads + 3
  | .joining i => 3 * (numThreads - i) + 2
  | .draining i => 3 * (numThreads - i) + 1
  | .releasing i => 3 * (numThreads - i)
  | .finishing => 1
  | .returned => 0

private theorem wake_work (thread : WorkerPc Job) : thread.wake.work ≤ thread.work + 2 := by
  cases thread <;> simp [WorkerPc.wake, WorkerPc.work]

section Slot

variable {phase : Phase} {slot after : Slot Job}

private theorem SlotOk.enqueue_work (valid : SlotOk phase slot) (present : slot.queue = some q)
    (called : slot.enqueue q node req = some after) : after.work ≤ slot.work + 5 := by
  obtain ⟨_, accepted, executed, _, woken⟩ := valid.enqueue present called
  have longer : after.accepted.length ≤ slot.accepted.length + 1 := by
    rw [accepted, List.length_append]
    split <;> simp
  have thread : after.thread.work ≤ slot.thread.work + 2 := by
    rcases woken with same | same
    · rw [same]
      exact Nat.le_add_right _ _
    · rw [same]
      exact wake_work _
  rw [Slot.work, Slot.work, executed]
  omega

private theorem SlotOk.dequeue_work (valid : SlotOk phase slot) (ready : slot.thread.work = 2)
    (ran : slot.dequeue = some after) : after.work < slot.work := by
  simp only [Slot.dequeue, Option.bind_eq_bind, Option.bind_eq_some_iff] at ran
  obtain ⟨q, present, taken, called, ran⟩ := ran
  obtain ⟨_, items, ok⟩ := valid.queue q present
  cases taken with
  | wait | null =>
    cases ran
    simp only [Slot.work, ready]
    simp [WorkerPc.work]
  | item r req =>
    cases ran
    cases items with
    | nil =>
      rw [ok.settled.dequeue_empty] at called
      split at called <;> cases called
    | cons first items =>
      have lengths := congrArg List.length ok.accepted
      simp only [List.length_append, List.length_cons] at lengths
      simp only [Slot.work, ready, List.length_append, List.length_singleton]
      simp only [WorkerPc.work]
      omega

private theorem SlotOk.workerFunc_work (valid : SlotOk phase slot)
    (ran : Librequest.workerFunc slot = some after) : after.work < slot.work := by
  unfold Librequest.workerFunc at ran
  split at ran
  case h_2 place | h_3 place => exact valid.dequeue_work (by rw [place]; rfl) ran
  case h_1 place | h_4 place | h_5 place | h_6 place =>
    cases ran
    simp [Slot.work, place, WorkerPc.work]
  all_goals cases ran

end Slot

namespace Pool

variable {pool next : Pool Job}

def work (numThreads : Nat) (pool : Pool Job) : Nat :=
  pool.main.work numThreads pool.script.length +
    ∑ i ∈ Finset.range numThreads, (pool.slots i).work

theorem PoolOk.enqueueOn_work (valid : PoolOk numThreads pool) (inside : index < numThreads)
    (called : pool.enqueueOn index node req = some next) :
    next.main = pool.main ∧ next.script = pool.script ∧
      (∀ i, (next.slots i).thread = (pool.slots i).thread ∨
        (next.slots i).thread = (pool.slots i).thread.wake) ∧
      ∑ i ∈ Finset.range numThreads, (next.slots i).work ≤
        (∑ i ∈ Finset.range numThreads, (pool.slots i).work) + 5 := by
  rcases enqueueOn_cases called with ⟨_, rfl⟩ | ⟨q, slot, present, ran, rfl⟩
  · exact ⟨rfl, rfl, fun _ => .inl rfl, Nat.le_add_right _ _⟩
  · have more := (valid.slots index).enqueue_work present ran
    have total := Transition.sum_update Slot.work pool.slots (Finset.mem_range.mpr inside) slot
    refine ⟨rfl, rfl, ?_, ?_⟩
    · intro i
      by_cases here : i = index
      · subst here
        simpa [setSlot] using ((valid.slots i).enqueue present ran).2.2.2.2
      · simp [setSlot, here]
    · simp only [setSlot]
      omega

private theorem setThread_work (pool : Pool Job) (inside : i < numThreads) (thread : WorkerPc Job) :
    (∑ k ∈ Finset.range numThreads, ((pool.setThread i thread).slots k).work) +
        (pool.slots i).thread.work =
      (∑ k ∈ Finset.range numThreads, (pool.slots k).work) + thread.work := by
  have total := Transition.sum_update Slot.work pool.slots (Finset.mem_range.mpr inside)
    { pool.slots i with thread }
  have after : Slot.work { pool.slots i with thread } + (pool.slots i).thread.work =
      (pool.slots i).work + thread.work := by
    simp only [Slot.work]
    omega
  simp only [setThread, setSlot] at total after ⊢
  omega

private theorem work_main (slots : next.slots = pool.slots)
    (lower : next.main.work numThreads next.script.length <
      pool.main.work numThreads pool.script.length) :
    next.work numThreads < pool.work numThreads := by
  simp only [work, slots]
  omega

private theorem work_slot (inside : i < numThreads) {slot : Slot Job} {main : MainPc Job}
    (paid : main.work numThreads pool.script.length + slot.work <
      pool.main.work numThreads pool.script.length + (pool.slots i).work) :
    work numThreads { pool.setSlot i slot with main } < pool.work numThreads := by
  have total := Transition.sum_update Slot.work pool.slots (Finset.mem_range.mpr inside) slot
  simp only [work, setSlot]
  omega

/-- Every step of the code of the library does a part of the work. -/
theorem PoolOk.work_falls (valid : PoolOk numThreads pool) (draws : DrawsInside numThreads pool)
    (positive : 0 < numThreads) (taken : Stepped numThreads pool label next)
    (own : label.own = true) : next.work numThreads < pool.work numThreads := by
  have bounds := valid.bounds
  cases taken with
  | @create i node place more =>
    refine work_slot more ?_
    have fresh : (createWorkerThread : Slot Job).work = 3 := rfl
    rw [place, fresh]
    simp only [MainPc.work]
    omega
  | @created i node place last =>
    refine work_main rfl ?_
    simp only [place, MainPc.work]
    omega
  | @add job rand rest node place calls found =>
    refine work_main rfl ?_
    simp only [place, calls, MainPc.work, List.length_cons]
    omega
  | @addFault job rand rest node place calls missing =>
    have opened := opened_adding place (Nat.mod_lt rand positive)
    rw [(valid.found opened).1] at missing
    cases missing
  | @enqueue req index node after place called =>
    have inside : index < numThreads := by simpa [place, InBounds] using bounds
    obtain ⟨_, script, _, more⟩ := valid.enqueueOn_work inside called
    simp only [work, place, script, MainPc.work]
    omega
  | destroy place calls =>
    refine work_main rfl ?_
    simp only [place, calls, MainPc.work, List.length_nil]
    omega
  | @close i q node place more live =>
    refine work_slot more ?_
    have woken : ((pool.slots i).close q).work ≤ (pool.slots i).work + 2 := by
      have thread := wake_work (pool.slots i).thread
      simp only [Slot.work, Slot.close]
      omega
    simp only [place, MainPc.work]
    omega
  | @closed i node place last =>
    refine work_main rfl ?_
    simp only [place, MainPc.work]
    omega
  | @join i node place more exited =>
    refine work_main rfl ?_
    simp only [place, MainPc.work]
    omega
  | joined place last =>
    refine work_main rfl ?_
    simp only [place, MainPc.work]
    omega
  | @drain i q r req node place live turn =>
    cases (valid.drain_empty place live).symm.trans turn
  | @drained i q node place live turn =>
    have inside : i < numThreads := by simpa [place, InBounds] using bounds
    refine work_slot inside ?_
    simp only [place, MainPc.work, Slot.work]
    omega
  | @release i node place =>
    have inside : i < numThreads := by simpa [place, InBounds] using bounds
    refine work_slot inside ?_
    simp only [place, MainPc.work, Slot.work]
    omega
  | finish place =>
    refine work_main rfl ?_
    simp [place, MainPc.work]
  | @worker i slot ran =>
    have born : (pool.slots i).thread ≠ .unborn := by
      intro unborn
      simp [workerFunc, unborn] at ran
    refine work_slot (valid.inside born) ?_
    exact Nat.add_lt_add_left ((valid.slots i).workerFunc_work ran) _
  | spurious | nestedAdd | nestedFault => cases own
  | @nestedEnqueue i req nested target node after runs called =>
    have inside : i < numThreads := valid.inside (by simp [runs])
    obtain ⟨main, script, woken, more⟩ :=
      valid.enqueueOn_work (draws i req nested target runs) called
    have place : (after.slots i).thread = .adding req nested target := by
      rcases woken i with same | same <;> simp [same, runs, WorkerPc.wake]
    have total := after.setThread_work inside (.working req)
    rw [place] at total
    simp only [WorkerPc.work] at total
    simp only [work, setThread, setSlot, main, script] at total ⊢
    omega

/-- A wake-up, or a call of `thread_pool_add`, makes a bounded amount of it. -/
theorem PoolOk.work_rises (valid : PoolOk numThreads pool) (taken : Stepped numThreads pool label next)
    (free : label.own = false) : next.work numThreads ≤ pool.work numThreads + 6 := by
  cases taken with
  | @spurious i waits =>
    have inside : i < numThreads := valid.inside (by simp [waits])
    have total := pool.setThread_work inside .woken
    rw [waits] at total
    simp only [WorkerPc.work] at total
    simp only [work, setThread, setSlot] at total ⊢
    omega
  | @nestedAdd i req rand job runs found =>
    have inside : i < numThreads := valid.inside (by simp [runs])
    have total := pool.setThread_work inside
      (.adding req ⟨pool.requests, job⟩ (rand % numThreads))
    rw [runs] at total
    simp only [WorkerPc.work] at total
    simp only [work, setThread, setSlot] at total ⊢
    omega
  | nestedFault => exact Nat.le_add_right _ _
  | _ => cases free

/-- A pool that has met no fault can move on until `thread_pool_destroy` has
returned; work functions inside `thread_pool_add` can too. -/
theorem PoolOk.own_step (valid : PoolOk numThreads pool) (busy : pool.main ≠ .returned) :
    ∃ label next, label.own = true ∧ Pool.step numThreads pool label = some next := by
  by_cases plain : ∀ i, ¬(pool.slots i).thread.Nested
  · obtain ⟨label, next, thread, taken⟩ := valid.not_stuck plain busy
    refine ⟨label, next, ?_, taken⟩
    cases label <;> first | rfl | exact thread.elim
  · obtain ⟨i, nested⟩ := not_forall.mp plain
    obtain ⟨req, added, target, runs⟩ := not_not.mp nested
    have enabled : ∃ node after, pool.enqueueOn target node added = some after := by
      cases present : (pool.slots target).queue with
      | none => exact ⟨0, _, by rw [enqueueOn, present]⟩
      | some q =>
        obtain ⟨_, items, contents⟩ := (valid.slots target).queue q present
        obtain ⟨node, r, accepted, ran⟩ := contents.settled.enqueue_enabled added
        refine ⟨node, ?_⟩
        cases accepted <;> simp [enqueueOn, present, Slot.enqueue, ran]
    obtain ⟨node, after, called⟩ := enabled
    exact ⟨.nestedEnqueue i node, _, rfl, by simp [Pool.step, valid.sound, runs, called]; rfl⟩

/-- `thread_pool_destroy` has returned, or a call of `thread_pool_add` has used
an object that was freed. -/
def Finished (pool : Pool Job) : Prop :=
  pool.main = .returned ∨ pool.fault = true

theorem work_variant (positive : 0 < numThreads) :
    Transition.Variant (Pool.step numThreads) (fun pool : Pool Job => Alive numThreads pool)
      Label.own (work numThreads) 6 where
  kept := fun alive taken => alive.step positive taken
  falls := by
    intro pool label next alive own taken
    obtain ⟨sound, moved⟩ := stepped taken
    exact (alive sound).1.work_falls (alive sound).2 positive moved own
  rises := by
    intro pool label next alive free taken
    obtain ⟨sound, moved⟩ := stepped taken
    exact (alive sound).1.work_rises moved free

theorem Alive.moves (alive : Alive numThreads pool) (unfinished : ¬pool.Finished) :
    ∃ label next, label.own = true ∧ Pool.step numThreads pool label = some next := by
  obtain ⟨busy, sound⟩ := not_or.mp unfinished
  exact (alive (Bool.eq_false_iff.mpr sound)).1.own_step busy

/-- By itself the library starts no call of `thread_pool_add` in a work function,
and without such a call it meets no fault. -/
theorem PoolOk.plain_run (valid : PoolOk numThreads pool) (positive : 0 < numThreads)
    (plain : ∀ i, ¬(pool.slots i).thread.Nested) {labels : List (Label Job)}
    (owned : ∀ label ∈ labels, label.own = true)
    (ran : Transition.run (Pool.step numThreads) pool labels = some next) :
    PoolOk numThreads next ∧ ∀ label ∈ labels, label.External := by
  induction labels generalizing pool with
  | nil =>
    rw [← Option.some.inj ran]
    exact ⟨valid, by simp⟩
  | cons label rest ih =>
    rw [Transition.run_cons] at ran
    obtain ⟨middle, taken, continued⟩ := Option.bind_eq_some_iff.mp ran
    have own := owned label (by simp)
    have moved := (stepped taken).2
    have external : label.External := by
      cases moved with
      | nestedEnqueue runs => exact plain _ ⟨_, _, _, runs⟩
      | nestedAdd | nestedFault => cases own
      | _ => trivial
    have still : ∀ i, ¬(middle.slots i).thread.Nested := by
      rintro i ⟨req, nested, target, inside⟩
      rcases moved.adding inside with before | ⟨job, rand, rfl, _⟩
      · exact plain i ⟨req, nested, target, before⟩
      · cases own
    have sound := valid.no_fault positive external moved
    obtain ⟨ended, later⟩ := ih (valid.step positive moved sound) still
      (fun other member => owned other (by simp [member])) continued
    refine ⟨ended, ?_⟩
    intro other member
    rcases List.mem_cons.mp member with rfl | member
    · exact external
    · exact later other member

/-- The task on worker 1 adds to its own queue, which is closed, when the join
loop has freed worker 0. -/
def ownAdd : List (Label Nat) :=
  [.main 0, .main 0, .main 0, .main 0, .main 40, .worker 1, .worker 1, .main 0, .main 0, .main 0,
    .main 0, .worker 0, .worker 0, .worker 0, .main 0, .main 0, .main 0, .nestedAdd 1 8 1,
    .nestedEnqueue 1 41]

/-- Every program that submits requests and destroys the pool can run to its end. -/
theorem can_return (positive : 0 < numThreads) (script : List (Job × Nat)) :
    ∃ (labels : List (Label Job)) (pool : Pool Job), (∀ label ∈ labels, label.External) ∧
      Transition.run (step numThreads) (init script) labels = some pool ∧
      pool.main = .returned := by
  obtain ⟨labels, pool, owned, _, ran, ended⟩ :=
    (work_variant positive).completes Alive.moves (alive_init numThreads script)
  have plain : ∀ i, ¬((init script).slots i).thread.Nested := (routed_init numThreads script).plain
  obtain ⟨valid, external⟩ :=
    (poolOk_init numThreads script).plain_run positive plain owned ran
  exact ⟨labels, pool, external, ran, ended.resolve_right (by simp [valid.sound])⟩

/-- The count of a worker is an `int`: with 2^31 requests on one worker it does
not tell their number. -/
theorem count_overflows :
    ¬∀ (numThreads : Nat) (script : List (Nat × Nat)) (labels : List (Label Nat))
      (pool : Pool Nat), 0 < numThreads → (∀ label ∈ labels, label.External) →
      Transition.run (step numThreads) (init script) labels = some pool →
      pool.main = .returned →
      ((List.range numThreads).map fun i => (pool.slots i).processed.toInt).sum =
        script.length := by
  intro counted
  obtain ⟨labels, pool, external, ran, done⟩ :=
    can_return Nat.one_pos (List.replicate (2 ^ 31) (0, 0))
  have sum := counted 1 _ labels pool Nat.one_pos external ran done
  have below := (pool.slots 0).processed.toInt_lt
  simp only [List.range_one, List.map_cons, List.map_nil, List.sum_cons, List.sum_nil,
    List.length_replicate] at sum
  omega

end Pool

end RequestProxy.Librequest
