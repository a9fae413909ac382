import RequestProxy.Librequest.PoolInvariant

namespace RequestProxy.Librequest

universe u

variable {Job : Type u} {numThreads : Nat}

/-- How many `worker_thread_t` the join loop has freed. -/
def MainPc.workersFreed (numThreads : Nat) (main : MainPc Job) : Nat :=
  match main with
  | .joining i => i
  | .draining i => i
  | .releasing i => i
  | .finishing => numThreads
  | .returned => numThreads
  | _ => 0

/-- How many queues the join loop has freed; one more than workers between the
two calls of `free`. -/
def MainPc.queuesFreed (numThreads : Nat) (main : MainPc Job) : Nat :=
  match main with
  | .releasing i => i + 1
  | main => main.workersFreed numThreads

theorem MainPc.workers_le_queues (main : MainPc Job) :
    main.workersFreed numThreads ≤ main.queuesFreed numThreads := by
  cases main <;> simp [MainPc.workersFreed, MainPc.queuesFreed]

private theorem MainPc.hasWorker_iff {main : MainPc Job} (bounds : Pool.InBounds numThreads main)
    (created : ∀ i, main ≠ .creating i) (inside : index < numThreads) :
    (main.phase numThreads index).hasWorker = true ↔ main.workersFreed numThreads ≤ index := by
  cases main <;> grind [MainPc.phase, MainPc.workersFreed, Phase.hasWorker]

private theorem MainPc.hasQueue_iff {main : MainPc Job} (bounds : Pool.InBounds numThreads main)
    (created : ∀ i, main ≠ .creating i) (inside : index < numThreads) :
    (main.phase numThreads index).hasQueue = true ↔ main.queuesFreed numThreads ≤ index := by
  cases main <;> grind [MainPc.phase, MainPc.workersFreed, MainPc.queuesFreed, Phase.hasQueue]

namespace Pool

/-- Calls of `thread_pool_add` by work functions draw indices of workers. -/
def DrawsInside (numThreads : Nat) (pool : Pool Job) : Prop :=
  ∀ i req nested target, (pool.slots i).thread = .adding req nested target → target < numThreads

private theorem adding_set {pool : Pool Job}
    (inside : (Function.update pool.slots i slot index).thread = .adding req nested target)
    (kept : slot.thread = .adding req nested target →
      (pool.slots i).thread = .adding req nested target) :
    (pool.slots index).thread = .adding req nested target := by
  by_cases here : index = i
  · subst here
    exact kept (by simpa using inside)
  · simpa [here] using inside

private theorem wake_adding {thread : WorkerPc Job} :
    thread.wake = .adding req nested target ↔ thread = .adding req nested target := by
  cases thread <;> simp [WorkerPc.wake]

private theorem enqueueOn_adding {pool after : Pool Job}
    (called : pool.enqueueOn index node pushed = some after)
    (inside : (after.slots i).thread = .adding req nested target) :
    (pool.slots i).thread = .adding req nested target := by
  rcases enqueueOn_cases called with ⟨_, rfl⟩ | ⟨q, slot, _, ran, rfl⟩
  · exact inside
  · refine adding_set inside fun here => ?_
    simp only [Slot.enqueue, Option.bind_eq_bind, Option.bind_eq_some_iff, Prod.exists] at ran
    obtain ⟨r, accepted, _, ran⟩ := ran
    cases accepted <;> cases ran
    · exact here
    · exact wake_adding.mp here

private theorem workerFunc_adding {slot after : Slot Job} (ran : workerFunc slot = some after) :
    after.thread ≠ .adding req nested target := by
  have dequeued : slot.dequeue = some after → after.thread ≠ .adding req nested target := by
    intro ran
    simp only [Slot.dequeue, Option.bind_eq_bind, Option.bind_eq_some_iff] at ran
    obtain ⟨q, _, taken, _, ran⟩ := ran
    cases taken <;> cases ran <;> simp
  unfold workerFunc at ran
  split at ran
  case h_2 | h_3 => exact dequeued ran
  all_goals cases ran
  all_goals simp

/-- A work function that is inside `thread_pool_add` was so before the step, or
the step is the start of the call. -/
theorem Stepped.adding {pool next : Pool Job} (taken : Stepped numThreads pool label next)
    (inside : (next.slots i).thread = .adding req nested target) :
    (pool.slots i).thread = .adding req nested target ∨
      ∃ job rand, label = .nestedAdd i job rand ∧ target = rand % numThreads := by
  cases taken with
  | enqueue place called => exact .inl (enqueueOn_adding called inside)
  | @nestedEnqueue k other _ _ node after runs called =>
    refine .inl (enqueueOn_adding called (adding_set inside ?_))
    simp
  | create => exact .inl (adding_set inside (by simp [createWorkerThread]))
  | close => exact .inl (adding_set inside wake_adding.mp)
  | drain | drained | release => exact .inl (adding_set inside id)
  | worker ran => exact .inl (adding_set inside fun here => absurd here (workerFunc_adding ran))
  | spurious => exact .inl (adding_set inside (by simp))
  | @nestedAdd k other rand job runs found =>
    by_cases here : i = k
    · subst here
      simp only [setThread, setSlot, Function.update_self, WorkerPc.adding.injEq] at inside
      exact .inr ⟨job, rand, rfl, inside.2.2.symm⟩
    · exact .inl (by simpa [setThread, setSlot, here] using inside)
  | _ => exact .inl inside

/-- What holds in every state of a run that has not met a fault. -/
def Alive (numThreads : Nat) (pool : Pool Job) : Prop :=
  pool.fault = false → PoolOk numThreads pool ∧ DrawsInside numThreads pool

theorem alive_init (numThreads : Nat) (script : List (Job × Nat)) :
    Alive numThreads (init script) :=
  fun _ => ⟨poolOk_init numThreads script, by simp [DrawsInside, init, Slot.vacant]⟩

theorem Alive.step {pool next : Pool Job} (alive : Alive numThreads pool)
    (positive : 0 < numThreads) (taken : Pool.step numThreads pool label = some next) :
    Alive numThreads next := by
  obtain ⟨sound, moved⟩ := stepped taken
  obtain ⟨valid, draws⟩ := alive sound
  refine fun still => ⟨valid.step positive moved still, ?_⟩
  intro i req nested target inside
  rcases moved.adding inside with before | ⟨job, rand, _, drawn⟩
  · exact draws i req nested target before
  · exact drawn ▸ Nat.mod_lt rand positive

/-- The worker that `thread_pool_add` looks up from a work function is live just
when the join loop has not freed it. -/
theorem PoolOk.present_iff {pool : Pool Job} (valid : PoolOk numThreads pool)
    (runs : (pool.slots i).thread.current ≠ []) (inside : index < numThreads) :
    pool.present index = true ↔ pool.main.workersFreed numThreads ≤ index := by
  have created := valid.not_running runs
  have running : pool.main ≠ .returned := by
    intro place
    have ok := valid.slots i
    have gone : pool.main.phase numThreads i = .unborn ∨
        pool.main.phase numThreads i = .gone := by grind [MainPc.phase]
    rcases gone with phase | phase <;> rw [phase] at ok
    · exact runs (by simp [ok.unborn.mpr rfl, WorkerPc.current])
    · exact runs (by simp [ok.exited rfl, WorkerPc.current])
  rw [← MainPc.hasWorker_iff valid.bounds created inside, ← (valid.slots index).worker, present]
  simp [valid.allocated.mpr running]

/-- The queue it uses is live just when the join loop has not freed that. -/
theorem PoolOk.queue_iff {pool : Pool Job} (valid : PoolOk numThreads pool)
    (runs : (pool.slots i).thread.current ≠ []) (inside : index < numThreads) :
    (pool.slots index).queue ≠ none ↔ pool.main.queuesFreed numThreads ≤ index := by
  have ok := valid.slots index
  rw [← MainPc.hasQueue_iff valid.bounds (valid.not_running runs) inside]
  cases there : (pool.slots index).queue with
  | none => simp [(ok.absent there).1]
  | some q => simp [(ok.queue q there).1]

/-- The join loop frees no worker that runs a work function. -/
theorem PoolOk.not_freed {pool : Pool Job} (valid : PoolOk numThreads pool)
    (runs : (pool.slots i).thread.current ≠ []) : pool.main.queuesFreed numThreads ≤ i := by
  by_contra freed
  have ok := valid.slots i
  have bounds := valid.bounds
  have after : (pool.main.phase numThreads i).isJoined = true ∨
      pool.main.phase numThreads i = .unborn := by
    cases place : pool.main <;> rw [place] at freed bounds <;>
      grind [MainPc.phase, MainPc.queuesFreed, MainPc.workersFreed, Phase.isJoined]
  rcases after with joined | unborn
  · exact runs (by simp [ok.exited joined, WorkerPc.current])
  · exact runs (by simp [ok.unborn.mpr unborn, WorkerPc.current])

end Pool

end RequestProxy.Librequest
