import RequestProxy.Librequest.PoolCalls

namespace RequestProxy.Librequest

open RequestProxy.Abstract

variable {Job : Type} {numThreads : Nat}

namespace ThreadedPool

variable {fine fine' : ThreadedPool Job} {pool pool' : Pool Job}

/-- Every step here is one of the coarse pool, but for the silent ones. -/
def Label.silent : Label Job → Bool
  | .queue _ move => move.silent
  | _ => false

/-- A step of the code of the library: everything but a spurious wake-up and
the decision of a work function to call `thread_pool_add`. -/
def Label.own : Label Job → Bool
  | .queue _ move => move.own
  | .nestedAdd _ _ _ => false
  | .main => true
  | .worker _ => true

/-- A step of the coarse pool for a step here. -/
def Label.Matches (fine : ThreadedPool Job) (label : Label Job) (coarse : Pool.Label Job) : Prop :=
  Follows fine label.own coarse ∨
    ∃ i job rand, label = .nestedAdd i job rand ∧ coarse = .nestedAdd i job rand

/-- A step that is no fault is none of the coarse pool, or one. -/
theorem Seen.step (related : Seen numThreads fine pool) (valid : pool.PoolOk numThreads)
    (positive : 0 < numThreads) (taken : ThreadedPool.step numThreads fine label = some fine')
    (sound : fine'.fault = false) :
    (label.silent = true ∧ Seen numThreads fine' pool) ∨
      ∃ coarse pool', Label.Matches fine label coarse ∧
        Pool.step numThreads pool coarse = some pool' ∧ Seen numThreads fine' pool' := by
  unfold ThreadedPool.step at taken
  rw [if_neg (by simp [related.sound.1])] at taken
  cases label with
  | main =>
    obtain ⟨pool', moves, agree⟩ := related.mainStep valid positive taken
    exact .inr ⟨.main 0, pool', .inl ⟨rfl, .inl trivial⟩,
      by simp [Pool.step, related.sound.2, moves], agree⟩
  | worker i =>
    simp only [Option.bind_eq_bind, Option.bind_eq_some_iff, Option.pure_def,
      Option.some.injEq] at taken
    obtain ⟨entry, ran, rfl⟩ := taken
    obtain ⟨slot, moves, agree⟩ := related.worker valid ran
    exact .inr ⟨.worker i, pool.setSlot i slot, .inl ⟨rfl, .inl trivial⟩,
      by simp [Pool.step, related.sound.2, moves], agree⟩
  | nestedAdd i job rand =>
    simp only at taken
    split at taken
    · rename_i req runs
      split at taken
      · rename_i found
        cases taken
        obtain ⟨place, agree⟩ :=
          related.nestedAdd ⟨fine.requests, job⟩ (rand % numThreads) runs
        refine .inr ⟨.nestedAdd i job rand, _, .inr ⟨i, job, rand, rfl, rfl⟩, ?_, agree⟩
        simp [Pool.step, related.sound.2, place, related.present_eq, found, related.requests]
      · cases taken
        cases sound
    · cases taken
  | queue caller move =>
    rcases related.queueStep valid taken sound with same | ⟨coarse, pool', follows, moves, agree⟩
    · exact .inl same
    · exact .inr ⟨coarse, pool', .inl follows, moves, agree⟩

/-- The coarse pool follows every run until a fault. -/
theorem follows_simulation (positive : 0 < numThreads) (script : List (Job × Nat)) :
    Transition.Simulation (ThreadedPool.step numThreads) (Pool.step numThreads) (fun _ => True)
      (fun _ => True) (init script) (Pool.init script) (Pool.Alive numThreads)
      (fun fine pool => fine.fault = true ∨ Seen numThreads fine pool) where
  invariant := ⟨Pool.alive_init numThreads script,
    fun alive _ taken => alive.step positive taken⟩
  initial := .inr (seen_init script)
  follows := by
    intro fine pool label next alive related _ taken
    have unharmed : fine.fault = false := by
      cases fault : fine.fault with
      | false => rfl
      | true => simp [ThreadedPool.step, fault] at taken
    obtain related := related.resolve_left (by simp [unharmed])
    cases sound : next.fault with
    | true => exact ⟨[], pool, by simp, rfl, .inl rfl⟩
    | false =>
      rcases related.step (alive related.sound.2).1 positive taken sound with
        ⟨_, same⟩ | ⟨coarse, pool', _, moves, agree⟩
      · exact ⟨[], pool, by simp, rfl, .inr same⟩
      · exact ⟨[coarse], pool', by simp, by simp [Transition.run_cons, moves], .inr agree⟩

/-- The queue functions may be taken for atomic: every run of the pool with
their mutexes, their condition variables and any number of nested calls, as long
as it has used no object that was freed, is a run of the pool in which each call
is one step. -/
theorem pool_calls_atomic (positive : 0 < numThreads) (script : List (Job × Nat))
    (labels : List (Label Job))
    (ran : Transition.run (ThreadedPool.step numThreads) (init script) labels = some fine)
    (sound : fine.fault = false) :
    ∃ calls pool, Transition.run (Pool.step numThreads) (Pool.init script) calls = some pool ∧
      Seen numThreads fine pool := by
  obtain ⟨calls, pool, _, followed, _, related⟩ :=
    (follows_simulation positive script).run (fun _ _ => trivial) ran
  exact ⟨calls, pool, followed, related.resolve_left (by simp [sound])⟩

/-- A call of a queue function from its start to its return. -/
def wholeCall (caller : Caller) (node : Addr) (chosen : Finset Caller) : List (Label Nat) :=
  [.call node, .lock, .critical chosen, .unlock, .leave].map (.queue caller)

/-- A call of `queue_enqueue`, which UNLOCK_MTX ends. -/
def wholeEnqueue (caller : Caller) (node : Addr) (chosen : Finset Caller) : List (Label Nat) :=
  (wholeCall caller node chosen).dropLast

/-- Two workers: one waits for the request and is woken by it, the other finds
its queue closed, and the join loop frees that one while the task runs. -/
def oneFreed : List (Label Nat) := List.flatten [
  [.main, .main, .main, .worker 1, .queue (.worker 1) (.call 0), .queue (.worker 1) .lock,
    .queue (.worker 1) (.critical ∅), .main],
  wholeEnqueue .owner 40 {.worker 1},
  [.queue (.worker 1) .relock, .main, .queue (.worker 1) (.critical ∅),
    .queue (.worker 1) .unlock],
  wholeCall .owner 0 ∅,
  wholeCall .owner 0 ∅,
  [.queue (.worker 1) .leave, .worker 0],
  wholeCall (.worker 0) 0 ∅,
  [.worker 0, .main, .main, .main, .main]]

/-- The task adds a request to its own queue, which is closed, and is between
its critical section and its return. -/
def ownRequest : List (Label Nat) :=
  oneFreed ++ [.nestedAdd 1 8 1, .queue (.worker 1) (.call 41), .queue (.worker 1) .lock,
    .queue (.worker 1) (.critical ∅)]

theorem pool_calls_atomic_sample :
    ∃ fine : ThreadedPool Nat,
      Transition.run (ThreadedPool.step 2) (init [(7, 1)]) ownRequest = some fine ∧
      fine.fault = false ∧ ∃ calls pool,
        Transition.run (Pool.step 2) (Pool.init [(7, 1)]) calls = some pool ∧ Seen 2 fine pool :=
  ⟨_, rfl, rfl, pool_calls_atomic (by decide) [(7, 1)] ownRequest rfl rfl⟩

/-- Calls by work functions draw indices that are permitted to their worker. -/
def Label.Draws (numThreads : Nat) (permits : Nat → Nat → Prop) : Label Job → Prop
  | .nestedAdd i _ rand => permits i (rand % numThreads)
  | .main | .worker _ | .queue _ _ => True

/-- Work functions are inside calls that drew such an index. -/
def Drawn (permits : Nat → Nat → Prop) (fine : ThreadedPool Job) : Prop :=
  ∀ i req nested target, (fine.entries i).thread = .adding req nested target → permits i target

variable {permits : Nat → Nat → Prop}

private theorem drawn_set {entry : Entry Job} (drawn : fine.Drawn permits)
    (entries : fine'.entries = Function.update fine.entries k entry)
    (changed : ∀ req nested target, entry.thread = .adding req nested target → permits k target) :
    fine'.Drawn permits := by
  intro i req nested target place
  by_cases here : i = k
  · subst here
    rw [entries, Function.update_self] at place
    exact changed req nested target place
  · rw [entries, Function.update_of_ne here] at place
    exact drawn i req nested target place

private theorem drawn_same {entry : Entry Job} (drawn : fine.Drawn permits)
    (entries : fine'.entries = Function.update fine.entries k entry)
    (same : entry.thread = (fine.entries k).thread) : fine'.Drawn permits :=
  drawn_set drawn entries fun req nested target place => drawn k req nested target (same ▸ place)

private theorem drawn_elsewhere {entry : Entry Job} (drawn : fine.Drawn permits)
    (entries : fine'.entries = Function.update fine.entries k entry)
    (free : ∀ req nested target, entry.thread ≠ .adding req nested target) :
    fine'.Drawn permits :=
  drawn_set drawn entries fun req nested target place => (free req nested target place).elim

private theorem run_not_adding {entry after : Entry Job} (ran : entry.run = some after)
    (req nested : Request Job) (target : Nat) : after.thread ≠ .adding req nested target := by
  unfold Entry.run at ran
  split at ran <;> cases ran <;> simp

private theorem resume_not_adding {entry : Entry Job} {value : Returned (Request Job)}
    (place : (entry.resume value).thread = .adding req nested target) :
    entry.thread = .adding req nested target := by
  unfold Entry.resume at place
  split at place
  · cases place
  · cases place
  · cases place
  · exact place

theorem Drawn.main (drawn : fine.Drawn permits)
    (taken : mainStep numThreads fine = some fine') : fine'.Drawn permits := by
  unfold ThreadedPool.mainStep at taken
  split at taken
  · split at taken
    · cases taken
      exact drawn_elsewhere drawn rfl (by simp [Entry.create])
    · cases taken
      exact drawn
  · split at taken
    · cases taken
      exact drawn
    · split at taken <;> cases taken <;> exact drawn
  · cases taken
  · split at taken <;> cases taken
    exact drawn
  · split at taken
    · split at taken <;> cases taken
      exact drawn
    · cases taken
      exact drawn
  · simp only [Option.bind_eq_bind, Option.bind_eq_some_iff] at taken
    obtain ⟨shared, _, turned, _, taken⟩ := taken
    cases turned <;> cases taken <;> exact drawn_same drawn rfl rfl
  · cases taken
    exact drawn_same drawn rfl rfl
  · cases taken
    exact drawn
  · cases taken

theorem Drawn.moved (drawn : fine.Drawn permits)
    (taken : Moved numThreads fine caller move fine') : fine'.Drawn permits := by
  cases taken with
  | fault => exact drawn
  | stay => exact drawn_same drawn rfl rfl
  | @leave index op shared next value =>
    have shares : (fine.share index next).Drawn permits := drawn_same drawn rfl rfl
    cases caller with
    | owner => exact shares
    | worker i =>
      exact drawn_set shares rfl fun req nested target place =>
        shares i req nested target (resume_not_adding place)

theorem Drawn.queue (drawn : fine.Drawn permits)
    (taken : ThreadedPool.queueStep numThreads fine caller move = some fine') :
    fine'.Drawn permits := by
  rcases queueStepped taken with single | ⟨_, middle, _, unlocks, leaves⟩
  · exact drawn.moved single
  · exact (drawn.moved unlocks).moved leaves

theorem Drawn.step (drawn : fine.Drawn permits)
    (draws : label.Draws numThreads permits)
    (taken : ThreadedPool.step numThreads fine label = some fine') :
    fine'.Drawn permits := by
  unfold ThreadedPool.step at taken
  split at taken
  · cases taken
  · split at taken
    · exact drawn.main taken
    · simp only [Option.bind_eq_bind, Option.bind_eq_some_iff, Option.pure_def,
        Option.some.injEq] at taken
      obtain ⟨entry, ran, rfl⟩ := taken
      exact drawn_elsewhere drawn rfl (run_not_adding ran)
    · rename_i i job rand
      split at taken
      · split at taken
        · cases taken
          refine drawn_set drawn rfl ?_
          rintro req nested target ⟨⟩
          exact draws
        · cases taken
          exact drawn
      · cases taken
    · exact drawn.queue taken

theorem Drawn.mono {wider : Nat → Nat → Prop} (drawn : fine.Drawn permits)
    (permitted : ∀ i target, permits i target → wider i target) : fine.Drawn wider :=
  fun i req nested target place => permitted i target (drawn i req nested target place)

/-- A call draws the index of a worker. -/
def Inside (numThreads : Nat) (_ target : Nat) : Prop := target < numThreads

/-- A call of `thread_pool_add` by a work function comes in time: the join loop
has not got past the index it draws, neither when the worker is looked up nor at
any step of `queue_enqueue` up to its UNLOCK_MTX. -/
def InTime (numThreads : Nat) (pool : ThreadedPool Job) : Label Job → Prop
  | .nestedAdd _ _ rand => pool.main.workersFreed numThreads ≤ rand % numThreads
  | .queue (.worker i) _ => ∀ req nested target,
      (pool.entries i).thread = .adding req nested target →
        pool.main.queuesFreed numThreads ≤ target
  | .queue .owner _ | .main | .worker _ => True

private theorem portrays_freed {main place : MainPc Job} (portrayed : Portrays main view place) :
    place.workersFreed numThreads = main.workersFreed numThreads ∧
      place.queuesFreed numThreads = main.queuesFreed numThreads := by
  cases portrayed with
  | before => exact ⟨rfl, rfl⟩
  | done => cases main <;> exact ⟨rfl, rfl⟩

private theorem mirrors_queue {entry : Entry Job} {slot : Slot Job}
    (mirrors : entry.Mirrors slot) : entry.shared ≠ none ↔ slot.queue ≠ none := by
  refine ⟨fun there => ?_, fun there missing => there (mirrors.absent missing)⟩
  obtain ⟨shared, found⟩ := Option.ne_none_iff_exists'.mp there
  obtain ⟨_, q, _, live, _⟩ := mirrors.present shared found
  simp [live]

private theorem Seen.queue_there (related : Seen numThreads fine pool)
    (valid : pool.PoolOk numThreads)
    (drawn : fine.Drawn (Inside numThreads))
    (calls : fine.calling numThreads caller = some (index, op)) (move : Move) :
    (fine.entries index).shared ≠ none ↔ InTime numThreads fine (.queue caller move) := by
  cases caller with
  | owner =>
    refine iff_of_true (fun missing => ?_) trivial
    have before : fine.seen numThreads .owner = none := by
      simp [seen, calls, missing]
    have portrayed := related.main
    rw [before] at portrayed
    cases portrayed
  | worker i =>
    obtain ⟨ahead, pictured, _⟩ := related.threads i
    rcases related.calls_of calls with ⟨rfl, place⟩ | ⟨⟨req, nested, place⟩, busy⟩
    · refine iff_of_true (fun missing => ?_) (by simp [InTime, place])
      have gone : fine.seen numThreads (.worker i) = none := by
        simp [seen, calls, missing]
      rw [gone, place] at pictured
      cases pictured
    · rw [mirrors_queue (related.entries index),
        valid.queue_iff busy (drawn i req nested index place), (portrays_freed related.main).2]
      simp [InTime, place]

private theorem queueStep_sound (sound : fine.fault = false)
    (calls : fine.calling numThreads caller = some (index, op))
    (taken : ThreadedPool.queueStep numThreads fine caller move = some fine') :
    fine'.fault = false ↔ (fine.entries index).shared ≠ none := by
  have single {start after : ThreadedPool Job} {move : Move} (unharmed : start.fault = false)
      (calls : start.calling numThreads caller = some (index, op))
      (moved : Moved numThreads start caller move after) :
      after.fault = false ↔ (start.entries index).shared ≠ none := by
    cases moved with
    | fault called missing =>
      cases calls.symm.trans called
      simp [missing]
    | stay called there =>
      cases calls.symm.trans called
      exact iff_of_true unharmed (by simp [there])
    | leave called there =>
      cases calls.symm.trans called
      refine iff_of_true ?_ (by simp [there])
      cases caller <;> exact unharmed
  rcases queueStepped taken with moved | ⟨_, middle, unharmed, unlocks, leaves⟩
  · exact single sound calls moved
  · rw [iff_true_right ((single sound calls unlocks).mp unharmed)]
    -- UNLOCK_MTX has found the queue, so the return does
    cases unlocks with
    | fault => cases unharmed
    | stay called there =>
      cases calls.symm.trans called
      exact (single unharmed ((calling_share caller).trans calls) leaves).mpr (by simp [share_self])

/-- A step is no fault just when it comes in time. -/
theorem Seen.fault_iff (related : Seen numThreads fine pool) (valid : pool.PoolOk numThreads)
    (drawn : fine.Drawn (Inside numThreads)) (positive : 0 < numThreads)
    (taken : ThreadedPool.step numThreads fine label = some fine') :
    fine'.fault = false ↔ InTime numThreads fine label := by
  unfold ThreadedPool.step at taken
  rw [if_neg (by simp [related.sound.1])] at taken
  cases label with
  | main =>
    obtain ⟨_, _, agree⟩ := related.mainStep valid positive taken
    exact iff_of_true agree.sound.1 trivial
  | worker i =>
    simp only [Option.bind_eq_bind, Option.bind_eq_some_iff, Option.pure_def,
      Option.some.injEq] at taken
    obtain ⟨entry, _, rfl⟩ := taken
    exact iff_of_true related.sound.1 trivial
  | nestedAdd i job rand =>
    simp only at taken
    split at taken
    · rename_i req runs
      obtain ⟨place, _⟩ := related.nestedAdd ⟨fine.requests, job⟩ (rand % numThreads) runs
      have busy : (pool.slots i).thread.current ≠ [] := by simp [place, WorkerPc.current]
      have found : fine.present (rand % numThreads) = true ↔
          InTime numThreads fine (.nestedAdd i job rand) := by
        rw [← related.present_eq, valid.present_iff busy (Nat.mod_lt rand positive), InTime,
          (portrays_freed related.main).1]
      rw [← found]
      split at taken
      · rename_i there
        cases taken
        exact iff_of_true related.sound.1 there
      · rename_i absent
        cases taken
        exact iff_of_false (by simp) absent
    · cases taken
  | queue caller move =>
    obtain ⟨index, op, calls⟩ : ∃ index op, fine.calling numThreads caller = some (index, op) := by
      rcases queueStepped taken with single | ⟨_, _, _, single, _⟩ <;> cases single <;>
        exact ⟨_, _, ‹_›⟩
    rw [queueStep_sound related.sound.1 calls taken, related.queue_there valid drawn calls move]

/-- A state of a run that has met no fault. -/
def Tracked (numThreads : Nat) (fine : ThreadedPool Job) : Prop :=
  fine.Drawn (Inside numThreads) ∧ ∃ pool, Seen numThreads fine pool ∧ pool.Alive numThreads

private theorem tracked_init (script : List (Job × Nat)) : Tracked numThreads (init script) :=
  ⟨by simp [Drawn, init, Entry.vacant], _, seen_init script, Pool.alive_init numThreads script⟩

theorem Tracked.step (tracked : Tracked numThreads fine) (positive : 0 < numThreads)
    (taken : ThreadedPool.step numThreads fine label = some fine') (sound : fine'.fault = false) :
    Tracked numThreads fine' := by
  obtain ⟨drawn, pool, related, alive⟩ := tracked
  have draws : label.Draws numThreads (Inside numThreads) := by
    cases label <;> first | trivial | exact Nat.mod_lt _ positive
  refine ⟨drawn.step draws taken, ?_⟩
  rcases related.step (alive related.sound.2).1 positive taken sound with
    ⟨_, same⟩ | ⟨coarse, pool', _, moves, agree⟩
  · exact ⟨pool, same, alive⟩
  · exact ⟨pool', agree, alive.step positive moves⟩

theorem step_unharmed (taken : ThreadedPool.step numThreads fine label = some fine') :
    fine.fault = false := by
  cases fault : fine.fault with
  | false => rfl
  | true => simp [ThreadedPool.step, fault] at taken

theorem tracked_run (positive : 0 < numThreads) (script : List (Job × Nat))
    (ran : Transition.run (ThreadedPool.step numThreads) (init script) labels = some fine)
    (sound : fine.fault = false) : Tracked numThreads fine := by
  have invariant : Transition.Invariant (ThreadedPool.step numThreads) (fun _ => True)
      (init script) (fun fine => fine.fault = false → Tracked numThreads fine) :=
    ⟨fun _ => tracked_init script,
      fun now _ taken sound => (now (step_unharmed taken)).step positive taken sound⟩
  exact invariant.run (fun _ _ => trivial) ran sound

/-- Over a whole run, in which work functions may add to the pool at any time:
no call of `thread_pool_add` uses an object that was freed, from the lookup of
the worker to the last use of the queue, just when each of the calls by work
functions comes in time. -/
theorem nested_add_safe_iff (positive : 0 < numThreads) (script : List (Job × Nat))
    (labels : List (Label Job))
    (ran : Transition.run (ThreadedPool.step numThreads) (init script) labels = some fine) :
    fine.fault = false ↔ ∀ state label,
      Transition.Visits (ThreadedPool.step numThreads) (init script) labels state label →
        InTime numThreads state label := by
  constructor
  · intro sound state label visited
    obtain ⟨next, later, taken, continued⟩ := visited.taken ran
    obtain ⟨earlier, _, _, before⟩ := visited
    obtain ⟨drawn, pool, related, alive⟩ :=
      tracked_run positive script before (step_unharmed taken)
    refine (related.fault_iff (alive related.sound.2).1 drawn positive taken).mp ?_
    -- a fault ends the run
    cases later with
    | nil => exact Option.some.inj continued ▸ sound
    | cons other rest =>
      obtain ⟨_, follows, _⟩ := Option.bind_eq_some_iff.mp continued
      exact step_unharmed follows
  · intro guarded
    refine (Transition.run_guarded (fun fine => fine.fault = false ∧ Tracked numThreads fine)
      ⟨rfl, tracked_init script⟩ ?_ guarded ran).1
    rintro state label next ⟨_, tracked⟩ inTime taken
    obtain ⟨drawn, pool, related, alive⟩ := id tracked
    have sound := (related.fault_iff (alive related.sound.2).1 drawn positive taken).mpr inTime
    exact ⟨sound, tracked.step positive taken sound⟩

theorem nested_add_safe_iff_sample :
    ∃ fine : ThreadedPool Nat,
      Transition.run (ThreadedPool.step 2) (init [(7, 1)]) ownRequest = some fine ∧
      fine.fault = false ∧ ∀ state label,
        Transition.Visits (ThreadedPool.step 2) (init [(7, 1)]) ownRequest state label →
          InTime 2 state label :=
  ⟨_, rfl, rfl, (nested_add_safe_iff (by decide) [(7, 1)] ownRequest rfl).mp rfl⟩

/-- The join loop has freed worker 0 when the task on worker 1 draws it. -/
theorem nested_add_unsafe :
    ¬∀ (numThreads : Nat) (script : List (Nat × Nat)) (labels : List (Label Nat))
      (fine : ThreadedPool Nat), 0 < numThreads →
      Transition.run (ThreadedPool.step numThreads) (init script) labels = some fine →
        fine.fault = false := by
  intro safe
  have sound := safe 2 [(7, 1)] (oneFreed ++ [.nestedAdd 1 8 0]) _ (by decide) rfl
  cases sound

/-- It has freed queue 0 when the task, which has found worker 0 and ended its
critical section, comes to UNLOCK_MTX. -/
example : ((Transition.run (ThreadedPool.step 2) (init [(7, 1)]) (oneFreed.dropLast.dropLast ++
    [.nestedAdd 1 8 0, .queue (.worker 1) (.call 41), .queue (.worker 1) .lock,
      .queue (.worker 1) (.critical ∅), .main, .queue (.worker 1) .unlock])).map
        ThreadedPool.fault) = some true := by
  rfl

/-- The join loop has not freed the queue of a later worker. -/
def Upward (numThreads i target : Nat) : Prop := i ≤ target ∧ target < numThreads

theorem Seen.no_fault (related : Seen numThreads fine pool) (valid : pool.PoolOk numThreads)
    (drawn : fine.Drawn (Upward numThreads)) (positive : 0 < numThreads)
    (draws : label.Draws numThreads (Upward numThreads))
    (taken : ThreadedPool.step numThreads fine label = some fine') : fine'.fault = false := by
  refine (related.fault_iff valid (drawn.mono fun _ _ upward => upward.2) positive taken).mpr ?_
  have freed : pool.main.workersFreed numThreads = fine.main.workersFreed numThreads ∧
      pool.main.queuesFreed numThreads = fine.main.queuesFreed numThreads :=
    portrays_freed related.main
  cases label with
  | main | worker _ => trivial
  | nestedAdd i job rand =>
    simp only [ThreadedPool.step, related.sound.1] at taken
    cases runs : (fine.entries i).thread with
    | working req =>
      obtain ⟨place, _⟩ := related.nestedAdd ⟨fine.requests, job⟩ (rand % numThreads) runs
      have busy : (pool.slots i).thread.current ≠ [] := by simp [place, WorkerPc.current]
      rw [InTime, ← freed.1]
      exact (MainPc.workers_le_queues _).trans ((valid.not_freed busy).trans draws.1)
    | _ => simp [runs] at taken
  | queue caller move =>
    cases caller with
    | owner => trivial
    | worker i =>
      intro req nested target place
      obtain ⟨ahead, pictured, _⟩ := related.threads i
      rw [place] at pictured
      rw [← freed.2]
      exact (valid.not_freed pictured.busy).trans (drawn i req nested target place).1

/-- A step of the coarse pool in which work functions draw permitted indices. -/
def Permitted (numThreads : Nat) (permits : Nat → Nat → Prop) : Pool.Label Job → Prop
  | .nestedAdd i _ rand => permits i (rand % numThreads)
  | .nestedEnqueue i _ => ∃ target, permits i target
  | .main _ | .worker _ | .spurious _ => True

private theorem permitted_external {coarse : Pool.Label Job} (external : coarse.External) :
    Permitted numThreads permits coarse := by
  cases coarse <;> trivial

/-- Runs in which work functions call only later workers meet no fault, so the
coarse pool follows them to their end. -/
theorem upward_simulation (positive : 0 < numThreads) (script : List (Job × Nat))
    (upward : ∀ i target, permits i target → Upward numThreads i target)
    {holds : Pool Job → Prop}
    (invariant : Transition.Invariant (Pool.step numThreads) (Permitted numThreads permits)
      (Pool.init script) holds)
    (alive : ∀ pool, holds pool → pool.Alive numThreads) :
    Transition.Simulation (ThreadedPool.step numThreads) (Pool.step numThreads)
      (Label.Draws numThreads permits) (Permitted numThreads permits) (init script)
      (Pool.init script) holds
      (fun fine pool => Seen numThreads fine pool ∧ fine.Drawn permits) where
  invariant := invariant
  initial := ⟨seen_init script, by simp [Drawn, init, Entry.vacant]⟩
  follows := by
    rintro fine pool label next now ⟨related, drawn⟩ draws taken
    have valid := (alive pool now related.sound.2).1
    have inside : fine.Drawn (Upward numThreads) :=
      fun i req nested target place => upward i target (drawn i req nested target place)
    have later : label.Draws numThreads (Upward numThreads) := by
      cases label <;> first | trivial | exact upward _ _ draws
    have sound := related.no_fault valid inside positive later taken
    have still := drawn.step draws taken
    rcases related.step valid positive taken sound with ⟨_, same⟩ | ⟨coarse, pool', by_one, moves, agree⟩
    · exact ⟨[], pool, by simp, rfl, same, still⟩
    · refine ⟨[coarse], pool', ?_, by simp [Transition.run_cons, moves], agree, still⟩
      rintro other member
      obtain rfl := List.mem_singleton.mp member
      rcases by_one with ⟨_, external | ⟨i, node, req, nested, target, rfl, place⟩⟩ |
        ⟨i, job, rand, rfl, rfl⟩
      · exact permitted_external external
      · exact ⟨target, drawn i req nested target place⟩
      · exact draws

/-- With the queue functions step by step, no thread uses a queue or a worker
that `thread_pool_destroy` has freed, neither before its critical section nor
after it, as long as every work function that calls `thread_pool_add` draws the
index of its own worker or of a later one. -/
theorem nested_calls_safe (positive : 0 < numThreads) (script : List (Job × Nat))
    (labels : List (Label Job))
    (upward : ∀ i job rand, Label.nestedAdd i job rand ∈ labels → i ≤ rand % numThreads)
    (ran : Transition.run (ThreadedPool.step numThreads) (init script) labels = some fine) :
    fine.fault = false := by
  have draws : ∀ label ∈ labels, label.Draws numThreads (Upward numThreads) := by
    intro label member
    cases label with
    | nestedAdd i job rand => exact ⟨upward i job rand member, Nat.mod_lt rand positive⟩
    | main | worker _ | queue _ _ => trivial
  have invariant : Transition.Invariant (Pool.step numThreads)
      (Permitted numThreads (Upward numThreads)) (Pool.init script) (Pool.Alive numThreads) :=
    ⟨Pool.alive_init numThreads script, fun alive _ taken => alive.step positive taken⟩
  obtain ⟨_, _, _, _, _, related, _⟩ :=
    (upward_simulation positive script (fun _ _ permitted => permitted) invariant
      (fun _ alive => alive)).run draws ran
  exact related.sound.1

theorem nested_calls_safe_sample :
    ∃ fine : ThreadedPool Nat,
      Transition.run (ThreadedPool.step 2) (init [(7, 1)]) ownRequest = some fine ∧
      fine.fault = false :=
  ⟨_, rfl, nested_calls_safe Nat.two_pos [(7, 1)] ownRequest
    (by simp +contextual [ownRequest, oneFreed, wholeEnqueue, wholeCall]) rfl⟩

theorem Seen.returned (related : Seen numThreads fine pool) (valid : pool.PoolOk numThreads)
    (done : fine.main = .returned) :
    pool.main = .returned ∧ ∀ i, (fine.entries i).worker = false ∧
      (fine.entries i).shared = none ∧ (pool.slots i).executed = (fine.entries i).executed := by
  have idle : fine.calling numThreads .owner = none := by simp [calling, done]
  have ended := (related.main_eq idle).trans done
  refine ⟨ended, fun i => ?_⟩
  have vacated := valid.vacated ended i
  have mirrors := related.entries i
  obtain ⟨ahead, pictured, executed⟩ := related.threads i
  have nothing : ahead = [] := by
    by_cases born : numThreads ≤ i
    · have unborn := pictured.settled.1 (vacated.created.mpr born)
      rw [unborn] at pictured
      exact (pictured.eq_pc rfl).2
    · have joined : (pool.main.phase numThreads i).isJoined = true := by
        simp [ended, MainPc.phase, born, Phase.isJoined]
      have exited := pictured.settled.2 ((valid.slots i).exited joined)
      rw [exited] at pictured
      exact (pictured.eq_pc rfl).2
  refine ⟨mirrors.worker.symm.trans vacated.worker, ?_, by simpa [nothing] using executed⟩
  cases there : (fine.entries i).shared with
  | none => rfl
  | some shared =>
    obtain ⟨_, q, _, live, _⟩ := mirrors.present shared there
    cases vacated.queue.symm.trans live

/-- The pool with its locks serves every request once. When no work function
calls it and `thread_pool_destroy` has returned, each worker has run the requests
that `rand` chose it for, in the order of the calls, freed each of them and, as
far as an `int` goes, counted them, none was left for `queue_destroy`, and every
queue and worker has been freed. -/
theorem locked_pool_serves (positive : 0 < numThreads) (script : List (Job × Nat))
    (labels : List (Label Job)) (plain : ∀ i job rand, Label.nestedAdd i job rand ∉ labels)
    (ran : Transition.run (ThreadedPool.step numThreads) (init script) labels = some fine)
    (done : fine.main = .returned) :
    ((Pool.submissions numThreads 0 script).map Prod.fst).Nodup ∧
      ((List.range numThreads).flatMap fun i => (fine.entries i).executed).Perm
        ((Pool.submissions numThreads 0 script).map Prod.fst) ∧
      (∀ i, (fine.entries i).executed = routed i (Pool.submissions numThreads 0 script) ∧
        (fine.entries i).freed = (fine.entries i).executed ∧
        ((fine.entries i).executed.length < 2 ^ 31 →
          (fine.entries i).processed.toInt = (fine.entries i).executed.length) ∧
        (fine.entries i).worker = false ∧ (fine.entries i).shared = none) ∧
      fine.drained = [] ∧ fine.allocated = false := by
  have draws : ∀ label ∈ labels, label.Draws numThreads (fun _ _ => False) := by
    intro label member
    cases label with
    | nestedAdd i job rand => exact plain i job rand member
    | main | worker _ | queue _ _ => trivial
  have served := Pool.drain_invariant positive script
  have invariant : Transition.Invariant (Pool.step numThreads)
      (Permitted numThreads (fun _ _ => False)) (Pool.init script)
      (fun pool => pool.PoolOk numThreads ∧ Pool.Routed numThreads script pool) := by
    refine ⟨served.initial, fun now permitted taken => served.preserved now ?_ taken⟩
    rename_i pool label next
    cases label <;> first | trivial | exact permitted | exact permitted.elim fun _ none => none
  obtain ⟨_, pool, _, _, ⟨valid, routes⟩, related, _⟩ :=
    (upward_simulation positive script (fun _ _ never => never.elim) invariant
      (fun _ now _ => ⟨now.1, fun i req nested target runs =>
        absurd ⟨req, nested, target, runs⟩ (now.2.plain i)⟩)).run draws ran
  obtain ⟨ended, vacant⟩ := related.returned valid done
  have executed (i : Nat) :
      (fine.entries i).executed = routed i (Pool.submissions numThreads 0 script) :=
    (vacant i).2.2.symm.trans (routes.returned valid ended i).1
  refine ⟨Pool.submissions_nodup 0 script, ?_,
    fun i => ⟨executed i, ?_, ?_, (vacant i).1, (vacant i).2.1⟩, ?_, ?_⟩
  · rw [funext executed]
    exact routed_perm_all _ (Pool.submissions_inside positive 0 script)
  · rw [← (related.entries i).freed, ← (vacant i).2.2]
    exact (routes.returned valid ended i).2
  · intro few
    rw [← (vacant i).2.2] at few ⊢
    rw [← (related.entries i).processed, (valid.slots i).processed,
      (routes.returned valid ended i).2]
    exact Int32.toInt_ofNat_of_lt few
  · exact related.drained.symm.trans valid.drained
  · have freed := valid.allocated
    rw [ended] at freed
    rw [← related.allocated]
    simpa using freed

/-- The task on worker 1 ends, and so does the pool. -/
def oneRequest : List (Label Nat) := List.flatten [
  oneFreed, [.worker 1, .worker 1], wholeCall (.worker 1) 0 ∅,
  [.worker 1, .main, .main, .main, .main, .main]]

theorem locked_pool_serves_sample :
    ∃ fine : ThreadedPool Nat,
      Transition.run (ThreadedPool.step 2) (init [(7, 1)]) oneRequest = some fine ∧
      fine.main = .returned ∧
      ((Pool.submissions 2 0 [(7, 1)]).map Prod.fst).Nodup ∧
        ((List.range 2).flatMap fun i => (fine.entries i).executed).Perm
          ((Pool.submissions 2 0 [(7, 1)]).map Prod.fst) ∧
        (∀ i, (fine.entries i).executed = routed i (Pool.submissions 2 0 [(7, 1)]) ∧
          (fine.entries i).freed = (fine.entries i).executed ∧
          ((fine.entries i).executed.length < 2 ^ 31 →
            (fine.entries i).processed.toInt = (fine.entries i).executed.length) ∧
          (fine.entries i).worker = false ∧ (fine.entries i).shared = none) ∧
        fine.drained = [] ∧ fine.allocated = false :=
  ⟨_, rfl, rfl, locked_pool_serves (by decide) [(7, 1)] oneRequest
    (by simp [oneRequest, oneFreed, wholeEnqueue, wholeCall]) rfl rfl⟩

end ThreadedPool

end RequestProxy.Librequest
