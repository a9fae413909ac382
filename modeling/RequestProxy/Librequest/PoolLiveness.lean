import RequestProxy.Librequest.PoolRefinement
import RequestProxy.Librequest.QueueProgress

namespace RequestProxy.Librequest

open RequestProxy.Abstract

variable {Job : Type} {numThreads : Nat}

namespace ThreadedPool

variable {fine fine' : ThreadedPool Job} {pool pool' : Pool Job}

def callers (numThreads : Nat) : Finset Caller :=
  insert .owner ((Finset.range numThreads).image .worker)

section Progress

variable {shared : Threads Caller (Request Job)}

private theorem queueMove_of_step (move : Move) {next : Threads Caller (Request Job)}
    (calls : fine.calling numThreads caller = some (index, op))
    (there : (fine.entries index).shared = some shared)
    (stepped : shared.step (move.label caller op) = some next)
    (returns : move = .leave → ∃ value, shared.returns caller = some value) :
    ∃ fine', ThreadedPool.queueMove numThreads fine caller move = some fine' := by
  cases move with
  | leave =>
    obtain ⟨value, returned⟩ := returns rfl
    exact ⟨_, by simp [queueMove, calls, there, stepped, returned]; rfl⟩
  | call | lock | critical | unlock | relock | spurious =>
    exact ⟨_, by simp [queueMove, calls, there, stepped]; rfl⟩

/-- The threads of a queue move in the pool as they do by themselves, and a
thread that has to return behind UNLOCK_MTX does so. -/
theorem queueStep_of_step (move : Move) {next : Threads Caller (Request Job)}
    (calls : fine.calling numThreads caller = some (index, op))
    (there : (fine.entries index).shared = some shared)
    (stepped : shared.step (move.label caller op) = some next)
    (returns : move = .leave → ∃ value, shared.returns caller = some value)
    (goes : move = .unlock → ∃ after value, next.step (.leave caller) = some after ∧
      next.returns caller = some value) :
    ∃ fine', ThreadedPool.queueStep numThreads fine caller move = some fine' := by
  obtain ⟨middle, first⟩ := queueMove_of_step move calls there stepped returns
  cases last : fine.lastUse numThreads caller move && !middle.fault with
  | false =>
    refine ⟨middle, ?_⟩
    simp only [ThreadedPool.queueStep, first, Option.bind_eq_bind, Option.bind_some, last]
    rfl
  | true =>
    obtain ⟨unlocks, unharmed⟩ := Bool.and_eq_true_iff.mp last
    obtain ⟨rfl, _⟩ := lastUse_unlock unlocks
    obtain ⟨after, value, leaves, returned⟩ := goes rfl
    have middle_eq : middle = fine.share index next := by
      simpa [queueMove, calls, there, stepped] using first.symm
    subst middle_eq
    obtain ⟨fine', second⟩ := queueMove_of_step .leave ((calling_share caller).trans calls)
      share_self leaves fun _ => ⟨value, returned⟩
    refine ⟨fine', ?_⟩
    simp only [ThreadedPool.queueStep, first, Option.bind_eq_bind, Option.bind_some, last]
    exact second

private theorem Seen.queue_moves (related : Seen numThreads fine pool)
    (there : (fine.entries index).shared = some shared) (moves : shared.CanMove) :
    ∃ caller move fine', move.own = true ∧
      ThreadedPool.queueStep numThreads fine caller move = some fine' := by
  obtain ⟨label, next, inside, stepped⟩ := moves
  obtain ⟨items, _, ⟨valid, path, results, owned⟩, _⟩ :=
    (related.entries index).present shared there
  have runs {caller place} (move : Move) (own : move.own = true)
      (ready : shared.place caller = place) (called : place ≠ .outside)
      (stepped : ∀ op, shared.step (move.label caller op) = some next)
      (returns : move = .leave → ∃ value, shared.returns caller = some value)
      (goes : move = .unlock → ∃ after value, next.step (.leave caller) = some after ∧
        next.returns caller = some value) :
      ∃ caller move fine', move.own = true ∧
        ThreadedPool.queueStep numThreads fine caller move = some fine' := by
    obtain ⟨op, calls, _⟩ := related.inCall index shared there caller (ready ▸ called)
    obtain ⟨fine', ran⟩ := queueStep_of_step move calls there (stepped op) returns goes
    exact ⟨caller, move, fine', own, ran⟩
  have taken := Threads.took stepped
  cases taken with
  | call | spurious => cases inside
  | lock free ready => exact runs .lock rfl ready (by simp) (fun _ => stepped) (by simp) (by simp)
  | @wait _ _ chosen ready _ | @finish _ _ _ _ _ chosen ready _ _ =>
    exact runs (.critical chosen) rfl ready (by simp) (fun _ => stepped) (by simp) (by simp)
  | @unlock caller ticket locals ready =>
    refine runs .unlock rfl ready (by simp) (fun _ => stepped) (by simp) fun _ => ?_
    have carries : (shared.place caller).carries = some (ticket, locals) := by
      simp [ready, Place.carries]
    obtain ⟨q, value, ended⟩ := owned.epilogue_runs carries
    exact ⟨_, value, by simp [Threads.step, ended]; rfl,
      by simp [Threads.returns, Place.carries, answer, ended]⟩
  | @leave _ ticket locals q value ready ended =>
    refine runs .leave rfl ready (by simp) (fun _ => stepped) (fun _ => ⟨value, ?_⟩) (by simp)
    simp [Threads.returns, ready, Place.carries, answer, ended]
  | @relock caller free called =>
    have waiting := (valid.waiting caller).mp (.inr called)
    exact runs .relock rfl waiting (by simp) (fun _ => stepped) (by simp) (by simp)

private theorem Seen.caller_mem (related : Seen numThreads fine pool)
    (valid : pool.PoolOk numThreads)
    (calls : fine.calling numThreads caller = some (index, op)) : caller ∈ callers numThreads := by
  cases caller with
  | owner => simp [callers]
  | worker i =>
    obtain ⟨ahead, pictured, _⟩ := related.threads i
    have born : (pool.slots i).thread ≠ .unborn := by
      intro unborn
      have place := pictured.settled.1 unborn
      simp [calling, place] at calls
    simpa [callers] using valid.inside born

theorem Seen.users (related : Seen numThreads fine pool) (valid : pool.PoolOk numThreads)
    (there : (fine.entries index).shared = some shared) (caller : Caller)
    (called : shared.place caller ≠ .outside) : caller ∈ callers numThreads := by
  obtain ⟨op, calls, _⟩ := related.inCall index shared there _ called
  exact related.caller_mem valid calls

/-- A thread that has to call a queue function, or is in one, moves there or
waits for another that does, unless it is parked. -/
theorem Seen.call_moves (related : Seen numThreads fine pool) (valid : pool.PoolOk numThreads)
    (calls : fine.calling numThreads caller = some (index, op))
    (there : (fine.entries index).shared = some shared) (awake : shared.view caller ≠ .parked) :
    ∃ caller move fine', move.own = true ∧
      ThreadedPool.queueStep numThreads fine caller move = some fine' := by
  obtain ⟨items, _, holds, _⟩ := (related.entries index).present shared there
  by_cases out : shared.place caller = .outside
  · obtain ⟨_, path, results, owned⟩ := holds
    obtain ⟨node, fresh⟩ := owned.exists_fresh _ (related.users valid there)
    obtain ⟨next, stepped⟩ := Threads.call_enabled out fresh op
    obtain ⟨fine', ran⟩ := queueStep_of_step (.call node) calls there stepped (by simp) (by simp)
    exact ⟨caller, .call node, fine', rfl, ran⟩
  · exact related.queue_moves there (holds.can_move out awake)

/-- Before `thread_pool_destroy` returns, some thread can move, be it to a fault. -/
theorem Seen.not_stuck (related : Seen numThreads fine pool) (valid : pool.PoolOk numThreads)
    (busy : fine.main ≠ .returned) :
    ∃ label fine', label.own = true ∧ ThreadedPool.step numThreads fine label = some fine' := by
  have bounds := valid.bounds
  have unharmed := related.sound.1
  suffices moves : (∃ fine', ThreadedPool.mainStep numThreads fine = some fine') ∨
      (∃ i entry, (fine.entries i).run = some entry) ∨
      ∃ caller move fine', move.own = true ∧
        ThreadedPool.queueStep numThreads fine caller move = some fine' by
    rcases moves with ⟨fine', moves⟩ | ⟨i, entry, moves⟩ | ⟨caller, move, fine', own, moves⟩
    · exact ⟨.main, fine', rfl, by simp [ThreadedPool.step, unharmed, moves]⟩
    · exact ⟨.worker i, fine.setEntry i entry, rfl,
        by simp [ThreadedPool.step, unharmed, moves]⟩
    · exact ⟨.queue caller move, fine', own, by simp [ThreadedPool.step, unharmed, moves]⟩
  have calls_move {caller index op} (calls : fine.calling numThreads caller = some (index, op))
      (awake : ∀ shared, (fine.entries index).shared = some shared →
        shared.view caller ≠ .parked) : ∃ caller move fine', move.own = true ∧
        ThreadedPool.queueStep numThreads fine caller move = some fine' := by
    cases there : (fine.entries index).shared with
    | none =>
      exact ⟨caller, .lock, { fine with fault := true }, rfl,
        by simp [ThreadedPool.queueStep, queueMove, calls, there, lastUse]⟩
    | some shared => exact related.call_moves valid calls there (awake shared there)
  have owner_awake {index : Nat} (shared) (there : (fine.entries index).shared = some shared) :
      shared.view .owner ≠ .parked := by
    intro parked
    cases (related.parked there parked).1
  cases place : fine.main with
  | creating i =>
    left
    by_cases more : i < numThreads <;> simp [ThreadedPool.mainStep, place, more]
  | adding =>
    left
    cases calls : fine.script with
    | nil => simp [ThreadedPool.mainStep, place, calls]
    | cons call rest =>
      cases found : fine.present (call.2 % numThreads) <;> simp [ThreadedPool.mainStep, place, calls, found]
  | enqueueing req index =>
    have calls : fine.calling numThreads .owner = some (index, .enqueue req) := by
      simp [calling, place]
    exact .inr (.inr (calls_move calls fun shared there => owner_awake shared there))
  | closing i =>
    by_cases more : i < numThreads
    · have calls : fine.calling numThreads .owner = some (i, .close) := by
        simp [calling, place, more]
      exact .inr (.inr (calls_move calls fun shared there => owner_awake shared there))
    · exact .inl ⟨_, by simp [ThreadedPool.mainStep, place, more]; rfl⟩
  | joining i =>
    by_cases more : i < numThreads
    · have idle : fine.calling numThreads .owner = none := by simp [calling, place]
      have here := (related.main_eq idle).trans place
      have phase : pool.main.phase numThreads i = .closed := by grind [MainPc.phase]
      have ok := valid.slots i
      rw [phase] at ok
      obtain ⟨ahead, pictured, _⟩ := related.threads i
      cases thread : (fine.entries i).thread with
      | exited => exact .inl ⟨_, by simp [ThreadedPool.mainStep, place, more, thread]; rfl⟩
      | unborn =>
        rw [thread] at pictured
        cases ok.unborn.mp (pictured.eq_pc rfl).1
      | dequeuing =>
        have calls : fine.calling numThreads (.worker i) = some (i, .dequeue) := by
          simp [calling, thread]
        refine .inr (.inr (calls_move calls fun shared there parked => ?_))
        -- the close woke this worker, and no step parks on a closed queue
        have asleep := (related.parked there parked).2.2
        obtain ⟨_, q, _, live, _⟩ := (related.entries i).present shared there
        obtain ⟨_, items, contents⟩ := ok.queue q live
        have opened := (contents.parked asleep).2
        rw [contents.closed] at opened
        cases opened
      | adding req nested target =>
        have calls : fine.calling numThreads (.worker i) = some (target, .enqueue nested) := by
          simp [calling, thread]
        refine .inr (.inr (calls_move calls fun shared there parked => ?_))
        obtain ⟨same, waits, _⟩ := related.parked there parked
        cases same
        cases thread.symm.trans waits
      | starting | working _ | freeing _ | exiting =>
        exact .inr (.inl ⟨i, _, by simp [Entry.run, thread]; rfl⟩)
    · exact .inl ⟨_, by simp [ThreadedPool.mainStep, place, more]; rfl⟩
  | draining i =>
    have idle : fine.calling numThreads .owner = none := by simp [calling, place]
    have here := (related.main_eq idle).trans place
    have inside : i < numThreads := by simpa [here, Pool.InBounds] using bounds
    have joined : pool.main.phase numThreads i = .joined := by grind [MainPc.phase]
    have ok := valid.slots i
    rw [joined] at ok
    obtain ⟨shared, there⟩ : ∃ shared, (fine.entries i).shared = some shared := by
      refine Option.ne_none_iff_exists'.mp fun missing => ?_
      cases (ok.absent ((related.entries i).absent missing)).1
    obtain ⟨items, q, ⟨_, path, results, owned⟩, live, settled, _⟩ :=
      (related.entries i).present shared there
    have draining : Draining shared.queue items := ⟨path, owned.shape.chain, owned.shape.data⟩
    left
    cases items with
    | nil => exact ⟨_, by simp [ThreadedPool.mainStep, place, there, draining.turn_empty]; rfl⟩
    | cons req rest =>
      obtain ⟨r, turn, _⟩ := draining.turn
      exact ⟨_, by simp [ThreadedPool.mainStep, place, there, turn]; rfl⟩
  | releasing i => exact .inl ⟨_, by simp [ThreadedPool.mainStep, place]; rfl⟩
  | finishing => exact .inl ⟨_, by simp [ThreadedPool.mainStep, place]; rfl⟩
  | returned => exact absurd place busy

end Progress

section Pace

variable {shared next : Threads Caller (Request Job)} {caller other : Caller}

/-- The silent steps a thread can take before one that is not silent, when what
follows its return counts as well. -/
def pace (shared : Threads Caller (Request Job)) (caller : Caller) : Nat :=
  match shared.place caller, shared.view caller with
  | .outside, _ => 2
  | .locking _, _ => 1
  | .inside _, _ => 0
  | .waiting, .woken => 1
  | .waiting, _ => 0
  | .unlocking _ _, _ => 4
  | .leaving _ _, _ => 3

def ahead (numThreads : Nat) (pool : ThreadedPool Job) (caller : Caller) : Nat :=
  match pool.calling numThreads caller with
  | none => 0
  | some (index, _) => ((pool.entries index).shared.map fun shared => pace shared caller).getD 0

/-- The silent steps that can be taken before one that is not silent. -/
def rank (numThreads : Nat) (pool : ThreadedPool Job) : Nat :=
  ∑ caller ∈ callers numThreads, pool.ahead numThreads caller

private theorem pace_le (shared : Threads Caller (Request Job)) (caller : Caller) :
    pace shared caller ≤ 4 := by
  unfold pace
  split <;> omega

private theorem rank_le (numThreads : Nat) (pool : ThreadedPool Job) :
    pool.rank numThreads ≤ 4 * (numThreads + 1) := by
  have each : ∀ caller ∈ callers numThreads, pool.ahead numThreads caller ≤ 4 := by
    intro caller _
    unfold ahead
    split
    · omega
    · rename_i index _ _
      cases (pool.entries index).shared with
      | none => simp
      | some shared => exact pace_le shared caller
  have few : (callers numThreads).card ≤ numThreads + 1 := by
    refine (Finset.card_insert_le _ _).trans (Nat.succ_le_succ ?_)
    exact Finset.card_image_le.trans (Finset.card_range numThreads).le
  calc pool.rank numThreads ≤ (callers numThreads).card * 4 := Finset.sum_le_card_nsmul _ _ _ each
    _ ≤ 4 * (numThreads + 1) := by omega

private theorem pace_congr (place : next.place other = shared.place other)
    (view : next.view other = shared.view other) : pace next other = pace shared other := by
  unfold pace
  rw [place, view]

private theorem ahead_share (there : (fine.entries index).shared = some shared)
    (place : next.place other = shared.place other) (view : next.view other = shared.view other) :
    (fine.share index next).ahead numThreads other = fine.ahead numThreads other := by
  unfold ahead
  rw [calling_share]
  split
  · rfl
  · rename_i k op _
    by_cases here : k = index
    · subst here
      rw [share_self, there, Option.map_some, Option.map_some, pace_congr place view]
    · rw [share_off here]

private theorem ahead_self (calls : fine.calling numThreads caller = some (index, op))
    (there : (fine.entries index).shared = some shared) :
    fine.ahead numThreads caller = pace shared caller := by
  simp [ahead, calls, there]

private theorem ahead_resume (fine : ThreadedPool Job) {value : Returned (Request Job)}
    (different : other ≠ caller) :
    (fine.resume value caller).ahead numThreads other = fine.ahead numThreads other := by
  cases caller with
  | owner =>
    cases other with
    | owner => exact (different rfl).elim
    | worker k => rfl
  | worker i =>
    have queues (k) : ((fine.resume value (.worker i)).entries k).shared =
        (fine.entries k).shared := by
      by_cases here : k = i
      · subst here
        simp [resume, setEntry, (fine.entries k).resume_kept value]
      · simp [resume, setEntry, here]
    have calls : (fine.resume value (.worker i)).calling numThreads other =
        fine.calling numThreads other := by
      cases other with
      | owner => rfl
      | worker k =>
        have apart : k ≠ i := fun equal => different (congrArg Caller.worker equal)
        simp [calling, resume, setEntry, apart]
    unfold ahead
    rw [calls]
    split
    · rfl
    · rw [queues]

private theorem Seen.ahead_left (related : Seen numThreads fine pool)
    {value : Returned (Request Job)}
    {result : Result (Request Job)} (next : Threads Caller (Request Job))
    (calls : fine.calling numThreads caller = some (index, op))
    (there : (fine.entries index).shared = some shared)
    (done : shared.view caller = .done (some result)) (agrees : value.Agrees result) :
    ((fine.share index next).resume value caller).ahead numThreads caller ≤ 2 := by
  unfold ahead
  cases goes : ((fine.share index next).resume value caller).calling numThreads caller with
  | none => simp
  | some call =>
    obtain ⟨target, again⟩ := call
    cases caller with
    | owner =>
      obtain ⟨rfl, _, _⟩ := next_call calls goes
      have same : (((fine.share index next).resume value .owner).entries (index + 1)).shared =
          (fine.entries (index + 1)).shared :=
        congrArg Entry.shared (share_off (Nat.succ_ne_self index))
      simp only [same]
      cases found : (fine.entries (index + 1)).shared with
      | none => simp
      | some users =>
        have out : users.place .owner = .outside := related.outside found (by simp [calls])
        simp [pace, out]
    | worker i =>
      obtain ⟨before, pictured, _⟩ := related.threads i
      rw [(seen_share_self next there calls).1, done] at pictured
      have thread := (share_thread fine index next i).1
      obtain ⟨free, _⟩ := ((fine.share index next).entries i).resume_pictured
        (thread.symm ▸ pictured) agrees (thread.symm ▸ inCall_of_calling calls)
      have returned : (((fine.share index next).resume value (.worker i)).entries i).thread.inCall =
          false := by
        simpa [resume, setEntry] using free
      cases goes.symm.trans (calling_free returned)

private theorem Seen.move_falls (related : Seen numThreads fine pool)
    (valid : pool.PoolOk numThreads)
    (taken : Moved numThreads fine caller move fine') (silent : move.silent = true)
    (sound : fine'.fault = false) : fine'.rank numThreads < fine.rank numThreads := by
  -- one thread has fewer silent steps ahead, the others as many as before
  have counted {index op} (calls : fine.calling numThreads caller = some (index, op))
      (others : ∀ other, other ≠ caller →
        fine'.ahead numThreads other = fine.ahead numThreads other)
      (fewer : fine'.ahead numThreads caller < fine.ahead numThreads caller) :
      fine'.rank numThreads < fine.rank numThreads := by
    refine Finset.sum_lt_sum (fun other _ => ?_) ⟨caller, related.caller_mem valid calls, fewer⟩
    by_cases same : other = caller
    · exact same ▸ fewer.le
    · exact (others other same).le
  have quiet {index shared next items view asked}
      (there : (fine.entries index).shared = some shared)
      (moved : Threads.Moved shared next items caller view asked) (other)
      (different : other ≠ caller) :
      (fine.share index next).ahead numThreads other = fine.ahead numThreads other :=
    ahead_share there (moved.others other different).1 (moved.others other different).2
  cases taken with
  | fault => cases sound
  | @stay index op shared next move calls there stepped inside =>
    obtain ⟨items, q, holds, live, settled, closed⟩ := (related.entries index).present shared there
    have outcome := holds.outcome (Threads.took stepped)
    have now := ahead_self calls there
    have after : (fine.share index next).ahead numThreads caller = pace next caller :=
      ahead_self ((calling_share caller).trans calls) share_self
    cases move with
    | critical | spurious => cases silent
    | leave => exact (inside rfl).elim
    | call node =>
      cases outcome with
      | call idle moved =>
        refine counted calls (quiet there moved) ?_
        rw [now, after]
        cases Threads.took stepped with
        | call => simp [pace, idle]
    | lock =>
      cases outcome with
      | lock before moved =>
        refine counted calls (quiet there moved) ?_
        rw [now, after]
        cases Threads.took stepped with
        | lock free ready => simp [pace, ready]
    | unlock =>
      cases outcome with
      | unlock done moved =>
        refine counted calls (quiet there moved) ?_
        rw [now, after]
        cases Threads.took stepped with
        | unlock ready => simp [pace, ready]
    | relock =>
      cases outcome with
      | relock woken moved =>
        refine counted calls (quiet there moved) ?_
        rw [now, after]
        cases Threads.took stepped with
        | relock free called =>
          have waiting := (holds.1.waiting caller).mp (.inr called)
          simp [pace, waiting, woken]
  | @leave index op shared next value calls there stepped returned =>
    obtain ⟨items, q, holds, live, settled, closed⟩ := (related.entries index).present shared there
    cases holds.outcome (Threads.took stepped) with
    | leave done answered agrees moved out =>
      cases answered.symm.trans returned
      refine counted calls (fun other different => ?_) ?_
      · rw [ahead_resume _ different]
        exact quiet there moved other different
      · have left := related.ahead_left next calls there done agrees
        have still : pace shared caller = 3 := by
          cases Threads.took stepped with
          | leave ready _ => simp [pace, ready]
        have now := ahead_self calls there
        omega

private theorem Seen.silent_falls (related : Seen numThreads fine pool)
    (valid : pool.PoolOk numThreads)
    (taken : ThreadedPool.queueStep numThreads fine caller move = some fine')
    (silent : move.silent = true) (sound : fine'.fault = false) :
    fine'.rank numThreads < fine.rank numThreads := by
  rcases queueStepped taken with single | ⟨_, middle, unharmed, unlocks, leaves⟩
  · exact related.move_falls valid single silent sound
  · have between := related.silentMove valid unlocks unharmed rfl
    exact (between.move_falls valid leaves rfl sound).trans
      (related.move_falls valid unlocks rfl unharmed)

end Pace

/-- `thread_pool_destroy` has returned, or a thread has used an object that was
freed. -/
def Finished (pool : ThreadedPool Job) : Prop :=
  pool.main = .returned ∨ pool.fault = true

/-- Each step of the coarse pool pays for the silent steps that follow it. -/
def Ranks (numThreads : Nat) (fine : ThreadedPool Job) (rank : Nat) : Prop :=
  fine.fault = true ∨ ∃ pool, Seen numThreads fine pool ∧ pool.Alive numThreads ∧
    rank = (4 * numThreads + 5) * pool.work numThreads + fine.rank numThreads + 1

private theorem silent_own {label : Label Job} (silent : label.silent = true) :
    label.own = true := by
  cases label with
  | queue caller move => cases move <;> first | rfl | cases silent
  | main | worker _ => rfl
  | nestedAdd _ _ _ => cases silent

/-- What the coarse pool still has to do, with the silent steps in between,
bounds what is left to do here. -/
theorem ranking (positive : 0 < numThreads) :
    Transition.Ranking (ThreadedPool.step numThreads)
      (fun fine : ThreadedPool Job => Ranks numThreads fine) Label.own
      (7 * (4 * numThreads + 5)) where
  falls := by
    intro fine label next rank ranks own taken
    have unharmed := step_unharmed taken
    obtain ⟨pool, related, alive, rfl⟩ := ranks.resolve_left (by simp [unharmed])
    have valid := (alive related.sound.2).1
    cases sound : next.fault with
    | true => exact ⟨0, .inl sound, by omega⟩
    | false =>
      rcases related.step valid positive taken sound with
        ⟨silent, same⟩ | ⟨coarse, pool', follows, moves, agree⟩
      · refine ⟨_, .inr ⟨pool, same, alive, rfl⟩, ?_⟩
        have fewer : next.rank numThreads < fine.rank numThreads := by
          cases label with
          | queue caller move =>
            simp only [ThreadedPool.step, unharmed] at taken
            exact related.silent_falls valid taken silent sound
          | main | worker _ | nestedAdd _ _ _ => cases silent
        omega
      · refine ⟨_, .inr ⟨pool', agree, alive.step positive moves, rfl⟩, ?_⟩
        have kind : coarse.own = true := by
          rcases follows with follows | ⟨i, job, rand, rfl, _⟩
          · exact follows.own.trans own
          · cases own
        have lower := (Pool.work_variant positive).falls alive kind moves
        have few := rank_le numThreads next
        have paid := Nat.mul_le_mul_left (4 * numThreads + 5) (Nat.succ_le_of_lt lower)
        rw [Nat.mul_succ] at paid
        omega
  rises := by
    intro fine label next rank ranks free taken
    have unharmed := step_unharmed taken
    obtain ⟨pool, related, alive, rfl⟩ := ranks.resolve_left (by simp [unharmed])
    have valid := (alive related.sound.2).1
    cases sound : next.fault with
    | true => exact ⟨0, .inl sound, by omega⟩
    | false =>
      rcases related.step valid positive taken sound with
        ⟨silent, same⟩ | ⟨coarse, pool', follows, moves, agree⟩
      · cases (silent_own silent).symm.trans free
      · refine ⟨_, .inr ⟨pool', agree, alive.step positive moves, rfl⟩, ?_⟩
        have kind : coarse.own = false := by
          rcases follows with follows | ⟨i, job, rand, _, rfl⟩
          · exact follows.own.trans free
          · rfl
        have higher := (Pool.work_variant positive).rises alive kind moves
        have few := rank_le numThreads next
        have paid := Nat.mul_le_mul_left (4 * numThreads + 5) higher
        rw [Nat.mul_add] at paid
        omega

/-- By itself the library starts no call of `thread_pool_add` in a work function,
and without such a call it uses nothing that was freed. -/
theorem Tracked.plain_run (tracked : Tracked numThreads fine) (positive : 0 < numThreads)
    (plain : fine.Drawn fun _ _ => False) {labels : List (Label Job)}
    (owned : ∀ label ∈ labels, label.own = true)
    (ran : Transition.run (ThreadedPool.step numThreads) fine labels = some fine') :
    fine'.fault = false := by
  have invariant : Transition.Invariant (ThreadedPool.step numThreads)
      (fun label => label.own = true) fine
      (fun state => state.fault = false ∧ Tracked numThreads state ∧ state.Drawn fun _ _ => False)
      := by
    obtain ⟨_, _, related, _⟩ := id tracked
    refine ⟨⟨related.sound.1, tracked, plain⟩, ?_⟩
    rintro state label next ⟨_, now, idle⟩ own taken
    obtain ⟨_, pool, related, alive⟩ := id now
    have draws : ∀ permits : Nat → Nat → Prop, label.Draws numThreads permits := by
      intro permits
      cases label <;> trivial
    have sound := related.no_fault (alive related.sound.2).1 (idle.mono fun _ _ => False.elim)
      positive (draws _) taken
    exact ⟨sound, now.step positive taken sound, idle.step (draws _) taken⟩
  exact (invariant.run owned ran).1

end ThreadedPool

end RequestProxy.Librequest
