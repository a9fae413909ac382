import RequestProxy.Librequest.PoolSimulation
import RequestProxy.Librequest.PoolTermination

namespace RequestProxy.Librequest

open RequestProxy.Abstract

variable {Job : Type} {numThreads : Nat}

namespace ThreadedPool

variable {fine fine' : ThreadedPool Job} {pool pool' : Pool Job}

section Share

variable {shared next : Threads Caller (Request Job)} {caller other : Caller}

theorem share_thread (fine : ThreadedPool Job) (index : Nat)
    (next : Threads Caller (Request Job)) (k : Nat) :
    ((fine.share index next).entries k).thread = (fine.entries k).thread ∧
      ((fine.share index next).entries k).executed = (fine.entries k).executed := by
  by_cases here : k = index
  · subst here
    simp [share, setEntry]
  · simp [share, setEntry, here]

theorem share_self : ((fine.share index next).entries index).shared = some next := by
  simp [share, setEntry]

theorem share_off (different : k ≠ index) :
    (fine.share index next).entries k = fine.entries k := by
  simp [share, setEntry, different]

theorem calling_share (other : Caller) :
    (fine.share index next).calling numThreads other = fine.calling numThreads other := by
  cases other with
  | owner => rfl
  | worker k => simp only [calling, (share_thread _ _ _ k).1]

theorem seen_share_self (next : Threads Caller (Request Job))
    (there : (fine.entries index).shared = some shared)
    (calls : fine.calling numThreads caller = some (index, op)) :
    fine.seen numThreads caller = some (shared.view caller) ∧
      (fine.share index next).seen numThreads caller = some (next.view caller) := by
  constructor
  · simp only [seen, calls, there, Option.map_some]
  · simp only [seen, calling_share, calls, share_self, Option.map_some]

private theorem seen_share (there : (fine.entries index).shared = some shared) (other : Caller) :
    ((∃ op, fine.calling numThreads other = some (index, op)) ∧
      fine.seen numThreads other = some (shared.view other) ∧
      (fine.share index next).seen numThreads other = some (next.view other)) ∨
    (fine.share index next).seen numThreads other = fine.seen numThreads other := by
  by_cases calls : ∃ op, fine.calling numThreads other = some (index, op)
  · obtain ⟨op, calls⟩ := calls
    exact .inl ⟨⟨op, calls⟩, seen_share_self next there calls⟩
  · right
    refine seen_congr (calling_share other) fun k op called => ?_
    have different : k ≠ index := by
      rintro rfl
      exact calls ⟨op, called⟩
    rw [share_off different]

private theorem seen_share_same (there : (fine.entries index).shared = some shared)
    (same : next.view other = shared.view other) :
    (fine.share index next).seen numThreads other = fine.seen numThreads other := by
  rcases seen_share there other with ⟨_, before, after⟩ | kept
  · rw [before, after, same]
  · exact kept

/-- A step inside a queue function, with a coarse pool that has taken the step
that it stands for. -/
theorem Seen.shares (related : Seen numThreads fine pool)
    (calls : fine.calling numThreads caller = some (index, op))
    (there : (fine.entries index).shared = some shared)
    (places : ∀ other, other ≠ caller → next.place other = shared.place other)
    (asks : ∀ asked, (next.place caller).asks = some asked → asked = op)
    (sound : pool'.fault = false) (allocated : pool'.allocated = pool.allocated)
    (script : pool'.script = pool.script) (requests : pool'.requests = pool.requests)
    (drained : pool'.drained = pool.drained)
    (main : Portrays fine.main ((fine.share index next).seen numThreads .owner) pool'.main)
    (threads : ∀ k, ∃ ahead, Pictures (fine.entries k).thread
      ((fine.share index next).seen numThreads (.worker k)) (pool'.slots k).thread ahead ∧
      (pool'.slots k).executed = (fine.entries k).executed ++ ahead)
    (mirrors : ∀ k, ((fine.share index next).entries k).Mirrors (pool'.slots k)) :
    Seen numThreads (fine.share index next) pool' := by
  refine ⟨⟨related.sound.1, sound⟩, allocated.trans related.allocated,
    script.trans related.script, requests.trans related.requests, drained.trans related.drained,
    main, ?_, mirrors, ?_⟩
  · intro k
    rw [(share_thread _ _ _ k).1, (share_thread _ _ _ k).2]
    exact threads k
  · intro k users found other inside
    rw [calling_share]
    by_cases here : k = index
    · subst here
      have same : next = users := Option.some.inj (share_self.symm.trans found)
      subst same
      by_cases self : other = caller
      · subst self
        exact ⟨op, calls, asks⟩
      · rw [places other self] at inside ⊢
        exact related.inCall k shared there other inside
    · exact related.inCall k users (share_off here ▸ found) other inside

private theorem mirrors_share {slot : Slot Job} {items : List (Request Job)}
    (worker : slot.worker = (fine.entries index).worker)
    (freed : slot.freed = (fine.entries index).freed)
    (processed : slot.processed = (fine.entries index).processed) (holds : next.Holds items)
    (queue : slot.queue = some q) (settled : Settled q items)
    (closed : q.closed = next.queue.closed) :
    ((fine.share index next).entries index).Mirrors slot := by
  simp only [ThreadedPool.share, setEntry, Function.update_self]
  refine ⟨worker, freed, processed, by simp, ?_⟩
  rintro users ⟨⟩
  exact ⟨items, q, holds, queue, settled, closed⟩

/-- A step that changes no view and no item is none of the coarse pool. -/
theorem Seen.stays (related : Seen numThreads fine pool) {items : List (Request Job)}
    (calls : fine.calling numThreads caller = some (index, op))
    (there : (fine.entries index).shared = some shared)
    (live : (pool.slots index).queue = some q) (settled : Settled q items)
    (closed : q.closed = shared.queue.closed)
    (moved : Threads.Moved shared next items caller view asked)
    (asks : ∀ asks, asked = some asks → asks = op)
    (pictured : ∀ k, caller = .worker k → ∀ ahead,
      Pictures (fine.entries k).thread (some (shared.view caller)) (pool.slots k).thread ahead →
      Pictures (fine.entries k).thread (some view) (pool.slots k).thread ahead)
    (portrayed : caller = .owner → Portrays fine.main (some (shared.view caller)) pool.main →
      Portrays fine.main (some view) pool.main) :
    Seen numThreads (fine.share index next) pool := by
  have mirrors := related.entries
  refine related.shares calls there (fun other different => (moved.others other different).1)
    (fun asked found => asks asked (moved.asks ▸ found)) related.sound.2 rfl rfl rfl rfl ?_ ?_ ?_
  · by_cases self : caller = .owner
    · subst self
      have views := seen_share_self next there calls
      rw [views.2, moved.view]
      exact portrayed rfl (views.1 ▸ related.main)
    · rw [seen_share_same there (moved.others .owner (Ne.symm self)).2]
      exact related.main
  · intro k
    obtain ⟨ahead, before, executed⟩ := related.threads k
    refine ⟨ahead, ?_, executed⟩
    by_cases self : caller = .worker k
    · subst self
      have views := seen_share_self next there calls
      rw [views.2, moved.view]
      exact pictured k rfl ahead (views.1 ▸ before)
    · rw [seen_share_same there (moved.others (.worker k) (Ne.symm self)).2]
      exact before
  · intro k
    by_cases here : k = index
    · subst here
      exact mirrors_share (mirrors k).worker (mirrors k).freed (mirrors k).processed moved.holds
        live settled (closed.trans moved.closed.symm)
    · rw [share_off here]
      exact mirrors k

/-- When a call returns, its thread is outside of every queue function, and the
others are where they were. -/
theorem Seen.inside (related : Seen numThreads fine pool)
    (calls : fine.calling numThreads caller = some (index, op))
    (there : (fine.entries index).shared = some shared)
    (places : ∀ other, other ≠ caller → next.place other = shared.place other)
    (out : next.place caller = .outside) {users : Threads Caller (Request Job)}
    (found : ((fine.share index next).entries k).shared = some users)
    (within : users.place other ≠ .outside) :
    other ≠ caller ∧ ∃ op, fine.calling numThreads other = some (k, op) ∧
      ∀ asked, (users.place other).asks = some asked → asked = op := by
  by_cases here : k = index
  · subst here
    have same : next = users := Option.some.inj (share_self.symm.trans found)
    subst same
    have different : other ≠ caller := by
      rintro rfl
      exact within out
    rw [places other different] at within ⊢
    exact ⟨different, related.inCall k shared there other within⟩
  · rw [share_off here] at found
    refine ⟨?_, related.inCall k users found other within⟩
    rintro rfl
    obtain ⟨_, elsewhere, _⟩ := related.inCall k users found other within
    cases calls.symm.trans elsewhere
    exact here rfl

/-- The owner goes on to call another queue only in the loop that closes them. -/
theorem next_call {value : Returned (Request Job)}
    (calls : fine.calling numThreads .owner = some (index, op))
    (goes : ((fine.share index next).resume value .owner).calling numThreads .owner =
      some (target, again)) :
    target = index + 1 ∧ index + 1 < numThreads ∧ fine.main.resume = .closing (index + 1) := by
  simp only [calling] at calls
  split at calls
  · rename_i req place
    simp [calling, resume, ThreadedPool.share, setEntry, place, MainPc.resume] at goes
  · rename_i i place
    simp only [Option.ite_none_right_eq_some, Option.some.injEq, Prod.mk.injEq] at calls
    obtain ⟨_, rfl, _⟩ := calls
    simp only [calling, resume, ThreadedPool.share, setEntry, place, MainPc.resume,
      Option.ite_none_right_eq_some, Option.some.injEq, Prod.mk.injEq] at goes
    exact ⟨goes.2.1.symm, goes.1, by rw [place, MainPc.resume]⟩
  · cases calls

theorem Seen.returns (related : Seen numThreads fine pool) (valid : pool.PoolOk numThreads)
    {items : List (Request Job)} {result : Result (Request Job)} {value : Returned (Request Job)}
    (calls : fine.calling numThreads .owner = some (index, op))
    (there : (fine.entries index).shared = some shared)
    (live : (pool.slots index).queue = some q) (settled : Settled q items)
    (closed : q.closed = shared.queue.closed)
    (moved : Threads.Moved shared next items .owner .before none)
    (out : next.place .owner = .outside) (done : shared.view .owner = .done (some result)) :
    Seen numThreads ((fine.share index next).resume value .owner) pool := by
  have portrayed := related.main
  rw [(seen_share_self next there calls).1, done] at portrayed
  have ahead := portrayed.eq_of_done
  have places (other) (different : other ≠ Caller.owner) := (moved.others other different).1
  have workers (k) : ((fine.share index next).resume value .owner).calling numThreads (.worker k) =
      fine.calling numThreads (.worker k) := calling_share (.worker k)
  refine ⟨related.sound, related.allocated, related.script, related.requests, related.drained, ?_,
    ?_, ?_, ?_⟩
  · have before : ((fine.share index next).resume value .owner).seen numThreads .owner =
        some .before := by
      cases goes : ((fine.share index next).resume value .owner).calling numThreads .owner with
      | none => exact seen_none goes
      | some call =>
        -- only `thread_pool_destroy` goes from one call to the next
        obtain ⟨target, again⟩ := call
        obtain ⟨rfl, more, closing⟩ := next_call calls goes
        have phase : pool.main.phase numThreads (index + 1) = .opened := by
          simp [ahead, closing, MainPc.phase, Nat.not_le.mpr more]
        obtain ⟨users, found⟩ := Option.ne_none_iff_exists'.mp (related.shared_opened valid phase)
        have kept : (((fine.share index next).resume value .owner).entries (index + 1)).shared =
            some users :=
          (congrArg Entry.shared (share_off (Nat.succ_ne_self index))).trans found
        exact seen_entered goes kept (related.outside found (by simp [calls]))
    rw [before, ahead]
    exact .before
  · intro k
    have same : ((fine.share index next).resume value .owner).seen numThreads (.worker k) =
        fine.seen numThreads (.worker k) :=
      seen_share_same there (moved.others (.worker k) (by simp)).2
    rw [same]
    obtain ⟨before, pictured, executed⟩ := related.threads k
    refine ⟨before, ?_, ?_⟩
    · exact (share_thread fine index next k).1 ▸ pictured
    · exact (share_thread fine index next k).2 ▸ executed
  · intro k
    by_cases here : k = index
    · subst here
      have mirrors := related.entries k
      exact mirrors_share mirrors.worker mirrors.freed mirrors.processed moved.holds live settled
        (closed.trans moved.closed.symm)
    · have off : ((fine.share index next).resume value .owner).entries k = fine.entries k :=
        share_off here
      rw [off]
      exact related.entries k
  · intro k users found other within
    obtain ⟨different, op, called, asks⟩ := related.inside calls there places out found within
    cases other with
    | owner => exact (different rfl).elim
    | worker i => exact ⟨op, (workers i).trans called, asks⟩

private theorem Seen.resumes (related : Seen numThreads fine pool) {items : List (Request Job)}
    {result : Result (Request Job)} {value : Returned (Request Job)}
    (calls : fine.calling numThreads (.worker i) = some (index, op))
    (there : (fine.entries index).shared = some shared)
    (live : (pool.slots index).queue = some q) (settled : Settled q items)
    (closed : q.closed = shared.queue.closed)
    (moved : Threads.Moved shared next items (.worker i) .before none)
    (out : next.place (.worker i) = .outside)
    (done : shared.view (.worker i) = .done (some result)) (agrees : value.Agrees result) :
    Seen numThreads ((fine.share index next).resume value (.worker i)) pool := by
  obtain ⟨ahead, pictured, executed⟩ := related.threads i
  rw [(seen_share_self next there calls).1, done] at pictured
  have places (other) (different : other ≠ Caller.worker i) := (moved.others other different).1
  have entry_at : ((fine.share index next).resume value (.worker i)).entries i =
      ((fine.share index next).entries i).resume value := Function.update_self ..
  have entry_off {k} (different : k ≠ i) :
      ((fine.share index next).resume value (.worker i)).entries k =
        (fine.share index next).entries k := Function.update_of_ne different ..
  have thread := share_thread fine index next
  have called : ((fine.share index next).entries i).thread.inCall = true := by
    rw [(thread i).1]
    exact inCall_of_calling calls
  obtain ⟨free, same, taken⟩ := Entry.resume_pictured ((thread i).1.symm ▸ pictured) agrees called
  obtain ⟨worker, users, freed, processed⟩ :=
    ((fine.share index next).entries i).resume_kept value
  have queues (k) : (((fine.share index next).resume value (.worker i)).entries k).shared =
      ((fine.share index next).entries k).shared := by
    by_cases here : k = i
    · rw [here, entry_at, users]
    · rw [entry_off here]
  have callers (other) (different : other ≠ Caller.worker i) :
      ((fine.share index next).resume value (.worker i)).calling numThreads other =
        (fine.share index next).calling numThreads other := by
    cases other with
    | owner => rfl
    | worker k =>
      have apart : k ≠ i := fun equal => different (congrArg Caller.worker equal)
      simp only [calling, entry_off apart]
  have views (other) (different : other ≠ Caller.worker i) :
      ((fine.share index next).resume value (.worker i)).seen numThreads other =
        fine.seen numThreads other :=
    (seen_congr (callers other different) fun k _ _ => queues k).trans
      (seen_share_same there (moved.others other different).2)
  refine ⟨related.sound, related.allocated, related.script, related.requests, related.drained, ?_,
    ?_, ?_, ?_⟩
  · rw [views .owner (by simp)]
    exact related.main
  · intro k
    by_cases here : k = i
    · subst here
      rw [entry_at]
      refine ⟨[], same ▸ .of_free free, ?_⟩
      rw [executed, taken, (thread k).2, List.append_nil]
    · rw [views (.worker k) (by simp [here]), entry_off here, (thread k).1, (thread k).2]
      exact related.threads k
  · intro k
    have mirrors : ((fine.share index next).entries k).Mirrors (pool.slots k) := by
      have before := related.entries k
      by_cases here : k = index
      · subst here
        exact mirrors_share before.worker before.freed before.processed moved.holds live settled
          (closed.trans moved.closed.symm)
      · rwa [share_off here]
    by_cases here : k = i
    · subst here
      rw [entry_at]
      exact ⟨mirrors.worker.trans worker.symm, mirrors.freed.trans freed.symm,
        mirrors.processed.trans processed.symm, fun missing => mirrors.absent (users ▸ missing),
        fun found present => mirrors.present found (users ▸ present)⟩
    · rw [entry_off here]
      exact mirrors
  · intro k found present other within
    rw [queues k] at present
    obtain ⟨different, op, called, asks⟩ :=
      related.inside calls there places out present within
    exact ⟨op, (callers other different).trans ((calling_share other).trans called), asks⟩

theorem Seen.parked (related : Seen numThreads fine pool)
    (there : (fine.entries index).shared = some shared) (asleep : shared.view other = .parked) :
    other = .worker index ∧ (fine.entries index).thread = .dequeuing ∧
      (pool.slots index).thread = .parked := by
  have inside : shared.place other ≠ .outside := by
    intro out
    cases (view_outside out).symm.trans asleep
  obtain ⟨op, calls, _⟩ := related.inCall index shared there other inside
  have sees := (seen_share_self shared there calls).1
  rw [asleep] at sees
  cases other with
  | owner =>
    have portrayed := related.main
    rw [sees] at portrayed
    cases portrayed
  | worker k =>
    obtain ⟨ahead, pictured, _⟩ := related.threads k
    rw [sees] at pictured
    obtain ⟨place, thread⟩ := pictured.of_parked (inCall_of_calling calls)
    simp only [calling, place, Option.some.injEq, Prod.mk.injEq] at calls
    obtain ⟨rfl, _⟩ := calls
    exact ⟨rfl, place, thread⟩

theorem Seen.asleep (related : Seen numThreads fine pool)
    (there : (fine.entries index).shared = some shared)
    (parked : (pool.slots index).thread = .parked) : shared.view (.worker index) = .parked := by
  obtain ⟨ahead, pictured, _⟩ := related.threads index
  obtain ⟨place, sees⟩ := pictured.is_parked parked
  have calls : fine.calling numThreads (.worker index) = some (index, .dequeue) := by
    simp [calling, place]
  rw [(seen_share_self shared there calls).1] at sees
  exact Option.some.inj sees

private theorem wake_of_awake {thread : WorkerPc Job} (awake : thread ≠ .parked) :
    thread.wake = thread := by
  cases thread <;> first | rfl | exact (awake rfl).elim

/-- The end of a critical section wakes the worker that waits in both pools or
in none. -/
theorem Seen.woken (related : Seen numThreads fine pool)
    (there : (fine.entries index).shared = some shared)
    (ended : Threads.Ended shared next left caller chosen result) (different : .worker k ≠ caller)
    (pictured : Pictures (fine.entries k).thread (fine.seen numThreads (.worker k))
      (pool.slots k).thread ahead) :
    Pictures (fine.entries k).thread ((fine.share index next).seen numThreads (.worker k))
      (if k = index ∧ wakes result = true then (pool.slots k).thread.wake
        else (pool.slots k).thread) ahead := by
  by_cases called : .worker k ∈ chosen
  · have asleep := ended.parked (.worker k) called
    obtain ⟨same, place, thread⟩ := related.parked there asleep
    obtain rfl : k = index := Caller.worker.inj same
    have woke : wakes result = true := by
      by_contra silent
      rw [ended.silent (Bool.eq_false_iff.mpr silent)] at called
      cases called
    have calls : fine.calling numThreads (.worker k) = some (k, .dequeue) := by
      simp [calling, place]
    have views := seen_share_self next there calls
    rw [views.1, asleep, thread, place] at pictured
    rw [views.2, (ended.others (.worker k) different).2, if_pos called, if_pos ⟨rfl, woke⟩, thread,
      place]
    cases pictured
    exact .woken
  · have same := (ended.others (.worker k) different).2
    rw [if_neg called] at same
    rw [seen_share_same there same]
    split
    · rename_i here
      obtain ⟨rfl, woke⟩ := here
      have awake : (pool.slots k).thread ≠ .parked := by
        intro parked
        obtain ⟨other, member⟩ := ended.woke woke _ (related.asleep there parked)
        have only := (related.parked there (ended.parked other member)).1
        exact called (only ▸ member)
      rwa [wake_of_awake awake]
    · exact pictured

/-- What the end of a critical section does to the coarse pool, apart from the
thread that it is the end of. -/
structure Finishes (pool pool' : Pool Job) (index : Nat) (caller : Caller)
    (left : List (Request Job)) (closed : Bool) (result : Result (Request Job)) : Prop where
  sound : pool'.fault = false
  allocated : pool'.allocated = pool.allocated
  script : pool'.script = pool.script
  requests : pool'.requests = pool.requests
  drained : pool'.drained = pool.drained
  main : caller ≠ .owner → pool'.main = pool.main
  threads : ∀ k, Caller.worker k ≠ caller →
    (pool'.slots k).thread = (if k = index ∧ wakes result = true then (pool.slots k).thread.wake
      else (pool.slots k).thread) ∧ (pool'.slots k).executed = (pool.slots k).executed
  records : ∀ k, (pool'.slots k).worker = (pool.slots k).worker ∧
    (pool'.slots k).freed = (pool.slots k).freed ∧
    (pool'.slots k).processed = (pool.slots k).processed
  queue : ∃ q, (pool'.slots index).queue = some q ∧ Settled q left ∧ q.closed = closed
  queues : ∀ k, k ≠ index → (pool'.slots k).queue = (pool.slots k).queue

/-- The end of a critical section is the call of the coarse pool. -/
theorem Seen.finishes (related : Seen numThreads fine pool)
    (calls : fine.calling numThreads caller = some (index, op))
    (there : (fine.entries index).shared = some shared)
    (ended : Threads.Ended shared next left caller chosen result)
    (done : Finishes pool pool' index caller left next.queue.closed result)
    (main : caller = .owner → Portrays fine.main (some (.done (some result))) pool'.main)
    (own : ∀ k, caller = .worker k → ∃ ahead,
      Pictures (fine.entries k).thread (some (.done (some result))) (pool'.slots k).thread ahead ∧
      (pool'.slots k).executed = (fine.entries k).executed ++ ahead) :
    Seen numThreads (fine.share index next) pool' := by
  have self := (seen_share_self next there calls).2
  rw [ended.view] at self
  refine related.shares calls there (fun other different => (ended.others other different).1)
    (fun asked found => ?_) done.sound done.allocated done.script done.requests done.drained ?_ ?_ ?_
  · cases ended.asks.symm.trans found
  · by_cases owner : caller = .owner
    · subst owner
      rw [self]
      exact main rfl
    · have awake : Caller.owner ∉ chosen := by
        intro called
        cases (related.parked there (ended.parked .owner called)).1
      have same := (ended.others .owner (Ne.symm owner)).2
      rw [if_neg awake] at same
      rw [seen_share_same there same, done.main owner]
      exact related.main
  · intro k
    by_cases here : .worker k = caller
    · subst here
      rw [self]
      exact own k rfl
    · obtain ⟨ahead, pictured, executed⟩ := related.threads k
      obtain ⟨thread, same⟩ := done.threads k here
      exact ⟨ahead, thread ▸ related.woken there ended here pictured, same ▸ executed⟩
  · intro k
    have mirrors := related.entries k
    obtain ⟨worker, freed, processed⟩ := done.records k
    by_cases here : k = index
    · subst here
      obtain ⟨q, live, settled, closed⟩ := done.queue
      exact mirrors_share (worker.trans mirrors.worker) (freed.trans mirrors.freed)
        (processed.trans mirrors.processed) ended.holds live settled closed
    · rw [share_off here]
      exact ⟨worker.trans mirrors.worker, freed.trans mirrors.freed,
        processed.trans mirrors.processed, fun missing => (done.queues k here).trans
          (mirrors.absent missing), fun users found => (done.queues k here) ▸
          mirrors.present users found⟩

private theorem enqueue_performed (slot : Slot Job) {q : Queue (Request Job)}
    (settled : Settled q items)
    (performed : Fifo.perform ⟨items, q.closed⟩ (.enqueue req) = some (⟨left, closed⟩, result)) :
    ∃ node after r, slot.enqueue q node req = some after ∧ after.queue = some r ∧
      Settled r left ∧ r.closed = closed ∧ after.worker = slot.worker ∧
      after.executed = slot.executed ∧ after.freed = slot.freed ∧
      after.processed = slot.processed ∧
      after.thread = (if wakes result = true then slot.thread.wake else slot.thread) := by
  obtain ⟨node, r, accepted, ran⟩ := settled.enqueue_enabled req
  obtain ⟨rfl, same, holds⟩ := settled.enqueue ran
  refine ⟨node, ?_⟩
  simp only [Fifo.perform] at performed
  split at performed
  · rename_i shut
    cases performed
    simp only [shut, if_true] at holds
    refine ⟨{ slot with queue := some r }, r, ?_, rfl, holds, same.trans rfl, rfl, rfl, rfl, rfl, rfl⟩
    simp [Slot.enqueue, ran, shut]
  · rename_i opened
    cases performed
    simp only [opened] at holds
    refine ⟨{ slot with
      queue := some r
      accepted := slot.accepted ++ [req]
      thread := slot.thread.wake }, r, ?_, rfl, holds, same.trans rfl, rfl, rfl, rfl, rfl, rfl⟩
    simp [Slot.enqueue, ran, opened]

theorem Finishes.single {slot : Slot Job} (slots : pool'.slots = Function.update pool.slots index slot)
    (sound : pool'.fault = false) (allocated : pool'.allocated = pool.allocated)
    (script : pool'.script = pool.script) (requests : pool'.requests = pool.requests)
    (drained : pool'.drained = pool.drained) (main : caller ≠ .owner → pool'.main = pool.main)
    (thread : Caller.worker index ≠ caller → slot.thread =
      (if wakes result = true then (pool.slots index).thread.wake else (pool.slots index).thread) ∧
      slot.executed = (pool.slots index).executed)
    (records : slot.worker = (pool.slots index).worker ∧ slot.freed = (pool.slots index).freed ∧
      slot.processed = (pool.slots index).processed)
    (queue : ∃ q, slot.queue = some q ∧ Settled q left ∧ q.closed = closed) :
    Finishes pool pool' index caller left closed result := by
  have here : pool'.slots index = slot := by rw [slots, Function.update_self]
  have off {k} (different : k ≠ index) : pool'.slots k = pool.slots k := by
    rw [slots, Function.update_of_ne different]
  refine ⟨sound, allocated, script, requests, drained, main, ?_, ?_, here ▸ queue, ?_⟩
  · intro k apart
    by_cases same : k = index
    · subst same
      rw [here]
      simpa using thread apart
    · rw [off same]
      simp [same]
  · intro k
    by_cases same : k = index
    · subst same
      rw [here]
      exact records
    · rw [off same]
      exact ⟨rfl, rfl, rfl⟩
  · intro k different
    rw [off different]

private theorem calling_dequeue (calls : fine.calling numThreads caller = some (index, .dequeue)) :
    caller = .worker index ∧ (fine.entries index).thread = .dequeuing := by
  cases caller with
  | owner =>
    simp only [calling] at calls
    split at calls
    · cases calls
    · split at calls <;> cases calls
    · cases calls
  | worker i =>
    simp only [calling] at calls
    split at calls
    · rename_i place
      cases calls
      exact ⟨rfl, place⟩
    · cases calls
    · cases calls

private theorem calling_enqueue
    (calls : fine.calling numThreads (.worker i) = some (index, .enqueue nested)) :
    ∃ req, (fine.entries i).thread = .adding req nested index := by
  simp only [calling] at calls
  split at calls
  · cases calls
  · rename_i req other target place
    cases calls
    exact ⟨req, place⟩
  · cases calls

private theorem Seen.enqueues (related : Seen numThreads fine pool) {q : Queue (Request Job)}
    (calls : fine.calling numThreads .owner = some (index, .enqueue req))
    (there : (fine.entries index).shared = some shared) (before : shared.view .owner = .before)
    (live : (pool.slots index).queue = some q) (settled : Settled q items)
    (closed : q.closed = shared.queue.closed)
    (performed : Fifo.perform ⟨items, shared.queue.closed⟩ (.enqueue req) =
      some (⟨left, next.queue.closed⟩, result))
    (ended : Threads.Ended shared next left .owner chosen result) :
    ∃ node pool', Pool.mainStep numThreads pool node = some pool' ∧
      Seen numThreads (fine.share index next) pool' := by
  have portrayed := related.main
  rw [(seen_share_self next there calls).1, before] at portrayed
  have place : fine.main = .enqueueing req index := by
    simp only [calling] at calls
    split at calls
    · rename_i other target place
      cases calls
      exact place
    · split at calls <;> cases calls
    · cases calls
  have here := portrayed.eq_of_before.trans place
  rw [← closed] at performed
  obtain ⟨node, slot, r, ran, found, holds, same, worker, executed, freed, processed, thread⟩ :=
    enqueue_performed (pool.slots index) settled performed
  refine ⟨node, { pool.setSlot index slot with main := .adding }, ?_, ?_⟩
  · simp [Pool.mainStep, here, Pool.enqueueOn, live, ran]
  · refine related.finishes calls there ended (Finishes.single rfl related.sound.2 rfl rfl rfl rfl
      (fun other => (other rfl).elim) (fun _ => ⟨thread, executed⟩) ⟨worker, freed, processed⟩
      ⟨r, found, holds, same⟩) (fun _ => ?_) (fun k self => by cases self)
    rw [place]
    exact .done

theorem Seen.closes (related : Seen numThreads fine pool) {q : Queue (Request Job)}
    (calls : fine.calling numThreads .owner = some (index, .close))
    (there : (fine.entries index).shared = some shared) (before : shared.view .owner = .before)
    (live : (pool.slots index).queue = some q) (settled : Settled q items)
    (performed : Fifo.perform ⟨items, shared.queue.closed⟩ .close =
      some (⟨left, next.queue.closed⟩, result))
    (ended : Threads.Ended shared next left .owner chosen result) :
    ∃ pool', Pool.mainStep numThreads pool 0 = some pool' ∧
      Seen numThreads (fine.share index next) pool' := by
  have portrayed := related.main
  rw [(seen_share_self next there calls).1, before] at portrayed
  have place : fine.main = .closing index ∧ index < numThreads := by
    simp only [calling] at calls
    split at calls
    · cases calls
    · rename_i i place
      simp only [Option.ite_none_right_eq_some, Option.some.injEq, Prod.mk.injEq] at calls
      obtain ⟨more, rfl, _⟩ := calls
      exact ⟨place, more⟩
    · cases calls
  have here := portrayed.eq_of_before.trans place.1
  simp only [Fifo.perform, Option.some.injEq, Prod.mk.injEq, Fifo.mk.injEq] at performed
  obtain ⟨⟨rfl, shut⟩, rfl⟩ := performed
  refine ⟨{ pool.setSlot index ((pool.slots index).close q) with main := .closing (index + 1) },
    ?_, ?_⟩
  · simp [Pool.mainStep, here, place.2, live]
  · refine related.finishes calls there ended (Finishes.single rfl related.sound.2 rfl rfl rfl rfl
      (fun other => (other rfl).elim) (fun _ => ⟨rfl, rfl⟩) ⟨rfl, rfl, rfl⟩
      ⟨closeLocked q, rfl, settled.close, shut⟩) (fun _ => ?_) (fun k self => by cases self)
    rw [place.1]
    exact .done

theorem Seen.dequeues (related : Seen numThreads fine pool) {q : Queue (Request Job)}
    (calls : fine.calling numThreads (.worker i) = some (index, .dequeue))
    (there : (fine.entries index).shared = some shared)
    (before : shared.view (.worker i) = .before)
    (live : (pool.slots index).queue = some q) (settled : Settled q items)
    (closed : q.closed = shared.queue.closed)
    (performed : Fifo.perform ⟨items, shared.queue.closed⟩ .dequeue =
      some (⟨left, next.queue.closed⟩, result))
    (ended : Threads.Ended shared next left (.worker i) chosen result) :
    ∃ slot, workerFunc (pool.slots i) = some slot ∧
      Seen numThreads (fine.share index next) (pool.setSlot i slot) := by
  obtain ⟨same, place⟩ := calling_dequeue calls
  obtain rfl : i = index := Caller.worker.inj same
  obtain ⟨ahead, pictured, executed⟩ := related.threads i
  rw [(seen_share_self next there calls).1, before, place] at pictured
  obtain ⟨rfl, ready⟩ := pictured.ready
  rw [List.append_nil] at executed
  rw [ready]
  cases items with
  | nil =>
    simp only [Fifo.perform] at performed
    split at performed
    · rename_i shut
      simp only [Option.some.injEq, Prod.mk.injEq, Fifo.mk.injEq] at performed
      obtain ⟨⟨rfl, kept⟩, rfl⟩ := performed
      refine ⟨{ pool.slots i with thread := .exiting }, ?_, ?_⟩
      · simp [Slot.dequeue, live, settled.dequeue_empty, closed, shut]
      · refine related.finishes calls there ended (Finishes.single rfl related.sound.2 rfl rfl rfl
          rfl (fun _ => rfl) (fun other => (other rfl).elim) ⟨rfl, rfl, rfl⟩
          ⟨q, live, settled, closed.trans kept⟩) (fun self => by cases self) ?_
        rintro k ⟨⟩
        refine ⟨[], place ▸ ?_, by simpa [Pool.setSlot] using executed⟩
        simpa [Pool.setSlot] using Pictures.null
    · cases performed
  | cons req rest =>
    obtain ⟨r, taken, same, holds⟩ := settled.dequeue
    simp only [Fifo.perform, Option.some.injEq, Prod.mk.injEq, Fifo.mk.injEq] at performed
    obtain ⟨⟨rfl, kept⟩, rfl⟩ := performed
    refine ⟨{ pool.slots i with
      queue := some r
      thread := .working req
      executed := (pool.slots i).executed ++ [req] }, ?_, ?_⟩
    · simp [Slot.dequeue, live, taken]
    · refine related.finishes calls there ended (Finishes.single rfl related.sound.2 rfl rfl rfl
        rfl (fun _ => rfl) (fun other => (other rfl).elim) ⟨rfl, rfl, rfl⟩
        ⟨r, rfl, holds, same.trans (closed.trans kept)⟩) (fun self => by cases self) ?_
      rintro k ⟨⟩
      refine ⟨[req], place ▸ ?_, by simp [Pool.setSlot, executed]⟩
      simpa [Pool.setSlot] using Pictures.item

private theorem Seen.nestedEnqueues (related : Seen numThreads fine pool) {q : Queue (Request Job)}
    {nested : Request Job} (calls : fine.calling numThreads (.worker i) = some (index, .enqueue nested))
    (there : (fine.entries index).shared = some shared)
    (before : shared.view (.worker i) = .before)
    (live : (pool.slots index).queue = some q) (settled : Settled q items)
    (closed : q.closed = shared.queue.closed)
    (performed : Fifo.perform ⟨items, shared.queue.closed⟩ (.enqueue nested) =
      some (⟨left, next.queue.closed⟩, result))
    (ended : Threads.Ended shared next left (.worker i) chosen result) :
    ∃ node pool', Pool.step numThreads pool (.nestedEnqueue i node) = some pool' ∧
      Seen numThreads (fine.share index next) pool' := by
  obtain ⟨ahead, pictured, ran⟩ := related.threads i
  rw [(seen_share_self next there calls).1, before] at pictured
  obtain ⟨req, place⟩ := calling_enqueue calls
  rw [place] at pictured
  obtain ⟨here, rfl⟩ : (pool.slots i).thread = .adding req nested index ∧ ahead = [] := by
    cases thread : (pool.slots i).thread <;> rw [thread] at pictured <;> cases pictured
    exact ⟨rfl, rfl⟩
  rw [← closed] at performed
  obtain ⟨node, slot, r, added, found, holds, same, worker, executed, freed, processed, thread⟩ :=
    enqueue_performed (pool.slots index) settled performed
  have record (k : Nat) : ((pool.setSlot index slot).slots k).worker = (pool.slots k).worker ∧
      ((pool.setSlot index slot).slots k).executed = (pool.slots k).executed ∧
      ((pool.setSlot index slot).slots k).freed = (pool.slots k).freed ∧
      ((pool.setSlot index slot).slots k).processed = (pool.slots k).processed := by
    by_cases here : k = index
    · subst here
      simp [Pool.setSlot, worker, executed, freed, processed]
    · simp [Pool.setSlot, here]
  have kept (k : Nat) :
      (((pool.setSlot index slot).setThread i (.working req)).slots k).worker =
        ((pool.setSlot index slot).slots k).worker ∧
      (((pool.setSlot index slot).setThread i (.working req)).slots k).executed =
        ((pool.setSlot index slot).slots k).executed ∧
      (((pool.setSlot index slot).setThread i (.working req)).slots k).freed =
        ((pool.setSlot index slot).slots k).freed ∧
      (((pool.setSlot index slot).setThread i (.working req)).slots k).processed =
        ((pool.setSlot index slot).slots k).processed ∧
      (((pool.setSlot index slot).setThread i (.working req)).slots k).queue =
        ((pool.setSlot index slot).slots k).queue := by
    by_cases same : k = i
    · subst same
      simp [Pool.setThread, Pool.setSlot]
    · simp [Pool.setThread, Pool.setSlot, same]
  refine ⟨node, (pool.setSlot index slot).setThread i (.working req), ?_, ?_⟩
  · simp [Pool.step, related.sound.2, here, Pool.enqueueOn, live, added]
  · refine related.finishes calls there ended ⟨related.sound.2, rfl, rfl, rfl, rfl, fun _ => rfl,
      ?_, ?_, ?_, ?_⟩ (fun self => by cases self) ?_
    · intro k different
      have apart : k ≠ i := fun equal => different (congrArg Caller.worker equal)
      rw [(kept k).2.1, (record k).2.1]
      by_cases target : k = index
      · subst target
        simpa [Pool.setThread, Pool.setSlot, apart] using thread
      · simp [Pool.setThread, Pool.setSlot, apart, target]
    · intro k
      obtain ⟨first, _, second, third, _⟩ := kept k
      obtain ⟨worker, _, freed, processed⟩ := record k
      exact ⟨first.trans worker, second.trans freed, third.trans processed⟩
    · refine ⟨r, ?_, holds, same⟩
      rw [(kept index).2.2.2.2]
      simpa [Pool.setSlot] using found
    · intro k different
      rw [(kept k).2.2.2.2]
      simp [Pool.setSlot, different]
    · rintro k ⟨⟩
      refine ⟨[], place ▸ ?_, by rw [(kept i).2.1, (record i).2.1, ran]⟩
      simpa [Pool.setThread, Pool.setSlot] using Pictures.added

theorem Seen.waits (related : Seen numThreads fine pool) {q : Queue (Request Job)}
    {items : List (Request Job)} {thread : WorkerPc Job}
    (calls : fine.calling numThreads (.worker k) = some (index, op))
    (there : (fine.entries index).shared = some shared)
    (live : (pool.slots index).queue = some q) (settled : Settled q items)
    (closed : q.closed = shared.queue.closed)
    (moved : Threads.Moved shared next items (.worker k) view asked)
    (asks : ∀ asks, asked = some asks → asks = op)
    (pictured : ∀ ahead,
      Pictures (fine.entries k).thread (some (shared.view (.worker k))) (pool.slots k).thread ahead →
      Pictures (fine.entries k).thread (some view) thread ahead) :
    Seen numThreads (fine.share index next) (pool.setThread k thread) := by
  have records (i : Nat) : ((pool.setThread k thread).slots i).executed = (pool.slots i).executed ∧
      ((pool.setThread k thread).slots i).worker = (pool.slots i).worker ∧
      ((pool.setThread k thread).slots i).freed = (pool.slots i).freed ∧
      ((pool.setThread k thread).slots i).processed = (pool.slots i).processed ∧
      ((pool.setThread k thread).slots i).queue = (pool.slots i).queue := by
    by_cases here : i = k
    · subst here
      simp [Pool.setThread, Pool.setSlot]
    · simp [Pool.setThread, Pool.setSlot, here]
  refine related.shares calls there (fun other different => (moved.others other different).1)
    (fun asked found => asks asked (moved.asks ▸ found)) related.sound.2 rfl rfl rfl rfl ?_ ?_ ?_
  · rw [seen_share_same there (moved.others .owner (by simp)).2]
    exact related.main
  · intro i
    obtain ⟨ahead, before, executed⟩ := related.threads i
    refine ⟨ahead, ?_, (records i).1.trans executed⟩
    by_cases self : i = k
    · subst self
      have views := seen_share_self next there calls
      rw [views.2, moved.view]
      simpa [Pool.setThread, Pool.setSlot] using pictured ahead (views.1 ▸ before)
    · rw [seen_share_same there (moved.others (.worker i) (by simp [self])).2]
      simpa [Pool.setThread, Pool.setSlot, self] using before
  · intro i
    have mirrors := related.entries i
    obtain ⟨_, worker, freed, processed, queue⟩ := records i
    by_cases here : i = index
    · subst here
      exact mirrors_share (worker.trans mirrors.worker) (freed.trans mirrors.freed)
        (processed.trans mirrors.processed) moved.holds (queue.trans live) settled
        (closed.trans moved.closed.symm)
    · rw [share_off here]
      exact ⟨worker.trans mirrors.worker, freed.trans mirrors.freed,
        processed.trans mirrors.processed, fun missing => queue.trans (mirrors.absent missing),
        fun users found => queue ▸ mirrors.present users found⟩

private theorem calling_op (calls : fine.calling numThreads caller = some (index, op)) :
    (∃ req, op = .enqueue req) ∨ (op = .close ∧ caller = .owner) ∨ op = .dequeue := by
  cases caller with
  | owner =>
    simp only [calling] at calls
    split at calls
    · cases calls
      exact .inl ⟨_, rfl⟩
    · split at calls <;> cases calls
      exact .inr (.inl ⟨rfl, rfl⟩)
    · cases calls
  | worker i =>
    simp only [calling] at calls
    split at calls
    · cases calls
      exact .inr (.inr rfl)
    · cases calls
      exact .inl ⟨_, rfl⟩
    · cases calls

theorem Seen.asks (related : Seen numThreads fine pool) {asked : Op (Request Job)}
    (calls : fine.calling numThreads caller = some (index, op))
    (there : (fine.entries index).shared = some shared)
    (asks : (shared.place caller).asks = some asked) : asked = op := by
  have inside : shared.place caller ≠ .outside := by
    intro out
    simp [out, Place.asks] at asks
  obtain ⟨again, called, same⟩ := related.inCall index shared there caller inside
  cases calls.symm.trans called
  exact same asked asks

/-- A step that the coarse pool takes to follow one here: a nested call ends its
critical section only in a worker that makes one. -/
structure Follows (fine : ThreadedPool Job) (own : Bool) (coarse : Pool.Label Job) : Prop where
  own : coarse.own = own
  caller : coarse.External ∨ ∃ i node req nested index, coarse = .nestedEnqueue i node ∧
    (fine.entries i).thread = .adding req nested index

/-- A silent move is no step of the coarse pool. -/
theorem Seen.silentMove (related : Seen numThreads fine pool) (valid : pool.PoolOk numThreads)
    (taken : Moved numThreads fine caller move fine') (sound : fine'.fault = false)
    (silent : move.silent = true) : Seen numThreads fine' pool := by
  cases taken with
  | fault => cases sound
  | @stay index op shared next move calls there stepped inside =>
    obtain ⟨items, q, holds, live, settled, closed⟩ := (related.entries index).present shared there
    have outcome := holds.outcome (Threads.took stepped)
    cases move with
    | call node =>
      cases outcome with
      | call idle moved =>
        refine related.stays calls there live settled closed moved (by simp) ?_ ?_
        · exact fun k _ ahead pictured => view_outside idle ▸ pictured
        · exact fun _ portrayed => view_outside idle ▸ portrayed
    | lock =>
      cases outcome with
      | lock before moved =>
        refine related.stays calls there live settled closed moved
          (fun asked asks => related.asks calls there asks) ?_ ?_
        · exact fun k _ ahead pictured => before ▸ pictured
        · exact fun _ portrayed => before ▸ portrayed
    | unlock =>
      cases outcome with
      | unlock done moved =>
        exact related.stays calls there live settled closed moved (by simp)
          (fun _ _ _ pictured => pictured) (fun _ portrayed => portrayed)
    | relock =>
      cases outcome with
      | relock woken moved =>
        have waiting := related.asks calls there (Threads.view_waiting (.inr woken))
        subst waiting
        obtain ⟨rfl, place⟩ := calling_dequeue calls
        refine related.stays calls there live settled closed moved (by simp) ?_ ?_
        · intro k same ahead pictured
          cases same
          rw [woken, place] at pictured
          rw [place]
          cases thread : (pool.slots index).thread <;> rw [thread] at pictured <;> cases pictured
          exact .retesting
        · intro owner
          cases owner
    | leave => exact (inside rfl).elim
    | critical | spurious => cases silent
  | @leave index op shared next value calls there stepped returned =>
    obtain ⟨items, q, holds, live, settled, closed⟩ := (related.entries index).present shared there
    cases holds.outcome (Threads.took stepped) with
    | leave done answered agrees moved out =>
      cases answered.symm.trans returned
      cases caller with
      | owner => exact related.returns valid calls there live settled closed moved out done
      | worker i => exact related.resumes calls there live settled closed moved out done agrees

private theorem Seen.effectMove (related : Seen numThreads fine pool)
    (taken : Moved numThreads fine caller move fine') (sound : fine'.fault = false)
    (effect : move.silent = false) :
    ∃ coarse pool', Follows fine move.own coarse ∧
      Pool.step numThreads pool coarse = some pool' ∧ Seen numThreads fine' pool' := by
  cases taken with
  | fault => cases sound
  | @stay index op shared next move calls there stepped inside =>
    obtain ⟨items, q, holds, live, settled, closed⟩ := (related.entries index).present shared there
    have outcome := holds.outcome (Threads.took stepped)
    cases move with
    | critical chosen =>
      cases outcome with
      | wait before asked nothing opened moved =>
        obtain rfl := related.asks calls there asked
        obtain ⟨rfl, place⟩ := calling_dequeue calls
        obtain ⟨ahead, pictured, executed⟩ := related.threads index
        rw [(seen_share_self next there calls).1, before, place] at pictured
        obtain ⟨rfl, ready⟩ := pictured.ready
        subst nothing
        have parks : workerFunc (pool.slots index) =
            some { pool.slots index with thread := .parked } := by
          simp [ready, Slot.dequeue, live, settled.dequeue_empty, closed, opened]
        refine ⟨.worker index, pool.setThread index .parked, ⟨rfl, .inl trivial⟩, ?_, ?_⟩
        · simp only [Pool.step, related.sound.2, parks]
          rfl
        · refine related.waits calls there live settled closed moved (by simp) ?_
          intro ahead seen
          rw [before, place] at seen
          rw [place]
          cases (seen.ready).1
          exact .parked
      | finish before asked performed ended =>
        obtain rfl := related.asks calls there asked
        rcases calling_op calls with ⟨req, rfl⟩ | ⟨rfl, rfl⟩ | rfl
        · cases caller with
          | owner =>
            obtain ⟨node, pool', moves, agree⟩ := related.enqueues calls there before live settled
              closed performed ended
            exact ⟨.main node, pool', ⟨rfl, .inl trivial⟩, by simp [Pool.step, related.sound.2, moves],
              agree⟩
          | worker i =>
            obtain ⟨node, pool', moves, agree⟩ := related.nestedEnqueues calls there before live
              settled closed performed ended
            obtain ⟨outer, adds⟩ := calling_enqueue calls
            exact ⟨.nestedEnqueue i node, pool', ⟨rfl, .inr ⟨i, node, outer, req, index, rfl, adds⟩⟩,
              moves, agree⟩
        · obtain ⟨pool', moves, agree⟩ := related.closes calls there before live settled performed
            ended
          exact ⟨.main 0, pool', ⟨rfl, .inl trivial⟩, by simp [Pool.step, related.sound.2, moves], agree⟩
        · obtain ⟨rfl, place⟩ := calling_dequeue calls
          obtain ⟨slot, moves, agree⟩ := related.dequeues calls there before live settled closed
            performed ended
          exact ⟨.worker index, pool.setSlot index slot, ⟨rfl, .inl trivial⟩,
            by simp [Pool.step, related.sound.2, moves], agree⟩
    | spurious =>
      cases outcome with
      | spurious parked moved =>
        obtain ⟨rfl, place, thread⟩ := related.parked there parked
        have waiting := related.asks calls there (Threads.view_waiting (.inl parked))
        subst waiting
        refine ⟨.spurious index, pool.setThread index .woken, ⟨rfl, .inl trivial⟩,
          by simp [Pool.step, related.sound.2, thread], ?_⟩
        refine related.waits calls there live settled closed moved (by simp) fun ahead pictured => ?_
        rw [parked, place] at pictured
        rw [place]
        cases same : (pool.slots index).thread <;> rw [same] at pictured <;> cases pictured
        exact .woken
    | call | lock | unlock | relock | leave => cases effect
  | leave => cases effect

/-- A step inside a queue function is none of the coarse pool, or the call. -/
theorem Seen.queueStep (related : Seen numThreads fine pool) (valid : pool.PoolOk numThreads)
    (taken : queueStep numThreads fine caller move = some fine') (sound : fine'.fault = false) :
    (move.silent = true ∧ Seen numThreads fine' pool) ∨
      ∃ coarse pool', Follows fine move.own coarse ∧
        Pool.step numThreads pool coarse = some pool' ∧ Seen numThreads fine' pool' := by
  rcases queueStepped taken with single | ⟨last, middle, unharmed, unlocks, leaves⟩
  · cases silent : move.silent with
    | true => exact .inl ⟨rfl, related.silentMove valid single sound silent⟩
    | false => exact .inr (related.effectMove single sound silent)
  · have between := related.silentMove valid unlocks unharmed rfl
    refine .inl ⟨?_, between.silentMove valid leaves sound rfl⟩
    rw [(lastUse_unlock last).1]
    rfl

end Share

end ThreadedPool

end RequestProxy.Librequest
