import RequestProxy.Librequest.QueueOwnership

namespace RequestProxy.Librequest.Threads

open RequestProxy.Abstract

universe u

variable {Tid α : Type u} {threads next : Threads Tid α}
variable {path : List Addr} {items : List α}

/-- A consumer holds the mutex and is about to test the queue. -/
def testing (threads : Threads Tid α) : Nat :=
  match threads.owner with
  | none => 0
  | some thread =>
    match threads.place thread with
    | .inside .dequeue => 1
    | _ => 0

/-- While consumers are parked the queue is open, and its pending items are
spoken for by consumers that are woken or about to test. -/
def Attended (threads : Threads Tid α) (pending : Nat) : Prop :=
  threads.parked.Nonempty →
    threads.queue.closed = false ∧ pending ≤ threads.woken.card + threads.testing

/-- Where a thread is while it is in `queue_dequeue`. -/
def InDequeue : Place α → Prop
  | .locking .dequeue => True
  | .inside .dequeue => True
  | .waiting => True
  | .unlocking _ .null => True
  | .unlocking _ (.node _) => True
  | .leaving _ .null => True
  | .leaving _ (.node _) => True
  | _ => False

theorem testing_free (free : threads.owner = none) : threads.testing = 0 := by
  simp [testing, free]

private theorem testing_owner (owner : threads.owner = some thread)
    (ready : threads.place thread = .inside .dequeue) : threads.testing = 1 := by
  simp [testing, owner, ready]

private theorem exists_of_testing (positive : 0 < threads.testing) :
    ∃ thread, threads.place thread = .inside .dequeue := by
  unfold testing at positive
  split at positive
  · simp at positive
  · rename_i thread _
    split at positive
    · exact ⟨thread, ‹_›⟩
    · simp at positive

variable [DecidableEq Tid]

private theorem Discipline.testing_kept (valid : Discipline threads) {place : Place α}
    (idle : ¬(threads.place thread).ownsMutex) (owner : next.owner = threads.owner)
    (places : next.place = Function.update threads.place thread place) :
    next.testing = threads.testing := by
  simp only [testing, owner]
  cases held : threads.owner with
  | none => rfl
  | some other =>
    have different : other ≠ thread := by
      intro same
      exact idle ((valid.owner thread).mp (same ▸ held))
    simp [places, different]

/-- The wake-up call of an effect makes up for what it adds to the queue. -/
theorem Attended.finish {body : Body α} (attended : Attended threads path.length)
    (valid : Discipline threads) (ready : threads.place thread = .inside body)
    (effect : Effect threads.queue path items body q locals wake after stored result)
    (moves : wake.Moves threads.parked chosen) :
    Attended ({ threads with
        queue := q
        parked := threads.parked \ chosen
        woken := threads.woken ∪ chosen
        history := threads.history ++ [body.op]
      }.goto thread (.unlocking threads.history.length locals)) after.length := by
  intro waiting
  obtain ⟨other, member⟩ := waiting
  obtain ⟨parked, left⟩ := Finset.mem_sdiff.mp member
  obtain ⟨opened, bound⟩ := attended ⟨other, parked⟩
  have owner : threads.owner = some thread := by simp [valid.owner, ready, Place.ownsMutex]
  have fresh : Disjoint threads.woken chosen := valid.disjoint.symm.mono_right (moves_subset moves)
  have total : (threads.woken ∪ chosen).card = threads.woken.card + chosen.card :=
    Finset.card_union_of_disjoint fresh
  simp only [goto_queue, goto_woken, total]
  cases effect with
  | accepted _ _ closed _ =>
    have signalled : chosen ≠ ∅ := by
      rcases moves.2 with none | some
      · simp [none] at parked
      · exact some
    have positive := Finset.card_pos.mpr (Finset.nonempty_iff_ne_empty.mpr signalled)
    have outside : threads.testing = 0 := by simp [testing, owner, ready]
    refine ⟨closed.trans opened, ?_⟩
    rw [List.length_append, List.length_singleton]
    omega
  | refused closed _ => simp [opened] at closed
  | taken pathEq _ _ closed _ _ _ =>
    have counted := testing_owner owner ready
    refine ⟨closed.trans opened, ?_⟩
    rw [pathEq, List.length_cons] at bound
    omega
  | null _ closed => simp [opened] at closed
  | close =>
    have everyone : chosen = threads.parked := moves
    exact absurd (everyone ▸ parked) left
  | isclosed | size =>
    have outside : threads.testing = 0 := by simp [testing, owner, ready]
    exact ⟨opened, by omega⟩

omit [DecidableEq Tid] in
theorem Attended.kept (attended : Attended threads pending)
    (parked : next.parked ⊆ threads.parked)
    (closed : next.queue.closed = threads.queue.closed)
    (attention : threads.woken.card + threads.testing ≤ next.woken.card + next.testing) :
    Attended next pending := by
  intro waiting
  obtain ⟨opened, bound⟩ := attended (waiting.mono parked)
  exact ⟨closed.trans opened, bound.trans attention⟩

/-- Every step keeps parked consumers attended. -/
theorem Attended.step (attended : Attended threads path.length) (valid : Discipline threads)
    (owned : Ownership threads path items results) (taken : Took threads label next) :
    ∃ after stored extended, Ownership next after stored extended ∧ Attended next after.length := by
  cases taken with
  | @call thread op node q body idle began =>
    have outside : ¬(threads.place thread).ownsMutex := by simp [idle, Place.ownsMutex]
    refine ⟨path, items, results, owned.call idle began, ?_⟩
    refine attended.kept (Finset.Subset.refl _) (prologue_closed began) ?_
    refine Nat.add_le_add_left (le_of_eq (Eq.symm ?_)) _
    exact valid.testing_kept outside rfl rfl
  | @lock thread body free ready =>
    refine ⟨path, items, results, owned.relocated rfl rfl rfl rfl
      (by simp [ready, Place.brings]) (by simp [ready, Place.carries]), ?_⟩
    refine attended.kept (Finset.Subset.refl _) rfl ?_
    rw [testing_free free]
    exact Nat.add_le_add_left (Nat.zero_le _) _
  | wait ready waits =>
    obtain ⟨rfl, empty, opened⟩ := owned.waits_dequeue ready waits
    have nothing : path.length = 0 := by rw [owned.shape.length_eq, empty]; rfl
    refine ⟨path, items, results, owned.relocated rfl rfl rfl rfl
      (by simp [ready, Place.brings, Body.brings]) (by simp [ready, Place.carries]), ?_⟩
    intro _
    exact ⟨opened, by simp [nothing]⟩
  | finish ready finished moves =>
    obtain ⟨after, stored, result, effect⟩ := owned.effect_of_finished ready finished
    exact ⟨after, stored, _, owned.finish ready effect,
      attended.finish valid ready effect moves⟩
  | @unlock thread ticket locals ready =>
    have owner : threads.owner = some thread := by simp [valid.owner, ready, Place.ownsMutex]
    have outside : threads.testing = 0 := by simp [testing, owner, ready]
    refine ⟨path, items, results, owned.relocated rfl rfl rfl rfl
      (by simp [ready, Place.brings]) (by simp [ready, Place.carries]), ?_⟩
    refine attended.kept (Finset.Subset.refl _) rfl ?_
    rw [outside]
    exact Nat.add_le_add_left (Nat.zero_le _) _
  | @leave thread ticket locals q value ready ended =>
    have outside : ¬(threads.place thread).ownsMutex := by simp [ready, Place.ownsMutex]
    refine ⟨path, items, results, owned.leave ready ended, ?_⟩
    refine attended.kept (Finset.Subset.refl _) (epilogue_closed ended) ?_
    refine Nat.add_le_add_left (le_of_eq (Eq.symm ?_)) _
    exact valid.testing_kept outside rfl rfl
  | @relock thread free called =>
    have waiting := (valid.waiting thread).mp (.inr called)
    refine ⟨path, items, results, owned.relocated rfl rfl rfl rfl
      (by simp [waiting, Place.brings, Body.brings]) (by simp [waiting, Place.carries]), ?_⟩
    refine attended.kept (Finset.Subset.refl _) rfl ?_
    -- the woken consumer now counts as the one about to test
    have positive := Finset.card_pos.mpr ⟨thread, called⟩
    rw [testing_free free, testing_owner rfl (by simp), goto_woken,
      Finset.card_erase_of_mem called]
    omega
  | @spurious thread waits =>
    refine ⟨path, items, results,
      owned.moved rfl rfl rfl (fun _ => rfl) (fun _ => rfl), ?_⟩
    refine attended.kept (Finset.erase_subset _ _) rfl ?_
    exact Nat.add_le_add_right (Finset.card_le_card (Finset.subset_insert _ _)) _

/-- The invariant of the queue with its waiting consumers. -/
def Watched (threads : Threads Tid α) : Prop :=
  Discipline threads ∧ ∃ path items results,
    Ownership threads path items results ∧ Attended threads path.length

theorem watched_invariant :
    Transition.Invariant step (fun _ => True) (init : Threads Tid α) Watched where
  initial := ⟨discipline_init, [], [], [], ownership_init, by
    intro waiting
    simp [init] at waiting⟩
  preserved := by
    intro threads label next watched _ taken
    obtain ⟨valid, path, items, results, owned, attended⟩ := watched
    exact ⟨valid.step (took taken), attended.step valid owned (took taken)⟩

theorem Reachable.watched (reached : Reachable threads) : Watched threads := by
  obtain ⟨labels, ran⟩ := reached
  exact watched_invariant.run (fun _ _ => trivial) ran

/-- In every reachable state in which the mutex is free, a parked consumer
means an open queue whose pending nodes do not outnumber the woken consumers.
So the consumers are never all parked with a request pending or the queue
closed, and a call that returns has released the mutex. -/
theorem queue_no_lost_wakeup (threads : Threads Tid α) (reached : Reachable threads) :
    ∃ path items, Shape threads.queue path items ∧
      (threads.owner = none → threads.parked.Nonempty →
        threads.queue.closed = false ∧ path.length ≤ threads.woken.card) ∧
      ((∃ thread, InDequeue (threads.place thread)) →
        (∀ thread, InDequeue (threads.place thread) → thread ∈ threads.parked) →
        threads.queue.closed = false ∧ path = []) ∧
      ∀ thread next, step threads (.leave thread) = some next →
        threads.owner ≠ some thread ∧ next.owner ≠ some thread := by
  obtain ⟨valid, path, items, results, owned, attended⟩ := reached.watched
  refine ⟨path, items, owned.shape, ?_, ?_, ?_⟩
  · intro free waiting
    have bound := attended waiting
    rwa [testing_free free] at bound
  · intro ⟨thread, consumer⟩ everyone
    obtain ⟨opened, bound⟩ := attended ⟨thread, everyone thread consumer⟩
    have nobody : threads.woken = ∅ := by
      refine Finset.eq_empty_of_forall_notMem fun other called => ?_
      have waiting := (valid.waiting other).mp (.inr called)
      have parked := everyone other (by simp [waiting, InDequeue])
      exact Finset.disjoint_left.mp valid.disjoint parked called
    have idle : threads.testing = 0 := by
      by_contra busy
      obtain ⟨other, ready⟩ := exists_of_testing (Nat.pos_of_ne_zero busy)
      have parked := everyone other (by simp [ready, InDequeue])
      simp [(valid.waiting other).mp (.inl parked)] at ready
    refine ⟨opened, List.length_eq_zero_iff.mp ?_⟩
    simpa [nobody, idle] using bound
  · intro thread next taken
    have after := valid.step (took taken)
    simp only [step] at taken
    split at taken
    · rename_i ticket locals ready
      have outside : threads.owner ≠ some thread := by
        simp [valid.owner, ready, Place.ownsMutex]
      simp only [Option.bind_eq_bind, Option.bind_eq_some_iff, Prod.exists, Option.pure_def,
        Option.some.injEq] at taken
      obtain ⟨q, value, _, rfl⟩ := taken
      exact ⟨outside, outside⟩
    · cases taken

/-- Two consumers park, an item arrives and wakes one of them. -/
def twoConsumers : List (Label Nat Nat) :=
  [.call 1 .dequeue 0, .lock 1, .critical 1 ∅, .call 2 .dequeue 0, .lock 2, .critical 2 ∅,
    .call 0 (.enqueue 7) 40, .lock 0, .critical 0 {1}, .unlock 0, .leave 0]

theorem queue_no_lost_wakeup_sample :
    ∃ threads : Threads Nat Nat, Transition.run step init twoConsumers = some threads ∧
      threads.owner = none ∧ threads.parked = {2} ∧ threads.woken = {1} ∧
      ∃ path items, Shape threads.queue path items ∧
        (threads.owner = none → threads.parked.Nonempty →
          threads.queue.closed = false ∧ path.length ≤ threads.woken.card) ∧
        ((∃ thread, InDequeue (threads.place thread)) →
          (∀ thread, InDequeue (threads.place thread) → thread ∈ threads.parked) →
          threads.queue.closed = false ∧ path = []) ∧
        ∀ thread next, step threads (.leave thread) = some next →
          threads.owner ≠ some thread ∧ next.owner ≠ some thread :=
  ⟨_, rfl, rfl, by decide, by decide, queue_no_lost_wakeup _ ⟨twoConsumers, rfl⟩⟩

end RequestProxy.Librequest.Threads
