import Mathlib.Data.Fintype.EquivFin
import RequestProxy.Librequest.QueueView
import RequestProxy.Librequest.QueueWakeup
import RequestProxy.Transition.Variant

/-! The threads that share a queue cannot deadlock: as long as a call can be
served, some thread inside the queue functions can move. -/

namespace RequestProxy.Librequest

open RequestProxy.Abstract

universe u

/-- What a thread pays for its critical section, and for waking `count` threads
if the section may wake any. -/
def Body.work {α : Type u} (count : Nat) : Body α → Nat
  | .enqueue _ _ => 4 * count + 3
  | .close => 4 * count + 3
  | .dequeue | .isclosed | .size => 3

/-- The steps a thread still has to make before it returns or waits, with what
it pays for the threads that it can wake. -/
def Place.work {α : Type u} (count : Nat) : Place α → Nat
  | .outside => 0
  | .waiting => 0
  | .leaving _ _ => 1
  | .unlocking _ _ => 2
  | .inside body => body.work count
  | .locking body => body.work count + 1

namespace Threads

variable {Tid α : Type u} [DecidableEq Tid] {threads : Threads Tid α}
variable {path : List Addr} {items : List α} {results : List (Result α)} {thread : Tid}

/-- A step of the code of a queue function: no call begins with it, and the
environment does not make it. -/
def Label.inside : Label Tid α → Bool
  | .call _ _ _ => false
  | .spurious _ => false
  | _ => true

/-- Some thread can move in the queue function it is in. -/
def CanMove (threads : Threads Tid α) : Prop :=
  ∃ label next, label.inside = true ∧ step threads label = some next

omit [DecidableEq Tid] in
private theorem exists_moves (parked : Finset Tid) (wake : Wake) :
    ∃ chosen, wake.Moves parked chosen := by
  cases wake with
  | none => exact ⟨∅, rfl⟩
  | signal =>
    refine ⟨parked, Finset.Subset.refl _, ?_⟩
    by_cases empty : parked = ∅
    · exact .inl empty
    · exact .inr empty
  | broadcast => exact ⟨parked, rfl⟩

private theorem Ownership.owner_moves (owned : Ownership threads path items results)
    (valid : Discipline threads) (owner : threads.owner = some thread) :
    threads.CanMove := by
  have holds := (valid.owner thread).mp owner
  cases place : threads.place thread with
  | inside body =>
    rcases owned.effect place with ⟨waits, _⟩ | ⟨q, locals, wake, _, _, _, ran, _⟩
    · exact ⟨.critical thread ∅, _, rfl, by simp [Threads.step, place, waits]; rfl⟩
    · obtain ⟨chosen, moves⟩ := exists_moves threads.parked wake
      exact ⟨.critical thread chosen, _, rfl, by simp [Threads.step, place, ran, moves]; rfl⟩
  | unlocking ticket locals =>
    exact ⟨.unlock thread, _, rfl, by simp [Threads.step, place]; rfl⟩
  | outside | locking _ | waiting | leaving _ _ => simp [place, Place.ownsMutex] at holds

omit [DecidableEq Tid] in
theorem Ownership.epilogue_runs (owned : Ownership threads path items results)
    (carries : (threads.place thread).carries = some (ticket, locals)) :
    ∃ q value, epilogue threads.queue locals = some (q, value) := by
  obtain ⟨_, _, answered, _⟩ := owned.tickets carries
  obtain ⟨⟨q, value⟩, ended, _⟩ := Option.map_eq_some_iff.mp answered
  exact ⟨q, value, ended⟩

private theorem Ownership.other_moves (owned : Ownership threads path items results)
    (valid : Discipline threads) (free : threads.owner = none)
    (called : threads.place thread ≠ .outside) (awake : thread ∉ threads.parked) :
    threads.CanMove := by
  have unowned : ¬(threads.place thread).ownsMutex := by
    rw [← valid.owner, free]
    simp
  cases place : threads.place thread with
  | outside => exact (called place).elim
  | locking body => exact ⟨.lock thread, _, rfl, by simp [Threads.step, place, free]; rfl⟩
  | inside body => simp [place, Place.ownsMutex] at unowned
  | waiting =>
    have woken := ((valid.waiting thread).mpr place).resolve_left awake
    exact ⟨.relock thread, _, rfl, by simp [Threads.step, free, woken]; rfl⟩
  | unlocking ticket locals => simp [place, Place.ownsMutex] at unowned
  | leaving ticket locals =>
    have carries : (threads.place thread).carries = some (ticket, locals) := by
      simp [place, Place.carries]
    obtain ⟨q, value, ended⟩ := owned.epilogue_runs carries
    exact ⟨.leave thread, _, rfl, by simp [Threads.step, place, ended]; rfl⟩

omit [DecidableEq Tid] in
theorem Ownership.exists_fresh (owned : Ownership threads path items results) (callers : Finset Tid)
    (called : ∀ thread, threads.place thread ≠ .outside → thread ∈ callers) :
    ∃ node, threads.queue.nodes node = none := by
  obtain ⟨node, unused⟩ := Infinite.exists_notMem_finset
    (path.toFinset ∪ callers.image fun thread => (threads.place thread).holds.getD 0)
  refine ⟨node, ?_⟩
  cases live : threads.queue.nodes node with
  | none => rfl
  | some cell =>
    refine absurd ?_ unused
    rcases owned.covered live with listed | ⟨thread, holds⟩
    · exact Finset.mem_union_left _ (List.mem_toFinset.mpr listed)
    · refine Finset.mem_union_right _ (Finset.mem_image.mpr ⟨thread, called thread ?_, by simp [holds]⟩)
      intro out
      simp [out, Place.holds, Place.brings, Place.carries] at holds

theorem call_enabled (out : threads.place thread = .outside)
    (fresh : threads.queue.nodes node = none) (op : Op α) :
    ∃ next, step threads (.call thread op node) = some next := by
  cases op with
  | enqueue req => exact ⟨_, by simp [Threads.step, out, prologue, Queue.malloc, fresh]; rfl⟩
  | dequeue | close | isclosed | size => exact ⟨_, by simp [Threads.step, out, prologue]; rfl⟩

/-- A thread in a call moves, or waits for the mutex and its owner moves, unless
it is parked. -/
theorem Holds.can_move (holds : threads.Holds items) (called : threads.place thread ≠ .outside)
    (awake : threads.view thread ≠ .parked) : threads.CanMove := by
  have asleep : thread ∉ threads.parked := fun parked => awake (holds.parked_iff.mp parked)
  obtain ⟨valid, path, results, owned⟩ := holds
  cases owner : threads.owner with
  | none => exact owned.other_moves valid owner called asleep
  | some holder => exact owned.owner_moves valid owner

/-- Every thread has returned, or is parked on an open queue with no request. -/
structure Quiet (threads : Threads Tid α) : Prop where
  free : threads.owner = none
  still : ∀ thread, threads.place thread = .outside ∨ thread ∈ threads.parked
  waits : threads.parked.Nonempty → threads.queue.closed = false ∧ threads.queue.front = none

theorem Watched.quiet (watched : threads.Watched) (stuck : ¬threads.CanMove) : threads.Quiet := by
  obtain ⟨valid, path, items, results, owned, attended⟩ := watched
  have free : threads.owner = none := by
    cases owner : threads.owner with
    | none => rfl
    | some thread => exact (stuck (owned.owner_moves valid owner)).elim
  have still (thread) : threads.place thread = .outside ∨ thread ∈ threads.parked := by
    by_contra active
    obtain ⟨called, awake⟩ := not_or.mp active
    exact stuck (owned.other_moves valid free called awake)
  refine ⟨free, still, fun waiting => ?_⟩
  obtain ⟨opened, bound⟩ := attended waiting
  have nobody : threads.woken = ∅ := by
    refine Finset.eq_empty_of_forall_notMem fun thread called => ?_
    rcases still thread with outside | parked
    · have place := (valid.waiting thread).mp (.inr called)
      simp [outside] at place
    · exact Finset.disjoint_left.mp valid.disjoint parked called
  have emptied : items = [] := by
    rw [testing_free free, nobody, owned.shape.length_eq] at bound
    exact List.length_eq_zero_iff.mp (Nat.le_zero.mp (by simpa using bound))
  exact ⟨opened, owned.shape.front_none_iff.mpr emptied⟩

/-- The threads that share a queue do not deadlock: in every reachable state
one of them can move in its queue function, unless each has returned or waits
for a request of an open queue that has none. -/
theorem queue_never_stuck (threads : Threads Tid α) (reached : Reachable threads) :
    threads.CanMove ∨ threads.Quiet := by
  by_cases moves : threads.CanMove
  · exact .inl moves
  · exact .inr (reached.watched.quiet moves)

/-- A consumer parks, and an item arrives while it does. -/
def wokenConsumer : List (Label (Fin 2) Nat) :=
  [.call 1 .dequeue 0, .lock 1, .critical 1 ∅, .call 0 (.enqueue 7) 40, .lock 0, .critical 0 {1}]

theorem queue_never_stuck_sample :
    ∃ threads : Threads (Fin 2) Nat, Transition.run step init wokenConsumer = some threads ∧
      1 ∈ threads.woken ∧ (threads.CanMove ∨ threads.Quiet) :=
  ⟨_, rfl, by decide, queue_never_stuck _ ⟨wokenConsumer, rfl⟩⟩

section Finite

variable [Fintype Tid] {next : Threads Tid α} {label : Label Tid α}

/-- What the threads still have to do. A woken thread makes four steps more. -/
def work (threads : Threads Tid α) : Nat :=
  (∑ thread : Tid, (threads.place thread).work (Fintype.card Tid)) + 4 * threads.woken.card

private theorem work_goto (before after : Threads Tid α) (same : after.place = before.place)
    (thread : Tid) (place : Place α) (cost : Nat)
    (paid : place.work (Fintype.card Tid) + 4 * after.woken.card + cost ≤
      (before.place thread).work (Fintype.card Tid) + 4 * before.woken.card) :
    (after.goto thread place).work + cost ≤ before.work := by
  have total := Transition.sum_update (Place.work (Fintype.card Tid)) before.place
    (Finset.mem_univ thread) place
  simp only [work, goto_place, goto_woken, same]
  omega

omit [DecidableEq Tid] in
private theorem Ownership.finish_paid (owned : Ownership threads path items results)
    (ready : threads.place thread = .inside body)
    (finished : criticalSection threads.queue body = some (.unlock q locals wake))
    (moves : wake.Moves threads.parked chosen) :
    4 * chosen.card + 3 ≤ body.work (Fintype.card Tid) := by
  have few : chosen.card ≤ Fintype.card Tid := Finset.card_le_univ _
  obtain ⟨_, _, _, effect⟩ := owned.effect_of_finished ready finished
  cases effect with
  | accepted _ _ _ _ | close =>
    simp only [Body.work]
    omega
  | refused _ _ | taken _ _ _ _ _ _ _ | null _ _ | isclosed | size =>
    simp only [Wake.Moves] at moves
    simp [moves, Body.work]

/-- Every step of the code of the queue functions does a part of the work. -/
theorem Ownership.work_falls (owned : Ownership threads path items results)
    (valid : Discipline threads) (inside : label.inside = true)
    (taken : Took threads label next) : next.work < threads.work := by
  cases taken with
  | call _ _ | spurious _ => cases inside
  | @lock thread body free ready =>
    refine work_goto threads _ rfl thread (.inside body) 1 ?_
    simp only [ready, Place.work]
    omega
  | @wait thread body chosen ready waits =>
    obtain ⟨rfl, _, _⟩ := owned.waits_dequeue ready waits
    refine work_goto threads _ rfl thread .waiting 1 ?_
    simp only [ready, Place.work, Body.work]
    omega
  | @finish thread body q locals wake chosen ready finished moves =>
    have paid := owned.finish_paid ready finished moves
    have woken : (threads.woken ∪ chosen).card ≤ threads.woken.card + chosen.card :=
      Finset.card_union_le _ _
    refine work_goto threads { threads with
      queue := q
      parked := threads.parked \ chosen
      woken := threads.woken ∪ chosen
      history := threads.history ++ [body.op] } rfl thread (.unlocking _ locals) 1 ?_
    simp only [ready, Place.work]
    omega
  | @unlock thread ticket locals ready =>
    refine work_goto threads _ rfl thread (.leaving ticket locals) 1 ?_
    simp only [ready, Place.work]
    omega
  | @leave thread ticket locals q value ready ended =>
    refine work_goto threads _ rfl thread .outside 1 ?_
    simp only [ready, Place.work]
    omega
  | @relock thread free called =>
    have waiting := (valid.waiting thread).mp (.inr called)
    have fewer := Finset.card_erase_add_one called
    refine work_goto threads { threads with
      owner := some thread, woken := threads.woken.erase thread } rfl thread (.inside .dequeue) 1 ?_
    simp only [waiting, Place.work, Body.work]
    omega

theorem work_rises (outside : label.inside = false) (taken : Took threads label next) :
    next.work ≤ threads.work + (4 * Fintype.card Tid + 4) := by
  cases taken with
  | @call thread node op q body idle began =>
    have total := Transition.sum_update (Place.work (Fintype.card Tid)) threads.place
      (Finset.mem_univ thread) (.locking body)
    have bound : (Place.locking body).work (Fintype.card Tid) ≤ 4 * Fintype.card Tid + 4 := by
      cases body <;> simp only [Place.work, Body.work] <;> omega
    simp only [work, goto_place, goto_woken]
    omega
  | @spurious thread waits =>
    have more := Finset.card_insert_le thread threads.woken
    simp only [work]
    omega
  | _ => cases outside

theorem work_variant : Transition.Variant (step : Threads Tid α → Label Tid α → _) Watched
    Label.inside work (4 * Fintype.card Tid + 4) where
  kept := fun watched taken => watched_invariant.preserved watched trivial taken
  falls := by
    rintro threads label next ⟨valid, path, items, results, owned, _⟩ inside taken
    exact owned.work_falls valid inside (took taken)
  rises := fun _ outside taken => work_rises outside (took taken)

/-- The queue functions end. In every run of finitely many threads the steps of
their code are bounded by the calls and the spurious wake-ups, and from where it
ends they bring every call to its return, but for those that wait for a request
of an open queue that has none. -/
theorem queue_settles {labels : List (Label Tid α)}
    (ran : Transition.run step init labels = some threads) :
    labels.countP Label.inside ≤
      (4 * Fintype.card Tid + 4) * labels.countP (fun label => !label.inside) ∧
    ∃ more final, (∀ label ∈ more, label.inside = true) ∧
      Transition.run step threads more = some final ∧ final.Quiet := by
  have fresh : (init : Threads Tid α).Watched := watched_invariant.initial
  have watched : threads.Watched := watched_invariant.run (fun _ _ => trivial) ran
  constructor
  · have paid := work_variant.count_own fresh ran
    have start : (init : Threads Tid α).work = 0 := by simp [work, init, Place.work]
    omega
  · have moves : ∀ {threads : Threads Tid α}, Watched threads → ¬threads.Quiet →
        ∃ label next, label.inside = true ∧ step threads label = some next := by
      intro threads watched busy
      by_contra stuck
      exact busy (watched.quiet stuck)
    obtain ⟨more, final, inside, _, continued, ended⟩ :=
      work_variant.completes (fun {_} => moves) watched
    exact ⟨more, final, inside, continued, ended⟩

end Finite

theorem queue_settles_sample :
    ∃ threads : Threads (Fin 2) Nat, Transition.run step init wokenConsumer = some threads ∧
      wokenConsumer.countP Label.inside ≤
        (4 * Fintype.card (Fin 2) + 4) * wokenConsumer.countP (fun label => !label.inside) ∧
      ∃ more final, (∀ label ∈ more, label.inside = true) ∧
        Transition.run step threads more = some final ∧ final.Quiet := by
  obtain ⟨threads, ran⟩ : ∃ threads : Threads (Fin 2) Nat,
      Transition.run step init wokenConsumer = some threads := ⟨_, rfl⟩
  exact ⟨threads, ran, queue_settles ran⟩

end Threads

end RequestProxy.Librequest
