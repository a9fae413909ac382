import RequestProxy.Abstract.FifoOrder
import RequestProxy.Librequest.QueueOwnership

namespace RequestProxy.Librequest

open RequestProxy.Abstract

universe u

variable {Tid α : Type u}

/-- The operation of a thread that is on its way to the end of its critical
section. -/
def Place.asks : Place α → Option (Op α)
  | .locking body => some body.op
  | .inside body => some body.op
  | .waiting => some .dequeue
  | .outside | .unlocking _ _ | .leaving _ _ => none

theorem none_of_asks {place : Place α} (asks : place.asks = some op) :
    place.carries ≠ some carried := by
  cases place with
  | locking _ | inside _ | waiting => simp [Place.carries]
  | outside | unlocking _ _ | leaving _ _ => cases asks

/-- How far the call of a thread has come: it has no effect yet, it waits in
`pthread_cond_wait`, or it has the result of its effect. -/
inductive View (α : Type u) where
  | before
  | parked
  | woken
  | done (result : Option (Result α))

/-- A result that comes with a signal or a broadcast. -/
def wakes : Result α → Bool
  | .accepted => true
  | .closed => true
  | _ => false

section Agrees

variable {value : Returned α} {result : Result α} {req : α}

theorem Returned.accepted_agrees (agrees : Returned.accepted.Agrees result) : result = .accepted := by
  cases result <;> first | rfl | cases agrees

theorem Returned.null_agrees (agrees : Returned.null.Agrees result) : result = .null := by
  cases result <;> first | rfl | cases agrees

theorem Returned.item_agrees (agrees : (Returned.item req).Agrees result) : result = .item req := by
  cases result <;> first | cases agrees; rfl | cases agrees

theorem Returned.agrees_item (agrees : value.Agrees (.item req)) : value = .item req := by
  cases value <;> first | cases agrees; rfl | cases agrees

theorem Returned.agrees_refused (agrees : value.Agrees .refused) : value = .refused := by
  cases value <;> first | rfl | cases agrees

theorem Returned.agrees_null (agrees : value.Agrees .null) : value = .null := by
  cases value <;> first | rfl | cases agrees

end Agrees

namespace Threads

/-- The result of the abstract store for a ticket. -/
def resultOf (threads : Threads Tid α) (ticket : Nat) : Option (Result α) :=
  (Fifo.empty.replay threads.history).bind fun replayed => replayed.2[ticket]?

theorem prologue_op {q r : Queue α} (began : prologue q node op = some (r, body)) :
    body.op = op := by
  cases op with
  | enqueue req =>
    simp only [prologue, Option.bind_eq_bind, Option.bind_eq_some_iff, Option.pure_def,
      Option.some.injEq, Prod.mk.injEq] at began
    obtain ⟨_, _, _, rfl⟩ := began
    rfl
  | dequeue | close | isclosed | size =>
    cases began
    rfl

variable [DecidableEq Tid]

def view (threads : Threads Tid α) (thread : Tid) : View α :=
  match threads.place thread with
  | .outside | .locking _ | .inside _ => .before
  | .waiting => if thread ∈ threads.woken then .woken else .parked
  | .unlocking ticket _ => .done (threads.resultOf ticket)
  | .leaving ticket _ => .done (threads.resultOf ticket)

/-- What the call of a thread will return. -/
def returns (threads : Threads Tid α) (thread : Tid) : Option (Returned α) :=
  (threads.place thread).carries.bind fun carried => answer threads.queue carried.2

/-- The queue holds `items`, and every invariant of the threads holds. -/
def Holds (threads : Threads Tid α) (items : List α) : Prop :=
  Discipline threads ∧ ∃ path results, Ownership threads path items results

variable {threads next : Threads Tid α} {path after : List Addr} {items stored : List α}
variable {results extended : List (Result α)}

omit [DecidableEq Tid] in
private theorem Ownership.resultOf_eq (owned : Ownership threads path items results)
    (ticket : Nat) :
    threads.resultOf ticket = results[ticket]? := by
  simp [resultOf, owned.replayed]

omit [DecidableEq Tid] in
/-- Later critical sections leave the results of earlier ones alone. -/
theorem Ownership.resultOf_later (owned : Ownership threads path items results)
    (later : Ownership next after stored extended) (history : threads.history <+: next.history)
    (known : results[ticket]? = some result) : next.resultOf ticket = some result := by
  obtain ⟨more, grown⟩ := history
  obtain ⟨middle, before, _⟩ := Fifo.replay_split later.replayed threads.history.length
  rw [← grown, List.take_left, owned.replayed] at before
  cases before
  rw [later.resultOf_eq]
  have inside := (List.getElem?_eq_some_iff.mp known).1
  rw [List.getElem?_take] at known
  simp only [List.length_take] at inside
  rw [if_pos (by omega)] at known
  exact known

private theorem view_kept (owned : Ownership threads path items results)
    (later : Ownership next after stored extended) (history : threads.history <+: next.history)
    (place : next.place thread = threads.place thread)
    (woken : thread ∈ next.woken ↔ thread ∈ threads.woken) :
    next.view thread = threads.view thread := by
  have same {ticket : Nat} (locals : Locals)
      (carries : (threads.place thread).carries = some (ticket, locals)) :
      next.resultOf ticket = threads.resultOf ticket := by
    obtain ⟨value, result, _, known, _⟩ := owned.tickets carries
    rw [owned.resultOf_later later history known, owned.resultOf_eq, known]
  unfold view
  rw [place]
  cases here : threads.place thread with
  | outside | locking _ | inside _ => rfl
  | waiting => simp only [woken]
  | unlocking ticket locals | leaving ticket locals =>
    exact congrArg View.done (same locals (by simp [here, Place.carries]))

omit [DecidableEq Tid] in
private theorem moves_none {body : Body α} {q r : Queue α} {locals : Locals} {wake : Wake}
    {result : Result α} {parked chosen : Finset Tid}
    (effect : Effect q path items body r locals wake after stored result)
    (silent : wakes result = false) (moves : wake.Moves parked chosen) : chosen = ∅ := by
  cases effect with
  | accepted _ _ _ _ | close => cases silent
  | refused _ _ | taken _ _ _ _ _ _ _ | null _ _ | isclosed | size => exact moves

omit [DecidableEq Tid] in
private theorem moves_some {body : Body α} {q r : Queue α} {locals : Locals} {wake : Wake}
    {result : Result α} {parked chosen : Finset Tid}
    (effect : Effect q path items body r locals wake after stored result)
    (woke : wakes result = true) (moves : wake.Moves parked chosen) (waits : parked.Nonempty) :
    chosen.Nonempty := by
  cases effect with
  | accepted _ _ _ _ =>
    exact Finset.nonempty_iff_ne_empty.mpr (moves.2.resolve_left waits.ne_empty)
  | close => exact moves ▸ waits
  | refused _ _ | taken _ _ _ _ _ _ _ | null _ _ | isclosed | size => cases woke

/-- One thread moves, and nothing that the others see changes. -/
structure Moved (threads next : Threads Tid α) (items : List α) (thread : Tid) (view : View α)
    (asks : Option (Op α)) : Prop where
  holds : next.Holds items
  closed : next.queue.closed = threads.queue.closed
  others : ∀ other, other ≠ thread →
    next.place other = threads.place other ∧ next.view other = threads.view other
  view : next.view thread = view
  asks : (next.place thread).asks = asks

/-- A critical section ends with a result, and wakes the threads in `chosen`. -/
structure Ended (threads next : Threads Tid α) (left : List α) (thread : Tid)
    (chosen : Finset Tid) (result : Result α) : Prop where
  holds : next.Holds left
  others : ∀ other, other ≠ thread → next.place other = threads.place other ∧
    next.view other = if other ∈ chosen then .woken else threads.view other
  parked : ∀ other ∈ chosen, threads.view other = .parked
  woke : wakes result = true → ∀ other, threads.view other = .parked → chosen.Nonempty
  silent : wakes result = false → chosen = ∅
  view : next.view thread = .done (some result)
  asks : (next.place thread).asks = none

/-- What a step does to the items and to the views. -/
inductive Outcome (threads next : Threads Tid α) (items : List α) : Label Tid α → Prop where
  | call (idle : threads.place thread = .outside)
      (moved : Moved threads next items thread .before (some op)) :
      Outcome threads next items (.call thread op node)
  | lock (before : threads.view thread = .before)
      (moved : Moved threads next items thread .before (threads.place thread).asks) :
      Outcome threads next items (.lock thread)
  | wait (before : threads.view thread = .before)
      (asked : (threads.place thread).asks = some .dequeue) (nothing : items = [])
      (opened : threads.queue.closed = false)
      (moved : Moved threads next items thread .parked (some .dequeue)) :
      Outcome threads next items (.critical thread chosen)
  | finish (before : threads.view thread = .before)
      (asked : (threads.place thread).asks = some op)
      (performed : Fifo.perform ⟨items, threads.queue.closed⟩ op =
        some (⟨left, next.queue.closed⟩, result))
      (ended : Ended threads next left thread chosen result) :
      Outcome threads next items (.critical thread chosen)
  | unlock (done : ∃ result, threads.view thread = .done (some result))
      (moved : Moved threads next items thread (threads.view thread) none) :
      Outcome threads next items (.unlock thread)
  | leave (done : threads.view thread = .done (some result))
      (returned : threads.returns thread = some value) (agrees : value.Agrees result)
      (moved : Moved threads next items thread .before none)
      (out : next.place thread = .outside) : Outcome threads next items (.leave thread)
  | relock (woken : threads.view thread = .woken)
      (moved : Moved threads next items thread .before (some .dequeue)) :
      Outcome threads next items (.relock thread)
  | spurious (parked : threads.view thread = .parked)
      (moved : Moved threads next items thread .woken (some .dequeue)) :
      Outcome threads next items (.spurious thread)

theorem Holds.parked_iff (holds : threads.Holds items) :
    thread ∈ threads.parked ↔ threads.view thread = .parked := by
  obtain ⟨valid, _⟩ := holds
  constructor
  · intro parked
    have waiting := (valid.waiting thread).mp (.inl parked)
    have asleep : thread ∉ threads.woken := Finset.disjoint_left.mp valid.disjoint parked
    simp [view, waiting, asleep]
  · intro seen
    have waiting : threads.place thread = .waiting := by
      unfold view at seen
      split at seen <;> first | assumption | cases seen
    have asleep : thread ∉ threads.woken := by
      intro woken
      simp [view, waiting, woken] at seen
    exact ((valid.waiting thread).mpr waiting).resolve_right asleep

theorem view_waiting (waits : threads.view thread = .parked ∨ threads.view thread = .woken) :
    (threads.place thread).asks = some .dequeue := by
  unfold view at waits
  cases place : threads.place thread with
  | waiting => rfl
  | outside | locking _ | inside _ | unlocking _ _ | leaving _ _ => simp [place] at waits

private theorem view_done (carries : (threads.place thread).carries = some (ticket, locals)) :
    threads.view thread = .done (threads.resultOf ticket) := by
  unfold view
  cases place : threads.place thread with
  | outside | locking _ | inside _ | waiting => simp [place, Place.carries] at carries
  | unlocking index carried | leaving index carried =>
    cases (place ▸ carries : Place.carries _ = some (ticket, locals))
    rfl

/-- A step of one thread that leaves the history alone. -/
theorem Ownership.seen_moved (owned : Ownership threads path items results)
    (later : Ownership next after items extended) (valid : Discipline next)
    (history : next.history = threads.history) (closed : next.queue.closed = threads.queue.closed)
    (place : ∀ other, other ≠ thread → next.place other = threads.place other)
    (woken : ∀ other, other ≠ thread → (other ∈ next.woken ↔ other ∈ threads.woken))
    (view : next.view thread = seen) (asks : (next.place thread).asks = asked) :
    Moved threads next items thread seen asked where
  holds := ⟨valid, _, _, later⟩
  closed := closed
  others := fun other different => ⟨place other different, view_kept owned later
    (history ▸ List.prefix_refl _) (place other different) (woken other different)⟩
  view := view
  asks := asks

omit [DecidableEq Tid] in
private theorem exists_done (owned : Ownership threads path items results)
    (carries : (threads.place thread).carries = some (ticket, locals)) :
    ∃ value result, answer threads.queue locals = some value ∧
      threads.resultOf ticket = some result ∧ value.Agrees result := by
  obtain ⟨value, result, answered, known, agrees⟩ := owned.tickets carries
  exact ⟨value, result, answered, (owned.resultOf_eq ticket).trans known, agrees⟩

/-- Every step has one of the outcomes. -/
theorem Holds.outcome (holds : threads.Holds items) (taken : Took threads label next) :
    Outcome threads next items label := by
  have before := holds
  obtain ⟨valid, path, results, owned⟩ := holds
  have ordered : Discipline next := valid.step taken
  cases taken with
  | @call thread node op q body idle began =>
    refine .call idle (owned.seen_moved (owned.call idle began) ordered rfl (prologue_closed began)
      ?_ (fun _ _ => Iff.rfl) ?_ ?_)
    · intro other different
      simp [different]
    · simp [view]
    · simp [Place.asks, prologue_op began]
  | @lock thread body free ready =>
    have later : Ownership ({ threads with owner := some thread }.goto thread (.inside body))
        path items results := owned.relocated rfl rfl rfl rfl (by simp [ready, Place.brings])
          (by simp [ready, Place.carries])
    refine .lock (by simp [view, ready]) (owned.seen_moved later ordered rfl rfl ?_
      (fun _ _ => Iff.rfl) ?_ ?_)
    · intro other different
      simp [different]
    · simp [view]
    · simp [ready, Place.asks]
  | @wait thread body chosen ready waits =>
    obtain ⟨rfl, nothing, opened⟩ := owned.waits_dequeue ready waits
    have later : Ownership ({ threads with
          owner := none, parked := insert thread threads.parked }.goto thread .waiting)
        path items results := owned.relocated rfl rfl rfl rfl
          (by simp [ready, Place.brings, Body.brings]) (by simp [ready, Place.carries])
    have awake : thread ∉ threads.woken := by
      intro woken
      have waiting := (valid.waiting thread).mp (.inr woken)
      simp [ready] at waiting
    refine .wait (by simp [view, ready]) (by simp [ready, Place.asks, Body.op]) nothing opened
      (owned.seen_moved later ordered rfl rfl ?_ (fun _ _ => Iff.rfl) ?_ ?_)
    · intro other different
      simp [different]
    · simp [view, awake]
    · simp [Place.asks]
  | @finish thread body q locals wake chosen ready finished moves =>
    obtain ⟨after, stored, result, effect⟩ := owned.effect_of_finished ready finished
    have later : Ownership ({ threads with
          queue := q
          parked := threads.parked \ chosen
          woken := threads.woken ∪ chosen
          history := threads.history ++ [body.op]
        }.goto thread (.unlocking threads.history.length locals)) after stored
        (results ++ [result]) := owned.finish ready effect
    have inside := moves_subset moves
    refine .finish (by simp [view, ready]) (by simp [ready, Place.asks]) effect.performed
      ⟨⟨ordered, _, _, later⟩, ?_, ?_, ?_, ?_, ?_, by simp [Place.asks]⟩
    · intro other different
      refine ⟨by simp [different], ?_⟩
      by_cases called : other ∈ chosen
      · have waiting := (valid.waiting other).mp (.inl (inside called))
        simp [view, different, waiting, called]
      · rw [if_neg called]
        refine view_kept owned later (List.prefix_append _ _) (by simp [different]) ?_
        simp [called]
    · exact fun other called => before.parked_iff.mp (inside called)
    · intro woke other asleep
      exact moves_some effect woke moves ⟨other, before.parked_iff.mpr asleep⟩
    · exact fun silent => moves_none effect silent moves
    · simp only [view, goto_place, Function.update_self, later.resultOf_eq]
      rw [← Fifo.replay_length owned.replayed]
      simp
  | @unlock thread ticket locals ready =>
    have later : Ownership ({ threads with owner := none }.goto thread (.leaving ticket locals))
        path items results := owned.relocated rfl rfl rfl rfl (by simp [ready, Place.brings])
          (by simp [ready, Place.carries])
    have carries : (threads.place thread).carries = some (ticket, locals) := by
      simp [ready, Place.carries]
    obtain ⟨value, result, _, known, _⟩ := exists_done owned carries
    refine .unlock ⟨result, ?_⟩ (owned.seen_moved later ordered rfl rfl ?_ (fun _ _ => Iff.rfl) ?_ ?_)
    · rw [view_done carries, known]
    · intro other different
      simp [different]
    · rw [view_done carries]
      simp [view, resultOf]
    · simp [Place.asks]
  | @leave thread ticket locals q value ready ended =>
    have carries : (threads.place thread).carries = some (ticket, locals) := by
      simp [ready, Place.carries]
    obtain ⟨given, result, answered, known, agrees⟩ := exists_done owned carries
    have same : given = value := by simpa [answer, ended] using answered.symm
    subst same
    refine .leave (by rw [view_done carries, known]) ?_ agrees (owned.seen_moved
      (owned.leave ready ended) ordered rfl (epilogue_closed ended) ?_ (fun _ _ => Iff.rfl) ?_ ?_) ?_
    · simp [returns, carries, answered]
    · intro other different
      simp [different]
    · simp [view]
    · simp [Place.asks]
    · simp
  | @relock thread free called =>
    have waiting := (valid.waiting thread).mp (.inr called)
    have later : Ownership ({ threads with
          owner := some thread, woken := threads.woken.erase thread }.goto thread (.inside .dequeue))
        path items results := owned.relocated rfl rfl rfl rfl
          (by simp [waiting, Place.brings, Body.brings]) (by simp [waiting, Place.carries])
    refine .relock (by simp [view, waiting, called]) (owned.seen_moved later ordered rfl rfl ?_ ?_
      ?_ ?_)
    · intro other different
      simp [different]
    · intro other different
      simp [different]
    · simp [view]
    · simp [Place.asks, Body.op]
  | @spurious thread waits =>
    have later : Ownership { threads with
          parked := threads.parked.erase thread, woken := insert thread threads.woken }
        path items results := Ownership.moved owned rfl rfl rfl (fun _ => rfl) (fun _ => rfl)
    have waiting := (valid.waiting thread).mp (.inl waits)
    refine .spurious (before.parked_iff.mp waits) (owned.seen_moved later ordered rfl rfl
      (fun _ _ => rfl) ?_ ?_ ?_)
    · intro other different
      simp [different]
    · simp [view, waiting]
    · simp [waiting, Place.asks]

end Threads

end RequestProxy.Librequest
