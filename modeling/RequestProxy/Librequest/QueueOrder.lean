import RequestProxy.Abstract.FifoOrder
import RequestProxy.Librequest.QueueLinear

namespace RequestProxy.Librequest.Timed

open RequestProxy.Abstract

universe u

variable {Tid α : Type u} {timed : Timed Tid α} {path : List Addr} {items : List α}
variable {results : List (Result α)}

theorem Timely.effect (timely : timed.Timely)
    (owned : timed.threads.Ownership path items results) {index : Nat}
    {call : Call (Op α) (Returned α)} (made : timed.calls[index]? = some call) :
    ∃ place result, timed.places[index]? = some place ∧
      timed.threads.history[place]? = some call.op ∧ results[place]? = some result ∧
      call.answer.Agrees result := by
  obtain ⟨place, point, here, found, has⟩ := (timely.linearizes owned).at made
  obtain ⟨_, at_op, at_result⟩ :=
    points_found timely.counted (Fifo.replay_length owned.replayed) found
  exact ⟨place, point.result, here, has.op ▸ at_op, at_result, has.answer⟩

/-- Every call of the operation that has taken effect, returned or not, began at
the time or later. -/
structure BegunFrom (timed : Timed Tid α) (time : Nat) (op : Op α) : Prop where
  returned : ∀ call ∈ timed.calls, call.op = op → time ≤ call.start
  pending : ∀ thread, (timed.threads.place thread).carries.isSome → (timed.began thread).2 = op →
    time ≤ (timed.began thread).1

/-- The calls of an operation that began after a call had returned take effect
after that call. -/
theorem BegunFrom.place_lt (timely : timed.Timely)
    (owned : timed.threads.Ownership path items results) {place later : Nat}
    {point : Point (Op α) (Result α)} {call : Call (Op α) (Returned α)}
    (apart : timed.BegunFrom call.finish op)
    (here : (pointsOf timed.moments timed.threads.history results)[place]? = some point)
    (has : call.Has Returned.Agrees point) (asked : timed.threads.history[later]? = some op) :
    place < later := by
  have linearizes := timely.linearizes owned
  have inside := (List.getElem?_eq_some_iff.mp asked).1
  have moment := List.getElem?_eq_getElem (timely.counted ▸ inside)
  have result := List.getElem?_eq_getElem (Fifo.replay_length owned.replayed ▸ inside)
  have there := points_at moment asked result
  refine linearizes.place_lt here there ?_
  rcases linearizes.covered later _ there with member | ⟨thread, locals, value, pending⟩
  · obtain ⟨other, made, same, found, hasOther⟩ := linearizes.call_at member
    cases there.symm.trans found
    have late := apart.returned other made hasOther.op.symm
    exact Nat.lt_of_lt_of_le has.finished (Nat.le_trans late hasOther.started.le)
  · obtain ⟨carries, _, _, sameOp, started⟩ := pending
    have late := apart.pending thread (carries ▸ rfl) sameOp
    exact Nat.lt_of_lt_of_le has.finished (Nat.le_trans late started.le)

variable [DecidableEq Tid] {labels : List (Threads.Label Tid α)}
variable {first second third : Call (Op α) (Returned α)} {one two : α}

/-- A request that was accepted before the enqueue of another began has been
given to a consumer when the other is: the consumer has returned it, or its call
is about to. -/
theorem requests_in_order (ran : Transition.run step init labels = some timed)
    (firstMade : first ∈ timed.calls) (firstOp : first.op = .enqueue one)
    (firstAnswer : first.answer = .accepted) (apart : timed.BegunFrom first.finish (.enqueue two))
    (thirdMade : third ∈ timed.calls) (thirdOp : third.op = .dequeue)
    (thirdAnswer : third.answer = .item two) :
    (∃ call ∈ timed.calls, call.op = .dequeue ∧ call.answer = .item one ∧
      call.start < third.finish) ∨
    ∃ thread ticket locals, (timed.threads.place thread).carries = some (ticket, locals) ∧
      (timed.began thread).2 = .dequeue ∧ (timed.began thread).1 < third.finish ∧
      answer timed.threads.queue locals = some (.item one) := by
  obtain ⟨⟨_, path, items, results, owned⟩, timely⟩ :=
    timely_invariant.run (fun _ _ => trivial) ran
  have linearizes := timely.linearizes owned
  obtain ⟨early, firstAt⟩ := List.getElem?_of_mem firstMade
  obtain ⟨last, thirdAt⟩ := List.getElem?_of_mem thirdMade
  obtain ⟨firstPlace, taking, _, firstFound, firstHas⟩ := linearizes.at firstAt
  obtain ⟨_, firstAsked, firstResult⟩ :=
    points_found timely.counted (Fifo.replay_length owned.replayed) firstFound
  rw [firstHas.op, firstOp] at firstAsked
  have accepted : taking.result = .accepted :=
    Returned.accepted_agrees (firstAnswer ▸ firstHas.answer)
  rw [accepted] at firstResult
  obtain ⟨thirdPlace, point, thirdThere, thirdFound, thirdHas⟩ := linearizes.at thirdAt
  obtain ⟨thirdMoment, thirdAsked, thirdResult⟩ :=
    points_found timely.counted (Fifo.replay_length owned.replayed) thirdFound
  rw [thirdHas.op, thirdOp] at thirdAsked
  have item : point.result = .item two := Returned.item_agrees (thirdAnswer ▸ thirdHas.answer)
  rw [item] at thirdResult
  obtain ⟨before, sooner, asked, served⟩ := Fifo.no_overtaking owned.replayed firstAsked firstResult
    (fun _ asks => apart.place_lt timely owned firstFound firstHas asks) thirdAsked thirdResult
  have bound : before < timed.moments.length := by
    rw [timely.counted]
    exact (List.getElem?_eq_some_iff.mp asked).1
  have taken := points_at (List.getElem?_eq_getElem bound) asked served
  have ended := Nat.lt_trans (linearizes.moment_lt taken thirdFound sooner) thirdHas.finished
  rcases linearizes.covered before _ taken with member | ⟨thread, locals, value, pending⟩
  · left
    obtain ⟨call, made, same, found, has⟩ := linearizes.call_at member
    cases found.symm.trans taken
    exact ⟨call, made, has.op.symm, Returned.agrees_item has.answer, Nat.lt_trans has.started ended⟩
  · right
    obtain ⟨carries, answered, agrees, op, started⟩ := pending
    cases Returned.agrees_item agrees
    exact ⟨thread, before, locals, carries, op, Nat.lt_trans started ended, answered⟩

/-- Two producers, one after the other, of which the second has not returned,
and two consumers. -/
def orderRun : List (Threads.Label Nat Nat) :=
  [.call 0 (.enqueue 7) 40, .lock 0, .critical 0 ∅, .unlock 0, .leave 0,
    .call 1 (.enqueue 8) 41, .lock 1, .critical 1 ∅, .unlock 1,
    .call 2 .dequeue 0, .call 3 .dequeue 0, .lock 2, .critical 2 ∅, .unlock 2,
    .lock 3, .critical 3 ∅, .unlock 3, .leave 3]

/-- The consumer that takes the second request returns first. -/
theorem requests_in_order_sample :
    ∃ timed : Timed Nat Nat, Transition.run step init orderRun = some timed ∧
      ((∃ call ∈ timed.calls, call.op = .dequeue ∧ call.answer = .item 7 ∧ call.start < 17) ∨
      ∃ thread ticket locals, (timed.threads.place thread).carries = some (ticket, locals) ∧
        (timed.began thread).2 = .dequeue ∧ (timed.began thread).1 < 17 ∧
        answer timed.threads.queue locals = some (.item 7)) := by
  obtain ⟨timed, ran, calls, began⟩ : ∃ timed : Timed Nat Nat,
      Transition.run step init orderRun = some timed ∧
      timed.calls = [⟨0, 4, .enqueue 7, .accepted⟩, ⟨10, 17, .dequeue, .item 8⟩] ∧
      timed.began = Function.update (Function.update (Function.update (Function.update
        (fun _ => (0, .dequeue)) 0 (0, .enqueue 7)) 1 (5, .enqueue 8)) 2 (9, .dequeue))
        3 (10, .dequeue) := ⟨_, rfl, rfl, rfl⟩
  have firstMade : ⟨0, 4, .enqueue 7, .accepted⟩ ∈ timed.calls := by simp [calls]
  have thirdMade : ⟨10, 17, .dequeue, .item 8⟩ ∈ timed.calls := by simp [calls]
  have apart : timed.BegunFrom 4 (.enqueue 8) := by
    refine ⟨by simp [calls], ?_⟩
    intro thread _ asks
    by_cases second : thread = 1
    · subst second
      simp [began]
    · simp only [began, Function.update_apply, second] at asks
      grind
  exact ⟨timed, ran, requests_in_order ran firstMade rfl rfl apart thirdMade rfl rfl⟩

/-- A close is final for the calls that begin after it has returned, and so is
the NULL of a dequeue: requests are refused, and after the NULL every dequeue
answers NULL. -/
theorem close_is_final (ran : Transition.run step init labels = some timed)
    (firstMade : first ∈ timed.calls)
    (ended : first.op = .close ∨ first.op = .dequeue ∧ first.answer = .null)
    (secondMade : second ∈ timed.calls) (apart : first.finish ≤ second.start) :
    (∀ req, second.op = .enqueue req → second.answer = .refused) ∧
    (first.op = .dequeue → second.op = .dequeue → second.answer = .null) := by
  obtain ⟨⟨_, path, items, results, owned⟩, timely⟩ :=
    timely_invariant.run (fun _ _ => trivial) ran
  obtain ⟨early, firstAt⟩ := List.getElem?_of_mem firstMade
  obtain ⟨late, secondAt⟩ := List.getElem?_of_mem secondMade
  obtain ⟨place, decided, here, asked, given, agrees⟩ := timely.effect owned firstAt
  obtain ⟨next, result, there, asks, found, follows⟩ := timely.effect owned secondAt
  have order := (timely.linearizes owned).real_time firstAt secondAt apart here there
  constructor
  · intro req isEnqueue
    have closes : Op.close ∈ timed.threads.history.take next := by
      rcases ended with isClose | ⟨isDequeue, isNull⟩
      · apply List.mem_of_getElem?
        rw [List.getElem?_take_of_lt order, asked, isClose]
      · cases Returned.null_agrees (isNull ▸ agrees)
        exact List.take_subset_take_left _ order.le
          (Fifo.closed_before_null owned.replayed (isDequeue ▸ asked) given)
    cases found.symm.trans (Fifo.refused_after owned.replayed closes (isEnqueue ▸ asks))
    exact Returned.agrees_refused follows
  · intro isDequeue asksMore
    have isNull : first.answer = .null := by
      rcases ended with isClose | ⟨_, isNull⟩
      · cases isClose.symm.trans isDequeue
      · exact isNull
    cases Returned.null_agrees (isNull ▸ agrees)
    cases found.symm.trans (Fifo.null_after owned.replayed (isDequeue ▸ asked) given order
      (asksMore ▸ asks))
    exact Returned.agrees_null follows

/-- A close, and then a producer and two consumers. -/
def closedRun : List (Threads.Label Nat Nat) :=
  [.call 0 .close 0, .lock 0, .critical 0 ∅, .unlock 0, .leave 0,
    .call 1 .dequeue 0, .lock 1, .critical 1 ∅, .unlock 1, .leave 1,
    .call 2 (.enqueue 7) 40, .lock 2, .critical 2 ∅, .unlock 2, .leave 2]

theorem close_is_final_sample :
    ∃ timed : Timed Nat Nat, Transition.run step init closedRun = some timed ∧
      ∃ second ∈ timed.calls, second.op = .enqueue 7 ∧ second.answer = .refused := by
  obtain ⟨timed, ran, calls⟩ : ∃ timed : Timed Nat Nat,
      Transition.run step init closedRun = some timed ∧
      timed.calls = [⟨0, 4, .close, .closed⟩, ⟨5, 9, .dequeue, .null⟩,
        ⟨10, 14, .enqueue 7, .refused⟩] := ⟨_, rfl, rfl⟩
  have firstMade : ⟨5, 9, .dequeue, .null⟩ ∈ timed.calls := by simp [calls]
  have secondMade : ⟨10, 14, .enqueue 7, .refused⟩ ∈ timed.calls := by simp [calls]
  have final := close_is_final ran firstMade (.inr ⟨rfl, rfl⟩) secondMade (by decide)
  exact ⟨timed, ran, ⟨10, 14, .enqueue 7, .refused⟩, secondMade, rfl, final.1 7 rfl⟩

end RequestProxy.Librequest.Timed
