import Mathlib.Data.List.Forall2
import Mathlib.Data.List.Pairwise

/-! Calls of a shared object that overlap in time. They are linearizable when
each takes effect at one point of time between its start and its end, so that
the points, in order, are a history of the object used by one caller. -/

namespace RequestProxy.Abstract

universe u v w

variable {Op : Type u} {Ret : Type v} {Res : Type w}

/-- A call that has returned. -/
structure Call (Op : Type u) (Ret : Type v) where
  start : Nat
  finish : Nat
  op : Op
  answer : Ret

/-- The moment at which a call takes effect, and what it does. -/
structure Point (Op : Type u) (Res : Type w) where
  moment : Nat
  op : Op
  result : Res

/-- The point is one of the call, within the time that the call takes. -/
structure Call.Has (agrees : Ret → Res → Prop) (call : Call Op Ret) (point : Point Op Res) :
    Prop where
  op : point.op = call.op
  answer : agrees call.answer point.result
  started : call.start < point.moment
  finished : point.moment < call.finish

/-- The points explain the calls: they are a history of the object, and each
call has the one at its place. The other points are of calls that are pending:
they have not returned yet. -/
structure Linearizes (legal : List Op → List Res → Prop) (agrees : Ret → Res → Prop)
    (pending : Nat → Point Op Res → Prop) (calls : List (Call Op Ret))
    (points : List (Point Op Res)) (places : List Nat) : Prop where
  legal : legal (points.map Point.op) (points.map Point.result)
  ordered : points.Pairwise fun first second => first.moment < second.moment
  distinct : places.Nodup
  placed : List.Forall₂ (fun call place => ∃ point, points[place]? = some point ∧
    call.Has agrees point) calls places
  covered : ∀ place point, points[place]? = some point → place ∈ places ∨ pending place point

variable {legal : List Op → List Res → Prop} {agrees : Ret → Res → Prop}
variable {pending : Nat → Point Op Res → Prop}
variable {calls : List (Call Op Ret)} {points : List (Point Op Res)} {places : List Nat}

theorem Linearizes.at (linearizes : Linearizes legal agrees pending calls points places)
    {index : Nat} {call : Call Op Ret} (made : calls[index]? = some call) :
    ∃ place point, places[index]? = some place ∧ points[place]? = some point ∧
      call.Has agrees point := by
  have inside := (List.getElem?_eq_some_iff.mp made).1
  have same := linearizes.placed.length_eq
  have there : places[index]? = some places[index] := List.getElem?_eq_getElem (same ▸ inside)
  have placed := linearizes.placed.get inside (same ▸ inside)
  obtain ⟨point, found, has⟩ := placed
  have here : calls.get ⟨index, inside⟩ = call := (List.getElem?_eq_some_iff.mp made).2
  exact ⟨_, point, there, found, here ▸ has⟩

/-- The call whose effect is at a place. -/
theorem Linearizes.call_at (linearizes : Linearizes legal agrees pending calls points places)
    {place : Nat} (member : place ∈ places) :
    ∃ call ∈ calls, ∃ point, points[place]? = some point ∧ call.Has agrees point := by
  obtain ⟨index, inside, rfl⟩ := List.getElem_of_mem member
  have bound : index < calls.length := linearizes.placed.length_eq ▸ inside
  obtain ⟨point, found, has⟩ := linearizes.placed.get bound inside
  exact ⟨calls.get ⟨index, bound⟩, List.get_mem _ _, point, found, has⟩

theorem Linearizes.moment_lt (linearizes : Linearizes legal agrees pending calls points places)
    {first second : Nat} {earlier later : Point Op Res} (before : points[first]? = some earlier)
    (after : points[second]? = some later) (order : first < second) :
    earlier.moment < later.moment := by
  obtain ⟨insideFirst, isFirst⟩ := List.getElem?_eq_some_iff.mp before
  obtain ⟨insideSecond, isSecond⟩ := List.getElem?_eq_some_iff.mp after
  have increasing := List.pairwise_iff_getElem.mp linearizes.ordered
  rw [← isFirst, ← isSecond]
  exact increasing first second insideFirst insideSecond order

theorem Linearizes.place_lt (linearizes : Linearizes legal agrees pending calls points places)
    {first second : Nat} {earlier later : Point Op Res} (before : points[first]? = some earlier)
    (after : points[second]? = some later) (order : earlier.moment < later.moment) :
    first < second := by
  by_contra reversed
  rcases Nat.lt_or_eq_of_le (Nat.le_of_not_lt reversed) with less | same
  · exact Nat.lt_asymm order (linearizes.moment_lt after before less)
  · subst same
    cases before.symm.trans after
    exact Nat.lt_irrefl _ order

/-- Calls that do not overlap take effect in the order in which they were made. -/
theorem Linearizes.real_time (linearizes : Linearizes legal agrees pending calls points places)
    {first second place next : Nat} {earlier later : Call Op Ret}
    (before : calls[first]? = some earlier) (after : calls[second]? = some later)
    (apart : earlier.finish ≤ later.start) (here : places[first]? = some place)
    (there : places[second]? = some next) : place < next := by
  obtain ⟨_, point, at_place, found, has⟩ := linearizes.at before
  obtain ⟨_, other, at_next, foundNext, hasNext⟩ := linearizes.at after
  cases here.symm.trans at_place
  cases there.symm.trans at_next
  have order : point.moment < other.moment := by
    have ended := has.finished
    have began := hasNext.started
    omega
  exact linearizes.place_lt found foundNext order

/-- The points whose moments, operations and results are three lists. -/
def pointsOf (moments : List Nat) (ops : List Op) (results : List Res) : List (Point Op Res) :=
  (moments.zip (ops.zip results)).map fun entry => ⟨entry.1, entry.2.1, entry.2.2⟩

section Points

variable {moments : List Nat} {ops : List Op} {results : List Res}

theorem points_ops (same : moments.length = ops.length) (length : results.length = ops.length) :
    (pointsOf moments ops results).map Point.op = ops := by
  have inner : (ops.zip results).map Prod.fst = ops := List.map_fst_zip (by omega)
  have outer : (moments.zip (ops.zip results)).map Prod.snd = ops.zip results :=
    List.map_snd_zip (by rw [List.length_zip]; omega)
  calc (pointsOf moments ops results).map Point.op
      = ((moments.zip (ops.zip results)).map Prod.snd).map Prod.fst := by
        simp [pointsOf, Function.comp_def]
    _ = ops := by rw [outer, inner]

theorem points_results (same : moments.length = ops.length) (length : results.length = ops.length) :
    (pointsOf moments ops results).map Point.result = results := by
  have inner : (ops.zip results).map Prod.snd = results := List.map_snd_zip (by omega)
  have outer : (moments.zip (ops.zip results)).map Prod.snd = ops.zip results :=
    List.map_snd_zip (by rw [List.length_zip]; omega)
  calc (pointsOf moments ops results).map Point.result
      = ((moments.zip (ops.zip results)).map Prod.snd).map Prod.snd := by
        simp [pointsOf, Function.comp_def]
    _ = results := by rw [outer, inner]

theorem points_moments (same : moments.length = ops.length) (length : results.length = ops.length) :
    (pointsOf moments ops results).map Point.moment = moments := by
  have outer : (moments.zip (ops.zip results)).map Prod.fst = moments :=
    List.map_fst_zip (by rw [List.length_zip]; omega)
  calc (pointsOf moments ops results).map Point.moment
      = (moments.zip (ops.zip results)).map Prod.fst := by simp [pointsOf, Function.comp_def]
    _ = moments := outer

theorem points_at {place moment : Nat} {op : Op} {result : Res} (at_moment : moments[place]? = some moment)
    (at_op : ops[place]? = some op) (at_result : results[place]? = some result) :
    (pointsOf moments ops results)[place]? = some ⟨moment, op, result⟩ := by
  have both : (ops.zip results)[place]? = some (op, result) :=
    List.getElem?_zip_eq_some.mpr ⟨at_op, at_result⟩
  have all : (moments.zip (ops.zip results))[place]? = some (moment, op, result) :=
    List.getElem?_zip_eq_some.mpr ⟨at_moment, both⟩
  rw [pointsOf, List.getElem?_map, all]
  rfl

theorem points_found {place : Nat} {point : Point Op Res} (same : moments.length = ops.length)
    (length : results.length = ops.length)
    (found : (pointsOf moments ops results)[place]? = some point) :
    moments[place]? = some point.moment ∧ ops[place]? = some point.op ∧
      results[place]? = some point.result := by
  refine ⟨?_, ?_, ?_⟩
  · rw [← points_moments same length, List.getElem?_map, found]
    rfl
  · rw [← points_ops same length, List.getElem?_map, found]
    rfl
  · rw [← points_results same length, List.getElem?_map, found]
    rfl

/-- Operations that were performed one after the other, and the calls that
performed them, each at the place of its own. -/
theorem linearizes_points (same : moments.length = ops.length) (length : results.length = ops.length)
    (allowed : legal ops results) (ordered : moments.Pairwise (· < ·)) (distinct : places.Nodup)
    (placed : List.Forall₂ (fun call place => ∃ moment result, moments[place]? = some moment ∧
      ops[place]? = some call.op ∧ results[place]? = some result ∧ agrees call.answer result ∧
      call.start < moment ∧ moment < call.finish) calls places)
    (covered : ∀ place moment op result, moments[place]? = some moment → ops[place]? = some op →
      results[place]? = some result → place ∈ places ∨ pending place ⟨moment, op, result⟩) :
    Linearizes legal agrees pending calls (pointsOf moments ops results) places where
  legal := by
    rw [points_ops same length, points_results same length]
    exact allowed
  ordered := by
    rw [← points_moments same length, List.pairwise_map] at ordered
    exact ordered
  distinct := distinct
  placed := by
    apply placed.imp
    rintro call place ⟨moment, result, at_moment, at_op, at_result, answers, started, finished⟩
    exact ⟨_, points_at at_moment at_op at_result, rfl, answers, started, finished⟩
  covered := by
    intro place point found
    obtain ⟨at_moment, at_op, at_result⟩ := points_found same length found
    exact covered place point.moment point.op point.result at_moment at_op at_result

end Points

end RequestProxy.Abstract
