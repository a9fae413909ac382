import Mathlib.Data.List.Range
import Mathlib.Data.List.Perm.Basic

namespace RequestProxy.Abstract

universe u v

variable {α : Type u}

/-- What one destination gets of a list of sends. -/
def routed (index : Nat) (sends : List (α × Nat)) : List α :=
  (sends.filter fun send => send.2 = index).map Prod.fst

@[simp] theorem routed_nil (index : Nat) : routed index ([] : List (α × Nat)) = [] := rfl

@[simp] theorem routed_append (index : Nat) (first second : List (α × Nat)) :
    routed index (first ++ second) = routed index first ++ routed index second := by
  simp [routed]

theorem routed_single (index : Nat) (send : α × Nat) :
    routed index [send] = if send.2 = index then [send.1] else [] := by
  by_cases same : send.2 = index <;> simp [routed, same]

/-- Every item goes to exactly one destination. -/
theorem routed_perm (sends : List (α × Nat)) (count : Nat) :
    ((List.range count).flatMap fun index => routed index sends).Perm
      ((sends.filter fun send => send.2 < count).map Prod.fst) := by
  induction count with
  | zero => simp
  | succ count ih =>
    have split := (List.filter_append_perm (fun send => decide (send.2 < count))
      (sends.filter fun send => send.2 < count + 1)).map Prod.fst
    have below : (sends.filter fun send => send.2 < count + 1).filter
        (fun send => decide (send.2 < count)) = sends.filter fun send => send.2 < count := by
      rw [List.filter_filter]
      refine List.filter_congr fun send _ => ?_
      grind
    have top : (sends.filter fun send => send.2 < count + 1).filter
        (fun send => !decide (send.2 < count)) = sends.filter fun send => send.2 = count := by
      rw [List.filter_filter]
      refine List.filter_congr fun send _ => ?_
      grind
    rw [below, top, List.map_append] at split
    simpa [List.range_succ, routed] using (ih.append_right _).trans split

theorem routed_perm_all (sends : List (α × Nat)) (inside : ∀ send ∈ sends, send.2 < count) :
    ((List.range count).flatMap fun index => routed index sends).Perm (sends.map Prod.fst) := by
  have everything : (sends.filter fun send => send.2 < count) = sends := by
    simpa [List.filter_eq_self] using inside
  simpa [everything] using routed_perm sends count

end RequestProxy.Abstract
