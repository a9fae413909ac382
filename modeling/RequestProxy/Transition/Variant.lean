import Mathlib.Algebra.BigOperators.Group.Finset.Basic
import Mathlib.Algebra.Order.BigOperators.Group.Finset
import RequestProxy.Transition.System

namespace RequestProxy.Transition

universe u v

variable {State : Type u} {Label : Type v} {step : State → Label → Option State}
variable {ranks : State → Nat → Prop} {holds : State → Prop} {own : Label → Bool}
variable {size : State → Nat} {cost rank : Nat}
variable {state start final next : State} {labels : List Label} {label : Label}

/-- A state may have several ranks. From each of them an own step leads to a
smaller one, and any other step to one that is greater by its cost at most. -/
structure Ranking (step : State → Label → Option State) (ranks : State → Nat → Prop)
    (own : Label → Bool) (cost : Nat) : Prop where
  falls : ∀ {state label next rank}, ranks state rank → own label = true →
    step state label = some next → ∃ less, ranks next less ∧ less < rank
  rises : ∀ {state label next rank}, ranks state rank → own label = false →
    step state label = some next → ∃ more, ranks next more ∧ more ≤ rank + cost

/-- The own steps of a run are paid for by the rank it starts with and by its
other steps. -/
theorem Ranking.count_own (ranking : Ranking step ranks own cost)
    (now : ranks start rank) (reached : run step start labels = some final) :
    ∃ left, ranks final left ∧ labels.countP own + left ≤
      rank + cost * labels.countP fun label => !own label := by
  induction labels generalizing start rank with
  | nil =>
    cases reached
    exact ⟨rank, now, by simp⟩
  | cons label rest ih =>
    rw [run_cons] at reached
    obtain ⟨next, taken, continued⟩ := Option.bind_eq_some_iff.mp reached
    cases kind : own label with
    | true =>
      obtain ⟨less, after, lower⟩ := ranking.falls now kind taken
      obtain ⟨left, ended, later⟩ := ih after continued
      refine ⟨left, ended, ?_⟩
      rw [List.countP_cons_of_pos kind, List.countP_cons_of_neg (by simp [kind])]
      omega
    | false =>
      obtain ⟨more, after, higher⟩ := ranking.rises now kind taken
      obtain ⟨left, ended, later⟩ := ih after continued
      refine ⟨left, ended, ?_⟩
      rw [List.countP_cons_of_neg (by simp [kind]), List.countP_cons_of_pos (by simp [kind]),
        Nat.mul_add, Nat.mul_one]
      omega

/-- A system that can always take an own step before its end comes to its end
by own steps, in no more of them than its rank. -/
theorem Ranking.completes (ranking : Ranking step ranks own cost) {finished : State → Prop}
    (moves : ∀ {state rank}, ranks state rank → ¬finished state →
      ∃ label next, own label = true ∧ step state label = some next)
    (now : ranks state rank) :
    ∃ labels final, (∀ label ∈ labels, own label = true) ∧ labels.length ≤ rank ∧
      run step state labels = some final ∧ finished final := by
  induction rank using Nat.strong_induction_on generalizing state with
  | h rank ih =>
    by_cases done : finished state
    · exact ⟨[], state, by simp, Nat.zero_le _, rfl, done⟩
    · obtain ⟨label, next, kind, taken⟩ := moves now done
      obtain ⟨less, after, lower⟩ := ranking.falls now kind taken
      obtain ⟨labels, final, owned, short, ran, ended⟩ := ih less lower after
      refine ⟨label :: labels, final, ?_, ?_, ?_, ended⟩
      · intro other member
        rcases List.mem_cons.mp member with rfl | later
        · exact kind
        · exact owned other later
      · rw [List.length_cons]
        omega
      · rw [run_cons, taken]
        exact ran

/-- Every step keeps `holds`, under which the own steps lower the size and the
others raise it by no more than their cost. -/
structure Variant (step : State → Label → Option State) (holds : State → Prop)
    (own : Label → Bool) (size : State → Nat) (cost : Nat) : Prop where
  kept : ∀ {state label next}, holds state → step state label = some next → holds next
  falls : ∀ {state label next}, holds state → own label = true → step state label = some next →
    size next < size state
  rises : ∀ {state label next}, holds state → own label = false → step state label = some next →
    size next ≤ size state + cost

theorem Variant.ranking (variant : Variant step holds own size cost) :
    Ranking step (fun state rank => holds state ∧ size state = rank) own cost where
  falls := by
    rintro state label next _ ⟨now, rfl⟩ kind taken
    exact ⟨size next, ⟨variant.kept now taken, rfl⟩, variant.falls now kind taken⟩
  rises := by
    rintro state label next _ ⟨now, rfl⟩ kind taken
    exact ⟨size next, ⟨variant.kept now taken, rfl⟩, variant.rises now kind taken⟩

theorem Variant.count_own (variant : Variant step holds own size cost) (now : holds start)
    (reached : run step start labels = some final) :
    labels.countP own + size final ≤
      size start + cost * labels.countP fun label => !own label := by
  obtain ⟨_, ⟨_, rfl⟩, paid⟩ := variant.ranking.count_own ⟨now, rfl⟩ reached
  exact paid

theorem Variant.completes (variant : Variant step holds own size cost) {finished : State → Prop}
    (moves : ∀ {state}, holds state → ¬finished state →
      ∃ label next, own label = true ∧ step state label = some next)
    (now : holds state) :
    ∃ labels final, (∀ label ∈ labels, own label = true) ∧ labels.length ≤ size state ∧
      run step state labels = some final ∧ finished final :=
  variant.ranking.completes (fun ranked busy => moves ranked.1 busy) ⟨now, rfl⟩

/-- A weight summed over some entries of an array, when one of them changes. -/
theorem sum_update {Index : Type u} {Entry : Type v} [DecidableEq Index] (weigh : Entry → Nat)
    (array : Index → Entry) {among : Finset Index} {index : Index} (member : index ∈ among)
    (entry : Entry) :
    (∑ i ∈ among, weigh (Function.update array index entry i)) + weigh (array index) =
      (∑ i ∈ among, weigh (array i)) + weigh entry := by
  have others : ∑ i ∈ among.erase index, weigh (Function.update array index entry i) =
      ∑ i ∈ among.erase index, weigh (array i) := by
    apply Finset.sum_congr rfl
    intro i different
    rw [Function.update_of_ne (Finset.ne_of_mem_erase different)]
  rw [← Finset.add_sum_erase _ _ member, ← Finset.add_sum_erase _ (fun i => weigh (array i)) member,
    others, Function.update_self]
  omega

end RequestProxy.Transition
