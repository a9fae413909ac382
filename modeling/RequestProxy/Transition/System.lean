import Mathlib.Logic.Basic
import Mathlib.Data.List.Basic
import Mathlib.Data.List.Induction

/-! Labelled systems whose labels carry every choice of the environment and
of the scheduler, so that a step is a partial function and a run is a list of
labels. Invariants and simulations are proved one step at a time. -/

namespace RequestProxy.Transition

universe u v w

variable {State : Type u} {Label : Type v} {Abstract : Type w}
variable (step : State → Label → Option State)

/-- The state after a list of labels; absent when some label is not enabled. -/
def run : State → List Label → Option State
  | state, [] => some state
  | state, label :: rest => (step state label).bind fun next => run next rest

@[simp] theorem run_nil (state : State) : run step state [] = some state := rfl

theorem run_cons (state : State) (label : Label) (rest : List Label) :
    run step state (label :: rest) = (step state label).bind fun next => run step next rest :=
  rfl

theorem run_append (state : State) (first second : List Label) :
    run step state (first ++ second) =
      (run step state first).bind fun middle => run step middle second := by
  induction first generalizing state with
  | nil => rfl
  | cons label rest ih =>
    rw [List.cons_append, run_cons, run_cons]
    cases step state label with
    | none => rfl
    | some next => exact ih next

/-- A property of states that holds at the start and survives every step
whose label is allowed. -/
structure Invariant (allowed : Label → Prop) (start : State) (holds : State → Prop) : Prop where
  initial : holds start
  preserved : ∀ {state label next}, holds state → allowed label →
    step state label = some next → holds next

variable {step}

/-- The run rule: an invariant holds wherever a run of allowed labels ends. -/
theorem Invariant.run {allowed : Label → Prop} {start : State} {holds : State → Prop}
    (invariant : Invariant step allowed start holds) {labels : List Label}
    (permitted : ∀ label ∈ labels, allowed label)
    (reached : run step start labels = some state) : holds state := by
  have general : ∀ (labels : List Label) (current : State), holds current →
      (∀ label ∈ labels, allowed label) →
      Transition.run step current labels = some state → holds state := by
    intro labels
    induction labels with
    | nil =>
      intro current now _ ended
      exact Option.some.inj ended ▸ now
    | cons label rest ih =>
      intro current now permitted ended
      rw [run_cons] at ended
      obtain ⟨next, taken, continued⟩ := Option.bind_eq_some_iff.mp ended
      exact ih next (invariant.preserved now (permitted label (by simp)) taken)
        (fun other member => permitted other (by simp [member])) continued
  exact general labels start invariant.initial permitted reached

/-- Invariants may be proved on top of one another. -/
theorem Invariant.and {allowed : Label → Prop} {start : State} {base extra : State → Prop}
    (invariant : Invariant step allowed start base) (initial : extra start)
    (preserved : ∀ {state label next}, base state → extra state → allowed label →
      step state label = some next → extra next) :
    Invariant step allowed start (fun state => base state ∧ extra state) :=
  ⟨⟨invariant.initial, initial⟩, fun now permitted taken =>
    ⟨invariant.preserved now.1 permitted taken, preserved now.1 now.2 permitted taken⟩⟩

/-- An invariant of a system holds of every system that carries a state of it
along. -/
theorem Invariant.pullback {Larger : Type w} {larger : Larger → Label → Option Larger}
    {allowed : Label → Prop} {holds : State → Prop} (part : Larger → State) (begun : Larger)
    (invariant : Invariant step allowed (part begun) holds)
    (follows : ∀ {whole label next}, larger whole label = some next →
      step (part whole) label = some (part next)) :
    Invariant larger allowed begun (fun whole => holds (part whole)) :=
  ⟨invariant.initial, fun now permitted taken =>
    invariant.preserved now permitted (follows taken)⟩

/-- The run along the labels takes `label` when it is in `state`. -/
def Visits (step : State → Label → Option State) (start : State) (labels : List Label)
    (state : State) (label : Label) : Prop :=
  ∃ earlier later, labels = earlier ++ label :: later ∧ run step start earlier = some state

theorem Visits.taken (visited : Visits step start labels state label)
    (reached : run step start labels = some final) :
    ∃ next later, step state label = some next ∧ run step next later = some final := by
  obtain ⟨earlier, later, rfl, before⟩ := visited
  rw [run_append, before, Option.bind_some, run_cons] at reached
  obtain ⟨next, taken, continued⟩ := Option.bind_eq_some_iff.mp reached
  exact ⟨next, later, taken, continued⟩

theorem Visits.last (visited : Visits step start (labels ++ [other]) state label)
    (only : label ∉ labels) : run step start labels = some state := by
  obtain ⟨earlier, later, split, before⟩ := visited
  rcases List.eq_nil_or_concat later with rfl | ⟨more, final, rfl⟩
  · rw [(List.append_inj' split rfl).1]
    exact before
  · refine absurd ?_ only
    rw [List.concat_eq_append, ← List.cons_append, ← List.append_assoc] at split
    simp [(List.append_inj' split rfl).1]

/-- The run rule for a guard on the states in which each label is taken. -/
theorem run_guarded (holds : State → Prop) {guard : State → Label → Prop}
    (initial : holds start)
    (preserved : ∀ {state label next}, holds state → guard state label →
      step state label = some next → holds next)
    (guarded : ∀ state label, Visits step start labels state label → guard state label)
    (reached : run step start labels = some final) : holds final := by
  induction labels using List.reverseRecOn generalizing final with
  | nil => exact Option.some.inj reached ▸ initial
  | append_singleton earlier label ih =>
    rw [run_append] at reached
    obtain ⟨state, before, last⟩ := Option.bind_eq_some_iff.mp reached
    have taken : step state label = some final := by simpa [run_cons] using last
    have now : holds state := by
      refine ih (fun state other visited => guarded state other ?_) before
      obtain ⟨first, later, split, there⟩ := visited
      exact ⟨first, later ++ [label], by simp [split], there⟩
    exact preserved now (guarded state label ⟨earlier, [], rfl, before⟩) taken

theorem Visits.later (taken : step state label = some next)
    (visited : Visits step next labels reached other) :
    Visits step state (label :: labels) reached other := by
  obtain ⟨earlier, later, rfl, ran⟩ := visited
  exact ⟨label :: earlier, later, rfl, by rw [run_cons, taken]; exact ran⟩

/-- The erasure rule: the labels that are kept run on their own, and end in a
state that agrees with where the whole run ends. The labels that are dropped may
rely on a guard on the states in which they are taken. -/
theorem run_erased (agrees : State → State → Prop) {keep : Label → Bool}
    {guard : State → Label → Prop}
    (kept : ∀ {state other label next}, agrees state other → keep label = true →
      step state label = some next → ∃ moved, step other label = some moved ∧ agrees next moved)
    (erased : ∀ {state other label next}, agrees state other → keep label = false →
      guard state label → step state label = some next → agrees next other)
    (agree : agrees start other)
    (guarded : ∀ state label, Visits step start labels state label → guard state label)
    (reached : run step start labels = some final) :
    ∃ ended, run step other (labels.filter keep) = some ended ∧ agrees final ended := by
  induction labels generalizing start other with
  | nil => exact ⟨other, rfl, Option.some.inj reached ▸ agree⟩
  | cons label rest ih =>
    rw [run_cons] at reached
    obtain ⟨next, taken, continued⟩ := Option.bind_eq_some_iff.mp reached
    have remaining : ∀ state label, Visits step next rest state label → guard state label :=
      fun state label visited => guarded state label (visited.later taken)
    cases choice : keep label with
    | true =>
      obtain ⟨moved, follows, still⟩ := kept agree choice taken
      obtain ⟨ended, ran, agreed⟩ := ih still remaining continued
      refine ⟨ended, ?_, agreed⟩
      rw [List.filter_cons_of_pos choice, run_cons, follows]
      exact ran
    | false =>
      have still := erased agree choice (guarded start label ⟨[], rest, rfl, rfl⟩) taken
      obtain ⟨ended, ran, agreed⟩ := ih still remaining continued
      exact ⟨ended, by rwa [List.filter_cons_of_neg (by simp [choice])], agreed⟩

end RequestProxy.Transition
