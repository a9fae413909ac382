import RequestProxy.Transition.System

namespace RequestProxy.Transition

universe u v w x

variable {Fine : Type u} {FineLabel : Type v} {Coarse : Type w} {Label : Type x}
variable {fine : Fine → FineLabel → Option Fine} {coarse : Coarse → Label → Option Coarse}
variable {allowed : FineLabel → Prop} {emits : Label → Prop}
variable {start : Fine} {begun : Coarse} {holds : Coarse → Prop} {related : Fine → Coarse → Prop}

/-- Allowed steps of the finer system are matched by steps with labels in
`emits`. The matching may rely on an invariant of the coarser system. -/
structure Simulation (fine : Fine → FineLabel → Option Fine) (coarse : Coarse → Label → Option Coarse)
    (allowed : FineLabel → Prop) (emits : Label → Prop) (start : Fine) (begun : Coarse)
    (holds : Coarse → Prop) (related : Fine → Coarse → Prop) : Prop where
  invariant : Invariant coarse emits begun holds
  initial : related start begun
  follows : ∀ {state other label next}, holds other → related state other → allowed label →
    fine state label = some next → ∃ labels after, (∀ label ∈ labels, emits label) ∧
      run coarse other labels = some after ∧ related next after

/-- Every run of the finer system has a run of the coarser one next to it. -/
theorem Simulation.run (simulation : Simulation fine coarse allowed emits start begun holds related)
    {labels : List FineLabel} {final : Fine} (permitted : ∀ label ∈ labels, allowed label)
    (reached : run fine start labels = some final) :
    ∃ matched ended, (∀ label ∈ matched, emits label) ∧
      Transition.run coarse begun matched = some ended ∧ holds ended ∧ related final ended := by
  induction labels using List.reverseRecOn generalizing final with
  | nil =>
    cases reached
    exact ⟨[], begun, by simp, rfl, simulation.invariant.initial, simulation.initial⟩
  | append_singleton earlier label ih =>
    rw [run_append] at reached
    obtain ⟨state, before, last⟩ := Option.bind_eq_some_iff.mp reached
    have taken : fine state label = some final := by simpa [run_cons] using last
    obtain ⟨matched, ended, emitted, ran, now, agree⟩ :=
      ih (fun other member => permitted other (by simp [member])) before
    obtain ⟨more, after, emittedMore, continued, still⟩ :=
      simulation.follows now agree (permitted label (by simp)) taken
    have all : ∀ label ∈ matched ++ more, emits label := by
      intro other member
      rcases List.mem_append.mp member with first | second
      · exact emitted other first
      · exact emittedMore other second
    have whole : Transition.run coarse begun (matched ++ more) = some after := by
      rw [run_append, ran]
      exact continued
    exact ⟨matched ++ more, after, all, whole, simulation.invariant.run all whole, still⟩

end RequestProxy.Transition
