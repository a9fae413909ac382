import RequestProxy.Transition.System

namespace RequestProxy.Transition

universe u v w

variable {State : Type u} {Label : Type v} {Record : Type w}
variable {step : State → Label → Option State} {note : State → Label → State → Record → Record}
variable {start : State} {whole after : State × Record} {label : Label}

/-- A step, and what is noted of it. -/
def recorded (step : State → Label → Option State)
    (note : State → Label → State → Record → Record) (whole : State × Record) (label : Label) :
    Option (State × Record) :=
  (step whole.1 label).map fun next => (next, note whole.1 label next whole.2)

theorem recorded_step (taken : recorded step note whole label = some after) :
    step whole.1 label = some after.1 ∧ after.2 = note whole.1 label after.1 whole.2 := by
  obtain ⟨next, moved, rfl⟩ := Option.map_eq_some_iff.mp taken
  exact ⟨moved, rfl⟩

/-- Every run can be recorded. -/
theorem run_recorded (note : State → Label → State → Record → Record) {final : State}
    {labels : List Label} (reached : run step start labels = some final) (record : Record) :
    ∃ ended, run (recorded step note) (start, record) labels = some (final, ended) := by
  induction labels generalizing start record with
  | nil => exact ⟨record, by rw [← Option.some.inj reached]; rfl⟩
  | cons label rest ih =>
    rw [run_cons] at reached
    obtain ⟨next, taken, continued⟩ := Option.bind_eq_some_iff.mp reached
    obtain ⟨ended, ran⟩ := ih continued (note start label next record)
    refine ⟨ended, ?_⟩
    rw [run_cons, recorded, taken]
    exact ran

end RequestProxy.Transition
