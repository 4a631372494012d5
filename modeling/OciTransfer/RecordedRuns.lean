import OciTransfer.TransitionRules

/-!
Machines that keep a record of their moves.

A report says what an observer notes down when a machine moves.  The recorded
machine makes the same moves and appends the reports, oldest first, so a
statement about everything that has happened is an invariant of its states.
-/

namespace Machine

variable {σ ℓ ω : Type}

def recorded (machine : Machine σ ℓ) (report : σ → ℓ → σ → List ω) : Machine (σ × List ω) ℓ :=
  { start := fun state => machine.start state.1 ∧ state.2 = []
    next := fun state label =>
      (machine.next state.1 label).map fun after => (after, state.2 ++ report state.1 label after) }

def Unrecorded (admits : σ → ℓ → Prop) : σ × List ω → ℓ → Prop :=
  fun state label => admits state.1 label

instance (admits : σ → ℓ → Prop) [DecidableRel admits] :
    DecidableRel (Unrecorded admits : σ × List ω → ℓ → Prop) :=
  fun state label => inferInstanceAs (Decidable (admits state.1 label))

variable {machine : Machine σ ℓ} {report : σ → ℓ → σ → List ω}

theorem recorded_next {before after : σ × List ω} {label : ℓ} :
    (machine.recorded report).next before label = some after ↔
      machine.next before.1 label = some after.1 ∧
        after.2 = before.2 ++ report before.1 label after.1 := by
  constructor
  · intro moved
    obtain ⟨state, stepped, rfl⟩ := Option.map_eq_some_iff.mp moved
    exact ⟨stepped, rfl⟩
  · rintro ⟨stepped, written⟩
    change (machine.next before.1 label).map _ = some after
    rw [stepped, Option.map_some, ← written]

/-- A statement about the state and everything noted so far holds along every
admitted run if it holds at first and each admitted move keeps it. -/
theorem Run.recorded_preserves {admits : σ → ℓ → Prop} (holds : σ → List ω → Prop)
    (keeps : ∀ before label after log, admits before label → machine.Reachable before →
      machine.next before label = some after → holds before log →
      holds after (log ++ report before label after))
    {first last : σ × List ω} (reached : machine.Reachable first.1)
    (run : (machine.recorded report).Run (Unrecorded admits) first last)
    (atFirst : holds first.1 first.2) : holds last.1 last.2 := by
  have both : machine.Reachable last.1 ∧ holds last.1 last.2 := by
    refine run.preserves (fun state => machine.Reachable state.1 ∧ holds state.1 state.2) ?_
      ⟨reached, atFirst⟩
    rintro before label after admitted moved ⟨reachedBefore, ih⟩
    obtain ⟨stepped, written⟩ := recorded_next.mp moved
    refine ⟨reachedBefore.step stepped, ?_⟩
    rw [written]
    exact keeps before.1 label after.1 before.2 admitted reachedBefore stepped ih
  exact both.2

theorem Reachable.recorded_invariant (holds : σ → List ω → Prop)
    (initially : ∀ state, machine.start state → holds state [])
    (keeps : ∀ before label after log, machine.Reachable before →
      machine.next before label = some after → holds before log →
      holds after (log ++ report before label after))
    {state : σ × List ω} (reached : (machine.recorded report).Reachable state) :
    holds state.1 state.2 := by
  obtain ⟨first, ⟨started, emptyLog⟩, run⟩ := reached
  have admitted := run.weaken (Unrecorded Always) fun _ _ _ => trivial
  refine Run.recorded_preserves holds
    (fun before label after log _ => keeps before label after log)
    ⟨first.1, started, Run.refl _⟩ admitted ?_
  rw [emptyLog]
  exact initially first.1 started

end Machine
