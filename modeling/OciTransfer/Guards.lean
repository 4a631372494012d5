import Mathlib.Logic.Basic

/-!
Checks one after the other, of which the first that fails decides about the error.

A value comes out only if every check has passed, so what the value establishes is read
off one check at a time, and the rest is again such a sequence.
-/

namespace Guards

variable {ε α β : Type} {raised : ε} {value : α}

theorem ok_of_guard {p : Prop} [Decidable p] {rest : Except ε α}
    (passed : (if p then .error raised else rest) = .ok value) : ¬ p ∧ rest = .ok value := by
  by_cases fails : p
  · rw [if_pos fails] at passed
    cases passed
  · rw [if_neg fails] at passed
    exact ⟨fails, passed⟩

theorem ok_of_bind {first : Except ε β} {rest : β → Except ε α}
    (passed : first >>= rest = .ok value) : ∃ item, first = .ok item ∧ rest item = .ok value := by
  cases first with
  | error failed => cases passed
  | ok item => exact ⟨item, rfl, passed⟩

theorem ok_of_map {first : Except ε β} {change : β → α}
    (passed : first.map change = .ok value) : ∃ item, first = .ok item ∧ change item = value := by
  cases first with
  | error failed => cases passed
  | ok item => exact ⟨item, rfl, Except.ok.inj passed⟩

end Guards
