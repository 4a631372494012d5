import Mathlib.Logic.Relation
import Mathlib.Data.Set.Basic

/-!
A lease that is granted under tokens, of which none is granted twice.

The state is the current holder together with every token drawn so far.  A step
keeps the holder, drops it, or grants the lease under a token not drawn before.
A token that has been drawn and does not hold the lease has lost it for good.
-/

structure Lease (κ : Type) where
  holder : Option κ
  drawn : Set κ

namespace Lease

variable {κ : Type}

inductive Step : Lease κ → Lease κ → Prop where
  | keep {before after} : before.drawn ⊆ after.drawn → after.holder = before.holder →
      Step before after
  | drop {before after} : before.drawn ⊆ after.drawn → after.holder = none → Step before after
  | grant {before after token} : before.drawn ⊆ after.drawn → token ∉ before.drawn →
      token ∈ after.drawn → after.holder = some token → Step before after

def Sound (lease : Lease κ) : Prop :=
  ∀ token, lease.holder = some token → token ∈ lease.drawn

def Lost (token : κ) (lease : Lease κ) : Prop :=
  token ∈ lease.drawn ∧ lease.holder ≠ some token

theorem Step.sound {before after : Lease κ} (step : Step before after) (sound : before.Sound) :
    after.Sound := by
  intro holder held
  cases step with
  | keep grows same => exact grows (sound holder (same.symm.trans held))
  | drop _grows dropped =>
      rw [dropped] at held
      cases held
  | grant _grows _fresh drawn granted =>
      rw [granted] at held
      cases held
      exact drawn

theorem Step.lost {before after : Lease κ} {token : κ} (step : Step before after)
    (lost : before.Lost token) : after.Lost token := by
  obtain ⟨drawn, notHolder⟩ := lost
  cases step with
  | keep grows same =>
      refine ⟨grows drawn, ?_⟩
      rw [same]
      exact notHolder
  | drop grows dropped =>
      refine ⟨grows drawn, ?_⟩
      rw [dropped]
      exact fun impossible => by cases impossible
  | grant grows fresh _drawn granted =>
      refine ⟨grows drawn, ?_⟩
      rw [granted]
      intro same
      cases same
      exact fresh drawn

/-- No run gives the lease back to a token that has lost it. -/
theorem lost_forever {before after : Lease κ} {token : κ}
    (run : Relation.ReflTransGen Step before after) (lost : before.Lost token) :
    after.Lost token := by
  induction run with
  | refl => exact lost
  | tail _earlier step ih => exact step.lost ih

end Lease
