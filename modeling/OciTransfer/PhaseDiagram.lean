import OciTransfer.TransitionRules

/-!
The phases of a leased task.

A task waits, is held under a token, or is held by somebody who has been asked
to stop; it ends with an outcome, and goes for good when it is removed.  An
outcome may be reopened if it is of a kind that allows it.  The diagram is a
machine over any type of tokens and outcomes.  Its lemmas say what a run of it
can and cannot pass over; nothing here depends on how a task is stored.
-/

inductive Phase (Token Outcome : Type) where
  | absent
  | waiting
  | held (token : Token)
  | stopping (token : Token)
  | ended (outcome : Outcome)
  | gone
  deriving DecidableEq, Repr

inductive PhaseMove (Token Outcome : Type) where
  | submit
  | refuse
  | grant (token : Token)
  | giveBack
  | ask
  | overrule
  | settle (outcome : Outcome)
  | withdraw
  | reopen
  | remove
  deriving DecidableEq, Repr

namespace Phase

variable {Token Outcome : Type}

/-- `withdrawn` is the outcome of a task that is stopped before anybody holds it. -/
def next (withdrawn : Outcome) (reopens : Outcome → Bool) :
    Phase Token Outcome → PhaseMove Token Outcome → Option (Phase Token Outcome)
  | .absent, .submit => some .waiting
  | .absent, .refuse => some .gone
  | .waiting, .grant token | .held _, .grant token => some (.held token)
  | .held _, .giveBack | .stopping _, .giveBack => some .waiting
  | .held token, .ask => some (.stopping token)
  | .stopping token, .overrule => some (.held token)
  | .held _, .settle outcome | .stopping _, .settle outcome => some (.ended outcome)
  | .waiting, .withdraw => some (.ended withdrawn)
  | .ended outcome, .reopen => if reopens outcome then some .waiting else none
  | .ended _, .remove => some .gone
  | _, _ => none

end Phase

def phases {Token Outcome : Type} (withdrawn : Outcome) (reopens : Outcome → Bool) :
    Machine (Phase Token Outcome) (PhaseMove Token Outcome) :=
  { start := fun phase => phase = .absent
    next := Phase.next withdrawn reopens }

namespace Phase

variable {Token Outcome : Type} {withdrawn : Outcome} {reopens : Outcome → Bool}
  {first last before after : Phase Token Outcome} {move : PhaseMove Token Outcome}

def isHeld : Phase Token Outcome → Bool
  | .held _ => true
  | _ => false

def isEnded : Phase Token Outcome → Bool
  | .ended _ => true
  | _ => false

/-- Somebody holds the task, asked to stop or not. -/
def taken : Phase Token Outcome → Bool
  | .held _ | .stopping _ => true
  | _ => false

def lives : Phase Token Outcome → Bool
  | .waiting | .held _ | .stopping _ => true
  | _ => false

private theorem next_gone (moved : (phases withdrawn reopens).next before move = some after)
    (isGone : before = .gone) : after = .gone := by
  subst isGone
  cases move <;> cases moved

/-- An outcome that is not reopened is final: the task keeps it, or is removed. -/
theorem ended_stays {outcome : Outcome} (final : reopens outcome = false)
    (run : (phases withdrawn reopens).Run Machine.Always first last)
    (isEnded : first = .ended outcome) : last = .ended outcome ∨ last = .gone := by
  refine run.preserves (fun phase => phase = .ended outcome ∨ phase = .gone) ?_ (Or.inl isEnded)
  rintro before move after - moved (rfl | isGone)
  · cases move with
    | reopen =>
        change (if reopens outcome then some Phase.waiting else none) = some after at moved
        rw [final] at moved
        cases moved
    | remove =>
        cases moved
        exact Or.inr rfl
    | _ => cases moved
  · exact Or.inr (next_gone moved isGone)

theorem next_lives (moved : (phases withdrawn reopens).next before move = some after)
    (alive : before.lives = true) : after.lives = true ∨ after.isEnded = true := by
  cases before with
  | waiting | held | stopping =>
      cases move <;> cases moved <;> first | exact Or.inl rfl | exact Or.inr rfl
  | absent | ended | gone => cases alive

/-- Nobody but a holder gives a task an outcome other than that of a withdrawal,
and a task that nobody holds is first held by somebody not yet asked to stop. -/
theorem next_untaken {outcome : Outcome} (notWithdrawn : outcome ≠ withdrawn)
    (moved : (phases withdrawn reopens).next before move = some after)
    (free : before.taken = false) (notEnded : before ≠ .ended outcome) :
    (after.taken = false ∧ after ≠ .ended outcome) ∨ after.isHeld = true := by
  cases before with
  | held | stopping => cases free
  | absent | waiting | gone =>
      cases move <;> cases moved <;>
        first
          | exact Or.inr rfl
          | exact Or.inl ⟨rfl, fun same => notWithdrawn (Phase.ended.inj same).symm⟩
          | exact Or.inl ⟨rfl, fun same => by cases same⟩
  | ended earlier =>
      cases move with
      | reopen =>
          change (if reopens earlier then some Phase.waiting else none) = some after at moved
          split at moved <;> cases moved
          exact Or.inl ⟨rfl, fun same => by cases same⟩
      | remove =>
          cases moved
          exact Or.inl ⟨rfl, fun same => by cases same⟩
      | _ => cases moved

end Phase
