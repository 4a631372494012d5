import Mathlib.Logic.Relation

/-!
Machines, their runs, and the rules the runs obey.

A machine has starting states and a partial next-state function of a state and
a label.  A run is the reflexive transitive closure of its moves, possibly
only of the moves a condition admits.  The rules turn a fact about one move
into a fact about every run, carry runs of one machine over to another, and
read a run off an execution of a list of labels.
-/

structure Machine (σ ℓ : Type) where
  start : σ → Prop
  next : σ → ℓ → Option σ

namespace Machine

variable {σ ℓ τ μ : Type}

def Moves (machine : Machine σ ℓ) (admits : σ → ℓ → Prop) (before after : σ) : Prop :=
  ∃ label, admits before label ∧ machine.next before label = some after

/-- A run all of whose moves the condition admits. -/
def Run (machine : Machine σ ℓ) (admits : σ → ℓ → Prop) : σ → σ → Prop :=
  Relation.ReflTransGen (machine.Moves admits)

def Always : σ → ℓ → Prop := fun _ _ => True

instance : DecidableRel (Always : σ → ℓ → Prop) := fun _ _ => inferInstanceAs (Decidable True)

def Reachable (machine : Machine σ ℓ) (state : σ) : Prop :=
  ∃ first, machine.start first ∧ machine.Run Always first state

theorem Run.refl {machine : Machine σ ℓ} {admits : σ → ℓ → Prop} (state : σ) :
    machine.Run admits state state :=
  Relation.ReflTransGen.refl

theorem Run.tail {machine : Machine σ ℓ} {admits : σ → ℓ → Prop} {first before after : σ}
    {label : ℓ} (run : machine.Run admits first before) (admitted : admits before label)
    (moved : machine.next before label = some after) : machine.Run admits first after :=
  Relation.ReflTransGen.tail run ⟨label, admitted, moved⟩

theorem Run.head {machine : Machine σ ℓ} {admits : σ → ℓ → Prop} {before after last : σ}
    {label : ℓ} (admitted : admits before label) (moved : machine.next before label = some after)
    (run : machine.Run admits after last) : machine.Run admits before last :=
  Relation.ReflTransGen.head ⟨label, admitted, moved⟩ run

theorem Run.trans {machine : Machine σ ℓ} {admits : σ → ℓ → Prop} {first middle last : σ}
    (earlier : machine.Run admits first middle) (later : machine.Run admits middle last) :
    machine.Run admits first last :=
  Relation.ReflTransGen.trans earlier later

theorem Run.weaken {machine : Machine σ ℓ} {narrow : σ → ℓ → Prop} {first last : σ}
    (run : machine.Run narrow first last) (wide : σ → ℓ → Prop)
    (weaker : ∀ state label, narrow state label → wide state label) :
    machine.Run wide first last :=
  Relation.ReflTransGen.mono
    (fun _ _ ⟨label, admitted, moved⟩ => ⟨label, weaker _ _ admitted, moved⟩) _ _ run

theorem Run.always {machine : Machine σ ℓ} {admits : σ → ℓ → Prop} {first last : σ}
    (run : machine.Run admits first last) : machine.Run Always first last :=
  run.weaken Always fun _ _ _ => trivial

/-- What every admitted move preserves, every admitted run preserves. -/
theorem Run.preserves {machine : Machine σ ℓ} {admits : σ → ℓ → Prop} (holds : σ → Prop)
    (keeps : ∀ before label after, admits before label →
      machine.next before label = some after → holds before → holds after)
    {first last : σ} (run : machine.Run admits first last) (atFirst : holds first) :
    holds last := by
  induction run with
  | refl => exact atFirst
  | tail _earlier move ih =>
      obtain ⟨label, admitted, moved⟩ := move
      exact keeps _ label _ admitted moved ih

/-- A run that starts where an invariant holds is one of moves made where it holds. -/
theorem Run.restrict {machine : Machine σ ℓ} {admits : σ → ℓ → Prop} (holds : σ → Prop)
    (keeps : ∀ before label after, admits before label →
      machine.next before label = some after → holds before → holds after)
    {first last : σ} (run : machine.Run admits first last) (atFirst : holds first) :
    machine.Run (fun state label => admits state label ∧ holds state) first last := by
  have both : machine.Run (fun state label => admits state label ∧ holds state) first last ∧
      holds last := by
    induction run with
    | refl => exact ⟨Run.refl first, atFirst⟩
    | tail _earlier move ih =>
        obtain ⟨label, admitted, moved⟩ := move
        exact ⟨ih.1.tail ⟨admitted, ih.2⟩ moved, keeps _ label _ admitted moved ih.2⟩
  exact both.1

/-- If an admitted move out of `inside` can only end in `inside` or in `exit`,
a run from `inside` stays there or passes through `exit` when it first leaves. -/
theorem Run.stays_or_exits {machine : Machine σ ℓ} {admits : σ → ℓ → Prop}
    (inside exit : σ → Prop)
    (leaves : ∀ before label after, admits before label →
      machine.next before label = some after → inside before → inside after ∨ exit after)
    {first last : σ} (run : machine.Run admits first last) (atFirst : inside first) :
    inside last ∨ ∃ before middle, inside before ∧ exit middle ∧
      machine.Run (fun state label => admits state label ∧ inside state) first before ∧
      machine.Moves admits before middle ∧ machine.Run admits middle last := by
  have staysInside : ∀ {last}, machine.Run admits first last →
      (inside last ∧
        machine.Run (fun state label => admits state label ∧ inside state) first last) ∨
      ∃ before middle, inside before ∧ exit middle ∧
        machine.Run (fun state label => admits state label ∧ inside state) first before ∧
        machine.Moves admits before middle ∧ machine.Run admits middle last := by
    intro last run
    induction run with
    | refl => exact Or.inl ⟨atFirst, Run.refl first⟩
    | tail _earlier move ih =>
        obtain ⟨label, admitted, moved⟩ := move
        rcases ih with ⟨still, within⟩ | ⟨before, middle, still, left, within, out, rest⟩
        · rcases leaves _ label _ admitted moved still with stays | left
          · exact Or.inl ⟨stays, within.tail ⟨admitted, still⟩ moved⟩
          · exact Or.inr ⟨_, _, still, left, within, ⟨label, admitted, moved⟩, Run.refl _⟩
        · exact Or.inr ⟨before, middle, still, left, within, out, rest.tail admitted moved⟩
  rcases staysInside run with ⟨still, -⟩ | left
  · exact Or.inl still
  · exact Or.inr left

theorem Reachable.run {machine : Machine σ ℓ} {first last : σ}
    (reached : machine.Reachable first) {admits : σ → ℓ → Prop}
    (run : machine.Run admits first last) : machine.Reachable last := by
  obtain ⟨origin, started, earlier⟩ := reached
  exact ⟨origin, started, earlier.trans run.always⟩

theorem Reachable.step {machine : Machine σ ℓ} {before after : σ} {label : ℓ}
    (reached : machine.Reachable before) (moved : machine.next before label = some after) :
    machine.Reachable after :=
  reached.run ((Run.refl before : machine.Run Always before before).tail trivial moved)

/-- An invariant holds at the start and survives every move. -/
theorem Reachable.invariant {machine : Machine σ ℓ} (holds : σ → Prop)
    (initially : ∀ state, machine.start state → holds state)
    (keeps : ∀ before label after, machine.next before label = some after →
      holds before → holds after)
    {state : σ} (reached : machine.Reachable state) : holds state := by
  obtain ⟨first, started, run⟩ := reached
  exact run.preserves holds (fun before label after _ => keeps before label after)
    (initially first started)

/-- A run of one machine is a run of another when every move projects to one. -/
theorem Run.project {machine : Machine σ ℓ} {target : Machine τ μ} (view : σ → τ)
    {admits : σ → ℓ → Prop} {targetAdmits : τ → μ → Prop}
    (projects : ∀ before label after, admits before label →
      machine.next before label = some after →
      target.Run targetAdmits (view before) (view after))
    {first last : σ} (run : machine.Run admits first last) :
    target.Run targetAdmits (view first) (view last) := by
  induction run with
  | refl => exact Run.refl _
  | tail _earlier move ih =>
      obtain ⟨label, admitted, moved⟩ := move
      exact ih.trans (projects _ label _ admitted moved)

theorem Reachable.project {machine : Machine σ ℓ} {target : Machine τ μ} (view : σ → τ)
    (starts : ∀ state, machine.start state → target.start (view state))
    (projects : ∀ before label after, machine.next before label = some after →
      target.Run Always (view before) (view after))
    {state : σ} (reached : machine.Reachable state) : target.Reachable (view state) := by
  obtain ⟨first, started, run⟩ := reached
  exact ⟨view first, starts first started,
    run.project view fun before label after _ => projects before label after⟩

section Execution

variable (machine : Machine σ ℓ) (admits : σ → ℓ → Prop) [DecidableRel admits]

/-- Follow the labels as long as each is admitted and has a next state. -/
def execute : List ℓ → σ → Option σ
  | [], state => some state
  | label :: rest, state =>
      if admits state label then (machine.next state label).bind (execute rest) else none

private theorem run_of_execute (labels : List ℓ) :
    ∀ {first last : σ}, machine.execute admits labels first = some last →
      machine.Run admits first last := by
  induction labels with
  | nil =>
      intro first last done
      cases done
      exact Run.refl first
  | cons label rest ih =>
      intro first last done
      unfold execute at done
      split at done
      · rename_i admitted
        obtain ⟨after, moved, later⟩ := Option.bind_eq_some_iff.mp done
        exact Run.head admitted moved (ih later)
      · cases done

/-- An execution that ends in a state passing a test gives a run to such a state. -/
theorem exists_run_of_execute {labels : List ℓ} {first : σ} {test : σ → Bool}
    (passed : (machine.execute admits labels first).any test = true) :
    ∃ last, machine.Run admits first last ∧ test last = true := by
  obtain ⟨last, done, tested⟩ := (Option.any_eq_true _ _).mp passed
  exact ⟨last, machine.run_of_execute admits labels done, tested⟩

theorem exists_reachable_of_execute {labels : List ℓ} {first : σ} (started : machine.start first)
    {test : σ → Bool} (passed : (machine.execute Always labels first).any test = true) :
    ∃ last, machine.Reachable last ∧ test last = true := by
  obtain ⟨last, run, tested⟩ := machine.exists_run_of_execute Always passed
  exact ⟨last, ⟨first, started, run⟩, tested⟩

end Execution

end Machine
