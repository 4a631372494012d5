import OciTransfer.CopyStream
import OciTransfer.PinnedCopies

/-!
Completions and the bodies of copy responses.

A serving deployment is a deployment together with the copy calls of its
executions.  The service may answer a call with any bytes, cut and ended in any
way; the replies an execution gets in its loop over the events are then what
the generator of the client hands out for these bytes.
-/

namespace OciTransfer

/-! ### Events as the worker reads them -/

def EventKind.ofText (text : String) : EventKind :=
  if text = "phase" then .phase
  else if text = "progress" then .progress
  else if text = "completed" then .completed
  else if text = "failed" then .failed
  else .other text

def PhaseName.ofText (text : String) : PhaseName :=
  if text = "copying" then .copying
  else if text = "publishing" then .publishing
  else if text = "verifying" then .verifying
  else .other text

def BlobDisposition.ofText (text : String) : BlobDisposition :=
  if text = "pending" then .pending
  else if text = "transferring" then .transferring
  else if text = "reused" then .reused
  else if text = "mounted" then .mounted
  else if text = "completed" then .completed
  else if text = "failed" then .failed
  else .other text

/-- A type that cannot be hashed makes the comparison raise; one that is no
text is none of the known kinds. -/
def eventKind (event : JsonValue) : Option EventKind :=
  if typeHashable event then some (((typeText event).map EventKind.ofText).getD (.other ""))
  else none

/-- A field that is absent, or has the expected type, reads as what it is; of
any other value nothing is assumed. -/
def readsAs {α : Type} [DecidableEq α] (event : JsonValue) (key : String)
    (typed : JsonValue → Option α) (value : Option α) : Bool :=
  match event.get? key with
  | none => value = none
  | some field =>
      match typed field with
      | some given => value = some given
      | none => true

def textField : JsonValue → Option String
  | .str text => some text
  | _ => none

def integerField : JsonValue → Option Int
  | .int value => some value
  | _ => none

def numberField : JsonValue → Option ℚ
  | .int value => some value
  | .real value => some value
  | _ => none

/-- The worker may take the dictionary for this event. -/
def Event.views (event : Event) (json : JsonValue) : Bool :=
  eventKind json = some event.kind && readsAs json "digest" textField event.digest &&
    readsAs json "phase" (fun field => (textField field).map PhaseName.ofText) event.phase &&
    readsAs json "offset" integerField event.offset &&
    readsAs json "network_bytes" integerField event.networkBytes &&
    readsAs json "bytes_per_second" integerField event.bytesPerSecond &&
    readsAs json "disposition" (fun field => (textField field).map BlobDisposition.ofText)
      event.disposition &&
    readsAs json "code" textField event.code && readsAs json "message" textField event.message &&
    event.retryable = (json.get? "retryable").any JsonValue.truthy &&
    readsAs json "retry_after" numberField event.retryAfter

private theorem Event.kind_of_views {event : Event} {json : JsonValue}
    (views : event.views json = true)
    (completed : event.kind = .completed) : typeText json = some "completed" := by
  have kindEq : eventKind json = some event.kind := by
    simp only [Event.views, Bool.and_eq_true, decide_eq_true_eq] at views
    tauto
  rw [completed] at kindEq
  unfold eventKind at kindEq
  split at kindEq
  · cases text : typeText json with
    | none =>
        rw [text] at kindEq
        cases kindEq
    | some given =>
        rw [text] at kindEq
        have kind : EventKind.ofText given = .completed := Option.some.inj kindEq
        unfold EventKind.ofText at kind
        split at kind
        · cases kind
        · split at kind
          · cases kind
          · split at kind
            · rename_i same
              rw [same]
            · split at kind <;> cases kind
  · cases kindEq

/-! ### Serving -/

/-- What the service answers to a copy call: a body after status 200, or what
the client raises for any other status. -/
inductive Answer where
  | body (chunks : List (List UInt8)) (ending : Ending)
  | refused (error : TransferError)
  deriving DecidableEq, Repr

structure CopyCall where
  answer : Answer
  delivered : Nat

namespace CopyCall

variable (loads : List UInt8 → Loaded) (call : CopyCall)

def stream : Stream :=
  match call.answer with
  | .body chunks ending => OCIClient.receive loads chunks ending
  | .refused error =>
      { events := []
        outcome := .raised error }

/-- The reply is what the generator hands out next, or how it ends. -/
def permits (reply : Reply) : Bool :=
  match (call.stream loads).events[call.delivered]? with
  | some json =>
      match reply with
      | .event event => event.views json
      | _ => false
  | none =>
      match (call.stream loads).outcome, reply with
      | .returned, .streamEnded => true
      | .raised error, .error given => given = error
      | _, _ => false

def advanced : CopyCall :=
  { call with
    delivered := min (call.delivered + 1) (call.stream loads).events.length }

end CopyCall

structure Serving where
  deployment : Deployment
  calls : Nat → Option CopyCall

inductive ServingLabel where
  | work (index : Nat) (reading : Reading) (answer : Answer)
  | other (label : Label)
  deriving DecidableEq, Repr

def Label.isWork : Label → Bool
  | .work _ _ => true
  | _ => false

namespace Serving

/-- The copy call of an execution after its step, if the step is possible. -/
def turn (loads : List UInt8 → Loaded) (serving : Serving) (index : Nat) (execution : Execution)
    (reading : Reading) (answer : Answer) : Option (Option CopyCall) :=
  match execution.point with
  | .stream _ _ =>
      (serving.calls index).bind fun call =>
        if call.permits loads reading.reply then some (some (call.advanced loads)) else none
  | _ =>
      if (execution.copyPayload serving.deployment.system.store reading).isSome then
        some (some
          { answer := answer
            delivered := 0 })
      else some (serving.calls index)

def next (config : ManagerConfig) (loads : List UInt8 → Loaded) (serving : Serving) :
    ServingLabel → Option Serving
  | .work index reading answer =>
      serving.deployment.workers[index]?.bind fun execution =>
        (serving.turn loads index execution reading answer).bind fun call =>
          (serving.deployment.next config (.work index reading)).map fun deployment =>
            { deployment := deployment
              calls := Function.update serving.calls index call }
  | .other label =>
      if label.isWork then none
      else (serving.deployment.next config label).map fun deployment =>
        { serving with deployment := deployment }

end Serving

def serving (config : ManagerConfig) (loads : List UInt8 → Loaded) : Machine Serving ServingLabel :=
  { start := fun state => state.deployment = Deployment.initial ∧ ∀ index, state.calls index = none
    next := Serving.next config loads }

/-! ### What an execution knows of its stream -/

def SawCompleted (loads : List UInt8 → Loaded) (call : Option CopyCall) : Prop :=
  ∃ made, call = some made ∧ ∃ json ∈ (made.stream loads).events, typeText json = some "completed"

/-- The execution counts on a completion only if the body has one. -/
def Point.Accounted (loads : List UInt8 → Loaded) (call : Option CopyCall) : Point → Prop
  | .stream _ terminal | .progress _ terminal _ => terminal = true → SawCompleted loads call
  | .checkCancelled _ terminal event =>
      terminal = true ∨ event.kind = .completed → SawCompleted loads call
  | .verifying => SawCompleted loads call
  | .finish state => state = .completed → SawCompleted loads call
  | _ => True

private theorem CopyCall.event_of_permits {loads : List UInt8 → Loaded} {call : CopyCall}
    {event : Event}
    (permitted : call.permits loads (.event event) = true) :
    ∃ json ∈ (call.stream loads).events, event.views json = true := by
  unfold permits at permitted
  cases nextEvent : (call.stream loads).events[call.delivered]? with
  | some json =>
      rw [nextEvent] at permitted
      exact ⟨json, List.mem_of_getElem? nextEvent, permitted⟩
  | none =>
      rw [nextEvent] at permitted
      cases outcome : (call.stream loads).outcome <;> simp [outcome] at permitted

section Step

variable {config : ManagerConfig} {loads : List UInt8 → Loaded} {store : Store}
  {execution : Execution} {reading : Reading} {action : Action} {point : Point}

private theorem Execution.point_of_copyPayload
    (stepped : execution.step config store reading = some (action, point))
    (makes : (execution.copyPayload store reading).isSome = true) :
    ∃ details, point = .stream details false := by
  have advance := advance_of_step stepped
  obtain ⟨enters, outside⟩ := (copyPayload_isSome_iff stepped).mp makes
  generalize execution.point = here at advance outside
  cases advance with
  | loaded | saved => exact ⟨_, rfl⟩
  | @detailsMissing frame | @failureRaised frame => cases frame <;> cases enters
  | received | cancelling | reporting | completed | ignored | progressed => cases outside
  | _ => cases enters

private theorem Execution.accounted_in_stream {call : CopyCall} {details : JobRow} {terminal : Bool}
    (stepped : execution.step config store reading = some (action, point))
    (here : execution.point = .stream details terminal)
    (permitted : call.permits loads reading.reply = true)
    (accounted : execution.point.Accounted loads (some call)) :
    point.Accounted loads (some (call.advanced loads)) := by
  have advance := advance_of_step stepped
  rw [here] at advance accounted
  have kept : SawCompleted loads (some call) → SawCompleted loads (some (call.advanced loads)) := by
    rintro ⟨made, same, saw⟩
    cases same
    exact ⟨call.advanced loads, rfl, saw⟩
  cases advance with
  | @received _ _ event replied =>
      rintro (isTerminal | isCompleted)
      · exact kept (accounted isTerminal)
      · rw [replied] at permitted
        obtain ⟨json, member, views⟩ := CopyCall.event_of_permits permitted
        exact ⟨call.advanced loads, rfl, json, member, Event.kind_of_views views isCompleted⟩
  | closed => exact kept (accounted rfl)
  | closedEarly | streamFailed => trivial

private theorem Execution.accounted_elsewhere {call : Option CopyCall}
    (stepped : execution.step config store reading = some (action, point))
    (elsewhere : ∀ details terminal, execution.point ≠ .stream details terminal)
    (accounted : execution.point.Accounted loads call) : point.Accounted loads call := by
  have advance := advance_of_step stepped
  generalize execution.point = here at advance elsewhere accounted
  cases advance with
  | received | closed | closedEarly | streamFailed => exact absurd rfl (elsewhere _ _)
  | reporting => exact fun terminal => accounted (Or.inl terminal)
  | completed isCompleted => exact fun _ => accounted (Or.inr isCompleted)
  | ignored => exact fun terminal => accounted (Or.inl terminal)
  | progressed => exact accounted
  | verified => exact fun _ => accounted
  | loaded | saved | operationCancelled | cancelledInstead =>
      exact fun impossible => by cases impossible
  | @detailsMissing frame | @failureRaised frame => cases frame <;> trivial
  | _ => trivial

private theorem Execution.accounted_of_exception {call : Option CopyCall} {here : Point}
    (led : exceptionAt here = some point) : point.Accounted loads call := by
  unfold exceptionAt at led
  split at led <;> cases led <;> trivial

private theorem Execution.accounted_of_cancelled {call : Option CopyCall} (here : Point) :
    (cancelledAt here).Accounted loads call := by
  unfold cancelledAt
  split <;> trivial

/-- A row becomes completed only by `finish`, under its token. -/
theorem RowStep.finish_of_completed {transaction : Transaction} {old row : JobRow}
    (changed : RowStep transaction old row) (notYet : old.state ≠ .completed)
    (completed : row.state = .completed) :
    ∃ token code message current, old.claimToken = some token ∧
      transaction = .call old.id token (.finish .completed code message) current := by
  cases changed with
  | @finished job token state code message current _ sameId holds =>
      subst sameId
      cases state with
      | completed => exact ⟨token, code, message, current, holds, rfl⟩
      | failed | cancelled => cases completed
  | @entered _ _ _ phase _ _ _sameId _holds _named wanted =>
      have working := (phase_working wanted).1
      rw [show phase = .completed from completed] at working
      cases working
  | @taken _ _ _ _ _ =>
      change (if _ then JobState.planning else .copying) = .completed at completed
      split at completed <;> cases completed
  | beat | tallied => exact absurd completed notYet
  | swept | pinned | retryWritten => cases completed
  | failed =>
      change (if _ then JobState.retryWait else .failed) = .completed at completed
      split at completed <;> cases completed
  | givenBack | released =>
      change (if _ then JobState.queued else .retryWait) = .completed at completed
      split at completed <;> cases completed
  | @cancelWritten _ target =>
      change target.toJobState = .completed at completed
      cases target <;> cases completed

/-- Only the call of `finish` that ends a completed execution completes its job. -/
theorem Execution.finishes_of_completed {transaction : Transaction} {row afterRow : JobRow}
    (stepped : execution.step config store reading = some (.commit transaction, point))
    (changed : RowStep transaction row afterRow) (notYet : row.state ≠ .completed)
    (completed : afterRow.state = .completed) :
    execution.point = .finish .completed ∧ row.id = execution.job ∧
      row.claimToken = some execution.token := by
  obtain ⟨token, code, message, current, holds, rfl⟩ := changed.finish_of_completed notYet completed
  have advance := advance_of_step stepped
  generalize execution.point = here at advance ⊢
  generalize actionEq : Action.commit (.call row.id token
    (.finish .completed code message) current) = performed at advance
  cases advance with
  | finished =>
      simp only [calls, Action.commit.injEq, Transaction.call.injEq, ClaimCall.finish.injEq]
        at actionEq
      obtain ⟨sameJob, sameToken, ⟨rfl, -, -⟩, -⟩ := actionEq
      exact ⟨rfl, sameJob, by rw [holds, sameToken]⟩
  | saved | notSaved | saveRaised | progressed | progressRefused | progressRaised | verified
  | failureWritten | failureRaised | givenBack =>
      simp only [calls, Action.commit.injEq, Transaction.call.injEq] at actionEq
      cases actionEq.2.2.1
  | _ => cases actionEq

end Step

/-! ### Runs of a serving deployment -/

namespace Serving

variable {config : ManagerConfig} {loads : List UInt8 → Loaded} {before after : Serving}

theorem next_work {index : Nat} {reading : Reading} {answer : Answer}
    (moved : before.next config loads (.work index reading answer) = some after) :
    ∃ execution call action point, before.deployment.workers[index]? = some execution ∧
      before.turn loads index execution reading answer = some call ∧
      execution.step config before.deployment.system.store reading = some (action, point) ∧
      before.deployment.system.next action = some after.deployment.system ∧
      after.deployment.workers = before.deployment.place index execution point ∧
      after.calls = Function.update before.calls index call := by
  obtain ⟨execution, found, later⟩ := Option.bind_eq_some_iff.mp moved
  obtain ⟨call, turned, last⟩ := Option.bind_eq_some_iff.mp later
  obtain ⟨deployment, deployed, rfl⟩ := Option.map_eq_some_iff.mp last
  obtain ⟨action, acted, stepped⟩ := Deployment.next_eq_some.mp deployed
  simp only [Deployment.act, found, Option.bind_some] at acted
  obtain ⟨⟨stepAction, point⟩, executed, same⟩ := Option.map_eq_some_iff.mp acted
  obtain ⟨rfl, workers⟩ := Prod.mk.inj same
  exact ⟨execution, call, stepAction, point, found, turned, executed, stepped, workers.symm, rfl⟩

theorem next_other {label : Label} (moved : before.next config loads (.other label) = some after) :
    label.isWork = false ∧ before.deployment.next config label = some after.deployment ∧
      after.calls = before.calls := by
  simp only [next] at moved
  split at moved
  · cases moved
  · rename_i notWork
    obtain ⟨deployment, deployed, rfl⟩ := Option.map_eq_some_iff.mp moved
    exact ⟨Bool.eq_false_iff.mpr notWork, deployed, rfl⟩

theorem reachable_deployment {state : Serving} (reached : (serving config loads).Reachable state) :
    (deployed config).Reachable state.deployment := by
  refine reached.project (fun state : Serving => state.deployment) ?_ ?_
  · rintro state ⟨initial, -⟩
    exact initial
  · intro before label after (moved : before.next config loads label = some after)
    have stays : (deployed config).Run Machine.Always before.deployment before.deployment :=
      Machine.Run.refl before.deployment
    cases label with
    | work index reading answer =>
        obtain ⟨execution, found, later⟩ := Option.bind_eq_some_iff.mp moved
        obtain ⟨call, turned, last⟩ := Option.bind_eq_some_iff.mp later
        obtain ⟨deployment, stepped, rfl⟩ := Option.map_eq_some_iff.mp last
        exact stays.tail trivial stepped
    | other label =>
        obtain ⟨-, deployed, -⟩ := next_other moved
        exact stays.tail trivial deployed

private theorem turn_cases {index : Nat} {execution : Execution} {reading : Reading}
    {answer : Answer}
    {call : Option CopyCall}
    (turned : before.turn loads index execution reading answer = some call) :
    (∃ details terminal made, execution.point = .stream details terminal ∧
      before.calls index = some made ∧ made.permits loads reading.reply = true ∧
      call = some (made.advanced loads)) ∨
    ((∀ details terminal, execution.point ≠ .stream details terminal) ∧
      (call = before.calls index ∨
        (execution.copyPayload before.deployment.system.store reading).isSome = true)) := by
  by_cases inStream : ∃ details terminal, execution.point = .stream details terminal
  · left
    obtain ⟨details, terminal, here⟩ := inStream
    simp only [turn, here] at turned
    obtain ⟨made, madeEq, later⟩ := Option.bind_eq_some_iff.mp turned
    split at later
    · rename_i permitted
      cases later
      exact ⟨details, terminal, made, here, madeEq, permitted, rfl⟩
    · cases later
  · right
    have elsewhere : ∀ details terminal, execution.point ≠ .stream details terminal :=
      fun details terminal here => inStream ⟨details, terminal, here⟩
    refine ⟨elsewhere, ?_⟩
    unfold turn at turned
    split at turned
    · rename_i details terminal here
      exact absurd here (elsewhere details terminal)
    · split at turned
      · rename_i makes
        exact Or.inr makes
      · cases turned
        exact Or.inl rfl

def Accounted (loads : List UInt8 → Loaded) (state : Serving) : Prop :=
  ∀ (index : Nat) (execution : Execution), state.deployment.workers[index]? = some execution →
    execution.point.Accounted loads (state.calls index)

private theorem accounted_work {index : Nat} {reading : Reading} {answer : Answer}
    (moved : before.next config loads (.work index reading answer) = some after)
    (accounted : before.Accounted loads) : after.Accounted loads := by
  obtain ⟨execution, call, action, point, found, turned, executed, -, workers, calls⟩ :=
    next_work moved
  intro position other otherFound
  rw [workers] at otherFound
  rw [calls]
  unfold Deployment.place at otherFound
  rw [List.getElem?_set] at otherFound
  by_cases same : index = position
  · subst same
    rw [if_pos rfl, if_pos (List.getElem?_eq_some_iff.mp found).1] at otherFound
    cases otherFound
    rw [Function.update_self]
    rcases turn_cases turned with
      ⟨details, terminal, made, here, madeEq, permitted, rfl⟩ | ⟨elsewhere, rfl | makes⟩
    · refine Execution.accounted_in_stream executed here permitted ?_
      rw [← madeEq]
      exact accounted index execution found
    · exact Execution.accounted_elsewhere executed elsewhere (accounted index execution found)
    · obtain ⟨details, rfl⟩ := Execution.point_of_copyPayload executed makes
      intro impossible
      cases impossible
  · rw [if_neg same] at otherFound
    rw [Function.update_of_ne (Ne.symm same)]
    exact accounted position other otherFound

private theorem accounted_other {label : Label}
    (moved : before.next config loads (.other label) = some after)
    (accounted : before.Accounted loads) : after.Accounted loads := by
  obtain ⟨notWork, deployed, calls⟩ := next_other moved
  obtain ⟨action, acted, -⟩ := Deployment.next_eq_some.mp deployed
  intro position other otherFound
  rw [calls]
  have kept : ∀ index execution point, before.deployment.workers[index]? = some execution →
      after.deployment.workers = before.deployment.place index execution point →
      (∀ call, point.Accounted loads call) →
      other.point.Accounted loads (before.calls position) := by
    intro index execution point found workers free
    rw [workers] at otherFound
    unfold Deployment.place at otherFound
    rw [List.getElem?_set] at otherFound
    by_cases same : index = position
    · subst same
      rw [if_pos rfl, if_pos (List.getElem?_eq_some_iff.mp found).1] at otherFound
      cases otherFound
      exact free _
    · rw [if_neg same] at otherFound
      exact accounted position other otherFound
  rcases Deployment.act_cases acted with ⟨-, workers⟩ |
    ⟨worker, leaseSeconds, current, token, -, -, workers | ⟨job, workers⟩⟩ |
    ⟨index, execution, point, found, workers, how⟩
  · rw [workers] at otherFound
    exact accounted position other otherFound
  · rw [workers] at otherFound
    exact accounted position other otherFound
  · rw [workers] at otherFound
    rw [List.getElem?_append] at otherFound
    split at otherFound
    · exact accounted position other otherFound
    · rw [List.mem_singleton.mp (List.mem_of_getElem? otherFound)]
      trivial
  · refine kept index execution point found workers fun call => ?_
    rcases how with ⟨reading, rfl, -⟩ | ⟨-, ⟨-, led⟩ | ⟨error, rfl⟩ | ⟨-, rfl⟩⟩
    · cases notWork
    · exact Execution.accounted_of_exception led
    · trivial
    · exact Execution.accounted_of_cancelled execution.point

theorem accounted_of_reachable {state : Serving}
    (reached : (serving config loads).Reachable state) :
    state.Accounted loads := by
  refine reached.invariant (Accounted loads) ?_ ?_
  · rintro state ⟨initial, -⟩ index execution found
    rw [initial] at found
    cases found
  · intro before label after (moved : before.next config loads label = some after) accounted
    cases label with
    | work index reading answer => exact accounted_work moved accounted
    | other label => exact accounted_other moved accounted

end Serving

private theorem CopyCall.dropLast_not_terminal (loads : List UInt8 → Loaded) (call : CopyCall) :
    ∀ json ∈ (call.stream loads).events.dropLast, isTerminal json = false := by
  unfold stream
  cases call.answer with
  | refused error =>
      intro json member
      cases member
  | body chunks ending => exact (OCIClient.receive_framed loads chunks ending).before

/-- A worker's step completes a job only if the job is under the worker's token
and the lines of the body the service has sent begin with other events and then
a completed one; no event after a terminal one is ever handed to a worker. -/
theorem completed_only_after_terminal_success {config : ManagerConfig}
    {loads : List UInt8 → Loaded} {before : Serving}
    (reached : (serving config loads).Reachable before) :
    (∀ index reading answer after,
      (serving config loads).next before (.work index reading answer) = some after →
      ∀ job row afterRow, before.deployment.system.store.jobs.find? job = some row →
        after.deployment.system.store.jobs.find? job = some afterRow →
        row.state ≠ .completed → afterRow.state = .completed →
        ∃ execution made chunks ending front line rest completed,
          before.deployment.workers[index]? = some execution ∧ execution.job = job ∧
          row.claimToken = some execution.token ∧
          before.calls index = some made ∧ made.answer = .body chunks ending ∧
          chunks.flatten.splitOn newline = front ++ line :: rest ∧
          (∀ other ∈ front, ∃ event,
            OCIClient.eventOf loads other = .ok event ∧ isTerminal event = false) ∧
          OCIClient.eventOf loads line = .ok completed ∧ typeText completed = some "completed") ∧
    ∀ index made, before.calls index = some made →
      ∀ json ∈ ((made.stream loads).events.take made.delivered).dropLast,
        isTerminal json = false := by
  constructor
  · intro index reading answer after moved job row afterRow found afterFound notYet completed
    obtain ⟨execution, call, action, point, worker, -, executed, stepped, -, -⟩ :=
      Serving.next_work moved
    have rowId : row.id = job := before.deployment.system.store.jobs.find?_key found
    rcases System.next_row stepped afterFound with
      ⟨old, present, rfl | ⟨transaction, rfl, changed⟩⟩ | ⟨absent, -⟩
    · rw [found] at present
      cases present
      exact absurd completed notYet
    · rw [found] at present
      cases present
      obtain ⟨finishing, sameJob, holds⟩ := Execution.finishes_of_completed executed changed notYet
        completed
      have accounted := Serving.accounted_of_reachable reached index execution worker
      rw [finishing] at accounted
      obtain ⟨made, madeEq, json, member, isCompleted⟩ := accounted rfl
      cases answered : made.answer with
      | refused error =>
          simp only [CopyCall.stream, answered] at member
          cases member
      | body chunks ending =>
          simp only [CopyCall.stream, answered] at member
          have terminal : isTerminal json = true := by
            unfold isTerminal
            rw [isCompleted]
            rfl
          obtain ⟨front, line, rest, lines, parsed, others⟩ :=
            OCIClient.terminal_in_body member terminal
          exact ⟨execution, made, chunks, ending, front, line, rest, json, worker,
            sameJob.symm.trans rowId, holds, madeEq, answered, lines, others, parsed, isCompleted⟩
    · rw [found] at absent
      cases absent
  · intro index made _madeEq json member
    apply made.dropLast_not_terminal loads json
    rw [List.dropLast_take_eq_take_dropLast] at member
    exact List.take_subset _ _ member

def completedLine : String := "\x7b\"protocol_version\":1,\"type\":\"completed\"\x7d"

def sampleLoads (line : List UInt8) : Loaded :=
  if line = ascii completedLine then
    .value (.dict [("protocol_version", .int 1), ("type", .str "completed")])
  else .malformed

/-- The line comes in two chunks, the second without its end. -/
def sampleAnswer : Answer :=
  .body [(ascii completedLine).take 10, (ascii completedLine).drop 10] .closed

def served (label : Label) : ServingLabel :=
  match label with
  | .work index reading => .work index reading sampleAnswer
  | label => .other label

def untilFinish : List ServingLabel :=
  (untilStreaming ++ [Label.work 0 (replied (.event { verifyingEvent with
      kind := .completed
      phase := none }) 3), Label.work 0 (replied .done 3), Label.work 0 (replied .streamEnded 3),
    Label.work 0 (replied .done 4)]).map served

theorem completed_only_after_terminal_success_in_two_chunks :
    ∃ (before after : Serving), (serving sampleConfig sampleLoads).Reachable before ∧
      (serving sampleConfig sampleLoads).next before (served (.work 0 (replied .done 5))) =
        some after ∧
      (before.deployment.system.store.jobs.find? "job").any (·.state ≠ .completed) = true ∧
      (after.deployment.system.store.jobs.find? "job").any (·.state = .completed) = true ∧
      ∃ execution made chunks ending completed, before.deployment.workers[0]? = some execution ∧
        execution.job = "job" ∧ before.calls 0 = some made ∧ made.answer = .body chunks ending ∧
        ∃ line ∈ chunks.flatten.splitOn newline,
          OCIClient.eventOf sampleLoads line = .ok completed ∧
          typeText completed = some "completed" := by
  have started : (serving sampleConfig sampleLoads).start
      { deployment := Deployment.initial
        calls := fun _ => none } := ⟨rfl, fun _ => rfl⟩
  have run : (((serving sampleConfig sampleLoads).execute Machine.Always untilFinish
      { deployment := Deployment.initial
        calls := fun _ => none }).any fun before =>
          (before.deployment.system.store.jobs.find? "job").any (fun row =>
            row.state ≠ .completed) &&
          ((serving sampleConfig sampleLoads).next before
            (served (.work 0 (replied .done 5)))).any fun after =>
              (after.deployment.system.store.jobs.find? "job").any fun row =>
                row.state = .completed) = true := by decide +kernel
  obtain ⟨before, reached, both⟩ := Machine.exists_reachable_of_execute _ started run
  obtain ⟨pending, completes⟩ := (Bool.and_eq_true _ _).mp both
  obtain ⟨row, found, notYet⟩ := (Option.any_eq_true _ _).mp pending
  obtain ⟨after, moved, done⟩ := (Option.any_eq_true _ _).mp completes
  obtain ⟨afterRow, afterFound, completed⟩ := (Option.any_eq_true _ _).mp done
  obtain ⟨execution, made, chunks, ending, front, line, rest, json, worker, sameJob, -, call, body,
      lines, -, isEvent, isCompleted⟩ :=
    (completed_only_after_terminal_success reached).1 0 _ sampleAnswer after moved "job" row
      afterRow
      found afterFound (of_decide_eq_true notYet) (of_decide_eq_true completed)
  have inside : line ∈ chunks.flatten.splitOn newline := by
    rw [lines]
    exact List.mem_append_right _ List.mem_cons_self
  exact ⟨before, after, reached, moved, pending, done, execution, made, chunks, ending, json,
    worker,
    sameJob, call, body, line, inside, isEvent, isCompleted⟩

end OciTransfer
