import OciTransfer.WorkerExecution

/-!
Every way an execution gets from one await to the next.

`Advance` lists the transitions of an execution with the condition under which
each is taken and the action it performs on the queue, and `advance_of_step`
says that the list is complete.  Invariants of executions are proved by cases
on it; no later module unfolds the step function for them.
-/

namespace OciTransfer

namespace Execution

def calls (execution : Execution) (request : ClaimCall) (current : Instant) : Action :=
  .commit (.call execution.job execution.token request current)

/-- A transition between two awaits, with its condition and its action. -/
inductive Advance (config : ManagerConfig) (store : Store) (execution : Execution)
    (reading : Reading) : Point → Action → Point → Prop where
  | started {details} :
      store.details execution.job = .ok details →
      Advance config store execution reading .start .observe (.sourceCredentials details)
  | vanished {raised} :
      store.details execution.job = .error raised →
      Advance config store execution reading .start .observe .raised
  | sourceGiven {details} :
      config.credentials details.sourceProviderId reading.reply = some (.ok ()) →
      Advance config store execution reading (.sourceCredentials details) .observe
        (.destinationCredentials details)
  | sourceDenied {details error} :
      config.credentials details.sourceProviderId reading.reply = some (.error error) →
      Advance config store execution reading (.sourceCredentials details) .observe
        (.handle details error)
  | destinationGiven {details} :
      config.credentials details.destinationProviderId reading.reply = some (.ok ()) →
      Advance config store execution reading (.destinationCredentials details) .observe
        (.loadSnapshot details)
  | destinationDenied {details error} :
      config.credentials details.destinationProviderId reading.reply = some (.error error) →
      Advance config store execution reading (.destinationCredentials details) .observe
        (.handle details error)
  | unplanned {details} :
      store.snapshot execution.job = none →
      Advance config store execution reading (.loadSnapshot details) .observe (.plan details)
  | loaded {details snapshot} :
      store.snapshot execution.job = some snapshot →
      Advance config store execution reading (.loadSnapshot details) .observe
        (.stream details false)
  | planned {details snapshot} :
      reading.reply = .planned snapshot →
      Advance config store execution reading (.plan details) .observe
        (.saveSnapshot details snapshot)
  | planFailed {details error} :
      reading.reply = .error error →
      Advance config store execution reading (.plan details) .observe (.handle details error)
  | saved {details planned after} :
      store.saveSnapshot execution.job execution.token planned reading.current = .ok (after, true) →
      Advance config store execution reading (.saveSnapshot details planned)
        (execution.calls (.saveSnapshot planned) reading.current) (.stream details false)
  | notSaved {details planned after} :
      store.saveSnapshot execution.job execution.token planned reading.current =
        .ok (after, false) →
      Advance config store execution reading (.saveSnapshot details planned)
        (execution.calls (.saveSnapshot planned) reading.current) .returned
  | saveRaised {details planned raised} :
      store.saveSnapshot execution.job execution.token planned reading.current = .error raised →
      Advance config store execution reading (.saveSnapshot details planned)
        (execution.calls (.saveSnapshot planned) reading.current) .raised
  | received {details terminal event} :
      reading.reply = .event event →
      Advance config store execution reading (.stream details terminal) .observe
        (.checkCancelled details terminal event)
  | closed {details} :
      reading.reply = .streamEnded →
      Advance config store execution reading (.stream details true) .observe .verifying
  | closedEarly {details} :
      reading.reply = .streamEnded →
      Advance config store execution reading (.stream details false) .observe
        (.handle details (rejected "copy ended without result" "protocol_error"))
  | streamFailed {details terminal error} :
      reading.reply = .error error →
      Advance config store execution reading (.stream details terminal) .observe
        (.handle details error)
  | cancelling {details terminal event} :
      store.cancellationRequested execution.job execution.token = true →
      Advance config store execution reading (.checkCancelled details terminal event) .observe
        (.cancelOperation details)
  | reporting {details terminal event} :
      event.kind = .phase ∨ event.kind = .progress →
      store.cancellationRequested execution.job execution.token = false →
      Advance config store execution reading (.checkCancelled details terminal event) .observe
        (.progress details terminal event)
  | failed {details terminal event} :
      event.kind = .failed →
      store.cancellationRequested execution.job execution.token = false →
      Advance config store execution reading (.checkCancelled details terminal event) .observe
        (.handle details event.failure)
  | completed {details terminal event} :
      event.kind = .completed →
      store.cancellationRequested execution.job execution.token = false →
      Advance config store execution reading (.checkCancelled details terminal event) .observe
        (.stream details true)
  | ignored {details terminal event text} :
      event.kind = .other text →
      store.cancellationRequested execution.job execution.token = false →
      Advance config store execution reading (.checkCancelled details terminal event) .observe
        (.stream details terminal)
  | operationCancelled {details} :
      reading.reply = .done →
      Advance config store execution reading (.cancelOperation details) .observe
        (.finish .cancelled)
  | cancelFailed {details error} :
      reading.reply = .error error →
      Advance config store execution reading (.cancelOperation details) .observe
        (.handle details error)
  | progressed {details terminal event after} :
      store.progress execution.job execution.token event reading.current = .ok (after, true) →
      Advance config store execution reading (.progress details terminal event)
        (execution.calls (.progress event) reading.current) (.stream details terminal)
  | progressRefused {details terminal event after} :
      store.progress execution.job execution.token event reading.current = .ok (after, false) →
      Advance config store execution reading (.progress details terminal event)
        (execution.calls (.progress event) reading.current) .returned
  | progressRaised {details terminal event raised} :
      store.progress execution.job execution.token event reading.current = .error raised →
      Advance config store execution reading (.progress details terminal event)
        (execution.calls (.progress event) reading.current) .raised
  | verified :
      Advance config store execution reading .verifying
        (execution.calls (.progress verifyingEvent) reading.current) (.finish .completed)
  | finished {state} :
      Advance config store execution reading (.finish state)
        (execution.calls (.finish state none none) reading.current) .returned
  | cancelledInstead {details error} :
      store.cancellationRequested execution.job execution.token = true →
      Advance config store execution reading (.handle details error) .observe (.finish .cancelled)
  | refreshing {details error} :
      error.code = "authentication_failed" →
      store.cancellationRequested execution.job execution.token = false →
      Advance config store execution reading (.handle details error) .observe
        (.refreshSource details error)
  | failing {details error} :
      error.code ≠ "authentication_failed" →
      store.cancellationRequested execution.job execution.token = false →
      Advance config store execution reading (.handle details error) .observe
        (.recordFailure .execute error)
  | sourceRefreshed {details error} :
      config.credentials details.sourceProviderId reading.reply = some (.ok ()) →
      Advance config store execution reading (.refreshSource details error) .observe
        (.refreshDestination details error)
  | sourceNotRefreshed {details error refused} :
      config.credentials details.sourceProviderId reading.reply = some (.error refused) →
      Advance config store execution reading (.refreshSource details error) .observe .raised
  | destinationRefreshed {details error} :
      config.credentials details.destinationProviderId reading.reply = some (.ok ()) →
      Advance config store execution reading (.refreshDestination details error) .observe
        (.recordFailure .execute { error with retryable := true })
  | destinationNotRefreshed {details error refused} :
      config.credentials details.destinationProviderId reading.reply = some (.error refused) →
      Advance config store execution reading (.refreshDestination details error) .observe .raised
  | detailsRead {frame error details} :
      store.details execution.job = .ok details →
      Advance config store execution reading (.recordFailure frame error) .observe
        (.failOrRetry frame (config.failure details error reading.current reading.draw))
  | detailsMissing {frame error raised} :
      store.details execution.job = .error raised →
      Advance config store execution reading (.recordFailure frame error) .observe frame.raised
  | failureWritten {frame failure after accepted} :
      (ClaimCall.failOrRetry failure).run store execution.job execution.token reading.current =
        .ok (after, accepted) →
      Advance config store execution reading (.failOrRetry frame failure)
        (execution.calls (.failOrRetry failure) reading.current) .returned
  | failureRaised {frame failure raised} :
      (ClaimCall.failOrRetry failure).run store execution.job execution.token reading.current =
        .error raised →
      Advance config store execution reading (.failOrRetry frame failure)
        (execution.calls (.failOrRetry failure) reading.current) frame.raised
  | givenBack :
      Advance config store execution reading .releasing
        (execution.calls .releaseClaim reading.current) .ended

variable {config : ManagerConfig} {store : Store} {execution : Execution} {reading : Reading}
  {action : Action} {point : Point}

/-- The list of transitions is complete. -/
theorem advance_of_step (stepped : execution.step config store reading = some (action, point)) :
    execution.Advance config store reading execution.point action point := by
  unfold step at stepped
  cases pointEq : execution.point with
  | start =>
      simp only [pointEq, Option.some.injEq, Prod.mk.injEq] at stepped
      obtain ⟨rfl, rfl⟩ := stepped
      cases detailsEq : store.details execution.job with
      | ok details => exact .started detailsEq
      | error raised => exact .vanished detailsEq
  | sourceCredentials details =>
      simp only [pointEq] at stepped
      obtain ⟨result, credentials, led⟩ := Option.map_eq_some_iff.mp stepped
      cases result <;> cases led
      · exact .sourceDenied credentials
      · exact .sourceGiven credentials
  | destinationCredentials details =>
      simp only [pointEq] at stepped
      obtain ⟨result, credentials, led⟩ := Option.map_eq_some_iff.mp stepped
      cases result <;> cases led
      · exact .destinationDenied credentials
      · exact .destinationGiven credentials
  | loadSnapshot details =>
      simp only [pointEq, Option.some.injEq, Prod.mk.injEq] at stepped
      obtain ⟨rfl, rfl⟩ := stepped
      cases stored : store.snapshot execution.job with
      | none => exact .unplanned stored
      | some snapshot => exact .loaded stored
  | plan details =>
      simp only [pointEq] at stepped
      cases replyEq : reading.reply <;> simp only [replyEq] at stepped <;> cases stepped
      · exact .planned replyEq
      · exact .planFailed replyEq
  | saveSnapshot details planned =>
      simp only [pointEq, Option.some.injEq] at stepped
      obtain ⟨rfl, outcome⟩ := call_eq stepped
      rcases outcome with ⟨_, result, rfl⟩ | ⟨_, result, rfl⟩ | ⟨_, result, rfl⟩
      · exact .saved result
      · exact .notSaved result
      · exact .saveRaised result
  | stream details terminal =>
      simp only [pointEq] at stepped
      cases replyEq : reading.reply <;> simp only [replyEq] at stepped <;> cases terminal <;>
        cases stepped
      · exact .received replyEq
      · exact .received replyEq
      · exact .closedEarly replyEq
      · exact .closed replyEq
      · exact .streamFailed replyEq
      · exact .streamFailed replyEq
  | checkCancelled details terminal event =>
      simp only [pointEq, Option.some.injEq, Prod.mk.injEq] at stepped
      obtain ⟨rfl, rfl⟩ := stepped
      cases requested : store.cancellationRequested execution.job execution.token with
      | true => exact .cancelling requested
      | false =>
          cases kindEq : event.kind with
          | phase => exact .reporting (Or.inl kindEq) requested
          | progress => exact .reporting (Or.inr kindEq) requested
          | failed => exact .failed kindEq requested
          | completed => exact .completed kindEq requested
          | other text => exact .ignored kindEq requested
  | cancelOperation details =>
      simp only [pointEq] at stepped
      cases replyEq : reading.reply <;> simp only [replyEq] at stepped <;> cases stepped
      · exact .operationCancelled replyEq
      · exact .cancelFailed replyEq
  | progress details terminal event =>
      simp only [pointEq, Option.some.injEq] at stepped
      obtain ⟨rfl, outcome⟩ := call_eq stepped
      rcases outcome with ⟨_, accepted, rfl⟩ | ⟨_, refused, rfl⟩ | ⟨_, raised, rfl⟩
      · exact .progressed accepted
      · exact .progressRefused refused
      · exact .progressRaised raised
  | verifying =>
      simp only [pointEq, Option.some.injEq] at stepped
      obtain ⟨rfl, outcome⟩ := call_eq stepped
      rcases outcome with ⟨_, -, rfl⟩ | ⟨_, -, rfl⟩ | ⟨_, impossible, -⟩
      · exact .verified
      · exact .verified
      · cases impossible
  | finish state =>
      simp only [pointEq, Option.some.injEq] at stepped
      obtain ⟨rfl, outcome⟩ := call_eq stepped
      rcases outcome with ⟨_, -, rfl⟩ | ⟨_, -, rfl⟩ | ⟨_, impossible, -⟩
      · exact .finished
      · exact .finished
      · cases impossible
  | handle details error =>
      simp only [pointEq, Option.some.injEq, Prod.mk.injEq] at stepped
      obtain ⟨rfl, rfl⟩ := stepped
      cases requested : store.cancellationRequested execution.job execution.token with
      | true => exact .cancelledInstead requested
      | false =>
          by_cases refused : error.code = "authentication_failed"
          · simp only [Bool.false_eq_true, if_false, if_pos refused]
            exact .refreshing refused requested
          · simp only [Bool.false_eq_true, if_false, if_neg refused]
            exact .failing refused requested
  | refreshSource details error =>
      simp only [pointEq] at stepped
      obtain ⟨result, credentials, led⟩ := Option.map_eq_some_iff.mp stepped
      cases result <;> cases led
      · exact .sourceNotRefreshed credentials
      · exact .sourceRefreshed credentials
  | refreshDestination details error =>
      simp only [pointEq] at stepped
      obtain ⟨result, credentials, led⟩ := Option.map_eq_some_iff.mp stepped
      cases result <;> cases led
      · exact .destinationNotRefreshed credentials
      · exact .destinationRefreshed credentials
  | recordFailure frame error =>
      simp only [pointEq, Option.some.injEq, Prod.mk.injEq] at stepped
      obtain ⟨rfl, rfl⟩ := stepped
      cases detailsEq : store.details execution.job with
      | ok details => exact .detailsRead detailsEq
      | error raised => exact .detailsMissing detailsEq
  | failOrRetry frame failure =>
      simp only [pointEq, Option.some.injEq] at stepped
      obtain ⟨rfl, outcome⟩ := call_eq stepped
      rcases outcome with ⟨_, result, rfl⟩ | ⟨_, result, rfl⟩ | ⟨_, result, rfl⟩
      · exact .failureWritten result
      · exact .failureWritten result
      · exact .failureRaised result
  | releasing =>
      simp only [pointEq, Option.some.injEq] at stepped
      obtain ⟨rfl, outcome⟩ := call_eq stepped
      rcases outcome with ⟨_, -, rfl⟩ | ⟨_, -, rfl⟩ | ⟨_, -, rfl⟩ <;> exact .givenBack
  | returned | raised | ended =>
      simp only [pointEq] at stepped
      cases stepped

theorem Advance.action_eq {here : Point}
    (advance : execution.Advance config store reading here action point) :
    action = .observe ∨ ∃ request, action = execution.calls request reading.current := by
  cases advance with
  | saved | notSaved | saveRaised | progressed | progressRefused | progressRaised | verified
  | finished | failureWritten | failureRaised | givenBack => exact Or.inr ⟨_, rfl⟩
  | _ => exact Or.inl rfl

end Execution

theorem System.next_enabled (system : System) {execution : Execution} {action : Action}
    {current : Instant}
    (owned : action = .observe ∨ ∃ request, action = execution.calls request current) :
    ∃ after, system.next action = some after := by
  rcases owned with rfl | ⟨request, rfl⟩
  · exact ⟨_, rfl⟩
  · exact ⟨_, rfl⟩

end OciTransfer
