import OciTransfer.ClaimOrder

/-!
The workers of a manager on the queue.

A worker runs `_execute` for the job it has claimed, and an execution stops
before every await: each call of the store, the service or a credential
provider is one step, with the reply as part of the step's label.  Between two
steps of a worker everything else may happen to the queue.  A deployment is the
queue together with the executions of one manager; whatever else acts on the
queue (clients, other managers, the heartbeats) is its environment.  Floats are
rational numbers, and the registered providers are given by their identifiers.
-/

namespace OciTransfer

structure TransferError where
  message : String
  code : String
  retryable : Bool
  retryAfter : Option ℚ
  deriving DecidableEq, Repr

/-- The parameters of the manager that a worker reads. -/
structure ManagerConfig where
  providers : List String
  initialBackoff : ℚ
  maxBackoff : ℚ
  noProgressTimeout : ℚ
  overallTimeout : ℚ
  integrityRetries : Nat
  safeError : String → String

/-! ### Failures -/

def rejected (message code : String) : TransferError :=
  { message := message
    code := code
    retryable := false
    retryAfter := none }

/-- The error a `failed` event raises. -/
def Event.failure (event : Event) : TransferError :=
  { message := event.message.getD "transfer failed"
    code := event.code.getD "transfer_failed"
    retryable := event.retryable
    retryAfter := event.retryAfter }

/-- `(datetime.now(...) - since).total_seconds()`. -/
def elapsed (since current : Instant) : ℚ :=
  ((current - since : Int) : ℚ) / 1000000

namespace ManagerConfig

variable (config : ManagerConfig)

def integrityRule (details : JobRow) (detail : String) (error : TransferError) : TransferError :=
  if error.code = "digest_mismatch" ∧ config.integrityRetries ≤ details.integrityFailures then
    rejected ("Copy failed repeated integrity verification: " ++ detail)
      "integrity_retries_exhausted"
  else error

def noProgressRule (details : JobRow) (detail : String) (current : Instant)
    (error : TransferError) : TransferError :=
  if error.retryable = true ∧
      config.noProgressTimeout ≤ elapsed details.lastProgressAt current then
    rejected ("Copy made no progress before the configured timeout: " ++ detail)
      "no_progress_timeout"
  else error

def overallRule (details : JobRow) (detail : String) (current : Instant)
    (error : TransferError) : TransferError :=
  match details.startedAt with
  | none => error
  | some started =>
      if config.overallTimeout ≠ 0 ∧ config.overallTimeout ≤ elapsed started current then
        rejected ("Copy exceeded the configured overall timeout: " ++ detail) "overall_timeout"
      else error

/-- The error `_record_failure` records in place of the one it was given. -/
def recorded (details : JobRow) (error : TransferError) (current : Instant) : TransferError :=
  let detail := config.safeError error.message
  config.overallRule details detail current
    (config.noProgressRule details detail current (config.integrityRule details detail error))

/-- The seconds until the next attempt; `draw` is what `secrets` supplies. -/
def delay (details : JobRow) (error : TransferError) (draw : Nat) : ℚ :=
  match error.retryAfter with
  | some seconds => min config.maxBackoff (max 0 seconds)
  | none =>
      let cap := min config.maxBackoff
        (config.initialBackoff * 2 ^ min details.consecutiveFailures 16)
      ((draw % max 1 (⌊cap * 1000⌋.toNat + 1) : Nat) : ℚ) / 1000

/-- The arguments `_record_failure` passes to `fail_or_retry`. -/
def failure (details : JobRow) (error : TransferError) (current : Instant) (draw : Nat) :
    Failure :=
  let recorded := config.recorded details error current
  { code := recorded.code
    message := config.safeError recorded.message
    retryable := recorded.retryable
    delay := some (config.delay details recorded draw)
    httpStatus := none
    integrityFailure := error.code = "digest_mismatch" }

/-- The error is retryable, and none of the three rules makes it final. -/
structure Retries (details : JobRow) (error : TransferError) (current : Instant) : Prop where
  retryable : error.retryable = true
  integrity : error.code = "digest_mismatch" → details.integrityFailures < config.integrityRetries
  progress : elapsed details.lastProgressAt current < config.noProgressTimeout
  overall : config.overallTimeout ≠ 0 → ∀ started, details.startedAt = some started →
    elapsed started current < config.overallTimeout

variable {config} {details : JobRow} {detail : String} {error : TransferError} {current : Instant}

private theorem integrityRule_retryable :
    (config.integrityRule details detail error).retryable = true ↔ error.retryable = true ∧
      (error.code = "digest_mismatch" → details.integrityFailures < config.integrityRetries) := by
  unfold integrityRule
  split
  · rename_i exhausted
    constructor
    · intro impossible
      cases impossible
    · rintro ⟨-, attemptsLeft⟩
      exact absurd exhausted.2 (not_le.mpr (attemptsLeft exhausted.1))
  · rename_i notExhausted
    refine ⟨fun retryable => ⟨retryable, fun mismatch => ?_⟩, fun both => both.1⟩
    exact not_le.mp fun spent => notExhausted ⟨mismatch, spent⟩

private theorem noProgressRule_retryable :
    (config.noProgressRule details detail current error).retryable = true ↔
      error.retryable = true ∧
        elapsed details.lastProgressAt current < config.noProgressTimeout := by
  unfold noProgressRule
  split
  · rename_i stalled
    constructor
    · intro impossible
      cases impossible
    · rintro ⟨-, moving⟩
      exact absurd stalled.2 (not_le.mpr moving)
  · rename_i notStalled
    refine ⟨fun retryable => ⟨retryable, ?_⟩, fun both => both.1⟩
    exact not_le.mp fun stalled => notStalled ⟨retryable, stalled⟩

private theorem overallRule_retryable :
    (config.overallRule details detail current error).retryable = true ↔ error.retryable = true ∧
      (config.overallTimeout ≠ 0 → ∀ started, details.startedAt = some started →
        elapsed started current < config.overallTimeout) := by
  unfold overallRule
  cases startedEq : details.startedAt with
  | none =>
      exact ⟨fun retryable => ⟨retryable, fun _ _ absent => by cases absent⟩, fun both => both.1⟩
  | some started =>
      simp only []
      split
      · rename_i late
        constructor
        · intro impossible
          cases impossible
        · rintro ⟨-, inTime⟩
          exact absurd late.2 (not_le.mpr (inTime late.1 started rfl))
      · rename_i notLate
        refine ⟨fun retryable => ⟨retryable, fun limited other same => ?_⟩, fun both => both.1⟩
        cases same
        exact not_le.mp fun late => notLate ⟨limited, late⟩

theorem recorded_retryable :
    (config.recorded details error current).retryable = true ↔
      config.Retries details error current := by
  unfold recorded
  rw [overallRule_retryable, noProgressRule_retryable, integrityRule_retryable]
  constructor
  · rintro ⟨⟨⟨retryable, integrity⟩, progress⟩, overall⟩
    exact ⟨retryable, integrity, progress, overall⟩
  · rintro ⟨retryable, integrity, progress, overall⟩
    exact ⟨⟨⟨retryable, integrity⟩, progress⟩, overall⟩

end ManagerConfig

/-! ### Executions -/

/-- Where an exception of `_record_failure` goes: it is called in both. -/
inductive Frame where
  | execute
  | worker
  deriving DecidableEq, Repr

/-- The await an execution has arrived at, with the local variables still needed. -/
inductive Point where
  | start
  | sourceCredentials (details : JobRow)
  | destinationCredentials (details : JobRow)
  | loadSnapshot (details : JobRow)
  | plan (details : JobRow)
  | saveSnapshot (details : JobRow) (planned : ImageSnapshot)
  | stream (details : JobRow) (terminal : Bool)
  | checkCancelled (details : JobRow) (terminal : Bool) (event : Event)
  | cancelOperation (details : JobRow)
  | progress (details : JobRow) (terminal : Bool) (event : Event)
  | verifying
  | finish (state : TerminalState)
  | handle (details : JobRow) (error : TransferError)
  | refreshSource (details : JobRow) (error : TransferError)
  | refreshDestination (details : JobRow) (error : TransferError)
  | recordFailure (frame : Frame) (error : TransferError)
  | failOrRetry (frame : Frame) (failure : Failure)
  | releasing
  | returned
  | raised
  | ended
  deriving DecidableEq, Repr

/-- An exception in `_execute` is the worker's to handle; one in the worker ends its task. -/
def Frame.raised : Frame → Point
  | .execute => .raised
  | .worker => .ended

/-- What the awaited call delivers, where it is no call of the store. -/
inductive Reply where
  | done
  | planned (snapshot : ImageSnapshot)
  | event (event : Event)
  | streamEnded
  | error (error : TransferError)
  deriving DecidableEq, Repr

structure Reading where
  reply : Reply
  current : Instant
  draw : Nat
  deriving DecidableEq, Repr

/-- `_execute(job, token)` and the worker around it, at one of its awaits. -/
structure Execution where
  job : String
  token : String
  point : Point
  deriving DecidableEq, Repr

/-- The event `{"phase": "verifying"}` that `_execute` makes up. -/
def verifyingEvent : Event :=
  { kind := .phase
    digest := none
    phase := some .verifying
    offset := none
    networkBytes := none
    bytesPerSecond := none
    disposition := none
    code := none
    message := none
    retryable := false
    retryAfter := none }

/-- `_credentials`: an unknown provider raises, any other is awaited. -/
def ManagerConfig.credentials (config : ManagerConfig) (provider : String) (reply : Reply) :
    Option (Except TransferError Unit) :=
  if provider ∉ config.providers then
    some (.error (rejected "credential provider is not registered"
      "credential_provider_unavailable"))
  else
    match reply with
    | .done => some (.ok ())
    | .error error => some (.error error)
    | _ => none

namespace Execution

/-- A call that presents the token, and where each result of it leads. -/
def call (execution : Execution) (store : Store) (request : ClaimCall) (current : Instant)
    (accepted refused onError : Point) : Action × Point :=
  (.commit (.call execution.job execution.token request current),
    match request.run store execution.job execution.token current with
    | .ok (_, true) => accepted
    | .ok (_, false) => refused
    | .error _ => onError)

/-- One step: the action on the queue and the next await. -/
def step (config : ManagerConfig) (store : Store) (execution : Execution) (reading : Reading) :
    Option (Action × Point) :=
  match execution.point with
  | .start =>
      some (.observe, match store.details execution.job with
        | .ok details => .sourceCredentials details
        | .error _ => .raised)
  | .sourceCredentials details =>
      (config.credentials details.sourceProviderId reading.reply).map fun result =>
        (.observe, match result with
          | .ok _ => .destinationCredentials details
          | .error error => .handle details error)
  | .destinationCredentials details =>
      (config.credentials details.destinationProviderId reading.reply).map fun result =>
        (.observe, match result with
          | .ok _ => .loadSnapshot details
          | .error error => .handle details error)
  | .loadSnapshot details =>
      some (.observe, match store.snapshot execution.job with
        | none => .plan details
        | some _ => .stream details false)
  | .plan details =>
      match reading.reply with
      | .planned snapshot => some (.observe, .saveSnapshot details snapshot)
      | .error error => some (.observe, .handle details error)
      | _ => none
  | .saveSnapshot details planned =>
      some (execution.call store (.saveSnapshot planned) reading.current (.stream details false)
        .returned .raised)
  | .stream details terminal =>
      match reading.reply with
      | .event event => some (.observe, .checkCancelled details terminal event)
      | .streamEnded =>
          some (.observe, if terminal then .verifying
            else .handle details (rejected "copy ended without result" "protocol_error"))
      | .error error => some (.observe, .handle details error)
      | _ => none
  | .checkCancelled details terminal event =>
      some (.observe,
        if store.cancellationRequested execution.job execution.token then .cancelOperation details
        else match event.kind with
          | .phase | .progress => .progress details terminal event
          | .failed => .handle details event.failure
          | .completed => .stream details true
          | .other _ => .stream details terminal)
  | .cancelOperation details =>
      match reading.reply with
      | .done => some (.observe, .finish .cancelled)
      | .error error => some (.observe, .handle details error)
      | _ => none
  | .progress details terminal event =>
      some (execution.call store (.progress event) reading.current (.stream details terminal)
        .returned .raised)
  | .verifying =>
      some (execution.call store (.progress verifyingEvent) reading.current (.finish .completed)
        (.finish .completed) .raised)
  | .finish state =>
      some (execution.call store (.finish state none none) reading.current .returned .returned
        .raised)
  | .handle details error =>
      some (.observe,
        if store.cancellationRequested execution.job execution.token then .finish .cancelled
        else if error.code = "authentication_failed" then .refreshSource details error
        else .recordFailure .execute error)
  | .refreshSource details error =>
      (config.credentials details.sourceProviderId reading.reply).map fun result =>
        (.observe, match result with
          | .ok _ => .refreshDestination details error
          | .error _ => .raised)
  | .refreshDestination details error =>
      (config.credentials details.destinationProviderId reading.reply).map fun result =>
        (.observe, match result with
          | .ok _ => .recordFailure .execute { error with retryable := true }
          | .error _ => .raised)
  | .recordFailure frame error =>
      some (.observe, match store.details execution.job with
        | .ok details =>
            .failOrRetry frame (config.failure details error reading.current reading.draw)
        | .error _ => frame.raised)
  | .failOrRetry frame failure =>
      some (execution.call store (.failOrRetry failure) reading.current .returned .returned
        frame.raised)
  | .releasing =>
      some (execution.call store .releaseClaim reading.current .ended .ended .ended)
  | .returned | .raised | .ended => none

theorem call_eq {execution : Execution} {store : Store} {action : Action} {request : ClaimCall}
    {current : Instant} {accepted refused onError next : Point}
    (called : execution.call store request current accepted refused onError = (action, next)) :
    action = .commit (.call execution.job execution.token request current) ∧
      ((∃ after, request.run store execution.job execution.token current = .ok (after, true) ∧
          next = accepted) ∨
        (∃ after, request.run store execution.job execution.token current = .ok (after, false) ∧
          next = refused) ∨
        ∃ raised, request.run store execution.job execution.token current = .error raised ∧
          next = onError) := by
  unfold call at called
  cases called
  refine ⟨rfl, ?_⟩
  cases result : request.run store execution.job execution.token current with
  | error raised => exact Or.inr (Or.inr ⟨raised, rfl, rfl⟩)
  | ok outcome =>
      obtain ⟨after, accepts⟩ := outcome
      cases accepts with
      | true => exact Or.inl ⟨after, rfl, rfl⟩
      | false => exact Or.inr (Or.inl ⟨after, rfl, rfl⟩)

/-- Where an exception leads that is not a transfer error, at this await. -/
def exceptionAt (point : Point) : Option Point :=
  match point with
  | .returned | .raised | .ended => none
  | .releasing | .recordFailure .worker _ | .failOrRetry .worker _ => some .ended
  | _ => some .raised

/-- Where the cancellation of the task leads. -/
def cancelledAt (point : Point) : Point :=
  match point with
  | .returned | .raised | .ended | .releasing | .recordFailure .worker _
  | .failOrRetry .worker _ => .ended
  | _ => .releasing

end Execution

/-! ### Deployments -/

structure Deployment where
  system : System
  workers : List Execution

inductive Label where
  | environment (action : Action)
  | claim (worker : String) (leaseSeconds : Int) (current : Instant) (token : String)
  | work (index : Nat) (reading : Reading)
  | exception (index : Nat)
  | recover (index : Nat) (kind detail : String)
  | cancelTask (index : Nat)
  deriving DecidableEq, Repr

namespace Deployment

def initial : Deployment :=
  { system := System.initial
    workers := [] }

def place (deployment : Deployment) (index : Nat) (execution : Execution) (point : Point) :
    List Execution :=
  deployment.workers.set index { execution with point := point }

/-- The action of a step on the queue, and the executions after it. -/
def act (config : ManagerConfig) (deployment : Deployment) :
    Label → Option (Action × List Execution)
  | .environment action => some (action, deployment.workers)
  | .claim worker leaseSeconds current token =>
      some (.commit (.claim worker leaseSeconds current token),
        match (deployment.system.store.claim worker leaseSeconds current token).2 with
        | none => deployment.workers
        | some (job, claimed) =>
            deployment.workers ++ [{ job := job.id, token := claimed, point := .start }])
  | .work index reading =>
      deployment.workers[index]?.bind fun execution =>
        (execution.step config deployment.system.store reading).map fun (action, point) =>
          (action, deployment.place index execution point)
  | .exception index =>
      deployment.workers[index]?.bind fun execution =>
        (Execution.exceptionAt execution.point).map fun point =>
          (.observe, deployment.place index execution point)
  | .recover index kind detail =>
      deployment.workers[index]?.bind fun execution =>
        if execution.point = .raised then
          some (.observe, deployment.place index execution (.recordFailure .worker
            (rejected ("Copy failed (" ++ kind ++ "): " ++ config.safeError detail)
              "transfer_failed")))
        else none
  | .cancelTask index =>
      deployment.workers[index]?.map fun execution =>
        (.observe, deployment.place index execution (Execution.cancelledAt execution.point))

def next (config : ManagerConfig) (deployment : Deployment) (label : Label) : Option Deployment :=
  (deployment.act config label).bind fun (action, workers) =>
    (deployment.system.next action).map fun system =>
      { system := system
        workers := workers }

end Deployment

def deployed (config : ManagerConfig) : Machine Deployment Label :=
  { start := fun deployment => deployment = Deployment.initial
    next := Deployment.next config }

namespace Deployment

variable {config : ManagerConfig} {before after : Deployment}

theorem next_eq_some {label : Label} :
    before.next config label = some after ↔
      ∃ action, before.act config label = some (action, after.workers) ∧
        before.system.next action = some after.system := by
  constructor
  · intro moved
    obtain ⟨⟨action, workers⟩, acted, later⟩ := Option.bind_eq_some_iff.mp moved
    obtain ⟨system, stepped, rfl⟩ := Option.map_eq_some_iff.mp later
    exact ⟨action, acted, stepped⟩
  · rintro ⟨action, acted, stepped⟩
    simp only [next, acted, Option.bind_some, stepped, Option.map_some]

theorem next_projects {label : Label} (moved : before.next config label = some after) :
    interleaved.Run Machine.Always before.system after.system := by
  obtain ⟨action, -, stepped⟩ := next_eq_some.mp moved
  have stays : interleaved.Run Machine.Always before.system before.system :=
    Machine.Run.refl before.system
  exact stays.tail trivial stepped

/-- What a label does: the environment acts, a claim may start an execution, an
execution takes a step, or one is put at another await without an action. -/
theorem act_cases {label : Label} {action : Action} {workers : List Execution}
    (acted : before.act config label = some (action, workers)) :
    (label = .environment action ∧ workers = before.workers) ∨
    (∃ worker leaseSeconds current token,
      label = .claim worker leaseSeconds current token ∧
      action = .commit (.claim worker leaseSeconds current token) ∧
      (workers = before.workers ∨
        ∃ job, workers = before.workers ++ [{ job := job, token := token, point := .start }])) ∨
    (∃ index execution point, before.workers[index]? = some execution ∧
      workers = before.place index execution point ∧
      ((∃ reading, label = .work index reading ∧
          execution.step config before.system.store reading = some (action, point)) ∨
        (action = .observe ∧
          ((label = .exception index ∧ Execution.exceptionAt execution.point = some point) ∨
            (∃ error, point = .recordFailure .worker error) ∨
            (label = .cancelTask index ∧ point = Execution.cancelledAt execution.point))))) := by
  cases label with
  | environment =>
      cases acted
      exact Or.inl ⟨rfl, rfl⟩
  | claim worker leaseSeconds current token =>
      simp only [act, Store.claim_result, Option.some.injEq, Prod.mk.injEq] at acted
      obtain ⟨rfl, rfl⟩ := acted
      refine Or.inr (Or.inl ⟨worker, leaseSeconds, current, token, rfl, rfl, ?_⟩)
      cases (before.system.store.eligibleRows current).head? with
      | none => exact Or.inl rfl
      | some row => exact Or.inr ⟨_, rfl⟩
  | work index reading =>
      obtain ⟨execution, found, later⟩ := Option.bind_eq_some_iff.mp acted
      obtain ⟨⟨stepAction, point⟩, stepped, same⟩ := Option.map_eq_some_iff.mp later
      obtain ⟨rfl, rfl⟩ := Prod.mk.inj same
      exact Or.inr (Or.inr ⟨index, execution, point, found, rfl, Or.inl ⟨reading, rfl, stepped⟩⟩)
  | exception index =>
      obtain ⟨execution, found, later⟩ := Option.bind_eq_some_iff.mp acted
      obtain ⟨point, led, same⟩ := Option.map_eq_some_iff.mp later
      obtain ⟨rfl, rfl⟩ := Prod.mk.inj same
      exact Or.inr (Or.inr ⟨index, execution, point, found, rfl,
        Or.inr ⟨rfl, Or.inl ⟨rfl, led⟩⟩⟩)
  | recover index kind detail =>
      obtain ⟨execution, found, later⟩ := Option.bind_eq_some_iff.mp acted
      split at later
      · cases later
        exact Or.inr (Or.inr ⟨index, execution, _, found, rfl,
          Or.inr ⟨rfl, Or.inr (Or.inl ⟨_, rfl⟩)⟩⟩)
      · cases later
  | cancelTask index =>
      obtain ⟨execution, found, same⟩ := Option.map_eq_some_iff.mp acted
      obtain ⟨rfl, rfl⟩ := Prod.mk.inj same
      exact Or.inr (Or.inr ⟨index, execution, _, found, rfl,
        Or.inr ⟨rfl, Or.inr (Or.inr ⟨rfl, rfl⟩)⟩⟩)

theorem mem_place {index : Nat} {old execution : Execution} {point : Point}
    (found : before.workers[index]? = some old)
    (member : execution ∈ before.place index old point) :
    execution ∈ before.workers ∨
      (execution = { old with point := point } ∧ old ∈ before.workers) := by
  rcases List.mem_or_eq_of_mem_set member with there | placed
  · exact Or.inl there
  · exact Or.inr ⟨placed, List.mem_of_getElem? found⟩

theorem reachable_system {deployment : Deployment}
    (reached : (deployed config).Reachable deployment) :
    interleaved.Reachable deployment.system := by
  refine reached.project (fun deployment : Deployment => deployment.system) ?_ ?_
  · rintro state rfl
    rfl
  · intro before label after moved
    exact next_projects moved

private theorem place_tokens {index : Nat} {old : Execution}
    (found : before.workers[index]? = some old)
    (point : Point) :
    (before.place index old point).map (fun execution => execution.token) =
      before.workers.map fun execution => execution.token := by
  apply List.ext_getElem?
  intro position
  unfold place
  rw [List.getElem?_map, List.getElem?_map, List.getElem?_set]
  by_cases same : index = position
  · subst same
    have inside := (List.getElem?_eq_some_iff.mp found).1
    rw [if_pos rfl, if_pos inside, found]
    rfl
  · rw [if_neg same]

theorem tokens_distinct {deployment : Deployment}
    (reached : (deployed config).Reachable deployment) :
    (deployment.workers.map fun execution => execution.token).Nodup := by
  have invariant := reached.invariant
    (fun deployment => (deployment.workers.map fun execution => execution.token).Nodup ∧
      ∀ execution ∈ deployment.workers, execution.token ∈ deployment.system.tokens)
    ?_ ?_
  · exact invariant.1
  · rintro state rfl
    exact ⟨List.nodup_nil, fun execution member => by cases member⟩
  · rintro before label after moved ⟨distinct, drawn⟩
    obtain ⟨action, acted, stepped⟩ := next_eq_some.mp moved
    have stillDrawn : ∀ execution ∈ before.workers, execution.token ∈ after.system.tokens :=
      fun execution member => (System.next_drawn stepped).1 (drawn execution member)
    rcases act_cases acted with ⟨-, same⟩ |
      ⟨worker, leaseSeconds, current, token, -, rfl, same | ⟨job, withNew⟩⟩ |
      ⟨index, old, point, found, placed, -⟩
    · rw [same]
      exact ⟨distinct, stillDrawn⟩
    · rw [same]
      exact ⟨distinct, stillDrawn⟩
    · obtain ⟨fresh, nowDrawn⟩ := System.next_claim stepped
      rw [withNew, List.map_append, List.map_singleton]
      constructor
      · refine List.nodup_append'.mpr ⟨distinct, List.nodup_singleton _,
          List.disjoint_singleton.mpr fun taken => ?_⟩
        obtain ⟨execution, member, sameToken⟩ := List.mem_map.mp taken
        have isDrawn := drawn execution member
        rw [show execution.token = token from sameToken] at isDrawn
        exact fresh isDrawn
      · intro execution member
        rcases List.mem_append.mp member with there | isNew
        · exact stillDrawn execution there
        · rw [List.mem_singleton.mp isNew]
          exact nowDrawn
    · rw [placed, place_tokens found]
      refine ⟨distinct, fun execution member => ?_⟩
      rcases mem_place found member with there | ⟨rfl, oldMember⟩
      · exact stillDrawn execution there
      · exact stillDrawn old oldMember

end Deployment

def sampleConfig : ManagerConfig :=
  { providers := ["anonymous"]
    initialBackoff := 1 / 2
    maxBackoff := 60
    noProgressTimeout := 3600
    overallTimeout := 0
    integrityRetries := 2
    safeError := id }

def replied (reply : Reply) (current : Instant) : Reading :=
  { reply := reply
    current := current
    draw := 0 }

def untilStreaming : List Label :=
  [.environment (.commit (.enqueue sampleValues "job" 0)), .claim "manager-0" 60 1 "token",
    .work 0 (replied .done 2), .work 0 (replied .done 2), .work 0 (replied .done 2),
    .work 0 (replied .done 2), .work 0 (replied (.planned sampleSnapshot) 2),
    .work 0 (replied .done 2)]

def phaseEvent (phase : PhaseName) : Event :=
  { verifyingEvent with phase := some phase }

end OciTransfer
