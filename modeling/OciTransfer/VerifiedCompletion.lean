import OciTransfer.StreamCompletion
import OciTransfer.WireFormat

/-!
A completed job, from its row back to the registries.

The copy call of a worker carries the snapshot stored for the job; the service
decodes it, copies, reads the destination back, and writes one line for each
event; the worker reads lines, and completes its job.  Here the answers of a
serving deployment are those of the copy handler to the payloads its executions
send: refused, or any beginning of the stream, cut and ended in any way.  Each
execution has a claim token of its own and makes at most one copy call, so the
conversation that the handler has for it is named by the token.
-/

namespace OciTransfer

/-! ### What the service answers to a payload -/

/-- The line of an event is one line; it reads as the event, and none of its
proper beginnings reads as anything. -/
structure Encodes (loads : List UInt8 → Loaded) (event : Event) (line : List UInt8) : Prop where
  oneLine : newline ∉ line
  reads : ∃ json, loads line = .value json ∧ event.views json = true
  whole : ∀ part, part <+: line → part ≠ line → ∀ json, loads part ≠ .value json

section Answering

variable {Ref : Type} (service : Service) (references : References Ref) (text : Client.JsonText)
  (loads : List UInt8 → Loaded)

/-- The handler's dialogue for a copy call that carries the snapshot. -/
def Service.copyOf (operations : List String) (id : String) (snapshot : JsonValue)
    (source destination : Option Client.RegistryCredentials) :
    Dialogue (@RegistryCall.Reply Ref) Response :=
  { service with operations := operations }.copy references id
    ((Wire.decodeCopyRequest text (Client.copyPayload snapshot source destination)).map handledCopy)

/-- One request of the copy handler with everything the registries answer to it. -/
structure Conversation (Ref : Type) where
  operations : List String
  id : String
  source : Option Client.RegistryCredentials
  destination : Option Client.RegistryCredentials
  transcript : List (Dialogue.Exchange (@RegistryCall.Reply Ref))
  events : List Event

/-- The handler has this conversation about the snapshot, and streams its events. -/
def Service.Converses (snapshot : JsonValue) (said : Conversation Ref) : Prop :=
  (service.copyOf references text said.operations said.id snapshot said.source
    said.destination).Concludes said.transcript (.stream said.events)

/-- The call fails before its body, or the body is a beginning of the lines that the
handler writes in the conversation. -/
def Service.Answers (snapshot : JsonValue) (said : Conversation Ref) (answer : Answer) : Prop :=
  (∃ error, answer = .refused error) ∨
    service.Converses references text snapshot said ∧ ∃ lines chunks ending,
      answer = .body chunks ending ∧ List.Forall₂ (Encodes loads) said.events lines ∧
      chunks.flatten <+: lines.flatMap fun line => line ++ [newline]

/-- In the conversation the handler has copied what the snapshot names by digest, and has
then read that digest back at the destination of the snapshot. -/
def Service.Verified (snapshot : ImageSnapshot) (said : Conversation Ref) : Prop :=
  service.Converses references text snapshot.loaded said ∧ ∃ transfer : Transfer Ref,
    references.parseReference snapshot.resolvedSource = some transfer.source ∧
    references.parseReference snapshot.destination = some transfer.destination ∧
    transfer.rootDigest = snapshot.rootDigest ∧
    references.digest transfer.source = snapshot.rootDigest ∧
    transfer.CopiedAndReadBack references said.transcript

end Answering

/-! ### From the line that completes a job to the registries -/

private theorem EventKind.eq_completed {event : Event} {json : JsonValue}
    (views : event.views json = true) (text : typeText json = some "completed") :
    event.kind = .completed := by
  have kindEq : eventKind json = some event.kind := by
    simp only [Event.views, Bool.and_eq_true, decide_eq_true_eq] at views
    tauto
  unfold eventKind at kindEq
  split at kindEq
  · rw [text] at kindEq
    exact (Option.some.inj kindEq).symm.trans (by decide)
  · cases kindEq

private theorem completed_event_of_body {loads : List UInt8 → Loaded} {events : List Event}
    {lines : List (List UInt8)} (encoded : List.Forall₂ (Encodes loads) events lines)
    (someLine : events ≠ []) {chunks : List (List UInt8)} {ending : Ending}
    (begins : chunks.flatten <+: lines.flatMap fun line => line ++ [newline]) {json : JsonValue}
    (handedOut : json ∈ (OCIClient.receive loads chunks ending).events)
    (completed : typeText json = some "completed") :
    ∃ event ∈ events, event.kind = .completed := by
  have encoding : ∀ line ∈ lines, ∃ event ∈ events, Encodes loads event line := by
    intro line member
    obtain ⟨index, found⟩ := List.getElem?_of_mem member
    obtain ⟨inside, rfl⟩ := List.getElem?_eq_some_iff.mp found
    have inEvents : index < events.length := by
      rw [encoded.length_eq]
      exact inside
    exact ⟨events[index], List.getElem_mem inEvents, encoded.get inEvents inside⟩
  have terminal : isTerminal json = true := by
    unfold isTerminal
    rw [completed]
    rfl
  obtain ⟨front, line, rest, split, parsed, -⟩ := OCIClient.terminal_in_body handedOut terminal
  have loaded : loads line = .value json := by
    unfold OCIClient.eventOf at parsed
    split at parsed
    · cases parsed
    · cases parsed
    · rename_i given isGiven
      split at parsed
      · cases parsed
      · split at parsed
        · cases parsed
          exact isGiven
        · cases parsed
  have within : ∃ whole ∈ lines, line <+: whole := by
    have segment : line ∈ chunks.flatten.splitOn newline := by
      rw [split]
      simp
    rcases LineFraming.mem_splitOn_of_begins
        (fun other among => (encoding other among).choose_spec.2.oneLine) begins segment with
      rfl | found
    · cases encoded with
      | nil => exact absurd rfl someLine
      | cons _ _ => exact ⟨_, List.mem_cons_self, List.nil_prefix⟩
    · exact found
  obtain ⟨whole, member, isPart⟩ := within
  obtain ⟨event, inEvents, encodes⟩ := encoding whole member
  by_cases isWhole : line = whole
  · obtain ⟨read, readEq, views⟩ := encodes.reads
    rw [← isWhole, loaded] at readEq
    cases readEq
    exact ⟨event, inEvents, EventKind.eq_completed views completed⟩
  · exact absurd loaded (encodes.whole line isPart isWhole json)

private theorem Wire.decodeSnapshot_loaded {snapshot : ImageSnapshot} {decoded : Wire.Snapshot}
    (accepted : Wire.decodeSnapshot snapshot.loaded = some decoded) :
    decoded.resolvedSource = snapshot.resolvedSource ∧ decoded.destination = snapshot.destination ∧
      decoded.rootDigest = snapshot.rootDigest := by
  rw [← snapshot.roundTripped_eq_loaded] at accepted
  unfold Wire.decodeSnapshot ImageSnapshot.roundTripped at accepted
  rw [@JsonValue.goStruct_dict _ _ ["source", "resolved_source", "destination", "root_digest",
    "root_media_type", "root_size", "platforms", "manifests", "blobs", "copy_referrers",
    "copy_digest_tags", "replacement_policy", "digest"] _ _ rfl (by decide) (by decide)
    (by decide)] at accepted
  simp only [ImageSnapshot.items, List.lookup_cons, String.reduceBEq, Option.getD_some,
    JsonValue.goString, JsonValue.goBool, Option.pure_def, Option.bind_eq_bind,
    Option.bind_some, Option.bind_eq_some_iff] at accepted
  obtain ⟨_, -, _, -, _, -, _, -, same⟩ := accepted
  cases same
  exact ⟨rfl, rfl, rfl⟩

private theorem Wire.decodeCopyRequest_loaded {text : Client.JsonText} {snapshot : ImageSnapshot}
    {source destination : Option Client.RegistryCredentials} {request : Wire.CopyRequest}
    (accepted : Wire.decodeCopyRequest text
      (Client.copyPayload snapshot.loaded source destination) = some request) :
    request.snapshot.resolvedSource = snapshot.resolvedSource ∧
      request.snapshot.destination = snapshot.destination ∧
      request.snapshot.rootDigest = snapshot.rootDigest := by
  unfold Wire.decodeCopyRequest Client.copyPayload at accepted
  split at accepted
  · cases accepted
  · rw [@JsonValue.goStruct_dict _ _ ["protocol_version", "snapshot", "source_credentials",
      "destination_credentials"] _ _ rfl (by decide) (by decide) (by decide)] at accepted
    simp only [List.lookup_cons, String.reduceBEq, Option.getD_some, Option.pure_def,
      Option.bind_eq_bind, Option.bind_eq_some_iff] at accepted
    obtain ⟨_, -, decoded, decodedEq, _, -, _, -, same⟩ := accepted
    cases same
    exact Wire.decodeSnapshot_loaded decodedEq

namespace Service

variable {Ref : Type} {service : Service} {references : References Ref} {text : Client.JsonText}

/-- A stream that completes was written after the content was copied and read back. -/
theorem verified_of_completed {snapshot : ImageSnapshot} {said : Conversation Ref}
    (concludes : service.Converses references text snapshot.loaded said)
    {event : Event} (member : event ∈ said.events) (completed : event.kind = .completed) :
    service.Verified references text snapshot said := by
  rcases copy_concludes concludes with
    ⟨-, refusal⟩ | ⟨request, transfer, hosts, calls, accepted, valid, exchanged, transcriptEq⟩
  · exact absurd rfl refusal
  · obtain ⟨sameRequest, sourceRef, destinationRef, sourceDigest, -⟩ := validate_ok valid
    obtain ⟨decoded, decodedEq, rfl⟩ := Option.map_eq_some_iff.mp (accept_ok accepted)
    obtain ⟨resolvedEq, destinationEq, rootEq⟩ := Wire.decodeCopyRequest_loaded decodedEq
    have root : transfer.rootDigest = snapshot.rootDigest := by
      unfold Transfer.rootDigest
      rw [sameRequest]
      exact rootEq
    rcases exchange_concludes exchanged with conflict | ⟨_, last, same, shape, verified⟩
    · cases conflict
    · cases same
      have isLast : event = last := by
        obtain ⟨progress, verifying, eventsEq, allProgress, atMostOne, -⟩ := shape
        rw [eventsEq] at member
        rcases List.mem_cons.mp member with rfl | member
        · cases completed
        · rcases List.mem_append.mp member with member | member
          · rcases List.mem_append.mp member with member | member
            · rw [allProgress event member] at completed
              cases completed
            · rcases atMostOne with rfl | rfl
              · cases member
              · rw [List.mem_singleton.mp member] at completed
                cases completed
          · exact List.mem_singleton.mp member
      rw [isLast] at completed
      refine ⟨concludes, transfer, ?_, ?_, root, sourceDigest.trans root, ?_⟩
      · rw [← resolvedEq]
        exact sourceRef
      · rw [← destinationEq]
        exact destinationRef
      · rw [transcriptEq]
        exact (verified completed).within [⟨.connect hosts, ()⟩] _

private theorem verified_of_answers {loads : List UInt8 → Loaded} {snapshot : ImageSnapshot}
    {said : Conversation Ref} {call : CopyCall}
    (answers : service.Answers references text loads snapshot.loaded said call.answer)
    (saw : SawCompleted loads (some call)) : service.Verified references text snapshot said := by
  obtain ⟨made, same, json, member, completed⟩ := saw
  cases same
  rcases answers with ⟨error, refused⟩ |
    ⟨concludes, lines, chunks, ending, answered, encoded, begins⟩
  · simp only [CopyCall.stream, refused] at member
    cases member
  · simp only [CopyCall.stream, answered] at member
    have someEvent : said.events ≠ [] := by
      rcases copy_concludes concludes with ⟨-, refusal⟩ | ⟨_, _, _, _, -, -, exchanged, -⟩
      · exact absurd rfl refusal
      · rcases exchange_concludes exchanged with conflict | ⟨_, _, same, shape, -⟩
        · cases conflict
        · cases same
          obtain ⟨_, _, eventsEq, -⟩ := shape
          rw [eventsEq]
          exact List.cons_ne_nil _ _
    obtain ⟨event, inEvents, isCompleted⟩ :=
      completed_event_of_body encoded someEvent begins member completed
    exact verified_of_completed concludes inEvents isCompleted

end Service

/-! ### Runs in which the handler answers -/

/-- The transaction reports a success. -/
def Transaction.completes : Transaction → Bool
  | .call _ _ (.finish .completed _ _) _ => true
  | _ => false

section Runs

variable {Ref : Type} (service : Service) (references : References Ref) (text : Client.JsonText)
  (loads : List UInt8 → Loaded) (said : String → Conversation Ref)

/-- The jobs that a move completes, and the tokens under which it does. -/
def completionReport (before : Serving) (_ : ServingLabel) (after : Serving) :
    List (String × String) :=
  after.deployment.system.store.jobs.rows.filterMap fun row =>
    if row.state = .completed then
      (before.deployment.system.store.jobs.find? row.id).bind fun old =>
        if old.state = .completed then none else old.claimToken.map (row.id, ·)
    else none

/-- The copy calls of the manager are answered by the handler, each in the conversation of
the token, and nobody else reports successes. -/
def Serving.Handled (state : Serving) : ServingLabel → Prop
  | .work index reading answer => ∀ execution payload,
      state.deployment.workers[index]? = some execution →
      execution.copyPayload state.deployment.system.store reading = some payload →
      service.Answers references text loads payload (said execution.token) answer
  | .other (.environment (.commit transaction)) => transaction.completes = false
  | .other _ => True

/-- The call of an execution carried the snapshot of its job, and is answered so. -/
def Serving.Bound (state : Serving) : Prop :=
  ∀ index made, state.calls index = some made →
    ∃ execution snapshot, state.deployment.workers[index]? = some execution ∧
      execution.job ∈ state.deployment.system.jobIds ∧
      service.Answers references text loads snapshot.loaded (said execution.token) made.answer ∧
      ∀ row, state.deployment.system.store.jobs.find? execution.job = some row →
        row.snapshotJson = some snapshot

/-- Every completed job has been completed under a token whose conversation verifies the
snapshot in its row. -/
def Serving.CompletedVerified (state : Serving) (log : List (String × String)) : Prop :=
  ∀ job row, state.deployment.system.store.jobs.find? job = some row → row.state = .completed →
    ∃ snapshot token, row.snapshotJson = some snapshot ∧ (job, token) ∈ log ∧
      service.Verified references text snapshot (said token)

end Runs

namespace Serving

variable {Ref : Type} {service : Service} {references : References Ref} {text : Client.JsonText}
  {loads : List UInt8 → Loaded} {said : String → Conversation Ref} {config : ManagerConfig}
  {before after : Serving}

/-- A snapshot stored for a drawn job is the one its row has after an action. -/
theorem pinned_step {action : Action} (reached : (serving config loads).Reachable before)
    (stepped : before.deployment.system.next action = some after.deployment.system) {job : String}
    (drawn : job ∈ before.deployment.system.jobIds) {snapshot : ImageSnapshot}
    (pinned : ∀ row, before.deployment.system.store.jobs.find? job = some row →
      row.snapshotJson = some snapshot) {row : JobRow}
    (found : after.deployment.system.store.jobs.find? job = some row) :
    row.snapshotJson = some snapshot := by
  have stays : interleaved.Run Machine.Always before.deployment.system before.deployment.system :=
    Machine.Run.refl _
  rcases System.next_row stepped found with ⟨old, present, -⟩ | ⟨-, undrawn, -⟩
  · exact snapshotJson_kept (Deployment.reachable_system (reachable_deployment reached))
      (stays.tail trivial stepped) present found (pinned old present)
  · exact absurd drawn undrawn

private theorem answer_of_turn {index : Nat} {execution : Execution} {reading : Reading}
    {answer : Answer}
    {made : CopyCall}
    (turned : before.turn loads index execution reading answer = some (some made)) :
    (∃ earlier, before.calls index = some earlier ∧ made.answer = earlier.answer) ∨
      (∃ payload, execution.copyPayload before.deployment.system.store reading = some payload ∧
        made.answer = answer) := by
  unfold turn at turned
  split at turned
  · obtain ⟨earlier, earlierEq, later⟩ := Option.bind_eq_some_iff.mp turned
    split at later
    · cases later
      exact Or.inl ⟨earlier, earlierEq, rfl⟩
    · cases later
  · split at turned
    · rename_i makes
      cases turned
      obtain ⟨payload, sent⟩ := Option.isSome_iff_exists.mp makes
      exact Or.inr ⟨payload, sent, rfl⟩
    · exact Or.inl ⟨made, Option.some.inj turned, rfl⟩

private theorem bound_work {index : Nat} {reading : Reading} {answer : Answer}
    (reached : (serving config loads).Reachable before)
    (handled : before.Handled service references text loads said (.work index reading answer))
    (moved : before.next config loads (.work index reading answer) = some after)
    (bound : before.Bound service references text loads said) :
    after.Bound service references text loads said := by
  obtain ⟨execution, call, action, point, found, turned, executed, stepped, workers, calls⟩ :=
    next_work moved
  have deployed : before.deployment.next config (.work index reading) = some after.deployment := by
    obtain ⟨_, worker, later⟩ := Option.bind_eq_some_iff.mp moved
    obtain ⟨_, -, last⟩ := Option.bind_eq_some_iff.mp later
    obtain ⟨deployment, deployed, rfl⟩ := Option.map_eq_some_iff.mp last
    exact deployed
  have drawnStays := (System.next_drawn stepped).2
  intro position made madeEq
  rw [calls] at madeEq
  by_cases same : position = index
  · subst same
    rw [Function.update_self] at madeEq
    subst madeEq
    have placed : after.deployment.workers[position]? = some { execution with point := point } := by
      rw [workers, Deployment.place, List.getElem?_set_self (List.getElem?_eq_some_iff.mp found).1]
    rcases answer_of_turn turned with ⟨earlier, earlierEq, sameAnswer⟩ | ⟨payload, sent, sameAnswer⟩
    · obtain ⟨other, snapshot, otherFound, drawn, answers, pinned⟩ :=
        bound position earlier earlierEq
      rw [found] at otherFound
      cases otherFound
      rw [← sameAnswer] at answers
      exact ⟨_, snapshot, placed, drawnStays drawn, answers,
        fun row rowFound => pinned_step reached stepped drawn pinned rowFound⟩
    · have answers := handled execution payload found sent
      have recorded : .copied execution.job payload ∈
          before.deployment.copiedBy (.work position reading) := by
        unfold Deployment.copiedBy
        simp only [found, sent, Option.map_some, Option.mem_toList]
      obtain ⟨snapshot, rfl, stored⟩ := PinnedRecord.copied_step deployed recorded
      rw [← sameAnswer] at answers
      rcases stored with ⟨row, rowFound, rowStored⟩ | ⟨row, rowFound, rowStored⟩
      · have drawn := System.drawn_of_found
          (Deployment.reachable_system (reachable_deployment reached)) rowFound
        refine ⟨_, snapshot, placed, drawnStays drawn, answers, fun other otherFound =>
          pinned_step reached stepped drawn (fun old oldFound => ?_) otherFound⟩
        rw [rowFound] at oldFound
        cases oldFound
        exact rowStored
      · have steppedServing : (serving config loads).next before (.work position reading answer) =
            some after := moved
        have reachedAfter := reached.step steppedServing
        have drawn := System.drawn_of_found
          (Deployment.reachable_system (reachable_deployment reachedAfter)) rowFound
        refine ⟨_, snapshot, placed, drawn, answers, fun other otherFound => ?_⟩
        rw [rowFound] at otherFound
        cases otherFound
        exact rowStored
  · rw [Function.update_of_ne same] at madeEq
    obtain ⟨other, snapshot, otherFound, drawn, answers, pinned⟩ := bound position made madeEq
    refine ⟨other, snapshot, ?_, drawnStays drawn, answers,
      fun row rowFound => pinned_step reached stepped drawn pinned rowFound⟩
    rw [workers, Deployment.place, List.getElem?_set_ne (Ne.symm same)]
    exact otherFound

private theorem bound_other {label : Label} (reached : (serving config loads).Reachable before)
    (moved : before.next config loads (.other label) = some after)
    (bound : before.Bound service references text loads said) :
    after.Bound service references text loads said := by
  obtain ⟨-, deployed, calls⟩ := next_other moved
  obtain ⟨action, acted, stepped⟩ := Deployment.next_eq_some.mp deployed
  have drawnStays := (System.next_drawn stepped).2
  intro index made madeEq
  rw [calls] at madeEq
  obtain ⟨execution, snapshot, found, drawn, answers, pinned⟩ := bound index made madeEq
  have stillThere : ∃ placed, after.deployment.workers[index]? = some placed ∧
      placed.job = execution.job ∧ placed.token = execution.token := by
    rcases Deployment.act_cases acted with ⟨-, workers⟩ |
      ⟨worker, leaseSeconds, current, token, -, -, workers | ⟨job, workers⟩⟩ |
      ⟨position, old, point, atPosition, workers, -⟩
    · rw [workers]
      exact ⟨execution, found, rfl, rfl⟩
    · rw [workers]
      exact ⟨execution, found, rfl, rfl⟩
    · rw [workers, List.getElem?_append_left (List.getElem?_eq_some_iff.mp found).1]
      exact ⟨execution, found, rfl, rfl⟩
    · rw [workers, Deployment.place, List.getElem?_set]
      by_cases same : position = index
      · subst same
        rw [if_pos rfl, if_pos (List.getElem?_eq_some_iff.mp found).1]
        rw [found] at atPosition
        cases atPosition
        exact ⟨_, rfl, rfl, rfl⟩
      · rw [if_neg same]
        exact ⟨execution, found, rfl, rfl⟩
  obtain ⟨placed, placedFound, sameJob, sameToken⟩ := stillThere
  refine ⟨placed, snapshot, placedFound, ?_, ?_, ?_⟩
  · rw [sameJob]
    exact drawnStays drawn
  · rw [sameToken]
    exact answers
  · rw [sameJob]
    exact fun row rowFound => pinned_step reached stepped drawn pinned rowFound

/-- A job that is completed after an action and was not before it is completed by
the action, and the row it was is there. -/
theorem completing_step {action : Action}
    (stepped : before.deployment.system.next action = some after.deployment.system) {job : String}
    {row : JobRow} (found : after.deployment.system.store.jobs.find? job = some row)
    (completed : row.state = .completed) :
    ∃ old, before.deployment.system.store.jobs.find? job = some old ∧
      (old.state = .completed ∨ ∃ transaction, action = .commit transaction ∧
        RowStep transaction old row ∧ old.state ≠ .completed) := by
  rcases System.next_row stepped found with
    ⟨old, present, rfl | ⟨transaction, acts, changed⟩⟩ | ⟨-, -, -, values, current, rfl⟩
  · exact ⟨row, present, Or.inl completed⟩
  · by_cases already : old.state = .completed
    · exact ⟨old, present, Or.inl already⟩
    · exact ⟨old, present, Or.inr ⟨transaction, acts, changed, already⟩⟩
  · cases completed

private theorem mem_completionReport {label : ServingLabel} {job token : String} {old row : JobRow}
    (present : before.deployment.system.store.jobs.find? job = some old)
    (found : after.deployment.system.store.jobs.find? job = some row)
    (completed : row.state = .completed) (notYet : old.state ≠ .completed)
    (holds : old.claimToken = some token) :
    (job, token) ∈ completionReport before label after := by
  have rowId : row.id = job := after.deployment.system.store.jobs.find?_key found
  refine List.mem_filterMap.mpr ⟨row, after.deployment.system.store.jobs.find?_mem found, ?_⟩
  rw [if_pos completed, rowId, present, Option.bind_some, if_neg notYet, holds, Option.map_some]

private theorem verified_step {label : ServingLabel} {log : List (String × String)}
    (reached : (serving config loads).Reachable before)
    (handled : before.Handled service references text loads said label)
    (moved : (serving config loads).next before label = some after)
    (bound : before.Bound service references text loads said)
    (verified : before.CompletedVerified service references text said log) :
    after.CompletedVerified service references text said
      (log ++ completionReport before label after) := by
  intro job row found completed
  have inherits : ∀ {action old}, before.deployment.system.next action =
        some after.deployment.system → before.deployment.system.store.jobs.find? job = some old →
      ∀ {snapshot}, old.snapshotJson = some snapshot → row.snapshotJson = some snapshot := by
    intro action old stepped present snapshot stored
    refine pinned_step reached stepped (System.drawn_of_found (Deployment.reachable_system
      (reachable_deployment reached)) present) (fun other otherFound => ?_) found
    rw [present] at otherFound
    cases otherFound
    exact stored
  cases label with
  | work index reading answer =>
      obtain ⟨execution, call, action, point, worker, -, executed, stepped, -, -⟩ := next_work moved
      obtain ⟨old, present, already | ⟨transaction, rfl, changed, notYet⟩⟩ :=
        completing_step stepped found completed
      · obtain ⟨snapshot, token, stored, noted, copied⟩ := verified job old present already
        exact ⟨snapshot, token, inherits stepped present stored, List.mem_append_left _ noted,
          copied⟩
      · obtain ⟨finishing, sameJob, holds⟩ :=
          Execution.finishes_of_completed executed changed notYet completed
        have accounted := accounted_of_reachable reached index execution worker
        rw [finishing] at accounted
        have saw : SawCompleted loads (before.calls index) := accounted rfl
        have ⟨made, madeEq, _handedOut⟩ := saw
        obtain ⟨other, snapshot, otherFound, -, answers, pinned⟩ := bound index made madeEq
        rw [worker] at otherFound
        cases otherFound
        rw [madeEq] at saw
        have oldId : old.id = job := before.deployment.system.store.jobs.find?_key present
        have stored : old.snapshotJson = some snapshot := by
          apply pinned
          rw [← sameJob, oldId]
          exact present
        exact ⟨snapshot, execution.token, inherits stepped present stored,
          List.mem_append_right _ (mem_completionReport present found completed notYet holds),
          Service.verified_of_answers answers saw⟩
  | other label =>
      obtain ⟨notWork, deployed, -⟩ := @next_other config loads _ _ _ moved
      obtain ⟨action, acted, stepped⟩ := Deployment.next_eq_some.mp deployed
      obtain ⟨old, present, already | ⟨transaction, rfl, changed, notYet⟩⟩ :=
        completing_step stepped found completed
      · obtain ⟨snapshot, token, stored, noted, copied⟩ := verified job old present already
        exact ⟨snapshot, token, inherits stepped present stored, List.mem_append_left _ noted,
          copied⟩
      · obtain ⟨token, code, message, current, -, rfl⟩ :=
          changed.finish_of_completed notYet completed
        rcases Deployment.act_cases acted with ⟨rfl, -⟩ |
          ⟨worker, leaseSeconds, claimedAt, drawn, -, isClaim, -⟩ |
          ⟨index, execution, point, worker, -, ⟨reading, rfl, -⟩ | ⟨isObserve, -⟩⟩
        · cases handled
        · cases isClaim
        · cases notWork
        · cases isObserve

end Serving

/-- End to end: in every run of a manager whose copy calls the service's handler
answers, with any number of workers, clients and other managers that report no
successes of their own, a completed job has a snapshot, and in the conversation of a
token that has completed the job the service has copied the snapshot's content, and has
then read it back at the destination, by digest and by tag. -/
theorem completed_jobs_are_verified {Ref : Type} {service : Service} {references : References Ref}
    {text : Client.JsonText} {loads : List UInt8 → Loaded} {said : String → Conversation Ref}
    {config : ManagerConfig} {first last : Serving × List (String × String)}
    (started : ((serving config loads).recorded completionReport).start first)
    (run : ((serving config loads).recorded completionReport).Run
      (Machine.Unrecorded (Serving.Handled service references text loads said)) first last)
    {job : String} {row : JobRow}
    (found : last.1.deployment.system.store.jobs.find? job = some row)
    (completed : row.state = .completed) :
    ∃ snapshot token, row.snapshotJson = some snapshot ∧ (job, token) ∈ last.2 ∧
      service.Verified references text snapshot (said token) := by
  obtain ⟨startedServing, noLog⟩ := started
  have reached : (serving config loads).Reachable first.1 :=
    ⟨first.1, startedServing, Machine.Run.refl first.1⟩
  have invariant := run.recorded_preserves
    (fun state log => state.Bound service references text loads said ∧
      state.CompletedVerified service references text said log) ?_ reached ?_
  · exact invariant.2 job row found completed
  · rintro before label after log handled reached moved ⟨bound, verified⟩
    refine ⟨?_, Serving.verified_step reached handled moved bound verified⟩
    cases label with
    | work index reading answer => exact Serving.bound_work reached handled moved bound
    | other label => exact Serving.bound_other reached moved bound
  · obtain ⟨initial, noCalls⟩ := startedServing
    refine ⟨fun index made madeEq => ?_, fun job row found => ?_⟩
    · rw [noCalls] at madeEq
      cases madeEq
    · rw [initial] at found
      cases found

/-! ### One copy from its plan to its completion -/

def verifiedSnapshot : ImageSnapshot :=
  { sampleSnapshot with
    resolvedSource := "source.test/image@sha256:aa"
    destination := "target.test/image:v1" }

def verifiedLines : List (String × JsonValue) :=
  [("\x7b\"phase\":\"copying\",\"protocol_version\":1,\"type\":\"phase\"\x7d",
      .dict [("phase", .str "copying"), ("protocol_version", .int 1), ("type", .str "phase")]),
    ("\x7b\"digest\":\"sha256:bb\",\"disposition\":\"completed\",\"network_bytes\":10," ++
        "\"offset\":10,\"protocol_version\":1,\"type\":\"progress\"\x7d",
      .dict [("digest", .str "sha256:bb"), ("disposition", .str "completed"),
        ("network_bytes", .int 10), ("offset", .int 10), ("protocol_version", .int 1),
        ("type", .str "progress")]),
    ("\x7b\"phase\":\"verifying\",\"protocol_version\":1,\"type\":\"phase\"\x7d",
      .dict [("phase", .str "verifying"), ("protocol_version", .int 1), ("type", .str "phase")]),
    ("\x7b\"digest\":\"sha256:aa\",\"protocol_version\":1,\"type\":\"completed\"\x7d",
      .dict [("digest", .str "sha256:aa"), ("protocol_version", .int 1),
        ("type", .str "completed")])]

def verifiedLoads (line : List UInt8) : Loaded :=
  match verifiedLines.find? fun entry => ascii entry.1 = line with
  | some entry => .value entry.2
  | none => .malformed

def verifiedEvents : List Event :=
  [phaseEvent .copying, (Callback.mk true "sha256:bb" .finished 10 10).event,
    phaseEvent .verifying, completedEvent "sha256:aa"]

def verifiedAnswer : Answer :=
  .body [verifiedLines.flatMap (fun entry => ascii entry.1 ++ [newline]) |>.dropLast] .closed

def verifiedText : Client.JsonText :=
  { length := fun _ => 900
    sha256 := fun _ => "" }

private theorem verified_line_of_value {line : List UInt8} {json : JsonValue}
    (loaded : verifiedLoads line = .value json) :
    ∃ entry ∈ verifiedLines, ascii entry.1 = line := by
  unfold verifiedLoads at loaded
  split at loaded
  · rename_i entry found
    exact ⟨entry, List.mem_of_find?_eq_some found, by simpa using List.find?_some found⟩
  · cases loaded

private theorem verified_lines_apart {left right : String × JsonValue}
    (isLeft : left ∈ verifiedLines)
    (isRight : right ∈ verifiedLines) (begins : ascii left.1 <+: ascii right.1) :
    ascii left.1 = ascii right.1 := by
  have apart : (verifiedLines.all fun left => verifiedLines.all fun right =>
      !(ascii left.1).isPrefixOf (ascii right.1) || ascii left.1 = ascii right.1) = true := by
    decide +kernel
  have tested := List.all_eq_true.mp (List.all_eq_true.mp apart left isLeft) right isRight
  rw [List.isPrefixOf_iff_prefix.mpr begins] at tested
  exact of_decide_eq_true tested

def encodesLine (event : Event) (line : List UInt8) : Bool :=
  !line.contains newline &&
    match verifiedLoads line with
    | .value json => event.views json
    | _ => false

private theorem encodes_of_encodesLine {event : Event} {entry : String × JsonValue}
    (listed : entry ∈ verifiedLines) (tested : encodesLine event (ascii entry.1) = true) :
    Encodes verifiedLoads event (ascii entry.1) := by
  simp only [encodesLine, Bool.and_eq_true] at tested
  obtain ⟨oneLine, reads⟩ := tested
  refine Encodes.mk (by simpa using oneLine) ?_ ?_
  · split at reads
    · rename_i json loaded
      exact ⟨json, loaded, reads⟩
    · cases reads
  · intro part isPart notWhole json loaded
    obtain ⟨other, otherListed, rfl⟩ := verified_line_of_value loaded
    exact notWhole (verified_lines_apart otherListed listed isPart)

private theorem verified_lines_encode :
    List.Forall₂ (Encodes verifiedLoads) verifiedEvents
      (verifiedLines.map fun entry => ascii entry.1) := by
  refine .cons (encodes_of_encodesLine ?_ ?_) (.cons (encodes_of_encodesLine ?_ ?_)
    (.cons (encodes_of_encodesLine ?_ ?_) (.cons (encodes_of_encodesLine ?_ ?_) .nil)))
  all_goals first | (simp [verifiedLines]; done) | decide +kernel

def verifiedRequest : Wire.Snapshot :=
  { source := "a.example/x:v1"
    resolvedSource := "source.test/image@sha256:aa"
    destination := "target.test/image:v1"
    rootDigest := "sha256:aa"
    rootMediaType := "manifest"
    rootSize := 10
    platforms := []
    manifests := []
    blobs := [⟨"sha256:bb", "layer", some 10⟩, ⟨"sha256:cc", "layer", some 5⟩]
    digest := "sha256:dd"
    copyReferrers := true
    copyDigestTags := true
    replacementPolicy := "no_clobber" }

private theorem verified_answers : ∃ said : Conversation SampleRef,
    sampleService.Answers sampleReferences verifiedText verifiedLoads verifiedSnapshot.loaded said
      verifiedAnswer := by
  have payload : verifiedSnapshot.loaded = verifiedRequest.record.roundTripped := by
    rw [← verifiedSnapshot.roundTripped_eq_loaded]
    rfl
  have decoded : Wire.decodeCopyRequest verifiedText
      (Client.copyPayload verifiedSnapshot.loaded none none) =
        some
          { protocolVersion := 1
            snapshot := verifiedRequest
            sourceCredentials := none
            destinationCredentials := none } := by
    rw [payload]
    exact decodeCopyRequest_payload verifiedText verifiedRequest none none (by decide)
  obtain ⟨transcript, -, concludes⟩ := Dialogue.converse_concludes
    (sampleRegistries fun _ => .ok "sha256:aa")
    (sampleService.copyOf sampleReferences verifiedText [] "operation" verifiedSnapshot.loaded none
      none) []
  have response : ((sampleService.copyOf sampleReferences verifiedText [] "operation"
      verifiedSnapshot.loaded none none).converse
        (sampleRegistries fun _ => .ok "sha256:aa") []).2 =
        .stream verifiedEvents := by
    unfold Service.copyOf
    rw [decoded]
    decide
  rw [response] at concludes
  refine ⟨⟨[], "operation", none, none, transcript, verifiedEvents⟩,
    Or.inr ⟨concludes, _, _, .closed, rfl, verified_lines_encode, ?_⟩⟩
  rw [List.flatten_cons, List.flatten_nil, List.append_nil, List.flatMap_map]
  exact List.dropLast_prefix _

/-- Every copy call is one of a first run that has planned the snapshot above. -/
def Serving.verifiedTurn (state : Serving) : ServingLabel → Bool
  | .work index _ answer => answer = verifiedAnswer &&
      state.deployment.workers[index]?.all fun execution =>
        match execution.point with
        | .loadSnapshot _ => (state.deployment.system.store.snapshot execution.job).isNone
        | .saveSnapshot _ planned => planned = verifiedSnapshot
        | _ => true
  | .other (.environment (.commit transaction)) => !transaction.completes
  | .other _ => true

private theorem Serving.handled_of_verifiedTurn {said : Conversation SampleRef}
    (answers : sampleService.Answers sampleReferences verifiedText verifiedLoads
      verifiedSnapshot.loaded said verifiedAnswer)
    {state : Serving} {label : ServingLabel} (turn : state.verifiedTurn label = true) :
    state.Handled sampleService sampleReferences verifiedText verifiedLoads (fun _ => said)
      label := by
  cases label with
  | work index reading answer =>
      intro execution payload found sent
      simp only [verifiedTurn, found, Option.all_some, Bool.and_eq_true, decide_eq_true_eq] at turn
      obtain ⟨rfl, first⟩ := turn
      unfold Execution.copyPayload at sent
      split at sent
      · rename_i details here
        simp only [here] at first
        rw [Option.isNone_iff_eq_none.mp first] at sent
        cases sent
      · rename_i details planned here
        simp only [here, decide_eq_true_eq] at first
        subst first
        split at sent
        · cases sent
          rw [verifiedSnapshot.roundTripped_eq_loaded]
          exact answers
        · cases sent
      · cases sent
  | other label =>
      cases label with
      | environment action =>
          cases action with
          | commit transaction => exact (Bool.not_eq_true' _).mp turn
          | cancelRead | retryRead | abandon | observe => trivial
      | claim | work | exception | recover | cancelTask => trivial

def verifiedReplies : List Reply :=
  [.done, .done, .done, .done, .planned verifiedSnapshot, .done,
    .event (phaseEvent .copying), .done, .done,
    .event (Callback.mk true "sha256:bb" .finished 10 10).event, .done, .done,
    .event (phaseEvent .verifying), .done, .done,
    .event (completedEvent "sha256:aa"), .done, .streamEnded, .done, .done]

def untilVerified : List ServingLabel :=
  .other (.environment (.commit (.enqueue sampleValues "job" 0))) ::
    .other (.claim "manager-0" 60 1 "token") ::
    verifiedReplies.map fun reply => .work 0 (replied reply 2) verifiedAnswer

theorem completed_jobs_are_verified_after_one_copy :
    ∃ (said : String → Conversation SampleRef) (first last : Serving × List (String × String))
      (row : JobRow),
      ((serving sampleConfig verifiedLoads).recorded completionReport).start first ∧
      ((serving sampleConfig verifiedLoads).recorded completionReport).Run (Machine.Unrecorded
        (Serving.Handled sampleService sampleReferences verifiedText verifiedLoads said))
        first last ∧
      last.1.deployment.system.store.jobs.find? "job" = some row ∧ row.state = .completed ∧
      ∃ snapshot token, row.snapshotJson = some snapshot ∧ ("job", token) ∈ last.2 ∧
        sampleService.Verified sampleReferences verifiedText snapshot (said token) := by
  have started : ((serving sampleConfig verifiedLoads).recorded completionReport).start
      ({ deployment := Deployment.initial
         calls := fun _ => none }, []) := ⟨⟨rfl, fun _ => rfl⟩, rfl⟩
  have executes : (((serving sampleConfig verifiedLoads).recorded completionReport).execute
      (fun state label => state.1.verifiedTurn label = true) untilVerified
      ({ deployment := Deployment.initial
         calls := fun _ => none }, [])).any (fun last =>
          (last.1.deployment.system.store.jobs.find? "job").any fun row =>
            row.state = .completed) = true := by decide +kernel
  obtain ⟨last, ran, ends⟩ := Machine.exists_run_of_execute _ _ executes
  obtain ⟨row, found, completed⟩ := (Option.any_eq_true _ _).mp ends
  obtain ⟨said, answers⟩ := verified_answers
  have run := ran.weaken (Machine.Unrecorded
    (Serving.Handled sampleService sampleReferences verifiedText verifiedLoads fun _ => said))
    fun _ _ turn => Serving.handled_of_verifiedTurn answers turn
  exact ⟨fun _ => said, _, last, row, started, run, found, of_decide_eq_true completed,
    completed_jobs_are_verified started run found (of_decide_eq_true completed)⟩

end OciTransfer
