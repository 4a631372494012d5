import OciTransfer.FramingIndependence
import OciTransfer.JsonBytes
import OciTransfer.VerifiedCompletion

/-!
The events of a copy on their way from the service to the client.

The service writes each event as a line of JSON; the transport hands the bytes over in
chunks, and may break off anywhere.  The client hands out the maps the service has
encoded, from the first one on and none besides; it returns if it has handed out all
of them, and raises a transfer error if it has not.
-/

namespace OciTransfer

open JsonValue

/-! ### What the service encodes -/

def EventKind.text : EventKind → String
  | .phase => "phase"
  | .progress => "progress"
  | .completed => "completed"
  | .failed => "failed"
  | .other text => text

def PhaseName.text : PhaseName → String
  | .copying => "copying"
  | .publishing => "publishing"
  | .verifying => "verifying"
  | .other text => text

def BlobDisposition.text : BlobDisposition → String
  | .pending => "pending"
  | .transferring => "transferring"
  | .reused => "reused"
  | .mounted => "mounted"
  | .completed => "completed"
  | .failed => "failed"
  | .other text => text

namespace Event

/-- A key that the map has if there is something to put there. -/
def entry {α : Type} (name : String) (encode : α → JsonValue) (given : Option α) :
    List (String × JsonValue) :=
  given.toList.map fun value => (name, encode value)

/-- The map that `emit` encodes, with the version it adds. -/
def items (event : Event) : List (String × JsonValue) :=
  [("protocol_version", .int 1), ("type", .str event.kind.text)] ++
    entry "phase" (fun phase => .str phase.text) event.phase ++ entry "digest" .str event.digest ++
    entry "offset" .int event.offset ++ entry "network_bytes" .int event.networkBytes ++
    entry "disposition" (fun disposition => .str disposition.text) event.disposition ++
    entry "code" .str event.code ++ entry "message" .str event.message ++
    if event.kind = .failed then [("retryable", .bool event.retryable)] else []

def json (event : Event) : JsonValue := .dict event.items

/-- `enc.Encode(v)`, without the newline. -/
def line (float : ℚ → List Char) (event : Event) : List UInt8 :=
  utf8 ((Style.go float).write event.json)

def body (float : ℚ → List Char) (events : List Event) : List UInt8 :=
  events.flatMap fun event => event.line float ++ [newline]

/-- The line of every event has come, the last one perhaps without its newline if the
body is closed there. -/
def Arrived (float : ℚ → List Char) (received : List UInt8) (ending : Ending)
    (events : List Event) : Prop :=
  body float events <+: received ∨ ending = .closed ∧ body float events = received ++ [newline]

end Event

/-- The maps the handler of a copy passes to `emit`. -/
inductive Emitted : Event → Prop where
  | phase {phase : PhaseName} : phase = .copying ∨ phase = .verifying → Emitted (phaseEvent phase)
  | progress (callback : Callback) : Emitted callback.event
  | failed (error : ServiceError) (message : String) : Emitted (classify error message)
  | mismatch (message : String) : Emitted (mismatchEvent message)
  | completed (digest : String) : Emitted (completedEvent digest)

def Response.Emits : Response → Prop
  | .stream events => ∀ event ∈ events, Emitted event
  | _ => True

private theorem Response.emits_of_refusal {response : Response} (refusal : response.status ≠ 200) :
    response.Emits := by
  cases response with
  | json status body => trivial
  | stream events => exact absurd rfl refusal

namespace Service

variable {Ref : Type} {service : Service} {references : References Ref}

private theorem verify_emits (transfer : Transfer Ref) :
    (service.verify references transfer).Yields Emitted := by
  rintro (error | digest)
  · exact .failed error _
  · change (Dialogue.Yields _ (if _ then _ else _))
    split
    · exact .mismatch _
    · split
      · rintro (error | tagged)
        · exact .failed error _
        · change (Dialogue.Yields _ (if _ then _ else _))
          split
          · exact .mismatch _
          · exact .completed _
      · exact .completed _

private theorem exchange_emits (transfer : Transfer Ref) :
    (service.exchange references transfer).Yields Response.Emits := by
  intro existing
  dsimp only
  split
  · trivial
  · rintro ⟨callbacks, failure⟩
    have opening : ∀ event ∈ phaseEvent .copying ::
        (callbacks.filter Callback.isBlob).map Callback.event, Emitted event := by
      intro event member
      rcases List.mem_cons.mp member with rfl | reported
      · exact .phase (Or.inl rfl)
      · obtain ⟨callback, -, rfl⟩ := List.mem_map.mp reported
        exact .progress callback
    cases failure with
    | some error =>
        intro event member
        rcases List.mem_append.mp member with early | last
        · exact opening event early
        · rw [List.mem_singleton.mp last]
          exact .failed error _
    | none =>
        refine (verify_emits transfer).bind fun last emitted event member => ?_
        rcases List.mem_append.mp member with early | late
        · exact opening event early
        · rcases List.mem_cons.mp late with rfl | isLast
          · exact .phase (Or.inr rfl)
          · rw [List.mem_singleton.mp isLast]
            exact emitted

private theorem copy_emits (id : String) (decoded : Option CopyRequest) :
    (service.copy references id decoded).Yields Response.Emits := by
  unfold copy
  cases accepted : service.accept id decoded with
  | error response => exact Response.emits_of_refusal (accept_error accepted)
  | ok request =>
      dsimp only
      cases valid : service.validate references request with
      | error response => exact Response.emits_of_refusal (validate_error valid)
      | ok transfer =>
          exact fun _ => (exchange_emits transfer).bind fun response emits _ => emits

end Service

namespace Emitted

variable {event : Event}

theorem distinct (emitted : Emitted event) : (event.items.map Prod.fst).Nodup := by
  cases emitted with
  | phase isPhase => rcases isPhase with rfl | rfl <;> decide
  | progress callback => exact (by decide : ["protocol_version", "type", "digest", "offset",
      "network_bytes", "disposition"].Nodup)
  | failed | mismatch => exact (by decide : ["protocol_version", "type", "code", "message",
      "retryable"].Nodup)
  | completed => exact (by decide : ["protocol_version", "type", "digest"].Nodup)

theorem canonical_entry {α : Type} {encode : α → JsonValue}
    (each : ∀ value, (encode value).Canonical)
    (name : String) (given : Option α) :
    ∀ item ∈ Event.entry name encode given, item.2.Canonical := by
  intro item member
  obtain ⟨value, -, rfl⟩ := List.mem_map.mp member
  exact each value

theorem canonical (emitted : Emitted event) : event.json.Canonical := by
  refine .dict emitted.distinct fun entry member => ?_
  simp only [Event.items, List.mem_append] at member
  rcases member with (((((((head | phase) | digest) | offset) | network) | disposition) | code) |
    message) | retryable
  · rcases List.mem_cons.mp head with rfl | kind
    · exact .int 1
    · rw [List.mem_singleton.mp kind]
      exact .str _
  · exact canonical_entry (fun _ => .str _) _ _ _ phase
  · exact canonical_entry (fun _ => .str _) _ _ _ digest
  · exact canonical_entry (fun _ => .int _) _ _ _ offset
  · exact canonical_entry (fun _ => .int _) _ _ _ network
  · exact canonical_entry (fun _ => .str _) _ _ _ disposition
  · exact canonical_entry (fun _ => .str _) _ _ _ code
  · exact canonical_entry (fun _ => .str _) _ _ _ message
  · split at retryable
    · rw [List.mem_singleton.mp retryable]
      exact .bool _
    · cases retryable

theorem views (emitted : Emitted event) : event.views event.json = true := by
  have found : ∀ name, event.json.get? name = event.items.lookup name :=
    fun name => get?_dict_lookup emitted.distinct
  unfold Event.views eventKind typeHashable typeText readsAs
  simp only [found]
  cases emitted with
  | phase isPhase => rcases isPhase with rfl | rfl <;> decide
  | progress callback =>
      obtain ⟨isBlob, digest, state, cur, total⟩ := callback
      cases state <;>
        simp [Callback.event, Event.items, Event.entry, List.lookup_cons, EventKind.text,
          EventKind.ofText, hashable, callbackDisposition, BlobDisposition.text,
          BlobDisposition.ofText, textField, integerField]
  | failed | mismatch =>
      simp [classify, mismatchEvent, Event.items, Event.entry, List.lookup_cons, EventKind.text,
        EventKind.ofText, hashable, textField, truthy]
  | completed =>
      simp [completedEvent, Event.items, Event.entry, List.lookup_cons, EventKind.text,
        EventKind.ofText, hashable, textField]

end Emitted

theorem sortKeys_ne_nil {items : List (String × JsonValue)} (someItem : items ≠ []) :
    sortKeys items ≠ [] := by
  intro none
  have perm : (sortKeys items).Perm items := List.perm_insertionSort _ items
  rw [none] at perm
  exact someItem perm.nil_eq.symm

/-! ### Reading the lines -/

/-- `json.loads`; what it makes of other encodings than UTF-8 is left open. -/
def OCIClient.jsonLoads (readFloat : List Char → JsonValue) (other : List UInt8 → Loaded)
    (line : List UInt8) : Loaded :=
  if detectsUtf8 line then
    match loadsUtf8 readFloat line with
    | some json => .value json
    | none => .malformed
  else other line

section Lines

variable {float : ℚ → List Char} {readFloat : List Char → JsonValue} {other : List UInt8 → Loaded}
  {event : Event}

theorem jsonLoads_write (style : Style) {entries : List (String × JsonValue)}
    (someEntry : entries ≠ []) (regular : (obj entries).Regular) :
    OCIClient.jsonLoads readFloat other (utf8 (style.write (.obj entries))) =
      .value (obj entries).canon := by
  unfold OCIClient.jsonLoads
  rw [if_pos (detectsUtf8_write style someEntry (List.prefix_refl _)),
    loadsUtf8_write readFloat style regular]

private theorem sortKeys_items_ne_nil (event : Event) : sortKeys event.items ≠ [] :=
  sortKeys_ne_nil (List.cons_ne_nil _ _)

namespace Emitted

private theorem loads_line (emitted : Emitted event) :
    OCIClient.jsonLoads readFloat other (event.line float) = .value event.json := by
  have read := @jsonLoads_write readFloat other (Style.go float) _ (sortKeys_items_ne_nil event)
    emitted.canonical.regular
  change _ = Loaded.value event.json.canon at read
  rw [emitted.canonical.canon_eq] at read
  exact read

theorem loads_part (emitted : Emitted event) {part : List UInt8}
    (begins : part <+: event.line float)
    (cut : part ≠ event.line float) : OCIClient.jsonLoads readFloat other part = .malformed := by
  have detected : detectsUtf8 part = true :=
    detectsUtf8_write (Style.go float) (sortKeys_items_ne_nil event) begins
  have read : loadsUtf8 readFloat part = none :=
    loadsUtf8_part readFloat (Style.go float) emitted.canonical.regular begins cut
  unfold OCIClient.jsonLoads
  rw [if_pos detected, read]

private theorem line_ne_nil (event : Event) : event.line float ≠ [] := by
  obtain ⟨rest, head⟩ := write_entries_head (Style.go float) (sortKeys_items_ne_nil event)
  change utf8 ((Style.go float).write (.obj (sortKeys event.items))) ≠ []
  rw [head]
  exact fun nothing => absurd (List.append_eq_nil_iff.mp nothing).1 String.utf8EncodeChar_ne_nil

theorem encodes (emitted : Emitted event) :
    Encodes (OCIClient.jsonLoads readFloat other) event (event.line float) where
  oneLine := fun inside => newline_not_mem_write (oneLine_go float) emitted.canonical.regular
    (newline_of_utf8 inside)
  reads := ⟨event.json, emitted.loads_line, emitted.views⟩
  whole := by
    intro part begins cut json read
    rw [emitted.loads_part begins cut] at read
    cases read

private theorem eventOf_line (emitted : Emitted event) :
    OCIClient.eventOf (OCIClient.jsonLoads readFloat other) (event.line float) =
      .ok event.json := by
  have version : event.json.get? "protocol_version" = some (.int 1) := by
    change (JsonValue.dict event.items).get? _ = _
    rw [get?_dict_lookup emitted.distinct]
    rfl
  unfold OCIClient.eventOf
  rw [emitted.loads_line]
  dsimp only
  rw [version]
  rfl

private theorem eventOf_part (emitted : Emitted event) {part : List UInt8}
    (begins : part <+: event.line float) (cut : part ≠ event.line float) :
    OCIClient.eventOf (OCIClient.jsonLoads readFloat other) part =
      .error (protocolError "malformed service response") := by
  unfold OCIClient.eventOf
  rw [emitted.loads_part begins cut]

private theorem type_json (emitted : Emitted event) :
    event.json.get? "type" = some (.str event.kind.text) := by
  change (JsonValue.dict event.items).get? _ = _
  rw [get?_dict_lookup emitted.distinct]
  rfl

private theorem typeHashable_json (emitted : Emitted event) : typeHashable event.json = true := by
  unfold typeHashable
  rw [emitted.type_json]
  rfl

private theorem isTerminal_json (emitted : Emitted event) : isTerminal event.json = true ↔
    event.kind = .completed ∨ event.kind = .failed := by
  unfold isTerminal typeText
  rw [emitted.type_json]
  cases emitted <;>
    simp [phaseEvent, verifyingEvent, Callback.event, classify, mismatchEvent, completedEvent,
      EventKind.text]

end Emitted

end Lines

/-! ### Reading a body -/

section Body

variable {float : ℚ → List Char} {readFloat : List Char → JsonValue} {other : List UInt8 → Loaded}

private theorem deliver_going {event : Event} (emitted : Emitted event)
    (going : ¬ (event.kind = .completed ∨ event.kind = .failed)) (next : Stream) :
    OCIClient.deliver (OCIClient.jsonLoads readFloat other) (event.line float) next =
      { events := event.json :: next.events
        outcome := next.outcome } := by
  have notTerminal : ¬ isTerminal event.json = true := by
    rw [emitted.isTerminal_json]
    exact going
  unfold OCIClient.deliver
  rw [emitted.eventOf_line]
  dsimp only
  rw [emitted.typeHashable_json, if_neg (by decide), if_neg notTerminal]

private theorem foldr_lines {front : List Event} (emitted : ∀ event ∈ front, Emitted event)
    (short : ∀ event ∈ front, (event.line float).length ≤ maxEvent)
    (going : ∀ event ∈ front, ¬ (event.kind = .completed ∨ event.kind = .failed)) (next : Stream) :
    (front.map (Event.line float)).foldr (OCIClient.onLine (OCIClient.jsonLoads readFloat other))
      next =
      { events := front.map Event.json ++ next.events
        outcome := next.outcome } := by
  induction front with
  | nil => rfl
  | cons event front ih =>
      rw [List.map_cons, List.foldr_cons,
        ih (fun later member => emitted later (List.mem_cons_of_mem _ member))
          (fun later member => short later (List.mem_cons_of_mem _ member))
          (fun later member => going later (List.mem_cons_of_mem _ member))]
      unfold OCIClient.onLine
      rw [if_neg (Nat.not_lt.mpr (short event List.mem_cons_self)),
        deliver_going (emitted event List.mem_cons_self) (going event List.mem_cons_self)]
      rfl

private theorem deliver_last {last : Event} (emitted : Emitted last)
    (terminal : last.kind = .completed ∨ last.kind = .failed) (next : Stream) :
    OCIClient.deliver (OCIClient.jsonLoads readFloat other) (last.line float) next =
      { events := [last.json]
        outcome := .returned } := by
  unfold OCIClient.deliver
  rw [emitted.eventOf_line]
  dsimp only
  rw [emitted.typeHashable_json, if_neg (by decide), if_pos (emitted.isTerminal_json.mpr terminal)]

private theorem finish_part {next : Event} (emitted : Emitted next) {last : List UInt8}
    (begins : last <+: next.line float) (ending : Ending) :
    (¬ (ending = .closed ∧ last = next.line float) ∧
      ∃ error, OCIClient.finish (OCIClient.jsonLoads readFloat other) ending last =
        { events := []
          outcome := .raised error } ∧
      (error.code = "protocol_error" ∨ error.code = "registry_unavailable")) ∨
    (ending = .closed ∧ last = next.line float) ∧
      OCIClient.finish (OCIClient.jsonLoads readFloat other) ending last =
        OCIClient.deliver (OCIClient.jsonLoads readFloat other) last
          { events := []
            outcome := protocolError "copy stream ended without result" } := by
  unfold OCIClient.finish
  cases ending with
  | broken kind detail => exact Or.inl ⟨(nomatch ·.1), _, rfl, Or.inr rfl⟩
  | closed =>
      dsimp only
      split
      case isTrue nothing =>
        refine Or.inl ⟨?_, _, rfl, Or.inl rfl⟩
        rintro ⟨-, whole⟩
        exact Emitted.line_ne_nil next (whole.symm.trans nothing)
      case isFalse =>
        by_cases whole : last = next.line float
        · exact Or.inr ⟨⟨rfl, whole⟩, rfl⟩
        · unfold OCIClient.deliver
          rw [emitted.eventOf_part begins whole]
          exact Or.inl ⟨fun closed => whole closed.2, _, rfl, Or.inl rfl⟩

end Body

namespace Event

variable {float : ℚ → List Char}

/-- The lines that have come are those before the piece that is left, and its own line
if it lacks no more than the newline. -/
theorem arrived_iff {seen unseen front : List Event} (begins : front <+: seen ++ unseen)
    {rest : List UInt8}
    (isNext : ∀ next later, unseen = next :: later → rest <+: next.line float) (ending : Ending) :
    Arrived float (body float seen ++ rest) ending front ↔
      front <+: seen ∨ ∃ next later, unseen = next :: later ∧
        (ending = .closed ∧ rest = next.line float) ∧ front = seen ++ [next] := by
  unfold Arrived body
  rw [LineFraming.lines_prefix_iff begins isNext, LineFraming.lines_eq_append_iff begins isNext]
  constructor
  · rintro (early | ⟨closed, next, later, isLater, whole, isFront⟩)
    · exact Or.inl early
    · exact Or.inr ⟨next, later, isLater, ⟨closed, whole⟩, isFront⟩
  · rintro (early | ⟨next, later, isLater, ⟨closed, whole⟩, isFront⟩)
    · exact Or.inl early
    · exact Or.inr ⟨closed, next, later, isLater, whole, isFront⟩

end Event

/-- The client hands out the first events, and returns if no event is left. -/
structure Stream.Conveys (stream : Stream) (seen unseen : List Event) : Prop where
  events : stream.events = seen.map Event.json
  returned : unseen = [] → stream.outcome = .returned
  raised : unseen ≠ [] → ∃ error, stream.outcome = .raised error ∧
    (error.code = "protocol_error" ∨ error.code = "registry_unavailable")

private theorem Stream.Conveys.returned_iff {stream : Stream} {seen unseen : List Event}
    (conveys : stream.Conveys seen unseen) : stream.outcome = .returned ↔ unseen = [] := by
  refine ⟨fun returned => ?_, conveys.returned⟩
  by_contra someLeft
  obtain ⟨error, raised, -⟩ := conveys.raised someLeft
  rw [returned] at raised
  cases raised

section Streams

variable {float : ℚ → List Char} {readFloat : List Char → JsonValue} {other : List UInt8 → Loaded}

private theorem Event.parts_of_begins {events : List Event}
    (emitted : ∀ event ∈ events, Emitted event)
    {received : List UInt8} (begins : received <+: Event.body float events) :
    ∃ seen unseen rest, events = seen ++ unseen ∧
      received.splitOn newline = seen.map (Event.line float) ++ [rest] ∧
      received = Event.body float seen ++ rest ∧ (unseen = [] → rest = []) ∧
      ∀ next later, unseen = next :: later → rest <+: next.line float := by
  have bodyEq : ∀ some : List Event, Event.body float some =
      (some.map (Event.line float)).flatMap fun line => line ++ [newline] := by
    intro some
    rw [List.flatMap_map]
    rfl
  have absent : ∀ line ∈ events.map (Event.line float), newline ∉ line := by
    intro line member
    obtain ⟨event, isEvent, rfl⟩ := List.mem_map.mp member
    exact (@Emitted.encodes float (fun _ => .null) (fun _ => .crashed) _
      (emitted event isEvent)).oneLine
  rw [bodyEq] at begins
  obtain ⟨seenLines, laterLines, rest, isLines, segments, joined, ended, isNext⟩ :=
    LineFraming.splitOn_of_begins absent begins
  obtain ⟨seen, unseen, rfl, rfl, rfl⟩ := List.map_eq_append_iff.mp isLines
  refine ⟨seen, unseen, rest, rfl, segments, by rw [joined, bodyEq], ?_, ?_⟩
  · rintro rfl
    exact ended rfl
  · rintro next later rfl
    exact isNext _ _ rfl

private theorem conveys_of_begins {front : List Event} {last : Event}
    (emitted : ∀ event ∈ front ++ [last], Emitted event)
    (short : ∀ event ∈ front ++ [last], (event.line float).length ≤ maxEvent)
    (going : ∀ event ∈ front, ¬ (event.kind = .completed ∨ event.kind = .failed))
    (terminal : last.kind = .completed ∨ last.kind = .failed) {chunks : List (List UInt8)}
    (ending : Ending) (begins : chunks.flatten <+: Event.body float (front ++ [last])) :
    ∃ seen unseen, front ++ [last] = seen ++ unseen ∧
      (OCIClient.receive (OCIClient.jsonLoads readFloat other) chunks ending).Conveys seen unseen ∧
      ∀ early, early <+: front ++ [last] →
        (Event.Arrived float chunks.flatten ending early ↔ early <+: seen) := by
  obtain ⟨seen, unseen, rest, isEvents, segments, isReceived, ended, isPart⟩ :=
    Event.parts_of_begins emitted begins
  have arrived := fun early (begins : early <+: seen ++ unseen) =>
    Event.arrived_iff begins isPart ending
  rw [← isEvents, ← isReceived] at arrived
  have received : ¬ maxEvent < rest.length →
      OCIClient.receive (OCIClient.jsonLoads readFloat other) chunks ending =
        (seen.map (Event.line float)).foldr
          (OCIClient.onLine (OCIClient.jsonLoads readFloat other))
          (OCIClient.finish (OCIClient.jsonLoads readFloat other) ending rest) := by
    intro isShort
    rcases OCIClient.receive_cases _ ending chunks segments with handled | ⟨long, -⟩
    · exact handled
    · exact absurd long isShort
  cases unseen with
  | nil =>
      rw [List.append_nil] at isEvents
      subst isEvents
      refine ⟨front ++ [last], [], (List.append_nil _).symm, ?_, fun early begins => ?_⟩
      · rw [received (by rw [ended rfl]; exact Nat.not_lt_zero _), List.map_append,
          List.foldr_append,
          foldr_lines (fun event member => emitted event (List.mem_append_left _ member))
            (fun event member => short event (List.mem_append_left _ member)) going]
        have isLast : last ∈ front ++ [last] := List.mem_append_right _ List.mem_cons_self
        rw [List.map_singleton, List.foldr_cons, OCIClient.onLine,
          if_neg (Nat.not_lt.mpr (short last isLast)), deliver_last (emitted last isLast) terminal]
        exact ⟨by rw [List.map_append]; rfl, fun _ => rfl, fun someLeft => absurd rfl someLeft⟩
      · rw [arrived early begins]
        refine or_iff_left ?_
        rintro ⟨next, later, impossible, -⟩
        cases impossible
  | cons next unseen =>
      have begun : rest <+: next.line float := isPart _ _ rfl
      obtain ⟨init, final, isUnseen⟩ : ∃ init final, next :: unseen = init ++ [final] :=
        ⟨_, _, (List.dropLast_append_getLast (List.cons_ne_nil next unseen)).symm⟩
      have parts := isEvents
      rw [isUnseen, ← List.append_assoc] at parts
      obtain ⟨rfl, sameLast⟩ := List.append_inj' parts rfl
      cases sameLast
      have within : ∀ event ∈ seen, event ∈ (seen ++ init) ++ [last] :=
        fun event member => List.mem_append_left _ (List.mem_append_left _ member)
      have inEvents : next ∈ (seen ++ init) ++ [last] := by
        rw [isEvents]
        exact List.mem_append_right _ List.mem_cons_self
      rw [received (Nat.not_lt.mpr (begun.length_le.trans (short next inEvents))),
        foldr_lines (fun event member => emitted event (within event member))
          (fun event member => short event (within event member))
          fun event member => going event (List.mem_append_left _ member)]
      rcases finish_part (emitted next inEvents) begun ending with
        ⟨cut, error, finished, codes⟩ | ⟨whole, finished⟩
      · refine ⟨seen, next :: unseen, isEvents, ?_, fun early begins => ?_⟩
        · rw [finished]
          exact ⟨List.append_nil _, fun isNil => absurd isNil (List.cons_ne_nil _ _),
            fun _ => ⟨error, rfl, codes⟩⟩
        · rw [arrived early begins]
          refine or_iff_left ?_
          rintro ⟨event, later, isNext, whole, -⟩
          cases isNext
          exact cut whole
      · -- the newline of the last line is all that is missing
        have extended : ∀ early, early <+: seen ++ init ++ [last] →
            (Event.Arrived float chunks.flatten ending early ↔ early <+: seen ++ [next]) := by
          intro early begins
          rw [arrived early begins, List.prefix_concat_iff, or_comm]
          refine or_congr_left ⟨?_, fun same => ⟨next, unseen, rfl, whole, same⟩⟩
          rintro ⟨event, later, isNext, -, same⟩
          cases isNext
          exact same
        rw [finished, whole.2]
        cases init with
        | nil =>
            obtain ⟨rfl, rfl⟩ := List.cons.inj isUnseen
            refine ⟨seen ++ [next], [], ?_, ?_, extended⟩
            · rw [List.append_nil, List.append_nil]
            · rw [deliver_last (emitted next inEvents) terminal]
              exact ⟨by rw [List.map_append]; rfl, fun _ => rfl,
                fun someLeft => absurd rfl someLeft⟩
        | cons first init =>
            obtain ⟨rfl, rfl⟩ := List.cons.inj isUnseen
            refine ⟨seen ++ [next], init ++ [last], ?_, ?_, extended⟩
            · rw [List.append_assoc, List.append_assoc]
              rfl
            · rw [deliver_going (emitted next inEvents)
                (going next (List.mem_append_right _ List.mem_cons_self))]
              refine ⟨by rw [List.map_append]; rfl, fun isNil => ?_, fun _ => ⟨_, rfl, Or.inl rfl⟩⟩
              exact absurd isNil (List.append_ne_nil_of_right_ne_nil _ (List.cons_ne_nil _ _))

end Streams

/-- Whatever the chunks are and wherever the body breaks off, the client hands out the
maps whose lines have arrived, and returns if and only if every line has; otherwise it
raises a transfer error. -/
theorem events_cross_the_wire {Ref : Type} {service : Service} {references : References Ref}
    {id : String} {decoded : Option CopyRequest} {events : List Event}
    {transcript : List (Dialogue.Exchange (@RegistryCall.Reply Ref))}
    (concluded : (service.copy references id decoded).Concludes transcript (.stream events))
    (float : ℚ → List Char) (readFloat : List Char → JsonValue) (other : List UInt8 → Loaded)
    (short : ∀ event ∈ events, (event.line float).length ≤ maxEvent)
    {chunks : List (List UInt8)} (ending : Ending)
    (begins : chunks.flatten <+: Event.body float events) :
    (∀ event ∈ events,
      Encodes (OCIClient.jsonLoads readFloat other) event (event.line float)) ∧
    ∃ seen unseen, events = seen ++ unseen ∧
      (OCIClient.receive (OCIClient.jsonLoads readFloat other) chunks ending).Conveys seen unseen ∧
      (∀ early, early <+: events →
        (Event.Arrived float chunks.flatten ending early ↔ early <+: seen)) ∧
      ((OCIClient.receive (OCIClient.jsonLoads readFloat other) chunks ending).outcome = .returned ↔
        Event.Arrived float chunks.flatten ending events) := by
  have emitted : ∀ event ∈ events, Emitted event := concluded.yields (Service.copy_emits id decoded)
  refine ⟨fun event member => (emitted event member).encodes, ?_⟩
  suffices parts : ∃ seen unseen, events = seen ++ unseen ∧
      (OCIClient.receive (OCIClient.jsonLoads readFloat other) chunks ending).Conveys seen unseen ∧
      ∀ early, early <+: events →
        (Event.Arrived float chunks.flatten ending early ↔ early <+: seen) by
    obtain ⟨seen, unseen, isAll, conveys, arrived⟩ := parts
    refine ⟨seen, unseen, isAll, conveys, arrived, ?_⟩
    rw [conveys.returned_iff, arrived events (List.prefix_refl events), isAll]
    constructor
    · rintro rfl
      rw [List.append_nil]
    · intro all
      have shorter := all.length_le
      rw [List.length_append] at shorter
      exact List.eq_nil_of_length_eq_zero (by omega)
  rcases Service.copy_concludes concluded with
    ⟨-, refusal⟩ | ⟨request, transfer, hosts, calls, -, -, exchanged, -⟩
  · exact absurd rfl refusal
  · rcases Service.exchange_concludes exchanged with conflict | ⟨given, last, isGiven, shape, -⟩
    · cases conflict
    · cases isGiven
      obtain ⟨progress, verifying, rfl, areProgress, phases, terminal⟩ := shape
      have going : ∀ event ∈ phaseEvent .copying :: (progress ++ verifying),
          ¬ (event.kind = .completed ∨ event.kind = .failed) := by
        intro event member
        rcases List.mem_cons.mp member with rfl | later
        · exact (by decide)
        · rcases List.mem_append.mp later with isProgress | isVerifying
          · rw [areProgress event isProgress]
            decide
          · rcases phases with rfl | rfl
            · cases isVerifying
            · rw [List.mem_singleton.mp isVerifying]
              decide
      exact conveys_of_begins emitted short going terminal ending begins

/-- The stream of a copy of one blob, cut within its first line. -/
theorem events_cross_the_wire_in_two_chunks :
    ∃ transcript events, (sampleService.copy sampleReferences "operation"
        (some sampleRequest)).Concludes transcript (.stream events) ∧ events.length = 4 ∧
      let body := Event.body (fun _ => []) events
      let stream := OCIClient.receive (OCIClient.jsonLoads (fun _ => .null) fun _ => .malformed)
        [body.take 20, body.drop 20] .closed
      stream.events = events.map Event.json ∧ stream.outcome = .returned := by
  obtain ⟨transcript, -, concluded⟩ := Dialogue.converse_concludes
    (sampleRegistries fun _ => .ok "sha256:aa")
    (sampleService.copy sampleReferences "operation" (some sampleRequest)) []
  have response : ((sampleService.copy sampleReferences "operation" (some sampleRequest)).converse
      (sampleRegistries fun _ => .ok "sha256:aa") []).2 =
      .stream [phaseEvent .copying, (Callback.mk true "sha256:bb" .finished 10 10).event,
        phaseEvent .verifying, completedEvent "sha256:aa"] := by decide
  rw [response] at concluded
  have whole : ∀ body : List UInt8, [body.take 20, body.drop 20].flatten = body := by
    intro body
    rw [List.flatten_cons, List.flatten_singleton, List.take_append_drop]
  obtain ⟨-, seen, unseen, isAll, conveys, -, returned⟩ := events_cross_the_wire concluded
    (fun _ => []) (fun _ => .null) (fun _ => .malformed) (by decide +kernel) .closed
    (by rw [whole])
  have returns := returned.mpr (Or.inl (by rw [whole]))
  rw [conveys.returned_iff.mp returns, List.append_nil] at isAll
  refine ⟨transcript, _, concluded, rfl, ?_, returns⟩
  exact conveys.events.trans (congrArg (List.map Event.json) isAll.symm)

end OciTransfer
