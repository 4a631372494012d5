import OciTransfer.JsonValue
import OciTransfer.LineFraming
import OciTransfer.WorkerExecution

/-!
The client's end of a copy: the events in the body of a response.

`copy` is a generator.  It hands out the event of each line as the line becomes
complete, and stops after the first terminal event, at the first line that is no
event, when a line grows too long, or at the end of the body.  The interpreter's
`json.loads` is a parameter; it may also raise what `_json` does not catch.
-/

namespace OciTransfer

/-- `json.loads` on bytes: a value, an error that `_json` catches, or another. -/
inductive Loaded where
  | value (json : JsonValue)
  | malformed
  | crashed

/-- How a generator ends: by returning, by a transfer error, or by another exception. -/
inductive Outcome where
  | returned
  | raised (error : TransferError)
  | crashed
  deriving DecidableEq, Repr

/-- What the consumer of a generator sees if it goes on to the end. -/
structure Stream where
  events : List JsonValue
  outcome : Outcome

/-- How the body of a response ends; a transport error comes with its sanitised text. -/
inductive Ending where
  | closed
  | broken (kind detail : String)
  deriving DecidableEq, Repr

def newline : UInt8 := 10

def ascii (text : String) : List UInt8 := text.toList.map fun char => UInt8.ofNat char.toNat

def maxEvent : Nat := 256 * 1024

def protocolError (message : String) : Outcome := .raised (rejected message "protocol_error")

def unavailable (kind detail : String) : Outcome :=
  .raised
    { message := "transfer service unavailable (" ++ kind ++ "): " ++ detail
      code := "registry_unavailable"
      retryable := true
      retryAfter := none }

/-- `event.get("type")`, where it is a text. -/
def typeText (event : JsonValue) : Option String :=
  match event.get? "type" with
  | some (.str text) => some text
  | _ => none

/-- `event.get("type") in {"completed", "failed"}`. -/
def isTerminal (event : JsonValue) : Bool :=
  (typeText event).any fun text => text = "completed" || text = "failed"

/-- The test raises for a type that cannot be hashed. -/
def typeHashable (event : JsonValue) : Bool := (event.get? "type").all JsonValue.hashable

namespace OCIClient

variable (loads : List UInt8 → Loaded)

/-- `_event`, with `_json`. -/
def eventOf (line : List UInt8) : Except Outcome JsonValue :=
  match loads line with
  | .crashed => .error .crashed
  | .malformed => .error (protocolError "malformed service response")
  | .value json =>
      if !json.isDict then .error (protocolError "malformed service response")
      else if (json.get? "protocol_version").any (fun version => version.equalsInt 1) then .ok json
      else .error (protocolError "incompatible service event")

def deliver (line : List UInt8) (next : Stream) : Stream :=
  match eventOf loads line with
  | .error outcome =>
      { events := []
        outcome := outcome }
  | .ok json =>
      if !typeHashable json then
        { events := [json]
          outcome := .crashed }
      else if isTerminal json then
        { events := [json]
          outcome := .returned }
      else
        { events := json :: next.events
          outcome := next.outcome }

def oversized : Stream :=
  { events := []
    outcome := protocolError "oversized service event" }

def onLine (line : List UInt8) (next : Stream) : Stream :=
  if maxEvent < line.length then oversized else deliver loads line next

def overflow (pending : List UInt8) : Option Stream :=
  if maxEvent < pending.length ∧ newline ∉ pending then some oversized else none

def finish (ending : Ending) (pending : List UInt8) : Stream :=
  match ending with
  | .broken kind detail =>
      { events := []
        outcome := unavailable kind detail }
  | .closed =>
      let ended : Stream :=
        { events := []
          outcome := protocolError "copy stream ended without result" }
      if pending = [] then ended else deliver loads pending ended

/-- `AsyncOCIClient.copy` on a response with status 200. -/
def receive (chunks : List (List UInt8)) (ending : Ending) : Stream :=
  LineFraming.read newline (onLine loads) overflow (finish loads ending) chunks []

/-- The events are those of the first lines, in order, and none but the last of
them is terminal. -/
structure Framed (lines : List (List UInt8)) (stream : Stream) : Prop where
  first : ∃ used rest, lines = used ++ rest ∧
    List.Forall₂ (fun line json => eventOf loads line = .ok json) used stream.events
  before : ∀ json ∈ stream.events.dropLast, isTerminal json = false

variable {loads}

private theorem Framed.silent (lines : List (List UInt8)) (outcome : Outcome) :
    Framed loads lines
      { events := []
        outcome := outcome } :=
  Framed.mk ⟨[], lines, rfl, .nil⟩ fun json member => by cases member

theorem Framed.deliver {lines : List (List UInt8)} {next : Stream}
    (framed : Framed loads lines next) (line : List UInt8) :
    Framed loads (line :: lines) (deliver loads line next) := by
  have only : ∀ json outcome, eventOf loads line = .ok json →
      Framed loads (line :: lines)
        { events := [json]
          outcome := outcome } := by
    intro json outcome parsed
    refine Framed.mk ⟨[line], lines, rfl, .cons parsed .nil⟩ fun other member => ?_
    cases member
  unfold OCIClient.deliver
  cases parsed : eventOf loads line with
  | error outcome => exact Framed.silent _ outcome
  | ok json =>
      simp only []
      split
      · exact only json .crashed parsed
      · split
        · exact only json .returned parsed
        · rename_i notTerminal
          obtain ⟨used, rest, rfl, events⟩ := framed.first
          refine Framed.mk ⟨line :: used, rest, rfl, .cons parsed events⟩ fun other member => ?_
          cases later : next.events with
          | nil =>
              rw [later] at member
              cases member
          | cons second more =>
              rw [later] at member
              rcases List.mem_cons.mp member with rfl | among
              · exact Bool.eq_false_iff.mpr notTerminal
              · exact framed.before other (by rw [later]; exact among)

private theorem split_at_terminal {reads : List UInt8 → JsonValue → Prop} {used : List (List UInt8)}
    {events : List JsonValue} (readings : List.Forall₂ reads used events)
    (before : ∀ event ∈ events.dropLast, isTerminal event = false) {last : JsonValue}
    (member : last ∈ events) (terminal : isTerminal last = true) :
    ∃ front line, used = front ++ [line] ∧ reads line last ∧
      ∀ other ∈ front, ∃ event, reads other event ∧ isTerminal event = false := by
  induction readings with
  | nil => cases member
  | @cons line event lines events reading readings ih =>
      cases events with
      | nil =>
          cases readings
          rw [List.mem_singleton.mp member]
          exact ⟨[], line, rfl, reading, fun other impossible => by cases impossible⟩
      | cons second rest =>
          have notTerminal := before event List.mem_cons_self
          have later : last ∈ second :: rest := by
            rcases List.mem_cons.mp member with rfl | later
            · rw [terminal] at notTerminal
              cases notTerminal
            · exact later
          obtain ⟨front, lastLine, rfl, lastReading, others⟩ :=
            ih (fun other among => before other (List.mem_cons_of_mem _ among)) later
          refine ⟨line :: front, lastLine, rfl, lastReading, fun other among => ?_⟩
          rcases List.mem_cons.mp among with rfl | among
          · exact ⟨event, reading, notTerminal⟩
          · exact others other among

/-- However the body is cut into chunks, its lines decide what is handed out first. -/
theorem receive_framed (loads : List UInt8 → Loaded) (chunks : List (List UInt8))
    (ending : Ending) :
    Framed loads (chunks.flatten.splitOn newline) (receive loads chunks ending) := by
  refine LineFraming.read_induction (Framed loads) ?_ ?_ ?_ chunks List.not_mem_nil
  · intro pending _absent
    unfold finish
    cases ending with
    | broken kind detail => exact Framed.silent _ _
    | closed =>
        simp only []
        split
        · exact Framed.silent _ _
        · rename_i someLeft
          exact (Framed.silent [] _).deliver pending
  · intro pending rest result overflowed
    unfold overflow at overflowed
    split at overflowed <;> cases overflowed
    exact Framed.silent _ _
  · intro line lines result framed
    unfold onLine
    split
    · exact Framed.silent _ _
    · exact framed.deliver line

theorem terminal_in_body {chunks : List (List UInt8)} {ending : Ending} {last : JsonValue}
    (member : last ∈ (receive loads chunks ending).events) (terminal : isTerminal last = true) :
    ∃ front line rest, chunks.flatten.splitOn newline = front ++ line :: rest ∧
      eventOf loads line = .ok last ∧
      ∀ other ∈ front, ∃ event, eventOf loads other = .ok event ∧ isTerminal event = false := by
  have framed := receive_framed loads chunks ending
  obtain ⟨used, rest, lines, readings⟩ := framed.first
  obtain ⟨front, line, rfl, reading, others⟩ :=
    split_at_terminal readings framed.before member terminal
  refine ⟨front, line, rest, ?_, reading, others⟩
  rw [lines, List.append_assoc]
  rfl

end OCIClient

end OciTransfer
