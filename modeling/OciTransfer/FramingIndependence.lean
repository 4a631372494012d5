import OciTransfer.CopyStream

/-!
Events and the way their stream is cut.

The client bounds the length of a line where it waits for the end of one and
where it has found the end, but not when the body ends without one.  What is
left then has been bounded only if it came in a chunk after the last newline.
So the cut makes a difference exactly for a body that ends in an overlong line
which is an event.
-/

namespace OciTransfer

inductive OutcomeKind where
  | returned
  | raised (code : String)
  | crashed
  deriving DecidableEq, Repr

def Outcome.kind : Outcome → OutcomeKind
  | .returned => .returned
  | .raised error => .raised error.code
  | .crashed => .crashed

/-- What a consumer can tell of a stream. -/
def Stream.seen (stream : Stream) : List JsonValue × OutcomeKind :=
  (stream.events, stream.outcome.kind)

def Stream.Bounded (lines : List (List UInt8)) (stream : Stream) : Prop :=
  ∀ (index : Nat) (line : List UInt8), lines[index]? = some line → index < stream.events.length →
    line.length ≤ maxEvent

namespace OCIClient

def Passes (loads : List UInt8 → Loaded) (line : List UInt8) : Prop :=
  line.length ≤ maxEvent ∧ ∃ json, eventOf loads line = .ok json ∧ typeHashable json = true ∧
    isTerminal json = false

/-- However the body is cut, the same events come in the same order and end in
the same way, and none stands for an overlong line. -/
def FramingIndependent (loads : List UInt8 → Loaded) (body : List UInt8) (ending : Ending) : Prop :=
  (∀ first second : List (List UInt8), first.flatten = body → second.flatten = body →
    (receive loads first ending).seen = (receive loads second ending).seen) ∧
  ∀ chunks : List (List UInt8), chunks.flatten = body →
    (receive loads chunks ending).Bounded (body.splitOn newline)

/-- After complete lines that are events, the body ends in an overlong one that
is an event, or makes the reader crash, or at which the transport breaks. -/
def OverlongRest (loads : List UInt8 → Loaded) (body : List UInt8) (ending : Ending) : Prop :=
  ∃ front last, body = front ++ newline :: last ∧ newline ∉ last ∧ maxEvent < last.length ∧
    (∀ line ∈ front.splitOn newline, Passes loads line) ∧
    (ending = .closed → ∀ error, eventOf loads last ≠ .error (.raised error))

variable {loads : List UInt8 → Loaded} {body : List UInt8} {ending : Ending}

private theorem onLine_of_passes {line : List UInt8} (passes : Passes loads line) :
    ∃ json, ∀ next, onLine loads line next =
      { events := json :: next.events
        outcome := next.outcome } := by
  obtain ⟨short, json, parsed, hashable, notTerminal⟩ := passes
  refine ⟨json, fun next => ?_⟩
  unfold onLine deliver
  simp [not_lt.mpr short, parsed, hashable, notTerminal]

private theorem onLine_of_stops {line : List UInt8} (stops : ¬ Passes loads line)
    (left right : Stream) :
    onLine loads line left = onLine loads line right := by
  unfold onLine
  split
  · rfl
  · rename_i short
    unfold deliver
    cases parsed : eventOf loads line with
    | error outcome => rfl
    | ok json =>
        simp only []
        split
        · rfl
        · rename_i hashable
          split
          · rfl
          · rename_i notTerminal
            refine absurd ⟨not_lt.mp short, json, parsed, ?_, ?_⟩ stops
            · simpa using hashable
            · exact Bool.eq_false_iff.mpr notTerminal

/-- Lines that all pass carry a difference to the front, and any other hides it. -/
theorem foldr_seen_iff {lines : List (List UInt8)} {left right : Stream} :
    (lines.foldr (onLine loads) left).seen = (lines.foldr (onLine loads) right).seen ↔
      ((∀ line ∈ lines, Passes loads line) → left.seen = right.seen) := by
  induction lines with
  | nil => simp
  | cons line more ih =>
      rw [List.foldr_cons, List.foldr_cons, List.forall_mem_cons]
      by_cases passes : Passes loads line
      · obtain ⟨json, handed⟩ := onLine_of_passes passes
        rw [handed, handed]
        have peel : ∀ one other : Stream,
            Stream.seen { events := json :: one.events, outcome := one.outcome } =
                Stream.seen { events := json :: other.events, outcome := other.outcome } ↔
              one.seen = other.seen := by
          intro one other
          simp [Stream.seen]
        rw [peel, ih]
        exact ⟨fun same both => same both.2, fun same rest => same ⟨passes, rest⟩⟩
      · rw [onLine_of_stops passes (more.foldr (onLine loads) left)]
        exact ⟨fun _ both => absurd both.1 passes, fun _ => rfl⟩

private theorem length_onLine_le (line : List UInt8) (next : Stream) :
    (onLine loads line next).events.length ≤ next.events.length + 1 := by
  unfold onLine deliver
  split
  · exact Nat.zero_le _
  · cases eventOf loads line with
    | error outcome => exact Nat.zero_le _
    | ok json =>
        simp only []
        split
        · exact Nat.le_add_left _ _
        · split
          · exact Nat.le_add_left _ _
          · exact le_refl _

private theorem onLine_of_overlong {line : List UInt8} (next : Stream)
    (long : maxEvent < line.length) :
    onLine loads line next = oversized :=
  if_pos long

private theorem bounded_onLine {line : List UInt8} {lines : List (List UInt8)} {next : Stream}
    (bounded : next.Bounded lines) : (onLine loads line next).Bounded (line :: lines) := by
  intro index read present within
  cases index with
  | zero =>
      cases present
      by_contra long
      rw [onLine_of_overlong next (not_le.mp long)] at within
      cases within
  | succ index =>
      by_cases passes : Passes loads line
      · obtain ⟨json, handed⟩ := onLine_of_passes passes
        rw [handed] at within
        exact bounded index read present (Nat.lt_of_succ_lt_succ within)
      · rw [onLine_of_stops passes next oversized] at within
        have atMostOne : (onLine loads line oversized).events.length ≤ 1 :=
          length_onLine_le line oversized
        omega

private theorem bounded_foldr {lines : List (List UInt8)} {last : List UInt8} {tail : Stream}
    (bounded : tail.Bounded [last]) :
    (lines.foldr (onLine loads) tail).Bounded (lines ++ [last]) := by
  induction lines with
  | nil => exact bounded
  | cons line more ih => exact bounded_onLine ih

/-! ### The whole body -/

private theorem overflow_eq_some {pending : List UInt8} {result : Stream}
    (overflowed : overflow pending = some result) :
    maxEvent < pending.length ∧ newline ∉ pending ∧ result = oversized := by
  unfold overflow at overflowed
  split at overflowed
  · rename_i both
    cases overflowed
    exact ⟨both.1, both.2, rfl⟩
  · cases overflowed

private theorem overflow_of_newline {pending : List UInt8} (present : newline ∈ pending) :
    overflow pending = none :=
  if_neg fun both => both.2 present

theorem receive_cases (loads : List UInt8 → Loaded) (ending : Ending) (chunks : List (List UInt8))
    {lines : List (List UInt8)} {last : List UInt8}
    (split : chunks.flatten.splitOn newline = lines ++ [last]) :
    receive loads chunks ending = lines.foldr (onLine loads) (finish loads ending last) ∨
      (maxEvent < last.length ∧
        receive loads chunks ending = lines.foldr (onLine loads) oversized) := by
  refine LineFraming.read_bounded (fun line => maxEvent < line.length) ?_ ?_ ?_ chunks split
  · intro text more long
    rw [List.length_append]
    omega
  · intro line next long
    exact onLine_of_overlong next long
  · intro pending result overflowed
    exact overflow_eq_some overflowed

private theorem receive_unbroken (chunks : List (List UInt8)) (absent : newline ∉ chunks.flatten)
    (long : maxEvent < chunks.flatten.length) : receive loads chunks ending = oversized := by
  refine LineFraming.read_unbroken (fun line => maxEvent < line.length) ?_ ?_ chunks ?_ long
    absent
  · intro pending isLong notPresent
    exact if_pos ⟨isLong, notPresent⟩
  · intro pending result overflowed
    exact (overflow_eq_some overflowed).2.2
  · exact Nat.not_lt_zero _

private theorem code_of_eventOf {line : List UInt8} {error : TransferError}
    (parsed : eventOf loads line = .error (.raised error)) : error.code = "protocol_error" := by
  unfold eventOf at parsed
  split at parsed
  · cases parsed
  · cases parsed
    rfl
  · split at parsed
    · cases parsed
      rfl
    · split at parsed
      · cases parsed
      · cases parsed
        rfl

/-- At the end an overlong rest is told from a refused one exactly if it is an
event, crashes the reader, or the transport breaks there. -/
theorem finish_seen_iff {last : List UInt8} (long : maxEvent < last.length) :
    (finish loads ending last).seen = oversized.seen ↔
      ending = .closed ∧ ∃ error, eventOf loads last = .error (.raised error) := by
  have someLeft : last ≠ [] := by
    rintro rfl
    exact absurd long (Nat.not_lt_zero _)
  unfold finish
  cases ending with
  | broken kind detail =>
      simp [Stream.seen, oversized, unavailable, protocolError, rejected, Outcome.kind]
  | closed =>
      simp only [if_neg someLeft, true_and]
      unfold deliver
      cases parsed : eventOf loads last with
      | error outcome =>
          cases outcome with
          | returned | crashed => simp [Stream.seen, oversized, protocolError, Outcome.kind]
          | raised error =>
              simp [Stream.seen, oversized, protocolError, rejected, Outcome.kind,
                code_of_eventOf parsed]
      | ok json =>
          simp only [reduceCtorEq, exists_false, iff_false]
          intro same
          have noEvents : ([] : List JsonValue) = _ := (congrArg Prod.fst same).symm
          revert noEvents
          split
          · exact List.cons_ne_nil _ _ ∘ Eq.symm
          · split <;> exact List.cons_ne_nil _ _ ∘ Eq.symm

private theorem seen_of_not_overlongRest (fine : ¬ OverlongRest loads body ending)
    {chunks : List (List UInt8)} (whole : chunks.flatten = body) {lines : List (List UInt8)}
    {last : List UInt8} (split : body.splitOn newline = lines ++ [last])
    (long : maxEvent < last.length) :
    (receive loads chunks ending).seen = (lines.foldr (onLine loads) oversized).seen := by
  by_cases present : newline ∈ body
  · obtain ⟨front, rest, bodyEq, absent⟩ := LineFraming.exists_last_separator present
    have parts : front.splitOn newline ++ [rest] = lines ++ [last] := by
      rw [← split, bodyEq, List.splitOn_append_cons_self, List.splitOn_eq_singleton absent]
    obtain ⟨rfl, sameLast⟩ := List.append_inj' parts rfl
    cases sameLast
    rw [← whole] at split
    rcases receive_cases loads ending chunks split with handled | ⟨-, refused⟩
    · rw [handled, foldr_seen_iff]
      intro allPass
      rw [finish_seen_iff long]
      by_contra told
      refine fine ⟨front, last, bodyEq, absent, long, allPass, fun closed error parsed => ?_⟩
      exact told ⟨closed, error, parsed⟩
    · rw [refused]
  · have parts : [] ++ [body] = lines ++ [last] := by
      rw [← split, List.splitOn_eq_singleton present, List.nil_append]
    obtain ⟨rfl, sameLast⟩ := List.append_inj' parts rfl
    cases sameLast
    rw [← whole] at present long
    rw [receive_unbroken chunks present long]
    rfl

def restStream (loads : List UInt8 → Loaded) (ending : Ending) (last : List UInt8) : Stream :=
  if maxEvent < last.length then oversized else finish loads ending last

private theorem bounded_restStream (last : List UInt8) :
    (restStream loads ending last).Bounded [last] := by
  intro index line present within
  unfold restStream at within
  split at within
  · cases within
  · rename_i short
    obtain ⟨-, rfl⟩ := List.getElem?_eq_some_iff.mp present
    simpa using short

private theorem seen_receive (fine : ¬ OverlongRest loads body ending) {chunks : List (List UInt8)}
    (whole : chunks.flatten = body) {lines : List (List UInt8)} {last : List UInt8}
    (split : body.splitOn newline = lines ++ [last]) :
    (receive loads chunks ending).seen =
      (lines.foldr (onLine loads) (restStream loads ending last)).seen := by
  unfold restStream
  split
  · rename_i long
    exact seen_of_not_overlongRest fine whole split long
  · rename_i short
    rw [← whole] at split
    rcases receive_cases loads ending chunks split with handled | ⟨long, -⟩
    · rw [handled]
    · exact absurd long short

private theorem framing_matters (overlong : OverlongRest loads body ending) :
    ¬ FramingIndependent loads body ending := by
  rintro ⟨sameSeen, -⟩
  obtain ⟨front, last, rfl, absent, long, allPass, told⟩ := overlong
  have oneChunk : receive loads [front ++ newline :: last] ending =
      (front.splitOn newline).foldr (onLine loads) (finish loads ending last) := by
    refine LineFraming.read_whole absent (overflow_of_newline ?_)
    exact List.mem_append_right _ List.mem_cons_self
  have twoChunks : receive loads [front ++ [newline], last] ending =
      (front.splitOn newline).foldr (onLine loads) oversized := by
    have restRefused : receive loads [last] ending = oversized := by
      refine receive_unbroken [last] ?_ ?_
      · simpa using absent
      · simpa using long
    rw [← restRefused]
    refine LineFraming.read_cut (overflow_of_newline ?_)
    exact List.mem_append_right _ List.mem_cons_self
  have same := sameSeen [front ++ newline :: last] [front ++ [newline], last] (by simp) (by simp)
  rw [oneChunk, twoChunks, foldr_seen_iff] at same
  obtain ⟨closed, error, parsed⟩ := (finish_seen_iff long).mp (same allPass)
  exact told closed error parsed

end OCIClient

/-- The events of a body and their end depend on its bytes alone, and none stands
for an overlong line, exactly if the body has no overlong rest that is read. -/
theorem framing_independent_iff (loads : List UInt8 → Loaded) (body : List UInt8)
    (ending : Ending) :
    OCIClient.FramingIndependent loads body ending ↔
      ¬ OCIClient.OverlongRest loads body ending := by
  constructor
  · exact fun independent overlong => OCIClient.framing_matters overlong independent
  · intro fine
    obtain ⟨lines, last, split, -, -⟩ := LineFraming.splitOn_append newline body []
    constructor
    · intro first second firstWhole secondWhole
      rw [OCIClient.seen_receive fine firstWhole split,
        OCIClient.seen_receive fine secondWhole split]
    · intro chunks whole
      have sameEvents := congrArg Prod.fst (OCIClient.seen_receive fine whole split)
      change (OCIClient.receive loads chunks ending).events = _ at sameEvents
      unfold Stream.Bounded
      rw [sameEvents, split]
      exact OCIClient.bounded_foldr (OCIClient.bounded_restStream last)

def warningLine : List UInt8 := ascii "\x7b\"protocol_version\":1,\"type\":\"warning\"\x7d"

def warningEvent : JsonValue := .dict [("protocol_version", .int 1), ("type", .str "warning")]

/-- `json.loads` on that text, which may stand after blanks. -/
def loadsWarning (line : List UInt8) : Loaded :=
  if line.dropWhile (· = 32) = warningLine then .value warningEvent else .malformed

/-- An event, and after it the same event behind too many blanks, without its newline. -/
def warningBody : List UInt8 :=
  warningLine ++ newline :: (List.replicate maxEvent 32 ++ warningLine)

private theorem eventOf_loadsWarning {line : List UInt8}
    (text : line.dropWhile (· = 32) = warningLine) :
    OCIClient.eventOf loadsWarning line = .ok warningEvent := by
  have isVersion : (warningEvent.get? "protocol_version").any (fun version => version.equalsInt 1) =
      true := by decide
  have loaded : loadsWarning line = .value warningEvent := if_pos text
  unfold OCIClient.eventOf
  rw [loaded]
  simp only [isVersion]
  rfl

/-- In one chunk the second event of this body is handed out; cut after the first
newline it is refused. -/
theorem overlong_warning_is_handed_out :
    ¬ ∀ loads body ending, OCIClient.FramingIndependent loads body ending := by
  intro claimed
  refine OCIClient.framing_matters ?_ (claimed loadsWarning warningBody .closed)
  have blanks : (List.replicate maxEvent (32 : UInt8) ++ warningLine).dropWhile (· = 32) =
      warningLine := by
    rw [List.dropWhile_append_of_pos fun byte member => ?_]
    · decide
    · simp [List.eq_of_mem_replicate member]
  refine ⟨warningLine, List.replicate maxEvent 32 ++ warningLine, rfl, ?_, ?_, ?_, ?_⟩
  · intro member
    rcases List.mem_append.mp member with blank | text
    · cases List.eq_of_mem_replicate blank
    · revert text
      decide
  · rw [List.length_append, List.length_replicate]
    exact Nat.lt_add_of_pos_right (by decide)
  · intro line member
    rw [List.splitOn_eq_singleton (by decide), List.mem_singleton] at member
    subst member
    refine ⟨by decide, warningEvent, eventOf_loadsWarning (by decide), by decide, by decide⟩
  · intro _closed error parsed
    rw [eventOf_loadsWarning blanks] at parsed
    cases parsed

end OciTransfer
