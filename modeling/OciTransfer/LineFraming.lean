/-!
Reading a sequence line by line from chunks.

The reader keeps what follows the last separator, appends the next chunk to it
and handles the lines that are then complete.  The handler of a line decides
what is done with the rest.  The induction rule takes a fact about the lines of
the whole sequence from its end to its beginning, however the sequence is cut.
-/

universe u v

namespace LineFraming

variable {α : Type u} {β : Type v}

/-- Handle every segment but the last as a line; the last goes on. -/
def drain (onLine : List α → β → β) (next : List α → β) : List (List α) → β
  | [] => next []
  | [rest] => next rest
  | line :: more => onLine line (drain onLine next more)

def read [DecidableEq α] (separator : α) (onLine : List α → β → β) (overflow : List α → Option β)
    (finish : List α → β) : List (List α) → List α → β
  | [], pending => finish pending
  | chunk :: rest, pending =>
      match overflow (pending ++ chunk) with
      | some result => result
      | none => drain onLine (read separator onLine overflow finish rest)
          ((pending ++ chunk).splitOn separator)

private theorem drain_append (onLine : List α → β → β) (next : List α → β) (lines : List (List α))
    (last : List α) : drain onLine next (lines ++ [last]) = lines.foldr onLine (next last) := by
  induction lines with
  | nil => rfl
  | cons line more ih =>
      cases more with
      | nil => rfl
      | cons second rest =>
          change onLine line (drain onLine next (second :: rest ++ [last])) = _
          rw [ih]
          rfl

theorem exists_last_separator [DecidableEq α] {separator : α} {whole : List α}
    (present : separator ∈ whole) :
    ∃ front last, whole = front ++ separator :: last ∧ separator ∉ last := by
  obtain ⟨after, before, reversed, absent⟩ :=
    List.eq_append_cons_of_mem (List.mem_reverse.mpr present)
  refine ⟨before.reverse, after.reverse, ?_, fun member => absent (List.mem_reverse.mp member)⟩
  rw [← List.reverse_reverse whole, reversed, List.reverse_append, List.reverse_cons,
    List.append_assoc]
  rfl

theorem splitOn_append [DecidableEq α] (separator : α) (left right : List α) :
    ∃ lines last, left.splitOn separator = lines ++ [last] ∧ separator ∉ last ∧
      (left ++ right).splitOn separator = lines ++ (last ++ right).splitOn separator := by
  by_cases present : separator ∈ left
  · obtain ⟨front, last, rfl, lastAbsent⟩ := exists_last_separator present
    refine ⟨front.splitOn separator, last, ?_, lastAbsent, ?_⟩
    · rw [List.splitOn_append_cons_self, List.splitOn_eq_singleton lastAbsent]
    · rw [List.append_assoc, List.cons_append, List.splitOn_append_cons_self]
  · exact ⟨[], left, List.splitOn_eq_singleton present, present, rfl⟩

private theorem splitOn_starts [DecidableEq α] {separator : α} {left : List α}
    (absent : separator ∉ left)
    (right : List α) :
    ∃ more segments, (left ++ right).splitOn separator = (left ++ more) :: segments := by
  by_cases present : separator ∈ right
  · obtain ⟨before, after, rfl, notBefore⟩ := List.eq_append_cons_of_mem present
    refine ⟨before, after.splitOn separator, ?_⟩
    have notFirst : separator ∉ left ++ before := by simp [absent, notBefore]
    rw [← List.append_assoc, List.splitOn_append_cons_self_of_not_mem notFirst]
  · refine ⟨right, [], List.splitOn_eq_singleton ?_⟩
    simp [absent, present]

/-- A beginning of some lines, each with its separator, is cut into the first of
the lines and a beginning of the next one. -/
theorem splitOn_of_begins [DecidableEq α] {separator : α} {lines : List (List α)}
    (absent : ∀ line ∈ lines, separator ∉ line) {part : List α}
    (begins : part <+: lines.flatMap fun line => line ++ [separator]) :
    ∃ done later last, lines = done ++ later ∧ part.splitOn separator = done ++ [last] ∧
      part = (done.flatMap fun line => line ++ [separator]) ++ last ∧
      (later = [] → last = []) ∧ ∀ next rest, later = next :: rest → last <+: next := by
  induction lines generalizing part with
  | nil =>
      have nothing := List.prefix_nil.mp begins
      refine ⟨[], [], [], rfl, ?_, nothing, fun _ => rfl,
        fun next rest impossible => nomatch impossible⟩
      rw [nothing, List.splitOn_nil]
      rfl
  | cons line rest ih =>
      have notInLine := absent line List.mem_cons_self
      obtain ⟨more, whole⟩ := begins
      rw [List.flatMap_cons, List.append_assoc] at whole
      have within : ∀ tail, part ++ tail = line → ∃ done later last, line :: rest = done ++ later ∧
          part.splitOn separator = done ++ [last] ∧
          part = (done.flatMap fun line => line ++ [separator]) ++ last ∧ (later = [] → last = []) ∧
            ∀ next others, later = next :: others → last <+: next := by
        intro tail isLine
        refine ⟨[], line :: rest, part, rfl, ?_, rfl, ?_, ?_⟩
        · have notInPart : separator ∉ part := by
            intro found
            rw [← isLine] at notInLine
            exact notInLine (List.mem_append_left tail found)
          rw [List.splitOn_eq_singleton notInPart, List.nil_append]
        · intro impossible
          cases impossible
        · intro next others same
          rw [← (List.cons.inj same).1, ← isLine]
          exact List.prefix_append part tail
      rcases List.append_eq_append_iff.mp whole with ⟨tail, isLine, -⟩ | ⟨tail, isPart, followed⟩
      · exact within tail isLine.symm
      · cases tail with
        | nil => exact within [] (by rw [isPart, List.append_nil, List.append_nil])
        | cons first after =>
            obtain ⟨isSeparator, afterwards⟩ := List.cons.inj followed
            obtain ⟨done, later, last, isRest, segments, joined, ended, next⟩ :=
              ih (fun other inRest => absent other (List.mem_cons_of_mem _ inRest))
                ⟨more, afterwards.symm⟩
            refine ⟨line :: done, later, last, ?_, ?_, ?_, ended, next⟩
            · rw [isRest]
              rfl
            · rw [isPart, ← isSeparator, List.splitOn_append_cons_self_of_not_mem notInLine,
                segments]
              rfl
            · rw [isPart, ← isSeparator, List.flatMap_cons, List.append_assoc, ← joined,
                List.append_assoc]
              rfl

section Arrival

variable {γ : Type v} {encode : γ → List α} {separator : α} {done later front : List γ}
  {last : List α}

theorem prefix_append_cases (begins : front <+: done ++ later) :
    front <+: done ∨
      ∃ next rest more, later = next :: rest ∧ front = done ++ next :: more ∧ more <+: rest := by
  rcases List.prefix_or_prefix_of_prefix begins (List.prefix_append done later) with
    early | ⟨tail, rfl⟩
  · exact Or.inl early
  · cases tail with
    | nil =>
        rw [List.append_nil]
        exact Or.inl (List.prefix_refl done)
    | cons next more =>
        obtain ⟨rest, same⟩ := begins
        rw [List.append_assoc] at same
        have isLater := List.append_cancel_left same
        exact Or.inr ⟨next, more ++ rest, more, isLater.symm, rfl, List.prefix_append more rest⟩

theorem lines_prefix_iff (begins : front <+: done ++ later)
    (isNext : ∀ next rest, later = next :: rest → last <+: encode next) :
    (front.flatMap fun line => encode line ++ [separator]) <+:
      (done.flatMap fun line => encode line ++ [separator]) ++ last ↔ front <+: done := by
  constructor
  · intro arrived
    rcases prefix_append_cases begins with early | ⟨next, rest, more, rfl, rfl, -⟩
    · exact early
    · rw [List.flatMap_append, List.prefix_append_right_inj, List.flatMap_cons] at arrived
      have shorter := (isNext next rest rfl).length_le
      have longer := arrived.length_le
      simp only [List.length_append, List.length_singleton] at longer
      omega
  · rintro ⟨tail, rfl⟩
    rw [List.flatMap_append, List.append_assoc]
    exact List.prefix_append _ _

theorem lines_eq_append_iff (begins : front <+: done ++ later)
    (isNext : ∀ next rest, later = next :: rest → last <+: encode next) :
    (front.flatMap fun line => encode line ++ [separator]) =
      (done.flatMap fun line => encode line ++ [separator]) ++ last ++ [separator] ↔
    ∃ next rest, later = next :: rest ∧ last = encode next ∧ front = done ++ [next] := by
  constructor
  · intro same
    rcases prefix_append_cases begins with ⟨tail, rfl⟩ | ⟨next, rest, more, rfl, rfl, -⟩
    · have lengths := congrArg List.length same
      simp only [List.flatMap_append, List.length_append, List.length_singleton] at lengths
      omega
    · rw [List.flatMap_append, List.append_assoc, List.flatMap_cons] at same
      have tails := List.append_cancel_left same
      have isPart := isNext next rest rfl
      have shorter := isPart.length_le
      have lengths := congrArg List.length tails
      simp only [List.length_append, List.length_singleton] at lengths
      have isWhole := isPart.eq_of_length_le (by omega)
      subst isWhole
      have nothing := List.append_cancel_left (tails.trans (List.append_nil _).symm)
      cases more with
      | nil => exact ⟨next, rest, rfl, rfl, rfl⟩
      | cons line more => simp at nothing
  · rintro ⟨next, rest, -, rfl, rfl⟩
    rw [List.flatMap_append, List.flatMap_singleton, List.append_assoc]

end Arrival

theorem mem_splitOn_of_begins [DecidableEq α] {separator : α} {lines : List (List α)}
    (absent : ∀ line ∈ lines, separator ∉ line) {part segment : List α}
    (begins : part <+: lines.flatMap fun line => line ++ [separator])
    (member : segment ∈ part.splitOn separator) :
    segment = [] ∨ ∃ line ∈ lines, segment <+: line := by
  obtain ⟨done, later, last, rfl, segments, -, ended, isNext⟩ := splitOn_of_begins absent begins
  rw [segments, List.mem_append, List.mem_singleton] at member
  rcases member with isDone | rfl
  · exact Or.inr ⟨segment, List.mem_append_left later isDone, List.prefix_refl segment⟩
  · cases later with
    | nil => exact Or.inl (ended rfl)
    | cons next rest =>
        exact Or.inr ⟨next, List.mem_append_right done List.mem_cons_self, isNext next rest rfl⟩

section Reader

variable [DecidableEq α] {separator : α} {onLine : List α → β → β} {overflow : List α → Option β}
  {finish : List α → β}

/-- What holds at the end of the input, and where the reader gives up, and is
passed on from each line to the one before it, holds of all the lines. -/
theorem read_induction (holds : List (List α) → β → Prop)
    (atEnd : ∀ pending, separator ∉ pending → holds [pending] (finish pending))
    (gaveUp : ∀ pending rest result, overflow pending = some result →
      holds ((pending ++ rest).splitOn separator) result)
    (passed : ∀ line segments result, holds segments result →
      holds (line :: segments) (onLine line result))
    (chunks : List (List α)) {pending : List α} (absent : separator ∉ pending) :
    holds ((pending ++ chunks.flatten).splitOn separator)
      (read separator onLine overflow finish chunks pending) := by
  induction chunks generalizing pending with
  | nil =>
      rw [List.flatten_nil, List.append_nil, List.splitOn_eq_singleton absent]
      exact atEnd pending absent
  | cons chunk rest ih =>
      unfold read
      rw [List.flatten_cons, ← List.append_assoc]
      cases overflowed : overflow (pending ++ chunk) with
      | some result => exact gaveUp _ rest.flatten result overflowed
      | none =>
          obtain ⟨lines, last, split, lastAbsent, whole⟩ :=
            splitOn_append separator (pending ++ chunk) rest.flatten
          rw [whole]
          simp only []
          rw [split, drain_append]
          have later := ih lastAbsent
          generalize (last ++ rest.flatten).splitOn separator = segments at later ⊢
          clear split whole
          induction lines with
          | nil => exact later
          | cons line more more_ih => exact passed line _ _ more_ih

theorem read_whole {front last : List α} (absent : separator ∉ last)
    (accepted : overflow (front ++ separator :: last) = none) :
    read separator onLine overflow finish [front ++ separator :: last] [] =
      (front.splitOn separator).foldr onLine (finish last) := by
  unfold read
  rw [List.nil_append, accepted, List.splitOn_append_cons_self, List.splitOn_eq_singleton absent]
  exact drain_append onLine _ _ last

theorem read_cut {front last : List α} (accepted : overflow (front ++ [separator]) = none) :
    read separator onLine overflow finish [front ++ [separator], last] [] =
      (front.splitOn separator).foldr onLine
        (read separator onLine overflow finish [last] []) := by
  unfold read
  rw [List.nil_append, accepted, List.splitOn_append_cons_self, List.splitOn_nil]
  exact drain_append onLine _ _ []

/-! A bound on the length of lines, or anything like it: whatever begins with a
long text is long, and a long line gives the same as giving up. -/

section Bounded

variable (long : List α → Prop) {onLong : β}

/-- Either every line is handled and then the rest, or the rest is long and the
reader gives up on it. -/
theorem read_bounded (grows : ∀ {text} more, long text → long (text ++ more))
    (longLine : ∀ {line} next, long line → onLine line next = onLong)
    (gaveUp : ∀ {pending result}, overflow pending = some result →
      long pending ∧ separator ∉ pending ∧ result = onLong)
    (chunks : List (List α)) {lines : List (List α)} {last : List α}
    (split : chunks.flatten.splitOn separator = lines ++ [last]) :
    read separator onLine overflow finish chunks [] = lines.foldr onLine (finish last) ∨
      (long last ∧
        read separator onLine overflow finish chunks [] = lines.foldr onLine onLong) := by
  have both := @read_induction α β _ separator onLine overflow finish
    (fun segments result => segments ≠ [] ∧ ∀ lines last, segments = lines ++ [last] →
      result = lines.foldr onLine (finish last) ∨
        (long last ∧ result = lines.foldr onLine onLong)) ?_ ?_ ?_ chunks [] List.not_mem_nil
  · exact both.2 lines last split
  · intro pending _absent
    refine ⟨List.cons_ne_nil _ _, fun lines last same => ?_⟩
    cases lines with
    | nil =>
        cases same
        exact Or.inl rfl
    | cons first others => simp at same
  · intro pending rest result overflowed
    obtain ⟨isLong, absent, rfl⟩ := gaveUp overflowed
    obtain ⟨more, segments, whole⟩ := splitOn_starts absent rest
    rw [whole]
    refine ⟨List.cons_ne_nil _ _, fun lines last same => ?_⟩
    cases lines with
    | nil =>
        cases same
        exact Or.inr ⟨grows more isLong, rfl⟩
    | cons first others =>
        cases same
        exact Or.inl (longLine _ (grows more isLong)).symm
  · rintro line segments result ⟨someSegment, later⟩
    refine ⟨List.cons_ne_nil _ _, fun lines last same => ?_⟩
    cases lines with
    | nil =>
        cases same
        exact absurd rfl someSegment
    | cons first others =>
        cases same
        rcases later others last rfl with handled | ⟨isLong, gave⟩
        · exact Or.inl (congrArg (onLine line) handled)
        · exact Or.inr ⟨isLong, congrArg (onLine line) gave⟩

theorem read_unbroken (gives : ∀ {pending}, long pending → separator ∉ pending →
      overflow pending = some onLong)
    (gaveUp : ∀ {pending result}, overflow pending = some result → result = onLong)
    (chunks : List (List α)) {pending : List α} (short : ¬ long pending)
    (isLong : long (pending ++ chunks.flatten)) (absent : separator ∉ pending ++ chunks.flatten) :
    read separator onLine overflow finish chunks pending = onLong := by
  induction chunks generalizing pending with
  | nil =>
      rw [List.flatten_nil, List.append_nil] at isLong
      exact absurd isLong short
  | cons chunk rest ih =>
      rw [List.flatten_cons, ← List.append_assoc] at isLong absent
      have chunkAbsent : separator ∉ pending ++ chunk := fun member =>
        absent (List.mem_append_left _ member)
      unfold read
      cases overflowed : overflow (pending ++ chunk) with
      | some result => exact gaveUp overflowed
      | none =>
          have stillShort : ¬ long (pending ++ chunk) := by
            intro grown
            rw [gives grown chunkAbsent] at overflowed
            cases overflowed
          simp only []
          rw [List.splitOn_eq_singleton chunkAbsent]
          exact ih stillShort isLong absent

end Bounded

end Reader

end LineFraming
