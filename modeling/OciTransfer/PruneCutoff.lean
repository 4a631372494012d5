import OciTransfer.Pruning
import OciTransfer.TimestampOrder

/-!
Pruning by age with a `datetime`.

`CopyManager.prune` hands the `isoformat` text of its cutoff to the queue, which
compares it with texts in UTC.  The text shows the wall clock of the cutoff, so the
comparison is with that clock read as UTC, and the offset only breaks a tie.  The bound
that SQLite has on the parameters of a statement is left out here too.
-/

namespace OciTransfer

/-- A `datetime`: its wall clock in microseconds, and its UTC offset if it is aware. -/
structure Datetime where
  wall : Nat
  utcoffset : Option Int
  inYears : wall < 315537897600000000
  withinDay : ∀ offset, utcoffset = some offset → offset.natAbs < 86400000000

namespace Datetime

/-- The UTC offset as `isoformat` writes it. -/
def offsetText (offset : Int) : String :=
  let size := offset.natAbs
  (if offset < 0 then "-" else "+") ++ padded 2 (size / 3600000000) ++ ":" ++
    padded 2 (size / 60000000 % 60) ++
    (if size % 60000000 = 0 then ""
    else ":" ++ padded 2 (size / 1000000 % 60) ++
      if size % 1000000 = 0 then "" else "." ++ padded 6 (size % 1000000))

def isoformat (datetime : Datetime) : String :=
  String.ofList (wallText datetime.wall) ++ datetime.utcoffset.elim "" offsetText

/-- The instant of an aware `datetime`. -/
def instant (datetime : Datetime) (offset : Int) : Instant := datetime.wall - offset

end Datetime

inductive OlderThan where
  | datetime (cutoff : Datetime)
  | text (cutoff : String)

/-- `older_than.isoformat() if isinstance(older_than, datetime) else older_than`. -/
def OlderThan.text? : OlderThan → String
  | .datetime cutoff => cutoff.isoformat
  | .text cutoff => cutoff

/-- `CopyManager.prune`. -/
def CopyManager.prune (store : Store) (states : Option (List JobState))
    (olderThan : Option OlderThan) (dryRun : Bool) :
    Except StoreError (Store × Store.PruneResult) :=
  store.prune states (olderThan.map OlderThan.text?) dryRun

open FixedWidth

private theorem offsetText_toList (offset : Int) :
    ∃ tail, (Datetime.offsetText offset).toList = (if offset < 0 then '-' else '+') ::
        (fields [([], 2), ([':'], 2)]
          [offset.natAbs / 3600000000, offset.natAbs / 60000000 % 60] ++ tail) ∧
      (tail = [] ↔ offset.natAbs % 60000000 = 0) := by
  refine ⟨(if offset.natAbs % 60000000 = 0 then ""
    else ":" ++ padded 2 (offset.natAbs / 1000000 % 60) ++
      if offset.natAbs % 1000000 = 0 then "" else "." ++ padded 6 (offset.natAbs % 1000000)).toList,
    ?_, ?_⟩
  · have sign : (if offset < 0 then "-" else "+").toList = [if offset < 0 then '-' else '+'] := by
      split <;> rfl
    unfold Datetime.offsetText
    dsimp only
    rw [String.toList_append, String.toList_append, String.toList_append, String.toList_append,
      sign]
    simp only [toList_padded, fields, List.append_assoc, List.cons_append, List.nil_append]
    rfl
  · split
    · rename_i whole
      exact iff_of_true rfl whole
    · rename_i partly
      exact iff_of_false (by simp) partly

private theorem signed_offsetText (offset : Int) : Signed (Datetime.offsetText offset).toList := by
  obtain ⟨tail, text, -⟩ := offsetText_toList offset
  refine ⟨_, _, text, ?_⟩
  split <;> decide

private theorem utc_lt_offsetText {offset : Int} (withinDay : offset.natAbs < 86400000000) :
    "+00:00".toList < (Datetime.offsetText offset).toList ↔ offset ≠ 0 := by
  by_cases zero : offset = 0
  · subst zero
    have utc : Datetime.offsetText 0 = "+00:00" := by decide +kernel
    rw [utc]
    exact iff_of_false (List.lt_irrefl _) (not_not.mpr rfl)
  · refine iff_of_true ?_ zero
    obtain ⟨tail, text, whole⟩ := offsetText_toList offset
    have utc : "+00:00".toList = '+' :: (fields [([], 2), ([':'], 2)] [0, 0] ++ []) := by decide
    have utcFits : Fits [([], 2), ([':'], 2)] [0, 0] := by
      exact .cons (by decide) (.cons (by decide) .nil)
    have fits : Fits [([], 2), ([':'], 2)]
        [offset.natAbs / 3600000000, offset.natAbs / 60000000 % 60] := by
      refine .cons ⟨by decide, ?_⟩ (.cons ⟨by decide, ?_⟩ .nil)
      · change _ < 100
        omega
      · change _ < 100
        omega
    rw [text, utc, List.cons_lt_cons_iff]
    by_cases negative : offset < 0
    · rw [if_pos negative]
      exact Or.inl (by decide)
    · rw [if_neg negative, append_lt_append_iff (length_fields utcFits fits),
        fields_lt_fields_iff utcFits fits]
      refine Or.inr ⟨rfl, ?_⟩
      by_cases hours : 0 < offset.natAbs / 3600000000
      · exact Or.inl (List.cons_lt_cons_iff.mpr (Or.inl hours))
      · by_cases minutes : 0 < offset.natAbs / 60000000 % 60
        · refine Or.inl (List.cons_lt_cons_iff.mpr (Or.inr ⟨by omega, ?_⟩))
          exact List.cons_lt_cons_iff.mpr (Or.inl minutes)
        · -- less than a minute shows only in the seconds
          have noHours : offset.natAbs / 3600000000 = 0 := by omega
          have noMinutes : offset.natAbs / 60000000 % 60 = 0 := by omega
          refine Or.inr ⟨by rw [noHours, noMinutes], ?_⟩
          cases tail with
          | nil => exact absurd (whole.mp rfl) (by omega)
          | cons first rest => exact List.nil_lt_cons first rest

/-- The text of a stored timestamp comes before the text of an aware cutoff exactly if
its instant comes before the wall clock of the cutoff, or is that clock read as UTC. -/
theorem timestamp_lt_isoformat_iff {completed : Instant} (representable : completed.Representable)
    {cutoff : Datetime} {offset : Int} (aware : cutoff.utcoffset = some offset) :
    timestamp completed < cutoff.isoformat ↔
      completed < (cutoff.wall : Int) ∨ (completed = (cutoff.wall : Int) ∧ offset ≠ 0) := by
  obtain ⟨nonneg, within⟩ := representable
  obtain ⟨micros, rfl⟩ := Int.eq_ofNat_of_zero_le nonneg
  have utc : Signed "+00:00".toList := ⟨'+', "00:00".toList, rfl, by decide⟩
  have wall : (String.ofList (wallText cutoff.wall)).toList = wallText cutoff.wall :=
    String.toList_ofList
  rw [String.lt_iff_toList_lt, timestamp_toList, Datetime.isoformat, aware, Option.elim_some,
    String.toList_append, wall, Int.toNat_natCast,
    wallText_lt_iff (Int.ofNat_lt.mp within) cutoff.inYears utc (signed_offsetText offset),
    utc_lt_offsetText (cutoff.withinDay offset aware), Int.ofNat_lt, Int.ofNat_inj]

/-- The instant lies between the cutoff and the wall clock of the cutoff read as UTC. -/
def Datetime.Misjudges (cutoff : Datetime) (offset : Int) (completed : Instant) : Prop :=
  (0 < offset ∧ cutoff.instant offset ≤ completed ∧ completed ≤ (cutoff.wall : Int)) ∨
    (offset < 0 ∧ (cutoff.wall : Int) < completed ∧ completed < cutoff.instant offset)

instance (cutoff : Datetime) (offset : Int) : DecidablePred (cutoff.Misjudges offset) :=
  fun _ => inferInstanceAs (Decidable (_ ∨ _))

private theorem timestamp_lt_isoformat_iff_instant {completed : Instant}
    (representable : completed.Representable) {cutoff : Datetime} {offset : Int}
    (aware : cutoff.utcoffset = some offset) :
    (timestamp completed < cutoff.isoformat ↔ completed < cutoff.instant offset) ↔
      ¬ cutoff.Misjudges offset completed := by
  have readings : ∀ completed wall : Int,
      ((completed < wall ∨ (completed = wall ∧ offset ≠ 0)) ↔ completed < wall - offset) ↔
        ¬ ((0 < offset ∧ wall - offset ≤ completed ∧ completed ≤ wall) ∨
          (offset < 0 ∧ wall < completed ∧ completed < wall - offset)) := by
    intro completed wall
    omega
  rw [timestamp_lt_isoformat_iff representable aware]
  exact readings completed cutoff.wall

/-- Pruning by age removes exactly the terminal jobs that were completed before the
instant of its cutoff, if and only if none was completed between that instant and
the wall clock of the cutoff read as UTC. -/
theorem prune_respects_instants_iff {store : Store}
    (written : ∀ row ∈ store.jobs.rows, ∀ completed, row.completedAt = some completed →
      completed.Representable)
    {cutoff : Datetime} {offset : Int} (aware : cutoff.utcoffset = some offset) :
    (∃ after result,
      CopyManager.prune store none (some (.datetime cutoff)) false = .ok (after, result) ∧
      ∀ row ∈ store.jobs.rows, row ∉ after.jobs.rows ↔ row.state.terminal = true ∧
        ∃ completed, row.completedAt = some completed ∧ completed < cutoff.instant offset) ↔
    ∀ row ∈ store.jobs.rows, row.state.terminal = true →
      ∀ completed, row.completedAt = some completed → ¬ cutoff.Misjudges offset completed := by
  obtain ⟨after, result, pruned⟩ : ∃ after result,
      CopyManager.prune store none (some (.datetime cutoff)) false = .ok (after, result) :=
    ⟨_, _, rfl⟩
  have removed : ∀ row ∈ store.jobs.rows, row ∉ after.jobs.rows ↔ row.state.terminal = true ∧
      ∃ completed, row.completedAt = some completed ∧ timestamp completed < cutoff.isoformat := by
    intro row member
    rw [Store.not_mem_pruned_iff pruned member]
    constructor
    · rintro ⟨terminal, -, age⟩
      exact ⟨terminal, age cutoff.isoformat rfl⟩
    · rintro ⟨terminal, older⟩
      refine ⟨terminal, Or.inl rfl, fun text same => ?_⟩
      cases same
      exact older
  constructor
  · rintro ⟨same, sameResult, samePruned, respects⟩ row member terminal completed isCompleted
    rw [pruned] at samePruned
    cases samePruned
    rw [← timestamp_lt_isoformat_iff_instant (written row member completed isCompleted) aware]
    have agrees := (removed row member).symm.trans (respects row member)
    simpa [terminal, isCompleted] using agrees
  · intro respects
    refine ⟨after, result, pruned, fun row member => (removed row member).trans ?_⟩
    refine and_congr_right fun terminal => exists_congr fun completed =>
      and_congr_right fun isCompleted => ?_
    rw [timestamp_lt_isoformat_iff_instant (written row member completed isCompleted) aware]
    exact respects row member terminal completed isCompleted

def sampleCutoff (wall : Fin 86400000000) (hoursAhead : Fin 2) : Datetime :=
  { wall := wall
    utcoffset := some (hoursAhead * 3600000000)
    inYears := by omega
    withinDay := by
      intro offset same
      cases same
      omega }

private theorem cancelledJob_written : ∀ row ∈ cancelledJob.jobs.rows, ∀ completed,
    row.completedAt = some completed → completed.Representable := by
  have columns : cancelledJob.jobs.rows.map (·.completedAt) = [some 1, none] := by decide
  intro row member completed isCompleted
  have listed : some completed ∈ [some 1, none] := by
    rw [← columns, ← isCompleted]
    exact List.mem_map_of_mem member
  simp only [List.mem_cons, List.not_mem_nil, or_false, Option.some.injEq, reduceCtorEq] at listed
  subst listed
  exact ⟨by decide, by decide⟩

theorem prune_respects_instants_iff_in_utc :
    ∃ after result,
      CopyManager.prune cancelledJob none (some (.datetime (sampleCutoff 2 0))) false =
        .ok (after, result) ∧
      ∀ row ∈ cancelledJob.jobs.rows, row ∉ after.jobs.rows ↔ row.state.terminal = true ∧
        ∃ completed, row.completedAt = some completed ∧
          completed < (sampleCutoff 2 0).instant 0 := by
  refine (prune_respects_instants_iff cancelledJob_written rfl).mpr ?_
  intro row _member _terminal completed _completed misjudged
  rcases misjudged with ⟨positive, -⟩ | ⟨negative, -⟩
  · exact absurd positive (by decide)
  · exact absurd negative (by decide)

/-- A job that was completed after the instant of the cutoff is removed. -/
theorem later_job_is_pruned :
    ∃ after result,
      CopyManager.prune cancelledJob none (some (.datetime (sampleCutoff 3600000000 1))) false =
        .ok (after, result) ∧
      result.jobIds = ["first"] ∧
      (cancelledJob.jobs.find? "first").map (·.completedAt) = some (some 1) ∧
      ¬ (1 : Instant) < (sampleCutoff 3600000000 1).instant 3600000000 := by
  refine ⟨_, _, rfl, ?_, by decide, by decide⟩
  decide +kernel

end OciTransfer
