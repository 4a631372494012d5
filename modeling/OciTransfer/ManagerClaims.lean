import OciTransfer.JsonDumps
import OciTransfer.ManagerShutdown
import OciTransfer.OciReference

/-!
Which claims `release` takes back.

A manager is known by its process and by random digits, its workers by the manager and
their number, and `release` finds the workers by a `LIKE` pattern.  The pattern ignores
case and its beginning is the identifier of the manager, so what has to be seen is that
no identifier of another manager begins with it in any case.
-/

namespace OciTransfer

/-! ### Patterns -/

private theorem sqlLike_cons {wanted found : Char} (literal : wanted ≠ '%' ∧ wanted ≠ '_')
    (pattern text : List Char) :
    sqlLike (wanted :: pattern) (found :: text) =
      (decide (wanted.toLower = found.toLower) && sqlLike pattern text) := by
  rw [sqlLike]
  · rw [decide_eq_false literal.2, Bool.false_or]
  · exact literal.1

private theorem sqlLike_cons_nil {wanted : Char} (literal : wanted ≠ '%') (pattern : List Char) :
    sqlLike (wanted :: pattern) [] = false := by
  rw [sqlLike]
  exact literal

private theorem sqlLike_literal {start : List Char}
    (literal : ∀ char ∈ start, char ≠ '%' ∧ char ≠ '_')
    (rest text : List Char) :
    sqlLike (start ++ rest) text = true ↔ ∃ front back, text = front ++ back ∧
      start.map Char.toLower = front.map Char.toLower ∧ sqlLike rest back = true := by
  induction start generalizing text with
  | nil =>
      constructor
      · intro matched
        exact ⟨[], text, rfl, rfl, matched⟩
      · intro split
        obtain ⟨front, back, rfl, noFront, matched⟩ := split
        have isNil : front = [] := List.map_eq_nil_iff.mp noFront.symm
        rw [isNil]
        exact matched
  | cons wanted start ih =>
      have first := literal wanted List.mem_cons_self
      have others := ih fun char member => literal char (List.mem_cons_of_mem wanted member)
      rw [List.cons_append]
      cases text with
      | nil =>
          rw [sqlLike_cons_nil first.1]
          constructor
          · intro impossible
            cases impossible
          · intro split
            obtain ⟨front, back, isNil, same, -⟩ := split
            rw [(List.append_eq_nil_iff.mp isNil.symm).1] at same
            cases same
      | cons found text =>
          rw [sqlLike_cons first, Bool.and_eq_true, decide_eq_true_iff, others text]
          constructor
          · intro both
            obtain ⟨sameLetter, front, back, splits, same, matched⟩ := both
            refine ⟨found :: front, back, ?_, ?_, matched⟩
            · rw [splits, List.cons_append]
            · rw [List.map_cons, List.map_cons, sameLetter, same]
          · intro split
            obtain ⟨front, back, splits, same, matched⟩ := split
            cases front with
            | nil => cases same
            | cons letter front =>
                rw [List.cons_append, List.cons.injEq] at splits
                rw [List.map_cons, List.map_cons, List.cons.injEq] at same
                rw [splits.1]
                exact ⟨same.1, front, back, splits.2, same.2, matched⟩

/-! ### Identifiers -/

/-- `f"{os.getpid()}-{uuid.uuid4().hex}"`, the parts of it. -/
structure ManagerId where
  processId : Nat
  hex : String
  length_hex : hex.toList.length = 32
  hexDigits : hex.toList.all hexDigit = true

namespace ManagerId

def text (manager : ManagerId) : String := toString manager.processId ++ "-" ++ manager.hex

/-- `f"{self._worker_id}-{index}"`. -/
def worker (manager : ManagerId) (index : Nat) : String :=
  manager.text ++ "-" ++ toString index

end ManagerId

def identifierLetter (char : Char) : Bool := hexDigit char || char == '-'

private theorem hexDigit_range {char : Char} (isDigit : hexDigit char = true) :
    (48 ≤ char.toNat ∧ char.toNat ≤ 57) ∨ (97 ≤ char.toNat ∧ char.toNat ≤ 102) := by
  unfold hexDigit at isDigit
  rcases Bool.or_eq_true_iff.mp isDigit with decimal | letter
  · left
    simpa [Char.isDigit, UInt32.le_iff_toNat_le] using decimal
  · right
    obtain ⟨low, high⟩ := Bool.and_eq_true_iff.mp letter
    exact ⟨of_decide_eq_true low, of_decide_eq_true high⟩

private theorem identifierLetter_range {char : Char} (inside : identifierLetter char = true) :
    char.toNat = 45 ∨ (48 ≤ char.toNat ∧ char.toNat ≤ 57) ∨
      (97 ≤ char.toNat ∧ char.toNat ≤ 102) := by
  rcases Bool.or_eq_true_iff.mp inside with digit | hyphen
  · exact Or.inr (hexDigit_range digit)
  · left
    rw [eq_of_beq hyphen]
    rfl

private theorem identifierLetter_literal {char : Char} (inside : identifierLetter char = true) :
    char ≠ '%' ∧ char ≠ '_' := by
  have range := identifierLetter_range inside
  constructor
  · rintro rfl
    revert range
    decide
  · rintro rfl
    revert range
    decide

private theorem toLower_identifierLetter {char : Char} (inside : identifierLetter char = true) :
    char.toLower = char := by
  apply dif_neg
  intro upper
  have letters : 65 ≤ char.toNat ∧ char.toNat ≤ 90 := by
    simpa [UInt32.le_iff_toNat_le] using upper
  have range := identifierLetter_range inside
  omega

private theorem map_toLower_identifier {letters : List Char}
    (inside : ∀ char ∈ letters, identifierLetter char = true) :
    letters.map Char.toLower = letters :=
  (List.map_congr_left fun char member => toLower_identifierLetter (inside char member)).trans
    (List.map_id' letters)

namespace ManagerId

private theorem toList_text_append (manager : ManagerId) (rest : List Char) :
    manager.text.toList ++ rest =
      Nat.toDigits 10 manager.processId ++ '-' :: (manager.hex.toList ++ rest) := by
  unfold text
  rw [String.toList_append, String.toList_append, Nat.toString_eq_repr, Nat.toList_repr]
  simp

private theorem identifierLetter_text {manager : ManagerId} {char : Char}
    (member : char ∈ manager.text.toList) : identifierLetter char = true := by
  have parts := manager.toList_text_append []
  rw [List.append_nil, List.append_nil] at parts
  rw [parts] at member
  unfold identifierLetter hexDigit
  rcases List.mem_append.mp member with digit | rest
  · rw [Nat.isDigit_of_mem_toDigits (by decide) (by decide) digit]
    rfl
  · rcases List.mem_cons.mp rest with rfl | hex
    · rfl
    · have isHex := List.all_eq_true.mp manager.hexDigits char hex
      unfold hexDigit at isHex
      rw [isHex]
      rfl

private theorem toList_worker (manager : ManagerId) (index : Nat) :
    (manager.worker index).toList = manager.text.toList ++ '-' :: Nat.toDigits 10 index := by
  unfold worker
  rw [String.toList_append, String.toList_append, Nat.toString_eq_repr, Nat.toList_repr]
  simp

private theorem identifierLetter_worker {manager : ManagerId} {index : Nat} {char : Char}
    (member : char ∈ (manager.worker index).toList) : identifierLetter char = true := by
  rw [toList_worker] at member
  rcases List.mem_append.mp member with inText | rest
  · exact identifierLetter_text inText
  · rcases List.mem_cons.mp rest with rfl | digit
    · rfl
    · unfold identifierLetter hexDigit
      rw [Nat.isDigit_of_mem_toDigits (by decide) (by decide) digit]
      rfl

private theorem eq_of_text_append {manager other : ManagerId} {rest last : List Char}
    (same : manager.text.toList ++ rest = other.text.toList ++ last) : manager = other := by
  rw [toList_text_append, toList_text_append] at same
  have ended : ∀ rest : List Char,
      PrefixCode.Ended (fun letter => ¬ letter.isDigit = true) ('-' :: rest) :=
    fun rest => PrefixCode.ended_cons (by decide) rest
  obtain ⟨sameProcess, sameRest⟩ := JsonValue.toDigits_ten_told (ended _) (ended _) same
  have sameLength : manager.hex.toList.length = other.hex.toList.length :=
    manager.length_hex.trans other.length_hex.symm
  have sameHex := (List.append_inj (List.cons.inj sameRest).2 sameLength).1
  cases manager
  cases other
  cases sameProcess
  cases String.toList_injective sameHex
  rfl

private theorem ownedBy_iff {row : JobRow} {owner manager : ManagerId} {index : Nat}
    (claimed : row.workerId = some (owner.worker index)) :
    row.ownedBy manager.text = true ↔ owner = manager := by
  constructor
  · intro owned
    unfold JobRow.ownedBy at owned
    rw [claimed, Option.any_some, Bool.or_eq_true, decide_eq_true_iff] at owned
    rcases owned with whole | matched
    · have same := congrArg String.toList whole
      rw [toList_worker, ← List.append_nil manager.text.toList] at same
      exact eq_of_text_append same
    · have pattern : (manager.text ++ "-%").toList = (manager.text.toList ++ ['-']) ++ ['%'] := by
        rw [String.toList_append, List.append_assoc]
        rfl
      have inside : ∀ char ∈ manager.text.toList ++ ['-'], identifierLetter char = true := by
        intro char member
        rcases List.mem_append.mp member with inText | hyphen
        · exact identifierLetter_text inText
        · rw [List.mem_singleton.mp hyphen]
          rfl
      rw [pattern, sqlLike_literal fun char member => identifierLetter_literal (inside char member)]
        at matched
      obtain ⟨front, back, splits, sameLower, -⟩ := matched
      have frontInside : ∀ char ∈ front, identifierLetter char = true := by
        intro char member
        apply identifierLetter_worker
        rw [splits]
        exact List.mem_append_left back member
      -- No letter of either identifier has another case.
      rw [map_toLower_identifier inside, map_toLower_identifier frontInside] at sameLower
      rw [toList_worker, ← sameLower, List.append_assoc] at splits
      exact eq_of_text_append splits
  · intro same
    subst same
    apply ownedBy_of_worker
    exact claimed

end ManagerId

/-! ### Releasing -/

def Store.ClaimedByManagers (store : Store) : Prop :=
  ∀ job row, store.jobs.find? job = some row → ∀ worker, row.workerId = some worker →
    ∃ (owner : ManagerId) (index : Nat), worker = owner.worker index

def JobRow.WorkedBy (row : JobRow) (manager : ManagerId) : Prop :=
  row.state.working = true ∧ ∃ index, row.workerId = some (manager.worker index)

/-- The claim on the job is given up, and the job can be claimed at once. -/
structure JobRow.GivenUp (row now : JobRow) (current : Instant) : Prop where
  queued : row.snapshotJson = none → now.state = .queued
  waiting : row.snapshotJson ≠ none → now.state = .retryWait
  due : now.nextRetryAt = some current
  unclaimed : now.workerId = none ∧ now.claimToken = none ∧ now.leaseExpiresAt = none
  others : now = { row with
    state := now.state
    nextRetryAt := now.nextRetryAt
    workerId := none
    claimToken := none
    leaseExpiresAt := none
    heartbeatAt := none
    updatedAt := current }

private theorem JobRow.givenUp_release (row : JobRow) (current : Instant) :
    row.GivenUp (row.release current) current where
  queued := by
    intro unplanned
    unfold release
    dsimp only
    rw [unplanned]
    rfl
  waiting := by
    intro planned
    unfold release
    dsimp only
    rw [if_neg fun isNone => planned (Option.isNone_iff_eq_none.mp isNone)]
  due := rfl
  unclaimed := ⟨rfl, rfl, rfl⟩
  others := rfl

private theorem JobRow.release_ne {row : JobRow} (working : row.state.working = true)
    (current : Instant) :
    row.release current ≠ row := by
  intro same
  have state := congrArg (fun row : JobRow => row.state) same
  rw [← state] at working
  rcases (row.release_resumable current).1 with queued | waiting
  · rw [queued] at working
    cases working
  · rw [waiting] at working
    cases working

private theorem JobRow.released_iff {row : JobRow} {manager : ManagerId}
    (claimed : ∀ worker, row.workerId = some worker →
      ∃ (owner : ManagerId) (index : Nat), worker = owner.worker index) :
    (row.ownedBy manager.text && row.state.working) = true ↔ row.WorkedBy manager := by
  rw [Bool.and_eq_true]
  constructor
  · intro both
    obtain ⟨worker, isWorker, -⟩ := (Option.any_eq_true _ _).mp both.1
    obtain ⟨owner, index, rfl⟩ := claimed worker isWorker
    have own := (ManagerId.ownedBy_iff isWorker).mp both.1
    rw [own] at isWorker
    exact ⟨both.2, index, isWorker⟩
  · intro worked
    obtain ⟨working, index, isWorker⟩ := worked
    exact ⟨(ManagerId.ownedBy_iff isWorker).mpr rfl, working⟩

/-- `release` gives up the jobs that the workers of one manager have in hand, and no others. -/
theorem release_own_claims {store : Store} (claims : store.ClaimedByManagers) (manager : ManagerId)
    (current : Instant) :
    (store.release manager.text current).blobs = store.blobs ∧
    (store.release manager.text current).errors = store.errors ∧
    (store.release manager.text current).errorSequence = store.errorSequence ∧
    ∀ job,
      (store.jobs.find? job = none →
        (store.release manager.text current).jobs.find? job = none) ∧
      ∀ row, store.jobs.find? job = some row →
        ∃ now, (store.release manager.text current).jobs.find? job = some now ∧
          (now ≠ row ↔ row.WorkedBy manager) ∧
          (row.WorkedBy manager → row.GivenUp now current) ∧
          ∀ (owner : ManagerId) (index : Nat), owner ≠ manager →
            row.workerId = some (owner.worker index) → now = row := by
  refine ⟨rfl, rfl, rfl, fun job => ?_⟩
  unfold Store.release
  rw [Store.find?_updateJobs]
  constructor
  · intro absent
    rw [absent]
    rfl
  · intro row found
    have selected : (row.ownedBy manager.text && row.state.working) = true ↔
        row.WorkedBy manager := JobRow.released_iff (claims job row found)
    rw [found, Option.map_some]
    by_cases worked : row.WorkedBy manager
    · rw [if_pos (selected.mpr worked)]
      refine ⟨_, rfl, iff_of_true (row.release_ne worked.1 current) worked,
        fun _ => row.givenUp_release current, ?_⟩
      intro owner index other claimed
      have own := (selected.mpr worked)
      rw [Bool.and_eq_true, ManagerId.ownedBy_iff claimed] at own
      exact absurd own.1 other
    · rw [if_neg fun chosen => worked (selected.mp chosen)]
      exact ⟨row, rfl, iff_of_false (fun differs => differs rfl) worked,
        fun impossible => absurd impossible worked, fun _ _ _ _ => rfl⟩

def sampleManagerId (processId : Nat) : ManagerId :=
  { processId := processId
    hex := "0123456789abcdef0123456789abcdef"
    length_hex := by decide
    hexDigits := by decide }

/-- Process 12 works on the job, and process 1 shuts down before it does. -/
theorem release_own_claims_sample : ∃ (store : Store) (row : JobRow),
    store.ClaimedByManagers ∧ store.jobs.find? "job" = some row ∧
      row.WorkedBy (sampleManagerId 12) ∧
      (store.release (sampleManagerId 1).text 5).jobs.find? "job" = some row ∧
      ∃ now, (store.release (sampleManagerId 12).text 5).jobs.find? "job" = some now ∧
        row.GivenUp now 5 := by
  have started : interleaved.start System.initial := rfl
  have run : ((interleaved.execute Machine.Always
      [.commit (.enqueue sampleValues "job" 0),
        .commit (.claim ((sampleManagerId 12).worker 0) 60 0 "token")]
      System.initial).any fun system =>
        (system.store.jobs.rows.all fun row =>
          decide (row.workerId = some ((sampleManagerId 12).worker 0))) &&
        (system.store.jobs.find? "job").any fun row =>
          decide (row.state.working = true)) = true := by decide
  obtain ⟨system, reached, held⟩ := Machine.exists_reachable_of_execute _ started run
  rw [Bool.and_eq_true] at held
  obtain ⟨row, found, working⟩ := (Option.any_eq_true _ _).mp held.2
  have worker : ∀ job row, system.store.jobs.find? job = some row →
      row.workerId = some ((sampleManagerId 12).worker 0) :=
    fun job row present => of_decide_eq_true
      (List.all_eq_true.mp held.1 row (system.store.jobs.find?_mem present))
  have claims : system.store.ClaimedByManagers := by
    intro job row present name claimed
    rw [worker job row present] at claimed
    exact ⟨sampleManagerId 12, 0, (Option.some.inj claimed).symm⟩
  have worked : row.WorkedBy (sampleManagerId 12) :=
    And.intro (of_decide_eq_true working) ⟨0, worker "job" row found⟩
  obtain ⟨now, foundNow, -, -, others⟩ :=
    ((release_own_claims claims (sampleManagerId 1) 5).2.2.2 "job").2 row found
  obtain ⟨freed, foundFreed, -, givenUp, -⟩ :=
    ((release_own_claims claims (sampleManagerId 12) 5).2.2.2 "job").2 row found
  have differs : sampleManagerId 12 ≠ sampleManagerId 1 := by
    intro same
    cases congrArg ManagerId.processId same
  rw [others (sampleManagerId 12) 0 differs (worker "job" row found)] at foundNow
  exact ⟨system.store, row, claims, found, worked, foundNow, freed, foundFreed, givenUp worked⟩

end OciTransfer
