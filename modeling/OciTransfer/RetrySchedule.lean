import OciTransfer.FailureRecording
import Mathlib.Data.Nat.ModEq
import Mathlib.Order.Bounds.Basic
import Mathlib.Tactic.Linarith
import Mathlib.Tactic.NormNum
import Mathlib.Algebra.Order.Field.Basic

/-!
When a retry comes due.

A delay is drawn in whole milliseconds below a cap, or is what the service asks for, and
no delay is more than the largest that the manager allows.  The store keeps the instant to
the microsecond; rounding is monotone, so that the bounds are kept with it.
-/

namespace OciTransfer

private theorem roundHalfEven_cases (value : ℚ) :
    (roundHalfEven value = ⌊value⌋ ∧ value - ⌊value⌋ ≤ 1 / 2) ∨
      (roundHalfEven value = ⌊value⌋ + 1 ∧ 1 / 2 ≤ value - ⌊value⌋) := by
  have floorEq : value.floor = ⌊value⌋ := rfl
  unfold roundHalfEven
  simp only [floorEq]
  by_cases below : value - ⌊value⌋ < 1 / 2
  · rw [if_pos below]
    exact Or.inl ⟨rfl, below.le⟩
  · rw [if_neg below]
    by_cases above : value - ⌊value⌋ > 1 / 2
    · rw [if_pos above]
      exact Or.inr ⟨rfl, above.le⟩
    · rw [if_neg above]
      split
      · exact Or.inl ⟨rfl, not_lt.mp above⟩
      · exact Or.inr ⟨rfl, not_lt.mp below⟩

private theorem roundHalfEven_mono {value other : ℚ} (ordered : value ≤ other) :
    roundHalfEven value ≤ roundHalfEven other := by
  have floors := Int.floor_le_floor ordered
  rcases roundHalfEven_cases value with ⟨down, _⟩ | ⟨up, late⟩
  · rcases roundHalfEven_cases other with ⟨otherDown, _⟩ | ⟨otherUp, _⟩
    · omega
    · omega
  · rcases roundHalfEven_cases other with ⟨otherDown, early⟩ | ⟨otherUp, _⟩
    · -- Only a tie could be rounded up here and down there, and a tie is one number.
      by_cases same : ⌊value⌋ = ⌊other⌋
      · have tie : value = other := by
          rw [same] at late
          linarith
        rw [tie]
      · omega
    · omega

private theorem roundHalfEven_intCast (number : Int) : roundHalfEven number = number := by
  rcases roundHalfEven_cases number with ⟨down, _⟩ | ⟨_, late⟩
  · rw [down, Int.floor_intCast]
  · rw [Int.floor_intCast] at late
    norm_num at late

private theorem abs_roundHalfEven_sub_le (value : ℚ) :
    |(roundHalfEven value : ℚ) - value| ≤ 1 / 2 := by
  have below := Int.floor_le value
  have above := Int.lt_floor_add_one value
  rw [abs_le]
  rcases roundHalfEven_cases value with ⟨down, early⟩ | ⟨up, late⟩
  · rw [down]
    constructor
    · linarith
    · linarith
  · rw [up]
    push_cast
    constructor
    · linarith
    · linarith

private theorem timedelta_mono {value other : ℚ} (ordered : value ≤ other) :
    timedelta value ≤ timedelta other := by
  apply roundHalfEven_mono
  linarith

private theorem timedelta_nonneg {value : ℚ} (nonneg : 0 ≤ value) : 0 ≤ timedelta value := by
  have atZero : timedelta 0 = 0 := by
    unfold timedelta
    rw [zero_mul]
    exact_mod_cast roundHalfEven_intCast 0
  rw [← atZero]
  exact timedelta_mono nonneg

private theorem timedelta_milliseconds (count : Nat) : timedelta
    ((count : ℚ) / 1000) = count * 1000 := by
  have whole : ((count : ℚ) / 1000) * 1000000 = ((count * 1000 : Int) : ℚ) := by
    push_cast
    ring
  unfold timedelta
  rw [whole, roundHalfEven_intCast]

private theorem abs_timedelta_sub_le (value : ℚ) :
    |(timedelta value : ℚ) / 1000000 - value| ≤ 1 / 2000000 := by
  have error := abs_le.mp (abs_roundHalfEven_sub_le (value * 1000000))
  have low := error.1
  have high := error.2
  unfold timedelta
  rw [abs_le]
  constructor
  · linarith
  · linarith

namespace ManagerConfig

variable (config : ManagerConfig)

def cap (failures : Nat) : ℚ :=
  min config.maxBackoff (config.initialBackoff * 2 ^ min failures 16)

def largestDelay (failures : Nat) : ℚ := (⌊config.cap failures * 1000⌋.toNat : ℚ) / 1000

variable {config} {details : JobRow} {error : TransferError}

private theorem delay_drawn (unnamed : error.retryAfter = none) (draw : Nat) :
    config.delay details error draw =
      ((draw % (⌊config.cap details.consecutiveFailures * 1000⌋.toNat + 1) : Nat) : ℚ) / 1000 := by
  have positive : ∀ count : Nat, max 1 (count + 1) = count + 1 :=
    fun count => max_eq_right (Nat.le_add_left 1 count)
  unfold delay cap
  rw [unnamed]
  dsimp only
  rw [positive]

private theorem cap_nonneg (positive : 0 < config.initialBackoff)
    (ordered : config.initialBackoff ≤ config.maxBackoff) (failures : Nat) :
    0 ≤ config.cap failures := by
  apply le_min
  · linarith
  · positivity

private theorem largestDelay_le_cap (positive : 0 < config.initialBackoff)
    (ordered : config.initialBackoff ≤ config.maxBackoff) (failures : Nat) :
    config.largestDelay failures ≤ config.cap failures := by
  have nonneg : 0 ≤ ⌊config.cap failures * 1000⌋ := by
    apply Int.floor_nonneg.mpr
    linarith [config.cap_nonneg positive ordered failures]
  have castEq : (⌊config.cap failures * 1000⌋.toNat : ℚ) = (⌊config.cap failures * 1000⌋ : ℚ) := by
    exact_mod_cast Int.toNat_of_nonneg nonneg
  have below := Int.floor_le (config.cap failures * 1000)
  unfold largestDelay
  rw [castEq, div_le_iff₀ (by norm_num)]
  exact below

private theorem cap_mono (positive : 0 < config.initialBackoff) : Monotone config.cap := by
  intro failures more fewer
  apply min_le_min_left
  apply mul_le_mul_of_nonneg_left _ positive.le
  apply pow_le_pow_right₀ (by norm_num)
  exact min_le_min_right 16 fewer

private theorem largestDelay_mono (positive : 0 < config.initialBackoff) :
    Monotone config.largestDelay := by
  intro failures more fewer
  have caps := config.cap_mono positive fewer
  have floors : ⌊config.cap failures * 1000⌋ ≤ ⌊config.cap more * 1000⌋ := by
    apply Int.floor_le_floor
    linarith
  have counts : (⌊config.cap failures * 1000⌋.toNat : ℚ) ≤ (⌊config.cap more * 1000⌋.toNat : ℚ) :=
    Nat.cast_le.mpr (Int.toNat_le_toNat floors)
  unfold largestDelay
  linarith

private theorem isGreatest_delay (unnamed : error.retryAfter = none) :
    IsGreatest (Set.range (config.delay details error))
      (config.largestDelay details.consecutiveFailures) := by
  constructor
  · refine ⟨⌊config.cap details.consecutiveFailures * 1000⌋.toNat, ?_⟩
    rw [delay_drawn unnamed, Nat.mod_eq_of_lt (Nat.lt_succ_self _)]
    rfl
  · rintro delay ⟨draw, rfl⟩
    have within : draw % (⌊config.cap details.consecutiveFailures * 1000⌋.toNat + 1) ≤
        ⌊config.cap details.consecutiveFailures * 1000⌋.toNat :=
      Nat.lt_succ_iff.mp (Nat.mod_lt draw (Nat.succ_pos _))
    have counts : ((draw % (⌊config.cap details.consecutiveFailures * 1000⌋.toNat + 1) : Nat) : ℚ) ≤
        (⌊config.cap details.consecutiveFailures * 1000⌋.toNat : ℚ) := Nat.cast_le.mpr within
    rw [delay_drawn unnamed]
    unfold largestDelay
    linarith

private theorem delay_named {seconds : ℚ} (named : error.retryAfter = some seconds) (draw : Nat) :
    config.delay details error draw = min config.maxBackoff (max 0 seconds) := by
  unfold delay
  rw [named]

private theorem delay_nonneg (positive : 0 < config.initialBackoff)
    (ordered : config.initialBackoff ≤ config.maxBackoff) (draw : Nat) :
    0 ≤ config.delay details error draw := by
  cases named : error.retryAfter with
  | none =>
      rw [delay_drawn named]
      positivity
  | some seconds =>
      rw [delay_named named]
      apply le_min
      · linarith
      · exact le_max_left 0 seconds

theorem delay_le_cap (positive : 0 < config.initialBackoff)
    (ordered : config.initialBackoff ≤ config.maxBackoff) (unnamed : error.retryAfter = none)
    (draw : Nat) : config.delay details error draw ≤ config.cap details.consecutiveFailures := by
  have below : config.delay details error draw ≤ config.largestDelay details.consecutiveFailures :=
    (isGreatest_delay unnamed).2 (Set.mem_range_self draw)
  exact below.trans (config.largestDelay_le_cap positive ordered details.consecutiveFailures)

private theorem delay_le_maxBackoff (positive : 0 < config.initialBackoff)
    (ordered : config.initialBackoff ≤ config.maxBackoff) (draw : Nat) :
    config.delay details error draw ≤ config.maxBackoff := by
  cases named : error.retryAfter with
  | none =>
      exact (config.delay_le_cap positive ordered named draw).trans (min_le_left _ _)
  | some seconds =>
      rw [delay_named named]
      exact min_le_left _ _

theorem cap_le_power (positive : 0 < config.initialBackoff) (failures : Nat) :
    config.cap failures ≤ config.initialBackoff * 2 ^ failures := by
  apply (min_le_right _ _).trans
  apply mul_le_mul_of_nonneg_left _ positive.le
  apply pow_le_pow_right₀ (by norm_num)
  exact min_le_left failures 16

private theorem exists_largest_delay (positive : 0 < config.initialBackoff)
    (error : TransferError) :
    ∃ largest : Nat → ℚ, Monotone largest ∧ ∀ details : JobRow,
      IsGreatest (Set.range (config.delay details error))
        (largest details.consecutiveFailures) := by
  cases named : error.retryAfter with
  | none =>
      exact ⟨config.largestDelay, config.largestDelay_mono positive,
        fun details => isGreatest_delay named⟩
  | some seconds =>
      refine ⟨fun _ => min config.maxBackoff (max 0 seconds), monotone_const, fun details => ?_⟩
      have constant : config.delay details error = fun _ => min config.maxBackoff (max 0 seconds) :=
        funext (delay_named named)
      rw [constant, Set.range_const]
      exact isGreatest_singleton

private theorem recorded_of_retries {current : Instant}
    (retries : config.Retries details error current) :
    config.recorded details error current = error := by
  have unspent : config.integrityRule details (config.safeError error.message) error = error := by
    unfold integrityRule
    apply if_neg
    intro spent
    exact absurd (retries.integrity spent.1) (not_lt.mpr spent.2)
  have progressed : config.noProgressRule details (config.safeError error.message) current error =
      error := by
    unfold noProgressRule
    apply if_neg
    intro stalled
    exact absurd retries.progress (not_lt.mpr stalled.2)
  have inTime : ¬ config.Overdue details current := by
    rintro ⟨limited, started, startedEq, late⟩
    exact absurd (retries.overall limited started startedEq) (not_lt.mpr late)
  unfold recorded
  dsimp only
  rw [unspent, progressed, overallRule_inTime inTime]

end ManagerConfig

/-- A failure at one instant is due again, after this delay, at the other. -/
structure ManagerConfig.DueInTime (config : ManagerConfig) (written : Instant) (delay : ℚ)
    (due : Instant) : Prop where
  due_eq : due = written + timedelta delay
  nonneg : 0 ≤ delay
  le_maxBackoff : delay ≤ config.maxBackoff
  not_before : written ≤ due
  not_after : due ≤ written + timedelta config.maxBackoff
  rounding : |elapsed written due - delay| ≤ 1 / 2000000

private theorem elapsed_timedelta (written : Instant) (delay : ℚ) :
    elapsed written (written + timedelta delay) = (timedelta delay : ℚ) / 1000000 := by
  unfold elapsed
  rw [add_sub_cancel_left]

private theorem ManagerConfig.dueInTime {config : ManagerConfig} {delay : ℚ} (nonneg : 0 ≤ delay)
    (within : delay ≤ config.maxBackoff) (written : Instant) :
    config.DueInTime written delay (written + timedelta delay) where
  due_eq := rfl
  nonneg := nonneg
  le_maxBackoff := within
  not_before := Int.le_add_of_nonneg_right (timedelta_nonneg nonneg)
  not_after := Int.add_le_add_left (timedelta_mono within) written
  rounding := by
    rw [elapsed_timedelta]
    exact abs_timedelta_sub_le delay

private theorem ManagerConfig.elapsed_delay {config : ManagerConfig} {error : TransferError}
    (unnamed : error.retryAfter = none) (details : JobRow) (draw : Nat) (written : Instant) :
    elapsed written (written + timedelta (config.delay details error draw)) =
      config.delay details error draw := by
  rw [elapsed_timedelta, delay_drawn unnamed, timedelta_milliseconds]
  generalize draw % _ = count
  push_cast
  ring

/-- A retry is due no later than the largest backoff after the failure, and the largest delay
does not fall with the number of failures. -/
theorem retry_due_in_time {config : ManagerConfig} (positive : 0 < config.initialBackoff)
    (ordered : config.initialBackoff ≤ config.maxBackoff) :
    (∀ (store : Store) (job token : String) (row details : JobRow) (error : TransferError)
      (read written : Instant) (draw : Nat),
      store.jobs.find? job = some row → row.claimToken = some token →
      (config.failure details error read draw).retryable = true →
      ∃ now due,
        ((Transaction.call job token (.failOrRetry (config.failure details error read draw))
          written).commit store).jobs.find? job = some now ∧
        now.state = .retryWait ∧ now.nextRetryAt = some due ∧
        config.DueInTime written (config.delay details error draw) due ∧
        (error.retryAfter = none →
          config.delay details error draw ≤
              config.initialBackoff * 2 ^ details.consecutiveFailures ∧
            elapsed written due = config.delay details error draw)) ∧
      ∀ error : TransferError, ∃ largest : Nat → ℚ, Monotone largest ∧
        ∀ details : JobRow, IsGreatest (Set.range (config.delay details error))
          (largest details.consecutiveFailures) := by
  constructor
  · intro store job token row details error read written draw found holds retried
    have retries : config.Retries details error read :=
      ManagerConfig.recorded_retryable.mp retried
    have same := ManagerConfig.recorded_of_retries retries
    have delayEq : (config.failure details error read draw).delay =
        some (config.delay details error draw) := by
      unfold ManagerConfig.failure
      dsimp only
      rw [same]
    have nonneg : 0 ≤ config.delay details error draw :=
      ManagerConfig.delay_nonneg positive ordered draw
    have within : config.delay details error draw ≤ config.maxBackoff :=
      ManagerConfig.delay_le_maxBackoff positive ordered draw
    refine ⟨_, written + timedelta (config.delay details error draw),
      Transaction.find?_failOrRetry found holds, if_pos retried, ?_,
      ManagerConfig.dueInTime nonneg within written, ?_⟩
    · unfold JobRow.failOrRetry
      dsimp only
      rw [if_pos retried, delayEq]
      rfl
    · intro unnamed
      constructor
      · exact (config.delay_le_cap positive ordered unnamed draw).trans
          (config.cap_le_power positive details.consecutiveFailures)
      · exact config.elapsed_delay unnamed details draw written
  · exact config.exists_largest_delay positive

theorem retry_due_in_time_sample :
    0 < sampleConfig.initialBackoff ∧ sampleConfig.initialBackoff ≤ sampleConfig.maxBackoff ∧
      (∃ (store : Store) (now : JobRow) (due : Instant),
        store.jobs.find? "job" = some now ∧ now.nextRetryAt = some due ∧ 3000000 ≤ due ∧
          due ≤ 3000000 + timedelta 60) ∧
      ∃ largest : Nat → ℚ, Monotone largest ∧
        ∀ details : JobRow, IsGreatest (Set.range (sampleConfig.delay details
          { message := "connection reset", code := "registry_unavailable", retryable := true,
            retryAfter := some 86400 })) (largest details.consecutiveFailures) := by
  obtain ⟨positive, ordered⟩ := sampleConfig_valid.backoff
  have both := retry_due_in_time positive ordered
  obtain ⟨system, row, -, found, holds, -, progress, -⟩ := exists_claimed_job
  generalize errorEq :
    ({ message := "connection reset", code := "registry_unavailable", retryable := true,
       retryAfter := some 86400 } : TransferError) = error
  have retries : sampleConfig.Retries row error 0 := by
    subst errorEq
    constructor
    · rfl
    · intro mismatch
      exact absurd mismatch (by decide)
    · rw [progress]
      norm_num [elapsed, sampleConfig]
    · intro limited
      exact absurd rfl limited
  obtain ⟨now, due, changed, -, dueEq, inTime, -⟩ := both.1 system.store "job" "token" row row error
    0 3000000 0 found holds (ManagerConfig.recorded_retryable.mpr retries)
  exact ⟨positive, ordered, ⟨_, now, due, changed, dueEq, inTime.not_before, inTime.not_after⟩,
    both.2 error⟩

end OciTransfer
