import CxxDead.RunProcess
import CxxDead.Lib.Checked
/-!
# Time limits

`--tu-timeout` and `--index-timeout` count whole seconds, the options count milliseconds,
and next to the clock everything is converted to nanoseconds. Here each operation is checked
in the signed 64-bit counts that it is made in.

- `timedOut_eq_some`: what is computed is what the exact times say.
- `withinRange_iff`: the limits with which every operation is in range.
-/

namespace CxxDead

open Lib Indexer Process

namespace CommandLine

/-! ## The command line -/

/-- `std::from_chars` for a `std::uint64_t`: the number, and what is left of the text. -/
def fromCharsUnsigned (text : Bytes) : Option (Nat × Bytes) :=
  let digits := text.takeWhile Json.isDigit
  let number := digits.foldl (fun number c => 10 * number + (c.toNat - (ch '0').toNat)) 0
  if digits = [] ∨ 2 ^ 64 ≤ number then none else some (number, text.dropWhile Json.isDigit)

/-- The branch of `parse_cli` for `--tu-timeout` and `--index-timeout`; the limit in seconds. -/
def parseTimeLimit (argument value : Bytes) : Except Exception Nat :=
  let invalid := .error (.runtimeError (argument ++ lit " must be a positive whole number of seconds"))
  match fromCharsUnsigned value with
  | some (seconds, []) => if seconds = 0 ∨ (2 ^ 63 - 1) / 1000 < seconds then invalid else .ok seconds
  | _ => invalid

/-- The limit of an option that may be missing; no limit is zero. -/
def timeLimit (argument : Bytes) : Option Bytes → Except Exception Nat
  | none => .ok 0
  | some value => parseTimeLimit argument value

example : timeLimit (lit "--tu-timeout") (some (lit "90")) = .ok 90 := by rfl

end CommandLine

namespace TimeLimits

/-! ## What is computed with the limits -/

/-- The clock as it is read for a translation unit, in this order and in nanoseconds. -/
structure Readings where
  indexStarted : Int
  unitStarted : Int
  unitValidated : Int
  indexValidated : Int
  launched : Int
  processStarted : Int
  polled : Int
  unitCollected : Int
  indexCollected : Int
  ordered : 0 ≤ indexStarted ∧ indexStarted ≤ unitStarted ∧ unitStarted ≤ unitValidated ∧
    unitValidated ≤ indexValidated ∧ indexValidated ≤ launched ∧ launched ≤ processStarted ∧
    processStarted ≤ polled ∧ polled ≤ unitCollected ∧ unitCollected ≤ indexCollected ∧ indexCollected ≤ 2 ^ 62

/-- `now - started >= limit`, where there is a limit. -/
def reached (limit started now : Int) : Option Bool :=
  if 0 < limit then do
    let elapsed ← checked (now - started)
    let limit ← checked (nanoseconds limit)
    pure (decide (limit ≤ elapsed))
  else pure false

/-- The process's limit, or nothing where the index's time is up. -/
def processLimit (unit index started launched : Int) : Option (Option (Option Int)) :=
  let timeout := if 0 < unit then some unit else none
  if 0 < index then do
    let difference ← checked (launched - started)
    let elapsed := difference.tdiv 1000000
    if index ≤ elapsed then pure none
    else
      let remaining ← checked (index - elapsed)
      pure (some (if timeout.all (fun timeout => decide (remaining < timeout)) then some remaining else timeout))
  else pure (some timeout)

/-- The deadline of `run_process`, and the time left for `poll`. -/
def pastDeadline (timeout : Option Int) (started polled : Int) : Option Bool :=
  match timeout with
  | none => pure false
  | some timeout => do
    let timeout ← checked (nanoseconds timeout)
    let deadline ← checked (started + timeout)
    if deadline ≤ polled then pure true
    else
      let _ ← checked (deadline - polled)
      pure false

def processTimedOut (unit index : Int) (r : Readings) : Option Bool := do
  match ← processLimit unit index r.indexStarted r.launched with
  | none => pure true
  | some timeout => pastDeadline timeout r.processStarted r.polled

/-- Whether a unit runs into one of the options' limits. -/
def unitTimedOut (unit index : Int) (r : Readings) : Option Bool := do
  let unitValidated ← reached unit r.unitStarted r.unitValidated
  let indexValidated ← reached index r.indexStarted r.indexValidated
  let process ← processTimedOut unit index r
  let unitCollected ← reached unit r.unitStarted r.unitCollected
  let indexCollected ← reached index r.indexStarted r.indexCollected
  pure (unitValidated || indexValidated || process || unitCollected || indexCollected)

/-- The same with the limits of the command line, which are in seconds. -/
def timedOut (unit index : Nat) (r : Readings) : Option Bool := do
  let unit ← checked (unit * 1000)
  let index ← checked (index * 1000)
  unitTimedOut unit index r

/-! ## The exact times -/

/-- The whole milliseconds of the index when the process is launched. -/
def Readings.elapsed (r : Readings) : Int := (r.launched - r.indexStarted).tdiv 1000000

def ProcessTimesOut (unit index : Int) (r : Readings) : Prop :=
  (0 < index ∧ (index ≤ r.elapsed ∨ nanoseconds (index - r.elapsed) ≤ r.polled - r.processStarted)) ∨
    (0 < unit ∧ nanoseconds unit ≤ r.polled - r.processStarted)

/-- A unit runs into a limit, without a bound on the numbers; limits in milliseconds. -/
def TimesOut (unit index : Int) (r : Readings) : Prop :=
  (0 < unit ∧ (nanoseconds unit ≤ r.unitValidated - r.unitStarted ∨
      nanoseconds unit ≤ r.unitCollected - r.unitStarted)) ∨
    (0 < index ∧ (nanoseconds index ≤ r.indexValidated - r.indexStarted ∨
      nanoseconds index ≤ r.indexCollected - r.indexStarted)) ∨
    ProcessTimesOut unit index r

section Exact
variable {unit index : Int} {r : Readings} {b : Bool}

theorem reached_eq_some {limit started now : Int} (h : reached limit started now = some b) :
    b = true ↔ 0 < limit ∧ nanoseconds limit ≤ now - started := by
  unfold reached at h
  split at h
  · rename_i hlimit
    obtain ⟨elapsed, helapsed, h⟩ := Option.bind_eq_some_iff.1 h
    obtain ⟨limit', hlimit', h⟩ := Option.bind_eq_some_iff.1 h
    obtain ⟨-, rfl⟩ := checked_eq_some_iff.1 helapsed
    obtain ⟨-, rfl⟩ := checked_eq_some_iff.1 hlimit'
    obtain rfl := Option.some.inj h
    rw [decide_eq_true_iff, and_iff_right hlimit]
  · rename_i hlimit
    obtain rfl := Option.some.inj h
    exact iff_of_false Bool.false_ne_true fun hreached => hlimit hreached.1

theorem pastDeadline_eq_some {timeout : Option Int} {started polled : Int}
    (h : pastDeadline timeout started polled = some b) :
    b = true ↔ ∃ limit, timeout = some limit ∧ nanoseconds limit ≤ polled - started := by
  cases timeout with
  | none =>
    obtain rfl := Option.some.inj h
    exact iff_of_false Bool.false_ne_true fun ⟨_, hnone, _⟩ => (nomatch hnone)
  | some limit =>
    obtain ⟨count, hcount, h⟩ := Option.bind_eq_some_iff.1 h
    obtain ⟨deadline, hdeadline, h⟩ := Option.bind_eq_some_iff.1 h
    obtain ⟨-, rfl⟩ := checked_eq_some_iff.1 hcount
    obtain ⟨-, rfl⟩ := checked_eq_some_iff.1 hdeadline
    simp only [Option.some_inj, exists_eq_left']
    split at h
    · rename_i hpast
      obtain rfl := Option.some.inj h
      exact iff_of_true rfl (by omega)
    · rename_i hpast
      obtain ⟨remaining, -, h⟩ := Option.bind_eq_some_iff.1 h
      obtain rfl := Option.some.inj h
      exact iff_of_false Bool.false_ne_true (by omega)

/-- The process gets the shorter of the limits. -/
theorem processLimit_eq_some {limit : Option (Option Int)}
    (h : processLimit unit index r.indexStarted r.launched = some limit) :
    (limit = none ∧ 0 < index ∧ index ≤ r.elapsed) ∨
      ∃ timeout, limit = some timeout ∧ ¬ (0 < index ∧ index ≤ r.elapsed) ∧
        ∀ t, (∃ least, timeout = some least ∧ nanoseconds least ≤ t) ↔
          (0 < index ∧ nanoseconds (index - r.elapsed) ≤ t) ∨ (0 < unit ∧ nanoseconds unit ≤ t) := by
  unfold processLimit at h
  dsimp only at h
  by_cases hindex : 0 < index
  · rw [if_pos hindex] at h
    obtain ⟨difference, hdifference, h⟩ := Option.bind_eq_some_iff.1 h
    obtain ⟨-, rfl⟩ := checked_eq_some_iff.1 hdifference
    split at h
    · rename_i hover
      obtain rfl := Option.some.inj h
      exact .inl ⟨rfl, hindex, hover⟩
    · rename_i hleft
      obtain ⟨remaining, hremaining, h⟩ := Option.bind_eq_some_iff.1 h
      obtain ⟨-, rfl⟩ := checked_eq_some_iff.1 hremaining
      obtain rfl := Option.some.inj h
      refine .inr ⟨_, rfl, fun hover => hleft hover.2, fun t => ?_⟩
      unfold nanoseconds Readings.elapsed
      generalize (r.launched - r.indexStarted).tdiv 1000000 = elapsed
      by_cases hunit : 0 < unit
      · rw [if_pos hunit, Option.all_some]
        by_cases hless : index - elapsed < unit
        · rw [if_pos (decide_eq_true hless)]
          simp only [Option.some_inj, exists_eq_left']
          omega
        · rw [if_neg (by rwa [decide_eq_true_iff])]
          simp only [Option.some_inj, exists_eq_left']
          omega
      · rw [if_neg hunit, Option.all_none, if_pos rfl]
        simp only [Option.some_inj, exists_eq_left']
        omega
  · rw [if_neg hindex] at h
    obtain rfl := Option.some.inj h
    refine .inr ⟨_, rfl, fun hover => hindex hover.1, fun t => ?_⟩
    by_cases hunit : 0 < unit
    · rw [if_pos hunit]
      simp only [Option.some_inj, exists_eq_left']
      omega
    · rw [if_neg hunit]
      refine iff_of_false (fun ⟨_, hnone, _⟩ => (nomatch hnone)) ?_
      omega

theorem processTimedOut_eq_some (h : processTimedOut unit index r = some b) :
    b = true ↔ ProcessTimesOut unit index r := by
  obtain ⟨limit, hlimit, h⟩ := Option.bind_eq_some_iff.1 h
  unfold ProcessTimesOut
  rcases processLimit_eq_some hlimit with ⟨rfl, hindex, hover⟩ | ⟨timeout, rfl, hleft, hleast⟩
  · obtain rfl := Option.some.inj h
    exact iff_of_true rfl (.inl ⟨hindex, .inl hover⟩)
  · rw [pastDeadline_eq_some h, hleast]
    constructor
    · rintro (⟨hindex, hpast⟩ | hpast)
      · exact .inl ⟨hindex, .inr hpast⟩
      · exact .inr hpast
    · rintro (⟨hindex, hover | hpast⟩ | hpast)
      · exact absurd ⟨hindex, hover⟩ hleft
      · exact .inl ⟨hindex, hpast⟩
      · exact .inr hpast

theorem unitTimedOut_eq_some (h : unitTimedOut unit index r = some b) : b = true ↔ TimesOut unit index r := by
  obtain ⟨unitValidated, huv, h⟩ := Option.bind_eq_some_iff.1 h
  obtain ⟨indexValidated, hiv, h⟩ := Option.bind_eq_some_iff.1 h
  obtain ⟨process, hprocess, h⟩ := Option.bind_eq_some_iff.1 h
  obtain ⟨unitCollected, huc, h⟩ := Option.bind_eq_some_iff.1 h
  obtain ⟨indexCollected, hic, h⟩ := Option.bind_eq_some_iff.1 h
  obtain rfl := Option.some.inj h
  simp only [Bool.or_eq_true, reached_eq_some huv, reached_eq_some hiv, processTimedOut_eq_some hprocess,
    reached_eq_some huc, reached_eq_some hic, TimesOut]
  tauto

/-- Where every operation is in range, the exact times decide. -/
theorem timedOut_eq_some {unit index : Nat} (h : timedOut unit index r = some b) :
    b = true ↔ TimesOut (unit * 1000) (index * 1000) r := by
  unfold timedOut at h
  obtain ⟨unit', hunit, h⟩ := Option.bind_eq_some_iff.1 h
  obtain ⟨index', hindex, h⟩ := Option.bind_eq_some_iff.1 h
  rw [(checked_eq_some_iff.1 hunit).2, (checked_eq_some_iff.1 hindex).2]
  exact unitTimedOut_eq_some h

end Exact

/-! ## The run's computations

What a run of the indexer and the loop of `run_process` compute without a bound is what is computed here. -/

theorem reached_run {limit : Int} {started now : Nat} {b : Bool} (h : reached limit started now = some b) :
    b = Invocation.reached limit started now := by
  rw [Bool.eq_iff_iff, reached_eq_some h, Invocation.reached, Bool.and_eq_true, decide_eq_true_iff, decide_eq_true_iff]
  rfl

theorem processLimit_run {i : Invocation} {events : UnitEvents i.rules} {limit : Option (Option Int)}
    (h : processLimit i.options.translationUnitTimeout i.options.indexTimeout i.environment.started events.launched =
      some limit) :
    limit = if lateForProcess i events then none else some (processTimeout i events).1 := by
  unfold processLimit at h
  unfold lateForProcess processTimeout elapsedMilliseconds
  dsimp only at h ⊢
  by_cases hindex : 0 < i.options.indexTimeout
  · rw [if_pos hindex] at h
    obtain ⟨difference, hdifference, h⟩ := Option.bind_eq_some_iff.1 h
    obtain ⟨-, rfl⟩ := checked_eq_some_iff.1 hdifference
    rw [decide_eq_true hindex, Bool.true_and]
    simp only [and_iff_right hindex]
    split at h
    · rename_i hover
      rw [if_pos (decide_eq_true hover)]
      exact (Option.some.inj h).symm
    · rename_i hleft
      obtain ⟨remaining, hremaining, h⟩ := Option.bind_eq_some_iff.1 h
      obtain ⟨-, rfl⟩ := checked_eq_some_iff.1 hremaining
      rw [if_neg (by rwa [decide_eq_true_iff]), ← Option.some.inj h, apply_ite Prod.fst]
  · rw [if_neg hindex] at h
    rw [decide_eq_false hindex, Bool.false_and, if_neg Bool.false_ne_true, if_neg fun hset => hindex hset.1]
    exact (Option.some.inj h).symm

theorem pastDeadline_run {settings : ProcessSettings} {started polled : Int} {b : Bool}
    (h : pastDeadline settings.timeout started polled = some b) :
    b = (deadline settings started).any fun deadline => decide (deadline ≤ polled) := by
  rw [Bool.eq_iff_iff, pastDeadline_eq_some h, deadline, Option.any_map, Option.any_eq_true]
  refine exists_congr fun limit => and_congr_right fun _ => ?_
  rw [decide_eq_true_iff]
  omega

/-! ## The range -/

section Range
variable {unit index : Int} {r : Readings}

theorem reached_fits {limit started now : Int} (hlimit : Fits (nanoseconds limit)) (hclock : Fits (now - started)) :
    ∃ b, reached limit started now = some b := by
  unfold reached
  split
  · rw [checked_of_fits hclock, checked_of_fits hlimit]
    exact ⟨_, rfl⟩
  · exact ⟨_, rfl⟩

theorem fits_of_reached {limit started now : Int} {b : Bool} (h : reached limit started now = some b)
    (hlimit : 0 < limit) : Fits (nanoseconds limit) := by
  rw [reached, if_pos hlimit] at h
  obtain ⟨elapsed, -, h⟩ := Option.bind_eq_some_iff.1 h
  obtain ⟨limit', hlimit', -⟩ := Option.bind_eq_some_iff.1 h
  exact (checked_eq_some_iff.1 hlimit').1

/-- A limit that fits behind every reading of the clock. -/
def FitsBehind (limit : Int) : Prop := 0 < limit ∧ nanoseconds limit < 2 ^ 62

theorem Readings.elapsed_nonneg (r : Readings) : 0 ≤ r.elapsed := by
  have hordered := r.ordered
  exact Int.tdiv_nonneg (by omega) (by decide)

theorem processLimit_fits (hindex : Fits index)
    (h : (¬ 0 < unit ∧ ¬ 0 < index) ∨ FitsBehind unit ∨ FitsBehind index) :
    ∃ limit, processLimit unit index r.indexStarted r.launched = some limit ∧
      ∀ t, limit = some (some t) → FitsBehind t := by
  have hordered := r.ordered
  have helapsed := r.elapsed_nonneg
  unfold Readings.elapsed at helapsed
  unfold processLimit
  dsimp only
  by_cases hset : 0 < index
  · rw [if_pos hset, checked_of_fits (show Fits (r.launched - r.indexStarted) from ⟨by omega, by omega⟩)]
    dsimp only [Option.bind_eq_bind, Option.bind_some]
    generalize (r.launched - r.indexStarted).tdiv 1000000 = elapsed at helapsed
    split
    · exact ⟨none, rfl, fun t hnone => (nomatch hnone)⟩
    · rename_i hleft
      rw [checked_of_fits (show Fits (index - elapsed) from ⟨by omega, by unfold Fits at hindex; omega⟩)]
      refine ⟨_, rfl, fun t ht => ?_⟩
      unfold FitsBehind nanoseconds at h ⊢
      have ht := Option.some.inj ht
      by_cases hunitSet : 0 < unit
      · rw [if_pos hunitSet, Option.all_some] at ht
        by_cases hless : index - elapsed < unit
        · rw [if_pos (decide_eq_true hless)] at ht
          obtain rfl := Option.some.inj ht
          omega
        · rw [if_neg (by rwa [decide_eq_true_iff])] at ht
          obtain rfl := Option.some.inj ht
          omega
      · rw [if_neg hunitSet, Option.all_none, if_pos rfl] at ht
        obtain rfl := Option.some.inj ht
        omega
  · rw [if_neg hset]
    refine ⟨_, rfl, fun t ht => ?_⟩
    have ht := Option.some.inj ht
    by_cases hunitSet : 0 < unit
    · rw [if_pos hunitSet] at ht
      obtain rfl := Option.some.inj ht
      unfold FitsBehind at h ⊢
      omega
    · rw [if_neg hunitSet] at ht
      cases ht

theorem pastDeadline_fits {timeout : Option Int} (h : ∀ t, timeout = some t → FitsBehind t) :
    ∃ b, pastDeadline timeout r.processStarted r.polled = some b := by
  have hordered := r.ordered
  cases timeout with
  | none => exact ⟨_, rfl⟩
  | some t =>
    obtain ⟨hpos, hsmall⟩ := h t rfl
    have hcount : 0 < nanoseconds t := by
      unfold nanoseconds
      omega
    unfold pastDeadline
    dsimp only
    rw [checked_of_fits (show Fits (nanoseconds t) from ⟨by omega, by omega⟩)]
    dsimp only [Option.bind_eq_bind, Option.bind_some]
    rw [checked_of_fits (show Fits (r.processStarted + nanoseconds t) from ⟨by omega, by omega⟩)]
    dsimp only [Option.bind_some]
    split
    · exact ⟨_, rfl⟩
    · rw [checked_of_fits ⟨by omega, by omega⟩]
      exact ⟨_, rfl⟩

theorem processTimedOut_fits (hindex : Fits index)
    (h : (¬ 0 < unit ∧ ¬ 0 < index) ∨ FitsBehind unit ∨ FitsBehind index) : ∃ b, processTimedOut unit index r = some b := by
  obtain ⟨limit, hlimit, hbehind⟩ := processLimit_fits (r := r) hindex h
  unfold processTimedOut
  rw [hlimit]
  cases limit with
  | none => exact ⟨_, rfl⟩
  | some timeout => exact pastDeadline_fits fun t ht => hbehind t (congrArg some ht)

theorem fits_of_pastDeadline {limit started polled : Int} {b : Bool}
    (h : pastDeadline (some limit) started polled = some b) : Fits (started + nanoseconds limit) := by
  obtain ⟨count, hcount, h⟩ := Option.bind_eq_some_iff.1 h
  obtain ⟨deadline, hdeadline, -⟩ := Option.bind_eq_some_iff.1 h
  obtain ⟨-, rfl⟩ := checked_eq_some_iff.1 hcount
  exact (checked_eq_some_iff.1 hdeadline).1

/-- The clock has its last value throughout. -/
def latest : Readings where
  indexStarted := 2 ^ 62
  unitStarted := 2 ^ 62
  unitValidated := 2 ^ 62
  indexValidated := 2 ^ 62
  launched := 2 ^ 62
  processStarted := 2 ^ 62
  polled := 2 ^ 62
  unitCollected := 2 ^ 62
  indexCollected := 2 ^ 62
  ordered := by decide

theorem fitsBehind_of_latest {b : Bool} (h : processTimedOut unit index latest = some b) :
    (¬ 0 < unit ∧ ¬ 0 < index) ∨ FitsBehind unit ∨ FitsBehind index := by
  have helapsed : latest.elapsed = 0 := by decide
  obtain ⟨limit, hlimit, h⟩ := Option.bind_eq_some_iff.1 h
  rcases processLimit_eq_some hlimit with ⟨rfl, hindex, hover⟩ | ⟨timeout, rfl, -, hleast⟩
  · rw [helapsed] at hover
    omega
  · rw [helapsed, Int.sub_zero] at hleast
    by_cases hset : 0 < unit ∨ 0 < index
    · obtain ⟨least, rfl, -⟩ : ∃ least, timeout = some least ∧
          nanoseconds least ≤ max (nanoseconds unit) (nanoseconds index) := by
        rw [hleast]
        rcases hset with hunit | hindex
        · exact .inr ⟨hunit, Int.le_max_left _ _⟩
        · exact .inl ⟨hindex, Int.le_max_right _ _⟩
      have hfits := (fits_of_pastDeadline h).2
      have hsmall : nanoseconds least < 2 ^ 62 := by
        have hlatest : latest.processStarted = 2 ^ 62 := rfl
        omega
      rcases (hleast (nanoseconds least)).1 ⟨least, rfl, Int.le_refl _⟩ with ⟨hindex, hle⟩ | ⟨hunit, hle⟩
      · exact .inr (.inr ⟨hindex, lt_of_le_of_lt hle hsmall⟩)
      · exact .inr (.inl ⟨hunit, lt_of_le_of_lt hle hsmall⟩)
    · omega

end Range

/-! ## Accepted limits -/

/-- Each limit, in seconds, can be counted in nanoseconds, and one of them behind every reading of the clock. -/
def WithinRange (unit index : Nat) : Prop :=
  unit ≤ 9223372036 ∧ index ≤ 9223372036 ∧
    ((unit = 0 ∧ index = 0) ∨ (0 < unit ∧ unit ≤ 4611686018) ∨ (0 < index ∧ index ≤ 4611686018))

/-- Limits that are both missing or both there, and the second is no shorter. -/
def NoShorter (limit longer : Nat) : Prop := (limit = 0 ∧ longer = 0) ∨ (0 < limit ∧ limit ≤ longer)

structure Safe (unit index : Nat) : Prop where
  inRange : ∀ r, ∃ b, timedOut unit index r = some b
  notEarlier : ∀ r unit' index', NoShorter unit' unit → NoShorter index' index → timedOut unit index r = some true →
    timedOut unit' index' r = some true

theorem timedOut_inRange {unit index : Nat} (h : WithinRange unit index) (r : Readings) :
    ∃ b, timedOut unit index r = some b := by
  obtain ⟨hunit, hindex, hbehind⟩ := h
  have hordered := r.ordered
  have hfits : ∀ n : Nat, n ≤ 9223372036 → Fits (n * 1000) ∧ Fits (nanoseconds (n * 1000)) := by
    intro n hn
    unfold Fits nanoseconds
    omega
  have hprocess : (¬ 0 < (unit * 1000 : Int) ∧ ¬ 0 < (index * 1000 : Int)) ∨ FitsBehind (unit * 1000) ∨
      FitsBehind (index * 1000) := by
    unfold FitsBehind nanoseconds
    omega
  obtain ⟨unitValidated, huv⟩ := reached_fits (hfits unit hunit).2
    (show Fits (r.unitValidated - r.unitStarted) from ⟨by omega, by omega⟩)
  obtain ⟨indexValidated, hiv⟩ := reached_fits (hfits index hindex).2
    (show Fits (r.indexValidated - r.indexStarted) from ⟨by omega, by omega⟩)
  obtain ⟨process, hp⟩ := processTimedOut_fits (r := r) (hfits index hindex).1 hprocess
  obtain ⟨unitCollected, huc⟩ := reached_fits (hfits unit hunit).2
    (show Fits (r.unitCollected - r.unitStarted) from ⟨by omega, by omega⟩)
  obtain ⟨indexCollected, hic⟩ := reached_fits (hfits index hindex).2
    (show Fits (r.indexCollected - r.indexStarted) from ⟨by omega, by omega⟩)
  unfold timedOut
  rw [checked_of_fits (hfits unit hunit).1, checked_of_fits (hfits index hindex).1]
  dsimp only [Option.bind_eq_bind, Option.bind_some]
  unfold unitTimedOut
  rw [huv, hiv, hp, huc, hic]
  exact ⟨_, rfl⟩

theorem fits_of_timedOut {unit index : Nat} {r : Readings} {b : Bool} (h : timedOut unit index r = some b) :
    (0 < unit → Fits (nanoseconds (unit * 1000))) ∧ (0 < index → Fits (nanoseconds (index * 1000))) ∧
      ∃ process, processTimedOut (unit * 1000) (index * 1000) r = some process := by
  unfold timedOut at h
  obtain ⟨unit', hunit, h⟩ := Option.bind_eq_some_iff.1 h
  obtain ⟨index', hindex, h⟩ := Option.bind_eq_some_iff.1 h
  rw [(checked_eq_some_iff.1 hunit).2, (checked_eq_some_iff.1 hindex).2]
  obtain ⟨unitValidated, huv, h⟩ := Option.bind_eq_some_iff.1 h
  obtain ⟨indexValidated, hiv, h⟩ := Option.bind_eq_some_iff.1 h
  obtain ⟨process, hprocess, -⟩ := Option.bind_eq_some_iff.1 h
  refine ⟨fun hpos => fits_of_reached huv ?_, fun hpos => fits_of_reached hiv ?_, process, hprocess⟩
  · rw [← (checked_eq_some_iff.1 hunit).2]
    omega
  · rw [← (checked_eq_some_iff.1 hindex).2]
    omega

/-- A longer limit is not reached earlier. -/
theorem TimesOut.shorter {unit index unit' index' : Nat} {r : Readings} (hunit : NoShorter unit' unit)
    (hindex : NoShorter index' index) (h : TimesOut (unit * 1000) (index * 1000) r) :
    TimesOut (unit' * 1000) (index' * 1000) r := by
  unfold TimesOut ProcessTimesOut nanoseconds at h ⊢
  unfold NoShorter at hunit hindex
  rcases h with h | h | h | h
  · left
    omega
  · right; left
    omega
  · right; right; left
    omega
  · right; right; right
    omega

theorem WithinRange.shorter {unit index unit' index' : Nat} (hunit : NoShorter unit' unit)
    (hindex : NoShorter index' index) (h : WithinRange unit index) : WithinRange unit' index' := by
  unfold WithinRange NoShorter at *
  omega

theorem safe_of_withinRange {unit index : Nat} (h : WithinRange unit index) : Safe unit index := by
  refine ⟨timedOut_inRange h, fun r unit' index' hunit hindex hlate => ?_⟩
  obtain ⟨b, hb⟩ := timedOut_inRange (h.shorter hunit hindex) r
  have hexact := ((timedOut_eq_some hlate).1 rfl).shorter hunit hindex
  rw [hb, (timedOut_eq_some hb).2 hexact]

theorem withinRange_of_safe {unit index : Nat} (h : Safe unit index) : WithinRange unit index := by
  obtain ⟨b, hb⟩ := h.inRange latest
  obtain ⟨hunit, hindex, process, hprocess⟩ := fits_of_timedOut hb
  have hbehind := fitsBehind_of_latest hprocess
  unfold Fits nanoseconds at hunit hindex
  unfold FitsBehind nanoseconds at hbehind
  unfold WithinRange
  omega

theorem parseTimeLimit_ok {argument value : Bytes} {seconds : Nat}
    (h : CommandLine.parseTimeLimit argument value = .ok seconds) :
    0 < seconds ∧ seconds ≤ (2 ^ 63 - 1) / 1000 := by
  unfold CommandLine.parseTimeLimit at h
  dsimp only at h
  split at h
  · split at h
    · cases h
    · rename_i hbounds
      obtain rfl := Except.ok.inj h
      omega
  · cases h

theorem timeLimit_fits {argument : Bytes} {value : Option Bytes} {seconds : Nat}
    (h : CommandLine.timeLimit argument value = .ok seconds) : Fits (seconds * 1000) := by
  cases value with
  | none =>
    obtain rfl := Except.ok.inj h
    decide
  | some value =>
    have hbound := (parseTimeLimit_ok h).2
    unfold Fits
    omega

/-- Every accepted limit can be counted in milliseconds. With some of them a count of nanoseconds is not in range. -/
theorem acceptedLimits_safe_iff {unitText indexText : Option Bytes} {unit index : Nat}
    (hunit : CommandLine.timeLimit (lit "--tu-timeout") unitText = .ok unit)
    (hindex : CommandLine.timeLimit (lit "--index-timeout") indexText = .ok index) :
    Fits (unit * 1000) ∧ Fits (index * 1000) ∧ (Safe unit index ↔ WithinRange unit index) :=
  ⟨timeLimit_fits hunit, timeLimit_fits hindex, withinRange_of_safe, safe_of_withinRange⟩

/-- An hour for a unit and a day for the index. -/
theorem dayLimit_safe_iff : WithinRange 3600 86400 ∧ Fits (3600 * 1000) ∧ Fits (86400 * 1000) ∧
    (Safe 3600 86400 ↔ WithinRange 3600 86400) := by
  have hunit : CommandLine.timeLimit (lit "--tu-timeout") (some (lit "3600")) = .ok 3600 := by rfl
  have hindex : CommandLine.timeLimit (lit "--index-timeout") (some (lit "86400")) = .ok 86400 := by rfl
  exact ⟨by unfold WithinRange; decide, acceptedLimits_safe_iff hunit hindex⟩

/-- Some 292 years; a product of two's complement is negative, and so before any reading of the clock. -/
theorem centuriesLimit_unsafe :
    CommandLine.timeLimit (lit "--tu-timeout") (some (lit "9223372037")) = .ok 9223372037 ∧
    timedOut 9223372037 0 latest = none ∧ Int.bmod (nanoseconds (9223372037 * 1000)) (2 ^ 64) < 0 ∧
    ¬ Safe 9223372037 0 := by
  refine ⟨by rfl, by decide, by decide, fun h => ?_⟩
  obtain ⟨b, hb⟩ := h.inRange latest
  have hnone : timedOut 9223372037 0 latest = none := by decide
  rw [hnone] at hb
  cases hb

end TimeLimits

end CxxDead
