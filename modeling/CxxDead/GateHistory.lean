import CxxDead.Comparison
/-!
# The gate over a history of runs

A project compares each run with the one before it. What the gate lets through
step by step is compared here with what it says of the first and the last run.

- `gateHistory`: the last run has new debt against the first exactly where some
  step gated it or some run in between muted it, and it stayed open since.
-/

namespace CxxDead

open Lib

/-! ## Open and muted debt -/

/-- The key's symbol is reported on and unreachable. -/
def DeadAt (g : Graph) (key : Bytes) : Prop := EligibleAt g key ∧ ¬ ReachableAt g key

/-- The key's symbol is unreachable, and neither a suppression nor the policy's
choice of classifications keeps the gate from counting it. -/
def OpenDebt (policy : DifferentialPolicy) (g : Graph) (key : Bytes) : Prop :=
  ∃ id < g.symbols.length, g.keyOf id = key ∧ isDeadSymbol g (analyzeReachability g) id = true ∧
    isSuppressed g id = false ∧ (classify g id (g.symbol id)).classification ∈ policy.classifications

/-- The key's symbol is unreachable, and one of them does. -/
def MutedDebt (policy : DifferentialPolicy) (g : Graph) (key : Bytes) : Prop :=
  ∃ id < g.symbols.length, g.keyOf id = key ∧ isDeadSymbol g (analyzeReachability g) id = true ∧
    (isSuppressed g id = true ∨ (classify g id (g.symbol id)).classification ∉ policy.classifications)

/-- The report counts the key's change as a match of the policy. -/
def DifferentialReport.Gates (report : DifferentialReport) (key : Bytes) : Prop :=
  ∃ change ∈ report.changes, change.policyMatch = true ∧ change.symbol.key = key

variable {policy : DifferentialPolicy} {g : Graph} {key : Bytes}

theorem deadAt_iff_symbol (hg : g.Inv) :
    DeadAt g key ↔ ∃ id < g.symbols.length, g.keyOf id = key ∧ isDeadSymbol g (analyzeReachability g) id = true := by
  have hdead : ∀ id, isDeadSymbol g (analyzeReachability g) id = true ↔
      eligibleSymbol (g.symbol id) = true ∧ ¬ flag (analyzeReachability g).reachable id = true := fun id => by
    simp [isDeadSymbol, eligibleSymbol_eq_isReported]
  constructor
  · rintro ⟨⟨id, hid, rfl, helig⟩, hunreachable⟩
    rw [reachableAt_iff hg hid] at hunreachable
    exact ⟨id, hid, rfl, (hdead id).2 ⟨helig, hunreachable⟩⟩
  · rintro ⟨id, hid, rfl, h⟩
    obtain ⟨helig, hunreachable⟩ := (hdead id).1 h
    exact ⟨⟨id, hid, rfl, helig⟩, by rwa [reachableAt_iff hg hid]⟩

theorem OpenDebt.deadAt (hg : g.Inv) (h : OpenDebt policy g key) : DeadAt g key := by
  obtain ⟨id, hid, hkey, hdead, -⟩ := h
  exact (deadAt_iff_symbol hg).2 ⟨id, hid, hkey, hdead⟩

/-- Debt is open or muted. -/
theorem DeadAt.open_or_muted (hg : g.Inv) (h : DeadAt g key) : OpenDebt policy g key ∨ MutedDebt policy g key := by
  obtain ⟨id, hid, hkey, hdead⟩ := (deadAt_iff_symbol hg).1 h
  cases hsuppressed : isSuppressed g id with
  | true => exact .inr ⟨id, hid, hkey, hdead, .inl hsuppressed⟩
  | false =>
    by_cases hclass : (classify g id (g.symbol id)).classification ∈ policy.classifications
    · exact .inl ⟨id, hid, hkey, hdead, hsuppressed, hclass⟩
    · exact .inr ⟨id, hid, hkey, hdead, .inr hclass⟩

/-! ## One comparison -/

section Comparison
variable {baseline current : Graph} (hnew : .newSymbol ∈ policy.changes) (hdead : .newlyUnreachable ∈ policy.changes)
include hnew hdead

/-- A policy that names both kinds of change finds the open debt that the baseline did not have. -/
theorem newDebt_iff_open :
    (∃ id, NewDebt baseline current policy id ∧ current.keyOf id = key) ↔
      OpenDebt policy current key ∧ ¬ DeadAt baseline key := by
  have hunsuppressed : ∀ id, isSuppressed current id = false ↔ ∀ s ∈ current.suppressions, s.symbol ≠ id := fun id => by
    rw [← Bool.not_eq_true, isSuppressed_iff]
    simp only [not_exists, not_and, ne_eq]
  constructor
  · rintro ⟨id, h, rfl⟩
    refine ⟨⟨id, h.valid, rfl, ?_, (hunsuppressed id).2 h.unsuppressed, h.classified⟩, fun hbefore => ?_⟩
    · have helig := h.eligible
      rw [eligibleSymbol_eq_isReported] at helig
      simp [isDeadSymbol, helig, h.unreachable]
    · rcases h.changed with ⟨-, hout⟩ | ⟨-, -, hlive⟩
      · exact hout hbefore.1
      · exact hbefore.2 hlive
  · rintro ⟨⟨id, hid, rfl, hsymbol, hsuppressed, hclass⟩, hbefore⟩
    simp only [isDeadSymbol, Bool.and_eq_true, Bool.not_eq_true'] at hsymbol
    refine ⟨id, ⟨hid, ?_, hsymbol.2, (hunsuppressed id).1 hsuppressed, hclass, ?_⟩, rfl⟩
    · rw [eligibleSymbol_eq_isReported]
      exact hsymbol.1
    · by_cases helig : EligibleAt baseline (current.keyOf id)
      · exact .inr ⟨hdead, helig, not_not.1 fun hlive => hbefore ⟨helig, hlive⟩⟩
      · exact .inl ⟨hnew, helig⟩

theorem gates_iff {baseline : GraphArtifact} {metadata : GraphArtifactMetadata} {report : DifferentialReport}
    (hb : baseline.graph.Inv) (hc : current.Inv)
    (h : differential baseline current metadata (some policy) = .ok report) :
    report.Gates key ↔ OpenDebt policy current key ∧ ¬ DeadAt baseline.graph key := by
  obtain ⟨htarget, hrecorded⟩ := differential_ok h
  have hkeys := Set.ext_iff.1 (matchingKeys hb hc htarget hrecorded.changes_eq) key
  simp only [List.coe_toFinset, Set.mem_ofPred_eq, List.mem_map, List.mem_filter, Set.mem_image] at hkeys
  rw [← newDebt_iff_open hnew hdead, ← hkeys]
  simp only [DifferentialReport.Gates, and_assoc]

omit hnew hdead in
theorem policyMatches_eq_zero_iff {baseline : GraphArtifact} {metadata : GraphArtifactMetadata}
    {report : DifferentialReport} (h : differential baseline current metadata (some policy) = .ok report) :
    report.policyMatches = 0 ↔ ∀ key, ¬ report.Gates key := by
  have hcount : report.policyMatches = report.changes.countP (·.policyMatch) :=
    (differential_ok h).2.changes_eq ▸ (differential_ok h).2.policyMatches
  rw [hcount, List.countP_eq_zero]
  constructor
  · rintro hnone key ⟨change, hchange, hmatch, -⟩
    exact hnone change hchange hmatch
  · exact fun hnone change hchange hmatch => hnone _ ⟨change, hchange, hmatch, rfl⟩

end Comparison

/-! ## A history -/

/-- Debt that is open now and was not there at the start came in at some step,
which gates it, or was muted at some step; since then it is open. -/
theorem debt_entered {history : Nat → Graph} (hinv : ∀ i, (history i).Inv) (hstart : ¬ DeadAt (history 0) key) (n : Nat)
    (hopen : OpenDebt policy (history n) key) :
    ∃ i < n, (∀ j, i < j → j ≤ n → OpenDebt policy (history j) key) ∧
      (¬ DeadAt (history i) key ∨ MutedDebt policy (history i) key) := by
  induction n with
  | zero => exact absurd (hopen.deadAt (hinv 0)) hstart
  | succ n ih =>
    have hlast : ∀ j, n < j → j ≤ n + 1 → OpenDebt policy (history j) key := fun j hlt hle => by
      rwa [show j = n + 1 by omega]
    by_cases hdead : DeadAt (history n) key
    · rcases @DeadAt.open_or_muted policy _ _ (hinv n) hdead with hbefore | hmuted
      · -- The debt is older than the last step.
        obtain ⟨i, hi, hsince, hcause⟩ := ih hbefore
        refine ⟨i, Nat.lt_succ_of_lt hi, fun j hlt hle => ?_, hcause⟩
        rcases Nat.lt_or_eq_of_le hle with hlt' | rfl
        · exact hsince j hlt (Nat.le_of_lt_succ hlt')
        · exact hopen
      · exact ⟨n, Nat.lt_succ_self n, hlast, .inr hmuted⟩
    · exact ⟨n, Nat.lt_succ_self n, hlast, .inl hdead⟩

/-- Comparing the last run with the first gates a key exactly where the key was
not dead at first, and some step gated it or some earlier run muted it and it
stayed open since. So where every step passes and nothing is ever muted, the
whole history passes. -/
theorem gateHistory {history : Nat → GraphArtifact} (hbuilt : ∀ i, Built (history i).graph)
    (hnew : .newSymbol ∈ policy.changes) (hdead : .newlyUnreachable ∈ policy.changes) {n : Nat}
    {reports : Nat → DifferentialReport} {total : DifferentialReport}
    (hsteps : ∀ i < n, differential (history i) (history (i + 1)).graph (history (i + 1)).metadata (some policy) =
      .ok (reports i))
    (htotal : differential (history 0) (history n).graph (history n).metadata (some policy) = .ok total) :
    (∀ key, total.Gates key ↔ ¬ DeadAt (history 0).graph key ∧
      ∃ i < n, (∀ j, i < j → j ≤ n → OpenDebt policy (history j).graph key) ∧
        ((reports i).Gates key ∨ MutedDebt policy (history i).graph key)) ∧
    ((∀ i < n, (reports i).policyMatches = 0) → (∀ i < n, ∀ key, ¬ MutedDebt policy (history i).graph key) →
      total.policyMatches = 0) := by
  have hinv := fun i => (hbuilt i).inv
  have hgates : ∀ key i, i < n → ((reports i).Gates key ↔
      OpenDebt policy (history (i + 1)).graph key ∧ ¬ DeadAt (history i).graph key) := fun key i hi =>
    gates_iff hnew hdead (hinv i) (hinv (i + 1)) (hsteps i hi)
  have hwhole : ∀ key, total.Gates key ↔ ¬ DeadAt (history 0).graph key ∧
      ∃ i < n, (∀ j, i < j → j ≤ n → OpenDebt policy (history j).graph key) ∧
        ((reports i).Gates key ∨ MutedDebt policy (history i).graph key) := fun key => by
    rw [gates_iff hnew hdead (hinv 0) (hinv n) htotal]
    constructor
    · rintro ⟨hopen, hstart⟩
      obtain ⟨i, hi, hsince, hcause⟩ := @debt_entered policy key (fun i => (history i).graph) hinv hstart n hopen
      refine ⟨hstart, i, hi, hsince, hcause.imp (fun hlive => (hgates key i hi).2 ⟨?_, hlive⟩) id⟩
      exact hsince (i + 1) (Nat.lt_succ_self i) hi
    · rintro ⟨hstart, i, hi, hsince, -⟩
      exact ⟨hsince n hi (Nat.le_refl n), hstart⟩
  refine ⟨hwhole, fun hpass hclear => ?_⟩
  rw [policyMatches_eq_zero_iff htotal]
  intro key hkey
  obtain ⟨-, i, hi, -, hgated | hmuted⟩ := (hwhole key).1 hkey
  · exact (policyMatches_eq_zero_iff (hsteps i hi)).1 (hpass i hi) key hgated
  · exact hclear i hi key hmuted

/-- `f` comes in suppressed, and loses its suppression. -/
def mutedHistory : Nat → Graph
  | 0 => mainUnit
  | 1 => endState (Graph.addSuppression 0 {}) calleeUnit
  | _ => calleeUnit

theorem mutedHistory_built (i : Nat) : Built (mutedHistory i) := by
  rcases i with _ | _ | i
  · exact mainUnit_built
  · exact .addSuppression 0 {} calleeUnit_built
  · exact calleeUnit_built

theorem mutedHistory_gates : ∃ total, differential ⟨mutedHistory 0, {}, []⟩ (mutedHistory 2) {} (some {}) = .ok total ∧
    ∀ key, total.Gates key ↔ ¬ DeadAt (mutedHistory 0) key ∧
      ∃ i < 2, (∀ j, i < j → j ≤ 2 → OpenDebt {} (mutedHistory j) key) ∧
        ((∃ step, differential ⟨mutedHistory i, {}, []⟩ (mutedHistory (i + 1)) {} (some {}) = .ok step ∧ step.Gates key) ∨
          MutedDebt {} (mutedHistory i) key) := by
  have hstep : ∀ i, ∃ step, differential ⟨mutedHistory i, {}, []⟩ (mutedHistory (i + 1)) {} (some {}) = .ok step :=
    fun i => ⟨_, rfl⟩
  obtain ⟨reports, hreports⟩ := Classical.axiomOfChoice hstep
  refine ⟨_, rfl, fun key => ?_⟩
  rw [(@gateHistory {} (fun i => ⟨mutedHistory i, {}, []⟩) mutedHistory_built (by decide) (by decide) 2 reports _
    (fun i _ => hreports i) rfl).1 key]
  simp only [hreports, Except.ok.injEq, exists_eq_left']

end CxxDead
