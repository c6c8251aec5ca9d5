import MatchBench.Lib.KeySort
import MatchBench.Score.Compute

/-!
# The ranking in memory and in the database

`SortResults` compares two results field by field; `RankForRunGroup` numbers the
rows of `scores` by the clause `rankOrderBy`.  The clause is a lexicographic key
here, `DESC` the dual order.  It orders as the comparison does, and run groups
separate it, so both give one ranking.
-/

namespace MatchBench.Score

open List

/-- `rankOrderBy`. -/
def rankOrderBy (r : Result) : Bool ×ₗ ℕᵒᵈ ×ₗ ℕ ×ₗ ℕ ×ₗ ℚᵒᵈ ×ₗ String :=
  toLex (r.disqualified, toLex (OrderDual.toDual r.peakSustainedTPS, toLex (r.p99AtPeakNS,
    toLex (r.spikeRecoveryNS, toLex (OrderDual.toDual r.totalCorrectness, r.runGroupID)))))

/-- `ROW_NUMBER`: one more than the rows before it. -/
def rankForRunGroup (rows : List Result) (runGroupID : String) : Option Nat :=
  (rows.find? fun r => r.runGroupID = runGroupID).map fun r =>
    rows.countP (fun x => rankOrderBy x < rankOrderBy r) + 1

def resultLess (a b : Result) : Bool :=
  if a.disqualified ≠ b.disqualified then b.disqualified
  else if a.peakSustainedTPS ≠ b.peakSustainedTPS then b.peakSustainedTPS < a.peakSustainedTPS
  else if a.p99AtPeakNS ≠ b.p99AtPeakNS then a.p99AtPeakNS < b.p99AtPeakNS
  else if a.spikeRecoveryNS ≠ b.spikeRecoveryNS then a.spikeRecoveryNS < b.spikeRecoveryNS
  else if a.totalCorrectness ≠ b.totalCorrectness then b.totalCorrectness < a.totalCorrectness
  else a.runGroupID < b.runGroupID

def sortResults (results : List Result) : List Result := stableSort resultLess results

theorem resultLess_eq (a b : Result) : resultLess a b = decide (rankOrderBy a < rankOrderBy b) := by
  simp only [resultLess, rankOrderBy, Prod.Lex.toLex_lt_toLex, OrderDual.toDual_lt_toDual,
    OrderDual.toDual_inj]
  split_ifs with h <;> simp_all [Bool.lt_iff]
  intro hb
  simpa [hb] using h

theorem runGroupID_eq {a b : Result} (h : rankOrderBy a = rankOrderBy b) :
    a.runGroupID = b.runGroupID := by
  simp only [rankOrderBy, toLex_inj, Prod.mk.injEq] at h
  exact h.2.2.2.2.2

theorem countP_lt {s : List Result} {i : Nat} {r : Result}
    (h : s.Pairwise fun a b => rankOrderBy a < rankOrderBy b) (hi : s[i]? = some r) :
    s.countP (fun x => rankOrderBy x < rankOrderBy r) = i := by
  induction s generalizing i with
  | nil => simp at hi
  | cons a s ih =>
    obtain ⟨ha, hs⟩ := pairwise_cons.mp h
    cases i with
    | zero =>
      obtain rfl : a = r := by simpa using hi
      simpa [countP_eq_zero] using fun x hx => (ha x hx).le
    | succ i =>
      rw [getElem?_cons_succ] at hi
      rw [countP_cons_of_pos (by simpa using ha r (mem_of_getElem? hi)), ih hs hi]

/-- **The two rankings agree.** -/
theorem sortResults_ranked (rs : List Result) (hd : (rs.map Result.runGroupID).Nodup) :
    (sortResults rs).Perm rs ∧
      (sortResults rs).Pairwise (fun a b => rankOrderBy a < rankOrderBy b) ∧
      (∀ l : List Result, l.Perm rs → sortResults l = sortResults rs ∧
        (l.Pairwise (fun a b => rankOrderBy a ≤ rankOrderBy b) → l = sortResults rs)) ∧
      ∀ i r, (sortResults rs)[i]? = some r → rankForRunGroup rs r.runGroupID = some (i + 1) := by
  have heq : ∀ l, sortResults l = sortBy rankOrderBy l := fun l => by
    rw [sortResults, sortBy, show resultLess = _ from funext₂ resultLess_eq]
  have hinj := inj_on_of_nodup_map hd
  have hp := perm_sortBy rankOrderBy rs
  have hs : (sortBy rankOrderBy rs).Pairwise fun a b => rankOrderBy a < rankOrderBy b := by
    have hn : (sortBy rankOrderBy rs).Pairwise fun a b => a.runGroupID ≠ b.runGroupID :=
      pairwise_map.mp ((hp.map _).nodup_iff.mpr hd)
    refine ((pairwise_sortBy rankOrderBy rs).and hn).imp fun h => ?_
    exact h.1.lt_of_ne fun he => h.2 (runGroupID_eq he)
  have huniq : ∀ l : List Result, l.Perm rs →
      l.Pairwise (fun a b => rankOrderBy a ≤ rankOrderBy b) → l = sortBy rankOrderBy rs := by
    intro l hl hsorted
    refine (hl.trans hp.symm).eq_of_pairwise (fun a b ha hb hab hba => ?_) hsorted
      (pairwise_sortBy rankOrderBy rs)
    exact hinj (hl.mem_iff.mp ha) (hp.mem_iff.mp hb) (runGroupID_eq (hab.antisymm hba))
  simp only [heq]
  refine ⟨hp, hs, fun l hl => ⟨?_, huniq l hl⟩, fun i r hi => ?_⟩
  · exact huniq _ ((perm_sortBy _ l).trans hl) (pairwise_sortBy _ l)
  have hr : r ∈ rs := hp.mem_iff.mp (mem_of_getElem? hi)
  have hf : (rs.find? fun x => x.runGroupID = r.runGroupID) = some r := by
    cases hx : rs.find? fun x => x.runGroupID = r.runGroupID with
    | none => simpa using find?_eq_none.mp hx r hr
    | some x =>
      exact congrArg some (hinj (mem_of_find?_eq_some hx) hr (by simpa using find?_some hx))
  rw [rankForRunGroup, hf, Option.map_some, ← hp.countP_eq, countP_lt hs hi]

/-- A slow run group, and a faster one. -/
def twoResults : List Result :=
  [⟨"a", "s", "c", "t", 1, 0, 0, 1, false, "", false, {}, [], false⟩,
    ⟨"b", "s", "c", "t", 2, 0, 0, 1, false, "", false, {}, [], false⟩]

theorem sortResults_ranked_twoResults : rankForRunGroup twoResults "b" = some 1 := by
  have h := (sortResults_ranked twoResults (by decide)).2.2.2 0 (twoResults[1])
  exact h (by decide +kernel)

end MatchBench.Score
