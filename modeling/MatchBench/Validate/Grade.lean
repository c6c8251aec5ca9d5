import MatchBench.Score.Compute
import MatchBench.Validate.Clean

/-!
# The grade of a session and the score of its group

The validator grades a session by its orders: `correctnessScore` is the share of the clean
ones.  It also counts fills, and the score computer takes the share of the valid fills for
the correctness of the group.  An order that is lost, or whose fills are missing, is dirty
and has no fill that is invalid, so the two numbers differ.

`Graded` is what the counters of a session have in common, whatever is reported: it is kept
by every fill that is scored and by every call of the validator.  `totalCorrectness_iff`
says from it when the two numbers agree.
-/

namespace MatchBench.Validate

open StreamValidator

/-! ### The counters of a report -/

/-- The counters fit together: fills come from graded orders, and every fill that is not
valid marks its order. -/
structure Report.Graded (r : Report) : Prop where
  valid_le : r.validFills ≤ r.totalFills
  scored : 0 < r.totalFills → 0 < r.scoredOrders
  count : r.dirtyOrders = r.dirtyByOrder.card
  clean : r.dirtyByOrder = ∅ → r.validFills = r.totalFills

/-- A report with one more violation. -/
structure Report.Flagged (r r' : Report) : Prop where
  total : r'.totalFills = r.totalFills
  valid : r'.validFills = r.validFills
  scored : r'.scoredOrders = r.scoredOrders
  marked : r'.dirtyByOrder ≠ ∅
  count : r.dirtyOrders = r.dirtyByOrder.card → r'.dirtyOrders = r'.dirtyByOrder.card

namespace Report

theorem markDirty_count {r : Report} (h : r.dirtyOrders = r.dirtyByOrder.card) (id : String) :
    (r.markDirty id).dirtyOrders = (r.markDirty id).dirtyByOrder.card := by
  rw [markDirty]
  split_ifs with hid
  · exact h
  · rw [Finset.card_insert_of_notMem hid, ← h]

theorem markDirty_counters (r : Report) (id : String) :
    (r.markDirty id).totalFills = r.totalFills ∧ (r.markDirty id).validFills = r.validFills ∧
      (r.markDirty id).scoredOrders = r.scoredOrders := by
  rw [markDirty]
  split_ifs <;> exact ⟨rfl, rfl, rfl⟩

theorem flagged_add (r : Report) (t : ViolationType) (id : String) (qty : UInt64) (price : Int64)
    (detail : String) : r.Flagged (r.add t id qty price detail) := by
  have hmark : (r.add t id qty price detail).dirtyByOrder ≠ ∅ := by
    rw [dirtyByOrder_add]
    exact Finset.insert_ne_empty _ _
  have hc := markDirty_counters { r with totalViolations := r.totalViolations + 1 } id
  have hn := fun h => markDirty_count (r := { r with totalViolations := r.totalViolations + 1 }) h id
  refine ⟨?_, ?_, ?_, hmark, ?_⟩ <;> rw [add] <;> split_ifs
  · exact hc.1
  · exact hc.1
  · exact hc.2.1
  · exact hc.2.1
  · exact hc.2.2
  · exact hc.2.2
  · exact hn
  · exact hn

variable {r r' : Report} {o : Order} {ref : Option OrderRef} {total : UInt64} {price : Int64}

theorem Graded.flag {id : String} {f : Flag} (h : r.Graded) (hpos : 0 < r.scoredOrders)
    (hf : r.Flags id f r') : r'.Graded ∧ r'.scoredOrders = r.scoredOrders := by
  obtain ⟨t, qty, price, detail, rfl⟩ := hf
  obtain ⟨hb, hd, -, hs, hv, ht⟩ := f.count_keeps r
  have hadd := flagged_add (f.count r) t id qty price detail
  have hscored := hadd.scored.trans hs
  refine ⟨⟨?_, fun _ => hscored ▸ hpos, hadd.count (by rw [hd, hb, h.count]),
    fun hc => absurd hc hadd.marked⟩, hscored⟩
  rw [hadd.valid, hadd.total, hv]
  exact h.valid_le.trans ht

theorem Graded.judge (h : r.Graded) (hpos : 0 < r.scoredOrders)
    (hj : r.Judged o ref total price r') : r'.Graded ∧ r'.scoredOrders = r.scoredOrders := by
  cases hj with
  | overfill hover hflags | unexplained hwithin hne hflags => exact h.flag hpos hflags
  | valid hwithin hk hp hq =>
    exact ⟨⟨Nat.add_le_add_right h.valid_le 1, fun _ => hpos, h.count,
      fun hc => congrArg (· + 1) (h.clean hc)⟩, rfl⟩

theorem Graded.grade (h : r.Graded) : Graded { r with scoredOrders := r.scoredOrders + 1 } :=
  ⟨h.valid_le, fun _ => Nat.succ_pos _, h.count, h.clean⟩

end Report

namespace StreamValidator

variable (it : Nat → Range) {v : StreamValidator}

theorem graded_scoreOrder (o : Order) (r : Option OrderRef) (h : v.rep.Graded)
    (hs : 0 < v.rep.scoredOrders) :
    (v.scoreOrder it o r).1.rep.Graded ∧
      (v.scoreOrder it o r).1.rep.scoredOrders = v.rep.scoredOrders := by
  refine scoreOrder_induction it
    (P := fun rep => rep.Graded ∧ rep.scoredOrders = v.rep.scoredOrders) ?_ ?_ ⟨h, rfl⟩
  · rintro rep rep' total price ⟨hrep, heq⟩ hj
    obtain ⟨hrep', heq'⟩ := hrep.judge (heq ▸ hs) hj
    exact ⟨hrep', heq'.trans heq⟩
  · rintro rep rep' ⟨hrep, heq⟩ hf
    obtain ⟨hrep', heq'⟩ := hrep.flag (heq ▸ hs) hf
    exact ⟨hrep', heq'.trans heq⟩

theorem addLost_flags (v : StreamValidator) (orderID : String) (kind : Kind) :
    Report.Flags { v.rep with scoredOrders := v.rep.scoredOrders + 1 } orderID (.lost kind)
      (v.addLost orderID kind).rep := ⟨_, _, _, _, rfl⟩

/-! ### The calls of a session -/

/-- A call of the validator by the join. -/
inductive Call
  | apply (o : Order)
  | phantom
  | lost (orderID : String) (kind : Kind)
  | captureGap

def call (v : StreamValidator) : Call → StreamValidator
  | .apply o => v.apply it o
  | .phantom => v.addPhantom
  | .lost orderID kind => v.addLost orderID kind
  | .captureGap => v.addCaptureGap

/-- The report of a session. -/
def report (calls : List Call) : Report := (calls.foldl (call it) newStreamValidator).finish it

/-- The order that a call hands in. -/
def Call.handed : Call → List String
  | .apply o => [o.orderID]
  | .lost orderID _ => [orderID]
  | .phantom | .captureGap => []

/-- **What every step keeps**, of the orders handed in and the validator. -/
structure Invariant (P : List String → StreamValidator → Prop) : Prop where
  new : P [] newStreamValidator
  feed : ∀ {ids v}, P ids v → ∀ o, P (ids ++ [o.orderID]) (v.feed o)
  finalize : ∀ {ids v}, P ids v → ∀ id, P ids (v.finalize it id)
  lost : ∀ {ids v}, P ids v → ∀ orderID kind, P (ids ++ [orderID]) (v.addLost orderID kind)
  phantom : ∀ {ids v}, P ids v → P ids v.addPhantom
  captureGap : ∀ {ids v}, P ids v → P ids v.addCaptureGap
  range : ∀ {ids v}, P ids v → P ids { v with ranges := v.ranges + 1 }

section

variable {it} {P : List String → StreamValidator → Prop} {ids : List String}

theorem Invariant.finalizeAll (hP : Invariant it P) (h : P ids v) (es : List String) :
    P ids (es.foldl (StreamValidator.finalize it) v) := by
  induction es generalizing v with
  | nil => exact h
  | cons id es ih => exact ih (hP.finalize h id)

theorem Invariant.call (hP : Invariant it P) (h : P ids v) (c : Call) :
    P (ids ++ c.handed) (StreamValidator.call it v c) := by
  cases c with
  | apply o =>
    have hall := hP.finalizeAll (hP.feed h o) (v.engine.process o).evicted
    rw [StreamValidator.call, apply_eq]
    dsimp only
    split_ifs
    · exact hP.finalize hall o.orderID
    · exact hall
  | lost orderID kind => exact hP.lost h orderID kind
  | phantom =>
    rw [Call.handed, List.append_nil]
    exact hP.phantom h
  | captureGap =>
    rw [Call.handed, List.append_nil]
    exact hP.captureGap h

/-- **A session**: the report is made from a validator that has the invariant. -/
theorem Invariant.report (hP : Invariant it P) (calls : List Call) :
    ∃ v, P (calls.flatMap Call.handed) v ∧ StreamValidator.report it calls = v.finishIn it [] := by
  have hcalls : P (calls.flatMap Call.handed)
      (calls.foldl (StreamValidator.call it) newStreamValidator) := by
    induction calls using List.reverseRecOn with
    | nil => exact hP.new
    | append_singleton calls c ih =>
      rw [List.foldl_append, List.flatMap_append, List.flatMap_singleton]
      exact hP.call ih c
  exact ⟨_, hP.finalizeAll (hP.range hcalls) _, rfl⟩

end

/-- The report fits together, and a pending order has been counted. -/
structure Graded (v : StreamValidator) : Prop where
  rep : v.rep.Graded
  pending : ∀ id o, v.pending.lookup id = some o → 0 < v.rep.scoredOrders

theorem Graded.finalize (h : v.Graded) (id : String) : (v.finalize it id).Graded := by
  unfold StreamValidator.finalize
  cases ho : v.pending.lookup id with
  | none => exact h
  | some o =>
    have hs := h.pending id o ho
    obtain ⟨h1, h2⟩ := graded_scoreOrder it
      (v := { v with pending := v.pending.erase id, ref := v.ref.erase id }) o (v.ref.lookup id)
      h.rep hs
    exact ⟨h1, fun _ _ _ => by rw [h2]; exact hs⟩

theorem graded_invariant : Invariant it (fun _ => Graded) where
  new := ⟨⟨le_rfl, fun h => absurd h (lt_irrefl 0), rfl, fun _ => rfl⟩, nofun⟩
  feed h o := ⟨h.rep.grade, fun _ _ _ => Nat.succ_pos _⟩
  finalize h id := h.finalize it id
  lost {_ v} h orderID kind := by
    obtain ⟨hrep, hscored⟩ := h.rep.grade.flag (Nat.succ_pos _) (v.addLost_flags orderID kind)
    exact ⟨hrep, fun _ _ _ => hscored ▸ Nat.succ_pos _⟩
  phantom h := ⟨⟨h.rep.valid_le, h.rep.scored, h.rep.count, h.rep.clean⟩, h.pending⟩
  captureGap h := ⟨h.rep, h.pending⟩
  range h := ⟨h.rep, h.pending⟩

/-- **The counters of every session fit together.** -/
theorem graded_report (calls : List Call) : (report it calls).Graded := by
  obtain ⟨v, h, heq⟩ := (graded_invariant it).report calls
  rw [heq]
  exact ⟨h.rep.valid_le, h.rep.scored, h.rep.count, h.rep.clean⟩

end StreamValidator

/-! ### The two numbers -/

/-- What is published of a report, with the counts of the join; a full replay has no
jitter. -/
def Report.published (r : Report) (sent acked matched : Nat) : Score.Correctness where
  validFills := r.validFills
  totalFills := r.totalFills
  violationCount := r.totalViolations
  sentCount := sent
  ackedCount := acked
  matchedCount := matched
  jitter := {}

/-- Every graded order is clean and there is a fill; or every graded order is dirty and no
fill is valid; or some are, and the fills that are not valid are the same share of the fills
as the dirty orders are of the graded ones. -/
def Report.SameShare (r : Report) : Prop :=
  r.dirtyOrders = 0 ∧ 0 < r.totalFills ∨
    0 < r.scoredOrders ∧ r.scoredOrders ≤ r.dirtyOrders ∧ r.validFills = 0 ∨
    0 < r.dirtyOrders ∧ r.dirtyOrders < r.scoredOrders ∧ 0 < r.totalFills ∧
      (r.totalFills - r.validFills) * r.scoredOrders = r.dirtyOrders * r.totalFills

theorem aggregateCorrectness_single {sessions : List Score.Session} {s : Score.Session}
    (h : sessions.filter (fun s => s.scenario = Score.scenarioCorrectness) = [s]) :
    Score.aggregateCorrectness sessions =
      if s.correct.totalFills = 0 then 0
      else min ((s.correct.validFills : ℚ) / s.correct.totalFills) 1 := by
  rw [Score.aggregateCorrectness, h]
  simp

theorem Report.Graded.share_iff {r : Report} (h : r.Graded) :
    (if r.totalFills = 0 then 0 else min ((r.validFills : ℚ) / r.totalFills) 1) =
      r.correctnessScore ↔ r.SameShare := by
  obtain ⟨hle, hscored, hcount, hclean⟩ := h
  rw [correctnessScore, SameShare]
  generalize r.totalFills = t at *
  generalize r.validFills = v at *
  generalize r.scoredOrders = n at *
  have hzero : r.dirtyOrders = 0 → v = t := fun h0 =>
    hclean (Finset.card_eq_zero.mp (hcount.symm.trans h0))
  generalize r.dirtyOrders = d at *
  rcases Nat.eq_zero_or_pos n with hn | hn
  · -- nothing graded, so no fill
    have ht : t = 0 := by
      by_contra hne
      exact absurd (hscored (Nat.pos_of_ne_zero hne)) (by omega)
    rw [if_pos ht, if_pos hn]
    exact iff_of_false zero_ne_one (by omega)
  have hn' : (n : ℚ) ≠ 0 := Nat.cast_ne_zero.mpr hn.ne'
  rw [if_neg hn.ne']
  rcases Nat.eq_zero_or_pos t with ht | ht
  · rw [if_pos ht, eq_comm, div_eq_zero_iff, or_iff_left hn', Nat.cast_eq_zero]
    split_ifs <;> omega
  have ht' : (t : ℚ) ≠ 0 := Nat.cast_ne_zero.mpr ht.ne'
  have hmin : min ((v : ℚ) / t) 1 = v / t :=
    min_eq_left ((div_le_one (Nat.cast_pos.mpr ht)).mpr (Nat.cast_le.mpr hle))
  rw [if_neg ht.ne', hmin, div_eq_div_iff ht' hn']
  norm_cast
  rcases Nat.eq_zero_or_pos d with hd | hd
  · rw [hd, if_neg (Nat.not_lt_zero n), Nat.sub_zero, hzero hd, mul_comm]
    exact iff_of_true rfl (.inl ⟨rfl, ht⟩)
  rcases Nat.lt_or_ge d n with hdn | hdn
  · -- some orders are dirty
    rw [if_neg hdn.not_gt]
    obtain ⟨i, rfl⟩ := Nat.exists_eq_add_of_le hle
    obtain ⟨c, rfl⟩ := Nat.exists_eq_add_of_lt hdn
    rw [Nat.add_sub_cancel_left, show d + c + 1 - d = c + 1 by omega]
    constructor
    · intro he
      exact .inr (.inr ⟨hd, hdn, ht, by nlinarith⟩)
    rintro (h0 | h0 | ⟨-, -, -, h0⟩)
    · omega
    · omega
    · nlinarith
  · -- all of them are
    have hzero : (if n < d then 0 else n - d) = 0 := by
      split_ifs <;> omega
    rw [hzero, Nat.zero_mul, Nat.mul_eq_zero, or_iff_left hn.ne']
    omega

/-- Two orders that trade, both reported right. -/
def traded : List StreamValidator.Call :=
  [.apply { orderID := "a", side := .sell, price := 100, qty := 3, responses := [⟨"2", 3, 100, 1⟩] },
   .apply { orderID := "b", side := .buy, price := 100, qty := 3, responses := [⟨"2", 3, 100, 2⟩] }]

/-- The same and an order that is never answered. -/
def tradedAndLost : List StreamValidator.Call := traded ++ [.lost "c" .newLimit]

/-- A group with one session, the report of which is published. -/
def groupOf (r : Report) : Score.Input :=
  ⟨"g", "", "", "", [⟨"s", Score.scenarioCorrectness, [], r.published 3 2 2, []⟩], ⟨0, 0, 0, 0, 0⟩⟩

end MatchBench.Validate
