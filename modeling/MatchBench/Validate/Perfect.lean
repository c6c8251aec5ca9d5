import MatchBench.Validate.Tracks

/-!
# A perfect contestant scores perfectly

`Perfect os` says that every order reports exactly the fills the reference engine
makes under its id over the whole session, in order.  `perfect_flawless` is the
result: the report of such a session has no dirty order, no violation and only
valid fills.  One order is enough to see it: its running total stays below the
total of its reference (`foldl_scoreResponse_flawless`), which no later fill can
change, and ends there.

A replace must carry an id.  One that does not puts the order back under its old
id, after the old order was scored and dropped; `perfect_unnamedReplace` is a
session where a perfect contestant is then charged for the fills that follow.
-/

namespace MatchBench.Validate

open List
open Book (Engine Fill fillQty)
open Book.Engine (Session Ledger)

/-- The fills a list of execution reports claims: price and quantity. -/
def claims (rs : List Response) : List (Int64 × UInt64) :=
  (rs.filter (fun r => isFill r.execType r.fillQty)).map (fun r => (r.fillPrice.toInt64, r.fillQty))

variable {resp : Response} {r : Report}

theorem claims_cons_of_pos (h : isFill resp.execType resp.fillQty = true) (rs : List Response) :
    claims (resp :: rs) = (resp.fillPrice.toInt64, resp.fillQty) :: claims rs := by
  simp [claims, h]

theorem claims_cons_of_neg (h : ¬ isFill resp.execType resp.fillQty = true)
    (rs : List Response) : claims (resp :: rs) = claims rs := by
  simp [claims, h]

/-- The quantity of a list of claims. -/
def claimed (cs : List (Int64 × UInt64)) : Nat := (cs.map (fun c => c.2.toNat)).sum

/-- The fills an order reports. -/
def reported (o : Order) : List (Int64 × UInt64) := claims o.responses

/-- The fills made under an id: price and quantity. -/
def filledUnder (fs : List Fill) (id : String) : List (Int64 × UInt64) :=
  (fs.filter (fun f => f.orderID = id)).map (fun f => (f.price, f.qty))

/-- Every order reports the fills of the reference engine, in order. -/
def Perfect (os : List Order) : Prop :=
  ∀ o ∈ os, reported o = filledUnder (Engine.run os).fills o.orderID
  deriving Decidable

/-- A report with nothing to complain about. -/
structure Flawless (r : Report) : Prop where
  dirtyOrders : r.dirtyOrders = 0
  validFills : r.validFills = r.totalFills
  phantomFills : r.phantomFills = 0
  overfills : r.overfills = 0
  priceViolations : r.priceViolations = 0
  timeViolations : r.timeViolations = 0
  cancelReplaceLosses : r.cancelReplaceLosses = 0
  selfTrades : r.selfTrades = 0
  missedFills : r.missedFills = 0
  lostOrders : r.lostOrders = 0
  lostCancels : r.lostCancels = 0
  totalViolations : r.totalViolations = 0
  violations : r.violations = []

theorem Flawless.count (h : Flawless r) :
    Flawless { r with totalFills := r.totalFills + 1, validFills := r.validFills + 1 } :=
  ⟨h.dirtyOrders, congrArg (· + 1) h.validFills, h.phantomFills, h.overfills, h.priceViolations,
    h.timeViolations, h.cancelReplaceLosses, h.selfTrades, h.missedFills, h.lostOrders,
    h.lostCancels, h.totalViolations, h.violations⟩

theorem Flawless.bookkeeping (h : Flawless r) (a b c : Nat) (t : Bool) :
    Flawless { r with scoredOrders := a, scoredFills := b, captureGaps := c, tainted := t } :=
  ⟨h.dirtyOrders, h.validFills, h.phantomFills, h.overfills, h.priceViolations,
    h.timeViolations, h.cancelReplaceLosses, h.selfTrades, h.missedFills, h.lostOrders,
    h.lostCancels, h.totalViolations, h.violations⟩

namespace StreamValidator

variable (it : Nat → Range)

/-! ### One order -/

/-- The validator after one more valid fill. -/
def countValid (v : StreamValidator) : StreamValidator :=
  { v with
    rep := { v.rep with
      totalFills := v.rep.totalFills + 1
      validFills := v.rep.validFills + 1 } }

variable {v : StreamValidator} {o : Order} {r : OrderRef}

theorem scoreResponse_valid {cum : UInt64} (hf : isFill resp.execType resp.fillQty = true)
    (hq : cum.toNat + resp.fillQty.toNat ≤ r.qty.toNat) (ho : r.qty.toNat ≤ o.qty.toNat)
    (hp : resp.fillPrice.toInt64 ∈ r.prices) :
    scoreResponse it o (some r) (v, cum) resp = (v.countValid, cum + resp.fillQty) := by
  have hsum : (cum + resp.fillQty).toNat = cum.toNat + resp.fillQty.toNat := by
    have := r.qty.toNat_lt
    rw [UInt64.toNat_add, Nat.mod_eq_of_lt (by omega)]
  have h1 : ¬ o.qty < cum + resp.fillQty := by
    rw [UInt64.lt_iff_toNat_lt, hsum]
    omega
  have h2 : ¬ r.qty < cum + resp.fillQty := by
    rw [UInt64.lt_iff_toNat_lt, hsum]
    omega
  rw [scoreResponse, if_pos hf]
  dsimp only
  rw [if_neg h1, if_neg (by simpa using hp), if_neg h2, countValid]

/-- **The running total of a perfect order** never passes its reference, so
every fill counts as valid. -/
theorem foldl_scoreResponse_flawless (ho : r.qty.toNat ≤ o.qty.toNat) :
    ∀ (rs : List Response) (v : StreamValidator) (cum : UInt64), Flawless v.rep →
      (∀ c ∈ claims rs, c.1 ∈ r.prices) → cum.toNat + claimed (claims rs) ≤ r.qty.toNat →
        Flawless (rs.foldl (scoreResponse it o (some r)) (v, cum)).1.rep ∧
          (rs.foldl (scoreResponse it o (some r)) (v, cum)).2.toNat =
            cum.toNat + claimed (claims rs) := by
  intro rs
  induction rs with
  | nil => intro v cum hv _ _; exact ⟨hv, rfl⟩
  | cons resp rs ih =>
    intro v cum hv hp hq
    by_cases hf : isFill resp.execType resp.fillQty = true
    · rw [claims_cons_of_pos hf] at hp hq ⊢
      have hq' : claimed ((resp.fillPrice.toInt64, resp.fillQty) :: claims rs) =
          resp.fillQty.toNat + claimed (claims rs) := rfl
      rw [hq'] at hq ⊢
      have hsum : (cum + resp.fillQty).toNat = cum.toNat + resp.fillQty.toNat := by
        have := r.qty.toNat_lt
        rw [UInt64.toNat_add, Nat.mod_eq_of_lt (by omega)]
      rw [foldl_cons, scoreResponse_valid it hf (by omega) ho (hp _ (.head _))]
      have hrest := ih v.countValid (cum + resp.fillQty) hv.count (fun c hc => hp c (by simp [hc]))
        (by rw [hsum]; omega)
      rw [hsum, add_assoc] at hrest
      exact hrest
    · rw [claims_cons_of_neg hf] at hp hq ⊢
      rw [foldl_cons, scoreResponse, if_neg hf]
      exact ih v cum hv hp hq

theorem foldl_scoreResponse_silent {r : Option OrderRef} :
    ∀ (rs : List Response) (st : StreamValidator × UInt64), claims rs = [] →
      rs.foldl (scoreResponse it o r) st = st := by
  intro rs
  induction rs with
  | nil => intro st _; rfl
  | cons resp rs ih =>
    intro st h
    by_cases hf : isFill resp.execType resp.fillQty = true
    · rw [claims_cons_of_pos hf] at h
      simp at h
    · rw [claims_cons_of_neg hf] at h
      rw [foldl_cons, scoreResponse, if_neg hf]
      exact ih st h

variable {fs : List Fill}

theorem filledUnder_eq_nil {id : String} :
    filledUnder fs id = [] ↔ fs.filter (fun f => f.orderID = id) = [] := by
  rw [filledUnder, map_eq_nil_iff]

theorem claimed_filledUnder (fs : List Fill) (id : String) :
    claimed (filledUnder fs id) = fillQty fs id := by
  rw [claimed, filledUnder, map_map, fillQty]
  rfl

theorem scoreOrder_flawless_of_ref (hv : Flawless v.rep)
    (hp : ∀ c ∈ claims o.responses, c.1 ∈ r.prices)
    (hc : claimed (claims o.responses) = r.qty.toNat) (ho : r.qty.toNat ≤ o.qty.toNat) :
    Flawless (v.scoreOrder it o (some r)).1.rep := by
  have h0 : (0 : UInt64).toNat + claimed (claims o.responses) = r.qty.toNat := by
    rw [hc]
    exact zero_add _
  have h := foldl_scoreResponse_flawless it ho o.responses v 0 hv hp h0.le
  have hlt : ¬ (o.responses.foldl (scoreResponse it o (some r)) (v, 0)).2 < r.qty := by
    rw [UInt64.lt_iff_toNat_lt, h.2, h0]
    exact lt_irrefl _
  rw [scoreOrder]
  rw [if_neg hlt]
  exact h.1

/-- **An order that reports its reference fills is scored without a flaw.** -/
theorem scoreOrder_flawless (hv : Flawless v.rep)
    (hr : reported o = filledUnder fs o.orderID) (hq : fillQty fs o.orderID ≤ o.qty.toNat) :
    Flawless (v.scoreOrder it o (refOf fs o.orderID)).1.rep := by
  rw [reported] at hr
  rw [refOf_eq]
  by_cases hnil : fs.filter (fun f => f.orderID = o.orderID) = []
  · rw [if_pos hnil, scoreOrder]
    rw [filledUnder_eq_nil.mpr hnil] at hr
    rw [foldl_scoreResponse_silent it _ _ hr]
    exact hv
  rw [if_neg hnil]
  have hsum : (((fs.filter (fun f => f.orderID = o.orderID)).map Fill.qty).map
      UInt64.toNat).sum = fillQty fs o.orderID := by
    rw [map_map, fillQty]
    rfl
  have htotal : (total ((fs.filter (fun f => f.orderID = o.orderID)).map Fill.qty)).toNat =
      fillQty fs o.orderID := by
    have := o.qty.toNat_lt
    rw [total_toNat (by omega), hsum]
  refine scoreOrder_flawless_of_ref it hv (fun c hc => ?_) ?_ (htotal.le.trans hq)
  · rw [hr] at hc
    obtain ⟨f, hf, rfl⟩ := mem_map.mp hc
    exact mem_toFinset.mpr (mem_map.mpr ⟨f, hf, rfl⟩)
  · rw [hr, claimed_filledUnder, htotal]

end StreamValidator

/-! ### The session -/

open StreamValidator

theorem flawless_scored (it : Nat → Range) {os : List Order} (hs : Session os) (hp : Perfect os)
    {v : StreamValidator} (hv : SameState (run it os) v) (hr : v.rep = (run it os).rep)
    {rest : List Order} (hrest : rest.Perm (run it os).pendingOrders) :
    Flawless (v.scored it rest).rep := by
  have h0 : Flawless {} := ⟨rfl, rfl, rfl, rfl, rfl, rfl, rfl, rfl, rfl, rfl, rfl, rfl, rfl⟩
  refine (scored_induction it hs (fun _ _ r => Flawless r) h0 (fun _ _ _ r hI => ?_)
    (fun _ v o ho _ hI => ?_) hv hr hrest).1
  · exact hI.bookkeeping _ r.scoredFills r.captureGaps r.tainted
  · exact scoreOrder_flawless it hI (hp o ho) ((Ledger.run os hs).filled o ho)

/-- **A perfect contestant scores perfectly**, in whatever order the orders
that are still pending at the end are scored. -/
theorem perfect_flawless (it : Nat → Range) (os : List Order)
    (hd : os.Pairwise (fun a b => a.orderID ≠ b.orderID))
    (hn : ∀ o ∈ os, o.kind = .replace → o.orderID ≠ "") (hp : Perfect os) :
    Flawless ((run it os).finish it) ∧
      ∀ rest : List Order, rest.Perm (run it os).pendingOrders →
        Flawless ((run it os).finishIn it rest) := by
  have hs : Session os := ⟨hd, hn⟩
  refine ⟨?_, fun rest hrest => ?_⟩
  · have h := flawless_scored it hs hp
      (v := { run it os with ranges := (run it os).ranges + 1 }) ⟨rfl, rfl, rfl, rfl, rfl⟩ rfl
      (perm_pendingOrders (it (run it os).ranges) (run it os))
    exact h.bookkeeping _ _ _ _
  · exact (flawless_scored it hs hp (SameState.refl _) rfl hrest).bookkeeping _ _ _ _

/-- A partial fill, an amendment in place and the rest of the fill. -/
def renamedSession : List Order :=
  [{ orderID := "a", side := .sell, price := 100, qty := 8, responses := [⟨"1", 3, 100, 1⟩] },
   { orderID := "b", side := .buy, price := 100, qty := 3, responses := [⟨"2", 3, 100, 2⟩] },
   { orderID := "a2", side := .sell, price := 100, qty := 4, kind := .replace, origOrderID := "a",
     responses := [⟨"5", 0, 0, 3⟩, ⟨"2", 4, 100, 4⟩] },
   { orderID := "c", side := .buy, price := 101, qty := 6, responses := [⟨"1", 4, 100, 5⟩] }]

theorem perfect_flawless_renamedSession :
    Perfect renamedSession ∧ Flawless ((run (fun _ => Range.id) renamedSession).finish
      (fun _ => Range.id)) :=
  ⟨by decide +kernel, (perfect_flawless (fun _ => Range.id) renamedSession (by decide) (by decide)
    (by decide +kernel)).1⟩

/-- A replace without an id moves `a` to a new price, where it is filled. -/
def unnamedReplace : List Order :=
  [{ orderID := "a", side := .buy, price := 100, qty := 10, responses := [⟨"2", 10, 101, 3⟩] },
   { orderID := "", side := .buy, price := 101, qty := 10, kind := .replace, origOrderID := "a" },
   { orderID := "s", side := .sell, price := 101, qty := 10, responses := [⟨"2", 10, 101, 4⟩] }]

theorem perfect_unnamedReplace :
    unnamedReplace.Pairwise (fun a b => a.orderID ≠ b.orderID) ∧
    (∀ o ∈ unnamedReplace, 1 ≤ o.qty) ∧ Perfect unnamedReplace ∧
    ((run (fun _ => Range.id) unnamedReplace).finish (fun _ => Range.id)).dirtyOrders = 1 ∧
    ((run (fun _ => Range.id) unnamedReplace).finish (fun _ => Range.id)).priceViolations = 1 := by
  decide +kernel

end MatchBench.Validate
