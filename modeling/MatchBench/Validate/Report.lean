import MatchBench.Book.Engine

/-!
# The report

`internal/validate/validate.go`: the violation classes and the counters a
validated session ends in.  Every class goes through `Report.add`, which also
marks the order dirty; the example violations are capped for each class, the
counters are not.
-/

namespace MatchBench.Validate

inductive ViolationType
  | overfill
  | missedFill
  | price
  | time
  | selfTrade
  | cancelReplaceLoss
  | lostOrder
  | lostCancel
  deriving DecidableEq, Repr

structure Violation where
  type : ViolationType
  orderID : String
  reportedQty : UInt64
  reportedPrice : Int64
  detail : String
  deriving DecidableEq, Repr

structure Report where
  totalFills : Nat := 0
  validFills : Nat := 0
  phantomFills : Nat := 0
  overfills : Nat := 0
  priceViolations : Nat := 0
  timeViolations : Nat := 0
  cancelReplaceLosses : Nat := 0
  selfTrades : Nat := 0
  missedFills : Nat := 0
  violations : List Violation := []
  totalViolations : Nat := 0
  violationExamplesByType : GoMap ViolationType Nat := ∅
  lostOrders : Nat := 0
  lostCancels : Nat := 0
  captureGaps : Nat := 0
  tainted : Bool := false
  scoredFills : Nat := 0
  scoredOrders : Nat := 0
  dirtyOrders : Nat := 0
  dirtyByOrder : Finset String := ∅

def maxViolationExamplesPerType : Nat := 100

/-- An execution report that claims a fill. -/
def isFill (execType : String) (qty : UInt64) : Bool :=
  0 < qty && (execType == "1" || execType == "2" || execType == "F")

namespace Report

def markDirty (r : Report) (orderID : String) : Report :=
  if orderID ∈ r.dirtyByOrder then r
  else
    { r with
      dirtyByOrder := insert orderID r.dirtyByOrder
      dirtyOrders := r.dirtyOrders + 1 }

def add (r : Report) (t : ViolationType) (id : String) (qty : UInt64) (price : Int64)
    (detail : String) : Report :=
  let r := { r with totalViolations := r.totalViolations + 1 }.markDirty id
  let kept := (r.violationExamplesByType.lookup t).getD 0
  if maxViolationExamplesPerType ≤ kept then r
  else
    { r with
      violationExamplesByType := r.violationExamplesByType.insert t (kept + 1)
      violations := r.violations ++ [⟨t, id, qty, price, detail⟩] }

/-- A fill that belonged to the order `jumper`, which was ahead in the queue. -/
def flagJump (r : Report) (e : Book.Engine) (o : Order) (jumper : String) (qty : UInt64)
    (price : Int64) : Report :=
  let r := { r with timeViolations := r.timeViolations + 1 }
  if e.isRepriced o.orderID then
    { r with cancelReplaceLosses := r.cancelReplaceLosses + 1 }.add .cancelReplaceLoss o.orderID
      qty price
      s!"repriced order filled ahead of {jumper}, which was already resting at the new level (lost time priority on REPLACE)"
  else
    r.add .time o.orderID qty price
      s!"filled ahead of earlier same-price order {jumper} (time priority)"

/-- The share of clean orders among the graded ones. -/
def correctnessScore (r : Report) : ℚ :=
  if r.scoredOrders = 0 then 1
  else
    let clean := if r.scoredOrders < r.dirtyOrders then 0 else r.scoredOrders - r.dirtyOrders
    (clean : ℚ) / r.scoredOrders

end Report

end MatchBench.Validate
