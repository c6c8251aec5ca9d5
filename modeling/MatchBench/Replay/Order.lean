import MatchBench.Lib.Sort
import MatchBench.Model.Order

/-!
# The replay order

`internal/replay/order.go`: orders are replayed by the time their bytes became
readable (`effectiveT3`), then by flow, then by TCP sequence number.  Sequence
numbers wrap around, and `seqLess` compares them by the sign of their 32-bit
difference.

An order cannot be read before the bytes in front of it on its connection, so
`promote` raises its time to that of its predecessor.  The source writes this
loop twice, in `Order` and in `Reorderer.promote`; the second starts each flow
from the time carried over from the orders already released.  `order` is the
first, with nothing carried.
-/

namespace MatchBench.Replay

def tieToleranceNs : UInt64 := 100

/-- `int32(a-b) < 0`. -/
def seqLess (a b : UInt32) : Bool := (a - b).toInt32 < 0

/-- The order of replay, once `effectiveT3` is set. -/
def less (a b : Order) : Bool :=
  if a.effectiveT3 ≠ b.effectiveT3 then a.effectiveT3 < b.effectiveT3
  else if a.flow ≠ b.flow then a.flow.less b.flow
  else seqLess a.tcpSeq b.tcpSeq

def absDiff (a b : UInt64) : UInt64 := if b < a then a - b else b - a

/-- Orders of two connections too close in time to have a fair order. -/
def crossFlowTie (a b : Order) : Bool :=
  if a.flow = b.flow then false else absDiff a.effectiveT3 b.effectiveT3 < tieToleranceNs

/-- The loop over the orders of one flow, each with its place in the buffer:
the time of an order is its own or its predecessor's, whichever is later. -/
def promoteFlow : Option UInt64 → List (Order × Nat) → List (Nat × UInt64)
  | _, [] => []
  | prev, (o, i) :: rest =>
      let effectiveT3 :=
        match prev with
        | none => o.t3Ns
        | some prev => if prev < o.t3Ns then o.t3Ns else prev
      (i, effectiveT3) :: promoteFlow (some effectiveT3) rest

/-- Sets `effectiveT3` on every order: each flow in the order of its sequence
numbers, starting from the time carried for it. -/
def promote (carry : GoMap Flow UInt64) (orders : List Order) : List Order :=
  orders.zipIdx.map (fun x =>
    let flowOrders := stableSort (fun a b => seqLess a.1.tcpSeq b.1.tcpSeq)
      (orders.zipIdx.filter (fun y => y.1.flow = x.1.flow))
    let times := promoteFlow (carry.lookup x.1.flow) flowOrders
    { x.1 with effectiveT3 := (times.lookup x.2).getD x.1.effectiveT3 })

/-- The whole session in replay order. -/
def order (orders : List Order) : List Order := stableSort less (promote ∅ orders)

end MatchBench.Replay
