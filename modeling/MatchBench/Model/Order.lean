import Mathlib

/-!
# Orders

The data every stage of the validator shares, from `internal/model/order.go`: a
connection (`Flow`), a side, an order kind, one execution report (`Response`)
and the `Order` that carries them.

Quantities and timestamps are 64-bit and prices are signed 64-bit, as in the
source, so the places where a sum can wrap around stay visible.
-/

namespace MatchBench

/-- A Go map: a finite partial function, updated by `insert` and `erase`. -/
abbrev GoMap (κ α : Type) := AList (fun _ : κ => α)

structure Flow where
  srcIP : UInt32
  srcPort : UInt16
  deriving DecidableEq, Repr

/-- Flows are ordered by address, then by port. -/
def Flow.less (f o : Flow) : Bool :=
  if f.srcIP ≠ o.srcIP then f.srcIP < o.srcIP else f.srcPort < o.srcPort

inductive Side
  | buy
  | sell
  deriving DecidableEq, Repr

def sideFrom (s : String) : Side := if s = "SELL" then .sell else .buy

inductive Kind
  | newLimit
  | newMarket
  | cancel
  | replace
  deriving DecidableEq, Repr

def kindFrom (payloadType ordType : String) : Kind :=
  if payloadType = "CANCEL" then .cancel
  else if payloadType = "REPLACE" then .replace
  else if ordType = "MARKET" then .newMarket
  else .newLimit

/-- One execution report of the contestant. -/
structure Response where
  execType : String
  fillQty : UInt64
  fillPrice : UInt64
  t7Ns : UInt64
  deriving DecidableEq, Repr

structure Order where
  orderID : String
  flow : Flow := ⟨0, 0⟩
  tcpSeq : UInt32 := 0
  t3Ns : UInt64 := 0
  effectiveT3 : UInt64 := 0
  side : Side := .buy
  price : Int64 := 0
  qty : UInt64 := 0
  kind : Kind := .newLimit
  origOrderID : String := ""
  smpID : UInt32 := 0
  hasSMPID : Bool := false
  responses : List Response := []
  deriving DecidableEq, Repr

end MatchBench
