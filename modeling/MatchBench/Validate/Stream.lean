import MatchBench.Replay.Order
import MatchBench.Validate.Report

/-!
# The streaming validator

`internal/validate/stream.go`.  `apply` feeds one order to the reference engine,
adds the fills the engine made to the reference of each order (`addRef`), and
scores every order that left the book.  `finish` scores the orders still
pending.  Scoring (`scoreOrder`) walks the contestant's execution reports with a
running total and compares it with the total quantity and the set of prices the
reference accumulated; it does not keep a quantity for each price.

A fill the reference does not explain is named by `classifyUnexplained`: a
self-match, a queue jump or a price violation.  The search for a queue jump
ranges over Go maps, whose iteration order is arbitrary, so every such loop takes
its order from a `Range`, the `n`-th loop of a run from `it n`.

The taint of `Finish` compares a ratio of counters with one percent; it is
computed here in exact arithmetic.
-/

namespace MatchBench.Validate

open Book (Engine Fill)

/-- The reference fills of one order: their total and the set of their prices. -/
structure OrderRef where
  qty : UInt64
  prices : Finset Int64

/-- An iteration order for a Go map with string keys. -/
structure Range where
  enum : List (Sigma fun _ : String => Order) → List (Sigma fun _ : String => Order)
  perm : ∀ l, (enum l).Perm l

/-- Iteration in insertion order. -/
def Range.id : Range := ⟨fun l => l, fun _ => List.Perm.refl _⟩

structure LevelKey where
  side : Side
  price : Int64
  deriving DecidableEq, Repr

def shortedCapacity : Nat := 65536

/-- A finalized order the contestant under-reported, with the `seq` it held. -/
structure ShortedOrder where
  o : Order
  seq : Nat
  deriving DecidableEq, Repr

structure ShortedIndex where
  byLevel : GoMap LevelKey (List ShortedOrder) := ∅
  ring : List ShortedOrder := []
  pos : Nat := 0

namespace ShortedIndex

def evict (s : ShortedIndex) (x : ShortedOrder) : ShortedIndex :=
  let k : LevelKey := ⟨x.o.side, x.o.price⟩
  let lvl := ((s.byLevel.lookup k).getD []).eraseP (fun y : ShortedOrder => y.o = x.o)
  { s with byLevel := if lvl = [] then s.byLevel.erase k else s.byLevel.insert k lvl }

def push (s : ShortedIndex) (o : Order) (seq : Nat) : ShortedIndex :=
  let x : ShortedOrder := ⟨o, seq⟩
  let s :=
    if s.ring.length < shortedCapacity then { s with ring := s.ring ++ [x] }
    else
      let s := match s.ring[s.pos]? with
        | some y => s.evict y
        | none => s
      { s with ring := s.ring.set s.pos x, pos := (s.pos + 1) % shortedCapacity }
  let k : LevelKey := ⟨o.side, o.price⟩
  { s with byLevel := s.byLevel.insert k ((s.byLevel.lookup k).getD [] ++ [x]) }

/-- The under-reported orders of one level. -/
def ordersAt (s : ShortedIndex) (side : Side) (price : Int64) : List ShortedOrder :=
  (s.byLevel.lookup ⟨side, price⟩).getD []

end ShortedIndex

structure StreamValidator where
  engine : Engine
  pending : GoMap String Order
  ref : GoMap String OrderRef
  shorted : ShortedIndex
  captureGaps : Nat
  rep : Report
  /-- How many loops over a map have run. -/
  ranges : Nat

def newStreamValidator : StreamValidator where
  engine := Book.newEngine
  pending := ∅
  ref := ∅
  shorted := {}
  captureGaps := 0
  rep := {}
  ranges := 0

/-- One drained fill joins the reference of its order. -/
def addRef (ref : GoMap String OrderRef) (f : Fill) : GoMap String OrderRef :=
  let r := (ref.lookup f.orderID).getD ⟨0, ∅⟩
  ref.insert f.orderID ⟨r.qty + f.qty, insert f.price r.prices⟩

namespace StreamValidator

variable (it : Nat → Range)

/-- A candidate for the earliest order that was ahead of `o`. -/
def consider (o : Order) (price : Int64) (mySeq : Nat) (best : Option (String × Nat))
    (id : String) (other : Order) (otherSeq : Nat) : Option (String × Nat) :=
  if id = o.orderID ∨ other.side ≠ o.side ∨ other.price ≠ price then best
  else if mySeq ≤ otherSeq then best
  else if Replay.crossFlowTie o other then best
  else
    match best with
    | none => some (id, otherSeq)
    | some (b, bestSeq) =>
        if otherSeq < bestSeq ∨ (otherSeq = bestSeq ∧ id < b) then some (id, otherSeq) else best

/-- The earliest order that should have had time priority over `o`. -/
def queueJump (v : StreamValidator) (o : Order) (price : Int64) : Option String :=
  match v.engine.seqOf o.orderID with
  | none => none
  | some mySeq =>
      let best := ((it v.ranges).enum v.pending.entries).foldl (fun best x =>
        match v.engine.seqOf x.1 with
        | none => best
        | some otherSeq => consider o price mySeq best x.1 x.2 otherSeq) none
      let best := (v.shorted.ordersAt o.side price).foldl (fun best x =>
        consider o price mySeq best x.o.orderID x.o x.seq) best
      best.map Prod.fst

def oppositeOf : Side → Side
  | .buy => .sell
  | .sell => .buy

/-- The contestant filled `o` against a resting order of the same id. -/
def selfMatchedAgainstBook (v : StreamValidator) (o : Order) (price : Int64) : Bool :=
  o.hasSMPID && v.engine.restingSMPMatch (oppositeOf o.side) price o.smpID

def classifyUnexplained (v : StreamValidator) (o : Order) (price : Int64) (qty : UInt64)
    (detail : String) : StreamValidator :=
  if v.selfMatchedAgainstBook o price then
    let rep := { v.rep with selfTrades := v.rep.selfTrades + 1 }
    { v with
      rep := rep.add .selfTrade o.orderID qty price
        "filled against a resting order carrying the same self-match-prevention id" }
  else
    match v.queueJump it o price with
    | some jumper =>
        { v with
          rep := v.rep.flagJump v.engine o jumper qty price
          ranges := v.ranges + 1 }
    | none =>
        let rep := { v.rep with priceViolations := v.rep.priceViolations + 1 }
        { v with
          rep := rep.add .price o.orderID qty price detail
          ranges := v.ranges + 1 }

/-- One execution report, with the running total `cum`. -/
def scoreResponse (o : Order) (r : Option OrderRef) (st : StreamValidator × UInt64)
    (resp : Response) : StreamValidator × UInt64 :=
  if isFill resp.execType resp.fillQty then
    let v := { st.1 with rep := { st.1.rep with totalFills := st.1.rep.totalFills + 1 } }
    let cum := st.2 + resp.fillQty
    let price := resp.fillPrice.toInt64
    if o.qty < cum then
      let rep := { v.rep with overfills := v.rep.overfills + 1 }
      ({ v with
        rep := rep.add .overfill o.orderID resp.fillQty price
          s!"cumulative reported {cum} exceeds order qty {o.qty}" }, cum)
    else
      match r with
      | none =>
          (v.classifyUnexplained it o price resp.fillQty
            "reference engine produced no fill for this order", cum)
      | some r =>
          if price ∉ r.prices then
            (v.classifyUnexplained it o price resp.fillQty
              "reported fill price not produced by the reference engine for this order", cum)
          else if r.qty < cum then
            (v.classifyUnexplained it o price resp.fillQty
              s!"cumulative reported {cum} exceeds reference fill qty {r.qty}", cum)
          else ({ v with rep := { v.rep with validFills := v.rep.validFills + 1 } }, cum)
  else st

/-- The comparison of one order; true when it was under-reported. -/
def scoreOrder (v : StreamValidator) (o : Order) (r : Option OrderRef) : StreamValidator × Bool :=
  let st := o.responses.foldl (scoreResponse it o r) (v, 0)
  match r with
  | none => (st.1, false)
  | some r =>
      if st.2 < r.qty then
        let rep := { st.1.rep with missedFills := st.1.rep.missedFills + 1 }
        ({ st.1 with
          rep := rep.add .missedFill o.orderID st.2 0
            s!"reference engine filled {r.qty} for this order; contestant reported {st.2}" }, true)
      else (st.1, false)

def finalize (v : StreamValidator) (id : String) : StreamValidator :=
  match v.pending.lookup id with
  | none => v
  | some o =>
      let r := v.ref.lookup id
      let (v, short) := scoreOrder it
        { v with pending := v.pending.erase id, ref := v.ref.erase id } o r
      let shorted :=
        if short then
          match v.engine.seqOf id with
          | some seq => v.shorted.push o seq
          | none => v.shorted
        else v.shorted
      { v with shorted := shorted, engine := v.engine.forget id }

/-- The next order in replay order. -/
def apply (v : StreamValidator) (o : Order) : StreamValidator :=
  let e := v.engine.process o
  let v :=
    { v with
      rep := { v.rep with scoredOrders := v.rep.scoredOrders + 1 }
      pending := v.pending.insert o.orderID o
      ref := e.fills.foldl addRef v.ref
      engine := e.drain }
  let v := e.evicted.foldl (finalize it) v
  if (v.pending.lookup o.orderID).isSome ∧ v.engine.isResting o.orderID = false then
    v.finalize it o.orderID
  else v

/-- The end of the session, with the pending orders scored in the order `rest`. -/
def finishIn (v : StreamValidator) (rest : List Order) : Report :=
  let v := (rest.map Order.orderID).foldl (finalize it) v
  { v.rep with
    scoredFills := v.rep.totalFills
    captureGaps := v.captureGaps
    tainted := v.rep.tainted ||
      (v.rep.scoredOrders + v.captureGaps) < 100 * v.captureGaps }

/-- `Finish` scores the pending orders in replay order. -/
def finish (v : StreamValidator) : Report :=
  let rest := ((it v.ranges).enum v.pending.entries).map Sigma.snd
  { v with ranges := v.ranges + 1 }.finishIn it (stableSort Replay.less rest)

/-- A fill for an order that was never sent. -/
def addPhantom (v : StreamValidator) : StreamValidator :=
  { v with rep := { v.rep with phantomFills := v.rep.phantomFills + 1 } }

/-- An order that was answered, but whose record the platform lost. -/
def addCaptureGap (v : StreamValidator) : StreamValidator :=
  { v with captureGaps := v.captureGaps + 1 }

def lostViolationType (kind : Kind) : ViolationType :=
  if kind = .cancel then .lostCancel else .lostOrder

/-- An order that was never answered. -/
def addLost (v : StreamValidator) (orderID : String) (kind : Kind) : StreamValidator :=
  let rep := { v.rep with scoredOrders := v.rep.scoredOrders + 1 }
  let rep :=
    if kind = .cancel then { rep with lostCancels := rep.lostCancels + 1 }
    else { rep with lostOrders := rep.lostOrders + 1 }
  { v with
    rep := rep.add (lostViolationType kind) orderID 0 0
      "order/cancel sent but never received any response" }

/-- The validator after a list of `Apply` calls. -/
def run (os : List Order) : StreamValidator := os.foldl (apply it) newStreamValidator

end StreamValidator

end MatchBench.Validate
