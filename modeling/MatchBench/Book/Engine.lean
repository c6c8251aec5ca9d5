import MatchBench.Lib.BTree
import MatchBench.Model.Order

/-!
# The reference matching engine

`internal/book/book.go`.  A side of the book is a `Tree`: price levels in the
order the side is consumed, asks upwards and bids downwards, each level a FIFO
of resting orders.  `process` dispatches on the order kind:

* `matchAndRest` takes the best opposite level, lets the aggressor consume it
  from the front (`matchLevel`), and goes on to the next (`matchLoop`).  A maker
  with the aggressor's self-match-prevention id is passed over: it leaves the
  front of the FIFO and is put back there when the level is done.  A level left
  with such makers only is parked in `skippedLevels`, out of the tree, and put
  back when the aggressor stops.
* `remove` cancels an order, `replace` amends it in place or re-inserts it.

A resting order is reached in two ways in the source, through its level and
through `index`, which share a pointer.  `insert` is the only place that makes
one and it never reuses a `seq`, so the pointer is modelled by the fields that
never change (`Handle`) and followed by `deref`.

The trees are the third-party B-tree of the source, taken as an ordered map.
-/

namespace MatchBench.Book

structure Fill where
  orderID : String
  price : Int64
  qty : UInt64
  deriving DecidableEq, Repr

structure Trade where
  makerOrderID : String
  takerOrderID : String
  price : Int64
  qty : UInt64
  makerSeq : Nat
  makerSMPID : UInt32
  makerHasSMPID : Bool
  takerSMPID : UInt32
  takerHasSMPID : Bool
  deriving DecidableEq, Repr

structure RestingOrder where
  orderID : String
  side : Side
  price : Int64
  remaining : UInt64
  seq : Nat
  smpID : UInt32
  hasSMP : Bool
  deriving DecidableEq, Repr

/-- A price level; the front of `orders` is the oldest order. -/
structure PriceLevel where
  price : Int64
  orders : List RestingOrder
  deriving DecidableEq, Repr

/-- The order in which a side's levels are consumed: lowest ask, highest bid first. -/
def levelLess : Side → Int64 → Int64 → Prop
  | .sell => fun a b => a < b
  | .buy => fun a b => b < a

instance (s : Side) : DecidableRel (levelLess s) := fun a b =>
  match s with
  | .sell => inferInstanceAs (Decidable (a < b))
  | .buy => inferInstanceAs (Decidable (b < a))

instance (s : Side) : IsStrictTotalOrder Int64 (levelLess s) where
  trichotomous a b h₁ h₂ := by
    cases s <;> simp only [levelLess] at h₁ h₂ <;> grind
  irrefl a := by cases s <;> simp only [levelLess] <;> grind
  trans a b c h₁ h₂ := by
    cases s <;> simp only [levelLess] at h₁ h₂ ⊢ <;> grind

abbrev Tree (s : Side) := BTree PriceLevel.price (levelLess s)

/-- A pointer to a resting order: the fields `insert` sets and nothing changes. -/
structure Handle where
  side : Side
  price : Int64
  seq : Nat
  deriving DecidableEq, Repr

structure Engine where
  asks : Tree .sell
  bids : Tree .buy
  index : GoMap String Handle
  seq : Nat
  fills : List Fill
  trades : List Trade
  repriced : GoMap String Bool
  seqByOrder : GoMap String Nat
  evicted : List String

def newEngine : Engine where
  asks := BTree.empty
  bids := BTree.empty
  index := ∅
  seq := 0
  fills := []
  trades := []
  repriced := ∅
  seqByOrder := ∅
  evicted := []

def crosses (aggressorSide : Side) (aggressorPrice restingPrice : Int64) : Bool :=
  match aggressorSide with
  | .buy => restingPrice ≤ aggressorPrice
  | .sell => aggressorPrice ≤ restingPrice

def oppositeSide : Side → Side
  | .buy => .sell
  | .sell => .buy

def orReplaceID (o : Order) : String := if o.orderID ≠ "" then o.orderID else o.origOrderID

/-- Whether every order shares `smp`; false on the empty list. -/
def allSameSMP (orders : List RestingOrder) (smp : UInt32) : Bool :=
  orders.all (fun x => x.hasSMP && x.smpID == smp) && !orders.isEmpty

/-- Self-match prevention applies between the aggressor and a maker. -/
def sameSMP (o : Order) (maker : RestingOrder) : Bool :=
  o.hasSMPID && maker.hasSMP && maker.smpID == o.smpID

namespace Engine

def tree (e : Engine) : (s : Side) → Tree s
  | .buy => e.bids
  | .sell => e.asks

def setTree (e : Engine) : (s : Side) → Tree s → Engine
  | .buy, t => { e with bids := t }
  | .sell, t => { e with asks := t }

def deref (e : Engine) (h : Handle) : Option RestingOrder :=
  ((e.tree h.side).get? h.price).bind (fun level => level.orders.find? (fun x => x.seq = h.seq))

/-- A write through the pointer `h`. -/
def modify (e : Engine) (h : Handle) (f : RestingOrder → RestingOrder) : Engine :=
  match (e.tree h.side).get? h.price with
  | none => e
  | some level =>
      e.setTree h.side ((e.tree h.side).insert
        { level with orders := level.orders.map (fun x => if x.seq = h.seq then f x else x) })

/-! ### Matching -/

/-- The two fills and the trade of one match. -/
def recordTrade (e : Engine) (o : Order) (price : Int64) (maker : RestingOrder)
    (traded : UInt64) : Engine :=
  { e with
    fills := e.fills ++ [⟨o.orderID, price, traded⟩, ⟨maker.orderID, price, traded⟩]
    trades := e.trades ++
      [{ makerOrderID := maker.orderID, takerOrderID := o.orderID, price := price, qty := traded,
         makerSeq := maker.seq, makerSMPID := maker.smpID, makerHasSMPID := maker.hasSMP,
         takerSMPID := o.smpID, takerHasSMPID := o.hasSMPID }] }

/-- A maker that is used up leaves the index. -/
def dropMaker (e : Engine) (orderID : String) : Engine :=
  { e with index := e.index.erase orderID, evicted := e.evicted ++ [orderID] }

/-- Where the loop over one level stopped. -/
structure LevelSweep where
  remaining : UInt64
  skipped : List RestingOrder
  orders : List RestingOrder
  engine : Engine

/-- The loop over the makers of one level.  A maker that survives a trade has
used up the aggressor, so the loop ends there. -/
def matchLevel (o : Order) (price : Int64) :
    List RestingOrder → UInt64 → List RestingOrder → Engine → LevelSweep
  | [], remaining, skipped, e => ⟨remaining, skipped, [], e⟩
  | maker :: rest, remaining, skipped, e =>
      if remaining = 0 then ⟨remaining, skipped, maker :: rest, e⟩
      else if sameSMP o maker then matchLevel o price rest remaining (skipped ++ [maker]) e
      else
        let traded := min remaining maker.remaining
        let e := e.recordTrade o price maker traded
        if maker.remaining - traded = 0 then
          matchLevel o price rest (remaining - traded) skipped (e.dropMaker maker.orderID)
        else
          ⟨remaining - traded, skipped,
            { maker with remaining := maker.remaining - traded } :: rest, e⟩

/-- The state of the loop over the levels of side `s`. -/
structure Sweep (s : Side) where
  remaining : UInt64
  tree : Tree s
  skippedLevels : List PriceLevel
  engine : Engine

/-- The loop over the levels.  Every turn that goes on removes a level. -/
def matchLoop (o : Order) {s : Side} : Nat → Sweep s → Sweep s
  | 0, st => st
  | fuel + 1, st =>
      if st.remaining = 0 then st
      else
        match st.tree.min? with
        | none => st
        | some level =>
            if o.kind = .newLimit ∧ crosses o.side o.price level.price = false then st
            else
              let r := matchLevel o level.price level.orders st.remaining [] st.engine
              let orders := r.skipped ++ r.orders
              if orders = [] then
                matchLoop o fuel
                  { st with
                    remaining := r.remaining
                    tree := st.tree.erase level.price
                    engine := r.engine }
              else if o.hasSMPID && allSameSMP orders o.smpID then
                matchLoop o fuel
                  { remaining := r.remaining
                    tree := st.tree.erase level.price
                    skippedLevels := st.skippedLevels ++ [{ level with orders := orders }]
                    engine := r.engine }
              else
                { st with
                  remaining := r.remaining
                  tree := st.tree.insert { level with orders := orders }
                  engine := r.engine }

/-- A new resting order at the tail of its level. -/
def insert (e : Engine) (o : Order) (remaining : UInt64) : Engine :=
  let seq := e.seq + 1
  let ro : RestingOrder :=
    { orderID := o.orderID, side := o.side, price := o.price, remaining := remaining, seq := seq,
      smpID := o.smpID, hasSMP := o.hasSMPID }
  let level : PriceLevel :=
    match (e.tree o.side).get? o.price with
    | some level => { level with orders := level.orders ++ [ro] }
    | none => ⟨o.price, [ro]⟩
  { e.setTree o.side ((e.tree o.side).insert level) with
    seq := seq
    index := e.index.insert o.orderID ⟨o.side, o.price, seq⟩
    seqByOrder := e.seqByOrder.insert o.orderID seq }

def matchAndRest (e : Engine) (o : Order) (rest : Bool) : Engine :=
  let opp := oppositeSide o.side
  let st := matchLoop o (e.tree opp).items.length ⟨o.qty, e.tree opp, [], e⟩
  let e := st.engine.setTree opp (st.skippedLevels.foldl BTree.insert st.tree)
  if rest ∧ 0 < st.remaining ∧ o.kind = .newLimit then e.insert o st.remaining else e

/-! ### Cancel and replace -/

/-- A tree without the first order of that id at a price; an emptied level goes. -/
def unlink {s : Side} (t : Tree s) (price : Int64) (orderID : String) : Tree s :=
  match t.get? price with
  | none => t
  | some level =>
      let orders := level.orders.eraseP (fun x : RestingOrder => x.orderID = orderID)
      if orders = [] then t.erase level.price else t.insert { level with orders := orders }

def remove (e : Engine) (orderID : String) : Engine :=
  match (e.index.lookup orderID).bind e.deref with
  | none => e
  | some ro =>
      { e.setTree ro.side (unlink (e.tree ro.side) ro.price orderID) with
        index := e.index.erase orderID
        evicted := e.evicted ++ [orderID] }

/-- The order under its new id, in `index` and `seqByOrder`. -/
def rename (e : Engine) (h : Handle) (oldID newID : String) : Engine :=
  { e.modify h (fun x => { x with orderID := newID }) with
    index := (e.index.erase oldID).insert newID h
    seqByOrder :=
      match e.seqByOrder.lookup oldID with
      | some s => (e.seqByOrder.insert newID s).erase oldID
      | none => e.seqByOrder }

def replace (e : Engine) (o : Order) : Engine :=
  match e.index.lookup o.origOrderID with
  | none => e
  | some h =>
      match e.deref h with
      | none => e
      | some ro =>
          if o.price = ro.price ∧ o.qty ≤ ro.remaining then
            let e := e.modify h (fun x => { x with remaining := o.qty })
            if o.orderID ≠ "" ∧ o.orderID ≠ ro.orderID then e.rename h ro.orderID o.orderID else e
          else
            let e :=
              if o.price ≠ ro.price then
                { e with repriced := e.repriced.insert (orReplaceID o) true }
              else e
            (e.remove o.origOrderID).insert
              { orderID := orReplaceID o, side := o.side, price := o.price, smpID := ro.smpID,
                hasSMPID := ro.hasSMP }
              o.qty

def process (e : Engine) (o : Order) : Engine :=
  match o.kind with
  | .newLimit => e.matchAndRest o true
  | .newMarket => e.matchAndRest o false
  | .cancel => e.remove o.origOrderID
  | .replace => e.replace o

/-! ### Reading the engine -/

def isRepriced (e : Engine) (orderID : String) : Bool := (e.repriced.lookup orderID).getD false

def seqOf (e : Engine) (orderID : String) : Option Nat := e.seqByOrder.lookup orderID

def isResting (e : Engine) (orderID : String) : Bool := (e.index.lookup orderID).isSome

/-- Whether an order carrying `smpID` rests on a side at a price. -/
def restingSMPMatch (e : Engine) (s : Side) (price : Int64) (smpID : UInt32) : Bool :=
  match (e.tree s).get? price with
  | none => false
  | some level => level.orders.any (fun ro => ro.hasSMP && ro.smpID == smpID)

/-- `DrainFills`, `DrainTrades` and `DrainEvicted` leave the buffers empty. -/
def drain (e : Engine) : Engine := { e with fills := [], trades := [], evicted := [] }

/-- The per-order metadata of a finalized order is dropped. -/
def forget (e : Engine) (orderID : String) : Engine :=
  { e with seqByOrder := e.seqByOrder.erase orderID, repriced := e.repriced.erase orderID }

end Engine

end MatchBench.Book
