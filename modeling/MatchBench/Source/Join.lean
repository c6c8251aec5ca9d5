import MatchBench.Lib.Merge
import MatchBench.Source.Reorder

/-!
# Joining sent orders and acknowledgements

`internal/source/stream.go` and `internal/pipeline/pipeline.go`.  The partitions
of the two topics are merged by the lead time of their batches (`pick`).  A batch
adds its events to the pending orders, keyed by order id (`takeSent`, `takeAck`);
an acknowledgement that repeats one held is dropped.  Then `emitReady` walks the
ids in the order they came and hands over each order whose reference time is a
join window behind the lead time of the batch, up to the first that is not.

An order is handed over as one of four outcomes (`Handover`): matched orders go to
the reorderer, lost orders and capture gaps are counted, and acknowledgements
without a sent event are phantoms.  The state keeps the handovers in `handed`.

Left out are the readers, the counters of events read and the diagnosis of the
capture gaps, none of which the join reads back.
-/

namespace MatchBench.Source

open List Option

/-- A field left out has Go's zero value. -/
structure OrderSentEvent where
  orderID : String := ""
  sendTSNS : UInt64 := 0
  recvDoneTSNS : UInt64 := 0
  timedOut : Bool := false
  price : UInt64 := 0
  qty : UInt64 := 0
  side : String := ""
  payloadType : String := ""
  ordType : String := ""
  origOrderID : String := ""
  smpID : UInt32 := 0
  deriving DecidableEq, Repr

structure OrderAckedEvent where
  orderID : String := ""
  srcIP : UInt32 := 0
  srcPort : UInt16 := 0
  tcpSeq : UInt32 := 0
  t3XDPIngressNS : UInt64 := 0
  t7XDPEgressNS : UInt64 := 0
  execType : String := ""
  fillQty : UInt64 := 0
  fillPrice : UInt64 := 0
  origOrderID : String := ""
  deriving DecidableEq, Repr

/-- One decoded batch with its lead event time. -/
structure TsBatch where
  ts : UInt64
  isAck : Bool
  sent : List OrderSentEvent := []
  acks : List OrderAckedEvent := []
  deriving DecidableEq, Repr

/-- An orders.sent message of the session; an empty one is skipped. -/
def decodeSent : List OrderSentEvent → Option TsBatch
  | [] => none
  | e :: events => some { ts := e.sendTSNS, isAck := false, sent := e :: events }

/-- An orders.acked message of the session; an empty one is skipped. -/
def decodeAcked : List OrderAckedEvent → Option TsBatch
  | [] => none
  | e :: events => some { ts := e.t3XDPIngressNS, isAck := true, acks := e :: events }

structure PendingOrder where
  sent : OrderSentEvent
  hasSent : Bool
  acks : List OrderAckedEvent
  t3 : UInt64
  sendTS : UInt64
  deriving DecidableEq, Repr

/-- `&pendingOrder{}`. -/
def PendingOrder.zero : PendingOrder := ⟨{}, false, [], 0, 0⟩

inductive PendingOutcome
  | matched
  | lost
  | captureGap
  | unsent
  deriving DecidableEq, Repr

def PendingOrder.outcome (p : PendingOrder) : PendingOutcome :=
  if p.hasSent = false then .unsent
  else if p.acks ≠ [] then .matched
  else if p.sent.timedOut then .lost
  else .captureGap

/-- The fields by which two acknowledgements of one order are the same report. -/
def sameReport (held a : OrderAckedEvent) : Bool :=
  held.execType == a.execType && held.t7XDPEgressNS == a.t7XDPEgressNS &&
    held.fillQty == a.fillQty && held.fillPrice == a.fillPrice

/-- The order with one more acknowledgement, and whether it was new. -/
def PendingOrder.addAck (p : PendingOrder) (a : OrderAckedEvent) : PendingOrder × Bool :=
  if p.acks.any (fun held => sameReport held a) then (p, false)
  else ({ p with acks := p.acks ++ [a] }, true)

/-! ### Assembling an order -/

def telemetryPriceScale : Int64 := 1000000000

def smpIDNone : UInt32 := 0xFFFFFFFF

def hasSMPID (id : UInt32) : Bool := id ≠ smpIDNone

def firstOrig (acks : List OrderAckedEvent) : String :=
  match acks.find? (fun a => a.origOrderID ≠ "") with
  | some a => a.origOrderID
  | none => ""

def preferOrig (sentOrig : String) (acks : List OrderAckedEvent) : String :=
  if sentOrig ≠ "" then sentOrig else firstOrig acks

/-- The execution report of an acknowledgement. -/
def OrderAckedEvent.response (a : OrderAckedEvent) : Response :=
  ⟨a.execType, a.fillQty, a.fillPrice, a.t7XDPEgressNS⟩

def responses (acks : List OrderAckedEvent) : List Response := acks.map OrderAckedEvent.response

def assembleOrder (s : OrderSentEvent) : List OrderAckedEvent → Option Order
  | [] => none
  | first :: rest =>
      some
        { orderID := s.orderID
          flow := ⟨first.srcIP, first.srcPort⟩
          tcpSeq := first.tcpSeq
          t3Ns := first.t3XDPIngressNS
          side := sideFrom s.side
          price := s.price.toInt64 * telemetryPriceScale
          qty := s.qty
          kind := kindFrom s.payloadType s.ordType
          origOrderID := preferOrig s.origOrderID (first :: rest)
          smpID := s.smpID
          hasSMPID := hasSMPID s.smpID
          responses := responses (first :: rest) }

/-! ### The join -/

/-- What an order is handed over as. -/
inductive Handover
  | matched (o : Order)
  | lost (kind : Kind)
  | captureGap
  | unsent (fills : List (UInt64 × Int64))
  deriving DecidableEq, Repr

structure Join where
  pending : GoMap String PendingOrder
  order : List String
  matchedOrders : Nat
  lostOrders : Nat
  captureGaps : Nat
  handed : List (String × Handover)

def newJoin : Join := ⟨∅, [], 0, 0, 0, []⟩

def defaultJoinWindowNS : UInt64 := 500 * 1000 * 1000

def streamIsFill (execType : String) (qty : UInt64) : Bool :=
  0 < qty && (execType == "1" || execType == "2" || execType == "F")

namespace Join

/-- The pending order of an id, made when there is none. -/
def entry (j : Join) (id : String) : PendingOrder × Join :=
  match j.pending.lookup id with
  | some po => (po, j)
  | none =>
      (PendingOrder.zero,
        { j with pending := j.pending.insert id PendingOrder.zero, order := j.order ++ [id] })

def takeAck (j : Join) (a : OrderAckedEvent) : Join :=
  let (po, j) := j.entry a.orderID
  let (po, new) := po.addAck a
  if new then
    let po := if po.t3 = 0 then { po with t3 := a.t3XDPIngressNS } else po
    { j with pending := j.pending.insert a.orderID po }
  else j

def takeSent (j : Join) (s : OrderSentEvent) : Join :=
  let (po, j) := j.entry s.orderID
  { j with
    pending := j.pending.insert s.orderID
      { po with sent := s, hasSent := true, sendTS := s.sendTSNS } }

def take (j : Join) (b : TsBatch) : Join :=
  if b.isAck then b.acks.foldl takeAck j else b.sent.foldl takeSent j

/-- The time an order waits from: its send time, or its ingress time without one. -/
def refTime (po : PendingOrder) : UInt64 := if po.sendTS = 0 then po.t3 else po.sendTS

def handOver (j : Join) (id : String) (po : PendingOrder) : Join :=
  let j : Join :=
    match po.outcome with
    | .matched =>
        match assembleOrder po.sent po.acks with
        | some o =>
            { j with
              matchedOrders := j.matchedOrders + 1
              handed := j.handed ++ [(id, .matched o)] }
        | none => j
    | .lost =>
        { j with
          lostOrders := j.lostOrders + 1
          handed := j.handed ++ [(id, .lost (kindFrom po.sent.payloadType po.sent.ordType))] }
    | .captureGap =>
        { j with
          captureGaps := j.captureGaps + 1
          handed := j.handed ++ [(id, .captureGap)] }
    | .unsent =>
        let fills := (po.acks.filter (fun a => streamIsFill a.execType a.fillQty)).map
          (fun a => (a.fillQty, a.fillPrice.toInt64))
        { j with handed := j.handed ++ [(id, .unsent fills)] }
  { j with pending := j.pending.erase id }

/-- The loop of `emitReady` over the ids; it keeps those from the first that is too
recent on. -/
def emitLoop (watermark : UInt64) (flushAll : Bool) : List String → Join → Join
  | [], j => { j with order := [] }
  | id :: rest, j =>
      match j.pending.lookup id with
      | none => emitLoop watermark flushAll rest j
      | some po =>
          if !flushAll && watermark < refTime po + defaultJoinWindowNS then
            { j with order := id :: rest }
          else emitLoop watermark flushAll rest (j.handOver id po)

def emitReady (j : Join) (watermark : UInt64) (flushAll : Bool) : Join :=
  emitLoop watermark flushAll j.order j

/-- One turn of the merge loop. -/
def step (j : Join) (b : TsBatch) : Join := (j.take b).emitReady b.ts false

/-- The join over the batches in the order the merge takes them. -/
def run (bs : List TsBatch) : Join := bs.foldl step newJoin

/-- The end of the session: everything left is handed over. -/
def finish (bs : List TsBatch) : Join := (run bs).emitReady 0 true

/-- The orders that go to the reorderer, in the order they are pushed. -/
def pushed (j : Join) : List Order :=
  j.handed.filterMap (fun x => match x.2 with | .matched o => some o | _ => none)

end Join

/-! ### The merge -/

/-- A stream's head is not after another's. -/
def TsBatch.le (a b : TsBatch) : Prop := a.ts ≤ b.ts
  deriving Decidable

/-- The stream the merge takes next: the first with the smallest head. -/
def pick : List (List TsBatch) → Option (Nat × TsBatch)
  | [] => none
  | s :: streams =>
      match s.head?, pick streams with
      | none, none => none
      | none, some (i, b) => some (i + 1, b)
      | some b, none => some (0, b)
      | some b, some (i, c) => if c.ts < b.ts then some (i + 1, c) else some (0, b)

/-- The batches in the order the merge takes them. -/
def mergeStreams : Nat → List (List TsBatch) → List TsBatch
  | 0, _ => []
  | fuel + 1, streams =>
      match pick streams with
      | none => []
      | some (i, b) => b :: mergeStreams fuel (streams.modify i List.tail)

theorem pick_eq_none {streams : List (List TsBatch)} : pick streams = none →
    ∀ s ∈ streams, s = [] := by
  induction streams with
  | nil => simp
  | cons s streams ih =>
    intro h
    rw [pick] at h
    cases s with
    | cons b s =>
      cases hp : pick streams with
      | none => simp [hp] at h
      | some x =>
        simp only [head?_cons, hp] at h
        split at h <;> cases h
    | nil =>
      cases hp : pick streams with
      | none =>
        intro t ht
        rcases mem_cons.mp ht with ht | ht
        · exact ht
        · exact ih hp t ht
      | some x => simp [hp] at h

theorem pick_eq_some {streams : List (List TsBatch)} : ∀ {i : Nat} {b : TsBatch},
    pick streams = some (i, b) → (∃ rest, streams[i]? = some (b :: rest)) ∧
      ∀ s ∈ streams, ∀ c, s.head? = some c → b.le c := by
  induction streams with
  | nil =>
    intro i b h
    cases h
  | cons s streams ih =>
    intro i b h
    rw [pick] at h
    cases hs : s.head? with
    | none =>
      cases hp : pick streams with
      | none => simp [hs, hp] at h
      | some x =>
        simp only [hs, hp, Option.some.injEq, Prod.mk.injEq] at h
        obtain ⟨hi, hb⟩ := h
        obtain ⟨hrest, hmin⟩ := ih (i := x.1) (b := b) (by rw [hp, ← hb])
        refine ⟨?_, forall_mem_cons.mpr ⟨fun c hc => (nomatch hs.symm.trans hc), hmin⟩⟩
        rw [← hi, getElem?_cons_succ]
        exact hrest
    | some d =>
      obtain ⟨rest, hrest⟩ : ∃ rest, s = d :: rest := ⟨s.tail, eq_cons_of_mem_head? hs⟩
      cases hp : pick streams with
      | none =>
        simp only [hs, hp, Option.some.injEq, Prod.mk.injEq] at h
        obtain ⟨hi, hb⟩ := h
        refine ⟨⟨rest, ?_⟩, forall_mem_cons.mpr ⟨fun c hc => ?_, fun t ht c hc => ?_⟩⟩
        · rw [← hi, ← hb, getElem?_cons_zero, hrest]
        · rw [← hb, some.inj (hs.symm.trans hc)]
          exact UInt64.le_refl _
        · rw [pick_eq_none hp t ht] at hc
          cases hc
      | some x =>
        obtain ⟨hrestx, hminx⟩ := ih (i := x.1) (b := x.2) hp
        simp only [hs, hp] at h
        by_cases hlt : x.2.ts < d.ts
        · rw [if_pos hlt, Option.some.injEq, Prod.mk.injEq] at h
          obtain ⟨hi, hb⟩ := h
          rw [hb] at hrestx hminx hlt
          refine ⟨?_, forall_mem_cons.mpr ⟨fun c hc => ?_, hminx⟩⟩
          · rw [← hi, getElem?_cons_succ]
            exact hrestx
          · rw [← some.inj (hs.symm.trans hc)]
            exact UInt64.le_of_lt hlt
        rw [if_neg hlt, Option.some.injEq, Prod.mk.injEq] at h
        obtain ⟨hi, hb⟩ := h
        rw [← hb]
        refine ⟨⟨rest, ?_⟩, forall_mem_cons.mpr ⟨fun c hc => ?_, fun t ht c hc => ?_⟩⟩
        · rw [← hi, getElem?_cons_zero, hrest]
        · rw [some.inj (hs.symm.trans hc)]
          exact UInt64.le_refl _
        · exact UInt64.le_trans (UInt64.not_lt.mp hlt) (hminx t ht c hc)

theorem merges_mergeStreams (fuel : Nat) : ∀ (streams : List (List TsBatch)),
    streams.flatten.length ≤ fuel → Merges TsBatch.le streams (mergeStreams fuel streams) := by
  induction fuel with
  | zero =>
    intro streams hlen
    have hnil := eq_nil_of_length_eq_zero (Nat.le_zero.mp hlen)
    exact Merges.nil (flatten_eq_nil_iff.mp hnil)
  | succ fuel ih =>
    intro streams hlen
    rw [mergeStreams]
    cases hp : pick streams with
    | none => exact Merges.nil (pick_eq_none hp)
    | some x =>
      obtain ⟨⟨rest, hrest⟩, hmin⟩ := pick_eq_some hp
      have hmod : streams.modify x.1 List.tail = streams.set x.1 rest := by
        rw [modify_eq_set_getElem?, hrest]
        rfl
      refine Merges.cons hrest hmin ?_
      rw [hmod]
      have hperm := (Merges.perm_flatten_set hrest).length_eq
      rw [length_cons] at hperm
      exact ih _ (by omega)

end MatchBench.Source
