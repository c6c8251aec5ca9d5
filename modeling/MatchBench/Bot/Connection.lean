import MatchBench.Bot.Frame
import MatchBench.Lib.Table
import MatchBench.Lib.Trace

/-!
# A connection of the bot fleet

`src/worker.rs` of the bot fleet runs three loops on a connection: `fix_write_loop` sends
batches of orders, `fix_read_loop` takes the responses, and `watchdog_loop` gives up on orders
that were not answered in time.  They share the map `pending`, from which each of them removes
orders, and the queue `expiry`.  The loops for REST and WebSocket do the same on them.

An event is what a loop does between two of its `await`s or locks, so a list of events is an
interleaving of the three.  An event of a loop that stands elsewhere changes nothing.  Clocks
are read by the event: nothing is assumed about them.  Which orders come due, what the peer
answers and how a write ends are arbitrary, and so is the order in which a map is drained.

`recorded` are the events handed to telemetry and `offered` the ids ever inserted into
`pending`.
-/

namespace MatchBench.Bot

open Capture (ascii)

def responseTimeoutNs : UInt64 := 5000000000

def saturatingAdd (a b : UInt64) : UInt64 := if a + b < a then 0xFFFFFFFFFFFFFFFF else a + b

/-! ### Order ids on the queue -/

/-- `str::parse` of a 32-bit number. -/
def parseU32 (s : List UInt8) : Option UInt32 :=
  let digits := if s.head? = some 43 then s.tail else s
  if digits ≠ [] ∧ digits.all (fun b => 48 ≤ b && b ≤ 57) then
    let v := digits.foldl (fun v b => 10 * v + (b.toNat - 48)) 0
    if v < 2 ^ 32 then some (UInt32.ofNat v) else none
  else none

/-- The number and the letter at the end of an order id. -/
def splitOrderID (orderID : List UInt8) : Option (UInt32 × UInt8) :=
  let kind := (orderID.reverse.takeWhile (· != 95)).reverse
  match orderID.reverse.dropWhile (· != 95) with
  | [] => none
  | _ :: rest =>
      match parseU32 (rest.takeWhile (· != 95)).reverse, kind with
      | some seq, [letter] => some (seq, letter)
      | _, _ => none

/-- The bytes of `kind as char`. -/
def latin1 (kind : UInt8) : List UInt8 :=
  if kind < 128 then [kind] else [192 + kind / 64, 128 + kind % 64]

def joinOrderID (sessionID : List UInt8) (botID : UInt64) (seq : UInt32) (kind : UInt8) :
    List UInt8 :=
  sessionID ++ ascii "_" ++ decimal botID.toNat ++ ascii "_" ++ decimal seq.toNat ++ ascii "_" ++
    latin1 kind

/-! ### The state -/

structure PendingOrder where
  orderID : List UInt8
  origOrderID : List UInt8
  targetSendTsNs : UInt64
  sendTsNs : UInt64
  barrierEpochNs : UInt64
  price : UInt64
  qty : UInt64
  side : Side
  payloadType : PayloadType
  ordType : OrdType
  smpID : UInt32
  deriving DecidableEq, Repr

structure ExpiryEntry where
  deadlineNs : UInt64
  seq : UInt32
  kind : UInt8
  deriving DecidableEq, Repr

structure OrderSentEvent where
  sessionID : List UInt8
  submissionID : List UInt8
  workerID : List UInt8
  taskID : UInt32
  orderID : List UInt8
  smpID : UInt32
  targetSendTsNs : UInt64
  sendTsNs : UInt64
  recvDoneTsNs : UInt64
  timedOut : Bool
  price : UInt64
  qty : UInt64
  side : Side
  payloadType : PayloadType
  ordType : OrdType
  origOrderID : List UInt8
  barrierEpochNs : UInt64
  deriving DecidableEq, Repr

/-- What the loops of a task are started with. -/
structure Task where
  sessionID : List UInt8
  submissionID : List UInt8
  workerID : List UInt8
  taskID : UInt32
  barrierEpochNs : UInt64
  taskEndNs : UInt64
  maxRate : Bool
  maxInflight : Nat
  batchMax : Nat

def Task.drainEndNs (t : Task) : UInt64 := saturatingAdd t.taskEndNs responseTimeoutNs

/-- Frames with the times at which they were due. -/
abbrev Batch := List (OrderFrame × UInt64)

inductive Writer where
  /-- At the head of the loop. -/
  | ready
  /-- Told to go on; there may be too many orders in flight. -/
  | checked
  /-- There are not. -/
  | admitted
  /-- The batch is in `pending`, and its write has not returned. -/
  | writing (batch : Batch)
  | wrote (batch : Batch) (sendTsNs : UInt64)
  | patched (batch : Batch) (sendTsNs : UInt64)
  | done
  deriving DecidableEq, Repr

inductive Reader where
  | reading
  /-- The order is no longer in `pending`, and its event is not recorded yet. -/
  | answered (p : PendingOrder) (recvDoneTsNs : UInt64)
  | done
  deriving DecidableEq, Repr

inductive Watchdog where
  | waiting
  | popped (due : List ExpiryEntry) (lastTick : Bool)
  /-- The orders are no longer in `pending`, and their events are not recorded yet. -/
  | evicting (toEvict : List PendingOrder) (lastTick : Bool)
  | done
  deriving DecidableEq, Repr

structure Conn where
  pending : GoMap (List UInt8) PendingOrder := ∅
  expiry : List ExpiryEntry := []
  writer : Writer := .ready
  reader : Reader := .reading
  watchdog : Watchdog := .waiting
  inflight : Int := 0
  recorded : List OrderSentEvent := []
  offered : List (List UInt8) := []

/-! ### What the loops do -/

def sentEvent (t : Task) (p : PendingOrder) (recvDoneTsNs : UInt64) (timedOut : Bool) :
    OrderSentEvent where
  sessionID := t.sessionID
  submissionID := t.submissionID
  workerID := t.workerID
  taskID := t.taskID
  orderID := p.orderID
  smpID := p.smpID
  targetSendTsNs := p.targetSendTsNs
  sendTsNs := p.sendTsNs
  recvDoneTsNs := recvDoneTsNs
  timedOut := timedOut
  price := p.price
  qty := p.qty
  side := p.side
  payloadType := p.payloadType
  ordType := p.ordType
  origOrderID := p.origOrderID
  barrierEpochNs := p.barrierEpochNs

def pendingOrder (t : Task) (writeStartNs : UInt64) (x : OrderFrame × UInt64) : PendingOrder where
  orderID := x.1.orderID
  origOrderID := x.1.origOrderID
  targetSendTsNs := x.2
  sendTsNs := writeStartNs
  barrierEpochNs := t.barrierEpochNs
  price := x.1.price
  qty := x.1.qty
  side := x.1.side
  payloadType := x.1.payloadType
  ordType := x.1.ordType
  smpID := x.1.smpID

def insertBatch (t : Task) (writeStartNs : UInt64) (pending : GoMap (List UInt8) PendingOrder)
    (batch : Batch) : GoMap (List UInt8) PendingOrder :=
  batch.foldl (fun m x => m.insert x.1.orderID (pendingOrder t writeStartNs x)) pending

/-- The send time of an order that is still pending. -/
def patchOrder (t : Task) (sendTsNs : UInt64) (pending : GoMap (List UInt8) PendingOrder)
    (x : OrderFrame × UInt64) : GoMap (List UInt8) PendingOrder :=
  match pending.lookup x.1.orderID with
  | none => pending
  | some p =>
      pending.insert x.1.orderID
        { p with
          sendTsNs := sendTsNs
          targetSendTsNs := if t.maxRate then sendTsNs else p.targetSendTsNs }

def expiryEntry (sendTsNs : UInt64) (x : OrderFrame × UInt64) : Option ExpiryEntry :=
  (splitOrderID x.1.orderID).map fun (seq, kind) =>
    ⟨saturatingAdd sendTsNs responseTimeoutNs, seq, kind⟩

def removeOne (st : GoMap (List UInt8) PendingOrder × List PendingOrder) (id : List UInt8) :
    GoMap (List UInt8) PendingOrder × List PendingOrder :=
  (st.1.erase id, st.2 ++ (st.1.lookup id).toList)

/-- The map without the orders, and those that were in it. -/
def removeAll (pending : GoMap (List UInt8) PendingOrder) (ids : List (List UInt8)) :
    GoMap (List UInt8) PendingOrder × List PendingOrder := ids.foldl removeOne (pending, [])

def removeBatchFromPending (pending : GoMap (List UInt8) PendingOrder) (batch : Batch) :
    GoMap (List UInt8) PendingOrder × Nat :=
  let (pending, removed) := removeAll pending (batch.map (·.1.orderID))
  (pending, removed.length)

/-- What stays on the queue, and the entries that are due. -/
def popDueExpirations (queue : List ExpiryEntry) (nowNs : UInt64) (lastTick : Bool) :
    List ExpiryEntry × List ExpiryEntry :=
  let due := fun e : ExpiryEntry => lastTick || e.deadlineNs ≤ nowNs
  (queue.dropWhile due, queue.takeWhile due)

/-- The ids that an entry of the queue stands for. -/
def dueIDs (t : Task) (due : List ExpiryEntry) : List (List UInt8) :=
  due.map fun e => joinOrderID t.sessionID t.taskID.toUInt64 e.seq e.kind

inductive Event where
  /-- The writer stops: cancelled, or past the end of the task. -/
  | stop
  | check (nowNs : UInt64)
  | room
  | insert (writeStartNs : UInt64) (batch : Batch)
  | writeOk (sendTsNs : UInt64)
  | patch
  | enqueue
  | writeErr
  /-- Cancelled, or past the drain deadline, with the write under way. -/
  | abandon
  | answer (clordID : List UInt8) (recvDoneTsNs : UInt64)
  | recordAnswer
  | readerExit
  | tick (nowNs : UInt64)
  | evict (drained : List PendingOrder)
  | recordEvicted
  | settle

namespace Conn

def stop (c : Conn) : Conn :=
  match c.writer with
  | .ready | .checked | .admitted => { c with writer := .done }
  | _ => c

def check (t : Task) (c : Conn) (nowNs : UInt64) : Conn :=
  match c.writer with
  | .ready => if t.taskEndNs ≤ nowNs then c else { c with writer := .checked }
  | _ => c

/-- Fewer orders are in flight than may be. -/
def room (t : Task) (c : Conn) : Conn :=
  match c.writer with
  | .checked => if t.maxInflight ≤ c.pending.entries.length then c else { c with writer := .admitted }
  | _ => c

def insert (t : Task) (c : Conn) (writeStartNs : UInt64) (batch : Batch) : Conn :=
  match c.writer with
  | .admitted =>
      if batch = [] ∨ t.batchMax < batch.length then c
      else
        { c with
          pending := insertBatch t writeStartNs c.pending batch
          inflight := c.inflight + batch.length
          offered := c.offered ++ batch.map (·.1.orderID)
          writer := .writing batch }
  | _ => c

def writeOk (c : Conn) (sendTsNs : UInt64) : Conn :=
  match c.writer with
  | .writing batch => { c with writer := .wrote batch sendTsNs }
  | _ => c

def patch (t : Task) (c : Conn) : Conn :=
  match c.writer with
  | .wrote batch sendTsNs =>
      { c with
        pending := batch.foldl (patchOrder t sendTsNs) c.pending
        writer := .patched batch sendTsNs }
  | _ => c

def enqueue (c : Conn) : Conn :=
  match c.writer with
  | .patched batch sendTsNs =>
      { c with
        expiry := c.expiry ++ batch.filterMap (expiryEntry sendTsNs)
        writer := .ready }
  | _ => c

/-- The write failed: its orders are removed, and the writer ends. -/
def writeErr (c : Conn) : Conn :=
  match c.writer with
  | .writing batch =>
      let (pending, removed) := removeBatchFromPending c.pending batch
      { c with pending := pending, inflight := c.inflight - removed, writer := .done }
  | _ => c

/-- The batch stays in `pending`. -/
def abandon (c : Conn) : Conn :=
  match c.writer with
  | .writing _ => { c with writer := .done }
  | _ => c

/-- An execution report with a client order id. -/
def answer (c : Conn) (clordID : List UInt8) (recvDoneTsNs : UInt64) : Conn :=
  match c.reader, c.pending.lookup clordID with
  | .reading, some p =>
      { c with
        pending := c.pending.erase clordID
        inflight := c.inflight - 1
        reader := .answered p recvDoneTsNs }
  | _, _ => c

def recordAnswer (t : Task) (c : Conn) : Conn :=
  match c.reader with
  | .answered p recvDoneTsNs =>
      { c with recorded := c.recorded ++ [sentEvent t p recvDoneTsNs false], reader := .reading }
  | _ => c

def readerExit (c : Conn) : Conn :=
  match c.reader with
  | .reading => { c with reader := .done }
  | _ => c

def tick (t : Task) (c : Conn) (nowNs : UInt64) : Conn :=
  match c.watchdog with
  | .waiting =>
      let lastTick := t.drainEndNs ≤ nowNs
      let (queue, due) := popDueExpirations c.expiry nowNs lastTick
      { c with expiry := queue, watchdog := .popped due lastTick }
  | _ => c

/-- Due orders leave the map; on the last tick all others do, in some order. -/
def evict (t : Task) (c : Conn) (drained : List PendingOrder) : Conn :=
  match c.watchdog with
  | .popped due lastTick =>
      let (pending, evicted) := removeAll c.pending (dueIDs t due)
      if lastTick then
        if drained.Perm (pending.entries.map Sigma.snd) then
          { c with
            pending := ∅
            inflight := c.inflight - (evicted ++ drained).length
            watchdog := .evicting (evicted ++ drained) true }
        else c
      else
        { c with
          pending := pending
          inflight := c.inflight - evicted.length
          watchdog := .evicting evicted false }
  | _ => c

def recordEvicted (t : Task) (c : Conn) : Conn :=
  match c.watchdog with
  | .evicting (p :: ps) lastTick =>
      { c with
        recorded := c.recorded ++ [sentEvent t p 0 true]
        watchdog := .evicting ps lastTick }
  | _ => c

def settle (c : Conn) : Conn :=
  match c.watchdog with
  | .evicting [] lastTick => { c with watchdog := if lastTick then .done else .waiting }
  | _ => c

def next (t : Task) (c : Conn) : Event → Conn
  | .stop => c.stop
  | .check nowNs => c.check t nowNs
  | .room => c.room t
  | .insert writeStartNs batch => c.insert t writeStartNs batch
  | .writeOk sendTsNs => c.writeOk sendTsNs
  | .patch => c.patch t
  | .enqueue => c.enqueue
  | .writeErr => c.writeErr
  | .abandon => c.abandon
  | .answer clordID recvDoneTsNs => c.answer clordID recvDoneTsNs
  | .recordAnswer => c.recordAnswer t
  | .readerExit => c.readerExit
  | .tick nowNs => c.tick t nowNs
  | .evict drained => c.evict t drained
  | .recordEvicted => c.recordEvicted t
  | .settle => c.settle

/-- The task has ended when its three loops have. -/
def Ended (c : Conn) : Prop := c.writer = .done ∧ c.reader = .done ∧ c.watchdog = .done

instance (c : Conn) : Decidable c.Ended :=
  inferInstanceAs (Decidable (_ ∧ _ ∧ _))

/-- The last tick of the watchdog has been through the map. -/
def swept (c : Conn) : Bool :=
  match c.watchdog with
  | .evicting _ lastTick => lastTick
  | .done => true
  | _ => false

/-- A failed write finds none of its orders in `pending`, and a batch is inserted before the
last tick has been through the map. -/
def Accounts (c : Conn) : Event → Prop
  | .writeErr =>
      match c.writer with
      | .writing batch => ∀ x ∈ batch, c.pending.lookup x.1.orderID = none
      | _ => True
  | .insert _ _ => c.writer = .admitted → c.swept = false
  | _ => True

instance (c : Conn) (e : Event) : Decidable (c.Accounts e) := by
  cases e <;> unfold Accounts <;> try infer_instance
  cases c.writer <;> infer_instance

end Conn

end MatchBench.Bot
