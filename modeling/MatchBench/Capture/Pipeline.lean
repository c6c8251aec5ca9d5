import MatchBench.Capture.Parse
import MatchBench.Capture.Reassembly

/-!
# The capture pipeline

`src/matcher.rs` and `src/pipeline.rs` of the latency capture.  A captured segment goes
to the reassembler of its connection and direction; the framing loop takes the messages
off the front of the reassembled bytes; a request is remembered under its order id, and
a response to a remembered request becomes an event.

The framing loop of the source has no bound, so `frameLoop` takes the number of turns it
may make and returns nothing when it needs more.  It lists what it did, and the counters
of the pipeline are read off that list.  Counters are natural numbers.  The log samples
of the source are left out.
-/

namespace MatchBench.Capture

structure FlowKey where
  clientIP : UInt32
  clientPort : UInt16
  deriving DecidableEq, Repr

structure Capture where
  timestampNs : UInt64
  flow : FlowKey
  tcpSeq : UInt32
  payloadLen : UInt32
  direction : Direction
  transport : Transport
  payload : List UInt8
  deriving DecidableEq, Repr

/-! ### The matcher -/

def maxInflight : Nat := 1000000

def maxKeyLen : Nat := 64

structure Inflight where
  t3Ns : UInt64
  responded : Bool
  clientIP : UInt32
  clientPort : UInt16
  tcpSeq : UInt32
  retransmissionCount : UInt32
  reorderingDetected : Bool
  lastActivityNs : UInt64
  deriving DecidableEq, Repr

structure MatchedEvent where
  orderID : String
  srcIP : UInt32
  srcPort : UInt16
  tcpSeq : UInt32
  t3Ns : UInt64
  t7Ns : UInt64
  podServiceTimeNs : UInt64
  execType : String
  fillQty : UInt64
  fillPrice : UInt64
  origOrderID : String
  reorderingDetected : Bool
  retransmissionCount : UInt32
  liquidityInd : UInt8
  deriving DecidableEq, Repr

structure Matcher where
  inflight : AList (fun _ : String => Inflight)
  unmatchedResponses : Nat
  oversizedClordid : Nat
  evictedCapacity : Nat
  evictedIdleUnanswered : Nat

namespace Matcher

def new : Matcher := ⟨∅, 0, 0, 0, 0⟩

/-- Whether an id fits the fixed-width key. -/
def fitsKey (clordid : String) : Bool := clordid.utf8ByteSize ≤ maxKeyLen

/-- Remove the request that was active longest ago. -/
def evictOldest (m : Matcher) : Matcher :=
  let m := { m with evictedCapacity := m.evictedCapacity + 1 }
  match m.inflight.entries.argmin (fun e => e.2.lastActivityNs.toNat) with
  | some e => { m with inflight := m.inflight.erase e.1 }
  | none => m

def onRequest (m : Matcher) (clordid : String) (t3Ns : UInt64) (flow : FlowKey)
    (tcpSeq : UInt32) (reordered : Bool) : Matcher :=
  if clordid = "" then m
  else if !fitsKey clordid then { m with oversizedClordid := m.oversizedClordid + 1 }
  else
    match m.inflight.lookup clordid with
    | some existing =>
        { m with
          inflight := m.inflight.insert clordid
            { existing with
              retransmissionCount :=
                if existing.retransmissionCount = 0xFFFFFFFF then 0xFFFFFFFF
                else existing.retransmissionCount + 1
              reorderingDetected := existing.reorderingDetected || reordered
              lastActivityNs := max existing.lastActivityNs t3Ns } }
    | none =>
        let m := if maxInflight ≤ m.inflight.entries.length then m.evictOldest else m
        { m with
          inflight := m.inflight.insert clordid
            ⟨t3Ns, false, flow.clientIP, flow.clientPort, tcpSeq, 0, reordered, t3Ns⟩ }

/-- A response; there is an event when its request is remembered. -/
def onResponse (m : Matcher) (t7Ns : UInt64) (reordered : Bool) (p : ParsedMessage) :
    Matcher × Option MatchedEvent :=
  if !fitsKey p.clordid then
    ({ m with
       oversizedClordid := m.oversizedClordid + 1
       unmatchedResponses := m.unmatchedResponses + 1 }, none)
  else
    match m.inflight.lookup p.clordid with
    | none => ({ m with unmatchedResponses := m.unmatchedResponses + 1 }, none)
    | some old =>
        let inflight :=
          { old with
            reorderingDetected := old.reorderingDetected || reordered
            responded := true
            lastActivityNs := max old.lastActivityNs t7Ns }
        ({ m with inflight := m.inflight.insert p.clordid inflight },
          some
            { orderID := p.clordid
              srcIP := inflight.clientIP
              srcPort := inflight.clientPort
              tcpSeq := inflight.tcpSeq
              t3Ns := inflight.t3Ns
              t7Ns := t7Ns
              podServiceTimeNs := if t7Ns < inflight.t3Ns then 0 else t7Ns - inflight.t3Ns
              execType := p.execType
              fillQty := p.fillQty
              fillPrice := p.fillPrice
              origOrderID := p.origClordid
              reorderingDetected := inflight.reorderingDetected
              retransmissionCount := inflight.retransmissionCount
              liquidityInd := p.liquidity })

end Matcher

/-! ### The pipeline -/

structure Pipeline where
  reassemblers : AList (fun _ : FlowKey × Direction => Reassembler)
  matcher : Matcher
  clockOffsetNs : UInt64
  holdOverflows : Nat := 0
  bufferOverflows : Nat := 0
  truncationResets : Nat := 0
  resyncSkippedBytes : Nat := 0
  wsCompressedFrames : Nat := 0
  streamGapBytes : Nat := 0
  retransmittedBytes : Nat := 0
  framedRequests : Nat := 0
  framedResponses : Nat := 0
  framedNoClordid : Nat := 0

/-- One turn of the framing loop: a message with its time and sequence number, or bytes
skipped. -/
inductive Framed
  | message (ts : UInt64) (seq : UInt32) (msg : ParsedMessage)
  | skipped (n : Nat) (compressed : Bool)
  deriving DecidableEq, Repr

section

variable (mm : Finder UInt8)

/-- The framing loop of `process`, in at most the given number of turns. -/
def frameLoop (transport : Transport) (direction : Direction) :
    Nat → Reassembler → Option (Reassembler × List Framed)
  | 0, _ => none
  | fuel + 1, re =>
      match frame mm transport direction re.available with
      | .message n =>
          let turn := Framed.message (re.timestampAt 0) (re.seqAt 0)
            (parse mm transport direction (re.available.take n))
          (frameLoop transport direction fuel (re.consume n)).map (fun x => (x.1, turn :: x.2))
      | .incomplete => some (re, [])
      | .resync skip =>
          let n := max skip 1
          let turn := Framed.skipped n
            (transport == .httpWs && wsLooksCompressed direction re.available)
          (frameLoop transport direction fuel (re.consume n)).map (fun x => (x.1, turn :: x.2))

namespace Pipeline

def withOffset (clockOffsetNs : UInt64) : Pipeline where
  reassemblers := ∅
  matcher := Matcher.new
  clockOffsetNs := clockOffsetNs

def toRealtime (p : Pipeline) (monotonicNs : UInt64) : UInt64 := monotonicNs + p.clockOffsetNs

/-- The counters after the turns of the framing loop. -/
def count (p : Pipeline) (direction : Direction) : Framed → Pipeline
  | .message _ _ msg =>
      { p with
        framedRequests := p.framedRequests + if direction = .request then 1 else 0
        framedResponses := p.framedResponses + if direction = .response then 1 else 0
        framedNoClordid := p.framedNoClordid + if msg.clordid = "" then 1 else 0 }
  | .skipped n compressed =>
      { p with
        resyncSkippedBytes := p.resyncSkippedBytes + n
        wsCompressedFrames := p.wsCompressedFrames + if compressed then 1 else 0 }

/-- Hand a message to the matcher. -/
def dispatch (flow : FlowKey) (reordered : Bool) (x : Matcher × List MatchedEvent) :
    Framed → Matcher × List MatchedEvent
  | .message ts seq msg =>
      match msg.classified with
      | .request => (x.1.onRequest msg.clordid ts flow seq reordered, x.2)
      | .response =>
          let (m, ev) := x.1.onResponse ts reordered msg
          (m, x.2 ++ ev.toList)
      | .ignore => x
  | .skipped _ _ => x

/-- One captured segment; the events it gives, or nothing when the framing loop does
not stop. -/
def process (p : Pipeline) (cap : Capture) : Option (Pipeline × List MatchedEvent) :=
  let ts := p.toRealtime cap.timestampNs
  let key := (cap.flow, cap.direction)
  let re := (p.reassemblers.lookup key).getD Reassembler.new
  if cap.payload.length < cap.payloadLen.toNat then
    some ({ p with
            truncationResets := p.truncationResets + 1
            reassemblers := p.reassemblers.insert key re.resetForTruncation }, [])
  else
    let (re, stats) := re.push cap.tcpSeq ts cap.payload
    let p :=
      { p with
        holdOverflows := p.holdOverflows + if stats.holdOverflow then 1 else 0
        bufferOverflows := p.bufferOverflows + if stats.bufferOverflow then 1 else 0
        streamGapBytes := p.streamGapBytes + stats.gapSkippedBytes
        retransmittedBytes := p.retransmittedBytes + stats.retransmittedBytes }
    match frameLoop mm cap.transport cap.direction (re.available.length + 1) re with
    | none => none
    | some (re, framed) =>
        let p := framed.foldl (fun p f => p.count cap.direction f) p
        let (m, out) := framed.foldl (dispatch cap.flow stats.reordered) (p.matcher, [])
        some ({ p with matcher := m, reassemblers := p.reassemblers.insert key re }, out)

end Pipeline

end

end MatchBench.Capture
