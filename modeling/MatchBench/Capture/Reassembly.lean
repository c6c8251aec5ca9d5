import MatchBench.Lib.BTree
import MatchBench.Lib.Serial

/-!
# Reassembling a TCP stream

`src/reassembly.rs` of the latency capture.  Segments in order are appended to the
buffer; a segment past `nextSeq` is held, keyed by its raw 32-bit sequence number, until
the bytes before it arrive.  After four pushes without progress, or with too many
segments held, the hole is given up and `nextSeq` jumps to the first held key
(`skipGap`).

`log` is not in the source: it keeps every append with the sequence number it was made
at, so that what was delivered over the life of the reassembler can be spoken of.
Absolute offsets and the stall counter are natural numbers.
-/

namespace MatchBench.Capture

def maxBuffered : Nat := 2 ^ 20

def maxHoldSegments : Nat := 64

def gapSkipAfterStalledPushes : Nat := 4

structure PushStats where
  reordered : Bool := false
  retransmittedBytes : Nat := 0
  reset : Bool := false
  holdOverflow : Bool := false
  gapSkippedBytes : Nat := 0
  bufferOverflow : Bool := false
  deriving DecidableEq, Repr

/-- A held segment. -/
structure Segment where
  seq : UInt32
  ts : UInt64
  data : List UInt8
  deriving DecidableEq, Repr

instance strictUInt32 : IsStrictTotalOrder UInt32 (fun a b => a < b) where
  trichotomous a b h₁ h₂ := by grind
  irrefl a := by grind
  trans a b c h₁ h₂ := by grind

/-- The held segments in the order of their sequence numbers. -/
abbrev Hold := BTree Segment.seq (fun a b : UInt32 => a < b)

/-- The start of a run of buffered bytes: its offset, time and sequence number. -/
structure Mark where
  start : Nat
  ts : UInt64
  seq : UInt32
  deriving DecidableEq, Repr

structure Reassembler where
  initialized : Bool
  nextSeq : UInt32
  frontAbs : Nat
  buf : List UInt8
  marks : List Mark
  hold : Hold
  lastActivityNs : UInt64
  stalledPushes : Nat
  log : List (UInt32 × List UInt8)

def seqGe (a b : UInt32) : Bool := 0 ≤ (a - b).toInt32

def seqLe (a b : UInt32) : Bool := (a - b).toInt32 ≤ 0

def seqLt (a b : UInt32) : Bool := (a - b).toInt32 < 0

/-- The sequence number after a segment. -/
def Segment.stop (s : Segment) : UInt32 := s.seq + UInt32.ofNat s.data.length

namespace Reassembler

def new : Reassembler where
  initialized := false
  nextSeq := 0
  frontAbs := 0
  buf := []
  marks := []
  hold := BTree.empty
  lastActivityNs := 0
  stalledPushes := 0
  log := []

def deliveredAbs (r : Reassembler) : Nat := r.frontAbs + r.buf.length

def appendContiguous (r : Reassembler) (ts : UInt64) (data : List UInt8) : Reassembler :=
  if data = [] then r
  else
    { r with
      marks := r.marks ++ [⟨r.deliveredAbs, ts, r.nextSeq⟩]
      buf := r.buf ++ data
      nextSeq := r.nextSeq + UInt32.ofNat data.length
      log := r.log ++ [(r.nextSeq, data)] }

/-- A held segment that the next byte stands in. -/
def drainable (next : UInt32) (s : Segment) : Bool := seqLe s.seq next && seqLt next s.stop

/-- The loop of `drain_hold`; each turn removes a segment. -/
def drainLoop : Nat → Reassembler → Reassembler
  | 0, r => r
  | fuel + 1, r =>
      match r.hold.items.find? (drainable r.nextSeq) with
      | none => r
      | some s =>
          let r' := { r with hold := r.hold.erase s.seq }
          drainLoop fuel (r'.appendContiguous s.ts (s.data.drop (r.nextSeq - s.seq).toNat))

/-- `retain`: the segments that do not end before the next byte. -/
def retain (h : Hold) (next : UInt32) : Hold :=
  ⟨h.items.filter (fun s => seqGe s.stop next), h.sorted.filter _⟩

def drainHold (r : Reassembler) : Reassembler :=
  let r := drainLoop r.hold.items.length r
  { r with hold := retain r.hold r.nextSeq }

/-- Give up the hole before the first held segment; also the bytes written off. -/
def skipGap (r : Reassembler) : Reassembler × Nat :=
  match r.hold.min? with
  | none => (r, 0)
  | some s =>
      (drainHold { r with nextSeq := s.seq, stalledPushes := 0 }, (s.seq - r.nextSeq).toNat)

def resetBuffer (r : Reassembler) : Reassembler :=
  { r with frontAbs := r.deliveredAbs, buf := [], marks := [], hold := BTree.empty }

def resetForTruncation (r : Reassembler) : Reassembler :=
  { r with initialized := false, frontAbs := 0, buf := [], marks := [], hold := BTree.empty }

/-- The branches of `push` on where the segment starts. -/
def place (r : Reassembler) (seq : UInt32) (ts : UInt64) (data : List UInt8) :
    Reassembler × PushStats :=
  let hadHold := !r.hold.items.isEmpty
  let gap := (seq - r.nextSeq).toInt32
  if gap = 0 then ((r.appendContiguous ts data).drainHold, { reordered := hadHold })
  else if gap < 0 then
    let overlap := (-gap.toInt).toNat
    if data.length ≤ overlap then (r, { retransmittedBytes := data.length })
    else
      ((r.appendContiguous ts (data.drop overlap)).drainHold,
        { reordered := hadHold, retransmittedBytes := overlap })
  else
    let r := { r with hold := r.hold.insert ⟨seq, ts, data⟩ }
    if maxHoldSegments < r.hold.items.length then
      let (r, lost) := r.skipGap
      (r, { reordered := true, holdOverflow := true, gapSkippedBytes := lost })
    else (r, { reordered := true })

/-- The check of `push` for progress since `seqBefore`. -/
def checkProgress (r : Reassembler) (seqBefore : UInt32) (stats : PushStats) :
    Reassembler × PushStats :=
  if r.nextSeq = seqBefore ∧ r.hold.items ≠ [] then
    let r := { r with stalledPushes := r.stalledPushes + 1 }
    if gapSkipAfterStalledPushes ≤ r.stalledPushes then
      let (r, lost) := r.skipGap
      (r, { stats with gapSkippedBytes := stats.gapSkippedBytes + lost })
    else (r, stats)
  else ({ r with stalledPushes := 0 }, stats)

/-- The check of `push` for the size of the buffer. -/
def checkBuffer (r : Reassembler) (stats : PushStats) : Reassembler × PushStats :=
  if maxBuffered < r.buf.length then
    (r.resetBuffer, { stats with reset := true, bufferOverflow := true })
  else (r, stats)

def push (r : Reassembler) (seq : UInt32) (ts : UInt64) (data : List UInt8) :
    Reassembler × PushStats :=
  if data = [] then (r, {})
  else
    let r := { r with lastActivityNs := max r.lastActivityNs ts }
    if !r.initialized then
      let r := { r with initialized := true, nextSeq := seq }
      ((r.appendContiguous ts data).drainHold, {})
    else
      let seqBefore := r.nextSeq
      let (r, stats) := r.place seq ts data
      let (r, stats) := r.checkProgress seqBefore stats
      r.checkBuffer stats

def available (r : Reassembler) : List UInt8 := r.buf

def timestampAt (r : Reassembler) (offset : Nat) : UInt64 :=
  match (r.marks.takeWhile (fun m => m.start ≤ r.frontAbs + offset)).getLast? with
  | some m => m.ts
  | none => 0

def seqAt (r : Reassembler) (offset : Nat) : UInt32 :=
  match (r.marks.takeWhile (fun m => m.start ≤ r.frontAbs + offset)).getLast? with
  | some m => m.seq + UInt32.ofNat (r.frontAbs + offset - m.start)
  | none => 0

/-- The marks without those that end before the front. -/
def dropMarks (front : Nat) : List Mark → List Mark
  | a :: b :: rest => if b.start ≤ front then dropMarks front (b :: rest) else a :: b :: rest
  | marks => marks

def consume (r : Reassembler) (n : Nat) : Reassembler :=
  let n := min n r.buf.length
  if n = 0 then r
  else
    { r with
      buf := r.buf.drop n
      frontAbs := r.frontAbs + n
      marks := dropMarks (r.frontAbs + n) r.marks }

end Reassembler

end MatchBench.Capture
