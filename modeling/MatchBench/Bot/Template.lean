import MatchBench.Bot.Frame

/-!
# Templates of the bot fleet

The part of `src/fix.rs` of the bot fleet that renders a frame by patching the one before
it.  A template keeps the bytes of its last frame and where the fields stand in them; a
new order whose fields have the same widths is written over the old one, and the checksum
of a FIX message is moved by the difference of the byte sums.  Otherwise the template is
built again.

`TemplateCache` has a template for each kind of frame.  A search that must succeed
(`expect`) and does not, stops the program: the operation returns nothing.
-/

namespace MatchBench.Bot

open Capture (ascii soh)

/-! ### Writing in place -/

/-- Write the last `width` digits of a value, the last first; also the sums of the bytes
that were and are there. -/
def writePaddedU64 : Nat → List UInt8 → Nat → Nat → List UInt8 × Nat × Nat
  | 0, buf, _, _ => (buf, 0, 0)
  | width + 1, buf, off, v =>
      let b := UInt8.ofNat (48 + v % 10)
      let old := buf.getD (off + width) 0
      let (buf, oldSum, newSum) := writePaddedU64 width (buf.set (off + width) b) off (v / 10)
      (buf, oldSum + old.toNat, newSum + b.toNat)

/-- Move the three digits of the checksum by the difference of two sums. -/
def applyChecksumDelta (buf : List UInt8) (checksumOff oldSum newSum : Nat) : List UInt8 :=
  let d1 := (buf.getD checksumOff 0 - 48).toNat
  let d2 := (buf.getD (checksumOff + 1) 0 - 48).toNat
  let d3 := (buf.getD (checksumOff + 2) 0 - 48).toNat
  let oldChecksum := d1 * 100 + d2 * 10 + d3
  let newChecksum := (oldChecksum + 256 + newSum % 256 - oldSum % 256) % 256
  let buf := buf.set checksumOff (UInt8.ofNat (48 + newChecksum / 100))
  let buf := buf.set (checksumOff + 1) (UInt8.ofNat (48 + newChecksum / 10 % 10))
  buf.set (checksumOff + 2) (UInt8.ofNat (48 + newChecksum % 10))

/-! ### FIX -/

structure FixTemplate where
  kind : FrameKind
  fixVersion : List UInt8
  sessionID : List UInt8
  botID : UInt64
  buf : List UInt8
  clordidSeqWidth : Nat
  clordidSeqOff : Nat
  tag34Off : Nat
  sideOff : Nat
  qtyOff : Nat
  priceOff : Option Nat
  tag52Off : Nat
  checksumOff : Nat
  smpOff : Option Nat
  smpID : UInt32
  deriving DecidableEq, Repr

namespace FixTemplate

/-- The offset of the price, which only a limit order has. -/
def findPrice (kind : FrameKind) (buf : List UInt8) : Option (Option Nat) :=
  if kind = .new then (findSubslice buf (ascii "\x0144=")).map (fun i => some (i + 4))
  else some none

/-- The offset of the id, when the order has one. -/
def findSmp (smpID : UInt32) (buf : List UInt8) : Option (Option Nat) :=
  if smpID ≠ smpIdNone then (findSubslice buf (ascii "\x017928=")).map (fun i => some (i + 6))
  else some none

def build (kind : FrameKind) (fixVersion sessionID : List UInt8) (botID seq qty price : UInt64)
    (side : Side) (smpID : UInt32) : Option FixTemplate := do
  let orderID := kind.orderID sessionID botID seq
  let body ← buildFixBodyPadded kind seq orderID side qty price smpID
  let buf := finalizeFix fixVersion body
  let tag34 ← findSubslice buf (ascii "\x0134=")
  let tag54 ← findSubslice buf (ascii "\x0154=")
  let tag38 ← findSubslice buf (ascii "\x0138=")
  let priceOff ← findPrice kind buf
  let clordidHead :=
    ascii "\x0111=" ++ sessionID ++ ascii "_" ++ decimal botID.toNat ++ ascii "_"
  let clordid ← findSubslice buf clordidHead
  let tag52Off ← findTag52Offset buf
  let smpOff ← findSmp smpID buf
  return {
    kind := kind
    fixVersion := fixVersion
    sessionID := sessionID
    botID := botID
    buf := buf
    clordidSeqWidth := digitWidth seq.toNat
    clordidSeqOff := clordid + clordidHead.length
    tag34Off := tag34 + 4
    sideOff := tag54 + 4
    qtyOff := tag38 + 4
    priceOff := priceOff
    tag52Off := tag52Off
    checksumOff := buf.length - 4
    smpOff := smpOff
    smpID := smpID }

/-- The patch of the id, when the frame has one and it is another. -/
def writeSmp (t : FixTemplate) (buf : List UInt8) (smpID : UInt32) : List UInt8 × Nat × Nat :=
  match t.smpOff with
  | some off =>
      if smpID ≠ t.smpID then writePaddedU64 smpIdWidth buf off smpID.toNat else (buf, 0, 0)
  | none => (buf, 0, 0)

def writePrice (t : FixTemplate) (buf : List UInt8) (price : UInt64) : List UInt8 × Nat × Nat :=
  match t.priceOff with
  | some off => writePaddedU64 fixNumWidth buf off price.toNat
  | none => (buf, 0, 0)

def sideByte : Side → UInt8
  | .buy => 49
  | .sell => 50

/-- The branch of `patch` that writes over the old frame. -/
def rewrite (t : FixTemplate) (seq qty price : UInt64) (side : Side) (smpID : UInt32) :
    FixTemplate :=
  let (buf, o1, n1) := writePaddedU64 fixNumWidth t.buf t.tag34Off (seq + 1).toNat
  let (buf, o2, n2) := writePaddedU64 t.clordidSeqWidth buf t.clordidSeqOff seq.toNat
  let (buf, o3, n3) := t.writeSmp buf smpID
  let o4 := (buf.getD t.sideOff 0).toNat
  let n4 := (sideByte side).toNat
  let buf := buf.set t.sideOff (sideByte side)
  let (buf, o5, n5) := writePaddedU64 fixNumWidth buf t.qtyOff qty.toNat
  let (buf, o6, n6) := t.writePrice buf price
  { t with
    buf := applyChecksumDelta buf t.checksumOff (o1 + o2 + o3 + o4 + o5 + o6)
      (n1 + n2 + n3 + n4 + n5 + n6)
    smpID := if t.smpOff.isSome then smpID else t.smpID }

def frame (t : FixTemplate) (seq qty price : UInt64) (side : Side) (smpID : UInt32) :
    OrderFrame where
  orderID := t.kind.orderID t.sessionID t.botID seq
  origOrderID := []
  price := price
  qty := qty
  side := side
  bytes := t.buf
  tag52Offset := some t.tag52Off
  payloadType := t.kind.payloadType
  ordType := t.kind.ordType
  smpID := smpID

def patch (t : FixTemplate) (seq qty price : UInt64) (side : Side) (smpID : UInt32) :
    Option (FixTemplate × OrderFrame) := do
  let neededWidth := digitWidth seq.toNat
  let smpPresenceChanged := (smpID == smpIdNone) != t.smpOff.isNone
  let t ←
    if neededWidth ≠ t.clordidSeqWidth ∨ smpPresenceChanged = true then
      build t.kind t.fixVersion t.sessionID t.botID seq qty price side smpID
    else some (t.rewrite seq qty price side smpID)
  return (t, t.frame seq qty price side smpID)

end FixTemplate

/-! ### JSON -/

structure JsonTemplate where
  kind : FrameKind
  protocol : Protocol
  sessionID : List UInt8
  botID : UInt64
  targetHost : List UInt8
  buf : List UInt8
  clordidSeqWidth : Nat
  clordidSeqOff : Nat
  sideLen : Nat
  sideOff : Option Nat
  qtyWidth : Nat
  qtyOff : Option Nat
  priceWidth : Nat
  priceOff : Option Nat
  smpOff : Option Nat
  smpID : UInt32
  deriving DecidableEq, Repr

namespace JsonTemplate

/-- The bytes of the payload with the request around it, and where the payload starts. -/
def wrap (kind : FrameKind) (protocol : Protocol) (targetHost json : List UInt8) :
    Option (List UInt8 × Nat) :=
  match protocol with
  | .rest =>
      let rest := buildRestRequest kind.restMethod targetHost (kind.restPath []) json
      some (rest, rest.length - json.length)
  | .ws => some (json, 0)
  | .fix => none

def build (kind : FrameKind) (protocol : Protocol) (sessionID : List UInt8) (botID : UInt64)
    (targetHost : List UInt8) (seq qty price : UInt64) (side : Side) (smpID : UInt32) :
    Option JsonTemplate := do
  let orderID := kind.orderID sessionID botID seq
  let json ← buildJsonPayloadNatural kind orderID side qty price smpID
  let (buf, jsonStart) ← wrap kind protocol targetHost json
  let find := fun (needle : List UInt8) =>
    (findSubslice (buf.drop jsonStart) needle).map (fun p => jsonStart + p + needle.length)
  let clordidHead :=
    ascii "\"cl_ord_id\":\"" ++ sessionID ++ ascii "_" ++ decimal botID.toNat ++ ascii "_"
  let clordidSeqOff ← find clordidHead
  return {
    kind := kind
    protocol := protocol
    sessionID := sessionID
    botID := botID
    targetHost := targetHost
    buf := buf
    clordidSeqWidth := digitWidth seq.toNat
    clordidSeqOff := clordidSeqOff
    sideLen := (sideName side).length
    sideOff := find (ascii "\"side\":\"")
    qtyWidth := digitWidth qty.toNat
    qtyOff := find (ascii "\"qty\":")
    priceWidth := digitWidth price.toNat
    priceOff := find (ascii "\"price\":")
    smpOff := if smpID ≠ smpIdNone then find (ascii "\"smp_id\":\"") else none
    smpID := smpID }

/-- A number of the given width at an offset, when there is one. -/
def writeAt (buf : List UInt8) (off : Option Nat) (width v : Nat) : List UInt8 :=
  match off with
  | some off => (writePaddedU64 width buf off v).1
  | none => buf

/-- The branch of `patch` that writes over the old frame. -/
def rewrite (t : JsonTemplate) (seq qty price : UInt64) (side : Side) (smpID : UInt32) :
    JsonTemplate :=
  let buf := (writePaddedU64 t.clordidSeqWidth t.buf t.clordidSeqOff seq.toNat).1
  let buf := if smpID ≠ t.smpID then writeAt buf t.smpOff smpIdWidth smpID.toNat else buf
  let buf := writeAt buf t.qtyOff t.qtyWidth qty.toNat
  let buf := writeAt buf t.priceOff t.priceWidth price.toNat
  let buf := match t.sideOff with
    | some off => overwrite buf off (sideName side)
    | none => buf
  { t with
    buf := buf
    smpID := if t.smpOff.isSome then smpID else t.smpID }

def frame (t : JsonTemplate) (seq qty price : UInt64) (side : Side) (smpID : UInt32) :
    OrderFrame where
  orderID := t.kind.orderID t.sessionID t.botID seq
  origOrderID := []
  price := price
  qty := qty
  side := side
  bytes := t.buf
  tag52Offset := none
  payloadType := t.kind.payloadType
  ordType := t.kind.ordType
  smpID := smpID

/-- Whether a frame with these values does not fit over the old one. -/
def needsRebuild (t : JsonTemplate) (seq qty price : UInt64) (side : Side) (smpID : UInt32) : Bool :=
  let smpPresenceChanged := (smpID == smpIdNone) != t.smpOff.isNone
  digitWidth seq.toNat != t.clordidSeqWidth || (sideName side).length != t.sideLen ||
    digitWidth qty.toNat != t.qtyWidth ||
    (t.priceOff.isSome && digitWidth price.toNat != t.priceWidth) || smpPresenceChanged

def patch (t : JsonTemplate) (seq qty price : UInt64) (side : Side) (smpID : UInt32) :
    Option (JsonTemplate × OrderFrame) := do
  let t ←
    if t.needsRebuild seq qty price side smpID then
      build t.kind t.protocol t.sessionID t.botID t.targetHost seq qty price side smpID
    else some (t.rewrite seq qty price side smpID)
  return (t, t.frame seq qty price side smpID)

end JsonTemplate

/-! ### The cache -/

structure TemplateCache where
  protocol : Protocol
  fixVersion : List UInt8
  sessionID : List UInt8
  targetHost : List UInt8
  botID : UInt64
  smpIdCount : UInt32
  fix : FrameKind → Option FixTemplate
  json : FrameKind → Option JsonTemplate

namespace TemplateCache

def withSmp (protocol : Protocol) (fixVersion sessionID targetHost : List UInt8) (botID : UInt64)
    (smpIdCount : UInt32) : TemplateCache where
  protocol := protocol
  fixVersion := fixVersion
  sessionID := sessionID
  targetHost := targetHost
  botID := botID
  smpIdCount := smpIdCount
  fix := fun _ => none
  json := fun _ => none

/-- The id of an order: the ids go round with the sequence number. -/
def smpFor (c : TemplateCache) (seq : UInt64) : UInt32 :=
  if c.smpIdCount ≤ 1 then smpIdNone else (seq % c.smpIdCount.toUInt64).toUInt32

/-- The FIX template of a kind, built when there is none. -/
def fixTemplate (c : TemplateCache) (kind : FrameKind) (seq qty price : UInt64) (side : Side)
    (smpID : UInt32) : Option FixTemplate :=
  match c.fix kind with
  | some t => some t
  | none => FixTemplate.build kind c.fixVersion c.sessionID c.botID seq qty price side smpID

def jsonTemplate (c : TemplateCache) (kind : FrameKind) (seq qty price : UInt64) (side : Side)
    (smpID : UInt32) : Option JsonTemplate :=
  match c.json kind with
  | some t => some t
  | none =>
      JsonTemplate.build kind c.protocol c.sessionID c.botID c.targetHost seq qty price side smpID

def renderFast (c : TemplateCache) (kind : FrameKind) (seq qty price : UInt64) (side : Side) :
    Option (TemplateCache × OrderFrame) := do
  let smpID := c.smpFor seq
  match c.protocol with
  | .fix =>
      let t ← c.fixTemplate kind seq qty price side smpID
      let (t, frame) ← t.patch seq qty price side smpID
      return ({ c with fix := Function.update c.fix kind (some t) }, frame)
  | .rest | .ws =>
      let t ← c.jsonTemplate kind seq qty price side smpID
      let (t, frame) ← t.patch seq qty price side smpID
      return ({ c with json := Function.update c.json kind (some t) }, frame)

def renderNew (c : TemplateCache) (seq price qty : UInt64) (side : Side) :
    Option (TemplateCache × OrderFrame) :=
  c.renderFast .new seq qty price side

def renderMarket (c : TemplateCache) (seq qty : UInt64) (side : Side) :
    Option (TemplateCache × OrderFrame) :=
  c.renderFast .market seq qty 0 side

/-- A cancel is built from scratch each time, and so is a replace. -/
def renderCancel (c : TemplateCache) (seq : UInt64) (origOrderID : List UInt8) (price qty : UInt64)
    (side : Side) : Option OrderFrame :=
  buildFrame c.protocol c.fixVersion c.sessionID c.targetHost c.botID seq (some origOrderID) price qty
    side .cancel (c.smpFor seq)

def renderReplace (c : TemplateCache) (seq : UInt64) (origOrderID : List UInt8)
    (price qty : UInt64) (side : Side) : Option OrderFrame :=
  buildFrame c.protocol c.fixVersion c.sessionID c.targetHost c.botID seq (some origOrderID) price qty
    side .replace (c.smpFor seq)

end TemplateCache

end MatchBench.Bot
