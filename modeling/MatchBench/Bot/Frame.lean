import MatchBench.Lib.Form
import MatchBench.Model.Order
import MatchBench.Capture.Parse

/-!
# Frames of the bot fleet

The parts of `src/fix.rs` of the bot fleet that build a frame from scratch: order ids,
numbers, the FIX message with its body length and checksum, the JSON payload, the REST
request around it and the masked WebSocket frame.

A string is the list of its bytes.  `decimal` is what formatting a number without a
width gives.  A builder that would stop the program (`unreachable!`, `panic!`) returns
nothing.
-/

namespace MatchBench.Bot

open Capture (ascii soh)

inductive Protocol
  | fix
  | rest
  | ws
  deriving DecidableEq, Repr

inductive PayloadType
  | new
  | cancel
  | replace
  deriving DecidableEq, Repr

inductive OrdType
  | limit
  | market
  deriving DecidableEq, Repr

/-- An order without an id for the prevention of self matches. -/
def smpIdNone : UInt32 := 0xFFFFFFFF

/-- `validate_identifier`: letters, digits, and a few more. -/
def validIdentifier (value : List UInt8) : Bool :=
  !value.isEmpty && value.all (fun b =>
    (48 ≤ b && b ≤ 57) || (65 ≤ b && b ≤ 90) || (97 ≤ b && b ≤ 122) ||
      b == 45 || b == 95 || b == 46)

structure OrderFrame where
  orderID : List UInt8
  origOrderID : List UInt8
  price : UInt64
  qty : UInt64
  side : Side
  bytes : List UInt8
  tag52Offset : Option Nat
  payloadType : PayloadType
  ordType : OrdType
  smpID : UInt32
  deriving DecidableEq, Repr

/-! ### Numbers -/

def fixNumWidth : Nat := 20

def smpIdWidth : Nat := 3

/-- The loop of `digit_width`; a 64-bit number takes at most nineteen turns. -/
def digitWidthLoop : Nat → Nat → Nat → Nat
  | 0, w, _ => w
  | turns + 1, w, v => if 0 < v then digitWidthLoop turns (w + 1) (v / 10) else w

def digitWidth (v : Nat) : Nat := digitWidthLoop 20 1 (v / 10)

/-- A number with as many digits as it has. -/
def decimal (v : Nat) : List UInt8 := padded (digitWidth v) v

/-- `format!("{v:0width$}")`: at least `width` digits. -/
def padU64 (v : Nat) (width : Nat) : List UInt8 := padded (max width (digitWidth v)) v

/-- The position of the first window equal to the needle. -/
def findSubslice (haystack needle : List UInt8) : Option Nat :=
  if needle = [] ∨ haystack.length < needle.length then none
  else Finder.naive.find haystack needle

/-! ### Kinds of frames -/

inductive FrameKind
  | new
  | market
  | cancel
  | replace
  deriving DecidableEq, Repr

namespace FrameKind

def payloadType : FrameKind → PayloadType
  | .new | .market => .new
  | .cancel => .cancel
  | .replace => .replace

def ordType : FrameKind → OrdType
  | .market => .market
  | .new | .cancel | .replace => .limit

/-- The letter that an order id ends with. -/
def letter : FrameKind → UInt8
  | .new => 79
  | .market => 77
  | .cancel => 67
  | .replace => 82

/-- `{session_id}_{bot_id}_{seq}_` and the letter of the kind. -/
def orderID (kind : FrameKind) (sessionID : List UInt8) (botID seq : UInt64) : List UInt8 :=
  sessionID ++ ascii "_" ++ decimal botID.toNat ++ ascii "_" ++ decimal seq.toNat ++ ascii "_" ++
    [kind.letter]

def restMethod : FrameKind → List UInt8
  | .new | .market => ascii "POST"
  | .cancel => ascii "DELETE"
  | .replace => ascii "PUT"

def restPath (kind : FrameKind) (origOrderID : List UInt8) : List UInt8 :=
  match kind with
  | .new | .market => ascii "/orders"
  | .cancel | .replace => ascii "/orders/" ++ origOrderID

end FrameKind

/-! ### FIX -/

def fixTimestampPlaceholder : List UInt8 := ascii "19700101-00:00:00.000"

def findTag52Offset (fix : List UInt8) : Option Nat :=
  (findSubslice fix (ascii "52=" ++ fixTimestampPlaceholder)).map (· + 3)

/-- The tag 7928, or nothing. -/
def fixSmpTag (smpID : UInt32) : List UInt8 :=
  if smpID = smpIdNone then [] else ascii "7928=" ++ padU64 smpID.toNat smpIdWidth ++ [soh]

def sideTag : Side → List UInt8
  | .buy => ascii "1"
  | .sell => ascii "2"

/-- The body of a message; a cancel or replace without the id of an earlier order stops the
program. -/
def buildFixBody (kind : FrameKind) (seq : UInt64) (orderID : List UInt8)
    (origOrderID : Option (List UInt8)) (price qty : UInt64) (side : Side) (smpID : UInt32) :
    Option (List UInt8) :=
  let msgSeqNum := decimal (seq + 1).toNat
  let smp := fixSmpTag smpID
  match kind with
  | .new =>
      some (ascii "35=D\x0149=IICPC-BOT\x0156=CONTESTANT\x0134=" ++ msgSeqNum ++
        ascii "\x0152=19700101-00:00:00.000\x0111=" ++ orderID ++
        ascii "\x0121=1\x0155=IICPC\x0154=" ++ sideTag side ++ ascii "\x0138=" ++
        decimal qty.toNat ++ ascii "\x0140=2\x0144=" ++ decimal price.toNat ++ ascii "\x01" ++ smp ++
        ascii "59=0\x01")
  | .market =>
      some (ascii "35=D\x0149=IICPC-BOT\x0156=CONTESTANT\x0134=" ++ msgSeqNum ++
        ascii "\x0152=19700101-00:00:00.000\x0111=" ++ orderID ++
        ascii "\x0121=1\x0155=IICPC\x0154=" ++ sideTag side ++ ascii "\x0138=" ++
        decimal qty.toNat ++ ascii "\x0140=1\x01" ++ smp ++ ascii "59=0\x01")
  | .cancel => do
      let origOrderID ← origOrderID
      return ascii "35=F\x0149=IICPC-BOT\x0156=CONTESTANT\x0134=" ++ msgSeqNum ++
        ascii "\x0152=19700101-00:00:00.000\x0111=" ++ orderID ++ ascii "\x0141=" ++ origOrderID ++
        ascii "\x0155=IICPC\x0154=" ++ sideTag side ++ ascii "\x0138=" ++ decimal qty.toNat ++
        ascii "\x01" ++ smp
  | .replace => do
      let origOrderID ← origOrderID
      return ascii "35=G\x0149=IICPC-BOT\x0156=CONTESTANT\x0134=" ++ msgSeqNum ++
        ascii "\x0152=19700101-00:00:00.000\x0111=" ++ orderID ++ ascii "\x0141=" ++ origOrderID ++
        ascii "\x0121=1\x0155=IICPC\x0154=" ++ sideTag side ++ ascii "\x0138=" ++
        decimal qty.toNat ++ ascii "\x0140=2\x0144=" ++ decimal price.toNat ++ ascii "\x01" ++ smp

/-- The body of a new order, its numbers at full width. -/
def buildFixBodyPadded (kind : FrameKind) (seq : UInt64) (orderID : List UInt8) (side : Side)
    (qty price : UInt64) (smpID : UInt32) : Option (List UInt8) :=
  let msgSeqNum := padU64 (seq + 1).toNat fixNumWidth
  let qtyS := padU64 qty.toNat fixNumWidth
  let smp := fixSmpTag smpID
  match kind with
  | .new =>
      let priceS := padU64 price.toNat fixNumWidth
      some (ascii "35=D\x0149=IICPC-BOT\x0156=CONTESTANT\x0134=" ++ msgSeqNum ++
        ascii "\x0152=" ++ fixTimestampPlaceholder ++ ascii "\x0111=" ++ orderID ++
        ascii "\x0121=1\x0155=IICPC\x0154=" ++ sideTag side ++ ascii "\x0138=" ++ qtyS ++
        ascii "\x0140=2\x0144=" ++ priceS ++ [soh] ++ smp ++ ascii "59=0\x01")
  | .market =>
      some (ascii "35=D\x0149=IICPC-BOT\x0156=CONTESTANT\x0134=" ++ msgSeqNum ++
        ascii "\x0152=" ++ fixTimestampPlaceholder ++ ascii "\x0111=" ++ orderID ++
        ascii "\x0121=1\x0155=IICPC\x0154=" ++ sideTag side ++ ascii "\x0138=" ++ qtyS ++
        ascii "\x0140=1" ++ [soh] ++ smp ++ ascii "59=0\x01")
  | .cancel | .replace => none

/-- The header with the body length, the body, and the checksum. -/
def finalizeFix (fixVersion body : List UInt8) : List UInt8 :=
  let frame := ascii "8=" ++ fixVersion ++ ascii "\x019=" ++ decimal body.length ++ [soh] ++ body
  frame ++ ascii "10=" ++ padU64 (byteSum frame % 256) 3 ++ [soh]

/-! ### JSON -/

/-- The digit of a value below sixteen. -/
def hexDigit (n : UInt8) : UInt8 := if n < 10 then 48 + n else 87 + n

/-- One byte of a JSON string. -/
def jsonEscape (b : UInt8) : List UInt8 :=
  if b = 34 then ascii "\\\""
  else if b = 92 then ascii "\\\\"
  else if b = 8 then ascii "\\b"
  else if b = 9 then ascii "\\t"
  else if b = 10 then ascii "\\n"
  else if b = 12 then ascii "\\f"
  else if b = 13 then ascii "\\r"
  else if b < 32 then ascii "\\u00" ++ [hexDigit (b / 16), hexDigit (b % 16)]
  else [b]

/-- `serde_json::to_string` of a string. -/
def jsonString (s : List UInt8) : List UInt8 := ascii "\"" ++ s.flatMap jsonEscape ++ ascii "\""

def sideName : Side → List UInt8
  | .buy => ascii "BUY"
  | .sell => ascii "SELL"

/-- The member `smp_id`, or nothing. -/
def jsonSmpField (smpID : UInt32) : List UInt8 :=
  if smpID = smpIdNone then []
  else ascii ",\"smp_id\":\"" ++ padU64 smpID.toNat smpIdWidth ++ ascii "\""

def buildJsonPayload (kind : FrameKind) (orderID : List UInt8) (origOrderID : Option (List UInt8))
    (price qty : UInt64) (side : Side) : Option (List UInt8) :=
  match kind with
  | .new =>
      some (ascii "\x7b\"cl_ord_id\":" ++ jsonString orderID ++
        ascii ",\"symbol\":\"IICPC\",\"side\":\"" ++ sideName side ++ ascii "\",\"qty\":" ++
        decimal qty.toNat ++ ascii ",\"price\":" ++ decimal price.toNat ++ ascii "\x7d")
  | .market =>
      some (ascii "\x7b\"cl_ord_id\":" ++ jsonString orderID ++
        ascii ",\"symbol\":\"IICPC\",\"side\":\"" ++ sideName side ++ ascii "\",\"qty\":" ++
        decimal qty.toNat ++ ascii ",\"ord_type\":\"MARKET\"\x7d")
  | .cancel => do
      let origOrderID ← origOrderID
      return ascii "\x7b\"action\":\"CANCEL\",\"cl_ord_id\":\"" ++ orderID ++
        ascii "\",\"orig_cl_ord_id\":\"" ++ origOrderID ++ ascii "\",\"symbol\":\"IICPC\"\x7d"
  | .replace => do
      let origOrderID ← origOrderID
      return ascii "\x7b\"action\":\"REPLACE\",\"cl_ord_id\":\"" ++ orderID ++
        ascii "\",\"orig_cl_ord_id\":\"" ++ origOrderID ++
        ascii "\",\"symbol\":\"IICPC\",\"side\":\"" ++ sideName side ++ ascii "\",\"qty\":" ++
        decimal qty.toNat ++ ascii ",\"price\":" ++ decimal price.toNat ++ ascii "\x7d"

def buildJsonPayloadNatural (kind : FrameKind) (orderID : List UInt8) (side : Side)
    (qty price : UInt64) (smpID : UInt32) : Option (List UInt8) :=
  let smp := jsonSmpField smpID
  match kind with
  | .new =>
      some (ascii "\x7b\"cl_ord_id\":" ++ jsonString orderID ++
        ascii ",\"symbol\":\"IICPC\",\"side\":\"" ++ sideName side ++ ascii "\",\"qty\":" ++
        decimal qty.toNat ++ ascii ",\"price\":" ++ decimal price.toNat ++ smp ++ ascii "\x7d")
  | .market =>
      some (ascii "\x7b\"cl_ord_id\":" ++ jsonString orderID ++
        ascii ",\"symbol\":\"IICPC\",\"side\":\"" ++ sideName side ++ ascii "\",\"qty\":" ++
        decimal qty.toNat ++ ascii ",\"ord_type\":\"MARKET\"" ++ smp ++ ascii "\x7d")
  | .cancel | .replace => none

def buildRestRequest (method targetHost path json : List UInt8) : List UInt8 :=
  method ++ ascii " " ++ path ++ ascii " HTTP/1.1\r\nHost: " ++ targetHost ++
    ascii "\r\nContent-Type: application/json\r\nContent-Length: " ++ decimal json.length ++
    ascii "\r\nConnection: keep-alive\r\n\r\n" ++ json

/-- The bytes of a frame and where its timestamp stands. -/
def buildBytes (protocol : Protocol) (fixVersion targetHost : List UInt8) (seq : UInt64)
    (orderID : List UInt8) (origOrderID : Option (List UInt8)) (price qty : UInt64) (side : Side)
    (kind : FrameKind) (smpID : UInt32) : Option (List UInt8 × Option Nat) := do
  match protocol with
  | .fix =>
      let body ← buildFixBody kind seq orderID origOrderID price qty side smpID
      let fix := finalizeFix fixVersion body
      return (fix, findTag52Offset fix)
  | .rest =>
      let json ← buildJsonPayload kind orderID origOrderID price qty side
      return (buildRestRequest kind.restMethod targetHost (kind.restPath (origOrderID.getD [])) json,
        none)
  | .ws =>
      let json ← buildJsonPayload kind orderID origOrderID price qty side
      return (json, none)

def buildFrame (protocol : Protocol) (fixVersion sessionID targetHost : List UInt8)
    (botID seq : UInt64) (origOrderID : Option (List UInt8)) (price qty : UInt64) (side : Side)
    (kind : FrameKind) (smpID : UInt32) : Option OrderFrame := do
  let orderID := kind.orderID sessionID botID seq
  let (bytes, tag52Offset) ← buildBytes protocol fixVersion targetHost seq orderID origOrderID price
    qty side kind smpID
  return {
    orderID := orderID
    origOrderID := origOrderID.getD []
    price := price
    qty := qty
    side := side
    bytes := bytes
    tag52Offset := tag52Offset
    payloadType := kind.payloadType
    ordType := kind.ordType
    smpID := smpID }

/-- The masked frame of a client; payloads of more than sixteen bits of length stop the
program. -/
def buildWsFrame (payload : List UInt8) (maskKey : Fin 4 → UInt8) : Option (List UInt8) :=
  let len := payload.length
  let masked := payload.zipIdx.map (fun x => x.1 ^^^ maskKey (Fin.ofNat 4 x.2))
  let key := List.ofFn maskKey
  if len < 126 then some ([0x81, 0x80 ||| UInt8.ofNat len] ++ key ++ masked)
  else if len < 65536 then
    some ([0x81, 0x80 ||| 126, UInt8.ofNat (len / 256), UInt8.ofNat (len % 256)] ++ key ++ masked)
  else none

end MatchBench.Bot
