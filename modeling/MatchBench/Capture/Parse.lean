import MatchBench.Lib.Search

/-!
# Framing and parsing captured bytes

`src/parse.rs` of the latency capture.  `frame` looks at the bytes reassembled so far
and says whether a whole message stands at their front, whether to wait, or how many
bytes to skip; `parse` reads the fields of a message.  There are three framers: FIX by
its body length, HTTP by its headers, and WebSocket by its frame header.

Bytes are lists.  Lengths are natural numbers, and where the source adds a length it
has parsed the sum is taken modulo `2 ^ 64`, as a release build does.  The substring
search is a crate's, so it is a parameter (`Finder`).
-/

namespace MatchBench.Capture

/-- The bytes of an ASCII literal. -/
def ascii (s : String) : List UInt8 := s.toList.map (fun c => c.toNat.toUInt8)

inductive Direction
  | request
  | response
  deriving DecidableEq, Repr

inductive Transport
  | fix
  | httpWs
  deriving DecidableEq, Repr

inductive Frame
  | message (n : Nat)
  | incomplete
  | resync (skip : Nat)
  deriving DecidableEq, Repr

inductive Classified
  | request
  | response
  | ignore
  deriving DecidableEq, Repr

structure ParsedMessage where
  classified : Classified
  clordid : String
  origClordid : String
  execType : String
  fillQty : UInt64
  fillPrice : UInt64
  liquidity : UInt8
  deriving DecidableEq, Repr

def soh : UInt8 := 0x01

def priceScale : Nat := 1000000000

def maxFixMessage : Nat := 64 * 1024

def fixBegin : List UInt8 := ascii "8=FIX"

def maxHttpMessage : Nat := 64 * 1024

def maxWsMessage : Nat := 2 ^ 20

/-! ### Scanning -/

def findByte (hay : List UInt8) (b : UInt8) (start : Nat) : Option Nat :=
  ((hay.drop start).findIdx? (· == b)).map (· + start)

def isAsciiDigit (c : UInt8) : Bool := 0x30 ≤ c && c ≤ 0x39

def isAsciiWhitespace (c : UInt8) : Bool :=
  c == 0x20 || c == 0x09 || c == 0x0A || c == 0x0C || c == 0x0D

def toAsciiLowercase (c : UInt8) : UInt8 := if 0x41 ≤ c && c ≤ 0x5A then c + 0x20 else c

/-- `v.saturating_mul(10).saturating_add(d)`. -/
def pushDigit (v : Nat) (c : UInt8) : Nat :=
  min (min (v * 10) (2 ^ 64 - 1) + (c - 0x30).toNat) (2 ^ 64 - 1)

def parseUint (b : List UInt8) : Option Nat :=
  if b = [] then none
  else if b.all isAsciiDigit then some (b.foldl pushDigit 0)
  else none

/-- The loop of `parse_decimal_scaled`: the whole part, the fraction, its digits and
whether the point was seen. -/
def decimalLoop : List UInt8 → Nat × Nat × Nat × Bool → Nat × Nat × Nat × Bool
  | [], acc => acc
  | c :: cs, (whole, frac, fracDigits, seenDot) =>
      if c = 0x2E then decimalLoop cs (whole, frac, fracDigits, true)
      else if isAsciiDigit c then
        if seenDot then
          if fracDigits < 9 then
            decimalLoop cs (whole, frac * 10 + (c - 0x30).toNat, fracDigits + 1, seenDot)
          else decimalLoop cs (whole, frac, fracDigits, seenDot)
        else decimalLoop cs (pushDigit whole c, frac, fracDigits, seenDot)
      else (whole, frac, fracDigits, seenDot)

def parseDecimalScaled (b : List UInt8) : UInt64 :=
  let (whole, frac, fracDigits, _) := decimalLoop b (0, 0, 0, false)
  UInt64.ofNat (min (min (whole * priceScale) (2 ^ 64 - 1) + frac * 10 ^ (9 - fracDigits))
    (2 ^ 64 - 1))

/-! ### Text -/

def isCont (b : UInt8) : Bool := b &&& 0xC0 == 0x80

/-- The second bytes a three-byte sequence may have. -/
def second3 (b0 b1 : UInt8) : Bool :=
  (b0 == 0xE0 && 0xA0 ≤ b1 && b1 ≤ 0xBF) || (0xE1 ≤ b0 && b0 ≤ 0xEC && isCont b1) ||
    (b0 == 0xED && 0x80 ≤ b1 && b1 ≤ 0x9F) || (0xEE ≤ b0 && isCont b1)

/-- The second bytes a four-byte sequence may have. -/
def second4 (b0 b1 : UInt8) : Bool :=
  (b0 == 0xF0 && 0x90 ≤ b1 && b1 ≤ 0xBF) || (0xF1 ≤ b0 && b0 ≤ 0xF3 && isCont b1) ||
    (b0 == 0xF4 && 0x80 ≤ b1 && b1 ≤ 0x8F)

def low (b : UInt8) (mask : UInt8) : Nat := (b &&& mask).toNat

/-- `String::from_utf8_lossy`: each longest broken sequence becomes U+FFFD. -/
def lossy : List UInt8 → List Char
  | [] => []
  | b0 :: rest =>
      if b0 < 0x80 then Char.ofNat b0.toNat :: lossy rest
      else if 0xC2 ≤ b0 && b0 ≤ 0xDF then
        match rest with
        | [] => [Char.ofNat 0xFFFD]
        | b1 :: rest1 =>
            if isCont b1 then Char.ofNat (low b0 0x1F * 64 + low b1 0x3F) :: lossy rest1
            else Char.ofNat 0xFFFD :: lossy (b1 :: rest1)
      else if 0xE0 ≤ b0 && b0 ≤ 0xEF then
        match rest with
        | [] => [Char.ofNat 0xFFFD]
        | b1 :: rest1 =>
            if second3 b0 b1 then
              match rest1 with
              | [] => [Char.ofNat 0xFFFD]
              | b2 :: rest2 =>
                  if isCont b2 then
                    Char.ofNat (low b0 0x0F * 4096 + low b1 0x3F * 64 + low b2 0x3F) :: lossy rest2
                  else Char.ofNat 0xFFFD :: lossy (b2 :: rest2)
            else Char.ofNat 0xFFFD :: lossy (b1 :: rest1)
      else if 0xF0 ≤ b0 && b0 ≤ 0xF4 then
        match rest with
        | [] => [Char.ofNat 0xFFFD]
        | b1 :: rest1 =>
            if second4 b0 b1 then
              match rest1 with
              | [] => [Char.ofNat 0xFFFD]
              | b2 :: rest2 =>
                  if isCont b2 then
                    match rest2 with
                    | [] => [Char.ofNat 0xFFFD]
                    | b3 :: rest3 =>
                        if isCont b3 then
                          Char.ofNat (low b0 0x07 * 262144 + low b1 0x3F * 4096 +
                            low b2 0x3F * 64 + low b3 0x3F) :: lossy rest3
                        else Char.ofNat 0xFFFD :: lossy (b3 :: rest3)
                  else Char.ofNat 0xFFFD :: lossy (b2 :: rest2)
            else Char.ofNat 0xFFFD :: lossy (b1 :: rest1)
      else Char.ofNat 0xFFFD :: lossy rest

def string (b : List UInt8) : String := String.ofList (lossy b)

/-! ### Framing -/

section

variable (mm : Finder UInt8)

def find (hay needle : List UInt8) : Option Nat :=
  if needle = [] then none else mm.find hay needle

def frameFix (buf : List UInt8) : Frame :=
  if buf.length < fixBegin.length then .incomplete
  else if !fixBegin.isPrefixOf buf then
    match find mm buf fixBegin with
    | some i => .resync i
    | none => .resync (buf.length - (fixBegin.length - 1))
  else
    match findByte buf soh 0 with
    | none => .incomplete
    | some soh1 =>
        if buf.length < soh1 + 3 then .incomplete
        else if (buf.drop (soh1 + 1)).take 2 ≠ ascii "9=" then .resync (soh1 + 1)
        else
          match findByte buf soh (soh1 + 3) with
          | none => .incomplete
          | some soh2 =>
              match parseUint ((buf.take soh2).drop (soh1 + 3)) with
              | none => .resync (soh2 + 1)
              | some bodyLen =>
                  let total := ((soh2 + 1) + bodyLen + 7) % 2 ^ 64
                  if maxFixMessage < bodyLen then .resync (soh1 + 1)
                  else if buf.length < total then .incomplete
                  else .message total

/-- The tokens that open an HTTP message. -/
def httpPrefixes : List (List UInt8) :=
  [ascii "POST", ascii "GET ", ascii "PUT ", ascii "DELE", ascii "HTTP"]

def isHttpMethodPrefix (buf : List UInt8) : Bool :=
  httpPrefixes.any (fun p => buf.length < p.length && buf.isPrefixOf p)

def looksLikeHttp (buf : List UInt8) : Bool := httpPrefixes.any (fun p => p.isPrefixOf buf)

/-- The bytes up to a carriage return. -/
def line (rest : List UInt8) : List UInt8 := rest.takeWhile (fun b => b != 0x0D)

def headerIsChunked (headers : List UInt8) : Bool :=
  let lower := headers.map toAsciiLowercase
  match find mm lower (ascii "transfer-encoding:") with
  | some i =>
      (find mm (line (lower.drop (i + (ascii "transfer-encoding:").length)))
        (ascii "chunked")).isSome
  | none => false

def headerContentLength (headers : List UInt8) : Option Nat :=
  let lower := headers.map toAsciiLowercase
  match find mm lower (ascii "content-length:") with
  | some i =>
      parseUint ((line (headers.drop (i + (ascii "content-length:").length))).filter
        (fun b => !isAsciiWhitespace b))
  | none => none

def frameHttp (buf : List UInt8) : Frame :=
  match find mm buf (ascii "\r\n\r\n") with
  | none => if maxHttpMessage < buf.length then .resync buf.length else .incomplete
  | some hdrEnd =>
      let bodyStart := hdrEnd + 4
      if headerIsChunked mm (buf.take hdrEnd) then
        match find mm (buf.drop bodyStart) (ascii "0\r\n\r\n") with
        | some rel =>
            let total := bodyStart + rel + 5
            if maxHttpMessage < total then .resync bodyStart else .message total
        | none => if maxHttpMessage < buf.length then .resync bodyStart else .incomplete
      else
        let contentLen := (headerContentLength mm (buf.take hdrEnd)).getD 0
        let total := (bodyStart + contentLen) % 2 ^ 64
        if maxHttpMessage < total then .resync bodyStart
        else if buf.length < total then .incomplete
        else .message total

def isWsOpcode (b : UInt8) : Bool :=
  [0x0, 0x1, 0x2, 0x8, 0x9, 0xA].contains (b &&& 0x0F)

def isWsFrameHeader (b : UInt8) : Bool := b &&& 0x70 == 0 && isWsOpcode b

/-- A big-endian number. -/
def fromBeBytes (bs : List UInt8) : Nat := bs.foldl (fun v b => v * 256 + b.toNat) 0

/-- The header of a WebSocket frame: its size without the mask and the payload length. -/
inductive WsHeader
  | incomplete
  | oversized
  | header (size payloadLen : Nat)
  deriving DecidableEq, Repr

/-- The length fields of a frame header of at least two bytes. -/
def wsHeader (buf : List UInt8) : WsHeader :=
  let len7 := (buf.getD 1 0 &&& 0x7F).toNat
  if len7 < 126 then .header 2 len7
  else if len7 = 126 then
    if buf.length < 4 then .incomplete else .header 4 (fromBeBytes ((buf.drop 2).take 2))
  else if buf.length < 10 then .incomplete
  else
    let len := fromBeBytes ((buf.drop 2).take 8)
    if maxWsMessage < len then .oversized else .header 10 len

def frameWs (direction : Direction) (buf : List UInt8) : Frame :=
  if buf.length < 2 then .incomplete
  else if !isWsFrameHeader (buf.getD 0 0) then .resync 1
  else
    let masked := buf.getD 1 0 &&& 0x80 != 0
    match wsHeader buf with
    | .incomplete => .incomplete
    | .oversized => .resync 1
    | .header size payloadLen =>
        let header := if masked then size + 4 else size
        if masked != (direction == .request) then .resync 1
        else
          let total := header + payloadLen
          if buf.length < total then .incomplete else .message total

def frameHttpWs (direction : Direction) (buf : List UInt8) : Frame :=
  if buf = [] then .incomplete
  else if looksLikeHttp buf then frameHttp mm buf
  else if isHttpMethodPrefix buf then .incomplete
  else frameWs direction buf

def frame (transport : Transport) (direction : Direction) (buf : List UInt8) : Frame :=
  match transport with
  | .fix => frameFix mm buf
  | .httpWs => frameHttpWs mm direction buf

def wsLooksCompressed (direction : Direction) (buf : List UInt8) : Bool :=
  if buf.length < 2 then false
  else if buf.getD 0 0 &&& 0x40 == 0 || buf.getD 0 0 &&& 0x30 != 0 then false
  else if !isWsOpcode (buf.getD 0 0) then false
  else
    let masked := buf.getD 1 0 &&& 0x80 != 0
    if masked != (direction == .request) then false
    else
      let len7 := (buf.getD 1 0 &&& 0x7F).toNat
      if 126 ≤ len7 then false
      else 2 + (if masked then 4 else 0) + len7 ≤ buf.length

/-! ### Parsing -/

/-- The locals of the loop over the fields of a FIX message. -/
structure FixFields where
  msgType : List UInt8 := []
  clordid : String := ""
  orig : String := ""
  exec150 : String := ""
  ordstatus39 : String := ""
  fillQty : UInt64 := 0
  fillPrice : UInt64 := 0
  liquidity : UInt8 := 0
  deriving DecidableEq, Repr

def uintOrZero (val : List UInt8) : Nat := (parseUint val).getD 0

def fixField (f : FixFields) (field : List UInt8) : FixFields :=
  match field.findIdx? (· == 0x3D) with
  | none => f
  | some eq =>
      let tag := field.take eq
      let val := field.drop (eq + 1)
      if tag = ascii "35" then { f with msgType := val }
      else if tag = ascii "11" then { f with clordid := string val }
      else if tag = ascii "41" then { f with orig := string val }
      else if tag = ascii "150" then { f with exec150 := string val }
      else if tag = ascii "39" then { f with ordstatus39 := string val }
      else if tag = ascii "32" then { f with fillQty := UInt64.ofNat (uintOrZero val) }
      else if tag = ascii "31" then { f with fillPrice := parseDecimalScaled val }
      else if tag = ascii "851" then { f with liquidity := UInt8.ofNat (uintOrZero val) }
      else f

def parseFix (direction : Direction) (msg : List UInt8) : ParsedMessage :=
  let f := (msg.splitOnP (· == soh)).foldl fixField {}
  { classified :=
      match direction with
      | .request =>
          if f.msgType = ascii "D" ∨ f.msgType = ascii "F" ∨ f.msgType = ascii "G" then .request
          else .ignore
      | .response => if f.msgType = ascii "8" then .response else .ignore
    clordid := f.clordid
    origClordid := f.orig
    execType := if f.exec150 ≠ "" then f.exec150 else f.ordstatus39
    fillQty := f.fillQty
    fillPrice := f.fillPrice
    liquidity := f.liquidity }

def wsUnmaskedPayload (frame : List UInt8) : List UInt8 :=
  if frame.length < 2 then []
  else
    let masked := frame.getD 1 0 &&& 0x80 != 0
    let len7 := (frame.getD 1 0 &&& 0x7F).toNat
    let head :=
      if len7 < 126 then some (2, len7)
      else if len7 = 126 ∧ 4 ≤ frame.length then some (4, fromBeBytes ((frame.drop 2).take 2))
      else if len7 = 127 ∧ 10 ≤ frame.length then some (10, fromBeBytes ((frame.drop 2).take 8))
      else none
    match head with
    | none => []
    | some (off, payloadLen) =>
        if masked then
          if frame.length < off + 4 then []
          else
            let mask := (frame.drop off).take 4
            let stop := min ((off + 4 + payloadLen) % 2 ^ 64) frame.length
            ((frame.take stop).drop (off + 4)).zipIdx.map (fun (b, i) => b ^^^ mask.getD (i % 4) 0)
        else
          let stop := min ((off + payloadLen) % 2 ^ 64) frame.length
          (frame.take stop).drop off

/-- The text after the first `key` and the colon behind it. -/
def jsonAfter (body : List UInt8) (key : String) : Option (List UInt8) := do
  let pat := ascii "\"" ++ ascii key ++ ascii "\""
  let i ← find mm body pat
  let rest := body.drop (i + pat.length)
  let colon ← rest.findIdx? (· == 0x3A)
  return rest.drop (colon + 1)

def jsonString (body : List UInt8) (key : String) : Option String := do
  let after ← jsonAfter mm body key
  let q1 ← after.findIdx? (· == 0x22)
  let afterQ := after.drop (q1 + 1)
  let q2 ← afterQ.findIdx? (· == 0x22)
  return string (afterQ.take q2)

def jsonValueSlice (body : List UInt8) (key : String) : Option (List UInt8) := do
  let after ← jsonAfter mm body key
  let start ← after.findIdx? (fun b => !isAsciiWhitespace b)
  return (after.drop start).takeWhile (fun b => !(b == 0x2C || b == 0x7D || b == 0x22 || b == 0x20))

def jsonUint (body : List UInt8) (key : String) : Option Nat := do
  parseUint (← jsonValueSlice mm body key)

def jsonDecimalScaled (body : List UInt8) (key : String) : Option UInt64 := do
  return parseDecimalScaled (← jsonValueSlice mm body key)

def parseJson (direction : Direction) (body : List UInt8) : ParsedMessage :=
  let clordid := (jsonString mm body "cl_ord_id").getD ""
  { classified :=
      if clordid = "" then .ignore
      else if direction = .request then .request
      else .response
    clordid := clordid
    origClordid := (jsonString mm body "orig_cl_ord_id").getD ""
    execType := (jsonString mm body "exec_type").getD ""
    fillQty := UInt64.ofNat ((jsonUint mm body "fill_qty").getD 0)
    fillPrice := (jsonDecimalScaled mm body "fill_price").getD 0
    liquidity := UInt8.ofNat ((jsonUint mm body "liquidity").getD 0) }

def parseHttpWs (direction : Direction) (msg : List UInt8) : ParsedMessage :=
  let body :=
    if looksLikeHttp msg then
      match find mm msg (ascii "\r\n\r\n") with
      | some i => msg.drop (i + 4)
      | none => []
    else wsUnmaskedPayload msg
  parseJson mm direction body

def parse (transport : Transport) (direction : Direction) (msg : List UInt8) : ParsedMessage :=
  match transport with
  | .fix => parseFix direction msg
  | .httpWs => parseHttpWs mm direction msg

end

end MatchBench.Capture
