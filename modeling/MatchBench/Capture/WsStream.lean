import MatchBench.Capture.Replay
import MatchBench.Lib.Wire

/-!
# WebSocket frames in segments

A WebSocket frame says in its header how long its payload is, in one of three forms.  A frame
of a client is masked and one of a server is not, and `WsFrame.bytes` writes both as the
`ws_frame` of `src/framing_property.rs` does.  The framer takes such a frame whole
(`WsFrame.whole`), its payload is what the parser reads (`wsUnmaskedPayload_bytes`), and no part
of it is taken for HTTP.

`maxWsMessage` limits the payload and not the frame, and it is just the length at which the
reassembler gives its buffer up.  So there are frames the framer waits for that the
buffer has no room for.  `ws_roundTrip_iff` says which divisions of a stream into segments are
those in which the frames arrive.
-/

namespace MatchBench.Capture

open List
open Reassembler

/-! ### Frames -/

inductive WsOpcode
  | continuation
  | text
  | binary
  | close
  | ping
  | pong
  deriving DecidableEq, Repr

def WsOpcode.code : WsOpcode → UInt8
  | .continuation => 0x0
  | .text => 0x1
  | .binary => 0x2
  | .close => 0x8
  | .ping => 0x9
  | .pong => 0xA

/-- The forms of the payload length: in seven bits, in sixteen and in sixty-four. -/
inductive LenForm
  | short
  | extended16
  | extended64
  deriving DecidableEq, Repr

namespace LenForm

/-- The longest payload of a form, the last as the framer has it. -/
def limit : LenForm → Nat
  | .short => 125
  | .extended16 => 65535
  | .extended64 => maxWsMessage

/-- The second byte of the header and the length after it. -/
def lengthBytes (form : LenForm) (maskBit : UInt8) (len : Nat) : List UInt8 :=
  match form with
  | .short => [maskBit ||| UInt8.ofNat len]
  | .extended16 => (maskBit ||| 126) :: toBe 2 len
  | .extended64 => (maskBit ||| 127) :: toBe 8 len

/-- The length of the header without the mask. -/
def size : LenForm → Nat
  | .short => 2
  | .extended16 => 4
  | .extended64 => 10

end LenForm

def wsMask (key : List UInt8) (payload : List UInt8) : List UInt8 :=
  payload.zipIdx.map (fun (b, i) => b ^^^ key.getD (i % 4) 0)

/-- A frame that keeps to the limits of the framer. -/
structure WsFrame where
  fin : Bool
  opcode : WsOpcode
  form : LenForm
  maskKey : List UInt8
  payload : List UInt8
  maskKey_length : maskKey.length = 4
  payload_le : payload.length ≤ form.limit

namespace WsFrame

def first (f : WsFrame) : UInt8 := (if f.fin then 0x80 else 0) ||| f.opcode.code

def maskBit : Direction → UInt8
  | .request => 0x80
  | .response => 0

def header (direction : Direction) (f : WsFrame) : List UInt8 :=
  f.first :: f.form.lengthBytes (maskBit direction) f.payload.length

/-- What stands behind the lengths: for a request the key and the masked payload. -/
def content (direction : Direction) (f : WsFrame) : List UInt8 :=
  match direction with
  | .request => f.maskKey ++ wsMask f.maskKey f.payload
  | .response => f.payload

def bytes (direction : Direction) (f : WsFrame) : List UInt8 := f.header direction ++ f.content direction

end WsFrame

/-! ### What the framer and the parser read -/

theorem fromBeBytes_eq_ofBe (bs : List UInt8) : fromBeBytes bs = ofBe bs := by
  rw [fromBeBytes, foldl_be, Nat.zero_mul, zero_add]

theorem length_wsMask (key payload : List UInt8) : (wsMask key payload).length = payload.length := by
  rw [wsMask, length_map, length_zipIdx]

theorem wsMask_wsMask (key payload : List UInt8) : wsMask key (wsMask key payload) = payload := by
  apply ext_getElem
  · rw [length_wsMask, length_wsMask]
  · intro i _ _
    simp only [wsMask, getElem_map, getElem_zipIdx, zero_add]
    rw [UInt8.xor_assoc, UInt8.xor_self, UInt8.xor_zero]

namespace LenForm

theorem limit_le (form : LenForm) : form.limit ≤ maxWsMessage := by
  cases form <;> decide

theorem length_lengthBytes (form : LenForm) (maskBit : UInt8) (len : Nat) :
    (form.lengthBytes maskBit len).length + 1 = form.size := by
  cases form <;> simp [lengthBytes, size]

end LenForm

theorem wsUnmaskedPayload_of_header {frame : List UInt8} {size len : Nat} (h2 : 2 ≤ frame.length)
    (h : wsHeader frame = .header size len) :
    wsUnmaskedPayload frame =
      if (frame.getD 1 0 &&& 0x80 != 0) = true then
        if frame.length < size + 4 then []
        else wsMask ((frame.drop size).take 4)
          ((frame.take (min ((size + 4 + len) % 2 ^ 64) frame.length)).drop (size + 4))
      else (frame.take (min ((size + len) % 2 ^ 64) frame.length)).drop size := by
  have h127 : (frame.getD 1 0 &&& 0x7F).toNat < 128 := by
    rw [UInt8.toNat_and]
    exact lt_of_le_of_lt Nat.and_le_right (by decide)
  rw [wsHeader] at h
  rw [wsUnmaskedPayload, if_neg (by omega)]
  generalize (frame.getD 1 0 &&& 0x7F).toNat = len7 at h h127 ⊢
  dsimp only at h ⊢
  by_cases hshort : len7 < 126
  · rw [if_pos hshort] at h ⊢
    obtain ⟨rfl, rfl⟩ := WsHeader.header.inj h
    rfl
  rw [if_neg hshort] at h ⊢
  by_cases h126 : len7 = 126
  · rw [if_pos h126] at h
    split at h
    · exact absurd h (by simp)
    · obtain ⟨rfl, rfl⟩ := WsHeader.header.inj h
      rw [if_pos ⟨h126, by omega⟩]
      rfl
  rw [if_neg h126] at h
  split at h
  · exact absurd h (by simp)
  split at h
  · exact absurd h (by simp)
  · obtain ⟨rfl, rfl⟩ := WsHeader.header.inj h
    rw [if_neg fun hc => h126 hc.1, if_pos ⟨by omega, by omega⟩]
    rfl

theorem secondByte (direction : Direction) {n : Nat} (h : n < 128) :
    ((WsFrame.maskBit direction ||| UInt8.ofNat n) &&& 0x7F).toNat = n ∧
      ((WsFrame.maskBit direction ||| UInt8.ofNat n) &&& 0x80 != 0) = (direction == .request) := by
  have hall : ∀ n < 128, ∀ direction ∈ [Direction.request, Direction.response],
      ((WsFrame.maskBit direction ||| UInt8.ofNat n) &&& 0x7F).toNat = n ∧
      ((WsFrame.maskBit direction ||| UInt8.ofNat n) &&& 0x80 != 0) = (direction == .request) := by
    decide +kernel
  exact hall n h direction (by cases direction <;> decide)

namespace WsFrame

variable (f : WsFrame) (direction : Direction)

theorem length_header : (f.header direction).length = f.form.size := by
  rw [header, length_cons, f.form.length_lengthBytes]

theorem length_content :
    (f.content direction).length = (if direction = .request then 4 else 0) + f.payload.length := by
  cases direction with
  | request => rw [content, length_append, f.maskKey_length, length_wsMask, if_pos rfl]
  | response => rw [content, if_neg (by decide), zero_add]

theorem length_bytes :
    (f.bytes direction).length =
      f.form.size + ((if direction = .request then 4 else 0) + f.payload.length) := by
  rw [bytes, length_append, length_header, length_content]

theorem two_le_size : 2 ≤ f.form.size := by
  cases f.form <;> decide

theorem isWsFrameHeader_first : isWsFrameHeader f.first = true := by
  rw [first]
  cases f.fin <;> cases f.opcode <;> decide

theorem bytes_ne_nil : f.bytes direction ≠ [] := cons_ne_nil _ _

/-- The seven bits of the length in the second byte. -/
def len7 : Nat :=
  match f.form with
  | .short => f.payload.length
  | .extended16 => 126
  | .extended64 => 127

theorem getD_one : (f.bytes direction).getD 1 0 = maskBit direction ||| UInt8.ofNat f.len7 := by
  rw [bytes, header, len7]
  cases f.form <;> rfl

theorem len7_lt : f.len7 < 128 := by
  have hle := f.payload_le
  rw [len7]
  cases hform : f.form with
  | short =>
    rw [hform, LenForm.limit] at hle
    dsimp only
    omega
  | extended16 => exact (by decide : 126 < 128)
  | extended64 => exact (by decide : 127 < 128)

theorem drop_take_length {k : Nat} (rest : List UInt8) (b c : UInt8) (n : Nat) (h : n < 256 ^ k) :
    fromBeBytes (((b :: c :: (toBe k n ++ rest)).drop 2).take k) = n := by
  rw [drop_succ_cons, drop_succ_cons, drop_zero, take_append_of_le_length
    (length_toBe k n).ge, take_of_length_le (length_toBe k n).le, fromBeBytes_eq_ofBe,
    ofBe_toBe_of_lt h]

theorem extended (h : f.form ≠ .short) :
    fromBeBytes (((f.bytes direction).drop 2).take (f.form.size - 2)) = f.payload.length := by
  have hle := f.payload_le
  rw [bytes, header]
  cases hform : f.form with
  | short => exact absurd hform h
  | extended16 | extended64 =>
    rw [hform, LenForm.limit] at hle
    exact drop_take_length _ _ _ _ (lt_of_le_of_lt hle (by decide))

theorem wsHeader_bytes : wsHeader (f.bytes direction) = .header f.form.size f.payload.length := by
  have hle := f.payload_le
  have hlen := f.length_bytes direction
  have hext := f.extended direction
  rw [wsHeader, getD_one, (secondByte direction f.len7_lt).1, len7]
  cases hform : f.form with
  | short =>
    rw [hform, LenForm.limit] at hle
    exact if_pos (Nat.lt_succ_of_le hle)
  | extended16 =>
    rw [hform, LenForm.size] at hlen hext
    dsimp only
    rw [if_neg (by decide), if_pos rfl, if_neg (by omega), hext (by decide), LenForm.size]
  | extended64 =>
    rw [hform, LenForm.limit] at hle
    rw [hform, LenForm.size] at hlen hext
    dsimp only
    rw [if_neg (by decide), if_neg (by decide), if_neg (by omega), hext (by decide),
      if_neg (by omega), LenForm.size]

theorem masked_bytes : ((f.bytes direction).getD 1 0 &&& 0x80 != 0) = (direction == .request) := by
  rw [getD_one]
  exact (secondByte direction f.len7_lt).2

/-- **A frame is framed whole.** -/
theorem whole (mm : Finder UInt8) : Whole mm .httpWs direction (f.bytes direction) := by
  have hlen := f.length_bytes direction
  have htwo := f.two_le_size
  have hne := f.bytes_ne_nil direction
  have hfirst : isWsFrameHeader ((f.bytes direction).getD 0 0) = true := f.isWsFrameHeader_first
  obtain ⟨hhttp, hmethod⟩ := not_http_of_ws hne hfirst
  have htotal : (if (direction == .request) = true then f.form.size + 4 else f.form.size) +
      f.payload.length = (f.bytes direction).length := by
    rw [hlen]
    cases direction with
    | request => rw [if_pos (by decide), if_pos rfl, add_assoc]
    | response => rw [if_neg (by decide), if_neg (by decide), zero_add]
  rw [Whole, frame, frameHttpWs, if_neg hne, hhttp, if_neg Bool.false_ne_true, hmethod,
    if_neg Bool.false_ne_true, frameWs, if_neg (by omega), hfirst, Bool.not_true,
    if_neg Bool.false_ne_true, masked_bytes, wsHeader_bytes]
  dsimp only
  rw [bne_self_eq_false, if_neg Bool.false_ne_true, htotal, if_neg (lt_irrefl _)]

/-- **The payload is read back**, without its mask. -/
theorem wsUnmaskedPayload_bytes : wsUnmaskedPayload (f.bytes direction) = f.payload := by
  have hle := f.payload_le.trans f.form.limit_le
  have hmax : maxWsMessage = 2 ^ 20 := rfl
  have hlen := f.length_bytes direction
  have htwo := f.two_le_size
  have hsize : f.form.size ≤ 10 := by cases f.form <;> decide
  have hdrop : (f.bytes direction).drop f.form.size = f.content direction := by
    rw [bytes, ← f.length_header direction, drop_left]
  rw [wsUnmaskedPayload_of_header (by omega) (f.wsHeader_bytes direction), masked_bytes]
  cases direction with
  | request =>
    rw [if_pos rfl] at hlen
    rw [if_pos (by decide), if_neg (by omega), Nat.mod_eq_of_lt (by omega),
      Nat.min_eq_right (by omega), take_length, ← drop_drop, hdrop, content,
      ← f.maskKey_length, take_left, drop_left, wsMask_wsMask]
  | response =>
    rw [if_neg (by decide)] at hlen
    rw [if_neg (by decide), Nat.mod_eq_of_lt (by omega), Nat.min_eq_right (by omega),
      take_length, hdrop, content]

theorem not_http {buf : List UInt8} (hne : buf ≠ []) (h : Agrees buf (f.bytes direction)) :
    looksLikeHttp buf = false ∧ isHttpMethodPrefix buf = false := by
  refine not_http_of_ws hne ?_
  have hpos : 0 < (f.bytes direction).length := length_pos_iff.mpr (f.bytes_ne_nil direction)
  rw [h.getD (length_pos_iff.mpr hne) hpos]
  exact f.isWsFrameHeader_first

theorem parse_bytes (mm : Finder UInt8) :
    parse mm .httpWs direction (f.bytes direction) = parseJson mm direction f.payload := by
  have hhttp := (f.not_http direction (f.bytes_ne_nil direction) (.inr (prefix_refl _))).1
  rw [parse, parseHttpWs, hhttp, if_neg Bool.false_ne_true, wsUnmaskedPayload_bytes]

end WsFrame

/-! ### The frames of a stream -/

section

variable (mm : Finder UInt8) (direction : Direction) (isn : UInt32) (frames : List WsFrame)
  (segs : List (UInt64 × List UInt8))

/-- **The round trip**: the frames are framed with their own bytes, and the parser reads their
payloads.  None is taken for HTTP, not even in part.  And a frame of which some bytes have come
and some have not, for which the framer thus waits, is one that the buffer has room for. -/
structure RoundTrip : Prop where
  framed : ∃ re cs, replayTransport mm .httpWs direction Reassembler.new (segment isn segs) =
    some (re, cs) ∧ cs.map Cut.bytes = frames.map (WsFrame.bytes direction) ∧
    cs.map (fun c => wsUnmaskedPayload c.bytes) = frames.map WsFrame.payload ∧
    cs.map (fun c => parse mm .httpWs direction c.bytes) =
      frames.map (fun f => parseJson mm direction f.payload) ∧ re.buf = []
  apart : ∀ f ∈ frames, ∀ buf ≠ [], Agrees buf (f.bytes direction) →
    looksLikeHttp buf = false ∧ isHttpMethodPrefix buf = false
  room : ∀ xs ys, segs = xs ++ ys → ∀ fs f gs, frames = fs ++ f :: gs →
    (fs.map (WsFrame.bytes direction)).flatten.length < (segmentBytes xs).length →
    (segmentBytes xs).length < (fs.map (WsFrame.bytes direction)).flatten.length +
      (f.bytes direction).length →
    (f.bytes direction).length ≤ maxBuffered

end

theorem fitting_append {kept : Nat → Nat} {n : Nat} {xs ys : List (UInt64 × List UInt8)}
    (h : Fitting kept n (xs ++ ys)) : Fitting kept (n + (segmentBytes xs).length) ys := by
  induction xs generalizing n with
  | nil => exact h
  | cons x xs ih =>
    rw [segmentBytes_cons, length_append, ← add_assoc]
    exact ih h.2

theorem fitting_room {fs gs : List Nat} {l n : Nat} {segs : List (UInt64 × List UInt8)}
    (h : Fitting (unfinished (fs ++ l :: gs)) n segs) (hstart : fs.sum < n) (hn : n < fs.sum + l)
    (hend : fs.sum + l ≤ n + (segmentBytes segs).length) : l ≤ maxBuffered := by
  induction segs generalizing n with
  | nil =>
    have hnil : (segmentBytes []).length = 0 := rfl
    omega
  | cons s segs ih =>
    rw [segmentBytes_cons, length_append] at hend
    by_cases hmore : n + s.2.length < fs.sum + l
    · exact ih h.2 (by omega) hmore (by omega)
    have hkept : unfinished (fs ++ l :: gs) n = n - fs.sum := by
      have happ := unfinished_append fs (l :: gs) (n - fs.sum)
      rwa [Nat.add_sub_cancel' hstart.le, unfinished, if_pos (by omega)] at happ
    rcases h.1 with hnil | h0 | hle
    · rw [hnil, length_nil] at hmore
      omega
    · omega
    · rw [hkept] at hle
      omega

/-- **When WebSocket frames arrive**: however the stream is divided, exactly when no segment makes
the buffer too long together with what is there of an unfinished frame. -/
theorem ws_roundTrip_iff (mm : Finder UInt8) (direction : Direction) (isn : UInt32)
    (frames : List WsFrame) (segs : List (UInt64 × List UInt8))
    (hdiv : segmentBytes segs = (frames.map (WsFrame.bytes direction)).flatten) :
    RoundTrip mm direction isn frames segs ↔
      Fitting (unfinished (frames.map fun f => (f.bytes direction).length)) 0 segs := by
  have hwhole : ∀ m ∈ frames.map (WsFrame.bytes direction), Whole mm .httpWs direction m := by
    intro m hm
    obtain ⟨f, -, rfl⟩ := mem_map.mp hm
    exact f.whole direction mm
  have hiff : Recovers mm .httpWs direction isn segs (frames.map (WsFrame.bytes direction)) ↔ _ :=
    recovers_iff_fitting hwhole hdiv
  rw [map_map] at hiff
  constructor
  · intro h
    obtain ⟨re, cs, hrun, hcs, -, -, hbuf⟩ := h.framed
    exact hiff.mp ⟨re, cs, hrun, hcs, hbuf⟩
  intro hfit
  obtain ⟨re, cs, hrun, hcs, hbuf⟩ := hiff.mpr hfit
  have hread : ∀ {β : Type} (g : List UInt8 → β),
      cs.map (fun c => g c.bytes) = frames.map (fun f => g (f.bytes direction)) := by
    intro β g
    have := congrArg (List.map g) hcs
    rwa [map_map, map_map] at this
  refine ⟨⟨re, cs, hrun, hcs, ?_, ?_, hbuf⟩, ?_, ?_⟩
  · rw [hread]
    exact map_congr_left fun f _ => f.wsUnmaskedPayload_bytes direction
  · rw [hread]
    exact map_congr_left fun f _ => f.parse_bytes direction mm
  · intro f _ buf hne
    exact f.not_http direction hne
  rintro xs ys rfl fs f gs rfl hstart hn
  have hfit' := fitting_append hfit
  have htotal := congrArg List.length hdiv
  rw [segmentBytes, flatMap_append, ← segmentBytes, ← segmentBytes, length_append,
    map_append, flatten_append, length_append, map_cons, flatten_cons,
    length_append] at htotal
  rw [length_flatten, map_map] at hstart hn htotal
  rw [map_append, map_cons, zero_add] at hfit'
  refine fitting_room hfit' hstart hn ?_
  have hsum : ((List.map (fun f => (f.bytes direction).length) fs)).sum =
      (List.map (List.length ∘ WsFrame.bytes direction) fs).sum := rfl
  omega

/-- A text frame in the given form. -/
def textFrame (form : LenForm) (payload : List UInt8) (h : payload.length ≤ form.limit) : WsFrame where
  fin := true
  opcode := .text
  form := form
  maskKey := [0xA1, 0xB2, 0xC3, 0xD4]
  payload := payload
  maskKey_length := rfl
  payload_le := h

/-- One frame of each form, the second not of the shortest form its payload allows. -/
def threeForms : List WsFrame :=
  [textFrame .short (ascii "GET ") (by decide), textFrame .extended16 (ascii "abc") (by decide),
    textFrame .extended64 (ascii "POST /") (by decide)]

/-- The stream cut within each header and within a mask or payload. -/
def threeFormsCut (direction : Direction) : List (UInt64 × List UInt8) :=
  let bytes := (threeForms.map (WsFrame.bytes direction)).flatten
  [(1, bytes.take 1), (2, (bytes.drop 1).take 6), (3, (bytes.drop 7).take 2), (4, []),
    (5, (bytes.drop 9).take 8), (6, bytes.drop 17)]

theorem ws_roundTrip_threeForms :
    RoundTrip Finder.naive .request 4294967290 threeForms (threeFormsCut .request) ∧
      RoundTrip Finder.naive .response 4294967290 threeForms (threeFormsCut .response) :=
  ⟨(ws_roundTrip_iff Finder.naive .request 4294967290 threeForms (threeFormsCut .request)
      (by decide +kernel)).mpr (by decide +kernel),
    (ws_roundTrip_iff Finder.naive .response 4294967290 threeForms (threeFormsCut .response)
      (by decide +kernel)).mpr (by decide +kernel)⟩

/-- A frame with the longest payload the framer waits for. -/
def longestFrame : WsFrame :=
  textFrame .extended64 (List.replicate maxWsMessage 0x20) (length_replicate).le

/-- **The longest frame is ten bytes too long**: with its first byte in a segment of its own, the
framer waits for the others and the buffer is given up when they come. -/
theorem ws_longestFrame_lost :
    segmentBytes (beheadedAt 1 2 (longestFrame.bytes .response)) = longestFrame.bytes .response ∧
      maxBuffered < (longestFrame.bytes .response).length ∧
      ¬ RoundTrip Finder.naive .response 0 [longestFrame]
        (beheadedAt 1 2 (longestFrame.bytes .response)) := by
  have hlen : (longestFrame.bytes .response).length = maxBuffered + 10 := by
    have hsize : longestFrame.form.size = 10 := rfl
    have hpayload : longestFrame.payload.length = maxWsMessage := length_replicate
    rw [WsFrame.length_bytes, if_neg (by decide), hsize, hpayload]
    decide
  refine ⟨segmentBytes_beheadedAt _ _ _, by omega, fun h => ?_⟩
  obtain ⟨re, cs, hrun, hcs, -, -, hbuf⟩ := h.framed
  have hwhole : ∀ x ∈ [longestFrame.bytes .response], Whole Finder.naive .httpWs .response x := by
    intro x hx
    rw [mem_singleton.mp hx]
    exact longestFrame.whole .response Finder.naive
  have hflat : [longestFrame.bytes .response].flatten = longestFrame.bytes .response :=
    append_nil _
  have hlost : ¬ Recovers Finder.naive .httpWs .response 0
      (beheadedAt 1 2 [longestFrame.bytes .response].flatten) [longestFrame.bytes .response] := by
    refine not_recovers_beheadedAt hwhole (by omega) ?_
    rw [hflat]
    omega
  rw [hflat] at hlost
  exact hlost ⟨re, cs, hrun, hcs, hbuf⟩

end MatchBench.Capture
