import MatchBench.Bot.Write

/-!
# The bot's HTTP reader

`next_http_response` of the bot fleet and what it calls, in a release build on a 64-bit machine:
additions wrap, and a slice out of range stops the reader.  The length of the body is a number
that the contestant wrote, and it is added to an offset before it is compared with the length of
the buffer.  The sum wraps to a place before the body, the comparison passes, and the slice stops
the reader (`nextHttpResponse_wrapped`); the size of a chunk does the same.  Nothing else stops it
(`nextHttpResponse_iff`).
-/

namespace MatchBench.Bot

open List Option
open Capture (ascii toAsciiLowercase lossy line)

inductive Panic
  | sliceRange
  deriving DecidableEq, Repr

/-- `&b[lo..hi]`. -/
def slice (b : List UInt8) (lo hi : Nat) : Except Panic (List UInt8) :=
  if lo ≤ hi ∧ hi ≤ b.length then .ok ((b.drop lo).take (hi - lo)) else .error .sliceRange

def usizeAdd (a b : Nat) : Nat := (a + b) % 2 ^ 64

/-! ### Numbers in text -/

/-- `str::from_utf8`: nothing of the text is broken. -/
def fromUtf8 (b : List UInt8) : Option (List Char) :=
  if (lossy b).flatMap String.utf8EncodeChar = b then some (lossy b) else none

/-- `char::is_whitespace`. -/
def isWhitespace (c : Char) : Bool :=
  (9 ≤ c.toNat && c.toNat ≤ 13) || (0x2000 ≤ c.toNat && c.toNat ≤ 0x200A) ||
    [0x20, 0x85, 0xA0, 0x1680, 0x2028, 0x2029, 0x202F, 0x205F, 0x3000].contains c.toNat

def trim (s : List Char) : List Char :=
  ((s.dropWhile isWhitespace).reverse.dropWhile isWhitespace).reverse

/-- `char::to_digit`. -/
def toDigit (radix : Nat) (c : Char) : Option Nat :=
  let d := if '0' ≤ c ∧ c ≤ '9' then c.toNat - 48
    else if 'a' ≤ c ∧ c ≤ 'z' then c.toNat - 87
    else if 'A' ≤ c ∧ c ≤ 'Z' then c.toNat - 55 else radix
  if d < radix then some d else none

def pushRadix (radix v : Nat) (c : Char) : Option Nat := do
  let d ← toDigit radix c
  if v * radix + d < 2 ^ 64 then some (v * radix + d) else none

/-- `usize::from_str_radix`. -/
def fromStrRadix (radix : Nat) (s : List Char) : Option Nat :=
  let digits := if s.head? = some '+' then s.tail else s
  if digits = [] then none else digits.foldlM (pushRadix radix) 0

/-! ### The reader -/

/-- The text is that of `header_is_chunked` of the capture. -/
def headerIsChunked (headers : List UInt8) : Bool := Capture.headerIsChunked Finder.naive headers

def headerContentLength (headers : List UInt8) : Option Nat := do
  let i ← findSubslice (headers.map toAsciiLowercase) (ascii "content-length:")
  let s ← fromUtf8 (line (headers.drop (i + (ascii "content-length:").length)))
  fromStrRadix 10 (trim s)

/-- The size of a chunk whose first line ends there. -/
def chunkSize (body : List UInt8) (crlf : Nat) : Nat :=
  ((fromUtf8 (body.take crlf)).bind fun s => fromStrRadix 16 (trim s)).getD 0

def dechunkFirst (body : List UInt8) : Except Panic (List UInt8) :=
  match findSubslice body (ascii "\r\n") with
  | none => .ok []
  | some crlf =>
      let start := usizeAdd crlf 2
      slice body start (min (usizeAdd start (chunkSize body crlf)) body.length)

/-- The order id and the bytes consumed; `clordidFromJson` reads the id from the body. -/
def nextHttpResponse {α : Type} (clordidFromJson : List UInt8 → Option α) (buf : List UInt8) :
    Except Panic (Option (Option α × Nat)) :=
  match findSubslice buf (ascii "\r\n\r\n") with
  | none => .ok none
  | some hdrEnd => do
      let bodyStart := usizeAdd hdrEnd 4
      let headers ← slice buf 0 hdrEnd
      if headerIsChunked headers then
        let rest ← slice buf bodyStart buf.length
        match findSubslice rest (ascii "0\r\n\r\n") with
        | none => return none
        | some rel =>
            let total := usizeAdd (usizeAdd bodyStart rel) 5
            let chunkBody ← dechunkFirst (← slice buf bodyStart total)
            return some (clordidFromJson chunkBody, total)
      else
        let total := usizeAdd bodyStart ((headerContentLength headers).getD 0)
        if buf.length < total then return none
        else return some (clordidFromJson (← slice buf bodyStart total), total)

/-! ### What it may return -/

/-- What stands first in a chunked body. -/
def FirstChunk (body first : List UInt8) : Prop :=
  match findSubslice body (ascii "\r\n") with
  | none => first = []
  | some crlf => first = (body.drop (crlf + 2)).take (chunkSize body crlf)

/-- The body that a buffer declares, and where the response ends. -/
def Declared (buf body : List UInt8) (total : Nat) : Prop :=
  ∃ hdrEnd, findSubslice buf (ascii "\r\n\r\n") = some hdrEnd ∧
    if headerIsChunked (buf.take hdrEnd) then
      ∃ rel, findSubslice (buf.drop (hdrEnd + 4)) (ascii "0\r\n\r\n") = some rel ∧
        total = hdrEnd + 4 + rel + 5 ∧ FirstChunk ((buf.drop (hdrEnd + 4)).take (rel + 5)) body
    else total = hdrEnd + 4 + (headerContentLength (buf.take hdrEnd)).getD 0 ∧
      body = (buf.drop (hdrEnd + 4)).take ((headerContentLength (buf.take hdrEnd)).getD 0)

/-- The size of the first chunk takes its end past `2 ^ 64`. -/
def ChunkWraps (body : List UInt8) : Prop :=
  ∃ crlf, findSubslice body (ascii "\r\n") = some crlf ∧ 2 ^ 64 ≤ crlf + 2 + chunkSize body crlf

/-- The content length takes the end of the response past `2 ^ 64`, or the size of the first
chunk does. -/
def Wraps (buf : List UInt8) : Prop :=
  ∃ hdrEnd, findSubslice buf (ascii "\r\n\r\n") = some hdrEnd ∧
    if headerIsChunked (buf.take hdrEnd) then
      ∃ rel, findSubslice (buf.drop (hdrEnd + 4)) (ascii "0\r\n\r\n") = some rel ∧
        ChunkWraps ((buf.drop (hdrEnd + 4)).take (rel + 5))
    else 2 ^ 64 ≤ hdrEnd + 4 + (headerContentLength (buf.take hdrEnd)).getD 0

section

variable {buf body : List UInt8}

theorem slice_eq {lo hi : Nat} (h : lo ≤ hi) (hhi : hi ≤ buf.length) :
    slice buf lo hi = .ok ((buf.drop lo).take (hi - lo)) := if_pos ⟨h, hhi⟩

theorem slice_error {lo hi : Nat} (h : hi < lo) : slice buf lo hi = .error .sliceRange :=
  if_neg fun hc => absurd hc.1 (Nat.not_le.mpr h)

theorem findSubslice_le {needle : List UInt8} {i : Nat} (h : findSubslice buf needle = some i) :
    i + needle.length ≤ buf.length := by
  rw [findSubslice] at h
  split at h
  · cases h
  next hc =>
    exact Finder.find_le _ (not_or.mp hc).1 h

theorem foldlM_pushRadix_lt {radix u v : Nat} {cs : List Char} (hu : u < 2 ^ 64)
    (h : cs.foldlM (pushRadix radix) u = some v) : v < 2 ^ 64 := by
  induction cs generalizing u with
  | nil => exact some.inj h ▸ hu
  | cons c cs ih =>
    obtain ⟨w, hw, h⟩ := Option.bind_eq_some_iff.mp (foldlM_cons.symm.trans h)
    obtain ⟨d, -, hw⟩ := Option.bind_eq_some_iff.mp hw
    split at hw
    · exact ih (some.inj hw ▸ by assumption) h
    · cases hw

theorem fromStrRadix_lt {radix v : Nat} {s : List Char} (h : fromStrRadix radix s = some v) :
    v < 2 ^ 64 := by
  rw [fromStrRadix] at h
  generalize (if s.head? = some '+' then s.tail else s) = digits at h
  split at h
  · cases h
  · exact foldlM_pushRadix_lt (by decide) h

theorem chunkSize_lt (body : List UInt8) (crlf : Nat) : chunkSize body crlf < 2 ^ 64 := by
  rw [chunkSize]
  cases h : (fromUtf8 (body.take crlf)).bind fun s => fromStrRadix 16 (trim s) with
  | none => decide
  | some v =>
    obtain ⟨s, -, hs⟩ := Option.bind_eq_some_iff.mp h
    exact fromStrRadix_lt hs

theorem headerContentLength_lt (headers : List UInt8) :
    (headerContentLength headers).getD 0 < 2 ^ 64 := by
  cases h : headerContentLength headers with
  | none => decide
  | some v =>
    simp only [headerContentLength, bind_eq_bind, bind_eq_some_iff] at h
    obtain ⟨_, _, _, _, hv⟩ := h
    exact fromStrRadix_lt hv

/-- **A chunked body**: the first chunk, or the size wraps. -/
theorem dechunkFirst_cases (hlen : body.length < 2 ^ 63) :
    (ChunkWraps body ∧ dechunkFirst body = .error .sliceRange) ∨
      (¬ ChunkWraps body ∧ ∃ first, FirstChunk body first ∧ dechunkFirst body = .ok first) := by
  rw [ChunkWraps, dechunkFirst]
  simp only [FirstChunk]
  cases h : findSubslice body (ascii "\r\n") with
  | none => simp
  | some crlf =>
    have hle : crlf + 2 ≤ body.length := findSubslice_le h
    have hsize := chunkSize_lt body crlf
    simp only [Option.some.injEq, exists_eq_left', usizeAdd]
    by_cases hwraps : 2 ^ 64 ≤ crlf + 2 + chunkSize body crlf
    · exact .inl ⟨hwraps, slice_error (by omega)⟩
    refine .inr ⟨hwraps, _, rfl, ?_⟩
    rw [Nat.mod_eq_of_lt (by omega : crlf + 2 < 2 ^ 64), Nat.mod_eq_of_lt (by omega),
      slice_eq (by omega) (by omega)]
    congr 1
    rw [take_eq_take_iff, length_drop]
    omega

/-- **A chunked response**: it is not complete, it is declared, or the size of a chunk wraps. -/
theorem nextHttpResponse_cases {α : Type} (f : List UInt8 → Option α) (hlen : buf.length < 2 ^ 63) :
    (Wraps buf ∧ nextHttpResponse f buf = .error .sliceRange) ∨
      (¬ Wraps buf ∧ (nextHttpResponse f buf = .ok none ∨ ∃ body total, Declared buf body total ∧
        total ≤ buf.length ∧ nextHttpResponse f buf = .ok (some (f body, total)))) := by
  rw [Wraps, nextHttpResponse]
  simp only [Declared]
  cases h : findSubslice buf (ascii "\r\n\r\n") with
  | none => simp
  | some hdrEnd =>
    have hle : hdrEnd + 4 ≤ buf.length := findSubslice_le h
    have hstart : usizeAdd hdrEnd 4 = hdrEnd + 4 := Nat.mod_eq_of_lt (by omega)
    have hheaders : slice buf 0 hdrEnd = .ok (buf.take hdrEnd) := slice_eq (by omega) (by omega)
    simp only [hstart, hheaders, Option.some.injEq, exists_eq_left', bind, Except.bind]
    by_cases hch : headerIsChunked (buf.take hdrEnd) = true
    · have hrest : slice buf (hdrEnd + 4) buf.length = .ok (buf.drop (hdrEnd + 4)) := by
        rw [slice_eq hle le_rfl, ← length_drop, take_length]
      simp only [hch, if_true, hrest]
      cases hrel : findSubslice (buf.drop (hdrEnd + 4)) (ascii "0\r\n\r\n") with
      | none => simp [pure, Except.pure]
      | some rel =>
        have hle' : rel + 5 ≤ (buf.drop (hdrEnd + 4)).length := findSubslice_le hrel
        rw [length_drop] at hle'
        have htotal : usizeAdd (usizeAdd (hdrEnd + 4) rel) 5 = hdrEnd + 4 + rel + 5 := by
          rw [usizeAdd, usizeAdd, Nat.mod_eq_of_lt (by omega : hdrEnd + 4 + rel < 2 ^ 64),
            Nat.mod_eq_of_lt (by omega)]
        have hbody : slice buf (hdrEnd + 4) (hdrEnd + 4 + rel + 5) =
            .ok ((buf.drop (hdrEnd + 4)).take (rel + 5)) := by
          rw [slice_eq (by omega) (by omega), Nat.add_assoc _ rel, Nat.add_sub_cancel_left]
        simp only [htotal, hbody, Option.some.injEq, exists_eq_left']
        have hshort : ((buf.drop (hdrEnd + 4)).take (rel + 5)).length < 2 ^ 63 := by
          rw [length_take, length_drop]
          omega
        rcases dechunkFirst_cases hshort with ⟨hw, he⟩ | ⟨hw, first, hf, he⟩
        · exact .inl ⟨hw, by rw [he]⟩
        · exact .inr ⟨hw, .inr ⟨first, _, ⟨rfl, hf⟩, by omega, by rw [he]; rfl⟩⟩
    · have hcl := headerContentLength_lt (buf.take hdrEnd)
      simp only [hch, Bool.false_eq_true, if_false]
      generalize (headerContentLength (buf.take hdrEnd)).getD 0 = cl at hcl ⊢
      have htotal : usizeAdd (hdrEnd + 4) cl = (hdrEnd + 4 + cl) % 2 ^ 64 := rfl
      generalize usizeAdd (hdrEnd + 4) cl = total at htotal ⊢
      by_cases hw : 2 ^ 64 ≤ hdrEnd + 4 + cl
      · refine .inl ⟨hw, ?_⟩
        rw [if_neg (by omega), slice_error (by omega)]
      refine .inr ⟨hw, ?_⟩
      rw [Nat.mod_eq_of_lt (by omega)] at htotal
      subst htotal
      split
      · exact Or.inl rfl
      · refine Or.inr ⟨_, _, ⟨rfl, rfl⟩, by omega, ?_⟩
        rw [slice_eq (by omega) (by omega), Nat.add_sub_cancel_left]
        rfl

end

/-- **The reader survives a buffer exactly if no length wraps**: it waits, or it returns the body
that the buffer declares and consumes at least one byte and no more than there are. -/
theorem nextHttpResponse_iff {α : Type} (f : List UInt8 → Option α) (buf : List UInt8)
    (hlen : buf.length < 2 ^ 63) :
    ((nextHttpResponse f buf = .ok none ∨ ∃ body total, Declared buf body total ∧ 1 ≤ total ∧
        total ≤ buf.length ∧ nextHttpResponse f buf = .ok (some (f body, total))) ↔ ¬ Wraps buf) ∧
      ((∃ first, FirstChunk buf first ∧ dechunkFirst buf = .ok first) ↔ ¬ ChunkWraps buf) := by
  constructor
  · rcases nextHttpResponse_cases f hlen with ⟨hw, he⟩ | ⟨hw, hn | ⟨body, total, hd, hle, he⟩⟩
    · rw [he]
      simp [hw]
    · exact iff_of_true (.inl hn) hw
    refine iff_of_true (.inr ⟨body, total, hd, ?_, hle, he⟩) hw
    obtain ⟨hdrEnd, -, hd⟩ := hd
    split at hd
    · obtain ⟨rel, -, rfl, -⟩ := hd
      omega
    · omega
  · rcases dechunkFirst_cases hlen with ⟨hw, he⟩ | ⟨hw, hf⟩
    · rw [he]
      simp [hw]
    · exact iff_of_true hf hw

/-- An empty body. -/
theorem nextHttpResponse_iff_empty : ¬ Wraps (ascii "HTTP/1.1 200 OK\r\n\r\n") :=
  (nextHttpResponse_iff (α := Unit) (fun _ => none) (ascii "HTTP/1.1 200 OK\r\n\r\n")
    (by decide)).1.mp (.inr ⟨[], 19, ⟨15, by decide +kernel, by
      rw [if_neg (by decide +kernel)]
      decide +kernel⟩, by decide, by decide, by decide +kernel⟩)

/-- **A content length of `2 ^ 64 - 1`** and a chunk of that size. -/
theorem nextHttpResponse_wrapped :
    nextHttpResponse (α := Unit) (fun _ => none)
        (ascii "HTTP/1.1 200 OK\r\nContent-Length: 18446744073709551615\r\n\r\n") =
      .error .sliceRange ∧
    dechunkFirst (ascii "ffffffffffffffff\r\n") = .error .sliceRange := by
  decide +kernel

end MatchBench.Bot
