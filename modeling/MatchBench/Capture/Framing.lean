import MatchBench.Capture.Progress

/-!
# Where a message ends

A whole message is a list of bytes that the framer takes as one message of that length
(`Whole`).  The framer decides by what it has seen: bytes that follow the message change
nothing, and while one of its bytes is missing the framer waits.  Both are one statement
about a buffer that begins like the message (`Agrees`), since every search of the framers
finds the same place in both or runs out of bytes (`Agrees.find`).

This is what lets the framing loop be read off the messages, whatever segments they come
in.
-/

namespace MatchBench.Capture

open List

section

variable (mm : Finder UInt8)

def Whole (transport : Transport) (direction : Direction) (m : List UInt8) : Prop :=
  frame mm transport direction m = .message m.length

instance (transport : Transport) (direction : Direction) (m : List UInt8) :
    Decidable (Whole mm transport direction m) :=
  inferInstanceAs (Decidable (_ = _))

end

variable {mm : Finder UInt8}

/-! ### Buffers that begin alike -/

/-- One of the two is the beginning of the other. -/
def Agrees (x m : List UInt8) : Prop := m <+: x ∨ x <+: m

namespace Agrees

variable {x m : List UInt8} (h : Agrees x m)

include h

theorem drop (n : Nat) : Agrees (x.drop n) (m.drop n) :=
  h.imp (fun hp => hp.drop n) (fun hp => hp.drop n)

theorem take {k : Nat} (hx : k ≤ x.length) (hm : k ≤ m.length) : x.take k = m.take k := by
  rcases h with ⟨rest, he⟩ | ⟨rest, he⟩
  · rw [← he, take_append_of_le_length hm]
  · rw [← he, take_append_of_le_length hx]

theorem slice {i n : Nat} (hx : i + n ≤ x.length) (hm : i + n ≤ m.length) :
    (x.drop i).take n = (m.drop i).take n := by
  rw [take_drop, take_drop, h.take hx hm]

variable {i : Nat}

theorem getD (hx : i < x.length) (hm : i < m.length) : x.getD i 0 = m.getD i 0 := by
  rw [getD_eq_getElem?_getD, getD_eq_getElem?_getD]
  rcases h with ⟨rest, he⟩ | ⟨rest, he⟩
  · rw [← he, getElem?_append_left hm]
  · rw [← he, getElem?_append_left hx]

theorem isPrefixOf {p : List UInt8} (hp : p.isPrefixOf m = true) (hlen : p.length ≤ x.length) :
    p.isPrefixOf x = true := by
  rw [List.isPrefixOf_iff_prefix] at hp ⊢
  rcases h with hmx | hxm
  · exact hp.trans hmx
  · exact prefix_of_prefix_length_le hp hxm hlen

theorem search {f : List UInt8 → Option Nat}
    (happ : ∀ l rest j, f l = some j → f (l ++ rest) = some j) (hf : f m = some i) :
    f x = some i ∨ f x = none ∧ x.length < m.length := by
  rcases h with ⟨rest, he⟩ | ⟨rest, he⟩
  · left
    rw [← he]
    exact happ m rest i hf
  cases hx : f x with
  | some j =>
    have hj := happ x rest j hx
    rw [he, hf] at hj
    exact .inl hj.symm
  | none =>
    refine .inr ⟨rfl, ?_⟩
    have hne : rest ≠ [] := by
      intro hc
      rw [← he, hc, append_nil, hx] at hf
      cases hf
    rw [← he, length_append]
    exact Nat.lt_add_of_pos_right (length_pos_iff.mpr hne)

theorem findByte {b : UInt8} {start i : Nat} (hf : Capture.findByte m b start = some i) :
    Capture.findByte x b start = some i ∨
      Capture.findByte x b start = none ∧ x.length < m.length := by
  refine h.search (f := fun l => Capture.findByte l b start) (fun l rest j hj => ?_) hf
  rw [Capture.findByte, Option.map_eq_some_iff] at hj ⊢
  obtain ⟨k, hk, he⟩ := hj
  refine ⟨k, ?_, he⟩
  rw [drop_append, findIdx?_append, hk]
  rfl

theorem find {needle : List UInt8} (hf : Capture.find mm m needle = some i) :
    Capture.find mm x needle = some i ∨ Capture.find mm x needle = none ∧ x.length < m.length := by
  refine h.search (f := fun l => Capture.find mm l needle) (fun l rest j hj => ?_) hf
  rw [Capture.find] at hj ⊢
  by_cases hne : needle = []
  · rw [if_pos hne] at hj
    cases hj
  · rw [if_neg hne] at hj ⊢
    exact mm.find_append hne hj rest

end Agrees

/-- Wait for the message, or take it. -/
def waitFor (m x : List UInt8) : Frame :=
  if x.length < m.length then .incomplete else .message m.length

variable {m x : List UInt8} {direction : Direction}

theorem waitFor_of_lt (h : x.length < m.length) : waitFor m x = .incomplete := if_pos h

/-! ### FIX -/

/-- What the framer sees when it takes a FIX message: where the first two fields end, and
the body length. -/
structure FixHead (m : List UInt8) (soh1 soh2 bodyLen : Nat) : Prop where
  begins : fixBegin.isPrefixOf m = true
  first : findByte m soh 0 = some soh1
  tag : (m.drop (soh1 + 1)).take 2 = ascii "9="
  room : soh1 + 3 ≤ m.length
  second : findByte m soh (soh1 + 3) = some soh2
  parsed : parseUint ((m.take soh2).drop (soh1 + 3)) = some bodyLen
  small : bodyLen ≤ maxFixMessage

variable {m x : List UInt8}

theorem frameFix_eq_message {n : Nat} (h : frameFix mm m = .message n) :
    ∃ soh1 soh2 bodyLen, FixHead m soh1 soh2 bodyLen ∧ (soh2 + 1 + bodyLen + 7) % 2 ^ 64 = n ∧
      n ≤ m.length := by
  rw [frameFix] at h
  by_cases h5 : m.length < fixBegin.length
  · rw [if_pos h5] at h
    exact absurd h (by simp)
  rw [if_neg h5] at h
  by_cases hb : (!fixBegin.isPrefixOf m) = true
  · rw [if_pos hb] at h
    cases hf : find mm m fixBegin with
    | none | some i =>
      rw [hf] at h
      exact absurd h (by simp)
  rw [if_neg hb] at h
  cases h1 : findByte m soh 0 with
  | none =>
    rw [h1] at h
    exact absurd h (by simp)
  | some soh1 =>
    rw [h1] at h
    dsimp only at h
    by_cases h3 : m.length < soh1 + 3
    · rw [if_pos h3] at h
      exact absurd h (by simp)
    rw [if_neg h3] at h
    by_cases h9 : (m.drop (soh1 + 1)).take 2 ≠ ascii "9="
    · rw [if_pos h9] at h
      exact absurd h (by simp)
    rw [if_neg h9] at h
    cases h2 : findByte m soh (soh1 + 3) with
    | none =>
      rw [h2] at h
      exact absurd h (by simp)
    | some soh2 =>
      rw [h2] at h
      dsimp only at h
      cases hp : parseUint ((m.take soh2).drop (soh1 + 3)) with
      | none =>
        rw [hp] at h
        exact absurd h (by simp)
      | some bodyLen =>
        rw [hp] at h
        dsimp only at h
        by_cases hmax : maxFixMessage < bodyLen
        · rw [if_pos hmax] at h
          exact absurd h (by simp)
        rw [if_neg hmax] at h
        split at h
        · exact absurd h (by simp)
        next hlen =>
          injection h with hn
          refine ⟨soh1, soh2, bodyLen, ⟨?_, h1, not_not.mp h9, by omega, h2, hp, by omega⟩, hn,
            by omega⟩
          simpa using hb

theorem frameFix_agrees (hm : frameFix mm m = .message m.length) (h : Agrees x m) :
    frameFix mm x = waitFor m x := by
  obtain ⟨soh1, soh2, bodyLen, hh, htotal, _⟩ := frameFix_eq_message hm
  have hroom := hh.room
  have hlt2 := findByte_lt hh.second
  have hlen5 : fixBegin.length ≤ m.length :=
    (List.isPrefixOf_iff_prefix.mp hh.begins).length_le
  rw [frameFix]
  by_cases h5 : x.length < fixBegin.length
  · rw [if_pos h5, waitFor_of_lt (by omega)]
  have hx : fixBegin.isPrefixOf x = true := h.isPrefixOf hh.begins (by omega)
  rw [if_neg h5, hx, Bool.not_true, if_neg Bool.false_ne_true]
  rcases h.findByte hh.first with h1 | ⟨h1, hlt⟩
  · rw [h1]
    dsimp only
    by_cases h3 : x.length < soh1 + 3
    · rw [if_pos h3, waitFor_of_lt (by omega)]
    have htag : (x.drop (soh1 + 1)).take 2 = ascii "9=" :=
      (h.slice (by omega) (by omega)).trans hh.tag
    rw [if_neg h3, if_neg (not_not.mpr htag)]
    rcases h.findByte hh.second with h2 | ⟨h2, hlt⟩
    · have hltx := findByte_lt h2
      rw [h2]
      dsimp only
      rw [h.take (by omega) (by omega), hh.parsed]
      dsimp only
      rw [if_neg (Nat.not_lt.mpr hh.small), htotal, waitFor]
    · rw [h2, waitFor_of_lt hlt]
  · rw [h1, waitFor_of_lt hlt]

/-! ### HTTP -/

theorem mem_httpPrefixes {p : List UInt8} (hp : p ∈ httpPrefixes) :
    p.length = 4 ∧ isWsFrameHeader (p.getD 0 0) = false := by
  have hall : ∀ p ∈ httpPrefixes, p.length = 4 ∧ isWsFrameHeader (p.getD 0 0) = false := by
    decide
  exact hall p hp

theorem looksLikeHttp_iff {buf : List UInt8} :
    looksLikeHttp buf = true ↔ ∃ p ∈ httpPrefixes, p <+: buf := by
  rw [looksLikeHttp, any_eq_true]
  simp [List.isPrefixOf_iff_prefix]

/-- What the framer sees when it takes an HTTP message: where the head ends, and the end of
the last chunk or the content length. -/
inductive HttpHead (mm : Finder UInt8) (m : List UInt8) (hdrEnd : Nat) : Prop
  | chunked (rel : Nat) : headerIsChunked mm (m.take hdrEnd) = true →
      find mm (m.drop (hdrEnd + 4)) (ascii "0\r\n\r\n") = some rel →
      hdrEnd + 4 + rel + 5 = m.length → HttpHead mm m hdrEnd
  | sized : headerIsChunked mm (m.take hdrEnd) = false →
      (hdrEnd + 4 + (headerContentLength mm (m.take hdrEnd)).getD 0) % 2 ^ 64 = m.length →
      HttpHead mm m hdrEnd

theorem frameHttp_eq_message (h : frameHttp mm m = .message m.length) :
    ∃ hdrEnd, find mm m (ascii "\r\n\r\n") = some hdrEnd ∧ HttpHead mm m hdrEnd ∧
      m.length ≤ maxHttpMessage := by
  rw [frameHttp] at h
  cases hf : find mm m (ascii "\r\n\r\n") with
  | none =>
    simp only [hf] at h
    split at h <;> exact absurd h (by simp)
  | some hdrEnd =>
    simp only [hf] at h
    refine ⟨hdrEnd, rfl, ?_⟩
    cases hch : headerIsChunked mm (m.take hdrEnd) with
    | true =>
      rw [hch, if_pos rfl] at h
      cases hr : find mm (m.drop (hdrEnd + 4)) (ascii "0\r\n\r\n") with
      | none =>
        simp only [hr] at h
        split at h <;> exact absurd h (by simp)
      | some rel =>
        simp only [hr] at h
        split at h
        · exact absurd h (by simp)
        · injection h with hn
          exact ⟨HttpHead.chunked rel hch hr hn, by omega⟩
    | false =>
      rw [hch, if_neg Bool.false_ne_true] at h
      split at h
      · exact absurd h (by simp)
      split at h
      · exact absurd h (by simp)
      · injection h with hn
        exact ⟨HttpHead.sized hch hn, by omega⟩

theorem frameHttp_agrees (hm : frameHttp mm m = .message m.length) (h : Agrees x m) :
    frameHttp mm x = waitFor m x := by
  obtain ⟨hdrEnd, hf, hhead, hmax⟩ := frameHttp_eq_message hm
  have hle : hdrEnd + 4 ≤ m.length := find_le hf
  rw [frameHttp]
  rcases h.find hf with hfx | ⟨hfx, hlt⟩
  · have hlex : hdrEnd + 4 ≤ x.length := find_le hfx
    rw [hfx]
    dsimp only
    rw [h.take (by omega) (by omega)]
    cases hhead with
    | chunked rel hch hr htotal =>
      rw [hch, if_pos rfl]
      rcases (h.drop (hdrEnd + 4)).find hr with hrx | ⟨hrx, hlt⟩
      · have hrel : rel + 5 ≤ (x.drop (hdrEnd + 4)).length := find_le hrx
        rw [length_drop] at hrel
        rw [hrx]
        dsimp only
        rw [htotal, if_neg (Nat.not_lt.mpr hmax), waitFor, if_neg (by omega)]
      · rw [length_drop, length_drop] at hlt
        rw [hrx]
        rw [if_neg (by omega), waitFor_of_lt (by omega)]
    | sized hch htotal =>
      rw [hch, if_neg Bool.false_ne_true, htotal, if_neg (Nat.not_lt.mpr hmax), waitFor]
  · rw [hfx]
    rw [if_neg (by omega), waitFor_of_lt hlt]

/-! ### WebSocket -/

theorem wsHeader_agrees (h : Agrees x m) (hx : 2 ≤ x.length) (hm : 2 ≤ m.length)
    {size payloadLen : Nat} (hw : wsHeader m = .header size payloadLen) :
    wsHeader x = .header size payloadLen ∨ wsHeader x = .incomplete ∧ x.length < m.length := by
  have hbyte : x.getD 1 0 = m.getD 1 0 := h.getD (by omega) (by omega)
  rw [wsHeader] at hw ⊢
  rw [hbyte]
  dsimp only at hw ⊢
  by_cases h7 : (m.getD 1 0 &&& 0x7F).toNat < 126
  · rw [if_pos h7] at hw ⊢
    exact .inl hw
  rw [if_neg h7] at hw ⊢
  by_cases h126 : (m.getD 1 0 &&& 0x7F).toNat = 126
  · rw [if_pos h126] at hw ⊢
    by_cases h4 : m.length < 4
    · rw [if_pos h4] at hw
      exact absurd hw (by simp)
    rw [if_neg h4] at hw
    by_cases hx4 : x.length < 4
    · rw [if_pos hx4]
      exact .inr ⟨rfl, by omega⟩
    · rw [if_neg hx4, h.slice (by omega) (by omega)]
      exact .inl hw
  rw [if_neg h126] at hw ⊢
  by_cases h10 : m.length < 10
  · rw [if_pos h10] at hw
    exact absurd hw (by simp)
  rw [if_neg h10] at hw
  by_cases hx10 : x.length < 10
  · rw [if_pos hx10]
    exact .inr ⟨rfl, by omega⟩
  · rw [if_neg hx10, h.slice (by omega) (by omega)]
    exact .inl hw

/-- What the framer sees when it takes a WebSocket frame. -/
structure WsHead (direction : Direction) (m : List UInt8) (size payloadLen : Nat) : Prop where
  two : 2 ≤ m.length
  first : isWsFrameHeader (m.getD 0 0) = true
  header : wsHeader m = .header size payloadLen
  masked : ((m.getD 1 0 &&& 0x80 != 0) != (direction == .request)) = false
  total : (if (m.getD 1 0 &&& 0x80 != 0) = true then size + 4 else size) + payloadLen = m.length

theorem frameWs_eq_message (h : frameWs direction m = .message m.length) :
    ∃ size payloadLen, WsHead direction m size payloadLen := by
  rw [frameWs] at h
  by_cases h2 : m.length < 2
  · rw [if_pos h2] at h
    exact absurd h (by simp)
  rw [if_neg h2] at h
  by_cases hh : (!isWsFrameHeader (m.getD 0 0)) = true
  · rw [if_pos hh] at h
    exact absurd h (by simp)
  rw [if_neg hh] at h
  dsimp only at h
  cases hw : wsHeader m with
  | incomplete | oversized =>
    rw [hw] at h
    exact absurd h (by simp)
  | header size payloadLen =>
    simp only [hw] at h
    split at h
    · exact absurd h (by simp)
    rename_i hmask
    generalize htotal : (if (m.getD 1 0 &&& 0x80 != 0) = true then size + 4 else size) +
      payloadLen = total at h
    split at h
    · exact absurd h (by simp)
    · injection h with hn
      exact ⟨size, payloadLen, by omega, by simpa using hh, hw,
        Bool.eq_false_iff.mpr hmask, htotal.trans hn⟩

theorem frameWs_agrees (hm : frameWs direction m = .message m.length) (h : Agrees x m) :
    frameWs direction x = waitFor m x := by
  obtain ⟨size, payloadLen, hh⟩ := frameWs_eq_message hm
  have h2m := hh.two
  rw [frameWs]
  by_cases h2 : x.length < 2
  · rw [if_pos h2, waitFor_of_lt (by omega)]
  have h0 : x.getD 0 0 = m.getD 0 0 := h.getD (by omega) (by omega)
  have h1 : x.getD 1 0 = m.getD 1 0 := h.getD (by omega) (by omega)
  rw [if_neg h2, h0, h1, hh.first, Bool.not_true, if_neg Bool.false_ne_true]
  rcases wsHeader_agrees h (by omega) h2m hh.header with hw | ⟨hw, hlt⟩
  · rw [hw]
    dsimp only
    rw [hh.masked, if_neg Bool.false_ne_true, hh.total, waitFor]
  · rw [hw, waitFor_of_lt hlt]

theorem not_http_of_ws (hne : x ≠ []) (hws : isWsFrameHeader (x.getD 0 0) = true) :
    looksLikeHttp x = false ∧ isHttpMethodPrefix x = false := by
  have hhead : ∀ p ∈ httpPrefixes, p.getD 0 0 ≠ x.getD 0 0 := by
    intro p hp hc
    have := (mem_httpPrefixes hp).2
    rw [hc, hws] at this
    exact Bool.false_ne_true this.symm
  have hpos : 0 < x.length := length_pos_iff.mpr hne
  refine ⟨Bool.eq_false_iff.mpr (fun hc => ?_), Bool.eq_false_iff.mpr (fun hc => ?_)⟩
  · obtain ⟨p, hp, hpx⟩ := looksLikeHttp_iff.mp hc
    have hlen := (mem_httpPrefixes hp).1
    exact hhead p hp (Agrees.getD (.inr hpx) (by omega) hpos)
  rw [isHttpMethodPrefix, any_eq_true] at hc
  obtain ⟨p, hp, hpx⟩ := hc
  rw [Bool.and_eq_true, List.isPrefixOf_iff_prefix] at hpx
  have hlen := (mem_httpPrefixes hp).1
  exact hhead p hp (Agrees.getD (.inl hpx.2) (by omega) hpos)

theorem frameHttpWs_agrees (hm : frameHttpWs mm direction m = .message m.length) (h : Agrees x m) :
    frameHttpWs mm direction x = waitFor m x := by
  rw [frameHttpWs] at hm
  by_cases hnil : m = []
  · rw [if_pos hnil] at hm
    exact absurd hm (by simp)
  have hmpos : 0 < m.length := length_pos_iff.mpr hnil
  rw [if_neg hnil] at hm
  rw [frameHttpWs]
  by_cases hx : x = []
  · have hlt : x.length < m.length := by
      rw [hx]
      exact hmpos
    rw [if_pos hx, waitFor_of_lt hlt]
  have hxpos : 0 < x.length := length_pos_iff.mpr hx
  rw [if_neg hx]
  by_cases hhttp : looksLikeHttp m = true
  · rw [if_pos hhttp] at hm
    obtain ⟨p, hp, hpm⟩ := looksLikeHttp_iff.mp hhttp
    have hlen := (mem_httpPrefixes hp).1
    have hlem := hpm.length_le
    by_cases h4 : x.length < 4
    · -- fewer bytes than the token: nothing but its beginning
      have hno : looksLikeHttp x = false := by
        refine Bool.eq_false_iff.mpr (fun hc => ?_)
        obtain ⟨q, hq, hqx⟩ := looksLikeHttp_iff.mp hc
        have hle := hqx.length_le
        rw [(mem_httpPrefixes hq).1] at hle
        omega
      have hxp : x <+: p := by
        rcases h with hmx | hxm
        · have hle := hmx.length_le
          omega
        · exact prefix_of_prefix_length_le hxm hpm (by omega)
      have hmeth : isHttpMethodPrefix x = true := by
        rw [isHttpMethodPrefix, any_eq_true]
        refine ⟨p, hp, ?_⟩
        rw [Bool.and_eq_true, List.isPrefixOf_iff_prefix, decide_eq_true_iff]
        exact ⟨by omega, hxp⟩
      rw [hno, if_neg Bool.false_ne_true, if_pos hmeth, waitFor_of_lt (by omega)]
    · have hyes : looksLikeHttp x = true := by
        refine looksLikeHttp_iff.mpr ⟨p, hp, ?_⟩
        exact List.isPrefixOf_iff_prefix.mp
          (h.isPrefixOf (List.isPrefixOf_iff_prefix.mpr hpm) (by omega))
      rw [if_pos hyes]
      exact frameHttp_agrees hm h
  · rw [if_neg hhttp] at hm
    by_cases hmeth : isHttpMethodPrefix m = true
    · rw [if_pos hmeth] at hm
      exact absurd hm (by simp)
    rw [if_neg hmeth] at hm
    obtain ⟨_, _, hh⟩ := frameWs_eq_message hm
    have h0 : x.getD 0 0 = m.getD 0 0 := h.getD hxpos hmpos
    obtain ⟨hno, hnom⟩ := not_http_of_ws hx (h0 ▸ hh.first)
    rw [hno, hnom, if_neg Bool.false_ne_true, if_neg Bool.false_ne_true]
    exact frameWs_agrees hm h

/-! ### Every framer -/

variable {transport : Transport} {direction : Direction} {m : List UInt8}

/-- **A message ends where it ends**: with the whole message at its front the framer takes
it, and with less it waits. -/
theorem Whole.frame_eq (hm : Whole mm transport direction m) (h : Agrees x m) :
    frame mm transport direction x = waitFor m x := by
  cases transport with
  | fix => exact frameFix_agrees hm h
  | httpWs => exact frameHttpWs_agrees hm h

theorem frame_nil : frame mm transport direction [] = .incomplete := by
  cases transport with
  | fix | httpWs => rfl

theorem Whole.length_pos (hm : Whole mm transport direction m) : 0 < m.length := by
  refine length_pos_iff.mpr (fun hc => ?_)
  rw [Whole, hc, frame_nil] at hm
  exact absurd hm (by simp)

end MatchBench.Capture
