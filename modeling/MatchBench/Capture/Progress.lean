import MatchBench.Capture.Pipeline

/-!
# Progress of the framing loop

A turn of the framing loop should take at least one byte off the buffer.  The FIX and
WebSocket framers always do: their message lengths are at least their headers, and a
body length that could wrap is refused.  The HTTP framer adds the declared content
length to the header before it compares, and one value makes the sum wrap to zero
(`Hostile`): the message found has no bytes, and the loop finds it again for ever.

`frame_advances_iff` says that this is the only way a turn takes nothing, and
`frameLoop_stops_iff` that the loop stops exactly when no buffer it comes to is such.
-/

namespace MatchBench.Capture

open List Option

section

variable (mm : Finder UInt8)

/-- A turn with this outcome takes at least one byte, and no more than there are. -/
def Advances (buf : List UInt8) : Frame → Prop
  | .message n => 1 ≤ n ∧ n ≤ buf.length
  | .incomplete => True
  | .resync skip => 1 ≤ min (max skip 1) buf.length

/-- An HTTP head whose content length wraps the message length to zero. -/
def Hostile (transport : Transport) (buf : List UInt8) : Prop :=
  transport = .httpWs ∧ looksLikeHttp buf = true ∧
    ∃ hdrEnd, find mm buf (ascii "\r\n\r\n") = some hdrEnd ∧
      headerIsChunked mm (buf.take hdrEnd) = false ∧
      headerContentLength mm (buf.take hdrEnd) = some (2 ^ 64 - (hdrEnd + 4))

variable {mm}

theorem find_le {hay needle : List UInt8} {i : Nat} (h : find mm hay needle = some i) :
    i + needle.length ≤ hay.length := by
  rw [find] at h
  by_cases hne : needle = []
  · rw [if_pos hne] at h
    cases h
  · rw [if_neg hne] at h
    exact mm.find_le hne h

theorem findByte_lt {hay : List UInt8} {b : UInt8} {start i : Nat}
    (h : findByte hay b start = some i) : i < hay.length := by
  rw [findByte, map_eq_some_iff] at h
  obtain ⟨k, hk, hi⟩ := h
  have hlt := (findIdx?_eq_some_iff_getElem.mp hk).1
  rw [length_drop] at hlt
  omega

variable {buf : List UInt8}

theorem advances_resync (h : buf ≠ []) (skip : Nat) : Advances buf (.resync skip) := by
  have := length_pos_iff.mpr h
  show 1 ≤ min (max skip 1) buf.length
  omega

theorem ne_nil_of_length {n : Nat} (h : ¬ buf.length < n) (hn : 0 < n) : buf ≠ [] := by
  intro hc
  rw [hc, length_nil] at h
  exact h hn

/-! ### The framers -/

theorem advances_frameFix (hlen : buf.length < 2 ^ 63) : Advances buf (frameFix mm buf) := by
  rw [frameFix]
  by_cases h5 : buf.length < fixBegin.length
  · rw [if_pos h5]
    exact trivial
  rw [if_neg h5]
  have hne := ne_nil_of_length h5 (by decide)
  by_cases hb : (!fixBegin.isPrefixOf buf) = true
  · rw [if_pos hb]
    cases find mm buf fixBegin with
    | none => exact advances_resync hne _
    | some i => exact advances_resync hne i
  rw [if_neg hb]
  cases findByte buf soh 0 with
  | none => exact trivial
  | some soh1 =>
    dsimp only
    by_cases h3 : buf.length < soh1 + 3
    · rw [if_pos h3]
      exact trivial
    rw [if_neg h3]
    by_cases h9 : (buf.drop (soh1 + 1)).take 2 ≠ ascii "9="
    · rw [if_pos h9]
      exact advances_resync hne _
    rw [if_neg h9]
    cases hs : findByte buf soh (soh1 + 3) with
    | none => exact trivial
    | some soh2 =>
      have hsoh2 := findByte_lt hs
      dsimp only
      cases parseUint ((buf.take soh2).drop (soh1 + 3)) with
      | none => exact advances_resync hne _
      | some bodyLen =>
        dsimp only
        by_cases hmax : maxFixMessage < bodyLen
        · rw [if_pos hmax]
          exact advances_resync hne _
        rw [if_neg hmax]
        rw [maxFixMessage] at hmax
        have hmod : ((soh2 + 1) + bodyLen + 7) % 2 ^ 64 = (soh2 + 1) + bodyLen + 7 :=
          Nat.mod_eq_of_lt (by omega)
        rw [hmod]
        by_cases ht : buf.length < (soh2 + 1) + bodyLen + 7
        · rw [if_pos ht]
          exact trivial
        · rw [if_neg ht]
          exact ⟨by omega, by omega⟩

theorem advances_frameWs {direction : Direction} : Advances buf (frameWs direction buf) := by
  rw [frameWs]
  by_cases h2 : buf.length < 2
  · rw [if_pos h2]
    exact trivial
  rw [if_neg h2]
  have hne := ne_nil_of_length h2 (by decide)
  by_cases hh : (!isWsFrameHeader (buf.getD 0 0)) = true
  · rw [if_pos hh]
    exact advances_resync hne 1
  rw [if_neg hh]
  have hsize : ∀ size payloadLen, wsHeader buf = .header size payloadLen → 2 ≤ size := by
    intro size payloadLen hw
    rw [wsHeader] at hw
    dsimp only at hw
    split at hw
    · injection hw with hs
      omega
    split at hw
    · split at hw
      · exact absurd hw (by simp)
      · injection hw with hs
        omega
    split at hw
    · exact absurd hw (by simp)
    split at hw
    · exact absurd hw (by simp)
    · injection hw with hs
      omega
  cases hw : wsHeader buf with
  | incomplete => exact trivial
  | oversized => exact advances_resync hne 1
  | header size payloadLen =>
    have h2size := hsize size payloadLen hw
    dsimp only
    by_cases hm : ((buf.getD 1 0 &&& 0x80 != 0) != (direction == .request)) = true
    · rw [if_pos hm]
      exact advances_resync hne 1
    rw [if_neg hm]
    have hhead : 2 ≤ if (buf.getD 1 0 &&& 0x80 != 0) = true then size + 4 else size := by
      split <;> omega
    by_cases ht : buf.length <
        (if (buf.getD 1 0 &&& 0x80 != 0) = true then size + 4 else size) + payloadLen
    · rw [if_pos ht]
      exact trivial
    · rw [if_neg ht]
      exact ⟨by omega, by omega⟩

theorem foldl_pushDigit_lt (b : List UInt8) : b.foldl pushDigit 0 < 2 ^ 64 := by
  have h : ∀ v < 2 ^ 64, b.foldl pushDigit v < 2 ^ 64 := by
    induction b with
    | nil => exact fun v hv => hv
    | cons c b ih =>
      intro v _
      rw [foldl_cons]
      refine ih _ ?_
      rw [pushDigit]
      omega
  exact h 0 (by decide)

theorem parseUint_lt {b : List UInt8} {v : Nat} (h : parseUint b = some v) : v < 2 ^ 64 := by
  rw [parseUint] at h
  split at h
  · cases h
  split at h
  · rw [← some.inj h]
    exact foldl_pushDigit_lt b
  · cases h

theorem headerContentLength_lt {headers : List UInt8} {v : Nat}
    (h : headerContentLength mm headers = some v) : v < 2 ^ 64 := by
  rw [headerContentLength] at h
  split at h
  · exact parseUint_lt h
  · cases h

theorem advances_frameHttp_iff (hlen : buf.length < 2 ^ 63) (hhttp : looksLikeHttp buf = true)
    (hne : buf ≠ []) :
    Advances buf (frameHttp mm buf) ↔ ¬ Hostile mm .httpWs buf := by
  rw [frameHttp, Hostile]
  cases hf : find mm buf (ascii "\r\n\r\n") with
  | none =>
    have hadv : Advances buf
        (if maxHttpMessage < buf.length then .resync buf.length else .incomplete) := by
      split
      · exact advances_resync hne _
      · exact trivial
    refine iff_of_true hadv (fun hc => ?_)
    obtain ⟨_, _, i, hi, _⟩ := hc
    cases hi
  | some hdrEnd =>
    have hle : hdrEnd + 4 ≤ buf.length := find_le hf
    dsimp only
    cases hch : headerIsChunked mm (buf.take hdrEnd) with
    | true =>
      rw [if_pos rfl]
      refine iff_of_true ?_ (fun hc => ?_)
      · cases hr : find mm (buf.drop (hdrEnd + 4)) (ascii "0\r\n\r\n") with
        | none =>
          dsimp only
          split
          · exact advances_resync hne _
          · exact trivial
        | some rel =>
          have hrel : rel + 5 ≤ (buf.drop (hdrEnd + 4)).length := find_le hr
          rw [length_drop] at hrel
          dsimp only
          split
          · exact advances_resync hne _
          · exact ⟨by omega, by omega⟩
      · obtain ⟨_, _, i, hi, hci, _⟩ := hc
        rw [← some.inj hi, hch] at hci
        exact Bool.false_ne_true hci.symm
    | false =>
      rw [if_neg Bool.false_ne_true]
      have hcl : (headerContentLength mm (buf.take hdrEnd)).getD 0 < 2 ^ 64 := by
        cases hc : headerContentLength mm (buf.take hdrEnd) with
        | none => exact (by decide : 0 < 2 ^ 64)
        | some v => exact headerContentLength_lt hc
      -- the sum is zero exactly for the one length that wraps it
      have hzero : (hdrEnd + 4 + (headerContentLength mm (buf.take hdrEnd)).getD 0) % 2 ^ 64 = 0 ↔
          headerContentLength mm (buf.take hdrEnd) = some (2 ^ 64 - (hdrEnd + 4)) := by
        cases hc : headerContentLength mm (buf.take hdrEnd) with
        | none =>
          rw [getD_none]
          exact iff_of_false (by omega) (some_ne_none _).symm
        | some v =>
          rw [hc, getD_some] at hcl
          rw [getD_some, Option.some.injEq]
          omega
      generalize (hdrEnd + 4 + (headerContentLength mm (buf.take hdrEnd)).getD 0) % 2 ^ 64 = total
        at hzero ⊢
      have hiff : Advances buf (if maxHttpMessage < total then .resync (hdrEnd + 4)
          else if buf.length < total then .incomplete else .message total) ↔ total ≠ 0 := by
        split
        next hmax =>
          exact iff_of_true (advances_resync hne _) (by omega)
        split
        next hlt =>
          exact iff_of_true trivial (by omega)
        next hge =>
          refine ⟨fun hadv => ?_, fun h0 => ⟨by omega, by omega⟩⟩
          have : 1 ≤ total := hadv.1
          omega
      rw [hiff, ne_eq, hzero]
      refine not_congr ⟨fun hc => ⟨rfl, hhttp, hdrEnd, rfl, hch, hc⟩, fun hc => ?_⟩
      obtain ⟨_, _, i, hi, _, hcont⟩ := hc
      rw [some.inj hi]
      exact hcont

/-- **A turn takes a byte or more unless the buffer is hostile.** -/
theorem frame_advances_iff (transport : Transport) (direction : Direction)
    (hlen : buf.length < 2 ^ 63) :
    Advances buf (frame mm transport direction buf) ↔ ¬ Hostile mm transport buf := by
  cases transport with
  | fix => exact iff_of_true (advances_frameFix hlen) (fun hc => absurd hc.1 (by decide))
  | httpWs =>
    rw [frame, frameHttpWs]
    by_cases hnil : buf = []
    · rw [if_pos hnil, hnil]
      refine iff_of_true trivial (fun hc => ?_)
      exact absurd hc.2.1 (by decide)
    rw [if_neg hnil]
    by_cases hhttp : looksLikeHttp buf = true
    · rw [if_pos hhttp]
      exact advances_frameHttp_iff hlen hhttp hnil
    rw [if_neg hhttp]
    refine iff_of_true ?_ (fun hc => hhttp hc.2.1)
    by_cases hp : isHttpMethodPrefix buf = true
    · rw [if_pos hp]
      exact trivial
    · rw [if_neg hp]
      exact advances_frameWs

theorem frame_of_hostile {transport : Transport} {direction : Direction}
    (hlen : buf.length < 2 ^ 63) (h : Hostile mm transport buf) :
    frame mm transport direction buf = .message 0 := by
  obtain ⟨ht, hhttp, hdrEnd, hf, hch, hc⟩ := h
  have hle : hdrEnd + 4 ≤ buf.length := find_le hf
  have hnil : buf ≠ [] := by
    intro hnil
    rw [hnil] at hhttp
    exact absurd hhttp (by decide)
  rw [ht, frame, frameHttpWs, if_neg hnil, if_pos hhttp, frameHttp, hf]
  dsimp only
  rw [hch, if_neg Bool.false_ne_true, hc, getD_some]
  have h0 : (hdrEnd + 4 + (2 ^ 64 - (hdrEnd + 4))) % 2 ^ 64 = 0 := by omega
  rw [h0, if_neg (Nat.not_lt_zero _), if_neg (Nat.not_lt_zero _)]

/-! ### The loop -/

/-- The bytes a turn with this outcome takes off the buffer; the last turn takes none. -/
def taken : Frame → Option Nat
  | .message n => some n
  | .incomplete => none
  | .resync skip => some (max skip 1)

theorem Advances.pos {o : Frame} {k : Nat} (h : Advances buf o) (hk : taken o = some k) :
    1 ≤ min k buf.length := by
  cases o with
  | message n =>
    rw [← some.inj hk]
    have hn : 1 ≤ n ∧ n ≤ buf.length := h
    omega
  | incomplete => cases hk
  | resync skip =>
    rw [← some.inj hk]
    exact h

/-- The buffers the framing loop comes to. -/
inductive Visits (mm : Finder UInt8) (transport : Transport) (direction : Direction) :
    List UInt8 → List UInt8 → Prop
  | refl (buf : List UInt8) : Visits mm transport direction buf buf
  | turn {buf c : List UInt8} {k : Nat} : taken (frame mm transport direction buf) = some k →
      Visits mm transport direction (buf.drop k) c → Visits mm transport direction buf c

theorem consume_buf (re : Reassembler) (n : Nat) : (re.consume n).buf = re.buf.drop n := by
  rw [Reassembler.consume]
  split
  next h0 =>
    by_cases hn : n = 0
    · rw [hn, drop_zero]
    · have hnil : re.buf = [] := length_eq_zero_iff.mp (by omega)
      rw [hnil, drop_nil]
  · by_cases hle : n ≤ re.buf.length
    · rw [Nat.min_eq_left hle]
    · rw [Nat.min_eq_right (by omega), drop_length, drop_eq_nil_of_le (by omega)]

variable {transport : Transport} {direction : Direction}

theorem isSome_frameLoop (fuel : Nat) (re : Reassembler) :
    (frameLoop mm transport direction (fuel + 1) re).isSome =
      match taken (frame mm transport direction re.buf) with
      | none => true
      | some k => (frameLoop mm transport direction fuel (re.consume k)).isSome := by
  rw [frameLoop, Reassembler.available]
  cases frame mm transport direction re.buf with
  | message n => exact isSome_map
  | incomplete => rfl
  | resync skip => exact isSome_map

theorem frameLoop_stops : ∀ (fuel : Nat) (re : Reassembler), re.buf.length < fuel →
    re.buf.length < 2 ^ 63 →
    (∀ b, Visits mm transport direction re.buf b → ¬ Hostile mm transport b) →
    (frameLoop mm transport direction fuel re).isSome = true := by
  intro fuel
  induction fuel with
  | zero => exact fun _ hn => absurd hn (Nat.not_lt_zero _)
  | succ fuel ih =>
    intro re hn hlen hv
    have hadv := (frame_advances_iff transport direction hlen).mpr (hv _ (Visits.refl _))
    rw [isSome_frameLoop]
    cases ht : taken (frame mm transport direction re.buf) with
    | none => rfl
    | some k =>
      have hpos := hadv.pos ht
      have hlt : (re.consume k).buf.length = re.buf.length - k := by
        rw [consume_buf, length_drop]
      refine ih _ (by omega) (by omega) (fun b hb => hv b ?_)
      rw [consume_buf] at hb
      exact Visits.turn ht hb

theorem frameLoop_of_hostile (fuel : Nat) {re : Reassembler} (hlen : re.buf.length < 2 ^ 63)
    (h : Hostile mm transport re.buf) :
    (frameLoop mm transport direction fuel re).isSome = false := by
  have hc : re.consume 0 = re := by
    rw [Reassembler.consume, Nat.zero_min]
    exact if_pos rfl
  induction fuel with
  | zero => rfl
  | succ fuel ih =>
    rw [isSome_frameLoop, frame_of_hostile hlen h, taken]
    dsimp only
    rw [hc]
    exact ih

theorem frameLoop_of_visits {buf b : List UInt8} (hv : Visits mm transport direction buf b)
    (h : Hostile mm transport b) : ∀ (fuel : Nat) (re : Reassembler), re.buf = buf →
    re.buf.length < 2 ^ 63 → (frameLoop mm transport direction fuel re).isSome = false := by
  induction hv with
  | refl buf =>
    intro fuel re hbuf hlen
    rw [← hbuf] at h
    exact frameLoop_of_hostile fuel hlen h
  | @turn buf c k ht _ ih =>
    intro fuel re hbuf hlen
    cases fuel with
    | zero => rfl
    | succ fuel =>
      rw [isSome_frameLoop, hbuf, ht]
      refine ih h fuel _ (by rw [consume_buf, hbuf]) ?_
      rw [consume_buf, length_drop]
      omega

/-- **When the framing loop makes progress and stops.**  A turn takes between one byte and
all there are exactly when the buffer before it is not hostile, and the loop stops, after
at most one turn for each byte and one more, exactly when it comes to no hostile buffer. -/
theorem frameLoop_stops_iff (mm : Finder UInt8) (transport : Transport) (direction : Direction)
    (re : Reassembler) (hlen : re.available.length < 2 ^ 63) :
    (∀ b, Visits mm transport direction re.available b →
      (Advances b (frame mm transport direction b) ↔ ¬ Hostile mm transport b)) ∧
    ((∃ fuel, (frameLoop mm transport direction fuel re).isSome = true) ↔
      ∀ b, Visits mm transport direction re.available b → ¬ Hostile mm transport b) ∧
    ((∀ b, Visits mm transport direction re.available b → ¬ Hostile mm transport b) →
      (frameLoop mm transport direction (re.available.length + 1) re).isSome = true) := by
  have hvlen : ∀ {buf b : List UInt8}, Visits mm transport direction buf b →
      buf.length < 2 ^ 63 → b.length < 2 ^ 63 := by
    intro buf b hv
    induction hv with
    | refl buf => exact id
    | turn _ _ ih =>
      intro hl
      refine ih ?_
      rw [length_drop]
      omega
  have hstops : (∀ b, Visits mm transport direction re.available b → ¬ Hostile mm transport b) →
      (frameLoop mm transport direction (re.available.length + 1) re).isSome = true :=
    frameLoop_stops _ re (Nat.lt_succ_self _) hlen
  refine ⟨fun b hb => frame_advances_iff transport direction (hvlen hb hlen),
    ⟨fun hs b hb hh => ?_, fun hv => ⟨_, hstops hv⟩⟩, hstops⟩
  obtain ⟨fuel, hs⟩ := hs
  rw [frameLoop_of_visits hb hh fuel re rfl hlen] at hs
  exact Bool.false_ne_true hs

/-- A FIX message that has not arrived in full, behind two bytes of another. -/
def fixHead : List UInt8 := ascii "x\x018=FIX.4.2\x019=5\x01"

theorem frameLoop_stops_iff_fixHead :
    (frameLoop Finder.naive .fix .response 17 (Reassembler.new.push 1 100 fixHead).1).isSome =
      true := by
  have hlen : (Reassembler.new.push 1 100 fixHead).1.available.length = 16 := by decide
  have h := frameLoop_stops_iff Finder.naive .fix .response
    (Reassembler.new.push 1 100 fixHead).1 (by rw [hlen]; decide)
  have hstop := h.2.2 (fun b _ hh => absurd hh.1 (by decide))
  rw [hlen] at hstop
  exact hstop

/-- A response whose content length is `2 ^ 64` less its head. -/
def hostileHead : List UInt8 :=
  ascii "HTTP/1.1 200 OK\r\nContent-Length: 18446744073709551559\r\n\r\n"

/-- **The framing loop does not stop on this response**: it frames an empty message, and
again. -/
theorem frameLoop_hostileHead :
    frame Finder.naive .httpWs .response (Reassembler.new.push 1 100 hostileHead).1.available =
      .message 0 ∧
    ∀ fuel, frameLoop Finder.naive .httpWs .response fuel
      (Reassembler.new.push 1 100 hostileHead).1 = none := by
  have hbuf : (Reassembler.new.push 1 100 hostileHead).1.buf = hostileHead := by decide
  have hlen : hostileHead.length < 2 ^ 63 := by decide
  have hhost : Hostile Finder.naive .httpWs hostileHead :=
    ⟨rfl, by decide, 53, by decide, by decide +kernel, by decide +kernel⟩
  rw [← hbuf] at hhost hlen
  refine ⟨frame_of_hostile hlen hhost, fun fuel => ?_⟩
  exact Option.not_isSome_iff_eq_none.mp
    (Bool.eq_false_iff.mp (frameLoop_of_hostile fuel hlen hhost))

end

end MatchBench.Capture
