import MatchBench.Capture.Replay
import MatchBench.Lib.Fields

/-!
# FIX messages in segments

A FIX message says in its second field how long its body is.  Whatever the segments are in
which a stream of messages comes, also behind bytes that belong to none, the messages are
framed with their own bytes (`fix_recovers`).  There are two provisos.  A segment must not make
the reassembler give its buffer up.  And without a message after them, up to four of the bytes
before it stay in the buffer, since they might begin one.
-/

namespace MatchBench.Capture

open List
open Reassembler

/-! ### Messages -/

/-- The number that some digits write. -/
def decimal (digits : List UInt8) : Nat := digits.foldl (fun v c => v * 10 + (c - 0x30).toNat) 0

/-- A well-formed message: `8=FIX`, the rest of the version, the length of the body as it is
written, the body, and the three characters of the check sum. -/
structure FixMessage where
  version : List UInt8
  bodyLength : List UInt8
  body : List UInt8
  checkSum : List UInt8
  version_soh : soh ∉ version
  bodyLength_ne : bodyLength ≠ []
  bodyLength_digits : ∀ c ∈ bodyLength, isAsciiDigit c = true
  bodyLength_eq : decimal bodyLength = body.length
  body_le : body.length ≤ maxFixMessage
  checkSum_length : checkSum.length = 3
  /-- A message fits into the address space. -/
  header_lt : version.length + bodyLength.length < 2 ^ 62

namespace FixMessage

/-- The first field, without the byte that ends it. -/
def beginString (m : FixMessage) : List UInt8 := fixBegin ++ m.version

def bytes (m : FixMessage) : List UInt8 :=
  m.beginString ++ (soh :: (ascii "9=" ++ (m.bodyLength ++
    (soh :: (m.body ++ (ascii "10=" ++ (m.checkSum ++ [soh])))))))

theorem length_bytes (m : FixMessage) :
    m.bytes.length = m.beginString.length + m.bodyLength.length + m.body.length + 11 := by
  simp only [bytes, length_append, length_cons, m.checkSum_length, length_nil,
    show (ascii "9=").length = 2 from rfl, show (ascii "10=").length = 3 from rfl]
  omega

end FixMessage

/-! ### What the framer reads -/

theorem findByte_append {b : UInt8} (before piece after : List UInt8) (h : b ∉ piece) :
    findByte (before ++ (piece ++ b :: after)) b before.length =
      some (before.length + piece.length) := by
  rw [findByte, drop_left, findIdx_separator h, Option.map_some, add_comm]

theorem foldl_pushDigit (digits : List UInt8) (v : Nat) :
    digits.foldl pushDigit (min v (2 ^ 64 - 1)) =
      min (digits.foldl (fun v c => v * 10 + (c - 0x30).toNat) v) (2 ^ 64 - 1) := by
  induction digits generalizing v with
  | nil => rfl
  | cons c digits ih =>
    have hpush : pushDigit (min v (2 ^ 64 - 1)) c =
        min (v * 10 + (c - 0x30).toNat) (2 ^ 64 - 1) := by
      rw [pushDigit]
      omega
    rw [foldl_cons, foldl_cons, hpush, ih]

variable {digits garbage m : List UInt8} {ms : List (List UInt8)}

theorem parseUint_min (hne : digits ≠ []) (hd : ∀ c ∈ digits, isAsciiDigit c = true) :
    parseUint digits = some (min (decimal digits) (2 ^ 64 - 1)) := by
  have hfold := foldl_pushDigit digits 0
  rw [Nat.zero_min] at hfold
  rw [parseUint, if_neg hne, if_pos (all_eq_true.mpr hd), hfold, ← decimal]

theorem parseUint_eq (hne : digits ≠ [])
    (hd : ∀ c ∈ digits, isAsciiDigit c = true) (hlt : decimal digits < 2 ^ 64) :
    parseUint digits = some (decimal digits) := by
  rw [parseUint_min hne hd, Nat.min_eq_left (by omega)]

namespace FixMessage

variable (m : FixMessage)

theorem soh_notMem_beginString : soh ∉ m.beginString := by
  rw [beginString, mem_append]
  rintro (h | h)
  · exact absurd h (by decide)
  · exact m.version_soh h

theorem soh_notMem_bodyLength : soh ∉ m.bodyLength := fun h =>
  absurd (m.bodyLength_digits soh h) (by decide)

/-- The message up to its body length. -/
def head : List UInt8 := m.beginString ++ (soh :: ascii "9=")

theorem length_head : m.head.length = m.beginString.length + 3 := by
  rw [head, length_append]
  rfl

theorem bytes_eq_head : m.bytes = m.head ++ (m.bodyLength ++
    (soh :: (m.body ++ (ascii "10=" ++ (m.checkSum ++ [soh]))))) := by
  rw [bytes, head, append_assoc, cons_append]

theorem fixHead : FixHead m.bytes m.beginString.length
    (m.beginString.length + 3 + m.bodyLength.length) m.body.length where
  begins := by
    rw [List.isPrefixOf_iff_prefix, bytes, beginString, append_assoc]
    exact prefix_append _ _
  first := by
    have h := findByte_append [] m.beginString (ascii "9=" ++ (m.bodyLength ++
      (soh :: (m.body ++ (ascii "10=" ++ (m.checkSum ++ [soh])))))) m.soh_notMem_beginString
    rwa [nil_append, length_nil, zero_add] at h
  tag := by
    rw [bytes, drop_append, drop_eq_nil_of_le (Nat.le_succ _), nil_append,
      show m.beginString.length + 1 - m.beginString.length = 1 by omega, drop_one,
      tail_cons]
    rfl
  room := by
    rw [length_bytes]
    omega
  second := by
    rw [bytes_eq_head, ← length_head]
    exact findByte_append m.head m.bodyLength _ m.soh_notMem_bodyLength
  parsed := by
    have htake : m.bytes.take (m.beginString.length + 3 + m.bodyLength.length) =
        m.head ++ m.bodyLength := by
      rw [bytes_eq_head, ← append_assoc, ← length_head, ← length_append, take_left]
    rw [htake, ← length_head, drop_left, ← m.bodyLength_eq]
    refine parseUint_eq m.bodyLength_ne m.bodyLength_digits ?_
    rw [m.bodyLength_eq]
    exact lt_of_le_of_lt m.body_le (by decide)
  small := m.body_le

/-- **A well-formed message is framed whole.** -/
theorem whole (mm : Finder UInt8) (direction : Direction) : Whole mm .fix direction m.bytes := by
  have hh := m.fixHead
  have hlen := m.length_bytes
  have hbegin : m.beginString.length = 5 + m.version.length := by
    rw [beginString, length_append]
    rfl
  have hroom := hh.room
  have hsmall := hh.small
  have hheader := m.header_lt
  have hmax : maxFixMessage = 65536 := rfl
  have h5 : fixBegin.length = 5 := rfl
  rw [Whole, frame, frameFix, if_neg (by omega), hh.begins, Bool.not_true,
    if_neg Bool.false_ne_true, hh.first]
  dsimp only
  rw [if_neg (by omega), if_neg (not_not.mpr hh.tag), hh.second]
  dsimp only
  rw [hh.parsed]
  dsimp only
  rw [if_neg (by omega), Nat.mod_eq_of_lt (by omega), if_neg (by omega)]
  congr 1
  omega

end FixMessage

/-! ### Behind bytes that belong to no message -/

/-- How many of the first `n` bytes are buffered: among the garbage up to four, which may begin
a message, and then those of an unfinished one. -/
def waiting (garbage : List UInt8) (lengths : List Nat) (n : Nat) : Nat :=
  if n < garbage.length + fixBegin.length then min n (fixBegin.length - 1)
  else unfinished lengths (n - garbage.length)

/-- The messages, the first of them behind the garbage. -/
def behind (garbage : List UInt8) : List (List UInt8) → List Parcel
  | [] => []
  | m :: ms => ⟨garbage, m⟩ :: ms.map (Parcel.mk [])

theorem map_message_behind (garbage : List UInt8) (ms : List (List UInt8)) :
    (behind garbage ms).map Parcel.message = ms := by
  cases ms with
  | nil => rfl
  | cons m ms =>
    rw [behind, map_cons, map_map]
    exact congrArg (m :: ·) (map_id ms)

theorem mem_behind {p : Parcel}
    (h : p ∈ behind garbage ms) : p.message ∈ ms ∧ (p.junk = garbage ∨ p.junk = []) := by
  cases ms with
  | nil => cases h
  | cons m ms =>
    rcases mem_cons.mp h with rfl | h
    · exact ⟨.head _, .inl rfl⟩
    · obtain ⟨m', hm', rfl⟩ := mem_map.mp h
      exact ⟨mem_cons_of_mem _ hm', .inr rfl⟩

theorem stream_behind
    (h : garbage = [] ∨ ms ≠ []) : stream (behind garbage ms) [] = garbage ++ ms.flatten := by
  cases ms with
  | nil =>
    rw [h.resolve_right fun hne => hne rfl]
    rfl
  | cons m ms => rw [behind, stream_cons, stream_map_clean, flatten_cons]

theorem remain_behind {ps qs : List Parcel} (hclean : ∀ p ∈ ps, p.junk = [])
    (h : Remain (⟨garbage, m⟩ :: ps) qs) :
    (∀ p ∈ qs, p.junk = []) ∨ ∃ k, qs = ⟨garbage.drop k, m⟩ :: ps := by
  generalize hp : (⟨garbage, m⟩ :: ps : List Parcel) = rs at h
  induction h generalizing garbage with
  | refl => exact .inr ⟨0, hp.symm⟩
  | skip n _ ih =>
    obtain ⟨rfl, rfl⟩ := List.cons.inj hp
    rcases ih rfl with h | ⟨k, h⟩
    · exact .inl h
    · rw [drop_drop] at h
      exact .inr ⟨n + k, h⟩
  | take h =>
    obtain ⟨-, rfl⟩ := List.cons.inj hp
    exact .inl (h.clean hclean)

section

variable {mm : Finder UInt8} {direction : Direction} {isn : UInt32} {garbage : List UInt8}
  {messages : List (List UInt8)} {tail : List UInt8} {re : Reassembler} {f : Nat → Mark}
  {done : List (List UInt8)}

theorem Arriving.among_garbage {n k : Nat}
    (h : Arriving mm .fix direction isn (behind garbage (m :: ms)) n tail re f done
      (⟨garbage.drop k, m⟩ :: ms.map (Parcel.mk []))) (hk : garbage.drop k ≠ []) :
    re.buf.length < fixBegin.length ∧ n < garbage.length + fixBegin.length := by
  have hgood := h.fed.good _ (.head _)
  have hbegin : fixBegin <+: m ++ stream (ms.map (Parcel.mk [])) [] :=
    (hgood.fixBegin_prefix hk).trans (prefix_append _ _)
  have hshort : re.buf.length < fixBegin.length := by
    have hx : re.buf <+: garbage.drop k ++ (m ++ stream (ms.map (Parcel.mk [])) []) := by
      rw [← stream_cons ⟨garbage.drop k, m⟩]
      exact ⟨tail, h.fed.bytes⟩
    rcases frame_junk hk hgood.junk (.inr hbegin) hx with ⟨-, hlt⟩ | ⟨skip, hf, -, -⟩
    · exact hlt
    · exact absurd (h.waits.symm.trans hf) (by simp)
  have htotal := h.total
  have hlen := h.length_buf
  have hpos := length_pos_iff.mpr hk
  rw [behind, stream_cons, length_append, length_append] at htotal
  rw [stream_cons, length_append, length_append] at hlen
  dsimp only at htotal hlen
  rw [length_drop] at hlen hpos
  exact ⟨hshort, by omega⟩

theorem Arriving.waiting {n : Nat} {ps : List Parcel}
    (h : Arriving mm .fix direction isn (behind garbage messages) n tail re f done ps)
    (hsome : garbage = [] ∨ messages ≠ []) :
    re.buf.length ≤ Capture.waiting garbage (messages.map List.length) n := by
  have hstream : (stream (behind garbage messages) []).length = garbage.length +
      (((behind garbage messages).map Parcel.message).map List.length).sum := by
    rw [stream_behind hsome, length_append, length_flatten, map_message_behind]
  have h5 : fixBegin.length = 5 := rfl
  have hbuf : re.buf.length ≤ n := by
    have := h.delivered
    rw [deliveredAbs] at this
    omega
  have hclean : (∀ p ∈ ps, p.junk = []) →
      re.buf.length ≤ Capture.waiting garbage (messages.map List.length) n := by
    intro hc
    obtain ⟨hn, hk⟩ := h.kept hc hstream
    rw [map_message_behind] at hk
    rw [Capture.waiting]
    split
    · omega
    · exact hk.ge
  cases messages with
  | nil =>
    refine hclean (h.remain.clean fun p hp => ?_)
    cases hp
  | cons m ms =>
    have htail : ∀ p ∈ ms.map (Parcel.mk []), p.junk = [] := by
      intro p hp
      obtain ⟨m, -, rfl⟩ := mem_map.mp hp
      rfl
    rcases remain_behind htail h.remain with hc | ⟨k, rfl⟩
    · exact hclean hc
    by_cases hk : garbage.drop k = []
    · refine hclean fun p hp => ?_
      rcases mem_cons.mp hp with rfl | hp
      · exact hk
      · exact htail p hp
    · obtain ⟨hshort, hn⟩ := h.among_garbage hk
      rw [Capture.waiting, if_pos hn]
      omega

end

/-- **FIX messages are framed however the stream is divided**: these messages, with their own
bytes, in order, and no byte is left. -/
theorem fix_recovers (mm : Finder UInt8) (direction : Direction) (isn : UInt32)
    (garbage : List UInt8) (messages : List FixMessage) (segs : List (UInt64 × List UInt8))
    (hgarbage : ∀ i, ¬ OccursAt fixBegin garbage i) (hsome : garbage = [] ∨ messages ≠ [])
    (hdiv : segmentBytes segs = garbage ++ (messages.map FixMessage.bytes).flatten)
    (hroom : Fitting (waiting garbage (messages.map fun m => m.bytes.length)) 0 segs) :
    Recovers mm .fix direction isn segs (messages.map FixMessage.bytes) := by
  have hsome' : garbage = [] ∨ messages.map FixMessage.bytes ≠ [] :=
    hsome.imp_right fun hne he => hne (map_eq_nil_iff.mp he)
  have hjunk : Junk mm .fix garbage := by
    refine .inr ⟨rfl, ?_⟩
    rw [find, if_neg (by decide)]
    exact (mm.find_eq_none (by decide)).mpr hgarbage
  have hgood : ∀ p ∈ behind garbage (messages.map FixMessage.bytes), p.Good mm .fix direction := by
    intro p hp
    obtain ⟨hmem, hg⟩ := mem_behind hp
    obtain ⟨m, -, hm⟩ := mem_map.mp hmem
    refine ⟨hm ▸ m.whole mm direction, ?_⟩
    rcases hg with hg | hg
    · exact hg ▸ hjunk
    · exact .inl hg
  have hstart := arriving_new isn hgood
  rw [stream_behind hsome', ← hdiv] at hstart
  have hlens : messages.map (fun m => m.bytes.length) =
      (messages.map FixMessage.bytes).map List.length := by
    rw [map_map]
    rfl
  rw [hlens] at hroom
  obtain ⟨re, cs, hrun, hcs, hbuf⟩ := replay_of_fitting (fun h => h.waiting hsome') hstart hroom
  rw [show isn + UInt32.ofNat 0 = isn from UInt32.add_zero isn] at hrun
  rw [nil_append, map_message_behind] at hcs
  exact ⟨re, cs, hrun, hcs, hbuf⟩

/-- A heartbeat with one character after the tag of its type. -/
def heartbeat (c : UInt8) : FixMessage where
  version := ascii ".4.2"
  bodyLength := ascii "05"
  body := ascii "35=" ++ [c, soh]
  checkSum := ascii "000"
  version_soh := by decide
  bodyLength_ne := by decide
  bodyLength_digits := by decide +kernel
  bodyLength_eq := rfl
  body_le := Nat.le_of_ble_eq_true rfl
  checkSum_length := by decide
  header_lt := by decide

/-- Two heartbeats behind some garbage, cut within the garbage, the tags and the trailer. -/
def scattered : List (UInt64 × List UInt8) :=
  let bytes := ascii "8=FI9=3" ++ (heartbeat 48).bytes ++ (heartbeat 49).bytes
  [(1, bytes.take 5), (2, (bytes.drop 5).take 6), (3, []), (4, (bytes.drop 11).take 9),
    (5, (bytes.drop 20).take 13), (6, bytes.drop 33)]

theorem fix_recovers_scattered : Recovers Finder.naive .fix .request 4294967290 scattered
    ([heartbeat 48, heartbeat 49].map FixMessage.bytes) :=
  fix_recovers Finder.naive .request 4294967290 (ascii "8=FI9=3") [heartbeat 48, heartbeat 49]
    scattered ((Finder.naive.find_eq_none (by decide)).mp (by decide +kernel))
    (.inr (cons_ne_nil _ _)) (by decide +kernel) (by decide +kernel)

/-- **Two ways to lose bytes**: without a message the garbage stays in the buffer, and a segment
that makes the buffer too long is given up with what is there. -/
theorem fix_not_recovers :
    ¬ Recovers Finder.naive .fix .request 0 [(1, ascii "abc")] [] ∧
      ¬ Recovers Finder.naive .fix .request 0
        (beheadedAt 1 2 ((List.replicate 40000 (heartbeat 48)).map FixMessage.bytes).flatten)
        ((List.replicate 40000 (heartbeat 48)).map FixMessage.bytes) := by
  constructor
  · rintro ⟨re, cs, hrun, -, hbuf⟩
    have hleft : (replayTransport Finder.naive .fix .request Reassembler.new
        (segment 0 [(1, ascii "abc")])).map (fun x => x.1.buf) = some (ascii "abc") := by
      decide +kernel
    rw [hrun, Option.map_some, hbuf] at hleft
    exact absurd hleft (by decide)
  have hlen : (heartbeat 48).bytes.length = 27 := by decide
  rw [map_replicate, replicate_succ]
  refine not_recovers_beheadedAt (fun x hx => ?_) (by omega) ?_
  · rw [← replicate_succ] at hx
    rw [eq_of_mem_replicate hx]
    exact (heartbeat 48).whole _ _
  · rw [← replicate_succ, length_flatten, map_replicate, sum_replicate, hlen]
    decide

end MatchBench.Capture
