import MatchBench.Capture.Framing

/-!
# Taking messages off the buffer

The framing loop on a buffer whose bytes are known.  The bytes to come are a list of
messages, each after some bytes to skip (`Parcel`): a FIX framer skips bytes up to the
next `8=FIX`, so bytes that do not have it are lost without harm.  `cutLoop` is the
framing loop with the bytes of the messages instead of their fields, and `cutLoop_spec`
says what it takes from a buffer that holds the first of these bytes: the messages that are
whole in it, each with the time and sequence number of its first byte.

Those are read off the marks of the reassembler.  `Marked` says which mark each byte has,
and appending and consuming keep it.
-/

namespace MatchBench.Capture

open List Option Reassembler

/-! ### The marks of the buffered bytes -/

namespace Reassembler

/-- The mark of the byte at an offset from the start of the stream. -/
def markAt (r : Reassembler) (x : Nat) : Option Mark :=
  (r.marks.takeWhile (fun m => m.start ≤ x)).getLast?

/-- Each buffered byte has its mark. -/
structure Marked (r : Reassembler) (f : Nat → Mark) : Prop where
  sorted : r.marks.Pairwise (fun a b => a.start ≤ b.start)
  le : ∀ m ∈ r.marks, m.start ≤ r.deliveredAbs
  mark : ∀ x, r.frontAbs ≤ x → x < r.deliveredAbs → r.markAt x = some (f x)

variable {r : Reassembler}

theorem markAt_front {m : Mark} (h : r.markAt r.frontAbs = some m) :
    r.timestampAt 0 = m.ts ∧ r.seqAt 0 = m.seq + UInt32.ofNat (r.frontAbs - m.start) := by
  rw [markAt] at h
  rw [timestampAt, seqAt, add_zero, h]
  exact ⟨rfl, rfl⟩

theorem marked_new (f : Nat → Mark) : Marked new f :=
  ⟨List.Pairwise.nil, nofun, nofun⟩

theorem getLast_dropMarks {front x : Nat} (hle : front ≤ x) : ∀ (marks : List Mark),
    marks.Pairwise (fun a b => a.start ≤ b.start) →
    ((dropMarks front marks).takeWhile (fun m => m.start ≤ x)).getLast? =
      (marks.takeWhile (fun m => m.start ≤ x)).getLast? := by
  intro marks
  induction marks with
  | nil => exact fun _ => rfl
  | cons a marks ih =>
    intro hs
    cases marks with
    | nil => rfl
    | cons b rest =>
      rw [dropMarks]
      by_cases hb : b.start ≤ front
      · rw [if_pos hb, ih (pairwise_cons.mp hs).2]
        have hab := (pairwise_cons.mp hs).1 b (.head _)
        have hbx : b.start ≤ x := by omega
        have hax : a.start ≤ x := by omega
        simp [hax, hbx]
      · rw [if_neg hb]

theorem dropMarks_sublist (front : Nat) (marks : List Mark) :
    (dropMarks front marks).Sublist marks := by
  induction marks with
  | nil => exact Sublist.refl _
  | cons a marks ih =>
    cases marks with
    | nil => exact Sublist.refl _
    | cons b rest =>
      rw [dropMarks]
      split
      · exact ih.trans (sublist_cons_self _ _)
      · exact Sublist.refl _

theorem consume_min (r : Reassembler) (n : Nat) : r.consume n = r.consume (min n r.buf.length) := by
  rw [consume, consume, Nat.min_assoc, Nat.min_self]

variable {n : Nat} {f : Nat → Mark}

theorem consume_frontAbs (hn : n ≤ r.buf.length) :
    (r.consume n).frontAbs = r.frontAbs + n ∧ (r.consume n).deliveredAbs = r.deliveredAbs := by
  rw [deliveredAbs, deliveredAbs, consume, Nat.min_eq_left hn]
  split
  next h0 =>
    exact ⟨by omega, rfl⟩
  · dsimp only
    rw [length_drop]
    exact ⟨rfl, by omega⟩

theorem Marked.consume (h : Marked r f) (hn : n ≤ r.buf.length) : Marked (r.consume n) f := by
  obtain ⟨hfront, hdel⟩ := consume_frontAbs hn
  have hmarks : (r.consume n).marks = r.marks ∨
      (r.consume n).marks = dropMarks (r.frontAbs + n) r.marks := by
    rw [Reassembler.consume, Nat.min_eq_left hn]
    split
    · exact .inl rfl
    · exact .inr rfl
  have hsub : (r.consume n).marks.Sublist r.marks := by
    rcases hmarks with hm | hm
    · rw [hm]
    · rw [hm]
      exact dropMarks_sublist _ _
  refine ⟨h.sorted.sublist hsub, fun m hm => ?_, fun x hx hlt => ?_⟩
  · rw [hdel]
    exact h.le m (hsub.subset hm)
  rw [hfront] at hx
  rw [hdel] at hlt
  rw [← h.mark x (by omega) hlt, markAt, markAt]
  rcases hmarks with hm | hm
  · rw [hm]
  · rw [hm, getLast_dropMarks hx _ h.sorted]

/-- The marks with one more append. -/
def addMark (f : Nat → Mark) (m : Mark) (x : Nat) : Mark := if x < m.start then f x else m

theorem Marked.appendContiguous (h : Marked r f) (ts : UInt64) {data : List UInt8}
    (hne : data ≠ []) :
    Marked (r.appendContiguous ts data) (addMark f ⟨r.deliveredAbs, ts, r.nextSeq⟩) := by
  have hdel : (r.appendContiguous ts data).deliveredAbs = r.deliveredAbs + data.length := by
    rw [Reassembler.appendContiguous, if_neg hne, deliveredAbs, deliveredAbs]
    dsimp only
    rw [length_append]
    omega
  have hmarks : (r.appendContiguous ts data).marks =
      r.marks ++ [⟨r.deliveredAbs, ts, r.nextSeq⟩] := by
    rw [Reassembler.appendContiguous, if_neg hne]
  have hfront : (r.appendContiguous ts data).frontAbs = r.frontAbs := by
    rw [Reassembler.appendContiguous, if_neg hne]
  refine ⟨?_, fun m hm => ?_, fun x hx hlt => ?_⟩
  · rw [hmarks]
    refine pairwise_append.mpr ⟨h.sorted, pairwise_singleton _ _, fun a ha b hb => ?_⟩
    rw [mem_singleton.mp hb]
    exact h.le a ha
  · rw [hmarks] at hm
    rw [hdel]
    rcases mem_append.mp hm with hm | hm
    · have := h.le m hm
      omega
    · rw [mem_singleton.mp hm]
      exact Nat.le_add_right _ _
  rw [hfront] at hx
  rw [markAt, hmarks]
  by_cases hold : x < r.deliveredAbs
  · have hnew : [Mark.mk r.deliveredAbs ts r.nextSeq].takeWhile
        (fun m => decide (m.start ≤ x)) = [] := by
      simp
      omega
    rw [addMark, if_pos hold, ← h.mark x hx hold, markAt, takeWhile_append]
    split
    · rw [hnew, append_nil]
      rename_i hlen
      rw [(List.takeWhile_prefix _).eq_of_length hlen]
    · rfl
  rw [addMark, if_neg hold]
  have hall : ∀ m ∈ r.marks ++ [⟨r.deliveredAbs, ts, r.nextSeq⟩],
      decide (m.start ≤ x) = true := by
    intro m hm
    rcases mem_append.mp hm with hm | hm
    · have := h.le m hm
      exact decide_eq_true (by omega)
    · rw [mem_singleton.mp hm]
      exact decide_eq_true (by dsimp only; omega)
  rw [takeWhile_eq_self_iff.mpr hall, getLast?_append, getLast?_singleton]
  rfl

end Reassembler

/-! ### Messages and what is between them -/

/-- A message and the bytes before it that belong to none. -/
structure Parcel where
  junk : List UInt8
  message : List UInt8
  deriving DecidableEq, Repr

/-- The bytes of the parcels, and some after the last. -/
def stream (ps : List Parcel) (rest : List UInt8) : List UInt8 :=
  ps.flatMap (fun p => p.junk ++ p.message) ++ rest

theorem stream_cons (p : Parcel) (ps : List Parcel) (rest : List UInt8) :
    stream (p :: ps) rest = p.junk ++ (p.message ++ stream ps rest) := by
  rw [stream, stream, flatMap_cons, append_assoc, append_assoc]

/-- The messages with their offsets, when the first parcel starts at `x`. -/
def placed : Nat → List Parcel → List (Nat × List UInt8)
  | _, [] => []
  | x, p :: ps =>
      (x + p.junk.length, p.message) :: placed (x + p.junk.length + p.message.length) ps

section

variable (mm : Finder UInt8)

/-- Bytes that the framer skips. -/
def Junk (transport : Transport) (g : List UInt8) : Prop :=
  g = [] ∨ transport = .fix ∧ find mm g fixBegin = none
  deriving Decidable

structure Parcel.Good (transport : Transport) (direction : Direction) (p : Parcel) : Prop where
  whole : Whole mm transport direction p.message
  junk : Junk mm transport p.junk

/-- A message taken off the buffer, with the time and sequence number of its first byte. -/
structure Cut where
  ts : UInt64
  seq : UInt32
  bytes : List UInt8
  deriving DecidableEq, Repr

/-- The framing loop, with the messages as bytes. -/
def cutLoop (transport : Transport) (direction : Direction) :
    Nat → Reassembler → Option (Reassembler × List Cut)
  | 0, _ => none
  | fuel + 1, re =>
      match frame mm transport direction re.available with
      | .message n =>
          let c := Cut.mk (re.timestampAt 0) (re.seqAt 0) (re.available.take n)
          (cutLoop transport direction fuel (re.consume n)).map (fun x => (x.1, c :: x.2))
      | .incomplete => some (re, [])
      | .resync skip => cutLoop transport direction fuel (re.consume (max skip 1))

end

variable {mm : Finder UInt8} {transport : Transport} {direction : Direction}

theorem Junk.drop {g : List UInt8} (h : Junk mm transport g) (n : Nat) :
    Junk mm transport (g.drop n) := by
  rcases h with h | ⟨ht, hf⟩
  · rw [h, drop_nil]
    exact .inl rfl
  refine .inr ⟨ht, ?_⟩
  have hne : fixBegin ≠ [] := by decide
  rw [find, if_neg hne, mm.find_eq_none hne] at hf ⊢
  intro i hi
  refine hf (n + i) ?_
  rw [OccursAt, drop_drop] at hi
  exact hi

theorem frame_junk {g r x : List UInt8} (hne : g ≠ []) (hj : Junk mm transport g)
    (hr : r = [] ∨ fixBegin <+: r) (hx : x <+: g ++ r) :
    (frame mm transport direction x = .incomplete ∧ x.length < fixBegin.length) ∨
      ∃ skip, frame mm transport direction x = .resync skip ∧ max skip 1 ≤ g.length ∧
        max skip 1 ≤ x.length := by
  obtain ⟨ht, hf⟩ := hj.resolve_left hne
  have hgpos := length_pos_iff.mpr hne
  have hfne : fixBegin ≠ [] := by decide
  have hflen : fixBegin.length = 5 := by decide
  rw [find, if_neg hfne] at hf
  have hskip : fixBegin <+: r → mm.find (g ++ r) fixBegin = some g.length :=
    fun hr => mm.find_skip (by decide) hf hr
  -- the first place where a message can start is behind the bytes to skip
  have hfind : (∀ j < g.length, ¬ OccursAt fixBegin x j) ∧
      ∀ i, find mm x fixBegin = some i → i = g.length ∧ g.length + 5 ≤ x.length := by
    have hocc : ∀ j, OccursAt fixBegin x j → OccursAt fixBegin (g ++ r) j := by
      intro j hj
      obtain ⟨tail, htail⟩ := hx
      rw [← htail]
      exact hj.append hfne tail
    rcases hr with hr | hr
    · rw [hr, append_nil] at hocc
      have hnone := (mm.find_eq_none hfne).mp hf
      refine ⟨fun j _ hj => hnone j (hocc j hj), fun i hi => ?_⟩
      rw [find, if_neg hfne] at hi
      exact absurd (hocc i ((mm.find_iff _ _ _ hfne).mp hi).1) (hnone i)
    obtain ⟨hstart, hfirst⟩ := (mm.find_iff _ _ _ hfne).mp (hskip hr)
    have hbefore : ∀ j < g.length, ¬ OccursAt fixBegin x j :=
      fun j hj hc => hfirst j hj (hocc j hc)
    refine ⟨hbefore, fun i hi => ?_⟩
    rw [find, if_neg hfne] at hi
    obtain ⟨hoi, hmin⟩ := (mm.find_iff _ _ _ hfne).mp hi
    have hle := hoi.le hfne
    have hge : ¬ i < g.length := fun hc => hbefore i hc hoi
    have hgi : ¬ g.length < i := by
      intro hc
      obtain ⟨tail, htail⟩ := hx
      have hin : OccursAt fixBegin (x ++ tail) g.length := by
        rw [htail]
        exact hstart
      exact hmin g.length hc (hin.front (by omega))
    exact ⟨by omega, by omega⟩
  rw [ht, frame, frameFix]
  by_cases h5 : x.length < fixBegin.length
  · rw [if_pos h5]
    exact .inl ⟨rfl, h5⟩
  right
  have hnot : (!fixBegin.isPrefixOf x) = true := by
    rw [Bool.not_eq_true', Bool.eq_false_iff, ne_eq, List.isPrefixOf_iff_prefix]
    exact fun hc => hfind.1 0 hgpos hc
  have hxlen : x.length ≤ g.length + r.length := by
    have := hx.length_le
    rwa [length_append] at this
  rw [if_neg h5, if_pos hnot]
  cases hfx : find mm x fixBegin with
  | some i =>
    obtain ⟨hi, hle⟩ := hfind.2 i hfx
    exact ⟨i, rfl, by omega, by omega⟩
  | none =>
    refine ⟨x.length - (fixBegin.length - 1), rfl, ?_, by omega⟩
    -- with five bytes behind those to skip, the message would have been found
    have hlt : x.length < g.length + 5 := by
      by_contra hge
      rcases hr with hr | hr
      · rw [hr, length_nil] at hxlen
        omega
      obtain ⟨tail, htail⟩ := hx
      have hwhole := hskip hr
      rw [← htail] at hwhole
      rw [find, if_neg hfne, mm.find_front hfne hwhole (by omega)] at hfx
      cases hfx
    omega

variable {m tail : List UInt8} {f : Nat → Mark}

theorem Whole.fixBegin_prefix (h : Whole mm .fix direction m) : fixBegin <+: m := by
  obtain ⟨_, _, _, hh, _⟩ := frameFix_eq_message h
  exact List.isPrefixOf_iff_prefix.mp hh.begins

/-! ### The loop -/

namespace Reassembler

/-- What taking messages off the buffer leaves alone. -/
def tip (r : Reassembler) :
    Bool × List (UInt32 × List UInt8) × Hold × UInt32 × Nat × UInt64 × Nat :=
  (r.initialized, r.log, r.hold, r.nextSeq, r.deliveredAbs, r.lastActivityNs, r.stalledPushes)

theorem tip_consume {r : Reassembler} {n : Nat} (hn : n ≤ r.buf.length) :
    (r.consume n).tip = r.tip := by
  have hdel := (consume_frontAbs hn).2
  rw [tip, tip, hdel, consume]
  split <;> rfl

end Reassembler

/-- The message at an offset, with what its first byte's mark says. -/
def cutAt (f : Nat → Mark) (x : Nat × List UInt8) : Cut :=
  ⟨(f x.1).ts, (f x.1).seq + UInt32.ofNat (x.1 - (f x.1).start), x.2⟩

/-- The buffer holds the first bytes of the parcels; `tail` has the others. -/
structure Fed (mm : Finder UInt8) (transport : Transport) (direction : Direction) (f : Nat → Mark)
    (tail : List UInt8) (re : Reassembler) (ps : List Parcel) (rest : List UInt8) : Prop where
  bytes : re.buf ++ tail = stream ps rest
  good : ∀ p ∈ ps, p.Good mm transport direction
  junk : Junk mm transport rest
  marked : re.Marked f

/-- No message is whole in the buffer. -/
def Spent (re : Reassembler) (ps : List Parcel) : Prop :=
  ∀ p ∈ ps.head?, re.buf.length < p.junk.length + p.message.length

/-- What the loop makes of a fed buffer. -/
structure Cuts (mm : Finder UInt8) (transport : Transport) (direction : Direction) (f : Nat → Mark)
    (tail : List UInt8) (re : Reassembler) (ps : List Parcel) (re' : Reassembler)
    (cs : List Cut) (ps' : List Parcel) (rest' : List UInt8) : Prop where
  fed : Fed mm transport direction f tail re' ps' rest'
  spent : Spent re' ps'
  cuts : ∃ done, placed re.frontAbs ps = done ++ placed re'.frontAbs ps' ∧
    cs = done.map (cutAt f) ∧ ∀ x ∈ done, re.frontAbs ≤ x.1 ∧ x.1 < re.deliveredAbs
  tip : re'.tip = re.tip

/-- What may be left of the parcels: some are done, and junk of the next one is skipped. -/
inductive Remain : List Parcel → List Parcel → Prop
  | refl (ps : List Parcel) : Remain ps ps
  | skip {p : Parcel} {ps qs : List Parcel} (n : Nat) :
      Remain (⟨p.junk.drop n, p.message⟩ :: ps) qs → Remain (p :: ps) qs
  | take {p : Parcel} {ps qs : List Parcel} : Remain ps qs → Remain (p :: ps) qs

section Turns

variable {re : Reassembler} (fuel : Nat)

theorem cutLoop_of_incomplete (h : frame mm transport direction re.buf = .incomplete) :
    cutLoop mm transport direction (fuel + 1) re = some (re, []) := by
  rw [cutLoop, available, h]

theorem cutLoop_of_resync {skip : Nat} (h : frame mm transport direction re.buf = .resync skip) :
    cutLoop mm transport direction (fuel + 1) re =
      cutLoop mm transport direction fuel (re.consume (max skip 1)) := by
  rw [cutLoop, available, h]

theorem cutLoop_of_message {n : Nat} (h : frame mm transport direction re.buf = .message n) :
    cutLoop mm transport direction (fuel + 1) re =
      (cutLoop mm transport direction fuel (re.consume n)).map
        (fun x => (x.1, ⟨re.timestampAt 0, re.seqAt 0, re.buf.take n⟩ :: x.2)) := by
  rw [cutLoop, available, h]

end Turns

theorem Fed.skip {re : Reassembler} {ps ps' : List Parcel}
    {rest rest' : List UInt8} (h : Fed mm transport direction f tail re ps rest) {n : Nat}
    (hn : n ≤ re.buf.length) (hs : (stream ps rest).drop n = stream ps' rest')
    (hgood : ∀ p ∈ ps', p.Good mm transport direction) (hj : Junk mm transport rest') :
    Fed mm transport direction f tail (re.consume n) ps' rest' := by
  refine ⟨?_, hgood, hj, h.marked.consume hn⟩
  rw [consume_buf, ← hs, ← h.bytes, drop_append_of_le_length hn]

section Turns

variable {f : Nat → Mark} {tail : List UInt8} {re : Reassembler} {ps : List Parcel}
  {rest : List UInt8} {fuel : Nat}

variable (mm transport direction) in
/-- The loop ends, and this is what it has taken and left. -/
def Settled (f : Nat → Mark) (tail : List UInt8) (fuel : Nat) (re : Reassembler) (ps : List Parcel)
    (rest : List UInt8) : Prop :=
  ∃ re' cs ps' rest', cutLoop mm transport direction fuel re = some (re', cs) ∧
    Cuts mm transport direction f tail re ps re' cs ps' rest' ∧ Remain ps ps' ∧ rest' <:+ rest

theorem Settled.wait (h : Fed mm transport direction f tail re ps rest) (hs : Spent re ps)
    (hf : frame mm transport direction re.buf = .incomplete) :
    Settled mm transport direction f tail (fuel + 1) re ps rest :=
  ⟨re, [], ps, rest, cutLoop_of_incomplete fuel hf,
    ⟨h, hs, ⟨[], rfl, rfl, nofun⟩, rfl⟩, .refl ps,
    suffix_refl rest⟩

theorem Settled.skip {skip : Nat} {qs : List Parcel} {rest' : List UInt8}
    (hf : frame mm transport direction re.buf = .resync skip) (hle : max skip 1 ≤ re.buf.length)
    (hplaced : placed re.frontAbs ps = placed (re.frontAbs + max skip 1) qs)
    (hremain : ∀ ps', Remain qs ps' → Remain ps ps') (hsuffix : rest' <:+ rest)
    (h : Settled mm transport direction f tail fuel (re.consume (max skip 1)) qs rest') :
    Settled mm transport direction f tail (fuel + 1) re ps rest := by
  obtain ⟨re', cs, ps', rest'', hcut, hc, hrem, hsuf⟩ := h
  obtain ⟨done, hdone, hcs, hin⟩ := hc.cuts
  obtain ⟨hfront, hdel⟩ := consume_frontAbs hle
  rw [hfront, ← hplaced] at hdone
  rw [hfront, hdel] at hin
  refine ⟨re', cs, ps', rest'', (cutLoop_of_resync fuel hf).trans hcut, ⟨hc.fed, hc.spent,
    ⟨done, hdone, hcs, fun x hx => ?_⟩, hc.tip.trans (tip_consume hle)⟩,
    hremain _ hrem, hsuf.trans hsuffix⟩
  have := hin x hx
  omega

theorem Settled.take (hmarked : re.Marked f)
    (hf : frame mm transport direction re.buf = .message m.length)
    (htake : re.buf.take m.length = m) (hpos : 0 < m.length) (hle : m.length ≤ re.buf.length)
    (h : Settled mm transport direction f tail fuel (re.consume m.length) ps rest) :
    Settled mm transport direction f tail (fuel + 1) re (⟨[], m⟩ :: ps) rest := by
  obtain ⟨re', cs, ps', rest', hcut, hc, hrem, hsuf⟩ := h
  obtain ⟨done, hdone, hcs, hin⟩ := hc.cuts
  obtain ⟨hfront, hdel⟩ := consume_frontAbs hle
  have hlt : re.frontAbs < re.deliveredAbs := by
    rw [deliveredAbs]
    omega
  obtain ⟨hts, hseq⟩ := markAt_front (hmarked.mark re.frontAbs le_rfl hlt)
  refine ⟨re', cutAt f (re.frontAbs, m) :: cs, ps', rest', ?_, ⟨hc.fed, hc.spent,
    ⟨(re.frontAbs, m) :: done, ?_, ?_, fun x hx => ?_⟩,
    hc.tip.trans (tip_consume hle)⟩, .take hrem, hsuf⟩
  · rw [cutLoop_of_message fuel hf, hcut, map_some, htake, hts, hseq]
    rfl
  · rw [hfront] at hdone
    rw [placed, length_nil, add_zero, hdone, cons_append]
  · rw [hcs, map_cons]
  rcases mem_cons.mp hx with hx | hx
  · rw [hx]
    exact ⟨le_rfl, hlt⟩
  · have hb := hin x hx
    rw [hfront, hdel] at hb
    omega

theorem Parcel.Good.fixBegin_prefix {p : Parcel} (hp : p.Good mm transport direction)
    (hjunk : p.junk ≠ []) : fixBegin <+: p.message := by
  have hw := hp.whole
  rw [(hp.junk.resolve_left hjunk).1] at hw
  exact hw.fixBegin_prefix

end Turns

/-- **The framing loop** takes the messages that are whole in the buffer. -/
theorem cutLoop_spec : ∀ (fuel : Nat) (re : Reassembler)
    (ps : List Parcel) (rest : List UInt8), re.buf.length < fuel →
    Fed mm transport direction f tail re ps rest →
    Settled mm transport direction f tail fuel re ps rest := by
  intro fuel
  induction fuel with
  | zero => exact fun re ps rest hlt _ => nomatch hlt
  | succ fuel ih =>
    intro re ps rest hfuel h
    have hfirst : re.buf <+: stream ps rest := ⟨tail, h.bytes⟩
    have hless : ∀ {n : Nat}, 0 < n → n ≤ re.buf.length → (re.consume n).buf.length < fuel := by
      intro n hn hle
      rw [consume_buf, length_drop]
      omega
    cases ps with
    | nil =>
      rw [stream, flatMap_nil, nil_append] at hfirst
      have hspent : Spent re [] := fun p hp => absurd hp (by simp)
      by_cases hrest : rest = []
      · refine .wait h hspent ?_
        rw [hrest, prefix_nil] at hfirst
        rw [hfirst]
        exact frame_nil
      have hx : re.buf <+: rest ++ [] := by
        rw [append_nil]
        exact hfirst
      rcases frame_junk hrest h.junk (.inl rfl) hx with ⟨hf, _⟩ | ⟨skip, hf, _, hle⟩
      · exact .wait h hspent hf
      · refine .skip hf hle rfl (fun _ h => h) (List.drop_suffix _ _)
          (ih _ [] (rest.drop (max skip 1)) (hless (by omega) hle) ?_)
        exact h.skip hle rfl (nofun) (h.junk.drop _)
    | cons p ps =>
      obtain ⟨junk, m⟩ := p
      have hp := h.good _ (.head _)
      have hpos := hp.whole.length_pos
      have hgood : ∀ q ∈ ps, q.Good mm transport direction :=
        fun q hq => h.good q (.tail _ hq)
      rw [stream_cons] at hfirst
      by_cases hjunk : junk = []
      · -- the message is at the front of the buffer
        subst hjunk
        rw [nil_append] at hfirst
        have hagree : Agrees re.buf m :=
          (List.prefix_or_prefix_of_prefix hfirst (prefix_append _ _)).symm
        have hframe := hp.whole.frame_eq hagree
        by_cases hlt : re.buf.length < m.length
        · refine .wait h (fun q hq => ?_) (hframe.trans (waitFor_of_lt hlt))
          rw [head?_cons, mem_some_iff] at hq
          rw [← hq]
          exact lt_of_lt_of_le hlt (Nat.le_add_left _ _)
        have hle : m.length ≤ re.buf.length := by omega
        rw [waitFor, if_neg hlt] at hframe
        refine .take h.marked hframe ?_ hpos hle (ih _ ps rest (hless hpos hle) ?_)
        · rw [hagree.take hle le_rfl, take_length]
        · refine h.skip hle ?_ hgood h.junk
          rw [stream_cons, nil_append, drop_left]
      · have hbegin := hp.fixBegin_prefix hjunk
        have hr : m ++ stream ps rest = [] ∨ fixBegin <+: m ++ stream ps rest :=
          .inr (hbegin.trans (prefix_append _ _))
        rcases frame_junk hjunk hp.junk hr hfirst with ⟨hf, h5⟩ | ⟨skip, hf, hleg, hle⟩
        · refine .wait h (fun q hq => ?_) hf
          have hlen : fixBegin.length ≤ m.length := hbegin.length_le
          rw [head?_cons, mem_some_iff] at hq
          rw [← hq]
          dsimp only
          omega
        refine .skip hf hle ?_ (fun _ h => .skip _ h) (suffix_refl rest)
          (ih _ (⟨junk.drop (max skip 1), m⟩ :: ps) rest (hless (by omega) hle) ?_)
        · have hx : re.frontAbs + max skip 1 + (junk.length - max skip 1) =
              re.frontAbs + junk.length := by omega
          rw [placed, placed, length_drop, hx]
        refine h.skip hle ?_ (fun q hq => ?_) h.junk
        · rw [stream_cons, stream_cons, drop_append_of_le_length hleg]
        rcases mem_cons.mp hq with hq | hq
        · rw [hq]
          exact ⟨hp.whole, hp.junk.drop _⟩
        · exact hgood q hq

end MatchBench.Capture
