import MatchBench.Lib.Spans
import MatchBench.Capture.Keep
import MatchBench.Capture.Lay

/-!
# Holes in a stream of messages

A stream of FIX messages in segments, some of which the capture never sees.  `feed` pushes
the segments that it does see and frames after each.  A message is intact when all of its
bytes arrive.

A FIX framer goes by the body length.  Of a message that is cut after its head, the framer
takes as many bytes as the whole message had, and takes them from the messages behind
the hole: these are lost, and one of them lends its order id (`feed_beheaded`).  So
`feed_intact` asks that what arrives of the damaged messages has no `8=FIX` in it.  It
also asks that no segment comes after its place was given up, and that no segment still
waits behind a hole in the end.  Then what is framed is the intact messages, each once, in
order and with the sequence number of its first byte, and nothing else.
-/

namespace MatchBench.Capture

open List
open Reassembler

section

variable (mm : Finder UInt8) (direction : Direction)

/-- The segments of one direction of a connection, in the order of their arrival: each is
pushed, and then the framing loop runs as in `process`. -/
def feed : Reassembler → List Segment → Option (Reassembler × List Framed)
  | re, [] => some (re, [])
  | re, g :: gs =>
      let re := (re.push g.seq g.ts g.data).1
      match frameLoop mm .fix direction (re.available.length + 1) re with
      | none => none
      | some (re, fs) => (feed re gs).map (fun x => (x.1, fs ++ x.2))

/-- The segment can be taken: nothing held is lost, the buffer does not grow too long, and
what the segment has before the next byte has been delivered. -/
structure Steady (re : Reassembler) (g : Segment) : Prop where
  keeps : Keeps re (.push g)
  room : (Op.push g).overflows re = false
  timely : re.initialized = true → ∀ i < g.data.length,
    seqLt (g.seq + UInt32.ofNat i) re.nextSeq = true →
      ∃ c ∈ re.log, (g.seq + UInt32.ofNat i - c.1).toNat < c.2.length

/-- Every segment can be taken, and in the end none waits behind a hole. -/
def Steadily : Reassembler → List Segment → Prop
  | re, [] => ∀ s ∈ re.hold.items, seqLt re.nextSeq s.seq = false
  | re, g :: gs => Steady re g ∧
      match frameLoop mm .fix direction ((re.push g.seq g.ts g.data).1.available.length + 1)
        (re.push g.seq g.ts g.data).1 with
      | none => True
      | some x => Steadily x.1 gs

instance (re : Reassembler) (g : Segment) : Decidable (Steady re g) :=
  decidable_of_iff
    (Keeps re (.push g) ∧ (Op.push g).overflows re = false ∧ (re.initialized = true →
      ∀ i < g.data.length, seqLt (g.seq + UInt32.ofNat i) re.nextSeq = true →
        ∃ c ∈ re.log, (g.seq + UInt32.ofNat i - c.1).toNat < c.2.length))
    ⟨fun h => ⟨h.1, h.2.1, h.2.2⟩, fun h => ⟨h.keeps, h.room, h.timely⟩⟩

instance decidableSteadily : ∀ (re : Reassembler) (gs : List Segment),
    Decidable (Steadily mm direction re gs)
  | re, [] => inferInstanceAs (Decidable (∀ s ∈ re.hold.items, _))
  | re, g :: gs =>
      match h : frameLoop mm .fix direction ((re.push g.seq g.ts g.data).1.available.length + 1)
        (re.push g.seq g.ts g.data).1 with
      | none => decidable_of_iff (Steady re g) (by simp only [Steadily, h, and_true])
      | some x =>
          have := decidableSteadily x.1 gs
          decidable_of_iff (Steady re g ∧ Steadily mm direction x.1 gs) (by simp only [Steadily, h])

end

/-! ### Messages and what arrives of them -/

/-- The position is in one of the segments. -/
def arrives (isn : UInt32) (gs : List Segment) (p : Nat) : Bool :=
  gs.any (fun g => pos isn g.seq ≤ p && p < pos isn g.seq + g.data.length)

/-- A segment of the stream that starts at `isn`. -/
structure Segment.Of (isn : UInt32) (bytes : List UInt8) (g : Segment) : Prop where
  ne : g.data ≠ []
  part : g.data <+: bytes.drop (pos isn g.seq)

instance (isn : UInt32) (bytes : List UInt8) (g : Segment) : Decidable (g.Of isn bytes) :=
  decidable_of_iff (g.data ≠ [] ∧ g.data <+: bytes.drop (pos isn g.seq))
    ⟨fun h => ⟨h.1, h.2⟩, fun h => ⟨h.ne, h.part⟩⟩

section

variable (arrived : Nat → Bool)

/-- All bytes of a message arrive. -/
def Intact (x : Nat) (m : List UInt8) : Prop := ∀ i < m.length, arrived (x + i) = true

instance (x : Nat) (m : List UInt8) : Decidable (Intact arrived x m) :=
  inferInstanceAs (Decidable (∀ i < m.length, _))

/-- The intact messages with their positions, when the first message starts at `x`. -/
def intactMessages : Nat → List (List UInt8) → List (Nat × List UInt8)
  | _, [] => []
  | x, m :: ms =>
      if Intact arrived x m then (x, m) :: intactMessages (x + m.length) ms
      else intactMessages (x + m.length) ms

/-- The intact messages, each after what arrives of the damaged ones before it, and what
arrives of those after the last; `junk` is what has arrived before. -/
def salvage (junk : List UInt8) : Nat → List (List UInt8) → List Parcel × List UInt8
  | _, [] => ([], junk)
  | x, m :: ms =>
      if Intact arrived x m then
        let s := salvage [] (x + m.length) ms
        (⟨junk, m⟩ :: s.1, s.2)
      else salvage (junk ++ (kept arrived x m).map Prod.fst) (x + m.length) ms

end

section

variable {arrived : Nat → Bool}

/-- **What arrives is the parcels.** -/
theorem stream_salvage (arrived : Nat → Bool) (ms : List (List UInt8)) : ∀ (junk : List UInt8) (x : Nat),
    stream (salvage arrived junk x ms).1 (salvage arrived junk x ms).2 =
      junk ++ (kept arrived x ms.flatten).map Prod.fst := by
  induction ms with
  | nil => exact fun junk x => (append_nil junk).symm
  | cons m ms ih =>
    intro junk x
    rw [flatten_cons, kept_append, map_append, salvage]
    by_cases h : Intact arrived x m
    · rw [if_pos h, stream_cons, ih, kept_eq_self h, zipIdx_map_fst, nil_append]
    · rw [if_neg h, ih, append_assoc]

theorem placed_salvage (arrived : Nat → Bool) (ms : List (List UInt8)) : ∀ (junk : List UInt8) (x y : Nat) (before : List Nat), (∀ m ∈ ms, m ≠ []) → before.length = y + junk.length →
    Forall₂ (fun o z => z.2 = o.2 ∧
        (before ++ (kept arrived x ms.flatten).map Prod.snd)[z.1]? = some o.1)
      (intactMessages arrived x ms) (placed y (salvage arrived junk x ms).1) := by
  induction ms with
  | nil => exact fun _ _ _ _ _ _ => .nil
  | cons m ms ih =>
    intro junk x y before hne hlen
    have hne' : ∀ n ∈ ms, n ≠ [] := fun n hn => hne n (.tail m hn)
    rw [flatten_cons, kept_append, map_append, intactMessages, salvage]
    by_cases h : Intact arrived x m
    · rw [if_pos h, if_pos h, placed, kept_eq_self h, ← append_assoc]
      refine .cons ⟨rfl, ?_⟩ (ih [] _ _ _ hne' ?_)
      · have hpos := length_pos_iff.mpr (hne m (.head _))
        dsimp only
        rw [append_assoc, getElem?_append_right (by omega), hlen, Nat.sub_self,
          getElem?_append_left (by simpa using hpos)]
        simp [hpos]
      · rw [length_append, hlen, length_map, length_zipIdx, length_nil]
        rfl
    · rw [if_neg h, if_neg h, ← append_assoc]
      refine ih _ _ _ _ hne' ?_
      rw [length_append, length_append, hlen, length_map, length_map, add_assoc]

theorem mem_salvage {ms : List (List UInt8)} : ∀ {junk : List UInt8} {x : Nat} {p : Parcel},
    p ∈ (salvage arrived junk x ms).1 → p.message ∈ ms := by
  induction ms with
  | nil => exact nofun
  | cons m ms ih =>
    intro junk x p h
    rw [salvage] at h
    by_cases hi : Intact arrived x m
    · rw [if_pos hi] at h
      rcases mem_cons.mp h with rfl | h
      · exact .head _
      · exact mem_cons_of_mem m (ih h)
    · rw [if_neg hi] at h
      exact mem_cons_of_mem m (ih h)

end

/-! ### Framing what is delivered -/

section

variable {mm : Finder UInt8} {direction : Direction} {g : Segment} {gs : List Segment}
  {fs : List Framed}

theorem feed_cons {re re₂ : Reassembler} (h : feed mm direction re (g :: gs) = some (re₂, fs)) :
    ∃ re₁ fs₁ fs₂, frameLoop mm .fix direction
        ((re.push g.seq g.ts g.data).1.available.length + 1) (re.push g.seq g.ts g.data).1 =
          some (re₁, fs₁) ∧
      feed mm direction re₁ gs = some (re₂, fs₂) ∧ fs = fs₁ ++ fs₂ := by
  rw [feed] at h
  cases hloop : frameLoop mm .fix direction
      ((re.push g.seq g.ts g.data).1.available.length + 1) (re.push g.seq g.ts g.data).1 with
  | none =>
    rw [hloop] at h
    exact absurd h (by simp)
  | some x =>
    rw [hloop] at h
    obtain ⟨y, hy, he⟩ := Option.map_eq_some_iff.mp h
    obtain ⟨h₁, h₂⟩ := Prod.mk.inj he
    exact ⟨x.1, x.2, y.2, rfl, by rw [hy, ← h₁], h₂.symm⟩

theorem Steadily.next {re re₁ : Reassembler} (h : Steadily mm direction re (g :: gs))
    (hloop : frameLoop mm .fix direction ((re.push g.seq g.ts g.data).1.available.length + 1)
      (re.push g.seq g.ts g.data).1 = some (re₁, fs)) : Steadily mm direction re₁ gs := by
  have h₂ := h.2
  rw [hloop] at h₂
  exact h₂

theorem feed_log : ∀ {gs : List Segment} {re re' : Reassembler} {fs : List Framed},
    Steadily mm direction re gs → feed mm direction re gs = some (re', fs) →
    ∃ more, re'.log = re.log ++ more := by
  intro gs
  induction gs with
  | nil =>
    intro re re' fs _ h
    rw [← (Prod.mk.inj (Option.some.inj h)).1]
    exact ⟨[], (append_nil _).symm⟩
  | cons g gs ih =>
    intro re re' fs hs h
    obtain ⟨re₁, fs₁, fs₂, hloop, hfeed, _⟩ := feed_cons h
    obtain ⟨cs, hcs⟩ := (appends_push hs.1.room).log
    obtain ⟨more, hmore⟩ := ih (hs.next hloop) hfeed
    have htip : re₁.log = (re.push g.seq g.ts g.data).1.log :=
      congrArg (fun x => x.2.1) (frameLoop_tip hloop)
    refine ⟨cs ++ more, ?_⟩
    rw [hmore, htip, hcs, append_assoc]

/-- **What is framed of the delivered bytes**: the messages of the parcels, with the sequence
numbers of their first bytes. -/
theorem feed_framed : ∀ {re re' : Reassembler} {fs : List Framed} {f : Nat → Mark} {ps : List Parcel} {rest : List UInt8} {more : List (UInt32 × List UInt8)},
    Laid re f → Steadily mm direction re gs → feed mm direction re gs = some (re', fs) →
    re'.log = re.log ++ more → re.buf ++ logBytes more = stream ps rest →
    (∀ p ∈ ps, p.Good mm .fix direction) → Junk mm .fix rest → Spent re ps →
    Forall₂ (fun z fr => ∃ ts seq, (logSeqs re'.log)[z.1]? = some seq ∧
        fr = .message ts seq (parse mm .fix direction z.2))
      (placed re.frontAbs ps) (fs.filter Framed.isMessage) := by
  induction gs with
  | nil =>
    intro re re' fs f ps rest more _ _ hfeed hlog hbytes _ _ hspent
    obtain ⟨rfl, rfl⟩ := Prod.mk.inj (Option.some.inj hfeed)
    obtain rfl : more = [] := append_right_eq_self.mp hlog.symm
    cases ps with
    | nil => exact .nil
    | cons p ps =>
      -- the first message would be whole in the buffer
      exfalso
      have hlt := hspent p rfl
      rw [logBytes, flatMap_nil, append_nil, stream_cons] at hbytes
      rw [hbytes, length_append, length_append] at hlt
      omega
  | cons g gs ih =>
    intro re re' fs f ps rest more hlaid hs hfeed hlog hbytes hgood hjunk hspent
    obtain ⟨re₁, fs₁, fs₂, hloop, hrest, rfl⟩ := feed_cons hfeed
    have happ := appends_push hs.1.room
    have hs₁ := hs.next hloop
    obtain ⟨more₂, hmore⟩ := feed_log hs₁ hrest
    generalize (re.push g.seq g.ts g.data).1 = q at hloop happ
    obtain ⟨cs, hcs⟩ := happ.log
    obtain ⟨f₁, hlaid₁⟩ := happ.laid hlaid
    have htip : re₁.log = q.log := congrArg (fun x => x.2.1) (frameLoop_tip hloop)
    have hsplit : more = cs ++ more₂ := by
      rw [hmore, htip, hcs, append_assoc] at hlog
      exact (append_cancel_left hlog).symm
    -- the buffer after the push, and what is still to come
    have hbuf : q.buf = re.buf ++ logBytes cs := by
      have hle : re.frontAbs ≤ (logBytes re.log).length := by
        rw [hlaid.total, deliveredAbs]
        exact Nat.le_add_right _ _
      rw [hlaid₁.bytes, hcs, happ.front, logBytes_append, drop_append_of_le_length hle,
        ← hlaid.bytes]
    have hfed : Fed mm .fix direction f₁ (logBytes more₂) q ps rest := by
      refine ⟨?_, hgood, hjunk, hlaid₁.marked⟩
      rw [hbuf, append_assoc, ← logBytes_append, ← hsplit, hbytes]
    obtain ⟨re₂, cuts, ps₂, rest₂, hcut, hcuts, -⟩ :=
      cutLoop_spec (q.buf.length + 1) q ps rest (Nat.lt_succ_self _) hfed
    obtain ⟨fs', hloop', hfilter⟩ := frameLoop_of_cutLoop hcut
    obtain ⟨rfl, rfl⟩ : re₁ = re₂ ∧ fs₁ = fs' :=
      Prod.mk.inj (Option.some.inj (hloop.symm.trans hloop'))
    obtain ⟨done, hdone, hcs', hin⟩ := hcuts.cuts
    have hlaid₂ := frameLoop_laid hloop hlaid₁
    have hih := ih hlaid₂ hs₁ hrest hmore hcuts.fed.bytes hcuts.fed.good hcuts.fed.junk hcuts.spent
    rw [← happ.front, hdone, filter_append, hfilter, hcs']
    refine rel_append ?_ hih
    rw [map_map, forall₂_map_right_iff, forall₂_same]
    intro z hz
    obtain ⟨hfront, hlt⟩ := hin z hz
    refine ⟨_, _, ?_, rfl⟩
    have hlen : z.1 < (logSeqs q.log).length := by
      rw [length_logSeqs, hlaid₁.total]
      exact hlt
    rw [hmore, htip, logSeqs_append, getElem?_append_left hlen]
    exact hlaid₁.seq z.1 hfront hlt

end

/-! ### Delivering what arrives -/

section

variable {isn : UInt32}

/-- What a reassembler makes of some segments: its log is in order and taken from them,
and it keeps all of their bytes. -/
structure Gathered (isn : UInt32) (gs : List Segment) (r : Reassembler) : Prop where
  tidy : Tidy isn r
  sound : Sound isn r
  full : ∀ c ∈ r.log, c.2 ≠ []
  origin : ∀ c ∈ r.log, ∃ g ∈ gs, IsTail isn c g
  held : ∀ s ∈ r.hold.items, s ∈ gs
  keeps : ∀ p, (∃ g ∈ gs, Over isn g.span p) → KeptAt isn r p

theorem gathered_new : Gathered isn [] new where
  tidy := .inl ⟨rfl, rfl, rfl⟩
  sound := nofun
  full := nofun
  origin := nofun
  held := nofun
  keeps := fun _ ⟨_, hg, _⟩ => nomatch hg

variable {gs : List Segment} {r : Reassembler} {c : UInt32 × List UInt8} {g : Segment}

theorem Gathered.congr {r r' : Reassembler} (h : Gathered isn gs r) (ht : r'.tip = r.tip) :
    Gathered isn gs r' := by
  have hi : r'.initialized = r.initialized := congrArg (fun x => x.1) ht
  have hl : r'.log = r.log := congrArg (fun x => x.2.1) ht
  have hh : r'.hold = r.hold := congrArg (fun x => x.2.2.1) ht
  have hn : r'.nextSeq = r.nextSeq := congrArg (fun x => x.2.2.2.1) ht
  refine ⟨?_, ?_, ?_, ?_, ?_, fun p hp => (h.keeps p hp).congr hl hh hn⟩
  · rw [Tidy, hi, hl, hh]
    exact h.tidy.imp id fun hr => ⟨hr.1, hr.2.of_hold hn (.inl hh)⟩
  · rw [Sound, hi, hl, hn]
    exact h.sound
  · rw [hl]
    exact h.full
  · rw [hl]
    exact h.origin
  · rw [hh]
    exact h.held

theorem forward_of_keeps (ht : Tidy isn r) (hfit : (Op.push g).Fits isn) (hk : Keeps r (.push g)) :
    Forward r (.push g) := by
  intro hi hne hsk m hm
  have hr := ht.rest hi
  have hg : g.Fits isn := ⟨hne, hfit⟩
  have hnear := ((resumable_iff hr.next_lt (hr.heldWith_fits hg) (hr.heldWith_live hg) hm).mp
    ((hk hi hne).2 hsk)).1
  exact hr.not_behind (hr.heldWith_fits hg m (mem_of_mem_head? hm)) hnear

theorem over_of_toNat_sub {s : UInt32} (hc : pos isn c.1 + c.2.length < 2 ^ 31)
    (hs : pos isn s < 2 ^ 31) (h : (s - c.1).toNat < c.2.length) : Over isn c (pos isn s) := by
  by_cases hle : pos isn c.1 ≤ pos isn s
  · rw [toNat_sub_pos hle] at h
    exact ⟨hle, by omega⟩
  exfalso
  have hps := pos_eq isn s
  have hpc := pos_eq isn c.1
  have hisn := isn.toNat_lt
  have hslt := s.toNat_lt
  have hclt := c.1.toNat_lt
  rw [UInt32.toNat_sub] at h
  omega

theorem length_logBytes_le : ∀ {log : List (UInt32 × List UInt8)} {a b : Nat}, a ≤ b →
    log.Pairwise (fun c d => pos isn c.1 + c.2.length ≤ pos isn d.1) →
    (∀ c ∈ log, a ≤ pos isn c.1 ∧ pos isn c.1 + c.2.length ≤ b) →
    a + (logBytes log).length ≤ b := by
  intro log
  induction log with
  | nil => exact fun h _ _ => h
  | cons c log ih =>
    intro a b hab hp hb
    obtain ⟨hfirst, hp⟩ := pairwise_cons.mp hp
    obtain ⟨hle, hub⟩ := hb c (.head _)
    have hrest := ih hub hp fun d hd => ⟨hfirst d hd, (hb d (.tail c hd)).2⟩
    rw [logBytes, flatMap_cons, length_append, ← logBytes]
    omega

theorem Gathered.length_log (h : Gathered isn gs r) : (logBytes r.log).length < 2 ^ 31 := by
  rcases h.tidy with ⟨_, hl, _⟩ | ⟨hi, hr⟩
  · rw [hl]
    decide
  have hord := h.sound hi
  have hle := length_logBytes_le (Nat.zero_le _) hord.pairwise
    fun c hc => ⟨Nat.zero_le _, hord.le c hc⟩
  have := hr.next_lt
  omega

variable {p : Nat} {bytes : List UInt8}

theorem Gathered.timely (h : Gathered isn gs r) (hs : Steady r g) (hi : r.initialized = true) (hp : Over isn g.span p) (hlt : p < pos isn r.nextSeq) :
    ∃ c ∈ r.log, Over isn c p := by
  have hr := h.tidy.rest hi
  have hover : pos isn g.seq ≤ p ∧ p < pos isn g.seq + g.data.length := hp
  have hnext := hr.next_lt
  have hpos : pos isn (g.seq + UInt32.ofNat (p - pos isn g.seq)) = p := by
    rw [pos_add (by omega)]
    omega
  have hplt : pos isn (g.seq + UInt32.ofNat (p - pos isn g.seq)) < 2 ^ 31 := by omega
  have hbefore : seqLt (g.seq + UInt32.ofNat (p - pos isn g.seq)) r.nextSeq = true := by
    rw [seqLt_iff hplt hnext, hpos]
    exact hlt
  obtain ⟨c, hc, hin⟩ := hs.timely hi (p - pos isn g.seq) (by omega) hbefore
  refine ⟨c, hc, ?_⟩
  have hclt : pos isn c.1 + c.2.length < 2 ^ 31 := lt_of_le_of_lt ((h.sound hi).le c hc) hnext
  have hover := over_of_toNat_sub hclt hplt hin
  rwa [hpos] at hover

/-- **One segment**: what is gathered stays, and the segment is gathered too. -/
theorem Gathered.push (h : Gathered isn gs r) (hg : g.Fits isn) (hs : Steady r g) :
    Gathered isn (gs ++ [g]) (r.push g.seq g.ts g.data).1 := by
  have hfit : (Op.push g).Fits isn := hg.lt
  obtain ⟨horigin, hheld⟩ := origin_apply h.tidy hfit
  have hmem : ∀ s, s ∈ r.hold.items ∨ Op.push g = .push s → s ∈ gs ++ [g] := by
    rintro s (hs | hs)
    · exact mem_append_left _ (h.held s hs)
    · rw [← Op.push.inj hs]
      exact mem_append_right _ (.head _)
  refine ⟨tidy_apply h.tidy hfit, h.sound.apply h.tidy hfit (forward_of_keeps h.tidy hfit hs.keeps),
    fun c hc => ?_, fun c hc => ?_, fun s hsm => ?_, fun p hp => ?_⟩
  · have hnew : ∀ {cs a b}, (Op.apply r (.push g)).log = r.log ++ cs → Contig isn cs a b →
        c.2 ≠ [] := by
      intro cs a b hlog hcont
      change c ∈ (Op.apply r (.push g)).log at hc
      rw [hlog] at hc
      rcases mem_append.mp hc with hc | hc
      · exact h.full c hc
      · exact (hcont.bounds c hc).1
    cases grows_apply h.tidy hfit with
    | same hlog _ _ _ =>
      refine h.full c ?_
      rw [← hlog]
      exact hc
    | ahead cs a hlog hcont _ _ _ _ | back cs a hlog hcont _ _ _ _ _ => exact hnew hlog hcont
  · rcases horigin c hc with hc | ⟨s, htail, hs⟩
    · obtain ⟨s, hsg, htail⟩ := h.origin c hc
      exact ⟨s, mem_append_left _ hsg, htail⟩
    · exact ⟨s, hmem s hs, htail⟩
  · exact hmem s ((hheld s hsm).imp_right And.left)
  · refine keptAt_apply h.tidy hfit hs.room hs.keeps ?_
    obtain ⟨s, hsg, hover⟩ := hp
    rcases mem_append.mp hsg with hsg | hsg
    · exact .inl (h.keeps p ⟨s, hsg, hover⟩)
    rw [mem_singleton.mp hsg] at hover
    by_cases hbehind : r.initialized = true ∧ p < pos isn r.nextSeq
    · exact .inl (.inl (h.timely hs hbehind.1 hover hbehind.2))
    · refine .inr ⟨g, rfl, hover, fun hi => ?_⟩
      by_contra hc
      exact hbehind ⟨hi, by omega⟩

theorem frameLoop_fix (mm : Finder UInt8) (direction : Direction) {re : Reassembler}
    (h : re.buf.length < 2 ^ 31) :
    ∃ x, frameLoop mm .fix direction (re.available.length + 1) re = some x := by
  have hstop := (frameLoop_stops_iff mm .fix direction re (lt_trans h (by decide))).2.2
    fun b _ hh => absurd hh.1 (by decide)
  exact Option.isSome_iff_exists.mp hstop

/-- **All segments**: what arrives is gathered, and the framing loop stops each time. -/
theorem feed_gathered {mm : Finder UInt8} {direction : Direction} :
    ∀ {gs before : List Segment} {re : Reassembler} {f : Nat → Mark},
    Gathered isn before re → Laid re f → (∀ g ∈ gs, g.Fits isn) → Steadily mm direction re gs →
    ∃ re' fs, feed mm direction re gs = some (re', fs) ∧ Gathered isn (before ++ gs) re' ∧
      ∀ s ∈ re'.hold.items, seqLt re'.nextSeq s.seq = false := by
  intro gs
  induction gs with
  | nil =>
    intro before re f h _ _ hs
    exact ⟨re, [], rfl, by rw [append_nil]; exact h, hs⟩
  | cons g gs ih =>
    intro before re f h hlaid hfits hs
    have hpush := h.push (hfits g (.head _)) hs.1
    obtain ⟨f₁, hlaid₁⟩ := (appends_push hs.1.room).laid hlaid
    have hlen : (re.push g.seq g.ts g.data).1.buf.length < 2 ^ 31 := by
      have := hpush.length_log
      rw [hlaid₁.bytes, length_drop]
      omega
    obtain ⟨⟨re₁, fs₁⟩, hloop⟩ := frameLoop_fix mm direction hlen
    obtain ⟨re', fs₂, hfeed, hgathered, hend⟩ := ih (hpush.congr (frameLoop_tip hloop))
      (frameLoop_laid hloop hlaid₁) (fun x hx => hfits x (.tail g hx))
      (hs.next hloop)
    refine ⟨re', fs₁ ++ fs₂, ?_, ?_, hend⟩
    · rw [feed]
      simp [hloop, hfeed, Option.map_some]
    · rw [append_assoc, singleton_append] at hgathered
      exact hgathered

theorem arrives_iff : arrives isn gs p = true ↔ ∃ g ∈ gs, Over isn g.span p := by
  rw [arrives, any_eq_true]
  simp only [Bool.and_eq_true, decide_eq_true_eq]
  rfl

theorem Gathered.over_iff (h : Gathered isn gs r)
    (hend : ∀ s ∈ r.hold.items, seqLt r.nextSeq s.seq = false) (p : Nat) :
    (∃ g ∈ gs, Over isn g.span p) ↔ ∃ c ∈ r.log, Over isn c p := by
  refine ⟨fun hp => ?_, fun ⟨c, hc, hp⟩ => ?_⟩
  · rcases h.keeps p hp with hlog | ⟨⟨s, hs, hover⟩, hle⟩
    · exact hlog
    exfalso
    rcases h.tidy with ⟨_, _, hh⟩ | ⟨_, hr⟩
    · rw [hh] at hs
      cases hs
    have hlt : p < pos isn s.seq + s.data.length := hover.2
    have hnot := Bool.eq_false_iff.mp (hend s hs)
    rw [ne_eq, seqLt_iff hr.next_lt (hr.fits s hs).seq_lt] at hnot
    have := hr.live s hs
    omega
  · obtain ⟨g, hg, htail⟩ := h.origin c hc
    exact ⟨g, hg, htail.over hp⟩

theorem IsTail.part (h : IsTail isn c g) (hg : g.data <+: bytes.drop (pos isn g.seq)) :
    c.2 <+: bytes.drop (pos isn c.1) := by
  obtain ⟨hle, hdata⟩ := h
  have hdrop := hg.drop (pos isn c.1 - pos isn g.seq)
  rw [drop_drop, Nat.add_sub_of_le hle] at hdrop
  rw [hdata]
  exact hdrop

theorem map_pos_seqs (hc : pos isn c.1 + c.2.length < 2 ^ 31) :
    (seqs c).map (pos isn) = range' (pos isn c.1) c.2.length := by
  rw [seqs, map_map, range'_eq_map_range]
  refine map_congr_left fun i hi => ?_
  have hlt := mem_range.mp hi
  exact pos_add (by omega)

/-- **The log is what arrives of the stream.** -/
theorem Gathered.log_eq (h : Gathered isn gs r)
    (hend : ∀ s ∈ r.hold.items, seqLt r.nextSeq s.seq = false) (hof : ∀ g ∈ gs, g.Of isn bytes) :
    logBytes r.log = (kept (arrives isn gs) 0 bytes).map Prod.fst ∧
      (logSeqs r.log).map (pos isn) = (kept (arrives isn gs) 0 bytes).map Prod.snd := by
  have hord : r.log.Pairwise (fun c d => pos isn c.1 + c.2.length ≤ pos isn d.1) ∧
      ∀ c ∈ r.log, pos isn c.1 + c.2.length < 2 ^ 31 := by
    rcases h.tidy with ⟨_, hl, _⟩ | ⟨hi, hr⟩
    · rw [hl]
      exact ⟨.nil, nofun⟩
    · have hsound := h.sound hi
      exact ⟨hsound.pairwise, fun c hc => lt_of_le_of_lt (hsound.le c hc) hr.next_lt⟩
  have hpieces : ∀ d ∈ r.log.map (fun c => (pos isn c.1, c.2)),
      0 ≤ d.1 ∧ d.2 ≠ [] ∧ d.2 <+: bytes.drop d.1 := by
    intro d hd
    obtain ⟨c, hc, rfl⟩ := mem_map.mp hd
    obtain ⟨g, hg, htail⟩ := h.origin c hc
    exact ⟨Nat.zero_le _, h.full c hc, htail.part (hof g hg).part⟩
  have hcover : ∀ p, 0 ≤ p → p < bytes.length → (arrives isn gs p = true ↔
      ∃ d ∈ r.log.map (fun c => (pos isn c.1, c.2)), d.1 ≤ p ∧ p < d.1 + d.2.length) := by
    intro p _ _
    rw [arrives_iff, h.over_iff hend p]
    refine ⟨fun ⟨c, hc, hp⟩ => ⟨_, mem_map_of_mem hc, hp⟩, fun ⟨d, hd, hp⟩ => ?_⟩
    obtain ⟨c, hc, rfl⟩ := mem_map.mp hd
    exact ⟨c, hc, hp⟩
  have hspans := flatMap_spans (pairwise_map.mpr hord.1) hpieces hcover
  rw [drop_zero, flatMap_map] at hspans
  rw [← hspans, map_flatMap, map_flatMap]
  refine ⟨?_, ?_⟩
  · simp only [zipIdx_map_fst]
    rfl
  · rw [logSeqs, map_flatMap]
    refine flatMap_congr fun c hc => ?_
    rw [map_pos_seqs (hord.2 c hc), zipIdx_map_snd]

end

/-! ### Streams with holes -/

theorem Segment.Of.fits {isn : UInt32} {bytes : List UInt8} {g : Segment} (h : g.Of isn bytes)
    (hsize : bytes.length < 2 ^ 31) : g.Fits isn := by
  have hlen := h.part.length_le
  have hpos := length_pos_iff.mpr h.ne
  rw [length_drop] at hlen
  exact ⟨h.ne, by omega⟩

/-- **A hole damages only the messages it overlaps**, when no `8=FIX` arrives of them. -/
theorem feed_intact (mm : Finder UInt8) (direction : Direction) (isn : UInt32)
    (messages : List (List UInt8)) (gs : List Segment)
    (hwhole : ∀ m ∈ messages, Whole mm .fix direction m)
    (hsize : messages.flatten.length < 2 ^ 31) (hof : ∀ g ∈ gs, g.Of isn messages.flatten)
    (hsteady : Steadily mm direction Reassembler.new gs)
    (hjunk : ∀ p ∈ (salvage (arrives isn gs) [] 0 messages).1, Junk mm .fix p.junk)
    (hrest : Junk mm .fix (salvage (arrives isn gs) [] 0 messages).2) :
    ∃ re fs, feed mm direction Reassembler.new gs = some (re, fs) ∧
      Forall₂ (fun x fr => ∃ ts,
          fr = .message ts (isn + UInt32.ofNat x.1) (parse mm .fix direction x.2))
        (intactMessages (arrives isn gs) 0 messages) (fs.filter Framed.isMessage) := by
  obtain ⟨re, fs, hfeed, hgathered, hend⟩ := feed_gathered gathered_new
    (laid_new fun _ => ⟨0, 0, 0⟩) (fun g hg => (hof g hg).fits hsize) hsteady
  rw [nil_append] at hgathered
  obtain ⟨hbytes, hseqs⟩ := hgathered.log_eq hend hof
  refine ⟨re, fs, hfeed, ?_⟩
  have hstream := stream_salvage (arrives isn gs) messages [] 0
  have hgood : ∀ p ∈ (salvage (arrives isn gs) [] 0 messages).1, p.Good mm .fix direction :=
    fun p hp => ⟨hwhole _ (mem_salvage hp), hjunk p hp⟩
  have hspent : Spent Reassembler.new (salvage (arrives isn gs) [] 0 messages).1 := by
    intro p hp
    have := (hgood p (mem_of_mem_head? hp)).whole.length_pos
    show 0 < _
    omega
  have hframed := feed_framed (laid_new fun _ => ⟨0, 0, 0⟩) hsteady hfeed
    (nil_append re.log).symm (by rw [hstream, hbytes]; rfl) hgood hrest hspent
  have hplaced := placed_salvage (arrives isn gs) messages [] 0 0 []
    (fun m hm => length_pos_iff.mp (hwhole m hm).length_pos) rfl
  refine forall₂_comp hplaced hframed ?_
  rintro o z fr ⟨hbytes, hspot⟩ ⟨ts, seq, hseq, rfl⟩
  have hpos : pos isn seq = o.1 := by
    rw [nil_append, ← hseqs, getElem?_map, hseq, Option.map_some] at hspot
    exact Option.some.inj hspot
  have hisn : isn + UInt32.ofNat (pos isn seq) = seq := by
    rw [pos, serialDist, UInt32.ofNat_toNat, add_sub_cancel]
  exact ⟨ts, by rw [← hpos, hisn, hbytes]⟩

/-- An order with a one-letter id. -/
def shortOrder (id : UInt8) : List UInt8 :=
  ascii "8=FIX.4.2\x019=5\x0111=" ++ id :: ascii "\x0110=000\x01"

/-- Six orders, of which the second is never seen. -/
def withoutSecond : List Segment :=
  [⟨0, 1, shortOrder 65⟩, ⟨52, 2, shortOrder 67⟩, ⟨78, 3, shortOrder 68⟩, ⟨104, 4, shortOrder 69⟩,
    ⟨130, 5, shortOrder 70⟩]

theorem feed_withoutSecond : ∃ re fs,
    feed Finder.naive .request Reassembler.new withoutSecond = some (re, fs) ∧
      Forall₂ (fun x fr => ∃ ts,
          fr = .message ts (0 + UInt32.ofNat x.1) (parse Finder.naive .fix .request x.2))
        (intactMessages (arrives 0 withoutSecond) 0 ([65, 66, 67, 68, 69, 70].map shortOrder))
        (fs.filter Framed.isMessage) :=
  feed_intact Finder.naive .request 0 ([65, 66, 67, 68, 69, 70].map shortOrder) withoutSecond
    (by decide +kernel) (by decide +kernel) (by decide +kernel) (by decide +kernel)
    (by decide +kernel) (by decide +kernel)

/-- An order with a text before its id. -/
def longOrder : List UInt8 :=
  ascii "8=FIX.4.2\x019=26\x0158=abcdefghijklmnopq\x0111=A\x0110=000\x01"

/-- Four orders; the body of the first is never seen. -/
def beheaded : List Segment :=
  [⟨0, 1, longOrder.take 15⟩, ⟨41, 2, longOrder.drop 41⟩, ⟨48, 3, shortOrder 66⟩,
    ⟨74, 4, shortOrder 67⟩, ⟨100, 5, shortOrder 68⟩]

/-- The sequence number and the order id of a framed message. -/
def Framed.named : Framed → Option (UInt32 × String)
  | .message _ seq msg => some (seq, msg.clordid)
  | .skipped _ _ => none

/-- **The body length reaches behind the hole**: the head of the first order takes the whole
second one, and its id; the second order, of which every byte arrives, is not framed. -/
theorem feed_beheaded :
    (∀ m ∈ longOrder :: [66, 67, 68].map shortOrder, Whole Finder.naive .fix .request m) ∧
      (∀ g ∈ beheaded, g.Of 0 (longOrder :: [66, 67, 68].map shortOrder).flatten) ∧
      intactMessages (arrives 0 beheaded) 0 (longOrder :: [66, 67, 68].map shortOrder) =
        [(48, shortOrder 66), (74, shortOrder 67), (100, shortOrder 68)] ∧
      (feed Finder.naive .request Reassembler.new beheaded).map
        (fun x => x.2.filterMap Framed.named) = some [(0, "B"), (74, "C"), (100, "D")] := by
  refine ⟨by decide +kernel, by decide +kernel, by decide +kernel, by decide +kernel⟩

end MatchBench.Capture
