import MatchBench.Capture.Deliver

/-!
# Losing no byte

A byte that arrives at or past the next byte is delivered or held from then on
(`LosesNothing`), as long as two things do not happen.  A segment with the start of a
longer held one replaces it, and what the longer one had beyond it is gone unless other
held segments have it.  And a hole is given up for the segment with the least key, which
is the nearest one only if the held keys and the next byte do not lie across the end of
the 32-bit range, and no segment that ends at the next byte comes first (`Resumable`).

`losesNothing_iff` says that these are the only ways: with the size limits never reached,
nothing is lost and every hole is given up for the nearest segment exactly when each
operation avoids both (`Keeps`).
-/

namespace MatchBench.Capture

open List
open Reassembler

variable {isn : UInt32}

/-! ### Bytes at positions -/

/-- The byte that a run of bytes has at a position. -/
def At (isn : UInt32) (c : UInt32 × List UInt8) (p : Nat) (b : UInt8) : Prop :=
  pos isn c.1 ≤ p ∧ c.2[p - pos isn c.1]? = some b

/-- A run of bytes reaches over a position. -/
def Over (isn : UInt32) (c : UInt32 × List UInt8) (p : Nat) : Prop :=
  pos isn c.1 ≤ p ∧ p < pos isn c.1 + c.2.length

/-- A run of bytes is taken from the stream. -/
def Lawful (isn : UInt32) (stream : Nat → UInt8) (c : UInt32 × List UInt8) : Prop :=
  ∀ p b, At isn c p b → b = stream p

instance (isn : UInt32) (c : UInt32 × List UInt8) (p : Nat) (b : UInt8) :
    Decidable (At isn c p b) := inferInstanceAs (Decidable (_ ∧ _))

variable {c : UInt32 × List UInt8} {stream : Nat → UInt8} {ops : List Op} {s : Segment} {p : Nat}

theorem At.over {b : UInt8} (h : At isn c p b) : Over isn c p := by
  obtain ⟨hle, hget⟩ := h
  have := (List.getElem?_eq_some_iff.mp hget).1
  exact ⟨hle, by omega⟩

theorem Over.at (h : Over isn c p) (hl : Lawful isn stream c) : At isn c p (stream p) := by
  obtain ⟨hle, hlt⟩ := h
  obtain ⟨b, hget⟩ : ∃ b, c.2[p - pos isn c.1]? = some b :=
    ⟨_, getElem?_eq_getElem (by omega)⟩
  refine ⟨hle, ?_⟩
  rw [hget, hl p b ⟨hle, hget⟩]

theorem lawful_iff : Lawful isn stream c ↔
    ∀ i < c.2.length, c.2[i]? = some (stream (pos isn c.1 + i)) := by
  refine ⟨fun h i hi => ?_, fun h p b hat => ?_⟩
  · have ho : Over isn c (pos isn c.1 + i) := ⟨Nat.le_add_right _ _, Nat.add_lt_add_left hi _⟩
    have hget := (ho.at h).2
    rw [Nat.add_sub_cancel_left] at hget
    exact hget
  · obtain ⟨hle, hget⟩ := hat
    have hlt := (List.getElem?_eq_some_iff.mp hget).1
    have hstream := h _ hlt
    rw [hget, Nat.add_sub_of_le hle] at hstream
    exact Option.some.inj hstream

/-- A held segment as a run of bytes. -/
def Segment.span (s : Segment) : UInt32 × List UInt8 := (s.seq, s.data)

theorem IsTail.lawful (h : IsTail isn c s) (hs : Lawful isn stream s.span) :
    Lawful isn stream c := by
  intro p b hat
  obtain ⟨hle, hget⟩ := hat
  obtain ⟨hsle, hdata⟩ := h
  refine hs p b ⟨le_trans hsle hle, ?_⟩
  rw [hdata, getElem?_drop] at hget
  have he : pos isn c.1 - pos isn s.seq + (p - pos isn c.1) = p - pos isn s.seq := by omega
  rw [he] at hget
  exact hget

theorem IsTail.over (h : IsTail isn c s) (hp : Over isn c p) : Over isn s.span p := by
  obtain ⟨hle, hlt⟩ := hp
  obtain ⟨hsle, hdata⟩ := h
  rw [hdata, length_drop] at hlt
  refine ⟨le_trans hsle hle, ?_⟩
  show p < pos isn s.seq + s.data.length
  omega

/-! ### Conditions -/

/-- The first held segment past the next byte has the least key: there is one, and no key
is numerically below the next byte unless all such segments are, beyond the end of the
32-bit range. -/
def Resumable (h : Hold) (next : UInt32) : Prop :=
  (∃ s ∈ h.items, seqLt next s.seq = true) ∧
    ((∀ s ∈ h.items, ¬ s.seq < next) ∨ ∀ s ∈ h.items, seqLt next s.seq = true → s.seq < next)
  deriving Decidable

/-- What a segment replaces beyond its own end, other held segments have too. -/
def Replaces (h : Hold) (g : Segment) : Prop :=
  ∀ s0 ∈ h.items, s0.seq = g.seq → ∀ i, g.data.length ≤ i → i < s0.data.length →
    ∃ s ∈ h.items, s.seq ≠ g.seq ∧ drainable (g.seq + UInt32.ofNat i) s = true
  deriving Decidable

/-- The operation loses nothing: what a put-aside segment replaces is held elsewhere, and
a hole is given up only when the least key is the nearest. -/
def Keeps (r : Reassembler) : Op → Prop
  | .push g => r.initialized = true → g.data ≠ [] →
      (0 < (g.seq - r.nextSeq).toInt32 → Replaces r.hold g) ∧
        (r.skips g = true → Resumable (r.heldWith g) r.nextSeq)
  | .consume _ => True

instance (r : Reassembler) : DecidablePred (Keeps r)
  | .push g => by
    unfold Keeps
    infer_instance
  | .consume _ => isTrue trivial

/-- The held segment nearest after the next byte. -/
def Nearest (h : Hold) (next : UInt32) (m : Segment) : Prop :=
  seqLt next m.seq = true ∧ ∀ s ∈ h.items, seqLt next s.seq = true → seqLe m.seq s.seq = true

theorem pos_eq (isn s : UInt32) : pos isn s = (2 ^ 32 - isn.toNat + s.toNat) % 2 ^ 32 :=
  UInt32.toNat_sub s isn

variable {m g s : Segment} {r : Reassembler}

/-- **The least key is the nearest** exactly when the hold is resumable. -/
theorem resumable_iff {h : Hold} {next : UInt32} (hn : pos isn next < 2 ^ 31)
    (hfits : ∀ s ∈ h.items, s.Fits isn)
    (hlive : ∀ s ∈ h.items, pos isn next < pos isn s.seq ∨
      pos isn s.seq + s.data.length = pos isn next)
    (hm : h.min? = some m) : Resumable h next ↔ Nearest h next m := by
  have hmem : m ∈ h.items := mem_of_mem_head? hm
  have hleast : ∀ s ∈ h.items, m.seq.toNat ≤ s.seq.toNat := by
    have hs := h.sorted
    obtain ⟨ms, hms⟩ : ∃ ms, h.items = m :: ms := ⟨_, eq_cons_of_mem_head? hm⟩
    rw [hms] at hs ⊢
    intro s hmem
    rcases mem_cons.mp hmem with he | he
    · rw [he]
    · exact le_of_lt (UInt32.lt_iff_toNat_lt.mp ((pairwise_cons.mp hs).1 s he))
  have hlt : ∀ s ∈ h.items, seqLt next s.seq = true ↔ pos isn next < pos isn s.seq :=
    fun s hs => seqLt_iff hn (hfits s hs).seq_lt
  have hle : ∀ s ∈ h.items, seqLe m.seq s.seq = true ↔ pos isn m.seq ≤ pos isn s.seq :=
    fun s hs => seqLe_iff (hfits m hmem).seq_lt (hfits s hs).seq_lt
  have hbound : ∀ s ∈ h.items, pos isn s.seq < 2 ^ 31 := fun s hs => (hfits s hs).seq_lt
  have hstale : ∀ s ∈ h.items, pos isn s.seq ≠ pos isn next := by
    intro s hs
    have := (hfits s hs).length_pos
    have := hlive s hs
    omega
  have hnum : ∀ s ∈ h.items, s.seq < next ↔ s.seq.toNat < next.toNat :=
    fun s _ => UInt32.lt_iff_toNat_lt
  have hisn := isn.toNat_lt
  have hnext := next.toNat_lt
  have hpn := pos_eq isn next
  have hps : ∀ s ∈ h.items, pos isn s.seq = (2 ^ 32 - isn.toNat + s.seq.toNat) % 2 ^ 32 ∧
      s.seq.toNat < 2 ^ 32 := fun s _ => ⟨pos_eq isn s.seq, s.seq.toNat_lt⟩
  have hmb := hbound m hmem
  have hmp := hps m hmem
  have hmne := hstale m hmem
  refine ⟨fun hr => ?_, fun hnear => ?_⟩
  · obtain ⟨⟨s0, hs0, hl0⟩, hor⟩ := hr
    rw [hlt s0 hs0] at hl0
    have hb0 := hbound s0 hs0
    have hp0 := hps s0 hs0
    have hm0 := hleast s0 hs0
    rcases hor with hall | hall
    · have hA : ∀ s ∈ h.items, next.toNat ≤ s.seq.toNat := by
        intro s hs
        have := hall s hs
        rw [hnum s hs] at this
        omega
      have hAm := hA m hmem
      have hA0 := hA s0 hs0
      have hmlive : pos isn next < pos isn m.seq := by omega
      refine ⟨(hlt m hmem).mpr hmlive, fun s hs hls => (hle s hs).mpr ?_⟩
      rw [hlt s hs] at hls
      have := hA s hs
      have := hbound s hs
      have := hps s hs
      have := hleast s hs
      omega
    · have hB : ∀ s ∈ h.items, pos isn next < pos isn s.seq → s.seq.toNat < next.toNat :=
        fun s hs hl => (hnum s hs).mp (hall s hs ((hlt s hs).mpr hl))
      have hB0 := hB s0 hs0 hl0
      have hmlive : pos isn next < pos isn m.seq := by omega
      refine ⟨(hlt m hmem).mpr hmlive, fun s hs hls => (hle s hs).mpr ?_⟩
      rw [hlt s hs] at hls
      have := hB s hs hls
      have := hB m hmem hmlive
      have := hbound s hs
      have := hps s hs
      have := hleast s hs
      omega
  · obtain ⟨hml, hmin⟩ := hnear
    refine ⟨⟨m, hmem, hml⟩, ?_⟩
    rw [hlt m hmem] at hml
    by_cases hall : ∀ s ∈ h.items, ¬ s.seq < next
    · exact .inl hall
    right
    intro s hs hls
    have hsm := (hle s hs).mp (hmin s hs hls)
    rw [hlt s hs] at hls
    rw [hnum s hs]
    push Not at hall
    obtain ⟨k, hk, hkn⟩ := hall
    rw [hnum k hk] at hkn
    have := hleast k hk
    have := hbound s hs
    have := hps s hs
    omega

/-! ### Where bytes go -/

theorem mem_heldWith (hs : s ∈ (r.heldWith g).items) :
    s ∈ r.hold.items ∨ s = g ∧ 0 < (g.seq - r.nextSeq).toInt32 := by
  rw [heldWith] at hs
  split at hs
  next hpos =>
    rcases BTree.mem_insert.mp hs with hs | hs
    · exact .inr ⟨hs, hpos⟩
    · exact .inl hs.1
  · exact .inl hs

/-- A position is delivered, or held and not passed yet. -/
def KeptAt (isn : UInt32) (r : Reassembler) (p : Nat) : Prop :=
  (∃ c ∈ r.log, Over isn c p) ∨ (∃ s ∈ r.hold.items, Over isn s.span p) ∧ pos isn r.nextSeq ≤ p

theorem KeptAt.congr {r r' : Reassembler} (h : KeptAt isn r p) (hl : r'.log = r.log)
    (hh : r'.hold = r.hold) (hn : r'.nextSeq = r.nextSeq) : KeptAt isn r' p := by
  rw [KeptAt, hl, hh, hn]
  exact h

section Outcome

variable {r q : Reassembler} {g : Segment} (h : Rest isn r)

include h

variable {p : Nat}

theorem over_heldWith (hrep : 0 < (g.seq - r.nextSeq).toInt32 → Replaces r.hold g) (hs : s ∈ r.hold.items) (hp : Over isn s.span p) :
    ∃ t ∈ (r.heldWith g).items, Over isn t.span p := by
  rw [heldWith]
  by_cases hpos : 0 < (g.seq - r.nextSeq).toInt32
  · rw [if_pos hpos]
    by_cases hseq : s.seq = g.seq
    · have hp' : pos isn s.seq ≤ p ∧ p < pos isn s.seq + s.data.length := hp
      rw [hseq] at hp'
      by_cases hlt : p < pos isn g.seq + g.data.length
      · exact ⟨g, BTree.mem_insert.mpr (.inl rfl), hp'.1, hlt⟩
      obtain ⟨t, ht, hne, hdr⟩ := hrep hpos s hs hseq (p - pos isn g.seq) (by omega) (by omega)
      have hslt := (h.fits s hs).lt
      rw [hseq] at hslt
      have hpp : pos isn (g.seq + UInt32.ofNat (p - pos isn g.seq)) = p := by
        rw [pos_add (by omega)]
        omega
      have hover := ((h.fits t ht).drainable_iff (by omega)).mp hdr
      rw [hpp] at hover
      exact ⟨t, BTree.mem_insert.mpr (.inr ⟨ht, hne⟩), hover⟩
    · exact ⟨s, BTree.mem_insert.mpr (.inr ⟨hs, hseq⟩), hp⟩
  · rw [if_neg hpos]
    exact ⟨s, hs, hp⟩

variable (hg : g.Fits isn)

include hg

theorem over_aside (hb : drainable r.nextSeq g = false) (ho : Over isn g.span p)
    (hle : pos isn r.nextSeq ≤ p) : g ∈ (r.heldWith g).items := by
  have hnb := Bool.eq_false_iff.mp hb
  rw [ne_eq, hg.drainable_iff h.next_lt] at hnb
  have hlt : p < pos isn g.seq + g.data.length := ho.2
  have hpos : 0 < (g.seq - r.nextSeq).toInt32 := (h.gap_pos_iff hg).mpr (by omega)
  rw [heldWith, if_pos hpos]
  exact BTree.mem_insert.mpr (.inl rfl)

/-- **What a push keeps**: all that was kept, and what it brings. -/
theorem keptAt_outcome (hout : Outcome isn r g q) (hq : Rest isn q)
    (hrep : 0 < (g.seq - r.nextSeq).toInt32 → Replaces r.hold g)
    (hres : r.skips g = true → Resumable (r.heldWith g) r.nextSeq)
    (hp : KeptAt isn r p ∨ Over isn g.span p ∧ pos isn r.nextSeq ≤ p) : KeptAt isn q p := by
  have hlogged : ∀ {cs c}, q.log = r.log ++ cs → c ∈ r.log ∨ c ∈ cs → Over isn c p →
      KeptAt isn q p := by
    intro cs c hcs hc ho
    refine .inl ⟨c, ?_, ho⟩
    rw [hcs]
    exact mem_append.mpr hc
  -- what is not delivered yet is in a held segment or in the new one
  have hcases : (∃ c ∈ r.log, Over isn c p) ∨ pos isn r.nextSeq ≤ p ∧
      ((∃ s ∈ r.hold.items, Over isn s.span p) ∨ Over isn g.span p) := by
    rcases hp with (hp | ⟨hs, hle⟩) | ⟨ho, hle⟩
    · exact .inl hp
    · exact .inr ⟨hle, .inl hs⟩
    · exact .inr ⟨hle, .inr ho⟩
  have haside : drainable r.nextSeq g = false → pos isn r.nextSeq ≤ p →
      (∃ s ∈ r.hold.items, Over isn s.span p) ∨ Over isn g.span p →
      ∃ t ∈ (r.heldWith g).items, Over isn t.span p := by
    intro hb hle hor
    rcases hor with ⟨s, hs, ho⟩ | ho
    · exact over_heldWith h hrep hs ho
    · exact ⟨g, over_aside h hg hb ho hle, ho⟩
  cases hout with
  | brought r1 hb hlog hnext hhold hd =>
    obtain ⟨_, hend, cs, hcs, hcont, _⟩ := brought_spec h hg hb hlog hnext hhold hd
    rcases hcases with ⟨c, hc, ho⟩ | ⟨hle, hor⟩
    · exact hlogged hcs (.inl hc) ho
    by_cases hlt : p < pos isn q.nextSeq
    · obtain ⟨c, hc, ho⟩ := hcont.covers hle hlt
      exact hlogged hcs (.inr hc) ho
    rcases hor with ⟨s, hs, ho⟩ | ho
    · have hslt : p < pos isn s.seq + s.data.length := ho.2
      refine .inr ⟨⟨s, ?_, ho⟩, by omega⟩
      by_contra hns
      have := hd.gone s (hhold ▸ hs) hns
      omega
    · have hglt : p < pos isn g.seq + g.data.length := ho.2
      omega
  | quiet hb _ hlog hnext hhold =>
    rcases hcases with ⟨c, hc, ho⟩ | ⟨hle, hor⟩
    · exact hlogged (hlog.trans (append_nil _).symm) (.inl hc) ho
    · obtain ⟨t, ht, ho⟩ := haside hb hle hor
      rw [KeptAt, hnext, hhold]
      exact .inr ⟨⟨t, ht, ho⟩, hle⟩
  | skipped m r1 hb hsk hm hlog hnext hhold hd =>
    obtain ⟨hmem, _, cs, hcs, hcont, _⟩ := skipped_spec hm hlog hnext hhold hd hq
    rcases hcases with ⟨c, hc, ho⟩ | ⟨hle, hor⟩
    · exact hlogged hcs (.inl hc) ho
    obtain ⟨t, ht, ho⟩ := haside hb hle hor
    have hfits := h.heldWith_fits hg
    have hlive := h.heldWith_live hg
    have hto : pos isn t.seq ≤ p ∧ p < pos isn t.seq + t.data.length := ho
    -- the segment starts past the next byte, so the nearest one starts no later
    have hmt : pos isn m.seq ≤ pos isn t.seq := by
      have hpast : pos isn r.nextSeq < pos isn t.seq := by
        have := hlive t ht
        omega
      obtain ⟨_, hmin⟩ := (resumable_iff h.next_lt hfits hlive hm).mp (hres hsk)
      exact (seqLe_iff (hfits m hmem).seq_lt (hfits t ht).seq_lt).mp
        (hmin t ht ((seqLt_iff h.next_lt (hfits t ht).seq_lt).mpr hpast))
    by_cases hlt : p < pos isn q.nextSeq
    · obtain ⟨c, hc, hoc⟩ := hcont.covers (by omega) hlt
      exact hlogged hcs (.inr hc) hoc
    refine .inr ⟨⟨t, ?_, ho⟩, by omega⟩
    by_contra hns
    have := hd.gone t (hhold ▸ ht) hns
    omega

theorem origin_outcome (hout : Outcome isn r g q) (hq : Rest isn q) :
    (∀ c ∈ q.log, c ∈ r.log ∨ ∃ s, IsTail isn c s ∧ (s ∈ (r.heldWith g).items ∨ s = g)) ∧
      ∀ s ∈ q.hold.items, s ∈ (r.heldWith g).items := by
  have hsplit : ∀ {cs}, q.log = r.log ++ cs →
      (∀ c ∈ cs, ∃ s, IsTail isn c s ∧ (s ∈ (r.heldWith g).items ∨ s = g)) →
      ∀ c ∈ q.log, c ∈ r.log ∨ ∃ s, IsTail isn c s ∧ (s ∈ (r.heldWith g).items ∨ s = g) := by
    intro cs hcs htail c hc
    rw [hcs] at hc
    exact (mem_append.mp hc).imp_right (htail c)
  cases hout with
  | brought r1 hb hlog hnext hhold hd =>
    obtain ⟨_, _, cs, hcs, _, htail⟩ := brought_spec h hg hb hlog hnext hhold hd
    -- the segment brings the next byte, so it is not put aside
    have hsame : r.heldWith g = r.hold := by
      have hdr := (hg.drainable_iff h.next_lt).mp hb
      rw [heldWith, if_neg]
      rw [h.gap_pos_iff hg]
      omega
    rw [hsame] at hsplit ⊢
    refine ⟨hsplit hcs (fun c hc => ?_), fun s hs => hhold ▸ hd.sub s hs⟩
    rcases htail c hc with ht | ⟨s, hs, ht⟩
    · exact ⟨g, ht, .inr rfl⟩
    · exact ⟨s, ht, .inl hs⟩
  | quiet _ _ hlog _ hhold =>
    exact ⟨fun c hc => .inl (hlog ▸ hc), fun s hs => hhold ▸ hs⟩
  | skipped m r1 hb _ hm hlog hnext hhold hd =>
    obtain ⟨_, _, cs, hcs, _, htail⟩ := skipped_spec hm hlog hnext hhold hd hq
    refine ⟨hsplit hcs (fun c hc => ?_), fun s hs => hhold ▸ hd.sub s hs⟩
    obtain ⟨s, hs, ht⟩ := htail c hc
    exact ⟨s, ht, .inl hs⟩

end Outcome

/-! ### Operations -/

/-- The operation finds the buffer too long and drops everything. -/
def Op.overflows (r : Reassembler) : Op → Bool
  | .push g => (r.push g.seq g.ts g.data).2.bufferOverflow
  | .consume _ => false

section Step

variable {r : Reassembler} (ht : Tidy isn r) {o : Op} (hfit : o.Fits isn)

include ht hfit

theorem keptAt_apply (hroom : o.overflows r = false) (hk : Keeps r o) {p : Nat}
    (hp : KeptAt isn r p ∨ ∃ g, o = .push g ∧ Over isn g.span p ∧
      (r.initialized = true → pos isn r.nextSeq ≤ p)) : KeptAt isn (o.apply r) p := by
  cases o with
  | consume n =>
    obtain ⟨_, hl, hh, hn⟩ := consume_frame r n
    rcases hp with hp | ⟨g, hc, _⟩
    · exact hp.congr hl hh hn
    · exact absurd hc (by simp)
  | push g =>
    rw [Op.apply]
    have hp' : KeptAt isn r p ∨ Over isn g.span p ∧
        (r.initialized = true → pos isn r.nextSeq ≤ p) := by
      rcases hp with hp | ⟨g', hc, ho⟩
      · exact .inl hp
      · rw [Op.push.inj hc]
        exact .inr ho
    by_cases hne : g.data = []
    · rw [push, if_pos hne]
      rcases hp' with hp | ⟨ho, _⟩
      · exact hp
      · have hover : pos isn g.seq ≤ p ∧ p < pos isn g.seq + g.data.length := ho
        rw [hne, length_nil] at hover
        omega
    have hg : g.Fits isn := ⟨hne, hfit⟩
    rcases ht with ⟨hi, hl, hh⟩ | ⟨hi, hr⟩
    · obtain ⟨_, _, hlog, _, _⟩ := push_new hi hl hh hg
      rcases hp' with (⟨c, hc, _⟩ | ⟨⟨s, hs, _⟩, _⟩) | ⟨ho, _⟩
      · rw [hl] at hc
        cases hc
      · rw [hh] at hs
        cases hs
      · refine .inl ⟨(g.seq, g.data), ?_, ho⟩
        rw [hlog]
        exact mem_singleton_self _
    obtain ⟨q, hout, hq, _, hlog, hn, hh⟩ := push_started hi hr hg
    obtain ⟨hrep, hres⟩ := hk hi hne
    have hkept := keptAt_outcome hr hg hout hq hrep hres
      (hp'.imp_right (fun ho => ⟨ho.1, ho.2 hi⟩))
    refine hkept.congr hlog (hh.resolve_right (fun hc => ?_)) hn
    rw [Op.overflows, hc.2] at hroom
    cases hroom

theorem origin_apply :
    (∀ c ∈ (o.apply r).log, c ∈ r.log ∨ ∃ s, IsTail isn c s ∧ (s ∈ r.hold.items ∨ o = .push s)) ∧
      ∀ s ∈ (o.apply r).hold.items, s ∈ r.hold.items ∨
        o = .push s ∧ r.initialized = true ∧ pos isn r.nextSeq < pos isn s.seq := by
  cases o with
  | consume n =>
    obtain ⟨_, hl, hh, _⟩ := consume_frame r n
    rw [Op.apply, hl, hh]
    exact ⟨fun c hc => .inl hc, fun s hs => .inl hs⟩
  | push g =>
    rw [Op.apply]
    by_cases hne : g.data = []
    · rw [push, if_pos hne]
      exact ⟨fun c hc => .inl hc, fun s hs => .inl hs⟩
    have hg : g.Fits isn := ⟨hne, hfit⟩
    rcases ht with ⟨hi, hl, hh⟩ | ⟨hi, hr⟩
    · obtain ⟨_, _, hlog, _, hhold⟩ := push_new hi hl hh hg
      rw [hlog, hhold]
      refine ⟨fun c hc => .inr ⟨g, ?_, .inr rfl⟩, by simp⟩
      rw [mem_singleton.mp hc]
      refine ⟨le_rfl, ?_⟩
      rw [Nat.sub_self, drop_zero]
    obtain ⟨q, hout, hq, _, hlog, _, hh⟩ := push_started hi hr hg
    obtain ⟨hc, hs⟩ := origin_outcome hr hg hout hq
    rw [hlog]
    refine ⟨fun c hcq => (hc c hcq).imp_right (fun hx => ?_), fun s hsq => ?_⟩
    · obtain ⟨s, htail, hor⟩ := hx
      rcases hor with hor | hor
      · refine ⟨s, htail, (mem_heldWith hor).imp_right (fun he => ?_)⟩
        rw [he.1]
      · exact ⟨s, htail, .inr (by rw [hor])⟩
    rcases hh with hh | hh
    · rw [hh] at hsq
      refine (mem_heldWith (hs s hsq)).imp_right (fun he => ?_)
      rw [he.1]
      exact ⟨rfl, hi, (hr.gap_pos_iff hg).mp he.2⟩
    · rw [hh.1] at hsq
      cases hsq

end Step

/-! ### Whole runs -/

/-- The bytes that the operation brings are those of the stream. -/
def Op.Lawful (isn : UInt32) (stream : Nat → UInt8) : Op → Prop
  | .push g => Capture.Lawful isn stream g.span
  | .consume _ => True

instance (isn : UInt32) (stream : Nat → UInt8) : DecidablePred (Op.Lawful isn stream)
  | .push _ => decidable_of_iff _ lawful_iff.symm
  | .consume _ => isTrue trivial

/-- No operation of the run finds the buffer too long. -/
def Roomy (ops : List Op) : Prop :=
  ∀ ps o qs, ops = ps ++ o :: qs → o.overflows (run ps) = false

/-- A check of every operation in the state that it meets. -/
def everyStep (f : Reassembler → Op → Bool) : Reassembler → List Op → Bool
  | _, [] => true
  | r, o :: ops => f r o && everyStep f (o.apply r) ops

theorem of_everyStep {f : Reassembler → Op → Bool} {ps : List Op} : ∀ {r : Reassembler} {o : Op} {qs : List Op}, everyStep f r (ps ++ o :: qs) = true → f (ps.foldl Op.apply r) o = true := by
  induction ps with
  | nil =>
    intro r o qs h
    exact (Bool.and_eq_true_iff.mp h).1
  | cons a ps ih =>
    intro r o qs h
    exact ih (Bool.and_eq_true_iff.mp h).2

theorem roomy_of_everyStep (h : everyStep (fun r o => !o.overflows r) Reassembler.new ops = true) :
    Roomy ops := by
  intro ps o qs he
  rw [he] at h
  exact (Bool.not_eq_true' _).mp (of_everyStep h)

theorem lawful_run (hfit : ∀ o ∈ ops, o.Fits isn) (hstream : ∀ o ∈ ops, o.Lawful isn stream) :
    (∀ c ∈ (run ops).log, Lawful isn stream c) ∧
      ∀ s ∈ (run ops).hold.items, Lawful isn stream s.span := by
  induction ops using reverseRecOn with
  | nil =>
    exact ⟨nofun, nofun⟩
  | append_singleton ops o ih =>
    have hfit' : ∀ x ∈ ops, x.Fits isn := fun x hx => hfit x (mem_append_left _ hx)
    have hlast : o ∈ ops ++ [o] := mem_append_right _ (.head _)
    obtain ⟨hlog, hhold⟩ := ih hfit' (fun x hx => hstream x (mem_append_left _ hx))
    have hnew : ∀ s, o = .push s → Lawful isn stream s.span := by
      intro s he
      have := hstream o hlast
      rw [he] at this
      exact this
    obtain ⟨hc, hs⟩ := origin_apply (tidy_run hfit') (hfit o hlast)
    rw [run_snoc]
    refine ⟨fun c hcm => ?_, fun s hsm => ?_⟩
    · rcases hc c hcm with hcm | ⟨s, htail, hs | he⟩
      · exact hlog c hcm
      · exact htail.lawful (hhold s hs)
      · exact htail.lawful (hnew s he)
    · rcases hs s hsm with hsm | ⟨he, _⟩
      · exact hhold s hsm
      · exact hnew s he

theorem pushed_of_held (hfit : ∀ o ∈ ops, o.Fits isn) (hs : s ∈ (run ops).hold.items) :
    ∃ ps qs, ops = ps ++ .push s :: qs ∧ (run ps).initialized = true ∧
      pos isn (run ps).nextSeq < pos isn s.seq := by
  induction ops using reverseRecOn with
  | nil => cases hs
  | append_singleton ops o ih =>
    have hfit' : ∀ x ∈ ops, x.Fits isn := fun x hx => hfit x (mem_append_left _ hx)
    have hlast : o ∈ ops ++ [o] := mem_append_right _ (.head _)
    rw [run_snoc] at hs
    rcases (origin_apply (tidy_run hfit') (hfit o hlast)).2 s hs with hs | ⟨he, hi, hlt⟩
    · obtain ⟨ps, qs, he, hrest⟩ := ih hfit' hs
      refine ⟨ps, qs ++ [o], ?_, hrest⟩
      rw [he, append_assoc, cons_append]
    · exact ⟨ops, [], by rw [he], hi, hlt⟩

/-- The byte is delivered or held. -/
def Kept (isn : UInt32) (r : Reassembler) (p : Nat) (b : UInt8) : Prop :=
  (∃ c ∈ r.log, At isn c p b) ∨ ∃ s ∈ r.hold.items, At isn s.span p b
  deriving Decidable

/-- A byte pushed at or past the next byte is delivered or held ever after, and every hole
is given up for the nearest held segment. -/
structure LosesNothing (isn : UInt32) (ops : List Op) : Prop where
  kept : ∀ ps g qs rs, ops = ps ++ .push g :: qs ++ rs → ∀ p b, At isn g.span p b →
    ((run ps).initialized = true → pos isn (run ps).nextSeq ≤ p) →
    Kept isn (run (ps ++ .push g :: qs)) p b
  resumes : ∀ ps g qs, ops = ps ++ .push g :: qs → (run ps).initialized = true → g.data ≠ [] →
    (run ps).skips g = true → ∀ m, ((run ps).heldWith g).min? = some m →
    Nearest ((run ps).heldWith g) (run ps).nextSeq m

theorem Reassembler.Rest.not_behind (h : Rest isn r)
    (hm : m.Fits isn) (hnear : seqLt r.nextSeq m.seq = true) : seqLt m.seq r.nextSeq = false := by
  have hlt := (seqLt_iff h.next_lt hm.seq_lt).mp hnear
  refine Bool.eq_false_iff.mpr (fun hc => ?_)
  have := (seqLt_iff hm.seq_lt h.next_lt).mp hc
  omega

section Runs

variable {ops : List Op} (hfit : ∀ o ∈ ops, o.Fits isn)

include hfit

theorem LosesNothing.forward (h : LosesNothing isn ops) :
    ∀ ps o qs, ops = ps ++ o :: qs → Forward (run ps) o := by
  intro ps o qs he
  cases o with
  | consume n => trivial
  | push g =>
    intro hi hne hsk m hm
    have hnear := (h.resumes ps g qs he hi hne hsk m hm).1
    have hps : ∀ o ∈ ps, o.Fits isn := fun o ho => hfit o (he ▸ mem_append_left _ ho)
    have hg : g.Fits isn := ⟨hne, hfit (.push g) (by rw [he]; simp)⟩
    have hr := (tidy_run hps).rest hi
    exact hr.not_behind (hr.heldWith_fits hg m (mem_of_mem_head? hm)) hnear

theorem LosesNothing.replaces (h : LosesNothing isn ops) {ps qs : List Op}
    (he : ops = ps ++ .push g :: qs) (hi : (run ps).initialized = true) (hne : g.data ≠ [])
    (hpos : 0 < (g.seq - (run ps).nextSeq).toInt32) : Replaces (run ps).hold g := by
  intro s0 hs0 hseq i hgi hi0
  have hps : ∀ o ∈ ps, o.Fits isn := fun o ho => hfit o (he ▸ mem_append_left _ ho)
  have hg : g.Fits isn := ⟨hne, hfit (.push g) (by rw [he]; simp)⟩
  have hr := (tidy_run hps).rest hi
  have hord : Ordered isn (run ps).log (pos isn (run ps).nextSeq) := by
    refine sound_run hps (fun ps' o qs' he' => h.forward hfit ps' o (qs' ++ .push g :: qs) ?_) hi
    rw [he, he', append_assoc, cons_append]
  have hgap := (hr.gap_pos_iff hg).mp hpos
  have hs0lt := (hr.fits s0 hs0).lt
  rw [hseq] at hs0lt
  by_contra hno
  push Not at hno
  -- then no segment that is held with the new one has the byte
  have hbare : ∀ s, s ∈ ((run ps).heldWith g).items ∨ s = g →
      ¬ Over isn s.span (pos isn g.seq + i) := by
    intro s hs ho
    have hlt : pos isn g.seq + i < pos isn s.seq + s.data.length := ho.2
    rw [heldWith, if_pos hpos, BTree.mem_insert] at hs
    rcases hs with (hs | ⟨hs, hsne⟩) | hs
    · rw [hs] at hlt
      omega
    · refine absurd (((hr.fits s hs).drainable_iff ?_).mpr ?_) (hno s hs hsne)
      · rw [pos_add (by omega)]
        omega
      · rw [pos_add (by omega)]
        exact ho
    · rw [hs] at hlt
      omega
  -- but the segment it replaces brought it
  obtain ⟨ps1, qs1, he1, hi1, hlt1⟩ := pushed_of_held hps hs0
  obtain ⟨b, hb⟩ : ∃ b, s0.data[i]? = some b := ⟨_, getElem?_eq_getElem hi0⟩
  have hat : At isn s0.span (pos isn g.seq + i) b := by
    rw [← hseq]
    refine ⟨Nat.le_add_right _ _, ?_⟩
    rw [Segment.span, Nat.add_sub_cancel_left]
    exact hb
  have hkept := h.kept ps1 s0 (qs1 ++ [.push g]) qs (by rw [he, he1]; simp) _ b hat
    (fun _ => by rw [hseq] at hlt1; omega)
  have hrun : run (ps1 ++ .push s0 :: (qs1 ++ [.push g])) = (Op.push g).apply (run ps) := by
    rw [← run_snoc, he1, append_assoc, cons_append]
  rw [hrun, Op.apply] at hkept
  obtain ⟨q, hout, hq, _, hlog, _, hh⟩ := push_started hi hr hg
  obtain ⟨hc, hs⟩ := origin_outcome hr hg hout hq
  rw [Kept, hlog] at hkept
  rcases hkept with ⟨c, hcq, hat'⟩ | ⟨s, hsq, hat'⟩
  · rcases hc c hcq with hcr | ⟨s, htail, hor⟩
    · have := hord.le c hcr
      have := hat'.over.2
      omega
    · exact hbare s hor (htail.over hat'.over)
  · rcases hh with hh | hh
    · rw [hh] at hsq
      exact hbare s (.inl (hs s hsq)) hat'.over
    · rw [hh.1] at hsq
      exact not_mem_nil hsq

theorem keptAt_run (hroom : Roomy ops)
    (hkeeps : ∀ ps o qs, ops = ps ++ o :: qs → Keeps (run ps) o) {p : Nat} :
    ∀ {ps qs rs : List Op}, ops = ps ++ qs ++ rs → KeptAt isn (run ps) p →
      KeptAt isn (run (ps ++ qs)) p := by
  intro ps qs
  induction qs using reverseRecOn with
  | nil =>
    intro rs _ hp
    rw [append_nil]
    exact hp
  | append_singleton qs o ih =>
    intro rs he hp
    have he' : ops = (ps ++ qs) ++ o :: rs := by
      rw [he]
      simp
    rw [← append_assoc, run_snoc]
    exact keptAt_apply (tidy_run (fun x hx => hfit x (he' ▸ mem_append_left _ hx)))
      (hfit o (by rw [he']; simp)) (hroom _ _ _ he') (hkeeps _ _ _ he') (.inl (ih he' hp))

end Runs

/-- **When no byte is lost**: as long as the size limits are not reached, exactly when
every operation keeps what is held and gives up holes for the nearest segment only. -/
theorem losesNothing_iff (isn : UInt32) (stream : Nat → UInt8) (ops : List Op)
    (hfit : ∀ o ∈ ops, o.Fits isn)
    (hstream : ∀ o ∈ ops, o.Lawful isn stream) (hroom : Roomy ops) :
    LosesNothing isn ops ↔ ∀ ps o qs, ops = ps ++ o :: qs → Keeps (run ps) o := by
  have hof : ∀ {ps qs}, ops = ps ++ qs → ∀ o ∈ ps, o.Fits isn :=
    fun he o ho => hfit o (he ▸ mem_append_left _ ho)
  -- giving up a hole for the least key is right exactly when the hold is resumable
  have hnear : ∀ {ps g qs m}, ops = ps ++ .push g :: qs → (run ps).initialized = true →
      g.data ≠ [] → ((run ps).heldWith g).min? = some m →
      (Resumable ((run ps).heldWith g) (run ps).nextSeq ↔
        Nearest ((run ps).heldWith g) (run ps).nextSeq m) := by
    intro ps g qs m he hi hne hm
    have hr := (tidy_run (hof he)).rest hi
    have hg : g.Fits isn := ⟨hne, hfit (.push g) (by rw [he]; simp)⟩
    exact resumable_iff hr.next_lt (hr.heldWith_fits hg) (hr.heldWith_live hg) hm
  refine ⟨fun h => ?_, fun hkeeps => ⟨?_, ?_⟩⟩
  · intro ps o qs he
    cases o with
    | consume n => trivial
    | push g =>
      intro hi hne
      refine ⟨h.replaces hfit he hi hne, fun hsk => ?_⟩
      obtain ⟨m, hm⟩ : ∃ m, ((run ps).heldWith g).min? = some m :=
        Option.ne_none_iff_exists'.mp (fun hc =>
          (skips_iff.mp hsk).2.1 (head?_eq_none_iff.mp hc))
      exact (hnear he hi hne hm).mpr (h.resumes ps g qs he hi hne hsk m hm)
  · intro ps g qs rs he p b hat hpast
    have he1 : ops = ps ++ .push g :: (qs ++ rs) := by
      rw [he, append_assoc, cons_append]
    have he2 : ops = (ps ++ [.push g]) ++ qs ++ rs := by
      rw [he1]
      simp
    have hmem : Op.push g ∈ ops := by
      rw [he1]
      simp
    have hfirst : KeptAt isn (run (ps ++ [.push g])) p := by
      rw [run_snoc]
      exact keptAt_apply (tidy_run (hof he1)) (hfit _ hmem) (hroom _ _ _ he1)
        (hkeeps _ _ _ he1) (.inr ⟨g, rfl, hat.over, hpast⟩)
    have hlater := keptAt_run hfit hroom hkeeps he2 hfirst
    have hsplit : ps ++ .push g :: qs = (ps ++ [.push g]) ++ qs := by simp
    have hpre : ops = (ps ++ .push g :: qs) ++ rs := he
    obtain ⟨hlog, hhold⟩ := lawful_run (hof hpre)
      (fun o ho => hstream o (hpre ▸ mem_append_left _ ho))
    have hg : Lawful isn stream g.span := hstream _ hmem
    rw [hg p b hat]
    rw [← hsplit] at hlater
    rcases hlater with ⟨c, hc, ho⟩ | ⟨⟨s, hs, ho⟩, _⟩
    · exact .inl ⟨c, hc, ho.at (hlog c hc)⟩
    · exact .inr ⟨s, hs, ho.at (hhold s hs)⟩
  · intro ps g qs he hi hne hsk m hm
    exact (hnear he hi hne hm).mp ((hkeeps ps _ qs he hi hne).2 hsk)

/-- The letters of the alphabet as a stream. -/
def letters (p : Nat) : UInt8 := (ascii "abcdefghijklmnopqrstuvwxyz").getD p 0

/-- A segment past a hole, four times, with the end of the 32-bit range in the hole. -/
def wrapping : List Op :=
  [.push ⟨0xfffffff8, 1, ascii "abcde"⟩, .push ⟨2, 2, ascii "klm"⟩, .push ⟨2, 3, ascii "klmno"⟩,
    .push ⟨7, 4, ascii "pqrst"⟩, .push ⟨2, 5, ascii "klmno"⟩, .consume 7]

theorem losesNothing_iff_wrapping :
    ((∀ o ∈ wrapping, o.Fits 0xfffffff8) ∧ (∀ o ∈ wrapping, o.Lawful 0xfffffff8 letters) ∧
      Roomy wrapping) ∧ LosesNothing 0xfffffff8 wrapping := by
  have hfit : ∀ o ∈ wrapping, o.Fits 0xfffffff8 := by decide
  have hstream : ∀ o ∈ wrapping, o.Lawful 0xfffffff8 letters := by decide
  have hroom : Roomy wrapping := roomy_of_everyStep (by decide)
  refine ⟨⟨hfit, hstream, hroom⟩,
    (losesNothing_iff 0xfffffff8 letters wrapping hfit hstream hroom).mpr (fun ps o qs he => ?_)⟩
  have hall : everyStep (fun r o => decide (Keeps r o)) Reassembler.new wrapping = true := by decide
  rw [he] at hall
  exact of_decide_eq_true (of_everyStep hall)

/-- A held segment comes again, cut shorter. -/
def shortened : List Op :=
  [.push ⟨100, 1, ascii "abcde"⟩, .push ⟨110, 2, ascii "klmnopqrst"⟩,
    .push ⟨110, 3, ascii "klmno"⟩, .push ⟨105, 4, ascii "fghij"⟩]

/-- Two segments past holes, one on each side of the end of the 32-bit range. -/
def straddling : List Op :=
  [.push ⟨0xffffffec, 1, ascii "abcde"⟩, .push ⟨0xfffffff6, 2, ascii "klmno"⟩,
    .push ⟨0, 3, ascii "uvwxy"⟩, .push ⟨0, 4, ascii "uvwxy"⟩, .push ⟨0, 5, ascii "uvwxy"⟩]

/-- **Bytes are lost**: the shorter segment replaces the longer one, and its last five bytes
are gone; and the hole is given up for the key 0, past the nearer segment, which is then
dropped as old. -/
theorem run_shortened_straddling :
    ((∀ o ∈ shortened, o.Fits 100) ∧ (∀ o ∈ shortened, o.Lawful 100 letters) ∧
        Roomy shortened ∧ (run shortened).buf = ascii "abcdefghijklmno" ∧
        (run shortened).hold.items = [] ∧ ¬ LosesNothing 100 shortened) ∧
      (∀ o ∈ straddling, o.Fits 0xffffffec) ∧
        (∀ o ∈ straddling, o.Lawful 0xffffffec letters) ∧ Roomy straddling ∧
        (run straddling).buf = ascii "abcdeuvwxy" ∧ (run straddling).hold.items = [] ∧
        ¬ LosesNothing 0xffffffec straddling := by
  refine ⟨⟨by decide, by decide, roomy_of_everyStep (by decide), by decide, by decide,
    fun h => ?_⟩, by decide, by decide, roomy_of_everyStep (by decide), by decide, by decide,
    fun h => ?_⟩
  · have hlost := h.kept [.push ⟨100, 1, ascii "abcde"⟩] ⟨110, 2, ascii "klmnopqrst"⟩
      [.push ⟨110, 3, ascii "klmno"⟩] [.push ⟨105, 4, ascii "fghij"⟩] rfl 15 112 (by decide)
      (by decide)
    exact absurd hlost (by decide)
  · have hlost := h.kept [.push ⟨0xffffffec, 1, ascii "abcde"⟩] ⟨0xfffffff6, 2, ascii "klmno"⟩
      [.push ⟨0, 3, ascii "uvwxy"⟩, .push ⟨0, 4, ascii "uvwxy"⟩, .push ⟨0, 5, ascii "uvwxy"⟩] []
      rfl 10 107 (by decide) (by decide)
    exact absurd hlost (by decide)

end MatchBench.Capture
