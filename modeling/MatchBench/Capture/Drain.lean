import MatchBench.Capture.Reassembly

/-!
# What a push does, in stream positions

Relative to the first sequence number of the stream, and as long as everything stays
within half the circle, a sequence number is a position (`pos`) and the comparisons of
the reassembler compare positions.

In these terms `drainHold` appends held segments one behind the other, without a gap
(`Contig`), and leaves the segments that start past the next byte and some that end at
it (`Drains`).  `settle_cases` says what a whole push does: the segment brings the next
byte, or it is put aside, or it is put aside and the hole is given up.
-/

namespace MatchBench.Capture

open List

/-- The position of a sequence number in the stream that starts at `isn`. -/
def pos (isn s : UInt32) : Nat := serialDist isn s

theorem pos_add {isn a : UInt32} {n : Nat} (h : pos isn a + n < 2 ^ 32) :
    pos isn (a + UInt32.ofNat n) = pos isn a + n := serialDist_add h

theorem toNat_sub_pos {isn a b : UInt32} (h : pos isn b ≤ pos isn a) :
    (a - b).toNat = pos isn a - pos isn b := toNat_sub_of_le h

section Positions

variable {isn a b : UInt32} (ha : pos isn a < 2 ^ 31) (hb : pos isn b < 2 ^ 31)

include ha hb

theorem toInt_sub_pos : (a - b).toInt32.toInt = (pos isn a : Int) - pos isn b :=
  toInt_sub_serialDist ha hb

theorem seqLt_iff : seqLt a b = true ↔ pos isn a < pos isn b := serialLess_iff ha hb

theorem seqLe_iff : seqLe a b = true ↔ pos isn a ≤ pos isn b := by
  rw [seqLe, decide_eq_true_iff, Int32.le_iff_toInt_le, toInt_sub_pos ha hb, Int32.toInt_zero]
  omega

theorem seqGe_iff : seqGe a b = true ↔ pos isn b ≤ pos isn a := by
  rw [seqGe, decide_eq_true_iff, Int32.le_iff_toInt_le, toInt_sub_pos ha hb, Int32.toInt_zero]
  omega

end Positions

/-- A segment of the stream: not empty, and within half the circle. -/
structure Segment.Fits (isn : UInt32) (s : Segment) : Prop where
  ne : s.data ≠ []
  lt : pos isn s.seq + s.data.length < 2 ^ 31

namespace Segment.Fits

variable {isn : UInt32} {s : Segment} (h : s.Fits isn)

include h

theorem length_pos : 0 < s.data.length := length_pos_iff.mpr h.ne

theorem seq_lt : pos isn s.seq < 2 ^ 31 := lt_of_le_of_lt (Nat.le_add_right _ _) h.lt

theorem pos_stop : pos isn s.stop = pos isn s.seq + s.data.length :=
  pos_add (lt_trans h.lt (by decide))

theorem drainable_iff {next : UInt32} (hn : pos isn next < 2 ^ 31) :
    Reassembler.drainable next s = true ↔
      pos isn s.seq ≤ pos isn next ∧ pos isn next < pos isn s.seq + s.data.length := by
  have hstop := h.pos_stop
  have hlt := h.lt
  rw [Reassembler.drainable, Bool.and_eq_true, seqLe_iff h.seq_lt hn,
    seqLt_iff hn (by omega), hstop]

end Segment.Fits

/-! ### Runs of appends -/

/-- The appends stand one behind the other, from position `a` to position `b`. -/
def Contig (isn : UInt32) : List (UInt32 × List UInt8) → Nat → Nat → Prop
  | [], a, b => a = b
  | c :: cs, a, b => pos isn c.1 = a ∧ c.2 ≠ [] ∧ Contig isn cs (a + c.2.length) b

namespace Contig

variable {isn : UInt32}

theorem le : ∀ {cs : List (UInt32 × List UInt8)} {a b : Nat}, Contig isn cs a b → a ≤ b := by
  intro cs
  induction cs with
  | nil => exact fun h => Nat.le_of_eq h
  | cons c cs ih =>
    intro a b h
    exact le_trans (Nat.le_add_right _ _) (ih h.2.2)

variable {cs : List (UInt32 × List UInt8)}

theorem bounds : ∀ {a b : Nat}, Contig isn cs a b →
    ∀ c ∈ cs, c.2 ≠ [] ∧ a ≤ pos isn c.1 ∧ pos isn c.1 + c.2.length ≤ b := by
  induction cs with
  | nil => exact nofun
  | cons d cs ih =>
    intro a b h c hc
    obtain ⟨hd, hne, hcs⟩ := h
    rcases mem_cons.mp hc with hc | hc
    · rw [hc, hd]
      exact ⟨hne, Nat.le_refl a, hcs.le⟩
    · obtain ⟨hne', hle, hub⟩ := ih hcs c hc
      exact ⟨hne', by omega, hub⟩

theorem covers : ∀ {a b p : Nat}, Contig isn cs a b →
    a ≤ p → p < b → ∃ c ∈ cs, pos isn c.1 ≤ p ∧ p < pos isn c.1 + c.2.length := by
  induction cs with
  | nil =>
    intro a b p h h1 h2
    have : a = b := h
    omega
  | cons d cs ih =>
    intro a b p h h1 h2
    obtain ⟨hd, hne, hcs⟩ := h
    by_cases hp : p < a + d.2.length
    · exact ⟨d, .head _, by omega, by omega⟩
    · obtain ⟨c, hc, hle, hlt⟩ := ih hcs (by omega) h2
      exact ⟨c, mem_cons_of_mem _ hc, hle, hlt⟩

theorem pairwise : ∀ {a b : Nat}, Contig isn cs a b →
    cs.Pairwise (fun c d => pos isn c.1 + c.2.length ≤ pos isn d.1) := by
  induction cs with
  | nil => exact fun _ => List.Pairwise.nil
  | cons d cs ih =>
    intro a b h
    obtain ⟨hd, _, hcs⟩ := h
    refine pairwise_cons.mpr ⟨fun c hc => ?_, ih hcs⟩
    have := (hcs.bounds c hc).2.1
    omega

end Contig

/-- An append is the rest of a segment. -/
def IsTail (isn : UInt32) (c : UInt32 × List UInt8) (s : Segment) : Prop :=
  pos isn s.seq ≤ pos isn c.1 ∧ c.2 = s.data.drop (pos isn c.1 - pos isn s.seq)

/-! ### Draining -/

namespace Reassembler

variable {isn : UInt32}

theorem appendContiguous_eq (r : Reassembler) (ts : UInt64) {data : List UInt8}
    (h : data ≠ []) :
    r.appendContiguous ts data =
      { r with
        marks := r.marks ++ [⟨r.deliveredAbs, ts, r.nextSeq⟩]
        buf := r.buf ++ data
        nextSeq := r.nextSeq + UInt32.ofNat data.length
        log := r.log ++ [(r.nextSeq, data)] } := by
  rw [appendContiguous, if_neg h]

/-- What draining does to the hold, the log and the next byte. -/
structure Drains (isn : UInt32) (r r' : Reassembler) : Prop where
  next_lt : pos isn r'.nextSeq < 2 ^ 31
  log : ∃ cs, r'.log = r.log ++ cs ∧ Contig isn cs (pos isn r.nextSeq) (pos isn r'.nextSeq) ∧
    ∀ c ∈ cs, ∃ s ∈ r.hold.items, IsTail isn c s
  sub : ∀ s ∈ r'.hold.items, s ∈ r.hold.items
  gone : ∀ s ∈ r.hold.items, s ∉ r'.hold.items → pos isn s.seq + s.data.length ≤ pos isn r'.nextSeq

variable {r r' : Reassembler}

theorem Drains.le (h : Drains isn r r') : pos isn r.nextSeq ≤ pos isn r'.nextSeq := by
  obtain ⟨cs, _, hcs, _⟩ := h.log
  exact hcs.le

theorem Drains.refl (hn : pos isn r.nextSeq < 2 ^ 31) : Drains isn r r :=
  ⟨hn, ⟨[], (append_nil _).symm, rfl, nofun⟩, fun _ hs => hs, fun _ hs hns => absurd hs hns⟩

theorem drainLoop_spec : ∀ (fuel : Nat) (r : Reassembler), r.hold.items.length ≤ fuel →
    pos isn r.nextSeq < 2 ^ 31 → (∀ s ∈ r.hold.items, s.Fits isn) →
    Drains isn r (drainLoop fuel r) ∧
      ∀ s ∈ (drainLoop fuel r).hold.items, drainable (drainLoop fuel r).nextSeq s = false := by
  intro fuel
  induction fuel with
  | zero =>
    intro r hfuel hn _
    have hnil : r.hold.items = [] := length_eq_zero_iff.mp (Nat.le_zero.mp hfuel)
    refine ⟨.refl hn, fun s hs => ?_⟩
    rw [drainLoop, hnil] at hs
    cases hs
  | succ fuel ih =>
    intro r hfuel hn hfits
    rw [drainLoop]
    cases hf : r.hold.items.find? (drainable r.nextSeq) with
    | none => exact ⟨.refl hn, fun s hs => Bool.eq_false_iff.mpr (find?_eq_none.mp hf s hs)⟩
    | some s =>
      have hs := mem_of_find?_eq_some hf
      have hfit := hfits s hs
      obtain ⟨hle, hlt⟩ := (hfit.drainable_iff hn).mp (find?_some hf)
      have hslt := hfit.lt
      have hk : (r.nextSeq - s.seq).toNat = pos isn r.nextSeq - pos isn s.seq :=
        toNat_sub_pos hle
      have hdlen : (s.data.drop (r.nextSeq - s.seq).toNat).length =
          s.data.length - (pos isn r.nextSeq - pos isn s.seq) := by
        rw [length_drop, hk]
      have hdne : s.data.drop (r.nextSeq - s.seq).toNat ≠ [] := by
        intro hc
        rw [hc, length_nil] at hdlen
        omega
      dsimp only
      rw [appendContiguous_eq _ _ hdne]
      -- the rest of the segment is appended, and the next byte is behind it
      generalize hr1 : ({ r with
          hold := r.hold.erase s.seq
          marks := r.marks ++ [⟨deliveredAbs { r with hold := r.hold.erase s.seq }, s.ts, r.nextSeq⟩]
          buf := r.buf ++ s.data.drop (r.nextSeq - s.seq).toNat
          nextSeq := r.nextSeq + UInt32.ofNat (s.data.drop (r.nextSeq - s.seq).toNat).length
          log := r.log ++ [(r.nextSeq, s.data.drop (r.nextSeq - s.seq).toNat)] } : Reassembler) = r1
      have hnext : pos isn r1.nextSeq = pos isn s.seq + s.data.length := by
        rw [← hr1]
        refine (pos_add (by omega)).trans ?_
        rw [hdlen]
        omega
      have hhold : ∀ t, t ∈ r1.hold.items ↔ t ∈ r.hold.items ∧ t.seq ≠ s.seq := by
        intro t
        rw [← hr1]
        exact BTree.mem_erase
      have hlen1 : r1.hold.items.length ≤ fuel := by
        have : r1.hold.items.length < r.hold.items.length := by
          rw [← hr1]
          refine length_filter_lt_length_iff_exists.mpr ⟨s, hs, ?_⟩
          simp
        omega
      obtain ⟨hd, hnone⟩ := ih r1 hlen1 (by omega) (fun t ht => hfits t ((hhold t).mp ht).1)
      refine ⟨⟨hd.next_lt, ?_, fun t ht => ((hhold t).mp (hd.sub t ht)).1, fun t ht hnt => ?_⟩,
        hnone⟩
      · obtain ⟨cs, hlog, hcs, htail⟩ := hd.log
        refine ⟨(r.nextSeq, s.data.drop (r.nextSeq - s.seq).toNat) :: cs, ?_, ⟨rfl, hdne, ?_⟩,
          fun c hc => ?_⟩
        · rw [hlog, ← hr1, append_assoc, singleton_append]
        · rw [hnext] at hcs
          have hend : pos isn r.nextSeq + (s.data.drop (r.nextSeq - s.seq).toNat).length =
              pos isn s.seq + s.data.length := by
            rw [hdlen]
            omega
          rw [hend]
          exact hcs
        rcases mem_cons.mp hc with hc | hc
        · rw [hc]
          refine ⟨s, hs, hle, ?_⟩
          rw [hk]
        · obtain ⟨t, ht, htl⟩ := htail c hc
          exact ⟨t, ((hhold t).mp ht).1, htl⟩
      · have hle1 := hd.le
        by_cases hseq : t.seq = s.seq
        · rw [BTree.eq_of_key_eq ht hs hseq]
          omega
        · exact hd.gone t ((hhold t).mpr ⟨ht, hseq⟩) hnt

theorem drainLoop_frame (fuel : Nat) : ∀ (r : Reassembler),
    (drainLoop fuel r).initialized = r.initialized ∧
      (drainLoop fuel r).stalledPushes = r.stalledPushes := by
  induction fuel with
  | zero => exact fun r => ⟨rfl, rfl⟩
  | succ fuel ih =>
    intro r
    rw [drainLoop]
    cases r.hold.items.find? (drainable r.nextSeq) with
    | none => exact ⟨rfl, rfl⟩
    | some s =>
      obtain ⟨hi, hs⟩ := ih (appendContiguous { r with hold := r.hold.erase s.seq } s.ts
        (s.data.drop (r.nextSeq - s.seq).toNat))
      refine ⟨hi.trans ?_, hs.trans ?_⟩ <;>
        · rw [appendContiguous]
          split <;> rfl

variable {r : Reassembler} {g : Segment}

/-- **Draining the hold.** -/
theorem drainHold_spec (hn : pos isn r.nextSeq < 2 ^ 31) (hfits : ∀ s ∈ r.hold.items, s.Fits isn) :
    Drains isn r r.drainHold ∧ ∀ s ∈ r.drainHold.hold.items,
      pos isn r.drainHold.nextSeq < pos isn s.seq ∨
        pos isn s.seq + s.data.length = pos isn r.drainHold.nextSeq := by
  obtain ⟨hd, hnone⟩ := drainLoop_spec r.hold.items.length r le_rfl hn hfits
  have hmem : ∀ s, s ∈ r.drainHold.hold.items ↔
      s ∈ (drainLoop r.hold.items.length r).hold.items ∧
        seqGe s.stop (drainLoop r.hold.items.length r).nextSeq = true := by
    intro s
    exact mem_filter
  have hge : ∀ s ∈ r.hold.items,
      seqGe s.stop (drainLoop r.hold.items.length r).nextSeq = true ↔
        pos isn (drainLoop r.hold.items.length r).nextSeq ≤ pos isn s.seq + s.data.length := by
    intro s hs
    have hlt := (hfits s hs).lt
    rw [seqGe_iff (by rw [(hfits s hs).pos_stop]; exact hlt) hd.next_lt, (hfits s hs).pos_stop]
  refine ⟨⟨hd.next_lt, hd.log, fun s hs => hd.sub s ((hmem s).mp hs).1, fun s hs hns => ?_⟩,
    fun s hs => ?_⟩
  · show _ ≤ pos isn (drainLoop r.hold.items.length r).nextSeq
    by_cases hloop : s ∈ (drainLoop r.hold.items.length r).hold.items
    · have hnot : ¬ pos isn (drainLoop r.hold.items.length r).nextSeq ≤
          pos isn s.seq + s.data.length := fun hc => hns ((hmem s).mpr ⟨hloop, (hge s hs).mpr hc⟩)
      omega
    · exact hd.gone s hs hloop
  obtain ⟨hs, hstop⟩ := (hmem s).mp hs
  have hs0 := hd.sub s hs
  have hstop' := (hge s hs0).mp hstop
  have hnd := Bool.eq_false_iff.mp (hnone s hs)
  rw [ne_eq, (hfits s hs0).drainable_iff hd.next_lt] at hnd
  show pos isn (drainLoop r.hold.items.length r).nextSeq < _ ∨
    _ = pos isn (drainLoop r.hold.items.length r).nextSeq
  omega

/-! ### One push -/

/-- Between pushes, a held segment starts past the next byte or ends at it. -/
structure Rest (isn : UInt32) (r : Reassembler) : Prop where
  next_lt : pos isn r.nextSeq < 2 ^ 31
  fits : ∀ s ∈ r.hold.items, s.Fits isn
  live : ∀ s ∈ r.hold.items, pos isn r.nextSeq < pos isn s.seq ∨
    pos isn s.seq + s.data.length = pos isn r.nextSeq

/-- The segments held once a segment past the next byte is put aside. -/
def heldWith (r : Reassembler) (g : Segment) : Hold :=
  if 0 < (g.seq - r.nextSeq).toInt32 then r.hold.insert g else r.hold

/-- Pushing the segment gives up the hole: it does not bring the next byte, and too many
segments are held or it is the fourth push in a row that does not. -/
def skips (r : Reassembler) (g : Segment) : Bool :=
  !drainable r.nextSeq g && !(r.heldWith g).items.isEmpty &&
    ((0 < (g.seq - r.nextSeq).toInt32 && maxHoldSegments < (r.heldWith g).items.length) ||
      gapSkipAfterStalledPushes ≤ r.stalledPushes + 1)

theorem skips_iff :
    r.skips g = true ↔ drainable r.nextSeq g = false ∧ (r.heldWith g).items ≠ [] ∧
      ((0 < (g.seq - r.nextSeq).toInt32 ∧ maxHoldSegments < (r.heldWith g).items.length) ∨
        gapSkipAfterStalledPushes ≤ r.stalledPushes + 1) := by
  rw [skips]
  simp [Bool.and_eq_true, Bool.or_eq_true, decide_eq_true_eq, isEmpty_eq_false_iff, and_assoc]

/-- A push up to the check of the buffer. -/
def settle (r : Reassembler) (g : Segment) : Reassembler × PushStats :=
  (r.place g.seq g.ts g.data).1.checkProgress r.nextSeq (r.place g.seq g.ts g.data).2

/-- What a push does. -/
inductive Outcome (isn : UInt32) (r : Reassembler) (g : Segment) (r' : Reassembler) : Prop
  | brought (r1 : Reassembler) : drainable r.nextSeq g = true →
      r1.log = r.log ++ [(r.nextSeq, g.data.drop (pos isn r.nextSeq - pos isn g.seq))] →
      pos isn r1.nextSeq = pos isn g.seq + g.data.length → r1.hold = r.hold →
      Drains isn r1 r' → Outcome isn r g r'
  | quiet : drainable r.nextSeq g = false → r.skips g = false → r'.log = r.log →
      r'.nextSeq = r.nextSeq → r'.hold = r.heldWith g → Outcome isn r g r'
  | skipped (m : Segment) (r1 : Reassembler) : drainable r.nextSeq g = false →
      r.skips g = true → (r.heldWith g).min? = some m → r1.log = r.log →
      r1.nextSeq = m.seq → r1.hold = r.heldWith g → Drains isn r1 r' → Outcome isn r g r'

theorem drainHold_frame (r : Reassembler) : r.drainHold.initialized = r.initialized ∧
    r.drainHold.stalledPushes = r.stalledPushes := drainLoop_frame _ _

theorem Drains.rest (h : Drains isn r r') (hfits : ∀ s ∈ r.hold.items, s.Fits isn)
    (hlive : ∀ s ∈ r'.hold.items, pos isn r'.nextSeq < pos isn s.seq ∨
      pos isn s.seq + s.data.length = pos isn r'.nextSeq) : Rest isn r' :=
  ⟨h.next_lt, fun s hs => hfits s (h.sub s hs), hlive⟩

theorem Rest.heldWith_fits (h : Rest isn r) (hg : g.Fits isn) :
    ∀ s ∈ (r.heldWith g).items, s.Fits isn := by
  intro s hs
  rw [heldWith] at hs
  split at hs
  · rcases BTree.mem_insert.mp hs with hs | hs
    · rw [hs]
      exact hg
    · exact h.fits s hs.1
  · exact h.fits s hs

theorem skipGap_spec (hne : r.hold.items ≠ []) (hfits : ∀ s ∈ r.hold.items, s.Fits isn) :
    ∃ m r1, r.hold.min? = some m ∧ r1.log = r.log ∧ r1.nextSeq = m.seq ∧ r1.hold = r.hold ∧
      Drains isn r1 r.skipGap.1 ∧ Rest isn r.skipGap.1 ∧
      r.skipGap.1.initialized = r.initialized ∧ r.skipGap.1.stalledPushes = 0 := by
  obtain ⟨m, hm⟩ : ∃ m, r.hold.min? = some m := by
    cases hi : r.hold.items with
    | nil => exact absurd hi hne
    | cons m ms =>
      refine ⟨m, ?_⟩
      rw [BTree.min?, hi]
      rfl
  have hmem : m ∈ r.hold.items := mem_of_mem_head? hm
  have hskip : r.skipGap.1 = drainHold { r with nextSeq := m.seq, stalledPushes := 0 } := by
    rw [skipGap, hm]
  obtain ⟨hd, hlive⟩ := drainHold_spec (r := { r with nextSeq := m.seq, stalledPushes := 0 })
    (hfits m hmem).seq_lt hfits
  obtain ⟨hi, hs⟩ := drainHold_frame { r with nextSeq := m.seq, stalledPushes := 0 }
  rw [hskip]
  exact ⟨m, { r with nextSeq := m.seq, stalledPushes := 0 }, hm, rfl, rfl, rfl, hd,
    hd.rest hfits hlive, hi, hs⟩

section Place

variable {r : Reassembler} {g : Segment} (h : Rest isn r) (hg : g.Fits isn)

include h hg

theorem Rest.toInt_gap : (g.seq - r.nextSeq).toInt32.toInt =
    (pos isn g.seq : Int) - pos isn r.nextSeq := toInt_sub_pos hg.seq_lt h.next_lt

theorem Rest.gap_pos_iff : 0 < (g.seq - r.nextSeq).toInt32 ↔ pos isn r.nextSeq < pos isn g.seq := by
  rw [Int32.lt_iff_toInt_lt, h.toInt_gap hg, Int32.toInt_zero]
  omega

theorem Rest.heldWith_live : ∀ s ∈ (r.heldWith g).items, pos isn r.nextSeq < pos isn s.seq ∨
    pos isn s.seq + s.data.length = pos isn r.nextSeq := by
  intro s hs
  rw [heldWith] at hs
  split at hs
  next hpos =>
    rcases BTree.mem_insert.mp hs with hs | hs
    · rw [hs]
      exact .inl ((h.gap_pos_iff hg).mp hpos)
    · exact h.live s hs.1
  · exact h.live s hs

theorem Rest.place_brought (hb : drainable r.nextSeq g = true) :
    ∃ r1 : Reassembler, (r.place g.seq g.ts g.data).1 = r1.drainHold ∧
      r1.log = r.log ++ [(r.nextSeq, g.data.drop (pos isn r.nextSeq - pos isn g.seq))] ∧
      pos isn r1.nextSeq = pos isn g.seq + g.data.length ∧ r1.hold = r.hold ∧
      r1.initialized = r.initialized := by
  obtain ⟨hle, hlt⟩ := (hg.drainable_iff h.next_lt).mp hb
  have hgap := h.toInt_gap hg
  have hglt := hg.lt
  have hplace : (r.place g.seq g.ts g.data).1 = drainHold (r.appendContiguous g.ts
      (g.data.drop (pos isn r.nextSeq - pos isn g.seq))) := by
    rw [place]
    by_cases h0 : (g.seq - r.nextSeq).toInt32 = 0
    · rw [if_pos h0]
      rw [h0, Int32.toInt_zero] at hgap
      have hzero : pos isn r.nextSeq - pos isn g.seq = 0 := by omega
      rw [hzero, drop_zero]
    have hne : (g.seq - r.nextSeq).toInt32.toInt ≠ 0 := by
      rw [← Int32.toInt_zero, ne_eq, Int32.toInt_inj]
      exact h0
    have hneg : (g.seq - r.nextSeq).toInt32 < 0 := by
      rw [Int32.lt_iff_toInt_lt, Int32.toInt_zero]
      omega
    have hover : (-(g.seq - r.nextSeq).toInt32.toInt).toNat =
        pos isn r.nextSeq - pos isn g.seq := by omega
    rw [if_neg h0, if_pos hneg, hover, if_neg (by omega)]
  have hlen : (g.data.drop (pos isn r.nextSeq - pos isn g.seq)).length =
      g.data.length - (pos isn r.nextSeq - pos isn g.seq) := length_drop
  have hne : g.data.drop (pos isn r.nextSeq - pos isn g.seq) ≠ [] := by
    intro hc
    rw [hc, length_nil] at hlen
    omega
  refine ⟨_, hplace, ?_⟩
  rw [appendContiguous_eq _ _ hne]
  refine ⟨rfl, ?_, rfl, rfl⟩
  refine (pos_add (by omega)).trans ?_
  omega

theorem Rest.place_aside (hb : drainable r.nextSeq g = false) :
    (r.place g.seq g.ts g.data).1 =
      if 0 < (g.seq - r.nextSeq).toInt32 ∧ maxHoldSegments < (r.heldWith g).items.length then
        (skipGap { r with hold := r.heldWith g }).1
      else { r with hold := r.heldWith g } := by
  have hnb := Bool.eq_false_iff.mp hb
  rw [ne_eq, hg.drainable_iff h.next_lt] at hnb
  have hgap := h.toInt_gap hg
  have hlen := hg.length_pos
  rw [place, heldWith]
  have h0 : (g.seq - r.nextSeq).toInt32 ≠ 0 := by
    intro hc
    rw [hc, Int32.toInt_zero] at hgap
    omega
  by_cases hpos : 0 < (g.seq - r.nextSeq).toInt32
  · have hp := (h.gap_pos_iff hg).mp hpos
    have hneg : ¬ (g.seq - r.nextSeq).toInt32 < 0 := by
      rw [Int32.lt_iff_toInt_lt, Int32.toInt_zero]
      omega
    rw [if_neg h0, if_neg hneg, if_pos hpos]
    by_cases hmax : maxHoldSegments < (r.hold.insert g).items.length
    · rw [if_pos hmax, if_pos ⟨hpos, hmax⟩]
    · rw [if_neg hmax, if_neg (fun hc => hmax hc.2)]
  have hp : ¬ pos isn r.nextSeq < pos isn g.seq := fun hc => hpos ((h.gap_pos_iff hg).mpr hc)
  have hneg : (g.seq - r.nextSeq).toInt32 < 0 := by
    rw [Int32.lt_iff_toInt_lt, Int32.toInt_zero]
    omega
  rw [if_neg h0, if_pos hneg, if_pos (by omega), if_neg hpos, if_neg (fun hc => hpos hc.1)]

/-- **What a push does**, up to the check of the buffer. -/
theorem Rest.settle_cases : Outcome isn r g (r.settle g).1 ∧ Rest isn (r.settle g).1 ∧
    (r.settle g).1.initialized = r.initialized := by
  rw [settle]
  cases hb : drainable r.nextSeq g with
  | true =>
    obtain ⟨r1, hplace, hlog, hnext, hhold, hinit⟩ := h.place_brought hg hb
    obtain ⟨hle, hlt⟩ := (hg.drainable_iff h.next_lt).mp hb
    have hglt := hg.lt
    have hfits1 : ∀ s ∈ r1.hold.items, s.Fits isn := by
      rw [hhold]
      exact h.fits
    obtain ⟨hd, hlive⟩ := drainHold_spec (by omega) hfits1
    have hdle := hd.le
    have hmoved : r1.drainHold.nextSeq ≠ r.nextSeq := by
      intro hc
      rw [hc] at hdle
      omega
    have hcheck : (checkProgress r1.drainHold r.nextSeq (r.place g.seq g.ts g.data).2).1 =
        { r1.drainHold with stalledPushes := 0 } := by
      rw [checkProgress, if_neg (fun hc => hmoved hc.1)]
    rw [hplace, hcheck]
    have hd' : Drains isn r1 { r1.drainHold with stalledPushes := 0 } :=
      ⟨hd.next_lt, hd.log, hd.sub, hd.gone⟩
    exact ⟨Outcome.brought r1 hb hlog hnext hhold hd', hd'.rest hfits1 hlive,
      (drainHold_frame r1).1.trans hinit⟩
  | false =>
    have hfits := h.heldWith_fits hg
    rw [h.place_aside hg hb]
    by_cases hover : 0 < (g.seq - r.nextSeq).toInt32 ∧ maxHoldSegments < (r.heldWith g).items.length
    · -- too many segments are held
      have hne : (r.heldWith g).items ≠ [] := by
        intro hc
        rw [hc, length_nil] at hover
        exact absurd hover.2 (by decide)
      have hskips : r.skips g = true := skips_iff.mpr ⟨hb, hne, .inl hover⟩
      obtain ⟨m, r1, hm, hlog, hnext, hhold, hd, hrest, hinit, hstall⟩ :=
        skipGap_spec (r := { r with hold := r.heldWith g }) hne hfits
      rw [if_pos hover]
      generalize hr2 : (skipGap { r with hold := r.heldWith g }).1 = r2 at hd hrest hinit hstall
      -- a second check does not give up another hole: the counter was just cleared
      obtain ⟨k, hk⟩ : ∃ k, (checkProgress r2 r.nextSeq (r.place g.seq g.ts g.data).2).1 =
          { r2 with stalledPushes := k } := by
        rw [checkProgress]
        split
        · rw [hstall]
          exact ⟨1, rfl⟩
        · exact ⟨0, rfl⟩
      rw [hk]
      exact ⟨Outcome.skipped m r1 hb hskips hm hlog hnext hhold
          ⟨hd.next_lt, hd.log, hd.sub, hd.gone⟩,
        ⟨hrest.next_lt, hrest.fits, hrest.live⟩, hinit⟩
    · rw [if_neg hover]
      have hlive := h.heldWith_live hg
      by_cases hne : (r.heldWith g).items = []
      · have hskips : r.skips g = false :=
          Bool.eq_false_iff.mpr (fun hc => (skips_iff.mp hc).2.1 hne)
        rw [checkProgress, if_neg (fun hc => hc.2 hne)]
        exact ⟨Outcome.quiet hb hskips rfl rfl rfl, ⟨h.next_lt, hfits, hlive⟩, rfl⟩
      rw [checkProgress, if_pos ⟨rfl, hne⟩]
      by_cases hstall : gapSkipAfterStalledPushes ≤ r.stalledPushes + 1
      · have hskips : r.skips g = true := skips_iff.mpr ⟨hb, hne, .inr hstall⟩
        obtain ⟨m, r1, hm, hlog, hnext, hhold, hd, hrest, hinit, _⟩ :=
          skipGap_spec (r := { r with
            hold := r.heldWith g, stalledPushes := r.stalledPushes + 1 }) hne hfits
        rw [if_pos hstall]
        exact ⟨Outcome.skipped m r1 hb hskips hm hlog hnext hhold hd, hrest, hinit⟩
      · have hskips : r.skips g = false :=
          Bool.eq_false_iff.mpr (fun hc => (skips_iff.mp hc).2.2.elim hover hstall)
        rw [if_neg hstall]
        exact ⟨Outcome.quiet hb hskips rfl rfl rfl, ⟨h.next_lt, hfits, hlive⟩, rfl⟩

end Place

/-- A push on a started stream, in terms of `settle`. -/
theorem push_eq (hinit : r.initialized = true) (hne : g.data ≠ []) :
    r.push g.seq g.ts g.data =
      (settle { r with lastActivityNs := max r.lastActivityNs g.ts } g).1.checkBuffer
        (settle { r with lastActivityNs := max r.lastActivityNs g.ts } g).2 := by
  rw [push, if_neg hne]
  dsimp only
  rw [hinit, Bool.not_true, if_neg Bool.false_ne_true]
  rfl

end Reassembler

end MatchBench.Capture
