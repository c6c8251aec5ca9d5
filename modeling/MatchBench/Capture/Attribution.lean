import MatchBench.Capture.Evict

/-!
# Where an available byte comes from

`available`, `timestamp_at` and `seq_at` of `src/reassembly.rs`.  A byte that becomes
available is carried by the segment pushed or by one that was held: it has the time of that
segment, and the sequence number that the segment has it at.  As long as the byte is
available, neither changes.  Nothing is assumed of the segments (`run_attributed`).
-/

namespace MatchBench.Capture

open List

/-- The segment has the byte at this sequence number, and this time. -/
def Segment.Carries (g : Segment) (x : UInt8 × UInt64 × UInt32) : Prop :=
  g.ts = x.2.1 ∧ ∃ j, g.data[j]? = some x.1 ∧ x.2.2 = g.seq + UInt32.ofNat j

namespace Reassembler

/-- The byte at an offset, with its time and its sequence number. -/
def byteAt (r : Reassembler) (i : Nat) : Option (UInt8 × UInt64 × UInt32) :=
  r.available[i]?.map fun b => (b, r.timestampAt i, r.seqAt i)

/-- The bytes of `r` stay, and those behind them are carried by the given segments. -/
structure Grows (src : List Segment) (r r' : Reassembler) : Prop where
  stamped : ∃ t s, r'.Stamped t s
  le : r.buf.length ≤ r'.buf.length
  kept : ∀ i < r.buf.length, r'.byteAt i = r.byteAt i
  added : ∀ i x, r.buf.length ≤ i → r'.byteAt i = some x → ∃ g ∈ src, g.Carries x
  held : r'.hold.items ⊆ src

variable {r r' r'' : Reassembler} {src : List Segment} {g : Segment}

theorem Stamped.byteAt {t : Nat → UInt64} {s : Nat → UInt32} (h : r.Stamped t s) (i : Nat) :
    r.byteAt i = r.buf[i]?.map fun b => (b, t i, s i) := by
  rw [Reassembler.byteAt, available]
  by_cases hi : i < r.buf.length
  · obtain ⟨f, hf, hts⟩ := h.marked
    have hmark := hf.mark (r.frontAbs + i) (by omega) (by rw [deliveredAbs]; omega)
    rw [markAt] at hmark
    rw [timestampAt, seqAt, hmark, ← (hts i hi).1, ← (hts i hi).2]
  · simp [getElem?_eq_none (not_lt.mp hi)]

theorem Grows.same (h : ∃ t s, r.Stamped t s) (hm : r'.marks = r.marks)
    (hf : r'.frontAbs = r.frontAbs) (hb : r'.buf = r.buf) (hh : r'.hold.items ⊆ src) :
    Grows src r r' := by
  obtain ⟨t, s, hts⟩ := h
  have hts' := hts.congr hm hf hb
  refine ⟨⟨t, s, hts'⟩, by rw [hb], fun i _ => ?_, fun i x hi hx => ?_, hh⟩
  · rw [hts'.byteAt, hts.byteAt, hb]
  · rw [hts'.byteAt, hb, getElem?_eq_none hi] at hx
    cases hx

theorem Grows.trans (h : Grows src r r') (h' : Grows src r' r'') : Grows src r r'' := by
  refine ⟨h'.stamped, h.le.trans h'.le, fun i hi => ?_, fun i x hi hx => ?_, h'.held⟩
  · rw [h'.kept i (hi.trans_le h.le), h.kept i hi]
  · by_cases hlt : i < r'.buf.length
    · exact h.added i x hi ((h'.kept i hlt).symm.trans hx)
    · exact h'.added i x (not_lt.mp hlt) hx

/-- **A tail of a carried segment** is appended. -/
theorem Grows.append (h : ∃ t s, r.Stamped t s) (hh : r.hold.items ⊆ src) (hg : g ∈ src) {k : Nat}
    (hk : r.nextSeq = g.seq + UInt32.ofNat k) :
    Grows src r (r.appendContiguous g.ts (g.data.drop k)) := by
  by_cases hne : g.data.drop k = []
  · rw [appendContiguous, if_pos hne]
    exact .same h rfl rfl rfl hh
  obtain ⟨t, s, hts⟩ := h
  have hts' := hts.appendContiguous g.ts hne
  have heq := appendContiguous_eq r g.ts hne
  have hbuf : (r.appendContiguous g.ts (g.data.drop k)).buf = r.buf ++ g.data.drop k := by rw [heq]
  refine ⟨⟨_, _, hts'⟩, by simp [hbuf], fun i hi => ?_, fun i x hi hx => ?_, by rwa [heq]⟩
  · rw [hts'.byteAt, hts.byteAt, hbuf, getElem?_append_left hi, if_pos hi, if_pos hi]
  rw [hts'.byteAt, hbuf, getElem?_append_right hi, if_neg (not_lt.mpr hi),
    if_neg (not_lt.mpr hi), getElem?_drop] at hx
  obtain ⟨b, hb, rfl⟩ := Option.map_eq_some_iff.mp hx
  refine ⟨g, hg, rfl, _, hb, ?_⟩
  rw [hk, UInt32.ofNat_add, UInt32.add_assoc]

/-! ### The steps of a push -/

theorem Grows.drainLoop (fuel : Nat) (h : ∃ t s, r.Stamped t s) (hh : r.hold.items ⊆ src) :
    Grows src r (drainLoop fuel r) := by
  induction fuel generalizing r with
  | zero => exact .same h rfl rfl rfl hh
  | succ fuel ih =>
    rw [Reassembler.drainLoop]
    split
    · exact .same h rfl rfl rfl hh
    rename_i s hs
    have herase : (r.hold.erase s.seq).items ⊆ src := fun x hx => hh (BTree.mem_erase.mp hx).1
    have hsame : Grows src r { r with hold := r.hold.erase s.seq } := .same h rfl rfl rfl herase
    have happend := Grows.append hsame.stamped herase (hh (mem_of_find?_eq_some hs))
      (k := (r.nextSeq - s.seq).toNat) (by simp)
    exact hsame.trans (happend.trans (ih happend.stamped happend.held))

theorem Grows.drainHold (h : ∃ t s, r.Stamped t s) (hh : r.hold.items ⊆ src) :
    Grows src r r.drainHold := by
  have hloop := Grows.drainLoop r.hold.items.length h hh
  exact hloop.trans (.same hloop.stamped rfl rfl rfl
    fun x hx => hloop.held (mem_of_mem_filter hx))

theorem Grows.skipGap (h : ∃ t s, r.Stamped t s) (hh : r.hold.items ⊆ src) :
    Grows src r r.skipGap.1 := by
  rw [Reassembler.skipGap]
  split
  · exact .same h rfl rfl rfl hh
  next s _ =>
    have hsame : Grows src r { r with nextSeq := s.seq, stalledPushes := 0 } :=
      .same h rfl rfl rfl hh
    exact hsame.trans (.drainHold hsame.stamped hh)

theorem add_overlap {a b : UInt32} (h : (a - b).toInt32 ≤ 0) :
    b = a + UInt32.ofNat (-(a - b).toInt32.toInt).toNat := by
  have hlt := (a - b).toNat_lt
  rw [Int32.le_iff_toInt_le, toInt_toInt32, Int.bmod_def, Int32.toInt_zero] at h
  have hneg : UInt32.ofNat (-(a - b).toInt32.toInt).toNat = -(a - b) := by
    rw [← UInt32.toNat_inj, UInt32.toNat_neg, toInt_toInt32, Int.bmod_def, UInt32.toNat_ofNat']
    simp only [UInt32.size]
    omega
  rw [hneg]
  grind

theorem Grows.place (h : ∃ t s, r.Stamped t s) (hh : r.hold.items ⊆ src) (hg : g ∈ src) :
    Grows src r (r.place g.seq g.ts g.data).1 := by
  rw [Reassembler.place]
  dsimp only
  split
  next hgap =>
    have hseq := add_overlap (by rw [hgap]; decide : (g.seq - r.nextSeq).toInt32 ≤ 0)
    rw [hgap] at hseq
    have happend := Grows.append h hh hg (k := 0) hseq
    exact happend.trans (.drainHold happend.stamped happend.held)
  split
  next hgap =>
    split
    · exact .same h rfl rfl rfl hh
    · have happend := Grows.append h hh hg (add_overlap (Int32.le_of_lt hgap))
      exact happend.trans (.drainHold happend.stamped happend.held)
  have hinsert : (r.hold.insert g).items ⊆ src := by
    intro x hx
    rcases BTree.mem_insert.mp hx with rfl | ⟨hx, _⟩
    · exact hg
    · exact hh hx
  have hsame : Grows src r { r with hold := r.hold.insert g } := .same h rfl rfl rfl hinsert
  split
  · exact hsame.trans (.skipGap hsame.stamped hinsert)
  · exact hsame

theorem Grows.checkProgress (h : Grows src r r') (seqBefore : UInt32) (stats : PushStats) :
    Grows src r (r'.checkProgress seqBefore stats).1 := by
  rw [Reassembler.checkProgress]
  split
  · have hsame : Grows src r' { r' with stalledPushes := r'.stalledPushes + 1 } :=
      .same h.stamped rfl rfl rfl h.held
    dsimp only
    split
    · exact h.trans (hsame.trans (.skipGap hsame.stamped hsame.held))
    · exact h.trans hsame
  · exact h.trans (.same h.stamped rfl rfl rfl h.held)

/-- **A push** keeps the bytes and adds some of its segment and of the held ones, or it
throws everything away. -/
theorem push_grows (h : ∃ t s, r.Stamped t s) (g : Segment) :
    Grows (g :: r.hold.items) r (r.push g.seq g.ts g.data).1 ∨
      ∃ r' : Reassembler, (r.push g.seq g.ts g.data).1 = r'.resetBuffer := by
  have hh : r.hold.items ⊆ g :: r.hold.items := subset_cons_self _ _
  rw [push]
  split
  · exact .inl (.same h rfl rfl rfl hh)
  dsimp only
  split
  · have hsame : Grows (g :: r.hold.items) r { r with
        lastActivityNs := max r.lastActivityNs g.ts, initialized := true, nextSeq := g.seq } :=
      .same h rfl rfl rfl hh
    have happend := Grows.append hsame.stamped hh (.head _) (k := 0) (by simp)
    exact .inl (hsame.trans (happend.trans (.drainHold happend.stamped happend.held)))
  have hsame : Grows (g :: r.hold.items) r { r with
      lastActivityNs := max r.lastActivityNs g.ts } := .same h rfl rfl rfl hh
  have hplace := hsame.trans (.place hsame.stamped hh (.head _))
  rw [checkBuffer]
  split
  · exact .inr ⟨_, rfl⟩
  · exact .inl (hplace.checkProgress _ _)

theorem stamped_consume (h : ∃ t s, r.Stamped t s) (n : Nat) :
    (∃ t s, (r.consume n).Stamped t s) ∧ ∀ i, (r.consume n).byteAt i = r.byteAt (n + i) := by
  obtain ⟨t, s, hts⟩ := h
  by_cases hn : n ≤ r.buf.length
  · refine ⟨⟨_, _, hts.consume hn⟩, fun i => ?_⟩
    rw [(hts.consume hn).byteAt, hts.byteAt, consume_buf, getElem?_drop]
  have hmin : r.consume n = r.consume r.buf.length := by
    simp [consume, Nat.min_eq_right (le_of_not_ge hn)]
  have hcons := hts.consume le_rfl
  rw [hmin]
  refine ⟨⟨_, _, hcons⟩, fun i => ?_⟩
  have hlen : r.buf.length ≤ n + i := by omega
  simp [hcons.byteAt, hts.byteAt, consume_buf, getElem?_eq_none hlen]

end Reassembler

open Reassembler

/-- The segment is a piece of the stream that starts at `isn`. -/
def Segment.PieceOf (stream : Nat → UInt8) (isn : UInt32) (g : Segment) : Prop :=
  ∃ p, g.seq = isn + UInt32.ofNat p ∧ ∀ j b, g.data[j]? = some b → b = stream (p + j)

theorem stamped_run (ops : List Op) : (∃ t s, (run ops).Stamped t s) ∧
    (∀ g ∈ (run ops).hold.items, .push g ∈ ops) ∧
    ∀ i x, (run ops).byteAt i = some x → ∃ g, .push g ∈ ops ∧ g.Carries x := by
  induction ops using reverseRecOn with
  | nil =>
    exact ⟨⟨fun _ => 0, fun _ => 0, .empty rfl rfl _ _⟩, fun g hg => (by cases hg),
      fun i x hx => by cases hx⟩
  | append_singleton ops o ih =>
    obtain ⟨hstamped, hheld, hbytes⟩ := ih
    rw [run_snoc]
    have hold : ∀ i x, (run ops).byteAt i = some x → ∃ g, .push g ∈ ops ++ [o] ∧ g.Carries x :=
      fun i x hx => (hbytes i x hx).imp fun g hg => ⟨mem_append_left _ hg.1, hg.2⟩
    cases o with
    | push g =>
      have hsrc : ∀ g' ∈ g :: (run ops).hold.items, Op.push g' ∈ ops ++ [.push g] := by
        intro g' hg'
        rcases mem_cons.mp hg' with rfl | hg'
        · simp
        · exact mem_append_left _ (hheld g' hg')
      rcases push_grows hstamped g with hgrows | ⟨r', hr'⟩
      · refine ⟨hgrows.stamped, fun g' hg' => hsrc g' (hgrows.held hg'), fun i x hx => ?_⟩
        by_cases hi : i < (run ops).buf.length
        · exact hold i x ((hgrows.kept i hi).symm.trans hx)
        · obtain ⟨g', hg', hc⟩ := hgrows.added i x (not_lt.mp hi) hx
          exact ⟨g', hsrc g' hg', hc⟩
      · rw [Op.apply, hr']
        exact ⟨⟨fun _ => 0, fun _ => 0, .empty rfl rfl _ _⟩, fun g hg => (by cases hg),
          fun i x hx => by cases hx⟩
    | consume n =>
      obtain ⟨hstamped', hshift⟩ := stamped_consume hstamped n
      refine ⟨hstamped', fun g hg => ?_, fun i x hx => hold _ x ((hshift i).symm.trans hx)⟩
      rw [Op.apply, (consume_frame _ n).2.2.1] at hg
      exact mem_append_left _ (hheld g hg)

/-- **Every available byte is attributed to its segment**, at every moment of a run: it is
the byte of the stream there.  A push keeps what is known of the bytes before, and brings bytes
of its own segment and of those held; or the buffer was full and nothing is available. -/
theorem run_attributed (ops : List Op) :
    (∀ i x, (run ops).byteAt i = some x → (∃ g, .push g ∈ ops ∧ g.Carries x) ∧
      ∀ stream isn, (∀ g, .push g ∈ ops → g.PieceOf stream isn) →
        ∃ p, x.1 = stream p ∧ x.2.2 = isn + UInt32.ofNat p) ∧
    (∀ n i, ((run ops).consume n).byteAt i = (run ops).byteAt (n + i)) ∧
    ∀ g, (run (ops ++ [.push g])).available = [] ∨
      (∀ i < (run ops).available.length, (run (ops ++ [.push g])).byteAt i = (run ops).byteAt i) ∧
      ∀ i x, (run ops).available.length ≤ i → (run (ops ++ [.push g])).byteAt i = some x →
        ∃ g' ∈ g :: (run ops).hold.items, g'.Carries x := by
  obtain ⟨hstamped, -, hbytes⟩ := stamped_run ops
  refine ⟨fun i x hx => ⟨hbytes i x hx, fun stream isn hstream => ?_⟩,
    fun n => (stamped_consume hstamped n).2, fun g => ?_⟩
  · obtain ⟨g, hg, -, j, hj, hseq⟩ := hbytes i x hx
    obtain ⟨p, hp, hpiece⟩ := hstream g hg
    refine ⟨p + j, hpiece j x.1 hj, ?_⟩
    rw [hseq, hp, UInt32.ofNat_add, UInt32.add_assoc]
  · rw [run_snoc, Op.apply]
    rcases push_grows hstamped g with hgrows | ⟨r', hr'⟩
    · exact .inr ⟨hgrows.kept, hgrows.added⟩
    · rw [hr']
      exact .inl rfl

end MatchBench.Capture
