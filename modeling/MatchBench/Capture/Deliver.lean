import MatchBench.Capture.Drain
import MatchBench.Capture.Parse

/-!
# Delivering a byte once

A run of the reassembler is a list of pushes and consumptions.  Its log is in order
(`Ordered`) as long as every hole it gives up lies ahead: the appends follow one another
in the stream, and the last one ends at the next byte.

`drain_hold` leaves a held segment that ends exactly at the next byte, although all of it
has been delivered.  When such a segment has the least key and a hole is given up, the
reassembler goes back to its start and delivers it again (`run_abutting`).
`deliveredOnce_iff` says that this is the only way: every byte is delivered once exactly
when no hole is given up for a segment behind the next byte.
-/

namespace MatchBench.Capture

open List
open Reassembler

inductive Op
  | push (g : Segment)
  | consume (n : Nat)
  deriving DecidableEq, Repr

def Op.apply (r : Reassembler) : Op → Reassembler
  | .push g => (r.push g.seq g.ts g.data).1
  | .consume n => r.consume n

def run (ops : List Op) : Reassembler := ops.foldl Op.apply Reassembler.new

theorem run_snoc (ops : List Op) (o : Op) : run (ops ++ [o]) = o.apply (run ops) := by
  rw [run, run, foldl_append, foldl_cons, foldl_nil]

/-- The segments of the operations lie within half the circle after `isn`. -/
def Op.Fits (isn : UInt32) : Op → Prop
  | .push g => pos isn g.seq + g.data.length < 2 ^ 31
  | .consume _ => True

instance (isn : UInt32) : DecidablePred (Op.Fits isn)
  | .push g => inferInstanceAs (Decidable (pos isn g.seq + g.data.length < 2 ^ 31))
  | .consume _ => isTrue trivial

/-! ### The log in order -/

/-- The appends follow one another, and the last ends at the next byte. -/
structure Ordered (isn : UInt32) (log : List (UInt32 × List UInt8)) (next : Nat) : Prop where
  pairwise : log.Pairwise (fun c d => pos isn c.1 + c.2.length ≤ pos isn d.1)
  le : ∀ c ∈ log, pos isn c.1 + c.2.length ≤ next
  tip : ∃ c ∈ log, pos isn c.1 < next ∧ next ≤ pos isn c.1 + c.2.length

variable {isn : UInt32} {cs log : List (UInt32 × List UInt8)} {a b next : Nat} {o : Op}
  {r r1 q : Reassembler} {c : UInt32 × List UInt8}

theorem Ordered.of_contig (h : Contig isn cs a b) (hlt : a < b) : Ordered isn cs b := by
  refine ⟨h.pairwise, fun c hc => (h.bounds c hc).2.2, ?_⟩
  obtain ⟨c, hc, hle, hub⟩ := h.covers (by omega : a ≤ b - 1) (by omega)
  exact ⟨c, hc, by omega, by omega⟩

theorem Ordered.append
    (h : Ordered isn log next) (hcs : Contig isn cs a b) (hle : next ≤ a) (hlt : a < b) :
    Ordered isn (log ++ cs) b := by
  have hnew := Ordered.of_contig hcs hlt
  refine ⟨pairwise_append.mpr ⟨h.pairwise, hnew.pairwise, fun c hc d hd => ?_⟩,
    fun c hc => ?_, ?_⟩
  · have h1 := h.le c hc
    have h2 := (hcs.bounds d hd).2.1
    omega
  · rcases mem_append.mp hc with hc | hc
    · have h1 := h.le c hc
      omega
    · exact hnew.le c hc
  · obtain ⟨c, hc, hb⟩ := hnew.tip
    exact ⟨c, mem_append_right _ hc, hb⟩

theorem Ordered.not_append
    (h : Ordered isn log next) (hcs : Contig isn cs a b) (hlt : a < next) (hle : next ≤ b) :
    ¬ (log ++ cs).Pairwise (fun c d => pos isn c.1 + c.2.length ≤ pos isn d.1) := by
  intro hp
  obtain ⟨c, hc, _, hend⟩ := h.tip
  obtain ⟨d, hd, hle', _⟩ := hcs.covers (by omega : a ≤ next - 1) (by omega)
  have := (pairwise_append.mp hp).2.2 c hc d hd
  omega

/-! ### What every state keeps -/

/-- A state between operations: nothing has happened yet, or the hold is at rest. -/
def Tidy (isn : UInt32) (r : Reassembler) : Prop :=
  (r.initialized = false ∧ r.log = [] ∧ r.hold.items = []) ∨ (r.initialized = true ∧ Rest isn r)

variable {r : Reassembler} {ops : List Op} {g : Segment}

theorem Tidy.rest (h : Tidy isn r) (hi : r.initialized = true) : Rest isn r := by
  rcases h with ⟨hn, _⟩ | ⟨_, hr⟩
  · rw [hi] at hn
    cases hn
  · exact hr

theorem consume_frame (r : Reassembler) (n : Nat) :
    (r.consume n).initialized = r.initialized ∧ (r.consume n).log = r.log ∧
      (r.consume n).hold = r.hold ∧ (r.consume n).nextSeq = r.nextSeq := by
  rw [Reassembler.consume]
  split <;> exact ⟨rfl, rfl, rfl, rfl⟩

theorem checkBuffer_frame (r : Reassembler) (stats : PushStats) :
    (r.checkBuffer stats).1.initialized = r.initialized ∧
      (r.checkBuffer stats).1.log = r.log ∧ (r.checkBuffer stats).1.nextSeq = r.nextSeq ∧
      ((r.checkBuffer stats).1.hold = r.hold ∨
        (r.checkBuffer stats).1.hold.items = [] ∧
          (r.checkBuffer stats).2.bufferOverflow = true) := by
  rw [checkBuffer]
  split
  · exact ⟨rfl, rfl, rfl, .inr ⟨rfl, rfl⟩⟩
  · exact ⟨rfl, rfl, rfl, .inl rfl⟩

theorem Reassembler.Rest.of_hold {r r' : Reassembler} (h : Rest isn r) (hn : r'.nextSeq = r.nextSeq)
    (hh : r'.hold = r.hold ∨ r'.hold.items = []) : Rest isn r' := by
  have hmem : ∀ s ∈ r'.hold.items, s ∈ r.hold.items := by
    intro s hs
    rcases hh with hh | hh
    · rw [← hh]
      exact hs
    · rw [hh] at hs
      cases hs
  refine ⟨?_, fun s hs => h.fits s (hmem s hs), fun s hs => ?_⟩
  · rw [hn]
    exact h.next_lt
  · rw [hn]
    exact h.live s (hmem s hs)

theorem push_new (hinit : r.initialized = false) (hlog : r.log = []) (hhold : r.hold.items = [])
    (hg : g.Fits isn) :
    (r.push g.seq g.ts g.data).1.initialized = true ∧ Rest isn (r.push g.seq g.ts g.data).1 ∧
      (r.push g.seq g.ts g.data).1.log = [(g.seq, g.data)] ∧
      pos isn (r.push g.seq g.ts g.data).1.nextSeq = pos isn g.seq + g.data.length ∧
      (r.push g.seq g.ts g.data).1.hold.items = [] := by
  have hpush : (r.push g.seq g.ts g.data).1 = drainHold (appendContiguous
      { r with lastActivityNs := max r.lastActivityNs g.ts, initialized := true, nextSeq := g.seq }
      g.ts g.data) := by
    rw [push, if_neg hg.ne]
    dsimp only
    rw [hinit, Bool.not_false, if_pos rfl]
  rw [appendContiguous_eq _ _ hg.ne] at hpush
  have hlt := hg.lt
  generalize hr1 : ({ r with
      lastActivityNs := max r.lastActivityNs g.ts
      initialized := true
      nextSeq := g.seq + UInt32.ofNat g.data.length
      marks := r.marks ++ [⟨deliveredAbs { r with
        lastActivityNs := max r.lastActivityNs g.ts, initialized := true, nextSeq := g.seq },
        g.ts, g.seq⟩]
      buf := r.buf ++ g.data
      log := r.log ++ [(g.seq, g.data)] } : Reassembler) = r1 at hpush
  have hnext : pos isn r1.nextSeq = pos isn g.seq + g.data.length := by
    rw [← hr1]
    exact pos_add (by omega)
  have hempty : r1.hold.items = [] := by
    rw [← hr1]
    exact hhold
  have hfits : ∀ s ∈ r1.hold.items, s.Fits isn := by
    simp [hempty]
  obtain ⟨hd, hlive⟩ := drainHold_spec (by omega) hfits
  rw [hpush]
  obtain ⟨cs, hcs, hcont, htail⟩ := hd.log
  -- there is nothing to drain
  have hnil : cs = [] := by
    refine eq_nil_iff_forall_not_mem.mpr (fun c hc => ?_)
    obtain ⟨s, hs, _⟩ := htail c hc
    rw [hempty] at hs
    exact not_mem_nil hs
  rw [hnil, Contig, hnext] at hcont
  refine ⟨?_, hd.rest hfits hlive, ?_, hcont.symm, ?_⟩
  · rw [(drainHold_frame r1).1, ← hr1]
  · rw [hcs, hnil, ← hr1, hlog]
    rfl
  refine eq_nil_iff_forall_not_mem.mpr (fun s hs => ?_)
  have hs' := hd.sub s hs
  rw [hempty] at hs'
  exact not_mem_nil hs'

theorem push_started (hinit : r.initialized = true) (h : Rest isn r) (hg : g.Fits isn) :
    ∃ q, Outcome isn r g q ∧ Rest isn q ∧ (r.push g.seq g.ts g.data).1.initialized = true ∧
      (r.push g.seq g.ts g.data).1.log = q.log ∧
      (r.push g.seq g.ts g.data).1.nextSeq = q.nextSeq ∧
      ((r.push g.seq g.ts g.data).1.hold = q.hold ∨
        (r.push g.seq g.ts g.data).1.hold.items = [] ∧
          (r.push g.seq g.ts g.data).2.bufferOverflow = true) := by
  have h0 : Rest isn { r with lastActivityNs := max r.lastActivityNs g.ts } :=
    ⟨h.next_lt, h.fits, h.live⟩
  obtain ⟨hout, hrest, hi⟩ := h0.settle_cases hg
  rw [push_eq hinit hg.ne]
  obtain ⟨hbi, hbl, hbn, hbh⟩ := checkBuffer_frame
    (settle { r with lastActivityNs := max r.lastActivityNs g.ts } g).1
    (settle { r with lastActivityNs := max r.lastActivityNs g.ts } g).2
  refine ⟨_, ?_, hrest, hbi.trans (hi.trans hinit), hbl, hbn, hbh⟩
  cases hout with
  | brought r1 hb hlog hnext hhold hd => exact Outcome.brought r1 hb hlog hnext hhold hd
  | quiet hb hs hlog hnext hhold => exact Outcome.quiet hb hs hlog hnext hhold
  | skipped m r1 hb hs hm hlog hnext hhold hd =>
    exact Outcome.skipped m r1 hb hs hm hlog hnext hhold hd

theorem tidy_apply (h : Tidy isn r) (hfit : o.Fits isn) : Tidy isn (o.apply r) := by
  cases o with
  | consume n =>
    obtain ⟨hi, hl, hh, hn⟩ := consume_frame r n
    rw [Tidy, Op.apply, hi, hl, hh]
    rcases h with h | h
    · exact .inl h
    · exact .inr ⟨h.1, h.2.of_hold hn (.inl hh)⟩
  | push g =>
    rw [Op.apply]
    by_cases hne : g.data = []
    · rw [push, if_pos hne]
      exact h
    have hg : g.Fits isn := ⟨hne, hfit⟩
    rcases h with ⟨hi, hl, hh⟩ | ⟨hi, hr⟩
    · obtain ⟨hi', hr', _⟩ := push_new hi hl hh hg
      exact .inr ⟨hi', hr'⟩
    · obtain ⟨q, _, hq, hi', _, hn, hh⟩ := push_started hi hr hg
      exact .inr ⟨hi', hq.of_hold hn (hh.imp_right And.left)⟩

theorem tidy_run (hfit : ∀ o ∈ ops, o.Fits isn) : Tidy isn (run ops) := by
  induction ops using reverseRecOn with
  | nil => exact .inl ⟨rfl, rfl, rfl⟩
  | append_singleton ops o ih =>
    rw [run_snoc]
    exact tidy_apply (ih (fun x hx => hfit x (mem_append_left _ hx)))
      (hfit o (mem_append_right _ (mem_singleton_self o)))

/-! ### Giving up holes ahead only -/

/-- If the operation gives up a hole, the least held key is not behind the next byte. -/
def Forward (r : Reassembler) : Op → Prop
  | .push g => r.initialized = true → g.data ≠ [] → r.skips g = true →
      ∀ m, (r.heldWith g).min? = some m → seqLt m.seq r.nextSeq = false
  | .consume _ => True

/-- Where a hole is given up for the segment `m`, the appends start there and reach the end
of `m`. -/
theorem skipped_spec {g m : Segment}
    (hm : (r.heldWith g).min? = some m) (hlog : r1.log = r.log) (hnext : r1.nextSeq = m.seq)
    (hhold : r1.hold = r.heldWith g) (hd : Drains isn r1 q) (hq : Rest isn q) :
    m ∈ (r.heldWith g).items ∧ pos isn m.seq + m.data.length ≤ pos isn q.nextSeq ∧
      ∃ cs, q.log = r.log ++ cs ∧ Contig isn cs (pos isn m.seq) (pos isn q.nextSeq) ∧
        ∀ c ∈ cs, ∃ s ∈ (r.heldWith g).items, IsTail isn c s := by
  have hmem : m ∈ (r.heldWith g).items := mem_of_mem_head? hm
  have hle := hd.le
  rw [hnext] at hle
  refine ⟨hmem, ?_, ?_⟩
  · by_cases hmq : m ∈ q.hold.items
    · have := hq.live m hmq
      omega
    · exact hd.gone m (hhold ▸ hmem) hmq
  · obtain ⟨cs, hcs, hcont, htail⟩ := hd.log
    rw [hlog] at hcs
    rw [hnext] at hcont
    rw [hhold] at htail
    exact ⟨cs, hcs, hcont, htail⟩

theorem brought_spec (h : Rest isn r) (hg : g.Fits isn) (hb : drainable r.nextSeq g = true)
    (hlog : r1.log = r.log ++ [(r.nextSeq, g.data.drop (pos isn r.nextSeq - pos isn g.seq))])
    (hnext : pos isn r1.nextSeq = pos isn g.seq + g.data.length) (hhold : r1.hold = r.hold)
    (hd : Drains isn r1 q) :
    pos isn r.nextSeq < pos isn q.nextSeq ∧ pos isn g.seq + g.data.length ≤ pos isn q.nextSeq ∧
      ∃ cs, q.log = r.log ++ cs ∧ Contig isn cs (pos isn r.nextSeq) (pos isn q.nextSeq) ∧
        ∀ c ∈ cs, IsTail isn c g ∨ ∃ s ∈ r.hold.items, IsTail isn c s := by
  obtain ⟨hle, hlt⟩ := (hg.drainable_iff h.next_lt).mp hb
  have hdle := hd.le
  obtain ⟨cs, hcs, hcont, htail⟩ := hd.log
  have hlen : (g.data.drop (pos isn r.nextSeq - pos isn g.seq)).length =
      g.data.length - (pos isn r.nextSeq - pos isn g.seq) := length_drop
  refine ⟨by omega, by omega,
    (r.nextSeq, g.data.drop (pos isn r.nextSeq - pos isn g.seq)) :: cs, ?_, ⟨rfl, ?_, ?_⟩,
    fun c hc => ?_⟩
  · rw [hcs, hlog, append_assoc, singleton_append]
  · intro hc
    have hz : (g.data.drop (pos isn r.nextSeq - pos isn g.seq)).length = 0 := by
      rw [show g.data.drop (pos isn r.nextSeq - pos isn g.seq) = [] from hc, length_nil]
    omega
  · have hend : pos isn r.nextSeq + (g.data.drop (pos isn r.nextSeq - pos isn g.seq)).length =
        pos isn r1.nextSeq := by
      rw [hlen, hnext]
      omega
    rw [hend]
    exact hcont
  · rcases mem_cons.mp hc with hc | hc
    · rw [hc]
      exact .inl ⟨hle, rfl⟩
    · rw [hhold] at htail
      exact .inr (htail c hc)

/-- What an operation does to the log. -/
inductive Grows (isn : UInt32) (r : Reassembler) (o : Op) (r' : Reassembler) : Prop
  | same : r'.log = r.log → r'.nextSeq = r.nextSeq → r'.initialized = r.initialized →
      Forward r o → Grows isn r o r'
  | ahead (cs : List (UInt32 × List UInt8)) (a : Nat) : r'.log = r.log ++ cs →
      Contig isn cs a (pos isn r'.nextSeq) → a < pos isn r'.nextSeq →
      pos isn r'.nextSeq < 2 ^ 31 → (r.initialized = true → pos isn r.nextSeq ≤ a) →
      Forward r o → Grows isn r o r'
  | back (cs : List (UInt32 × List UInt8)) (a : Nat) : r'.log = r.log ++ cs →
      Contig isn cs a (pos isn r'.nextSeq) → r.initialized = true → a < pos isn r.nextSeq →
      pos isn r.nextSeq ≤ pos isn r'.nextSeq → pos isn r'.nextSeq < 2 ^ 31 → ¬ Forward r o →
      Grows isn r o r'

/-- **One operation**: the log stays, grows ahead, or, where a hole is given up for a
segment behind the next byte, grows from there. -/
theorem grows_apply (ht : Tidy isn r) (hfit : o.Fits isn) : Grows isn r o (o.apply r) := by
  cases o with
  | consume n =>
    obtain ⟨hi, hl, _, hn⟩ := consume_frame r n
    exact Grows.same hl hn hi trivial
  | push g =>
    rw [Op.apply]
    by_cases hne : g.data = []
    · rw [push, if_pos hne]
      exact Grows.same rfl rfl rfl (fun _ hc => absurd hne hc)
    have hg : g.Fits isn := ⟨hne, hfit⟩
    have hlen := hg.length_pos
    rcases ht with ⟨hi, hl, hh⟩ | ⟨hi, hr⟩
    · have hno : ¬ r.initialized = true := by
        rw [hi]
        exact Bool.false_ne_true
      obtain ⟨_, hr', hlog, hnext, _⟩ := push_new hi hl hh hg
      refine Grows.ahead [(g.seq, g.data)] (pos isn g.seq) ?_ ⟨rfl, hne, hnext.symm⟩ (by omega)
        hr'.next_lt (fun hc => absurd hc hno) (fun hc => absurd hc hno)
      rw [hl, hlog, nil_append]
    obtain ⟨q, hout, hq, hi', hlog, hn, _⟩ := push_started hi hr hg
    have hqlt := hq.next_lt
    rw [← hn] at hqlt
    cases hout with
    | brought r1 hb hlog1 hnext1 hhold1 hd =>
      obtain ⟨hlt, _, cs, hcs, hcont, _⟩ := brought_spec hr hg hb hlog1 hnext1 hhold1 hd
      rw [← hn] at hcont hlt
      refine Grows.ahead cs _ (hlog.trans hcs) hcont hlt hqlt (fun _ => le_rfl) (fun _ _ hsk => ?_)
      rw [(skips_iff.mp hsk).1] at hb
      cases hb
    | quiet _ hsk hlog1 hnext1 _ =>
      refine Grows.same (hlog.trans hlog1) (hn.trans hnext1) (hi'.trans hi.symm) (fun _ _ hc => ?_)
      rw [hsk] at hc
      cases hc
    | skipped m r1 hb hsk hm hlog1 hnext1 hhold1 hd =>
      obtain ⟨hmem, hend, cs, hcs, hcont, _⟩ := skipped_spec hm hlog1 hnext1 hhold1 hd hq
      have hmfit := hr.heldWith_fits hg m hmem
      have hmlen := hmfit.length_pos
      have hback := seqLt_iff hmfit.seq_lt hr.next_lt
      rw [← hn] at hcont hend
      by_cases hlt : pos isn m.seq < pos isn r.nextSeq
      · -- the segment ends at the next byte, so it has been delivered
        have hstale := hr.heldWith_live hg m hmem
        refine Grows.back cs _ (hlog.trans hcs) hcont hi hlt (by omega) hqlt (fun hf => ?_)
        have hfwd := hf hi hne hsk m hm
        rw [hback.mpr hlt] at hfwd
        exact Bool.false_ne_true hfwd.symm
      · refine Grows.ahead cs _ (hlog.trans hcs) hcont (by omega) hqlt (fun _ => by omega)
          (fun _ _ _ m' hm' => ?_)
        rw [hm] at hm'
        rw [← Option.some.inj hm']
        exact Bool.eq_false_iff.mpr (fun hc => hlt (hback.mp hc))

/-- Once started, the log is in order. -/
def Sound (isn : UInt32) (r : Reassembler) : Prop :=
  r.initialized = true → Ordered isn r.log (pos isn r.nextSeq)

section Step

variable {r : Reassembler} (ht : Tidy isn r) {o : Op} (hfit : o.Fits isn)

include ht hfit

theorem log_apply : ∃ cs, (o.apply r).log = r.log ++ cs ∧
    ∀ c ∈ cs, pos isn c.1 + c.2.length < 2 ^ 31 := by
  cases grows_apply ht hfit with
  | same hlog _ _ _ =>
    exact ⟨[], hlog.trans (append_nil _).symm, nofun⟩
  | ahead cs a hlog hcont _ hlt _ _ | back cs a hlog hcont _ _ _ hlt _ =>
    exact ⟨cs, hlog, fun c hc => lt_of_le_of_lt (hcont.bounds c hc).2.2 hlt⟩

theorem Sound.apply (hs : Sound isn r) (hf : Forward r o) : Sound isn (o.apply r) := by
  cases grows_apply ht hfit with
  | same hlog hnext hi _ =>
    rw [Sound, hlog, hnext, hi]
    exact hs
  | ahead cs a hlog hcont hlt _ hle _ =>
    intro _
    rw [hlog]
    rcases ht with ⟨_, hl, _⟩ | ⟨hi, _⟩
    · rw [hl, nil_append]
      exact Ordered.of_contig hcont hlt
    · exact (hs hi).append hcont (hle hi) hlt
  | back _ _ _ _ _ _ _ _ hnf => exact absurd hf hnf

theorem Sound.not_pairwise (hs : Sound isn r) (hf : ¬ Forward r o) :
    ¬ (o.apply r).log.Pairwise (fun c d => pos isn c.1 + c.2.length ≤ pos isn d.1) := by
  cases grows_apply ht hfit with
  | same _ _ _ hfwd | ahead _ _ _ _ _ _ _ hfwd => exact absurd hfwd hf
  | back cs a hlog hcont hi hlt hle _ _ =>
    rw [hlog]
    exact (hs hi).not_append hcont hlt hle

end Step

/-! ### Whole runs -/

theorem bounded_run (hfit : ∀ o ∈ ops, o.Fits isn) :
    ∀ c ∈ (run ops).log, pos isn c.1 + c.2.length < 2 ^ 31 := by
  induction ops using reverseRecOn with
  | nil => exact nofun
  | append_singleton ops o ih =>
    have hfit' : ∀ x ∈ ops, x.Fits isn := fun x hx => hfit x (mem_append_left _ hx)
    obtain ⟨cs, hlog, hcs⟩ := log_apply (tidy_run hfit')
      (hfit o (mem_append_right _ (mem_singleton_self o)))
    intro c hc
    rw [run_snoc, hlog] at hc
    rcases mem_append.mp hc with hc | hc
    · exact ih hfit' c hc
    · exact hcs c hc

theorem log_run_append {ps : List Op} (qs : List Op) : (∀ o ∈ ps ++ qs, o.Fits isn) →
    ∃ cs, (run (ps ++ qs)).log = (run ps).log ++ cs := by
  induction qs using reverseRecOn with
  | nil => exact fun _ => ⟨[], by rw [append_nil, append_nil]⟩
  | append_singleton qs o ih =>
    intro hfit
    rw [← append_assoc] at hfit ⊢
    have hfit' : ∀ x ∈ ps ++ qs, x.Fits isn := fun x hx => hfit x (mem_append_left _ hx)
    obtain ⟨cs, hcs⟩ := ih hfit'
    obtain ⟨ds, hds, _⟩ := log_apply (tidy_run hfit')
      (hfit o (mem_append_right _ (mem_singleton_self o)))
    refine ⟨cs ++ ds, ?_⟩
    rw [run_snoc, hds, hcs, append_assoc]

theorem sound_run (hfit : ∀ o ∈ ops, o.Fits isn)
    (hfwd : ∀ ps o qs, ops = ps ++ o :: qs → Forward (run ps) o) : Sound isn (run ops) := by
  induction ops using reverseRecOn with
  | nil => exact nofun
  | append_singleton ops o ih =>
    have hfit' : ∀ x ∈ ops, x.Fits isn := fun x hx => hfit x (mem_append_left _ hx)
    have hs := ih hfit' (fun ps x qs he => hfwd ps x (qs ++ [o]) (by rw [he]; simp))
    rw [run_snoc]
    exact hs.apply (tidy_run hfit') (hfit o (mem_append_right _ (mem_singleton_self o)))
      (hfwd ops o [] rfl)

/-- The sequence numbers of an append. -/
def seqs (c : UInt32 × List UInt8) : List UInt32 :=
  (List.range c.2.length).map (fun i => c.1 + UInt32.ofNat i)

theorem mem_seqs (hc : pos isn c.1 + c.2.length < 2 ^ 31) {s : UInt32} (hs : s ∈ seqs c) :
    pos isn c.1 ≤ pos isn s ∧ pos isn s < pos isn c.1 + c.2.length := by
  obtain ⟨i, hi, he⟩ := mem_map.mp hs
  have hlt := mem_range.mp hi
  rw [← he, pos_add (by omega)]
  omega

theorem nodup_seqs (hc : pos isn c.1 + c.2.length < 2 ^ 31) : (seqs c).Nodup := by
  refine nodup_range.map_on (fun i hi j hj he => ?_)
  have hi' := mem_range.mp hi
  have hj' := mem_range.mp hj
  have hpos : pos isn (c.1 + UInt32.ofNat i) = pos isn (c.1 + UInt32.ofNat j) := by rw [he]
  rw [pos_add (by omega), pos_add (by omega)] at hpos
  omega

/-- The next byte never goes back, and no sequence number is delivered twice. -/
structure DeliveredOnce (log : List (UInt32 × List UInt8)) : Prop where
  forward : log.Pairwise (fun c d => seqLe (c.1 + UInt32.ofNat c.2.length) d.1 = true)
  nodup : (log.flatMap seqs).Nodup

section Once

variable {log : List (UInt32 × List UInt8)} (hb : ∀ c ∈ log, pos isn c.1 + c.2.length < 2 ^ 31)

include hb

theorem pairwise_pos_iff :
    log.Pairwise (fun c d => seqLe (c.1 + UInt32.ofNat c.2.length) d.1 = true) ↔
      log.Pairwise (fun c d => pos isn c.1 + c.2.length ≤ pos isn d.1) := by
  refine List.Pairwise.iff_of_mem (fun {c d} hc hd => ?_)
  have h1 := hb c hc
  have h2 := hb d hd
  have hend : pos isn (c.1 + UInt32.ofNat c.2.length) = pos isn c.1 + c.2.length :=
    pos_add (by omega)
  have hc' : pos isn (c.1 + UInt32.ofNat c.2.length) < 2 ^ 31 := by omega
  have hd' : pos isn d.1 < 2 ^ 31 := by omega
  rw [seqLe_iff hc' hd', hend]

theorem deliveredOnce_of_pairwise
    (hp : log.Pairwise (fun c d => pos isn c.1 + c.2.length ≤ pos isn d.1)) :
    DeliveredOnce log := by
  refine ⟨(pairwise_pos_iff hb).mpr hp, nodup_flatMap.mpr ⟨fun c hc => nodup_seqs (hb c hc),
    hp.imp_of_mem (fun {c d} hc hd hle => ?_)⟩⟩
  intro s hsc hsd
  have h1 := mem_seqs (hb c hc) hsc
  have h2 := mem_seqs (hb d hd) hsd
  omega

end Once

/-- **When every byte is delivered once**: exactly when no operation gives up a hole for a
held segment behind the next byte. -/
theorem deliveredOnce_iff (isn : UInt32) (ops : List Op) (hfit : ∀ o ∈ ops, o.Fits isn) :
    DeliveredOnce (run ops).log ↔ ∀ ps o qs, ops = ps ++ o :: qs → Forward (run ps) o := by
  have hb := bounded_run hfit
  have hof : ∀ {ps qs}, ops = ps ++ qs → ∀ o ∈ ps, o.Fits isn := by
    intro ps qs he o ho
    exact hfit o (he ▸ mem_append_left _ ho)
  refine ⟨fun h => ?_, fun hfwd => ?_⟩
  · have hp := (pairwise_pos_iff hb).mp h.forward
    -- the first operation that goes back would spoil the log for good
    have hfwd : ∀ ps o qs, ops = ps ++ o :: qs → Sound isn (run ps) → Forward (run ps) o := by
      intro ps o qs he hs
      by_contra hnf
      have he' : ops = (ps ++ [o]) ++ qs := by rw [he, append_assoc, singleton_append]
      have hbad := hs.not_pairwise (tidy_run (hof he))
        (hof he' o (mem_append_right _ (mem_singleton_self o))) hnf
      obtain ⟨cs, hcs⟩ := log_run_append qs (he' ▸ hfit)
      rw [he', hcs] at hp
      rw [← run_snoc] at hbad
      exact hbad (pairwise_append.mp hp).1
    have hsound : ∀ ps qs, ops = ps ++ qs → Sound isn (run ps) := by
      intro ps
      induction ps using reverseRecOn with
      | nil => exact nofun
      | append_singleton ps o ih =>
        intro qs he
        have he' : ops = ps ++ o :: qs := by rw [he, append_assoc, singleton_append]
        rw [run_snoc]
        exact (ih _ he').apply (tidy_run (hof he'))
          (hof he o (mem_append_right _ (mem_singleton_self o)))
          (hfwd ps o qs he' (ih _ he'))
    exact fun ps o qs he => hfwd ps o qs he (hsound ps _ he)
  · refine deliveredOnce_of_pairwise hb ?_
    have hs := sound_run hfit hfwd
    rcases tidy_run hfit with ⟨_, hl, _⟩ | ⟨hi, _⟩
    · rw [hl]
      exact List.Pairwise.nil
    · exact (hs hi).pairwise

/-- A segment past a hole, four times. -/
def skipping : List Op :=
  [.push ⟨100, 1, ascii "abcde"⟩, .push ⟨110, 2, ascii "klmno"⟩, .push ⟨110, 3, ascii "klmno"⟩,
    .push ⟨110, 4, ascii "klmno"⟩, .consume 3, .push ⟨110, 5, ascii "klmno"⟩]

theorem deliveredOnce_iff_skipping :
    (∀ o ∈ skipping, o.Fits 100) ∧ ∀ ps o qs, skipping = ps ++ o :: qs → Forward (run ps) o := by
  have hfit : ∀ o ∈ skipping, o.Fits 100 := by decide
  exact ⟨hfit, (deliveredOnce_iff 100 skipping hfit).mp ⟨by decide, by decide⟩⟩

/-- A held segment that the bytes before it bring too, and then four segments past a
hole. -/
def abutting : List Op :=
  [.push ⟨100, 1, ascii "abcde"⟩, .push ⟨110, 2, ascii "klmno"⟩,
    .push ⟨105, 3, ascii "fghijklmno"⟩, .push ⟨120, 4, ascii "uvwxy"⟩,
    .push ⟨120, 5, ascii "uvwxy"⟩, .push ⟨120, 6, ascii "uvwxy"⟩, .push ⟨120, 7, ascii "uvwxy"⟩]

/-- **The held segment is delivered again**: it ends at the next byte, so it is kept, and
the hole is given up for it. -/
theorem run_abutting :
    (∀ o ∈ abutting, o.Fits 100) ∧
      (run abutting).log = [(100, ascii "abcde"), (105, ascii "fghijklmno"), (110, ascii "klmno")] ∧
      (run abutting).buf = ascii "abcdefghijklmnoklmno" ∧
      ¬ DeliveredOnce (run abutting).log := by
  have hlog : (run abutting).log = [(100, ascii "abcde"), (105, ascii "fghijklmno"),
      (110, ascii "klmno")] := by decide
  refine ⟨by decide, hlog, by decide, fun h => ?_⟩
  have hnd := h.nodup
  rw [hlog] at hnd
  exact absurd hnd (by decide)

end MatchBench.Capture
