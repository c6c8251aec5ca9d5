import MatchBench.Capture.Packing

/-!
# The buffer and the log

The log of a reassembler lists what was appended to its buffer.  As long as the buffer is
not thrown away, the buffered bytes are those of the log from the front on, and the marks
give each byte the sequence number that it was appended with (`Laid`).

Everything that a push does to the buffer it does by appending (`Appends`), so this holds
between segments whatever their order, the holes that are given up included.
-/

namespace MatchBench.Capture

open List

/-! ### Bytes and sequence numbers of the log -/

def logBytes (log : List (UInt32 × List UInt8)) : List UInt8 := log.flatMap Prod.snd

def logSeqs (log : List (UInt32 × List UInt8)) : List UInt32 := log.flatMap seqs

theorem logBytes_append (a b : List (UInt32 × List UInt8)) :
    logBytes (a ++ b) = logBytes a ++ logBytes b := flatMap_append

theorem logSeqs_append (a b : List (UInt32 × List UInt8)) :
    logSeqs (a ++ b) = logSeqs a ++ logSeqs b := flatMap_append

theorem length_logSeqs (log : List (UInt32 × List UInt8)) :
    (logSeqs log).length = (logBytes log).length := by
  induction log with
  | nil => rfl
  | cons c log ih =>
    rw [logSeqs, logBytes, flatMap_cons, flatMap_cons, length_append,
      length_append, ← logSeqs, ← logBytes, ih, seqs, length_map, length_range]

namespace Reassembler

/-- **The buffer is the log from the front on**, and the marks tell the sequence numbers. -/
structure Laid (r : Reassembler) (f : Nat → Mark) : Prop where
  marked : r.Marked f
  total : (logBytes r.log).length = r.deliveredAbs
  bytes : r.buf = (logBytes r.log).drop r.frontAbs
  seq : ∀ x, r.frontAbs ≤ x → x < r.deliveredAbs →
    (logSeqs r.log)[x]? = some ((f x).seq + UInt32.ofNat (x - (f x).start))

variable {r r' : Reassembler} {f : Nat → Mark}

theorem laid_new (f : Nat → Mark) : Laid new f :=
  ⟨marked_new f, rfl, rfl, nofun⟩

theorem Laid.congr (h : Laid r f) (hl : r'.log = r.log) (hm : r'.marks = r.marks)
    (hf : r'.frontAbs = r.frontAbs) (hb : r'.buf = r.buf) : Laid r' f := by
  have hd : r'.deliveredAbs = r.deliveredAbs := by rw [deliveredAbs, deliveredAbs, hf, hb]
  refine ⟨h.marked.congr hm hf hb, ?_, ?_, ?_⟩
  · rw [hl, hd]
    exact h.total
  · rw [hl, hb, hf]
    exact h.bytes
  · rw [hl, hd, hf]
    exact h.seq

theorem Laid.consume (h : Laid r f) {n : Nat} (hn : n ≤ r.buf.length) : Laid (r.consume n) f := by
  obtain ⟨hfront, hdel⟩ := consume_frontAbs hn
  have hlog := (consume_frame r n).2.1
  refine ⟨h.marked.consume hn, ?_, ?_, fun x hx hlt => ?_⟩
  · rw [hlog, hdel]
    exact h.total
  · rw [hlog, hfront, consume_buf, h.bytes, drop_drop]
  rw [hfront] at hx
  rw [hdel] at hlt
  rw [hlog]
  exact h.seq x (by omega) hlt

variable {data : List UInt8}

theorem Laid.appendContiguous (h : Laid r f) (ts : UInt64) (hne : data ≠ []) :
    Laid (r.appendContiguous ts data) (addMark f ⟨r.deliveredAbs, ts, r.nextSeq⟩) := by
  have hmarked := h.marked.appendContiguous ts hne
  have htotal := h.total
  have hsingle : logBytes [(r.nextSeq, data)] = data := append_nil data
  have hseqs : logSeqs [(r.nextSeq, data)] = seqs (r.nextSeq, data) := append_nil _
  rw [appendContiguous_eq r ts hne] at hmarked ⊢
  have hdel : ∀ m s, deliveredAbs { r with
      marks := m, buf := r.buf ++ data, nextSeq := s, log := r.log ++ [(r.nextSeq, data)] } =
      r.deliveredAbs + data.length := by
    intro m s
    rw [deliveredAbs, deliveredAbs, length_append, add_assoc]
  refine ⟨hmarked, ?_, ?_, fun x hx hlt => ?_⟩
  · rw [hdel, logBytes_append, length_append, hsingle, htotal]
  · show r.buf ++ data = (logBytes (r.log ++ [(r.nextSeq, data)])).drop r.frontAbs
    have hle : r.frontAbs ≤ (logBytes r.log).length := by
      rw [htotal, deliveredAbs]
      omega
    rw [logBytes_append, hsingle, drop_append_of_le_length hle, ← h.bytes]
  rw [hdel] at hlt
  show (logSeqs (r.log ++ [(r.nextSeq, data)]))[x]? = _
  rw [logSeqs_append, hseqs, addMark]
  have hlen : (logSeqs r.log).length = r.deliveredAbs := by rw [length_logSeqs, htotal]
  by_cases hold : x < r.deliveredAbs
  · rw [if_pos hold, getElem?_append_left (by omega)]
    exact h.seq x hx hold
  · rw [if_neg hold, getElem?_append_right (by omega), hlen, seqs, getElem?_map,
      getElem?_range (by dsimp only; omega)]
    rfl

/-! ### Appending -/

/-- The second state has the first one's front, and more in its log and buffer. -/
structure Appends (r r' : Reassembler) : Prop where
  front : r'.frontAbs = r.frontAbs
  log : ∃ cs, r'.log = r.log ++ cs
  laid : ∀ {f}, Laid r f → ∃ f', Laid r' f'

theorem Appends.of_eq (hl : r'.log = r.log) (hm : r'.marks = r.marks)
    (hf : r'.frontAbs = r.frontAbs) (hb : r'.buf = r.buf) : Appends r r' :=
  ⟨hf, ⟨[], by rw [hl, append_nil]⟩, fun h => ⟨_, h.congr hl hm hf hb⟩⟩

theorem Appends.trans {r₁ r₂ r₃ : Reassembler} (h₁ : Appends r₁ r₂) (h₂ : Appends r₂ r₃) :
    Appends r₁ r₃ := by
  obtain ⟨cs, hcs⟩ := h₁.log
  obtain ⟨ds, hds⟩ := h₂.log
  refine ⟨h₂.front.trans h₁.front, ⟨cs ++ ds, ?_⟩, fun h => ?_⟩
  · rw [hds, hcs, append_assoc]
  · obtain ⟨_, h'⟩ := h₁.laid h
    exact h₂.laid h'

variable (r : Reassembler)

theorem appends_appendContiguous (ts : UInt64) (data : List UInt8) :
    Appends r (r.appendContiguous ts data) := by
  by_cases hne : data = []
  · rw [appendContiguous, if_pos hne]
    exact .of_eq rfl rfl rfl rfl
  · refine ⟨?_, ⟨[(r.nextSeq, data)], ?_⟩, fun h => ⟨_, h.appendContiguous ts hne⟩⟩ <;>
      rw [appendContiguous_eq r ts hne]

theorem appends_drainLoop : ∀ (fuel : Nat) (r : Reassembler), Appends r (drainLoop fuel r) := by
  intro fuel
  induction fuel with
  | zero => exact fun r => .of_eq rfl rfl rfl rfl
  | succ fuel ih =>
    intro r
    rw [drainLoop]
    cases r.hold.items.find? (drainable r.nextSeq) with
    | none => exact .of_eq rfl rfl rfl rfl
    | some s =>
      have herase : Appends r { r with hold := r.hold.erase s.seq } := .of_eq rfl rfl rfl rfl
      exact (herase.trans (appends_appendContiguous _ _ _)).trans (ih _)

theorem appends_drainHold : Appends r r.drainHold :=
  (appends_drainLoop _ r).trans (.of_eq rfl rfl rfl rfl)

theorem appends_skipGap : Appends r r.skipGap.1 := by
  rw [skipGap]
  cases r.hold.min? with
  | none => exact .of_eq rfl rfl rfl rfl
  | some s =>
    have hjump : Appends r { r with nextSeq := s.seq, stalledPushes := 0 } := .of_eq rfl rfl rfl rfl
    exact hjump.trans (appends_drainHold _)

theorem appends_place (seq : UInt32) (ts : UInt64) (data : List UInt8) :
    Appends r (r.place seq ts data).1 := by
  rw [place]
  dsimp only
  split
  · exact (appends_appendContiguous r ts data).trans (appends_drainHold _)
  split
  · split
    · exact .of_eq rfl rfl rfl rfl
    · exact (appends_appendContiguous r ts _).trans (appends_drainHold _)
  have hinsert : Appends r { r with hold := r.hold.insert ⟨seq, ts, data⟩ } :=
    .of_eq rfl rfl rfl rfl
  split
  · exact hinsert.trans (appends_skipGap _)
  · exact hinsert

theorem appends_checkProgress (seqBefore : UInt32) (stats : PushStats) :
    Appends r (r.checkProgress seqBefore stats).1 := by
  rw [checkProgress]
  split
  · have hstall : Appends r { r with stalledPushes := r.stalledPushes + 1 } :=
      .of_eq rfl rfl rfl rfl
    dsimp only
    split
    · exact hstall.trans (appends_skipGap _)
    · exact hstall
  · exact .of_eq rfl rfl rfl rfl

/-- **A push appends**, unless the buffer is thrown away. -/
theorem appends_push {r : Reassembler} {seq : UInt32} {ts : UInt64}
    (hroom : (r.push seq ts data).2.bufferOverflow = false) :
    Appends r (r.push seq ts data).1 := by
  rw [push] at hroom ⊢
  by_cases hne : data = []
  · rw [if_pos hne]
    exact .of_eq rfl rfl rfl rfl
  rw [if_neg hne] at hroom ⊢
  dsimp only at hroom ⊢
  by_cases hi : (!r.initialized) = true
  · rw [if_pos hi]
    have hstart : Appends r { r with
        lastActivityNs := max r.lastActivityNs ts, initialized := true, nextSeq := seq } :=
      .of_eq rfl rfl rfl rfl
    exact (hstart.trans (appends_appendContiguous _ _ _)).trans (appends_drainHold _)
  rw [if_neg hi] at hroom ⊢
  have hactive : Appends r { r with lastActivityNs := max r.lastActivityNs ts } :=
    .of_eq rfl rfl rfl rfl
  have hsettled := (hactive.trans (appends_place _ seq ts data)).trans
    (appends_checkProgress _ r.nextSeq
      (place { r with lastActivityNs := max r.lastActivityNs ts } seq ts data).2)
  rw [checkBuffer] at hroom ⊢
  split at hroom
  · cases hroom
  next hsmall =>
    rw [if_neg hsmall]
    exact hsettled

end Reassembler

/-! ### The framing loop leaves the rest alone -/

section

variable {mm : Finder UInt8} {transport : Transport} {direction : Direction}

theorem frameLoop_keeps {P : Reassembler → Prop}
    (hstep : ∀ (r : Reassembler) {n : Nat}, n ≤ r.buf.length → P r → P (r.consume n)) :
    ∀ (fuel : Nat) {re re' : Reassembler} {fs : List Framed},
    frameLoop mm transport direction fuel re = some (re', fs) → P re → P re' := by
  have hconsume : ∀ (r : Reassembler) (n : Nat), P r → P (r.consume n) := by
    intro r n hr
    rw [Reassembler.consume_min]
    exact hstep r (Nat.min_le_right _ _) hr
  intro fuel
  induction fuel with
  | zero => exact fun h => absurd h (by simp [frameLoop])
  | succ fuel ih =>
    intro re re' fs h hre
    rw [frameLoop] at h
    cases hf : frame mm transport direction re.available with
    | message n =>
      rw [hf] at h
      obtain ⟨x, hx, he⟩ := Option.map_eq_some_iff.mp h
      rw [← (Prod.mk.inj he).1]
      exact ih hx (hconsume re n hre)
    | incomplete =>
      rw [hf] at h
      rw [← (Prod.mk.inj (Option.some.inj h)).1]
      exact hre
    | resync skip =>
      rw [hf] at h
      obtain ⟨x, hx, he⟩ := Option.map_eq_some_iff.mp h
      rw [← (Prod.mk.inj he).1]
      exact ih hx (hconsume re _ hre)

variable {fuel : Nat} {re re' : Reassembler} {fs : List Framed}

theorem frameLoop_tip
    (h : frameLoop mm transport direction fuel re = some (re', fs)) : re'.tip = re.tip :=
  frameLoop_keeps (P := fun r => r.tip = re.tip)
    (fun _ _ hn hr => (Reassembler.tip_consume hn).trans hr) fuel h rfl

theorem frameLoop_laid {f : Nat → Mark}
    (h : frameLoop mm transport direction fuel re = some (re', fs)) (hl : re.Laid f) : re'.Laid f :=
  frameLoop_keeps (P := fun r => r.Laid f) (fun _ _ hn hr => hr.consume hn) fuel h hl

end

end MatchBench.Capture
