import MatchBench.Capture.Lay

/-!
# A stream in segments

`replayTransport` is the one of `src/framing_property.rs`: the segments of a stream are pushed
in their order, and after each the framing loop runs.  What it yields are the messages as
bytes.

Between two segments the buffer has the bytes of the message that is not complete yet
(`Arriving`), and the next segment is appended before anything is framed.  When that makes the
buffer longer than `maxBuffered`, all of it is thrown away; the first segment alone is not
measured.  `Fitting` says of a division that this never happens.  Then every message is taken,
whole and in order, and nothing is left (`replay_of_fitting`).  When it does happen bytes
are lost, so something is missing in the end (`fitting_of_replay`).
-/

namespace MatchBench.Capture

open List
open Reassembler

/-! ### Definitions -/

/-- The segments of a stream, from a sequence number on. -/
def segment : UInt32 → List (UInt64 × List UInt8) → List Segment
  | _, [] => []
  | seq, (ts, data) :: segs => ⟨seq, ts, data⟩ :: segment (seq + UInt32.ofNat data.length) segs

section

variable (mm : Finder UInt8) (transport : Transport) (direction : Direction)

/-- Each segment is pushed, and then the framing loop runs. -/
def replayTransport : Reassembler → List Segment → Option (Reassembler × List Cut)
  | re, [] => some (re, [])
  | re, g :: gs =>
      let re := (re.push g.seq g.ts g.data).1
      match cutLoop mm transport direction (re.available.length + 1) re with
      | none => none
      | some (re, cs) => (replayTransport re gs).map (fun x => (x.1, cs ++ x.2))

/-- **The messages are framed**: these, in order, and no byte is left. -/
def Recovers (isn : UInt32) (segs : List (UInt64 × List UInt8)) (messages : List (List UInt8)) :
    Prop :=
  ∃ re cs, replayTransport mm transport direction Reassembler.new (segment isn segs) =
    some (re, cs) ∧ cs.map Cut.bytes = messages ∧ re.buf = []

end

/-- How many of `n` bytes belong to a message that is not complete, for messages of the given
lengths. -/
def unfinished : List Nat → Nat → Nat
  | [], n => n
  | l :: ls, n => if n < l then n else unfinished ls (n - l)

/-- No segment makes the buffer too long, when `kept n` bytes are buffered after `n` bytes of the
stream. -/
def Fitting (kept : Nat → Nat) : Nat → List (UInt64 × List UInt8) → Prop
  | _, [] => True
  | n, (_, data) :: segs =>
      (data = [] ∨ n = 0 ∨ kept n + data.length ≤ maxBuffered) ∧ Fitting kept (n + data.length) segs

instance (kept : Nat → Nat) : ∀ n segs, Decidable (Fitting kept n segs)
  | _, [] => inferInstanceAs (Decidable True)
  | n, (_, data) :: segs =>
    have := instDecidableFitting kept (n + data.length) segs
    inferInstanceAs (Decidable (_ ∧ _))

theorem unfinished_append (ls rs : List Nat) (b : Nat) :
    unfinished (ls ++ rs) (ls.sum + b) = unfinished rs b := by
  induction ls with
  | nil => rw [nil_append, sum_nil, zero_add]
  | cons l ls ih =>
    rw [cons_append, sum_cons, unfinished, if_neg (by omega), ← ih]
    congr 1
    omega

/-! ### No byte comes twice -/

variable {mm : Finder UInt8} {transport : Transport} {direction : Direction}

/-- The bytes of some messages. -/
def cutLength (cs : List Cut) : Nat := (cs.map (fun c => c.bytes.length)).sum

theorem cutLength_append (cs ds : List Cut) : cutLength (cs ++ ds) = cutLength cs + cutLength ds := by
  rw [cutLength, map_append, sum_append, cutLength, cutLength]

variable {cs : List Cut} {isn : UInt32} {messages : List (List UInt8)} {fuel : Nat}
  {re re' : Reassembler} {seq : UInt32}

theorem cutLength_eq (h : cs.map Cut.bytes = messages) :
    cutLength cs = messages.flatten.length := by
  rw [cutLength, ← h, length_flatten, map_map]
  rfl

theorem cutLoop_tip
    (h : cutLoop mm transport direction fuel re = some (re', cs)) : re'.tip = re.tip := by
  obtain ⟨fs, hloop, -⟩ := frameLoop_of_cutLoop h
  exact frameLoop_tip hloop

/-- The loop takes no more bytes than there are, and leaves an incomplete message. -/
theorem cutLoop_leaves : ∀ {fuel : Nat} {re re' : Reassembler} {cs : List Cut},
    cutLoop mm transport direction fuel re = some (re', cs) →
      cutLength cs + re'.buf.length ≤ re.buf.length ∧
        frame mm transport direction re'.buf = .incomplete := by
  intro fuel
  induction fuel with
  | zero => exact fun h => absurd h (by simp [cutLoop])
  | succ fuel ih =>
    intro re re' cs h
    rw [cutLoop] at h
    cases hf : frame mm transport direction re.available with
    | message n =>
      rw [hf] at h
      obtain ⟨⟨re₁, cs₁⟩, hx, he⟩ := Option.map_eq_some_iff.mp h
      obtain ⟨rfl, rfl⟩ := Prod.mk.inj he
      obtain ⟨hrest, hwaits⟩ := ih hx
      have hhead : (re.available.take n).length = min n re.buf.length := length_take
      rw [consume_buf, length_drop] at hrest
      rw [cutLength, map_cons, sum_cons, ← cutLength, hhead]
      dsimp only at hrest ⊢
      exact ⟨by omega, hwaits⟩
    | incomplete =>
      rw [hf] at h
      obtain ⟨rfl, rfl⟩ := Prod.mk.inj (Option.some.inj h)
      exact ⟨(zero_add _).le, hf⟩
    | resync skip =>
      rw [hf] at h
      obtain ⟨hrest, hwaits⟩ := ih h
      rw [consume_buf, length_drop] at hrest
      exact ⟨by omega, hwaits⟩

theorem replay_cons {re re₂ : Reassembler} {g : Segment} {gs : List Segment}
    (h : replayTransport mm transport direction re (g :: gs) = some (re₂, cs)) :
    ∃ re₁ cs₁ cs₂, cutLoop mm transport direction
        ((re.push g.seq g.ts g.data).1.buf.length + 1) (re.push g.seq g.ts g.data).1 =
          some (re₁, cs₁) ∧
      replayTransport mm transport direction re₁ gs = some (re₂, cs₂) ∧ cs = cs₁ ++ cs₂ := by
  rw [replayTransport, Reassembler.available] at h
  cases hloop : cutLoop mm transport direction
      ((re.push g.seq g.ts g.data).1.buf.length + 1) (re.push g.seq g.ts g.data).1 with
  | none =>
    rw [hloop] at h
    exact absurd h (by simp)
  | some x =>
    rw [hloop] at h
    obtain ⟨y, hy, he⟩ := Option.map_eq_some_iff.mp h
    obtain ⟨h₁, h₂⟩ := Prod.mk.inj he
    exact ⟨x.1, x.2, y.2, rfl, by rw [hy, ← h₁], h₂.symm⟩

theorem InOrder.cutLoop (h : InOrder re seq)
    (hcut : Capture.cutLoop mm transport direction fuel re = some (re', cs)) :
    InOrder re' seq := by
  have htip := cutLoop_tip hcut
  simp only [tip, Prod.mk.injEq] at htip
  obtain ⟨hi, -, hhold, hnext, -⟩ := htip
  exact ⟨hhold ▸ h.hold, fun hi' => hnext.trans (h.next (hi ▸ hi'))⟩

theorem push_nil (re : Reassembler) (seq : UInt32) (ts : UInt64) : re.push seq ts [] = (re, {}) := by
  rw [Reassembler.push, if_pos rfl]

theorem InOrder.length_push (h : InOrder re seq) (ts : UInt64)
    (data : List UInt8) : InOrder (re.push seq ts data).1 (seq + UInt32.ofNat data.length) ∧
      (re.push seq ts data).1.buf.length ≤ re.buf.length + data.length := by
  by_cases hne : data = []
  · rw [hne, push_nil]
    refine ⟨?_, le_rfl⟩
    rw [length_nil, show UInt32.ofNat 0 = 0 from rfl, UInt32.add_zero]
    exact h
  · refine ⟨h.push_inOrder ts hne, ?_⟩
    rw [h.push_eq ts hne]
    split
    · exact Nat.zero_le _
    · exact (length_append ..).le

/-- **Nothing is made up**: what is framed, and what is left, is not more than what came in. -/
theorem replay_length : ∀ {segs : List (UInt64 × List UInt8)} {seq : UInt32}
    {re re' : Reassembler} {cs : List Cut}, InOrder re seq →
    replayTransport mm transport direction re (segment seq segs) = some (re', cs) →
      cutLength cs + re'.buf.length ≤ re.buf.length + (segmentBytes segs).length := by
  intro segs
  induction segs with
  | nil =>
    intro seq re re' cs _ h
    obtain ⟨rfl, rfl⟩ := Prod.mk.inj (Option.some.inj h)
    exact (zero_add _).le
  | cons s segs ih =>
    intro seq re re' cs hin h
    obtain ⟨re₁, cs₁, cs₂, hcut, hrest, rfl⟩ := replay_cons h
    obtain ⟨hin₁, hlen⟩ := hin.length_push s.1 s.2
    have h₁ := (cutLoop_leaves hcut).1
    have h₂ := ih (hin₁.cutLoop hcut) hrest
    have hbytes : (segmentBytes (s :: segs)).length = s.2.length + (segmentBytes segs).length := by
      rw [segmentBytes, flatMap_cons, length_append, segmentBytes]
    rw [cutLength_append, hbytes]
    dsimp only at h₁
    omega

/-! ### Between two segments -/

theorem Remain.trans {ps qs rs : List Parcel} (h : Remain ps qs) (h' : Remain qs rs) :
    Remain ps rs := by
  induction h with
  | refl => exact h'
  | skip n _ ih => exact .skip n (ih h')
  | take _ ih => exact .take (ih h')

theorem map_snd_placed (x : Nat) (ps : List Parcel) :
    (placed x ps).map Prod.snd = ps.map Parcel.message := by
  induction ps generalizing x with
  | nil => rfl
  | cons p ps ih => rw [placed, map_cons, map_cons, ih]

/-- The state once `n` bytes of the stream of `parcels` are in; `tail` has the others.  The
messages `done` are framed, and the parcels `ps` remain. -/
structure Arriving (mm : Finder UInt8) (transport : Transport) (direction : Direction) (isn : UInt32)
    (parcels : List Parcel) (n : Nat) (tail : List UInt8) (re : Reassembler) (f : Nat → Mark)
    (done : List (List UInt8)) (ps : List Parcel) : Prop where
  inOrder : InOrder re (isn + UInt32.ofNat n)
  started : re.initialized = true ↔ n ≠ 0
  delivered : re.deliveredAbs = n
  fed : Fed mm transport direction f tail re ps []
  spent : Spent re ps
  waits : frame mm transport direction re.buf = .incomplete
  remain : Remain parcels ps
  done : parcels.map Parcel.message = done ++ ps.map Parcel.message
  total : n + tail.length = (stream parcels []).length

section

variable {isn : UInt32} {parcels : List Parcel} {n : Nat} {data tail : List UInt8}
  {re : Reassembler} {f : Nat → Mark} {done : List (List UInt8)} {ps : List Parcel}

theorem arriving_new (isn : UInt32) (hgood : ∀ p ∈ parcels, p.Good mm transport direction) :
    Arriving mm transport direction isn parcels 0 (stream parcels []) Reassembler.new
      (fun _ => ⟨0, 0, 0⟩) [] parcels where
  inOrder := ⟨rfl, nofun⟩
  started := iff_of_false Bool.false_ne_true fun h => h rfl
  delivered := rfl
  fed := ⟨rfl, hgood, .inl rfl, marked_new _⟩
  spent := by
    intro p hp
    have := (hgood p (mem_of_mem_head? hp)).whole.length_pos
    exact lt_of_lt_of_le this (Nat.le_add_left _ _)
  waits := frame_nil
  remain := .refl parcels
  done := rfl
  total := zero_add _

/-- **One more segment**, when the buffer has room for it. -/
theorem Arriving.push (h : Arriving mm transport direction isn parcels n (data ++ tail) re f done ps)
    (ts : UInt64) (hroom : data = [] ∨ n = 0 ∨ re.buf.length + data.length ≤ maxBuffered) :
    ∃ re' cs f' ps', cutLoop mm transport direction
        ((re.push (isn + UInt32.ofNat n) ts data).1.buf.length + 1)
        (re.push (isn + UInt32.ofNat n) ts data).1 = some (re', cs) ∧
      Arriving mm transport direction isn parcels (n + data.length) tail re' f'
        (done ++ cs.map Cut.bytes) ps' := by
  by_cases hne : data = []
  · -- nothing comes in, and the framer waits as before
    subst hne
    refine ⟨re, [], f, ps, ?_, ?_⟩
    · rw [push_nil]
      exact cutLoop_of_incomplete _ h.waits
    · rw [map_nil, append_nil]
      exact h
  have hfits : (re.push (isn + UInt32.ofNat n) ts data).2.bufferOverflow = false := by
    rw [← Bool.not_eq_true, h.inOrder.bufferOverflow_iff ts hne, h.started]
    rintro ⟨hn, hbig⟩
    rcases hroom with hd | hz | hr
    · exact hne hd
    · exact hn hz
    · omega
  obtain ⟨-, -, hfront, hbuf⟩ := h.inOrder.push ts hne h.fed.marked hfits
  obtain ⟨re', cs, ps', rest', hcut, hin, hc, hrem, hsuf⟩ := h.inOrder.takes ts hne h.fed hfits
  obtain rfl := suffix_nil.mp hsuf
  have hinit : (re.push (isn + UInt32.ofNat n) ts data).1.initialized = true := by
    rw [h.inOrder.push_eq ts hne]
    split <;> rfl
  generalize re.push (isn + UInt32.ofNat n) ts data = pushed at hfront hbuf hcut hc hinit
  obtain ⟨cut, hdone, hcs, -⟩ := hc.cuts
  have htip := hc.tip
  simp only [tip, Prod.mk.injEq] at htip
  obtain ⟨hi, -, -, -, hdel, -⟩ := htip
  have hpos := length_pos_iff.mpr hne
  refine ⟨re', cs, _, ps', hcut, ?_, ?_, ?_, hc.fed, hc.spent, (cutLoop_leaves hcut).2,
    h.remain.trans hrem, ?_, ?_⟩
  · rw [UInt32.ofNat_add, ← UInt32.add_assoc]
    exact hin
  · exact iff_of_true (hi.trans hinit) (by omega)
  · have hd := h.delivered
    rw [deliveredAbs] at hd
    rw [hdel, deliveredAbs, hfront, hbuf, length_append]
    omega
  · have hmsgs := congrArg (List.map Prod.snd) hdone
    rw [map_append, map_snd_placed, map_snd_placed] at hmsgs
    have hbytes : cs.map Cut.bytes = cut.map Prod.snd := by
      rw [hcs, map_map]
      rfl
    rw [h.done, hmsgs, hbytes, append_assoc]
  · have := h.total
    rw [length_append] at this
    omega

theorem Arriving.finish (h : Arriving mm transport direction isn parcels n [] re f done ps) :
    done = parcels.map Parcel.message ∧ re.buf = [] := by
  have hb := h.fed.bytes
  rw [append_nil] at hb
  cases ps with
  | nil =>
    have hdone := h.done
    rw [map_nil, append_nil] at hdone
    exact ⟨hdone.symm, hb⟩
  | cons p ps =>
    have hlt := h.spent p rfl
    rw [hb, stream_cons, length_append, length_append] at hlt
    omega

theorem Arriving.length_buf (h : Arriving mm transport direction isn parcels n tail re f done ps) :
    re.buf.length + tail.length = (stream ps []).length := by
  rw [← length_append, h.fed.bytes]

theorem segmentBytes_cons (s : UInt64 × List UInt8) (segs : List (UInt64 × List UInt8)) :
    segmentBytes (s :: segs) = s.2 ++ segmentBytes segs := flatMap_cons

end

/-! ### Every division -/

section

variable {isn : UInt32} {parcels : List Parcel} {kept : Nat → Nat}

/-- **With room for every segment all messages are framed.** -/
theorem replay_of_fitting
    (hkept : ∀ {n tail re f done ps},
      Arriving mm transport direction isn parcels n tail re f done ps → re.buf.length ≤ kept n) :
    ∀ {segs : List (UInt64 × List UInt8)} {n : Nat} {re : Reassembler} {f : Nat → Mark}
      {done : List (List UInt8)} {ps : List Parcel},
      Arriving mm transport direction isn parcels n (segmentBytes segs) re f done ps →
      Fitting kept n segs →
      ∃ re' cs, replayTransport mm transport direction re (segment (isn + UInt32.ofNat n) segs) =
          some (re', cs) ∧
        done ++ cs.map Cut.bytes = parcels.map Parcel.message ∧ re'.buf = [] := by
  intro segs
  induction segs with
  | nil =>
    intro n re f done ps h _
    obtain ⟨hdone, hbuf⟩ := h.finish
    exact ⟨re, [], rfl, by rw [map_nil, append_nil, hdone], hbuf⟩
  | cons s segs ih =>
    obtain ⟨ts, data⟩ := s
    intro n re f done ps h hr
    rw [segmentBytes_cons] at h
    have hroom : data = [] ∨ n = 0 ∨ re.buf.length + data.length ≤ maxBuffered :=
      hr.1.imp_right (Or.imp_right fun hle => (Nat.add_le_add_right (hkept h) _).trans hle)
    obtain ⟨re₁, cs₁, f₁, ps₁, hcut, h₁⟩ := h.push ts hroom
    obtain ⟨re₂, cs₂, hrest, hdone, hbuf⟩ := ih h₁ hr.2
    refine ⟨re₂, cs₁ ++ cs₂, ?_, by rw [map_append, ← append_assoc, hdone], hbuf⟩
    rw [UInt32.ofNat_add, ← UInt32.add_assoc] at hrest
    rw [segment, replayTransport, Reassembler.available]
    rw [hcut]
    dsimp only
    rw [hrest]
    rfl

/-- **Without it bytes are lost.** -/
theorem fitting_of_replay
    (hkept : ∀ {n tail re f done ps},
      Arriving mm transport direction isn parcels n tail re f done ps → kept n ≤ re.buf.length) :
    ∀ {segs : List (UInt64 × List UInt8)} {n : Nat} {re re' : Reassembler} {f : Nat → Mark}
      {done : List (List UInt8)} {ps : List Parcel} {cs : List Cut},
      Arriving mm transport direction isn parcels n (segmentBytes segs) re f done ps →
      replayTransport mm transport direction re (segment (isn + UInt32.ofNat n) segs) =
        some (re', cs) →
      re.buf.length + (segmentBytes segs).length ≤ cutLength cs + re'.buf.length →
      Fitting kept n segs := by
  intro segs
  induction segs with
  | nil => exact fun _ _ _ => trivial
  | cons s segs ih =>
    obtain ⟨ts, data⟩ := s
    intro n re re' f done ps cs h hrun hall
    rw [segment] at hrun
    obtain ⟨re₁, cs₁, cs₂, hcut, hrest, rfl⟩ := replay_cons hrun
    rw [segmentBytes_cons] at h
    rw [segmentBytes_cons, length_append, cutLength_append] at hall
    dsimp only at hcut hall
    have hin₁ := (h.inOrder.length_push ts data).1
    have htake := (cutLoop_leaves hcut).1
    have hmore := replay_length (hin₁.cutLoop hcut) hrest
    have hroom : data = [] ∨ n = 0 ∨ re.buf.length + data.length ≤ maxBuffered := by
      by_contra hc
      rw [not_or, not_or, not_le] at hc
      obtain ⟨hne, hn, hbig⟩ := hc
      have hpos := length_pos_iff.mpr hne
      -- the buffer is empty after the push
      rw [h.inOrder.push_eq ts hne, if_pos ⟨h.started.mpr hn, hbig⟩] at htake
      have hnil : (re.extended (isn + UInt32.ofNat n) ts data).resetBuffer.buf.length = 0 := rfl
      rw [hnil] at htake
      omega
    obtain ⟨re₂, cs₂', f₁, ps₁, hcut', h₁⟩ := h.push ts hroom
    obtain ⟨rfl, rfl⟩ := Prod.mk.inj (Option.some.inj (hcut.symm.trans hcut'))
    refine ⟨hroom.imp_right (Or.imp_right fun hle =>
      (Nat.add_le_add_right (hkept h) _).trans hle), ?_⟩
    have hlen := (h.inOrder.length_push ts data).2
    rw [UInt32.add_assoc, ← UInt32.ofNat_add] at hrest
    exact ih h₁ hrest (by omega)

end

/-! ### Messages with nothing between them -/

theorem length_stream_of_clean {ps : List Parcel} (h : ∀ p ∈ ps, p.junk = []) :
    (stream ps []).length = ((ps.map Parcel.message).map List.length).sum := by
  induction ps with
  | nil => rfl
  | cons p ps ih =>
    rw [stream_cons, h p (.head _), nil_append, length_append,
      ih fun q hq => h q (.tail _ hq), map_cons, map_cons, sum_cons]

theorem Arriving.kept {parcels ps : List Parcel} {n g : Nat} {tail : List UInt8}
    {f : Nat → Mark} {done : List (List UInt8)}
    (h : Arriving mm transport direction isn parcels n tail re f done ps)
    (hclean : ∀ p ∈ ps, p.junk = [])
    (hg : (stream parcels []).length = g + ((parcels.map Parcel.message).map List.length).sum) :
    n = g + (done.map List.length).sum + re.buf.length ∧
      unfinished ((parcels.map Parcel.message).map List.length) (n - g) = re.buf.length := by
  have hn : n = g + (done.map List.length).sum + re.buf.length := by
    have htotal := h.total
    have hbuf := h.length_buf
    rw [length_stream_of_clean hclean] at hbuf
    rw [hg, h.done, map_append, sum_append] at htotal
    omega
  refine ⟨hn, ?_⟩
  rw [h.done, map_append, show n - g = (done.map List.length).sum + re.buf.length by omega,
    unfinished_append]
  cases ps with
  | nil => rfl
  | cons p ps =>
    have hlt := h.spent p rfl
    rw [hclean p (.head _), length_nil, zero_add] at hlt
    rw [map_cons, map_cons, unfinished, if_pos hlt]

theorem Remain.clean {ps qs : List Parcel} (h : Remain ps qs) (hclean : ∀ p ∈ ps, p.junk = []) :
    ∀ p ∈ qs, p.junk = [] := by
  induction h with
  | refl => exact hclean
  | @skip q ps qs k _ ih =>
    refine ih fun p hp => ?_
    rcases mem_cons.mp hp with rfl | hp
    · dsimp only
      rw [hclean q (.head _), drop_nil]
    · exact hclean p (.tail _ hp)
  | take _ ih => exact ih fun p hp => hclean p (.tail _ hp)

theorem stream_map_clean (messages : List (List UInt8)) :
    stream (messages.map (Parcel.mk [])) [] = messages.flatten := by
  rw [stream, append_nil, flatMap_map]
  exact flatMap_id

/-- **The framing of a stream of whole messages**: they are framed, these and no others,
exactly when no segment makes the buffer too long. -/
theorem recovers_iff_fitting {segs : List (UInt64 × List UInt8)}
    (hwhole : ∀ m ∈ messages, Whole mm transport direction m)
    (hdiv : segmentBytes segs = messages.flatten) :
    Recovers mm transport direction isn segs messages ↔
      Fitting (unfinished (messages.map List.length)) 0 segs := by
  have hmsgs : (messages.map (Parcel.mk [])).map Parcel.message = messages := by
    rw [map_map]
    exact map_id messages
  have hgood : ∀ p ∈ messages.map (Parcel.mk []), p.Good mm transport direction := by
    intro p hp
    obtain ⟨m, hm, rfl⟩ := mem_map.mp hp
    exact ⟨hwhole m hm, .inl rfl⟩
  have hclean : ∀ p ∈ messages.map (Parcel.mk []), p.junk = [] := by
    intro p hp
    obtain ⟨m, -, rfl⟩ := mem_map.mp hp
    rfl
  have hkept : ∀ {n tail re f done ps}, Arriving mm transport direction isn
      (messages.map (Parcel.mk [])) n tail re f done ps →
      unfinished (messages.map List.length) n = re.buf.length := by
    intro n tail re f done ps h
    have hk := (h.kept (g := 0) (h.remain.clean hclean) (by
      rw [length_stream_of_clean hclean, zero_add])).2
    rwa [hmsgs] at hk
  have hstart := arriving_new isn hgood
  rw [stream_map_clean, ← hdiv] at hstart
  have hisn : isn + UInt32.ofNat 0 = isn := UInt32.add_zero isn
  constructor
  · rintro ⟨re, cs, hrun, hcs, hbuf⟩
    refine fitting_of_replay (fun h => (hkept h).le) hstart (hisn.symm ▸ hrun) ?_
    rw [cutLength_eq hcs, hdiv, hbuf]
    exact (zero_add _).le
  · intro hroom
    obtain ⟨re, cs, hrun, hcs, hbuf⟩ := replay_of_fitting (fun h => (hkept h).ge) hstart hroom
    rw [hisn] at hrun
    rw [nil_append, hmsgs] at hcs
    exact ⟨re, cs, hrun, hcs, hbuf⟩

/-- All of the stream but its first byte in one segment. -/
def beheadedAt (t u : UInt64) (bytes : List UInt8) : List (UInt64 × List UInt8) :=
  [(t, bytes.take 1), (u, bytes.drop 1)]

theorem segmentBytes_beheadedAt (t u : UInt64) (bytes : List UInt8) :
    segmentBytes (beheadedAt t u bytes) = bytes := by
  rw [beheadedAt, segmentBytes_cons, segmentBytes_cons]
  exact (congrArg (bytes.take 1 ++ ·) (append_nil _)).trans (take_append_drop 1 bytes)

theorem not_recovers_beheadedAt {t u : UInt64} {m : List UInt8} {ms : List (List UInt8)}
    (hwhole : ∀ x ∈ m :: ms, Whole mm transport direction x) (hm : 1 < m.length)
    (hbig : maxBuffered < (m :: ms).flatten.length) :
    ¬ Recovers mm transport direction isn (beheadedAt t u (m :: ms).flatten) (m :: ms) := by
  intro h
  have hfit := (recovers_iff_fitting hwhole (segmentBytes_beheadedAt t u _)).mp h
  have hlong : 1 < (m :: ms).flatten.length := by
    rw [flatten_cons, length_append]
    omega
  obtain ⟨-, hroom, -⟩ := hfit
  have hone : 0 + ((m :: ms).flatten.take 1).length = 1 := by
    rw [length_take]
    omega
  rw [hone, map_cons, unfinished, if_pos hm, length_drop] at hroom
  rcases hroom with hnil | h0 | hle
  · have := congrArg List.length hnil
    rw [length_drop, length_nil] at this
    omega
  · exact absurd h0 (by decide)
  · omega

end MatchBench.Capture
