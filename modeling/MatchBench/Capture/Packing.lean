import MatchBench.Capture.Cut
import MatchBench.Capture.Deliver
import MatchBench.Model.Order

/-!
# Messages packed into segments

The responses of one connection, in segments of any sizes: `captures` are the segments as
the pipeline sees them, in order.  Between two of them the pipeline may process any number
of captures of other connections (`Session`).

`session_reports` says what comes out for one order.  Each of its messages gives one event,
with the fields of the message and the time of the segment that has the first byte of the
message (`timeAt`), whatever the segments are.
-/

namespace MatchBench.Capture

open List Option
open Reassembler

section

variable (mm : Finder UInt8)

/-! ### The framing loop and the messages it takes -/

def Framed.isMessage : Framed → Bool
  | .message _ _ _ => true
  | .skipped _ _ => false

def Cut.framed (transport : Transport) (direction : Direction) (c : Cut) : Framed :=
  .message c.ts c.seq (parse mm transport direction c.bytes)

theorem frameLoop_eq (transport : Transport) (direction : Direction) :
    ∀ (fuel : Nat) (re : Reassembler),
      (frameLoop mm transport direction fuel re).map (fun x => (x.1, x.2.filter Framed.isMessage)) =
        (cutLoop mm transport direction fuel re).map
          (fun x => (x.1, x.2.map (Cut.framed mm transport direction))) := by
  intro fuel
  induction fuel with
  | zero => exact fun re => rfl
  | succ fuel ih =>
    intro re
    rw [frameLoop, cutLoop]
    cases frame mm transport direction re.available with
    | message n =>
      have h := congrArg (Option.map (fun x : Reassembler × List Framed => (x.1, Framed.message
        (re.timestampAt 0) (re.seqAt 0) (parse mm transport direction (re.available.take n)) ::
          x.2))) (ih (re.consume n))
      rw [Option.map_map, Option.map_map] at h
      rw [Option.map_map, Option.map_map]
      exact h
    | incomplete => rfl
    | resync skip =>
      rw [← ih, Option.map_map]
      rfl

end

variable {mm : Finder UInt8} {transport : Transport} {direction : Direction} {cs : List Cut}
  {f : Nat → Mark} {seq : UInt32} {segs : List (UInt64 × List UInt8)} {p : Pipeline}
  {re : Reassembler}

theorem frameLoop_of_cutLoop {fuel : Nat} {re re' : Reassembler}
    (h : cutLoop mm transport direction fuel re = some (re', cs)) :
    ∃ fs, frameLoop mm transport direction fuel re = some (re', fs) ∧
      fs.filter Framed.isMessage = cs.map (Cut.framed mm transport direction) := by
  have heq := frameLoop_eq mm transport direction fuel re
  rw [h, map_some, map_eq_some_iff] at heq
  obtain ⟨⟨re1, fs⟩, hf, he⟩ := heq
  obtain ⟨he1, he2⟩ := Prod.mk.injEq _ _ _ _ ▸ he
  exact ⟨fs, by rw [hf]; exact congrArg some (Prod.ext he1 rfl), he2⟩

/-! ### A segment in order -/

theorem Reassembler.Marked.congr {r r' : Reassembler} (h : Marked r f)
    (hm : r'.marks = r.marks) (hf : r'.frontAbs = r.frontAbs) (hb : r'.buf = r.buf) :
    Marked r' f := by
  have hd : r'.deliveredAbs = r.deliveredAbs := by rw [deliveredAbs, deliveredAbs, hf, hb]
  refine ⟨?_, fun m hmem => ?_, fun x hx hlt => ?_⟩
  · rw [hm]
    exact h.sorted
  · rw [hm] at hmem
    rw [hd]
    exact h.le m hmem
  rw [hf] at hx
  rw [hd] at hlt
  rw [markAt, hm]
  exact h.mark x hx hlt

variable {r : Reassembler} {cap : Capture} {id : String}

theorem drainHold_of_empty (h : r.hold.items = []) :
    r.drainHold = { r with hold := retain r.hold r.nextSeq } ∧
      (retain r.hold r.nextSeq).items = [] := by
  refine ⟨?_, ?_⟩
  · rw [drainHold, h]
    rfl
  · show r.hold.items.filter _ = []
    rw [h]
    rfl

/-- Between segments in order: nothing is held, and the next byte is known. -/
structure InOrder (re : Reassembler) (seq : UInt32) : Prop where
  hold : re.hold.items = []
  next : re.initialized = true → re.nextSeq = seq

theorem place_of_next (h : r.nextSeq = seq) (ts : UInt64) (data : List UInt8) :
    r.place seq ts data =
      ((r.appendContiguous ts data).drainHold, { reordered := !r.hold.items.isEmpty }) := by
  have h0 : (seq - r.nextSeq).toInt32 = 0 := by
    rw [h, UInt32.sub_self]
    rfl
  rw [place]
  rw [if_pos h0]

theorem checkProgress_of_empty (h : r.hold.items = []) (seqBefore : UInt32) (stats : PushStats) :
    r.checkProgress seqBefore stats = ({ r with stalledPushes := 0 }, stats) := by
  rw [checkProgress, if_neg (fun hc => hc.2 h)]

/-- The reassembler with a segment in order at the end of its buffer. -/
def Reassembler.extended (re : Reassembler) (seq : UInt32) (ts : UInt64) (data : List UInt8) :
    Reassembler where
  initialized := true
  nextSeq := seq + UInt32.ofNat data.length
  frontAbs := re.frontAbs
  buf := re.buf ++ data
  marks := re.marks ++ [⟨re.deliveredAbs, ts, seq⟩]
  hold := retain re.hold (seq + UInt32.ofNat data.length)
  lastActivityNs := max re.lastActivityNs ts
  stalledPushes := if re.initialized then 0 else re.stalledPushes
  log := re.log ++ [(seq, data)]

theorem drainHold_appendContiguous (r : Reassembler) (ts : UInt64) {data : List UInt8}
    (hne : data ≠ []) (h : r.hold.items = []) :
    (r.appendContiguous ts data).drainHold =
      { r with
        marks := r.marks ++ [⟨r.deliveredAbs, ts, r.nextSeq⟩]
        buf := r.buf ++ data
        nextSeq := r.nextSeq + UInt32.ofNat data.length
        hold := retain r.hold (r.nextSeq + UInt32.ofNat data.length)
        log := r.log ++ [(r.nextSeq, data)] } := by
  have hhold : (r.appendContiguous ts data).hold.items = [] := by
    rw [appendContiguous_eq r ts hne]
    exact h
  rw [(drainHold_of_empty hhold).1, appendContiguous_eq r ts hne]

section InOrder

variable {re : Reassembler} {seq : UInt32} (h : InOrder re seq) (ts : UInt64) {data : List UInt8}
  (hne : data ≠ [])

include h

theorem InOrder.hold_extended (data : List UInt8) : (re.extended seq ts data).hold.items = [] := by
  show re.hold.items.filter _ = []
  rw [h.hold]
  rfl

include hne

/-- **A push in order**: the segment is appended, and a buffer that is too long then is given
up.  The first segment is not measured. -/
theorem InOrder.push_eq : re.push seq ts data =
    if re.initialized = true ∧ maxBuffered < re.buf.length + data.length then
      ((re.extended seq ts data).resetBuffer, { reset := true, bufferOverflow := true })
    else (re.extended seq ts data, {}) := by
  rw [Reassembler.push, if_neg hne]
  dsimp only
  cases hi : re.initialized with
  | false =>
    rw [Bool.not_false, if_pos rfl, if_neg (fun hc => Bool.false_ne_true hc.1),
      drainHold_appendContiguous _ ts hne, extended, hi]
    · rfl
    · exact h.hold
  | true =>
    have hnext := h.next hi
    have hhold := h.hold_extended ts data
    subst hnext
    rw [Bool.not_true, if_neg Bool.false_ne_true, place_of_next rfl,
      drainHold_appendContiguous _ ts hne, checkProgress_of_empty, checkBuffer, extended, hi]
    · dsimp only
      rw [length_append, h.hold]
      by_cases hbig : maxBuffered < re.buf.length + data.length
      · rw [if_pos hbig, if_pos ⟨rfl, hbig⟩]
        rfl
      · rw [if_neg hbig, if_neg fun hc => hbig hc.2]
        rfl
    · exact hhold
    · exact h.hold

theorem InOrder.bufferOverflow_iff : (re.push seq ts data).2.bufferOverflow = true ↔
    re.initialized = true ∧ maxBuffered < re.buf.length + data.length := by
  rw [h.push_eq ts hne]
  split
  next hbig =>
    exact iff_of_true rfl hbig
  next hbig =>
    exact iff_of_false Bool.false_ne_true hbig

theorem InOrder.push_inOrder : InOrder (re.push seq ts data).1 (seq + UInt32.ofNat data.length) := by
  rw [h.push_eq ts hne]
  split
  · exact ⟨rfl, fun _ => rfl⟩
  · exact ⟨h.hold_extended ts data, fun _ => rfl⟩

/-- **A segment in order** extends the buffer and marks its bytes. -/
theorem InOrder.push (hm : re.Marked f) (hroom : (re.push seq ts data).2.bufferOverflow = false) :
    InOrder (re.push seq ts data).1 (seq + UInt32.ofNat data.length) ∧
      (re.push seq ts data).1.Marked (addMark f ⟨re.deliveredAbs, ts, seq⟩) ∧
      (re.push seq ts data).1.frontAbs = re.frontAbs ∧
      (re.push seq ts data).1.buf = re.buf ++ data := by
  refine ⟨h.push_inOrder ts hne, ?_⟩
  have hbig := (not_congr (h.bufferOverflow_iff ts hne)).mp (Bool.eq_false_iff.mp hroom)
  rw [h.push_eq ts hne, if_neg hbig]
  have hm0 : ({ re with nextSeq := seq } : Reassembler).Marked f := hm.congr rfl rfl rfl
  have hm1 := hm0.appendContiguous ts hne
  rw [appendContiguous_eq _ ts hne] at hm1
  exact ⟨hm1.congr rfl rfl rfl, rfl, rfl⟩

/-- **A segment in order and the framing loop after it.** -/
theorem InOrder.takes {tail rest : List UInt8} {ps : List Parcel}
    (hfed : Fed mm transport direction f (data ++ tail) re ps rest)
    (hroom : (re.push seq ts data).2.bufferOverflow = false) :
    ∃ re' cs ps' rest', cutLoop mm transport direction ((re.push seq ts data).1.buf.length + 1)
        (re.push seq ts data).1 = some (re', cs) ∧
      InOrder re' (seq + UInt32.ofNat data.length) ∧
      Cuts mm transport direction (addMark f ⟨re.deliveredAbs, ts, seq⟩) tail
        (re.push seq ts data).1 ps re' cs ps' rest' ∧
      Remain ps ps' ∧ rest' <:+ rest := by
  obtain ⟨hin, hmark, -, hbuf⟩ := h.push ts hne hfed.marked hroom
  have hfed' : Fed mm transport direction (addMark f ⟨re.deliveredAbs, ts, seq⟩) tail
      (re.push seq ts data).1 ps rest := by
    refine ⟨?_, hfed.good, hfed.junk, hmark⟩
    rw [hbuf, append_assoc]
    exact hfed.bytes
  obtain ⟨re', cs, ps', rest', hcut, hc, hrem, hsuf⟩ := cutLoop_spec _ _ ps rest
    (Nat.lt_succ_self _) hfed'
  have htip := hc.tip
  simp only [tip, Prod.mk.injEq] at htip
  obtain ⟨hi, -, hhold, hnext, -⟩ := htip
  refine ⟨re', cs, ps', rest', hcut, ⟨?_, fun hi' => ?_⟩, hc, hrem, hsuf⟩
  · rw [hhold]
    exact hin.hold
  · rw [hi] at hi'
    rw [hnext, hin.next hi']

end InOrder

/-! ### Segments -/

/-- The segments of a stream as captures: their times and bytes, from a sequence number on. -/
def captures (flow : FlowKey) (transport : Transport) (direction : Direction) :
    UInt32 → List (UInt64 × List UInt8) → List Capture
  | _, [] => []
  | seq, (ts, data) :: segs =>
      { timestampNs := ts
        flow := flow
        tcpSeq := seq
        payloadLen := UInt32.ofNat data.length
        direction := direction
        transport := transport
        payload := data } ::
        captures flow transport direction (seq + UInt32.ofNat data.length) segs

/-- The number of the segment that has the byte at an offset. -/
def segmentAt : List (UInt64 × List UInt8) → Nat → Nat
  | [], _ => 0
  | s :: segs, x => if x < s.2.length then 0 else segmentAt segs (x - s.2.length) + 1

/-- The time of that segment. -/
def timeAt (segs : List (UInt64 × List UInt8)) (x : Nat) : UInt64 :=
  (segs.getD (segmentAt segs x) (0, [])).1

/-- The bytes of the segments. -/
def segmentBytes (segs : List (UInt64 × List UInt8)) : List UInt8 := segs.flatMap Prod.snd

theorem segmentBytes_append (xs ys : List (UInt64 × List UInt8)) :
    segmentBytes (xs ++ ys) = segmentBytes xs ++ segmentBytes ys := flatMap_append

theorem segmentAt_append : ∀ (xs : List (UInt64 × List UInt8)) {s : UInt64 × List UInt8}
    (ys : List (UInt64 × List UInt8)) {x : Nat}, (segmentBytes xs).length ≤ x →
    x < (segmentBytes xs).length + s.2.length → segmentAt (xs ++ s :: ys) x = xs.length := by
  intro xs
  induction xs with
  | nil =>
    intro s ys x _ hlt
    have hlt' : x < s.2.length := by
      rw [segmentBytes, flatMap_nil, length_nil] at hlt
      omega
    rw [nil_append, segmentAt, if_pos hlt', length_nil]
  | cons t xs ih =>
    intro s ys x hle hlt
    rw [segmentBytes, flatMap_cons, length_append, ← segmentBytes] at hle hlt
    rw [cons_append, segmentAt, if_neg (by omega), ih ys (by omega) (by omega), length_cons]

theorem timeAt_append (xs : List (UInt64 × List UInt8)) (s : UInt64 × List UInt8)
    (ys : List (UInt64 × List UInt8)) {x : Nat} (hle : (segmentBytes xs).length ≤ x)
    (hlt : x < (segmentBytes xs).length + s.2.length) : timeAt (xs ++ s :: ys) x = s.1 := by
  rw [timeAt, segmentAt_append xs ys hle hlt, getD_eq_getElem?_getD,
    getElem?_append_right le_rfl, Nat.sub_self, getElem?_cons_zero,
    getD_some]

theorem exists_segment : ∀ (segs : List (UInt64 × List UInt8)) {x : Nat},
    x < (segmentBytes segs).length →
    ∃ xs s ys, segs = xs ++ s :: ys ∧ (segmentBytes xs).length ≤ x ∧
      x < (segmentBytes xs).length + s.2.length := by
  intro segs
  induction segs with
  | nil => exact nofun
  | cons t segs ih =>
    intro x hx
    rw [segmentBytes, flatMap_cons, length_append, ← segmentBytes] at hx
    by_cases hlt : x < t.2.length
    · exact ⟨[], t, segs, rfl, Nat.zero_le _, by simpa [segmentBytes] using hlt⟩
    · obtain ⟨xs, s, ys, he, hle, hub⟩ := ih (x := x - t.2.length) (by omega)
      refine ⟨t :: xs, s, ys, by rw [he, cons_append], ?_, ?_⟩ <;>
        rw [segmentBytes, flatMap_cons, length_append, ← segmentBytes] <;> omega

theorem timeAt_inj (hinc : segs.Pairwise (fun a b => a.1 < b.1)) {x y : Nat}
    (hx : x < (segmentBytes segs).length) (hy : y < (segmentBytes segs).length) :
    timeAt segs x = timeAt segs y ↔ segmentAt segs x = segmentAt segs y := by
  refine ⟨fun h => ?_, fun h => by rw [timeAt, timeAt, h]⟩
  have hat : ∀ {z}, z < (segmentBytes segs).length →
      ∃ s, segs[segmentAt segs z]? = some s ∧ timeAt segs z = s.1 := by
    intro z hz
    obtain ⟨xs, s, ys, he, hle, hlt⟩ := exists_segment segs hz
    refine ⟨s, ?_, ?_⟩
    · rw [he, segmentAt_append xs ys hle hlt, getElem?_append_right le_rfl,
        Nat.sub_self, getElem?_cons_zero]
    · rw [he, timeAt_append xs s ys hle hlt]
  obtain ⟨s, hs, hts⟩ := hat hx
  obtain ⟨t, ht, htt⟩ := hat hy
  obtain ⟨hi, hsi⟩ := List.getElem?_eq_some_iff.mp hs
  obtain ⟨hj, htj⟩ := List.getElem?_eq_some_iff.mp ht
  rw [hts, htt] at h
  have hlt := pairwise_iff_getElem.mp hinc
  rcases Nat.lt_trichotomy (segmentAt segs x) (segmentAt segs y) with hc | hc | hc
  · have hbad := hlt _ _ hi hj hc
    rw [hsi, htj, h] at hbad
    exact absurd hbad (UInt64.lt_irrefl _)
  · exact hc
  · have hbad := hlt _ _ hj hi hc
    rw [hsi, htj, h] at hbad
    exact absurd hbad (UInt64.lt_irrefl _)

/-! ### One capture -/

theorem foldl_count (direction : Direction) (fs : List Framed) : ∀ (p : Pipeline),
    (fs.foldl (fun p f => p.count direction f) p).matcher = p.matcher ∧
      (fs.foldl (fun p f => p.count direction f) p).reassemblers = p.reassemblers ∧
      (fs.foldl (fun p f => p.count direction f) p).clockOffsetNs = p.clockOffsetNs := by
  induction fs with
  | nil => exact fun p => ⟨rfl, rfl, rfl⟩
  | cons f fs ih =>
    intro p
    obtain ⟨hm, hr, hc⟩ := ih (p.count direction f)
    refine ⟨hm.trans ?_, hr.trans ?_, hc.trans ?_⟩ <;> cases f <;> rfl

theorem foldl_dispatch_filter (flow : FlowKey) (reordered : Bool) :
    ∀ (fs : List Framed) (x : Matcher × List MatchedEvent),
      fs.foldl (Pipeline.dispatch flow reordered) x =
        (fs.filter Framed.isMessage).foldl (Pipeline.dispatch flow reordered) x := by
  intro fs
  induction fs with
  | nil => exact fun x => rfl
  | cons f fs ih =>
    intro x
    cases f with
    | message ts seq msg => exact ih _
    | skipped n compressed => exact ih x

/-- The reassembler of a capture's connection and direction. -/
def Pipeline.reassembler (p : Pipeline) (key : FlowKey × Direction) : Reassembler :=
  (p.reassemblers.lookup key).getD Reassembler.new

/-- The reassembler once a capture is pushed, and what the push reports. -/
def Pipeline.pushed (p : Pipeline) (cap : Capture) : Reassembler × PushStats :=
  (p.reassembler (cap.flow, cap.direction)).push cap.tcpSeq (p.toRealtime cap.timestampNs)
    cap.payload

theorem process_of_frameLoop {fs : List Framed} (hfull : cap.payloadLen.toNat ≤ cap.payload.length)
    (hframe : frameLoop mm cap.transport cap.direction ((p.pushed cap).1.buf.length + 1)
      (p.pushed cap).1 = some (re, fs)) :
    ∃ p' out, p.process mm cap = some (p', out) ∧ p'.clockOffsetNs = p.clockOffsetNs ∧
      p'.reassemblers = p.reassemblers.insert (cap.flow, cap.direction) re ∧
      (p'.matcher, out) = fs.foldl (Pipeline.dispatch cap.flow (p.pushed cap).2.reordered)
        (p.matcher, []) := by
  rw [Pipeline.process]
  dsimp only
  rw [if_neg (Nat.not_lt.mpr hfull)]
  rw [Pipeline.pushed, Pipeline.reassembler] at hframe
  rw [Reassembler.available, hframe]
  dsimp only
  obtain ⟨hm, hr, hc⟩ := foldl_count cap.direction fs
    { p with
      holdOverflows := p.holdOverflows + if (p.pushed cap).2.holdOverflow then 1 else 0
      bufferOverflows := p.bufferOverflows + if (p.pushed cap).2.bufferOverflow then 1 else 0
      streamGapBytes := p.streamGapBytes + (p.pushed cap).2.gapSkippedBytes
      retransmittedBytes := p.retransmittedBytes + (p.pushed cap).2.retransmittedBytes }
  refine ⟨_, _, rfl, hc, ?_, ?_⟩
  · exact congrArg (fun r => AList.insert (cap.flow, cap.direction) re r) hr
  · exact congrArg (fun m => fs.foldl (Pipeline.dispatch cap.flow (p.pushed cap).2.reordered)
      (m, [])) hm

/-- **One capture**: the messages that the framing loop takes go to the matcher. -/
theorem process_spec (hfull : cap.payloadLen.toNat ≤ cap.payload.length)
    (hcut : cutLoop mm cap.transport cap.direction ((p.pushed cap).1.buf.length + 1)
      (p.pushed cap).1 = some (re, cs)) :
    ∃ p' out, p.process mm cap = some (p', out) ∧ p'.clockOffsetNs = p.clockOffsetNs ∧
      p'.reassemblers = p.reassemblers.insert (cap.flow, cap.direction) re ∧
      (p'.matcher, out) = (cs.map (Cut.framed mm cap.transport cap.direction)).foldl
        (Pipeline.dispatch cap.flow (p.pushed cap).2.reordered) (p.matcher, []) := by
  obtain ⟨fs, hfs, hmsg⟩ := frameLoop_of_cutLoop hcut
  rw [← hmsg, ← foldl_dispatch_filter]
  exact process_of_frameLoop hfull hfs

/-! ### Events of one order -/

def Matcher.InFlight (m : Matcher) (id : String) : Prop := m.inflight.lookup id ≠ none

/-- The execution report in an event. -/
def MatchedEvent.response (e : MatchedEvent) : Response :=
  ⟨e.execType, e.fillQty, e.fillPrice, e.t7Ns⟩

/-- The execution report in a response message for the order. -/
def reportFor (id : String) : Framed → Option Response
  | .message ts _ msg =>
      if msg.classified = .response ∧ msg.clordid = id then
        some ⟨msg.execType, msg.fillQty, msg.fillPrice, ts⟩
      else none
  | .skipped _ _ => none

def Framed.isRequest : Framed → Bool
  | .message _ _ msg => msg.classified == .request
  | .skipped _ _ => false

theorem filterMap_reportFor (id : String) (fs : List Framed) :
    (fs.filter Framed.isMessage).filterMap (reportFor id) = fs.filterMap (reportFor id) := by
  rw [filterMap_filter]
  refine filterMap_congr (fun f _ => ?_)
  cases f with
  | message ts seq msg | skipped n compressed => rfl

/-- The events of an order. -/
def eventsOf (id : String) (evs : List MatchedEvent) : List MatchedEvent :=
  evs.filter (fun e => e.orderID = id)

theorem onResponse_spec (m : Matcher) (ts : UInt64) (reordered : Bool) (msg : ParsedMessage)
    (hkey : Matcher.fitsKey id = true) (hin : msg.clordid = id → m.InFlight id) :
    (m.InFlight id → (m.onResponse ts reordered msg).1.InFlight id) ∧
      (eventsOf id (m.onResponse ts reordered msg).2.toList).map MatchedEvent.response =
        if msg.clordid = id then [⟨msg.execType, msg.fillQty, msg.fillPrice, ts⟩] else [] := by
  rw [Matcher.onResponse]
  by_cases hid : msg.clordid = id
  · rw [hid, hkey, Bool.not_true, if_neg Bool.false_ne_true, if_pos rfl]
    cases hl : m.inflight.lookup id with
    | none => exact absurd hl (hin hid)
    | some old =>
      refine ⟨fun _ => ?_, ?_⟩
      · dsimp only
        rw [Matcher.InFlight, AList.lookup_insert]
        exact some_ne_none _
      · simp [eventsOf, MatchedEvent.response]
  rw [if_neg hid]
  by_cases hfit : (!Matcher.fitsKey msg.clordid) = true
  · rw [if_pos hfit]
    exact ⟨fun h => h, rfl⟩
  rw [if_neg hfit]
  cases hl : m.inflight.lookup msg.clordid with
  | none => exact ⟨fun h => h, rfl⟩
  | some old =>
    refine ⟨fun h => ?_, ?_⟩
    · dsimp only
      rw [Matcher.InFlight, AList.lookup_insert_ne (fun hc => hid hc.symm)]
      exact h
    · simp [eventsOf, hid]

/-- **The events of an order**: one for each of its responses. -/
theorem dispatch_reports (hkey : Matcher.fitsKey id = true) (flow : FlowKey) (reordered : Bool) :
    ∀ (fs : List Framed) (x : Matcher × List MatchedEvent),
    (∀ f ∈ fs, f.isRequest = false) →
    ((fs.filterMap (reportFor id)) ≠ [] → x.1.InFlight id) →
    (eventsOf id (fs.foldl (Pipeline.dispatch flow reordered) x).2).map MatchedEvent.response =
      (eventsOf id x.2).map MatchedEvent.response ++ fs.filterMap (reportFor id) := by
  intro fs
  induction fs with
  | nil =>
    intro x _ _
    rw [filterMap_nil, append_nil, foldl_nil]
  | cons f fs ih =>
    intro x hreq hin
    have hreq' : ∀ f ∈ fs, f.isRequest = false := fun g hg => hreq g (.tail _ hg)
    have hf := hreq f (.head _)
    rw [foldl_cons, filterMap_cons]
    cases f with
    | skipped n compressed =>
      rw [reportFor]
      exact ih x hreq' hin
    | message ts seq msg =>
      rw [Pipeline.dispatch]
      cases hc : msg.classified with
      | request =>
        rw [Framed.isRequest, hc] at hf
        exact absurd hf (by decide)
      | ignore =>
        have hnone : reportFor id (.message ts seq msg) = none := by
          rw [reportFor, hc, if_neg (fun h => absurd h.1 (by decide))]
        rw [filterMap_cons_none hnone] at hin
        rw [hnone]
        exact ih x hreq' hin
      | response =>
        have hrep : reportFor id (.message ts seq msg) = if msg.clordid = id then
            some ⟨msg.execType, msg.fillQty, msg.fillPrice, ts⟩ else none := by
          rw [reportFor, hc]
          simp
        have hmsg : msg.clordid = id → x.1.InFlight id := by
          intro hid
          refine hin ?_
          rw [filterMap_cons_some (by rw [hrep, if_pos hid])]
          exact cons_ne_nil _ _
        obtain ⟨hkeep, hev⟩ := onResponse_spec x.1 ts reordered msg hkey hmsg
        have hin' : fs.filterMap (reportFor id) ≠ [] →
            (x.1.onResponse ts reordered msg).1.InFlight id := by
          intro hne
          refine hkeep (hin ?_)
          rw [filterMap_cons]
          split
          · exact hne
          · exact cons_ne_nil _ _
        rw [ih _ hreq' hin', hrep, eventsOf, filter_append, map_append, ← eventsOf,
          ← eventsOf, hev, append_assoc]
        by_cases hid : msg.clordid = id
        · rw [if_pos hid, if_pos hid]
          rfl
        · rw [if_neg hid, if_neg hid]
          rfl

/-! ### A session -/

section

variable (mm : Finder UInt8)

/-- The capture takes a segment in: the buffer has room for it, and a message for the order
finds the request in flight. -/
structure Captured (id : String) (p : Pipeline) (cap : Capture) : Prop where
  room : (p.pushed cap).2.bufferOverflow = false
  inFlight : ∀ re fs, frameLoop mm cap.transport cap.direction
    ((p.pushed cap).1.available.length + 1) (p.pushed cap).1 = some (re, fs) →
    fs.filterMap (reportFor id) ≠ [] → p.matcher.InFlight id

/-- The segments of one connection and direction go through the pipeline, and anything that
leaves its reassembler alone may happen in between. -/
inductive Session (key : FlowKey × Direction) (id : String) :
    Pipeline → List Capture → Pipeline → List MatchedEvent → Prop
  | done (p : Pipeline) : Session key id p [] p []
  | segment {p p' q : Pipeline} {cap : Capture} {caps : List Capture}
      {out evs : List MatchedEvent} : Captured mm id p cap →
      p.process mm cap = some (p', out) → Session key id p' caps q evs →
      Session key id p (cap :: caps) q (out ++ evs)
  | other {p p' q : Pipeline} {caps : List Capture} {evs : List MatchedEvent} :
      p'.reassemblers.lookup key = p.reassemblers.lookup key →
      p'.clockOffsetNs = p.clockOffsetNs → Session key id p' caps q evs →
      Session key id p caps q evs

end

theorem parse_response (transport : Transport) (m : List UInt8) :
    (parse mm transport .response m).classified ≠ .request := by
  cases transport with
  | fix =>
    rw [parse, parseFix]
    dsimp only
    split <;> decide
  | httpWs =>
    rw [parse, parseHttpWs]
    generalize (if looksLikeHttp m = true then _ else _) = body
    rw [parseJson]
    dsimp only
    split
    · decide
    · rw [if_neg (by decide)]
      decide

/-- The execution report of a message at an offset, if it is for the order. -/
def reportOf (mm : Finder UInt8) (transport : Transport) (offset : UInt64)
    (segs : List (UInt64 × List UInt8)) (id : String) (x : Nat × List UInt8) : Option Response :=
  let msg := parse mm transport .response x.2
  if msg.classified = .response ∧ msg.clordid = id then
    some ⟨msg.execType, msg.fillQty, msg.fillPrice, timeAt segs x.1 + offset⟩
  else none

/-- The state of the connection once the segments `xs` of `xs ++ ys` are in. -/
structure Underway (mm : Finder UInt8) (transport : Transport) (segs : List (UInt64 × List UInt8))
    (seq : UInt32) (offset : UInt64) (xs ys : List (UInt64 × List UInt8)) (re : Reassembler)
    (f : Nat → Mark) (ps : List Parcel) : Prop where
  split : segs = xs ++ ys
  inOrder : InOrder re (seq + UInt32.ofNat (segmentBytes xs).length)
  fed : ∃ rest, Fed mm transport .response f (segmentBytes ys) re ps rest
  spent : Spent re ps
  delivered : re.deliveredAbs = (segmentBytes xs).length
  times : ∀ x < (segmentBytes xs).length, (f x).ts = timeAt segs x + offset

section Step

variable {transport : Transport} {segs xs ys : List (UInt64 × List UInt8)} {seq : UInt32}
  {offset ts : UInt64} {data : List UInt8} {re : Reassembler} {f : Nat → Mark} {ps : List Parcel}

theorem Underway.push (h : Underway mm transport segs seq offset xs ((ts, data) :: ys) re f ps)
    (hne : data ≠ [])
    (hroom : (re.push (seq + UInt32.ofNat (segmentBytes xs).length) (ts + offset) data).2.bufferOverflow
      = false) :
    ∃ re' cs f' ps', cutLoop mm transport .response
        ((re.push (seq + UInt32.ofNat (segmentBytes xs).length) (ts + offset) data).1.buf.length + 1)
        (re.push (seq + UInt32.ofNat (segmentBytes xs).length) (ts + offset) data).1 =
          some (re', cs) ∧
      Underway mm transport segs seq offset (xs ++ [(ts, data)]) ys re' f' ps' ∧
      ∃ done, placed re.frontAbs ps = done ++ placed re'.frontAbs ps' ∧
        ∀ id, (cs.map (Cut.framed mm transport .response)).filterMap (reportFor id) =
          done.filterMap (reportOf mm transport offset segs id) := by
  obtain ⟨rest, hfed⟩ := h.fed
  rw [segmentBytes, flatMap_cons, ← segmentBytes] at hfed
  obtain ⟨-, -, hfront, hbuf⟩ := h.inOrder.push (ts + offset) hne hfed.marked hroom
  obtain ⟨re', cs, ps', rest', hcut, hin, hc, -⟩ := h.inOrder.takes (ts + offset) hne hfed hroom
  generalize re.push (seq + UInt32.ofNat (segmentBytes xs).length) (ts + offset) data = pushed
    at hroom hfront hbuf hcut hc
  have hbytes : segmentBytes (xs ++ [(ts, data)]) = segmentBytes xs ++ data := by
    rw [segmentBytes_append, segmentBytes, segmentBytes, flatMap_cons, flatMap_nil, append_nil]
  have hdel : pushed.1.deliveredAbs = (segmentBytes (xs ++ [(ts, data)])).length := by
    have hd := h.delivered
    rw [deliveredAbs] at hd
    rw [deliveredAbs, hfront, hbuf, hbytes, length_append, length_append]
    omega
  -- the bytes of the segment have its time
  have htimes : ∀ x < (segmentBytes (xs ++ [(ts, data)])).length,
      (addMark f ⟨re.deliveredAbs, ts + offset,
        seq + UInt32.ofNat (segmentBytes xs).length⟩ x).ts = timeAt segs x + offset := by
    intro x hx
    rw [hbytes, length_append] at hx
    rw [addMark, h.delivered]
    by_cases hlt : x < (segmentBytes xs).length
    · rw [if_pos hlt]
      exact h.times x hlt
    · rw [if_neg hlt, h.split, timeAt_append xs (ts, data) ys (by omega) (by omega)]
  obtain ⟨done, hdone, hcs, hbound⟩ := hc.cuts
  have hd : re'.deliveredAbs = pushed.1.deliveredAbs :=
    congrArg (fun x => x.2.2.2.2.1) hc.tip
  refine ⟨re', cs, _, ps', hcut, ⟨?_, ?_, ⟨rest', hc.fed⟩, hc.spent, hd.trans hdel, htimes⟩,
    done, ?_, fun id => ?_⟩
  · rw [h.split, append_assoc, singleton_append]
  · rw [hbytes, length_append, UInt32.ofNat_add, ← UInt32.add_assoc]
    exact hin
  · rw [← hfront]
    exact hdone
  rw [hcs, List.map_map, filterMap_map]
  refine filterMap_congr (fun x hx => ?_)
  have hx' := (hbound x hx).2
  rw [hdel] at hx'
  rw [Function.comp_apply, Function.comp_apply, Cut.framed, reportFor, cutAt, reportOf]
  rw [htimes x.1 hx']

end Step

/-- **The reports of one order**: one for each of its messages, with the time of the segment
in which the message begins. -/
theorem session_reports {flow : FlowKey} (hkey : Matcher.fitsKey id = true)
    (hne : ∀ s ∈ segs, s.2 ≠ []) {p q : Pipeline} {caps : List Capture} {evs : List MatchedEvent}
    (h : Session mm (flow, .response) id p caps q evs) :
    ∀ {xs ys : List (UInt64 × List UInt8)} {f : Nat → Mark} {ps : List Parcel},
      caps = captures flow transport .response (seq + UInt32.ofNat (segmentBytes xs).length) ys →
      Underway mm transport segs seq p.clockOffsetNs xs ys (p.reassembler (flow, .response)) f ps →
      (eventsOf id evs).map MatchedEvent.response =
        (placed (p.reassembler (flow, .response)).frontAbs ps).filterMap
          (reportOf mm transport p.clockOffsetNs segs id) := by
  induction h with
  | done p =>
    intro xs ys f ps hcaps hu
    have hys : ys = [] := by
      cases ys with
      | nil => rfl
      | cons s ys => exact absurd hcaps.symm (cons_ne_nil _ _)
    obtain ⟨rest, hfed⟩ := hu.fed
    -- nothing is missing, so no message is left
    have hps : ps = [] := by
      cases ps with
      | nil => rfl
      | cons p0 ps =>
        have hlt := hu.spent p0 rfl
        have hb := congrArg List.length hfed.bytes
        rw [hys, segmentBytes, flatMap_nil, append_nil, stream_cons, length_append,
          length_append] at hb
        omega
    rw [hps]
    rfl
  | other hre hoff _ ih =>
    intro xs ys f ps hcaps hu
    have hr : ∀ p p' : Pipeline, p'.reassemblers.lookup (flow, .response) =
        p.reassemblers.lookup (flow, .response) →
        p'.reassembler (flow, .response) = p.reassembler (flow, .response) := by
      intro p p' hl
      rw [Pipeline.reassembler, Pipeline.reassembler, hl]
    have hih := @ih xs ys f ps hcaps
    rw [hr _ _ hre, hoff] at hih
    exact hih hu
  | @segment p p' q cap caps out evs hcap hproc _ ih =>
    intro xs ys f ps hcaps hu
    cases ys with
    | nil => exact absurd hcaps (cons_ne_nil _ _)
    | cons s ys =>
      obtain ⟨ts, data⟩ := s
      rw [captures] at hcaps
      obtain ⟨hc1, hc2⟩ := List.cons.inj hcaps
      have hmem : (ts, data) ∈ segs := by
        rw [hu.split]
        exact mem_append_right _ (.head _)
      have hpushed : p.pushed cap = (p.reassembler (flow, .response)).push
          (seq + UInt32.ofNat (segmentBytes xs).length) (ts + p.clockOffsetNs) data := by
        rw [hc1]
        rfl
      have hroom := hcap.room
      have hin := hcap.inFlight
      rw [hpushed] at hroom hin
      obtain ⟨re', cs, f', ps', hcut, hu', done, hdone, hrep⟩ := hu.push (hne _ hmem) hroom
      rw [← hpushed] at hcut hin
      have hmode : cap.transport = transport ∧ cap.direction = .response ∧ cap.flow = flow := by
        rw [hc1]
        exact ⟨rfl, rfl, rfl⟩
      rw [hmode.1, hmode.2.1] at hin
      rw [← hmode.1, ← hmode.2.1] at hcut
      have hfull : cap.payloadLen.toNat ≤ cap.payload.length := by
        rw [hc1]
        exact Nat.mod_le _ _
      obtain ⟨p1, out1, hproc1, hoff, hre, hdisp⟩ := process_spec hfull hcut
      rw [hproc, Option.some.injEq, Prod.mk.injEq] at hproc1
      rw [← hproc1.1] at hoff hre hdisp
      rw [← hproc1.2] at hdisp
      rw [hmode.1, hmode.2.1] at hcut hdisp
      rw [hmode.2.1, hmode.2.2] at hre
      obtain ⟨fs, hfs, hmsg⟩ := frameLoop_of_cutLoop hcut
      -- the events of this segment
      have hout : (eventsOf id out).map MatchedEvent.response =
          done.filterMap (reportOf mm transport p.clockOffsetNs segs id) := by
        have hd := dispatch_reports hkey cap.flow (p.pushed cap).2.reordered
          (cs.map (Cut.framed mm transport .response)) (p.matcher, []) ?_ ?_
        · rw [← hdisp, hrep id] at hd
          exact hd
        · intro g hg
          obtain ⟨c, _, hc⟩ := List.mem_map.mp hg
          rw [← hc, Cut.framed, Framed.isRequest, beq_eq_false_iff_ne]
          exact parse_response transport c.bytes
        · intro hne'
          refine hin re' fs hfs ?_
          rw [← filterMap_reportFor, hmsg]
          exact hne'
      have hre' : p'.reassembler (flow, .response) = re' := by
        rw [Pipeline.reassembler, hre, AList.lookup_insert, getD_some]
      have hih := @ih (xs ++ [(ts, data)]) ys f' ps' ?_ ?_
      · rw [eventsOf, filter_append, map_append, ← eventsOf, ← eventsOf, hout, hih,
          hoff, hre', hdone, filterMap_append]
      · rw [hc2, segmentBytes_append, length_append, UInt32.ofNat_add, UInt32.add_assoc]
        congr 3
        rw [segmentBytes, flatMap_cons, flatMap_nil, append_nil]
      · rw [hre', hoff]
        exact hu'

end MatchBench.Capture
