import MatchBench.Lib.Table
import MatchBench.Capture.Reports

/-!
# Idle eviction

`evict_idle` of `src/pipeline.rs` and `src/matcher.rs`: from time to time the pipeline
forgets the requests and the reassemblers that were not active for five seconds.

Two runs are compared, one with evictions and one without.  The reassembler of a
connection that goes on where it stopped is made anew by the first run; it differs from
the one kept by the second in the absolute offsets only, and behaves alike (`Alike`).  A
request that was forgotten is not found by its later responses.  So the runs publish the
same events when every connection that comes back after an eviction goes on where it
stopped, and no response is to a forgotten order (`published_of_unneeded`).

The last condition fails for an order that rests in the book: it is acknowledged, then
forgotten, and its fill is matched to nothing.
-/

namespace MatchBench.Capture

open List Option AList Reassembler

def defaultIdleNs : UInt64 := 5000000000

/-- `saturating_sub`. -/
def saturatingSub (a b : UInt64) : UInt64 := if a < b then 0 else a - b

def Reassembler.idleNs (r : Reassembler) (nowNs : UInt64) : UInt64 :=
  saturatingSub nowNs r.lastActivityNs

/-- Whether a request stays. -/
def Inflight.kept (nowNs idleNs : UInt64) (v : Inflight) : Bool :=
  saturatingSub nowNs v.lastActivityNs < idleNs

namespace Matcher

/-- The matcher without its idle requests, and how many those were. -/
def evictIdle (m : Matcher) (nowNs idleNs : UInt64) : Matcher × Nat :=
  let kept := retained (Inflight.kept nowNs idleNs) m.inflight
  let unanswered := m.inflight.entries.countP
    (fun e => !e.2.kept nowNs idleNs && !e.2.responded)
  ({ m with
     inflight := kept
     evictedIdleUnanswered := m.evictedIdleUnanswered + unanswered },
    m.inflight.entries.length - kept.entries.length)

/-- The ids that an eviction removes. -/
def idle (m : Matcher) (nowNs idleNs : UInt64) : List String :=
  (m.inflight.entries.filter (fun e => !e.2.kept nowNs idleNs)).map Sigma.fst

end Matcher

/-- The clock is read by the caller. -/
def Pipeline.evictIdle (p : Pipeline) (monotonicNowNs : UInt64) : Pipeline :=
  let now := p.toRealtime monotonicNowNs
  { p with
    matcher := (p.matcher.evictIdle now defaultIdleNs).1
    reassemblers := retained (fun r => r.idleNs now < defaultIdleNs) p.reassemblers }

/-! ### Reassemblers that behave alike -/

namespace Reassembler

/-- The times and sequence numbers of the buffered bytes, counted from the first. -/
structure Stamped (r : Reassembler) (t : Nat → UInt64) (s : Nat → UInt32) : Prop where
  marked : ∃ f, r.Marked f ∧ ∀ o < r.buf.length, (f (r.frontAbs + o)).ts = t o ∧
    (f (r.frontAbs + o)).seq + UInt32.ofNat (r.frontAbs + o - (f (r.frontAbs + o)).start) = s o

/-- The same but for the absolute offsets, the last activity and the log. -/
structure Alike (a b : Reassembler) : Prop where
  initialized : a.initialized = b.initialized
  nextSeq : a.nextSeq = b.nextSeq
  buf : a.buf = b.buf
  hold : a.hold = b.hold
  stalled : a.stalledPushes = b.stalledPushes
  stamped : ∃ t s, a.Stamped t s ∧ b.Stamped t s

variable {s : Nat → UInt32} {t : Nat → UInt64} {r : Reassembler}

theorem Stamped.front (h : r.Stamped t s) (hne : r.buf ≠ []) :
    r.timestampAt 0 = t 0 ∧ r.seqAt 0 = s 0 := by
  obtain ⟨f, hf, hts⟩ := h.marked
  have hlen := length_pos_of_ne_nil hne
  obtain ⟨ht, hs⟩ := hts 0 hlen
  have hmark := hf.mark r.frontAbs le_rfl (by rw [deliveredAbs]; omega)
  obtain ⟨h₁, h₂⟩ := markAt_front hmark
  exact ⟨h₁.trans ht, h₂.trans hs⟩

theorem Stamped.empty (hb : r.buf = []) (hm : r.marks = []) (t : Nat → UInt64) (s : Nat → UInt32) :
    r.Stamped t s := by
  refine ⟨fun _ => ⟨0, 0, 0⟩, ⟨?_, ?_, ?_⟩, ?_⟩
  · rw [hm]
    exact List.Pairwise.nil
  · intro m h
    rw [hm] at h
    cases h
  · intro x hx hlt
    rw [deliveredAbs, hb, length_nil] at hlt
    omega
  · intro o ho
    rw [hb] at ho
    cases ho

theorem Stamped.appendContiguous (h : r.Stamped t s) (ts : UInt64) {data : List UInt8}
    (hne : data ≠ []) :
    (r.appendContiguous ts data).Stamped (fun o => if o < r.buf.length then t o else ts)
      (fun o => if o < r.buf.length then s o
        else r.nextSeq + UInt32.ofNat (o - r.buf.length)) := by
  obtain ⟨f, hf, hts⟩ := h.marked
  refine ⟨_, hf.appendContiguous ts hne, fun o _ => ?_⟩
  have hfront : (r.appendContiguous ts data).frontAbs = r.frontAbs := by
    rw [appendContiguous_eq r ts hne]
  rw [hfront, addMark]
  by_cases ho : o < r.buf.length
  · rw [if_pos (by dsimp only [deliveredAbs]; omega), if_pos ho, if_pos ho]
    exact hts o ho
  rw [if_neg (by dsimp only [deliveredAbs]; omega), if_neg ho, if_neg ho]
  refine ⟨rfl, ?_⟩
  dsimp only [deliveredAbs]
  rw [Nat.add_sub_add_left]

theorem Stamped.consume (h : r.Stamped t s) {n : Nat} (hn : n ≤ r.buf.length) :
    (r.consume n).Stamped (fun o => t (n + o)) (fun o => s (n + o)) := by
  obtain ⟨f, hf, hts⟩ := h.marked
  refine ⟨f, hf.consume hn, fun o ho => ?_⟩
  rw [consume_buf, length_drop] at ho
  rw [(consume_frontAbs hn).1, add_assoc]
  exact hts (n + o) (by omega)

theorem Stamped.congr {r r' : Reassembler} (h : r.Stamped t s) (hm : r'.marks = r.marks)
    (hf : r'.frontAbs = r.frontAbs) (hb : r'.buf = r.buf) : r'.Stamped t s := by
  obtain ⟨f, hmarked, hts⟩ := h.marked
  refine ⟨f, hmarked.congr hm hf hb, ?_⟩
  rw [hf, hb]
  exact hts

section

variable {a b : Reassembler}

theorem alike_new : Alike new new :=
  ⟨rfl, rfl, rfl, rfl, rfl, fun _ => 0, fun _ => 0, .empty rfl rfl _ _, .empty rfl rfl _ _⟩

theorem Alike.self (h : Alike a b) : Alike a a := by
  obtain ⟨t, s, ha, _⟩ := h.stamped
  exact ⟨rfl, rfl, rfl, rfl, rfl, t, s, ha, ha⟩

theorem Alike.appendContiguous (h : Alike a b) (ts : UInt64) (data : List UInt8) :
    Alike (a.appendContiguous ts data) (b.appendContiguous ts data) := by
  by_cases hne : data = []
  · rw [Reassembler.appendContiguous, Reassembler.appendContiguous, if_pos hne, if_pos hne]
    exact h
  obtain ⟨t, s, ha, hb⟩ := h.stamped
  have hsa := ha.appendContiguous ts hne
  have hsb := hb.appendContiguous ts hne
  rw [← h.buf, ← h.nextSeq] at hsb
  rw [appendContiguous_eq a ts hne] at hsa ⊢
  rw [appendContiguous_eq b ts hne] at hsb ⊢
  exact ⟨h.initialized, by dsimp only; rw [h.nextSeq], by dsimp only; rw [h.buf], h.hold,
    h.stalled, _, _, hsa, hsb⟩

theorem Alike.exists_eq (h : Alike a b) : ∃ front marks active log, b =
    { a with frontAbs := front, marks := marks, lastActivityNs := active, log := log } := by
  obtain ⟨i, n, front, buf, marks, hold, active, stalled, log⟩ := b
  obtain ⟨h₁, h₂, h₃, h₄, h₅, -⟩ := h
  exact ⟨front, marks, active, log, by simp only [h₁, h₂, h₃, h₄, h₅]⟩

theorem Alike.set (h : Alike a b) (i : Bool) (next : UInt32) (hold : Hold) (n : Nat)
    (x y : UInt64) :
    Alike
      { a with initialized := i, nextSeq := next, hold := hold, stalledPushes := n, lastActivityNs := x }
      { b with initialized := i, nextSeq := next, hold := hold, stalledPushes := n, lastActivityNs := y } := by
  obtain ⟨t, s, ha, hb⟩ := h.stamped
  exact ⟨rfl, rfl, h.buf, rfl, rfl, t, s, ha.congr rfl rfl rfl, hb.congr rfl rfl rfl⟩

theorem Alike.drainLoop (n : Nat) (h : Alike a b) : Alike (drainLoop n a) (drainLoop n b) := by
  induction n generalizing a b with
  | zero => exact h
  | succ n ih =>
    obtain ⟨front, marks, active, log, rfl⟩ := h.exists_eq
    rw [drainLoop, drainLoop]
    cases a.hold.items.find? (drainable a.nextSeq) with
    | none => exact h
    | some x => exact ih ((h.set _ _ _ _ _ _).appendContiguous _ _)

theorem Alike.drainHold (h : Alike a b) : Alike a.drainHold b.drainHold := by
  have hd := h.drainLoop a.hold.items.length
  have hset := hd.set (Reassembler.drainLoop a.hold.items.length a).initialized
    (Reassembler.drainLoop a.hold.items.length a).nextSeq
    (retain (Reassembler.drainLoop a.hold.items.length a).hold
      (Reassembler.drainLoop a.hold.items.length a).nextSeq)
    (Reassembler.drainLoop a.hold.items.length a).stalledPushes
  rw [Reassembler.drainHold, Reassembler.drainHold, ← h.hold]
  obtain ⟨front, marks, active, log, heq⟩ := hd.exists_eq
  rw [heq] at hset ⊢
  exact hset _ _

theorem Alike.skipGap (h : Alike a b) :
    Alike a.skipGap.1 b.skipGap.1 ∧ a.skipGap.2 = b.skipGap.2 := by
  obtain ⟨front, marks, active, log, rfl⟩ := h.exists_eq
  rw [skipGap, skipGap]
  cases a.hold.min? with
  | none => exact ⟨h, rfl⟩
  | some x => exact ⟨(h.set _ _ _ _ _ _).drainHold, rfl⟩

theorem Alike.resetBuffer (h : Alike a b) : Alike a.resetBuffer b.resetBuffer :=
  ⟨h.initialized, h.nextSeq, rfl, rfl, h.stalled, fun _ => 0, fun _ => 0, .empty rfl rfl _ _,
    .empty rfl rfl _ _⟩

theorem Alike.resetForTruncation (h : Alike a b) :
    Alike a.resetForTruncation b.resetForTruncation :=
  ⟨rfl, h.nextSeq, rfl, rfl, h.stalled, fun _ => 0, fun _ => 0, .empty rfl rfl _ _,
    .empty rfl rfl _ _⟩

theorem Alike.place (h : Alike a b) (seq : UInt32) (ts : UInt64) (data : List UInt8) :
    Alike (a.place seq ts data).1 (b.place seq ts data).1 ∧
      (a.place seq ts data).2 = (b.place seq ts data).2 := by
  obtain ⟨front, marks, active, log, rfl⟩ := h.exists_eq
  rw [place, place]
  dsimp only
  split
  · exact ⟨(h.appendContiguous ts data).drainHold, rfl⟩
  split
  · split
    · exact ⟨h, rfl⟩
    · exact ⟨(h.appendContiguous ts _).drainHold, rfl⟩
  have hheld := h.set a.initialized a.nextSeq (a.hold.insert ⟨seq, ts, data⟩) a.stalledPushes
    a.lastActivityNs active
  split
  · obtain ⟨hs, hlost⟩ := hheld.skipGap
    exact ⟨hs, by rw [hlost]⟩
  · exact ⟨hheld, rfl⟩

theorem Alike.checkProgress (h : Alike a b) (seqBefore : UInt32) (stats : PushStats) :
    Alike (a.checkProgress seqBefore stats).1 (b.checkProgress seqBefore stats).1 ∧
      (a.checkProgress seqBefore stats).2 = (b.checkProgress seqBefore stats).2 := by
  obtain ⟨front, marks, active, log, rfl⟩ := h.exists_eq
  have hset := fun n => h.set a.initialized a.nextSeq a.hold n a.lastActivityNs active
  rw [checkProgress, checkProgress]
  dsimp only
  split
  · split
    · obtain ⟨hs, hlost⟩ := (hset (a.stalledPushes + 1)).skipGap
      exact ⟨hs, by rw [hlost]⟩
    · exact ⟨hset _, rfl⟩
  · exact ⟨hset 0, rfl⟩

theorem Alike.checkBuffer (h : Alike a b) (stats : PushStats) :
    Alike (a.checkBuffer stats).1 (b.checkBuffer stats).1 ∧
      (a.checkBuffer stats).2 = (b.checkBuffer stats).2 := by
  rw [Reassembler.checkBuffer, Reassembler.checkBuffer, ← h.buf]
  split
  · exact ⟨h.resetBuffer, rfl⟩
  · exact ⟨h, rfl⟩

/-- **A push keeps them alike**, and reports the same. -/
theorem Alike.push (h : Alike a b) (seq : UInt32) (ts : UInt64) (data : List UInt8) :
    Alike (a.push seq ts data).1 (b.push seq ts data).1 ∧
      (a.push seq ts data).2 = (b.push seq ts data).2 := by
  obtain ⟨front, marks, active, log, rfl⟩ := h.exists_eq
  have hset := fun i next => h.set i next a.hold a.stalledPushes (max a.lastActivityNs ts)
    (max active ts)
  rw [Reassembler.push, Reassembler.push]
  dsimp only
  split
  · exact ⟨h, rfl⟩
  split
  · exact ⟨((hset true seq).appendContiguous ts data).drainHold, rfl⟩
  obtain ⟨h₁, e₁⟩ := (hset a.initialized a.nextSeq).place seq ts data
  rw [← e₁]
  obtain ⟨h₂, e₂⟩ := h₁.checkProgress a.nextSeq
    (Reassembler.place { a with lastActivityNs := max a.lastActivityNs ts } seq ts data).2
  rw [← e₂]
  exact h₂.checkBuffer _

theorem Alike.consume (h : Alike a b) (n : Nat) : Alike (a.consume n) (b.consume n) := by
  obtain ⟨t, s, ha, hb⟩ := h.stamped
  have hsa := ha.consume (Nat.min_le_right n a.buf.length)
  have hsb := hb.consume (Nat.min_le_right n b.buf.length)
  rw [← consume_min] at hsa hsb
  rw [← h.buf] at hsb
  obtain ⟨front, marks, active, log, rfl⟩ := h.exists_eq
  refine ⟨?_, ?_, by rw [consume_buf, consume_buf], ?_, ?_, _, _, hsa, hsb⟩ <;>
  · rw [consume, consume]
    split <;> rfl

end

end Reassembler

theorem rel_cases {α β : Type} {r : α → β → Prop} {x : Option α} {y : Option β}
    (h : Option.Rel r x y) :
    (x = none ∧ y = none) ∨ ∃ a b, x = some a ∧ y = some b ∧ r a b := by
  cases h with
  | none => exact .inl ⟨rfl, rfl⟩
  | some hr => exact .inr ⟨_, _, rfl, rfl, hr⟩

variable {a b : Reassembler}

/-- **Framing keeps them alike**, and takes the same messages with the same times. -/
theorem Reassembler.Alike.frameLoop (h : Alike a b) (mm : Finder UInt8)
    (transport : Transport) (direction : Direction) (fuel : Nat) :
    Option.Rel (fun x y => Alike x.1 y.1 ∧ x.2 = y.2)
      (Capture.frameLoop mm transport direction fuel a)
      (Capture.frameLoop mm transport direction fuel b) := by
  induction fuel generalizing a b with
  | zero => exact .none
  | succ fuel ih =>
    have hnext : ∀ n turn, Option.Rel (fun x y => Alike x.1 y.1 ∧ x.2 = y.2)
        ((Capture.frameLoop mm transport direction fuel (a.consume n)).map
          (fun x => (x.1, turn :: x.2)))
        ((Capture.frameLoop mm transport direction fuel (b.consume n)).map
          (fun x => (x.1, turn :: x.2))) := by
      intro n turn
      rcases rel_cases (ih (h.consume n)) with ⟨hx, hy⟩ | ⟨x, y, hx, hy, hre, hfs⟩
      · rw [hx, hy]
        exact .none
      · rw [hx, hy]
        exact .some ⟨hre, congrArg (turn :: ·) hfs⟩
    have havail : b.available = a.available := h.buf.symm
    rw [Capture.frameLoop, Capture.frameLoop, havail]
    cases hf : frame mm transport direction a.available with
    | incomplete => exact .some ⟨h, rfl⟩
    | resync skip => exact hnext _ _
    | message n =>
      have hne : a.buf ≠ [] := by
        intro hnil
        rw [available, hnil, frame_nil] at hf
        exact Frame.noConfusion hf
      obtain ⟨t, s, ha, hb⟩ := h.stamped
      obtain ⟨hta, hsa⟩ := ha.front hne
      obtain ⟨htb, hsb⟩ := hb.front (h.buf ▸ hne)
      rw [hta, hsa, htb, hsb]
      exact hnext _ _

/-! ### A connection that goes on -/

/-- A capture goes on where a reassembler stopped: nothing is buffered or held, and the
capture starts with the next byte. -/
def Resumes (a : Reassembler) (cap : Capture) : Prop :=
  (a.buf = [] ∧ a.hold.items = [] ∧ a.stalledPushes = 0) ∧
    (a.initialized = true → a.nextSeq = cap.tcpSeq) ∧ cap.payload ≠ [] ∧
    cap.payload.length ≤ maxBuffered ∧ cap.payloadLen.toNat ≤ cap.payload.length
  deriving Decidable

namespace Reassembler

theorem hold_eq_empty {h : Hold} (hh : h.items = []) : h = BTree.empty := by
  obtain ⟨items, sorted⟩ := h
  dsimp only at hh
  subst hh
  rfl

theorem Alike.of_empty (h : Alike a a) (hb : a.buf = []) (hh : a.hold.items = [])
    (hs : a.stalledPushes = 0) (seq : UInt32) (x y : UInt64) :
    Alike { a with initialized := true, nextSeq := seq, lastActivityNs := x }
      { new with initialized := true, nextSeq := seq, lastActivityNs := y } := by
  obtain ⟨t, s, ha, _⟩ := h.stamped
  exact ⟨rfl, rfl, hb, hold_eq_empty hh, hs, t, s, ha.congr rfl rfl rfl, .empty rfl rfl t s⟩

/-- **Going on is as good as starting anew.** -/
theorem Alike.push_new {cap : Capture} (h : Alike a a) (hr : Resumes a cap) (ts : UInt64) :
    Alike (a.push cap.tcpSeq ts cap.payload).1 (new.push cap.tcpSeq ts cap.payload).1 ∧
      (a.push cap.tcpSeq ts cap.payload).2 = (new.push cap.tcpSeq ts cap.payload).2 := by
  obtain ⟨⟨hb, hh, hs⟩, hnext, hne, hroom, _⟩ := hr
  have hstart := (h.of_empty hb hh hs cap.tcpSeq (max a.lastActivityNs ts)
    (max new.lastActivityNs ts)).appendContiguous ts cap.payload
  have hin : InOrder a cap.tcpSeq := ⟨hh, hnext⟩
  have hin' : InOrder new cap.tcpSeq := ⟨rfl, nofun⟩
  have hfits : ¬ maxBuffered < a.buf.length + cap.payload.length := by
    rw [hb, length_nil, zero_add]
    exact Nat.not_lt.mpr hroom
  rw [hin.push_eq ts hne, if_neg fun hc => hfits hc.2, hin'.push_eq ts hne,
    if_neg fun hc => Bool.false_ne_true hc.1]
  refine ⟨?_, rfl⟩
  have hd := hstart.drainHold
  rw [drainHold_appendContiguous _ ts hne, drainHold_appendContiguous _ ts hne] at hd
  · have hstall : (if a.initialized then 0 else a.stalledPushes) = a.stalledPushes := by
      rw [hs]
      exact ite_self 0
    dsimp only [extended]
    rw [hstall]
    exact hd
  · rfl
  · exact hh

end Reassembler

/-! ### Matchers that agree -/

namespace Matcher

variable {id : String}

theorem lookup_evictIdle {m : Matcher} {nowNs idleNs : UInt64} (h : id ∉ m.idle nowNs idleNs) :
    (m.evictIdle nowNs idleNs).1.inflight.lookup id = m.inflight.lookup id := by
  refine Option.ext fun v => ?_
  refine Iff.trans mem_lookup_retained (and_iff_left_of_imp fun hv => ?_)
  by_contra hk
  rw [Bool.not_eq_true] at hk
  refine h (List.mem_map.mpr ⟨⟨id, v⟩, mem_filter.mpr ⟨AList.mem_lookup_iff.mp hv, ?_⟩, rfl⟩)
  rw [hk]
  rfl

/-- The requests of `m'` are among those of `m`, and the same but for the forgotten ids. -/
structure Agree (gone : List String) (m m' : Matcher) : Prop where
  same : ∀ id, id ∉ gone → m'.inflight.lookup id = m.inflight.lookup id
  among : ∀ id, m'.inflight.lookup id ≠ none → m.inflight.lookup id ≠ none

variable {gone : List String} {m m' : Matcher}

theorem Agree.evictIdle (h : Agree gone m m') (nowNs idleNs : UInt64) :
    Agree (gone ++ m'.idle nowNs idleNs) m (m'.evictIdle nowNs idleNs).1 := by
  refine ⟨fun id hid => ?_, fun id hid => h.among id (fun hnone => hid ?_)⟩
  · rw [mem_append, not_or] at hid
    rw [lookup_evictIdle hid.2, h.same id hid.1]
  · refine Option.eq_none_iff_forall_not_mem.mpr fun v hv => ?_
    rw [Matcher.evictIdle, mem_lookup_retained, hnone] at hv
    exact absurd hv.1 (not_mem_none v)

theorem Agree.insert (h : Agree gone m m') {v v' : Inflight} (hv : id ∉ gone → v' = v) :
    Agree gone { m with inflight := m.inflight.insert id v }
      { m' with inflight := m'.inflight.insert id v' } := by
  refine ⟨fun x hx => ?_, fun x hx => ?_⟩
  · dsimp only
    by_cases he : x = id
    · subst he
      rw [lookup_insert, lookup_insert, hv hx]
    · rw [lookup_insert_ne he, lookup_insert_ne he, h.same x hx]
  dsimp only at hx ⊢
  by_cases he : x = id
  · subst he
    rw [lookup_insert]
    exact some_ne_none v
  · rw [lookup_insert_ne he] at hx ⊢
    exact h.among x hx

theorem length_insert (m : Matcher) (id : String) (v : Inflight) :
    m.inflight.entries.length ≤ (m.inflight.insert id v).entries.length := by
  refine entries_length_le fun x hx => ?_
  by_cases he : x = id
  · rw [he, lookup_insert]
    exact some_ne_none v
  · rwa [lookup_insert_ne he]

theorem length_onRequest (m : Matcher) (id : String) (ts : UInt64) (flow : FlowKey) (seq : UInt32)
    (reordered : Bool) :
    m.inflight.entries.length ≤ (m.onRequest id ts flow seq reordered).inflight.entries.length := by
  rw [onRequest]
  split
  · exact le_rfl
  split
  · exact le_rfl
  cases hl : m.inflight.lookup id with
  | some existing => exact length_insert m id _
  | none =>
    dsimp only
    split
    · rw [evictOldest]
      dsimp only
      split
      · exact entries_length_insert_erase _ _ hl
      · exact length_insert m id _
    · exact length_insert m id _

theorem length_onResponse (m : Matcher) (ts : UInt64) (reordered : Bool) (msg : ParsedMessage) :
    m.inflight.entries.length ≤ (m.onResponse ts reordered msg).1.inflight.entries.length := by
  rw [onResponse]
  split
  · exact le_rfl
  · cases m.inflight.lookup msg.clordid with
    | none => exact le_rfl
    | some v => exact length_insert m _ _

theorem Agree.onRequest (h : Agree gone m m') {ts : UInt64} {flow : FlowKey}
    {seq : UInt32} {reordered : Bool}
    (hroom : (m.onRequest id ts flow seq reordered).inflight.entries.length < maxInflight) :
    Agree gone (m.onRequest id ts flow seq reordered) (m'.onRequest id ts flow seq reordered) := by
  have hlt : m.inflight.entries.length < maxInflight :=
    lt_of_le_of_lt (length_onRequest m id ts flow seq reordered) hroom
  have hlt' : m'.inflight.entries.length < maxInflight :=
    lt_of_le_of_lt (entries_length_le h.among) hlt
  rw [Matcher.onRequest, Matcher.onRequest, if_neg (Nat.not_le.mpr hlt), if_neg (Nat.not_le.mpr hlt')]
  split
  · exact h
  split
  · exact ⟨h.same, h.among⟩
  cases hl' : m'.inflight.lookup id with
  | some v' =>
    cases hl : m.inflight.lookup id with
    | some v =>
      refine h.insert fun hg => ?_
      have he := h.same id hg
      rw [hl, hl', some_inj] at he
      rw [he]
    | none => exact absurd hl (h.among id (by rw [hl']; exact some_ne_none v'))
  | none =>
    cases hl : m.inflight.lookup id with
    | some v =>
      refine h.insert fun hg => ?_
      have he := h.same id hg
      rw [hl, hl'] at he
      cases he
    | none => exact h.insert fun _ => rfl

theorem Agree.onResponse (h : Agree gone m m') (ts : UInt64) (reordered : Bool)
    {msg : ParsedMessage} (hid : msg.clordid ∉ gone) :
    Agree gone (m.onResponse ts reordered msg).1 (m'.onResponse ts reordered msg).1 ∧
      (m'.onResponse ts reordered msg).2 = (m.onResponse ts reordered msg).2 := by
  rw [Matcher.onResponse, Matcher.onResponse, h.same _ hid]
  split
  · exact ⟨⟨h.same, h.among⟩, rfl⟩
  · cases m.inflight.lookup msg.clordid with
    | none => exact ⟨⟨h.same, h.among⟩, rfl⟩
    | some v => exact ⟨h.insert fun _ => rfl, rfl⟩

end Matcher

/-- The order that a response is to. -/
def Framed.answered : Framed → Option String
  | .message _ _ msg => if msg.classified = .response then some msg.clordid else none
  | .skipped _ _ => none

theorem length_dispatch (flow : FlowKey) (reordered : Bool) :
    ∀ (fs : List Framed) (x : Matcher × List MatchedEvent), x.1.inflight.entries.length ≤
      (fs.foldl (Pipeline.dispatch flow reordered) x).1.inflight.entries.length := by
  intro fs
  induction fs with
  | nil => exact fun x => le_rfl
  | cons f fs ih =>
    intro x
    refine le_trans ?_ (ih _)
    cases f with
    | skipped n compressed => exact le_rfl
    | message ts seq msg =>
      rw [Pipeline.dispatch]
      cases msg.classified with
      | request => exact x.1.length_onRequest _ _ _ _ _
      | response => exact x.1.length_onResponse _ _ _
      | ignore => exact le_rfl

/-- **The messages of a capture** give the same events. -/
theorem Matcher.Agree.dispatch {gone : List String} {flow : FlowKey} {reordered : Bool} :
    ∀ {fs : List Framed} {m m' : Matcher} {out : List MatchedEvent}, Agree gone m m' →
    (∀ f ∈ fs, ∀ id ∈ f.answered, id ∉ gone) →
    (fs.foldl (Pipeline.dispatch flow reordered) (m, out)).1.inflight.entries.length < maxInflight →
    Agree gone (fs.foldl (Pipeline.dispatch flow reordered) (m, out)).1
        (fs.foldl (Pipeline.dispatch flow reordered) (m', out)).1 ∧
      (fs.foldl (Pipeline.dispatch flow reordered) (m', out)).2 =
        (fs.foldl (Pipeline.dispatch flow reordered) (m, out)).2 := by
  intro fs
  induction fs with
  | nil => exact fun h _ _ => ⟨h, rfl⟩
  | cons f fs ih =>
    intro m m' out h hgone hroom
    have hrest := fun f hf => hgone f (.tail _ hf)
    cases f with
    | skipped n compressed => exact ih h hrest hroom
    | message ts seq msg =>
      have hone := hgone _ (.head _)
      rw [foldl_cons, Pipeline.dispatch] at hroom
      rw [foldl_cons, foldl_cons, Pipeline.dispatch, Pipeline.dispatch]
      rw [Framed.answered] at hone
      cases hc : msg.classified with
      | ignore =>
        rw [hc] at hroom
        exact ih h hrest hroom
      | request =>
        rw [hc] at hroom
        dsimp only at hroom
        have hlen := length_dispatch flow reordered fs
          (m.onRequest msg.clordid ts flow seq reordered, out)
        exact ih (h.onRequest (lt_of_le_of_lt hlen hroom)) hrest hroom
      | response =>
        rw [hc] at hroom hone
        obtain ⟨hm, hev⟩ := h.onResponse ts reordered (hone _ rfl)
        dsimp only
        rw [hev]
        exact ih hm hrest hroom

/-! ### Two runs -/

/-- What happens to the pipeline: a capture, or a tick of the eviction timer. -/
inductive Action
  | capture (cap : Capture)
  | evict (monotonicNowNs : UInt64)
  deriving DecidableEq, Repr

def Action.isCapture : Action → Bool
  | .capture _ => true
  | .evict _ => false

namespace Pipeline

section

variable (mm : Finder UInt8)

/-- The events of a run. -/
def published : Pipeline → List Action → Option (List MatchedEvent)
  | _, [] => some []
  | p, .capture cap :: ops =>
      (p.process mm cap).bind (fun x => (published x.1 ops).map (fun evs => x.2 ++ evs))
  | p, .evict now :: ops => published (p.evictIdle now) ops

/-- The turns of the framing loop at a capture. -/
def framed (p : Pipeline) (cap : Capture) : List Framed :=
  ((frameLoop mm cap.transport cap.direction ((p.pushed cap).1.buf.length + 1)
    (p.pushed cap).1).map Prod.snd).getD []

/-- Without evictions the table of requests never fills. -/
def NeverFull : Pipeline → List Action → Prop
  | _, [] => True
  | p, .capture cap :: ops =>
      ∀ x ∈ p.process mm cap,
        x.1.matcher.inflight.entries.length < maxInflight ∧ NeverFull x.1 ops
  | p, .evict _ :: ops => NeverFull p ops

/-- Nothing that was evicted is needed again.  `p` is the pipeline of the run without
evictions and `q` that of the run with them; `gone` are the forgotten orders.  A connection
that comes back after its eviction goes on where it stopped, and no response is to a
forgotten order. -/
def Unneeded : Pipeline → Pipeline → List String → List Action → Prop
  | _, _, _, [] => True
  | p, q, gone, .capture cap :: ops =>
      (q.reassemblers.lookup (cap.flow, cap.direction) = none →
        ∀ a ∈ p.reassemblers.lookup (cap.flow, cap.direction), Resumes a cap) ∧
      (∀ f ∈ p.framed mm cap, ∀ id ∈ f.answered, id ∉ gone) ∧
      ∀ x ∈ p.process mm cap, ∀ y ∈ q.process mm cap, Unneeded x.1 y.1 gone ops
  | p, q, gone, .evict now :: ops =>
      Unneeded p (q.evictIdle now)
        (gone ++ q.matcher.idle (q.toRealtime now) defaultIdleNs) ops

end

/-- The run with evictions follows the run without. -/
structure Follows (gone : List String) (p q : Pipeline) : Prop where
  offset : q.clockOffsetNs = p.clockOffsetNs
  matcher : Matcher.Agree gone p.matcher q.matcher
  marked : ∀ key, ∀ a ∈ p.reassemblers.lookup key, Reassembler.Alike a a
  alike : ∀ key, ∀ b ∈ q.reassemblers.lookup key,
    ∃ a ∈ p.reassemblers.lookup key, Reassembler.Alike a b

variable {gone : List String} {p q : Pipeline}

theorem follows_withOffset (offset : UInt64) :
    Follows [] (withOffset offset) (withOffset offset) := by
  refine ⟨rfl, ⟨fun _ _ => rfl, fun _ h => h⟩, fun key a ha => ?_, fun key b hb => ?_⟩
  · exact absurd ha (not_mem_none a)
  · exact absurd hb (not_mem_none b)

theorem Follows.evictIdle (h : Follows gone p q) (now : UInt64) :
    Follows (gone ++ q.matcher.idle (q.toRealtime now) defaultIdleNs) p (q.evictIdle now) :=
  ⟨h.offset, h.matcher.evictIdle _ _, h.marked,
    fun key b hb => h.alike key b (mem_lookup_retained.mp hb).1⟩

theorem Follows.reassembler (h : Follows gone p q) {cap : Capture}
    (hres : q.reassemblers.lookup (cap.flow, cap.direction) = none →
      ∀ a ∈ p.reassemblers.lookup (cap.flow, cap.direction), Resumes a cap) :
    Reassembler.Alike (p.reassembler (cap.flow, cap.direction))
        (q.reassembler (cap.flow, cap.direction)) ∨
      Reassembler.Alike (p.reassembler (cap.flow, cap.direction))
          (p.reassembler (cap.flow, cap.direction)) ∧
        Resumes (p.reassembler (cap.flow, cap.direction)) cap ∧
        q.reassembler (cap.flow, cap.direction) = new := by
  rw [Pipeline.reassembler, Pipeline.reassembler]
  cases hq : q.reassemblers.lookup (cap.flow, cap.direction) with
  | some b =>
    obtain ⟨a, ha, hab⟩ := h.alike _ b hq
    rw [Option.mem_def.mp ha]
    exact .inl hab
  | none =>
    cases hp : p.reassemblers.lookup (cap.flow, cap.direction) with
    | none => exact .inl alike_new
    | some a => exact .inr ⟨h.marked _ a hp, hres hq a hp, rfl⟩

theorem Follows.insert (h : Follows gone p q) {p' q' : Pipeline} {key : FlowKey × Direction} (hab : Reassembler.Alike a b)
    (hp : p'.clockOffsetNs = p.clockOffsetNs ∧ p'.reassemblers = p.reassemblers.insert key a)
    (hq : q'.clockOffsetNs = q.clockOffsetNs ∧ q'.reassemblers = q.reassemblers.insert key b)
    (hm : Matcher.Agree gone p'.matcher q'.matcher) : Follows gone p' q' := by
  refine ⟨by rw [hp.1, hq.1, h.offset], hm, fun k x hx => ?_, fun k y hy => ?_⟩
  · rw [hp.2] at hx
    rcases lookup_insert_eq_some.mp hx with ⟨-, rfl⟩ | ⟨-, hx⟩
    · exact hab.self
    · exact h.marked k x hx
  rw [hq.2] at hy
  rw [hp.2]
  rcases lookup_insert_eq_some.mp hy with ⟨rfl, rfl⟩ | ⟨hk, hy⟩
  · exact ⟨a, lookup_insert _, hab⟩
  · rw [lookup_insert_ne hk]
    exact h.alike k y hy

variable {mm : Finder UInt8} {cap : Capture}

theorem process_of_truncated (mm : Finder UInt8) (p : Pipeline)
    (h : cap.payload.length < cap.payloadLen.toNat) :
    ∃ p', p.process mm cap = some (p', []) ∧ p'.clockOffsetNs = p.clockOffsetNs ∧
      p'.matcher = p.matcher ∧ p'.reassemblers = p.reassemblers.insert (cap.flow, cap.direction)
        (p.reassembler (cap.flow, cap.direction)).resetForTruncation := by
  rw [process]
  rw [if_pos h]
  exact ⟨_, rfl, rfl, rfl, rfl⟩

theorem process_of_unframed (hfull : cap.payloadLen.toNat ≤ cap.payload.length)
    (hframe : frameLoop mm cap.transport cap.direction ((p.pushed cap).1.buf.length + 1)
      (p.pushed cap).1 = none) : p.process mm cap = none := by
  rw [process]
  dsimp only
  rw [if_neg (Nat.not_lt.mpr hfull)]
  rw [pushed, reassembler] at hframe
  rw [available, hframe]

/-- **One capture**: the runs publish the same events. -/
theorem Follows.process (h : Follows gone p q)
    (hres : q.reassemblers.lookup (cap.flow, cap.direction) = none →
      ∀ a ∈ p.reassemblers.lookup (cap.flow, cap.direction), Resumes a cap)
    (hgone : ∀ f ∈ p.framed mm cap, ∀ id ∈ f.answered, id ∉ gone)
    (hroom : ∀ x ∈ p.process mm cap, x.1.matcher.inflight.entries.length < maxInflight) :
    Option.Rel (fun x y => Follows gone x.1 y.1 ∧ y.2 = x.2) (p.process mm cap)
      (q.process mm cap) := by
  by_cases hfull : cap.payloadLen.toNat ≤ cap.payload.length
  · have hpush : Reassembler.Alike (p.pushed cap).1 (q.pushed cap).1 ∧
        (p.pushed cap).2 = (q.pushed cap).2 := by
      have hts : q.toRealtime cap.timestampNs = p.toRealtime cap.timestampNs := by
        rw [toRealtime, toRealtime, h.offset]
      rw [pushed, pushed, hts]
      rcases h.reassembler hres with halike | ⟨hself, hr, hnew⟩
      · exact halike.push _ _ _
      · rw [hnew]
        exact hself.push_new hr _
    rcases rel_cases (hpush.1.frameLoop mm cap.transport cap.direction
      ((p.pushed cap).1.buf.length + 1)) with ⟨hfp, hfq⟩ | ⟨⟨re, fs⟩, ⟨re', fs'⟩, hfp, hfq, hre, hfs⟩
    · rw [process_of_unframed hfull hfp, process_of_unframed hfull (hpush.1.buf ▸ hfq)]
      exact .none
    obtain ⟨p', out, hp, hpo, hpr, hpm⟩ := process_of_frameLoop hfull hfp
    obtain ⟨q', out', hq, hqo, hqr, hqm⟩ := process_of_frameLoop hfull (hpush.1.buf ▸ hfq)
    dsimp only at hre hfs
    subst hfs
    rw [← hpush.2] at hqm
    have hframed : p.framed mm cap = fs := by
      rw [framed, hfp]
      rfl
    have hlen := hroom _ hp
    have hmatch : Matcher.Agree gone (p'.matcher, out).1 (q'.matcher, out').1 ∧
        (q'.matcher, out').2 = (p'.matcher, out).2 := by
      rw [hpm, hqm]
      exact h.matcher.dispatch (hframed ▸ hgone) (by rw [← hpm]; exact hlen)
    rw [hp, hq]
    exact .some ⟨h.insert hre ⟨hpo, hpr⟩ ⟨hqo, hqr⟩ hmatch.1, hmatch.2⟩
  · rw [not_le] at hfull
    obtain ⟨p', hp, hpo, hpm, hpr⟩ := process_of_truncated mm p hfull
    obtain ⟨q', hq, hqo, hqm, hqr⟩ := process_of_truncated mm q hfull
    have halike : Reassembler.Alike (p.reassembler (cap.flow, cap.direction))
        (q.reassembler (cap.flow, cap.direction)) := by
      rcases h.reassembler hres with halike | ⟨_, hr, _⟩
      · exact halike
      · exact absurd hr.2.2.2.2 (Nat.not_le.mpr hfull)
    rw [hp, hq]
    exact .some ⟨h.insert halike.resetForTruncation ⟨hpo, hpr⟩ ⟨hqo, hqr⟩
      (by rw [hpm, hqm]; exact h.matcher), rfl⟩

theorem Follows.published {actions : List Action} : ∀ {gone : List String} {p q : Pipeline},
    Follows gone p q → NeverFull mm p actions → Unneeded mm p q gone actions →
    q.published mm actions = p.published mm (actions.filter Action.isCapture) := by
  induction actions with
  | nil => exact fun _ _ _ => rfl
  | cons action actions ih =>
    intro gone p q h hroom hun
    cases action with
    | evict now => exact ih (h.evictIdle now) hroom hun
    | capture cap =>
      obtain ⟨hres, hgone, hrest⟩ := hun
      have hrel := h.process hres hgone (fun x hx => (hroom x hx).1)
      rw [Pipeline.published, filter_cons_of_pos rfl, Pipeline.published]
      rcases rel_cases hrel with ⟨hp, hq⟩ | ⟨x, y, hp, hq, hxy, hev⟩
      · rw [hp, hq]
        rfl
      · rw [hp, hq, bind_some, bind_some, hev, ih hxy (hroom x hp).2 (hrest x hp y hq)]

/-- **Idle eviction is not seen in the events** of a run in which nothing that was evicted is
needed again. -/
theorem published_of_unneeded {offset : UInt64} {actions : List Action}
    (hroom : NeverFull mm (withOffset offset) actions)
    (h : Unneeded mm (withOffset offset) (withOffset offset) [] actions) :
    (withOffset offset).published mm actions =
      (withOffset offset).published mm (actions.filter Action.isCapture) :=
  (follows_withOffset offset).published hroom h

instance decidableNeverFull (mm : Finder UInt8) :
    ∀ (p : Pipeline) (actions : List Action), Decidable (NeverFull mm p actions)
  | _, [] => .isTrue trivial
  | p, .capture cap :: actions =>
      have : ∀ x, Decidable (NeverFull mm x actions) := fun x => decidableNeverFull mm x actions
      inferInstanceAs (Decidable (∀ x ∈ p.process mm cap, _))
  | p, .evict _ :: actions => decidableNeverFull mm p actions

instance decidableUnneeded (mm : Finder UInt8) :
    ∀ (p q : Pipeline) (gone : List String) (actions : List Action),
      Decidable (Unneeded mm p q gone actions)
  | _, _, _, [] => .isTrue trivial
  | p, q, gone, .capture cap :: actions =>
      have : ∀ x y, Decidable (Unneeded mm x y gone actions) :=
        fun x y => decidableUnneeded mm x y gone actions
      inferInstanceAs (Decidable (_ ∧ _ ∧ ∀ x ∈ p.process mm cap, ∀ y ∈ q.process mm cap, _))
  | p, q, gone, .evict now :: actions =>
      decidableUnneeded mm p (q.evictIdle now)
        (gone ++ q.matcher.idle (q.toRealtime now) defaultIdleNs) actions

/-! ### An order that rests in the book -/

/-- The captures come in the order of their times, and no eviction is before a capture
already seen. -/
def Timely : UInt64 → List Action → Prop
  | _, [] => True
  | last, .capture cap :: actions => last ≤ cap.timestampNs ∧ Timely cap.timestampNs actions
  | last, .evict now :: actions => last ≤ now ∧ Timely last actions

instance decidableTimely : ∀ (last : UInt64) (actions : List Action), Decidable (Timely last actions)
  | _, [] => .isTrue trivial
  | _, .capture cap :: actions =>
      have := decidableTimely cap.timestampNs actions
      inferInstanceAs (Decidable (_ ∧ _))
  | last, .evict _ :: actions =>
      have := decidableTimely last actions
      inferInstanceAs (Decidable (_ ∧ _))

/-- An order; with bars for the separators, `8=FIX.4.4|9=10|35=D|11=…|10=000|`. -/
def newOrder (id : UInt8) : List UInt8 :=
  [56, 61, 70, 73, 88, 46, 52, 46, 52, soh, 57, 61, 49, 48, soh,
    51, 53, 61, 68, soh, 49, 49, 61, id, soh, 49, 48, 61, 48, 48, 48, soh]

/-- Its acknowledgement, `8=FIX.4.4|9=16|35=8|11=…|150=0|10=000|`. -/
def acknowledgement (id : UInt8) : List UInt8 :=
  [56, 61, 70, 73, 88, 46, 52, 46, 52, soh, 57, 61, 49, 54, soh,
    51, 53, 61, 56, soh, 49, 49, 61, id, soh, 49, 53, 48, 61, 48, soh,
    49, 48, 61, 48, 48, 48, soh]

def seen (ts : UInt64) (direction : Direction) (seq : UInt32) (payload : List UInt8) : Action :=
  .capture ⟨ts, client, seq, UInt32.ofNat payload.length, direction, .fix, payload⟩

/-- The order `A` is acknowledged, rests for five seconds and is filled. -/
def restingMaker : List Action :=
  [seen 1 .request 1 (newOrder 65), seen 2 .response 1 (acknowledgement 65),
    .evict 5000000002, seen 5000000003 .response 39 (fill 49)]

def ackEvent (id : String) (seq : UInt32) (t3 t7 : UInt64) : MatchedEvent :=
  ⟨id, 2, 5000, seq, t3, t7, t7 - t3, "0", 0, 0, "", false, 0, 0⟩

/-- The fill is lost. -/
theorem published_restingMaker :
    Timely 0 restingMaker ∧ NeverFull Finder.naive (withOffset 0) restingMaker ∧
      (withOffset 0).published Finder.naive restingMaker = some [ackEvent "A" 1 1 2] ∧
      (withOffset 0).published Finder.naive (restingMaker.filter Action.isCapture) =
        some [ackEvent "A" 1 1 2, fillEvent 5000000003] := by
  decide +kernel

/-- The order `A` is filled and forgotten; after a pause the connection goes on with the
order `B`. -/
def filledInTime : List Action :=
  [seen 1 .request 1 (newOrder 65), .evict 2, seen 3 .response 1 (fill 49),
    .evict 9000000000, seen 9000000001 .request 33 (newOrder 66),
    seen 9000000002 .response 55 (acknowledgement 66)]

theorem published_filledInTime :
    (withOffset 0).published Finder.naive filledInTime =
        (withOffset 0).published Finder.naive (filledInTime.filter Action.isCapture) ∧
      (withOffset 0).published Finder.naive filledInTime =
        some [fillEvent 3, ackEvent "B" 33 9000000001 9000000002] :=
  ⟨published_of_unneeded (by decide +kernel) (by decide +kernel), by decide +kernel⟩

end Pipeline

end MatchBench.Capture
