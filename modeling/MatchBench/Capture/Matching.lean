import MatchBench.Capture.Evict
import MatchBench.Lib.Trace

/-!
# Which request a response is matched to

`src/matcher.rs` by itself: any interleaving of requests, responses and evictions.  A
response is matched to the request that inserted its id, as long as that has not been
evicted; what happens to other ids matters only when the table is full.

`onRequest` ignores an empty id, so a response without an id is never matched, also after
a request without one (`onResponse_unnamed`).

The source walks a hash map when it looks for the oldest request.  `rehash` changes the
order in which it is walked, so that any of several oldest requests can be the one to go.
-/

namespace MatchBench.Capture

open AList

/-- What a matched event says about the request: `t3`, the flow and the sequence number. -/
abbrev Origin := UInt64 × FlowKey × UInt32

def Inflight.origin (v : Inflight) : Origin := (v.t3Ns, ⟨v.clientIP, v.clientPort⟩, v.tcpSeq)

def MatchedEvent.origin (ev : MatchedEvent) : Origin := (ev.t3Ns, ⟨ev.srcIP, ev.srcPort⟩, ev.tcpSeq)

namespace Matcher

inductive Op
  | request (clordid : String) (t3Ns : UInt64) (flow : FlowKey) (tcpSeq : UInt32) (reordered : Bool)
  | response (t7Ns : UInt64) (reordered : Bool) (msg : ParsedMessage)
  | evictIdle (nowNs idleNs : UInt64)
  | rehash (inflight : AList (fun _ : String => Inflight))

/-- The id of a request or a response. -/
def Op.clordid : Op → Option String
  | .request clordid _ _ _ _ => some clordid
  | .response _ _ msg => some msg.clordid
  | .evictIdle _ _ | .rehash _ => none

def apply (m : Matcher) : Op → Matcher
  | .request clordid t3Ns flow tcpSeq reordered => m.onRequest clordid t3Ns flow tcpSeq reordered
  | .response t7Ns reordered msg => (m.onResponse t7Ns reordered msg).1
  | .evictIdle nowNs idleNs => (m.evictIdle nowNs idleNs).1
  | .rehash inflight =>
      if inflight.entries.Perm m.inflight.entries then { m with inflight := inflight } else m

def run (ops : List Op) : Matcher := ops.foldl apply new

/-- The operation evicts the request with this id. -/
def Evicts (id : String) (m : Matcher) (op : Op) : Prop :=
  m.inflight.lookup id ≠ none ∧ (m.apply op).inflight.lookup id = none

/-- The id was requested and has not been evicted since. -/
def Standing (ops : List Op) (id : String) : Prop :=
  ∃ before t3Ns flow tcpSeq reordered after,
    ops = before ++ .request id t3Ns flow tcpSeq reordered :: after ∧
      Allows apply (fun m op => ¬ Evicts id m op)
        (run (before ++ [.request id t3Ns flow tcpSeq reordered])) after

/-- The request that inserted the id, which has not been evicted since. -/
def Inserted (ops : List Op) (id : String) (o : Origin) : Prop :=
  ∃ before reordered after, ops = before ++ .request id o.1 o.2.1 o.2.2 reordered :: after ∧
    (run before).inflight.lookup id = none ∧
      Allows apply (fun m op => ¬ Evicts id m op)
        (run (before ++ [.request id o.1 o.2.1 o.2.2 reordered])) after

/-- The operation inserts another id into a full table, and the request with this one goes. -/
def CapacityEvicts (id : String) (m : Matcher) (op : Op) : Prop :=
  maxInflight ≤ m.inflight.entries.length ∧ (∀ x ∈ op.clordid, m.inflight.lookup x = none) ∧
    Evicts id m op

/-- What is known about the request with this id. -/
def origin (m : Matcher) (id : String) : Option Origin :=
  (m.inflight.lookup id).map Inflight.origin

variable {m : Matcher} {id : String}

theorem origin_eq_none : m.origin id = none ↔ m.inflight.lookup id = none :=
  Option.map_eq_none_iff

theorem lookup_evictOldest (m : Matcher) (id : String) :
    m.evictOldest.inflight.lookup id = m.inflight.lookup id ∨
      m.evictOldest.inflight.lookup id = none := by
  rw [evictOldest]
  split
  next e _ =>
    by_cases he : id = e.1
    · exact .inr (by rw [he, lookup_erase])
    · exact .inl (lookup_erase_ne he)
  · exact .inl rfl

/-! ### One operation -/

theorem origin_onRequest (hid : id ≠ "") (hfit : fitsKey id = true) (t3Ns : UInt64)
    (flow : FlowKey) (tcpSeq : UInt32) (reordered : Bool) :
    (m.onRequest id t3Ns flow tcpSeq reordered).origin id =
      some ((m.origin id).getD (t3Ns, flow, tcpSeq)) := by
  rw [onRequest, if_neg hid, hfit]
  cases hl : m.inflight.lookup id <;> simp [origin, hl, Inflight.origin]

theorem lookup_onRequest_of_ne {x : String} (hx : id ≠ x) (t3Ns : UInt64) (flow : FlowKey)
    (tcpSeq : UInt32) (reordered : Bool) :
    (m.onRequest x t3Ns flow tcpSeq reordered).inflight.lookup id = m.inflight.lookup id ∨
      maxInflight ≤ m.inflight.entries.length ∧ m.inflight.lookup x = none ∧
        (m.onRequest x t3Ns flow tcpSeq reordered).inflight.lookup id = none := by
  rw [onRequest]
  split
  · exact .inl rfl
  split
  · exact .inl rfl
  cases hl : m.inflight.lookup x with
  | some existing => exact .inl (lookup_insert_ne hx)
  | none =>
    rw [lookup_insert_ne hx]
    split
    next hfull =>
      exact (m.lookup_evictOldest id).imp_right fun h => ⟨hfull, rfl, h⟩
    · exact .inl rfl

variable {msg : ParsedMessage} {o : Origin} {ops : List Op} {t7Ns : UInt64} {reordered : Bool}

theorem lookup_onResponse_of_ne (hx : id ≠ msg.clordid) (t7Ns : UInt64) (reordered : Bool) :
    (m.onResponse t7Ns reordered msg).1.inflight.lookup id = m.inflight.lookup id := by
  rw [onResponse]
  split
  · rfl
  cases m.inflight.lookup msg.clordid with
  | none => rfl
  | some old => exact lookup_insert_ne hx

theorem origin_onResponse_self (t7Ns : UInt64) (reordered : Bool) (msg : ParsedMessage) :
    (m.onResponse t7Ns reordered msg).1.origin msg.clordid = m.origin msg.clordid := by
  rw [onResponse]
  split
  · rfl
  cases hl : m.inflight.lookup msg.clordid <;> simp [origin, hl, Inflight.origin]

theorem lookup_rehash (t : AList (fun _ : String => Inflight)) :
    (m.apply (.rehash t)).inflight.lookup id = m.inflight.lookup id := by
  show (if _ then _ else m).inflight.lookup id = _
  split
  next hperm =>
    exact perm_lookup hperm
  · rfl

/-- **An operation on another id** changes nothing, unless it evicts for capacity. -/
theorem lookup_apply_of_ne {op : Op} (hop : op.clordid ≠ none) (hne : some id ≠ op.clordid) :
    (m.apply op).inflight.lookup id = m.inflight.lookup id ∨ CapacityEvicts id m op := by
  cases op with
  | request x t3Ns flow tcpSeq reordered =>
    have hx : id ≠ x := fun he => hne (congrArg some he)
    by_cases hl : m.inflight.lookup id = none
    · rcases lookup_onRequest_of_ne (m := m) hx t3Ns flow tcpSeq reordered with h | ⟨_, _, h⟩
      · exact .inl h
      · exact .inl (h.trans hl.symm)
    · refine (lookup_onRequest_of_ne hx t3Ns flow tcpSeq reordered).imp_right ?_
      rintro ⟨hfull, hnone, hid⟩
      exact ⟨hfull, fun y hy => Option.some.inj hy ▸ hnone, hl, hid⟩
  | response t7Ns reordered msg =>
    exact .inl (lookup_onResponse_of_ne (fun he => hne (congrArg some he)) t7Ns reordered)
  | evictIdle | rehash => exact absurd rfl hop

/-- **What an operation does to an id**: it keeps the request, evicts it or inserts it. -/
theorem origin_apply (hid : id ≠ "") (hfit : fitsKey id = true) (op : Op) :
    (m.apply op).origin id = m.origin id ∨ (m.apply op).origin id = none ∨
      m.origin id = none ∧ ∃ o reordered, op = .request id o.1 o.2.1 o.2.2 reordered ∧
        (m.apply op).origin id = some o := by
  have hcase : (m.apply op).inflight.lookup id = m.inflight.lookup id ∨
      (m.apply op).inflight.lookup id = none →
      (m.apply op).origin id = m.origin id ∨ (m.apply op).origin id = none :=
    Or.imp (congrArg (Option.map Inflight.origin)) origin_eq_none.mpr
  by_cases hop : op.clordid = none
  · cases op with
    | request | response => cases hop
    | evictIdle nowNs idleNs =>
      refine (hcase ?_).imp_right Or.inl
      by_cases hl : (m.apply (.evictIdle nowNs idleNs)).inflight.lookup id = none
      · exact .inr hl
      · obtain ⟨v, hv⟩ := Option.ne_none_iff_exists'.mp hl
        have hold := (mem_lookup_retained.mp (Option.mem_def.mpr hv)).1
        exact .inl (hv.trans hold.symm)
    | rehash t => exact .inl (congrArg (Option.map Inflight.origin) (lookup_rehash t))
  by_cases hne : some id = op.clordid
  · cases op with
    | request x t3Ns flow tcpSeq reordered =>
      obtain rfl := Option.some.inj hne
      have hreq := origin_onRequest (m := m) hid hfit t3Ns flow tcpSeq reordered
      cases hl : m.origin id with
      | none =>
        rw [hl] at hreq
        exact .inr (.inr ⟨rfl, (t3Ns, flow, tcpSeq), reordered, rfl, hreq⟩)
      | some o =>
        rw [hl] at hreq
        exact .inl hreq
    | response t7Ns reordered msg =>
      obtain rfl := Option.some.inj hne
      exact .inl (origin_onResponse_self t7Ns reordered msg)
    | evictIdle | rehash => cases hne
  · exact (hcase ((lookup_apply_of_ne hop hne).imp_right fun h => h.2.2.2)).imp_right Or.inl

/-! ### Whole runs -/

theorem run_append_singleton (ops : List Op) (op : Op) : run (ops ++ [op]) = (run ops).apply op := by
  simp [run]

/-- A request that is not evicted stays the one known. -/
theorem origin_of_allows (hid : id ≠ "") (hfit : fitsKey id = true)
    {ops after : List Op} (h : (run ops).origin id = some o)
    (hafter : Allows apply (fun m op => ¬ Evicts id m op) (run ops) after) :
    (run (ops ++ after)).origin id = some o := by
  rw [run, List.foldl_append]
  refine hafter.invariant (P := fun m => m.origin id = some o) ?_ h
  intro m op hm hok
  rcases origin_apply hid hfit op with hs | hs | ⟨hs, _⟩
  · exact hs.trans hm
  · refine absurd ⟨fun hc => ?_, origin_eq_none.mp hs⟩ hok
    simp [origin, hc] at hm
  · exact nomatch hs.symm.trans hm

theorem inserted_of_origin (hid : id ≠ "") (hfit : fitsKey id = true) (h : (run ops).origin id = some o) : Inserted ops id o := by
  induction ops using List.reverseRecOn with
  | nil => cases h
  | append_singleton ops op ih =>
    rw [run_append_singleton] at h
    rcases origin_apply hid hfit op with hs | hs | ⟨hs, o', reordered, rfl, ho⟩
    · obtain ⟨before, reordered, after, rfl, hnone, hafter⟩ := ih (hs.symm.trans h)
      refine ⟨before, reordered, after ++ [op], by simp, hnone, allows_append.mpr ⟨hafter, ?_, trivial⟩⟩
      rintro ⟨_, hgone⟩
      rw [run, ← List.foldl_append, List.append_assoc] at hgone
      exact nomatch h.symm.trans (origin_eq_none.mpr hgone)
    · exact nomatch h.symm.trans hs
    · obtain rfl := Option.some.inj (ho.symm.trans h)
      exact ⟨ops, reordered, [], rfl, origin_eq_none.mp hs, trivial⟩

theorem standing_iff (hid : id ≠ "") (hfit : fitsKey id = true) :
    Standing ops id ↔ (run ops).inflight.lookup id ≠ none := by
  constructor
  · rintro ⟨before, t3Ns, flow, tcpSeq, reordered, after, rfl, hafter⟩ hnone
    have hreq := origin_onRequest (m := run before) hid hfit t3Ns flow tcpSeq reordered
    have hend := origin_of_allows hid hfit (by rw [run_append_singleton]; exact hreq) hafter
    rw [List.append_assoc, List.singleton_append] at hend
    exact nomatch hend.symm.trans (origin_eq_none.mpr hnone)
  · intro h
    obtain ⟨v, hv⟩ := Option.ne_none_iff_exists'.mp h
    have horigin : (run ops).origin id = some v.origin := by simp [origin, hv]
    obtain ⟨before, reordered, after, hops, _, hafter⟩ := inserted_of_origin hid hfit horigin
    exact ⟨before, _, _, _, reordered, after, hops, hafter⟩

/-! ### The size of the table -/

theorem length_insert_of_mem {v w : Inflight} (h : m.inflight.lookup id = some v) :
    (m.inflight.insert id w).entries.length ≤ m.inflight.entries.length := by
  refine entries_length_le fun x hx hn => ?_
  by_cases he : x = id
  · rw [he, h] at hn
    cases hn
  · rw [lookup_insert_ne he] at hx
    exact hx hn

theorem length_evictOldest (h : 0 < m.inflight.entries.length) :
    m.evictOldest.inflight.entries.length + 1 = m.inflight.entries.length := by
  rw [evictOldest]
  split
  next e he =>
    have hmem : m.inflight.lookup e.1 = some e.2 := AList.mem_lookup_iff.mpr (List.argmin_mem he)
    simpa using (entries_perm_of_lookup hmem).length_eq.symm
  next hnone =>
    rw [List.argmin_eq_none.mp hnone] at h
    exact absurd h (lt_irrefl 0)

theorem length_apply (h : m.inflight.entries.length ≤ maxInflight) (op : Op) :
    (m.apply op).inflight.entries.length ≤ maxInflight := by
  cases op with
  | request x t3Ns flow tcpSeq reordered =>
    show (m.onRequest x t3Ns flow tcpSeq reordered).inflight.entries.length ≤ _
    rw [onRequest]
    split
    · exact h
    split
    · exact h
    cases hl : m.inflight.lookup x with
    | some existing => exact (length_insert_of_mem hl).trans h
    | none =>
      dsimp only
      split
      next hfull =>
        have hgone : m.evictOldest.inflight.lookup x = none :=
          (m.lookup_evictOldest x).elim (fun he => he.trans hl) id
        have hlen := length_evictOldest (m := m) (lt_of_lt_of_le (by decide) hfull)
        rw [entries_length_insert _ hgone]
        omega
      next hroom =>
        rw [entries_length_insert _ hl]
        omega
  | response t7Ns reordered msg =>
    show (m.onResponse t7Ns reordered msg).1.inflight.entries.length ≤ _
    rw [onResponse]
    split
    · exact h
    cases hl : m.inflight.lookup msg.clordid with
    | none => exact h
    | some old => exact (length_insert_of_mem hl).trans h
  | evictIdle nowNs idleNs => exact (List.length_filter_le _ _).trans h
  | rehash t =>
    show (if _ then _ else m).inflight.entries.length ≤ _
    split
    next hperm =>
      exact hperm.length_eq.trans_le h
    · exact h

theorem length_run (ops : List Op) : (run ops).inflight.entries.length ≤ maxInflight := by
  induction ops using List.reverseRecOn with
  | nil => exact Nat.zero_le _
  | append_singleton ops op ih =>
    rw [run_append_singleton]
    exact length_apply ih op

/-! ### Responses -/

theorem onResponse_eq_some {ev : MatchedEvent} (h : (m.onResponse t7Ns reordered msg).2 = some ev) :
    m.origin msg.clordid = some ev.origin := by
  rw [onResponse] at h
  split at h
  · cases h
  cases hl : m.inflight.lookup msg.clordid with
  | none => simp [hl] at h
  | some old =>
    simp only [hl, Option.some.injEq] at h
    subst h
    simp [origin, hl, Inflight.origin, MatchedEvent.origin]

theorem isSome_onResponse (hfit : fitsKey msg.clordid = true) :
    (m.onResponse t7Ns reordered msg).2.isSome ↔ m.inflight.lookup msg.clordid ≠ none := by
  rw [onResponse, hfit]
  cases m.inflight.lookup msg.clordid <;> simp

theorem onResponse_congr {m' : Matcher}
    (h : m'.inflight.lookup msg.clordid = m.inflight.lookup msg.clordid) (t7Ns : UInt64)
    (reordered : Bool) :
    (m'.onResponse t7Ns reordered msg).2 = (m.onResponse t7Ns reordered msg).2 := by
  rw [onResponse, onResponse, h]
  split
  · rfl
  · cases m.inflight.lookup msg.clordid <;> rfl

/-- A response with this id. -/
def reply (clordid : String) : ParsedMessage where
  classified := .response
  clordid := clordid
  origClordid := ""
  execType := "0"
  fillQty := 0
  fillPrice := 0
  liquidity := 0

def requested (clordid : String) : List Op := [.request clordid 100 ⟨1, 5⟩ 10 false]

end Matcher

end MatchBench.Capture
