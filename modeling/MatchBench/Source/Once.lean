import MatchBench.Source.Collect

/-!
# Every order is handed over once

Over a whole run an id passes through two stages (`Stage`): it waits, holding the
fold of all its events so far, and then it has been handed over, once, as what that
fold is.  The one way out of the second stage is an event that comes after the order
was handed over.  `Timely` rules that out: once a batch is a join window past one of
the id's events, no event of the id is still to come.

`handedAs_finish` is the result for one id.  `join_exactlyOnce` reads it off for every
merge of partition streams that keep to their windows, and compares two deliveries of
the same events.
-/

namespace MatchBench.Source

open List Option Join

/-- After a batch that is a join window past an event of the id, none is still to
come. -/
def Timely (bs : List TsBatch) (id : String) : Prop :=
  ∀ ps b qs, bs = ps ++ b :: qs → ∀ e ∈ ofID id (events (ps ++ [b])),
    e.time + defaultJoinWindowNS ≤ b.ts → ofID id (events qs) = []

namespace Join

inductive Stage (id : String) (es : List Event) (j : Join) : Prop
  | waiting : j.handedAs id = [] →
      j.pending.lookup id = (if ofID id es = [] then none else some (collect (ofID id es))) →
      Stage id es j
  | handed : ofID id es ≠ [] → j.handedAs id = [(collect (ofID id es)).handover] →
      j.pending.lookup id = none → Stage id es j

variable {id : String} {j : Join} {bs : List TsBatch} {es : List Event}

theorem Stage.take (hwf : j.WF) (h : Stage id es j) (b : TsBatch)
    (hlate : j.handedAs id ≠ [] → ofID id b.events = []) :
    Stage id (es ++ b.events) (j.take b) := by
  obtain ⟨_, hlog, hlook⟩ := take_spec b.events j hwf
  rw [take_eq]
  cases h with
  | waiting hh hl =>
    refine Stage.waiting ((handedAs_congr hlog id).trans hh) ?_
    have hheld : j.held id = collect (ofID id es) := by
      rw [held, hl]
      by_cases hes : ofID id es = []
      · rw [if_pos hes, hes]
        rfl
      · rw [if_neg hes, getD_some]
    rw [hlook, hheld, ofID_append, hl]
    by_cases hb : ofID id b.events = []
    · rw [if_pos hb, hb, append_nil]
    · rw [if_neg hb, if_neg (fun hc => hb (append_eq_nil_iff.mp hc).2), collect, collect,
        foldl_append]
  | handed hne hh hl =>
    have hb : ofID id b.events = [] := hlate (by rw [hh]; exact cons_ne_nil _ _)
    have hof : ofID id (es ++ b.events) = ofID id es := by
      rw [ofID_append, hb, append_nil]
    refine Stage.handed ?_ ?_ ?_
    · rw [hof]
      exact hne
    · rw [handedAs_congr hlog id, hof]
      exact hh
    · rw [hlook, if_pos hb]
      exact hl

theorem Stage.emit {j j' : Join} {w : UInt64} {f : Bool} (h : Stage id es j)
    (he : Emits w f j j' id) :
    Stage id es j' ∧ (f = true → j'.pending.lookup id = none) ∧
      (f = false → j'.handedAs id ≠ [] → j.handedAs id ≠ [] ∨
        ∃ e ∈ ofID id es, e.time + defaultJoinWindowNS ≤ w) := by
  cases he with
  | keeps hk hh hf =>
    refine ⟨?_, fun hft => hk.trans (hf hft), fun _ hne => .inl (hh ▸ hne)⟩
    cases h with
    | waiting h1 h2 => exact Stage.waiting (hh.trans h1) (hk.trans h2)
    | handed h1 h2 h3 => exact Stage.handed h1 (hh.trans h2) (hk.trans h3)
  | hands po hpo hk hh hf =>
    cases h with
    | waiting h1 h2 =>
      by_cases hes : ofID id es = []
      · rw [hpo, if_pos hes] at h2
        cases h2
      rw [hpo, if_neg hes] at h2
      have hpo' := some.inj h2
      rw [h1, nil_append, hpo'] at hh
      refine ⟨Stage.handed hes hh hk, fun _ => hk, fun hff _ => .inr ?_⟩
      obtain ⟨e, he, ht⟩ := refTime_collect hes
      refine ⟨e, he, ?_⟩
      rw [← ht, ← hpo']
      exact hf hff
    | handed h1 h2 h3 =>
      rw [hpo] at h3
      cases h3

theorem wf_new : newJoin.WF := ⟨nodup_nil, fun id => by simp [newJoin]⟩

theorem wf_take (h : j.WF) (hc : Counted j) (b : TsBatch) : (j.take b).WF ∧ Counted (j.take b) := by
  rw [take_eq]
  obtain ⟨hwf, hlog, _⟩ := take_spec b.events j h
  exact ⟨hwf, hc.congr hlog⟩

theorem run_snoc (bs : List TsBatch) (b : TsBatch) : run (bs ++ [b]) = (run bs).step b := by
  rw [run, run, foldl_append, foldl_cons, foldl_nil]

theorem wf_run (bs : List TsBatch) : (run bs).WF ∧ Counted (run bs) := by
  induction bs using reverseRecOn with
  | nil => exact ⟨wf_new, ⟨rfl, rfl, rfl⟩⟩
  | append_singleton bs b ih =>
    rw [run_snoc]
    obtain ⟨hwf, hc⟩ := wf_take ih.1 ih.2 b
    obtain ⟨hwf', hc', _⟩ := emitReady_spec hwf hc b.ts false
    exact ⟨hwf', hc'⟩

theorem held_run :
    (run bs).handedAs id = [] → (run bs).held id = collect (ofID id (events bs)) := by
  induction bs using reverseRecOn with
  | nil => exact fun _ => rfl
  | append_singleton bs b ih =>
    intro hh
    obtain ⟨hwf, hc⟩ := wf_run bs
    obtain ⟨hwf', hc'⟩ := wf_take hwf hc b
    obtain ⟨_, hlog, hlook⟩ := take_spec b.events (run bs) hwf
    rw [run_snoc] at hh ⊢
    cases (emitReady_spec hwf' hc' b.ts false).2.2 id with
    | hands po _ _ hhand _ =>
      rw [step, hhand] at hh
      exact absurd hh (append_ne_nil_of_right_ne_nil _ (cons_ne_nil _ _))
    | keeps hk hhand _ =>
      rw [step, hhand, take_eq, handedAs_congr hlog id] at hh
      rw [held, step, hk, take_eq, hlook, events_append, ofID_append, events, events,
        flatMap_singleton]
      by_cases hb : ofID id b.events = []
      · rw [if_pos hb, hb, append_nil]
        exact ih hh
      · rw [if_neg hb, getD_some, ih hh, collect, collect, foldl_append]
        rfl

/-- **A timely id keeps its stage over the whole run.** -/
theorem stage_run (ht : Timely bs id) :
    ∀ (ps qs : List TsBatch), bs = ps ++ qs → Stage id (events ps) (run ps) ∧
      ((run ps).handedAs id ≠ [] → ofID id (events qs) = []) := by
  intro ps
  induction ps using reverseRecOn with
  | nil =>
    intro qs _
    exact ⟨Stage.waiting rfl rfl, fun hne => absurd rfl hne⟩
  | append_singleton ps b ih =>
    intro qs hbs
    rw [append_assoc, singleton_append] at hbs
    obtain ⟨hst, hlate⟩ := ih (b :: qs) hbs
    obtain ⟨hwf, hc⟩ := wf_run ps
    have hb : ofID id (events (b :: qs)) = ofID id b.events ++ ofID id (events qs) := by
      rw [events, flatMap_cons, ofID_append, events]
    rw [hb] at hlate
    have hlate' := fun hne => append_eq_nil_iff.mp (hlate hne)
    obtain ⟨hwf', hc'⟩ := wf_take hwf hc b
    obtain ⟨_, _, hem⟩ := emitReady_spec hwf' hc' b.ts false
    have hst' := (hst.take hwf b (fun hne => (hlate' hne).1)).emit (hem id)
    have hes : events (ps ++ [b]) = events ps ++ b.events := by
      rw [events_append, events, events, flatMap_singleton]
    rw [run_snoc, hes]
    refine ⟨hst'.1, fun hne => ?_⟩
    rcases hst'.2.2 rfl hne with hne' | ⟨e, he, hw⟩
    · refine (hlate' ?_).2
      rw [take_eq, handedAs_congr (take_spec b.events _ hwf).2.1] at hne'
      exact hne'
    · rw [← hes] at he
      exact ht ps b qs hbs e he hw

/-- **What a timely id is handed over as**: once, with all its events. -/
theorem handedAs_finish (ht : Timely bs id) :
    (finish bs).handedAs id =
      if ofID id (events bs) = [] then [] else [(collect (ofID id (events bs))).handover] := by
  obtain ⟨hst, _⟩ := stage_run ht bs [] (append_nil bs).symm
  obtain ⟨hwf, hc⟩ := wf_run bs
  obtain ⟨_, _, hem⟩ := emitReady_spec hwf hc 0 true
  obtain ⟨hst', hnone, _⟩ := hst.emit (hem id)
  cases hst' with
  | waiting hh hl =>
    by_cases hes : ofID id (events bs) = []
    · rw [if_pos hes]
      exact hh
    · have hn := hnone rfl
      rw [hl, if_neg hes] at hn
      cases hn
  | handed hne hh _ =>
    rw [if_neg hne]
    exact hh

/-! ### Counting -/

theorem mem_handedAs {h : Handover} : h ∈ j.handedAs id ↔ (id, h) ∈ j.handed := by
  rw [handedAs, mem_filterMap]
  refine ⟨fun hx => ?_, fun hx => ⟨(id, h), hx, if_pos rfl⟩⟩
  obtain ⟨x, hx, he⟩ := hx
  by_cases hid : x.1 = id
  · rw [if_pos hid] at he
    rw [← hid, ← some.inj he]
    exact hx
  · rw [if_neg hid] at he
    cases he

theorem nodup_ids (h : ∀ id, (j.handedAs id).length ≤ 1) : (j.handed.map Prod.fst).Nodup := by
  rw [nodup_iff_count_le_one]
  intro id
  have hlen : (j.handed.map Prod.fst).count id = (j.handedAs id).length := by
    rw [handedAs, length_filterMap_eq_countP, List.count, countP_map]
    refine countP_congr (fun x _ => ?_)
    by_cases hx : x.1 = id <;> simp [hx]
  rw [hlen]
  exact h id

/-- The ids handed over as `p` says. -/
def idsWith (j : Join) (p : Handover → Bool) : List String :=
  (j.handed.filter (fun x => p x.2)).map Prod.fst

theorem mem_idsWith {p : Handover → Bool} : id ∈ j.idsWith p ↔ ∃ h ∈ j.handedAs id, p h = true := by
  rw [idsWith, List.mem_map]
  refine ⟨fun hx => ?_, fun hx => ?_⟩
  · obtain ⟨x, hx, he⟩ := hx
    obtain ⟨hmem, hp⟩ := mem_filter.mp hx
    exact ⟨x.2, mem_handedAs.mpr (he ▸ hmem), hp⟩
  · obtain ⟨h, hh, hp⟩ := hx
    exact ⟨(id, h), mem_filter.mpr ⟨mem_handedAs.mp hh, hp⟩, rfl⟩

theorem nodup_idsWith (h : ∀ id, (j.handedAs id).length ≤ 1) (p : Handover → Bool) :
    (j.idsWith p).Nodup :=
  (nodup_ids h).sublist (filter_sublist.map _)

theorem countP_handed (h : ∀ id, (j.handedAs id).length ≤ 1) (p : Handover → Bool)
    {ids : List String} (hnd : ids.Nodup) (hiff : ∀ id, id ∈ ids ↔ ∃ h ∈ j.handedAs id, p h = true) :
    j.handed.countP (fun x => p x.2) = ids.length := by
  have hperm : (j.idsWith p).Perm ids :=
    (perm_ext_iff_of_nodup (nodup_idsWith h p) hnd).mpr (fun id => mem_idsWith.trans (hiff id).symm)
  rw [← hperm.length_eq, idsWith, length_map, countP_eq_length_filter]

theorem countP_sent (l : List (String × Handover)) :
    l.countP (fun x => x.2.isMatched) + l.countP (fun x => x.2.isLost) +
      l.countP (fun x => x.2.isCaptureGap) = l.countP (fun x => x.2.isSent) := by
  induction l with
  | nil => rfl
  | cons x l ih =>
    obtain ⟨id, h⟩ := x
    cases h with
    | matched _ | lost _ | captureGap | unsent _ =>
      simp [Handover.isMatched, Handover.isLost, Handover.isCaptureGap, Handover.isSent] at ih ⊢
      omega

end Join

/-! ### Streams within their windows -/

/-- Each partition comes in the order of its lead times, and the events of one order lie
in batches that lead by less than a join window after the order's times. -/
structure InWindow (streams : List (List TsBatch)) : Prop where
  sorted : ∀ s ∈ streams, s.Pairwise TsBatch.le
  window : ∀ b ∈ streams.flatten, ∀ e ∈ b.events, ∀ f ∈ events streams.flatten,
    f.orderID = e.orderID → b.ts < f.time + defaultJoinWindowNS

variable {es : List Event} {streams : List (List TsBatch)} {out : List TsBatch} {h : Handover}

theorem mem_events_of_merges (hm : Merges TsBatch.le streams out) (e : Event) :
    e ∈ events out ↔ e ∈ events streams.flatten := by
  simp [mem_events, hm.perm.mem_iff]

theorem InWindow.timely (h : InWindow streams) (hm : Merges TsBatch.le streams out) (id : String) :
    Timely out id := by
  intro ps b qs hout f hf hw
  have htrans : ∀ a b c : TsBatch, a.le b → b.le c → a.le c := fun _ _ _ => UInt64.le_trans
  have hsorted := hm.sorted htrans h.sorted
  rw [hout] at hsorted
  obtain ⟨_, hbq, _⟩ := pairwise_append.mp hsorted
  refine ofID_eq_nil.mpr (fun e he hid => ?_)
  obtain ⟨c, hc, hec⟩ := mem_events.mp he
  obtain ⟨hf, hfid⟩ := mem_ofID.mp hf
  have hfout : f ∈ events out := by
    rw [hout, append_cons, events_append]
    exact mem_append_left _ hf
  have hcout : c ∈ out := by
    rw [hout]
    exact mem_append_right _ (.tail _ hc)
  have hlt := h.window c (hm.perm.mem_iff.mp hcout) e hec f
    ((mem_events_of_merges hm f).mp hfout) (hfid.trans hid.symm)
  have hbc : b.ts ≤ c.ts := (pairwise_cons.mp hbq).1 c hc
  exact UInt64.lt_irrefl _ (UInt64.lt_of_lt_of_le hlt (UInt64.le_trans hw hbc))

variable {es fs : List Event} {acks : List OrderAckedEvent} {j : Join}

theorem Reports.congr (h : ∀ e, e ∈ es ↔ e ∈ fs) (hr : Reports es acks) : Reports fs acks :=
  hr.mono (fun e he => (h e).mp he) (fun a ha => hr.all a ((h _).mpr ha))

theorem Settles.congr (h : ∀ e, e ∈ es ↔ e ∈ fs) {o : Handover}
    (hs : Settles es o) : Settles fs o := by
  cases hs with
  | matched s acks o hmem hr ho => exact Settles.matched s acks o ((h _).mp hmem) (hr.congr h) ho
  | lost s hmem ht hno =>
    exact Settles.lost s ((h _).mp hmem) ht (fun a ha => hno a ((h _).mpr ha))
  | captureGap s hmem ht hno =>
    exact Settles.captureGap s ((h _).mp hmem) ht (fun a ha => hno a ((h _).mpr ha))
  | unsent acks hno hr =>
    exact Settles.unsent acks (fun s hmem => hno s ((h _).mpr hmem)) (hr.congr h)

/-- Two handovers of one order agree up to the order in which its reports came. -/
inductive Agrees : Handover → Handover → Prop
  | matched {o o' : Order} : o.orderID = o'.orderID → o.responses.Perm o'.responses →
      Agrees (.matched o) (.matched o')
  | unanswered {h h' : Handover} : h.isMatched = false → h'.isMatched = false → Agrees h h'

theorem assembleOrder_eq_some {s : OrderSentEvent} {o : Order} (h : assembleOrder s acks = some o) :
    o.orderID = s.orderID ∧ o.responses = responses acks ∧ acks ≠ [] := by
  cases acks with
  | nil => cases h
  | cons a acks =>
    rw [← some.inj h]
    exact ⟨rfl, rfl, cons_ne_nil _ _⟩

theorem Reports.perm {acks acks' : List OrderAckedEvent} (h : Reports es acks)
    (h' : Reports es acks') : (responses acks).Perm (responses acks') := by
  have hsub : ∀ {xs ys}, Reports es xs → Reports es ys → ∀ r ∈ responses xs, r ∈ responses ys := by
    intro xs ys hx hy r hr
    obtain ⟨a, ha, he⟩ := List.mem_map.mp hr
    rw [← he]
    exact hy.all a (hx.mem a ha)
  exact (perm_ext_iff_of_nodup h.nodup h'.nodup).mpr (fun r => ⟨hsub h h' r, hsub h' h r⟩)

theorem Settles.isMatched_iff (hs : Settles es h) :
    h.isMatched = true ↔ (∃ s, Event.sent s ∈ es) ∧ ∃ a, Event.ack a ∈ es := by
  cases hs with
  | matched s acks o hmem hr ho =>
    refine ⟨fun _ => ⟨⟨s, hmem⟩, ?_⟩, fun _ => rfl⟩
    obtain ⟨a, ha⟩ := exists_mem_of_ne_nil acks (assembleOrder_eq_some ho).2.2
    exact ⟨a, hr.mem a ha⟩
  | lost s hmem ht hno | captureGap s hmem ht hno =>
    exact ⟨nofun, fun hc => absurd hc.2.choose_spec (hno _)⟩
  | unsent acks hno hr =>
    exact ⟨nofun, fun hc => absurd hc.1.choose_spec (hno _)⟩

theorem Settles.isSent_iff (hs : Settles es h) : h.isSent = true ↔ ∃ s, Event.sent s ∈ es := by
  cases hs with
  | matched s acks o hmem hr ho | lost s hmem ht hno | captureGap s hmem ht hno =>
    exact ⟨fun _ => ⟨s, hmem⟩, fun _ => rfl⟩
  | unsent acks hno hr =>
    exact ⟨nofun, fun hc => absurd hc.choose_spec (hno _)⟩

theorem Settles.isLost_iff (hs : Settles es h)
    (hone : ∀ s s', Event.sent s ∈ es → Event.sent s' ∈ es → s = s') :
    h.isLost = true ↔ (∃ s, Event.sent s ∈ es ∧ s.timedOut = true) ∧ ∀ a, Event.ack a ∉ es := by
  cases hs with
  | matched s acks o hmem hr ho =>
    refine ⟨nofun, fun hc => ?_⟩
    obtain ⟨a, ha⟩ := exists_mem_of_ne_nil acks (assembleOrder_eq_some ho).2.2
    exact absurd (hr.mem a ha) (hc.2 a)
  | lost s hmem ht hno => exact ⟨fun _ => ⟨⟨s, hmem, ht⟩, hno⟩, fun _ => rfl⟩
  | captureGap s hmem ht hno =>
    refine ⟨nofun, fun hc => ?_⟩
    obtain ⟨⟨s', hs', ht'⟩, _⟩ := hc
    rw [hone s' s hs' hmem, ht] at ht'
    cases ht'
  | unsent acks hno hr =>
    exact ⟨nofun, fun hc => absurd hc.1.choose_spec.1 (hno _)⟩

theorem Settles.agrees {h h' : Handover} (hs : Settles es h) (hs' : Settles es h')
    (hid : ∀ s s', Event.sent s ∈ es → Event.sent s' ∈ es → s.orderID = s'.orderID) :
    Agrees h h' := by
  cases hm : h.isMatched with
  | false =>
    refine Agrees.unanswered hm ?_
    rw [← Bool.not_eq_true, hs'.isMatched_iff, ← hs.isMatched_iff, hm]
    exact Bool.false_ne_true
  | true =>
    have hm' := hs'.isMatched_iff.mpr (hs.isMatched_iff.mp hm)
    cases hs with
    | matched s acks o hmem hr ho =>
      cases hs' with
      | matched s' acks' o' hmem' hr' ho' =>
        obtain ⟨hi, hres, _⟩ := assembleOrder_eq_some ho
        obtain ⟨hi', hres', _⟩ := assembleOrder_eq_some ho'
        refine Agrees.matched ?_ ?_
        · rw [hi, hi']
          exact hid s s' hmem hmem'
        · rw [hres, hres']
          exact hr.perm hr'
      | lost | captureGap | unsent => cases hm'
    | lost | captureGap | unsent => cases hm

/-- Every id with an event is handed over once, as its events should be, and no other
id is. -/
def Settled (es : List Event) (j : Join) : Prop :=
  ∀ id, (ofID id es = [] → j.handedAs id = []) ∧
    (ofID id es ≠ [] → ∃ h, j.handedAs id = [h] ∧ Settles (ofID id es) h)

theorem Settled.congr (hj : Settled es j) (h : ∀ e, e ∈ es ↔ e ∈ fs) : Settled fs j := by
  intro id
  have hmem : ∀ e, e ∈ ofID id es ↔ e ∈ ofID id fs := by
    intro e
    rw [mem_ofID, mem_ofID, h]
  have hnil : ofID id es = [] ↔ ofID id fs = [] := by
    simp [eq_nil_iff_forall_not_mem, hmem]
  refine ⟨fun hfs => (hj id).1 (hnil.mpr hfs), fun hfs => ?_⟩
  obtain ⟨o, hh, hs⟩ := (hj id).2 (fun hc => hfs (hnil.mp hc))
  exact ⟨o, hh, hs.congr hmem⟩

theorem InWindow.settled (h : InWindow streams) (hm : Merges TsBatch.le streams out) :
    Settled (events streams.flatten) (finish out) := by
  have hj : Settled (events out) (finish out) := by
    intro id
    rw [handedAs_finish (h.timely hm id)]
    exact ⟨fun hes => if_pos hes, fun hes => ⟨_, if_neg hes, settles_collect _⟩⟩
  exact hj.congr (mem_events_of_merges hm)

section Settled

variable {es : List Event} {j j' : Join} (hj : Settled es j)

include hj

theorem Settled.length_le (id : String) : (j.handedAs id).length ≤ 1 := by
  by_cases hes : ofID id es = []
  · rw [(hj id).1 hes]
    exact Nat.zero_le 1
  · obtain ⟨h, hh, _⟩ := (hj id).2 hes
    rw [hh]
    exact Nat.le_refl 1

variable {p : Handover → Bool}

theorem Settled.exists_iff {q : Prop} {id : String} (hq : q → ofID id es ≠ [])
    (hp : ∀ h, Settles (ofID id es) h → (p h = true ↔ q)) :
    (∃ h ∈ j.handedAs id, p h = true) ↔ q := by
  by_cases hes : ofID id es = []
  · rw [(hj id).1 hes]
    exact ⟨fun hc => (nomatch hc.choose_spec.1), fun hc => absurd hes (hq hc)⟩
  · obtain ⟨h, hh, hs⟩ := (hj id).2 hes
    rw [hh, ← hp h hs]
    simp [exists_eq_left]

theorem Settled.count_eq (hj' : Settled es j')
    (hp : ∀ id h h', Settles (ofID id es) h → Settles (ofID id es) h' → p h = p h') :
    j'.handed.countP (fun x => p x.2) = j.handed.countP (fun x => p x.2) := by
  rw [countP_handed hj'.length_le p (nodup_idsWith hj.length_le p) (fun id => ?_),
    idsWith, length_map, countP_eq_length_filter]
  rw [mem_idsWith]
  by_cases hes : ofID id es = []
  · rw [(hj id).1 hes, (hj' id).1 hes]
  obtain ⟨h, hh, hs⟩ := (hj id).2 hes
  obtain ⟨h', hh', hs'⟩ := (hj' id).2 hes
  rw [hh, hh']
  simp [exists_eq_left, hp id h h' hs hs']

end Settled

/-- The ids that were sent. -/
def sentIDs (es : List Event) : List String :=
  es.filterMap (fun e => match e with | .sent s => some s.orderID | .ack _ => none)

theorem mem_sentIDs {id : String} : id ∈ sentIDs es ↔ ∃ s, Event.sent s ∈ ofID id es := by
  rw [sentIDs, mem_filterMap]
  refine ⟨fun h => ?_, fun h => ?_⟩
  · obtain ⟨e, he, hid⟩ := h
    cases e with
    | sent s => exact ⟨s, mem_ofID.mpr ⟨he, some.inj hid⟩⟩
    | ack a => cases hid
  · obtain ⟨s, hs⟩ := h
    obtain ⟨hs, hid⟩ := mem_ofID.mp hs
    exact ⟨_, hs, congrArg some hid⟩

theorem Settled.sum_eq (hj : Settled es j) (hc : j.Counted) :
    j.matchedOrders + j.lostOrders + j.captureGaps = (sentIDs es).dedup.length := by
  rw [hc.matched, hc.lost, hc.gaps, countP_sent]
  refine countP_handed hj.length_le _ (nodup_dedup _) (fun id => ?_)
  rw [mem_dedup, mem_sentIDs]
  exact (hj.exists_iff (fun hs => ne_nil_of_mem hs.choose_spec) (fun h hs => hs.isSent_iff)).symm

theorem counted_finish (bs : List TsBatch) : (finish bs).Counted := by
  obtain ⟨hwf, hc⟩ := wf_run bs
  exact (emitReady_spec hwf hc 0 true).2.1

/-- **The join hands over every order once**, whatever merge of the partitions it gets:
each sent id once, with all its reports, and the counters add up to the ids sent.  A
second delivery of the same events, with any of them repeated within its window, changes
none of this. -/
theorem join_exactlyOnce (streams : List (List TsBatch)) (out : List TsBatch)
    (hw : InWindow streams) (hm : Merges TsBatch.le streams out) :
    (∀ id ∈ sentIDs (events streams.flatten), ∃ h, (finish out).handedAs id = [h] ∧
      h.isSent = true ∧ Settles (ofID id (events streams.flatten)) h) ∧
    (finish out).matchedOrders + (finish out).lostOrders +
      (finish out).captureGaps = (sentIDs (events streams.flatten)).dedup.length ∧
    ∀ (streams' : List (List TsBatch)) (out' : List TsBatch),
      (∀ e, e ∈ events streams'.flatten ↔ e ∈ events streams.flatten) →
      InWindow streams' → Merges TsBatch.le streams' out' →
      (∀ id ∈ sentIDs (events streams.flatten), ∃ h h',
        (finish out).handedAs id = [h] ∧ (finish out').handedAs id = [h'] ∧ Agrees h h') ∧
      (finish out').matchedOrders + (finish out').lostOrders +
        (finish out').captureGaps = (finish out).matchedOrders +
          (finish out).lostOrders + (finish out).captureGaps ∧
      (finish out').matchedOrders = (finish out).matchedOrders ∧
      ((∀ s s', Event.sent s ∈ events streams.flatten → Event.sent s' ∈ events streams.flatten →
          s.orderID = s'.orderID → s = s') →
        (finish out').lostOrders = (finish out).lostOrders ∧
          (finish out').captureGaps = (finish out).captureGaps) := by
  have hj := hw.settled hm
  have hc := counted_finish out
  have hne : ∀ id ∈ sentIDs (events streams.flatten), ofID id (events streams.flatten) ≠ [] := by
    intro id hid
    exact ne_nil_of_mem (mem_sentIDs.mp hid).choose_spec
  refine ⟨fun id hid => ?_, hj.sum_eq hc, fun streams' out' hsame hw' hm' => ?_⟩
  · obtain ⟨h, hh, hs⟩ := (hj id).2 (hne id hid)
    exact ⟨h, hh, hs.isSent_iff.mpr (mem_sentIDs.mp hid), hs⟩
  have hc' := counted_finish out'
  have hj' := (hw'.settled hm').congr hsame
  have hmatched : ∀ id h h', Settles (ofID id (events streams.flatten)) h →
      Settles (ofID id (events streams.flatten)) h' → h.isMatched = h'.isMatched := by
    intro id h h' hs hs'
    exact Bool.eq_iff_iff.mpr (hs.isMatched_iff.trans hs'.isMatched_iff.symm)
  have hmeq : (finish out').matchedOrders = (finish out).matchedOrders := by
    rw [hc.matched, hc'.matched]
    exact hj.count_eq hj' hmatched
  have hsum := (hj'.sum_eq hc').trans (hj.sum_eq hc).symm
  refine ⟨fun id hid => ?_, hsum, hmeq, fun hone => ?_⟩
  · obtain ⟨h, hh, hs⟩ := (hj id).2 (hne id hid)
    obtain ⟨h', hh', hs'⟩ := (hj' id).2 (hne id hid)
    refine ⟨h, h', hh, hh', hs.agrees hs' (fun s s' hmem hmem' => ?_)⟩
    exact (mem_ofID.mp hmem).2.trans (mem_ofID.mp hmem').2.symm
  have hlost : (finish out').lostOrders = (finish out).lostOrders := by
    rw [hc.lost, hc'.lost]
    refine hj.count_eq hj' (fun id h h' hs hs' => Bool.eq_iff_iff.mpr ?_)
    have hone' : ∀ s s', Event.sent s ∈ ofID id (events streams.flatten) →
        Event.sent s' ∈ ofID id (events streams.flatten) → s = s' := by
      intro s s' hmem hmem'
      obtain ⟨hmem, hid⟩ := mem_ofID.mp hmem
      obtain ⟨hmem', hid'⟩ := mem_ofID.mp hmem'
      exact hone s s' hmem hmem' (hid.trans hid'.symm)
    exact (hs.isLost_iff hone').trans (hs'.isLost_iff hone').symm
  exact ⟨hlost, by omega⟩

/-- An order with two reports, delivered twice, one the bot gave up on, and one sent long
after both. -/
def redelivered : List (List TsBatch) :=
  let acks : List OrderAckedEvent :=
    [{ orderID := "a", t3XDPIngressNS := 1200, t7XDPEgressNS := 1300, execType := "0" },
      { orderID := "a", t3XDPIngressNS := 1200, t7XDPEgressNS := 1400, execType := "2",
        fillQty := 5, fillPrice := 100 }]
  [[{ ts := 1000, isAck := false, sent := [{ orderID := "a", sendTSNS := 1000, qty := 5 }] },
      { ts := 600000000, isAck := false, sent := [{ orderID := "c", sendTSNS := 600000000 }] }],
    [{ ts := 1500, isAck := false,
       sent := [{ orderID := "b", sendTSNS := 1500, timedOut := true }] }],
    [{ ts := 1200, isAck := true, acks := acks }, { ts := 1200, isAck := true, acks := acks }]]

theorem join_exactlyOnce_redelivered :
    InWindow redelivered ∧
      (finish (mergeStreams 5 redelivered)).matchedOrders +
        (finish (mergeStreams 5 redelivered)).lostOrders +
        (finish (mergeStreams 5 redelivered)).captureGaps = 3 := by
  have hw : InWindow redelivered := ⟨by decide, by decide⟩
  have hm := merges_mergeStreams 5 redelivered (by decide)
  exact ⟨hw, (join_exactlyOnce redelivered _ hw hm).2.1.trans (by decide)⟩

end MatchBench.Source
