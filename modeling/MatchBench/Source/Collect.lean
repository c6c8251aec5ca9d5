import MatchBench.Source.Join

/-!
# What the join makes of an order's events

A batch is a list of events, each of one order id (`TsBatch.events`).  The join
treats the ids apart: what it holds for an id is the fold of the id's events
(`collect`), and what it hands over is read off that fold (`PendingOrder.handover`).

`settles_collect` says what the fold of a set of events is handed over as, without
the fold: a matched order with every report once, a lost order, a capture gap or
phantoms (`Settles`).  `take_spec` and `emitReady_spec` say what the two halves of a
turn do to one id.
-/

namespace MatchBench.Source

open List Option AList PendingOrder

inductive Event
  | sent (s : OrderSentEvent)
  | ack (a : OrderAckedEvent)
  deriving DecidableEq, Repr

def Event.orderID : Event → String
  | .sent s => s.orderID
  | .ack a => a.orderID

/-- The send time of a sent event, the ingress time of an acknowledgement. -/
def Event.time : Event → UInt64
  | .sent s => s.sendTSNS
  | .ack a => a.t3XDPIngressNS

def TsBatch.events (b : TsBatch) : List Event :=
  if b.isAck then b.acks.map .ack else b.sent.map .sent

def events (bs : List TsBatch) : List Event := bs.flatMap TsBatch.events

def ofID (id : String) (es : List Event) : List Event := es.filter (fun e => e.orderID = id)

variable {es : List Event} {acks : List OrderAckedEvent} {id : String} {e : Event}
  {po : PendingOrder}

theorem mem_ofID : e ∈ ofID id es ↔ e ∈ es ∧ e.orderID = id := by
  rw [ofID, mem_filter, decide_eq_true_iff]

theorem ofID_append (id : String) (es fs : List Event) :
    ofID id (es ++ fs) = ofID id es ++ ofID id fs := filter_append _ _

theorem ofID_eq_nil : ofID id es = [] ↔ ∀ e ∈ es, e.orderID ≠ id := by
  rw [ofID, filter_eq_nil_iff]
  simp [ne_eq]

theorem events_append (bs cs : List TsBatch) : events (bs ++ cs) = events bs ++ events cs :=
  flatMap_append

theorem mem_events {bs : List TsBatch} : e ∈ events bs ↔ ∃ b ∈ bs, e ∈ b.events := mem_flatMap

/-! ### Collecting events -/

/-- A pending order with one more event. -/
def PendingOrder.add (po : PendingOrder) : Event → PendingOrder
  | .sent s => { po with sent := s, hasSent := true, sendTS := s.sendTSNS }
  | .ack a =>
      if (po.addAck a).2 then
        if po.t3 = 0 then { po with acks := po.acks ++ [a], t3 := a.t3XDPIngressNS }
        else { po with acks := po.acks ++ [a] }
      else po

def collect (es : List Event) : PendingOrder := es.foldl PendingOrder.add PendingOrder.zero

theorem collect_snoc (es : List Event) (e : Event) : collect (es ++ [e]) = (collect es).add e := by
  rw [collect, collect, foldl_append, foldl_cons, foldl_nil]

theorem sameReport_iff (held a : OrderAckedEvent) :
    sameReport held a = true ↔ held.response = a.response := by
  simp only [sameReport, OrderAckedEvent.response, Bool.and_eq_true, beq_iff_eq, Response.mk.injEq]
  tauto

theorem addAck_eq (po : PendingOrder) (a : OrderAckedEvent) :
    po.addAck a = if a.response ∈ responses po.acks then (po, false)
      else ({ po with acks := po.acks ++ [a] }, true) := by
  have h : po.acks.any (fun held => sameReport held a) = true ↔ a.response ∈ responses po.acks := by
    rw [List.any_eq_true, responses, List.mem_map]
    simp [sameReport_iff]
  rw [addAck]
  by_cases hr : a.response ∈ responses po.acks
  · rw [if_pos (h.mpr hr), if_pos hr]
  · rw [if_neg (fun hc => hr (h.mp hc)), if_neg hr]

/-- The acknowledgements among the events, each report once. -/
structure Reports (es : List Event) (acks : List OrderAckedEvent) : Prop where
  mem : ∀ a ∈ acks, Event.ack a ∈ es
  nodup : (responses acks).Nodup
  all : ∀ a, Event.ack a ∈ es → a.response ∈ responses acks

/-- What a pending order holds of its events. -/
structure Collected (es : List Event) (po : PendingOrder) : Prop where
  reports : Reports es po.acks
  hasSent_iff : po.hasSent = true ↔ ∃ s, Event.sent s ∈ es
  sent : po.hasSent = true → Event.sent po.sent ∈ es ∧ po.sendTS = po.sent.sendTSNS
  sendTS : po.hasSent = false → po.sendTS = 0
  t3 : po.t3 = 0 ∧ po.acks = [] ∨ ∃ a, Event.ack a ∈ es ∧ po.t3 = a.t3XDPIngressNS

theorem Collected.zero : Collected [] PendingOrder.zero where
  reports := ⟨fun _ h => absurd h (not_mem_nil),  nodup_nil,
    fun _ h => absurd h (not_mem_nil)⟩
  hasSent_iff := by simp [PendingOrder.zero]
  sent h := by simp [PendingOrder.zero] at h
  sendTS _ := rfl
  t3 := .inl ⟨rfl, rfl⟩

theorem Reports.mono {es fs : List Event} (h : Reports es acks) (hsub : ∀ e ∈ es, e ∈ fs)
    (hack : ∀ a, Event.ack a ∈ fs → a.response ∈ responses acks) :
    Reports fs acks :=
  ⟨fun a ha => hsub _ (h.mem a ha), h.nodup, hack⟩

theorem Collected.addSent (h : Collected es po) (s : OrderSentEvent) :
    Collected (es ++ [.sent s]) (po.add (.sent s)) where
  reports := by
    refine h.reports.mono (fun e he => mem_append_left _ he) (fun a ha => ?_)
    rcases mem_append.mp ha with ha | ha
    · exact h.reports.all a ha
    · simp at ha
  hasSent_iff := by simp [add]
  sent _ := ⟨by simp [add], rfl⟩
  sendTS hs := by simp [add] at hs
  t3 := by
    rcases h.t3 with h3 | ⟨a, ha, h3⟩
    · exact .inl h3
    · exact .inr ⟨a, mem_append_left _ ha, h3⟩

theorem Reports.snoc (h : Reports es acks) {a : OrderAckedEvent}
    (hnew : a.response ∉ responses acks) :
    Reports (es ++ [.ack a]) (acks ++ [a]) where
  mem b hb := by
    rcases mem_append.mp hb with hb | hb
    · exact mem_append_left _ (h.mem b hb)
    · rw [mem_singleton.mp hb]
      exact mem_append_right _ (.head _)
  nodup := by
    rw [responses, map_append, map_singleton]
    refine nodup_append.mpr ⟨h.nodup, nodup_singleton _, fun r hr r' hr' he => hnew ?_⟩
    rw [← mem_singleton.mp hr', ← he]
    exact hr
  all b hb := by
    rw [responses, map_append, map_singleton, mem_append]
    rcases mem_append.mp hb with hb | hb
    · exact .inl (h.all b hb)
    · rw [Event.ack.inj (mem_singleton.mp hb)]
      exact .inr (.head _)

theorem Collected.addAck (h : Collected es po) (a : OrderAckedEvent) :
    Collected (es ++ [.ack a]) (po.add (.ack a)) := by
  have hl : ∀ e ∈ es, e ∈ es ++ [Event.ack a] := fun e he => mem_append_left _ he
  have hself : Event.ack a ∈ es ++ [Event.ack a] :=
    mem_append_right _ (.head _)
  have hsent : ∀ s, Event.sent s ∈ es ++ [Event.ack a] ↔ Event.sent s ∈ es := by
    intro s
    simp
  have hiff : po.hasSent = true ↔ ∃ s, Event.sent s ∈ es ++ [Event.ack a] := by
    simp only [hsent]
    exact h.hasSent_iff
  have hs : po.hasSent = true →
      Event.sent po.sent ∈ es ++ [Event.ack a] ∧ po.sendTS = po.sent.sendTSNS :=
    fun hp => ⟨hl _ (h.sent hp).1, (h.sent hp).2⟩
  rw [add, addAck_eq]
  by_cases hnew : a.response ∈ responses po.acks
  · -- a redelivery: nothing is added
    rw [if_pos hnew, if_neg Bool.false_ne_true]
    refine ⟨h.reports.mono hl (fun b hb => ?_), hiff, hs, h.sendTS, ?_⟩
    · rcases mem_append.mp hb with hb | hb
      · exact h.reports.all b hb
      · rw [Event.ack.inj (mem_singleton.mp hb)]
        exact hnew
    · rcases h.t3 with h3 | ⟨b, hb, h3⟩
      · exact .inl h3
      · exact .inr ⟨b, hl _ hb, h3⟩
  rw [if_neg hnew, if_pos rfl]
  by_cases h0 : po.t3 = 0
  · rw [if_pos h0]
    exact ⟨h.reports.snoc hnew, hiff, hs, h.sendTS, .inr ⟨a, hself, rfl⟩⟩
  rw [if_neg h0]
  refine ⟨h.reports.snoc hnew, hiff, hs, h.sendTS, .inr ?_⟩
  rcases h.t3 with h3 | ⟨b, hb, h3⟩
  · exact absurd h3.1 h0
  · exact ⟨b, hl _ hb, h3⟩

theorem collected_collect (es : List Event) : Collected es (collect es) := by
  induction es using reverseRecOn with
  | nil => exact Collected.zero
  | append_singleton es e ih =>
    rw [collect_snoc]
    cases e with
    | sent s => exact ih.addSent s
    | ack a => exact ih.addAck a

theorem refTime_collect (hne : es ≠ []) : ∃ e ∈ es, Join.refTime (collect es) = e.time := by
  have h := collected_collect es
  rw [Join.refTime]
  by_cases h0 : (collect es).sendTS = 0
  · rw [if_pos h0]
    rcases h.t3 with ⟨h3, hacks⟩ | ⟨a, ha, h3⟩
    · -- no acknowledgement, so a sent event, whose send time is zero
      have hsent : (collect es).hasSent = true := by
        obtain ⟨e, he⟩ := exists_mem_of_ne_nil es hne
        cases e with
        | sent s => exact h.hasSent_iff.mpr ⟨s, he⟩
        | ack a =>
          have := h.reports.all a he
          rw [hacks] at this
          simp [responses] at this
      obtain ⟨hmem, hts⟩ := h.sent hsent
      refine ⟨_, hmem, ?_⟩
      rw [h3, Event.time, ← hts, h0]
    · exact ⟨_, ha, h3⟩
  · rw [if_neg h0]
    have hsent : (collect es).hasSent = true := by
      cases hs : (collect es).hasSent with
      | false => exact absurd (h.sendTS hs) h0
      | true => rfl
    exact ⟨_, (h.sent hsent).1, (h.sent hsent).2⟩

/-! ### What is handed over -/

/-- The fills of acknowledgements without a sent event. -/
def phantoms (acks : List OrderAckedEvent) : List (UInt64 × Int64) :=
  (acks.filter (fun a => streamIsFill a.execType a.fillQty)).map
    (fun a => (a.fillQty, a.fillPrice.toInt64))

/-- What a pending order is handed over as. -/
def PendingOrder.handover (po : PendingOrder) : Handover :=
  if po.hasSent = false then .unsent (phantoms po.acks)
  else
    match assembleOrder po.sent po.acks with
    | some o => .matched o
    | none => if po.sent.timedOut then .lost (kindFrom po.sent.payloadType po.sent.ordType)
        else .captureGap

def Handover.isMatched : Handover → Bool
  | .matched _ => true
  | _ => false

def Handover.isLost : Handover → Bool
  | .lost _ => true
  | _ => false

def Handover.isCaptureGap : Handover → Bool
  | .captureGap => true
  | _ => false

def Handover.isSent : Handover → Bool
  | .unsent _ => false
  | _ => true

/-- What the events of one order should be handed over as. -/
inductive Settles (es : List Event) : Handover → Prop
  | matched (s : OrderSentEvent) (acks : List OrderAckedEvent) (o : Order) :
      Event.sent s ∈ es → Reports es acks → assembleOrder s acks = some o →
      Settles es (.matched o)
  | lost (s : OrderSentEvent) : Event.sent s ∈ es → s.timedOut = true →
      (∀ a, Event.ack a ∉ es) → Settles es (.lost (kindFrom s.payloadType s.ordType))
  | captureGap (s : OrderSentEvent) : Event.sent s ∈ es → s.timedOut = false →
      (∀ a, Event.ack a ∉ es) → Settles es .captureGap
  | unsent (acks : List OrderAckedEvent) : (∀ s, Event.sent s ∉ es) → Reports es acks →
      Settles es (.unsent (phantoms acks))

theorem assembleOrder_eq_none {s : OrderSentEvent} : assembleOrder s acks = none ↔ acks = [] := by
  cases acks <;> simp [assembleOrder]

theorem Reports.eq_nil (h : Reports es []) (a : OrderAckedEvent) : Event.ack a ∉ es := by
  intro ha
  have := h.all a ha
  simp [responses] at this

/-- **The fold of an order's events is handed over as it should be.** -/
theorem settles_collect (es : List Event) : Settles es (collect es).handover := by
  have h := collected_collect es
  rw [handover]
  cases hs : (collect es).hasSent with
  | false =>
    rw [if_pos rfl]
    refine Settles.unsent _ (fun s hmem => ?_) h.reports
    rw [h.hasSent_iff.mpr ⟨s, hmem⟩] at hs
    exact Bool.false_ne_true hs.symm
  | true =>
    rw [if_neg (fun hc => Bool.false_ne_true hc.symm)]
    have hmem := (h.sent hs).1
    cases ho : assembleOrder (collect es).sent (collect es).acks with
    | some o => exact Settles.matched _ _ o hmem h.reports ho
    | none =>
      have hnil := assembleOrder_eq_none.mp ho
      have hr := h.reports
      rw [hnil] at hr
      cases ht : (collect es).sent.timedOut with
      | true => exact Settles.lost _ hmem ht hr.eq_nil
      | false => exact Settles.captureGap _ hmem ht hr.eq_nil

/-! ### One turn of the join -/

namespace Join

/-- The ids in `order` are those of the pending orders, each once. -/
structure WF (j : Join) : Prop where
  nodup : j.order.Nodup
  mem_iff : ∀ id, id ∈ j.order ↔ j.pending.lookup id ≠ none

/-- What has been handed over for an id. -/
def handedAs (j : Join) (id : String) : List Handover :=
  j.handed.filterMap (fun x => if x.1 = id then some x.2 else none)

/-- What has been handed over, with the counters of it. -/
def log (j : Join) : Nat × Nat × Nat × List (String × Handover) :=
  (j.matchedOrders, j.lostOrders, j.captureGaps, j.handed)

variable {j j' : Join}

theorem handedAs_congr (h : j'.log = j.log) (id : String) : j'.handedAs id = j.handedAs id := by
  have hh : j'.handed = j.handed := congrArg (fun x => x.2.2.2) h
  rw [handedAs, handedAs, hh]

def takeEvent (j : Join) : Event → Join
  | .sent s => j.takeSent s
  | .ack a => j.takeAck a

theorem take_eq (j : Join) (b : TsBatch) : j.take b = b.events.foldl takeEvent j := by
  rw [take, TsBatch.events]
  cases b.isAck with
  | true =>
    rw [if_pos rfl, if_pos rfl, foldl_map]
    rfl
  | false =>
    rw [if_neg Bool.false_ne_true, if_neg Bool.false_ne_true, foldl_map]
    rfl

/-- What is held for an id, with the zero value when there is nothing. -/
def held (j : Join) (id : String) : PendingOrder :=
  (j.pending.lookup id).getD PendingOrder.zero

theorem entry_spec (j : Join) (h : j.WF) (id : String) :
    (j.entry id).1 = j.held id ∧ (j.entry id).2.WF ∧
      (j.entry id).2.log = j.log ∧
      ∀ k, (j.entry id).2.pending.lookup k =
        if k = id then some (j.held id) else j.pending.lookup k := by
  rw [entry, held]
  cases hl : j.pending.lookup id with
  | some po =>
    refine ⟨rfl, h, rfl, fun k => ?_⟩
    by_cases hk : k = id
    · rw [if_pos hk, hk]
      exact hl
    · rw [if_neg hk]
  | none =>
    have hnot : id ∉ j.order := fun hmem => (h.mem_iff id).mp hmem hl
    have hlook : ∀ k, (j.pending.insert id zero).lookup k =
        if k = id then some zero else j.pending.lookup k := by
      intro k
      by_cases hk : k = id
      · rw [if_pos hk, hk, lookup_insert]
      · rw [if_neg hk, lookup_insert_ne hk]
    refine ⟨rfl, ⟨?_, fun k => ?_⟩, rfl, hlook⟩
    · refine nodup_append.mpr ⟨h.nodup, nodup_singleton _, fun a ha b hb he => hnot ?_⟩
      rw [← mem_singleton.mp hb, ← he]
      exact ha
    rw [hlook, mem_append, mem_singleton]
    by_cases hk : k = id
    · rw [if_pos hk]
      exact ⟨fun _ hc => some_ne_none _ hc, fun _ => .inr hk⟩
    · rw [if_neg hk, ← h.mem_iff k]
      exact ⟨fun hor => hor.resolve_right hk, Or.inl⟩

theorem WF.insert (h : j.WF) {po po' : PendingOrder} (hl : j.pending.lookup id = some po) :
    WF { j with pending := j.pending.insert id po' } where
  nodup := h.nodup
  mem_iff k := by
    by_cases hk : k = id
    · rw [hk, lookup_insert, h.mem_iff id, hl]
      exact ⟨fun _ => some_ne_none _, fun _ => some_ne_none _⟩
    · rw [lookup_insert_ne hk]
      exact h.mem_iff k

theorem takeEvent_spec (j : Join) (h : j.WF) (e : Event) :
    (j.takeEvent e).WF ∧ (j.takeEvent e).log = j.log ∧
      ∀ k, (j.takeEvent e).pending.lookup k =
        if k = e.orderID then some ((j.held k).add e) else j.pending.lookup k := by
  obtain ⟨hpo, hwf, hlog, hlook⟩ := entry_spec j h e.orderID
  have hself : (j.entry e.orderID).2.pending.lookup e.orderID = some (j.held e.orderID) := by
    rw [hlook, if_pos rfl]
  have hins : ∀ po' k, ((j.entry e.orderID).2.pending.insert e.orderID po').lookup k =
      if k = e.orderID then some po' else j.pending.lookup k := by
    intro po' k
    by_cases hk : k = e.orderID
    · rw [if_pos hk, hk, lookup_insert]
    · rw [if_neg hk, lookup_insert_ne hk, hlook, if_neg hk]
  cases e with
  | sent s =>
    refine ⟨hwf.insert hself, hlog, fun k => ?_⟩
    have htake := hins ((j.entry s.orderID).1.add (.sent s)) k
    rw [Event.orderID] at htake hpo
    refine htake.trans ?_
    by_cases hk : k = s.orderID
    · rw [Event.orderID, if_pos hk, if_pos hk, hpo, hk]
    · rw [Event.orderID, if_neg hk, if_neg hk]
  | ack a =>
    rw [Event.orderID] at hpo hself hwf hlog hlook hins
    rw [takeEvent, takeAck]
    simp only [hpo, Event.orderID, add, addAck_eq]
    by_cases hr : a.response ∈ responses (j.held a.orderID).acks
    · simp only [if_pos hr, if_neg Bool.false_ne_true]
      refine ⟨hwf, hlog, fun k => ?_⟩
      rw [hlook]
      by_cases hk : k = a.orderID
      · rw [if_pos hk, if_pos hk, hk, if_pos hr, if_neg Bool.false_ne_true]
      · rw [if_neg hk, if_neg hk]
    simp only [if_neg hr, if_true]
    refine ⟨hwf.insert hself, hlog, fun k => ?_⟩
    rw [hins]
    by_cases hk : k = a.orderID
    · rw [if_pos hk, if_pos hk, hk, if_neg hr, if_pos rfl]
    · rw [if_neg hk, if_neg hk]

theorem held_takeEvent (j : Join) (h : j.WF) (e : Event) (k : String) :
    (j.takeEvent e).held k = if k = e.orderID then (j.held k).add e else j.held k := by
  rw [held, (takeEvent_spec j h e).2.2 k]
  by_cases hk : k = e.orderID
  · rw [if_pos hk, if_pos hk, getD_some]
  · rw [if_neg hk, if_neg hk, held]

/-- **Taking a batch** folds the events of each id into what is held for it. -/
theorem take_spec (es : List Event) : ∀ (j : Join), j.WF →
    (es.foldl takeEvent j).WF ∧ (es.foldl takeEvent j).log = j.log ∧
      ∀ k, (es.foldl takeEvent j).pending.lookup k =
        if ofID k es = [] then j.pending.lookup k
        else some ((ofID k es).foldl add (j.held k)) := by
  induction es with
  | nil =>
    intro j h
    exact ⟨h, rfl, fun k => rfl⟩
  | cons e es ih =>
    intro j h
    obtain ⟨hwf, hlog, hlook⟩ := takeEvent_spec j h e
    obtain ⟨hwf', hlog', hlook'⟩ := ih _ hwf
    refine ⟨hwf', hlog'.trans hlog, fun k => ?_⟩
    rw [foldl_cons, hlook', hlook, held_takeEvent j h e k]
    by_cases hk : k = e.orderID
    · have hof : ofID k (e :: es) = e :: ofID k es := by
        rw [ofID, filter_cons_of_pos (by simpa using hk.symm), ofID]
      rw [hof, if_neg (cons_ne_nil _ _), if_pos hk, if_pos hk, foldl_cons]
      by_cases hnil : ofID k es = []
      · rw [if_pos hnil, hnil, foldl_nil]
      · rw [if_neg hnil]
    · have hof : ofID k (e :: es) = ofID k es := by
        rw [ofID, filter_cons_of_neg (by simpa using fun hc => hk hc.symm), ofID]
      rw [hof, if_neg hk, if_neg hk]

/-! ### Handing over -/

/-- The counters agree with what was handed over. -/
structure Counted (j : Join) : Prop where
  matched : j.matchedOrders = j.handed.countP (fun x => x.2.isMatched)
  lost : j.lostOrders = j.handed.countP (fun x => x.2.isLost)
  gaps : j.captureGaps = j.handed.countP (fun x => x.2.isCaptureGap)

theorem Counted.congr (hc : Counted j) (h : j'.log = j.log) : Counted j' := by
  simp only [log, Prod.mk.injEq] at h
  obtain ⟨hm, hl, hg, hh⟩ := h
  refine ⟨?_, ?_, ?_⟩
  · rw [hm, hh]
    exact hc.matched
  · rw [hl, hh]
    exact hc.lost
  · rw [hg, hh]
    exact hc.gaps

theorem handOver_handed (j : Join) (id : String) (po : PendingOrder) :
    (j.handOver id po).handed = j.handed ++ [(id, po.handover)] := by
  rw [handOver, handover, outcome]
  cases po.hasSent with
  | false => rfl
  | true =>
    cases hacks : po.acks with
    | nil =>
      cases po.sent.timedOut with
      | true | false => rfl
    | cons a as => rfl

theorem Counted.handOver (h : Counted j) (id : String) (po : PendingOrder) :
    Counted (j.handOver id po) := by
  obtain ⟨hm, hl, hg⟩ := h
  refine ⟨?_, ?_, ?_⟩ <;>
    rw [handOver_handed, countP_append, countP_singleton, Join.handOver, handover, outcome] <;>
    cases po.hasSent <;> cases po.acks <;> cases po.sent.timedOut <;>
    simp [assembleOrder, Handover.isMatched, Handover.isLost, Handover.isCaptureGap, hm, hl, hg]

theorem handOver_pending (j : Join) (id : String) (po : PendingOrder) :
    (j.handOver id po).pending = j.pending.erase id := by
  rw [handOver, outcome]
  cases po.hasSent with
  | false => rfl
  | true =>
    cases hacks : po.acks with
    | nil =>
      cases po.sent.timedOut with
      | true | false => rfl
    | cons a as => rfl

theorem handedAs_handOver (j : Join) (id : String) (po : PendingOrder) (k : String) :
    (j.handOver id po).handedAs k =
      if k = id then j.handedAs k ++ [po.handover] else j.handedAs k := by
  rw [handedAs, handOver_handed, filterMap_append, ← handedAs]
  by_cases hk : k = id
  · rw [if_pos hk, hk]
    simp
  · have hne : ¬ id = k := fun hc => hk hc.symm
    rw [if_neg hk]
    simp [hne]

/-- What `emitReady` does to one id: nothing, or it hands over what it holds. -/
inductive Emits (watermark : UInt64) (flushAll : Bool) (j j' : Join) (id : String) : Prop
  | keeps : j'.pending.lookup id = j.pending.lookup id → j'.handedAs id = j.handedAs id →
      (flushAll = true → j.pending.lookup id = none) → Emits watermark flushAll j j' id
  | hands (po : PendingOrder) : j.pending.lookup id = some po → j'.pending.lookup id = none →
      j'.handedAs id = j.handedAs id ++ [po.handover] →
      (flushAll = false → refTime po + defaultJoinWindowNS ≤ watermark) →
      Emits watermark flushAll j j' id

theorem emitLoop_spec (watermark : UInt64) (flushAll : Bool) : ∀ (ids : List String) (j : Join),
    ids.Nodup → (∀ id, id ∈ ids ↔ j.pending.lookup id ≠ none) → Counted j →
    (emitLoop watermark flushAll ids j).WF ∧ Counted (emitLoop watermark flushAll ids j) ∧
      ∀ id, Emits watermark flushAll j (emitLoop watermark flushAll ids j) id := by
  intro ids
  induction ids with
  | nil =>
    intro j _ hmem hc
    refine ⟨⟨nodup_nil, hmem⟩, ⟨hc.matched, hc.lost, hc.gaps⟩, fun id => ?_⟩
    refine Emits.keeps rfl rfl (fun _ => ?_)
    by_contra hne
    exact not_mem_nil ((hmem id).mpr hne)
  | cons a ids ih =>
    intro j hnd hmem hc
    obtain ⟨hnot, hnd'⟩ := nodup_cons.mp hnd
    cases hl : j.pending.lookup a with
    | none => exact absurd hl ((hmem a).mp (.head _))
    | some po =>
      simp only [emitLoop, hl]
      by_cases hw : (!flushAll && decide (watermark < refTime po + defaultJoinWindowNS)) = true
      · -- too recent: the loop stops here
        rw [if_pos hw]
        refine ⟨⟨hnd, hmem⟩, ⟨hc.matched, hc.lost, hc.gaps⟩, fun id => ?_⟩
        refine Emits.keeps rfl rfl (fun hf => ?_)
        rw [hf] at hw
        simp at hw
      rw [if_neg hw]
      have hlook : ∀ k, (j.handOver a po).pending.lookup k =
          if k = a then none else j.pending.lookup k := by
        intro k
        rw [handOver_pending]
        by_cases hk : k = a
        · rw [if_pos hk, hk, lookup_erase]
        · rw [if_neg hk, lookup_erase_ne hk]
      have hmem' : ∀ k, k ∈ ids ↔ (j.handOver a po).pending.lookup k ≠ none := by
        intro k
        rw [hlook]
        by_cases hk : k = a
        · rw [if_pos hk, hk]
          exact ⟨fun hc => absurd hc hnot, fun hc => absurd rfl hc⟩
        · rw [if_neg hk, ← hmem k, mem_cons]
          exact ⟨Or.inr, fun hor => hor.resolve_left hk⟩
      obtain ⟨hwf, hcount, hem⟩ := ih _ hnd' hmem' (hc.handOver a po)
      refine ⟨hwf, hcount, fun id => ?_⟩
      by_cases hid : id = a
      · rw [hid]
        -- nothing is left of the id, so the rest of the loop keeps it so
        rcases hem a with ⟨hk, hh, _⟩ | ⟨po', hpo', _⟩
        · refine Emits.hands po hl ?_ ?_ (fun hf => ?_)
          · rw [hk, hlook, if_pos rfl]
          · rw [hh, handedAs_handOver, if_pos rfl]
          · rw [hf] at hw
            simpa using hw
        · rw [hlook, if_pos rfl] at hpo'
          cases hpo'
      rcases hem id with ⟨hk, hh, hf⟩ | ⟨po', hpo', hk, hh, hf⟩
      · rw [hlook, if_neg hid] at hk hf
        rw [handedAs_handOver, if_neg hid] at hh
        exact Emits.keeps hk hh hf
      · rw [hlook, if_neg hid] at hpo'
        rw [handedAs_handOver, if_neg hid] at hh
        exact Emits.hands po' hpo' hk hh hf

/-- **`emitReady`** hands over ids that are due, each with all that is held for it. -/
theorem emitReady_spec (h : j.WF) (hc : Counted j) (watermark : UInt64) (flushAll : Bool) :
    (j.emitReady watermark flushAll).WF ∧ Counted (j.emitReady watermark flushAll) ∧
      ∀ id, Emits watermark flushAll j (j.emitReady watermark flushAll) id :=
  emitLoop_spec watermark flushAll j.order j h.nodup h.mem_iff hc

end Join

end MatchBench.Source
