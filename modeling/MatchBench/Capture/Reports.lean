import MatchBench.Capture.Packing
import MatchBench.Source.Once

/-!
# From messages to the reports that are graded

The events of the capture are published (`acked`, in `src/main.rs`), some of them more than
once, and the validator joins them to the order.  It drops an acknowledgement that has the
execution type, quantity, price and time of one that it holds.

The time is that of the segment in which the message begins, so two messages of an order
that begin in one segment and report the same are taken for one.  `heldEach_iff` says that
this is the only way to lose a report: the order holds one for each message exactly when no
two such messages are packed together (`Apart`).
-/

namespace MatchBench.Capture

open List
open Source

/-- `flush`: the event as it is published. -/
def MatchedEvent.acked (e : MatchedEvent) : OrderAckedEvent where
  orderID := e.orderID
  srcIP := e.srcIP
  srcPort := e.srcPort
  tcpSeq := e.tcpSeq
  t3XDPIngressNS := e.t3Ns
  t7XDPEgressNS := e.t7Ns
  execType := e.execType
  fillQty := e.fillQty
  fillPrice := e.fillPrice
  origOrderID := e.origOrderID

/-- The acknowledgements among the events. -/
def acksIn (es : List Event) : List OrderAckedEvent :=
  es.filterMap (fun e => match e with | .ack a => some a | .sent _ => none)

variable {evs : List MatchedEvent} {a : OrderAckedEvent} {bs : List TsBatch} {tags : List Nat}

theorem mem_acksIn {es : List Event} : a ∈ acksIn es ↔ Event.ack a ∈ es := by
  rw [acksIn, mem_filterMap]
  constructor
  · rintro ⟨e, he, ha⟩
    cases e with
    | sent s => exact absurd ha (by simp)
    | ack b =>
      rw [← Option.some.inj ha]
      exact he
  · exact fun h => ⟨_, h, rfl⟩

/-! ### The messages of an order -/

section

variable (mm : Finder UInt8) (transport : Transport) (id : String)

/-- A response message for the order. -/
def isFor (m : List UInt8) : Bool :=
  (parse mm transport .response m).classified = .response &&
    (parse mm transport .response m).clordid = id

/-- The messages for the order, each with its offset in the stream. -/
def messagesFor (ms : List (List UInt8)) : List (Nat × List UInt8) :=
  (placed 0 (ms.map (Parcel.mk []))).filter (fun x => isFor mm transport id x.2)

/-- What a message reports, besides the time. -/
def reportFields (m : List UInt8) : String × UInt64 × UInt64 :=
  ((parse mm transport .response m).execType, (parse mm transport .response m).fillQty,
    (parse mm transport .response m).fillPrice)

/-- The execution report of a message of the stream. -/
def reportAt (offset : UInt64) (segs : List (UInt64 × List UInt8)) (x : Nat × List UInt8) :
    Response :=
  ⟨(parse mm transport .response x.2).execType, (parse mm transport .response x.2).fillQty,
    (parse mm transport .response x.2).fillPrice, timeAt segs x.1 + offset⟩

/-- The execution reports of the order's messages. -/
def reports (offset : UInt64) (segs : List (UInt64 × List UInt8)) (ms : List (List UInt8)) :
    List Response := (messagesFor mm transport id ms).map (reportAt mm transport offset segs)

/-- A way to pack whole messages into segments, with increasing times. -/
structure Packing (segs : List (UInt64 × List UInt8)) (ms : List (List UInt8)) : Prop where
  bytes : segmentBytes segs = ms.flatten
  nonempty : ∀ s ∈ segs, s.2 ≠ []
  increasing : segs.Pairwise (fun a b => a.1 < b.1)
  whole : ∀ m ∈ ms, Whole mm transport .response m

/-- No two messages of the order begin in one segment and report the same. -/
def Apart (segs : List (UInt64 × List UInt8)) (ms : List (List UInt8)) : Prop :=
  (messagesFor mm transport id ms).Pairwise (fun a b =>
    segmentAt segs a.1 = segmentAt segs b.1 →
      reportFields mm transport a.2 ≠ reportFields mm transport b.2)

end

variable {mm : Finder UInt8} {transport : Transport} {id : String}

theorem reports_eq (offset : UInt64) (segs : List (UInt64 × List UInt8)) (ms : List (List UInt8)) :
    (placed 0 (ms.map (Parcel.mk []))).filterMap (reportOf mm transport offset segs id) =
      reports mm transport id offset segs ms := by
  rw [reports, messagesFor]
  induction placed 0 (ms.map (Parcel.mk [])) with
  | nil => rfl
  | cons x xs ih =>
    have hfor : isFor mm transport id x.2 = true ↔
        (parse mm transport .response x.2).classified = .response ∧
          (parse mm transport .response x.2).clordid = id := by
      rw [isFor, Bool.and_eq_true, decide_eq_true_iff, decide_eq_true_iff]
    by_cases hx : isFor mm transport id x.2 = true
    · have hone : reportOf mm transport offset segs id x =
          some (reportAt mm transport offset segs x) := if_pos (hfor.mp hx)
      rw [filterMap_cons_some hone, filter_cons, if_pos hx, map_cons, ih]
    · have hnone : reportOf mm transport offset segs id x = none :=
        if_neg (fun hc => hx (hfor.mpr hc))
      rw [filterMap_cons_none hnone, filter_cons, if_neg hx, ih]

theorem stream_messages (ms : List (List UInt8)) :
    stream (ms.map (Parcel.mk [])) [] = ms.flatten := by
  rw [stream, append_nil, flatMap_map]
  exact flatMap_id

theorem placed_lt : ∀ (ps : List Parcel) (x : Nat), ∀ y ∈ placed x ps, 0 < y.2.length →
    y.1 < x + (stream ps []).length := by
  intro ps
  induction ps with
  | nil => exact nofun
  | cons p ps ih =>
    intro x y hy hpos
    rw [stream_cons, length_append, length_append]
    rcases mem_cons.mp hy with hy | hy
    · rw [hy] at hpos ⊢
      dsimp only at hpos ⊢
      omega
    · have := ih _ y hy hpos
      omega

theorem placed_mem (ps : List Parcel) : ∀ (x : Nat), ∀ y ∈ placed x ps,
    ∃ p ∈ ps, y.2 = p.message := by
  induction ps with
  | nil => exact nofun
  | cons p ps ih =>
    intro x y hy
    rcases mem_cons.mp hy with hy | hy
    · exact ⟨p, .head _, by rw [hy]⟩
    · obtain ⟨p', hp', he⟩ := ih _ y hy
      exact ⟨p', mem_cons_of_mem _ hp', he⟩

/-- **The reports differ** exactly when the messages are packed apart. -/
theorem nodup_reports_iff {segs : List (UInt64 × List UInt8)} {ms : List (List UInt8)}
    (h : Packing mm transport segs ms) (offset : UInt64) :
    (reports mm transport id offset segs ms).Nodup ↔ Apart mm transport id segs ms := by
  have hin : ∀ y ∈ messagesFor mm transport id ms, y.1 < (segmentBytes segs).length := by
    intro y hy
    have hy' := (mem_filter.mp hy).1
    obtain ⟨p, hp, he⟩ := placed_mem _ _ y hy'
    obtain ⟨m, hm, hpm⟩ := mem_map.mp hp
    have hpos : 0 < y.2.length := by
      rw [he, ← hpm]
      exact (h.whole m hm).length_pos
    have := placed_lt _ _ y hy' hpos
    rw [stream_messages, ← h.bytes] at this
    omega
  rw [reports, Nodup, pairwise_map, Apart]
  refine List.Pairwise.iff_of_mem (fun {a b} ha hb => ?_)
  rw [← timeAt_inj h.increasing (hin a ha) (hin b hb), ne_eq, reportAt, reportAt, Response.mk.injEq,
    reportFields, reportFields, ne_eq, Prod.mk.injEq, Prod.mk.injEq, UInt64.add_left_inj]
  tauto

/-! ### The reports that the join holds -/

/-- The events of the order reach the join, each at least once and in any order: `tags` says
which event each acknowledgement is.  The order has not been handed over yet. -/
structure Joined (id : String) (evs : List MatchedEvent) (tags : List Nat) (bs : List TsBatch) :
    Prop where
  acks : acksIn (ofID id (events bs)) =
    tags.filterMap (fun i => ((eventsOf id evs).map MatchedEvent.acked)[i]?)
  all : ∀ i, i ∈ tags ↔ i < (eventsOf id evs).length
  waiting : (Join.run bs).handedAs id = []

/-- The join holds each report once, and drops an event only if it had that very event. -/
structure HeldEach (id : String) (rs : List Response) (tags : List Nat) (bs : List TsBatch) :
    Prop where
  one : (responses ((Join.run bs).held id).acks).Perm rs
  total : ((responses ((Join.run bs).held id).acks).map (fun r => r.fillQty.toNat)).sum =
    (rs.map (fun r => r.fillQty.toNat)).sum
  dropped : ∀ xs a ys, ofID id (events bs) = xs ++ Event.ack a :: ys →
    ((collect xs).addAck a).2 = false →
    ∃ i, tags[(acksIn xs).length]? = some i ∧ i ∈ tags.take (acksIn xs).length

theorem acksIn_append (xs ys : List Event) : acksIn (xs ++ ys) = acksIn xs ++ acksIn ys :=
  filterMap_append

theorem Joined.tag (h : Joined id evs tags bs) {n : Nat}
    (ha : (acksIn (ofID id (events bs)))[n]? = some a) :
    ∃ i, tags[n]? = some i ∧ ((eventsOf id evs).map MatchedEvent.acked)[i]? = some a := by
  have hget : ∀ i ∈ tags, ∃ b, ((eventsOf id evs).map MatchedEvent.acked)[i]? = some b := by
    intro i hi
    have := (h.all i).mp hi
    exact ⟨_, getElem?_eq_getElem (by rwa [length_map])⟩
  rw [h.acks] at ha
  clear h
  induction tags generalizing n with
  | nil => exact absurd ha (by simp)
  | cons i tags ih =>
    obtain ⟨b, hb⟩ := hget i (.head _)
    rw [filterMap_cons_some hb] at ha
    cases n with
    | zero => exact ⟨i, rfl, by rw [hb, ← ha]; rfl⟩
    | succ n => exact ih ha (fun j hj => hget j (.tail _ hj))

theorem Joined.mem_responses (h : Joined id evs tags bs) (r : Response) :
    r ∈ responses ((Join.run bs).held id).acks ↔
      r ∈ (eventsOf id evs).map MatchedEvent.response := by
  have hrep := (collected_collect (ofID id (events bs))).reports
  rw [Join.held_run h.waiting]
  constructor
  · intro hr
    obtain ⟨a, ha, he⟩ := mem_map.mp hr
    have hin := mem_acksIn.mpr (hrep.mem a ha)
    rw [h.acks, mem_filterMap] at hin
    obtain ⟨i, _, hi⟩ := hin
    obtain ⟨e, hmem, hea⟩ := mem_map.mp (mem_of_getElem? hi)
    exact mem_map.mpr ⟨e, hmem, by rw [← he, ← hea]; rfl⟩
  intro hr
  obtain ⟨e, he, her⟩ := mem_map.mp hr
  obtain ⟨i, hlt, hi⟩ := mem_iff_getElem.mp he
  have hin : e.acked ∈ acksIn (ofID id (events bs)) := by
    rw [h.acks, mem_filterMap]
    refine ⟨i, (h.all i).mpr hlt, ?_⟩
    rw [getElem?_map, getElem?_eq_getElem hlt, hi]
    rfl
  rw [← her]
  exact hrep.all _ (mem_acksIn.mp hin)

theorem Joined.dropped (h : Joined id evs tags bs)
    (hnodup : ((eventsOf id evs).map MatchedEvent.response).Nodup) {xs ys : List Event}
    (hes : ofID id (events bs) = xs ++ Event.ack a :: ys)
    (hdrop : ((collect xs).addAck a).2 = false) :
    ∃ i, tags[(acksIn xs).length]? = some i ∧ i ∈ tags.take (acksIn xs).length := by
  have hacks : acksIn (ofID id (events bs)) = acksIn xs ++ a :: acksIn ys := by
    rw [hes, acksIn_append]
    rfl
  obtain ⟨i, hi, hia⟩ := h.tag (n := (acksIn xs).length) (a := a)
    (by rw [hacks, getElem?_append_right le_rfl, Nat.sub_self]; rfl)
  refine ⟨i, hi, ?_⟩
  -- the acknowledgement that is held in its place
  have hheld : a.response ∈ responses (collect xs).acks := by
    by_contra hn
    rw [addAck_eq, if_neg hn] at hdrop
    exact absurd hdrop Bool.true_eq_false.mp
  obtain ⟨b, hb, hba⟩ := mem_map.mp hheld
  obtain ⟨k, hk, hkb⟩ := mem_iff_getElem.mp
    (mem_acksIn.mpr ((collected_collect xs).reports.mem b hb))
  obtain ⟨j, hj, hjb⟩ := h.tag (n := k) (a := b)
    (by rw [hacks, getElem?_append_left hk, getElem?_eq_getElem hk, hkb])
  have hij : j = i := by
    have hr : ∀ {n : Nat} {c : OrderAckedEvent},
        ((eventsOf id evs).map MatchedEvent.acked)[n]? = some c →
        ((eventsOf id evs).map MatchedEvent.response)[n]? = some c.response := by
      intro n c hc
      rw [getElem?_map, Option.map_eq_some_iff] at hc ⊢
      obtain ⟨e, he, hec⟩ := hc
      exact ⟨e, he, by rw [← hec]; rfl⟩
    obtain ⟨hlt, _⟩ := List.getElem?_eq_some_iff.mp (hr hjb)
    exact (getElem?_inj hlt hnodup).mp (by rw [hr hjb, hr hia, hba])
  rw [← hij]
  refine mem_iff_getElem?.mpr ⟨k, ?_⟩
  rw [getElem?_take, if_pos hk, hj]

/-- **A report for each message** exactly when no two messages of the order that begin in one
segment report the same, however the stream is packed and the events are redelivered. -/
theorem heldEach_iff {flow : FlowKey} {seq : UInt32} {segs : List (UInt64 × List UInt8)}
    {ms : List (List UInt8)} {p q : Pipeline} {evs : List MatchedEvent} {tags : List Nat}
    {bs : List TsBatch} (hpack : Packing mm transport segs ms) (hkey : Matcher.fitsKey id = true)
    (hnew : p.reassemblers.lookup (flow, .response) = none)
    (hrun : Session mm (flow, .response) id p (captures flow transport .response seq segs) q evs)
    (hjoin : Joined id evs tags bs) :
    HeldEach id (reports mm transport id p.clockOffsetNs segs ms) tags bs ↔
      Apart mm transport id segs ms := by
  have hre : p.reassembler (flow, .response) = Reassembler.new := by
    rw [Pipeline.reassembler, hnew, Option.getD_none]
  have hstart : Underway mm transport segs seq p.clockOffsetNs [] segs
      (p.reassembler (flow, .response)) (fun _ => ⟨0, 0, 0⟩) (ms.map (Parcel.mk [])) := by
    rw [hre]
    refine ⟨rfl, ⟨rfl, fun h => Bool.noConfusion h⟩,
      ⟨[], ?_, ?_, .inl rfl, Reassembler.marked_new _⟩, ?_, rfl, fun x hx => absurd hx x.not_lt_zero⟩
    · rw [stream_messages, ← hpack.bytes]
      rfl
    · intro x hx
      obtain ⟨m, hm, he⟩ := mem_map.mp hx
      rw [← he]
      exact ⟨hpack.whole m hm, .inl rfl⟩
    · intro x hx
      obtain ⟨m, hm, he⟩ := mem_map.mp (mem_of_mem_head? hx)
      rw [← he, length_nil, zero_add]
      exact (hpack.whole m hm).length_pos
  have hevs : (eventsOf id evs).map MatchedEvent.response =
      reports mm transport id p.clockOffsetNs segs ms := by
    rw [session_reports hkey hpack.nonempty hrun (by rw [segmentBytes]; simp) hstart, hre]
    exact reports_eq _ _ _
  have hmem := hjoin.mem_responses
  rw [hevs] at hmem
  have hheld : (responses ((Join.run bs).held id).acks).Nodup := by
    rw [Join.held_run hjoin.waiting]
    exact (collected_collect _).reports.nodup
  rw [← nodup_reports_iff hpack p.clockOffsetNs]
  constructor
  · exact fun h => h.one.nodup_iff.mp hheld
  intro hn
  have hperm := (perm_ext_iff_of_nodup hheld hn).mpr hmem
  refine ⟨hperm, (hperm.map _).sum_eq, fun xs a ys hes hdrop => hjoin.dropped ?_ hes hdrop⟩
  rw [hevs]
  exact hn

/-! ### Two fills in one segment -/

/-- A fill of five at ten for the order `A`; two executions differ in their number.  With bars
for the separators, it reads `8=FIX.4.4|9=32|35=8|11=A|17=…|150=F|32=5|31=10|10=000|`. -/
def fill (execID : UInt8) : List UInt8 :=
  [56, 61, 70, 73, 88, 46, 52, 46, 52, soh, 57, 61, 51, 50, soh,
    51, 53, 61, 56, soh, 49, 49, 61, 65, soh, 49, 55, 61, execID, soh,
    49, 53, 48, 61, 70, soh, 51, 50, 61, 53, soh, 51, 49, 61, 49, 48, soh,
    49, 48, 61, 48, 48, 48, soh]

/-- A connection of the contestant. -/
def client : FlowKey := ⟨2, 5000⟩

/-- The pipeline once it has seen the order `A`. -/
def orderSeen : Pipeline :=
  { Pipeline.withOffset 0 with matcher := Matcher.new.onRequest "A" 1 client 1 false }

/-- The event of a fill in a segment at the given time. -/
def fillEvent (t7 : UInt64) : MatchedEvent :=
  ⟨"A", 2, 5000, 1, 1, t7, t7 - 1, "F", 5, 10000000000, "", false, 0, 0⟩

/-- The two fills, in one segment or in two. -/
def together : List (UInt64 × List UInt8) := [(5, fill 49 ++ fill 50)]

def apart : List (UInt64 × List UInt8) := [(5, fill 49), (7, fill 50)]

theorem packing_together : Packing Finder.naive .fix together [fill 49, fill 50] where
  bytes := by decide +kernel
  nonempty := by decide +kernel
  increasing := by decide +kernel
  whole := by
    simp only [Whole]
    decide +kernel

theorem packing_apart : Packing Finder.naive .fix apart [fill 49, fill 50] where
  bytes := by decide +kernel
  nonempty := by decide +kernel
  increasing := by decide +kernel
  whole := by
    simp only [Whole]
    decide +kernel

/-- The events of the captures, while the order is in flight and the buffer has room. -/
def takeAll (mm : Finder UInt8) (id : String) : Pipeline → List Capture → Option (List MatchedEvent)
  | _, [] => some []
  | p, cap :: caps =>
      if (p.pushed cap).2.bufferOverflow = false ∧ p.matcher.inflight.lookup id ≠ none then
        (p.process mm cap).bind (fun x => (takeAll mm id x.1 caps).map (fun evs => x.2 ++ evs))
      else none

theorem session_of_takeAll {key : FlowKey × Direction} : ∀ {caps : List Capture} {p : Pipeline}
    {evs : List MatchedEvent}, takeAll mm id p caps = some evs →
    ∃ q, Session mm key id p caps q evs := by
  intro caps
  induction caps with
  | nil =>
    intro p evs h
    rw [← Option.some.inj h]
    exact ⟨p, .done p⟩
  | cons cap caps ih =>
    intro p evs h
    rw [takeAll] at h
    split_ifs at h with hok
    obtain ⟨⟨p', out⟩, hp, h⟩ := Option.bind_eq_some_iff.mp h
    obtain ⟨evs', hevs, he⟩ := Option.map_eq_some_iff.mp h
    obtain ⟨q, hq⟩ := ih hevs
    rw [← he]
    exact ⟨q, .segment ⟨hok.1, fun _ _ _ _ => hok.2⟩ hp hq⟩

/-- The acknowledgements, as one batch. -/
def ackBatch (evs : List MatchedEvent) : TsBatch :=
  { ts := 5, isAck := true, acks := evs.map MatchedEvent.acked }

/-- In one segment the second fill is taken for the first. -/
theorem not_heldEach_together :
    Packing Finder.naive .fix together [fill 49, fill 50] ∧ fill 49 ≠ fill 50 ∧
      (∃ q, Session Finder.naive (client, .response) "A" orderSeen
        (captures client .fix .response 1 together) q [fillEvent 5, fillEvent 5]) ∧
      Joined "A" [fillEvent 5, fillEvent 5] [0, 1] [ackBatch [fillEvent 5, fillEvent 5]] ∧
      ((Join.run [ackBatch [fillEvent 5, fillEvent 5]]).held "A").acks = [(fillEvent 5).acked] ∧
      ¬ HeldEach "A" (reports Finder.naive .fix "A" 0 together [fill 49, fill 50]) [0, 1]
        [ackBatch [fillEvent 5, fillEvent 5]] := by
  refine ⟨packing_together, by decide +kernel, session_of_takeAll (by decide +kernel), ⟨?_, ?_, ?_⟩,
    by decide +kernel, fun h => ?_⟩
  · decide +kernel
  · intro i
    simp [eventsOf, fillEvent]
    omega
  · decide +kernel
  · exact absurd h.total (by decide +kernel)

/-- In two segments both fills are held. -/
theorem heldEach_apart :
    HeldEach "A" (reports Finder.naive .fix "A" 0 apart [fill 49, fill 50]) [1, 0, 1]
      [ackBatch [fillEvent 7, fillEvent 5], ackBatch [fillEvent 7]] := by
  have hrun : ∃ q, Session Finder.naive (client, .response) "A" orderSeen
      (captures client .fix .response 1 apart) q [fillEvent 5, fillEvent 7] :=
    session_of_takeAll (by decide +kernel)
  obtain ⟨q, hq⟩ := hrun
  refine (heldEach_iff packing_apart (by decide +kernel) rfl hq ⟨?_, ?_, ?_⟩).mpr ?_
  · decide +kernel
  · intro i
    simp [eventsOf, fillEvent]
    omega
  · decide +kernel
  · rw [Apart]
    decide +kernel

end MatchBench.Capture
