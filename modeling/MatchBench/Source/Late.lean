import MatchBench.Source.Once

/-!
# Late reports

A resting order is filled when its taker arrives, which may be long after it was sent;
the fill carries the ingress time of the resting order.  In the order the events are
produced (`InProduction`) such a fill comes behind batches that lead by more than the
join window, and then its order has been handed over: `finish_lateFill` is a session
where the fill becomes a phantom.

`answered_applied_once` is what does hold: an order whose events are all taken before
the merge is a join window past any of them is applied once, with all its reports.
-/

namespace MatchBench.Source

open List
open Reorderer

/-! ### Orders keep their id -/

namespace Join

/-- What is held and what was handed over for an id carries the id. -/
structure Keyed (j : Join) (id : String) : Prop where
  held : (j.held id).hasSent = true → (j.held id).sent.orderID = id
  handed : ∀ o, Handover.matched o ∈ j.handedAs id → o.orderID = id

variable {j : Join} {id : String}

theorem held_foldl_takeEvent (es : List Event) (h : j.WF) (id : String) :
    (es.foldl takeEvent j).held id = (ofID id es).foldl PendingOrder.add (j.held id) := by
  rw [held, (take_spec es j h).2.2 id]
  by_cases hes : ofID id es = []
  · rw [if_pos hes, hes, foldl_nil, held]
  · rw [if_neg hes, Option.getD_some]

theorem hasSent_foldl_add : ∀ (es : List Event) (po : PendingOrder),
    (∀ e ∈ es, e.orderID = id) → (po.hasSent = true → po.sent.orderID = id) →
    (es.foldl PendingOrder.add po).hasSent = true →
      (es.foldl PendingOrder.add po).sent.orderID = id := by
  intro es
  induction es with
  | nil =>
    intro po _ hpo
    exact hpo
  | cons e es ih =>
    intro po hes hpo
    rw [foldl_cons]
    refine ih _ (fun f hf => hes f (.tail _ hf)) ?_
    cases e with
    | sent s => exact fun _ => hes _ (.head _)
    | ack a =>
      rw [PendingOrder.add]
      split
      · split <;> exact hpo
      · exact hpo

theorem Keyed.take (h : Keyed j id) (hwf : j.WF) (b : TsBatch) : Keyed (j.take b) id := by
  rw [take_eq]
  refine ⟨?_, ?_⟩
  · rw [held_foldl_takeEvent b.events hwf]
    exact hasSent_foldl_add _ _ (fun e he => (mem_ofID.mp he).2) h.held
  · rw [handedAs_congr (take_spec b.events j hwf).2.1]
    exact h.handed

theorem Keyed.emit {j j' : Join} {w : UInt64} {f : Bool} (h : Keyed j id)
    (he : Emits w f j j' id) : Keyed j' id := by
  cases he with
  | keeps hk hh _ =>
    have hheld : j'.held id = j.held id := by rw [Join.held, Join.held, hk]
    refine ⟨?_, ?_⟩
    · rw [hheld]
      exact h.held
    · rw [hh]
      exact h.handed
  | hands po hpo hk hh _ =>
    have hheld : j.held id = po := by rw [Join.held, hpo, Option.getD_some]
    refine ⟨?_, fun o ho => ?_⟩
    · rw [Join.held, hk]
      intro hs
      cases hs
    rw [hh, mem_append, mem_singleton] at ho
    rcases ho with ho | ho
    · exact h.handed o ho
    have hkey := h.held
    rw [hheld] at hkey
    rw [PendingOrder.handover] at ho
    cases hs : po.hasSent with
    | false =>
      rw [hs, if_pos rfl] at ho
      exact absurd ho (by simp)
    | true =>
      rw [hs, if_neg (by simp)] at ho
      cases ha : assembleOrder po.sent po.acks with
      | none =>
        rw [ha] at ho
        cases ht : po.sent.timedOut <;> simp [ht] at ho
      | some o' =>
        rw [ha] at ho
        rw [Handover.matched.inj ho, (assembleOrder_eq_some ha).1]
        exact hkey hs

theorem keyed_run (bs : List TsBatch) (id : String) : Keyed (run bs) id := by
  induction bs using reverseRecOn with
  | nil => exact ⟨nofun, nofun⟩
  | append_singleton bs b ih =>
    obtain ⟨hwf, hc⟩ := wf_run bs
    obtain ⟨hwf', hc'⟩ := wf_take hwf hc b
    rw [run_snoc]
    exact (ih.take hwf b).emit ((emitReady_spec hwf' hc' b.ts false).2.2 id)

theorem keyed_finish (bs : List TsBatch) (id : String) : Keyed (finish bs) id := by
  obtain ⟨hwf, hc⟩ := wf_run bs
  exact (keyed_run bs id).emit ((emitReady_spec hwf hc 0 true).2.2 id)

theorem filter_pushed (h : ∀ id, Keyed j id) (id : String) :
    j.pushed.filter (fun o => o.orderID = id) =
      (j.handedAs id).filterMap (fun x => match x with | .matched o => some o | _ => none) := by
  have hkey : ∀ x ∈ j.handed, ∀ o, x.2 = Handover.matched o → o.orderID = x.1 := by
    intro x hx o ho
    exact (h x.1).handed o (mem_handedAs.mpr (ho ▸ hx))
  rw [pushed, handedAs]
  generalize j.handed = l at hkey
  induction l with
  | nil => rfl
  | cons x l ih =>
    have ih' := ih (fun y hy => hkey y (.tail _ hy))
    obtain ⟨k, hx⟩ := x
    cases hx with
    | matched o =>
      have hok : o.orderID = k := hkey _ (.head _) o rfl
      by_cases hk : k = id
      · simp [hok, hk, ih']
      · simp [hok, hk, ih']
    | lost kind | captureGap | unsent fills => by_cases hk : k = id <;> simp [hk, ih']

end Join

/-! ### Applied once -/

/-- **An answered order is applied once, with all its reports**, when the merge takes
all its events before it is a join window past any of them. -/
theorem answered_applied_once (window : Int64) (streams : List (List TsBatch))
    (out : List TsBatch) (hm : Merges TsBatch.le streams out) (id : String)
    (ht : Timely out id) (hsent : ∃ s, Event.sent s ∈ ofID id (events streams.flatten))
    (hack : ∃ a, Event.ack a ∈ ofID id (events streams.flatten)) :
    ∃ s acks o, Event.sent s ∈ ofID id (events streams.flatten) ∧
      Reports (ofID id (events streams.flatten)) acks ∧ assembleOrder s acks = some o ∧
      (Join.finish out).handedAs id = [.matched o] ∧
      ((reordered window (Join.finish out).pushed).filter (fun x => x.orderID = id)).map
        Order.raw = [o.raw] := by
  have hmem : ∀ e, e ∈ ofID id (events out) ↔ e ∈ ofID id (events streams.flatten) := by
    intro e
    rw [mem_ofID, mem_ofID, mem_events_of_merges hm]
  have hne : ofID id (events out) ≠ [] :=
    ne_nil_of_mem ((hmem _).mpr hsent.choose_spec)
  have hfin := Join.handedAs_finish ht
  rw [if_neg hne] at hfin
  have hs := (settles_collect (ofID id (events out))).congr hmem
  have hmatched := hs.isMatched_iff.mpr ⟨hsent, hack⟩
  generalize (collect (ofID id (events out))).handover = h at hfin hs hmatched
  cases hs with
  | matched s acks o hs hr ho =>
    refine ⟨s, acks, o, hs, hr, ho, hfin, ?_⟩
    have hpush := Join.filter_pushed (Join.keyed_finish out) id
    rw [hfin] at hpush
    -- the reorderer stamps the orders it emits, and leaves the id alone
    have hraw : ∀ l : List Order, (l.filter (fun x => x.orderID = id)).map Order.raw =
        (l.map Order.raw).filter (fun x => x.orderID = id) := by
      intro l
      rw [filter_map]
      rfl
    have hperm := (perm_reordered window (Join.finish out).pushed).filter
      (fun x => decide (x.orderID = id))
    rw [← hraw, ← hraw, hpush] at hperm
    exact perm_singleton.mp hperm
  | lost | captureGap | unsent => cases hmatched

theorem answered_applied_once_redelivered :
    ∃ o, (Join.finish (mergeStreams 5 redelivered)).handedAs "a" = [.matched o] ∧
      ((reordered 1 (Join.finish (mergeStreams 5 redelivered)).pushed).filter
        (fun x => x.orderID = "a")).map Order.raw = [o.raw] := by
  have hw : InWindow redelivered := ⟨by decide, by decide⟩
  have hm := merges_mergeStreams 5 redelivered (by decide)
  obtain ⟨s, acks, o, _, _, _, hh, happ⟩ := answered_applied_once 1 redelivered _ hm "a"
    (hw.timely hm "a")
    ⟨{ orderID := "a", sendTSNS := 1000, qty := 5 }, by decide⟩
    ⟨{ orderID := "a", t3XDPIngressNS := 1200, t7XDPEgressNS := 1300, execType := "0" }, by decide⟩
  exact ⟨o, hh, happ⟩

/-! ### Sessions in production order -/

/-- How long the bot waits for a response. -/
def responseTimeoutNS : UInt64 := 5 * 1000 * 1000 * 1000

/-- A sent event is produced when the bot has the first response or gives up, an
acknowledgement when the response leaves the pod. -/
def Event.produced : Event → UInt64
  | .sent s => if s.timedOut then s.sendTSNS + responseTimeoutNS else s.recvDoneTSNS
  | .ack a => a.t7XDPEgressNS

/-- Partitions as they are written: each batch leads with the time of its first event,
each partition is in the order of production, the acknowledgements of an order share its
ingress time, and an answer comes after the order and before the bot sees it. -/
structure InProduction (streams : List (List TsBatch)) : Prop where
  leads : ∀ b ∈ streams.flatten, b.events.head?.map Event.time = some b.ts
  ordered : ∀ s ∈ streams, (events s).Pairwise (fun e f => e.produced ≤ f.produced)
  ingress : ∀ b ∈ streams.flatten, ∀ a ∈ b.acks, ∀ c ∈ streams.flatten, ∀ a' ∈ c.acks,
    a.orderID = a'.orderID → a.t3XDPIngressNS = a'.t3XDPIngressNS
  answers : ∀ b ∈ streams.flatten, ∀ s ∈ b.sent, ∀ c ∈ streams.flatten, ∀ a ∈ c.acks,
    s.orderID = a.orderID → s.sendTSNS ≤ a.t3XDPIngressNS ∧ a.t3XDPIngressNS ≤ a.t7XDPEgressNS
  first : ∀ b ∈ streams.flatten, ∀ s ∈ b.sent, s.timedOut = false →
    s.recvDoneTSNS ≤ s.sendTSNS + responseTimeoutNS ∧
      ∃ c ∈ streams.flatten, ∃ a ∈ c.acks, a.orderID = s.orderID ∧ a.t7XDPEgressNS ≤ s.recvDoneTSNS

/-- A resting order that is answered at once and filled a second later. -/
def lateFill : List (List TsBatch) :=
  [[{ ts := 1000000000, isAck := false,
      sent := [{ orderID := "maker", sendTSNS := 1000000000, recvDoneTSNS := 1002000000,
                 qty := 5, price := 1 }] },
    { ts := 2000000000, isAck := false,
      sent := [{ orderID := "taker", sendTSNS := 2000000000, recvDoneTSNS := 2002000000,
                 qty := 5, price := 1, side := "SELL" }] }],
   [{ ts := 1001000000, isAck := true,
      acks := [{ orderID := "maker", t3XDPIngressNS := 1001000000,
                 t7XDPEgressNS := 1001500000, execType := "0" }] },
    { ts := 2001000000, isAck := true,
      acks := [{ orderID := "taker", t3XDPIngressNS := 2001000000,
                 t7XDPEgressNS := 2001500000, execType := "2", fillQty := 5,
                 fillPrice := 1000000000 }] },
    { ts := 1001000000, isAck := true,
      acks := [{ orderID := "maker", t3XDPIngressNS := 1001000000,
                 t7XDPEgressNS := 2001600000, execType := "2", fillQty := 5,
                 fillPrice := 1000000000 }] }]]

/-- **A late fill becomes a phantom**: its order was handed over without it. -/
theorem finish_lateFill :
    InProduction lateFill ∧ Merges TsBatch.le lateFill (mergeStreams 5 lateFill) ∧
      ((Join.finish (mergeStreams 5 lateFill)).handedAs "maker").map
        (fun h => match h with
          | .matched o => (o.responses.map Response.execType, ([] : List (UInt64 × Int64)))
          | .unsent fills => ([], fills)
          | _ => ([], [])) = [(["0"], []), ([], [(5, 1000000000)])] := by
  have hp : InProduction lateFill := ⟨by decide, by decide, by decide, by decide, by decide⟩
  exact ⟨hp, merges_mergeStreams 5 lateFill (by decide), by decide⟩

end MatchBench.Source
