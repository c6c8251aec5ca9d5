import MatchBench.Telemetry.Aggregate

/-!
# An order is measured once

An order is scored by the first of its responses that the aggregator sees.  It remembers
the order in `firstResponse`, but a snapshot forgets orders whose last response is five
seconds old, and the next response of such an order is scored again: a resting order that
fills late adds a second sample, and one with the time it rested.

`Prompt` is the condition under which this does not happen: no snapshot falls five seconds
or more behind the latest response of an order that will have another.  Under it the memory
of an order is carried from one response to the next (`Remembered`), by `firstResponse` or,
for an order that the client gave up, by `timedOutOrders`.
-/

namespace MatchBench.Telemetry

open List AList

variable {accepts : Nat → Bool}

/-- The acked events of an order. -/
def acksOf (orderId : String) (es : List Event) : List AckedEvent :=
  (ackedOf es).filter fun e => e.orderId == orderId

/-- The rest of a run, after `pre`, has no snapshot that is five seconds or more later than
all responses so far of an order that is to have another one. -/
def PromptFrom : List Event → List Event → Prop
  | _, [] => True
  | pre, .snapshot nowNs :: post =>
      (∀ e ∈ ackedOf pre, acksOf e.orderId post ≠ [] →
        ∃ e' ∈ acksOf e.orderId pre, nowNs < e'.t7XdpEgressNs + firstRespIdleNs) ∧
      PromptFrom (pre ++ [.snapshot nowNs]) post
  | pre, .sent e :: post => PromptFrom (pre ++ [.sent e]) post
  | pre, .acked e :: post => PromptFrom (pre ++ [.acked e]) post

def Prompt (es : List Event) : Prop := PromptFrom [] es

instance decidablePromptFrom : ∀ pre post, Decidable (PromptFrom pre post)
  | _, [] => inferInstanceAs (Decidable True)
  | pre, .snapshot nowNs :: post =>
      @instDecidableAnd _ _ inferInstance (decidablePromptFrom (pre ++ [.snapshot nowNs]) post)
  | pre, .sent e :: post => decidablePromptFrom (pre ++ [.sent e]) post
  | pre, .acked e :: post => decidablePromptFrom (pre ++ [.acked e]) post

instance (es : List Event) : Decidable (Prompt es) := decidablePromptFrom [] es

namespace Aggregator

/-- The responses counted in all windows. -/
def responded (a : Aggregator) : Nat := tableSum (fun _ w => w.responded) a.windows

/-- The service-time samples of all windows. -/
def samples (a : Aggregator) : Nat := tableSum (fun _ w => w.serviceTime.length) a.windows

variable (accepts) in
/-- What the responses of an order add to a total, over a run. -/
def contributed (total : Aggregator → Nat) (orderId : String) : Aggregator → List Event → Nat
  | _, [] => 0
  | a, .acked e :: es =>
      (if e.orderId = orderId then total (a.observeAcked accepts e) - total a else 0) +
        contributed total orderId (a.observeAcked accepts e) es
  | a, .sent e :: es => contributed total orderId (a.observeSent accepts e) es
  | a, .snapshot nowNs :: es => contributed total orderId (a.snapshot nowNs).1 es

variable {a : Aggregator}

/-! ### One response -/

theorem responded_observeAcked (e : AckedEvent) :
    (a.observeAcked accepts e).responded = a.responded + if a.Scores e then 1 else 0 := by
  by_cases hd : a.Dropped e
  · rw [responded, hd.skips.windows, if_neg fun h => h.1 hd]
    rfl
  refine tableSum_observeAcked hd (fun _ _ _ => rfl) fun wave w => ?_
  rw [(ackedWindow_counters accepts e _ w).2.2.1]
  by_cases hs : a.firstResponse.lookup e.orderId = none
  · rw [if_pos ⟨hd, hs⟩, hs]
    rfl
  · rw [if_neg fun h => hs h.2, Option.isNone_eq_false_iff.mpr (Option.isSome_iff_ne_none.mpr hs)]
    rfl

theorem length_record (hist : Histogram) (valueNs : Nat) :
    (record accepts hist valueNs).length =
      hist.length + if accepts (max valueNs 1) then 1 else 0 := by
  unfold record
  split_ifs
  · rw [length_append, length_singleton]
  · rfl

theorem samples_observeAcked (e : AckedEvent) :
    (a.observeAcked accepts e).samples =
      a.samples + if a.Scores e ∧ accepts (max e.podServiceTimeNs 1) then 1 else 0 := by
  by_cases hd : a.Dropped e
  · rw [samples, hd.skips.windows, if_neg fun h => h.1.1 hd]
    rfl
  refine tableSum_observeAcked hd (fun _ _ _ => rfl) fun wave w => ?_
  rw [(ackedWindow_counters accepts e _ w).2.2.2.2]
  by_cases hs : a.firstResponse.lookup e.orderId = none
  · have hiff : a.Scores e ∧ accepts (max e.podServiceTimeNs 1) = true ↔
        accepts (max e.podServiceTimeNs 1) = true := and_iff_right ⟨hd, hs⟩
    rw [hs, Option.isNone_none, if_pos rfl, length_record]
    simp [hiff]
  · rw [Option.isNone_eq_false_iff.mpr (Option.isSome_iff_ne_none.mpr hs),
      if_neg Bool.false_ne_true, if_neg fun h => hs h.1.2]
    rfl

/-! ### What is remembered of an order -/

/-- One of the two tables has the order, with a time no earlier than any of `acks`. -/
def Remembered (a : Aggregator) (orderId : String) (acks : List AckedEvent) : Prop :=
  (∃ last, a.firstResponse.lookup orderId = some last ∧ ∀ e ∈ acks, e.t7XdpEgressNs ≤ last) ∨
    ∃ mark, a.timedOutOrders.lookup orderId = some mark ∧ ∀ e ∈ acks, e.t7XdpEgressNs ≤ mark

variable {acks : List AckedEvent} {orderId : String} {e : AckedEvent}

theorem exists_lookup_insert_max {t : GoMap String Nat} {orderId key : String} {n : Nat}
    (h : ∃ last, t.lookup orderId = some last ∧ ∀ e ∈ acks, e.t7XdpEgressNs ≤ last) :
    ∃ last, (t.insert key (max ((t.lookup key).getD 0) n)).lookup orderId = some last ∧
      ∀ e ∈ acks, e.t7XdpEgressNs ≤ last := by
  obtain ⟨last, hlook, hle⟩ := h
  by_cases hkey : orderId = key
  · subst hkey
    rw [hlook]
    exact ⟨_, lookup_insert t, fun e he => (hle e he).trans (le_max_left _ _)⟩
  · exact ⟨last, (lookup_insert_ne hkey).trans hlook, hle⟩

theorem forall_mem_concat {n : Nat} (h : ∀ e' ∈ acks, e'.t7XdpEgressNs ≤ n)
    (he : e.t7XdpEgressNs ≤ n) :
    ∀ e' ∈ acks ++ [e], e'.t7XdpEgressNs ≤ n := by
  intro e' hmem
  rcases mem_append.mp hmem with hmem | hmem
  · exact h e' hmem
  · rw [mem_singleton.mp hmem]
    exact he

theorem Remembered.observeSent (h : a.Remembered orderId acks) (e : SentEvent) :
    (a.observeSent accepts e).Remembered orderId acks := by
  rcases h with h | h
  · left
    rwa [firstResponse_observeSent]
  right
  rw [timedOutOrders_observeSent]
  split_ifs
  · exact exists_lookup_insert_max h
  · exact h

theorem Remembered.observeAcked (h : a.Remembered orderId acks) (e : AckedEvent) :
    (a.observeAcked accepts e).Remembered orderId acks := by
  by_cases hd : a.Dropped e
  · refine h.imp (fun h => ?_) (fun h => ?_)
    · rwa [hd.skips.firstResponse]
    · rw [hd.skips.timedOutOrders]
      exact exists_lookup_insert_max h
  · refine h.imp (fun h => ?_) (fun h => ?_)
    · rw [(takes_observeAcked hd).firstResponse]
      exact exists_lookup_insert_max h
    · rwa [(takes_observeAcked hd).timedOutOrders]

theorem Remembered.response (h : acks = [] ∨ a.Remembered e.orderId acks) :
    (a.observeAcked accepts e).Remembered e.orderId (acks ++ [e]) := by
  by_cases hd : a.Dropped e
  · by_cases hseen : ∃ last, a.firstResponse.lookup e.orderId = some last ∧
        ∀ e' ∈ acks ++ [e], e'.t7XdpEgressNs ≤ last
    · left
      rwa [hd.skips.firstResponse]
    right
    rw [hd.skips.timedOutOrders]
    refine ⟨_, lookup_insert _, forall_mem_concat ?_ (le_max_right _ _)⟩
    intro e' he'
    rcases h with rfl | ⟨last, hlook, hle⟩ | ⟨mark, hlook, hle⟩
    · cases he'
    · -- the response is later than the tracker's time, so it is the latest of all
      have hlt : last < e.t7XdpEgressNs := by
        by_contra hnot
        exact hseen ⟨last, hlook, forall_mem_concat hle (not_lt.mp hnot)⟩
      exact ((hle e' he').trans hlt.le).trans (le_max_right _ _)
    · rw [hlook]
      exact (hle e' he').trans (le_max_left _ _)
  · left
    rw [(takes_observeAcked hd).firstResponse]
    refine ⟨_, lookup_insert _, forall_mem_concat ?_ (le_max_right _ _)⟩
    intro e' he'
    rcases h with rfl | ⟨last, hlook, hle⟩ | ⟨mark, hlook, -⟩
    · cases he'
    · rw [hlook]
      exact (hle e' he').trans (le_max_left _ _)
    · exact absurd (Option.isSome_iff_exists.mpr ⟨mark, hlook⟩) hd

theorem Remembered.snapshot {nowNs : Nat} (h : a.Remembered orderId acks)
    (hnow : ∃ e ∈ acks, nowNs < e.t7XdpEgressNs + firstRespIdleNs) :
    (a.snapshot nowNs).1.Remembered orderId acks := by
  obtain ⟨e, he, hlt⟩ := hnow
  have hpos : 0 < firstRespIdleNs := by decide
  have hidle : firstRespIdleNs ≤ timedOutIdleNs := by decide
  refine h.imp ?_ ?_
  · rintro ⟨last, hlook, hle⟩
    refine ⟨last, mem_lookup_retained.mpr ⟨hlook, decide_eq_true ?_⟩, hle⟩
    have := hle e he
    omega
  · rintro ⟨mark, hlook, hle⟩
    refine ⟨mark, mem_lookup_retained.mpr ⟨hlook, decide_eq_true ?_⟩, hle⟩
    have := hle e he
    omega

theorem Remembered.not_scores (h : a.Remembered e.orderId acks) : ¬ a.Scores e := by
  rintro ⟨hd, hnone⟩
  rcases h with ⟨last, hlook, -⟩ | ⟨mark, hlook, -⟩
  · exact nomatch hnone.symm.trans hlook
  · exact hd (Option.isSome_iff_exists.mpr ⟨mark, hlook⟩)

/-! ### Whole runs -/

theorem acksOf_concat_acked (orderId : String) (es : List Event) (e : AckedEvent) :
    acksOf orderId (es ++ [.acked e]) =
      acksOf orderId es ++ if e.orderId = orderId then [e] else [] := by
  unfold acksOf ackedOf
  rw [filterMap_append, filter_append]
  by_cases h : e.orderId = orderId
  · simp [h]
  · simp [h]

theorem acksOf_concat_other {es : List Event} {e : Event} (h : ∀ e', e ≠ .acked e') :
    acksOf orderId (es ++ [e]) = acksOf orderId es := by
  unfold acksOf ackedOf
  rw [filterMap_append, filter_append]
  cases e with
  | acked e' => exact absurd rfl (h e')
  | sent e' | snapshot nowNs => exact append_nil _

theorem mem_ackedOf {es : List Event} (h : acksOf orderId es ≠ []) :
    ∃ e ∈ ackedOf es, e.orderId = orderId := by
  obtain ⟨e, he⟩ := exists_mem_of_ne_nil _ h
  obtain ⟨hmem, hid⟩ := mem_filter.mp he
  exact ⟨e, hmem, beq_iff_eq.mp hid⟩

/-- **The rest of a run.**  If the responses so far of an order are remembered, as long as
there are more to come, then the rest adds nothing for it; if there are none so far, it adds
at most one. -/
theorem contributed_le {total : Aggregator → Nat} (orderId : String)
    (htotal : ∀ (a : Aggregator) (e : AckedEvent),
      total (a.observeAcked accepts e) ≤ total a + if a.Scores e then 1 else 0) :
    ∀ (post pre : List Event) (a : Aggregator), PromptFrom pre post →
      (acksOf orderId pre ≠ [] → acksOf orderId post ≠ [] →
        a.Remembered orderId (acksOf orderId pre)) →
      contributed accepts total orderId a post ≤ if acksOf orderId pre = [] then 1 else 0 := by
  intro post
  induction post with
  | nil => intro pre a _ _; exact Nat.zero_le _
  | cons e post ih =>
    intro pre a hprompt hrem
    cases e with
    | sent e =>
      have hacks : acksOf orderId (pre ++ [.sent e]) = acksOf orderId pre :=
        acksOf_concat_other fun _ h => nomatch h
      rw [contributed, ← hacks]
      refine ih (pre ++ [.sent e]) _ hprompt fun hpre hpost => ?_
      rw [hacks] at hpre ⊢
      exact (hrem hpre hpost).observeSent e
    | snapshot nowNs =>
      have hacks : acksOf orderId (pre ++ [.snapshot nowNs]) = acksOf orderId pre :=
        acksOf_concat_other fun _ h => nomatch h
      rw [contributed, ← hacks]
      refine ih (pre ++ [.snapshot nowNs]) _ hprompt.2 fun hpre hpost => ?_
      rw [hacks] at hpre ⊢
      obtain ⟨e, he, rfl⟩ := mem_ackedOf hpre
      exact (hrem hpre hpost).snapshot (hprompt.1 e he hpost)
    | acked e =>
      have hacks := acksOf_concat_acked orderId pre e
      by_cases hid : e.orderId = orderId
      · subst hid
        have hpost : acksOf e.orderId (.acked e :: post) ≠ [] := by
          unfold acksOf ackedOf
          simp
        have hheld : acksOf e.orderId pre = [] ∨ a.Remembered e.orderId (acksOf e.orderId pre) := by
          by_cases hpre : acksOf e.orderId pre = []
          · exact .inl hpre
          · exact .inr (hrem hpre hpost)
        rw [if_pos rfl] at hacks
        have hrest := ih (pre ++ [.acked e]) (a.observeAcked accepts e) hprompt
          fun _ _ => hacks ▸ Remembered.response hheld
        rw [hacks, if_neg (by simp)] at hrest
        have hone := htotal a e
        rw [contributed, if_pos rfl]
        rcases hheld with hpre | hheld
        · rw [if_pos hpre]
          split_ifs at hone <;> omega
        · rw [if_neg hheld.not_scores] at hone
          omega
      · rw [if_neg hid, append_nil] at hacks
        rw [contributed, if_neg hid, zero_add, ← hacks]
        refine ih (pre ++ [.acked e]) _ hprompt fun hpre hpost => ?_
        rw [hacks] at hpre ⊢
        refine (hrem hpre ?_).observeAcked e
        have hcons : acksOf orderId (.acked e :: post) = acksOf orderId post := by
          unfold acksOf ackedOf
          simp [hid]
        rwa [hcons]

/-- **An order is measured once**, whatever the events, if no snapshot falls five seconds
behind the latest response of an order that will have another. -/
theorem measured_once (waveNs : Nat) (orderId : String) (es : List Event) (h : Prompt es) :
    contributed accepts samples orderId (new waveNs) es ≤ 1 ∧
      contributed accepts responded orderId (new waveNs) es ≤ 1 := by
  have hrem : acksOf orderId [] ≠ [] → acksOf orderId es ≠ [] →
      (new waveNs).Remembered orderId (acksOf orderId []) := fun hne => absurd rfl hne
  refine ⟨contributed_le orderId (fun a e => ?_) es [] _ h hrem,
    contributed_le orderId (fun a e => (responded_observeAcked e).le) es [] _ h hrem⟩
  rw [samples_observeAcked]
  split_ifs with hboth hs
  · exact le_rfl
  · exact absurd hboth.1 hs
  · exact Nat.le_succ _
  · exact le_rfl

/-- A response of the order `o1` at time `t7`, ingress at zero. -/
def ackedAt (t7 : Nat) (execType : String) (fillQty : Nat) : AckedEvent :=
  { sessionId := "S", contestantId := "c-1", orderId := "o1", t3XdpIngressNs := 0,
    t7XdpEgressNs := t7, podServiceTimeNs := t7, execType := execType, fillQty := fillQty,
    liquidityInd := 0 }

/-- An order whose fills keep coming within five seconds of each other. -/
def streamingFills : List Event :=
  [.acked (ackedAt 1000000000 "0" 0), .snapshot 1500000000, .acked (ackedAt 4000000000 "1" 5),
    .snapshot 6000000000, .acked (ackedAt 6500000000 "2" 5), .snapshot 7000000000]

theorem measured_once_streamingFills :
    Prompt streamingFills ∧ contributed hdrAccepts samples "o1" (new 20000000000) streamingFills ≤ 1 :=
  ⟨by decide +kernel, (measured_once 20000000000 "o1" streamingFills (by decide +kernel)).1⟩

/-- A resting order that fills six seconds after its acknowledgement. -/
theorem late_fill_measured_again :
    contributed hdrAccepts samples "o1" (new 20000000000)
      [.acked (ackedAt 1000000000 "0" 0), .snapshot 6000000000,
        .acked (ackedAt 7000000000 "2" 5)] = 2 ∧
    contributed hdrAccepts responded "o1" (new 20000000000)
      [.acked (ackedAt 1000000000 "0" 0), .snapshot 6000000000,
        .acked (ackedAt 7000000000 "2" 5)] = 2 := by
  decide +kernel

end Aggregator

end MatchBench.Telemetry
