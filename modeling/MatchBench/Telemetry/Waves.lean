import MatchBench.Telemetry.Aggregate

/-!
# The wave of an event

Every sent event of a session carries the epoch of its start barrier, and the first of them
fixes the session's start, so that waves are counted from the barrier whatever the order in
which a consumer sees the events.  Until a sent event has come, though, an acked event starts
the session at its own time, or at the earliest so far, and its wave is counted from there.

`booked_in_wave_iff` says exactly when every event of a session is booked in the wave counted
from the barrier: when this earliest time leaves the wave of each such early acked event
unchanged, and the wave index fits in 32 bits.
-/

namespace MatchBench.Telemetry

open List Option AList

variable {accepts : Nat → Bool}

/-- A sent or acked event of the session, at or after its barrier. -/
def Event.OfSession (sessionId : String) (barrier : Nat) : Event → Prop
  | .sent e => e.sessionId = sessionId ∧ e.barrierEpochNs = barrier ∧ barrier ≤ e.targetSendTsNs
  | .acked e => e.sessionId = sessionId ∧ barrier ≤ e.t3XdpIngressNs
  | .snapshot _ => False

instance (sessionId : String) (barrier : Nat) (e : Event) :
    Decidable (e.OfSession sessionId barrier) := by
  cases e <;> unfold Event.OfSession <;> infer_instance

/-- A sent event has come. -/
def anySent (pre : List Event) : Bool :=
  pre.any fun
    | .sent _ => true
    | _ => false

/-- The order has been timed out by the client. -/
def timedOutIn (pre : List Event) (orderId : String) : Bool :=
  pre.any fun
    | .sent e => e.timedOut && e.orderId == orderId
    | _ => false

/-- The earliest ingress time of the acked events, and of `t`. -/
def earliest (pre : List Event) (t : Nat) : Nat :=
  ((ackedOf pre).map (·.t3XdpIngressNs)).foldl min t

/-- The wave index, counted from the barrier, fits in 32 bits, and an acked event that comes
before any sent event is in the same wave when this is counted from the earliest one. -/
def Steady (waveNs barrier : Nat) (pre : List Event) : Event → Prop
  | .sent e => (e.targetSendTsNs - barrier) / waveNs < 2 ^ 32
  | .acked e => timedOutIn pre e.orderId ∨
      ((e.t3XdpIngressNs - barrier) / waveNs < 2 ^ 32 ∧
        (anySent pre ∨
          (e.t3XdpIngressNs - earliest pre e.t3XdpIngressNs) / waveNs =
            (e.t3XdpIngressNs - barrier) / waveNs))
  | .snapshot _ => True

def SteadyFrom (waveNs barrier : Nat) : List Event → List Event → Prop
  | _, [] => True
  | pre, e :: post => Steady waveNs barrier pre e ∧ SteadyFrom waveNs barrier (pre ++ [e]) post

instance (waveNs barrier : Nat) (pre : List Event) (e : Event) :
    Decidable (Steady waveNs barrier pre e) := by
  cases e <;> unfold Steady <;> infer_instance

instance decidableSteadyFrom (waveNs barrier : Nat) :
    ∀ pre post, Decidable (SteadyFrom waveNs barrier pre post)
  | _, [] => inferInstanceAs (Decidable True)
  | pre, e :: post =>
      @instDecidableAnd _ _ inferInstance (decidableSteadyFrom waveNs barrier (pre ++ [e]) post)

namespace Aggregator

/-- The event is booked in the wave counted from the barrier, or it is an acked event of a
timed-out order and is not booked. -/
def InWave (barrier : Nat) (a : Aggregator) : Event → Prop
  | .sent e => a.sentWave e = (e.targetSendTsNs - barrier) / a.waveNs
  | .acked e => ¬ a.Dropped e → a.ackedWave e = (e.t3XdpIngressNs - barrier) / a.waveNs
  | .snapshot _ => True

variable (accepts) in
/-- Every event of the run is. -/
def AllInWave (barrier : Nat) : Aggregator → List Event → Prop
  | _, [] => True
  | a, e :: es => a.InWave barrier e ∧ AllInWave barrier (a.next accepts e) es

/-- What the events so far leave of the session's start and of the marks. -/
structure Follows (sessionId : String) (waveNs barrier : Nat) (pre : List Event) (a : Aggregator) :
    Prop where
  waveNs_eq : a.waveNs = waveNs
  started : anySent pre = true → a.sessionStart.lookup sessionId = some barrier
  unstarted : anySent pre = false →
    ∀ t, min ((a.sessionStart.lookup sessionId).getD t) t = earliest pre t
  marks : ∀ orderId, (a.timedOutOrders.lookup orderId).isSome = timedOutIn pre orderId

variable {sessionId : String} {waveNs barrier : Nat} {pre : List Event} {a : Aggregator}

/-! ### The start of a session -/

theorem waveOf_start (a : Aggregator) (sessionId : String) (tNs : Nat) :
    (a.waveOf sessionId tNs).1.sessionStart = a.sessionStart.insert sessionId
        (min ((a.sessionStart.lookup sessionId).getD tNs) tNs) ∧
      (a.waveOf sessionId tNs).2 =
        (tNs - min ((a.sessionStart.lookup sessionId).getD tNs) tNs) / a.waveNs % 2 ^ 32 := by
  have hmin : ∀ start : Nat, (if tNs < start then tNs else start) = min start tNs := by
    intro start
    split_ifs <;> omega
  unfold waveOf
  dsimp only
  rw [hmin]
  exact ⟨rfl, rfl⟩

theorem sentWave_eq {e : SentEvent} (hpos : 0 < e.barrierEpochNs)
    (hle : e.barrierEpochNs ≤ e.targetSendTsNs) :
    a.sentWave e = (e.targetSendTsNs - e.barrierEpochNs) / a.waveNs % 2 ^ 32 := by
  unfold sentWave
  rw [if_pos hpos, (waveOf_start _ _ _).2, lookup_insert, getD_some, min_eq_left hle]

theorem lookup_observeSent {e : SentEvent} (hpos : 0 < e.barrierEpochNs)
    (hle : e.barrierEpochNs ≤ e.targetSendTsNs) :
    (a.observeSent accepts e).sessionStart.lookup e.sessionId = some e.barrierEpochNs := by
  have hsame : (a.observeSent accepts e).sessionStart = (({ a with
      sessionStart := a.sessionStart.insert e.sessionId e.barrierEpochNs } : Aggregator).waveOf
        e.sessionId e.targetSendTsNs).1.sessionStart := by
    unfold observeSent
    rw [if_pos hpos]
    split_ifs <;> rfl
  rw [hsame, (waveOf_start _ _ _).1, lookup_insert, lookup_insert, getD_some, min_eq_left hle]

variable {e : AckedEvent}

theorem waveNs_next (a : Aggregator) (e : Event) : (a.next accepts e).waveNs = a.waveNs := by
  cases e with
  | sent e =>
    unfold next observeSent
    dsimp only
    split_ifs <;> rfl
  | acked e =>
    unfold next observeAcked
    dsimp only
    split <;> rfl
  | snapshot nowNs => rfl

/-! ### The events so far -/

theorem foldl_min_min (l : List Nat) (t u : Nat) : l.foldl min (min t u) = min (l.foldl min t) u := by
  induction l generalizing t with
  | nil => rfl
  | cons x l ih => rw [foldl_cons, foldl_cons, min_right_comm, ih]

theorem earliest_concat_acked (pre : List Event) (e : AckedEvent) (t : Nat) :
    earliest (pre ++ [.acked e]) t = min (earliest pre t) e.t3XdpIngressNs := by
  unfold earliest ackedOf
  rw [filterMap_append, map_append, foldl_append]
  rfl

theorem anySent_concat (pre : List Event) (e : Event) :
    anySent (pre ++ [e]) = (anySent pre || anySent [e]) := any_append

theorem timedOutIn_concat (pre : List Event) (e : Event) (orderId : String) :
    timedOutIn (pre ++ [e]) orderId = (timedOutIn pre orderId || timedOutIn [e] orderId) :=
  any_append

theorem anySent_of_timedOutIn {orderId : String} (h : timedOutIn pre orderId = true) :
    anySent pre = true := by
  obtain ⟨e, he, hout⟩ := List.any_eq_true.mp h
  cases e with
  | sent e => exact List.any_eq_true.mpr ⟨.sent e, he, rfl⟩
  | acked e | snapshot nowNs => cases hout

theorem Follows.dropped_iff (h : Follows sessionId waveNs barrier pre a) (e : AckedEvent) :
    a.Dropped e ↔ timedOutIn pre e.orderId = true := by
  rw [Dropped, h.marks]

theorem Follows.sent {e : SentEvent} (h : Follows sessionId waveNs barrier pre a)
    (hpos : 0 < barrier) (he : (Event.sent e).OfSession sessionId barrier) :
    Follows sessionId waveNs barrier (pre ++ [.sent e]) (a.observeSent accepts e) := by
  obtain ⟨rfl, rfl, hle⟩ := he
  have hany : anySent (pre ++ [.sent e]) = true := by
    rw [anySent_concat]
    exact Bool.or_true _
  refine ⟨(waveNs_next a (.sent e)).trans h.waveNs_eq, fun _ => lookup_observeSent hpos hle,
    fun hno => (nomatch hany.symm.trans hno), fun orderId => ?_⟩
  have hlast : timedOutIn [.sent e] orderId = (e.timedOut && e.orderId == orderId) :=
    Bool.or_false _
  rw [timedOutOrders_observeSent, timedOutIn_concat, ← h.marks, hlast]
  cases e.timedOut with
  | false => exact (Bool.or_false _).symm
  | true =>
    by_cases hid : orderId = e.orderId
    · subst hid
      rw [if_pos rfl, lookup_insert, beq_self_eq_true]
      exact (Bool.or_true _).symm
    · rw [if_pos rfl, lookup_insert_ne hid, beq_false_of_ne (Ne.symm hid)]
      exact (Bool.or_false _).symm

theorem Follows.acked (h : Follows sessionId waveNs barrier pre a)
    (he : (Event.acked e).OfSession sessionId barrier) :
    Follows sessionId waveNs barrier (pre ++ [.acked e]) (a.observeAcked accepts e) := by
  obtain ⟨rfl, hle⟩ := he
  have hany : anySent (pre ++ [.acked e]) = anySent pre := by
    rw [anySent_concat]
    exact Bool.or_false _
  have hout : ∀ orderId, timedOutIn (pre ++ [.acked e]) orderId = timedOutIn pre orderId := by
    intro orderId
    rw [timedOutIn_concat]
    exact Bool.or_false _
  by_cases hd : a.Dropped e
  · have hsent := anySent_of_timedOutIn ((h.dropped_iff e).mp hd)
    refine ⟨(waveNs_next a (.acked e)).trans h.waveNs_eq, fun _ => ?_, fun hno => ?_,
      fun orderId => ?_⟩
    · rw [hd.skips.sessionStart]
      exact h.started hsent
    · exact nomatch hsent.symm.trans (hany.symm.trans hno)
    rw [hd.skips.timedOutOrders, hout, ← h.marks]
    by_cases hid : orderId = e.orderId
    · subst hid
      rw [lookup_insert]
      exact hd.symm
    · rw [lookup_insert_ne hid]
  refine ⟨(waveNs_next a (.acked e)).trans h.waveNs_eq, fun hyes => ?_, fun hno t => ?_,
    fun orderId => ?_⟩
  · rw [(takes_observeAcked hd).sessionStart, (waveOf_start _ _ _).1, lookup_insert, h.started (hany.symm.trans hyes),
      getD_some, min_eq_left hle]
  · have hstart := h.unstarted (hany.symm.trans hno)
    rw [(takes_observeAcked hd).sessionStart, (waveOf_start _ _ _).1, lookup_insert, getD_some, hstart, earliest_concat_acked]
    unfold earliest
    rw [← foldl_min_min, ← foldl_min_min, min_comm]
  · rw [(takes_observeAcked hd).timedOutOrders, hout, h.marks]

/-! ### Every event of a run -/

theorem mod_eq_iff {n m : Nat} (h : n ≤ m) : n % 2 ^ 32 = m ↔ m < 2 ^ 32 ∧ n = m := by
  constructor
  · intro heq
    have hlt := Nat.mod_lt n (show 0 < 2 ^ 32 by decide)
    have hle := Nat.mod_le n (2 ^ 32)
    omega
  · rintro ⟨hlt, rfl⟩
    exact Nat.mod_eq_of_lt hlt

theorem le_earliest (hpre : ∀ e ∈ pre, e.OfSession sessionId barrier) {t : Nat} (ht : barrier ≤ t) :
    barrier ≤ earliest pre t := by
  have hacked : ∀ e ∈ ackedOf pre, barrier ≤ e.t3XdpIngressNs := by
    intro e he
    obtain ⟨e', he', heq⟩ := mem_filterMap.mp he
    cases e' with
    | acked e' => exact some.inj heq ▸ (hpre _ he').2
    | sent e' | snapshot nowNs => cases heq
  unfold earliest
  generalize ackedOf pre = l at hacked
  induction l generalizing t with
  | nil => exact ht
  | cons x l ih =>
    exact ih (le_min ht (hacked x (.head _)))
      fun e he => hacked e (.tail x he)

theorem Follows.inWave_iff {e : Event} (h : Follows sessionId waveNs barrier pre a)
    (hpos : 0 < barrier) (hpre : ∀ e ∈ pre, e.OfSession sessionId barrier)
    (he : e.OfSession sessionId barrier) :
    a.InWave barrier e ↔ Steady waveNs barrier pre e := by
  cases e with
  | sent e =>
    obtain ⟨-, rfl, hle⟩ := he
    unfold InWave Steady
    dsimp only
    rw [sentWave_eq hpos hle, h.waveNs_eq, mod_eq_iff le_rfl]
    exact and_iff_left rfl
  | acked e =>
    obtain ⟨rfl, hle⟩ := he
    have hearly := le_earliest hpre hle
    unfold InWave Steady ackedWave
    dsimp only
    rw [h.dropped_iff, (waveOf_start a e.sessionId e.t3XdpIngressNs).2, h.waveNs_eq]
    cases hout : timedOutIn pre e.orderId with
    | true => exact ⟨fun _ => .inl rfl, fun _ hno => absurd rfl hno⟩
    | false =>
      cases hsent : anySent pre with
      | true =>
        rw [h.started hsent, getD_some, min_eq_left hle, mod_eq_iff le_rfl]
        simp
      | false =>
        have hquot : (e.t3XdpIngressNs - earliest pre e.t3XdpIngressNs) / waveNs
            ≤ (e.t3XdpIngressNs - barrier) / waveNs := Nat.div_le_div_right (by omega)
        rw [h.unstarted hsent, mod_eq_iff hquot]
        simp
  | snapshot nowNs => exact Iff.rfl

theorem Follows.allInWave_iff (hpos : 0 < barrier) :
    ∀ (post pre : List Event) (a : Aggregator), Follows sessionId waveNs barrier pre a →
      (∀ e ∈ pre, e.OfSession sessionId barrier) → (∀ e ∈ post, e.OfSession sessionId barrier) →
      (AllInWave accepts barrier a post ↔ SteadyFrom waveNs barrier pre post) := by
  intro post
  induction post with
  | nil => intro pre a _ _ _; exact Iff.rfl
  | cons e post ih =>
    intro pre a h hpre hpost
    have he := hpost e (.head _)
    have hnext : Follows sessionId waveNs barrier (pre ++ [e]) (a.next accepts e) := by
      cases e with
      | sent e => exact h.sent hpos he
      | acked e => exact h.acked he
      | snapshot nowNs => exact absurd he id
    have hpre' : ∀ e' ∈ pre ++ [e], e'.OfSession sessionId barrier := by
      intro e' hmem
      rcases mem_append.mp hmem with hmem | hmem
      · exact hpre e' hmem
      · exact mem_singleton.mp hmem ▸ he
    exact and_congr (h.inWave_iff hpos hpre he)
      (ih (pre ++ [e]) _ hnext hpre' fun e' hmem => hpost e' (.tail e hmem))

theorem follows_new (sessionId : String) (waveNs barrier : Nat) :
    Follows sessionId (max waveNs 1) barrier [] (new waveNs) where
  waveNs_eq := rfl
  started := fun h => nomatch h
  unstarted := fun _ t => min_self t
  marks := fun _ => rfl

/-- **The waves of a session**, for every interleaving of its sent and acked events: each is
booked in the wave counted from the barrier exactly if each is steady. -/
theorem booked_in_wave_iff (sessionId : String) (waveNs barrier : Nat) (es : List Event)
    (hpos : 0 < barrier) (hes : ∀ e ∈ es, e.OfSession sessionId barrier) :
    AllInWave accepts barrier (new waveNs) es ↔ SteadyFrom (max waveNs 1) barrier [] es :=
  Follows.allInWave_iff hpos es [] _ (follows_new sessionId waveNs barrier) (nofun) hes

/-- An order of a session whose barrier is at 1000 s, sent at 1010 s. -/
def sentInFirstWave : Event :=
  .sent { sessionId := "S", orderId := "o1", targetSendTsNs := 1010000000000,
          sendTsNs := 1010000000000, recvDoneTsNs := 0, timedOut := false,
          barrierEpochNs := 1000000000000 }

/-- A response of the session at 1025 s, in the second wave of 20 s. -/
def ackedInSecondWave : AckedEvent :=
  { sessionId := "S", contestantId := "c-1", orderId := "o2", t3XdpIngressNs := 1025000000000,
    t7XdpEgressNs := 1025000001000, podServiceTimeNs := 1000, execType := "0", fillQty := 0,
    liquidityInd := 0 }

theorem booked_in_wave_sentFirst :
    (0 < 1000000000000 ∧ ∀ e ∈ [sentInFirstWave, .acked ackedInSecondWave],
      e.OfSession "S" 1000000000000) ∧
    AllInWave hdrAccepts 1000000000000 (new 20000000000)
      [sentInFirstWave, .acked ackedInSecondWave] :=
  ⟨by decide, (booked_in_wave_iff "S" 20000000000 1000000000000 _ (by decide) (by decide)).mpr
    (by decide)⟩

/-- The response seen first is booked in the first wave. -/
theorem booked_elsewhere_ackedFirst :
    (new 20000000000).ackedWave ackedInSecondWave = 0 ∧
    (ackedInSecondWave.t3XdpIngressNs - 1000000000000) / 20000000000 = 1 ∧
    ¬ AllInWave hdrAccepts 1000000000000 (new 20000000000)
      [.acked ackedInSecondWave, sentInFirstWave] := by
  have hwave : (new 20000000000).ackedWave ackedInSecondWave = 0 := by decide
  refine ⟨hwave, by decide, fun hall => ?_⟩
  have hbooked := hall.1 (by decide)
  rw [hwave] at hbooked
  exact absurd hbooked (by decide)

end Aggregator

end MatchBench.Telemetry
