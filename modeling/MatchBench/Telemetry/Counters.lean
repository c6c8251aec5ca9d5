import MatchBench.Telemetry.Aggregate

/-!
# Where the counters go

A snapshot sets the counters of every active window back to zero, but it emits a row only
for a window with a service-time sample and a known contestant.  The counts of the others go
nowhere: that is how a wave without a single response is kept from posting a row.

So nothing is counted twice and nothing else is lost.  For each session, what the rows
carried, what snapshots dropped and what the windows still hold add up to the events counted
(`counters_conserved`).  A step accounts for itself (`account_next`): an event adds its count
to one window, and a snapshot shares each window's count out between the row and the drop.
Windows that are not active hold no count, because a time-out is also an offered order and a
reject is also a response (`Balanced`).
-/

namespace MatchBench.Telemetry

open List

namespace Aggregator

/-- A number for each step of a run, added up. -/
def overRun (accepts : Nat → Bool) (cost : Aggregator → Event → Nat) : Aggregator → List Event → Nat
  | _, [] => 0
  | a, e :: es => cost a e + overRun accepts cost (a.next accepts e) es

/-- A counter of the session's windows. -/
def held (sessionId : String) (count : Window → Nat) (a : Aggregator) : Nat :=
  tableSum (fun key w => if key.1 = sessionId then count w else 0) a.windows

/-- A counter of the session's rows, of those that the step emits. -/
def emitted (sessionId : String) (count : Snapshot → Nat) (a : Aggregator) (e : Event) : Nat :=
  (((a.rows e).filter fun r => r.sessionId = sessionId).map count).sum

/-- A counter of the session's active windows that a snapshot resets without a row, for
want of a service-time sample or of a contestant. -/
def dropped (sessionId : String) (count : Window → Nat) (a : Aggregator) : Event → Nat
  | .snapshot _ => tableSum (fun key w =>
      if key.1 = sessionId ∧ w.intervalActive ∧ ¬ (a.named key.1 w).emits then count w else 0)
      a.windows
  | _ => 0

/-- The session's sent events. -/
def offers (sessionId : String) (_ : Aggregator) : Event → Nat
  | .sent e => if e.sessionId = sessionId then 1 else 0
  | _ => 0

/-- The session's timed-out sent events, and its rejects that are taken as the first
response of their order. -/
def failures (sessionId : String) (a : Aggregator) : Event → Nat
  | .sent e => if e.sessionId = sessionId ∧ e.timedOut then 1 else 0
  | .acked e => if e.sessionId = sessionId ∧ a.Scores e ∧ isReject e.execType then 1 else 0
  | .snapshot _ => 0

/-- A time-out is also offered and a reject is also a response. -/
def Balanced (a : Aggregator) : Prop :=
  ∀ key w, a.windows.lookup key = some w → w.timedOut ≤ w.offered ∧ w.rejected ≤ w.responded

variable {accepts : Nat → Bool} {a : Aggregator} {key : String × Nat} {nowNs : Nat} {w : Window}

theorem Balanced.touch (h : a.Balanced) {contestantId : String} {g : Window → Window}
    (hg : ∀ w, w.timedOut ≤ w.offered ∧ w.rejected ≤ w.responded →
      (g w).timedOut ≤ (g w).offered ∧ (g w).rejected ≤ (g w).responded) :
    (a.touch key (Window.new contestantId nowNs) g).Balanced := by
  intro key' w hlook
  rcases lookup_insert_eq_some.mp hlook with ⟨rfl, rfl⟩ | ⟨-, hold⟩
  · refine hg _ ?_
    cases hold : a.windows.lookup key' with
    | none => exact ⟨le_rfl, le_rfl⟩
    | some w => exact h key' w hold
  · exact h key' w hold

theorem lookup_snapshot (h : (a.snapshot nowNs).1.windows.lookup key = some w) :
    ∃ w₀, a.windows.lookup key = some w₀ ∧ a.snapshotWindow key w₀ = w :=
  mem_lookup_mapRows.mp (mem_lookup_retained.mp h).1

theorem counters_snapshotWindow (key : String × Nat) (w : Window) :
    w.intervalActive = false ∧ a.snapshotWindow key w = w ∨
      ∃ w' : Window, a.snapshotWindow key w = w'.reset := by
  unfold snapshotWindow
  cases w.intervalActive with
  | false => exact .inl ⟨rfl, rfl⟩
  | true => exact .inr ⟨_, rfl⟩

theorem Balanced.next (h : a.Balanced) (e : Event) : (a.next accepts e).Balanced := by
  cases e with
  | sent e =>
    unfold Balanced Aggregator.next
    dsimp only
    rw [windows_observeSent]
    refine h.touch fun w hw => ?_
    unfold sentWindow
    dsimp only
    split_ifs <;> omega
  | acked e =>
    unfold Balanced Aggregator.next
    dsimp only
    by_cases hd : a.Dropped e
    · rw [hd.skips.windows]
      exact h
    rw [(takes_observeAcked hd).windows]
    refine h.touch fun w hw => ?_
    obtain ⟨ho, ht, hr, hj, -⟩ := ackedWindow_counters accepts e
      (a.firstResponse.lookup e.orderId).isNone w
    have hle : ((a.firstResponse.lookup e.orderId).isNone && isReject e.execType).toNat
        ≤ (a.firstResponse.lookup e.orderId).isNone.toNat := by
      cases (a.firstResponse.lookup e.orderId).isNone with
      | false => exact le_rfl
      | true => exact Bool.toNat_le _
    omega
  | snapshot nowNs =>
    intro key w hlook
    obtain ⟨w₀, hold, rfl⟩ := lookup_snapshot hlook
    rcases counters_snapshotWindow (a := a) key w₀ with ⟨-, heq⟩ | ⟨w', heq⟩
    · rw [heq]
      exact h key w₀ hold
    · rw [heq]
      exact ⟨le_rfl, le_rfl⟩

/-! ### Counters -/

/-- A counter of the windows, carried by the rows, that sent and acked events add to.  An
idle window has none of it. -/
structure Counts (accepts : Nat → Bool) (count : Window → Nat) (countRow : Snapshot → Nat)
    (ofSent : SentEvent → Nat) (ofAcked : Bool → AckedEvent → Nat) : Prop where
  fresh : ∀ contestantId nowNs, count (Window.new contestantId nowNs) = 0
  sent : ∀ e w, count (sentWindow accepts e w) = count w + ofSent e
  acked : ∀ e first w, count (ackedWindow accepts e first w) = count w + ofAcked first e
  reset : ∀ w, count (Window.reset w) = 0
  idle : ∀ w, w.timedOut ≤ w.offered ∧ w.rejected ≤ w.responded →
    w.intervalActive = false → count w = 0
  row : ∀ (a : Aggregator) nowNs key w, countRow (row nowNs key (a.named key.1 w)) = count w

theorem idle_iff : w.intervalActive = false ↔ w.offered = 0 ∧ w.responded = 0 ∧ w.fills = 0 := by
  unfold Window.intervalActive
  simp [Bool.or_eq_false_iff, decide_eq_false_iff_not, not_lt, and_assoc]

theorem counts_offered (accepts : Nat → Bool) :
    Counts accepts (·.offered) (·.offered) (fun _ => 1) (fun _ _ => 0) where
  fresh := fun _ _ => rfl
  sent := fun _ _ => rfl
  acked := fun e first w => (ackedWindow_counters accepts e first w).1
  reset := fun _ => rfl
  idle := fun _ _ h => (idle_iff.mp h).1
  row := by
    intro a nowNs key w
    unfold row named
    split_ifs <;> rfl

theorem counts_errors (accepts : Nat → Bool) :
    Counts accepts Window.errors (·.errors) (fun e => e.timedOut.toNat)
      (fun first e => (first && isReject e.execType).toNat) where
  fresh := fun _ _ => rfl
  sent := by
    intro e w
    unfold sentWindow Window.errors
    cases e.timedOut with
    | false => rfl
    | true => exact Nat.add_right_comm w.timedOut 1 w.rejected
  acked := by
    intro e first w
    obtain ⟨-, ht, -, hr, -⟩ := ackedWindow_counters accepts e first w
    unfold Window.errors
    rw [ht, hr, add_assoc]
  reset := fun _ => rfl
  idle := by
    intro w hbal h
    obtain ⟨ho, hr, -⟩ := idle_iff.mp h
    unfold Window.errors
    omega
  row := by
    intro a nowNs key w
    unfold row named
    split_ifs <;> rfl

/-- What the step adds to the session's counter. -/
def counted (sessionId : String) (ofSent : SentEvent → Nat) (ofAcked : Bool → AckedEvent → Nat)
    (a : Aggregator) : Event → Nat
  | .sent e => if e.sessionId = sessionId then ofSent e else 0
  | .acked e => if e.sessionId = sessionId ∧ ¬ a.Dropped e then
      ofAcked (a.firstResponse.lookup e.orderId).isNone e else 0
  | .snapshot _ => 0

theorem counted_offers (sessionId : String) (e : Event) :
    a.counted sessionId (fun _ => 1) (fun _ _ => 0) e = a.offers sessionId e := by
  cases e with
  | sent e => rfl
  | acked e => exact ite_self 0
  | snapshot nowNs => rfl

theorem counted_failures (sessionId : String) (e : Event) :
    a.counted sessionId (fun e => e.timedOut.toNat)
      (fun first e => (first && isReject e.execType).toNat) e = a.failures sessionId e := by
  cases e with
  | sent e =>
    unfold counted failures
    dsimp only
    cases e.timedOut <;> simp
  | acked e =>
    have hscores : a.Scores e ↔
        ¬ a.Dropped e ∧ (a.firstResponse.lookup e.orderId).isNone = true := by
      rw [Scores, Option.isNone_iff_eq_none]
    unfold counted failures
    simp only [hscores]
    cases (a.firstResponse.lookup e.orderId).isNone <;> cases isReject e.execType <;> simp
  | snapshot nowNs => rfl

section

variable {count : Window → Nat} {countRow : Snapshot → Nat} {ofSent : SentEvent → Nat}
  {ofAcked : Bool → AckedEvent → Nat} {sessionId : String}

theorem emitted_snapshot (hc : Counts accepts count countRow ofSent ofAcked) (nowNs : Nat) :
    a.emitted sessionId countRow (.snapshot nowNs) = tableSum (fun key w =>
      if key.1 = sessionId ∧ w.intervalActive ∧ (a.named key.1 w).emits then count w else 0)
      a.windows := by
  unfold emitted rows snapshot tableSum
  dsimp only
  induction a.windows.entries with
  | nil => rfl
  | cons e l ih =>
    rw [map_cons, sum_cons, ← ih, filterMap_cons]
    by_cases hemit : e.2.intervalActive = true ∧ (a.named e.1.1 e.2).emits = true
    · have hsome : a.snapshotRow nowNs e.1 e.2 = some (row nowNs e.1 (a.named e.1.1 e.2)) :=
        if_pos (Bool.and_eq_true_iff.mpr hemit)
      rw [hsome]
      by_cases hs : e.1.1 = sessionId
      · have hkeep : decide ((row nowNs e.1 (a.named e.1.1 e.2)).sessionId = sessionId) = true :=
          decide_eq_true hs
        rw [filter_cons, if_pos hkeep, map_cons, sum_cons, hc.row, if_pos ⟨hs, hemit⟩]
      · have hskip : ¬ decide ((row nowNs e.1 (a.named e.1.1 e.2)).sessionId = sessionId) = true :=
          fun h => hs (of_decide_eq_true h)
        rw [filter_cons, if_neg hskip, if_neg fun h => hs h.1, zero_add]
    · have hnone : a.snapshotRow nowNs e.1 e.2 = none :=
        if_neg fun h => hemit (Bool.and_eq_true_iff.mp h)
      rw [hnone, if_neg fun h => hemit h.2, zero_add]

theorem held_snapshot (hc : Counts accepts count countRow ofSent ofAcked) (h : a.Balanced)
    (nowNs : Nat) :
    (a.snapshot nowNs).1.held sessionId count = 0 := by
  refine tableSum_eq_zero fun e he => ?_
  obtain ⟨w₀, hold, heq⟩ := lookup_snapshot (AList.mem_lookup_iff.mpr he)
  rw [← heq]
  split_ifs
  · rcases counters_snapshotWindow (a := a) e.1 w₀ with ⟨hactive, hsame⟩ | ⟨w', hsame⟩
    · rw [hsame]
      exact hc.idle w₀ (h e.1 w₀ hold) hactive
    · rw [hsame]
      exact hc.reset w'
  · rfl

theorem emitted_add_dropped (hc : Counts accepts count countRow ofSent ofAcked) (h : a.Balanced)
    (nowNs : Nat) :
    a.emitted sessionId countRow (.snapshot nowNs) + a.dropped sessionId count (.snapshot nowNs)
      = a.held sessionId count := by
  rw [emitted_snapshot hc]
  unfold dropped held tableSum
  dsimp only
  rw [← sum_map_add]
  refine congrArg sum (map_congr_left fun e he => ?_)
  have hbal := h e.1 e.2 (AList.mem_lookup_iff.mpr he)
  by_cases hs : e.1.1 = sessionId
  · cases hactive : e.2.intervalActive with
    | false =>
      rw [hc.idle e.2 hbal hactive]
      simp
    | true => cases hemit : (a.named e.1.1 e.2).emits <;> simp [hs]
  · simp [hs]

/-- **Each step accounts for itself.** -/
theorem account_next (hc : Counts accepts count countRow ofSent ofAcked) (h : a.Balanced)
    (sessionId : String) (e : Event) :
    a.emitted sessionId countRow e + a.dropped sessionId count e +
        (a.next accepts e).held sessionId count
      = a.held sessionId count + a.counted sessionId ofSent ofAcked e := by
  cases e with
  | sent e =>
    refine (zero_add _).trans ?_
    refine tableSum_observeSent (fun _ _ _ => by rw [hc.fresh, ite_self]) fun wave w => ?_
    unfold counted
    dsimp only
    rw [hc.sent]
    split_ifs <;> rfl
  | acked e =>
    refine (zero_add _).trans ?_
    unfold counted held next
    dsimp only
    by_cases hd : a.Dropped e
    · rw [hd.skips.windows, if_neg fun hs => hs.2 hd]
      rfl
    refine tableSum_observeAcked hd (fun _ _ _ => by rw [hc.fresh, ite_self]) fun wave w => ?_
    dsimp only
    rw [hc.acked]
    by_cases hs : e.sessionId = sessionId
    · rw [if_pos hs, if_pos hs, if_pos ⟨hs, hd⟩]
    · rw [if_neg hs, if_neg hs, if_neg fun hs' => hs hs'.1]
  | snapshot nowNs =>
    unfold next
    rw [held_snapshot hc h, emitted_add_dropped hc h]
    rfl

theorem account_run (hc : Counts accepts count countRow ofSent ofAcked) :
    ∀ (es : List Event) (a : Aggregator), a.Balanced →
      overRun accepts (emitted sessionId countRow) a es +
          overRun accepts (dropped sessionId count) a es +
          (es.foldl (next accepts) a).held sessionId count
        = a.held sessionId count + overRun accepts (counted sessionId ofSent ofAcked) a es := by
  intro es
  induction es with
  | nil => intro a _; exact (zero_add _).trans (add_zero _).symm
  | cons e es ih =>
    intro a h
    have hstep := account_next hc h sessionId e
    have hrest := ih (a.next accepts e) (h.next e)
    rw [foldl_cons, overRun, overRun, overRun]
    omega

end

theorem overRun_congr {cost cost' : Aggregator → Event → Nat} (h : ∀ a e, cost a e = cost' a e) :
    ∀ (es : List Event) (a : Aggregator), overRun accepts cost a es = overRun accepts cost' a es := by
  intro es
  induction es with
  | nil => intro a; rfl
  | cons e es ih => intro a; rw [overRun, overRun, h, ih]

/-- **The counters are conserved**, once the counts of the windows that a snapshot resets
without a row are taken in. -/
theorem counters_conserved (waveNs : Nat) (sessionId : String) (es : List Event) :
    overRun accepts (emitted sessionId (·.offered)) (new waveNs) es +
          overRun accepts (dropped sessionId (·.offered)) (new waveNs) es +
          (es.foldl (next accepts) (new waveNs)).held sessionId (·.offered)
        = overRun accepts (offers sessionId) (new waveNs) es ∧
      overRun accepts (emitted sessionId (·.errors)) (new waveNs) es +
          overRun accepts (dropped sessionId Window.errors) (new waveNs) es +
          (es.foldl (next accepts) (new waveNs)).held sessionId Window.errors
        = overRun accepts (failures sessionId) (new waveNs) es := by
  have hbal : (new waveNs).Balanced := fun key w h => nomatch h
  constructor
  · rw [account_run (counts_offered accepts) es _ hbal,
      overRun_congr fun a e => counted_offers sessionId e]
    exact zero_add _
  · rw [account_run (counts_errors accepts) es _ hbal,
      overRun_congr fun a e => counted_failures sessionId e]
    exact zero_add _

/-- The order `o1`, given up by the client, and a snapshot. -/
def sentOnly : List Event :=
  [.sent { sessionId := "S", orderId := "o1", targetSendTsNs := 0, sendTsNs := 10,
           recvDoneTsNs := 0, timedOut := true, barrierEpochNs := 0 },
    .snapshot 1000000000]

/-- The order `o1`, acknowledged, whose second response is a reject. -/
def rejectedLater : List Event :=
  ["0", "8"].map fun execType =>
    .acked { sessionId := "S", contestantId := "c-1", orderId := "o1", t3XdpIngressNs := 0,
             t7XdpEgressNs := 1000, podServiceTimeNs := 1000, execType := execType, fillQty := 0,
             liquidityInd := 0 }

/-- The counts of a window without a response are dropped by the snapshot, and a reject that
is not a first response is not counted. -/
theorem counters_lost :
    (overRun hdrAccepts (emitted "S" (·.offered)) (new 20000000000) sentOnly = 0 ∧
      (sentOnly.foldl (next hdrAccepts) (new 20000000000)).held "S" (·.offered) = 0 ∧
      overRun hdrAccepts (offers "S") (new 20000000000) sentOnly = 1) ∧
    (overRun hdrAccepts (emitted "S" (·.errors)) (new 20000000000) rejectedLater = 0 ∧
      (rejectedLater.foldl (next hdrAccepts) (new 20000000000)).held "S" Window.errors = 0) := by
  decide +kernel

end Aggregator

end MatchBench.Telemetry
