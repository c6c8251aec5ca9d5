import MatchBench.Model.Order
import MatchBench.Lib.Table

/-!
# The telemetry aggregator

The ingester's `Aggregator` joins the two order topics.  A sent event counts as an offered
order in the window of its session and wave; an acked event counts as a response if it is
the first one of its order, and its time goes into the window's `service_time` histogram.
A snapshot, taken every second or so, emits one row for each active window, sets the
window's counters back and drops whatever has been idle for too long.

A histogram is modelled by the list of the values recorded in it, from which the rows'
quantiles and encoded blobs are computed.  `record` may refuse a value that is too large, and
the caller ignores that; `accepts` says which values are taken.  Timestamps and counters are
natural numbers, and the wave index is cut to 32 bits as in the source.

`observeSent` and `observeAcked` both write one window and leave the others alone;
`Aggregator.touch` is that write, and what it does to a sum over the windows is
`tableSum_touch`.
-/

namespace MatchBench.Telemetry

structure SentEvent where
  sessionId : String
  orderId : String
  targetSendTsNs : Nat
  sendTsNs : Nat
  recvDoneTsNs : Nat
  timedOut : Bool
  barrierEpochNs : Nat
  deriving DecidableEq, Repr

structure AckedEvent where
  sessionId : String
  contestantId : String
  orderId : String
  t3XdpIngressNs : Nat
  t7XdpEgressNs : Nat
  podServiceTimeNs : Nat
  execType : String
  fillQty : Nat
  liquidityInd : Nat
  deriving DecidableEq, Repr

def firstRespIdleNs : Nat := 5000000000
def windowIdleNs : Nat := 30000000000
def timedOutIdleNs : Nat := 15000000000

/-- The values recorded, in order. -/
abbrev Histogram := List Nat

/-- What a histogram of one to sixty seconds and three figures takes. -/
def hdrAccepts (valueNs : Nat) : Bool := valueNs ≤ 60000000000

def record (accepts : Nat → Bool) (hist : Histogram) (valueNs : Nat) : Histogram :=
  if accepts (max valueNs 1) then hist ++ [max valueNs 1] else hist

structure Window where
  contestantId : String
  serviceTime : Histogram := []
  matchLatency : Histogram := []
  responseTime : Histogram := []
  scheduleSlip : Histogram := []
  lastUpdateNs : Nat
  offered : Nat := 0
  responded : Nat := 0
  accepted : Nat := 0
  rejected : Nat := 0
  timedOut : Nat := 0
  fills : Nat := 0
  deriving DecidableEq, Repr

namespace Window

def new (contestantId : String) (nowNs : Nat) : Window :=
  { contestantId := contestantId, lastUpdateNs := nowNs }

def intervalActive (w : Window) : Bool := 0 < w.offered || 0 < w.responded || 0 < w.fills

/-- The counters set back to zero. -/
def reset (w : Window) : Window :=
  { w with offered := 0, responded := 0, accepted := 0, rejected := 0, timedOut := 0, fills := 0 }

/-- A row is emitted for a window with a scored response and a known contestant. -/
def emits (w : Window) : Bool := !w.serviceTime.isEmpty && !w.contestantId.isEmpty

def errors (w : Window) : Nat := w.timedOut + w.rejected

end Window

def isReject (execType : String) : Bool := execType == "8"

def isFill (execType : String) (fillQty : Nat) : Bool :=
  0 < fillQty && (execType == "1" || execType == "2" || execType == "F")

def isTaker (liquidityInd : Nat) : Bool := liquidityInd == 2

/-- A row of a snapshot.  The quantiles and the blobs of the source's row are functions of
the four histograms, and its two rates of the counters. -/
structure Snapshot where
  timeNs : Nat
  sessionId : String
  contestantId : String
  waveIndex : Nat
  serviceTime : Histogram
  responseTime : Histogram
  scheduleSlip : Histogram
  matchLatency : Histogram
  responded : Nat
  offered : Nat
  errors : Nat
  deriving DecidableEq, Repr

/-- The order ids seen, with the time of their last response. -/
abbrev FirstResponseTracker := GoMap String Nat

namespace FirstResponseTracker

def observe (seen : FirstResponseTracker) (orderId : String) (nowNs : Nat) :
    FirstResponseTracker × Bool :=
  match seen.lookup orderId with
  | some last => (seen.insert orderId (max last nowNs), false)
  | none => (seen.insert orderId nowNs, true)

def evictIdle (seen : FirstResponseTracker) (nowNs idleNs : Nat) : FirstResponseTracker :=
  retained (fun last => nowNs - last < idleNs) seen

end FirstResponseTracker

structure Aggregator where
  windows : GoMap (String × Nat) Window := ∅
  sessionStart : GoMap String Nat := ∅
  sessionContestant : GoMap String String := ∅
  firstResponse : FirstResponseTracker := ∅
  timedOutOrders : GoMap String Nat := ∅
  waveNs : Nat
  lastEvicted : Nat := 0
  finalized : Nat := 0

namespace Aggregator

def new (waveNs : Nat) : Aggregator := { waveNs := max waveNs 1 }

def waveOf (a : Aggregator) (sessionId : String) (tNs : Nat) : Aggregator × Nat :=
  let start := (a.sessionStart.lookup sessionId).getD tNs
  let start := if tNs < start then tNs else start
  ({ a with sessionStart := a.sessionStart.insert sessionId start },
    (tNs - start) / a.waveNs % 2 ^ 32)

/-- The window of a key, or a new one, is changed and written back. -/
def touch (a : Aggregator) (key : String × Nat) (fresh : Window) (f : Window → Window) :
    Aggregator :=
  { a with windows := a.windows.insert key (f ((a.windows.lookup key).getD fresh)) }

variable (accepts : Nat → Bool)

/-- The change that a sent event makes to its window. -/
def sentWindow (e : SentEvent) (w : Window) : Window :=
  let t0 := e.targetSendTsNs
  let t1 := e.sendTsNs
  let r9 := e.recvDoneTsNs
  { w with
    offered := w.offered + 1
    timedOut := if e.timedOut then w.timedOut + 1 else w.timedOut
    scheduleSlip := if t1 ≥ t0 then record accepts w.scheduleSlip (t1 - t0) else w.scheduleSlip
    responseTime :=
      if !e.timedOut && decide (r9 > t0) then record accepts w.responseTime (r9 - t0)
      else w.responseTime
    lastUpdateNs := max w.lastUpdateNs (max t1 t0) }

def observeSent (a : Aggregator) (e : SentEvent) : Aggregator :=
  let a := if 0 < e.barrierEpochNs then
      { a with sessionStart := a.sessionStart.insert e.sessionId e.barrierEpochNs }
    else a
  let t0 := e.targetSendTsNs
  let t1 := e.sendTsNs
  let (a, wave) := a.waveOf e.sessionId t0
  let contestant := (a.sessionContestant.lookup e.sessionId).getD ""
  let a := a.touch (e.sessionId, wave) (Window.new contestant (max t1 t0)) (sentWindow accepts e)
  if e.timedOut then
    let mark := (a.timedOutOrders.lookup e.orderId).getD 0
    { a with timedOutOrders := a.timedOutOrders.insert e.orderId (max mark (max t1 t0)) }
  else a

/-- The change that an acked event makes to its window; `first` says that it is the order's
first response. -/
def ackedWindow (e : AckedEvent) (first : Bool) (w : Window) : Window :=
  let w := if w.contestantId.isEmpty then { w with contestantId := e.contestantId } else w
  let w := if first then
      { w with
        serviceTime := record accepts w.serviceTime e.podServiceTimeNs
        responded := w.responded + 1
        rejected := if isReject e.execType then w.rejected + 1 else w.rejected
        accepted := if isReject e.execType then w.accepted else w.accepted + 1 }
    else w
  let w := if isFill e.execType e.fillQty then { w with fills := w.fills + 1 } else w
  let w := if isTaker e.liquidityInd then
      { w with matchLatency := record accepts w.matchLatency e.podServiceTimeNs }
    else w
  { w with lastUpdateNs := max w.lastUpdateNs e.t7XdpEgressNs }

def observeAcked (a : Aggregator) (e : AckedEvent) : Aggregator :=
  let a := { a with sessionContestant := a.sessionContestant.insert e.sessionId e.contestantId }
  match a.timedOutOrders.lookup e.orderId with
  | some mark =>
      { a with timedOutOrders := a.timedOutOrders.insert e.orderId (max mark e.t7XdpEgressNs) }
  | none =>
      let (a, wave) := a.waveOf e.sessionId e.t3XdpIngressNs
      let (seen, first) := a.firstResponse.observe e.orderId e.t7XdpEgressNs
      let a := a.touch (e.sessionId, wave) (Window.new e.contestantId e.t7XdpEgressNs)
        (ackedWindow accepts e first)
      { a with
        firstResponse := seen
        finalized := if first then a.finalized + 1 else a.finalized }

/-- An active window with its contestant filled in, if the session's is known. -/
def named (a : Aggregator) (sessionId : String) (w : Window) : Window :=
  if w.contestantId.isEmpty then
    { w with contestantId := (a.sessionContestant.lookup sessionId).getD w.contestantId }
  else w

def row (nowNs : Nat) (key : String × Nat) (w : Window) : Snapshot :=
  { timeNs := nowNs
    sessionId := key.1
    contestantId := w.contestantId
    waveIndex := key.2
    serviceTime := w.serviceTime
    responseTime := w.responseTime
    scheduleSlip := w.scheduleSlip
    matchLatency := w.matchLatency
    responded := w.responded
    offered := w.offered
    errors := w.errors }

/-- The row that a window's turn in the snapshot loop emits, if it emits one. -/
def snapshotRow (a : Aggregator) (nowNs : Nat) (key : String × Nat) (w : Window) :
    Option Snapshot :=
  if w.intervalActive && (a.named key.1 w).emits then some (row nowNs key (a.named key.1 w))
  else none

/-- The window after its turn in the snapshot loop. -/
def snapshotWindow (a : Aggregator) (key : String × Nat) (w : Window) : Window :=
  if w.intervalActive then (a.named key.1 w).reset else w

def snapshot (a : Aggregator) (nowNs : Nat) : Aggregator × List Snapshot :=
  let out := a.windows.entries.filterMap fun e => a.snapshotRow nowNs e.1 e.2
  let windows := retained (fun w => nowNs - w.lastUpdateNs < windowIdleNs)
    (mapRows a.snapshotWindow a.windows)
  let live := fun s => windows.keys.any fun key => key.1 == s
  let seen := a.firstResponse.evictIdle nowNs firstRespIdleNs
  ({ a with
      windows := windows
      sessionStart := retainedKeys live a.sessionStart
      sessionContestant := retainedKeys live a.sessionContestant
      firstResponse := seen
      lastEvicted := a.firstResponse.entries.length - seen.entries.length
      timedOutOrders := retained (fun last => nowNs - last < timedOutIdleNs) a.timedOutOrders },
    out)

end Aggregator

inductive Event where
  | sent (e : SentEvent)
  | acked (e : AckedEvent)
  | snapshot (nowNs : Nat)
  deriving DecidableEq, Repr

namespace Aggregator

variable (accepts : Nat → Bool)

def next (a : Aggregator) : Event → Aggregator
  | .sent e => a.observeSent accepts e
  | .acked e => a.observeAcked accepts e
  | .snapshot nowNs => (a.snapshot nowNs).1

def rows (a : Aggregator) : Event → List Snapshot
  | .snapshot nowNs => (a.snapshot nowNs).2
  | _ => []

end Aggregator

/-- The acked events of a run. -/
def ackedOf (es : List Event) : List AckedEvent :=
  es.filterMap fun
    | .acked e => some e
    | _ => none

/-! ### What an event does to the windows -/

namespace Aggregator

variable {accepts : Nat → Bool} {a : Aggregator}

/-- The event is dropped: its order was timed out by the client. -/
def Dropped (a : Aggregator) (e : AckedEvent) : Prop := (a.timedOutOrders.lookup e.orderId).isSome
  deriving Decidable

/-- The event is taken as its order's first response. -/
def Scores (a : Aggregator) (e : AckedEvent) : Prop :=
  ¬ a.Dropped e ∧ a.firstResponse.lookup e.orderId = none
  deriving Decidable

/-- The wave of a sent event. -/
def sentWave (a : Aggregator) (e : SentEvent) : Nat :=
  ((if 0 < e.barrierEpochNs then
      { a with sessionStart := a.sessionStart.insert e.sessionId e.barrierEpochNs }
    else a).waveOf e.sessionId e.targetSendTsNs).2

/-- The wave of an acked event. -/
def ackedWave (a : Aggregator) (e : AckedEvent) : Nat := (a.waveOf e.sessionId e.t3XdpIngressNs).2

theorem windows_observeSent (a : Aggregator) (e : SentEvent) :
    (a.observeSent accepts e).windows = (a.touch (e.sessionId, a.sentWave e)
      (Window.new ((a.sessionContestant.lookup e.sessionId).getD "")
        (max e.sendTsNs e.targetSendTsNs)) (sentWindow accepts e)).windows := by
  unfold observeSent sentWave
  split_ifs <;> rfl

variable {e : AckedEvent} {f : String × Nat → Window → Nat}

/-- What an event of a timed out order does. -/
structure Skips (a b : Aggregator) (e : AckedEvent) : Prop where
  windows : b.windows = a.windows
  sessionStart : b.sessionStart = a.sessionStart
  firstResponse : b.firstResponse = a.firstResponse
  timedOutOrders : b.timedOutOrders = a.timedOutOrders.insert e.orderId
    (max ((a.timedOutOrders.lookup e.orderId).getD 0) e.t7XdpEgressNs)

theorem Dropped.skips (h : a.Dropped e) : Skips a (a.observeAcked accepts e) e := by
  obtain ⟨mark, hmark⟩ := Option.isSome_iff_exists.mp h
  unfold observeAcked
  dsimp only
  rw [hmark]
  exact ⟨rfl, rfl, rfl, by rw [hmark]; rfl⟩

/-- What any other event does. -/
structure Takes (accepts : Nat → Bool) (a b : Aggregator) (e : AckedEvent) : Prop where
  windows : b.windows = (a.touch (e.sessionId, a.ackedWave e)
    (Window.new e.contestantId e.t7XdpEgressNs)
    (ackedWindow accepts e (a.firstResponse.lookup e.orderId).isNone)).windows
  sessionStart : b.sessionStart = (a.waveOf e.sessionId e.t3XdpIngressNs).1.sessionStart
  firstResponse : b.firstResponse = a.firstResponse.insert e.orderId
    (max ((a.firstResponse.lookup e.orderId).getD 0) e.t7XdpEgressNs)
  timedOutOrders : b.timedOutOrders = a.timedOutOrders

theorem takes_observeAcked (h : ¬ a.Dropped e) : Takes accepts a (a.observeAcked accepts e) e := by
  have hmark : a.timedOutOrders.lookup e.orderId = none := Option.not_isSome_iff_eq_none.mp h
  unfold observeAcked FirstResponseTracker.observe
  dsimp only
  rw [hmark]
  dsimp only [waveOf]
  refine ⟨?_, rfl, ?_, rfl⟩ <;> dsimp only
  · cases a.firstResponse.lookup e.orderId <;> rfl
  cases a.firstResponse.lookup e.orderId with
  | none => rw [Option.getD_none, Nat.zero_max]
  | some last => rfl

theorem tableSum_touch {g : Window → Window} {d : Nat} (key : String × Nat) (fresh : Window)
    (hfresh : f key fresh = 0) (hg : ∀ w, f key (g w) = f key w + d) :
    tableSum f (a.touch key fresh g).windows = tableSum f a.windows + d := by
  have hsum := tableSum_insert f a.windows key (g ((a.windows.lookup key).getD fresh))
  rw [hg, ← add_assoc] at hsum
  have hrow : rowOf f a.windows key = f key ((a.windows.lookup key).getD fresh) := by
    unfold rowOf
    cases a.windows.lookup key with
    | none => exact hfresh.symm
    | some w => rfl
  rw [hrow] at hsum
  unfold touch
  dsimp only
  omega

theorem tableSum_observeSent {e : SentEvent} {d : Nat}
    (hfresh : ∀ key c n, f key (Window.new c n) = 0)
    (hsent : ∀ wave w, f (e.sessionId, wave) (sentWindow accepts e w) = f (e.sessionId, wave) w + d) :
    tableSum f (a.observeSent accepts e).windows = tableSum f a.windows + d := by
  rw [windows_observeSent]
  exact tableSum_touch _ _ (hfresh _ _ _) (hsent _)

theorem tableSum_observeAcked {d : Nat} (hnot : ¬ a.Dropped e)
    (hfresh : ∀ key c n, f key (Window.new c n) = 0)
    (hacked : ∀ wave w, f (e.sessionId, wave) (ackedWindow accepts e
      (a.firstResponse.lookup e.orderId).isNone w) = f (e.sessionId, wave) w + d) :
    tableSum f (a.observeAcked accepts e).windows = tableSum f a.windows + d := by
  rw [(takes_observeAcked hnot).windows]
  exact tableSum_touch _ _ (hfresh _ _ _) (hacked _)

theorem ackedWindow_counters (accepts : Nat → Bool) (e : AckedEvent) (first : Bool) (w : Window) :
    (ackedWindow accepts e first w).offered = w.offered ∧
    (ackedWindow accepts e first w).timedOut = w.timedOut ∧
    (ackedWindow accepts e first w).responded = w.responded + first.toNat ∧
    (ackedWindow accepts e first w).rejected = w.rejected + (first && isReject e.execType).toNat ∧
    (ackedWindow accepts e first w).serviceTime =
      if first then record accepts w.serviceTime e.podServiceTimeNs else w.serviceTime := by
  unfold ackedWindow
  cases first <;> cases isReject e.execType <;> cases isFill e.execType e.fillQty <;>
    cases isTaker e.liquidityInd <;> cases w.contestantId.isEmpty <;>
    exact ⟨rfl, rfl, rfl, rfl, rfl⟩


/-! ### What an event does to the two tables of orders -/

theorem firstResponse_observeSent (a : Aggregator) (e : SentEvent) :
    (a.observeSent accepts e).firstResponse = a.firstResponse := by
  unfold observeSent
  split_ifs <;> rfl

theorem timedOutOrders_observeSent (a : Aggregator) (e : SentEvent) :
    (a.observeSent accepts e).timedOutOrders =
      if e.timedOut then a.timedOutOrders.insert e.orderId
        (max ((a.timedOutOrders.lookup e.orderId).getD 0) (max e.sendTsNs e.targetSendTsNs))
      else a.timedOutOrders := by
  unfold observeSent
  split_ifs <;> rfl

end Aggregator

end MatchBench.Telemetry
