import MatchBench.Validate.Tally

/-!
# Validation without a book

`internal/validate/invariants.go`: the second pass, over several connections, where no
reference engine says which fill was due.  A fill is checked against its own order's quantity;
an answered order goes through a window that sorts by the time of the first response, and as it
leaves the window it is compared with what left before it: within a connection by sequence
number, across connections by arrival time.

The window calls back into the validator for every record it emits and for every record that
comes too late; `push` and `release` take the two callbacks and the state they act on.  The late
and anomalous responses are counted in the validator, next to the histogram of the jitter: only
`finish` reads them, to taint the report.  The rate that it compares them with is a rational, and
the percentiles of the histogram are left out.
-/

namespace MatchBench.Validate

def defaultCrossFlowWindowUs : UInt64 := 500

def defaultT7ReorderWindow : Int64 := 65536

def defaultT7AnomalyCapNs : UInt64 := 15000000000

def defaultLateTaintRate : ℚ := 1 / 1000

/-- Of an order that arrived at `t3ANs` and was processed after one that arrived at `t3BNs`:
whether they were inverted, whether by more than the window, and by how much. -/
def crossFlowPredicate (t3ANs t3BNs windowUs : UInt64) : Bool × Bool × UInt64 :=
  if t3BNs ≤ t3ANs then (false, false, 0)
  else (true, windowUs * 1000 < t3BNs - t3ANs, t3BNs - t3ANs)

/-- Sequence numbers compared around the wrap. -/
def seqLE (a b : UInt32) : Bool := a == b || (a - b).toInt32 < 0

structure JitterHistogram where
  buckets : List Nat := List.replicate 65 0
  count : Nat := 0
  maxNs : UInt64 := 0

def JitterHistogram.record (h : JitterHistogram) (ns : UInt64) : JitterHistogram where
  buckets := h.buckets.modify ns.toNat.size (· + 1)
  count := h.count + 1
  maxNs := if h.maxNs < ns then ns else h.maxNs

/-! ### The window -/

structure InvRec where
  orderID : String
  flow : Flow
  tcpSeq : UInt32
  t3Ns : UInt64
  minT7Ns : UInt64
  deriving DecidableEq, Repr

structure T7Reorderer where
  window : Int64
  buf : List InvRec := []
  watermark : UInt64 := 0
  started : Bool := false

def newT7Reorderer (window : Int64) : T7Reorderer where
  window := if window < 1 then 1 else window

namespace T7Reorderer

variable {σ : Type} (emit : σ → InvRec → σ) (late : σ → σ)

/-- The watermark follows what is emitted. -/
def advance (r : T7Reorderer) (rec : InvRec) : T7Reorderer :=
  if r.watermark < rec.minT7Ns ∨ r.started = false then
    { r with watermark := rec.minT7Ns, started := true }
  else r

/-- Sort the buffer and emit its first `n` records. -/
def release (st : T7Reorderer × σ) (n : Int) : T7Reorderer × σ :=
  let r := st.1
  if n ≤ 0 ∨ r.buf = [] then st
  else
    let n := if (r.buf.length : Int) < n then r.buf.length else n.toNat
    let buf := stableSort (fun a b => a.minT7Ns < b.minT7Ns) r.buf
    ({ (buf.take n).foldl advance r with buf := buf.drop n }, (buf.take n).foldl emit st.2)

def push (st : T7Reorderer × σ) (rec : InvRec) : T7Reorderer × σ :=
  let r := st.1
  if r.started ∧ rec.minT7Ns < r.watermark then (r, late st.2)
  else
    let r := { r with buf := r.buf ++ [rec] }
    if (2 * r.window).toInt ≤ r.buf.length then release emit (r, st.2) r.window.toInt
    else (r, st.2)

def flush (st : T7Reorderer × σ) : T7Reorderer × σ := release emit st st.1.buf.length

variable {P : σ → Prop} {Q : InvRec → Prop}

theorem release_induction
    (hemit : ∀ s rec, P s → Q rec → P (emit s rec)) (st : T7Reorderer × σ) (hs : P st.2)
    (hbuf : ∀ rec ∈ st.1.buf, Q rec) (n : Int) :
    P (release emit st n).2 ∧ ∀ rec ∈ (release emit st n).1.buf, Q rec := by
  have hfold : ∀ (recs : List InvRec) (s : σ), P s → (∀ rec ∈ recs, Q rec) →
      P (recs.foldl emit s) := by
    intro recs
    induction recs with
    | nil => exact fun s hs _ => hs
    | cons rec recs ih =>
      intro s hs hq
      obtain ⟨hrec, hrecs⟩ := List.forall_mem_cons.mp hq
      exact ih _ (hemit s rec hs hrec) hrecs
  unfold release
  dsimp only
  split_ifs
  · exact ⟨hs, hbuf⟩
  all_goals
    have hsort : ∀ rec ∈ stableSort (fun a b : InvRec => a.minT7Ns < b.minT7Ns) st.1.buf, Q rec :=
      fun rec hrec => hbuf rec ((perm_stableSort _ _).mem_iff.mp hrec)
    exact ⟨hfold _ _ hs fun rec hrec => hsort rec (List.mem_of_mem_take hrec),
      fun rec hrec => hsort rec (List.mem_of_mem_drop hrec)⟩

theorem push_induction
    (hemit : ∀ s rec, P s → Q rec → P (emit s rec)) (hlate : ∀ s, P s → P (late s))
    (st : T7Reorderer × σ) (hs : P st.2) (hbuf : ∀ rec ∈ st.1.buf, Q rec) (rec : InvRec)
    (hrec : Q rec) :
    P (push emit late st rec).2 ∧ ∀ x ∈ (push emit late st rec).1.buf, Q x := by
  have hbuf' : ∀ x ∈ st.1.buf ++ [rec], Q x := by
    intro x hx
    rcases List.mem_append.mp hx with hx | hx
    · exact hbuf x hx
    · rw [List.mem_singleton.mp hx]
      exact hrec
  unfold push
  dsimp only
  split_ifs
  · exact ⟨hlate _ hs, hbuf⟩
  · exact release_induction emit hemit ({ st.1 with buf := st.1.buf ++ [rec] }, st.2) hs hbuf' _
  · exact ⟨hs, hbuf'⟩

end T7Reorderer

/-! ### The validator -/

structure InvariantsValidator where
  windowUs : UInt64
  rep : Report := {}
  t7ReorderLate : Nat := 0
  t7Anomalies : Nat := 0
  window : T7Reorderer
  lastSeq : GoMap Flow UInt32 := ∅
  /-- The latest arrival among the processed orders. -/
  max1 : Option (UInt64 × Flow) := none
  /-- The latest one on another connection. -/
  max2T3 : Option UInt64 := none
  jitter : JitterHistogram := {}
  processed : Nat := 0
  anomalyCapNs : UInt64 := defaultT7AnomalyCapNs
  lateTaintRate : ℚ := defaultLateTaintRate
  applied : Nat := 0
  captureGaps : Nat := 0

def newInvariantsValidatorWithWindow (windowUs : UInt64) (t7Window : Int64) :
    InvariantsValidator where
  windowUs := if windowUs = 0 then defaultCrossFlowWindowUs else windowUs
  window := newT7Reorderer (if t7Window ≤ 0 then defaultT7ReorderWindow else t7Window)

namespace InvariantsValidator

def setT7AnomalyCapNs (v : InvariantsValidator) (capNs : UInt64) : InvariantsValidator :=
  if 0 < capNs then { v with anomalyCapNs := capNs } else v

def setLateTaintRate (v : InvariantsValidator) (rate : ℚ) : InvariantsValidator :=
  if 0 < rate then { v with lateTaintRate := rate } else v

/-- One more time violation, of the order `id`. -/
def flagTime (v : InvariantsValidator) (id detail : String) : InvariantsValidator :=
  { v with
    rep := { v.rep with timeViolations := v.rep.timeViolations + 1 }.add .time id 0 0 detail }

/-- Within a connection, sequence numbers go up. -/
def checkFIFO (v : InvariantsValidator) (rec : InvRec) : InvariantsValidator :=
  let v :=
    match v.lastSeq.lookup rec.flow with
    | some last =>
        if seqLE rec.tcpSeq last then
          v.flagTime rec.orderID "out-of-order TCPSeq within one flow"
        else v
    | none => v
  { v with lastSeq := v.lastSeq.insert rec.flow rec.tcpSeq }

/-- The latest arrival so far on another connection than `flow`. -/
def candidate (v : InvariantsValidator) (flow : Flow) : Option UInt64 :=
  match v.max1 with
  | some (t3, max1Flow) => if flow = max1Flow then v.max2T3 else some t3
  | none => none

/-- Across connections, an order that arrived earlier is processed earlier, up to the window. -/
def checkCrossFlow (v : InvariantsValidator) (rec : InvRec) : InvariantsValidator :=
  match v.candidate rec.flow with
  | some candT3 =>
      let (isInv, violation, jitterNs) := crossFlowPredicate rec.t3Ns candT3 v.windowUs
      if isInv then
        let v := { v with jitter := v.jitter.record jitterNs }
        if violation then
          v.flagTime rec.orderID "cross-flow processed after a later-arriving order beyond window W"
        else v
      else v
  | none => v

def trackMax (v : InvariantsValidator) (rec : InvRec) : InvariantsValidator :=
  match v.max1 with
  | none => { v with max1 := some (rec.t3Ns, rec.flow) }
  | some (max1T3, max1Flow) =>
      if max1T3 < rec.t3Ns then
        { v with
          max1 := some (rec.t3Ns, rec.flow)
          max2T3 :=
            if max1Flow ≠ rec.flow ∧ ∀ t ∈ v.max2T3, t < max1T3 then some max1T3 else v.max2T3 }
      else if rec.flow ≠ max1Flow ∧ ∀ t ∈ v.max2T3, t < rec.t3Ns then
        { v with max2T3 := some rec.t3Ns }
      else v

/-- The checks of one record as it leaves the window. -/
def onEmit (v : InvariantsValidator) (rec : InvRec) : InvariantsValidator :=
  let v := { v with processed := v.processed + 1 }
  ((v.checkFIFO rec).checkCrossFlow rec).trackMax rec

def onLate (v : InvariantsValidator) : InvariantsValidator :=
  { v with t7ReorderLate := v.t7ReorderLate + 1 }

/-- One response of an order, checked against its quantity; the second component is the
quantity reported so far. -/
def countFill (o : Order) (st : Report × UInt64) (resp : Response) : Report × UInt64 :=
  if isFill resp.execType resp.fillQty then
    let rep := { st.1 with totalFills := st.1.totalFills + 1 }
    let cumFilled := st.2 + resp.fillQty
    if o.qty < cumFilled then
      ({ rep with overfills := rep.overfills + 1 }.add .overfill o.orderID resp.fillQty
        resp.fillPrice.toInt64
        "cumulative reported fill qty exceeds order qty (book-free own-qty check)", cumFilled)
    else ({ rep with validFills := rep.validFills + 1 }, cumFilled)
  else st

/-- The anomalous responses, and the time of the first response that is none. -/
def firstResponse (o : Order) (capNs : UInt64) (st : Nat × Option UInt64) (resp : Response) :
    Nat × Option UInt64 :=
  if resp.t7Ns = 0 then st
  else if resp.t7Ns < o.t3Ns ∨ capNs < resp.t7Ns - o.t3Ns then (st.1 + 1, st.2)
  else
    match st.2 with
    | none => (st.1, some resp.t7Ns)
    | some minT7Ns => (st.1, some (if resp.t7Ns < minT7Ns then resp.t7Ns else minT7Ns))

def countLost (r : Report) (kind : Kind) : Report :=
  if kind = .cancel then { r with lostCancels := r.lostCancels + 1 }
  else { r with lostOrders := r.lostOrders + 1 }

def lostDetail : String := "order/cancel sent but never received any response"

def apply (v : InvariantsValidator) (o : Order) : InvariantsValidator :=
  let v := { v with rep := (o.responses.foldl (countFill o) (v.rep, 0)).1 }
  let (anomalies, minT7Ns) := o.responses.foldl (firstResponse o v.anomalyCapNs) (v.t7Anomalies, none)
  let v := { v with t7Anomalies := anomalies }
  match minT7Ns with
  | none =>
      -- counted after `add` here, before it in `addLost`
      { v with
        rep := countLost (v.rep.add (StreamValidator.lostViolationType o.kind) o.orderID 0 0
          lostDetail) o.kind }
  | some minT7Ns =>
      let v := { v with applied := v.applied + 1 }
      let st := T7Reorderer.push onEmit onLate (v.window, v)
        ⟨o.orderID, o.flow, o.tcpSeq, o.t3Ns, minT7Ns⟩
      { st.2 with window := st.1 }

def addUnmatched (v : InvariantsValidator) : InvariantsValidator :=
  { v with rep := { v.rep with phantomFills := v.rep.phantomFills + 1 } }

def addCaptureGap (v : InvariantsValidator) : InvariantsValidator :=
  { v with captureGaps := v.captureGaps + 1 }

def addLost (v : InvariantsValidator) (orderID : String) (kind : Kind) : InvariantsValidator :=
  { v with
    rep := (countLost v.rep kind).add (StreamValidator.lostViolationType kind) orderID 0 0
      lostDetail }

def finish (v : InvariantsValidator) : Report :=
  let st := T7Reorderer.flush onEmit (v.window, v)
  let v := { st.2 with window := st.1 }
  let scoredOrders := v.applied + v.rep.lostOrders + v.rep.lostCancels
  let suspect := v.t7ReorderLate + v.t7Anomalies
  { v.rep with
    scoredFills := v.rep.totalFills
    scoredOrders := scoredOrders
    captureGaps := v.captureGaps
    tainted := v.rep.tainted || (0 < v.applied && v.lateTaintRate < (suspect : ℚ) / v.applied) ||
      scoredOrders + v.captureGaps < 100 * v.captureGaps }

def call (v : InvariantsValidator) : StreamValidator.Call → InvariantsValidator
  | .apply o => v.apply o
  | .phantom => v.addUnmatched
  | .lost orderID kind => v.addLost orderID kind
  | .captureGap => v.addCaptureGap

/-- The report of a session, with the settings of the service; zero keeps a default. -/
def report (windowUs : UInt64) (t7Window : Int64) (capNs : UInt64) (rate : ℚ)
    (calls : List StreamValidator.Call) : Report :=
  let v := newInvariantsValidatorWithWindow windowUs t7Window
  (calls.foldl call ((v.setT7AnomalyCapNs capNs).setLateTaintRate rate)).finish

end InvariantsValidator

theorem countLost_add (r : Report) (kind : Kind) (t : ViolationType) (id : String) (qty : UInt64)
    (price : Int64) (detail : String) :
    InvariantsValidator.countLost (r.add t id qty price detail) kind =
      (InvariantsValidator.countLost r kind).add t id qty price detail := by
  unfold InvariantsValidator.countLost Report.add Report.markDirty
  dsimp only
  split_ifs <;> rfl

end MatchBench.Validate
