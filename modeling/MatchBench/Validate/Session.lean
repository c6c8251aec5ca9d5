import MatchBench.Validate.Entries
import MatchBench.Validate.T7Window

/-!
# A session of the book-free validator

`apply` mixes three things: the accounting of an order, the window, and the checks of the records
that the window emits on this occasion.  `Session` takes them apart, at any point of a session.  The
window has been fed the records of the answered orders and nothing else acts on it; the checks are
those of the emitted records in a row; and the report has the entries of the calls, in their order,
and the entries of the checks, in theirs, shuffled.

The counters that taint a report are then functions of the calls (`finish_eq`).
-/

namespace MatchBench.Validate

open List InvariantsValidator

namespace InvariantsValidator

/-! ### Checks in a row -/

/-- The two validators check the next record alike. -/
structure SameChecks (v w : InvariantsValidator) : Prop where
  windowUs : v.windowUs = w.windowUs
  lastSeq : v.lastSeq = w.lastSeq
  max1 : v.max1 = w.max1
  max2T3 : v.max2T3 = w.max2T3
  jitter : v.jitter = w.jitter
  processed : v.processed = w.processed

section

variable {v w : InvariantsValidator}

theorem SameChecks.refl (v : InvariantsValidator) : SameChecks v v := ⟨rfl, rfl, rfl, rfl, rfl, rfl⟩

theorem SameChecks.trans {u : InvariantsValidator} (h : SameChecks u v) (h' : SameChecks v w) :
    SameChecks u w :=
  ⟨h.windowUs.trans h'.windowUs, h.lastSeq.trans h'.lastSeq, h.max1.trans h'.max1,
    h.max2T3.trans h'.max2T3, h.jitter.trans h'.jitter, h.processed.trans h'.processed⟩

theorem SameChecks.sample (h : SameChecks v w) (rec : InvRec) : v.sample rec = w.sample rec := by
  rw [InvariantsValidator.sample, InvariantsValidator.sample, candidate, candidate, h.max1, h.max2T3]

theorem SameChecks.timeEntries (h : SameChecks v w) (rec : InvRec) :
    v.timeEntries rec = w.timeEntries rec := by
  rw [InvariantsValidator.timeEntries, InvariantsValidator.timeEntries, breaksFIFO, breaksFIFO,
    breaksWindow, breaksWindow, h.sample, h.lastSeq, h.windowUs]

theorem SameChecks.onEmit (h : SameChecks v w) (rec : InvRec) :
    SameChecks (v.onEmit rec) (w.onEmit rec) := by
  have hsample := h.sample rec
  rw [onEmit_eq, onEmit_eq]
  refine ⟨h.windowUs, ?_, ?_, ?_, ?_, ?_⟩
  · dsimp only
    rw [h.lastSeq]
  · dsimp only
    rw [h.max1, h.max2T3]
  · dsimp only
    rw [h.max1, h.max2T3]
  · dsimp only
    rw [hsample, h.jitter]
  · dsimp only
    rw [h.processed]

/-- The validator when the records have been checked. -/
def sweep (v : InvariantsValidator) (recs : List InvRec) : InvariantsValidator :=
  recs.foldl InvariantsValidator.onEmit v

/-- What the records enter, one after the other. -/
def sweepEntries (v : InvariantsValidator) : List InvRec → List Entry
  | [] => []
  | rec :: recs => v.timeEntries rec ++ sweepEntries (v.onEmit rec) recs

theorem SameChecks.sweep (h : SameChecks v w) (recs : List InvRec) :
    SameChecks (v.sweep recs) (w.sweep recs) := by
  induction recs generalizing v w with
  | nil => exact h
  | cons rec recs ih => exact ih (h.onEmit rec)

theorem SameChecks.sweepEntries (h : SameChecks v w) (recs : List InvRec) :
    v.sweepEntries recs = w.sweepEntries recs := by
  induction recs generalizing v w with
  | nil => rfl
  | cons rec recs ih =>
    rw [sweepEntries, sweepEntries, h.timeEntries rec, ih (h.onEmit rec)]

theorem sweepEntries_append (v : InvariantsValidator) (recs more : List InvRec) :
    v.sweepEntries (recs ++ more) = v.sweepEntries recs ++ (v.sweep recs).sweepEntries more := by
  induction recs generalizing v with
  | nil => rfl
  | cons rec recs ih =>
    rw [cons_append, sweepEntries, ih, sweepEntries, append_assoc]
    rfl

/-- **Checks in a row**: the report gets their entries, and the rest of the validator is as it
was. -/
theorem sweep_eq (v : InvariantsValidator) (recs : List InvRec) :
    v.sweep recs =
      { v with
        rep := (v.sweepEntries recs).foldl Report.enter v.rep
        lastSeq := (v.sweep recs).lastSeq
        max1 := (v.sweep recs).max1
        max2T3 := (v.sweep recs).max2T3
        jitter := (v.sweep recs).jitter
        processed := (v.sweep recs).processed } := by
  induction recs generalizing v with
  | nil => rfl
  | cons rec recs ih =>
    have hcons : v.sweep (rec :: recs) = (v.onEmit rec).sweep recs := rfl
    rw [hcons, sweepEntries, foldl_append]
    conv_lhs => rw [ih]
    rw [onEmit_eq]

end

end InvariantsValidator

def Entry.isTime : Entry → Bool
  | .time _ _ => true
  | _ => false

namespace InvariantsValidator

open T7Reorderer (feed feedOne outcome)

theorem isTime_sweepEntries (recs : List InvRec) (v : InvariantsValidator) :
    ∀ e ∈ v.sweepEntries recs, e.isTime = true := by
  induction recs generalizing v with
  | nil => exact nofun
  | cons rec recs ih =>
    intro e he
    rcases mem_append.mp he with he | he
    · obtain ⟨detail, rfl⟩ := mem_timeEntries he
      rfl
    · exact ih _ e he

/-! ### Calls -/

/-- The record that a call hands to the window. -/
def callRecord (v : InvariantsValidator) : StreamValidator.Call → Option InvRec
  | .apply o => v.recordOf o
  | _ => none

/-- What a call enters, apart from the checks. -/
def callEntries (v : InvariantsValidator) : StreamValidator.Call → List Entry
  | .apply o => v.orderEntries o
  | .phantom => [.unmatched]
  | .lost orderID kind => [.lost orderID kind]
  | .captureGap => []

def callAnomalies (v : InvariantsValidator) : StreamValidator.Call → Nat
  | .apply o => (v.timing o).1
  | _ => 0

def isGap : StreamValidator.Call → Bool
  | .captureGap => true
  | _ => false

/-- The records of the answered orders. -/
def records (v : InvariantsValidator) (calls : List StreamValidator.Call) : List InvRec :=
  calls.filterMap v.callRecord

def anomalies (v : InvariantsValidator) (calls : List StreamValidator.Call) : Nat :=
  (calls.map v.callAnomalies).sum

theorem isTime_callEntries (v : InvariantsValidator) (c : StreamValidator.Call) :
    ∀ e ∈ v.callEntries c, e.isTime = false := by
  intro e he
  cases c with
  | apply o =>
    rcases mem_append.mp he with he | he
    · rcases mem_fillEntries he with rfl | ⟨qty, price, rfl⟩
      · rfl
      · rfl
    split_ifs at he
    · rw [mem_singleton.mp he]
      rfl
    · cases he
  | phantom | lost orderID kind =>
    rw [mem_singleton.mp he]
    rfl
  | captureGap => cases he

/-- The entries of a report: those of the checks and the others, each in their order. -/
structure Shuffles (rep : Report) (checks others : List Entry) : Prop where
  entries : ∃ es : List Entry, rep = es.foldl Report.enter {} ∧
    es.filter Entry.isTime = checks ∧ es.filter (fun e => !e.isTime) = others

section

variable {rep : Report} {checks others es : List Entry}

theorem Shuffles.check (h : Shuffles rep checks others) (hes : ∀ e ∈ es, e.isTime = true) :
    Shuffles (es.foldl Report.enter rep) (checks ++ es) others := by
  have hnone : es.filter (fun e => !e.isTime) = [] :=
    filter_eq_nil_iff.mpr fun e he => by simp [hes e he]
  obtain ⟨old, rfl, rfl, rfl⟩ := h.entries
  refine ⟨old ++ es, foldl_append.symm, ?_, ?_⟩
  · rw [filter_append, filter_eq_self.mpr hes]
  · rw [filter_append, hnone, append_nil]

theorem Shuffles.call (h : Shuffles rep checks others) (hes : ∀ e ∈ es, e.isTime = false) :
    Shuffles (es.foldl Report.enter rep) checks (others ++ es) := by
  have hnone : es.filter Entry.isTime = [] :=
    filter_eq_nil_iff.mpr fun e he => by simp [hes e he]
  have hall : es.filter (fun e => !e.isTime) = es :=
    filter_eq_self.mpr fun e he => by simp [hes e he]
  obtain ⟨old, rfl, rfl, rfl⟩ := h.entries
  refine ⟨old ++ es, foldl_append.symm, ?_, ?_⟩
  · rw [filter_append, hnone, append_nil]
  · rw [filter_append, hall]

end

/-- **The validator after the calls**, when the window has been fed the records `recs`. -/
structure Session (v₀ : InvariantsValidator) (size : Int64) (calls : List StreamValidator.Call)
    (recs : List InvRec) (v : InvariantsValidator) : Prop where
  window : v.window = (feed size recs).1
  late : v.t7ReorderLate = (feed size recs).2.2.length
  checks : SameChecks v (v₀.sweep (feed size recs).2.1)
  rep : Shuffles v.rep (v₀.sweepEntries (feed size recs).2.1) (calls.flatMap v₀.callEntries)
  applied : v.applied = (v₀.records calls).length
  anomalies : v.t7Anomalies = v₀.anomalies calls
  gaps : v.captureGaps = calls.countP isGap
  capNs : v.anomalyCapNs = v₀.anomalyCapNs
  rate : v.lateTaintRate = v₀.lateTaintRate

section

variable {v₀ v : InvariantsValidator} {size : Int64} {calls : List StreamValidator.Call}
  {recs : List InvRec}

theorem Session.timing (h : Session v₀ size calls recs v) (o : Order) : v.timing o = v₀.timing o := by
  rw [InvariantsValidator.timing, InvariantsValidator.timing, h.capNs]

theorem Session.account (h : Session v₀ size calls recs v) (c : StreamValidator.Call)
    {w : InvariantsValidator} (hwindow : w.window = v.window)
    (hlate : w.t7ReorderLate = v.t7ReorderLate) (hchecks : SameChecks w v)
    (hrep : w.rep = (v₀.callEntries c).foldl Report.enter v.rep)
    (happlied : w.applied = v.applied + (v₀.callRecord c).toList.length)
    (hanomalies : w.t7Anomalies = v.t7Anomalies + v₀.callAnomalies c)
    (hgaps : w.captureGaps = v.captureGaps + if isGap c then 1 else 0)
    (hcap : w.anomalyCapNs = v.anomalyCapNs) (hrate : w.lateTaintRate = v.lateTaintRate) :
    Session v₀ size (calls ++ [c]) recs w := by
  refine ⟨hwindow.trans h.window, hlate.trans h.late, hchecks.trans h.checks, ?_, ?_, ?_, ?_,
    hcap.trans h.capNs, hrate.trans h.rate⟩
  · rw [hrep, flatMap_append, flatMap_singleton]
    exact h.rep.call (isTime_callEntries v₀ c)
  · rw [happlied, h.applied, records, records, filterMap_append, length_append]
    cases hc : v₀.callRecord c with
    | none | some rec => simp [hc]
  · rw [hanomalies, h.anomalies, InvariantsValidator.anomalies, InvariantsValidator.anomalies,
      map_append, sum_append, map_singleton, sum_singleton]
  · rw [hgaps, h.gaps, countP_append, countP_singleton]

theorem Session.other (h : Session v₀ size calls recs v) (c : StreamValidator.Call)
    (hc : c.isApply = false) : Session v₀ size (calls ++ [c]) recs (v.call c) := by
  cases c with
  | apply o => cases hc
  | phantom | lost orderID kind | captureGap =>
    exact h.account _ rfl rfl ⟨rfl, rfl, rfl, rfl, rfl, rfl⟩ rfl rfl rfl rfl rfl rfl

theorem Session.register (h : Session v₀ size calls recs v) (o : Order) :
    Session v₀ size (calls ++ [.apply o]) recs (v.register o) := by
  have htiming := h.timing o
  refine h.account (.apply o) rfl rfl ⟨rfl, rfl, rfl, rfl, rfl, rfl⟩ ?_ ?_ ?_ rfl rfl rfl
  · rw [InvariantsValidator.register, callEntries, orderEntries, orderEntries, htiming]
  · rw [InvariantsValidator.register, callRecord, recordOf, htiming]
    cases (v₀.timing o).2 with
    | none | some minT7Ns => rfl
  · rw [InvariantsValidator.register, callAnomalies, htiming]

/-- **One record is pushed.** -/
theorem Session.pushRec (h : Session v₀ size calls recs v) (rec : InvRec) :
    Session v₀ size calls (recs ++ [rec]) (v.pushRec rec) := by
  obtain ⟨hwindow, hlate, hchecks, hrep, happlied, hanomalies, hgaps, hcap, hrate⟩ := h
  have hfeed := T7Reorderer.feed_concat size recs rec
  generalize hst : feed size recs = st at hwindow hlate hchecks hrep hfeed
  obtain ⟨r, s⟩ := st
  dsimp only at hwindow hlate hchecks hrep
  rw [feedOne, T7Reorderer.push_eq] at hfeed
  rw [InvariantsValidator.pushRec, T7Reorderer.push_eq, hwindow]
  split_ifs at hfeed ⊢ with hislate hfull
  · refine ⟨?_, ?_, ?_, ?_, happlied, hanomalies, hgaps, hcap, hrate⟩
    · rw [hfeed]
    · rw [hfeed]
      dsimp only [onLate, T7Reorderer.keepLate]
      rw [hlate, length_append, length_singleton]
    · rw [hfeed]
      exact ⟨hchecks.windowUs, hchecks.lastSeq, hchecks.max1, hchecks.max2T3, hchecks.jitter,
        hchecks.processed⟩
    · rw [hfeed]
      exact hrep
  · rw [T7Reorderer.foldl_keepEmitted] at hfeed
    generalize (r.buffer rec).released r.window.toInt = out at hfeed ⊢
    have hsweep : out.foldl onEmit v = v.sweep out := rfl
    have hmore : v₀.sweep (s.1 ++ out) = (v₀.sweep s.1).sweep out := foldl_append
    have hchecks' := hchecks.sweep out
    rw [sweep_eq] at hchecks'
    rw [hsweep, sweep_eq]
    refine ⟨?_, ?_, ?_, ?_, happlied, hanomalies, hgaps, hcap, hrate⟩
    · rw [hfeed]
    · rw [hfeed, ← hlate]
    · rw [hfeed]
      rw [hmore]
      exact ⟨hchecks'.windowUs, hchecks'.lastSeq, hchecks'.max1, hchecks'.max2T3, hchecks'.jitter,
        hchecks'.processed⟩
    · rw [hfeed, sweepEntries_append, ← hchecks.sweepEntries]
      exact hrep.check (isTime_sweepEntries out v)
  · refine ⟨?_, ?_, ?_, ?_, happlied, hanomalies, hgaps, hcap, hrate⟩
    · rw [hfeed]
    · rw [hfeed]
      exact hlate
    · rw [hfeed]
      exact ⟨hchecks.windowUs, hchecks.lastSeq, hchecks.max1, hchecks.max2T3, hchecks.jitter,
        hchecks.processed⟩
    · rw [hfeed]
      exact hrep

/-- **One call.** -/
theorem Session.call (h : Session v₀ size calls (v₀.records calls) v) (c : StreamValidator.Call) :
    Session v₀ size (calls ++ [c]) (v₀.records (calls ++ [c])) (v.call c) := by
  have hrecords : v₀.records (calls ++ [c]) = v₀.records calls ++ (v₀.callRecord c).toList := by
    rw [records, filterMap_append]
    cases hc : v₀.callRecord c with
    | none | some rec => simp [hc, records]
  rw [hrecords]
  cases c with
  | apply o =>
    have hrec : v₀.callRecord (.apply o) = v.recordOf o := by
      rw [callRecord, recordOf, recordOf, h.timing o]
    rw [InvariantsValidator.call, apply_eq, hrec]
    cases v.recordOf o with
    | none =>
      rw [Option.toList_none, append_nil]
      exact h.register o
    | some rec => exact (h.register o).pushRec rec
  | phantom | lost orderID kind | captureGap =>
    dsimp only [callRecord, Option.toList_none]
    rw [append_nil]
    exact h.other _ rfl

end

/-! ### The whole session -/

/-- A new validator with the settings of the service; zero keeps a default. -/
def settings (windowUs : UInt64) (t7Window : Int64) (capNs : UInt64) (rate : ℚ) :
    InvariantsValidator :=
  ((newInvariantsValidatorWithWindow windowUs t7Window).setT7AnomalyCapNs capNs).setLateTaintRate rate

def windowSize (t7Window : Int64) : Int64 :=
  if t7Window ≤ 0 then defaultT7ReorderWindow else t7Window

theorem report_eq (windowUs : UInt64) (t7Window : Int64) (capNs : UInt64) (rate : ℚ)
    (calls : List StreamValidator.Call) :
    report windowUs t7Window capNs rate calls =
      (calls.foldl call (settings windowUs t7Window capNs rate)).finish := rfl

/-- **Every session** is taken apart like this. -/
theorem session_calls (windowUs : UInt64) (t7Window : Int64) (capNs : UInt64) (rate : ℚ)
    (calls : List StreamValidator.Call) :
    Session (settings windowUs t7Window capNs rate) (windowSize t7Window) calls
      ((settings windowUs t7Window capNs rate).records calls)
      (calls.foldl call (settings windowUs t7Window capNs rate)) := by
  induction calls using reverseRecOn with
  | nil =>
    have hempty : Shuffles {} [] [] := ⟨[], rfl, rfl, rfl⟩
    rw [foldl_nil, settings, setLateTaintRate, setT7AnomalyCapNs]
    split_ifs
    all_goals exact ⟨rfl, rfl, SameChecks.refl _, hempty, rfl, rfl, rfl, rfl, rfl⟩
  | append_singleton calls c ih =>
    rw [foldl_append]
    exact ih.call c

/-- What `finish` makes of the report and the counters. -/
def conclude (rep : Report) (applied late anomalies gaps : Nat) (rate : ℚ) : Report :=
  { rep with
    scoredFills := rep.totalFills
    scoredOrders := applied + rep.lostOrders + rep.lostCancels
    captureGaps := gaps
    tainted := rep.tainted || (0 < applied && rate < ((late + anomalies : Nat) : ℚ) / applied) ||
      applied + rep.lostOrders + rep.lostCancels + gaps < 100 * gaps }

/-- The validator when the window is flushed. -/
def flushed (v : InvariantsValidator) : InvariantsValidator :=
  v.sweep (sortInvRecs v.window.buf)

section

variable {v₀ v : InvariantsValidator} {size : Int64} {calls : List StreamValidator.Call}
  {recs : List InvRec}

theorem outcome_feed (size : Int64) (recs : List InvRec) :
    outcome size recs =
      ((feed size recs).2.1 ++ sortInvRecs (feed size recs).1.buf, (feed size recs).2.2) := by
  rw [outcome, T7Reorderer.flush_eq, T7Reorderer.foldl_keepEmitted]

theorem Session.flushed (h : Session v₀ size calls recs v) :
    SameChecks v.flushed (v₀.sweep (outcome size recs).1) ∧
      Shuffles v.flushed.rep (v₀.sweepEntries (outcome size recs).1)
        (calls.flatMap v₀.callEntries) := by
  have hmore : v₀.sweep ((feed size recs).2.1 ++ sortInvRecs (feed size recs).1.buf) =
      (v₀.sweep (feed size recs).2.1).sweep (sortInvRecs (feed size recs).1.buf) :=
    foldl_append
  rw [outcome_feed, InvariantsValidator.flushed, h.window]
  refine ⟨?_, ?_⟩
  · rw [hmore]
    exact h.checks.sweep _
  · rw [sweepEntries_append, ← h.checks.sweepEntries, sweep_eq]
    exact h.rep.check (isTime_sweepEntries _ v)

theorem finish_conclude (v : InvariantsValidator) :
    v.finish = conclude v.flushed.rep v.applied v.t7ReorderLate v.t7Anomalies v.captureGaps
      v.lateTaintRate := by
  have hfinish : v.finish = conclude v.flushed.rep v.flushed.applied v.flushed.t7ReorderLate
      v.flushed.t7Anomalies v.flushed.captureGaps v.flushed.lateTaintRate := by
    rw [finish, T7Reorderer.flush_eq]
    rfl
  rw [hfinish, flushed, sweep_eq]

/-- **The report of a session**, by its calls and what its window makes of their records. -/
theorem Session.finish_eq (h : Session v₀ size calls recs v) :
    v.finish = conclude v.flushed.rep (v₀.records calls).length (outcome size recs).2.length
      (v₀.anomalies calls) (calls.countP isGap) v₀.lateTaintRate := by
  rw [finish_conclude, h.applied, h.late, h.anomalies, h.gaps, h.rate, outcome_feed]

end

end InvariantsValidator

end MatchBench.Validate
