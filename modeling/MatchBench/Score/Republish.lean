import MatchBench.Score.Final

/-!
# A score that is published again

When a validated session is seen again, the validator does not validate it: it reads the row of the
summary and publishes it (`LoadScore`).  The row has a column for every counter, but none for the
jitter, the late and anomalous responses and the taint.  They are zero in the event that is
published again.

So the two events are the same exactly for a session that had none of these
(`republished_iff`).  The score computer writes the counters and the jitter of the event that comes
last; for a session with jitter the order of the two decides what its row is.
-/

namespace MatchBench.Score

open AList
open Service (SummaryStatus)

namespace Summaries

variable {t : Summaries} {sessionID : String} {row : Summary}

theorem lookup_save_scored (hrow : t.lookup sessionID = some row) (hs : row.status = .scored)
    (rec : SummaryRecord) : (t.save rec).1.lookup sessionID = some row := by
  rw [save]
  by_cases hid : sessionID = rec.sessionID
  · subst hid
    have hnot : ¬ (row.status = .timedOut ∧ rec.status = .scored) := fun h => by
      rw [hs] at h
      exact nomatch h.1
    rw [hrow]
    dsimp only
    rw [if_neg hnot]
    exact hrow
  cases t.lookup rec.sessionID with
  | none => exact (lookup_insert_ne hid).trans hrow
  | some old =>
    dsimp only
    split_ifs
    · exact (lookup_insert_ne hid).trans hrow
    · exact hrow

theorem lookup_saveAll_scored (later : List SummaryRecord) (hrow : t.lookup sessionID = some row)
    (hs : row.status = .scored) :
    (later.foldl (fun t rec => (save t rec).1) t).lookup sessionID = some row := by
  induction later generalizing t with
  | nil => exact hrow
  | cons rec later ih => exact ih (lookup_save_scored hrow hs rec)

theorem lookup_save_self {rec : SummaryRecord} (h : (t.save rec).2 = true) :
    (t.save rec).1.lookup rec.sessionID = some rec.row := by
  rw [save] at h ⊢
  cases hl : t.lookup rec.sessionID with
  | none => exact lookup_insert _
  | some old =>
    rw [hl] at h
    dsimp only at h ⊢
    split_ifs at h ⊢
    exact lookup_insert _

end Summaries

/-- The event that `LoadScore` makes of the row of a record. -/
def SummaryRecord.republished (rec : SummaryRecord) : CorrectnessScoreEvent where
  sessionID := rec.sessionID
  contestantID := rec.contestantID
  correct := { rec.correct with jitter := {} }
  correctnessScore := rec.correctnessScore
  computedAtNS := rec.computedAtNS

/-- The session has nothing that the table has no column for. -/
def SummaryRecord.Plain (rec : SummaryRecord) : Prop :=
  rec.correct.jitter = {} ∧ rec.t7ReorderLate = 0 ∧ rec.t7Anomalies = 0 ∧
    rec.resultTainted = false ∧ rec.taintReason = ""
  deriving Decidable

theorem SummaryRecord.republished_eq_event {rec : SummaryRecord} :
    rec.republished = rec.event ↔ rec.Plain := by
  rw [republished, event, Plain]
  constructor
  · intro h
    obtain ⟨-, -, hcorrect, -, -, hlate, hanomalies, htainted, hreason⟩ :=
      CorrectnessScoreEvent.mk.inj h
    exact ⟨(congrArg Correctness.jitter hcorrect).symm, hlate.symm, hanomalies.symm, htainted.symm,
      hreason.symm⟩
  · rintro ⟨hjitter, hlate, hanomalies, htainted, hreason⟩
    rw [hlate, hanomalies, htainted, hreason, ← hjitter]

/-! ### The row of the score computer -/

namespace Store

/-- The row that a correctness event leaves, of a session with the given run. -/
def correctRow (ev : CorrectnessScoreEvent) (x : String × String × String) (row : Option Progress) :
    Progress :=
  { row.getD ⟨"", "", "", none, none, none, none⟩ with
    runGroupID := x.1
    submissionID := x.2.1
    contestantID := if ev.contestantID ≠ "" then ev.contestantID else x.2.2
    correct := some ev.correct
    correctnessScore := some ev.correctnessScore
    correctnessAtNS := some ev.computedAtNS }

theorem row_recorded (s : Store) (ev : CorrectnessScoreEvent) :
    (s.recorded (.correctness ev)).runs = s.runs ∧
      (s.recorded (.correctness ev)).progress.lookup ev.sessionID =
        match s.lookupRun ev.sessionID with
        | .error _ => s.progress.lookup ev.sessionID
        | .ok x => some (correctRow ev x (s.progress.lookup ev.sessionID)) := by
  rw [recorded, record, recordCorrectness]
  cases s.lookupRun ev.sessionID with
  | error err => exact ⟨rfl, rfl⟩
  | ok x => exact ⟨rfl, lookup_insert _⟩

/-- What is left of the row of the session `sessionID` by the event. -/
def rowAfter (s : Store) (sessionID : String) (ev : CorrectnessScoreEvent) : Option Progress :=
  match s.lookupRun sessionID with
  | .error _ => s.progress.lookup sessionID
  | .ok x => some (correctRow ev x (s.progress.lookup sessionID))

/-- **The later of two events of a session decides** what its row is. -/
theorem recorded_twice (s : Store) {a b : CorrectnessScoreEvent} {sessionID : String}
    (ha : a.sessionID = sessionID) (hb : b.sessionID = sessionID) :
    ((s.recorded (.correctness a)).recorded (.correctness b)).progress.lookup sessionID =
      s.rowAfter sessionID b := by
  subst hb
  obtain ⟨hruns, hrow⟩ := s.row_recorded a
  have hrun : (s.recorded (.correctness a)).lookupRun b.sessionID = s.lookupRun b.sessionID := by
    rw [lookupRun, hruns, lookupRun]
  rw [ha] at hrow
  rw [(row_recorded _ b).2, rowAfter, hrun, hrow]
  cases s.lookupRun b.sessionID with
  | error err | ok x => rfl

end Store

/-- **A score that is published again is the same event exactly for a plain session**, whatever
else is saved in between.  The two events leave the same row in either order exactly when there was
no jitter. -/
theorem republished_iff (t : Summaries) (rec : SummaryRecord) (hstatus : rec.status = .scored)
    (hsaved : (t.save rec).2 = true) (later : List SummaryRecord) :
    ∃ ev, (later.foldl (fun t rec => (Summaries.save t rec).1) (t.save rec).1).loadScore
        rec.sessionID = some ev ∧
      (ev = rec.event ↔ rec.Plain) ∧
      ((∀ s : Store, ((s.recorded (.correctness rec.event)).recorded
          (.correctness ev)).progress.lookup rec.sessionID =
        ((s.recorded (.correctness ev)).recorded
          (.correctness rec.event)).progress.lookup rec.sessionID) ↔ rec.correct.jitter = {}) := by
  have hrow := Summaries.lookup_saveAll_scored later (Summaries.lookup_save_self hsaved) hstatus
  refine ⟨rec.republished, ?_, rec.republished_eq_event, ?_⟩
  · rw [Summaries.loadScore, hrow]
    rfl
  have hlast : ∀ s : Store, ((s.recorded (.correctness rec.event)).recorded
      (.correctness rec.republished)).progress.lookup rec.sessionID =
        s.rowAfter rec.sessionID rec.republished := fun s => s.recorded_twice rfl rfl
  have hfirst : ∀ s : Store, ((s.recorded (.correctness rec.republished)).recorded
      (.correctness rec.event)).progress.lookup rec.sessionID =
        s.rowAfter rec.sessionID rec.event := fun s => s.recorded_twice rfl rfl
  simp only [hlast, hfirst]
  constructor
  · intro h
    -- a store in which the session has a run
    obtain ⟨s, hs⟩ : ∃ s : Store, s.lookupRun rec.sessionID = .ok ("g", "", "") := by
      refine ⟨⟨(∅ : Runs).insert rec.sessionID ⟨"", "", some "g", ""⟩, ∅, ∅⟩, ?_⟩
      rw [Store.lookupRun, lookup_insert]
      rfl
    have hrows := h s
    rw [Store.rowAfter, Store.rowAfter, hs] at hrows
    have hcorrect := congrArg Progress.correct (Option.some.inj hrows)
    exact (congrArg Correctness.jitter (Option.some.inj hcorrect)).symm
  intro hjitter s
  have hcorrect : rec.republished.correct = rec.event.correct := by
    change { rec.correct with jitter := {} } = rec.correct
    rw [← hjitter]
  have hrow : ∀ x row, Store.correctRow rec.republished x row = Store.correctRow rec.event x row := by
    intro x row
    rw [Store.correctRow, Store.correctRow, hcorrect]
    rfl
  rw [Store.rowAfter, Store.rowAfter]
  simp [hrow]

/-- A session that passed without a remark. -/
def plainRecord : SummaryRecord where
  sessionID := "s"
  contestantID := "c"
  correct := ⟨9, 10, 1, 20, 20, 20, {}⟩
  correctnessScore := 19 / 20
  computedAtNS := 5

theorem republished_plain :
    (plainRecord.status = .scored ∧ (Summaries.save ∅ plainRecord).2 = true) ∧
      ∃ ev, (Summaries.save ∅ plainRecord).1.loadScore "s" = some ev ∧ ev = plainRecord.event := by
  refine ⟨⟨rfl, rfl⟩, ?_⟩
  obtain ⟨ev, hload, hev, -⟩ := republished_iff ∅ plainRecord rfl rfl []
  exact ⟨ev, hload, hev.mpr (by decide +kernel)⟩

/-- The same session, with jitter and tainted. -/
def jitteryRecord : SummaryRecord :=
  { plainRecord with
    correct := ⟨9, 10, 1, 20, 20, 20, { p99US := 700, maxUS := 900, invRate := 1 / 10 }⟩
    t7ReorderLate := 3
    resultTainted := true
    taintReason := "t7 stream unreliable: 3 late + 0 anomalous of 20 orders exceeds rate 0.0010" }

/-- A store with the run of the session. -/
def jitteryStore : Store := ⟨(∅ : Runs).insert "s" ⟨"sub", "c", some "g", "ramp"⟩, ∅, ∅⟩

/-- **The jitter and the taint are gone** from the event that is published again, and the order of
the two events decides on the row. -/
theorem republished_forgets :
    (Summaries.save ∅ jitteryRecord).2 = true ∧
      (Summaries.save ∅ jitteryRecord).1.loadScore "s" ≠ some jitteryRecord.event ∧
      ∀ ev ∈ (Summaries.save ∅ jitteryRecord).1.loadScore "s",
        ((jitteryStore.recorded (.correctness jitteryRecord.event)).recorded
            (.correctness ev)).progress.lookup "s" ≠
          ((jitteryStore.recorded (.correctness ev)).recorded
            (.correctness jitteryRecord.event)).progress.lookup "s" := by
  decide +kernel

end MatchBench.Score
