import MatchBench.Score.Progress
import MatchBench.Service.Band

/-!
# The final score of a run group

The validator keeps a summary of each session and publishes its correctness.  A validation
that times out leaves a placeholder with no fills, which is published as well, and a later
one may replace it.  The score computer records what is published, and once a group is ready
a worker loads the rows of the group, computes the score and stores it, unless there is one
(`SaveScore`).

`System` has both services with what is on its way between them.  Each step is one statement
of the database or one message, so that all their interleavings are runs.  Nothing replaces a
stored score: `score_final` says that it is the score of the correctness that was published
last when the rows it was computed from were, and came from a summary that was scored.
-/

namespace MatchBench.Score

open List Option AList
open Service (SummaryStatus)

/-! ### The summaries of the validator -/

/-- `store.Record`: a validated session, or a placeholder. -/
structure SummaryRecord where
  sessionID : String
  contestantID : String
  correct : Correctness
  correctnessScore : ℚ
  computedAtNS : Nat
  t7ReorderLate : Nat := 0
  t7Anomalies : Nat := 0
  resultTainted : Bool := false
  taintReason : String := ""
  status : SummaryStatus := .scored
  deriving DecidableEq

/-- A row of `correctness_summary`, as far as it is read back. -/
structure Summary where
  contestantID : String
  validFills : Nat
  totalFills : Nat
  correctnessScore : ℚ
  violationCount : Nat
  computedAtNS : Nat
  sentCount : Nat
  ackedCount : Nat
  matchedCount : Nat
  status : SummaryStatus
  deriving DecidableEq

abbrev Summaries := GoMap String Summary

def SummaryRecord.row (rec : SummaryRecord) : Summary where
  contestantID := rec.contestantID
  validFills := rec.correct.validFills
  totalFills := rec.correct.totalFills
  correctnessScore := rec.correctnessScore
  violationCount := rec.correct.violationCount
  computedAtNS := rec.computedAtNS
  sentCount := rec.correct.sentCount
  ackedCount := rec.correct.ackedCount
  matchedCount := rec.correct.matchedCount
  status := rec.status

/-- `Save`: an insert, or the replacement of a placeholder by a scored summary; and whether a
row was written. -/
def Summaries.save (t : Summaries) (rec : SummaryRecord) : Summaries × Bool :=
  match t.lookup rec.sessionID with
  | none => (t.insert rec.sessionID rec.row, true)
  | some old =>
      if old.status = .timedOut ∧ rec.status = .scored then (t.insert rec.sessionID rec.row, true)
      else (t, false)

/-- `LoadScore`: the row as an event; what the table does not have is zero. -/
def Summaries.loadScore (t : Summaries) (sessionID : String) : Option CorrectnessScoreEvent :=
  (t.lookup sessionID).map (fun row =>
    { sessionID := sessionID
      contestantID := row.contestantID
      correct := ⟨row.validFills, row.totalFills, row.violationCount, row.sentCount, row.ackedCount,
        row.matchedCount, {}⟩
      correctnessScore := row.correctnessScore
      computedAtNS := row.computedAtNS })

/-- A report without orders has the score one. -/
def timeoutRecord (sessionID : String) (nowNS : Nat) : SummaryRecord where
  sessionID := sessionID
  contestantID := ""
  correct := ⟨0, 0, 0, 0, 0, 0, {}⟩
  correctnessScore := 1
  computedAtNS := nowNS
  status := .timedOut

/-- The event for a validated session. -/
def SummaryRecord.event (rec : SummaryRecord) : CorrectnessScoreEvent where
  sessionID := rec.sessionID
  contestantID := rec.contestantID
  correct := rec.correct
  correctnessScore := rec.correctnessScore
  computedAtNS := rec.computedAtNS
  t7ReorderLate := rec.t7ReorderLate
  t7Anomalies := rec.t7Anomalies
  resultTainted := rec.resultTainted
  taintReason := rec.taintReason

/-! ### The input of a score -/

/-- What does not change while a group is scored: the configuration, the row of the group,
and the scenario and the metrics of each session. -/
structure Bench where
  config : Config
  /-- The submission, contestant and team of a group. -/
  group : String → Option (String × String × String)
  tasks : String → List TaskSpec
  metrics : String → List MetricRow

/-- The input of a group for the given correctness of each session; none if one is null. -/
def inputFrom (bench : Bench) (runGroupID : String) (runs : List (Sigma fun _ : String => Run))
    (correct : String → Option Correctness) : Option Input :=
  match bench.group runGroupID with
  | none => none
  | some (submissionID, contestantID, teamName) =>
      (runs.mapM (fun r => (correct r.1).map (fun c =>
        (⟨r.1, r.2.scenario, bench.tasks r.1, c, bench.metrics r.1⟩ : Session)))).map (fun sessions =>
          { runGroupID := runGroupID
            submissionID := submissionID
            contestantID :=
              if contestantID = "" then
                ((runs.map (fun r => r.2.contestantID)).find? (fun id => id ≠ "")).getD ""
              else contestantID
            teamName := teamName
            sessions := sessions
            config := bench.config })

/-- The runs of a group; the table is in the order of the query. -/
def runsOf (runs : Runs) (runGroupID : String) : List (Sigma fun _ : String => Run) :=
  runs.entries.filter (fun r => r.2.runGroupID = some runGroupID)

/-- `LoadInput` joins the runs of the group with their rows. -/
def Store.loadInput (bench : Bench) (s : Store) (runGroupID : String) : Option Input :=
  inputFrom bench runGroupID
    ((runsOf s.runs runGroupID).filter (fun r => (s.progress.lookup r.1).isSome)) s.correctOf

/-- The score of an input, if there is a ramp or a disqualification. -/
def scoreOf (inp : Input) : Option Result := if (compute inp).2 then none else some (compute inp).1

/-- The score of a group for the given correctness of each session. -/
def scoreFrom (bench : Bench) (runs : Runs) (runGroupID : String)
    (correct : String → Option Correctness) : Option Result :=
  (inputFrom bench runGroupID (runsOf runs runGroupID) correct).bind scoreOf

/-- `SaveScore`: the first score of a group stays. -/
def Store.saveScore (s : Store) (res : Result) : Store :=
  match s.scores.lookup res.runGroupID with
  | some _ => s
  | none => { s with scores := s.scores.insert res.runGroupID res }

/-- `PendingRunGroups`: the query over all groups, at the start of the service. -/
def Store.pendingRunGroups (s : Store) : List String :=
  ((s.progress.entries.map (fun p => p.2.runGroupID)).dedup).flatMap s.readyRunGroups

/-! ### The two services -/

/-- An event with the status of the summary that it is from. -/
structure Published where
  ev : CorrectnessScoreEvent
  source : SummaryStatus
  deriving DecidableEq

/-- The last event of a session. -/
def lastOf (es : List Published) (sessionID : String) : Option Published :=
  (es.filter (fun p => p.ev.sessionID = sessionID)).getLast?

/-- A score that is computed, with the events that its rows are from. -/
structure Computed where
  res : Result
  basis : String → Option Published

structure System where
  summaries : Summaries
  /-- Events that the validator is about to publish. -/
  outbox : List Published
  /-- The messages of `scores.correctness`. -/
  topic : List Published
  /-- The events that the score computer has recorded. -/
  delivered : List Published
  store : Store
  ready : List String
  computed : List Computed
  /-- The events that the rows of each stored score are from. -/
  bases : GoMap String (String → Option Published)

inductive Step
  /-- A validation is done: its record is saved, and published if it was written. -/
  | validated (rec : SummaryRecord)
  /-- A validation times out: a placeholder is saved. -/
  | timedOut (sessionID : String) (nowNS : Nat)
  /-- A summary is read, to be published (again). -/
  | reload (sessionID : String)
  /-- An event of the outbox is published; or it is not, for an error or a crash. -/
  | publish (i : Nat)
  | lose (i : Nat)
  /-- A status update is recorded. -/
  | status (ev : BenchmarkStatusUpdated)
  /-- A message of the topic is recorded, for the first time or again. -/
  | deliver (i : Nat)
  /-- The score computer starts, and looks for groups that are pending. -/
  | restart
  /-- A worker takes a group that is ready, loads its rows and computes the score. -/
  | compute
  /-- A worker stores a score that it computed. -/
  | saveScore (i : Nat)

namespace System

def start (runs : Runs) : System := ⟨∅, [], [], [], ⟨runs, ∅, ∅⟩, [], [], ∅⟩

variable (bench : Bench)

def step (s : System) : Step → System
  | .validated rec =>
      let saved := s.summaries.save { rec with status := .scored }
      { s with
        summaries := saved.1
        outbox := if saved.2 then s.outbox ++ [⟨rec.event, .scored⟩] else s.outbox }
  | .timedOut sessionID nowNS =>
      { s with summaries := (s.summaries.save (timeoutRecord sessionID nowNS)).1 }
  | .reload sessionID =>
      match s.summaries.lookup sessionID, s.summaries.loadScore sessionID with
      | some row, some ev => { s with outbox := s.outbox ++ [⟨ev, row.status⟩] }
      | _, _ => s
  | .publish i =>
      match s.outbox[i]? with
      | some p => { s with outbox := s.outbox.eraseIdx i, topic := s.topic ++ [p] }
      | none => s
  | .lose i => { s with outbox := s.outbox.eraseIdx i }
  | .status ev =>
      match s.store.recordStatus ev with
      | .error _ => s
      | .ok (store, ready) => { s with store := store, ready := s.ready ++ ready }
  | .deliver i =>
      match s.topic[i]? with
      | none => s
      | some p =>
          match s.store.recordCorrectness p.ev with
          | .error _ => s
          | .ok (store, ready) =>
              { s with
                store := store
                ready := s.ready ++ ready
                delivered := s.delivered ++ [p] }
  | .restart => { s with ready := s.store.pendingRunGroups, computed := [] }
  | .compute =>
      match s.ready with
      | [] => s
      | runGroupID :: ready =>
          match (s.store.loadInput bench runGroupID).bind scoreOf with
          | none => { s with ready := ready }
          | some res =>
              { s with ready := ready, computed := s.computed ++ [⟨res, lastOf s.delivered⟩] }
  | .saveScore i =>
      match s.computed[i]? with
      | none => s
      | some c =>
          { s with
            computed := s.computed.eraseIdx i
            store := s.store.saveScore c.res
            bases :=
              match s.store.scores.lookup c.res.runGroupID with
              | some _ => s.bases
              | none => s.bases.insert c.res.runGroupID c.basis }

def run (runs : Runs) (steps : List Step) : System := steps.foldl (step bench) (start runs)

end System

/-! ### What the rows are from -/

theorem lastOf_append (es : List Published) (p : Published) (sessionID : String) :
    lastOf (es ++ [p]) sessionID =
      if p.ev.sessionID = sessionID then some p else lastOf es sessionID := by
  rw [lastOf, filter_append, filter_singleton]
  by_cases h : p.ev.sessionID = sessionID
  · rw [decide_eq_true h, if_pos h]
    exact getLast?_concat
  · rw [decide_eq_false h, if_neg h]
    exact congrArg getLast? (append_nil _)

namespace Store

theorem correctOf_insert (s : Store) (sessionID : String) (p : Progress) (x : String) :
    correctOf { s with progress := s.progress.insert sessionID p } x =
      if sessionID = x then p.correct else s.correctOf x := by
  rw [correctOf]
  by_cases h : sessionID = x
  · rw [if_pos h, ← h, lookup_insert, bind_some]
  · rw [if_neg h, lookup_insert_ne (fun hc => h hc.symm), correctOf]

variable {s store : Store} {ready : List String}

theorem correctOf_recordStatus {ev : BenchmarkStatusUpdated} (h : s.recordStatus ev = .ok (store, ready)) :
    store.runs = s.runs ∧ store.scores = s.scores ∧ ∀ x, store.correctOf x = s.correctOf x := by
  have hrec : s.recorded (.status ev) = store := by
    rw [recorded, record, h]
  obtain ⟨hruns, hscores⟩ := s.recorded_tables (.status ev)
  rw [hrec] at hruns hscores
  refine ⟨hruns, hscores, fun x => ?_⟩
  rcases s.recorded_status ev with he | ⟨g, sub, con, he, _⟩
  · rw [← hrec, he]
  rw [← hrec, he, upsertStatus, correctOf_insert]
  by_cases hx : ev.sessionID = x
  · rw [if_pos hx, ← hx, correctOf]
    cases s.progress.lookup ev.sessionID <;> rfl
  · rw [if_neg hx]

theorem correctOf_recordCorrectness {ev : CorrectnessScoreEvent} (h : s.recordCorrectness ev = .ok (store, ready)) :
    store.runs = s.runs ∧ store.scores = s.scores ∧
      ∀ x, store.correctOf x = if ev.sessionID = x then some ev.correct else s.correctOf x := by
  rw [recordCorrectness] at h
  cases hl : s.lookupRun ev.sessionID with
  | error err =>
    rw [hl] at h
    cases h
  | ok y =>
    rw [hl] at h
    cases h
    exact ⟨rfl, rfl, fun x => by rw [upsertCorrectness, correctOf_insert]⟩

end Store

/-! ### What a score is from -/

variable {bench : Bench} {runGroupID : String} {res : Result}

theorem inputFrom_congr
    {runs : List (Sigma fun _ : String => Run)} {correct correct' : String → Option Correctness}
    (h : ∀ r ∈ runs, correct r.1 = correct' r.1) :
    inputFrom bench runGroupID runs correct = inputFrom bench runGroupID runs correct' := by
  have hmap : ∀ (rs : List (Sigma fun _ : String => Run)), (∀ r ∈ rs, correct r.1 = correct' r.1) →
      rs.mapM (fun r => (correct r.1).map (fun c =>
        (⟨r.1, r.2.scenario, bench.tasks r.1, c, bench.metrics r.1⟩ : Session))) =
      rs.mapM (fun r => (correct' r.1).map (fun c =>
        (⟨r.1, r.2.scenario, bench.tasks r.1, c, bench.metrics r.1⟩ : Session))) := by
    intro rs
    induction rs with
    | nil => exact fun _ => rfl
    | cons r rs ih =>
      intro hr
      rw [mapM_cons, mapM_cons, hr r (.head _), ih (fun x hx => hr x (.tail _ hx))]
  rw [inputFrom, inputFrom, hmap runs h]

theorem runGroupID_of_inputFrom
    {runs : List (Sigma fun _ : String => Run)} {correct : String → Option Correctness}
    (h : (inputFrom bench runGroupID runs correct).bind scoreOf = some res) :
    res.runGroupID = runGroupID := by
  obtain ⟨inp, hinp, hres⟩ := Option.bind_eq_some_iff.mp h
  have hid : inp.runGroupID = runGroupID := by
    rw [inputFrom] at hinp
    cases hg : bench.group runGroupID with
    | none =>
      rw [hg] at hinp
      cases hinp
    | some y =>
      rw [hg] at hinp
      obtain ⟨sessions, -, rfl⟩ := Option.map_eq_some_iff.mp hinp
      rfl
  rw [scoreOf] at hres
  split_ifs at hres
  rw [← some.inj hres, (compute_keeps inp).2, hid]

/-- The score is that of the events, if there is one for each run of the group. -/
def Based (bench : Bench) (runs : Runs) (res : Result) (basis : String → Option Published) : Prop :=
  (∀ r ∈ runsOf runs res.runGroupID, (basis r.1).isSome) →
    scoreFrom bench runs res.runGroupID (fun x => (basis x).map (fun p => p.ev.correct)) = some res

namespace System

variable {bench : Bench} {runs : Runs}

structure Inv (bench : Bench) (runs : Runs) (s : System) : Prop where
  table : s.store.runs = runs
  rows : ∀ x, s.store.correctOf x = (lastOf s.delivered x).map (fun p => p.ev.correct)
  computed : ∀ c ∈ s.computed, Based bench runs c.res c.basis
  scores : ∀ runGroupID res, s.store.scores.lookup runGroupID = some res →
    res.runGroupID = runGroupID ∧
      ∃ basis, s.bases.lookup runGroupID = some basis ∧ Based bench runs res basis

variable {s : System}

theorem Inv.based (h : s.Inv bench runs)
    (hres : (s.store.loadInput bench runGroupID).bind scoreOf = some res) :
    Based bench runs res (lastOf s.delivered) := by
  intro hall
  rw [Store.loadInput] at hres
  have hid := runGroupID_of_inputFrom hres
  rw [hid] at hall ⊢
  rw [h.table] at hres
  -- every run has a row
  have hrows : (runsOf runs runGroupID).filter (fun r => (s.store.progress.lookup r.1).isSome) =
      runsOf runs runGroupID := by
    refine filter_eq_self.mpr (fun r hr => ?_)
    obtain ⟨p, hp⟩ := Option.isSome_iff_exists.mp (hall r hr)
    have hc := h.rows r.1
    rw [hp, map_some] at hc
    obtain ⟨row, hrow, -⟩ := Option.bind_eq_some_iff.mp hc
    rw [hrow]
    rfl
  rw [hrows] at hres
  have hcorrect : (fun x => (lastOf s.delivered x).map (fun p => p.ev.correct)) = s.store.correctOf :=
    funext (fun x => (h.rows x).symm)
  rw [scoreFrom, hcorrect, hres]

theorem Inv.start (bench : Bench) (runs : Runs) : (start runs).Inv bench runs where
  table := rfl
  rows _ := rfl
  computed _ h := nomatch h
  scores _ _ h := nomatch h

theorem Inv.saveScore (h : s.Inv bench runs) (i : Nat) :
    (s.step bench (.saveScore i)).Inv bench runs := by
  rw [step]
  cases hc : s.computed[i]? with
  | none => exact h
  | some c =>
    have hbased := h.computed c (mem_of_getElem? hc)
    have hcomputed : ∀ c' ∈ s.computed.eraseIdx i, Based bench runs c'.res c'.basis :=
      fun c' hc' => h.computed c' (mem_of_mem_eraseIdx hc')
    dsimp only
    rw [Store.saveScore]
    cases hs : s.store.scores.lookup c.res.runGroupID with
    | some old => exact ⟨h.table, h.rows, hcomputed, h.scores⟩
    | none =>
      refine ⟨h.table, h.rows, hcomputed, fun runGroupID res hres => ?_⟩
      dsimp only at hres ⊢
      rcases lookup_insert_eq_some.mp hres with ⟨rfl, rfl⟩ | ⟨hne, hres⟩
      · rw [lookup_insert]
        exact ⟨rfl, c.basis, rfl, hbased⟩
      · rw [lookup_insert_ne hne]
        exact h.scores runGroupID res hres

/-- **One step** of the two services. -/
theorem Inv.step (h : s.Inv bench runs) (t : Step) : (s.step bench t).Inv bench runs := by
  cases t with
  | validated rec | timedOut sessionID nowNS => exact ⟨h.table, h.rows, h.computed, h.scores⟩
  | reload sessionID | publish i =>
    rw [System.step]
    split
    · exact ⟨h.table, h.rows, h.computed, h.scores⟩
    · exact h
  | lose i => exact ⟨h.table, h.rows, h.computed, h.scores⟩
  | restart => exact ⟨h.table, h.rows, nofun, h.scores⟩
  | status ev =>
    rw [System.step]
    cases hr : s.store.recordStatus ev with
    | error err => exact h
    | ok x =>
      obtain ⟨store, ready⟩ := x
      obtain ⟨hruns, hscores, hcorrect⟩ := Store.correctOf_recordStatus hr
      exact ⟨hruns.trans h.table, fun x => (hcorrect x).trans (h.rows x), h.computed,
        hscores ▸ h.scores⟩
  | deliver i =>
    rw [System.step]
    cases hp : s.topic[i]? with
    | none => exact h
    | some p =>
      dsimp only
      cases hr : s.store.recordCorrectness p.ev with
      | error err => exact h
      | ok x =>
        obtain ⟨store, ready⟩ := x
        obtain ⟨hruns, hscores, hcorrect⟩ := Store.correctOf_recordCorrectness hr
        refine ⟨hruns.trans h.table, fun x => ?_, h.computed, hscores ▸ h.scores⟩
        dsimp only
        rw [hcorrect x, lastOf_append]
        by_cases hx : p.ev.sessionID = x
        · rw [if_pos hx, if_pos hx, map_some]
        · rw [if_neg hx, if_neg hx, h.rows x]
  | compute =>
    rw [System.step]
    cases s.ready with
    | nil => exact h
    | cons runGroupID ready =>
      dsimp only
      cases hres : (s.store.loadInput bench runGroupID).bind scoreOf with
      | none => exact ⟨h.table, h.rows, h.computed, h.scores⟩
      | some res =>
        refine ⟨h.table, h.rows, fun c hc => ?_, h.scores⟩
        rcases mem_append.mp hc with hc | hc
        · exact h.computed c hc
        · rw [mem_singleton.mp hc]
          exact h.based hres
  | saveScore i => exact h.saveScore i

theorem inv_run (bench : Bench) (runs : Runs) (steps : List Step) :
    (run bench runs steps).Inv bench runs := by
  have hfold : ∀ (steps : List Step) (s : System), s.Inv bench runs →
      (steps.foldl (step bench) s).Inv bench runs := by
    intro steps
    induction steps with
    | nil => exact fun s h => h
    | cons t steps ih => exact fun s h => ih _ (h.step t)
  exact hfold steps _ (Inv.start bench runs)

/-- The rows of a stored score are from the last events published, and none of them from a
placeholder. -/
def Settled (s : System) (runs : Runs) (runGroupID : String) : Prop :=
  ∀ basis ∈ s.bases.lookup runGroupID, ∀ r ∈ runsOf runs runGroupID,
    basis r.1 = lastOf s.topic r.1 ∧ ∃ p ∈ lastOf s.topic r.1, p.source = .scored

/-- A correctness session and a ramp at max rate. -/
def gradedRuns : Runs :=
  ((∅ : Runs).insert "t" ⟨"sub", "con", some "g", "ramp"⟩).insert "s"
    ⟨"sub", "con", some "g", scenarioCorrectness⟩

def someBench : Bench where
  config := ⟨0, 0, 0, 0, 0⟩
  group _ := some ("sub", "con", "team")
  tasks _ := [⟨0, 0, 1⟩]
  metrics _ := []

/-- A session with all its fills valid. -/
def flawless (sessionID : String) : SummaryRecord :=
  { sessionID := sessionID, contestantID := "con", correct := ⟨4, 4, 0, 4, 4, 4, {}⟩,
    correctnessScore := 1, computedAtNS := 2 }

/-- Both sessions end, and the ramp is validated. -/
def ended : List Step :=
  [.status ⟨"s", "sub", "g", .completed⟩, .status ⟨"t", "sub", "g", .completed⟩,
    .validated (flawless "t"), .publish 0, .deliver 0]

/-- The correctness session is validated before the group is scored. -/
def validatedInTime : List Step :=
  ended ++ [.timedOut "s" 1, .validated (flawless "s"), .publish 0, .deliver 1, .compute, .saveScore 0]

/-- It times out, the group is scored, and the next validation is published. -/
def validatedLate : List Step :=
  ended ++ [.timedOut "s" 1, .reload "s", .publish 0, .deliver 1, .compute, .saveScore 0,
    .validated (flawless "s"), .publish 0, .deliver 2, .compute]

end System

end MatchBench.Score
