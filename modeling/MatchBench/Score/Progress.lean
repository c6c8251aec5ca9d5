import MatchBench.Lib.Table
import MatchBench.Model.Run
import MatchBench.Score.Compute

/-!
# When a run group is ready

`internal/store/store.go`.  The score computer keeps a row for each session in
`score_progress`.  A status update fills in the terminal status of the row, a correctness
event its counters, and each leaves the columns of the other as they are, null at first.
After either the group is looked at: `readyRunGroups` aggregates the rows of the group and
returns it when they are complete.

The aggregate ignores null statuses and wants counters in every row.  So a run without a
status can be passed over, and a failed run, which is never validated, holds its group up.
`ready_iff` says what the query returns, and `readyExact_iff` when this is what it should:
every run has a terminal status, and every completed one its correctness.
-/

namespace MatchBench.Score

open List Option

/-- The correctness of a session, as it is published. -/
structure CorrectnessScoreEvent where
  sessionID : String
  contestantID : String
  correct : Correctness
  correctnessScore : ℚ
  computedAtNS : Nat
  t7ReorderLate : Nat := 0
  t7Anomalies : Nat := 0
  resultTainted : Bool := false
  taintReason : String := ""
  deriving DecidableEq

/-- A row of `score_progress`.  The counters are written together. -/
structure Progress where
  runGroupID : String
  submissionID : String
  contestantID : String
  terminalStatus : Option RunStatus := none
  correct : Option Correctness := none
  correctnessScore : Option ℚ := none
  correctnessAtNS : Option Nat := none
  deriving DecidableEq

structure Store where
  runs : Runs
  progress : GoMap String Progress
  scores : GoMap String Result

namespace Store

/-- The group, submission and contestant of a session. -/
def lookupRun (s : Store) (sessionID : String) : Except String (String × String × String) :=
  match s.runs.lookup sessionID with
  | none => .error s!"lookup run {sessionID}: no rows in result set"
  | some r =>
      if r.runGroupID.getD "" = "" then .error s!"run {sessionID} has no run_group_id"
      else .ok (r.runGroupID.getD "", r.submissionID, r.contestantID)

/-! ### The query -/

/-- `BOOL_AND`: nulls are ignored, and without a value it is null. -/
def boolAnd (xs : List (Option Bool)) : Option Bool :=
  match xs.filterMap id with
  | [] => none
  | bs => some (bs.all id)

/-- `terminal_status IN ('completed','failed')`. -/
def isTerminal (status : Option RunStatus) : Option Bool := status.map terminalRunStatus

/-- The rows of a group that have a run. -/
def groupRows (s : Store) (runGroupID : String) : List (Sigma fun _ : String => Progress) :=
  s.progress.entries.filter (fun p => p.2.runGroupID = runGroupID && (s.runs.lookup p.1).isSome)

/-- The sessions of a group. -/
def groupRuns (s : Store) (runGroupID : String) : List String :=
  (s.runs.entries.filter (fun r => r.2.runGroupID = some runGroupID)).map Sigma.fst

def readyRunGroups (s : Store) (runGroupID : String) : List String :=
  let rows := s.groupRows runGroupID
  let count := (rows.map Sigma.fst).dedup.length
  if s.scores.lookup runGroupID = none ∧
      count = (s.groupRuns runGroupID).dedup.length ∧ 1 ≤ count ∧
      boolAnd (rows.map (fun p => isTerminal p.2.terminalStatus)) = some true ∧
      boolAnd (rows.map (fun p => some p.2.correct.isSome)) = some true
  then [runGroupID] else []

/-! ### The upserts -/

/-- The upsert of a status. -/
def upsertStatus (s : Store) (sessionID runGroupID submissionID contestantID : String)
    (status : RunStatus) : Store :=
  let row := (s.progress.lookup sessionID).getD ⟨"", "", "", none, none, none, none⟩
  { s with
    progress := s.progress.insert sessionID
      { row with
        runGroupID := runGroupID
        submissionID := submissionID
        contestantID := contestantID
        terminalStatus := some status } }

def recordStatus (s : Store) (ev : BenchmarkStatusUpdated) : Except String (Store × List String) :=
  if !terminalRunStatus ev.status then .ok (s, [])
  else
    let finish := fun runGroupID submissionID contestantID =>
      let s := s.upsertStatus ev.sessionID runGroupID submissionID contestantID ev.status
      .ok (s, s.readyRunGroups runGroupID)
    match s.lookupRun ev.sessionID with
    | .ok (runGroupID, submissionID, contestantID) =>
        finish (if ev.runGroupID = "" then runGroupID else ev.runGroupID)
          (if ev.submissionID = "" then submissionID else ev.submissionID) contestantID
    | .error err =>
        if ev.runGroupID = "" ∨ ev.submissionID = "" then .error err
        else finish ev.runGroupID ev.submissionID ""

/-- The upsert of a correctness event. -/
def upsertCorrectness (s : Store) (ev : CorrectnessScoreEvent)
    (runGroupID submissionID contestantID : String) : Store :=
  let row := (s.progress.lookup ev.sessionID).getD ⟨"", "", "", none, none, none, none⟩
  { s with
    progress := s.progress.insert ev.sessionID
      { row with
        runGroupID := runGroupID
        submissionID := submissionID
        contestantID := contestantID
        correct := some ev.correct
        correctnessScore := some ev.correctnessScore
        correctnessAtNS := some ev.computedAtNS } }

def recordCorrectness (s : Store) (ev : CorrectnessScoreEvent) :
    Except String (Store × List String) :=
  match s.lookupRun ev.sessionID with
  | .error err => .error err
  | .ok (runGroupID, submissionID, contestantID) =>
      let s := s.upsertCorrectness ev runGroupID submissionID
        (if ev.contestantID ≠ "" then ev.contestantID else contestantID)
      .ok (s, s.readyRunGroups runGroupID)

/-- A call of either. -/
inductive Record
  | status (ev : BenchmarkStatusUpdated)
  | correctness (ev : CorrectnessScoreEvent)
  deriving DecidableEq

def record (s : Store) : Record → Except String (Store × List String)
  | .status ev => s.recordStatus ev
  | .correctness ev => s.recordCorrectness ev

/-- A call that fails leaves the store as it is. -/
def recorded (s : Store) (r : Record) : Store :=
  match s.record r with
  | .ok x => x.1
  | .error _ => s

def recordAll (s : Store) (rs : List Record) : Store := rs.foldl recorded s

/-! ### What is recorded of a session -/

def statusOf (s : Store) (sessionID : String) : Option RunStatus :=
  (s.progress.lookup sessionID).bind Progress.terminalStatus

def correctOf (s : Store) (sessionID : String) : Option Correctness :=
  (s.progress.lookup sessionID).bind Progress.correct

variable {s : Store} {sessionID runGroupID : String}

theorem lookupRun_eq_ok {x : String × String × String} (h : s.lookupRun sessionID = .ok x) :
    ∃ run, s.runs.lookup sessionID = some run ∧ run.runGroupID = some x.1 ∧ x.1 ≠ "" := by
  rw [lookupRun] at h
  cases hr : s.runs.lookup sessionID with
  | none =>
    rw [hr] at h
    cases h
  | some run =>
    rw [hr] at h
    dsimp only at h
    split_ifs at h with hg
    cases h
    refine ⟨run, rfl, ?_, hg⟩
    cases hrun : run.runGroupID with
    | none => exact absurd (by rw [hrun]; rfl) hg
    | some g => rfl

/-- **What a status update does**: nothing, or the upsert, under the group it names or else
the group of the run. -/
theorem recorded_status (s : Store) (ev : BenchmarkStatusUpdated) :
    s.recorded (.status ev) = s ∨
      ∃ runGroupID submissionID contestantID,
        s.recorded (.status ev) =
          s.upsertStatus ev.sessionID runGroupID submissionID contestantID ev.status ∧
        terminalRunStatus ev.status = true ∧
        (ev.runGroupID = runGroupID ∧ runGroupID ≠ "" ∨ ev.runGroupID = "" ∧
          ∃ run, s.runs.lookup ev.sessionID = some run ∧ run.runGroupID = some runGroupID) := by
  rw [recorded, record, recordStatus]
  by_cases ht : terminalRunStatus ev.status = true
  · rw [ht, Bool.not_true, if_neg Bool.false_ne_true]
    cases hl : s.lookupRun ev.sessionID with
    | ok x =>
      obtain ⟨run, hrun, hgroup, _⟩ := lookupRun_eq_ok hl
      refine .inr ⟨_, _, _, rfl, rfl, ?_⟩
      by_cases he : ev.runGroupID = ""
      · rw [if_pos he]
        exact .inr ⟨he, run, hrun, hgroup⟩
      · rw [if_neg he]
        exact .inl ⟨rfl, he⟩
    | error err =>
      dsimp only
      split_ifs with he
      · exact .inl rfl
      · exact .inr ⟨_, _, _, rfl, rfl, .inl ⟨rfl, fun hc => he (.inl hc)⟩⟩
  · rw [Bool.not_eq_true] at ht
    rw [ht, Bool.not_false, if_pos rfl]
    exact .inl rfl

/-- **What a correctness event does**: nothing without a run, and the upsert under the group
of the run. -/
theorem recorded_correctness (s : Store) (ev : CorrectnessScoreEvent) :
    (s.recorded (.correctness ev) = s ∧ ∀ x, s.lookupRun ev.sessionID ≠ .ok x) ∨
      ∃ runGroupID submissionID contestantID run,
        s.recorded (.correctness ev) = s.upsertCorrectness ev runGroupID submissionID contestantID ∧
        s.runs.lookup ev.sessionID = some run ∧ run.runGroupID = some runGroupID := by
  rw [recorded, record, recordCorrectness]
  cases hl : s.lookupRun ev.sessionID with
  | error err => exact .inl ⟨rfl, fun x hx => by cases hx⟩
  | ok x =>
    obtain ⟨run, hrun, hgroup, _⟩ := lookupRun_eq_ok hl
    exact .inr ⟨_, _, _, run, rfl, hrun, hgroup⟩

theorem recorded_tables (s : Store) (r : Record) :
    (s.recorded r).runs = s.runs ∧ (s.recorded r).scores = s.scores := by
  cases r with
  | status ev =>
    rcases s.recorded_status ev with h | ⟨_, _, _, h, _⟩ <;> rw [h] <;> exact ⟨rfl, rfl⟩
  | correctness ev =>
    rcases s.recorded_correctness ev with ⟨h, _⟩ | ⟨_, _, _, _, h, _⟩ <;> rw [h] <;> exact ⟨rfl, rfl⟩

theorem recordAll_tables (rs : List Record) (s : Store) :
    (s.recordAll rs).runs = s.runs ∧ (s.recordAll rs).scores = s.scores := by
  induction rs generalizing s with
  | nil => exact ⟨rfl, rfl⟩
  | cons r rs ih =>
    obtain ⟨h1, h2⟩ := s.recorded_tables r
    rw [← h1, ← h2]
    exact ih (s.recorded r)

/-! ### Rows under the group of their run -/

/-- Every row of a session with a run is filed under the run's group, with a terminal status
if it has one. -/
structure Filed (s : Store) : Prop where
  group : ∀ sessionID p run, s.progress.lookup sessionID = some p →
    s.runs.lookup sessionID = some run → run.runGroupID = some p.runGroupID
  status : ∀ sessionID p status, s.progress.lookup sessionID = some p →
    p.terminalStatus = some status → terminalRunStatus status = true

/-- A status update names the group of its run, or none. -/
def OwnGroup (runs : Runs) : Record → Prop
  | .status ev => ev.runGroupID = "" ∨
      ∀ run ∈ runs.lookup ev.sessionID, run.runGroupID = some ev.runGroupID
  | .correctness _ => True

instance (runs : Runs) (r : Record) : Decidable (OwnGroup runs r) :=
  match r with
  | .status _ => inferInstanceAs (Decidable (_ ∨ _))
  | .correctness _ => inferInstanceAs (Decidable True)

theorem Filed.insert (h : s.Filed) {p : Progress}
    (hgroup : ∀ run, s.runs.lookup sessionID = some run → run.runGroupID = some p.runGroupID)
    (hstatus : ∀ status, p.terminalStatus = some status → terminalRunStatus status = true) :
    Filed { s with progress := s.progress.insert sessionID p } := by
  constructor
  · intro sessionID' p' run hp hrun
    rcases lookup_insert_eq_some.mp hp with ⟨rfl, rfl⟩ | ⟨-, hp⟩
    · exact hgroup run hrun
    · exact h.group sessionID' p' run hp hrun
  · intro sessionID' p' status hp hs
    rcases lookup_insert_eq_some.mp hp with ⟨rfl, rfl⟩ | ⟨-, hp⟩
    · exact hstatus status hs
    · exact h.status sessionID' p' status hp hs

theorem Filed.recorded (h : s.Filed) (r : Record) (hown : OwnGroup s.runs r) :
    (s.recorded r).Filed := by
  cases r with
  | status ev =>
    rcases s.recorded_status ev with he | ⟨g, sub, con, he, ht, hg⟩
    · rw [he]
      exact h
    rw [he]
    refine h.insert (fun run hrun => ?_) (fun status hs => ?_)
    · rcases hg with ⟨hg, hne⟩ | ⟨_, run', hrun', hg⟩
      · rw [← hg] at hne
        rw [hown.resolve_left hne run hrun, hg]
      · rw [hrun, Option.some.injEq] at hrun'
        rw [hrun', hg]
    · rw [← some.inj hs]
      exact ht
  | correctness ev =>
    rcases s.recorded_correctness ev with ⟨he, _⟩ | ⟨g, sub, con, run, he, hrun, hg⟩
    · rw [he]
      exact h
    rw [he]
    refine h.insert (fun run' hrun' => ?_) (fun status hs => ?_)
    · rw [hrun, Option.some.injEq] at hrun'
      rw [← hrun', hg]
    cases hl : s.progress.lookup ev.sessionID with
    | none =>
      rw [hl] at hs
      cases hs
    | some p =>
      rw [hl] at hs
      exact h.status _ p status hl hs

theorem Filed.recordAll {rs : List Record} : ∀ {s : Store}, s.Filed →
    (∀ r ∈ rs, OwnGroup s.runs r) → (s.recordAll rs).Filed := by
  induction rs with
  | nil => exact fun h _ => h
  | cons r rs ih =>
    intro s h hown
    refine ih (h.recorded r (hown r (.head _))) (fun x hx => ?_)
    rw [(s.recorded_tables r).1]
    exact hown x (.tail _ hx)

/-! ### What the query returns -/

theorem boolAnd_eq_true (xs : List (Option Bool)) :
    boolAnd xs = some true ↔ (∃ b, some b ∈ xs) ∧ ∀ b, some b ∈ xs → b = true := by
  have hmem : ∀ b, b ∈ xs.filterMap id ↔ some b ∈ xs := fun b => by simp
  rw [boolAnd]
  cases hv : xs.filterMap id with
  | nil =>
    refine iff_of_false (nofun) (fun ⟨⟨b, hb⟩, _⟩ => ?_)
    rw [← hmem, hv] at hb
    cases hb
  | cons a bs =>
    rw [hv] at hmem
    rw [Option.some.injEq, List.all_eq_true]
    constructor
    · exact fun h => ⟨⟨a, (hmem a).mp (.head _)⟩, fun b hb => h b ((hmem b).mpr hb)⟩
    · exact fun h b hb => h.2 b ((hmem b).mp hb)

theorem mem_groupRuns :
    sessionID ∈ s.groupRuns runGroupID ↔
      ∃ run, s.runs.lookup sessionID = some run ∧ run.runGroupID = some runGroupID := by
  rw [groupRuns, List.mem_map]
  constructor
  · rintro ⟨⟨id, run⟩, h, rfl⟩
    obtain ⟨hmem, hg⟩ := mem_filter.mp h
    exact ⟨run, AList.mem_lookup_iff.mpr hmem, of_decide_eq_true hg⟩
  · rintro ⟨run, hrun, hg⟩
    exact ⟨⟨sessionID, run⟩, mem_filter.mpr ⟨AList.mem_lookup_iff.mp hrun, decide_eq_true hg⟩, rfl⟩

theorem mem_groupRows {x : Sigma fun _ : String => Progress} :
    x ∈ s.groupRows runGroupID ↔ s.progress.lookup x.1 = some x.2 ∧ x.2.runGroupID = runGroupID ∧
      ∃ run, s.runs.lookup x.1 = some run := by
  rw [groupRows, mem_filter, Bool.and_eq_true, decide_eq_true_iff, isSome_iff_exists]
  exact and_congr_left' AList.mem_lookup_iff.symm

theorem nodup_groupRows (s : Store) (runGroupID : String) :
    ((s.groupRows runGroupID).map Sigma.fst).Nodup :=
  (filter_sublist.map Sigma.fst).nodup s.progress.nodupKeys

theorem nodup_groupRuns (s : Store) (runGroupID : String) : (s.groupRuns runGroupID).Nodup :=
  (filter_sublist.map Sigma.fst).nodup s.runs.nodupKeys

theorem Filed.rows_subset (h : s.Filed) (runGroupID : String) :
    (s.groupRows runGroupID).map Sigma.fst ⊆ s.groupRuns runGroupID := by
  intro sessionID hs
  obtain ⟨x, hx, rfl⟩ := List.mem_map.mp hs
  obtain ⟨hp, hg, run, hrun⟩ := mem_groupRows.mp hx
  exact mem_groupRuns.mpr ⟨run, hrun, hg ▸ h.group x.1 x.2 run hp hrun⟩

/-- **A group is ready** when all its runs have their correctness and some run has a
status. -/
theorem ready_iff (h : s.Filed) (runGroupID : String) :
    runGroupID ∈ s.readyRunGroups runGroupID ↔
      s.scores.lookup runGroupID = none ∧
      (∀ x ∈ s.groupRuns runGroupID, (s.correctOf x).isSome) ∧
      ∃ x ∈ s.groupRuns runGroupID, (s.statusOf x).isSome := by
  have hsub := h.rows_subset runGroupID
  have hnrows := s.nodup_groupRows runGroupID
  have hnruns := s.nodup_groupRuns runGroupID
  rw [readyRunGroups, dedup_eq_self.mpr hnrows, dedup_eq_self.mpr hnruns]
  simp only [boolAnd_eq_true]
  constructor
  · intro hin
    split_ifs at hin with hcond
    swap
    · cases hin
    obtain ⟨hscore, hcount, -, ⟨⟨b, hb⟩, -⟩, -, hall⟩ := hcond
    have hperm := ((subperm_of_subset hnrows hsub).perm_of_length_le hcount.ge)
    refine ⟨hscore, fun x hx => ?_, ?_⟩
    · obtain ⟨p, hp, rfl⟩ := List.mem_map.mp (hperm.mem_iff.mpr hx)
      rw [correctOf, (mem_groupRows.mp hp).1, bind_some]
      exact hall _ (List.mem_map.mpr ⟨p, hp, rfl⟩)
    obtain ⟨p, hp, hst⟩ := List.mem_map.mp hb
    refine ⟨p.1, hsub (List.mem_map.mpr ⟨p, hp, rfl⟩), ?_⟩
    rw [statusOf, (mem_groupRows.mp hp).1, bind_some]
    rw [isTerminal] at hst
    obtain ⟨st, hs, -⟩ := Option.map_eq_some_iff.mp hst
    rw [hs]
    rfl
  · rintro ⟨hscore, hall, y, hy, hstatus⟩
    have hrow : ∀ x ∈ s.groupRuns runGroupID, ∃ p : Progress,
        ⟨x, p⟩ ∈ s.groupRows runGroupID ∧ s.progress.lookup x = some p := by
      intro x hx
      obtain ⟨run, hrun, hg⟩ := mem_groupRuns.mp hx
      obtain ⟨c, hc⟩ := Option.isSome_iff_exists.mp (hall x hx)
      obtain ⟨p, hp, -⟩ := Option.bind_eq_some_iff.mp hc
      have hgroup := h.group x p run hp hrun
      rw [hg, Option.some.injEq] at hgroup
      exact ⟨p, mem_groupRows.mpr ⟨hp, hgroup.symm, run, hrun⟩, hp⟩
    have hperm : ((s.groupRows runGroupID).map Sigma.fst).Perm (s.groupRuns runGroupID) :=
      (perm_ext_iff_of_nodup hnrows hnruns).mpr (fun x => ⟨fun hx => hsub hx, fun hx => by
        obtain ⟨p, hp, -⟩ := hrow x hx
        exact List.mem_map.mpr ⟨_, hp, rfl⟩⟩)
    obtain ⟨p, hp, hlook⟩ := hrow y hy
    rw [statusOf, hlook, bind_some] at hstatus
    obtain ⟨st, hst⟩ := Option.isSome_iff_exists.mp hstatus
    rw [if_pos]
    · exact mem_singleton_self _
    refine ⟨hscore, hperm.length_eq, ?_, ⟨⟨true, ?_⟩, fun b hb => ?_⟩, ⟨p.correct.isSome, ?_⟩,
      fun b hb => ?_⟩
    · exact length_pos_of_mem (List.mem_map.mpr ⟨_, hp, rfl⟩)
    · refine List.mem_map.mpr ⟨_, hp, ?_⟩
      rw [hst, isTerminal, map_some, h.status y p st hlook hst]
    · obtain ⟨x, hx, hb⟩ := List.mem_map.mp hb
      rw [isTerminal] at hb
      obtain ⟨st', hs', hb⟩ := Option.map_eq_some_iff.mp hb
      rw [← hb]
      exact h.status x.1 x.2 st' (mem_groupRows.mp hx).1 hs'
    · exact List.mem_map.mpr ⟨_, hp, rfl⟩
    · obtain ⟨x, hx, hb⟩ := List.mem_map.mp hb
      have := hall x.1 (hsub (List.mem_map.mpr ⟨x, hx, rfl⟩))
      rw [correctOf, (mem_groupRows.mp hx).1, bind_some] at this
      rw [← some.inj hb]
      exact this

/-! ### What it should return -/

/-- Every run has a terminal status, and every completed one its correctness. -/
def Complete (s : Store) (runGroupID : String) : Prop :=
  ∀ x ∈ s.groupRuns runGroupID, (s.statusOf x).isSome ∧
    (s.statusOf x = some .completed → (s.correctOf x).isSome)

/-- The group has a run; it is not the case that all its runs have their correctness and
some but not all a status; and not the case that it is complete with a run that has no
correctness, which has failed. -/
structure Decisive (s : Store) (runGroupID : String) : Prop where
  nonempty : s.groupRuns runGroupID ≠ []
  early : ¬ ((∀ x ∈ s.groupRuns runGroupID, (s.correctOf x).isSome) ∧
    (∃ x ∈ s.groupRuns runGroupID, (s.statusOf x).isSome) ∧
    ∃ x ∈ s.groupRuns runGroupID, s.statusOf x = none)
  never : ¬ (s.Complete runGroupID ∧
    ∃ x ∈ s.groupRuns runGroupID, s.statusOf x = some .failed ∧ s.correctOf x = none)

theorem readyExact_iff_decisive (h : s.Filed) (hscore : s.scores.lookup runGroupID = none) :
    (runGroupID ∈ s.readyRunGroups runGroupID ↔ s.Complete runGroupID) ↔ s.Decisive runGroupID := by
  have hcases : ∀ {x st}, s.statusOf x = some st → st = .completed ∨ st = .failed := by
    intro x st hst
    obtain ⟨p, hp, hst⟩ := Option.bind_eq_some_iff.mp hst
    have := h.status x p st hp hst
    rwa [terminalRunStatus, Bool.or_eq_true, decide_eq_true_iff, decide_eq_true_iff] at this
  rw [ready_iff h, and_iff_right hscore]
  constructor
  · intro hiff
    refine ⟨fun hnil => ?_, fun ⟨hall, hsome, x, hx, hnone⟩ => ?_, fun ⟨hc, x, hx, _, hnone⟩ => ?_⟩
    · obtain ⟨-, x, hx, -⟩ := hiff.mpr (by rw [Complete, hnil]; exact nofun)
      rw [hnil] at hx
      cases hx
    · have := (hiff.mp ⟨hall, hsome⟩ x hx).1
      rw [hnone] at this
      cases this
    · have := (hiff.mpr hc).1 x hx
      rw [hnone] at this
      cases this
  intro hd
  constructor
  · rintro ⟨hall, hsome⟩ x hx
    refine ⟨?_, fun _ => hall x hx⟩
    by_contra hnone
    exact hd.early ⟨hall, hsome, x, hx, Option.not_isSome_iff_eq_none.mp hnone⟩
  intro hc
  refine ⟨fun x hx => ?_, ?_⟩
  · by_contra hnone
    obtain ⟨st, hst⟩ := Option.isSome_iff_exists.mp (hc x hx).1
    rcases hcases hst with hcomp | hfail
    · exact hnone ((hc x hx).2 (hcomp ▸ hst))
    · exact hd.never ⟨hc, x, hx, hfail ▸ hst, Option.not_isSome_iff_eq_none.mp hnone⟩
  · obtain ⟨x, hx⟩ := exists_mem_of_ne_nil _ hd.nonempty
    exact ⟨x, hx, (hc x hx).1⟩

/-- **Readiness is exact** for an unscored group, over every history in which status
updates name the group of their run or none, when the group is decisive. -/
theorem readyExact_iff (runs : Runs) (rs : List Record) (hown : ∀ r ∈ rs, OwnGroup runs r)
    (runGroupID : String) :
    (runGroupID ∈ (recordAll ⟨runs, ∅, ∅⟩ rs).readyRunGroups runGroupID ↔
        (recordAll ⟨runs, ∅, ∅⟩ rs).Complete runGroupID) ↔
      (recordAll ⟨runs, ∅, ∅⟩ rs).Decisive runGroupID := by
  have hempty : Filed ⟨runs, ∅, ∅⟩ :=
    ⟨fun _ _ _ h => absurd h.symm (some_ne_none _),
      fun _ _ _ h => absurd h.symm (some_ne_none _)⟩
  refine readyExact_iff_decisive (hempty.recordAll hown) ?_
  rw [(recordAll_tables rs ⟨runs, ∅, ∅⟩).2]
  exact AList.lookup_empty _

/-- Two runs of one group. -/
def twoRuns : Runs :=
  ((∅ : Runs).insert "s" ⟨"sub", "con", some "g", "correctness"⟩).insert "t"
    ⟨"sub", "con", some "g", "ramp"⟩

def updated (sessionID : String) (status : RunStatus) : Record :=
  .status ⟨sessionID, "sub", "g", status⟩

def validated (sessionID : String) : Record :=
  .correctness ⟨sessionID, "con", ⟨1, 1, 0, 1, 1, 1, {}⟩, 1, 0, 0, 0, false, ""⟩

theorem readyExact_completed :
    "g" ∈ (recordAll ⟨twoRuns, ∅, ∅⟩ [updated "s" .completed, validated "s", validated "t",
        updated "t" .completed]).readyRunGroups "g" ↔
      (recordAll ⟨twoRuns, ∅, ∅⟩ [updated "s" .completed, validated "s", validated "t",
        updated "t" .completed]).Complete "g" := by
  refine (readyExact_iff twoRuns _ (by decide) "g").mpr ⟨?_, ?_, ?_⟩
  · decide
  · decide
  · simp only [Complete]
    decide

/-- A failed run holds the group up; and a run without a status is passed over. -/
theorem not_readyExact :
    (recordAll ⟨twoRuns, ∅, ∅⟩ [updated "s" .completed, validated "s", updated "t" .failed]).Complete
        "g" ∧
      "g" ∉ (recordAll ⟨twoRuns, ∅, ∅⟩ [updated "s" .completed, validated "s",
        updated "t" .failed]).readyRunGroups "g" ∧
      "g" ∈ (recordAll ⟨twoRuns, ∅, ∅⟩ [updated "s" .completed, validated "s",
        validated "t"]).readyRunGroups "g" ∧
      ¬ (recordAll ⟨twoRuns, ∅, ∅⟩ [updated "s" .completed, validated "s", validated "t"]).Complete
        "g" := by
  simp only [Complete]
  decide

end Store

end MatchBench.Score
