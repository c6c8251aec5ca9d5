import Mathlib.Data.List.AList
import Mathlib.Data.List.MinMax
import Mathlib.Data.String.Basic
import MatchBench.Lib.Table
import MatchBench.Model.Run

/-!
# The tables of runs and run groups

A benchmark of a submission is a run group, with one run per scenario.  The submission
service and the controller of the bot fleet both write the two tables.  Each statement of
theirs is a function of the tables here, under the name of the store method it belongs to;
a method of two statements is two functions.  A statement that fails leaves the tables as
they are, so a failure is not in these functions but in the step that runs them.

The keys of a table are distinct because the table is an `AList`.  The message and the
times of a row are left out: nothing depends on them.
-/

namespace MatchBench.Dispatch

open List Option AList

/-- A row of `runs`, by its session id; a legacy run has no group. -/
structure RunMeta where
  submissionID : String
  contestantID : String
  runGroupID : Option String
  scenarioID : String
  status : RunStatus
  deriving DecidableEq, Repr

/-- A row of `run_groups`, by its id. -/
structure RunGroupMeta where
  submissionID : String
  contestantID : String
  status : RunStatus
  deriving DecidableEq, Repr

/-- What is published to have a run executed. -/
structure BenchmarkMeta where
  sessionID : String
  submissionID : String
  contestantID : String
  runGroupID : String
  scenarioID : String
  deriving DecidableEq, Repr

structure InFlightRun where
  sessionID : String
  submissionID : String
  runGroupID : String
  deriving DecidableEq, Repr

inductive StoreError
  | activeRunGroupExists
  | storeDatabaseFailed
  deriving DecidableEq, Repr

structure Tables where
  runs : AList (fun _ : String => RunMeta)
  groups : AList (fun _ : String => RunGroupMeta)

/-- Whether the run is in the group. -/
def RunMeta.inGroup (r : RunMeta) (runGroupID : String) : Bool := r.runGroupID = some runGroupID

namespace Tables

def empty : Tables := ⟨∅, ∅⟩

def setRun (db : Tables) (sessionID : String) (r : RunMeta) : Tables :=
  { db with runs := db.runs.insert sessionID r }

def setGroup (db : Tables) (runGroupID : String) (g : RunGroupMeta) : Tables :=
  { db with groups := db.groups.insert runGroupID g }

/-- The update of a run that has not ended, in `UpdateRunStatus` and `MarkRunFailed`, with
whether there was such a run. -/
def updateRunStatus (db : Tables) (sessionID : String) (status : RunStatus) : Tables × Bool :=
  match db.runs.lookup sessionID with
  | none => (db, false)
  | some r =>
      if terminalRunStatus r.status then (db, false)
      else (db.setRun sessionID { r with status := status }, true)

/-- The runs of a group that wait to be dispatched. -/
def waiting (db : Tables) (runGroupID : String) : List (Sigma fun _ : String => RunMeta) :=
  db.runs.entries.filter (fun e => e.2.inGroup runGroupID && e.2.status = .requested)

/-- The waiting run with the least session id becomes `queued` and is returned. -/
def claimNextRunInGroup (db : Tables) (runGroupID : String) : Tables × Option BenchmarkMeta :=
  match (db.waiting runGroupID).argmin Sigma.fst with
  | none => (db, none)
  | some ⟨sessionID, r⟩ =>
      (db.setRun sessionID { r with status := .queued },
        some ⟨sessionID, r.submissionID, r.contestantID, runGroupID, r.scenarioID⟩)

def findActiveRunGroup (db : Tables) (submissionID : String) : Option (String × RunGroupMeta) :=
  (db.groups.entries.find? (fun e =>
    e.2.submissionID = submissionID && !terminalRunStatus e.2.status)).map (fun e => (e.1, e.2))

/-- The runs of a new group, one after another: neither the session nor the scenario of
the group may be there already. -/
def insertRuns (runs : AList (fun _ : String => RunMeta)) :
    List (String × RunMeta) → Option (AList (fun _ : String => RunMeta))
  | [] => some runs
  | (sessionID, r) :: rs =>
      if (runs.lookup sessionID).isSome then none
      else if runs.entries.any (fun e =>
          r.runGroupID.isSome && e.2.runGroupID = r.runGroupID && e.2.scenarioID = r.scenarioID)
        then none
      else insertRuns (runs.insert sessionID r) rs

/-- One transaction.  A second active group of the submission is refused by a unique index,
and a known group id by another; the error does not tell one from the other. -/
def insertRunGroupWithChildren (db : Tables) (runGroupID : String) (g : RunGroupMeta)
    (children : List (String × RunMeta)) : Except StoreError Tables :=
  if (db.groups.lookup runGroupID).isSome ||
      !terminalRunStatus g.status && (db.findActiveRunGroup g.submissionID).isSome then
    .error .activeRunGroupExists
  else
    match insertRuns db.runs children with
    | none => .error .storeDatabaseFailed
    | some runs => .ok ⟨runs, db.groups.insert runGroupID g⟩

structure Counts where
  failed : Nat
  completed : Nat
  requested : Nat
  total : Nat
  deriving DecidableEq, Repr

/-- The query of `RecomputeRunGroupStatus`. -/
def countRuns (db : Tables) (runGroupID : String) : Counts :=
  let rows := db.runs.entries.filter (fun e => e.2.inGroup runGroupID)
  { failed := rows.countP (fun e => e.2.status = .failed)
    completed := rows.countP (fun e => e.2.status = .completed)
    requested := rows.countP (fun e => e.2.status = .requested)
    total := rows.length }

/-- The status that `RecomputeRunGroupStatus` writes, if any. -/
def Counts.newStatus (c : Counts) : Option RunStatus :=
  if c.total = 0 then none
  else if c.completed = c.total then some .completed
  else if 0 < c.failed ∧ c.failed + c.completed = c.total then some .failed
  else if c.requested = c.total then some .requested
  else some .running

/-- The update of `RecomputeRunGroupStatus`. -/
def setRunGroupStatus (db : Tables) (runGroupID : String) (status : RunStatus) : Tables :=
  match db.groups.lookup runGroupID with
  | none => db
  | some g => db.setGroup runGroupID { g with status := status }

/-- In no particular order. -/
def listInFlightRuns (db : Tables) : List InFlightRun :=
  (db.runs.entries.filter (fun e => !terminalRunStatus e.2.status)).map
    (fun e => ⟨e.1, e.2.submissionID, e.2.runGroupID.getD ""⟩)

def markRunGroupFailed (db : Tables) (runGroupID : String) : Tables :=
  match db.groups.lookup runGroupID with
  | none => db
  | some g =>
      if runGroupID = "" ∨ terminalRunStatus g.status then db
      else db.setGroup runGroupID { g with status := .failed }

/-! ### What the statements do -/

variable {db : Tables}

/-- The run stands in the table. -/
def Has (db : Tables) (sessionID : String) (r : RunMeta) : Prop := db.runs.lookup sessionID = some r

variable {s g : String} {r r' : RunMeta}

theorem Has.unique (h : db.Has s r) (h' : db.Has s r') : r = r' :=
  some.inj (h.symm.trans h')

instance (db : Tables) (s : String) (P : RunMeta → Prop) [DecidablePred P] :
    Decidable (∃ r, db.Has s r ∧ P r) :=
  match h : db.runs.lookup s with
  | none => isFalse fun ⟨_, hr, _⟩ => some_ne_none _ (hr.symm.trans h)
  | some r =>
      decidable_of_iff (P r)
        ⟨fun hp => ⟨r, h, hp⟩, fun ⟨_, hr, hp⟩ => Option.some.inj (hr.symm.trans h) ▸ hp⟩

theorem has_iff_mem : db.Has s r ↔ ⟨s, r⟩ ∈ db.runs.entries :=
  mem_lookup_iff

theorem has_setRun {s s' : String} :
    (db.setRun s' r').Has s r ↔ s = s' ∧ r = r' ∨ s ≠ s' ∧ db.Has s r := by
  rw [Has, setRun]
  exact lookup_insert_eq_some

/-- Every run of the group has ended. -/
def Ended (db : Tables) (runGroupID : String) : Prop :=
  ∀ s r, db.Has s r → r.inGroup runGroupID = true → terminalRunStatus r.status = true

instance (db : Tables) (runGroupID : String) : Decidable (db.Ended runGroupID) :=
  decidable_of_iff
    (∀ e ∈ db.runs.entries, e.2.inGroup runGroupID = true → terminalRunStatus e.2.status = true)
    ⟨fun h s r hr => h ⟨s, r⟩ (has_iff_mem.mp hr), fun h e he => h e.1 e.2 (has_iff_mem.mpr he)⟩

theorem updateRunStatus_cases (db : Tables) (s : String) (status : RunStatus) :
    db.updateRunStatus s status = (db, false) ∧
        (∀ r, db.Has s r → terminalRunStatus r.status = true) ∨
      ∃ r, db.Has s r ∧ terminalRunStatus r.status = false ∧
        db.updateRunStatus s status = (db.setRun s { r with status := status }, true) := by
  rw [updateRunStatus]
  cases h : db.runs.lookup s with
  | none => exact .inl ⟨rfl, fun r hr => absurd (hr.symm.trans h) (some_ne_none _)⟩
  | some r =>
    cases ht : terminalRunStatus r.status with
    | true => exact .inl ⟨if_pos ht, fun r' hr => Has.unique h hr ▸ ht⟩
    | false => exact .inr ⟨r, h, ht, if_neg (by rw [ht]; exact Bool.false_ne_true)⟩

@[simp] theorem groups_updateRunStatus (db : Tables) (s : String) (status : RunStatus) :
    (db.updateRunStatus s status).1.groups = db.groups := by
  rcases db.updateRunStatus_cases s status with ⟨h, _⟩ | ⟨r, _, _, h⟩ <;> rw [h]
  rfl

theorem mem_waiting :
    ⟨s, r⟩ ∈ db.waiting g ↔ db.Has s r ∧ r.inGroup g = true ∧ r.status = .requested := by
  rw [waiting, mem_filter, has_iff_mem, Bool.and_eq_true, decide_eq_true_iff]

theorem claimNextRunInGroup_cases (db : Tables) (g : String) :
    db.claimNextRunInGroup g = (db, none) ∧
        (∀ s r, db.Has s r → r.inGroup g = true → r.status ≠ .requested) ∨
      ∃ s r, db.Has s r ∧ r.inGroup g = true ∧ r.status = .requested ∧
        (∀ s' r', db.Has s' r' → r'.inGroup g = true → r'.status = .requested → s ≤ s') ∧
        db.claimNextRunInGroup g = (db.setRun s { r with status := .queued },
          some ⟨s, r.submissionID, r.contestantID, g, r.scenarioID⟩) := by
  rw [claimNextRunInGroup]
  cases h : (db.waiting g).argmin Sigma.fst with
  | none =>
    refine .inl ⟨rfl, fun s r hr hg hs => ?_⟩
    have hmem : (⟨s, r⟩ : Sigma fun _ : String => RunMeta) ∈ db.waiting g := mem_waiting.mpr ⟨hr, hg, hs⟩
    rw [argmin_eq_none.mp h] at hmem
    cases hmem
  | some e =>
    obtain ⟨s, r⟩ := e
    obtain ⟨hr, hg, hs⟩ := mem_waiting.mp (argmin_mem h)
    exact .inr ⟨s, r, hr, hg, hs,
      fun s' r' hr' hg' hs' => le_of_mem_argmin (mem_waiting.mpr ⟨hr', hg', hs'⟩) h, rfl⟩

theorem insertRuns_eq_some {cs : List (String × RunMeta)} : ∀ {runs runs' : AList (fun _ : String => RunMeta)}, insertRuns runs cs = some runs' →
    (cs.map Prod.fst).Nodup ∧ (∀ c ∈ cs, runs.lookup c.1 = none) ∧
      ∀ s r, runs'.lookup s = some r ↔ runs.lookup s = some r ∨ (s, r) ∈ cs := by
  induction cs with
  | nil =>
    intro runs runs' h
    obtain rfl := some.inj h
    exact ⟨nodup_nil, nofun,
      fun s r => (or_iff_left not_mem_nil).symm⟩
  | cons c cs ih =>
    obtain ⟨s₀, r₀⟩ := c
    intro runs runs' h
    rw [insertRuns] at h
    split at h
    · cases h
    rename_i hfree
    have hnone : runs.lookup s₀ = none := Option.not_isSome_iff_eq_none.mp hfree
    split at h
    · cases h
    obtain ⟨hnodup, hfresh, hlookup⟩ := ih h
    have hne : ∀ c ∈ cs, c.1 ≠ s₀ := by
      intro c hc he
      have := hfresh c hc
      rw [he, lookup_insert] at this
      exact some_ne_none _ this
    refine ⟨nodup_cons.mpr ⟨fun hm => ?_, hnodup⟩, ?_, fun s r => ?_⟩
    · obtain ⟨c, hc, he⟩ := List.mem_map.mp hm
      exact hne c hc he
    · rintro c hc
      rcases mem_cons.mp hc with rfl | hc
      · exact hnone
      · rw [← lookup_insert_ne (hne c hc), hfresh c hc]
    rw [hlookup, mem_cons, Prod.mk.injEq]
    by_cases he : s = s₀
    · rw [he, lookup_insert, hnone]
      have hnot : (s₀, r) ∉ cs := fun hm => hne _ hm rfl
      simp only [Option.some.injEq, hnot, or_false, true_and, reduceCtorEq, false_or]
      exact eq_comm
    · rw [lookup_insert_ne he]
      simp [he, false_and, false_or]

theorem insertRunGroupWithChildren_eq_ok {db' : Tables} {row : RunGroupMeta}
    {children : List (String × RunMeta)}
    (h : db.insertRunGroupWithChildren g row children = .ok db') :
    db.groups.lookup g = none ∧ db'.groups = db.groups.insert g row ∧
      (children.map Prod.fst).Nodup ∧ (∀ c ∈ children, ∀ r, ¬ db.Has c.1 r) ∧
      ∀ s r, db'.Has s r ↔ db.Has s r ∨ (s, r) ∈ children := by
  rw [insertRunGroupWithChildren] at h
  split at h
  · exact absurd h (by simp)
  rename_i hfree
  rw [Bool.or_eq_true, not_or] at hfree
  cases hruns : insertRuns db.runs children with
  | none => rw [hruns] at h; exact absurd h (by simp)
  | some runs =>
    rw [hruns] at h
    obtain rfl := Except.ok.inj h
    obtain ⟨hnodup, hfresh, hlookup⟩ := insertRuns_eq_some hruns
    exact ⟨Option.not_isSome_iff_eq_none.mp hfree.1, rfl, hnodup,
      fun c hc r hr => some_ne_none r (hr.symm.trans (hfresh c hc)), hlookup⟩

theorem countP_failed_completed (rows : List (Sigma fun _ : String => RunMeta)) :
    rows.countP (fun e => e.2.status = .failed) + rows.countP (fun e => e.2.status = .completed) =
      rows.countP (fun e => terminalRunStatus e.2.status) := by
  induction rows with
  | nil => rfl
  | cons e rows ih =>
    have hone : ∀ status : RunStatus,
        (if decide (status = .failed) = true then 1 else 0) +
          (if decide (status = .completed) = true then 1 else 0) =
        if terminalRunStatus status = true then 1 else 0 := by
      intro status
      cases status <;> rfl
    rw [countP_cons, countP_cons, countP_cons, ← ih, ← hone e.2.status]
    omega

/-- **The recomputed status is terminal when every run has ended.** -/
theorem newStatus_eq_some {status : RunStatus} (h : (db.countRuns g).newStatus = some status) :
    terminalRunStatus status = true ↔ db.Ended g := by
  have hended : db.Ended g ↔
      (db.countRuns g).failed + (db.countRuns g).completed = (db.countRuns g).total := by
    rw [countRuns]
    rw [countP_failed_completed, countP_eq_length]
    refine ⟨fun hall e he => ?_, fun hall s r hr hg => ?_⟩
    · obtain ⟨he, hg⟩ := mem_filter.mp he
      exact hall e.1 e.2 (has_iff_mem.mpr he) hg
    · exact hall ⟨s, r⟩ (mem_filter.mpr ⟨has_iff_mem.mp hr, hg⟩)
  have hle : (db.countRuns g).failed + (db.countRuns g).completed ≤ (db.countRuns g).total := by
    rw [countRuns]
    rw [countP_failed_completed]
    exact countP_le_length
  rw [hended]
  generalize db.countRuns g = c at h hle
  rw [Counts.newStatus] at h
  split_ifs at h with _ hcompleted hfailed _
  all_goals obtain rfl := some.inj h
  · exact iff_of_true rfl (by omega)
  · exact iff_of_true rfl hfailed.2
  all_goals exact iff_of_false Bool.false_ne_true (by omega)

theorem newStatus_eq_none (h : (db.countRuns g).newStatus = none) :
    ∀ s r, db.Has s r → ¬ r.inGroup g = true := by
  intro s r hr hg
  have hmem : (⟨s, r⟩ : Sigma fun _ : String => RunMeta) ∈
      db.runs.entries.filter (fun e => e.2.inGroup g) := mem_filter.mpr ⟨has_iff_mem.mp hr, hg⟩
  have htotal : (db.countRuns g).total ≠ 0 := (length_pos_of_mem hmem).ne'
  rw [Counts.newStatus, if_neg htotal] at h
  split_ifs at h

theorem lookup_setRunGroupStatus {g g' : String} (status : RunStatus) (h : db.groups.lookup g ≠ none) :
    (db.setRunGroupStatus g' status).groups.lookup g ≠ none := by
  rw [setRunGroupStatus]
  cases hrow : db.groups.lookup g' with
  | none => exact h
  | some row =>
    show (db.groups.insert g' _).lookup g ≠ none
    by_cases he : g = g'
    · rw [he, lookup_insert]
      exact some_ne_none _
    · rwa [lookup_insert_ne he]

theorem markRunGroupFailed_eq (db : Tables) (g : String) :
    db.markRunGroupFailed g = db ∨ db.markRunGroupFailed g = db.setRunGroupStatus g .failed := by
  rw [markRunGroupFailed, setRunGroupStatus]
  cases db.groups.lookup g with
  | none => exact .inl rfl
  | some row =>
    dsimp only
    split
    · exact .inl rfl
    · exact .inr rfl

@[simp] theorem runs_setRunGroupStatus (db : Tables) (g : String) (status : RunStatus) :
    (db.setRunGroupStatus g status).runs = db.runs := by
  rw [setRunGroupStatus]
  cases db.groups.lookup g <;> rfl

end Tables

end MatchBench.Dispatch
