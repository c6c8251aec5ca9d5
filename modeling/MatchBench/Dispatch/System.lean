import MatchBench.Dispatch.Store
import MatchBench.Lib.Trace
import MatchBench.Service.Consumer

/-!
# The dispatch of runs

Three programs work on the tables of runs and run groups.  `StartBenchmark` answers
requests: it inserts a group with its runs and publishes the first run.  The status
consumer of the submission service reads the status updates of the controller; when a run
has ended it claims and publishes the next one of the group, and then writes the status of
the group.  The controller, when it starts, fails the runs that it finds unfinished.

`World` has the tables, the topics and where each program stands, and `step` lets one
program make its next call of the database or the broker.  So the programs interleave
between any two calls.  An event says whether the call succeeds.
-/

namespace MatchBench.Dispatch

/-! ### The start of a benchmark -/

/-- A request for a benchmark, with the ids that are minted for it: the group, and a
session for each scenario. -/
structure StartRequest where
  submissionID : String
  contestantID : String
  runGroupID : String
  first : String × String
  rest : List (String × String)
  deriving DecidableEq, Repr

namespace StartRequest

def group (q : StartRequest) : RunGroupMeta := ⟨q.submissionID, q.contestantID, .requested⟩

def run (q : StartRequest) (status : RunStatus) (c : String × String) : String × RunMeta :=
  (c.1, ⟨q.submissionID, q.contestantID, some q.runGroupID, c.2, status⟩)

/-- The first run is dispatched at once, so a claim must not find it. -/
def children (q : StartRequest) : List (String × RunMeta) :=
  q.run .queued q.first :: q.rest.map (q.run .requested)

def benchmark (q : StartRequest) : BenchmarkMeta :=
  ⟨q.first.1, q.submissionID, q.contestantID, q.runGroupID, q.first.2⟩

end StartRequest

inductive Answer
  | error (code : Nat) (text : String)
  | group (code : Nat) (runGroupID : String) (g : RunGroupMeta)
  deriving DecidableEq, Repr

/-- The next call of a `StartBenchmark`. -/
inductive Start
  | find (q : StartRequest)
  | insert (q : StartRequest)
  /-- The insertion met an active group. -/
  | findAgain (q : StartRequest)
  | publish (q : StartRequest)
  | answered (a : Answer)
  deriving DecidableEq, Repr

/-! ### The status consumer -/

/-- A status update with its place in the topic. -/
structure Delivery where
  partition : Nat
  offset : Nat
  msg : BenchmarkStatusUpdated
  deriving DecidableEq, Repr

/-- The next call of the status consumer. -/
inductive Task
  | idle
  | update (d : Delivery)
  /-- No run was updated: has it ended, or is there none? -/
  | lookup (d : Delivery)
  | claim (d : Delivery)
  | publish (d : Delivery) (next : BenchmarkMeta)
  /-- The publication failed, and the run is to be claimed again. -/
  | reset (d : Delivery) (next : BenchmarkMeta)
  | count (d : Delivery)
  | write (d : Delivery) (status : RunStatus)
  | commit (partition offset : Nat)
  deriving DecidableEq, Repr

/-- After the update of the run. -/
def Delivery.updated (d : Delivery) : Task :=
  if d.msg.runGroupID = "" then .commit d.partition d.offset
  else if terminalRunStatus d.msg.status then .claim d
  else .count d

/-! ### The recovery of the controller -/

/-- The next call of `RecoverInFlightRuns`. -/
inductive Recovery
  | off
  | list
  | markRun (todo : List InFlightRun) (failedGroups : List String)
  | markGroup (r : InFlightRun) (todo : List InFlightRun) (failedGroups : List String)
  | publish (r : InFlightRun) (todo : List InFlightRun) (failedGroups : List String)
  deriving DecidableEq, Repr

def InFlightRun.failure (r : InFlightRun) : BenchmarkStatusUpdated :=
  ⟨r.sessionID, r.submissionID, r.runGroupID, .failed⟩

/-! ### The world -/

structure World where
  db : Tables
  /-- What is in `benchmark.requested`. -/
  requested : List BenchmarkMeta
  /-- The partitions of `benchmark.status.updated`; a message may not decode. -/
  statuses : Nat → List (Option BenchmarkStatusUpdated)
  parts : Nat → Partition
  starts : List Start
  task : Task
  recovery : Recovery

namespace World

def empty : World where
  db := Tables.empty
  requested := []
  statuses _ := []
  parts _ := Partition.start 0
  starts := []
  task := .idle
  recovery := .off

def publishRequested (w : World) (m : BenchmarkMeta) : World :=
  { w with requested := w.requested ++ [m] }

def publishStatus (w : World) (partition : Nat) (m : Option BenchmarkStatusUpdated) : World :=
  { w with statuses := Function.update w.statuses partition (w.statuses partition ++ [m]) }

def setPart (w : World) (partition : Nat) (f : Partition → Partition) : World :=
  { w with parts := Function.update w.parts partition (f (w.parts partition)) }

def setStart (w : World) (i : Nat) (s : Start) : World := { w with starts := w.starts.set i s }

def setTask (w : World) (t : Task) : World := { w with task := t }

def setTables (w : World) (db : Tables) : World := { w with db := db }

/-- A request for a benchmark arrives. -/
def startBenchmark (w : World) (submissionID contestantID runGroupID : String)
    (children : List (String × String)) : World :=
  match children with
  | [] => { w with starts := w.starts ++ [.answered (.error 500 "no scenarios configured")] }
  | c :: cs =>
      { w with starts := w.starts ++ [.find ⟨submissionID, contestantID, runGroupID, c, cs⟩] }

/-- The next call of the `i`-th `StartBenchmark`. -/
def startStep (w : World) (i : Nat) (ok : Bool) : World :=
  match w.starts[i]? with
  | none => w
  | some (.find q) =>
      if ok then
        match w.db.findActiveRunGroup q.submissionID with
        | some (runGroupID, g) => w.setStart i (.answered (.group 200 runGroupID g))
        | none => w.setStart i (.insert q)
      else w.setStart i (.answered (.error 500 "lookup failed"))
  | some (.insert q) =>
      if ok then
        match w.db.insertRunGroupWithChildren q.runGroupID q.group q.children with
        | .ok db => (w.setTables db).setStart i (.publish q)
        | .error .activeRunGroupExists => w.setStart i (.findAgain q)
        | .error .storeDatabaseFailed =>
            w.setStart i (.answered (.error 500 "failed to create run-group"))
      else w.setStart i (.answered (.error 500 "failed to create run-group"))
  | some (.findAgain q) =>
      match if ok then w.db.findActiveRunGroup q.submissionID else none with
      | some (runGroupID, g) => w.setStart i (.answered (.group 200 runGroupID g))
      | none => w.setStart i (.answered (.error 500 "concurrent benchmark request conflict"))
  | some (.publish q) =>
      if ok then
        (w.publishRequested q.benchmark).setStart i (.answered (.group 202 q.runGroupID q.group))
      else w.setStart i (.answered (.error 500 "failed to publish benchmark request"))
  | some (.answered _) => w

/-- The consumer takes the next message of a partition. -/
def fetch (w : World) (partition : Nat) : World :=
  let offset := (w.parts partition).position
  match w.task, (w.statuses partition)[offset]? with
  | .idle, some m =>
      (w.setPart partition Partition.fetch).setTask
        (match m with
        | some msg =>
            if Service.Submission.validRunStatus msg.status then .update ⟨partition, offset, msg⟩
            else .commit partition offset
        | none => .commit partition offset)
  | _, _ => w

/-- The message is left to be delivered again. -/
def leave (w : World) (d : Delivery) : World :=
  (w.setPart d.partition (fun p => p.owe d.offset)).setTask .idle

/-- The next call of the status consumer. -/
def taskStep (w : World) (ok : Bool) : World :=
  match w.task with
  | .idle => w
  | .update d =>
      if ok then
        let (db, affected) := w.db.updateRunStatus d.msg.sessionID d.msg.status
        (w.setTables db).setTask (if affected then d.updated else .lookup d)
      else w.leave d
  | .lookup d =>
      if ok then
        w.setTask (if (w.db.runs.lookup d.msg.sessionID).isSome then d.updated
          else .commit d.partition d.offset)
      else w.leave d
  | .claim d =>
      if ok then
        let (db, next) := w.db.claimNextRunInGroup d.msg.runGroupID
        (w.setTables db).setTask
          (match next with
          | none => .count d
          | some next => .publish d next)
      else w.leave d
  | .publish d next =>
      if ok then (w.publishRequested next).setTask (.count d) else w.setTask (.reset d next)
  | .reset d next =>
      (if ok then w.setTables (w.db.updateRunStatus next.sessionID .requested).1 else w).leave d
  | .count d =>
      w.setTask
        (match if ok then (w.db.countRuns d.msg.runGroupID).newStatus else none with
        | some status => .write d status
        | none => .commit d.partition d.offset)
  | .write d status =>
      (if ok then w.setTables (w.db.setRunGroupStatus d.msg.runGroupID status) else w).setTask
        (.commit d.partition d.offset)
  | .commit partition offset =>
      (w.setPart partition (fun p =>
        if ok then (p.settle offset).commit offset else p.settle offset)).setTask .idle

/-- The consumer ends wherever it stands, and a new one reads on from the committed
offsets. -/
def restart (w : World) : World :=
  let w :=
    match w.task with
    | .idle => w
    | .commit partition offset => w.setPart partition (fun p => p.settle offset)
    | .update d | .lookup d | .claim d | .publish d _ | .reset d _ | .count d | .write d _ =>
        w.setPart d.partition (fun p => p.owe d.offset)
  { w with task := .idle, parts := fun partition => (w.parts partition).rewind }

/-- The runs are listed in the order that is given. -/
def listRuns (w : World) (ok : Bool) (runs : List InFlightRun) : World :=
  match w.recovery with
  | .list =>
      if ok then
        if runs.isPerm w.db.listInFlightRuns then { w with recovery := .markRun runs [] } else w
      else { w with recovery := .off }
  | _ => w

/-- The next call of the recovery, whose messages go to the partition that is given. -/
def recoveryStep (w : World) (ok : Bool) (partition : Nat) : World :=
  match w.recovery with
  | .off => w
  | .list => w
  | .markRun [] _ => { w with recovery := .off }
  | .markRun (r :: todo) failedGroups =>
      if ok then
        { w.setTables (w.db.updateRunStatus r.sessionID .failed).1 with
          recovery :=
            if r.runGroupID ≠ "" ∧ r.runGroupID ∉ failedGroups then
              .markGroup r todo (r.runGroupID :: failedGroups)
            else .publish r todo failedGroups }
      else { w with recovery := .markRun todo failedGroups }
  | .markGroup r todo failedGroups =>
      { (if ok then w.setTables (w.db.markRunGroupFailed r.runGroupID) else w) with
        recovery := .publish r todo failedGroups }
  | .publish r todo failedGroups =>
      { (if ok then w.publishStatus partition (some r.failure) else w) with
        recovery := .markRun todo failedGroups }

end World

inductive Event
  | start (submissionID contestantID runGroupID : String) (children : List (String × String))
  | startStep (i : Nat) (ok : Bool)
  /-- The controller reports on a run. -/
  | report (partition : Nat) (m : Option BenchmarkStatusUpdated)
  | fetch (partition : Nat)
  | taskStep (ok : Bool)
  | restart
  /-- The controller starts. -/
  | recover
  | listRuns (ok : Bool) (runs : List InFlightRun)
  | recoveryStep (ok : Bool) (partition : Nat)
  deriving DecidableEq, Repr

def step (w : World) : Event → World
  | .start submissionID contestantID runGroupID children =>
      w.startBenchmark submissionID contestantID runGroupID children
  | .startStep i ok => w.startStep i ok
  | .report partition m => w.publishStatus partition m
  | .fetch partition => w.fetch partition
  | .taskStep ok => w.taskStep ok
  | .restart => w.restart
  | .recover => { w with recovery := .list }
  | .listRuns ok runs => w.listRuns ok runs
  | .recoveryStep ok partition => w.recoveryStep ok partition

def run (w : World) (es : List Event) : World := es.foldl step w

/-- The runs of the group that were dispatched. -/
def World.dispatchedOf (w : World) (runGroupID : String) : List BenchmarkMeta :=
  w.requested.filter (fun m => m.runGroupID = runGroupID)

/-! ### What a step can do -/

variable (w : World)

theorem restart_eq : ∃ parts, w.restart = { w with task := .idle, parts := parts } := by
  rw [World.restart]
  cases w.task <;> exact ⟨_, rfl⟩

theorem listRuns_eq (ok : Bool) (runs : List InFlightRun) :
    ∃ recovery, w.listRuns ok runs = { w with recovery := recovery } := by
  rw [World.listRuns]
  split
  · split_ifs <;> exact ⟨_, rfl⟩
  · exact ⟨_, rfl⟩

theorem startBenchmark_eq (submissionID contestantID runGroupID : String)
    (children : List (String × String)) :
    ∃ s, (∀ q, s ≠ .publish q) ∧ (∀ q, s ≠ .insert q) ∧
      (∀ q, s = .find q → q.first :: q.rest = children) ∧
      w.startBenchmark submissionID contestantID runGroupID children =
        { w with starts := w.starts ++ [s] } := by
  cases children with
  | nil =>
    exact ⟨_, fun _ => Start.noConfusion, fun _ => Start.noConfusion, fun _ => Start.noConfusion, rfl⟩
  | cons c cs =>
    exact ⟨_, fun _ => Start.noConfusion, fun _ => Start.noConfusion,
      fun q h => Start.find.inj h ▸ rfl, rfl⟩

/-- What a call of `StartBenchmark` can do to the world. -/
inductive StartStep (w : World) (i : Nat) : Bool → World → Prop
  | stay (ok : Bool) : StartStep w i ok w
  | move (ok : Bool) (s s' : Start) (hs : w.starts[i]? = some s) (hq : ∀ q, s ≠ .publish q)
      (hq' : ∀ q, s' ≠ .publish q) (hf : ∀ q, s' ≠ .find q) (hi : ∀ q, s' = .insert q → s = .find q) :
      StartStep w i ok (w.setStart i s')
  | insert (q : StartRequest) (db : Tables) (hs : w.starts[i]? = some (.insert q))
      (hdb : w.db.insertRunGroupWithChildren q.runGroupID q.group q.children = .ok db) :
      StartStep w i true ((w.setTables db).setStart i (.publish q))
  | publish (q : StartRequest) (a : Answer) (hs : w.starts[i]? = some (.publish q)) :
      StartStep w i true ((w.publishRequested q.benchmark).setStart i (.answered a))
  | fail (q : StartRequest) (a : Answer) (hs : w.starts[i]? = some (.publish q)) :
      StartStep w i false (w.setStart i (.answered a))

theorem startStep_cases (i : Nat) (ok : Bool) : StartStep w i ok (w.startStep i ok) := by
  rw [World.startStep]
  cases hs : w.starts[i]? with
  | none => exact .stay ok
  | some s =>
    have hanswer : (∀ q, s ≠ .publish q) → ∀ a, StartStep w i ok (w.setStart i (.answered a)) :=
      fun hq a => .move ok s _ hs hq nofun nofun
        nofun
    cases s with
    | find q =>
      have hanswer := hanswer nofun
      cases ok with
      | false => exact hanswer _
      | true =>
        dsimp only
        rw [if_pos rfl]
        cases w.db.findActiveRunGroup q.submissionID with
        | none =>
          exact .move true _ _ hs nofun nofun
            nofun (fun q' h => Start.insert.inj h ▸ rfl)
        | some x => exact hanswer _
    | insert q =>
      have hanswer := hanswer nofun
      cases ok with
      | false => exact hanswer _
      | true =>
        dsimp only
        rw [if_pos rfl]
        cases hdb : w.db.insertRunGroupWithChildren q.runGroupID q.group q.children with
        | error e =>
          cases e with
          | activeRunGroupExists =>
            exact .move true _ _ hs nofun nofun
              nofun nofun
          | storeDatabaseFailed => exact hanswer _
        | ok db => exact .insert q db hs hdb
    | findAgain q =>
      have hanswer := hanswer nofun
      dsimp only
      cases (if ok = true then w.db.findActiveRunGroup q.submissionID else none) with
      | none | some x => exact hanswer _
    | publish q =>
      cases ok with
      | false => exact .fail q _ hs
      | true => exact .publish q _ hs
    | answered a => exact .stay ok

/-- What a call of the consumer can do to the world. -/
inductive TaskStep (w : World) : Bool → World → Prop
  | idle (ok : Bool) (ht : w.task = .idle) : TaskStep w ok w
  | leave (d : Delivery) (ht : w.task = .update d ∨ w.task = .lookup d ∨ w.task = .claim d) :
      TaskStep w false (w.leave d)
  | update (d : Delivery) (r : RunMeta) (ht : w.task = .update d) (hr : w.db.Has d.msg.sessionID r)
      (hend : terminalRunStatus r.status = false) :
      TaskStep w true ((w.setTables
        (w.db.setRun d.msg.sessionID { r with status := d.msg.status })).setTask d.updated)
  | noUpdate (d : Delivery) (ht : w.task = .update d)
      (hend : ∀ r, w.db.Has d.msg.sessionID r → terminalRunStatus r.status = true) :
      TaskStep w true (w.setTask (.lookup d))
  | ended (d : Delivery) (ht : w.task = .lookup d) : TaskStep w true (w.setTask d.updated)
  | unknown (d : Delivery) (ht : w.task = .lookup d) (hnone : ∀ r, ¬ w.db.Has d.msg.sessionID r) :
      TaskStep w true (w.setTask (.commit d.partition d.offset))
  | claim (d : Delivery) (s : String) (r : RunMeta) (ht : w.task = .claim d) (hr : w.db.Has s r)
      (hg : r.inGroup d.msg.runGroupID = true) (hreq : r.status = .requested)
      (hleast : ∀ s' r', w.db.Has s' r' → r'.inGroup d.msg.runGroupID = true →
        r'.status = .requested → s ≤ s') :
      TaskStep w true ((w.setTables (w.db.setRun s { r with status := .queued })).setTask
        (.publish d ⟨s, r.submissionID, r.contestantID, d.msg.runGroupID, r.scenarioID⟩))
  | noClaim (d : Delivery) (ht : w.task = .claim d)
      (hnone : ∀ s r, w.db.Has s r → r.inGroup d.msg.runGroupID = true → r.status ≠ .requested) :
      TaskStep w true (w.setTask (.count d))
  | publish (d : Delivery) (next : BenchmarkMeta) (ht : w.task = .publish d next) :
      TaskStep w true ((w.publishRequested next).setTask (.count d))
  | noPublish (d : Delivery) (next : BenchmarkMeta) (ht : w.task = .publish d next) :
      TaskStep w false (w.setTask (.reset d next))
  | reset (d : Delivery) (next : BenchmarkMeta) (r : RunMeta) (ht : w.task = .reset d next)
      (hr : w.db.Has next.sessionID r) (hend : terminalRunStatus r.status = false) :
      TaskStep w true ((w.setTables
        (w.db.setRun next.sessionID { r with status := .requested })).leave d)
  | noReset (d : Delivery) (next : BenchmarkMeta) (ok : Bool) (ht : w.task = .reset d next)
      (hend : ok = true → ∀ r, w.db.Has next.sessionID r → terminalRunStatus r.status = true) :
      TaskStep w ok (w.leave d)
  | count (d : Delivery) (status : RunStatus) (ht : w.task = .count d)
      (hstatus : terminalRunStatus status = true ↔ w.db.Ended d.msg.runGroupID) :
      TaskStep w true (w.setTask (.write d status))
  | noCount (d : Delivery) (ok : Bool) (ht : w.task = .count d)
      (hend : ok = true → ∀ s r, w.db.Has s r → ¬ r.inGroup d.msg.runGroupID = true) :
      TaskStep w ok (w.setTask (.commit d.partition d.offset))
  | write (d : Delivery) (status : RunStatus) (ht : w.task = .write d status) :
      TaskStep w true ((w.setTables (w.db.setRunGroupStatus d.msg.runGroupID status)).setTask
        (.commit d.partition d.offset))
  | noWrite (d : Delivery) (status : RunStatus) (ht : w.task = .write d status) :
      TaskStep w false (w.setTask (.commit d.partition d.offset))
  | commit (partition offset : Nat) (ok : Bool) (ht : w.task = .commit partition offset) :
      TaskStep w ok ((w.setPart partition (fun p =>
        if ok then (p.settle offset).commit offset else p.settle offset)).setTask .idle)

theorem taskStep_cases (ok : Bool) : TaskStep w ok (w.taskStep ok) := by
  rw [World.taskStep]
  cases ht : w.task with
  | idle => exact .idle ok ht
  | update d =>
    cases ok with
    | false => exact .leave d (.inl ht)
    | true =>
      dsimp only
      rw [if_pos rfl]
      rcases w.db.updateRunStatus_cases d.msg.sessionID d.msg.status with
        ⟨he, hend⟩ | ⟨r, hr, hend, he⟩
      · rw [he]
        exact .noUpdate d ht hend
      · rw [he]
        exact .update d r ht hr hend
  | lookup d =>
    cases ok with
    | false => exact .leave d (.inr (.inl ht))
    | true =>
      dsimp only
      rw [if_pos rfl]
      cases hr : w.db.runs.lookup d.msg.sessionID with
      | none => exact .unknown d ht (fun r h => Option.some_ne_none r (h.symm.trans hr))
      | some r => exact .ended d ht
  | claim d =>
    cases ok with
    | false => exact .leave d (.inr (.inr ht))
    | true =>
      dsimp only
      rw [if_pos rfl]
      rcases w.db.claimNextRunInGroup_cases d.msg.runGroupID with
        ⟨he, hnone⟩ | ⟨s, r, hr, hg, hreq, hleast, he⟩
      · rw [he]
        exact .noClaim d ht hnone
      · rw [he]
        exact .claim d s r ht hr hg hreq hleast
  | publish d next =>
    cases ok with
    | false => exact .noPublish d next ht
    | true => exact .publish d next ht
  | reset d next =>
    cases ok with
    | false => exact .noReset d next false ht (nofun)
    | true =>
      dsimp only
      rw [if_pos rfl]
      rcases w.db.updateRunStatus_cases next.sessionID .requested with
        ⟨he, hend⟩ | ⟨r, hr, hend, he⟩
      · rw [he]
        exact .noReset d next true ht (fun _ => hend)
      · rw [he]
        exact .reset d next r ht hr hend
  | count d =>
    cases ok with
    | false => exact .noCount d false ht (nofun)
    | true =>
      dsimp only
      rw [if_pos rfl]
      cases hstatus : (w.db.countRuns d.msg.runGroupID).newStatus with
      | none => exact .noCount d true ht (fun _ => Tables.newStatus_eq_none hstatus)
      | some status => exact .count d status ht (Tables.newStatus_eq_some hstatus)
  | write d status =>
    cases ok with
    | false => exact .noWrite d status ht
    | true => exact .write d status ht
  | commit partition offset => exact .commit partition offset ok ht

/-- What the recovery can do to the tables; it leaves what was dispatched and where the
other programs stand. -/
inductive RecoveryStep (w w' : World) : Prop
  | stay (hdb : w'.db = w.db) (hrequested : w'.requested = w.requested)
      (hstarts : w'.starts = w.starts) (htask : w'.task = w.task)
  | markRun (sessionID : String)
      (hdb : w'.db = (w.db.updateRunStatus sessionID .failed).1)
      (hrequested : w'.requested = w.requested) (hstarts : w'.starts = w.starts)
      (htask : w'.task = w.task)
  | markGroup (r : InFlightRun) (todo : List InFlightRun) (failedGroups : List String)
      (hr : w.recovery = .markGroup r todo failedGroups)
      (hdb : w'.db = w.db.markRunGroupFailed r.runGroupID) (hrequested : w'.requested = w.requested)
      (hstarts : w'.starts = w.starts) (htask : w'.task = w.task)

theorem recoveryStep_cases (ok : Bool) (partition : Nat) :
    RecoveryStep w (w.recoveryStep ok partition) := by
  rw [World.recoveryStep]
  cases hr : w.recovery with
  | off | list => exact .stay rfl rfl rfl rfl
  | markRun todo failedGroups =>
    cases todo with
    | nil => exact .stay rfl rfl rfl rfl
    | cons r todo =>
      cases ok with
      | false => exact .stay rfl rfl rfl rfl
      | true => exact .markRun r.sessionID rfl rfl rfl rfl
  | markGroup r todo failedGroups =>
    cases ok with
    | false => exact .stay rfl rfl rfl rfl
    | true => exact .markGroup r todo failedGroups hr rfl rfl rfl rfl
  | publish r todo failedGroups =>
    cases ok with
    | false | true => exact .stay rfl rfl rfl rfl

end MatchBench.Dispatch
