import Mathlib.Data.List.AList

/-!
# Runs and their status

The records that the services exchange about a benchmark run: the status updates of the
controller, and the row of `runs` that says to which group a session belongs.
-/

namespace MatchBench

/-- The status of a run; the wire has a string, so any other may come. -/
inductive RunStatus
  | requested
  | queued
  | deploying
  | waitingReady
  | barrierFired
  | running
  | completed
  | failed
  | other (s : String)
  deriving DecidableEq, Repr

/-- Both outcomes end the run. -/
def terminalRunStatus (status : RunStatus) : Bool := status = .completed || status = .failed

structure BenchmarkStatusUpdated where
  sessionID : String
  submissionID : String
  runGroupID : String
  status : RunStatus
  deriving DecidableEq, Repr

/-- A row of `runs`; a legacy run has no group. -/
structure Run where
  submissionID : String
  contestantID : String
  runGroupID : Option String
  scenario : String
  deriving DecidableEq, Repr

/-- The table, by session. -/
abbrev Runs := AList (fun _ : String => Run)

end MatchBench
