import MatchBench.Lib.Offset
import MatchBench.Model.Run

/-!
# The consumer loops of the Go services

The validator, the score computer and the submission service each read a topic in a loop:
fetch a message, process it, and commit it unless the processing failed.  A message that
failed is left uncommitted, to be retried when it is delivered again.  But the loop reads
on, and the next commit moves the offset past it.

`Verdict` is what a loop does with one message, and each loop is the function from what its
dependencies answer to a verdict.  What follows is the same for all of them:
`neverPasses_iff` says that no failed message is ever passed exactly when, between two
restarts, nothing is committed after a failure.
-/

namespace MatchBench.Service

open List

/-- What a loop does with a message. -/
inductive Verdict
  | commit
  | leave
  /-- The loop returns, without a commit. -/
  | stop
  deriving DecidableEq, Repr

/-! ### The loops -/

namespace Validator

/-- What `validateSession` returns. -/
inductive Validated
  | ok
  | deadlineExceeded
  | error
  deriving DecidableEq, Repr

structure Env where
  /-- The message, if it decodes. -/
  ev : Option BenchmarkStatusUpdated
  validated : Validated
  /-- Whether the context of the loop is done when the validation returns. -/
  cancelled : Bool
  /-- Whether the timeout placeholder is recorded. -/
  fallback : Bool
  deriving DecidableEq, Repr

/-- The body of `runStatusConsumer`. -/
def runStatusConsumer (env : Env) : Verdict :=
  match env.ev with
  | none => .commit
  | some ev =>
      if ev.status = .completed then
        match env.validated with
        | .ok => .commit
        | .deadlineExceeded =>
            if env.cancelled then .stop else if env.fallback then .commit else .leave
        | .error => if env.cancelled then .stop else .leave
      else .commit

end Validator

namespace Scorer

/-- What decoding a message gives: a syntax or type error, or one of another kind (a time
that does not parse), which `isDecodeError` does not know. -/
inductive Decoded
  | ok
  | decodeError
  | otherError
  deriving DecidableEq, Repr

structure Env where
  decoded : Decoded
  /-- Whether the event is recorded. -/
  recorded : Bool
  deriving DecidableEq, Repr

/-- The body of a loop of the score computer. -/
def handle (env : Env) : Verdict :=
  match env.decoded with
  | .ok => if env.recorded then .commit else .leave
  | .decodeError => .commit
  | .otherError => .leave

/-- The body of `RunStatus`, which records a status update. -/
def runStatus : Env → Verdict := handle

/-- The body of `RunCorrectness`, which records a correctness score. -/
def runCorrectness : Env → Verdict := handle

end Scorer

namespace Submission

/-- What `UpdateRunStatus` returns. -/
inductive Updated
  | ok
  | runNotFound
  | error
  deriving DecidableEq, Repr

structure Env where
  /-- The message, if it decodes. -/
  msg : Option BenchmarkStatusUpdated
  updated : Updated
  /-- The claim of the next run of the group: none if it fails, and the run, if there is
  one left. -/
  claimed : Option (Option String)
  published : Bool
  /-- Whether the status of the group is recomputed; a failure is logged only. -/
  recomputed : Bool
  deriving DecidableEq, Repr

def validRunStatus : RunStatus → Bool
  | .requested | .deploying | .waitingReady | .barrierFired | .running | .completed | .failed => true
  | .queued | .other _ => false

/-- Whether the next scenario of the group is dispatched, if there is one. -/
def advanceRunGroup (env : Env) : Bool :=
  match env.claimed with
  | none => false
  | some none => true
  | some (some _) => env.published

/-- The body of `Start`. -/
def start (env : Env) : Verdict :=
  match env.msg with
  | none => .commit
  | some msg =>
      if !validRunStatus msg.status then .commit
      else
        match env.updated with
        | .runNotFound => .commit
        | .error => .leave
        | .ok =>
            if msg.runGroupID ≠ "" ∧ terminalRunStatus msg.status ∧ !advanceRunGroup env then .leave
            else .commit

end Submission

inductive Consumer
  | validatorStatus
  | scorerStatus
  | scorerCorrectness
  | submissionStatus
  deriving DecidableEq, Repr

def Consumer.Env : Consumer → Type
  | .validatorStatus => Validator.Env
  | .scorerStatus => Scorer.Env
  | .scorerCorrectness => Scorer.Env
  | .submissionStatus => Submission.Env

def Consumer.verdict : (c : Consumer) → c.Env → Verdict
  | .validatorStatus => Validator.runStatusConsumer
  | .scorerStatus => Scorer.runStatus
  | .scorerCorrectness => Scorer.runCorrectness
  | .submissionStatus => Submission.start

/-! ### A run of a loop -/

/-- The loop and its partition.  A message is owed once its processing fails, until it
succeeds. -/
structure Loop where
  part : Partition
  running : Bool
  deriving DecidableEq

/-- The next message is fetched and processed, and its commit may fail; or the consumer is
started anew. -/
inductive Turn (ε : Type)
  | message (env : ε) (commitOk : Bool)
  | restart

section

variable {ε : Type} (verdict : ε → Verdict)

def turn (l : Loop) : Turn ε → Loop
  | .restart => ⟨l.part.rewind, true⟩
  | .message env commitOk =>
      if l.running then
        match verdict env with
        | .commit =>
            let part := l.part.fetch.settle l.part.position
            ⟨if commitOk then part.commit l.part.position else part, true⟩
        | .leave => ⟨l.part.fetch.owe l.part.position, true⟩
        | .stop => ⟨l.part.fetch.owe l.part.position, false⟩
      else l

def runLoop (offset : Nat) (ts : List (Turn ε)) : Loop :=
  ts.foldl (turn verdict) ⟨Partition.start offset, true⟩

/-- The committed offset passes no message that failed and has not succeeded since. -/
def NeverPasses (offset : Nat) (ts : List (Turn ε)) : Prop :=
  ∀ pre, pre <+: ts → (runLoop verdict offset pre).part.Safe

/-- Whether a message has failed since the last restart, once a turn is taken. -/
def fails (failed : Bool) : Turn ε → Bool
  | .restart => false
  | .message env _ => failed || verdict env != .commit

def failedSince (ts : List (Turn ε)) : Bool := ts.foldl (fails verdict) false

/-- Nothing is committed after a failure, until the consumer is restarted. -/
def StopsAtFailure (offset : Nat) (ts : List (Turn ε)) : Prop :=
  ∀ pre env post, ts = pre ++ .message env true :: post →
    (runLoop verdict offset pre).running = true → verdict env = .commit →
    failedSince verdict pre = false

variable {verdict}

/-- The state of a loop that has passed nothing: before a failure the messages owed are
ahead, and after one the failed message is behind. -/
structure Loop.Tidy (l : Loop) (failed : Bool) : Prop where
  le : l.part.committed ≤ l.part.position
  safe : l.part.Safe
  ahead : failed = false → ∀ o ∈ l.part.owed, l.part.position ≤ o
  behind : failed = true → ∃ o ∈ l.part.owed, o < l.part.position
  stopped : l.running = false → failed = true

/-- A turn may commit only if nothing failed. -/
def Allowed (verdict : ε → Verdict) (l : Loop) (failed : Bool) : Turn ε → Prop
  | .restart => True
  | .message env commitOk =>
      commitOk = true → l.running = true → verdict env = .commit → failed = false

variable (offset : Nat) (ts : List (Turn ε))

theorem Loop.Tidy.start : Loop.Tidy ⟨Partition.start offset, true⟩ false where
  le := le_rfl
  safe := Partition.safe_start offset
  ahead _ _ h := absurd h (Finset.notMem_empty _)
  behind h := nomatch h
  stopped h := nomatch h

variable {failed : Bool} {l : Loop}

theorem Loop.Tidy.restart (h : l.Tidy failed) : Loop.Tidy ⟨l.part.rewind, true⟩ false where
  le := le_rfl
  safe := h.safe
  ahead _ := h.safe
  behind h := nomatch h
  stopped h := nomatch h

theorem Loop.Tidy.owe (h : l.Tidy failed) (running : Bool) :
    Loop.Tidy ⟨l.part.fetch.owe l.part.position, running⟩ true where
  le := Nat.le_succ_of_le h.le
  safe := h.safe.owe h.le
  ahead h := nomatch h
  behind _ := ⟨_, Finset.mem_insert_self _ _, Nat.lt_succ_self _⟩
  stopped _ := rfl

theorem Loop.Tidy.settle (h : l.Tidy failed) :
    Loop.Tidy ⟨l.part.fetch.settle l.part.position, true⟩ failed where
  le := Nat.le_succ_of_le h.le
  safe := h.safe.settle _
  ahead hf o ho := by
    obtain ⟨hne, ho⟩ := Finset.mem_erase.mp ho
    exact lt_of_le_of_ne (h.ahead hf o ho) hne.symm
  behind hf := by
    obtain ⟨o, ho, hlt⟩ := h.behind hf
    exact ⟨o, Finset.mem_erase.mpr ⟨hlt.ne, ho⟩, Nat.lt_succ_of_lt hlt⟩
  stopped h := nomatch h

/-- **One turn**: it keeps the state exactly when it commits nothing after a failure. -/
theorem Loop.Tidy.turn (h : l.Tidy failed) (t : Turn ε) :
    ((turn verdict l t).part.Safe ↔ Allowed verdict l failed t) ∧
      (Allowed verdict l failed t → (turn verdict l t).Tidy (fails verdict failed t)) := by
  cases t with
  | restart => exact ⟨iff_of_true h.safe trivial, fun _ => h.restart⟩
  | message env commitOk =>
    rw [Service.turn, Allowed, fails]
    cases hrun : l.running with
    | false =>
      rw [if_neg Bool.false_ne_true, h.stopped hrun, Bool.true_or]
      exact ⟨iff_of_true h.safe (nofun),
        fun _ => h.stopped hrun ▸ h⟩
    | true =>
      rw [if_pos rfl]
      cases verdict env with
      | leave =>
        rw [show (Verdict.leave != Verdict.commit) = true from rfl, Bool.or_true]
        exact ⟨iff_of_true (h.owe true).safe (fun _ _ hc => absurd hc (by decide)),
          fun _ => h.owe true⟩
      | stop =>
        rw [show (Verdict.stop != Verdict.commit) = true from rfl, Bool.or_true]
        exact ⟨iff_of_true (h.owe false).safe (fun _ _ hc => absurd hc (by decide)),
          fun _ => h.owe false⟩
      | commit =>
        rw [show (Verdict.commit != Verdict.commit) = false from rfl, Bool.or_false]
        cases commitOk with
        | false =>
          exact ⟨iff_of_true h.settle.safe (nofun),
            fun _ => h.settle⟩
        | true =>
          dsimp only
          rw [if_pos rfl]
          have hiff := Partition.safe_commit_settle l.part.fetch l.part.position
          refine ⟨hiff.trans ⟨fun hall _ _ _ => ?_, fun hf => h.ahead (hf rfl rfl rfl)⟩,
            fun hf => ?_⟩
          · cases failed with
            | false => rfl
            | true =>
              obtain ⟨o, ho, hlt⟩ := h.behind rfl
              exact absurd (hall o ho) (Nat.not_le.mpr hlt)
          · have hs := h.settle
            exact ⟨le_rfl, hiff.mpr (h.ahead (hf rfl rfl rfl)), hs.ahead, hs.behind, hs.stopped⟩

theorem neverPasses_snoc (t : Turn ε) :
    NeverPasses verdict offset (ts ++ [t]) ↔
      NeverPasses verdict offset ts ∧ (runLoop verdict offset (ts ++ [t])).part.Safe := by
  constructor
  · exact fun h => ⟨fun pre hp => h pre (hp.trans (prefix_append _ _)), h _ (prefix_refl _)⟩
  rintro ⟨h, hs⟩ pre hp
  rcases prefix_concat_iff.mp hp with hp | hp
  · rw [hp]
    exact hs
  · exact h pre hp

theorem stopsAtFailure_snoc (t : Turn ε) :
    StopsAtFailure verdict offset (ts ++ [t]) ↔
      StopsAtFailure verdict offset ts ∧
        Allowed verdict (runLoop verdict offset ts) (failedSince verdict ts) t := by
  constructor
  · intro h
    refine ⟨fun pre env post he => h pre env (post ++ [t]) (by rw [he]; simp), ?_⟩
    cases t with
    | restart => trivial
    | message env commitOk =>
      intro hok
      rw [hok] at h
      exact h ts env [] rfl
  rintro ⟨h, ha⟩ pre env post he
  rcases eq_nil_or_concat post with hp | ⟨post', x, hp⟩
  · rw [hp] at he
    obtain ⟨h1, h2⟩ := append_inj' he rfl
    rw [← h1]
    rw [singleton_inj.mp h2] at ha
    exact ha rfl
  · rw [hp, concat_eq_append, ← cons_append, ← append_assoc] at he
    exact h pre env post' (append_inj' he rfl).1

/-- **A whole run**: the loop passes no failed message exactly when it commits nothing
after a failure. -/
theorem neverPasses_iff_stopsAtFailure :
    (NeverPasses verdict offset ts ↔ StopsAtFailure verdict offset ts) ∧
      (StopsAtFailure verdict offset ts →
        (runLoop verdict offset ts).Tidy (failedSince verdict ts)) := by
  induction ts using reverseRecOn with
  | nil =>
    refine ⟨iff_of_true (fun pre hp => ?_) (fun pre env post h => ?_), fun _ => Loop.Tidy.start offset⟩
    · rw [prefix_nil.mp hp]
      exact Partition.safe_start offset
    · simp at h
  | append_singleton ts t ih =>
    obtain ⟨hiff, htidy⟩ := ih
    have hrun : runLoop verdict offset (ts ++ [t]) = turn verdict (runLoop verdict offset ts) t := by
      rw [runLoop, runLoop, foldl_append, foldl_cons, foldl_nil]
    rw [neverPasses_snoc, stopsAtFailure_snoc, hiff, hrun]
    constructor
    · exact and_congr_right (fun h => ((htidy h).turn t).1)
    · rintro ⟨h, ha⟩
      rw [failedSince, foldl_append, foldl_cons, foldl_nil, ← failedSince]
      exact ((htidy h).turn t).2 ha

end

end MatchBench.Service
