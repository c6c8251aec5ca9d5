import MatchBench.Lib.Sort
import MatchBench.Model.Order

/-!
# The score of a run group

`internal/score/score.go`.  `compute` takes the sessions of a run group, each with its
correctness counters and its metrics, to the row of the leaderboard: the correctness of the
`correctness` session, the highest wave of the `ramp` session that passed, and the recovery
time of the `spike` session.

Floating-point values are exact rationals here, and counters are naturals.  The text that
explains an incomplete telemetry is left out.
-/

namespace MatchBench.Score

def defaultCorrectnessDQThreshold : ℚ := 95 / 100

def defaultMaxErrorRate : ℚ := 1 / 100

def defaultMaxP99NS : Nat := 1000000

def defaultWaveDurationNS : Nat := 20000000000

def defaultMaxScheduledWaves : Nat := 10000

def defaultMinCoverage : ℚ := 90 / 100

structure Config where
  correctnessDQThreshold : ℚ
  maxErrorRate : ℚ
  maxP99NS : Nat
  waveDurationNS : Nat
  minCoverage : ℚ
  deriving DecidableEq

def Config.withDefaults (c : Config) : Config where
  correctnessDQThreshold :=
    if c.correctnessDQThreshold ≤ 0 ∨ 1 < c.correctnessDQThreshold then defaultCorrectnessDQThreshold
    else c.correctnessDQThreshold
  maxErrorRate := if c.maxErrorRate ≤ 0 then defaultMaxErrorRate else c.maxErrorRate
  maxP99NS := if c.maxP99NS = 0 then defaultMaxP99NS else c.maxP99NS
  waveDurationNS := if c.waveDurationNS = 0 then defaultWaveDurationNS else c.waveDurationNS
  minCoverage := if c.minCoverage ≤ 0 ∨ 1 < c.minCoverage then defaultMinCoverage else c.minCoverage

/-- The distribution of cross-flow inversions, in microseconds. -/
structure Jitter where
  p50US : ℚ := 0
  p99US : ℚ := 0
  p999US : ℚ := 0
  maxUS : ℚ := 0
  invRate : ℚ := 0
  deriving DecidableEq

structure Correctness where
  validFills : Nat
  totalFills : Nat
  violationCount : Nat
  sentCount : Nat
  ackedCount : Nat
  matchedCount : Nat
  jitter : Jitter
  deriving DecidableEq

structure MetricRow where
  waveIndex : Int
  p99NS : Nat
  tps1S : ℚ
  errorRate : ℚ
  deriving DecidableEq

structure TaskSpec where
  targetRPS : Nat
  startOffsetNs : Nat
  durationNs : Nat
  deriving DecidableEq

structure Session where
  sessionID : String
  scenario : String
  taskSpecs : List TaskSpec
  correct : Correctness
  metrics : List MetricRow
  deriving DecidableEq

structure Input where
  runGroupID : String
  submissionID : String
  contestantID : String
  teamName : String
  sessions : List Session
  config : Config
  deriving DecidableEq

structure WaveResult where
  waveIndex : Int
  offeredRPS : Nat
  p99NS : Nat := 0
  passed : Bool := false
  reason : String := ""
  deriving DecidableEq

structure Result where
  runGroupID : String
  submissionID : String
  contestantID : String
  teamName : String
  peakSustainedTPS : Nat := 0
  p99AtPeakNS : Nat := 0
  spikeRecoveryNS : Nat := 0
  totalCorrectness : ℚ
  disqualified : Bool := false
  disqualificationCode : String := ""
  incompleteTelemetry : Bool := false
  jitter : Jitter
  waves : List WaveResult := []
  maxRateOnly : Bool := false
  deriving DecidableEq

/-! ### Correctness -/

def scenarioCorrectness : String := "correctness"

/-- The correctness of the pass-1 sessions alone. -/
def aggregateCorrectness (sessions : List Session) : ℚ :=
  let pass1 := sessions.filter (fun s => s.scenario = scenarioCorrectness)
  let valid := (pass1.map (fun s => s.correct.validFills)).sum
  let total := (pass1.map (fun s => s.correct.totalFills)).sum
  if total = 0 then 0 else min ((valid : ℚ) / total) 1

/-- The worst value of each percentile. -/
def aggregateJitter (sessions : List Session) : Jitter :=
  sessions.foldl (fun j s =>
    { p50US := max j.p50US s.correct.jitter.p50US
      p99US := max j.p99US s.correct.jitter.p99US
      p999US := max j.p999US s.correct.jitter.p999US
      maxUS := max j.maxUS s.correct.jitter.maxUS
      invRate := max j.invRate s.correct.jitter.invRate }) {}

/-- Some session matched too few of the orders it sent. -/
def incompleteTelemetry (cfg : Config) (sessions : List Session) : Bool :=
  sessions.any (fun s => s.correct.sentCount ≠ 0 &&
    min ((s.correct.matchedCount : ℚ) / s.correct.sentCount) 1 < cfg.minCoverage)

def disqualification (cfg : Config) (sessions : List Session) : String :=
  if aggregateCorrectness sessions < cfg.correctnessDQThreshold then "correctness_below_threshold"
  else if sessions.any (fun s => s.correct.totalFills ≠ 0 &&
      min ((s.correct.validFills : ℚ) / s.correct.totalFills) 1 < cfg.correctnessDQThreshold) then
    "session_correctness_below_threshold"
  else ""

/-! ### Waves -/

structure WaveOffer where
  waveIndex : Int
  offeredRPS : Nat
  deriving DecidableEq

def maxUint64 : Nat := 2 ^ 64 - 1

def saturatingAdd (a b : Nat) : Nat := if maxUint64 - a < b then maxUint64 else a + b

def overlapNS (aStart aEnd bStart bEnd : Nat) : Nat := min aEnd bEnd - max aStart bStart

/-- Round half away from zero, of a value that is not negative. -/
def round (x : ℚ) : Nat := (x + 1 / 2).floor.toNat

def waveSchedule (tasks : List TaskSpec) (waveDurationNS : Nat) : List WaveOffer :=
  let wave := if waveDurationNS = 0 then defaultWaveDurationNS else waveDurationNS
  let maxEnd := tasks.foldl (fun m t => max m (saturatingAdd t.startOffsetNs t.durationNs)) 0
  if maxEnd = 0 then []
  else
    let waves := min ((maxEnd - 1) / wave + 1) defaultMaxScheduledWaves
    (List.range waves).filterMap (fun w =>
      let start := w * wave
      let offered : ℚ := (tasks.map (fun t =>
        -- a max-rate task is not throughput-graded
        if t.targetRPS = 0 then 0
        else t.targetRPS * ((overlapNS start (saturatingAdd start wave) t.startOffsetNs
          (saturatingAdd t.startOffsetNs t.durationNs) : ℚ) / wave))).sum
      if offered ≤ 0 then none else some ⟨w, round offered⟩)

structure MetricSummary where
  count : Nat := 0
  maxP99NS : Nat := 0
  maxErrorRate : ℚ := 0
  p99Samples : List Nat := []
  deriving DecidableEq

def medianU64 (samples : List Nat) : Nat :=
  ((stableSort (fun a b => a < b) samples)[samples.length / 2]?).getD 0

def MetricSummary.stableP99NS (m : MetricSummary) : Nat := medianU64 m.p99Samples

def summarizeMetrics (rows : List MetricRow) : GoMap Int MetricSummary :=
  rows.foldl (fun out row =>
    let m := (out.lookup row.waveIndex).getD {}
    out.insert row.waveIndex
      { count := m.count + 1
        maxP99NS := max m.maxP99NS row.p99NS
        maxErrorRate := max m.maxErrorRate row.errorRate
        p99Samples := m.p99Samples ++ [row.p99NS] }) ∅

/-- The waves of the ramp in order, up to the first that fails. -/
def gradeWaves (cfg : Config) (metrics : GoMap Int MetricSummary) : List WaveOffer → Result → Result
  | [], res => res
  | wave :: waves, res =>
      if wave.waveIndex = 0 then gradeWaves cfg metrics waves res
      else
        let wr : WaveResult := { waveIndex := wave.waveIndex, offeredRPS := wave.offeredRPS }
        match metrics.lookup wave.waveIndex with
        | none => { res with waves := res.waves ++ [{ wr with reason := "missing_metrics" }] }
        | some m =>
            let wr := { wr with p99NS := m.stableP99NS }
            if cfg.maxErrorRate < m.maxErrorRate then
              { res with waves := res.waves ++ [{ wr with reason := "error_rate" }] }
            else if cfg.maxP99NS < m.stableP99NS then
              { res with waves := res.waves ++ [{ wr with reason := "p99_latency" }] }
            else
              gradeWaves cfg metrics waves
                { res with
                  peakSustainedTPS := wave.offeredRPS
                  p99AtPeakNS := m.stableP99NS
                  waves := res.waves ++ [{ wr with passed := true }] }

def spikeRecoveryNS (sessions : List Session) (waveDurationNS : Nat) : Nat :=
  let wave := if waveDurationNS = 0 then defaultWaveDurationNS else waveDurationNS
  match sessions.find? (fun s => s.scenario = "spike") with
  | none => 0
  | some spike =>
      let sum := summarizeMetrics spike.metrics
      let p99 := fun w => ((sum.lookup w).getD {}).maxP99NS
      match stableSort (fun a b => a < b) sum.keys with
      | [] => 0
      | first :: rest =>
          let baseline := p99 first
          if baseline = 0 then 0
          else
            let threshold := baseline * 11 / 10
            let peak := (first :: rest).foldl (fun peak w => if p99 peak < p99 w then w else peak) first
            if p99 peak ≤ threshold then 0
            else
              match (first :: rest).find? (fun w => peak < w && p99 w ≤ threshold) with
              | some w => (w - peak).toNat * wave
              | none => (rest.getLast?.getD first - peak + 1).toNat * wave

/-- The result, and whether it comes with `ErrMissingRampSession`. -/
def compute (inp : Input) : Result × Bool :=
  let cfg := inp.config.withDefaults
  let code := disqualification cfg inp.sessions
  let res : Result :=
    { runGroupID := inp.runGroupID
      submissionID := inp.submissionID
      contestantID := inp.contestantID
      teamName := inp.teamName
      totalCorrectness := aggregateCorrectness inp.sessions
      jitter := aggregateJitter inp.sessions
      incompleteTelemetry := incompleteTelemetry cfg inp.sessions }
  -- the last ramp session counts
  match (inp.sessions.filter (fun s => s.scenario = "ramp")).getLast? with
  | none =>
      if code ≠ "" then ({ res with disqualified := true, disqualificationCode := code }, false)
      else (res, true)
  | some ramp =>
      let res := { res with spikeRecoveryNS := spikeRecoveryNS inp.sessions cfg.waveDurationNS }
      let res :=
        if !ramp.taskSpecs.isEmpty && ramp.taskSpecs.all (fun t => t.targetRPS = 0) then
          { res with
            maxRateOnly := true
            peakSustainedTPS := round (ramp.metrics.foldl (fun peak m => max peak m.tps1S) 0) }
        else
          gradeWaves cfg (summarizeMetrics ramp.metrics)
            (waveSchedule ramp.taskSpecs cfg.waveDurationNS) res
      (if code ≠ "" then { res with disqualified := true, disqualificationCode := code } else res,
        false)

theorem gradeWaves_keeps (cfg : Config) (metrics : GoMap Int MetricSummary) :
    ∀ (waves : List WaveOffer) (res : Result),
      (gradeWaves cfg metrics waves res).totalCorrectness = res.totalCorrectness ∧
        (gradeWaves cfg metrics waves res).runGroupID = res.runGroupID := by
  intro waves
  induction waves with
  | nil => exact fun res => ⟨rfl, rfl⟩
  | cons wave waves ih =>
    intro res
    rw [gradeWaves]
    split_ifs
    · exact ih res
    cases metrics.lookup wave.waveIndex with
    | none => exact ⟨rfl, rfl⟩
    | some m =>
      dsimp only
      split_ifs
      · exact ⟨rfl, rfl⟩
      · exact ⟨rfl, rfl⟩
      · exact ih _

theorem compute_keeps (inp : Input) :
    (compute inp).1.totalCorrectness = aggregateCorrectness inp.sessions ∧
      (compute inp).1.runGroupID = inp.runGroupID := by
  rw [compute]
  cases (inp.sessions.filter (fun s => s.scenario = "ramp")).getLast? with
  | none =>
    split_ifs <;> exact ⟨rfl, rfl⟩
  | some ramp =>
    dsimp only
    split_ifs <;> first | exact ⟨rfl, rfl⟩ | exact gradeWaves_keeps _ _ _ _

end MatchBench.Score
