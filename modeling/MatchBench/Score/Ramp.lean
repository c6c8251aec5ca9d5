import MatchBench.Controller.Shard
import MatchBench.Score.Climb

/-!
# The ramp of the scenario builder

`internal/scenarios/builder.go` of the submission API builds the tasks of the four scenarios.  The
ramp is nine layers of bots, one every twenty seconds, and all of them run to the end of the ramp.
So the rate that is offered grows with the layers, up to the end.

The score cuts this time into waves.  When the ramp ends with a wave the rates never fall
(`rising_buildRampTasks`).  `validate` asks only that the ramp outlast the start of its last layer,
so the ramp may also end inside a wave.  This last wave then has a fraction of the rate, and who
passes it has a lower peak than who fails it (`peak_falls`).
-/

namespace MatchBench.Scenarios

open Controller (TaskSpec)

/-! ### The builder -/

def second : Int64 := 1000000000

def rpsPerHFT : UInt32 := 1000

def rpsPerRetail : UInt32 := 5

def rpsPerInstitutional : UInt32 := 300

def rampWaveCount : Nat := 9

def rampWaveCadence : Int64 := 20 * second

/-- The shares of market orders, cancels and replaces of a profile. -/
structure ActionMix where
  marketPct : UInt8
  cancelPct : UInt8
  replacePct : UInt8
  deriving DecidableEq, Repr

structure Config where
  constantDuration : Int64
  spikeDuration : Int64
  rampDuration : Int64
  correctnessDuration : Int64
  constantTotalRPS : UInt32
  spikePeakRPS : UInt32
  rampPeakRPS : UInt32
  spikePreWindow : Int64
  spikeBurstWindow : Int64
  mixHFTPct : UInt32
  mixRetailPct : UInt32
  mixInstitutionalPct : UInt32
  hft : ActionMix
  retail : ActionMix
  institutional : ActionMix
  deriving DecidableEq, Repr

def defaultConfig : Config where
  constantDuration := 60 * second
  spikeDuration := 60 * second
  rampDuration := 180 * second
  correctnessDuration := 45 * second
  constantTotalRPS := 10000
  spikePeakRPS := 50000
  rampPeakRPS := 90000
  spikePreWindow := 25 * second
  spikeBurstWindow := 10 * second
  mixHFTPct := 60
  mixRetailPct := 25
  mixInstitutionalPct := 15
  hft := ⟨10, 30, 10⟩
  retail := ⟨65, 5, 0⟩
  institutional := ⟨20, 0, 0⟩

/-- What `validate` refuses, with the values it reports. -/
inductive ConfigError where
  | durations (constant spike ramp correctness : Int64)
  | budgets (constant spikePeak rampPeak : UInt32)
  | spikePeak (peak baseline : UInt32)
  | spikeWindows (preWindow burst duration : Int64)
  | rampTooShort (duration : Int64) (waves : Nat) (cadence : Int64)
  | mix (sum hft retail institutional : UInt32)
  | actionMix (pct : UInt8)
  deriving DecidableEq, Repr

def Config.actionPcts (c : Config) : List UInt8 :=
  [c.hft.marketPct, c.hft.cancelPct, c.hft.replacePct,
    c.retail.marketPct, c.retail.cancelPct, c.retail.replacePct,
    c.institutional.marketPct, c.institutional.cancelPct, c.institutional.replacePct]

def Config.validate (c : Config) : Except ConfigError Unit :=
  if c.constantDuration ≤ 0 ∨ c.spikeDuration ≤ 0 ∨ c.rampDuration ≤ 0 ∨
      c.correctnessDuration ≤ 0 then
    .error (.durations c.constantDuration c.spikeDuration c.rampDuration c.correctnessDuration)
  else if c.constantTotalRPS = 0 ∨ c.spikePeakRPS = 0 ∨ c.rampPeakRPS = 0 then
    .error (.budgets c.constantTotalRPS c.spikePeakRPS c.rampPeakRPS)
  else if c.spikePeakRPS < c.constantTotalRPS then
    .error (.spikePeak c.spikePeakRPS c.constantTotalRPS)
  else if c.spikeDuration < c.spikePreWindow + c.spikeBurstWindow then
    .error (.spikeWindows c.spikePreWindow c.spikeBurstWindow c.spikeDuration)
  else if c.rampDuration ≤ Int64.ofNat (rampWaveCount - 1) * rampWaveCadence then
    .error (.rampTooShort c.rampDuration rampWaveCount rampWaveCadence)
  else if c.mixHFTPct + c.mixRetailPct + c.mixInstitutionalPct ≠ 100 then
    .error (.mix (c.mixHFTPct + c.mixRetailPct + c.mixInstitutionalPct) c.mixHFTPct
      c.mixRetailPct c.mixInstitutionalPct)
  else match c.actionPcts.find? (100 < ·) with
    | some pct => .error (.actionMix pct)
    | none => .ok ()

/-- The bots of each profile that a budget pays for, and the rate they come to. -/
def botCountsForBudget (cfg : Config) (totalRPS : UInt32) : UInt32 × UInt32 × UInt32 × UInt32 :=
  let hft := totalRPS * cfg.mixHFTPct / 100 / rpsPerHFT
  let retail := totalRPS * cfg.mixRetailPct / 100 / rpsPerRetail
  let inst := totalRPS * cfg.mixInstitutionalPct / 100 / rpsPerInstitutional
  (hft, retail, inst, hft * rpsPerHFT + retail * rpsPerRetail + inst * rpsPerInstitutional)

/-- The tasks of one profile in a layer. -/
def profileTasks (profile : String) (targetRPS : UInt32) (mix : ActionMix)
    (startOffset duration : Int64) (startTaskID bots : UInt32) : List TaskSpec :=
  (List.range bots.toNat).map fun i =>
    { taskID := startTaskID + UInt32.ofNat i
      profile := profile
      targetRPS := targetRPS
      startOffsetNs := startOffset.toUInt64
      durationNs := duration.toUInt64
      marketPct := mix.marketPct
      cancelPct := mix.cancelPct
      replacePct := mix.replacePct
      targetIdx := 0
      smpIDCount := 0 }

def buildLayer (cfg : Config) (startTaskID : UInt32) (startOffset duration : Int64)
    (hftBots retailBots institutionalBots : UInt32) : List TaskSpec :=
  profileTasks "hft" rpsPerHFT cfg.hft startOffset duration startTaskID hftBots ++
    profileTasks "retail" rpsPerRetail cfg.retail startOffset duration (startTaskID + hftBots)
      retailBots ++
    profileTasks "institutional" rpsPerInstitutional cfg.institutional startOffset duration
      (startTaskID + hftBots + retailBots) institutionalBots

def buildConstantTasks (cfg : Config) (startTaskID : UInt32) (startOffset duration : Int64)
    (totalRPS : UInt32) : List TaskSpec :=
  let (hft, retail, inst, _) := botCountsForBudget cfg totalRPS
  buildLayer cfg startTaskID startOffset duration hft retail inst

def buildSpikeTasks (cfg : Config) : List TaskSpec :=
  let baseline := buildConstantTasks cfg 0 0 cfg.spikeDuration cfg.constantTotalRPS
  let (extraHFT, extraRetail, extraInst, _) :=
    botCountsForBudget cfg (cfg.spikePeakRPS - cfg.constantTotalRPS)
  baseline ++ buildLayer cfg (UInt32.ofNat baseline.length) cfg.spikePreWindow
    cfg.spikeBurstWindow extraHFT extraRetail extraInst

/-- One round of the loop of `buildRampTasks`. -/
def addRampLayer (cfg : Config) (out : List TaskSpec) (wave : Nat) : List TaskSpec :=
  let perWaveRPS := cfg.rampPeakRPS / UInt32.ofNat rampWaveCount
  let startOffset := Int64.ofNat wave * rampWaveCadence
  let duration := cfg.rampDuration - startOffset
  if duration ≤ 0 then out
  else
    let (hft, retail, inst, _) := botCountsForBudget cfg perWaveRPS
    out ++ buildLayer cfg (UInt32.ofNat out.length) startOffset duration hft retail inst

def buildRampTasks (cfg : Config) : List TaskSpec :=
  (List.range rampWaveCount).foldl (addRampLayer cfg) []

def correctnessSMPIDCount : UInt32 := 8

def buildCorrectnessTasks (cfg : Config) : List TaskSpec :=
  [{ taskID := 0
     profile := "hft"
     targetRPS := 0
     startOffsetNs := 0
     durationNs := cfg.correctnessDuration.toUInt64
     marketPct := cfg.hft.marketPct
     cancelPct := cfg.hft.cancelPct
     replacePct := cfg.hft.replacePct
     targetIdx := 0
     smpIDCount := correctnessSMPIDCount }]

structure ScenarioRow where
  scenarioID : String
  name : String
  sortOrder : Int
  durationNs : UInt64
  taskSpecs : List TaskSpec
  deriving DecidableEq, Repr

/-- The four scenarios.  Their fresh ids are arguments. -/
def buildAll (cfg : Config) (constID spikeID rampID correctnessID : String) :
    Except ConfigError (List ScenarioRow) :=
  match cfg.validate with
  | .error e => .error e
  | .ok () => .ok [
      ⟨constID, "constant", 1, cfg.constantDuration.toUInt64,
        buildConstantTasks cfg 0 0 cfg.constantDuration cfg.constantTotalRPS⟩,
      ⟨spikeID, "spike", 2, cfg.spikeDuration.toUInt64, buildSpikeTasks cfg⟩,
      ⟨rampID, "ramp", 3, cfg.rampDuration.toUInt64, buildRampTasks cfg⟩,
      ⟨correctnessID, "correctness", 4, cfg.correctnessDuration.toUInt64,
        buildCorrectnessTasks cfg⟩]

/-! ### The tasks of the ramp -/

variable {t : TaskSpec} {cfg : Config} {start duration : Int64}

theorem mem_profileTasks {profile : String} {rps id bots : UInt32} {mix : ActionMix} (h : t ∈ profileTasks profile rps mix start duration id bots) :
    t.startOffsetNs = start.toUInt64 ∧ t.durationNs = duration.toUInt64 := by
  obtain ⟨i, -, rfl⟩ := List.mem_map.mp h
  exact ⟨rfl, rfl⟩

theorem mem_buildLayer {id hft retail inst : UInt32}
    (h : t ∈ buildLayer cfg id start duration hft retail inst) :
    t.startOffsetNs = start.toUInt64 ∧ t.durationNs = duration.toUInt64 := by
  rcases List.mem_append.mp h with h | h
  · rcases List.mem_append.mp h with h | h
    · exact mem_profileTasks h
    · exact mem_profileTasks h
  · exact mem_profileTasks h

/-- The task starts with the wave and runs to the end of the ramp. -/
def OfWave (cfg : Config) (t : TaskSpec) (wave : Nat) : Prop :=
  t.startOffsetNs = (Int64.ofNat wave * rampWaveCadence).toUInt64 ∧
    t.durationNs = (cfg.rampDuration - Int64.ofNat wave * rampWaveCadence).toUInt64

theorem mem_buildRampTasks (h : t ∈ buildRampTasks cfg) : ∃ wave < rampWaveCount, OfWave cfg t wave := by
  have hstep : ∀ {out : List TaskSpec} {wave : Nat}, t ∈ addRampLayer cfg out wave →
      t ∈ out ∨ OfWave cfg t wave := by
    intro out wave h
    rw [addRampLayer] at h
    dsimp only at h
    split_ifs at h
    · exact .inl h
    · exact (List.mem_append.mp h).imp_right mem_buildLayer
  have hrun : ∀ {waves : List Nat} {out : List TaskSpec}, t ∈ waves.foldl (addRampLayer cfg) out →
      t ∈ out ∨ ∃ wave ∈ waves, OfWave cfg t wave := by
    intro waves
    induction waves with
    | nil => exact .inl
    | cons wave waves ih =>
      intro out h
      rcases ih h with h | ⟨w, hw, heq⟩
      · rcases hstep h with h | heq
        · exact .inl h
        · exact .inr ⟨wave, .head _, heq⟩
      · exact .inr ⟨w, List.mem_cons_of_mem _ hw, heq⟩
  rcases hrun h with h | ⟨wave, hwave, heq⟩
  · cases h
  · exact ⟨wave, List.mem_range.mp hwave, heq⟩

theorem Config.lt_rampDuration (h : cfg.validate = .ok ()) :
    160000000000 < cfg.rampDuration.toInt := by
  rw [Config.validate] at h
  split_ifs at h with h1 h2 h3 h4 h5
  exact not_le.mp (Int64.le_iff_toInt_le.not.mp h5)

/-- **The tasks of a valid ramp all run to its end.** -/
theorem end_buildRampTasks (hv : cfg.validate = .ok ()) (h : t ∈ buildRampTasks cfg) :
    t.startOffsetNs.toNat + t.durationNs.toNat = cfg.rampDuration.toUInt64.toNat := by
  obtain ⟨wave, hwave, hstart, hduration⟩ := mem_buildRampTasks h
  have hlong := Config.lt_rampDuration hv
  have htop := cfg.rampDuration.toInt_lt
  have hoff : (Int64.ofNat wave * rampWaveCadence).toInt = wave * 20000000000 := by
    rw [rampWaveCount] at hwave
    interval_cases wave <;> decide
  have hwave' : (wave : Int) ≤ 8 := by
    exact_mod_cast Nat.le_of_lt_succ hwave
  have hsub : (cfg.rampDuration - Int64.ofNat wave * rampWaveCadence).toInt =
      cfg.rampDuration.toInt - wave * 20000000000 := by
    rw [Int64.toInt_sub, hoff]
    exact Int.bmod_eq_of_le (by omega) (by omega)
  have hnat : ∀ x : Int64, 0 ≤ x.toInt → (x.toUInt64.toNat : Int) = x.toInt := by
    intro x hx
    have hbits : x.toUInt64.toNat = x.toBitVec.toNat := rfl
    have htop := x.toBitVec.isLt
    rw [← Int64.toInt_toBitVec, BitVec.toInt_eq_toNat_cond] at hx ⊢
    split_ifs at hx ⊢ <;> omega
  rw [hstart, hduration]
  have h1 := hnat (Int64.ofNat wave * rampWaveCadence) (by omega)
  have h2 := hnat (cfg.rampDuration - Int64.ofNat wave * rampWaveCadence) (by omega)
  have h3 := hnat cfg.rampDuration (by omega)
  omega

end MatchBench.Scenarios

namespace MatchBench.Score

/-! ### The waves of a ramp -/

/-- What the score reads of a task. -/
def ofSpec (t : Controller.TaskSpec) : TaskSpec :=
  ⟨t.targetRPS.toNat, t.startOffsetNs.toNat, t.durationNs.toNat⟩

theorem round_mono {x y : ℚ} (h : x ≤ y) : round x ≤ round y := by
  have hfloor : (x + 1 / 2).floor ≤ (y + 1 / 2).floor :=
    Int.floor_mono (add_le_add_left h (1 / 2))
  exact Int.toNat_le_toNat hfloor

/-- The rate that the tasks offer in a wave. -/
def offered (tasks : List TaskSpec) (wave w : Nat) : ℚ :=
  (tasks.map (fun t => if t.targetRPS = 0 then 0
    else t.targetRPS * ((overlapNS (w * wave) (saturatingAdd (w * wave) wave) t.startOffsetNs
      (saturatingAdd t.startOffsetNs t.durationNs) : ℚ) / wave))).sum

variable {wave k a b : Nat} {cfg : Config}

theorem overlapNS_mono (start : Nat) (hab : a < b) (hb : b < k) (hk : k * wave ≤ maxUint64) :
    overlapNS (a * wave) (saturatingAdd (a * wave) wave) start (k * wave) ≤
      overlapNS (b * wave) (saturatingAdd (b * wave) wave) start (k * wave) := by
  have h1 : a * wave + wave ≤ b * wave := by
    rw [← Nat.succ_mul]
    exact Nat.mul_le_mul_right wave hab
  have h2 : b * wave + wave ≤ k * wave := by
    rw [← Nat.succ_mul]
    exact Nat.mul_le_mul_right wave hb
  have hsat : ∀ {x : Nat}, x + wave ≤ k * wave → saturatingAdd x wave = x + wave := by
    intro x hx
    exact if_neg (by omega)
  rw [hsat (by omega), hsat h2, overlapNS, overlapNS]
  omega

variable {tasks : List TaskSpec}

theorem offered_mono (hab : a < b) (hb : b < k) (hk : k * wave ≤ maxUint64)
    (hend : ∀ t ∈ tasks, saturatingAdd t.startOffsetNs t.durationNs = k * wave) :
    offered tasks wave a ≤ offered tasks wave b := by
  refine List.sum_le_sum fun t ht => ?_
  split_ifs
  · exact le_rfl
  · have hle := overlapNS_mono t.startOffsetNs hab hb hk
    rw [hend t ht]
    gcongr

theorem foldl_max_le {bound : Nat}
    (h : ∀ t ∈ tasks, saturatingAdd t.startOffsetNs t.durationNs ≤ bound) {m : Nat} (hm : m ≤ bound) :
    tasks.foldl (fun m t => max m (saturatingAdd t.startOffsetNs t.durationNs)) m ≤ bound := by
  induction tasks generalizing m with
  | nil => exact hm
  | cons t tasks ih =>
    obtain ⟨ht, htasks⟩ := List.forall_mem_cons.mp h
    exact ih htasks (max_le hm ht)

/-- **Tasks that all end with the same wave offer rates that never fall.** -/
theorem rising_of_common_end (hk : k * cfg.withDefaults.waveDurationNS ≤ maxUint64)
    (hend : ∀ t ∈ tasks, saturatingAdd t.startOffsetNs t.durationNs =
      k * cfg.withDefaults.waveDurationNS) :
    Rising (gradedWaves cfg tasks) := by
  have hpos : cfg.withDefaults.waveDurationNS ≠ 0 := by
    rw [Config.withDefaults]
    dsimp only
    split_ifs with h
    · decide
    · exact h
  refine List.Pairwise.filter _ ?_
  generalize cfg.withDefaults.waveDurationNS = wave at hk hend hpos
  have hmax : tasks.foldl (fun m t => max m (saturatingAdd t.startOffsetNs t.durationNs)) 0 ≤
      k * wave := foldl_max_le (fun t ht => (hend t ht).le) (Nat.zero_le _)
  rw [waveSchedule, if_neg hpos]
  generalize tasks.foldl (fun m t => max m (saturatingAdd t.startOffsetNs t.durationNs)) 0 = maxEnd
    at hmax
  dsimp only
  split_ifs with hzero
  · exact List.Pairwise.nil
  have hwaves : min ((maxEnd - 1) / wave + 1) defaultMaxScheduledWaves ≤ k := by
    have hlt : (maxEnd - 1) / wave < k :=
      Nat.div_lt_of_lt_mul (by rw [mul_comm]; omega)
    exact (min_le_left _ _).trans hlt
  have hrange : (List.range (min ((maxEnd - 1) / wave + 1) defaultMaxScheduledWaves)).Pairwise
      (fun a b => a < b ∧ b < k) :=
    List.pairwise_lt_range.imp_of_mem fun _ hb hab => ⟨hab, (List.mem_range.mp hb).trans_le hwaves⟩
  refine List.Pairwise.filterMap _ ?_ hrange
  intro a a' hlt b hb b' hb'
  split_ifs at hb hb'
  rw [← Option.some.inj hb, ← Option.some.inj hb']
  exact round_mono (offered_mono hlt.1 hlt.2 hk hend)

/-- **A ramp that ends with a wave rises.** -/
theorem rising_buildRampTasks {b : Scenarios.Config} (hv : b.validate = .ok ())
    (hwhole : cfg.withDefaults.waveDurationNS ∣ b.rampDuration.toUInt64.toNat) :
    Rising (gradedWaves cfg ((Scenarios.buildRampTasks b).map ofSpec)) := by
  obtain ⟨k, hk⟩ := hwhole
  have hlt := b.rampDuration.toUInt64.toNat_lt
  rw [mul_comm] at hk
  refine rising_of_common_end (k := k) ?_ fun t ht => ?_
  · rw [← hk, maxUint64]
    exact Nat.le_pred_of_lt hlt
  obtain ⟨spec, hspec, rfl⟩ := List.mem_map.mp ht
  have hend := Scenarios.end_buildRampTasks hv hspec
  have hfits : ¬ maxUint64 - spec.startOffsetNs.toNat < spec.durationNs.toNat := by
    rw [maxUint64]
    omega
  exact (if_neg hfits).trans (hend.trans hk)

/-- The builder's defaults with a ramp of this length, and one retail bot for each of its layers. -/
def smallRamp (seconds : Int64) : Scenarios.Config :=
  { Scenarios.defaultConfig with rampDuration := seconds * Scenarios.second, rampPeakRPS := 180 }

def rampSpecs (seconds : Int64) : List TaskSpec :=
  (Scenarios.buildRampTasks (smallRamp seconds)).map ofSpec

/-- The score's defaults. -/
def defaultScoring : Config := ⟨0, 0, 0, 0, 0⟩

/-- A ramp of 180 s ends with its ninth wave. -/
theorem peak_rises_whole :
    ((smallRamp 180).validate = .ok () ∧ (∃ t ∈ rampSpecs 180, 0 < t.targetRPS) ∧
      Rising (gradedWaves defaultScoring (rampSpecs 180))) ∧
    ∀ inp inp' : Input, inp.Climbs defaultScoring (rampSpecs 180) →
      inp'.Climbs defaultScoring (rampSpecs 180) →
      (∀ wr ∈ (compute inp).1.passedWaves, ∃ wr' ∈ (compute inp').1.passedWaves,
        wr'.waveIndex = wr.waveIndex) →
      (compute inp).1.peakSustainedTPS ≤ (compute inp').1.peakSustainedTPS ∧
        (compute inp').1.peakSustainedTPS = (compute inp').1.largestPassed := by
  have hvalid : (smallRamp 180).validate = .ok () := by decide +kernel
  have hpos : ∃ t ∈ rampSpecs 180, 0 < t.targetRPS := by decide +kernel
  have hrise : Rising (gradedWaves defaultScoring (rampSpecs 180)) :=
    rising_buildRampTasks hvalid (by decide +kernel)
  exact ⟨⟨hvalid, hpos, hrise⟩, (peak_rises_iff defaultScoring (rampSpecs 180) hpos).mpr hrise⟩

/-- **A ramp of 190 s is valid, and its tenth wave is half a wave.**  A contestant that passes the
first nine waves has a peak of 45, and one that passes the tenth too has a peak of 23. -/
theorem peak_falls :
    (smallRamp 190).validate = .ok () ∧ (∃ t ∈ rampSpecs 190, 0 < t.targetRPS) ∧
      (sampleClimb defaultScoring (rampSpecs 190) 8).Climbs defaultScoring (rampSpecs 190) ∧
      (sampleClimb defaultScoring (rampSpecs 190) 9).Climbs defaultScoring (rampSpecs 190) ∧
      (compute (sampleClimb defaultScoring (rampSpecs 190) 8)).1.passedWaves.map (·.waveIndex) =
        [1, 2, 3, 4, 5, 6, 7, 8] ∧
      (compute (sampleClimb defaultScoring (rampSpecs 190) 9)).1.passedWaves.map (·.waveIndex) =
        [1, 2, 3, 4, 5, 6, 7, 8, 9] ∧
      (compute (sampleClimb defaultScoring (rampSpecs 190) 8)).1.peakSustainedTPS = 45 ∧
      (compute (sampleClimb defaultScoring (rampSpecs 190) 9)).1.peakSustainedTPS = 23 ∧
      (compute (sampleClimb defaultScoring (rampSpecs 190) 9)).1.largestPassed = 45 := by
  refine ⟨by decide +kernel, by decide +kernel, climbs_sampleClimb _ _ _, climbs_sampleClimb _ _ _,
    by decide +kernel, by decide +kernel, by decide +kernel, by decide +kernel, by decide +kernel⟩

end MatchBench.Score
