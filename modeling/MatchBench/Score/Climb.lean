import MatchBench.Score.Compute

/-!
# The climb of a ramp

`gradeWaves` takes the waves of the ramp in order and stops at the first that fails.  The waves that
pass are a prefix of the graded ones (`climbed`), and the result is a function of this prefix
(`gradeWaves_eq`): the peak is the offered rate of its last wave, not of its best.

So the peak is the largest rate that was passed, and passing more waves does not lower it, exactly
when the rates of the graded waves never fall (`peak_rises_iff`).
-/

namespace MatchBench.Score

open List Bool

/-! ### The summary of the metrics -/

/-- One row joins the summary of its wave. -/
def MetricSummary.add (m : MetricSummary) (row : MetricRow) : MetricSummary where
  count := m.count + 1
  maxP99NS := max m.maxP99NS row.p99NS
  maxErrorRate := max m.maxErrorRate row.errorRate
  p99Samples := m.p99Samples ++ [row.p99NS]

/-- **The summary of a wave** is that of its own rows. -/
theorem lookup_summarizeMetrics (rows : List MetricRow) (w : Int) :
    (summarizeMetrics rows).lookup w =
      if rows.filter (fun r => r.waveIndex = w) = [] then none
      else some ((rows.filter (fun r => r.waveIndex = w)).foldl MetricSummary.add {}) := by
  induction rows using reverseRecOn with
  | nil => rfl
  | append_singleton rows row ih =>
    have hstep : summarizeMetrics (rows ++ [row]) = (summarizeMetrics rows).insert row.waveIndex
        ((((summarizeMetrics rows).lookup row.waveIndex).getD {}).add row) := by
      rw [summarizeMetrics, foldl_append]
      rfl
    rw [hstep, filter_append]
    by_cases hw : row.waveIndex = w
    · subst hw
      rw [AList.lookup_insert, filter_cons_of_pos (by simp), filter_nil,
        if_neg (by simp), foldl_append, ih]
      split_ifs with hnil
      · rw [hnil]
        rfl
      · rfl
    · rw [AList.lookup_insert_ne (Ne.symm hw), filter_cons_of_neg (by simpa using hw),
        filter_nil, append_nil, ih]

theorem p99Samples_foldl (rows : List MetricRow) (m : MetricSummary) :
    (rows.foldl MetricSummary.add m).p99Samples = m.p99Samples ++ rows.map (·.p99NS) := by
  induction rows generalizing m with
  | nil => exact (append_nil _).symm
  | cons row rows ih =>
    rw [foldl_cons, ih, map_cons, MetricSummary.add, append_assoc, singleton_append]

variable {rows : List MetricRow}

theorem maxErrorRate_foldl_le {bound : ℚ}
    (hrows : ∀ r ∈ rows, r.errorRate ≤ bound) {m : MetricSummary} (hm : m.maxErrorRate ≤ bound) :
    (rows.foldl MetricSummary.add m).maxErrorRate ≤ bound := by
  induction rows generalizing m with
  | nil => exact hm
  | cons row rows ih =>
    obtain ⟨hrow, hrows⟩ := forall_mem_cons.mp hrows
    exact ih hrows (max_le hm hrow)

theorem medianU64_le {bound : Nat} {samples : List Nat} (h : ∀ x ∈ samples, x ≤ bound) :
    medianU64 samples ≤ bound := by
  rw [medianU64]
  cases hx : (stableSort (fun a b => a < b) samples)[samples.length / 2]? with
  | none => exact Nat.zero_le bound
  | some x => exact h x ((perm_stableSort _ samples).mem_iff.mp (mem_of_getElem? hx))

/-! ### The waves that pass -/

section

variable (cfg : Config) (metrics : GoMap Int MetricSummary)

/-- The wave has metrics, and they keep to the limits. -/
def passes (wave : WaveOffer) : Bool :=
  match metrics.lookup wave.waveIndex with
  | none => false
  | some m => m.maxErrorRate ≤ cfg.maxErrorRate && m.stableP99NS ≤ cfg.maxP99NS

/-- The latency that is gated. -/
def stableP99 (wave : WaveOffer) : Nat :=
  ((metrics.lookup wave.waveIndex).map MetricSummary.stableP99NS).getD 0

def waveResult (wave : WaveOffer) : WaveResult where
  waveIndex := wave.waveIndex
  offeredRPS := wave.offeredRPS
  p99NS := stableP99 metrics wave
  passed := passes cfg metrics wave
  reason :=
    match metrics.lookup wave.waveIndex with
    | none => "missing_metrics"
    | some m =>
        if cfg.maxErrorRate < m.maxErrorRate then "error_rate"
        else if cfg.maxP99NS < m.stableP99NS then "p99_latency"
        else ""

/-- The waves that pass, of those after the first. -/
def climbed (waves : List WaveOffer) : List WaveOffer :=
  (waves.filter (fun w => w.waveIndex ≠ 0)).takeWhile (passes cfg metrics)

/-- The waves that are looked at: those that pass, and one that does not. -/
def attempted (waves : List WaveOffer) : List WaveOffer :=
  climbed cfg metrics waves ++
    ((waves.filter (fun w => w.waveIndex ≠ 0)).dropWhile (passes cfg metrics)).head?.toList

/-- **One wave**: it is skipped, or it passes and the climb goes on, or it is the last. -/
theorem gradeWaves_cons (wave : WaveOffer) (waves : List WaveOffer) (res : Result) :
    gradeWaves cfg metrics (wave :: waves) res =
      if wave.waveIndex = 0 then gradeWaves cfg metrics waves res
      else if passes cfg metrics wave then
        gradeWaves cfg metrics waves
          { res with
            peakSustainedTPS := wave.offeredRPS
            p99AtPeakNS := stableP99 metrics wave
            waves := res.waves ++ [waveResult cfg metrics wave] }
      else { res with waves := res.waves ++ [waveResult cfg metrics wave] } := by
  rw [gradeWaves]
  split_ifs with h0 hp
  · rfl
  · rw [passes] at hp
    cases hm : metrics.lookup wave.waveIndex with
    | none =>
      rw [hm] at hp
      cases hp
    | some m =>
      rw [hm, and_eq_true, decide_eq_true_eq, decide_eq_true_eq] at hp
      have herr := not_lt.mpr hp.1
      have hlat := not_lt.mpr hp.2
      simp [waveResult, stableP99, passes, hm, herr, hlat, hp.1, hp.2]
  rw [passes] at hp
  cases hm : metrics.lookup wave.waveIndex with
  | none => simp [waveResult, stableP99, passes, hm]
  | some m =>
    rw [hm, and_eq_true, decide_eq_true_eq, decide_eq_true_eq, not_and_or, not_le, not_le] at hp
    by_cases herr : cfg.maxErrorRate < m.maxErrorRate
    · simp [waveResult, stableP99, passes, hm, herr, not_le.mpr herr]
    · have hlat := hp.resolve_left herr
      simp [waveResult, stableP99, passes, hm, herr, hlat, not_le.mpr hlat]

/-- **The climb is decided by the waves that pass.** -/
theorem gradeWaves_eq (waves : List WaveOffer) (res : Result) :
    gradeWaves cfg metrics waves res =
      { res with
        peakSustainedTPS :=
          ((climbed cfg metrics waves).getLast?.map (·.offeredRPS)).getD res.peakSustainedTPS
        p99AtPeakNS := ((climbed cfg metrics waves).getLast?.map (stableP99 metrics)).getD res.p99AtPeakNS
        waves := res.waves ++ (attempted cfg metrics waves).map (waveResult cfg metrics) } := by
  induction waves generalizing res with
  | nil => simp [gradeWaves, climbed, attempted]
  | cons wave waves ih =>
    rw [gradeWaves_cons]
    split_ifs with h0 hp
    · have hskip : (wave :: waves).filter (fun w => w.waveIndex ≠ 0) =
          waves.filter (fun w => w.waveIndex ≠ 0) := filter_cons_of_neg (by simpa using h0)
      rw [ih, attempted, attempted, climbed, climbed, hskip]
    all_goals
      have hkeep : (wave :: waves).filter (fun w => w.waveIndex ≠ 0) =
          wave :: waves.filter (fun w => w.waveIndex ≠ 0) := filter_cons_of_pos (by simpa using h0)
    · have hclimbed : climbed cfg metrics (wave :: waves) = wave :: climbed cfg metrics waves := by
        rw [climbed, hkeep, takeWhile_cons_of_pos hp, climbed]
      have hattempted : attempted cfg metrics (wave :: waves) =
          wave :: attempted cfg metrics waves := by
        rw [attempted, hclimbed, hkeep, dropWhile_cons_of_pos hp, attempted, cons_append]
      rw [ih, hclimbed, hattempted, getLast?_cons]
      cases (climbed cfg metrics waves).getLast? with
      | none | some last => simp
    have hclimbed : climbed cfg metrics (wave :: waves) = [] := by
      rw [climbed, hkeep, takeWhile_cons_of_neg hp]
    have hattempted : attempted cfg metrics (wave :: waves) = [wave] := by
      rw [attempted, hclimbed, hkeep, dropWhile_cons_of_neg hp]
      rfl
    rw [hclimbed, hattempted]
    rfl

end

/-! ### The peak of a run group -/

/-- The session that is climbed: the last ramp. -/
def Input.ramp (inp : Input) : Option Session :=
  (inp.sessions.filter (fun s => s.scenario = "ramp")).getLast?

/-- The input climbs the given tasks under the given configuration. -/
def Input.Climbs (inp : Input) (cfg : Config) (tasks : List TaskSpec) : Prop :=
  inp.config = cfg ∧ ∃ ramp, inp.ramp = some ramp ∧ ramp.taskSpecs = tasks

/-- The waves that passed. -/
def Result.passedWaves (res : Result) : List WaveResult := res.waves.filter (·.passed)

/-- The waves of the tasks that are graded. -/
def gradedWaves (cfg : Config) (tasks : List TaskSpec) : List WaveOffer :=
  (waveSchedule tasks cfg.withDefaults.waveDurationNS).filter (fun w => w.waveIndex ≠ 0)

/-- The rates of the waves never fall. -/
def Rising (waves : List WaveOffer) : Prop := waves.Pairwise (fun a b => a.offeredRPS ≤ b.offeredRPS)
  deriving Decidable

section

variable {cfg : Config} {tasks : List TaskSpec}

theorem passed_attempted (cfg : Config) (metrics : GoMap Int MetricSummary)
    (waves : List WaveOffer) :
    ((attempted cfg metrics waves).map (waveResult cfg metrics)).filter (·.passed) =
      (climbed cfg metrics waves).map (waveResult cfg metrics) := by
  have hpass : ((climbed cfg metrics waves).map (waveResult cfg metrics)).filter (·.passed) =
      (climbed cfg metrics waves).map (waveResult cfg metrics) := by
    refine filter_eq_self.mpr fun wr hwr => ?_
    obtain ⟨w, hw, rfl⟩ := mem_map.mp hwr
    have hp : passes cfg metrics w = true := mem_takeWhile_imp hw
    exact hp
  have hnone : (((waves.filter (fun w => w.waveIndex ≠ 0)).dropWhile
      (passes cfg metrics)).head?.toList.map (waveResult cfg metrics)).filter (·.passed) = [] := by
    refine filter_eq_nil_iff.mpr fun wr hwr => ?_
    obtain ⟨w, hw, rfl⟩ := mem_map.mp hwr
    have hfail := head?_dropWhile_not (passes cfg metrics) (waves.filter (fun w => w.waveIndex ≠ 0))
    rw [Option.mem_toList.mp hw] at hfail
    have hp : passes cfg metrics w = false := by simpa using hfail
    exact Bool.eq_false_iff.mp hp
  rw [attempted, map_append, filter_append, hpass, hnone, append_nil]

variable {inp : Input} {ramp : Session} {wave : WaveOffer} {n : Nat}

/-- **A ramp with an offered rate is graded wave by wave.** -/
theorem compute_of_ramp (hramp : inp.ramp = some ramp)
    (hpos : ∃ t ∈ ramp.taskSpecs, 0 < t.targetRPS) :
    (compute inp).1.peakSustainedTPS =
        ((climbed inp.config.withDefaults (summarizeMetrics ramp.metrics)
          (waveSchedule ramp.taskSpecs inp.config.withDefaults.waveDurationNS)).getLast?.map
            (·.offeredRPS)).getD 0 ∧
      (compute inp).1.p99AtPeakNS =
        ((climbed inp.config.withDefaults (summarizeMetrics ramp.metrics)
          (waveSchedule ramp.taskSpecs inp.config.withDefaults.waveDurationNS)).getLast?.map
            (stableP99 (summarizeMetrics ramp.metrics))).getD 0 ∧
      (compute inp).1.waves =
        (attempted inp.config.withDefaults (summarizeMetrics ramp.metrics)
          (waveSchedule ramp.taskSpecs inp.config.withDefaults.waveDurationNS)).map
            (waveResult inp.config.withDefaults (summarizeMetrics ramp.metrics)) := by
  have hrate : (!ramp.taskSpecs.isEmpty && ramp.taskSpecs.all (fun t => t.targetRPS = 0)) = false := by
    obtain ⟨t, ht, hpos⟩ := hpos
    rw [and_eq_false_iff]
    refine .inr (all_eq_false.mpr ⟨t, ht, ?_⟩)
    simpa using Nat.pos_iff_ne_zero.mp hpos
  rw [Input.ramp] at hramp
  rw [compute]
  simp only [hramp, hrate, gradeWaves_eq, false_eq_true, if_false]
  split_ifs
  · exact ⟨rfl, rfl, rfl⟩
  · exact ⟨rfl, rfl, rfl⟩

theorem Input.Climbs.compute (h : inp.Climbs cfg tasks) (hpos : ∃ t ∈ tasks, 0 < t.targetRPS) :
    ∃ ramp, inp.ramp = some ramp ∧
      (Score.compute inp).1.peakSustainedTPS =
        (((gradedWaves cfg tasks).takeWhile (passes cfg.withDefaults
          (summarizeMetrics ramp.metrics))).getLast?.map (·.offeredRPS)).getD 0 ∧
      (Score.compute inp).1.passedWaves =
        ((gradedWaves cfg tasks).takeWhile (passes cfg.withDefaults
          (summarizeMetrics ramp.metrics))).map
            (waveResult cfg.withDefaults (summarizeMetrics ramp.metrics)) := by
  obtain ⟨rfl, ramp, hramp, rfl⟩ := h
  obtain ⟨hpeak, -, hwaves⟩ := compute_of_ramp hramp hpos
  refine ⟨ramp, hramp, hpeak, ?_⟩
  rw [Result.passedWaves, hwaves, passed_attempted]
  rfl

theorem pairwise_gradedWaves (cfg : Config) (tasks : List TaskSpec) :
    (gradedWaves cfg tasks).Pairwise (fun a b => a.waveIndex < b.waveIndex) := by
  refine List.Pairwise.filter _ ?_
  unfold waveSchedule
  generalize (if cfg.withDefaults.waveDurationNS = 0 then defaultWaveDurationNS
    else cfg.withDefaults.waveDurationNS) = d
  dsimp only
  split
  · exact List.Pairwise.nil
  refine List.Pairwise.filterMap _ (R := fun a b => a < b) ?_ pairwise_lt_range
  intro a a' hlt b hb b' hb'
  split_ifs at hb hb'
  rw [← Option.some.inj hb, ← Option.some.inj hb']
  exact Int.ofNat_lt.mpr hlt

theorem eq_of_waveIndex {a b : WaveOffer} (ha : a ∈ gradedWaves cfg tasks)
    (hb : b ∈ gradedWaves cfg tasks) (h : a.waveIndex = b.waveIndex) : a = b := by
  refine inj_on_of_nodup_map ?_ ha hb h
  rw [Nodup, pairwise_map]
  exact (pairwise_gradedWaves cfg tasks).imp fun hlt => hlt.ne

theorem passes_of_rows
    (hmem : ∃ r ∈ rows, r.waveIndex = wave.waveIndex) (herr : 0 ≤ cfg.maxErrorRate)
    (hrows : ∀ r ∈ rows, r.errorRate ≤ cfg.maxErrorRate ∧ r.p99NS ≤ cfg.maxP99NS) :
    passes cfg (summarizeMetrics rows) wave = true := by
  obtain ⟨r, hr, hw⟩ := hmem
  have hown : ∀ r ∈ rows.filter (fun r => r.waveIndex = wave.waveIndex), r ∈ rows :=
    fun r hr => (mem_filter.mp hr).1
  have hne : rows.filter (fun r => r.waveIndex = wave.waveIndex) ≠ [] :=
    ne_nil_of_mem (mem_filter.mpr ⟨hr, by simpa using hw⟩)
  rw [passes, lookup_summarizeMetrics, if_neg hne, and_eq_true, decide_eq_true_eq,
    decide_eq_true_eq]
  refine ⟨maxErrorRate_foldl_le (fun r hr => (hrows r (hown r hr)).1) herr, medianU64_le ?_⟩
  rw [p99Samples_foldl]
  intro x hx
  obtain ⟨r, hr, rfl⟩ := mem_map.mp hx
  exact (hrows r (hown r hr)).2

theorem passes_of_no_rows (h : ∀ r ∈ rows, r.waveIndex ≠ wave.waveIndex) :
    passes cfg (summarizeMetrics rows) wave = false := by
  have hnil : rows.filter (fun r => r.waveIndex = wave.waveIndex) = [] :=
    filter_eq_nil_iff.mpr fun r hr => by simpa using h r hr
  rw [passes, lookup_summarizeMetrics, if_pos hnil]

/-- Metrics that pass exactly these waves. -/
def goodMetrics (waves : List WaveOffer) : List MetricRow :=
  waves.map (fun wave => ⟨wave.waveIndex, 0, 0, 0⟩)

/-- A group with one session, whose first `n` graded waves have good metrics. -/
def sampleClimb (cfg : Config) (tasks : List TaskSpec) (n : Nat) : Input where
  runGroupID := "g"
  submissionID := "sub"
  contestantID := "c"
  teamName := "team"
  sessions := [{
    sessionID := "s"
    scenario := "ramp"
    taskSpecs := tasks
    correct := ⟨0, 0, 0, 0, 0, 0, {}⟩
    metrics := goodMetrics ((gradedWaves cfg tasks).take n) }]
  config := cfg

theorem climbs_sampleClimb (cfg : Config) (tasks : List TaskSpec) (n : Nat) :
    (sampleClimb cfg tasks n).Climbs cfg tasks := ⟨rfl, _, rfl, rfl⟩

theorem metrics_sampleClimb (h : (sampleClimb cfg tasks n).ramp = some ramp) :
    ramp.metrics = goodMetrics ((gradedWaves cfg tasks).take n) := by
  rw [← Option.some.inj h]
  rfl

theorem takeWhile_eq_take {α : Type} {p : α → Bool} {l : List α}
    (hpass : ∀ a ∈ l.take n, p a = true) (hfail : ∀ a ∈ l.drop n, p a = false) :
    l.takeWhile p = l.take n := by
  conv_lhs => rw [← take_append_drop n l]
  rw [takeWhile_append_of_pos hpass]
  cases hd : l.drop n with
  | nil => rw [takeWhile_nil, append_nil]
  | cons a rest =>
    have ha := hfail a (hd ▸ (.head _))
    rw [takeWhile_cons_of_neg (by rw [ha]; decide), append_nil]

theorem withDefaults_maxErrorRate_nonneg (cfg : Config) : 0 ≤ cfg.withDefaults.maxErrorRate := by
  rw [Config.withDefaults]
  dsimp only
  split_ifs with h
  · exact (by norm_num [defaultMaxErrorRate] : (0 : ℚ) ≤ defaultMaxErrorRate)
  · exact (not_le.mp h).le

theorem takeWhile_sampleClimb (cfg : Config) (tasks : List TaskSpec) (n : Nat) :
    (gradedWaves cfg tasks).takeWhile (passes cfg.withDefaults
      (summarizeMetrics (goodMetrics ((gradedWaves cfg tasks).take n)))) =
        (gradedWaves cfg tasks).take n := by
  have herr := withDefaults_maxErrorRate_nonneg cfg
  refine takeWhile_eq_take (fun w hw => ?_) (fun w hw => ?_)
  · refine passes_of_rows ⟨_, mem_map.mpr ⟨w, hw, rfl⟩, rfl⟩ herr fun r hr => ?_
    obtain ⟨v, hv, rfl⟩ := mem_map.mp hr
    exact ⟨herr, Nat.zero_le _⟩
  refine passes_of_no_rows fun r hr => ?_
  obtain ⟨v, hv, rfl⟩ := mem_map.mp hr
  have hsplit := pairwise_gradedWaves cfg tasks
  rw [← take_append_drop n (gradedWaves cfg tasks), pairwise_append] at hsplit
  exact (hsplit.2.2 v hv w hw).ne

theorem max?_eq_getLast? {l : List Nat} (h : l.Pairwise (· ≤ ·)) : l.max? = l.getLast? := by
  induction l using reverseRecOn with
  | nil => rfl
  | append_singleton l x _ =>
    rw [getLast?_concat, max?_eq_some_iff]
    refine ⟨mem_append_right _ (.head _), fun y hy => ?_⟩
    rcases mem_append.mp hy with hy | hy
    · exact (pairwise_append.mp h).2.2 y hy x (.head _)
    · exact (mem_singleton.mp hy).le

theorem le_max?_getD {values : List Nat} {x : Nat} (hx : x ∈ values) : x ≤ values.max?.getD 0 := by
  cases hmax : values.max? with
  | none =>
    rw [max?_eq_none_iff.mp hmax] at hx
    cases hx
  | some top => exact (max?_eq_some_iff.mp hmax).2 x hx

/-- The best of the waves that passed. -/
def Result.largestPassed (res : Result) : Nat := (res.passedWaves.map (·.offeredRPS)).max?.getD 0

/-- **Passing more waves never lowers the peak, and the peak is the best wave, exactly when the
rates of the graded waves never fall.** -/
theorem peak_rises_iff (cfg : Config) (tasks : List TaskSpec) (hpos : ∃ t ∈ tasks, 0 < t.targetRPS) :
    (∀ inp inp' : Input, inp.Climbs cfg tasks → inp'.Climbs cfg tasks →
      (∀ wr ∈ (compute inp).1.passedWaves, ∃ wr' ∈ (compute inp').1.passedWaves,
        wr'.waveIndex = wr.waveIndex) →
      (compute inp).1.peakSustainedTPS ≤ (compute inp').1.peakSustainedTPS ∧
        (compute inp').1.peakSustainedTPS = (compute inp').1.largestPassed) ↔
      Rising (gradedWaves cfg tasks) := by
  have hlargest : ∀ {inp : Input} {metrics : GoMap Int MetricSummary} {l : List WaveOffer},
      (compute inp).1.passedWaves = l.map (waveResult cfg.withDefaults metrics) →
        (compute inp).1.largestPassed = (l.map (·.offeredRPS)).max?.getD 0 := by
    intro inp metrics l h
    rw [Result.largestPassed, h, map_map]
    rfl
  constructor
  · intro h
    refine pairwise_iff_getElem.mpr fun i j hi hj hij => ?_
    have hclimbs := climbs_sampleClimb cfg tasks (j + 1)
    obtain ⟨ramp, hramp, hpeak, hpassed⟩ := hclimbs.compute hpos
    rw [metrics_sampleClimb hramp, takeWhile_sampleClimb] at hpeak hpassed
    have hmax := (h _ _ hclimbs hclimbs fun wr hwr => ⟨wr, hwr, rfl⟩).2
    rw [hpeak, hlargest hpassed, take_succ_eq_append_getElem hj, getLast?_concat] at hmax
    have hmem : (gradedWaves cfg tasks)[i].offeredRPS ∈ ((gradedWaves cfg tasks).take j ++
        [(gradedWaves cfg tasks)[j]]).map (·.offeredRPS) := by
      refine mem_map_of_mem (mem_append_left _ ?_)
      exact mem_take_iff_getElem.mpr ⟨i, by omega, rfl⟩
    exact (le_max?_getD hmem).trans_eq hmax.symm
  intro hrise inp inp' hinp hinp' hsub
  obtain ⟨ramp, -, hpeak, hpassed⟩ := hinp.compute hpos
  obtain ⟨ramp', -, hpeak', hpassed'⟩ := hinp'.compute hpos
  generalize hA : (gradedWaves cfg tasks).takeWhile (passes cfg.withDefaults
    (summarizeMetrics ramp.metrics)) = passed at hpeak hpassed
  generalize hB : (gradedWaves cfg tasks).takeWhile (passes cfg.withDefaults
    (summarizeMetrics ramp'.metrics)) = passed' at hpeak' hpassed'
  have hmemA : ∀ w ∈ passed, w ∈ gradedWaves cfg tasks :=
    fun w hw => (List.takeWhile_prefix _).subset (hA ▸ hw)
  have hmemB : ∀ w ∈ passed', w ∈ gradedWaves cfg tasks :=
    fun w hw => (List.takeWhile_prefix _).subset (hB ▸ hw)
  have hsorted : (passed'.map (·.offeredRPS)).Pairwise (· ≤ ·) := by
    rw [pairwise_map]
    exact List.Pairwise.sublist (hB ▸ (List.takeWhile_prefix _).sublist) hrise
  have hbest : (compute inp').1.peakSustainedTPS = (compute inp').1.largestPassed := by
    rw [hpeak', hlargest hpassed', max?_eq_getLast? hsorted, getLast?_map]
  refine ⟨?_, hbest⟩
  rw [hbest, hlargest hpassed', hpeak]
  cases hlast : passed.getLast? with
  | none => exact Nat.zero_le _
  | some w =>
    have hw : w ∈ passed := mem_of_getLast? hlast
    obtain ⟨wr', hwr', hidx⟩ := hsub (waveResult _ _ w) (hpassed ▸ mem_map_of_mem hw)
    rw [hpassed'] at hwr'
    obtain ⟨w', hw', rfl⟩ := mem_map.mp hwr'
    obtain rfl : w' = w := eq_of_waveIndex (hmemB w' hw') (hmemA w hw) hidx
    exact le_max?_getD (mem_map_of_mem hw')

end

end MatchBench.Score
