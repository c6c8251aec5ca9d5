import MatchBench.Score.Climb

/-!
# The latency that is gated

The ingester writes one row of `metrics` for each second of a wave.  `compute` gates a wave on the
median of the latencies of its rows, so that one slow second does not decide.

But `loadMetrics` of `internal/store/store.go` does not load these rows.  Its query groups them by
wave and takes the largest latency of each group, so `compute` sees one row for each wave
(`filter_loadMetrics`), and the median of one row is that row.  The gate and the ranking go by the
slowest second, which is the median only when at least half of the seconds are as slow
(`gate_median_iff`).
-/

namespace MatchBench.Score

open List

/-! ### The query -/

/-- A row of `metrics`, with the columns that the query reads.  The measured ones may be null. -/
structure MetricsRow where
  sessionID : String
  contestantID : String
  waveIndex : Int
  p99Ns : Option Int
  tps1s : Option ℚ
  errorRate : Option ℚ
  deriving DecidableEq

def nonNegativeUint64 (v : Int) : Nat := if v ≤ 0 then 0 else v.toNat

/-- `COALESCE(AVG(…), 0)` -/
def averageOrZero (values : List ℚ) : ℚ := if values = [] then 0 else values.sum / values.length

/-- The rows of the session, of one contestant or of all. -/
def selected (table : List MetricsRow) (sessionID contestantID : String) : List MetricsRow :=
  table.filter (fun r => r.sessionID = sessionID ∧ (contestantID = "" ∨ r.contestantID = contestantID))

/-- One group of the query. -/
def aggregateRow (wave : Int) (group : List MetricsRow) : MetricRow where
  waveIndex := wave
  p99NS := nonNegativeUint64 ((group.filterMap (·.p99Ns)).max?.getD 0)
  tps1S := averageOrZero (group.filterMap (·.tps1s))
  errorRate := (group.filterMap (·.errorRate)).max?.getD 0

def loadMetrics (table : List MetricsRow) (sessionID contestantID : String) : List MetricRow :=
  let rows := selected table sessionID contestantID
  (stableSort (fun a b => a < b) (rows.map (·.waveIndex)).dedup).map fun wave =>
    aggregateRow wave (rows.filter (fun r => r.waveIndex = wave))

section

variable (table : List MetricsRow) (sessionID contestantID : String)

/-- The seconds of a wave. -/
def secondsOf (wave : Int) : List MetricsRow :=
  (selected table sessionID contestantID).filter (fun r => r.waveIndex = wave)

/-- The latencies of the seconds of a wave. -/
def p99Values (wave : Int) : List Nat :=
  ((secondsOf table sessionID contestantID wave).filterMap (·.p99Ns)).map nonNegativeUint64

/-- **The query leaves one row for each wave.** -/
theorem filter_loadMetrics (wave : Int) :
    (loadMetrics table sessionID contestantID).filter (fun r => r.waveIndex = wave) =
      if secondsOf table sessionID contestantID wave = [] then []
      else [aggregateRow wave (secondsOf table sessionID contestantID wave)] := by
  have hnodup : (stableSort (fun a b => a < b)
      ((selected table sessionID contestantID).map (·.waveIndex)).dedup).Nodup :=
    (perm_stableSort _ _).nodup_iff.mpr (nodup_dedup _)
  have hmem : wave ∈ stableSort (fun a b => a < b)
      ((selected table sessionID contestantID).map (·.waveIndex)).dedup ↔
        secondsOf table sessionID contestantID wave ≠ [] := by
    rw [(perm_stableSort _ _).mem_iff, mem_dedup, mem_map, secondsOf, ne_eq, filter_eq_nil_iff]
    simp
  rw [loadMetrics, filter_map]
  have hone : (stableSort (fun a b => a < b)
      ((selected table sessionID contestantID).map (·.waveIndex)).dedup).filter
        ((fun r => decide (r.waveIndex = wave)) ∘ fun wave => aggregateRow wave
          ((selected table sessionID contestantID).filter (fun r => r.waveIndex = wave))) =
      if secondsOf table sessionID contestantID wave = [] then [] else [wave] := by
    have hsame : ((fun r => decide (r.waveIndex = wave)) ∘ fun wave => aggregateRow wave
          ((selected table sessionID contestantID).filter (fun r => r.waveIndex = wave))) =
        (fun w : Int => w == wave) := rfl
    rw [hsame, filter_beq, hnodup.count]
    by_cases hs : secondsOf table sessionID contestantID wave = []
    · rw [if_pos hs, if_neg (fun h => hmem.mp h hs)]
      rfl
    · rw [if_neg hs, if_pos (hmem.mpr hs)]
      rfl
  rw [hone]
  split_ifs
  · rfl
  · rfl

end

/-! ### The median -/

/-- At least half of the values are as large as the largest. -/
def MostlyWorst (values : List Nat) : Prop :=
  values.length ≤ 2 * values.count (values.max?.getD 0)
  deriving Decidable

theorem getElem?_eq_largest {top : Nat} {s : List Nat} (hs : s.Pairwise (· ≤ ·))
    (htop : ∀ x ∈ s, x ≤ top) {i : Nat} (hi : i < s.length) :
    s[i]? = some top ↔ s.length ≤ i + s.count top := by
  induction s generalizing i with
  | nil => cases hi
  | cons x s ih =>
    obtain ⟨hx, hs⟩ := pairwise_cons.mp hs
    obtain ⟨hxtop, htop⟩ := forall_mem_cons.mp htop
    by_cases heq : x = top
    · -- from here on all values are the largest
      have hall : ∀ y ∈ x :: s, y = top := by
        intro y hy
        rcases mem_cons.mp hy with rfl | hy
        · exact heq
        · exact le_antisymm (htop y hy) (heq ▸ hx y hy)
      have hcount : (x :: s).count top = (x :: s).length :=
        count_eq_length.mpr fun y hy => (hall y hy).symm
      rw [hcount, getElem?_eq_getElem hi]
      exact ⟨fun _ => Nat.le_add_left _ _, fun _ => congrArg some (hall _ (getElem_mem hi))⟩
    rw [count_cons_of_ne heq, length_cons]
    cases i with
    | zero =>
      have hcount : s.count top ≤ s.length := count_le_length
      refine ⟨fun h => absurd (Option.some.inj h) heq, fun h => by omega⟩
    | succ i =>
      rw [getElem?_cons_succ, ih hs htop (by simpa using hi)]
      omega

theorem pairwise_stableSort_nat (l : List Nat) :
    (stableSort (fun a b => a < b) l).Pairwise (· ≤ ·) := by
  have hstrict : StrictOn (fun a b : Nat => decide (a < b)) l :=
    { irrefl := fun a _ => by simp
      trans := fun a _ b _ c _ hab hbc => by
        rw [decide_eq_true_eq] at hab hbc ⊢
        exact hab.trans hbc
      total := fun a _ b _ hne => by
        rw [decide_eq_true_eq, decide_eq_true_eq]
        exact lt_or_gt_of_ne hne }
  exact hstrict.pairwise_stableSort.imp fun h => not_lt.mp (by simpa using h)

theorem medianU64_singleton (x : Nat) : medianU64 [x] = x := by
  simp [medianU64, stableSort]

/-- **The median is the largest value exactly when at least half of the values are.** -/
theorem max_eq_median_iff (values : List Nat) :
    values.max?.getD 0 = medianU64 values ↔ MostlyWorst values := by
  rcases eq_or_ne values [] with rfl | hne
  · decide
  have hperm := perm_stableSort (fun a b => decide (a < b)) values
  have hlen : values.length / 2 < (stableSort (fun a b => a < b) values).length := by
    rw [hperm.length_eq]
    have := length_pos_iff.mpr hne
    omega
  have hplace := getElem?_eq_largest (pairwise_stableSort_nat values)
    (fun x hx => le_max?_getD (hperm.mem_iff.mp hx)) hlen
  rw [hperm.length_eq, hperm.count_eq] at hplace
  rw [medianU64, getElem?_eq_getElem hlen, Option.getD_some, MostlyWorst]
  rw [getElem?_eq_getElem hlen, Option.some.injEq] at hplace
  rw [eq_comm, hplace]
  omega

/-! ### What the gate goes by -/

theorem nonNegativeUint64_eq (v : Int) : nonNegativeUint64 v = v.toNat := by
  unfold nonNegativeUint64
  split_ifs with h
  · exact (Int.toNat_eq_zero.mpr h).symm
  · rfl

theorem max?_toNat (values : List Int) :
    ((values.map nonNegativeUint64).max?).getD 0 = nonNegativeUint64 (values.max?.getD 0) := by
  cases hmax : values.max? with
  | none =>
    rw [max?_eq_none_iff.mp hmax]
    rfl
  | some top =>
    obtain ⟨hmem, hle⟩ := max?_eq_some_iff.mp hmax
    have hsome : (values.map nonNegativeUint64).max? = some (nonNegativeUint64 top) := by
      refine max?_eq_some_iff.mpr ⟨mem_map_of_mem hmem, fun x hx => ?_⟩
      obtain ⟨v, hv, rfl⟩ := mem_map.mp hx
      rw [nonNegativeUint64_eq, nonNegativeUint64_eq]
      exact Int.toNat_le_toNat (hle v hv)
    rw [hsome]
    rfl

/-- **The latency of a wave is that of its slowest second.** -/
theorem stableP99_loadMetrics (table : List MetricsRow) (sessionID contestantID : String)
    {wave : Int} {m : MetricSummary}
    (h : (summarizeMetrics (loadMetrics table sessionID contestantID)).lookup wave = some m) :
    m.stableP99NS = (p99Values table sessionID contestantID wave).max?.getD 0 := by
  rw [lookup_summarizeMetrics, filter_loadMetrics] at h
  by_cases hs : secondsOf table sessionID contestantID wave = []
  · rw [if_pos hs, if_pos rfl] at h
    cases h
  · rw [if_neg hs, if_neg (cons_ne_nil _ _)] at h
    rw [← Option.some.inj h, p99Values, max?_toNat, MetricSummary.stableP99NS, p99Samples_foldl]
    exact medianU64_singleton _

/-- **The gate and the ranking go by the median exactly when at least half of the seconds of the
wave are as slow as the slowest.** -/
theorem gate_median_iff (table : List MetricsRow) (inp : Input) {ramp : Session}
    (hramp : inp.ramp = some ramp) (hpos : ∃ t ∈ ramp.taskSpecs, 0 < t.targetRPS)
    (hload : ramp.metrics = loadMetrics table ramp.sessionID inp.contestantID) :
    (∀ wr ∈ (compute inp).1.waves, wr.reason ≠ "missing_metrics" →
      (wr.p99NS = medianU64 (p99Values table ramp.sessionID inp.contestantID wr.waveIndex) ↔
        MostlyWorst (p99Values table ramp.sessionID inp.contestantID wr.waveIndex)) ∧
      (wr.passed = true → wr.p99NS ≤ inp.config.withDefaults.maxP99NS) ∧
      (wr.reason = "p99_latency" → inp.config.withDefaults.maxP99NS < wr.p99NS)) ∧
    (compute inp).1.p99AtPeakNS = ((compute inp).1.passedWaves.getLast?.map (·.p99NS)).getD 0 := by
  obtain ⟨-, hpeak, hwaves⟩ := compute_of_ramp hramp hpos
  constructor
  · intro wr hwr hseen
    rw [hwaves] at hwr
    obtain ⟨wave, -, rfl⟩ := mem_map.mp hwr
    cases hm : (summarizeMetrics ramp.metrics).lookup wave.waveIndex with
    | none => exact absurd (by rw [waveResult, hm]) hseen
    | some m =>
      have hp99 : (waveResult inp.config.withDefaults (summarizeMetrics ramp.metrics) wave).p99NS =
          m.stableP99NS := by
        rw [waveResult, stableP99, hm]
        rfl
      refine ⟨?_, ?_, ?_⟩
      · rw [hload] at hm
        rw [hp99, stableP99_loadMetrics table _ _ hm]
        exact max_eq_median_iff _
      · intro hpass
        rw [waveResult, passes, hm, Bool.and_eq_true, decide_eq_true_eq, decide_eq_true_eq] at hpass
        exact hp99 ▸ hpass.2
      intro hreason
      rw [waveResult, hm] at hreason
      dsimp only at hreason
      split_ifs at hreason with herr hlat
      · exact absurd hreason (by decide)
      · exact hp99 ▸ hlat
      · exact absurd hreason (by decide)
  · rw [hpeak, Result.passedWaves, hwaves, passed_attempted, getLast?_map, Option.map_map]
    rfl

/-- A second of the first graded wave of a session. -/
def sampleSecond (p99 : Int) : MetricsRow := ⟨"s", "c", 1, some p99, some 100, some 0⟩

/-- A ramp of two waves with these seconds in the second. -/
def sampleGate (table : List MetricsRow) : Input where
  runGroupID := "g"
  submissionID := "sub"
  contestantID := "c"
  teamName := "team"
  sessions := [{
    sessionID := "s"
    scenario := "ramp"
    taskSpecs := [⟨100, 0, 40000000000⟩]
    correct := ⟨0, 0, 0, 0, 0, 0, {}⟩
    metrics := loadMetrics table "s" "c" }]
  config := ⟨0, 0, 0, 0, 0⟩

/-- Of two seconds the slower is the upper median. -/
theorem gate_median_two :
    MostlyWorst (p99Values [sampleSecond 200000, sampleSecond 100000] "s" "c" 1) ∧
    (compute (sampleGate [sampleSecond 200000, sampleSecond 100000])).1.waves =
      [⟨1, 100, 200000, true, ""⟩] ∧
    200000 = medianU64 (p99Values [sampleSecond 200000, sampleSecond 100000] "s" "c" 1) := by
  have hwaves : (compute (sampleGate [sampleSecond 200000, sampleSecond 100000])).1.waves =
      [⟨1, 100, 200000, true, ""⟩] := by decide +kernel
  have hgate := gate_median_iff [sampleSecond 200000, sampleSecond 100000]
    (sampleGate [sampleSecond 200000, sampleSecond 100000]) rfl
    ⟨_, mem_singleton_self _, by decide⟩ rfl
  rw [hwaves] at hgate
  exact ⟨by decide, hwaves, (hgate.1 _ (.head _) (by decide)).1.mpr (by decide)⟩

/-- **One slow second among three fails the wave.**  The median of its latencies is a tenth of the
limit. -/
theorem slow_second_fails :
    p99Values [sampleSecond 100000, sampleSecond 5000000, sampleSecond 100000] "s" "c" 1 =
        [100000, 5000000, 100000] ∧
      medianU64 [100000, 5000000, 100000] = 100000 ∧
      (compute (sampleGate
        [sampleSecond 100000, sampleSecond 5000000, sampleSecond 100000])).1.waves =
          [⟨1, 100, 5000000, false, "p99_latency"⟩] ∧
      (compute (sampleGate
        [sampleSecond 100000, sampleSecond 5000000, sampleSecond 100000])).1.peakSustainedTPS = 0 := by
  decide +kernel

end MatchBench.Score
