import MatchBench.Lib.Deal

/-!
# Sharding a scenario over workers

The controller sizes a session's worker count with `computeWorkerCountForLoad`: the larger
of the tasks over the task limit and the total rate over the rate limit, each rounded up.
`buildWorkloadSpecs` then deals the tasks round the workers by their index.

The dealing is `everyNth`, so every task goes to one worker and the task limit holds
(`buildWorkloadSpecs_spec`).  The rates are not looked at when the tasks are dealt: a worker
can get more than its share of the total, and more than its limit.  `shards_runnable_iff`
says when it does not.

The counts are machine integers.  `Exact` is the range of the two limits in which they are
the numbers that they stand for; the rest of the range is limits within a scenario's length
of the largest integer.
-/

namespace MatchBench.Controller

open List

structure TargetSpec where
  protocol : String
  port : UInt16
  deriving DecidableEq, Repr

structure TaskSpec where
  taskID : UInt32
  profile : String
  targetRPS : UInt32
  startOffsetNs : UInt64
  durationNs : UInt64
  marketPct : UInt8
  cancelPct : UInt8
  replacePct : UInt8
  targetIdx : UInt8
  smpIDCount : UInt32
  deriving DecidableEq, Repr

structure WorkloadSpec where
  sessionID : String
  submissionID : String
  contestantID : String
  targetHost : String
  targetPort : UInt16
  protocol : String
  targets : List TargetSpec
  workerIndex : UInt32
  workerCount : UInt32
  globalSeed : UInt64
  fixVersion : String
  connectTimeoutMS : UInt64
  writeTimeoutMS : UInt64
  publishedAtUnixNS : UInt64
  orderBand : UInt32
  tasks : List TaskSpec
  deriving DecidableEq, Repr

/-- What `buildWorkloadSpecs` reads of the session, the submission, the configuration and
the clock.  A submission has a first target, `legacyTarget`, and may have others. -/
structure Assignment where
  sessionID : String
  submissionID : String
  contestantID : String
  targetHost : String
  legacyTarget : TargetSpec
  otherTargets : List TargetSpec
  globalSeed : UInt64
  fixVersion : String
  connectTimeoutMS : UInt64
  writeTimeoutMS : UInt64
  publishedAtUnixNS : UInt64
  orderBand : UInt32
  deriving DecidableEq, Repr

def Assignment.targets (a : Assignment) : List TargetSpec := a.legacyTarget :: a.otherTargets

def defaultMaxTasksPerWorker : Int64 := 1000

def computeWorkerCount (totalTasks maxTasksPerWorker : Int64) : UInt32 :=
  if totalTasks ≤ 0 then 1
  else
    let maxTasksPerWorker :=
      if maxTasksPerWorker ≤ 0 then defaultMaxTasksPerWorker else maxTasksPerWorker
    let count := (totalTasks + maxTasksPerWorker - 1) / maxTasksPerWorker
    UInt32.ofInt count.toInt

def totalTargetRPS (specs : List TaskSpec) : UInt64 :=
  specs.foldl (fun total ts => total + ts.targetRPS.toUInt64) 0

def computeWorkerCountForLoad (totalTasks : Int64) (totalRPS : UInt64) (maxTasksPerWorker : Int64)
    (workerRPSCapacity : UInt64) : UInt32 :=
  let byTasks := computeWorkerCount totalTasks maxTasksPerWorker
  if workerRPSCapacity = 0 ∨ totalRPS = 0 then byTasks
  else
    let byRate := (totalRPS + workerRPSCapacity - 1) / workerRPSCapacity
    if byRate > byTasks.toUInt64 then byRate.toUInt32 else byTasks

/-- The target of the task at index `i`. -/
def stampTask (a : Assignment) (i : Nat) (ts : TaskSpec) : TaskSpec :=
  { ts with targetIdx := UInt8.ofNat (i % a.targets.length) }

/-- The loop that deals the tasks; dividing by a worker count of zero panics. -/
def dealLoop (a : Assignment) (workerCount : UInt32) :
    Nat → List TaskSpec → List (List TaskSpec) → Option (List (List TaskSpec))
  | _, [], tasksByWorker => some tasksByWorker
  | i, ts :: rest, tasksByWorker =>
      if workerCount = 0 then none
      else
        let shard := UInt32.ofNat i % workerCount
        dealLoop a workerCount (i + 1) rest
          (tasksByWorker.modify shard.toNat (· ++ [stampTask a i ts]))

def buildWorkloadSpecs (a : Assignment) (taskSpecs : List TaskSpec) (workerCount : UInt32) :
    Option (List WorkloadSpec) :=
  (dealLoop a workerCount 0 taskSpecs (List.replicate workerCount.toNat [])).map
    fun tasksByWorker => tasksByWorker.zipIdx.map fun p =>
      { sessionID := a.sessionID
        submissionID := a.submissionID
        contestantID := a.contestantID
        targetHost := a.targetHost
        targetPort := a.legacyTarget.port
        protocol := a.legacyTarget.protocol
        targets := a.targets
        workerIndex := UInt32.ofNat p.2
        workerCount := workerCount
        globalSeed := a.globalSeed
        fixVersion := a.fixVersion
        connectTimeoutMS := a.connectTimeoutMS
        writeTimeoutMS := a.writeTimeoutMS
        publishedAtUnixNS := a.publishedAtUnixNS
        orderBand := a.orderBand
        tasks := p.1 }

/-- The specs that `Run` publishes. -/
def planShards (a : Assignment) (taskSpecs : List TaskSpec) (maxTasksPerWorker : Int64)
    (workerRPSCapacity : UInt64) : Option (List WorkloadSpec) :=
  buildWorkloadSpecs a taskSpecs
    (computeWorkerCountForLoad (Int64.ofNat taskSpecs.length) (totalTargetRPS taskSpecs)
      maxTasksPerWorker workerRPSCapacity)

/-- The rates of the tasks, added up. -/
def rateSum (tasks : List TaskSpec) : Nat := (tasks.map (·.targetRPS.toNat)).sum

/-- The tasks of a scenario with the targets they are stamped with. -/
def stamped (a : Assignment) (taskSpecs : List TaskSpec) : List TaskSpec :=
  taskSpecs.zipIdx.map fun p => stampTask a p.2 p.1

/-- Every shard can run: each task went to one worker, and each worker has a task and is
within both limits. -/
structure Runnable (a : Assignment) (taskSpecs : List TaskSpec) (maxTasksPerWorker : Int64)
    (workerRPSCapacity : UInt64) (specs : List WorkloadSpec) : Prop where
  dealt : (specs.flatMap (·.tasks)).Perm (stamped a taskSpecs)
  nonempty : ∀ s ∈ specs, s.tasks ≠ []
  tasks_le : ∀ s ∈ specs, (s.tasks.length : Int) ≤ maxTasksPerWorker.toInt
  rate_le : ∀ s ∈ specs, rateSum s.tasks ≤ workerRPSCapacity.toNat

/-! ### Dealing -/

variable (a : Assignment) (l : List TaskSpec)

theorem length_stamped : (stamped a l).length = l.length := by
  rw [stamped, length_map, length_zipIdx]

theorem stamped_concat (ts : TaskSpec) :
    stamped a (l ++ [ts]) = stamped a l ++ [stampTask a l.length ts] := by
  rw [stamped, zipIdx_append, map_append, zero_add]
  rfl

theorem map_targetRPS_stamped : (stamped a l).map (·.targetRPS) = l.map (·.targetRPS) := by
  induction l using reverseRecOn with
  | nil => rfl
  | append_singleton l ts ih =>
    rw [stamped_concat, map_append, map_append, ih]
    rfl

theorem rateSum_everyNth_stamped (w k : Nat) (l : List TaskSpec) :
    rateSum (everyNth w k (stamped a l)) = rateSum (everyNth w k l) := by
  have hsplit : ∀ m : List TaskSpec,
      rateSum (everyNth w k m) = ((everyNth w k (m.map (·.targetRPS))).map (·.toNat)).sum := by
    intro m
    rw [everyNth_map, map_map, rateSum]
    rfl
  rw [hsplit, hsplit, map_targetRPS_stamped]

variable {workerCount : UInt32} {taskSpecs : List TaskSpec} {cap n m : Nat} {x : Int64}

/-- **The hands.**  After a prefix of the tasks, worker `k` has every task of the prefix
whose index leaves `k`. -/
theorem dealLoop_spec (hw : workerCount ≠ 0) :
    ∀ (rest done : List TaskSpec), done.length + rest.length ≤ 2 ^ 32 →
      dealLoop a workerCount done.length rest
        ((List.range workerCount.toNat).map fun k => everyNth workerCount.toNat k (stamped a done))
      = some ((List.range workerCount.toNat).map fun k =>
          everyNth workerCount.toNat k (stamped a (done ++ rest))) := by
  intro rest
  induction rest with
  | nil => intro done _; rw [dealLoop, append_nil]
  | cons ts rest ih =>
    intro done hlen
    rw [length_cons] at hlen
    have hshard : (UInt32.ofNat done.length % workerCount).toNat
        = done.length % workerCount.toNat := by
      have hlt : done.length < 2 ^ 32 := by omega
      rw [UInt32.toNat_mod, UInt32.toNat_ofNat', Nat.mod_eq_of_lt hlt]
    have hdeal : ((List.range workerCount.toNat).map fun k =>
          everyNth workerCount.toNat k (stamped a done)).modify
            (UInt32.ofNat done.length % workerCount).toNat (· ++ [stampTask a done.length ts])
        = (List.range workerCount.toNat).map fun k =>
            everyNth workerCount.toNat k (stamped a (done ++ [ts])) := by
      refine ext_getElem? fun k => ?_
      rw [getElem?_modify, getElem?_map, getElem?_map, hshard]
      cases hk : (List.range workerCount.toNat)[k]? with
      | none => rfl
      | some j =>
        obtain rfl : k = j := by
          obtain ⟨hlt, hj⟩ := List.getElem?_eq_some_iff.mp hk
          rw [← hj, getElem_range]
        simp only [Option.map_some, Option.map_eq_map, stamped_concat, everyNth_concat,
          length_stamped]
        by_cases h : done.length % workerCount.toNat = k
        · rw [if_pos h, if_pos h]
        · rw [if_neg h, if_neg h, append_nil]
    have hrest := ih (done ++ [ts]) (by rw [length_append, length_singleton]; omega)
    rw [length_append, length_singleton, append_assoc] at hrest
    rw [dealLoop, if_neg hw]
    dsimp only
    rw [hdeal]
    exact hrest

theorem buildWorkloadSpecs_spec (hw : workerCount ≠ 0) (hlen : taskSpecs.length ≤ 2 ^ 32) :
    ∃ specs, buildWorkloadSpecs a taskSpecs workerCount = some specs ∧
      specs.map (·.tasks) = (List.range workerCount.toNat).map fun k =>
        everyNth workerCount.toNat k (stamped a taskSpecs) := by
  have hnil : List.replicate workerCount.toNat [] = (List.range workerCount.toNat).map fun k =>
      everyNth workerCount.toNat k (stamped a []) := by
    refine (eq_replicate_iff.mpr ⟨?_, ?_⟩).symm
    · rw [length_map, length_range]
    · intro l hl
      obtain ⟨k, -, rfl⟩ := mem_map.mp hl
      rfl
  have hdeal := dealLoop_spec a hw taskSpecs [] (by rw [length_nil]; omega)
  unfold buildWorkloadSpecs
  rw [hnil]
  rw [length_nil, nil_append] at hdeal
  rw [hdeal]
  refine ⟨_, rfl, ?_⟩
  rw [map_map]
  exact zipIdx_map_fst 0 _

theorem buildWorkloadSpecs_zero (hne : taskSpecs ≠ []) :
    buildWorkloadSpecs a taskSpecs 0 = none := by
  cases taskSpecs with
  | nil => exact absurd rfl hne
  | cons ts rest => rfl

/-! ### The worker count -/

/-- The larger of the two quotients, rounded up. -/
def shardCount (taskSpecs : List TaskSpec) (maxTasksPerWorker workerRPSCapacity : Nat) : Nat :=
  max ((taskSpecs.length + maxTasksPerWorker - 1) / maxTasksPerWorker)
    ((rateSum taskSpecs + workerRPSCapacity - 1) / workerRPSCapacity)

/-- The limits for which the machine arithmetic gives `shardCount`.  A task limit within
`n` of `2 ^ 63` overflows the sum; then the quotient is `-1`, or it is `0` and the rate
decides. -/
def Exact (taskSpecs : List TaskSpec) (maxTasksPerWorker : Int64) (workerRPSCapacity : UInt64) :
    Prop :=
  taskSpecs.length + maxTasksPerWorker.toInt ≤ 2 ^ 63 ∨
    (2 ^ 64 + 1 < 2 * maxTasksPerWorker.toInt + taskSpecs.length ∧ 0 < rateSum taskSpecs ∧
      rateSum taskSpecs + workerRPSCapacity.toNat ≤ 2 ^ 64)

theorem rateSum_concat (ts : TaskSpec) : rateSum (l ++ [ts]) = rateSum l + ts.targetRPS.toNat := by
  rw [rateSum, map_append, sum_append, map_singleton, sum_singleton, rateSum]

theorem rateSum_le : ∀ {l : List TaskSpec}, (∀ ts ∈ l, ts.targetRPS.toNat ≤ cap) →
    rateSum l ≤ l.length * cap := by
  intro l h
  have hsum := sum_le_card_nsmul (l.map (·.targetRPS.toNat)) cap (by
    intro x hx
    obtain ⟨ts, hts, rfl⟩ := mem_map.mp hx
    exact h ts hts)
  rwa [length_map, smul_eq_mul] at hsum

theorem toNat_totalTargetRPS : (totalTargetRPS l).toNat = rateSum l % 2 ^ 64 := by
  induction l using reverseRecOn with
  | nil => rfl
  | append_singleton l ts ih =>
    rw [totalTargetRPS, foldl_append, foldl_cons, foldl_nil, UInt64.toNat_add,
      rateSum_concat, UInt32.toNat_toUInt64]
    rw [totalTargetRPS] at ih
    rw [ih, Nat.mod_add_mod]

theorem toInt_sum_sub_one {m : Int64} (hn : 0 < n) (hlt : n < 2 ^ 31) (hm : 0 < m.toInt) :
    (Int64.ofNat n + m - 1).toInt =
      if n + m.toInt ≤ 2 ^ 63 then n + m.toInt - 1 else n + m.toInt - 1 - 2 ^ 64 := by
  have hnInt : (Int64.ofNat n).toInt = n := Int64.toInt_ofNat_of_lt (by omega)
  have hmax := m.toInt_lt
  have hone : (1 : Int64).toInt = 1 := rfl
  rw [Int64.toInt_sub, Int64.toInt_add, hnInt, hone, Int.bmod_sub_bmod, Int.bmod_def]
  split_ifs <;> omega

theorem ceil_le (hn : 0 < n) (hm : 0 < m) : (n + m - 1) / m ≤ n := by
  refine Nat.div_le_of_le_mul ?_
  obtain ⟨n, rfl⟩ := Nat.exists_eq_succ_of_ne_zero hn.ne'
  obtain ⟨m, rfl⟩ := Nat.exists_eq_succ_of_ne_zero hm.ne'
  calc n.succ + m.succ - 1 = n + m.succ := by omega
    _ ≤ m.succ * n + m.succ := by
      have := Nat.le_mul_of_pos_left n (Nat.succ_pos m)
      omega
    _ = m.succ * n.succ := (Nat.mul_succ _ _).symm

/-- The quotient of `computeWorkerCount`. -/
theorem toInt_count (hn : 0 < n) (hlt : n < 2 ^ 31) (hx : x.toInt = m) (hm : 0 < m) :
    ((Int64.ofNat n + x - 1) / x).toInt =
      if n + m ≤ 2 ^ 63 then (((n + m - 1) / m : Nat) : Int)
      else if 2 * m + n ≤ 2 ^ 64 + 1 then -1 else 0 := by
  have hmax : (m : Int) < 2 ^ 63 := hx ▸ x.toInt_lt
  have hsum := toInt_sum_sub_one hn hlt (hx ▸ Int.natCast_pos.mpr hm)
  rw [Int64.toInt_div, hsum, hx]
  by_cases hfit : n + m ≤ 2 ^ 63
  · have hcast : (n : Int) + m - 1 = ((n + m - 1 : Nat) : Int) := by omega
    have hle := ceil_le hn hm
    rw [if_pos hfit, if_pos (by omega), hcast, ← Int.ofNat_tdiv]
    generalize (n + m - 1) / m = q at hle ⊢
    rw [Int.bmod_eq_of_le] <;> omega
  have hcast : (n : Int) + m - 1 - 2 ^ 64 = -((2 ^ 64 + 1 - n - m : Nat) : Int) := by omega
  rw [if_neg hfit, if_neg (by omega), hcast, Int.neg_tdiv, ← Int.ofNat_tdiv]
  split_ifs with hbig
  · have hone : (2 ^ 64 + 1 - n - m) / m = 1 := Nat.div_eq_of_lt_le (by omega) (by omega)
    rw [hone]
    rfl
  · have hzero : (2 ^ 64 + 1 - n - m) / m = 0 := Nat.div_eq_of_lt (by omega)
    rw [hzero]
    rfl

theorem toNat_computeWorkerCount (hn : 0 < n) (hlt : n < 2 ^ 31) (hx : x.toInt = m) (hm : 0 < m) :
    (computeWorkerCount (Int64.ofNat n) x).toNat =
      if n + m ≤ 2 ^ 63 then (n + m - 1) / m
      else if 2 * m + n ≤ 2 ^ 64 + 1 then 2 ^ 32 - 1 else 0 := by
  have hnInt : (Int64.ofNat n).toInt = n := Int64.toInt_ofNat_of_lt (by omega)
  have hn0 : ¬ Int64.ofNat n ≤ 0 := by
    rw [Int64.le_iff_toInt_le, hnInt]
    exact not_le.mpr (Int.natCast_pos.mpr hn)
  have hx0 : ¬ x ≤ 0 := by
    rw [Int64.le_iff_toInt_le, hx]
    exact not_le.mpr (Int.natCast_pos.mpr hm)
  unfold computeWorkerCount
  rw [if_neg hn0, if_neg hx0]
  dsimp only
  rw [toInt_count hn hlt hx hm]
  have hle := ceil_le hn hm
  unfold UInt32.ofInt
  rw [UInt32.toNat_ofNat']
  split_ifs
  · generalize (n + m - 1) / m = q at hle ⊢
    omega
  · rfl
  · rfl

theorem toNat_byRate {total : Nat} {t cap : UInt64} (ht : t.toNat = total) (hcap : cap ≠ 0)
    (hpos : 0 < total) (hlt : total < 2 ^ 63) :
    ((t + cap - 1) / cap).toNat =
      if total + cap.toNat ≤ 2 ^ 64 then (total + cap.toNat - 1) / cap.toNat else 0 := by
  have hc : 0 < cap.toNat := Nat.pos_of_ne_zero fun h => hcap (UInt64.toNat_inj.mp h)
  have hmax := cap.toNat_lt
  have hone : (1 : UInt64).toNat = 1 := rfl
  rw [UInt64.toNat_div, UInt64.toNat_sub, UInt64.toNat_add, ht, hone]
  split_ifs with hfit
  · congr 1
    omega
  · exact Nat.div_eq_of_lt (by omega)

theorem toNat_computeWorkerCountForLoad (n x : Int64) (t cap : UInt64)
    (hrate : ¬ (cap = 0 ∨ t = 0) → ((t + cap - 1) / cap).toNat < 2 ^ 32) :
    (computeWorkerCountForLoad n t x cap).toNat =
      if cap = 0 ∨ t = 0 then (computeWorkerCount n x).toNat
      else max (computeWorkerCount n x).toNat ((t + cap - 1) / cap).toNat := by
  unfold computeWorkerCountForLoad
  dsimp only
  split_ifs with hzero hgt
  · rfl
  · rw [gt_iff_lt, UInt64.lt_iff_toNat_lt, UInt32.toNat_toUInt64] at hgt
    rw [max_eq_right hgt.le, UInt64.toNat_toUInt32, Nat.mod_eq_of_lt (hrate hzero)]
  · rw [gt_iff_lt, UInt64.lt_iff_toNat_lt, UInt32.toNat_toUInt64] at hgt
    rw [max_eq_left (not_lt.mp hgt)]

section

variable {taskSpecs : List TaskSpec} {maxTasksPerWorker : Int64} {workerRPSCapacity : UInt64}

/-- **The worker count** is `shardCount` in the exact range; outside of it there is no
worker, or there are more workers than tasks. -/
theorem workerCount_spec (hne : taskSpecs ≠ []) (hlen : taskSpecs.length < 2 ^ 31)
    (hmax : 1 ≤ maxTasksPerWorker.toInt)
    (hcap : ∀ ts ∈ taskSpecs, ts.targetRPS.toNat ≤ workerRPSCapacity.toNat) :
    let workerCount := (computeWorkerCountForLoad (Int64.ofNat taskSpecs.length)
      (totalTargetRPS taskSpecs) maxTasksPerWorker workerRPSCapacity).toNat
    (Exact taskSpecs maxTasksPerWorker workerRPSCapacity ∧ workerCount =
        shardCount taskSpecs maxTasksPerWorker.toInt.toNat workerRPSCapacity.toNat) ∨
      (¬ Exact taskSpecs maxTasksPerWorker workerRPSCapacity ∧
        (workerCount = 0 ∨ taskSpecs.length < workerCount)) := by
  have hn : 0 < taskSpecs.length := length_pos_iff.mpr hne
  have htotal : rateSum taskSpecs ≤ taskSpecs.length * (2 ^ 32 - 1) :=
    rateSum_le fun ts _ => Nat.le_sub_one_of_lt ts.targetRPS.toNat_lt
  have hle : rateSum taskSpecs ≤ taskSpecs.length * workerRPSCapacity.toNat := rateSum_le hcap
  have ht : (totalTargetRPS taskSpecs).toNat = rateSum taskSpecs := by
    rw [toNat_totalTargetRPS]
    omega
  obtain ⟨m, hm⟩ := Int.eq_ofNat_of_zero_le (le_trans zero_le_one hmax)
  have hmpos : 0 < m := by omega
  have hmlt : (m : Int) < 2 ^ 63 := hm ▸ maxTasksPerWorker.toInt_lt
  have hT := toNat_computeWorkerCount hn hlen hm hmpos
  have hone : 1 ≤ (taskSpecs.length + m - 1) / m := Nat.div_pos (by omega) hmpos
  have hzero : (workerRPSCapacity = 0 ∨ totalTargetRPS taskSpecs = 0) ↔ rateSum taskSpecs = 0 := by
    rw [← UInt64.toNat_inj, ← UInt64.toNat_inj, ht]
    refine ⟨fun h => h.elim (fun h => ?_) id, .inr⟩
    have h : workerRPSCapacity.toNat = 0 := h
    rw [h, Nat.mul_zero] at hle
    exact Nat.le_zero.mp hle
  unfold Exact shardCount
  rw [hm, Int.toNat_natCast]
  by_cases h0 : rateSum taskSpecs = 0
  · have hrate : (rateSum taskSpecs + workerRPSCapacity.toNat - 1) / workerRPSCapacity.toNat = 0 := by
      rw [h0, Nat.div_eq_zero_iff]
      omega
    rw [toNat_computeWorkerCountForLoad _ _ _ _ (fun h => absurd (hzero.mpr h0) h),
      if_pos (hzero.mpr h0), hT, hrate, max_eq_left (Nat.zero_le _), h0]
    split_ifs <;> omega
  have hcap0 : workerRPSCapacity ≠ 0 := fun h => h0 (hzero.mp (.inl h))
  have hcpos : 0 < workerRPSCapacity.toNat :=
    Nat.pos_of_ne_zero fun h => hcap0 (UInt64.toNat_inj.mp h)
  have hR := toNat_byRate ht hcap0 (Nat.pos_of_ne_zero h0) (by omega)
  have hRle : (rateSum taskSpecs + workerRPSCapacity.toNat - 1) / workerRPSCapacity.toNat
      ≤ taskSpecs.length := by
    refine Nat.le_of_lt_succ ((Nat.div_lt_iff_lt_mul hcpos).mpr ?_)
    rw [Nat.succ_mul]
    omega
  have hRone : 1 ≤ (rateSum taskSpecs + workerRPSCapacity.toNat - 1) / workerRPSCapacity.toNat :=
    Nat.div_pos (by omega) hcpos
  have hwrap : ¬ rateSum taskSpecs + workerRPSCapacity.toNat ≤ 2 ^ 64 →
      (rateSum taskSpecs + workerRPSCapacity.toNat - 1) / workerRPSCapacity.toNat = 1 :=
    fun h => Nat.div_eq_of_lt_le (by omega) (by omega)
  have hTone : ¬ taskSpecs.length + m ≤ 2 ^ 63 → (taskSpecs.length + m - 1) / m = 1 :=
    fun h => Nat.div_eq_of_lt_le (by omega) (by omega)
  rw [toNat_computeWorkerCountForLoad, if_neg (fun h => h0 (hzero.mp h)), hT, hR]
  · generalize (rateSum taskSpecs + workerRPSCapacity.toNat - 1) / workerRPSCapacity.toNat = R
      at hRle hRone hwrap ⊢
    generalize (taskSpecs.length + m - 1) / m = T at hone hTone ⊢
    split_ifs <;> omega
  · intro _
    rw [hR]
    generalize (rateSum taskSpecs + workerRPSCapacity.toNat - 1) / workerRPSCapacity.toNat = R
      at hRle ⊢
    split_ifs <;> omega

variable {a : Assignment}

/-- The specs of a plan with `w` workers. -/
theorem planned (hw : workerCount ≠ 0) (hlen : taskSpecs.length < 2 ^ 31) :
    ∃ specs, buildWorkloadSpecs a taskSpecs workerCount = some specs ∧
      (specs.flatMap (·.tasks)).Perm (stamped a taskSpecs) ∧
      (∀ s ∈ specs, ∃ k < workerCount.toNat,
        s.tasks = everyNth workerCount.toNat k (stamped a taskSpecs)) ∧
      ∀ k < workerCount.toNat, ∃ s ∈ specs,
        s.tasks = everyNth workerCount.toNat k (stamped a taskSpecs) := by
  have hle : taskSpecs.length ≤ 2 ^ 32 := by omega
  obtain ⟨specs, hspecs, htasks⟩ := buildWorkloadSpecs_spec a hw hle
  have hpos : 0 < workerCount.toNat := Nat.pos_of_ne_zero fun h => hw (UInt32.toNat_inj.mp h)
  refine ⟨specs, hspecs, ?_, ?_, ?_⟩
  · have hflat := flatMap_everyNth_perm hpos (stamped a taskSpecs)
    rw [flatMap_def, ← htasks, ← flatMap_def] at hflat
    exact hflat
  · intro s hs
    have hmem : s.tasks ∈ specs.map (·.tasks) := mem_map_of_mem hs
    rw [htasks] at hmem
    obtain ⟨k, hk, heq⟩ := mem_map.mp hmem
    exact ⟨k, mem_range.mp hk, heq.symm⟩
  intro k hk
  have hmem : everyNth workerCount.toNat k (stamped a taskSpecs) ∈ specs.map (·.tasks) := by
    rw [htasks]
    exact mem_map.mpr ⟨k, mem_range.mpr hk, rfl⟩
  obtain ⟨s, hs, heq⟩ := mem_map.mp hmem
  exact ⟨s, hs, heq⟩

theorem shardCount_le (hne : taskSpecs ≠ []) (hm : 0 < m)
    (hcap : ∀ ts ∈ taskSpecs, ts.targetRPS.toNat ≤ cap) :
    shardCount taskSpecs m cap ≤ taskSpecs.length := by
  have hrate : rateSum taskSpecs ≤ taskSpecs.length * cap := rateSum_le hcap
  refine max_le (ceil_le (length_pos_iff.mpr hne) hm) ?_
  rcases Nat.eq_zero_or_pos cap with rfl | hpos
  · rw [Nat.div_zero]
    exact Nat.zero_le _
  · refine Nat.le_of_lt_succ ((Nat.div_lt_iff_lt_mul hpos).mpr ?_)
    rw [Nat.succ_mul]
    omega

theorem length_le_mul_shardCount (taskSpecs : List TaskSpec) (hm : 0 < m) (cap : Nat) :
    taskSpecs.length ≤ m * shardCount taskSpecs m cap := by
  have hceil : taskSpecs.length ≤ m * ((taskSpecs.length + m - 1) / m) := by
    have hdiv := Nat.div_add_mod (taskSpecs.length + m - 1) m
    have hmod := Nat.mod_lt (taskSpecs.length + m - 1) hm
    omega
  exact hceil.trans (Nat.mul_le_mul_left m (le_max_left _ _))

/-- The rates at the positions `k`, `k + w`, `k + 2 * w` and so on stay within the capacity,
for each of the `w` shards. -/
def RatesFit (taskSpecs : List TaskSpec) (maxTasksPerWorker workerRPSCapacity : Nat) : Prop :=
  ∀ k < shardCount taskSpecs maxTasksPerWorker workerRPSCapacity,
    rateSum (everyNth (shardCount taskSpecs maxTasksPerWorker workerRPSCapacity) k taskSpecs)
      ≤ workerRPSCapacity

instance (taskSpecs : List TaskSpec) (m cap : Nat) : Decidable (RatesFit taskSpecs m cap) :=
  inferInstanceAs (Decidable (∀ k < _, _))

theorem runnable_of_ratesFit {specs : List WorkloadSpec} (hne : taskSpecs ≠ []) (hm : maxTasksPerWorker.toInt = m) (hpos : 0 < m)
    (hcap : ∀ ts ∈ taskSpecs, ts.targetRPS.toNat ≤ workerRPSCapacity.toNat)
    (hcount : workerCount.toNat = shardCount taskSpecs m workerRPSCapacity.toNat)
    (hfit : RatesFit taskSpecs m workerRPSCapacity.toNat)
    (hperm : (specs.flatMap (·.tasks)).Perm (stamped a taskSpecs))
    (hspecs : ∀ s ∈ specs, ∃ k < workerCount.toNat,
      s.tasks = everyNth workerCount.toNat k (stamped a taskSpecs)) :
    Runnable a taskSpecs maxTasksPerWorker workerRPSCapacity specs := by
  have hwle := shardCount_le hne hpos hcap
  have hmul := length_le_mul_shardCount taskSpecs hpos workerRPSCapacity.toNat
  rw [← hcount] at hwle hmul
  refine ⟨hperm, ?_, ?_, ?_⟩
  · intro s hs hnil
    obtain ⟨k, hk, htasks⟩ := hspecs s hs
    have hlen := (length_everyNth hk (stamped a taskSpecs)).1
    rw [← htasks, hnil, length_nil, length_stamped] at hlen
    omega
  · intro s hs
    obtain ⟨k, hk, htasks⟩ := hspecs s hs
    have hlen := (length_everyNth hk (stamped a taskSpecs)).2
    rw [← htasks, length_stamped] at hlen
    rw [hm]
    by_contra hgt
    have hmore : (m + 1) * workerCount.toNat ≤ s.tasks.length * workerCount.toNat :=
      Nat.mul_le_mul_right _ (by omega)
    rw [Nat.succ_mul] at hmore
    omega
  · intro s hs
    obtain ⟨k, hk, htasks⟩ := hspecs s hs
    rw [htasks, rateSum_everyNth_stamped, hcount]
    exact hfit k (hcount ▸ hk)

/-- **When the shards are runnable.**  The task counts always come out right; the rates do
if, and for scenarios of less than `2 ^ 31` tasks only if, the rates at each shard's
positions add up to no more than a worker's capacity. -/
theorem shards_runnable_iff (a : Assignment) (hne : taskSpecs ≠ [])
    (hmax : 1 ≤ maxTasksPerWorker.toInt)
    (hcap : ∀ ts ∈ taskSpecs, ts.targetRPS.toNat ≤ workerRPSCapacity.toNat) :
    let runnable := ∃ specs, planShards a taskSpecs maxTasksPerWorker workerRPSCapacity = some specs ∧
      Runnable a taskSpecs maxTasksPerWorker workerRPSCapacity specs
    let fit := Exact taskSpecs maxTasksPerWorker workerRPSCapacity ∧
      RatesFit taskSpecs maxTasksPerWorker.toInt.toNat workerRPSCapacity.toNat
    (taskSpecs.length < 2 ^ 31 ∧ fit → runnable) ∧
      (runnable → taskSpecs.length < 2 ^ 31 → fit) := by
  intro runnable fit
  obtain ⟨m, hm⟩ := Int.eq_ofNat_of_zero_le (le_trans zero_le_one hmax)
  have hpos : 0 < m := by omega
  constructor
  · rintro ⟨hlen, hexact, hfit⟩
    rcases workerCount_spec hne hlen hmax hcap with ⟨-, hcount⟩ | ⟨hnot, -⟩
    · rw [hm, Int.toNat_natCast] at hcount hfit
      have hmul := length_le_mul_shardCount taskSpecs hpos workerRPSCapacity.toNat
      have hw : computeWorkerCountForLoad (Int64.ofNat taskSpecs.length)
          (totalTargetRPS taskSpecs) maxTasksPerWorker workerRPSCapacity ≠ 0 := by
        intro hzero
        rw [← hcount, hzero] at hmul
        exact hne (length_eq_zero_iff.mp (Nat.le_zero.mp hmul))
      obtain ⟨specs, hplan, hperm, hspecs, -⟩ := planned (a := a) hw hlen
      exact ⟨specs, hplan, runnable_of_ratesFit hne hm hpos hcap hcount hfit hperm hspecs⟩
    · exact absurd hexact hnot
  rintro ⟨specs, hplan, hrun⟩ hlen
  have hw : computeWorkerCountForLoad (Int64.ofNat taskSpecs.length)
      (totalTargetRPS taskSpecs) maxTasksPerWorker workerRPSCapacity ≠ 0 := by
    intro hzero
    rw [planShards, hzero, buildWorkloadSpecs_zero a hne] at hplan
    cases hplan
  obtain ⟨specs', hplan', -, -, hhands⟩ := planned (a := a) hw hlen
  obtain rfl : specs' = specs := Option.some.inj (hplan'.symm.trans hplan)
  rcases workerCount_spec hne hlen hmax hcap with ⟨hexact, hcount⟩ | ⟨-, hzero | hmore⟩
  · refine ⟨hexact, fun k hk => ?_⟩
    rw [← hcount] at hk ⊢
    obtain ⟨s, hs, htasks⟩ := hhands k hk
    rw [← rateSum_everyNth_stamped a, ← htasks]
    exact hrun.rate_le s hs
  · exact absurd (UInt32.toNat_inj.mp hzero) hw
  · -- the worker at the index past the last task gets none
    obtain ⟨s, hs, htasks⟩ := hhands taskSpecs.length hmore
    rw [everyNth_eq_nil hmore (length_stamped a taskSpecs).le] at htasks
    exact absurd htasks (hrun.nonempty s hs)

end

/-- A task of the given rate. -/
def taskOfRate (targetRPS : UInt32) : TaskSpec :=
  { taskID := 0, profile := "hft", targetRPS := targetRPS, startOffsetNs := 0, durationNs := 1,
    marketPct := 0, cancelPct := 0, replacePct := 0, targetIdx := 0, smpIDCount := 0 }

/-- A session with the one target FIX. -/
def fixAssignment : Assignment :=
  { sessionID := "s", submissionID := "sub", contestantID := "c", targetHost := "10.0.0.1",
    legacyTarget := ⟨"FIX", 9898⟩, otherTargets := [], globalSeed := 1, fixVersion := "FIX.4.4",
    connectTimeoutMS := 1, writeTimeoutMS := 1, publishedAtUnixNS := 1, orderBand := 0 }

theorem shards_runnable_evenHands :
    ([10, 10, 1, 1].map taskOfRate ≠ [] ∧ 1 ≤ (1000 : Int64).toInt ∧
      ∀ ts ∈ [10, 10, 1, 1].map taskOfRate, ts.targetRPS.toNat ≤ (11 : UInt64).toNat) ∧
    ∃ specs, planShards fixAssignment ([10, 10, 1, 1].map taskOfRate) 1000 11 = some specs ∧
      Runnable fixAssignment ([10, 10, 1, 1].map taskOfRate) 1000 11 specs :=
  ⟨by decide, (shards_runnable_iff fixAssignment (by decide) (by decide) (by decide)).1
    ⟨by decide, .inl (by decide), by decide +kernel⟩⟩

/-- Two heavy tasks and two light ones, dealt so that one worker gets both heavy ones. -/
theorem shards_heavyHand :
    (planShards fixAssignment ([10, 1, 10, 1].map taskOfRate) 1000 11).map
      (fun specs => specs.map fun s => rateSum s.tasks) = some [20, 2] ∧
    ¬ ∃ specs, planShards fixAssignment ([10, 1, 10, 1].map taskOfRate) 1000 11 = some specs ∧
      Runnable fixAssignment ([10, 1, 10, 1].map taskOfRate) 1000 11 specs := by
  have hloads : (planShards fixAssignment ([10, 1, 10, 1].map taskOfRate) 1000 11).map
      (fun specs => specs.map fun s => rateSum s.tasks) = some [20, 2] := by decide +kernel
  refine ⟨hloads, ?_⟩
  rintro ⟨specs, hplan, hrun⟩
  rw [hplan, Option.map_some] at hloads
  have hmem : 20 ∈ specs.map fun s => rateSum s.tasks :=
    Option.some.inj hloads ▸ (.head _)
  obtain ⟨s, hs, hload⟩ := mem_map.mp hmem
  exact absurd (hload ▸ hrun.rate_le s hs) (by decide)

end MatchBench.Controller
