import MatchBench.Score.Final
import MatchBench.Validate.Entries

/-!
# The summary of a session

The validator stores a row of `correctness_summary` for each session (`internal/store/postgres.go`):
a placeholder when the validation times out, and the counters of the report when it is done.  `save`
is one statement, an insert that replaces nothing but a placeholder, and that only by a scored row.
So a row goes through the stages absent, placeholder and scored, and a `save` that writes moves it
up (`stage_save`): whatever calls are made, one of them at most claims the session, and then
the row is final (`summary_final`).

The leaderboard reads the counters of each class back (`violationCounts`).  They are converted to 64
bits with a sign, and below the limit nothing is lost.  The classes of `violation_count` are all
among them, but so are the fills of unknown orders, which it does not count
(`breakdown_adds_iff`).
-/

namespace MatchBench.Validate

open List AList Int64
open Service (SummaryStatus)

/-- `store.Record`; a record without a status is a scored one. -/
structure Record where
  sessionID : String
  contestantID : String
  report : Report
  status : Option SummaryStatus := none
  sentCount : UInt64 := 0
  ackedCount : UInt64 := 0
  matchedCount : UInt64 := 0
  computedAtNS : UInt64 := 0

/-- A row of `correctness_summary`. -/
structure SummaryRow where
  contestantID : String
  validFills : Int64
  totalFills : Int64
  correctnessScore : ℚ
  violationCount : Int64
  phantomFills : Int64
  overfills : Int64
  priceViolations : Int64
  computedAtNS : Int64
  status : SummaryStatus
  sentCount : Int64
  ackedCount : Int64
  matchedCount : Int64
  timeViolations : Int64
  selfTrades : Int64
  cancelReplaceLoss : Int64
  missedFills : Int64
  lostOrders : Int64
  lostCancels : Int64
  createdAt : Nat
  deriving DecidableEq

abbrev SummaryTable := GoMap String SummaryRow

namespace Record

variable (rec : Record)

def finalStatus : SummaryStatus := rec.status.getD .scored

/-- The time violations that are no losses on a replace. -/
def timeCount : Int64 :=
  let timeCount := Int64.ofNat rec.report.timeViolations - Int64.ofNat rec.report.cancelReplaceLosses
  if timeCount < 0 then 0 else timeCount

/-- The row of a record that is inserted at `now`. -/
def row (now : Nat) : SummaryRow where
  contestantID := rec.contestantID
  validFills := Int64.ofNat rec.report.validFills
  totalFills := Int64.ofNat rec.report.totalFills
  correctnessScore := rec.report.correctnessScore
  violationCount := Int64.ofNat rec.report.totalViolations
  phantomFills := Int64.ofNat rec.report.phantomFills
  overfills := Int64.ofNat rec.report.overfills
  priceViolations := Int64.ofNat rec.report.priceViolations
  computedAtNS := rec.computedAtNS.toInt64
  status := rec.finalStatus
  sentCount := rec.sentCount.toInt64
  ackedCount := rec.ackedCount.toInt64
  matchedCount := rec.matchedCount.toInt64
  timeViolations := rec.timeCount
  selfTrades := Int64.ofNat rec.report.selfTrades
  cancelReplaceLoss := Int64.ofNat rec.report.cancelReplaceLosses
  missedFills := Int64.ofNat rec.report.missedFills
  lostOrders := Int64.ofNat rec.report.lostOrders
  lostCancels := Int64.ofNat rec.report.lostCancels
  createdAt := now

end Record

namespace SummaryTable

/-- `Save`: the table afterwards, and whether a row was written.  An update keeps the time of the
insert. -/
def save (t : SummaryTable) (rec : Record) (now : Nat) : SummaryTable × Bool :=
  match t.lookup rec.sessionID with
  | none => (t.insert rec.sessionID (rec.row now), true)
  | some old =>
      if old.status = .timedOut ∧ rec.finalStatus = .scored then
        (t.insert rec.sessionID { rec.row now with createdAt := old.createdAt }, true)
      else (t, false)

/-! ### The stages of a row -/

/-- The stage of a row: absent, a placeholder, scored. -/
def stage : Option SummaryRow → Nat
  | none => 0
  | some row => if row.status = .timedOut then 1 else 2

section

variable {t : SummaryTable} {rec : Record} {now : Nat} {sessionID : String} {row : SummaryRow}

theorem stage_eq_two {x : Option SummaryRow} : stage x = 2 ↔ ∃ row, x = some row ∧ row.status = .scored := by
  cases x with
  | none => exact ⟨fun h => absurd h (by decide), fun ⟨_, h, _⟩ => nomatch h⟩
  | some row =>
    rw [stage]
    cases hs : row.status with
    | scored => exact ⟨fun _ => ⟨row, rfl, hs⟩, fun _ => rfl⟩
    | timedOut =>
      refine ⟨fun h => absurd h (by decide), ?_⟩
      rintro ⟨r, hr, hr'⟩
      rw [← Option.some.inj hr, hs] at hr'
      cases hr'

/-- **One `Save`** either leaves the table, or it writes the row of its own session, whose status
becomes that of the record. -/
theorem save_cases (t : SummaryTable) (rec : Record) (now : Nat) :
    t.save rec now = (t, false) ∨
      ∃ row, t.save rec now = (t.insert rec.sessionID row, true) ∧ row.status = rec.finalStatus ∧
        stage (t.lookup rec.sessionID) < stage (some row) := by
  rw [save]
  cases hl : t.lookup rec.sessionID with
  | none =>
    refine .inr ⟨_, rfl, rfl, ?_⟩
    rw [stage, stage]
    split_ifs <;> omega
  | some old =>
    dsimp only
    split_ifs with h
    · refine .inr ⟨_, rfl, rfl, ?_⟩
      rw [stage, stage, if_pos h.1, if_neg]
      · decide
      · change rec.finalStatus ≠ .timedOut
        rw [h.2]
        decide
    · exact .inl rfl

/-- **A row is only ever moved up**, by a `Save` of its session. -/
theorem stage_save (t : SummaryTable) (rec : Record) (now : Nat) (sessionID : String) :
    (t.save rec now).1.lookup sessionID = t.lookup sessionID ∨
      sessionID = rec.sessionID ∧ (t.save rec now).2 = true ∧
        stage (t.lookup sessionID) < stage ((t.save rec now).1.lookup sessionID) ∧
        ∃ row, (t.save rec now).1.lookup sessionID = some row ∧ row.status = rec.finalStatus := by
  rcases save_cases t rec now with h | ⟨row, h, hstatus, hstage⟩
  · rw [h]
    exact .inl rfl
  rw [h]
  by_cases hs : sessionID = rec.sessionID
  · subst hs
    rw [lookup_insert]
    exact .inr ⟨rfl, rfl, hstage, row, rfl, hstatus⟩
  · exact .inl (lookup_insert_ne hs)

theorem lookup_save_of_scored (hrow : t.lookup sessionID = some row) (hs : row.status = .scored)
    (rec : Record) (now : Nat) : (t.save rec now).1.lookup sessionID = some row := by
  rcases stage_save t rec now sessionID with h | ⟨_, _, h, _⟩
  · exact h.trans hrow
  have h2 := stage_eq_two.mpr ⟨row, hrow, hs⟩
  have hle : stage ((t.save rec now).1.lookup sessionID) ≤ 2 := by
    cases (t.save rec now).1.lookup sessionID with
    | none => decide
    | some r =>
      rw [stage]
      split_ifs <;> decide
  omega

theorem lookup_save_of_timedOut (hrow : t.lookup sessionID = some row)
    (hrec : rec.finalStatus = .timedOut) (now : Nat) :
    (t.save rec now).1.lookup sessionID = some row := by
  rcases stage_save t rec now sessionID with h | ⟨_, _, h, new, hnew, hs⟩
  · exact h.trans hrow
  · rw [hrow, hnew, stage, stage, hs, if_pos hrec] at h
    split_ifs at h <;> omega

end

end SummaryTable

/-! ### Interleaved calls -/

/-- How a call ends: answered, or with an error after the statement has run, or before. -/
inductive Outcome
  | answered
  | unanswered
  | failed
  deriving DecidableEq

structure SaveCall where
  record : Record
  now : Nat
  outcome : Outcome

namespace SaveCall

/-- The table after the call, and what the call returns if it is no error. -/
def run (t : SummaryTable) (c : SaveCall) : SummaryTable × Option Bool :=
  match c.outcome with
  | .answered => ((t.save c.record c.now).1, some (t.save c.record c.now).2)
  | .unanswered => ((t.save c.record c.now).1, none)
  | .failed => (t, none)

/-- The table after calls in the order in which their statements are executed. -/
def runAll (t : SummaryTable) (calls : List SaveCall) : SummaryTable :=
  calls.foldl (fun t c => (c.run t).1) t

/-- The call of a scored record that is told it has claimed the session. -/
def Claims (sessionID : String) (t : SummaryTable) (c : SaveCall) : Prop :=
  c.record.sessionID = sessionID ∧ c.record.finalStatus = .scored ∧ (c.run t).2 = some true
  deriving Decidable

/-- How many calls claim the session. -/
def claims (sessionID : String) : SummaryTable → List SaveCall → Nat
  | _, [] => 0
  | t, c :: calls => (if c.Claims sessionID t then 1 else 0) + claims sessionID (c.run t).1 calls

variable {t : SummaryTable} {sessionID : String} {row : SummaryRow}

theorem run_table (t : SummaryTable) (c : SaveCall) :
    (c.run t).1 = t ∨ (c.run t).1 = (t.save c.record c.now).1 := by
  rw [run]
  cases c.outcome with
  | answered | unanswered => exact .inr rfl
  | failed => exact .inl rfl

theorem lookup_run_of_scored (hrow : t.lookup sessionID = some row) (hs : row.status = .scored)
    (c : SaveCall) : (c.run t).1.lookup sessionID = some row := by
  rcases run_table t c with h | h
  · rw [h]
    exact hrow
  · rw [h]
    exact SummaryTable.lookup_save_of_scored hrow hs c.record c.now

variable {c : SaveCall}

theorem lookup_run_of_timedOut (hrow : t.lookup sessionID = some row)
    (hc : c.record.finalStatus = .timedOut) : (c.run t).1.lookup sessionID = some row := by
  rcases run_table t c with h | h
  · rw [h]
    exact hrow
  · rw [h]
    exact SummaryTable.lookup_save_of_timedOut hrow hc c.now

theorem Claims.stage (h : c.Claims sessionID t) :
    SummaryTable.stage (t.lookup sessionID) < 2 ∧
      SummaryTable.stage ((c.run t).1.lookup sessionID) = 2 := by
  obtain ⟨rfl, hstatus, hrun⟩ := h
  have hanswer : c.run t = ((t.save c.record c.now).1, some (t.save c.record c.now).2) := by
    rw [run] at hrun ⊢
    cases ho : c.outcome with
    | answered => rfl
    | unanswered | failed =>
      rw [ho] at hrun
      cases hrun
  rw [hanswer] at hrun ⊢
  rcases SummaryTable.save_cases t c.record c.now with h | ⟨row, h, hrow, hstage⟩
  · rw [h] at hrun
    cases hrun
  · have h2 := SummaryTable.stage_eq_two.mpr ⟨row, rfl, hrow.trans hstatus⟩
    rw [h, lookup_insert]
    exact ⟨h2 ▸ hstage, h2⟩

theorem lookup_runAll_of_scored (calls : List SaveCall) (hrow : t.lookup sessionID = some row)
    (hs : row.status = .scored) : (runAll t calls).lookup sessionID = some row := by
  induction calls generalizing t with
  | nil => exact hrow
  | cons c calls ih => exact ih (lookup_run_of_scored hrow hs c)

theorem claims_of_scored (calls : List SaveCall) (hrow : t.lookup sessionID = some row)
    (hs : row.status = .scored) : claims sessionID t calls = 0 := by
  induction calls generalizing t with
  | nil => rfl
  | cons c calls ih =>
    have hno : ¬ c.Claims sessionID t := by
      intro h
      have h2 := SummaryTable.stage_eq_two.mpr ⟨row, hrow, hs⟩
      have hlt := h.stage.1
      omega
    rw [claims, if_neg hno, ih (lookup_run_of_scored hrow hs c)]

theorem claims_le_one (sessionID : String) (t : SummaryTable) (calls : List SaveCall) :
    claims sessionID t calls ≤ 1 := by
  induction calls generalizing t with
  | nil => exact Nat.zero_le 1
  | cons c calls ih =>
    rw [claims]
    split_ifs with h
    · obtain ⟨row, hrow, hs⟩ := SummaryTable.stage_eq_two.mp h.stage.2
      rw [claims_of_scored calls hrow hs]
    · rw [zero_add]
      exact ih _

end SaveCall

/-- **A claimed summary is final and claimed once.**  Of any calls of `Save`, in any order, at most
one claims the session; a scored row is the row ever after; and a placeholder never takes the place
of a row. -/
theorem summary_final (t : SummaryTable) (sessionID : String) (calls : List SaveCall) :
    SaveCall.claims sessionID t calls ≤ 1 ∧
    (∀ before after, calls = before ++ after → ∀ row,
      (SaveCall.runAll t before).lookup sessionID = some row → row.status = .scored →
        (SaveCall.runAll t calls).lookup sessionID = some row) ∧
    (∀ before c after, calls = before ++ c :: after → c.record.finalStatus = .timedOut → ∀ row,
      (SaveCall.runAll t before).lookup sessionID = some row →
        (SaveCall.runAll t (before ++ [c])).lookup sessionID = some row) := by
  refine ⟨SaveCall.claims_le_one sessionID t calls, ?_, ?_⟩
  · rintro before after rfl row hrow hs
    rw [SaveCall.runAll, foldl_append]
    exact SaveCall.lookup_runAll_of_scored after hrow hs
  · rintro before c after - hc row hrow
    rw [SaveCall.runAll, foldl_append]
    exact SaveCall.lookup_run_of_timedOut hrow hc

/-! ### What is read back -/

/-- A row as far as `LoadScore` reads it. -/
def SummaryRow.brief (row : SummaryRow) : Score.Summary where
  contestantID := row.contestantID
  validFills := row.validFills.toUInt64.toNat
  totalFills := row.totalFills.toUInt64.toNat
  correctnessScore := row.correctnessScore
  violationCount := row.violationCount.toUInt64.toNat
  computedAtNS := row.computedAtNS.toUInt64.toNat
  sentCount := row.sentCount.toUInt64.toNat
  ackedCount := row.ackedCount.toUInt64.toNat
  matchedCount := row.matchedCount.toUInt64.toNat
  status := row.status

/-- A record as far as it is read back, with counters of 64 bits. -/
def Record.brief (rec : Record) : Score.SummaryRecord where
  sessionID := rec.sessionID
  contestantID := rec.contestantID
  correct := ⟨rec.report.validFills % 2 ^ 64, rec.report.totalFills % 2 ^ 64,
    rec.report.totalViolations % 2 ^ 64, rec.sentCount.toNat, rec.ackedCount.toNat,
    rec.matchedCount.toNat, {}⟩
  correctnessScore := rec.report.correctnessScore
  computedAtNS := rec.computedAtNS.toNat
  status := rec.finalStatus

theorem Record.brief_row (rec : Record) (now : Nat) : (rec.row now).brief = rec.brief.row := by
  rw [row, SummaryRow.brief, brief, Score.SummaryRecord.row]
  simp [toUInt64_ofNat', UInt64.toUInt64_toInt64, UInt64.toNat_ofNat']

variable {t : SummaryTable} {cs : SummaryRow} {l : List ViolationCount} {rec : Record}

/-- **`Save` on the rows that are read back** is `Save` on whole rows. -/
theorem save_brief {u : Score.Summaries}
    (h : ∀ s, u.lookup s = (t.lookup s).map SummaryRow.brief) (rec : Record) (now : Nat) :
    (u.save rec.brief).2 = (t.save rec now).2 ∧
      ∀ s, (u.save rec.brief).1.lookup s = ((t.save rec now).1.lookup s).map SummaryRow.brief := by
  have hwrite : ∀ (row : SummaryRow), row.brief = rec.brief.row → ∀ s,
      (u.insert rec.sessionID rec.brief.row).lookup s =
        ((t.insert rec.sessionID row).lookup s).map SummaryRow.brief := by
    intro row hrow s
    by_cases hs : s = rec.sessionID
    · rw [hs, lookup_insert, lookup_insert, Option.map_some, hrow]
    · rw [lookup_insert_ne hs, lookup_insert_ne hs, h s]
  have hold : u.lookup rec.brief.sessionID = (t.lookup rec.sessionID).map SummaryRow.brief := h _
  rw [SummaryTable.save, Score.Summaries.save, hold]
  cases t.lookup rec.sessionID with
  | none => exact ⟨rfl, hwrite _ (rec.brief_row now)⟩
  | some old =>
    dsimp only [Option.map_some]
    by_cases hc : old.status = .timedOut ∧ rec.finalStatus = .scored
    · rw [if_pos hc, if_pos (show old.brief.status = _ ∧ rec.brief.status = _ from hc)]
      exact ⟨rfl, hwrite _ (rec.brief_row now)⟩
    · rw [if_neg hc, if_neg (show ¬ (old.brief.status = _ ∧ rec.brief.status = _) from hc)]
      exact ⟨rfl, h⟩

/-- **Any calls of `Save`**: the rows that are read back are those of the short table. -/
theorem saveAll_brief (calls : List (Record × Nat)) (s : String) :
    (calls.foldl (fun u c => (u.save c.1.brief).1) (∅ : Score.Summaries)).lookup s =
      ((calls.foldl (fun t c => (t.save c.1 c.2).1) (∅ : SummaryTable)).lookup s).map
        SummaryRow.brief := by
  induction calls using reverseRecOn generalizing s with
  | nil => rfl
  | append_singleton calls c ih =>
    rw [foldl_concat, foldl_concat]
    exact (save_brief ih c.1 c.2).2 s

/-! ### The breakdown of the violations -/

structure ViolationCount where
  sessionID : String
  violationType : String
  count : Int64
  deriving DecidableEq

/-- The classes of a row, as the leaderboard lists them. -/
def SummaryRow.counts (cs : SummaryRow) (sessionID : String) : List ViolationCount :=
  [⟨sessionID, "price", cs.priceViolations⟩, ⟨sessionID, "self_trade", cs.selfTrades⟩,
    ⟨sessionID, "phantom", cs.phantomFills⟩, ⟨sessionID, "time", cs.timeViolations⟩,
    ⟨sessionID, "cancel_replace_loss", cs.cancelReplaceLoss⟩,
    ⟨sessionID, "overfill", cs.overfills⟩, ⟨sessionID, "missed_fill", cs.missedFills⟩,
    ⟨sessionID, "lost_order", cs.lostOrders⟩, ⟨sessionID, "lost_cancel", cs.lostCancels⟩]

variable {sessionID : String}

theorem SummaryRow.sessionID_counts : ∀ c ∈ cs.counts sessionID, c.sessionID = sessionID := by
  intro c hc
  simp only [counts, mem_cons, not_mem_nil, or_false] at hc
  rcases hc with rfl | rfl | rfl | rfl | rfl | rfl | rfl | rfl | rfl <;> rfl

/-- `ViolationCounts`: the classes that occur, for the sessions of a run group. -/
def violationCounts (runs : Runs) (t : SummaryTable) (runGroupID : String) : List ViolationCount :=
  (runs.entries.filter (fun r => r.2.runGroupID = some runGroupID)).flatMap (fun r =>
    match t.lookup r.1 with
    | none => []
    | some cs => (cs.counts r.1).filter (fun c => 0 < c.count))

/-- The sum of the counts of a session. -/
def breakdown (counts : List ViolationCount) (sessionID : String) : Int :=
  ((counts.filter (fun c => c.sessionID = sessionID)).map (fun c => c.count.toInt)).sum

theorem breakdown_append (l m : List ViolationCount) (sessionID : String) :
    breakdown (l ++ m) sessionID = breakdown l sessionID + breakdown m sessionID := by
  rw [breakdown, filter_append, map_append, sum_append, breakdown, breakdown]

theorem breakdown_perm {l m : List ViolationCount} (h : l.Perm m) (sessionID : String) :
    breakdown l sessionID = breakdown m sessionID :=
  ((h.filter _).map _).sum_eq

theorem breakdown_of_ne (h : ∀ c ∈ l, c.sessionID ≠ sessionID) : breakdown l sessionID = 0 := by
  have hnone : l.filter (fun c => c.sessionID = sessionID) = [] :=
    filter_eq_nil_iff.mpr fun c hc => by simpa using h c hc
  rw [breakdown, hnone]
  rfl

theorem breakdown_filter (hid : ∀ c ∈ l, c.sessionID = sessionID)
    (hpos : ∀ c ∈ l, 0 ≤ c.count.toInt) :
    breakdown (l.filter (fun c => 0 < c.count)) sessionID = (l.map (fun c => c.count.toInt)).sum := by
  induction l with
  | nil => rfl
  | cons c l ih =>
    obtain ⟨hc, hl⟩ := forall_mem_cons.mp hid
    obtain ⟨hc0, hl0⟩ := forall_mem_cons.mp hpos
    have hone : breakdown [c] sessionID = c.count.toInt := by
      rw [breakdown, filter_cons_of_pos (by simpa using hc)]
      exact sum_singleton
    rw [map_cons, sum_cons, ← ih hl hl0]
    by_cases hlt : 0 < c.count
    · rw [filter_cons_of_pos (by simpa using hlt), ← singleton_append, breakdown_append, hone]
    have hzero : c.count.toInt = 0 := by
      have hle := lt_iff_toInt_lt.not.mp hlt
      rw [toInt_zero] at hle
      omega
    rw [filter_cons_of_neg (by simpa using hlt), hzero, Int.zero_add]

theorem breakdown_violationCounts {runs : Runs} {runGroupID sessionID : String}
    {run : Run} (hrun : runs.lookup sessionID = some run)
    (hgroup : run.runGroupID = some runGroupID) (hcs : t.lookup sessionID = some cs) :
    breakdown (violationCounts runs t runGroupID) sessionID =
      breakdown ((cs.counts sessionID).filter (fun c => 0 < c.count)) sessionID := by
  have hperm := ((entries_perm_of_lookup hrun).filter
    (fun r => r.2.runGroupID = some runGroupID)).flatMap_right (fun r =>
      match t.lookup r.1 with
      | none => []
      | some cs => (cs.counts r.1).filter (fun c => 0 < c.count))
  rw [violationCounts, breakdown_perm hperm, filter_cons_of_pos (by simpa using hgroup),
    flatMap_cons, breakdown_append]
  rw [hcs]
  refine add_eq_left.mpr (breakdown_of_ne fun c hc => ?_)
  obtain ⟨r, hr, hc⟩ := mem_flatMap.mp hc
  have hne : r.1 ≠ sessionID := by
    have hlook := AList.mem_lookup_iff.mpr (mem_filter.mp hr).1
    exact (lookup_erase_eq_some hlook).1
  cases hrow : t.lookup r.1 with
  | none =>
    rw [hrow] at hc
    cases hc
  | some row =>
    rw [hrow] at hc
    exact SummaryRow.sessionID_counts c (mem_filter.mp hc).1 ▸ hne

/-- A report that a validator can return. -/
inductive Produced : Report → Prop
  | stream (it : Nat → Range) (calls : List StreamValidator.Call) :
      Produced (StreamValidator.report it calls)
  | invariants (windowUs : UInt64) (t7Window : Int64) (capNs : UInt64) (rate : ℚ)
      (calls : List StreamValidator.Call) :
      Produced (InvariantsValidator.report windowUs t7Window capNs rate calls)

theorem Produced.tally {r : Report} (h : Produced r) :
    r.totalViolations = r.counters.violations ∧ r.cancelReplaceLosses ≤ r.timeViolations := by
  cases h with
  | stream it calls =>
    have htally := (StreamValidator.tallied_report it calls).tally
    exact ⟨htally.violations, htally.losses⟩
  | invariants windowUs t7Window capNs rate calls =>
    obtain ⟨n, hfree, -⟩ :=
      ((InvariantsValidator.tallied_new windowUs t7Window capNs rate).calls calls).finish
    exact ⟨hfree.tally.violations, hfree.tally.losses⟩

theorem Record.timeCount_eq (hle : rec.report.cancelReplaceLosses ≤ rec.report.timeViolations)
    (hlt : rec.report.timeViolations < 2 ^ 63) :
    rec.timeCount.toInt = rec.report.timeViolations - rec.report.cancelReplaceLosses := by
  have hsub : (ofNat rec.report.timeViolations -
      ofNat rec.report.cancelReplaceLosses).toInt =
        rec.report.timeViolations - rec.report.cancelReplaceLosses := by
    rw [toInt_sub, toInt_ofNat_of_lt hlt, toInt_ofNat_of_lt (by omega)]
    exact Int.bmod_eq_of_le (by omega) (by omega)
  have hnot : ¬ (ofNat rec.report.timeViolations - ofNat rec.report.cancelReplaceLosses < 0) := by
    rw [lt_iff_toInt_lt, hsub, toInt_zero]
    omega
  rw [timeCount, if_neg hnot, hsub]

theorem sum_counts (hrep : Produced rec.report)
    (hlt : rec.report.totalViolations + rec.report.phantomFills < 2 ^ 63) (now : Nat)
    (sessionID : String) :
    (∀ c ∈ (rec.row now).counts sessionID, 0 ≤ c.count.toInt) ∧
      (((rec.row now).counts sessionID).map (fun c => c.count.toInt)).sum =
        rec.report.totalViolations + rec.report.phantomFills := by
  obtain ⟨htotal, hloss⟩ := hrep.tally
  simp only [Counters.violations, Report.counters] at htotal
  have htime := rec.timeCount_eq hloss (by omega)
  have hcount : ∀ n : Nat, n ≤ rec.report.totalViolations + rec.report.phantomFills →
      (ofNat n).toInt = n := fun n hn => toInt_ofNat_of_lt (by omega)
  have hprice := hcount rec.report.priceViolations (by omega)
  have hself := hcount rec.report.selfTrades (by omega)
  have hphantom := hcount rec.report.phantomFills (by omega)
  have hlosses := hcount rec.report.cancelReplaceLosses (by omega)
  have hover := hcount rec.report.overfills (by omega)
  have hmissed := hcount rec.report.missedFills (by omega)
  have horders := hcount rec.report.lostOrders (by omega)
  have hcancels := hcount rec.report.lostCancels (by omega)
  rw [SummaryRow.counts, Record.row]
  constructor
  · simp only [forall_mem_cons]
    refine ⟨?_, ?_, ?_, ?_, ?_, ?_, ?_, ?_, ?_, forall_mem_nil _⟩ <;> omega
  · simp only [map_cons, map_nil, sum_cons, sum_nil, hprice, hself, hphantom,
      htime, hlosses, hover, hmissed, horders, hcancels]
    omega

/-- **The breakdown adds up exactly when no fill of an unknown order was reported.**  It is the
violation count of the row and these fills together. -/
theorem breakdown_adds_iff (rec : Record) (hrep : Produced rec.report)
    (hlt : rec.report.totalViolations + rec.report.phantomFills < 2 ^ 63) (t : SummaryTable) (now : Nat)
    (hsaved : (t.save rec now).2 = true) (runs : Runs) (run : Run) (runGroupID : String)
    (hrun : runs.lookup rec.sessionID = some run) (hgroup : run.runGroupID = some runGroupID) :
    ∃ cs, (t.save rec now).1.lookup rec.sessionID = some cs ∧
      cs.violationCount.toInt = rec.report.totalViolations ∧
      breakdown (violationCounts runs (t.save rec now).1 runGroupID) rec.sessionID =
        cs.violationCount.toInt + rec.report.phantomFills ∧
      (breakdown (violationCounts runs (t.save rec now).1 runGroupID) rec.sessionID =
        cs.violationCount.toInt ↔ rec.report.phantomFills = 0) := by
  obtain ⟨at', hcs⟩ : ∃ at', (t.save rec now).1.lookup rec.sessionID =
      some { rec.row now with createdAt := at' } := by
    rw [SummaryTable.save] at hsaved ⊢
    cases hl : t.lookup rec.sessionID with
    | none => exact ⟨now, lookup_insert _⟩
    | some old =>
      rw [hl] at hsaved
      dsimp only at hsaved ⊢
      split_ifs at hsaved ⊢
      exact ⟨old.createdAt, lookup_insert _⟩
  have hviol : (ofNat rec.report.totalViolations).toInt = rec.report.totalViolations :=
    toInt_ofNat_of_lt (by omega)
  have hsum : breakdown (violationCounts runs (t.save rec now).1 runGroupID) rec.sessionID =
      rec.report.totalViolations + rec.report.phantomFills := by
    obtain ⟨hpos, hsum⟩ := sum_counts hrep hlt at' rec.sessionID
    rw [breakdown_violationCounts hrun hgroup hcs]
    exact (breakdown_filter SummaryRow.sessionID_counts hpos).trans hsum
  refine ⟨_, hcs, hviol, hsum.trans (by rw [← hviol]; rfl), ?_⟩
  rw [hsum]
  change _ = (ofNat rec.report.totalViolations).toInt ↔ _
  rw [hviol]
  omega

/-- A run of the session `s` in the group `g`. -/
def sampleRuns : Runs := (∅ : Runs).insert "s" ⟨"sub", "c", some "g", "ramp"⟩

def sampleRecord (report : Report) : Record := { sessionID := "s", contestantID := "c", report := report }

/-- A lost order is a violation and is listed. -/
theorem breakdown_adds_lost :
    (Produced (StreamValidator.report (fun _ => Range.id) [.lost "a" .newLimit]) ∧
      (SummaryTable.save ∅ (sampleRecord (StreamValidator.report (fun _ => Range.id)
        [.lost "a" .newLimit])) 0).2 = true) ∧
    ∃ cs, (SummaryTable.save ∅ (sampleRecord (StreamValidator.report (fun _ => Range.id)
        [.lost "a" .newLimit])) 0).1.lookup "s" = some cs ∧
      breakdown (violationCounts sampleRuns (SummaryTable.save ∅ (sampleRecord
        (StreamValidator.report (fun _ => Range.id) [.lost "a" .newLimit])) 0).1 "g") "s" =
          cs.violationCount.toInt := by
  refine ⟨⟨.stream _ _, by decide +kernel⟩, ?_⟩
  obtain ⟨cs, hcs, -, -, hiff⟩ := breakdown_adds_iff
    (sampleRecord (StreamValidator.report (fun _ => Range.id) [.lost "a" .newLimit]))
    (.stream _ _) (by decide +kernel) ∅ 0 (by decide +kernel) sampleRuns
    ⟨"sub", "c", some "g", "ramp"⟩ "g" (by decide +kernel) rfl
  exact ⟨cs, hcs, hiff.mpr (by decide +kernel)⟩

/-- **A fill of an unknown order is listed and not counted**, by both validators. -/
theorem breakdown_phantom :
    (breakdown (violationCounts sampleRuns (SummaryTable.save ∅ (sampleRecord
        (StreamValidator.report (fun _ => Range.id) [.phantom])) 0).1 "g") "s" = 1 ∧
      (StreamValidator.report (fun _ => Range.id) [.phantom]).totalViolations = 0) ∧
    (breakdown (violationCounts sampleRuns (SummaryTable.save ∅ (sampleRecord
        (InvariantsValidator.report 500 16 0 0 [.phantom])) 0).1 "g") "s" = 1 ∧
      (InvariantsValidator.report 500 16 0 0 [.phantom]).totalViolations = 0) := by
  decide +kernel

end MatchBench.Validate
