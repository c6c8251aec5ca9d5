import MatchBench.Validate.Grade

/-!
# The tally of a report

Every violation is counted twice: in the counter of its class and, by `add`, in
`totalViolations`.  The examples that `add` keeps are capped for each class, the counters are
not, so the classes add up to the total however long the session is.

`Tally` is that equation with what else the counters have in common: there are no more
cancel-replace losses than time violations, and only orders that were handed to the validator
are dirty.  `Tally.add` keeps it at every place where a class is counted and `add` is called.
In a full replay a fill is valid or has one of four classes (`Fills`); both are carried through
the calls of a session by `Tallied`.
-/

namespace MatchBench.Validate

open List

/-! ### The counters -/

/-- The counters of a report, but for the total of its violations and the dirty orders. -/
structure Counters where
  totalFills : Nat
  validFills : Nat
  overfills : Nat
  priceViolations : Nat
  timeViolations : Nat
  cancelReplaceLosses : Nat
  selfTrades : Nat
  missedFills : Nat
  lostOrders : Nat
  lostCancels : Nat
  scoredOrders : Nat

namespace Report

def counters (r : Report) : Counters where
  totalFills := r.totalFills
  validFills := r.validFills
  overfills := r.overfills
  priceViolations := r.priceViolations
  timeViolations := r.timeViolations
  cancelReplaceLosses := r.cancelReplaceLosses
  selfTrades := r.selfTrades
  missedFills := r.missedFills
  lostOrders := r.lostOrders
  lostCancels := r.lostCancels
  scoredOrders := r.scoredOrders

end Report

/-- The violations of all classes. -/
def Counters.violations (c : Counters) : Nat :=
  c.overfills + c.selfTrades + c.timeViolations + c.priceViolations + c.missedFills +
    c.lostOrders + c.lostCancels

/-- The fills, valid ones and those of a class. -/
def Counters.fills (c : Counters) : Nat :=
  c.validFills + c.overfills + c.selfTrades + c.timeViolations + c.priceViolations

namespace Report

variable (r : Report)

theorem counters_markDirty (id : String) : (r.markDirty id).counters = r.counters := by
  rw [markDirty]
  split_ifs <;> rfl

theorem counters_add (t : ViolationType) (id : String) (qty : UInt64) (price : Int64)
    (detail : String) : (r.add t id qty price detail).counters = r.counters := by
  rw [add]
  split_ifs
  · exact counters_markDirty _ id
  · exact counters_markDirty { r with totalViolations := r.totalViolations + 1 } id

theorem totalViolations_markDirty (id : String) :
    (r.markDirty id).totalViolations = r.totalViolations := by
  rw [markDirty]
  split_ifs <;> rfl

theorem totalViolations_add (t : ViolationType) (id : String) (qty : UInt64) (price : Int64)
    (detail : String) :
    (r.add t id qty price detail).totalViolations = r.totalViolations + 1 := by
  rw [add]
  split_ifs
  · exact totalViolations_markDirty _ id
  · exact totalViolations_markDirty { r with totalViolations := r.totalViolations + 1 } id

/-- The classes add up, and the dirty orders are among `ids`. -/
structure Tally (ids : List String) (r : Report) : Prop where
  violations : r.totalViolations = r.counters.violations
  losses : r.cancelReplaceLosses ≤ r.timeViolations
  count : r.dirtyOrders = r.dirtyByOrder.card
  dirty : ∀ id ∈ r.dirtyByOrder, id ∈ ids

variable {ids : List String} {r s : Report}

theorem Tally.of_eq (h : r.Tally ids) (hv : s.totalViolations = r.totalViolations)
    (hc : s.counters.violations = r.counters.violations)
    (hl : s.cancelReplaceLosses ≤ s.timeViolations) (hd : s.dirtyOrders = r.dirtyOrders)
    (hb : s.dirtyByOrder = r.dirtyByOrder) : s.Tally ids :=
  ⟨hv.trans (h.violations.trans hc.symm), hl, by rw [hd, hb, h.count], hb ▸ h.dirty⟩

theorem Tally.mono (h : r.Tally ids) {more : List String} (hids : ids ⊆ more) : r.Tally more :=
  ⟨h.violations, h.losses, h.count, fun id hid => hids (h.dirty id hid)⟩

/-- **One violation**: `s` is the report with its class counted. -/
theorem Tally.add (h : r.Tally ids) {id : String} (hid : id ∈ ids)
    (hv : s.totalViolations = r.totalViolations)
    (hc : s.counters.violations = r.counters.violations + 1)
    (hl : s.cancelReplaceLosses ≤ s.timeViolations) (hd : s.dirtyOrders = r.dirtyOrders)
    (hb : s.dirtyByOrder = r.dirtyByOrder) (t : ViolationType) (qty : UInt64) (price : Int64)
    (detail : String) : (s.add t id qty price detail).Tally ids := by
  have hcounters := counters_add s t id qty price detail
  refine ⟨?_, ?_, ?_, ?_⟩
  · rw [totalViolations_add, hcounters, hc, hv, h.violations]
  · have hloss := congrArg Counters.cancelReplaceLosses hcounters
    have htime := congrArg Counters.timeViolations hcounters
    exact hloss.trans_le (hl.trans_eq htime.symm)
  · exact (flagged_add s t id qty price detail).count (by rw [hd, hb, h.count])
  intro x hx
  rw [dirtyByOrder_add, Finset.mem_insert, hb] at hx
  rcases hx with rfl | hx
  · exact hid
  · exact h.dirty x hx

theorem Tally.dirtyOrders_le (h : r.Tally ids) : r.dirtyOrders ≤ ids.length := by
  rw [h.count]
  calc r.dirtyByOrder.card ≤ ids.toFinset.card :=
        Finset.card_le_card fun id hid => mem_toFinset.mpr (h.dirty id hid)
    _ ≤ ids.length := toFinset_card_le ids

end Report

def StreamValidator.Call.isApply : StreamValidator.Call → Bool
  | .apply _ => true
  | _ => false

def StreamValidator.Call.isLost : StreamValidator.Call → Bool
  | .lost _ _ => true
  | _ => false

theorem StreamValidator.Call.length_handed (calls : List StreamValidator.Call) :
    (calls.flatMap handed).length = calls.countP isApply + calls.countP isLost := by
  induction calls with
  | nil => rfl
  | cons c calls ih =>
    rw [flatMap_cons, length_append, ih, countP_cons, countP_cons]
    cases c <;> simp [handed, isApply, isLost] <;> omega

/-! ### A full replay -/

/-- The report of a full replay, between two fills: `ids` were handed in, each is counted as
scored, and each fill is valid or has a class. -/
structure Report.Tallied (ids : List String) (r : Report) : Prop where
  tally : r.Tally ids
  fills : r.totalFills = r.counters.fills
  scored : r.scoredOrders = ids.length

section

variable {ids : List String} {r s : Report}

theorem Report.Tallied.flag (h : r.Tallied ids) {id : String} (hid : id ∈ ids) {f : Flag}
    (hf : r.Flags id f s) : s.Tallied ids := by
  obtain ⟨t, qty, price, detail, rfl⟩ := hf
  obtain ⟨hb, hd, hv, hs, -, -⟩ := f.count_keeps r
  have hcounters := counters_add (f.count r) t id qty price detail
  have hfills := h.fills
  have hlosses := h.tally.losses
  simp only [Counters.fills, counters] at hfills
  have hcount : (f.count r).counters.violations = r.counters.violations + 1 ∧
      (f.count r).cancelReplaceLosses ≤ (f.count r).timeViolations ∧
      (f.count r).totalFills = (f.count r).counters.fills := by
    simp only [Counters.violations, Counters.fills, counters]
    cases f with
    | overfill | selfTrade | price | missed =>
      dsimp only [Flag.count]
      omega
    | jump loss => cases loss <;> dsimp only [Flag.count] <;> omega
    | lost kind =>
      rw [Flag.count]
      split_ifs <;> dsimp only <;> omega
  refine ⟨h.tally.add hid hv hcount.1 hcount.2.1 hd hb t qty price detail, ?_, ?_⟩
  · have htotal := congrArg Counters.totalFills hcounters
    rw [hcounters, ← hcount.2.2]
    exact htotal
  · have hscored := congrArg Counters.scoredOrders hcounters
    exact (hscored.trans hs).trans h.scored

theorem Report.Tallied.judge (h : r.Tallied ids) {o : Order} (hid : o.orderID ∈ ids)
    {ref : Option OrderRef} {total : UInt64} {price : Int64}
    (hj : r.Judged o ref total price s) : s.Tallied ids := by
  cases hj with
  | overfill hover hflags | unexplained hwithin hne hflags => exact h.flag hid hflags
  | valid hwithin hk hp hq =>
    refine ⟨h.tally.of_eq rfl rfl h.tally.losses rfl rfl, ?_, h.scored⟩
    have hfills := h.fills
    simp only [Counters.fills, counters] at hfills ⊢
    omega

theorem Report.Tallied.count (h : r.Tallied ids) (id : String) :
    Report.Tallied (ids ++ [id]) { r with scoredOrders := r.scoredOrders + 1 } := by
  refine ⟨?_, h.fills, ?_⟩
  · exact (h.tally.mono (subset_append_left _ _)).of_eq rfl rfl h.tally.losses rfl rfl
  · rw [length_append]
    exact congrArg Nat.succ h.scored

end

namespace StreamValidator

variable (it : Nat → Range) {ids : List String} {v : StreamValidator}

/-- The report of a full replay after `ids` were handed in; a pending order is one of them. -/
structure Tallied (ids : List String) (v : StreamValidator) : Prop where
  rep : v.rep.Tallied ids
  pending : ∀ id o, v.pending.lookup id = some o → o.orderID ∈ ids

theorem Tallied.finalize (h : v.Tallied ids) (id : String) : (v.finalize it id).Tallied ids := by
  cases ho : v.pending.lookup id with
  | none =>
    rw [finalize_of_none it ho]
    exact h
  | some o =>
    obtain ⟨hrep, hpending, _, _⟩ := finalize_spec it ho
    refine ⟨?_, ?_⟩
    · rw [hrep]
      exact scoreOrder_induction it (v := v.without id)
        (fun rep rep' total price hrep hj => hrep.judge (h.pending id o ho) hj)
        (fun rep rep' hrep hf => hrep.flag (h.pending id o ho) hf) h.rep
    · intro k x hx
      rw [hpending] at hx
      exact h.pending k x (lookup_erase_eq_some hx).2

theorem Tallied.feed (h : v.Tallied ids) (o : Order) : (v.feed o).Tallied (ids ++ [o.orderID]) := by
  refine ⟨h.rep.count o.orderID, fun k x hx => ?_⟩
  rw [StreamValidator.feed] at hx
  by_cases hk : k = o.orderID
  · rw [hk, AList.lookup_insert] at hx
    rw [← Option.some.inj hx]
    exact mem_append_right _ (.head _)
  · rw [AList.lookup_insert_ne hk] at hx
    exact mem_append_left _ (h.pending k x hx)

theorem tallied_invariant : Invariant it Tallied where
  new := ⟨⟨⟨rfl, le_rfl, rfl, fun _ h => absurd h (Finset.notMem_empty _)⟩, rfl, rfl⟩, nofun⟩
  feed h o := h.feed o
  finalize h id := h.finalize it id
  lost {_ v} h orderID kind :=
    ⟨(h.rep.count orderID).flag (mem_append_right _ (mem_singleton_self _))
      (v.addLost_flags orderID kind), fun k x hx => mem_append_left _ (h.pending k x hx)⟩
  phantom h :=
    ⟨⟨h.rep.tally.of_eq rfl rfl h.rep.tally.losses rfl rfl, h.rep.fills, h.rep.scored⟩, h.pending⟩
  captureGap h := ⟨h.rep, h.pending⟩
  range h := ⟨h.rep, h.pending⟩

/-- **Every session's report is tallied**: `finish` scores what is pending and leaves the
counters of the report. -/
theorem tallied_report (calls : List Call) :
    (report it calls).Tallied (calls.flatMap Call.handed) := by
  obtain ⟨v, h, heq⟩ := (tallied_invariant it).report calls
  rw [heq]
  exact ⟨h.rep.tally.of_eq rfl rfl h.rep.tally.losses rfl rfl, h.rep.fills, h.rep.scored⟩

end StreamValidator

end MatchBench.Validate
