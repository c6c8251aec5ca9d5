import MatchBench.Book.Ledger

/-!
# No quantity is lost

What an order submits is filled, rests, or is removed.  A limit, a market order and a
replace that finds its order submit their quantity; a cancel submits nothing.  A cancel and
a replace remove what is left of the order they name, and a market order removes its own
residual.  `run_conserved` adds this up over any session, order by order, and says that each
trade gives two fills of one price and quantity to orders of opposite sides, so that as much
is bought as is sold.

A replace without an id of its own puts its quantity under the id of the order that it
replaces, so the fills of that order are no longer bounded by what it submitted
(`run_unnamedReplace`).
-/

namespace MatchBench.Book

open List Option

namespace Engine

/-! ### The accounts -/

/-- What rests under an id. -/
def restingQty (e : Engine) (id : String) : Nat :=
  ((e.find id).map (fun m => m.remaining.toNat)).getD 0

/-- What is left of an aggressor at the end of the loop over the levels. -/
def leftover (e : Engine) (o : Order) : UInt64 :=
  (matchLoop o (e.tree (oppositeSide o.side)).items.length
    ⟨o.qty, e.tree (oppositeSide o.side), [], e⟩).remaining

/-- What a call submits under the id of its order. -/
def submits (e : Engine) (o : Order) : Nat :=
  match o.kind with
  | .newLimit | .newMarket => o.qty.toNat
  | .cancel => 0
  | .replace => if e.isResting o.origOrderID then o.qty.toNat else 0

/-- What a call takes from an order without a fill. -/
def removes (e : Engine) (o : Order) (id : String) : Nat :=
  match o.kind with
  | .newLimit => 0
  | .newMarket => if id = o.orderID then (e.leftover o).toNat else 0
  | .cancel | .replace => if id = o.origOrderID then e.restingQty id else 0

/-- The fills of one call. -/
def newFills (e : Engine) (o : Order) : List Fill := (e.process o).fills.drop e.fills.length

/-- The trades of one call. -/
def newTrades (e : Engine) (o : Order) : List Trade := (e.process o).trades.drop e.trades.length

/-- The side of the order that a fill of the call is for. -/
def sideOf (e : Engine) (o : Order) (f : Fill) : Option Side :=
  if f.orderID = o.orderID then some o.side else (e.index.lookup f.orderID).map Handle.side

/-- What one call fills on a side. -/
def sideQty (e : Engine) (o : Order) (s : Side) : Nat :=
  (((e.newFills o).filter (fun f => e.sideOf o f = some s)).map (fun f => f.qty.toNat)).sum

/-- The sum of a quantity over the calls of a run. -/
def total (f : Engine → Order → Nat) (os : List Order) : Nat :=
  (os.foldl (fun st o => (st.1.process o, st.2 + f st.1 o)) (newEngine, 0)).2

end Engine

open Engine

/-- The two fills of a trade. -/
def fillsOfTrade (t : Trade) : List Fill :=
  [⟨t.takerOrderID, t.price, t.qty⟩, ⟨t.makerOrderID, t.price, t.qty⟩]

/-- **Quantities are conserved over a run.** -/
structure Conserved (os : List Order) : Prop where
  /-- What each order submitted is filled, rests or was removed. -/
  quantity : ∀ ps o qs, os = ps ++ o :: qs → (run ps).submits o =
    fillQty (run os).fills o.orderID + (run os).restingQty o.orderID +
      total (fun e o' => e.removes o' o.orderID) os
  /-- Each trade gives two fills. -/
  paired : (run os).fills = (run os).trades.flatMap fillsOfTrade
  /-- The two are for orders of opposite sides. -/
  sides : ∀ ps o qs, os = ps ++ o :: qs → ∀ t ∈ (run ps).newTrades o,
    t.takerOrderID = o.orderID ∧
      ((run ps).index.lookup t.makerOrderID).map Handle.side = some (oppositeSide o.side)
  totals : total (fun e o => e.sideQty o .buy) os = total (fun e o => e.sideQty o .sell) os

/-! ### Sums over a run -/

namespace Engine

theorem total_fst (f : Engine → Order → Nat) (os : List Order) :
    (os.foldl (fun st o => (st.1.process o, st.2 + f st.1 o)) (newEngine, 0)).1 = run os := by
  induction os using reverseRecOn with
  | nil => rfl
  | append_singleton os o ih =>
    rw [foldl_append, foldl_cons, foldl_nil, ih, run_snoc]

theorem total_snoc (f : Engine → Order → Nat) (os : List Order) (o : Order) :
    total f (os ++ [o]) = total f os + f (run os) o := by
  rw [total, foldl_append, foldl_cons, foldl_nil, total_fst]
  rfl

/-! ### What rests under an id -/

namespace Ledger

variable {ps : List Order} {e : Engine} {m : RestingOrder}

theorem restingQty_eq (hl : Ledger ps e) {s : Side} {p : Int64}
    (hm : m ∈ e.fifo s p) : e.restingQty m.orderID = m.remaining.toNat := by
  rw [restingQty, hl.find_eq hm]
  rfl

variable {ps' : List Order} {id : String} {o : Order}

theorem restingQty_eq_zero (hl : Ledger ps e) (h : ¬ e.RestsID id) : e.restingQty id = 0 := by
  cases hf : e.find id with
  | none =>
    rw [restingQty, hf]
    rfl
  | some m =>
    obtain ⟨hid, s, p, hm⟩ := hl.find_id hf
    exact absurd ⟨s, p, m, hm, hid⟩ h

theorem restingQty_congr {e' : Engine} (hl : Ledger ps e) (hl' : Ledger ps' e')
    (h : ∀ {s p m}, m.orderID = id → (m ∈ e'.fifo s p ↔ m ∈ e.fifo s p)) :
    e'.restingQty id = e.restingQty id := by
  by_cases hr : e.RestsID id
  · obtain ⟨s, p, m, hm, rfl⟩ := hr
    rw [hl.restingQty_eq hm, hl'.restingQty_eq ((h rfl).mpr hm)]
  · rw [hl.restingQty_eq_zero hr, hl'.restingQty_eq_zero]
    rintro ⟨s, p, m, hm, rfl⟩
    exact hr ⟨s, p, m, (h rfl).mp hm, rfl⟩

theorem restingQty_matched (hl : Ledger ps e) (hf : ∀ a ∈ ps, a.orderID ≠ o.orderID) (id : String) :
    (Book.matched e o).restingQty id + makerQty (allot o.qty (ranked e o)) id =
      e.restingQty id := by
  have hl' := hl.matched o hf
  by_cases hr : e.RestsID id
  · obtain ⟨s, p, m, hm, rfl⟩ := hr
    rw [hl.restingQty_eq hm]
    by_cases hu : m.orderID ∈ usedUp (allot o.qty (ranked e o))
    · -- The order is used up: all that was left of it was allotted.
      have hgone : ¬ (Book.matched e o).RestsID m.orderID := by
        rintro ⟨s', p', m', hm', hid⟩
        obtain ⟨m₀, hm₀, hu₀, -, he⟩ := (hl.mem_fifo_matched o).mp hm'
        rw [he] at hid
        exact hu₀ (hid ▸ hu)
      rw [hl'.restingQty_eq_zero hgone, zero_add]
      obtain ⟨x, hx, hid⟩ := List.mem_map.mp hu
      obtain ⟨hx, hz⟩ := mem_filter.mp hx
      obtain ⟨p', hxm⟩ := mem_fifo_of_mem_allot hx
      obtain rfl := hl.eq_of_id hxm hm hid
      have hsum := toNat_sub_add (allot_le hx)
      rw [of_decide_eq_true hz] at hsum
      rw [(hl.maker o hx).1, ← hsum]
      exact (zero_add _).symm
    · obtain ⟨r, hr⟩ := hl.exists_left o hm
      have hm' : { m with remaining := r } ∈ (Book.matched e o).fifo s p :=
        (hl.mem_fifo_matched o).mpr ⟨m, hm, hu, hr, rfl⟩
      rw [← hr]
      exact congrArg (· + _) (hl'.restingQty_eq hm')
  · rw [hl.restingQty_eq_zero hr, makerQty_eq_zero, hl'.restingQty_eq_zero]
    · rintro ⟨s, p, m', hm', rfl⟩
      obtain ⟨m, hm, -, -, he⟩ := (hl.mem_fifo_matched o).mp hm'
      exact hr ⟨s, p, m, hm, by rw [he]⟩
    · intro x hx he
      obtain ⟨p, hxm⟩ := mem_fifo_of_mem_allot hx
      exact hr ⟨_, p, x.1, hxm, he⟩

theorem restingQty_insert (hl : Ledger ps e) {rem : UInt64} (hl' : Ledger ps' (e.insert o rem))
    (id : String) :
    (e.insert o rem).restingQty id = if id = o.orderID then rem.toNat else e.restingQty id := by
  split
  next he =>
    have hm : e.newResting o rem ∈ (e.insert o rem).fifo o.side o.price := by
      rw [fifo_insert, if_pos ⟨rfl, rfl⟩]
      exact mem_append_right _ (.head _)
    rw [he]
    exact hl'.restingQty_eq hm
  next hne =>
    refine hl.restingQty_congr hl' fun {s p m} hid => ⟨fun hm => ?_, fun hm => ?_⟩
    · rcases mem_fifo_insert hm with hm | ⟨-, -, rfl⟩
      · exact hm
      · exact absurd hid.symm hne
    · rw [fifo_insert]
      exact mem_append_left _ hm

theorem restingQty_remove (hl : Ledger ps e) (id id' : String) :
    (e.remove id).restingQty id' = if id' = id then 0 else e.restingQty id' := by
  have hl' := hl.remove id
  split
  next he =>
    refine hl'.restingQty_eq_zero ?_
    rintro ⟨s, p, m, hm, hid⟩
    exact ((hl.mem_fifo_remove id).mp hm).2 (hid.trans he)
  next hne =>
    exact hl.restingQty_congr hl' fun {s p m} hid =>
      ⟨fun hm => ((hl.mem_fifo_remove id).mp hm).1,
        fun hm => (hl.mem_fifo_remove id).mpr ⟨hm, fun he => hne (hid.symm.trans he)⟩⟩

theorem restingQty_amended (hl : Ledger ps e) {ro : RestingOrder} (hro : e.Rests ro) {q : UInt64}
    {new : String} (hl' : Ledger ps' (e.amended ro q new)) (id : String) :
    (e.amended ro q new).restingQty id =
      if id = new then q.toNat else if id = ro.orderID then 0 else e.restingQty id := by
  split
  next he =>
    have hm : { ro with remaining := q, orderID := new } ∈ (e.amended ro q new).fifo ro.side ro.price :=
      (hl.mem_fifo_amended hro q new).mpr (.inr ⟨rfl, rfl, rfl⟩)
    rw [he]
    exact hl'.restingQty_eq hm
  rename_i hne
  split
  next he =>
    refine hl'.restingQty_eq_zero ?_
    rintro ⟨s, p, m, hm, hid⟩
    rcases (hl.mem_fifo_amended hro q new).mp hm with ⟨-, hm⟩ | ⟨-, -, rfl⟩
    · exact hm (hid.trans he)
    · exact hne hid.symm
  next hold =>
    refine hl.restingQty_congr hl' fun {s p m} hid => ⟨fun hm => ?_, fun hm => ?_⟩
    · rcases (hl.mem_fifo_amended hro q new).mp hm with ⟨hm, -⟩ | ⟨-, -, rfl⟩
      · exact hm
      · exact absurd hid.symm hne
    · exact (hl.mem_fifo_amended hro q new).mpr (.inl ⟨hm, fun he => hold (hid.symm.trans he)⟩)

theorem leftover_eq (hl : Ledger ps e) (o : Order) :
    e.leftover o = residual o (greedyTrades e o) := by
  obtain ⟨-, h, -⟩ := matchLoop_spec o (e.tree (oppositeSide o.side)).items.length
    ⟨o.qty, e.tree (oppositeSide o.side), [], e⟩ le_rfl (fun l hl' m hm => hl.wf.price_eq hl' hm)
    (e.tree (oppositeSide o.side)).sorted
  dsimp only at h
  rw [← ranked_eq_makers hl.wf o, left_eq_residual o] at h
  exact h

theorem isResting_of_find (hl : Ledger ps e) (h : e.find id = some m) : e.isResting id = true := by
  obtain ⟨hid, s, p, hm⟩ := hl.find_id h
  exact hl.lookup_isSome.mpr ⟨s, p, m, hm, hid⟩

theorem isResting_of_find_none (hl : Ledger ps e) (h : e.find id = none) :
    e.isResting id = false := by
  rcases hl.lookup_deref id with ⟨-, hn⟩ | ⟨s, p, m, -, -, hb⟩
  · rw [isResting, hn]
    rfl
  · exact absurd (hb.symm.trans h) (some_ne_none _)

/-- **One call balances**: under every id, what it fills, leaves and removes is what was
there and what it submits. -/
theorem balance (hl : Ledger ps e) (hf : ∀ a ∈ ps, a.orderID ≠ o.orderID)
    (hid : o.kind = .replace → o.orderID ≠ "") (id : String) :
    fillQty (e.process o).fills id + (e.process o).restingQty id + e.removes o id =
      fillQty e.fills id + e.restingQty id + (if id = o.orderID then e.submits o else 0) := by
  have hl' := (process_ledger hl o hf (named_of_nonempty hid)).1
  have hfresh : e.restingQty o.orderID = 0 := hl.restingQty_eq_zero (not_rests_fresh hl o hf)
  have hstep := process_cases hl.wf o
  generalize e.process o = e' at hl' hstep ⊢
  have hsum : (residual o (greedyTrades e o)).toNat + allotted (allot o.qty (ranked e o)) =
      o.qty.toNat := by
    rw [residual, greedyTrades, ← left_eq_residual o]
    exact left_add_allotted o.qty (ranked e o)
  have hfills := hl.fillQty_matched o id
  have hrest := hl.restingQty_matched hf id
  have hcomm : id = o.orderID ↔ o.orderID = id := eq_comm
  rw [removes, submits]
  cases hstep with
  | filled hk =>
    rw [hfills]
    rcases hk with hk | ⟨hk, hz⟩
    · simp only [hk, hl.leftover_eq o, hcomm]
      split <;> omega
    rw [hz, show (0 : UInt64).toNat = 0 from rfl] at hsum
    simp only [hk, hcomm]
    split <;> omega
  | rested hk hr =>
    have hinsert := (hl.matched o hf).restingQty_insert hl' id
    rw [hinsert, fills_insert, hfills]
    simp only [hk]
    by_cases hio : o.orderID = id
    · rw [← hio] at hrest ⊢
      simp only [if_pos]
      omega
    · simp only [if_neg hio, if_neg (Ne.symm hio)]
      omega
  | cancelled hk =>
    rw [fills_remove, hl.restingQty_remove]
    simp only [hk]
    split <;> split <;> omega
  | ignored hk hnone =>
    have hzero : e.restingQty o.origOrderID = 0 := by
      rw [restingQty, hnone]
      rfl
    simp only [hk, hl.isResting_of_find_none hnone]
    by_cases hio : id = o.origOrderID
    · rw [if_pos hio, hio, hzero]
      split <;> rfl
    · rw [if_neg hio]
      split <;> rfl
  | kept ro hk hro hp hid' =>
    obtain ⟨-, s, p, hm⟩ := hl.find_id hro
    exact absurd ⟨s, p, ro, hm, (hid'.resolve_left (hid hk)).symm⟩ (not_rests_fresh hl o hf)
  | amended ro hk hro hp hne hne' =>
    obtain ⟨hold, hrests⟩ := hl.find_id hro
    rw [fills_amended, hl.restingQty_amended hrests hl', hold]
    simp only [hk, hl.isResting_of_find hro, if_true]
    rw [hold] at hne'
    by_cases hio : id = o.orderID
    · rw [if_pos hio, if_pos hio, hio, if_neg hne', hfresh]
      omega
    · rw [if_neg hio, if_neg hio]
      split <;> omega
  | moved ro hk hro hp =>
    obtain ⟨hold, s, p, hm⟩ := hl.find_id hro
    have hb := SameBook.reprice e o ro
    have hl₁ := hl.of_sameBook hb (fills_reprice e o ro)
    have hsame : (e.reprice o ro).restingQty id = e.restingQty id :=
      hl.restingQty_congr hl₁ fun {s p m} _ => by rw [hb.fifo]
    have hne : o.orderID ≠ o.origOrderID := fun he =>
      not_rests_fresh hl o hf ⟨s, p, ro, hm, hold.trans he.symm⟩
    have hnew : (replacement o ro).orderID = o.orderID := if_pos (hid hk)
    rw [(hl₁.remove _).restingQty_insert hl', hnew, hl₁.restingQty_remove, fills_insert,
      fills_remove, fills_reprice, hsame]
    simp only [hk, hl.isResting_of_find hro, if_true]
    by_cases hio : id = o.orderID
    · rw [if_pos hio, if_pos hio, hio, if_neg hne, hfresh]
      omega
    · rw [if_neg hio, if_neg hio]
      split <;> omega

end Ledger

/-! ### What a call records -/

/-- The makers of a call, with what each gives. -/
def allotment (e : Engine) (o : Order) : List (RestingOrder × UInt64) :=
  match o.kind with
  | .newLimit | .newMarket => allot o.qty (ranked e o)
  | .cancel | .replace => []

variable {e : Engine}

theorem process_records (hw : e.WF) (o : Order) :
    (e.process o).fills = e.fills ++ (e.allotment o).flatMap (fillsOf o) ∧
      (e.process o).trades = e.trades ++ (e.allotment o).map (tradeOf o) := by
  have hm := matched_spec hw o
  have hstep := process_cases hw o
  generalize e.process o = e' at hstep ⊢
  have hnone : o.kind = .cancel ∨ o.kind = .replace → e'.fills = e.fills → e'.trades = e.trades →
      e'.fills = e.fills ++ (e.allotment o).flatMap (fillsOf o) ∧
        e'.trades = e.trades ++ (e.allotment o).map (tradeOf o) := by
    intro hk hfills htrades
    have hnil : e.allotment o = [] := by
      rw [allotment]
      rcases hk with hk | hk <;> rw [hk]
    rw [hnil, hfills, htrades]
    exact ⟨(append_nil _).symm, (append_nil _).symm⟩
  cases hstep with
  | filled hk =>
    have hall : e.allotment o = allot o.qty (ranked e o) := by
      rw [allotment]
      rcases hk with hk | ⟨hk, -⟩ <;> rw [hk]
    rw [hall]
    exact ⟨hm.fills, hm.trades⟩
  | rested hk hr =>
    rw [allotment, hk]
    exact ⟨(fills_insert _ _ _).trans hm.fills, (setTree_trades _ _ _).trans hm.trades⟩
  | cancelled hk => exact hnone (.inl hk) (Ledger.fills_remove _ _) (trades_remove _ _)
  | ignored hk hf => exact hnone (.inr hk) rfl rfl
  | kept ro hk hf hp hid =>
    exact hnone (.inr hk) (Ledger.fills_modify _ _ _) (trades_modify _ _ _)
  | amended ro hk hf hp hid hne =>
    refine hnone (.inr hk) (Ledger.fills_amended _ _ _ _) ?_
    rw [amended, rename]
    exact (trades_modify _ _ _).trans (trades_modify _ _ _)
  | moved ro hk hf hp =>
    refine hnone (.inr hk) ?_ ?_
    · exact (fills_insert _ _ _).trans ((Ledger.fills_remove _ _).trans (fills_reprice e o ro))
    · refine (setTree_trades _ _ _).trans ((trades_remove _ _).trans ?_)
      rw [reprice]
      split <;> rfl

theorem newFills_eq (hw : e.WF) (o : Order) :
    e.newFills o = (e.allotment o).flatMap (fillsOf o) := by
  rw [newFills, (process_records hw o).1, drop_left]

theorem newTrades_eq (hw : e.WF) (o : Order) : e.newTrades o = (e.allotment o).map (tradeOf o) := by
  rw [newTrades, (process_records hw o).2, drop_left]

section

variable {ps : List Order} {e : Engine} (hl : Ledger ps e) {o : Order}

include hl

theorem lookup_maker {x : RestingOrder × UInt64} (hx : x ∈ e.allotment o) :
    (e.index.lookup x.1.orderID).map Handle.side = some (oppositeSide o.side) := by
  have hmem : x ∈ allot o.qty (ranked e o) := by
    rw [allotment] at hx
    cases hk : o.kind <;> rw [hk] at hx
    · exact hx
    · exact hx
    · cases hx
    · cases hx
  obtain ⟨p, hm⟩ := mem_fifo_of_mem_allot hmem
  rw [hl.lookup_eq hm, map_some]
  exact congrArg some (hl.wf.shape hm).1

theorem sideQty_eq (hf : ∀ a ∈ ps, a.orderID ≠ o.orderID) (s : Side) :
    e.sideQty o s = allotted (e.allotment o) := by
  rw [sideQty, newFills_eq hl.wf]
  have hmaker : ∀ x ∈ e.allotment o, (e.index.lookup x.1.orderID).map Handle.side =
      some (oppositeSide o.side) := fun x hx => lookup_maker hl hx
  generalize e.allotment o = xs at hmaker
  induction xs with
  | nil => rfl
  | cons x xs ih =>
    have hx := hmaker x (.head _)
    have htaker : e.sideOf o ⟨o.orderID, x.1.price, x.2⟩ = some o.side := if_pos rfl
    have hother : e.sideOf o ⟨x.1.orderID, x.1.price, x.2⟩ = some (oppositeSide o.side) := by
      rw [sideOf, if_neg]
      · exact hx
      intro he
      have hne : (e.index.lookup o.orderID).isSome := by
        rw [← show x.1.orderID = o.orderID from he]
        exact isSome_map ▸ isSome_of_eq_some hx
      exact not_rests_fresh hl o hf (hl.lookup_isSome.mp hne)
    have ih := ih fun y hy => hmaker y (.tail _ hy)
    rw [flatMap_cons, filter_append, map_append, sum_append, ih, fillsOf,
      allotted, allotted, map_cons, sum_cons]
    congr 1
    by_cases hs : s = o.side
    · have hne : ¬ e.sideOf o ⟨x.1.orderID, x.1.price, x.2⟩ = some s := by
        rw [hother, hs]
        exact fun h => oppositeSide_ne o.side (some.inj h).symm
      rw [← hs] at htaker
      simp [htaker, hne]
    · have hne : ¬ e.sideOf o ⟨o.orderID, x.1.price, x.2⟩ = some s := by
        rw [htaker]
        exact fun h => hs (some.inj h).symm
      rw [← eq_oppositeSide hs] at hother
      simp [hother, hne]

end

/-! ### Every run -/

theorem total_single {f : Engine → Order → Nat} {ps : List Order} {o : Order} :
    ∀ {qs : List Order}, (∀ a ∈ ps, ∀ e, f e a = 0) → (∀ a ∈ qs, ∀ e, f e a = 0) →
      total f (ps ++ o :: qs) = f (run ps) o := by
  have hzero : ∀ {l : List Order}, (∀ a ∈ l, ∀ e, f e a = 0) → total f l = 0 := by
    intro l
    induction l using reverseRecOn with
    | nil => exact fun _ => rfl
    | append_singleton l a ih =>
      intro h
      rw [total_snoc, ih fun b hb => h b (mem_append_left _ hb), h a (by simp)]
  intro qs
  induction qs using reverseRecOn with
  | nil =>
    intro hps _
    rw [total_snoc, hzero hps, zero_add]
  | append_singleton qs a ih =>
    intro hps hqs
    rw [← cons_append, ← append_assoc, total_snoc, hqs a (by simp),
      ih hps fun b hb => hqs b (mem_append_left _ hb), add_zero]

theorem run_balance : ∀ os : List Order, Session os → ∀ id,
    total (fun e o => if id = o.orderID then e.submits o else 0) os =
      fillQty (run os).fills id + (run os).restingQty id +
        total (fun e o => e.removes o id) os := by
  intro os
  induction os using reverseRecOn with
  | nil => exact fun _ _ => rfl
  | append_singleton os o ih =>
    intro h id
    obtain ⟨hs, hf, hr⟩ := h.snoc
    have hstep := (Ledger.run os hs).balance hf hr id
    rw [total_snoc, total_snoc, run_snoc, ih hs id]
    omega

end Engine

/-- **Quantities are conserved** in every session: no two orders share an id, and a replace
has an id of its own. -/
theorem run_conserved (os : List Order) (hs : Session os) : Conserved os where
  quantity := by
    rintro ps o qs rfl
    rw [← run_balance _ hs o.orderID, total_single, if_pos rfl]
    · intro a ha e
      obtain ⟨-, -, h⟩ := pairwise_append.mp hs.distinct
      exact if_neg (h a ha o (.head _)).symm
    · intro a ha e
      obtain ⟨-, h, -⟩ := pairwise_append.mp hs.distinct
      exact if_neg ((pairwise_cons.mp h).1 a ha)
  paired := by
    clear hs
    induction os using reverseRecOn with
    | nil => rfl
    | append_singleton os o ih =>
      obtain ⟨hfills, htrades⟩ := process_records (WF.run os) o
      rw [run_snoc, hfills, htrades, flatMap_append, ih, flatMap_map]
      rfl
  sides := by
    rintro ps o qs rfl t ht
    rw [newTrades_eq (WF.run ps)] at ht
    obtain ⟨x, hx, rfl⟩ := List.mem_map.mp ht
    exact ⟨rfl, lookup_maker (Ledger.run ps hs.left) hx⟩
  totals := by
    induction os using reverseRecOn with
    | nil => rfl
    | append_singleton os o ih =>
      obtain ⟨hps, hf, -⟩ := hs.snoc
      have hl := Ledger.run os hps
      rw [total_snoc, total_snoc, ih hps, sideQty_eq hl hf, sideQty_eq hl hf]

/-- A partial fill, an amendment in place, a cancel, and a market order that is not filled
completely. -/
def mixedSession : List Order :=
  [{ orderID := "a", side := .sell, price := 10, qty := 8 },
   { orderID := "b", side := .buy, price := 10, qty := 3 },
   { orderID := "c", kind := .replace, origOrderID := "a", side := .sell, price := 10, qty := 4 },
   { orderID := "d", side := .sell, price := 11, qty := 2 },
   { orderID := "e", kind := .cancel, origOrderID := "d" },
   { orderID := "f", kind := .newMarket, side := .buy, qty := 9 }]

theorem run_conserved_mixedSession : Conserved mixedSession :=
  run_conserved mixedSession ⟨by decide, by decide⟩

/-- A replace without an id raises the quantity of an order, which is then filled. -/
def unnamedReplace : List Order :=
  [{ orderID := "a", side := .sell, price := 10, qty := 5 },
   { orderID := "", kind := .replace, origOrderID := "a", side := .sell, price := 10, qty := 9 },
   { orderID := "b", side := .buy, price := 10, qty := 9 }]

/-- **More is filled than was submitted**: the ids are distinct, but 9 are filled of the 5
that the first order submitted. -/
theorem run_unnamedReplace :
    unnamedReplace.Pairwise (fun a b => a.orderID ≠ b.orderID) ∧
      fillQty (run unnamedReplace).fills "a" = 9 ∧ ¬ Conserved unnamedReplace := by
  refine ⟨by decide, by decide, fun h => ?_⟩
  exact absurd (h.quantity [] _ _ rfl) (by decide)

end MatchBench.Book
