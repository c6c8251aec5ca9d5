import MatchBench.Book.Priority

/-!
# Matching refines price-time priority

`process_priceTime` is the result: from every state a run of the engine
reaches, a limit or market order makes exactly the greedy trades, each queue of
the other side keeps what `afterTrades` leaves of it, order by order and in
place, and the residual joins the tail of its own queue when the order is a
limit order.  No queue is otherwise touched, so a level that was parked during
the call is back with the orders it had.

`queueOf_settleLevels` reads the settled side queue by queue, and
`ranked_eq_makers` says that walking the levels meets the makers in the order of
the specification; the rest is `matchLoop_spec`.  `matchAndRest_eq` packages
what a match does to the engine for the files that follow, and `WF.run` gives
the invariant on every run.
-/

namespace MatchBench.Book

open List Engine

/-! ### Settled queues -/

/-- The queue of a list of levels at a price. -/
def queueOf (ls : List PriceLevel) (p : Int64) : List RestingOrder :=
  (ls.find? (fun l => l.price = p)).elim [] PriceLevel.orders

theorem queueOf_cons (l : PriceLevel) (ls : List PriceLevel) (p : Int64) :
    queueOf (l :: ls) p = if l.price = p then l.orders else queueOf ls p := by
  by_cases h : l.price = p
  · rw [if_pos h, queueOf, find?_cons_of_pos (by simpa using h)]
    rfl
  · rw [if_neg h, queueOf, find?_cons_of_neg (by simpa using h), queueOf]

variable {ls : List PriceLevel} {p : Int64} {ts ts' : List Trade} {ms : List RestingOrder}
  {o : Order} {s : Side} {l : PriceLevel} {m m' : RestingOrder}

theorem queueOf_eq_nil (h : ∀ l ∈ ls, l.price ≠ p) : queueOf ls p = [] := by
  rw [queueOf, find?_eq_none.mpr (fun l hl => by simpa using h l hl)]
  rfl

variable {m : RestingOrder} {ts : List Trade} {e : Engine}

theorem mem_queueOf (h : m ∈ queueOf ls p) : m ∈ ls.flatMap PriceLevel.orders := by
  induction ls with
  | nil => simp [queueOf] at h
  | cons l ls ih =>
    rw [queueOf_cons] at h
    rw [flatMap_cons, mem_append]
    split at h
    · exact .inl h
    · exact .inr (ih h)

theorem afterTrades_eq_some (h : ∀ t ∈ ts, t.makerSeq ≠ m.seq) : afterTrades ts m = some m := by
  rw [afterTrades, find?_eq_none.mpr (fun t ht => by simpa using h t ht)]

theorem afterTrades_append_left (h : ∀ t ∈ ts, t.makerSeq ≠ m.seq) :
    afterTrades (ts ++ ts') m = afterTrades ts' m := by
  rw [afterTrades, find?_append, find?_eq_none.mpr (fun t ht => by simpa using h t ht),
    Option.none_or, afterTrades]

theorem afterTrades_append_right (h : ∀ t ∈ ts', t.makerSeq ≠ m.seq) :
    afterTrades (ts ++ ts') m = afterTrades ts m := by
  have hn : ts'.find? (fun t => t.makerSeq = m.seq) = none :=
    find?_eq_none.mpr (fun t ht => by simpa using h t ht)
  rw [afterTrades, find?_append, hn, Option.or_none, afterTrades]

theorem filterMap_afterTrades_eq_self
    (h : ∀ t ∈ ts, ∀ m ∈ ms, t.makerSeq ≠ m.seq) : ms.filterMap (afterTrades ts) = ms := by
  rw [filterMap_congr (g := some) (fun m hm => afterTrades_eq_some (fun t ht => h t ht m hm)),
    filterMap_some]

theorem makerSeq_mem {rem : UInt64} {t : Trade}
    (h : t ∈ (allot rem ms).map (tradeOf o)) : ∃ m ∈ ms, t.makerSeq = m.seq := by
  obtain ⟨x, hx, rfl⟩ := mem_map.mp h
  exact ⟨x.1, mem_of_mem_allot hx, rfl⟩

/-- **A settled level keeps what the trades leave**, order by order. -/
theorem settle_eq_filterMap (o : Order) : ∀ (ms : List RestingOrder) (rem : UInt64),
    ms.Pairwise (fun a b => a.seq ≠ b.seq) →
      settle o rem ms =
        ms.filterMap (afterTrades ((allot rem (ms.filter (!sameSMP o ·))).map (tradeOf o))) := by
  intro ms
  induction ms with
  | nil => intro rem _; rfl
  | cons m ms ih =>
    intro rem hd
    obtain ⟨hm, hms⟩ := pairwise_cons.mp hd
    by_cases h0 : rem = 0
    · rw [h0, settle_zero, allot_zero]
      exact (filterMap_afterTrades_eq_self (fun t ht => by simp at ht)).symm
    by_cases hs : sameSMP o m = true
    · rw [settle, if_neg h0, if_pos hs, filter_cons_of_neg (by simp [hs]), ih rem hms,
        filterMap_cons_some (b := m)]
      refine afterTrades_eq_some (fun t ht => ?_)
      obtain ⟨x, hx, hxt⟩ := makerSeq_mem ht
      rw [hxt]
      exact (hm x (mem_filter.mp hx).1).symm
    have htail : ms.filterMap (afterTrades (tradeOf o (m, min rem m.remaining) ::
          (allot (rem - min rem m.remaining) (ms.filter (!sameSMP o ·))).map (tradeOf o))) =
        settle o (rem - min rem m.remaining) ms := by
      rw [ih _ hms]
      refine filterMap_congr (fun x hx => ?_)
      have hhd : ∀ t ∈ [tradeOf o (m, min rem m.remaining)], t.makerSeq ≠ x.seq := by
        intro t ht
        rw [mem_singleton.mp ht]
        exact hm x hx
      exact afterTrades_append_left hhd
    have hhead : ∀ ts, afterTrades (tradeOf o (m, min rem m.remaining) :: ts) m =
        if m.remaining - min rem m.remaining = 0 then none
        else some { m with remaining := m.remaining - min rem m.remaining } := by
      intro ts
      rw [afterTrades, find?_cons_of_pos (by simp [tradeOf])]
      rfl
    rw [settle, if_neg h0, if_neg hs, filter_cons_of_pos (by simp [hs]), allot, if_neg h0, map_cons]
    by_cases hr : m.remaining - min rem m.remaining = 0
    · rw [if_pos hr, filterMap_cons_none (by rw [hhead, if_pos hr]), htail]
    · rw [if_neg hr, filterMap_cons_some (by rw [hhead, if_neg hr]), htail]

theorem price_mem_of_mem_settleLevels (o : Order) (ls : List PriceLevel) : ∀ (rem : UInt64) (l : PriceLevel), l ∈ settleLevels o rem ls → ∃ l' ∈ ls, l'.price = l.price := by
  induction ls with
  | nil => intro rem l h; simp [settleLevels] at h
  | cons k ks ih =>
    intro rem l h
    rw [settleLevels] at h
    split at h
    · exact ⟨l, h, rfl⟩
    split at h
    · obtain ⟨l', hl', hp⟩ := ih _ l h
      exact ⟨l', by simp [hl'], hp⟩
    rcases mem_cons.mp h with rfl | h
    · exact ⟨k, by simp, rfl⟩
    · obtain ⟨l', hl', hp⟩ := ih _ l h
      exact ⟨l', by simp [hl'], hp⟩

theorem makers_subset (o : Order) (ls : List PriceLevel) : ∀ (m : RestingOrder),
    m ∈ makers o ls → m ∈ ls.flatMap PriceLevel.orders := by
  induction ls with
  | nil => intro m h; simp [makers] at h
  | cons l ls ih =>
    intro m h
    rw [makers] at h
    rw [flatMap_cons, mem_append]
    split at h
    · rcases mem_append.mp h with h | h
      · exact .inl (mem_filter.mp h).1
      · exact .inr (ih m h)
    · simp at h

/-- **The settled side, queue by queue.**  `A` are the trades made at the levels
before. -/
theorem queueOf_settleLevels (o : Order) (ls : List PriceLevel) : ∀ (rem : UInt64) (A : List Trade), ls.Pairwise (fun a b => a.price ≠ b.price) →
      (ls.flatMap PriceLevel.orders).Pairwise (fun a b => a.seq ≠ b.seq) →
      (∀ t ∈ A, ∀ m ∈ ls.flatMap PriceLevel.orders, t.makerSeq ≠ m.seq) → ∀ p,
        queueOf (settleLevels o rem ls) p =
          (queueOf ls p).filterMap
            (afterTrades (A ++ (allot rem (makers o ls)).map (tradeOf o))) := by
  induction ls with
  | nil => intro rem A _ _ _ p; rfl
  | cons l ls ih =>
    intro rem A hprice hseq hA p
    have hstop : ∀ ts : List Trade, ts = A →
        queueOf (l :: ls) p = (queueOf (l :: ls) p).filterMap (afterTrades ts) := by
      rintro ts rfl
      exact (filterMap_afterTrades_eq_self (fun t ht m hm => hA t ht m (mem_queueOf hm))).symm
    by_cases h0 : rem = 0
    · rw [h0, settleLevels_zero, allot_zero]
      exact hstop _ (append_nil A)
    by_cases hr : reaches o l.price = false
    · rw [settleLevels, if_pos (.inr hr), makers, if_neg (by simp [hr])]
      exact hstop _ (append_nil A)
    have hr' : reaches o l.price = true := by simpa using hr
    obtain ⟨hpl, hpls⟩ := pairwise_cons.mp hprice
    rw [flatMap_cons] at hseq hA
    obtain ⟨hsl, hsls, hcross⟩ := pairwise_append.mp hseq
    have hT : ∀ t ∈ (allot rem (l.orders.filter (!sameSMP o ·))).map (tradeOf o),
        ∃ m ∈ l.orders, t.makerSeq = m.seq := by
      intro t ht
      obtain ⟨m, hm, he⟩ := makerSeq_mem ht
      exact ⟨m, (mem_filter.mp hm).1, he⟩
    rw [settleLevels, if_neg (by simp [h0, hr']), makers, if_pos hr', allot_append, map_append,
      ← append_assoc, queueOf_cons]
    by_cases hp : l.price = p
    · have hown : l.orders.filterMap (afterTrades ((A ++
            (allot rem (l.orders.filter (!sameSMP o ·))).map (tradeOf o)) ++
            (allot (left rem (l.orders.filter (!sameSMP o ·))) (makers o ls)).map (tradeOf o))) =
          settle o rem l.orders := by
        rw [settle_eq_filterMap o l.orders rem hsl]
        refine filterMap_congr (fun m hm => ?_)
        rw [afterTrades_append_right, afterTrades_append_left (fun t ht => hA t ht m (by simp [hm]))]
        intro t ht
        obtain ⟨x, hx, he⟩ := makerSeq_mem ht
        rw [he]
        exact (hcross m hm x (makers_subset o ls x hx)).symm
      rw [if_pos hp, hown]
      by_cases he : settle o rem l.orders = []
      · rw [if_pos he, he]
        refine queueOf_eq_nil (fun k hk => ?_)
        obtain ⟨k', hk', hkp⟩ := price_mem_of_mem_settleLevels o ls _ k hk
        rw [← hkp, ← hp]
        exact (hpl k' hk').symm
      · rw [if_neg he, queueOf_cons, if_pos hp]
    · have hrest := ih (left rem (l.orders.filter (!sameSMP o ·)))
        (A ++ (allot rem (l.orders.filter (!sameSMP o ·))).map (tradeOf o)) hpls hsls
        (by
          intro t ht m hm
          rcases mem_append.mp ht with ht | ht
          · exact hA t ht m (by simp [hm])
          · obtain ⟨x, hx, he⟩ := hT t ht
            rw [he]
            exact hcross x hx m hm) p
      rw [if_neg hp, ← hrest]
      by_cases he : settle o rem l.orders = []
      · rw [if_pos he]
      · rw [if_neg he, queueOf_cons, if_neg hp]

/-! ### The ranking -/

theorem Engine.fifo_eq_of_mem (hl : l ∈ (e.tree s).items) :
    e.fifo s l.price = l.orders := queueAt_eq_of_mem hl

namespace Engine.WF

variable {e : Engine}

theorem price_eq (hw : e.WF) (hl : l ∈ (e.tree s).items)
    {m : RestingOrder} (hm : m ∈ l.orders) : m.price = l.price := by
  rw [← fifo_eq_of_mem hl] at hm
  exact (hw.shape hm).2.1

theorem seq_pairwise (hw : e.WF) (s : Side) :
    (e.resting s).Pairwise (fun a b => a.seq ≠ b.seq) := by
  refine pairwise_flatMap.mpr ⟨fun l hl => ?_, ?_⟩
  · rw [← fifo_eq_of_mem hl]
    exact (hw.order s l.price).imp (fun h => Nat.ne_of_lt h)
  refine (e.tree s).sorted.imp_of_mem (fun {a b} ha hb hab x hx y hy he => ?_)
  rw [← fifo_eq_of_mem ha] at hx
  rw [← fifo_eq_of_mem hb] at hy
  exact BTree.ne_of_rel hab (hw.unique hx hy he).2

theorem resting_prior (hw : e.WF) (s : Side) : (e.resting s).Pairwise (Prior s) := by
  refine pairwise_flatMap.mpr ⟨fun l hl => ?_, ?_⟩
  · have ho := hw.order s l.price
    rw [fifo_eq_of_mem hl] at ho
    refine ho.imp_of_mem (fun {a b} ha hb hab => .inr ⟨?_, le_of_lt hab⟩)
    rw [hw.price_eq hl ha, hw.price_eq hl hb]
  · refine (e.tree s).sorted.imp_of_mem (fun {a b} ha hb hab x hx y hy => .inl ?_)
    rw [hw.price_eq ha hx, hw.price_eq hb hy]
    exact hab

end Engine.WF

theorem reaches_mono {p q : Int64} (h : reaches o p = false)
    (hpq : levelLess (oppositeSide o.side) p q) : reaches o q = false := by
  obtain ⟨hk, hc⟩ := reaches_eq_false.mp h
  refine reaches_eq_false.mpr ⟨hk, ?_⟩
  cases hs : o.side <;> simp only [hs, crosses, oppositeSide, levelLess, decide_eq_false_iff_not]
    at hc hpq ⊢ <;> grind

theorem filter_flatMap_eq_makers (o : Order) : ∀ ls : List PriceLevel,
    ls.Pairwise (fun a b => levelLess (oppositeSide o.side) a.price b.price) →
    (∀ l ∈ ls, ∀ m ∈ l.orders, m.price = l.price) →
      (ls.flatMap PriceLevel.orders).filter (fun m => !sameSMP o m && reaches o m.price) =
        makers o ls := by
  intro ls
  induction ls with
  | nil => intro _ _; rfl
  | cons l ls ih =>
    intro hs hp
    obtain ⟨hl, hls⟩ := pairwise_cons.mp hs
    have hown : ∀ m ∈ l.orders, m.price = l.price := hp l (by simp)
    rw [flatMap_cons, filter_append, makers]
    by_cases hr : reaches o l.price = true
    · rw [if_pos hr, ih hls (fun k hk => hp k (by simp [hk]))]
      congr 1
      refine filter_congr (fun m hm => ?_)
      rw [hown m hm, hr, Bool.and_true]
    have hr' : reaches o l.price = false := by simpa using hr
    rw [if_neg hr, append_eq_nil_iff, filter_eq_nil_iff, filter_eq_nil_iff]
    refine ⟨fun m hm => ?_, fun m hm => ?_⟩
    · rw [hown m hm, hr']
      simp
    · obtain ⟨k, hk, hm⟩ := mem_flatMap.mp hm
      rw [hp k (by simp [hk]) m hm, reaches_mono hr' (hl k hk)]
      simp

/-- **Walking the levels meets the makers by priority.** -/
theorem ranked_eq_makers (hw : e.WF) (o : Order) :
    ranked e o = makers o (e.tree (oppositeSide o.side)).items := by
  rw [ranked, List.Pairwise.insertionSort_eq ((hw.resting_prior _).filter _), resting,
    filter_flatMap_eq_makers o _ (e.tree (oppositeSide o.side)).sorted
      (fun l hl m hm => hw.price_eq hl hm)]

/-! ### What a match does to the engine -/

/-- The two fills of one allotment. -/
def fillsOf (o : Order) (x : RestingOrder × UInt64) : List Fill :=
  [⟨o.orderID, x.1.price, x.2⟩, ⟨x.1.orderID, x.1.price, x.2⟩]

/-- The ids of the makers an allotment uses up. -/
def usedUp (xs : List (RestingOrder × UInt64)) : List String :=
  (xs.filter (fun x => x.1.remaining - x.2 = 0)).map (fun x => x.1.orderID)

theorem foldl_absorb (o : Order) : ∀ (xs : List (RestingOrder × UInt64)) (e : Engine),
    xs.foldl (absorb o) e =
      { e with
        fills := e.fills ++ xs.flatMap (fillsOf o)
        trades := e.trades ++ xs.map (tradeOf o)
        index := (usedUp xs).foldl (fun i id => i.erase id) e.index
        evicted := e.evicted ++ usedUp xs } := by
  intro xs
  induction xs with
  | nil => intro e; simp [usedUp]
  | cons x xs ih =>
    intro e
    rw [foldl_cons, ih, absorb]
    by_cases h : x.1.remaining - x.2 = 0
    · rw [if_pos h]
      simp [dropMaker, recordTrade, usedUp, h, fillsOf, tradeOf]
    · rw [if_neg h]
      simp [recordTrade, usedUp, h, fillsOf, tradeOf]

/-- The engine after the match and before the residual rests. -/
def matched (e : Engine) (o : Order) : Engine :=
  let st := Engine.matchLoop o (e.tree (oppositeSide o.side)).items.length
    ⟨o.qty, e.tree (oppositeSide o.side), [], e⟩
  st.engine.setTree (oppositeSide o.side) (st.skippedLevels.foldl BTree.insert st.tree)

theorem oppositeSide_ne (s : Side) : s ≠ oppositeSide s := by cases s <;> decide

theorem eq_oppositeSide {s s' : Side} (h : s ≠ s') : s = oppositeSide s' := by
  cases s <;> cases s' <;> first | rfl | exact absurd rfl h

/-- **A match, as equations.**  The records grow by the greedy allotment, and
each queue of the other side keeps what the trades leave of it. -/
structure Matched (e : Engine) (o : Order) (e' : Engine) : Prop where
  items_opp : (e'.tree (oppositeSide o.side)).items =
    settleLevels o o.qty (e.tree (oppositeSide o.side)).items
  fifo_opp : ∀ p, e'.fifo (oppositeSide o.side) p =
    (e.fifo (oppositeSide o.side) p).filterMap (afterTrades (greedyTrades e o))
  tree_own : e'.tree o.side = e.tree o.side
  seq : e'.seq = e.seq
  fills : e'.fills = e.fills ++ (allot o.qty (ranked e o)).flatMap (fillsOf o)
  trades : e'.trades = e.trades ++ greedyTrades e o
  index : e'.index = (usedUp (allot o.qty (ranked e o))).foldl (fun i id => i.erase id) e.index
  evicted : e'.evicted = e.evicted ++ usedUp (allot o.qty (ranked e o))
  seqByOrder : e'.seqByOrder = e.seqByOrder
  repriced : e'.repriced = e.repriced

theorem matched_spec (hw : e.WF) (o : Order) : Matched e o (matched e o) := by
  obtain ⟨h1, -, h3⟩ := matchLoop_spec o (e.tree (oppositeSide o.side)).items.length
    ⟨o.qty, e.tree (oppositeSide o.side), [], e⟩ le_rfl (fun l hl m hm => hw.price_eq hl hm)
    (e.tree (oppositeSide o.side)).sorted
  dsimp only at h1 h3
  rw [← ranked_eq_makers hw o, foldl_absorb] at h3
  refine ⟨?_, fun p => ?_, ?_, ?_, ?_, ?_, ?_, ?_, ?_, ?_⟩
  · rw [matched, tree_setTree_self, h1, nil_append]
  · rw [matched, fifo_setTree, if_pos rfl]
    show queueOf _ p = _
    rw [h1, nil_append,
      queueOf_settleLevels o _ o.qty [] ?_ (hw.seq_pairwise _) (fun t ht => by simp at ht),
      ← ranked_eq_makers hw o]
    · rfl
    · exact (e.tree (oppositeSide o.side)).sorted.imp
        (fun h => BTree.ne_of_rel (r := levelLess (oppositeSide o.side)) h)
  · rw [matched, tree_setTree_ne _ _ (oppositeSide_ne o.side), h3]
    cases o.side <;> rfl
  · rw [matched, setTree_seq, h3]
  · rw [matched, setTree_fills, h3]
  · rw [matched, setTree_trades, h3, greedyTrades]
  · rw [matched, setTree_index, h3]
  · rw [matched, setTree_evicted, h3]
  · rw [matched, setTree_seqByOrder, h3]
  · rw [matched, setTree_repriced, h3]

theorem matchAndRest_eq (hw : e.WF) (o : Order) (rest : Bool) :
    e.matchAndRest o rest =
      if rest ∧ 0 < residual o (greedyTrades e o) ∧ o.kind = .newLimit then
        (matched e o).insert o (residual o (greedyTrades e o))
      else matched e o := by
  obtain ⟨-, h2, -⟩ := matchLoop_spec o (e.tree (oppositeSide o.side)).items.length
    ⟨o.qty, e.tree (oppositeSide o.side), [], e⟩ le_rfl (fun l hl m hm => hw.price_eq hl hm)
    (e.tree (oppositeSide o.side)).sorted
  dsimp only at h2
  rw [← ranked_eq_makers hw o, left_eq_residual o] at h2
  rw [matchAndRest, residual, greedyTrades, ← h2]
  rfl

/-! ### Every run -/

theorem eq_of_afterTrades (h : afterTrades ts m = some m') :
    ∃ q, m' = { m with remaining := q } := by
  rw [afterTrades] at h
  split at h
  · exact ⟨m.remaining, (Option.some.inj h).symm⟩
  · split at h
    · cases h
    · exact ⟨_, (Option.some.inj h).symm⟩

theorem shape_of_afterTrades (h : afterTrades ts m = some m') : m'.shape = m.shape := by
  obtain ⟨q, rfl⟩ := eq_of_afterTrades h
  rfl

theorem map_filterMap_sublist {α β : Type} {f : α → Option α} {g : α → β}
    (h : ∀ a b, f a = some b → g b = g a) : ∀ l : List α,
      ((l.filterMap f).map g).Sublist (l.map g) := by
  intro l
  induction l with
  | nil => exact Sublist.refl _
  | cons a l ih =>
    cases hf : f a with
    | none =>
      rw [filterMap_cons_none hf, map_cons]
      exact ih.cons _
    | some b =>
      rw [filterMap_cons_some hf, map_cons, map_cons, h a b hf]
      exact ih.cons_cons _

theorem shrinks_matched (hw : e.WF) (o : Order) : Engine.Shrinks e (matched e o) := by
  have hm := matched_spec hw o
  refine ⟨fun s p => ?_, hm.seq.ge⟩
  by_cases hs : s = o.side
  · subst hs
    rw [fifo, hm.tree_own]
    exact Sublist.refl _
  · obtain rfl := eq_oppositeSide hs
    rw [hm.fifo_opp]
    exact map_filterMap_sublist (fun _ _ h => shape_of_afterTrades h) _

namespace Engine

theorem WF.process {e : Engine} (hw : e.WF) (o : Order) : (e.process o).WF := by
  have hmatch : ∀ rest, (e.matchAndRest o rest).WF := by
    intro rest
    have hm := hw.of_shrinks (shrinks_matched hw o)
    rw [matchAndRest_eq hw]
    split
    · exact hm.insert _ _
    · exact hm
  unfold Engine.process
  split
  · exact hmatch true
  · exact hmatch false
  · exact hw.of_shrinks (shrinks_remove e _)
  · exact hw.replace o

/-- The engine after a list of `Process` calls. -/
def run (os : List Order) : Engine := os.foldl Engine.process newEngine

theorem WF.foldl (os : List Order) : ∀ {e : Engine}, e.WF → (os.foldl Engine.process e).WF := by
  induction os with
  | nil => intro e hw; exact hw
  | cons o os ih => intro e hw; exact ih (hw.process o)

theorem WF.run (os : List Order) : (run os).WF := WF.foldl os WF.newEngine

end Engine

/-! ### The result -/

/-- No trade is made with the order. -/
def Untouched (ts : List Trade) (m : RestingOrder) : Prop := ∀ t ∈ ts, t.makerSeq ≠ m.seq

instance (ts : List Trade) : DecidablePred (Untouched ts) := fun m =>
  inferInstanceAs (Decidable (∀ t ∈ ts, t.makerSeq ≠ m.seq))

theorem filter_untouched (ts : List Trade) : ∀ ms : List RestingOrder,
    (ms.filterMap (afterTrades ts)).filter (fun m => Untouched ts m) =
      ms.filter (fun m => Untouched ts m) := by
  intro ms
  induction ms with
  | nil => rfl
  | cons m ms ih =>
    by_cases hu : Untouched ts m
    · rw [filterMap_cons_some (afterTrades_eq_some hu),
        filter_cons_of_pos (by simpa using hu), filter_cons_of_pos (by simpa using hu), ih]
    rw [filter_cons_of_neg (by simpa using hu)]
    cases hf : afterTrades ts m with
    | none => rw [filterMap_cons_none hf, ih]
    | some m' =>
      have hseq : m'.seq = m.seq := congrArg Handle.seq (shape_of_afterTrades hf)
      have hu' : ¬ Untouched ts m' := by rw [Untouched, hseq]; exact hu
      rw [filterMap_cons_some hf, filter_cons_of_neg (by simpa using hu'), ih]

/-- **Matching is greedy price-time priority with skip-and-continue.**  From the
state after any list of `Process` calls, a limit or market order `o` appends
exactly the greedy trades.  Every queue of the other side becomes what those
trades leave of it; the orders not traded with stay as they are and in their
order, at parked levels too.  On its own side nothing changes, except that the
residual of a limit order joins the tail of its queue. -/
theorem process_priceTime (os : List Order) (o : Order)
    (hk : o.kind = .newLimit ∨ o.kind = .newMarket) :
    let e := run os
    let ts := greedyTrades e o
    (e.process o).trades = e.trades ++ ts ∧
    (∀ p, (e.process o).fifo (oppositeSide o.side) p =
      (e.fifo (oppositeSide o.side) p).filterMap (afterTrades ts)) ∧
    (∀ p, ((e.process o).fifo (oppositeSide o.side) p).filter (fun m => Untouched ts m) =
      (e.fifo (oppositeSide o.side) p).filter (fun m => Untouched ts m)) ∧
    (∀ p, (e.process o).fifo o.side p = e.fifo o.side p ++
      (if p = o.price ∧ o.kind = .newLimit ∧ 0 < residual o ts then
        [e.newResting o (residual o ts)] else [])) := by
  intro e ts
  have hw : e.WF := Engine.WF.run os
  have hm := matched_spec hw o
  have hown : ∀ p, (matched e o).fifo o.side p = e.fifo o.side p := fun p => by
    rw [fifo, hm.tree_own, fifo]
  have hnew : (matched e o).newResting o (residual o ts) = e.newResting o (residual o ts) := by
    rw [newResting, hm.seq, newResting]
  have hp : e.process o =
      if o.kind = .newLimit ∧ 0 < residual o ts then (matched e o).insert o (residual o ts)
      else matched e o := by
    rcases hk with hk | hk
    · rw [process, hk]
      rw [matchAndRest_eq hw, hk]
      simp only [true_and, and_true]
      rfl
    · rw [process, hk]
      dsimp only
      rw [matchAndRest_eq hw]
      simp
  have hopp : ∀ p, (e.process o).fifo (oppositeSide o.side) p =
      (e.fifo (oppositeSide o.side) p).filterMap (afterTrades ts) := by
    intro p
    rw [hp, ← hm.fifo_opp]
    split
    · rw [fifo_insert, if_neg (fun h => oppositeSide_ne o.side h.1.symm), append_nil]
    · rfl
  refine ⟨?_, hopp, fun p => by rw [hopp, filter_untouched], fun p => ?_⟩ <;>
    by_cases hr : o.kind = .newLimit ∧ 0 < residual o ts
  · rw [hp, if_pos hr]
    exact (setTree_trades _ _ _).trans hm.trades
  · rw [hp, if_neg hr, hm.trades]
  · rw [hp, if_pos hr, fifo_insert, hown, hnew]
    simp [true_and, hr, and_true]
  · rw [hp, if_neg hr, hown, if_neg (fun h => hr h.2), append_nil]

/-- A book whose best ask shares the id of `skipTaker`. -/
def skipBook : List Order :=
  [{ orderID := "a", side := .sell, price := 100, qty := 5, smpID := 7, hasSMPID := true },
   { orderID := "b", side := .sell, price := 101, qty := 3 },
   { orderID := "c", side := .sell, price := 101, qty := 4 }]

def skipTaker : Order :=
  { orderID := "t", side := .buy, price := 101, qty := 5, smpID := 7, hasSMPID := true }

theorem process_priceTime_skipTaker :
    (greedyTrades (run skipBook) skipTaker).map (fun t => (t.makerOrderID, t.qty)) =
      [("b", 3), ("c", 2)] ∧
    ((run skipBook).process skipTaker).trades =
      (run skipBook).trades ++ greedyTrades (run skipBook) skipTaker ∧
    ((run skipBook).process skipTaker).fifo .sell 100 =
      ((run skipBook).fifo .sell 100).filterMap
        (afterTrades (greedyTrades (run skipBook) skipTaker)) := by
  obtain ⟨h1, h2, -⟩ := process_priceTime skipBook skipTaker (.inl rfl)
  exact ⟨by decide, h1, h2 100⟩

end MatchBench.Book
