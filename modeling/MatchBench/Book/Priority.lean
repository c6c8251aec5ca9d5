import MatchBench.Book.Fifo

/-!
# Price-time priority

What matching is for, stated without trees, parking or loops.  `ranked e o` is
the list of resting orders the aggressor `o` may trade with: those of the other
side, without the ones that share its self-match-prevention id and the ones its
limit does not reach, best price first and oldest first within a price.
`allot` fills the aggressor from such a list, `min` by `min`, and
`greedyTrades` are the trades that makes.  `afterTrades ts m` is what is left of
the resting order `m` when the trades `ts` are settled.

The rest of the file follows the loops.  `settle` is what one level keeps and
`settleLevels` what the side keeps; `matchLevel_spec` and `matchLoop_spec` say
that the loops compute them, with the parked levels back in their places.
`queueOf_settleLevels` turns them into `afterTrades`, queue by queue.
-/

namespace MatchBench.Book

open List

/-! ### The specification -/

/-- The aggressor's limit admits the price; a market order admits every price. -/
def reaches (o : Order) (p : Int64) : Bool := o.kind ≠ .newLimit || crosses o.side o.price p

/-- Best price first, then oldest first. -/
def Prior (s : Side) (a b : RestingOrder) : Prop :=
  levelLess s a.price b.price ∨ (a.price = b.price ∧ a.seq ≤ b.seq)

instance (s : Side) : DecidableRel (Prior s) := fun _ _ => inferInstanceAs (Decidable (_ ∨ _))

/-- All resting orders of a side. -/
def Engine.resting (e : Engine) (s : Side) : List RestingOrder :=
  (e.tree s).items.flatMap PriceLevel.orders

/-- The resting orders `o` may trade with, by priority. -/
def ranked (e : Engine) (o : Order) : List RestingOrder :=
  ((e.resting (oppositeSide o.side)).filter
    (fun m => !sameSMP o m && reaches o m.price)).insertionSort (Prior (oppositeSide o.side))

/-- Fill `rem` from the makers in turn; each gives what it has or what is wanted. -/
def allot : UInt64 → List RestingOrder → List (RestingOrder × UInt64)
  | _, [] => []
  | rem, m :: ms =>
      if rem = 0 then []
      else (m, min rem m.remaining) :: allot (rem - min rem m.remaining) ms

/-- What is left of `rem` after `allot`. -/
def left : UInt64 → List RestingOrder → UInt64
  | rem, [] => rem
  | rem, m :: ms => left (rem - min rem m.remaining) ms

/-- The trade of `q` between the aggressor and a maker, at the maker's price. -/
def tradeOf (o : Order) (x : RestingOrder × UInt64) : Trade where
  makerOrderID := x.1.orderID
  takerOrderID := o.orderID
  price := x.1.price
  qty := x.2
  makerSeq := x.1.seq
  makerSMPID := x.1.smpID
  makerHasSMPID := x.1.hasSMP
  takerSMPID := o.smpID
  takerHasSMPID := o.hasSMPID

def greedyTrades (e : Engine) (o : Order) : List Trade :=
  (allot o.qty (ranked e o)).map (tradeOf o)

/-- What is left of a resting order when the trades are settled. -/
def afterTrades (ts : List Trade) (m : RestingOrder) : Option RestingOrder :=
  match ts.find? (fun t => t.makerSeq = m.seq) with
  | none => some m
  | some t =>
      if m.remaining - t.qty = 0 then none
      else some { m with remaining := m.remaining - t.qty }

/-- What the trades leave of the aggressor. -/
def residual (o : Order) (ts : List Trade) : UInt64 := ts.foldl (fun q t => q - t.qty) o.qty

/-! ### Filling a list of makers -/

theorem sub_min_eq_zero (a b : UInt64) : a - min a b = 0 ∨ b - min a b = 0 := by
  by_cases h : a ≤ b
  · rw [show min a b = a from if_pos h]
    exact .inl (UInt64.sub_self a)
  · rw [show min a b = b from if_neg h]
    exact .inr (UInt64.sub_self b)

theorem zero_sub_min (b : UInt64) : 0 - min 0 b = 0 := by
  rw [show min 0 b = 0 from if_pos (UInt64.zero_le)]
  rfl

theorem left_zero : ∀ ms : List RestingOrder, left 0 ms = 0 := by
  intro ms
  induction ms with
  | nil => rfl
  | cons m ms ih => rw [left, zero_sub_min, ih]

theorem allot_zero (ms : List RestingOrder) : allot 0 ms = [] := by
  cases ms with
  | nil => rfl
  | cons m ms => rw [allot, if_pos rfl]

theorem left_append : ∀ (rem : UInt64) (xs ys : List RestingOrder),
    left rem (xs ++ ys) = left (left rem xs) ys := by
  intro rem xs
  induction xs generalizing rem with
  | nil => intro ys; rfl
  | cons x xs ih => intro ys; rw [cons_append, left, ih, left]

theorem allot_append (rem : UInt64) : ∀ (xs ys : List RestingOrder),
    allot rem (xs ++ ys) = allot rem xs ++ allot (left rem xs) ys := by
  intro xs
  induction xs generalizing rem with
  | nil => intro ys; rfl
  | cons x xs ih =>
    intro ys
    by_cases h : rem = 0
    · rw [h, allot_zero, allot_zero, left_zero, allot_zero, nil_append]
    · rw [cons_append, allot, if_neg h, ih, allot, if_neg h, left, cons_append]

variable {ms : List RestingOrder} {o : Order}

theorem mem_of_mem_allot {rem : UInt64} : ∀ {x : RestingOrder × UInt64},
    x ∈ allot rem ms → x.1 ∈ ms := by
  induction ms generalizing rem with
  | nil => intro x h; simp [allot] at h
  | cons m ms ih =>
    intro x h
    rw [allot] at h
    split at h
    · simp at h
    · rcases mem_cons.mp h with rfl | h
      · exact .head _
      · exact mem_cons_of_mem _ (ih h)

theorem left_eq_residual (o : Order) (rem : UInt64) (ms : List RestingOrder) :
    left rem ms = ((allot rem ms).map (tradeOf o)).foldl (fun q t => q - t.qty) rem := by
  induction ms generalizing rem with
  | nil => rfl
  | cons m ms ih =>
    by_cases h : rem = 0
    · rw [h, left_zero, allot_zero]
      rfl
    · rw [left, ih, allot, if_neg h]
      rfl

/-! ### One level -/

/-- The effect of one fill on the engine's records and index. -/
def absorb (o : Order) (e : Engine) (x : RestingOrder × UInt64) : Engine :=
  if x.1.remaining - x.2 = 0 then (e.recordTrade o x.1.price x.1 x.2).dropMaker x.1.orderID
  else e.recordTrade o x.1.price x.1 x.2

/-- The queue of a level when `rem` has been filled from it. -/
def settle (o : Order) : UInt64 → List RestingOrder → List RestingOrder
  | _, [] => []
  | rem, m :: ms =>
      if rem = 0 then m :: ms
      else if sameSMP o m then m :: settle o rem ms
      else if m.remaining - min rem m.remaining = 0 then
        settle o (rem - min rem m.remaining) ms
      else
        { m with remaining := m.remaining - min rem m.remaining } ::
          settle o (rem - min rem m.remaining) ms

theorem settle_zero (o : Order) (ms : List RestingOrder) : settle o 0 ms = ms := by
  cases ms with
  | nil => rfl
  | cons m ms => rw [settle, if_pos rfl]

theorem matchLevel_spec (o : Order) (p : Int64) : ∀ (ms : List RestingOrder) (rem : UInt64)
    (sk : List RestingOrder) (e : Engine), (∀ m ∈ ms, m.price = p) →
      (Engine.matchLevel o p ms rem sk e).remaining = left rem (ms.filter (!sameSMP o ·)) ∧
      (Engine.matchLevel o p ms rem sk e).skipped ++ (Engine.matchLevel o p ms rem sk e).orders
        = sk ++ settle o rem ms ∧
      (Engine.matchLevel o p ms rem sk e).engine =
        (allot rem (ms.filter (!sameSMP o ·))).foldl (absorb o) e := by
  intro ms
  induction ms with
  | nil => intro rem sk e _; exact ⟨rfl, rfl, rfl⟩
  | cons m ms ih =>
    intro rem sk e hp
    have hms : ∀ x ∈ ms, x.price = p := fun x hx => hp x (by simp [hx])
    have hm : m.price = p := hp m (by simp)
    by_cases h0 : rem = 0
    · subst h0
      rw [Engine.matchLevel, if_pos rfl, left_zero, allot_zero, settle_zero]
      exact ⟨rfl, rfl, rfl⟩
    by_cases hs : sameSMP o m = true
    · obtain ⟨h1, h2, h3⟩ := ih rem (sk ++ [m]) e hms
      rw [Engine.matchLevel, if_neg h0, if_pos hs, settle, if_neg h0, if_pos hs,
        filter_cons_of_neg (by simp [hs])]
      refine ⟨h1, ?_, h3⟩
      rw [h2]
      simp
    rw [Engine.matchLevel, if_neg h0, if_neg hs, settle, if_neg h0, if_neg hs,
      filter_cons_of_pos (by simp [hs]), left, allot, if_neg h0, foldl_cons, absorb]
    rw [hm]
    by_cases hr : m.remaining - min rem m.remaining = 0
    · obtain ⟨h1, h2, h3⟩ := ih (rem - min rem m.remaining) sk
        ((e.recordTrade o p m (min rem m.remaining)).dropMaker m.orderID) hms
      rw [if_pos hr, if_pos hr, if_pos hr]
      exact ⟨h1, h2, h3⟩
    · have hz : rem - min rem m.remaining = 0 := (sub_min_eq_zero _ _).resolve_right hr
      rw [if_neg hr, if_neg hr, if_neg hr, hz, left_zero, allot_zero, settle_zero]
      exact ⟨rfl, rfl, rfl⟩

theorem settle_of_left_ne_zero (o : Order) (ms : List RestingOrder) : ∀ (rem : UInt64),
    left rem (ms.filter (!sameSMP o ·)) ≠ 0 → settle o rem ms = ms.filter (sameSMP o ·) := by
  induction ms with
  | nil => intro rem _; rfl
  | cons m ms ih =>
    intro rem h
    have h0 : rem ≠ 0 := fun he => h (by rw [he, left_zero])
    by_cases hs : sameSMP o m = true
    · rw [filter_cons_of_neg (by simp [hs])] at h
      rw [settle, if_neg h0, if_pos hs, ih rem h, filter_cons_of_pos hs]
    rw [filter_cons_of_pos (by simp [hs]), left] at h
    have hr : m.remaining - min rem m.remaining = 0 := by
      refine (sub_min_eq_zero _ _).resolve_left (fun hz => h ?_)
      rw [hz, left_zero]
    rw [settle, if_neg h0, if_neg hs, if_pos hr, ih _ h, filter_cons_of_neg hs]

theorem allSameSMP_of_filter (h : ms.filter (sameSMP o ·) ≠ []) :
    (o.hasSMPID && allSameSMP (ms.filter (sameSMP o ·)) o.smpID) = true := by
  obtain ⟨x, xs, hx⟩ := exists_cons_of_ne_nil h
  have hmem : ∀ y ∈ ms.filter (sameSMP o ·), sameSMP o y = true :=
    fun y hy => (mem_filter.mp hy).2
  have hx0 := hmem x (by rw [hx]; simp)
  simp only [sameSMP, Bool.and_eq_true] at hx0 hmem
  rw [Bool.and_eq_true, allSameSMP, Bool.and_eq_true]
  refine ⟨hx0.1.1, all_eq_true.mpr (fun y hy => ?_), by rw [hx]; rfl⟩
  rw [Bool.and_eq_true]
  exact ⟨(hmem y hy).1.2, (hmem y hy).2⟩

/-! ### The side -/

/-- The levels of the side when `rem` has been filled from them. -/
def settleLevels (o : Order) : UInt64 → List PriceLevel → List PriceLevel
  | _, [] => []
  | rem, l :: ls =>
      if rem = 0 ∨ reaches o l.price = false then l :: ls
      else if settle o rem l.orders = [] then
        settleLevels o (left rem (l.orders.filter (!sameSMP o ·))) ls
      else
        { l with orders := settle o rem l.orders } ::
          settleLevels o (left rem (l.orders.filter (!sameSMP o ·))) ls

/-- The makers the aggressor may trade with, level by level. -/
def makers (o : Order) : List PriceLevel → List RestingOrder
  | [] => []
  | l :: ls =>
      if reaches o l.price then l.orders.filter (!sameSMP o ·) ++ makers o ls else []

theorem settleLevels_zero (o : Order) (ls : List PriceLevel) : settleLevels o 0 ls = ls := by
  cases ls with
  | nil => rfl
  | cons l ls => rw [settleLevels, if_pos (.inl rfl)]

theorem reaches_eq_false {p : Int64} :
    reaches o p = false ↔ o.kind = .newLimit ∧ crosses o.side o.price p = false := by
  simp [reaches]

open Engine (Sweep matchLoop)

/-- **The loop over the levels leaves the settled side**, the parked levels back
in front, and records the greedy fills. -/
theorem matchLoop_spec (o : Order) {s : Side} : ∀ (fuel : Nat) (st : Sweep s),
    st.tree.items.length ≤ fuel →
    (∀ l ∈ st.tree.items, ∀ m ∈ l.orders, m.price = l.price) →
    (st.skippedLevels ++ st.tree.items).Pairwise (fun a b => levelLess s a.price b.price) →
      ((matchLoop o fuel st).skippedLevels.foldl BTree.insert (matchLoop o fuel st).tree).items
        = st.skippedLevels ++ settleLevels o st.remaining st.tree.items ∧
      (matchLoop o fuel st).remaining = left st.remaining (makers o st.tree.items) ∧
      (matchLoop o fuel st).engine =
        (allot st.remaining (makers o st.tree.items)).foldl (absorb o) st.engine := by
  intro fuel
  induction fuel with
  | zero =>
    intro st hlen _ hs
    have hnil : st.tree.items = [] := eq_nil_of_length_eq_zero (by omega)
    have hback : (st.skippedLevels.foldl BTree.insert st.tree).items
        = st.skippedLevels ++ st.tree.items :=
      BTree.foldl_insert_items _ [] _ _ rfl hs
    rw [hnil] at hback ⊢
    exact ⟨hback, rfl, rfl⟩
  | succ fuel ih =>
    intro st hlen hprice hs
    have hback : (st.skippedLevels.foldl BTree.insert st.tree).items
        = st.skippedLevels ++ st.tree.items :=
      BTree.foldl_insert_items _ [] _ _ rfl hs
    by_cases h0 : st.remaining = 0
    · rw [matchLoop, if_pos h0, hback, h0, settleLevels_zero, left_zero, allot_zero]
      exact ⟨rfl, rfl, rfl⟩
    rw [matchLoop, if_neg h0]
    cases hi : st.tree.items with
    | nil =>
      rw [show st.tree.min? = none by rw [BTree.min?, hi]; rfl]
      rw [hback, hi]
      exact ⟨rfl, rfl, rfl⟩
    | cons l ls =>
      rw [show st.tree.min? = some l by rw [BTree.min?, hi]; rfl]
      dsimp only
      rw [hi] at hlen hprice hs hback
      by_cases hr : reaches o l.price = false
      · rw [if_pos (reaches_eq_false.mp hr), hback, settleLevels, if_pos (.inr hr), makers,
          if_neg (by rw [hr]; simp)]
        exact ⟨rfl, rfl, rfl⟩
      have hr' : reaches o l.price = true := by simpa using hr
      have hset : settleLevels o st.remaining (l :: ls) =
          if settle o st.remaining l.orders = [] then
            settleLevels o (left st.remaining (l.orders.filter (!sameSMP o ·))) ls
          else
            { l with orders := settle o st.remaining l.orders } ::
              settleLevels o (left st.remaining (l.orders.filter (!sameSMP o ·))) ls := by
        rw [settleLevels, if_neg (by simp [h0, hr'])]
      obtain ⟨h1, h2, h3⟩ := matchLevel_spec o l.price l.orders st.remaining [] st.engine
        (fun m hm => hprice l (by simp) m hm)
      generalize Engine.matchLevel o l.price l.orders st.remaining [] st.engine = r at h1 h2 h3
      rw [nil_append] at h2
      rw [if_neg (fun h => hr (reaches_eq_false.mpr h)), h2, h1, h3, hset, makers, if_pos hr',
        left_append, allot_append, foldl_append]
      have herase : (st.tree.erase l.price).items = ls := BTree.erase_min_items hi
      have hls : ∀ l' ∈ ls, ∀ m ∈ l'.orders, m.price = l'.price :=
        fun l' hl' => hprice l' (by simp [hl'])
      have hlen' : ls.length ≤ fuel := by simp only [length_cons] at hlen; omega
      have hback' : (st.skippedLevels ++ { l with orders := settle o st.remaining l.orders } ::
          ls).Pairwise (fun a b => levelLess s a.price b.price) := by
        have hmap : ((st.skippedLevels ++ l :: ls).map PriceLevel.price).Pairwise
            (levelLess s) := pairwise_map.mpr hs
        rw [← pairwise_map (f := PriceLevel.price) (R := levelLess s)]
        simpa using hmap
      have hnext := fun skippedLevels => ih
        { remaining := left st.remaining (l.orders.filter (!sameSMP o ·))
          tree := st.tree.erase l.price
          skippedLevels := skippedLevels
          engine := (allot st.remaining (l.orders.filter (!sameSMP o ·))).foldl (absorb o) st.engine }
        (by rw [herase]; exact hlen') (by rw [herase]; exact hls)
      simp only [herase] at hnext
      by_cases he : settle o st.remaining l.orders = []
      · rw [if_pos he, if_pos he]
        exact hnext _ (hs.sublist (Sublist.append_left (sublist_cons_self _ _) _))
      rw [if_neg he, if_neg he]
      by_cases hall : (o.hasSMPID && allSameSMP (settle o st.remaining l.orders) o.smpID) = true
      · rw [if_pos hall]
        have := hnext (st.skippedLevels ++ [{ l with orders := settle o st.remaining l.orders }])
          (by rw [append_assoc]; exact hback')
        rw [append_assoc] at this
        exact this
      · have hz : left st.remaining (l.orders.filter (!sameSMP o ·)) = 0 := by
          by_contra hne
          rw [settle_of_left_ne_zero o l.orders st.remaining hne] at he hall
          exact hall (allSameSMP_of_filter he)
        rw [if_neg hall, hz, settleLevels_zero, left_zero, allot_zero]
        have hins : (st.tree.insert { l with orders := settle o st.remaining l.orders }).items
            = { l with orders := settle o st.remaining l.orders } :: ls :=
          BTree.insert_min_items hi rfl
        exact ⟨BTree.foldl_insert_items _ [] _ _ hins hback', rfl, rfl⟩

end MatchBench.Book
