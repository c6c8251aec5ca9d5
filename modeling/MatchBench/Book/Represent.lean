import MatchBench.Book.Ledger

/-!
# The parts of the book agree

The engine keeps a resting order in a level of one of its two trees, in `index` under its
id, and in `seqByOrder` with its rank.  The mutators update these one by one.  `Represents`
says that between two calls they agree, and `run_represents` that they do after every list
of calls whose orders have ids and quantities.

The ledger has the part about the index.  `Upkeep` has the rest: no level is empty, every
resting order has a quantity left, and `seqByOrder` has its rank.
-/

namespace MatchBench.Book.Engine

open List AList

/-- **The trees, the index and the ranks agree.** -/
structure Represents (e : Engine) : Prop where
  /-- What the index holds stands in one level, that of its own side and price. -/
  indexed : ∀ id h, e.index.lookup id = some h →
    (∃ l ∈ (e.tree h.side).items, l.price = h.price ∧ ∃ m ∈ l.orders, m.shape = h ∧ m.orderID = id) ∧
    ∀ s, ∀ l ∈ (e.tree s).items, ∀ m ∈ l.orders, m.seq = h.seq → s = h.side ∧ l.price = h.price
  resting : ∀ s, ∀ l ∈ (e.tree s).items, ∀ m ∈ l.orders,
    e.index.lookup m.orderID = some m.shape ∧ m.side = s ∧ m.price = l.price ∧ 0 < m.remaining ∧
      e.seqByOrder.lookup m.orderID = some m.seq
  level : ∀ s, ∀ l ∈ (e.tree s).items, l.orders ≠ [] ∧ l.orders.Pairwise (fun a b => a.seq < b.seq)

/-- What the ledger does not say: about levels, quantities and ranks. -/
structure Upkeep (e : Engine) : Prop where
  level : ∀ s, ∀ l ∈ (e.tree s).items, l.orders ≠ []
  remaining : ∀ {s p m}, m ∈ e.fifo s p → 0 < m.remaining
  rank : ∀ {s p m}, m ∈ e.fifo s p → e.seqByOrder.lookup m.orderID = some m.seq

theorem Ledger.represents {ps : List Order} {e : Engine} (hl : Ledger ps e) (hu : e.Upkeep) :
    e.Represents where
  indexed id h hi := by
    obtain ⟨m, hm, hseq, hid⟩ := hl.index_iff.mp hi
    have hshape : m.shape = h := by
      rw [← hid, hl.lookup_eq hm] at hi
      exact Option.some.inj hi
    obtain ⟨l, hlm, hp, hml⟩ := mem_queueAt.mp hm
    refine ⟨⟨l, hlm, hp, m, hml, hshape, hid⟩, fun s l' hl' m' hm' hseq' => ?_⟩
    have hm'' : m' ∈ e.fifo s l'.price := mem_queueAt.mpr ⟨l', hl', rfl, hm'⟩
    exact hl.wf.unique hm'' hm (hseq'.trans hseq.symm)
  resting s l hlm m hm := by
    have hf : m ∈ e.fifo s l.price := mem_queueAt.mpr ⟨l, hlm, rfl, hm⟩
    obtain ⟨hs, hp, -⟩ := hl.wf.shape hf
    exact ⟨hl.lookup_eq hf, hs, hp, hu.remaining hf, hu.rank hf⟩
  level s l hlm := by
    refine ⟨hu.level s l hlm, ?_⟩
    have ho := hl.wf.order s l.price
    rwa [fifo, queueAt_eq_of_mem hlm] at ho

/-! ### Each operation -/

theorem settleLevels_level (o : Order) : ∀ {ls : List PriceLevel} (rem : UInt64),
    (∀ l ∈ ls, l.orders ≠ []) → ∀ l ∈ settleLevels o rem ls, l.orders ≠ [] := by
  intro ls
  induction ls with
  | nil => exact fun _ h => h
  | cons l ls ih =>
    intro rem h
    have hls := ih (left rem (l.orders.filter (!sameSMP o ·))) (fun x hx => h x (.tail _ hx))
    rw [settleLevels]
    split
    · exact h
    split
    · exact hls
    next hne =>
      exact forall_mem_cons.mpr ⟨hne, hls⟩

namespace Upkeep

variable {ps : List Order} {e : Engine}

theorem newEngine : Book.newEngine.Upkeep where
  level s l hl := by cases s <;> cases hl
  remaining {s p m} hm := by cases s <;> cases hm
  rank {s p m} hm := by cases s <;> cases hm

theorem of_sameBook {e' : Engine} (h : e.Upkeep) (hb : SameBook e e')
    (hs : e'.seqByOrder = e.seqByOrder) : e'.Upkeep where
  level s := by
    rw [hb.tree]
    exact h.level s
  remaining hm := h.remaining (hb.fifo _ _ ▸ hm)
  rank hm := by
    rw [hs]
    exact h.rank (hb.fifo _ _ ▸ hm)

theorem matched (h : e.Upkeep) (hl : Ledger ps e) (o : Order) : (matched e o).Upkeep where
  level s := by
    have hm := matched_spec hl.wf o
    by_cases hs : s = o.side
    · rw [hs, hm.tree_own]
      exact h.level o.side
    · obtain rfl := eq_oppositeSide hs
      rw [hm.items_opp]
      exact settleLevels_level o o.qty (h.level _)
  remaining {s p m'} hm' := by
    obtain ⟨m, hm, hu, hq, he⟩ := (hl.mem_fifo_matched o).mp hm'
    by_cases hx : ∃ q, (m, q) ∈ allot o.qty (ranked e o)
    · obtain ⟨q, hx⟩ := hx
      obtain ⟨hmq, hiff⟩ := hl.maker o hx
      have hne : m.remaining - q ≠ 0 := fun h0 => hu (hiff.mpr h0)
      have hsum := toNat_sub_add (allot_le hx)
      rw [hmq] at hq
      rw [show m'.remaining = m.remaining - q from
        UInt64.toNat_inj.mp (Nat.add_right_cancel (hq.trans hsum.symm))]
      exact UInt64.pos_iff_ne_zero.mpr hne
    · rw [(hl.not_maker o hm (fun x hxm he => hx ⟨x.2, he ▸ hxm⟩)).1, add_zero] at hq
      rw [UInt64.toNat_inj.mp hq]
      exact h.remaining hm
  rank {s p m'} hm' := by
    obtain ⟨m, hm, -, -, he⟩ := (hl.mem_fifo_matched o).mp hm'
    have hm := h.rank hm
    rw [(matched_spec hl.wf o).seqByOrder, he]
    exact hm

theorem insert (h : e.Upkeep) {o : Order} {rem : UInt64} (hrem : 0 < rem)
    (hn : ¬ e.RestsID o.orderID) : (e.insert o rem).Upkeep where
  level s l hl := by
    obtain ⟨l', hne, htree⟩ : ∃ l', l'.orders ≠ [] ∧ ∀ s, (e.insert o rem).tree s =
        (e.setTree o.side ((e.tree o.side).insert l')).tree s := by
      rw [Engine.insert]
      cases (e.tree o.side).get? o.price with
      | some level =>
        exact ⟨{ level with orders := level.orders ++ [e.newResting o rem] }, by simp,
          fun s => by cases s <;> rfl⟩
      | none => exact ⟨⟨o.price, [e.newResting o rem]⟩, by simp, fun s => by cases s <;> rfl⟩
    rw [htree] at hl
    by_cases hs : s = o.side
    · subst hs
      rw [tree_setTree_self, BTree.mem_insert] at hl
      rcases hl with rfl | ⟨hl, -⟩
      · exact hne
      · exact h.level _ l hl
    · rw [tree_setTree_ne _ _ hs] at hl
      exact h.level s l hl
  remaining hm := by
    rcases mem_fifo_insert hm with hm | ⟨-, -, rfl⟩
    · exact h.remaining hm
    · exact hrem
  rank {s p m} hm := by
    show (e.seqByOrder.insert o.orderID (e.seq + 1)).lookup m.orderID = some m.seq
    rcases mem_fifo_insert hm with hm | ⟨-, -, rfl⟩
    · rw [lookup_insert_ne (fun he => hn ⟨s, p, m, hm, he⟩)]
      exact h.rank hm
    · exact lookup_insert _

theorem level_unlink {s : Side} {t : Tree s} (h : ∀ l ∈ t.items, l.orders ≠ []) (p : Int64)
    (id : String) : ∀ l ∈ (unlink t p id).items, l.orders ≠ [] := by
  rw [unlink]
  split
  · exact h
  dsimp only
  split
  · exact fun l hl => h l (BTree.mem_erase.mp hl).1
  next hne =>
    intro l hl
    rcases BTree.mem_insert.mp hl with rfl | ⟨hl, -⟩
    · exact hne
    · exact h l hl

theorem remove (h : e.Upkeep) (hl : Ledger ps e) (id : String) : (e.remove id).Upkeep where
  level s := by
    rw [Engine.remove]
    split
    · exact h.level s
    rename_i ro _
    have htree : ∀ s, ({ e.setTree ro.side (unlink (e.tree ro.side) ro.price id) with
        index := e.index.erase id
        evicted := e.evicted ++ [id] } : Engine).tree s =
          (e.setTree ro.side (unlink (e.tree ro.side) ro.price id)).tree s := fun s => by
      cases s <;> rfl
    rw [htree]
    by_cases hs : s = ro.side
    · subst hs
      rw [tree_setTree_self]
      exact level_unlink (h.level _) _ _
    · rw [tree_setTree_ne _ _ hs]
      exact h.level s
  remaining hm := h.remaining ((hl.mem_fifo_remove id).mp hm).1
  rank hm := by
    rw [seqByOrder_remove]
    exact h.rank ((hl.mem_fifo_remove id).mp hm).1

theorem level_modify (h : ∀ s, ∀ l ∈ (e.tree s).items, l.orders ≠ []) (k : Handle)
    (f : RestingOrder → RestingOrder) : ∀ s, ∀ l ∈ ((e.modify k f).tree s).items, l.orders ≠ [] := by
  intro s
  rw [modify]
  split
  · exact h s
  rename_i l hg
  by_cases hs : s = k.side
  · subst hs
    rw [tree_setTree_self]
    intro l' hl'
    rcases BTree.mem_insert.mp hl' with rfl | ⟨hl', -⟩
    · exact fun he => h _ l (BTree.get?_eq_some.mp hg).1 (map_eq_nil_iff.mp he)
    · exact h _ l' hl'
  · rw [tree_setTree_ne _ _ hs]
    exact h s

theorem amend (h : e.Upkeep) (hl : Ledger ps e) {ro : RestingOrder} (hro : e.Rests ro) {q : UInt64}
    (hq : 0 < q) {id : String} (hn : ¬ e.RestsID id) : (e.amended ro q id).Upkeep where
  level s := by
    have htree : (e.amended ro q id).tree s =
        ((e.modify ro.shape (fun x => { x with remaining := q })).modify ro.shape
          (fun x => { x with orderID := id })).tree s := by cases s <;> rfl
    rw [htree]
    exact level_modify (level_modify h.level _ _) _ _ s
  remaining hm := by
    rcases (hl.mem_fifo_amended hro q id).mp hm with ⟨hm, -⟩ | ⟨-, -, rfl⟩
    · exact h.remaining hm
    · exact hq
  rank {s p m} hm := by
    obtain ⟨s₀, p₀, hro'⟩ := hro
    have hseq : (e.amended ro q id).seqByOrder = (e.seqByOrder.insert id ro.seq).erase ro.orderID := by
      rw [amended, rename]
      rw [seqByOrder_modify, h.rank hro']
    have hne : id ≠ ro.orderID := fun he => hn ⟨s₀, p₀, ro, hro', he.symm⟩
    rw [hseq]
    rcases (hl.mem_fifo_amended ⟨s₀, p₀, hro'⟩ q id).mp hm with ⟨hm, hmne⟩ | ⟨-, -, rfl⟩
    · rw [lookup_erase_ne hmne, lookup_insert_ne (fun he => hn ⟨s, p, m, hm, he⟩)]
      exact h.rank hm
    · rw [lookup_erase_ne hne]
      exact lookup_insert _

/-! ### One call and every run -/

theorem process (h : e.Upkeep) (hl : Ledger ps e) {o : Order} (hf : ∀ a ∈ ps, a.orderID ≠ o.orderID)
    (hid : o.orderID ≠ "") (hq : 0 < o.qty) : (e.process o).Upkeep := by
  have hn := not_rests_fresh hl o hf
  have hstep := process_cases hl.wf o
  generalize e.process o = e' at hstep ⊢
  cases hstep with
  | filled hk => exact h.matched hl o
  | rested hk hrem =>
    exact (h.matched hl o).insert hrem (not_rests_matched hl o hf)
  | cancelled hk => exact h.remove hl _
  | ignored hk hnone => exact h
  | kept ro hk hro hp hid' =>
    have hrests := mem_fifo_of_find hl.wf hro
    exact absurd (hid'.resolve_left hid) (fun he => hn ⟨_, _, ro, hrests, he.symm⟩)
  | amended ro hk hro hp hid' hne =>
    exact h.amend hl ⟨_, _, mem_fifo_of_find hl.wf hro⟩ hq hn
  | moved ro hk hro hp =>
    have hb := SameBook.reprice e o ro
    have hl₁ := hl.of_sameBook hb (fills_reprice e o ro)
    have hr := (h.of_sameBook hb (seqByOrder_reprice e o ro)).remove hl₁ o.origOrderID
    refine hr.insert hq ?_
    rintro ⟨s, p, m, hm, he⟩
    have hm := ((hl₁.mem_fifo_remove _).mp hm).1
    rw [hb.fifo] at hm
    exact hn ⟨s, p, m, hm, he.trans (if_pos hid)⟩

end Upkeep

/-- **The parts of the book agree after every call**, when no two orders share an id and
each has an id and a quantity. -/
theorem run_represents : ∀ os : List Order, os.Pairwise (fun a b => a.orderID ≠ b.orderID) →
    (∀ o ∈ os, o.orderID ≠ "") → (∀ o ∈ os, 1 ≤ o.qty) → (run os).Represents := by
  intro os hd hid hq
  have hsession : ∀ ps qs : List Order, ps ++ qs = os → Session ps := by
    rintro ps qs rfl
    exact ⟨hd.sublist (sublist_append_left ps qs),
      fun o ho _ => hid o (mem_append_left qs ho)⟩
  have hupkeep : ∀ ps qs : List Order, ps ++ qs = os → (run ps).Upkeep := by
    intro ps
    induction ps using reverseRecOn with
    | nil => exact fun _ _ => Upkeep.newEngine
    | append_singleton ps o ih =>
      intro qs hos
      have hmem : o ∈ os := by simp [← hos]
      have hpre : ps ++ (o :: qs) = os := by rw [← hos, append_assoc]; rfl
      rw [run_snoc]
      exact (ih (o :: qs) hpre).process (Ledger.run ps (hsession ps _ hpre))
        (hsession (ps ++ [o]) qs hos).snoc.2.1 (hid o hmem)
        (UInt64.lt_of_lt_of_le (by decide) (hq o hmem))
  exact (Ledger.run os (hsession os [] (append_nil os))).represents (hupkeep os [] (append_nil os))

/-- Two bids of one level, an ask that takes the first, an amendment in place under a new id
and one that moves the order. -/
def busyBook : List Order :=
  [{ orderID := "a", side := .buy, price := 10, qty := 5 },
   { orderID := "b", side := .buy, price := 10, qty := 5 },
   { orderID := "c", side := .sell, price := 10, qty := 7 },
   { orderID := "d", kind := .replace, origOrderID := "b", side := .buy, price := 10, qty := 2 },
   { orderID := "e", kind := .replace, origOrderID := "d", side := .buy, price := 9, qty := 4 }]

theorem run_represents_busyBook : (run busyBook).Represents :=
  run_represents busyBook (by decide) (by decide) (by decide)


end MatchBench.Book.Engine
