import MatchBench.Book.Step

/-!
# Ids and quantities along a run

`Ledger ps e` is what the engine `e` owes to the orders `ps` it has processed:
the index names exactly the resting orders (`index_iff`); each resting order has
an owner in `ps`, under whose id no more has been filled and rests than the
owner asked for (`owner`); no order is filled beyond its quantity (`filled`).

`process_ledger` says that one more `Process` call keeps it, when the id of the
order is new and a replace that moves its order carries an id of its own
(`Named`).  A replace without an id puts the order that it moves under the old id
again, and nothing here holds for it.  `Effect` is what a call can do to the ids:
it fills the new order or an order that rested, the ids it evicts rest no more,
and no id comes to rest but the new one.
-/

namespace MatchBench.Book

open List AList

/-! ### Allotments -/

/-- The quantity an allotment gives to the aggressor. -/
def allotted (xs : List (RestingOrder × UInt64)) : Nat := (xs.map (fun x => x.2.toNat)).sum

theorem min_le_left (a b : UInt64) : min a b ≤ a := by
  by_cases h : a ≤ b
  · rw [show min a b = a from if_pos h]
    exact UInt64.le_refl a
  · rw [show min a b = b from if_neg h]
    exact UInt64.le_of_lt (UInt64.not_le.mp h)

theorem min_le_right (a b : UInt64) : min a b ≤ b := by
  by_cases h : a ≤ b
  · rw [show min a b = a from if_pos h]
    exact h
  · rw [show min a b = b from if_neg h]
    exact UInt64.le_refl b

theorem toNat_sub_add {a b : UInt64} (h : b ≤ a) : (a - b).toNat + b.toNat = a.toNat := by
  rw [UInt64.toNat_sub_of_le _ _ h]
  have := UInt64.le_iff_toNat_le.mp h
  omega

theorem allot_fst_initial : ∀ (rem : UInt64) (ms : List RestingOrder),
    (allot rem ms).map Prod.fst <+: ms := by
  intro rem ms
  induction ms generalizing rem with
  | nil => exact prefix_refl _
  | cons m ms ih =>
    rw [allot]
    split
    · exact List.nil_prefix
    · exact (prefix_cons_inj m).mpr (ih _)

theorem allot_le {rem : UInt64} {ms : List RestingOrder} : ∀ {x : RestingOrder × UInt64},
    x ∈ allot rem ms → x.2 ≤ x.1.remaining := by
  induction ms generalizing rem with
  | nil => intro x h; simp [allot] at h
  | cons m ms ih =>
    intro x h
    rw [allot] at h
    split at h
    · simp at h
    · rcases mem_cons.mp h with rfl | h
      · exact min_le_right _ _
      · exact ih h

theorem left_add_allotted (rem : UInt64) (ms : List RestingOrder) :
    (left rem ms).toNat + allotted (allot rem ms) = rem.toNat := by
  induction ms generalizing rem with
  | nil => simp [left, allot, allotted]
  | cons m ms ih =>
    by_cases h : rem = 0
    · rw [h, left_zero, allot_zero]
      rfl
    have := ih (rem - min rem m.remaining)
    have hs := toNat_sub_add (min_le_left rem m.remaining)
    rw [left, allot, if_neg h]
    simp only [allotted, map_cons, sum_cons] at this ⊢
    omega

/-! ### Filled quantities -/

/-- The quantity filled under an id. -/
def fillQty (fs : List Fill) (id : String) : Nat :=
  ((fs.filter (fun f => f.orderID = id)).map (fun f => f.qty.toNat)).sum

/-- The quantity an allotment takes from the maker of an id. -/
def makerQty (xs : List (RestingOrder × UInt64)) (id : String) : Nat :=
  ((xs.filter (fun x => x.1.orderID = id)).map (fun x => x.2.toNat)).sum

@[simp] theorem fillQty_append (fs gs : List Fill) (id : String) :
    fillQty (fs ++ gs) id = fillQty fs id + fillQty gs id := by
  simp [fillQty]

variable {id : String} {xs : List (RestingOrder × UInt64)} {x : RestingOrder × UInt64}
  {m : RestingOrder}

theorem fillQty_eq_zero {fs : List Fill} (h : ∀ f ∈ fs, f.orderID ≠ id) : fillQty fs id = 0 := by
  rw [fillQty, filter_eq_nil_iff.mpr (fun f hf => by simpa using h f hf)]
  rfl

theorem makerQty_eq_zero (h : ∀ x ∈ xs, x.1.orderID ≠ id) : makerQty xs id = 0 := by
  rw [makerQty, filter_eq_nil_iff.mpr (fun f hf => by simpa using h f hf)]
  rfl

theorem makerQty_eq (hx : x ∈ xs) (h : xs.Pairwise (fun a b => a.1.orderID ≠ b.1.orderID)) :
    makerQty xs x.1.orderID = x.2.toNat := by
  induction xs with
  | nil => simp at hx
  | cons y ys ih =>
    obtain ⟨hy, hys⟩ := pairwise_cons.mp h
    rcases mem_cons.mp hx with rfl | hx
    · have hz : makerQty ys x.1.orderID = 0 := makerQty_eq_zero (fun z hz => (hy z hz).symm)
      rw [makerQty] at hz ⊢
      rw [filter_cons_of_pos (by simp), map_cons, sum_cons, hz]
      rfl
    · rw [makerQty, filter_cons_of_neg (by simpa using hy x hx)]
      exact ih hx hys

theorem fillQty_fillsOf (o : Order) (id : String) : ∀ xs : List (RestingOrder × UInt64),
    fillQty (xs.flatMap (fillsOf o)) id =
      (if o.orderID = id then allotted xs else 0) + makerQty xs id := by
  intro xs
  induction xs with
  | nil => simp [fillQty, makerQty, allotted]
  | cons x xs ih =>
    rw [flatMap_cons, fillQty_append, ih]
    by_cases ho : o.orderID = id <;> by_cases hx : x.1.orderID = id <;>
      simp [fillQty, fillsOf, makerQty, allotted, ho, hx] <;> omega

/-! ### The queues as a set -/

namespace Engine

/-- Some order of that id rests in the book. -/
def RestsID (e : Engine) (id : String) : Prop := ∃ s p, ∃ m ∈ e.fifo s p, m.orderID = id

variable {e : Engine} {s : Side} {m : RestingOrder}

theorem WF.eq_of_seq (hw : e.WF) {s s' : Side} {p p' : Int64} {m m' : RestingOrder}
    (hm : m ∈ e.fifo s p) (hm' : m' ∈ e.fifo s' p') (h : m.seq = m'.seq) : m = m' := by
  obtain ⟨rfl, rfl⟩ := hw.unique hm hm' h
  have hnd : ((e.fifo s p).map RestingOrder.seq).Nodup :=
    pairwise_map.mpr ((hw.order s p).imp (fun hlt => Nat.ne_of_lt hlt))
  exact inj_on_of_nodup_map hnd hm hm' h

theorem WF.deref_eq (hw : e.WF) {p : Int64} (hm : m ∈ e.fifo s p) : e.deref m.shape = some m := by
  obtain ⟨hs, hp, -⟩ := hw.shape hm
  obtain ⟨l, hl, hlp, hml⟩ := mem_queueAt.mp hm
  have hg : (e.tree m.side).get? m.price = some l := by
    rw [hs, hp]
    exact BTree.get?_eq_some.mpr ⟨hl, hlp⟩
  rw [deref, RestingOrder.shape, hg, Option.bind_some]
  cases hf : l.orders.find? (fun x : RestingOrder => x.seq = m.seq) with
  | none => exact absurd (decide_eq_true rfl) (find?_eq_none.mp hf m hml)
  | some x =>
    have hx : x ∈ e.fifo s p := mem_queueAt.mpr ⟨l, hl, hlp, mem_of_find?_eq_some hf⟩
    have hseq := find?_some hf
    rw [hw.eq_of_seq hx hm (of_decide_eq_true hseq)]

@[simp] theorem fifo_newEngine (s : Side) (p : Int64) : Book.newEngine.fifo s p = [] := by
  cases s <;> rfl

theorem mem_fifo_of_mem_resting (h : m ∈ e.resting s) : ∃ p, m ∈ e.fifo s p := by
  obtain ⟨l, hl, hm⟩ := mem_flatMap.mp h
  exact ⟨l.price, by rw [fifo_eq_of_mem hl]; exact hm⟩

end Engine

variable {e : Engine} {o : Order}

theorem mem_fifo_of_mem_ranked (h : m ∈ ranked e o) : ∃ p, m ∈ e.fifo (oppositeSide o.side) p := by
  rw [ranked, mem_insertionSort] at h
  exact Engine.mem_fifo_of_mem_resting (mem_filter.mp h).1

theorem ranked_seq_pairwise (hw : e.WF) (o : Order) :
    (ranked e o).Pairwise (fun a b => a.seq ≠ b.seq) := by
  rw [ranked, List.Pairwise.insertionSort_eq ((hw.resting_prior _).filter _)]
  exact (hw.seq_pairwise _).filter _

theorem allot_seq_pairwise (hw : e.WF) (o : Order) :
    (allot o.qty (ranked e o)).Pairwise (fun a b => a.1.seq ≠ b.1.seq) := by
  have h := (ranked_seq_pairwise hw o).sublist (allot_fst_initial o.qty (ranked e o)).sublist
  rwa [pairwise_map] at h

theorem mem_fifo_of_mem_allot (h : x ∈ allot o.qty (ranked e o)) :
    ∃ p, x.1 ∈ e.fifo (oppositeSide o.side) p :=
  mem_fifo_of_mem_ranked (mem_of_mem_allot h)

/-- **What the greedy trades leave of a resting order**: itself, or what the one
allotment it is part of leaves. -/
theorem afterTrades_greedy (hw : e.WF) {p : Int64} (hm : m ∈ e.fifo (oppositeSide o.side) p) :
    (afterTrades (greedyTrades e o) m = some m ∧ ∀ x ∈ allot o.qty (ranked e o), x.1 ≠ m) ∨
    ∃ q, (m, q) ∈ allot o.qty (ranked e o) ∧
      afterTrades (greedyTrades e o) m =
        if m.remaining - q = 0 then none else some { m with remaining := m.remaining - q } := by
  cases hf : (greedyTrades e o).find? (fun t => t.makerSeq = m.seq) with
  | none =>
    refine .inl ⟨by rw [afterTrades, hf], ?_⟩
    rintro x hx rfl
    have := find?_eq_none.mp hf _ (mem_map_of_mem hx)
    simp [tradeOf] at this
  | some t =>
    obtain ⟨x, hx, rfl⟩ := mem_map.mp (mem_of_find?_eq_some hf)
    have hseq := find?_some hf
    obtain ⟨p', hx'⟩ := mem_fifo_of_mem_allot hx
    obtain rfl : x.1 = m := hw.eq_of_seq hx' hm (of_decide_eq_true hseq)
    exact .inr ⟨x.2, hx, by rw [afterTrades, hf]; rfl⟩

theorem lookup_foldl_erase {α : Type} (id : String) (ids : List String) : ∀ (i : GoMap String α),
    (ids.foldl (fun i id => i.erase id) i).lookup id = if id ∈ ids then none else i.lookup id := by
  induction ids with
  | nil => intro i; rfl
  | cons x xs ih =>
    intro i
    rw [foldl_cons, ih]
    by_cases hx : id = x
    · subst hx
      rw [lookup_erase]
      simp
    · rw [lookup_erase_ne hx]
      simp [hx]

/-! ### The ledger -/

namespace Engine

structure Ledger (ps : List Order) (e : Engine) : Prop where
  wf : e.WF
  distinct : ps.Pairwise (fun a b => a.orderID ≠ b.orderID)
  index_iff : ∀ {id h}, e.index.lookup id = some h ↔
    ∃ m ∈ e.fifo h.side h.price, m.seq = h.seq ∧ m.orderID = id
  owner : ∀ {s p m}, m ∈ e.fifo s p → ∃ o ∈ ps, o.orderID = m.orderID ∧
    fillQty e.fills m.orderID + m.remaining.toNat ≤ o.qty.toNat
  filled : ∀ o ∈ ps, fillQty e.fills o.orderID ≤ o.qty.toNat
  fill_mem : ∀ f ∈ e.fills, ∃ o ∈ ps, o.orderID = f.orderID

namespace Ledger

variable {ps : List Order} {e : Engine} {m : RestingOrder} {ro : RestingOrder} {id : String}
  {p : Int64} {s : Side}

theorem lookup_eq (hl : Ledger ps e) (hm : m ∈ e.fifo s p) :
    e.index.lookup m.orderID = some m.shape := by
  obtain ⟨hs, hp, -⟩ := hl.wf.shape hm
  exact hl.index_iff.mpr ⟨m, by rw [RestingOrder.shape, hs, hp]; exact hm, rfl, rfl⟩

variable {m' : RestingOrder}

theorem eq_of_id (hl : Ledger ps e) {s s' : Side} {p p' : Int64}
    (hm : m ∈ e.fifo s p) (hm' : m' ∈ e.fifo s' p') (h : m.orderID = m'.orderID) : m = m' := by
  have h1 := hl.lookup_eq hm
  rw [h, hl.lookup_eq hm'] at h1
  exact hl.wf.eq_of_seq hm hm' (congrArg Handle.seq (Option.some.inj h1)).symm

theorem lookup_isSome (hl : Ledger ps e) : (e.index.lookup id).isSome ↔ e.RestsID id := by
  constructor
  · intro h
    obtain ⟨k, hk⟩ := Option.isSome_iff_exists.mp h
    obtain ⟨m, hm, -, hid⟩ := hl.index_iff.mp hk
    exact ⟨_, _, m, hm, hid⟩
  · rintro ⟨s, p, m, hm, rfl⟩
    rw [hl.lookup_eq hm]
    rfl

theorem not_rests (hl : Ledger ps e) (h : e.index.lookup id = none) : ¬ e.RestsID id := by
  rw [← hl.lookup_isSome, h]
  simp

theorem owner_id (hl : Ledger ps e) (h : e.RestsID id) : ∃ o ∈ ps, o.orderID = id := by
  obtain ⟨s, p, m, hm, rfl⟩ := h
  obtain ⟨o, ho, hid, -⟩ := hl.owner hm
  exact ⟨o, ho, hid⟩

theorem eq_of_mem (hl : Ledger ps e) {a b : Order} (ha : a ∈ ps) (hb : b ∈ ps)
    (h : a.orderID = b.orderID) : a = b := by
  have hnd : (ps.map Order.orderID).Nodup := pairwise_map.mpr hl.distinct
  exact inj_on_of_nodup_map hnd ha hb h

theorem newEngine : Ledger [] Book.newEngine where
  wf := WF.newEngine
  distinct := List.Pairwise.nil
  index_iff := by
    intro id h
    constructor
    · intro hi
      simp [Book.newEngine] at hi
    · rintro ⟨m, hm, -⟩
      simp at hm
  owner := by
    intro s p m hm
    simp at hm
  filled := by simp
  fill_mem := by simp [Book.newEngine]

theorem snoc (hl : Ledger ps e) {o : Order} (hf : ∀ a ∈ ps, a.orderID ≠ o.orderID) :
    Ledger (ps ++ [o]) e where
  __ := hl
  distinct := by
    refine pairwise_append.mpr ⟨hl.distinct, pairwise_singleton _ _, fun a ha b hb => ?_⟩
    rw [mem_singleton.mp hb]
    exact hf a ha
  owner := by
    intro s p m hm
    obtain ⟨a, ha, h⟩ := hl.owner hm
    exact ⟨a, by simp [ha], h⟩
  filled := by
    intro a ha
    rcases mem_append.mp ha with ha | ha
    · exact hl.filled a ha
    rw [mem_singleton.mp ha, fillQty_eq_zero]
    · exact Nat.zero_le _
    · intro f hfm he
      obtain ⟨b, hb, hbid⟩ := hl.fill_mem f hfm
      exact hf b hb (hbid.trans he)
  fill_mem := by
    intro f hfm
    obtain ⟨b, hb, hbid⟩ := hl.fill_mem f hfm
    exact ⟨b, by simp [hb], hbid⟩

theorem fillQty_fresh (hl : Ledger ps e) (hf : ∀ a ∈ ps, a.orderID ≠ id) :
    fillQty e.fills id = 0 := by
  refine fillQty_eq_zero (fun f hfm he => ?_)
  obtain ⟨b, hb, hbid⟩ := hl.fill_mem f hfm
  exact hf b hb (hbid.trans he)

/-! ### Matching keeps the ledger -/

section Matching

variable (hl : Ledger ps e) (o : Order)

include hl

theorem allot_id_pairwise :
    (allot o.qty (ranked e o)).Pairwise (fun a b => a.1.orderID ≠ b.1.orderID) := by
  refine (allot_seq_pairwise hl.wf o).imp_of_mem (fun {a b} ha hb hab he => ?_)
  obtain ⟨p, hap⟩ := mem_fifo_of_mem_allot ha
  obtain ⟨p', hbp⟩ := mem_fifo_of_mem_allot hb
  exact hab (congrArg RestingOrder.seq (hl.eq_of_id hap hbp he))

variable {m : RestingOrder} {p : Int64} {s : Side}

theorem not_maker (hm : m ∈ e.fifo s p) (hx : ∀ x ∈ allot o.qty (ranked e o), x.1 ≠ m) :
    makerQty (allot o.qty (ranked e o)) m.orderID = 0 ∧
      m.orderID ∉ usedUp (allot o.qty (ranked e o)) := by
  have hid : ∀ x ∈ allot o.qty (ranked e o), x.1.orderID ≠ m.orderID := by
    intro x hxm he
    obtain ⟨p', hxp⟩ := mem_fifo_of_mem_allot hxm
    exact hx x hxm (hl.eq_of_id hxp hm he)
  refine ⟨makerQty_eq_zero hid, fun hu => ?_⟩
  obtain ⟨x, hxm, he⟩ := mem_map.mp hu
  exact hid x (mem_filter.mp hxm).1 he

theorem maker {q : UInt64} (hx : (m, q) ∈ allot o.qty (ranked e o)) :
    makerQty (allot o.qty (ranked e o)) m.orderID = q.toNat ∧
      (m.orderID ∈ usedUp (allot o.qty (ranked e o)) ↔ m.remaining - q = 0) := by
  refine ⟨makerQty_eq hx (hl.allot_id_pairwise o), fun hu => ?_, fun h0 => ?_⟩
  · obtain ⟨x, hxm, he⟩ := mem_map.mp hu
    obtain ⟨hxm, h0⟩ := mem_filter.mp hxm
    have hnd : ((allot o.qty (ranked e o)).map (fun x => x.1.orderID)).Nodup :=
      pairwise_map.mpr (hl.allot_id_pairwise o)
    obtain rfl := inj_on_of_nodup_map hnd hxm hx he
    simpa using h0
  · exact mem_map.mpr ⟨(m, q), mem_filter.mpr ⟨hx, by simpa using h0⟩, rfl⟩

theorem exists_left (hm : m ∈ e.fifo s p) :
    ∃ r : UInt64, r.toNat + makerQty (allot o.qty (ranked e o)) m.orderID = m.remaining.toNat := by
  by_cases hx : ∃ q, (m, q) ∈ allot o.qty (ranked e o)
  · obtain ⟨q, hq⟩ := hx
    exact ⟨m.remaining - q, by rw [(hl.maker o hq).1]; exact toNat_sub_add (allot_le hq)⟩
  · refine ⟨m.remaining, ?_⟩
    rw [(hl.not_maker o hm (fun x hxm he => hx ⟨x.2, he ▸ hxm⟩)).1, add_zero]

/-- **Who rests after a match**: who rested before and was not used up, with
what it gave taken off. -/
theorem mem_fifo_matched :
    m' ∈ (matched e o).fifo s p ↔ ∃ m ∈ e.fifo s p,
      m.orderID ∉ usedUp (allot o.qty (ranked e o)) ∧
      m'.remaining.toNat + makerQty (allot o.qty (ranked e o)) m.orderID = m.remaining.toNat ∧
      m' = { m with remaining := m'.remaining } := by
  have hm := matched_spec hl.wf o
  by_cases hs : s = o.side
  · subst hs
    have hfifo : (matched e o).fifo o.side p = e.fifo o.side p := by
      rw [fifo, hm.tree_own, fifo]
    have hno : ∀ m ∈ e.fifo o.side p, makerQty (allot o.qty (ranked e o)) m.orderID = 0 ∧
        m.orderID ∉ usedUp (allot o.qty (ranked e o)) := by
      refine fun m hmm => hl.not_maker o hmm (fun x hx he => ?_)
      obtain ⟨p', hxp⟩ := mem_fifo_of_mem_allot hx
      rw [he] at hxp
      exact oppositeSide_ne o.side ((hl.wf.shape hmm).1.symm.trans (hl.wf.shape hxp).1)
    rw [hfifo]
    constructor
    · intro hmm
      obtain ⟨h1, h2⟩ := hno m' hmm
      exact ⟨m', hmm, h2, by rw [h1, add_zero], rfl⟩
    rintro ⟨m, hmm, -, hq, he⟩
    rw [(hno m hmm).1, add_zero] at hq
    rw [he, UInt64.toNat_inj.mp hq]
    exact hmm
  · obtain rfl := eq_oppositeSide hs
    rw [hm.fifo_opp, mem_filterMap]
    refine exists_congr (fun m => and_congr_right (fun hmm => ?_))
    rcases afterTrades_greedy hl.wf hmm with ⟨ha, hx⟩ | ⟨q, hq, ha⟩
    · obtain ⟨h1, h2⟩ := hl.not_maker o hmm hx
      rw [ha, h1, add_zero, Option.some.injEq]
      constructor
      · rintro rfl
        exact ⟨h2, rfl, rfl⟩
      · rintro ⟨-, hr, he⟩
        rw [he, UInt64.toNat_inj.mp hr]
    obtain ⟨h1, h2⟩ := hl.maker o hq
    have hsum := toNat_sub_add (allot_le hq)
    rw [ha, h1, h2]
    by_cases h0 : m.remaining - q = 0
    · simp [h0]
    rw [if_neg h0, Option.some.injEq]
    constructor
    · rintro rfl
      exact ⟨h0, hsum, rfl⟩
    rintro ⟨-, hr, he⟩
    have : m'.remaining = m.remaining - q := 
      UInt64.toNat_inj.mp (Nat.add_right_cancel (hr.trans hsum.symm))
    rw [he, this]

theorem fillQty_matched (id : String) :
    fillQty (matched e o).fills id = fillQty e.fills id +
      ((if o.orderID = id then allotted (allot o.qty (ranked e o)) else 0) +
        makerQty (allot o.qty (ranked e o)) id) := by
  rw [(matched_spec hl.wf o).fills, fillQty_append, fillQty_fillsOf]

theorem fillQty_add_makerQty_le {a : Order} (ha : a ∈ ps) :
    fillQty e.fills a.orderID + makerQty (allot o.qty (ranked e o)) a.orderID ≤ a.qty.toNat := by
  by_cases hx : ∃ x ∈ allot o.qty (ranked e o), x.1.orderID = a.orderID
  · obtain ⟨⟨m, q⟩, hx, hid⟩ := hx
    obtain ⟨p, hm⟩ := mem_fifo_of_mem_allot hx
    obtain ⟨b, hb, hbid, hsum⟩ := hl.owner hm
    obtain rfl := hl.eq_of_mem ha hb (hid.symm.trans hbid.symm)
    have hq := UInt64.le_iff_toNat_le.mp (allot_le hx)
    rw [← hid, (hl.maker o hx).1]
    exact le_trans (Nat.add_le_add_left hq _) hsum
  · rw [makerQty_eq_zero (fun x hxm he => hx ⟨x, hxm, he⟩), add_zero]
    exact hl.filled a ha

theorem makerQty_fresh (hf : ∀ a ∈ ps, a.orderID ≠ o.orderID) :
    makerQty (allot o.qty (ranked e o)) o.orderID = 0 := by
  refine makerQty_eq_zero (fun x hx he => ?_)
  obtain ⟨p, hm⟩ := mem_fifo_of_mem_allot hx
  obtain ⟨a, ha, hid⟩ := hl.owner_id ⟨_, p, x.1, hm, he⟩
  exact hf a ha hid

theorem fillQty_add_residual (hf : ∀ a ∈ ps, a.orderID ≠ o.orderID) :
    fillQty (matched e o).fills o.orderID + (residual o (greedyTrades e o)).toNat =
      o.qty.toNat := by
  have hsum := left_add_allotted o.qty (ranked e o)
  rw [left_eq_residual o] at hsum
  rw [hl.fillQty_matched, if_pos rfl, hl.fillQty_fresh hf, hl.makerQty_fresh o hf, residual,
    greedyTrades]
  omega

theorem matched (hf : ∀ a ∈ ps, a.orderID ≠ o.orderID) : Ledger (ps ++ [o]) (matched e o) where
  wf := hl.wf.of_shrinks (shrinks_matched hl.wf o)
  distinct := (hl.snoc hf).distinct
  index_iff := by
    intro id h
    rw [(matched_spec hl.wf o).index, lookup_foldl_erase]
    constructor
    · intro hi
      split at hi
      · simp at hi
      rename_i hu
      obtain ⟨m, hm, hseq, hid⟩ := hl.index_iff.mp hi
      rw [← hid] at hu
      obtain ⟨r, hr⟩ := hl.exists_left o hm
      exact ⟨{ m with remaining := r }, (hl.mem_fifo_matched o).mpr ⟨m, hm, hu, hr, rfl⟩, hseq, hid⟩
    · rintro ⟨m', hm', hseq, hid⟩
      obtain ⟨m, hm, hu, -, he⟩ := (hl.mem_fifo_matched o).mp hm'
      rw [he] at hseq hid
      rw [if_neg (by rw [← hid]; exact hu)]
      exact hl.index_iff.mpr ⟨m, hm, hseq, hid⟩
  owner := by
    intro s p m' hm'
    obtain ⟨m, hm, -, hq, he⟩ := (hl.mem_fifo_matched o).mp hm'
    obtain ⟨a, ha, hid, hsum⟩ := hl.owner hm
    have hne : o.orderID ≠ m.orderID := fun h => hf a ha (hid.trans h.symm)
    have hid' : m'.orderID = m.orderID := by rw [he]
    refine ⟨a, by simp [ha], hid.trans hid'.symm, ?_⟩
    rw [hid', hl.fillQty_matched, if_neg hne]
    omega
  filled := by
    intro a ha
    rcases mem_append.mp ha with ha | ha
    · rw [hl.fillQty_matched, if_neg (hf a ha).symm, zero_add]
      exact hl.fillQty_add_makerQty_le o ha
    · rw [mem_singleton.mp ha]
      exact (hl.fillQty_add_residual o hf).le.trans' (Nat.le_add_right _ _)
  fill_mem := by
    intro f hfm
    rw [(matched_spec hl.wf o).fills, mem_append] at hfm
    rcases hfm with hfm | hfm
    · exact (hl.snoc hf).fill_mem f hfm
    obtain ⟨x, hx, hfx⟩ := mem_flatMap.mp hfm
    obtain ⟨p, hm⟩ := mem_fifo_of_mem_allot hx
    obtain ⟨a, ha, hid⟩ := hl.owner_id ⟨_, p, x.1, hm, rfl⟩
    simp only [fillsOf, mem_cons, not_mem_nil, or_false] at hfx
    rcases hfx with rfl | rfl
    · exact ⟨o, by simp, rfl⟩
    · exact ⟨a, by simp [ha], hid⟩

end Matching

/-! ### Insertion, removal and replacement keep it -/

theorem insert (hl : Ledger ps e) (o : Order) (rem : UInt64) (hn : ¬ e.RestsID o.orderID)
    (ho : ∃ a ∈ ps, a.orderID = o.orderID ∧
      fillQty e.fills o.orderID + rem.toNat ≤ a.qty.toNat) : Ledger ps (e.insert o rem) where
  wf := hl.wf.insert o rem
  distinct := hl.distinct
  index_iff := by
    intro id h
    show (e.index.insert o.orderID ⟨o.side, o.price, e.seq + 1⟩).lookup id = some h ↔ _
    by_cases hid : id = o.orderID
    · subst hid
      rw [lookup_insert, Option.some.injEq]
      constructor
      · rintro rfl
        refine ⟨e.newResting o rem, ?_, rfl, rfl⟩
        rw [fifo_insert, if_pos ⟨rfl, rfl⟩]
        simp
      · rintro ⟨m, hm, hseq, hid⟩
        rcases mem_fifo_insert hm with hm | ⟨hs, hp, rfl⟩
        · exact absurd ⟨_, _, m, hm, hid⟩ hn
        · rw [← hs, ← hp, show e.seq + 1 = h.seq from hseq]
    rw [lookup_insert_ne hid, hl.index_iff]
    constructor
    · rintro ⟨m, hm, h⟩
      exact ⟨m, by rw [fifo_insert]; exact mem_append_left _ hm, h⟩
    rintro ⟨m, hm, hseq, hm'⟩
    rcases mem_fifo_insert hm with hm | ⟨-, -, rfl⟩
    · exact ⟨m, hm, hseq, hm'⟩
    · exact absurd hm'.symm hid
  owner := by
    intro s p m hm
    rw [fills_insert]
    rcases mem_fifo_insert hm with hm | ⟨-, -, rfl⟩
    · exact hl.owner hm
    · exact ho
  filled := by
    rw [fills_insert]
    exact hl.filled
  fill_mem := by
    rw [fills_insert]
    exact hl.fill_mem

theorem mem_eraseP_orderID (id : String) : ∀ (ms : List RestingOrder) (m : RestingOrder),
    ms.Pairwise (fun a b => a.orderID ≠ b.orderID) →
      (m ∈ ms.eraseP (fun x => x.orderID = id) ↔ m ∈ ms ∧ m.orderID ≠ id) := by
  intro ms m hd
  induction ms with
  | nil => simp
  | cons x xs ih =>
    obtain ⟨hx, hxs⟩ := pairwise_cons.mp hd
    by_cases hid : x.orderID = id
    · rw [eraseP_cons_of_pos (by simpa using hid), mem_cons]
      constructor
      · intro hm
        exact ⟨.inr hm, fun he => hx m hm (hid.trans he.symm)⟩
      · rintro ⟨rfl | hm, hne⟩
        · exact absurd hid hne
        · exact hm
    rw [eraseP_cons_of_neg (by simpa using hid), mem_cons, mem_cons, ih hxs]
    constructor
    · rintro (rfl | ⟨hm, hne⟩)
      · exact ⟨.inl rfl, hid⟩
      · exact ⟨.inr hm, hne⟩
    · rintro ⟨rfl | hm, hne⟩
      · exact .inl rfl
      · exact .inr ⟨hm, hne⟩

theorem id_pairwise (hl : Ledger ps e) (s : Side) (p : Int64) :
    (e.fifo s p).Pairwise (fun a b => a.orderID ≠ b.orderID) :=
  (hl.wf.order s p).imp_of_mem (fun {_ _} ha hb hab he =>
    Nat.ne_of_lt hab (congrArg RestingOrder.seq (hl.eq_of_id ha hb he)))

/-- `remove` finds the order it is asked for, or there is none. -/
theorem lookup_deref (hl : Ledger ps e) (id : String) :
    ((e.index.lookup id).bind e.deref = none ∧ e.index.lookup id = none) ∨
    ∃ s p, ∃ m ∈ e.fifo s p, m.orderID = id ∧ (e.index.lookup id).bind e.deref = some m := by
  cases hi : e.index.lookup id with
  | none => exact .inl ⟨rfl, rfl⟩
  | some h =>
    obtain ⟨m, hm, -, rfl⟩ := hl.index_iff.mp hi
    rw [hl.lookup_eq hm, Option.some.injEq] at hi
    exact .inr ⟨_, _, m, hm, rfl, by rw [Option.bind_some, ← hi]; exact hl.wf.deref_eq hm⟩

theorem find_eq (hl : Ledger ps e) (hm : m ∈ e.fifo s p) : e.find m.orderID = some m := by
  rw [find, hl.lookup_eq hm]
  exact hl.wf.deref_eq hm

theorem find_id (hl : Ledger ps e) (h : e.find id = some m) : m.orderID = id ∧ e.Rests m := by
  rcases hl.lookup_deref id with ⟨hn, -⟩ | ⟨s, p, m', hm', hid, hb⟩
  · exact absurd (h.symm.trans hn) (Option.some_ne_none _)
  · obtain rfl := Option.some.inj (h.symm.trans hb)
    exact ⟨hid, s, p, hm'⟩

theorem mem_fifo_remove (hl : Ledger ps e) (id : String) :
    m ∈ (e.remove id).fifo s p ↔ m ∈ e.fifo s p ∧ m.orderID ≠ id := by
  rcases hl.lookup_deref id with ⟨hb, hn⟩ | ⟨s', p', ro, hro, hid, hb⟩
  · rw [show e.remove id = e by rw [remove, hb]]
    exact ⟨fun hm => ⟨hm, fun he => hl.not_rests hn ⟨s, p, m, hm, he⟩⟩, And.left⟩
  obtain ⟨rfl, rfl, -⟩ := hl.wf.shape hro
  rw [fifo_remove hb]
  split
  · exact mem_eraseP_orderID id _ m (hl.id_pairwise s p)
  next hsp =>
    refine ⟨fun hm => ⟨hm, fun he => hsp ?_⟩, And.left⟩
    obtain rfl := hl.eq_of_id hm hro (he.trans hid.symm)
    exact ⟨(hl.wf.shape hm).1.symm, (hl.wf.shape hm).2.1.symm⟩

theorem lookup_remove (hl : Ledger ps e) (id x : String) :
    (e.remove id).index.lookup x = if x = id then none else e.index.lookup x := by
  rcases hl.lookup_deref id with ⟨hb, hn⟩ | ⟨s', p', ro, hro, hid, hb⟩
  · rw [show e.remove id = e by rw [Engine.remove, hb]]
    split
    next hx =>
      rw [hx, hn]
    · rfl
  rw [show (e.remove id).index = e.index.erase id by rw [Engine.remove, hb]]
  split
  next hx =>
    rw [hx, lookup_erase]
  next hx =>
    rw [lookup_erase_ne hx]

@[simp] theorem fills_remove (e : Engine) (id : String) : (e.remove id).fills = e.fills := by
  rw [Engine.remove]
  split
  · rfl
  · exact setTree_fills _ _ _

theorem remove (hl : Ledger ps e) (id : String) : Ledger ps (e.remove id) where
  wf := hl.wf.of_shrinks (shrinks_remove e id)
  distinct := hl.distinct
  index_iff := by
    intro x h
    rw [hl.lookup_remove]
    constructor
    · intro hi
      split at hi
      · simp at hi
      next hx =>
        obtain ⟨m, hm, hseq, hid⟩ := hl.index_iff.mp hi
        exact ⟨m, (hl.mem_fifo_remove id).mpr ⟨hm, by rw [hid]; exact hx⟩, hseq, hid⟩
    · rintro ⟨m, hm, hseq, hid⟩
      obtain ⟨hm, hne⟩ := (hl.mem_fifo_remove id).mp hm
      rw [if_neg (by rw [← hid]; exact hne)]
      exact hl.index_iff.mpr ⟨m, hm, hseq, hid⟩
  owner := by
    intro s p m hm
    rw [fills_remove]
    exact hl.owner ((hl.mem_fifo_remove id).mp hm).1
  filled := by
    rw [fills_remove]
    exact hl.filled
  fill_mem := by
    rw [fills_remove]
    exact hl.fill_mem

@[simp] theorem index_modify (e : Engine) (h : Handle) (f : RestingOrder → RestingOrder) :
    (e.modify h f).index = e.index := by
  rw [modify]
  split
  · rfl
  · exact setTree_index _ _ _

@[simp] theorem fills_modify (e : Engine) (h : Handle) (f : RestingOrder → RestingOrder) :
    (e.modify h f).fills = e.fills := by
  rw [modify]
  split
  · rfl
  · exact setTree_fills _ _ _

@[simp] theorem evicted_modify (e : Engine) (h : Handle) (f : RestingOrder → RestingOrder) :
    (e.modify h f).evicted = e.evicted := by
  rw [modify]
  split
  · rfl
  · exact setTree_evicted _ _ _

@[simp] theorem fills_amended (e : Engine) (ro : RestingOrder) (q : UInt64) (id : String) :
    (e.amended ro q id).fills = e.fills := by simp [amended, rename]

@[simp] theorem evicted_amended (e : Engine) (ro : RestingOrder) (q : UInt64) (id : String) :
    (e.amended ro q id).evicted = e.evicted := by simp [amended, rename]

@[simp] theorem index_amended (e : Engine) (ro : RestingOrder) (q : UInt64) (id : String) :
    (e.amended ro q id).index = (e.index.erase ro.orderID).insert id ro.shape := by
  simp [amended, rename]

/-- Who rests after a write to the order `ro`: what is written in its place, and the
others. -/
theorem mem_fifo_modify (hl : Ledger ps e) (hro : e.Rests ro) (f : RestingOrder → RestingOrder) :
    m ∈ (e.modify ro.shape f).fifo s p ↔
      (m ∈ e.fifo s p ∧ m.orderID ≠ ro.orderID) ∨ (s = ro.side ∧ p = ro.price ∧ m = f ro) := by
  obtain ⟨s₀, p₀, hro⟩ := hro
  obtain ⟨rfl, rfl, -⟩ := hl.wf.shape hro
  rw [fifo_modify]
  by_cases hsp : s = ro.shape.side ∧ p = ro.shape.price
  · rw [if_pos hsp, mem_map]
    obtain ⟨rfl, rfl⟩ : s = ro.side ∧ p = ro.price := hsp
    have hseq : ∀ x ∈ e.fifo ro.side ro.price, x.seq = ro.shape.seq ↔ x = ro := fun x hx =>
      ⟨fun h => hl.wf.eq_of_seq hx hro h, fun h => by rw [h]; rfl⟩
    constructor
    · rintro ⟨x, hx, rfl⟩
      by_cases he : x = ro
      · rw [if_pos ((hseq x hx).mpr he), he]
        exact .inr ⟨rfl, rfl, rfl⟩
      · rw [if_neg (fun h => he ((hseq x hx).mp h))]
        exact .inl ⟨hx, fun h => he (hl.eq_of_id hx hro h)⟩
    · rintro (⟨hm, hne⟩ | ⟨-, -, rfl⟩)
      · exact ⟨m, hm, if_neg (fun h => hne (by rw [(hseq m hm).mp h]))⟩
      · exact ⟨ro, hro, if_pos rfl⟩
  · rw [if_neg hsp]
    constructor
    · refine fun hm => .inl ⟨hm, fun h => hsp ?_⟩
      obtain rfl := hl.eq_of_id hm hro h
      exact ⟨(hl.wf.shape hm).1.symm, (hl.wf.shape hm).2.1.symm⟩
    · rintro (⟨hm, -⟩ | ⟨h1, h2, -⟩)
      · exact hm
      · exact absurd ⟨h1, h2⟩ hsp

theorem fifo_amended (e : Engine) (ro : RestingOrder) (q : UInt64) (id : String) (s : Side)
    (p : Int64) : (e.amended ro q id).fifo s p =
      (e.modify ro.shape (fun x => { x with remaining := q, orderID := id })).fifo s p := by
  rw [fifo_eq_of_tree (e := (e.modify ro.shape (fun x => { x with remaining := q })).modify
    ro.shape (fun x => { x with orderID := id })) (fun s => by cases s <;> rfl), fifo_modify,
    fifo_modify, fifo_modify]
  by_cases hsp : s = ro.shape.side ∧ p = ro.shape.price
  · rw [if_pos hsp, if_pos hsp, if_pos hsp, map_map]
    refine map_congr_left fun x _ => ?_
    by_cases hx : x.seq = ro.shape.seq
    · rw [Function.comp_apply, if_pos hx, if_pos hx, if_pos hx]
    · rw [Function.comp_apply, if_neg hx, if_neg hx, if_neg hx]
  · rw [if_neg hsp, if_neg hsp, if_neg hsp]

theorem mem_fifo_amended (hl : Ledger ps e) (hro : e.Rests ro) (q : UInt64) (id : String) :
    m ∈ (e.amended ro q id).fifo s p ↔
      (m ∈ e.fifo s p ∧ m.orderID ≠ ro.orderID) ∨
        (s = ro.side ∧ p = ro.price ∧ m = { ro with remaining := q, orderID := id }) := by
  rw [fifo_amended]
  exact hl.mem_fifo_modify hro _

theorem keep (hl : Ledger ps e) (o : Order) (hro : e.Rests ro) (hq : o.qty ≤ ro.remaining)
    (hf : ∀ a ∈ ps, a.orderID ≠ o.orderID) :
    Ledger (ps ++ [o]) (e.modify ro.shape (fun x => { x with remaining := o.qty })) where
  wf := hl.wf.of_shrinks (shrinks_modify e _ _ (fun _ => rfl))
  distinct := (hl.snoc hf).distinct
  index_iff := by
    intro id h
    simp only [index_modify, hl.index_iff, hl.mem_fifo_modify hro]
    obtain ⟨s₀, p₀, hro⟩ := hro
    obtain ⟨rfl, rfl, -⟩ := hl.wf.shape hro
    constructor
    · rintro ⟨m, hm, hseq, hid⟩
      by_cases he : m = ro
      · subst he
        obtain ⟨hs, hp, -⟩ := hl.wf.shape hm
        exact ⟨_, .inr ⟨hs.symm, hp.symm, rfl⟩, hseq, hid⟩
      · exact ⟨m, .inl ⟨hm, fun h => he (hl.eq_of_id hm hro h)⟩, hseq, hid⟩
    · rintro ⟨m, ⟨hm, -⟩ | ⟨hs, hp, rfl⟩, hseq, hid⟩
      · exact ⟨m, hm, hseq, hid⟩
      · exact ⟨ro, by rw [hs, hp]; exact hro, hseq, hid⟩
  owner := by
    intro s p m hm
    rw [fills_modify]
    rcases (hl.mem_fifo_modify hro _).mp hm with ⟨hm, -⟩ | ⟨-, -, rfl⟩
    · exact (hl.snoc hf).owner hm
    obtain ⟨s₀, p₀, hro⟩ := hro
    obtain ⟨a, ha, hid, hsum⟩ := (hl.snoc hf).owner hro
    have hle := UInt64.le_iff_toNat_le.mp hq
    exact ⟨a, ha, hid, le_trans (Nat.add_le_add_left hle _) hsum⟩
  filled := by
    rw [fills_modify]
    exact (hl.snoc hf).filled
  fill_mem := by
    rw [fills_modify]
    exact (hl.snoc hf).fill_mem

theorem wf_amended (hl : Ledger ps e) (ro : RestingOrder) (q : UInt64) (id : String) :
    (e.amended ro q id).WF := by
  have hw := hl.wf.of_shrinks
    (shrinks_modify e ro.shape (fun x => { x with remaining := q }) (fun _ => rfl))
  exact hw.of_shrinks (shrinks_rename _ ro.shape ro.orderID id)

theorem amend (hl : Ledger ps e) (o : Order) (hro : e.Rests ro)
    (hf : ∀ a ∈ ps, a.orderID ≠ o.orderID) :
    Ledger (ps ++ [o]) (e.amended ro o.qty o.orderID) where
  wf := hl.wf_amended ro o.qty o.orderID
  distinct := (hl.snoc hf).distinct
  index_iff := by
    intro id h
    have hfresh : ∀ {s p m}, m ∈ e.fifo s p → m.orderID ≠ o.orderID := by
      intro s p m hm he
      obtain ⟨a, ha, hid⟩ := hl.owner_id ⟨s, p, m, hm, he⟩
      exact hf a ha hid
    simp only [hl.mem_fifo_amended hro, index_amended]
    by_cases hid : id = o.orderID
    · subst hid
      rw [lookup_insert, Option.some.injEq]
      constructor
      · rintro rfl
        exact ⟨_, .inr ⟨rfl, rfl, rfl⟩, rfl, rfl⟩
      · rintro ⟨m, hm | ⟨hs, hp, rfl⟩, hseq, hid⟩
        · exact absurd hid (hfresh hm.1)
        · rw [RestingOrder.shape, ← hs, ← hp, show ro.seq = h.seq from hseq]
    rw [lookup_insert_ne hid]
    by_cases hold : id = ro.orderID
    · subst hold
      rw [lookup_erase]
      constructor
      · intro h
        simp at h
      · rintro ⟨m, hm | ⟨-, -, rfl⟩, -, hid'⟩
        · exact absurd hid' hm.2
        · exact absurd hid'.symm hid
    rw [lookup_erase_ne hold, hl.index_iff]
    constructor
    · rintro ⟨m, hm, hseq, rfl⟩
      exact ⟨m, .inl ⟨hm, hold⟩, hseq, rfl⟩
    · rintro ⟨m, hm | ⟨-, -, rfl⟩, hseq, hid'⟩
      · exact ⟨m, hm.1, hseq, hid'⟩
      · exact absurd hid'.symm hid
  owner := by
    intro s p m hm
    rw [fills_amended]
    rcases (hl.mem_fifo_amended hro _ _).mp hm with ⟨hm, -⟩ | ⟨-, -, rfl⟩
    · exact (hl.snoc hf).owner hm
    · refine ⟨o, by simp, rfl, ?_⟩
      rw [hl.fillQty_fresh hf, zero_add]
  filled := by
    rw [fills_amended]
    exact (hl.snoc hf).filled
  fill_mem := by
    rw [fills_amended]
    exact (hl.snoc hf).fill_mem

end Ledger

/-! ### What one call does to the ids -/

/-- The book is the same; the records and the per-order metadata may differ. -/
structure SameBook (e e' : Engine) : Prop where
  asks : e'.asks = e.asks
  bids : e'.bids = e.bids
  index : e'.index = e.index
  seq : e'.seq = e.seq

variable {e e' : Engine} {ps : List Order} {o : Order}

theorem SameBook.tree (h : SameBook e e') (s : Side) : e'.tree s = e.tree s := by
  cases s
  · exact h.bids
  · exact h.asks

theorem SameBook.fifo (h : SameBook e e') (s : Side) (p : Int64) :
    e'.fifo s p = e.fifo s p := fifo_eq_of_tree h.tree s p

theorem SameBook.restsID (h : SameBook e e') (id : String) :
    e'.RestsID id ↔ e.RestsID id := by simp only [RestsID, h.fifo]

theorem SameBook.wf (h : SameBook e e') (hw : e.WF) : e'.WF :=
  hw.of_shrinks (Shrinks.of_fifo_eq h.fifo h.seq.ge)

theorem SameBook.reprice (e : Engine) (o : Order) (ro : RestingOrder) :
    SameBook e (e.reprice o ro) := by
  rw [Engine.reprice]
  split <;> exact ⟨rfl, rfl, rfl, rfl⟩

theorem fills_reprice (e : Engine) (o : Order) (ro : RestingOrder) :
    (e.reprice o ro).fills = e.fills := by
  rw [reprice]
  split <;> rfl

theorem evicted_reprice (e : Engine) (o : Order) (ro : RestingOrder) :
    (e.reprice o ro).evicted = e.evicted := by
  rw [reprice]
  split <;> rfl

theorem seqByOrder_reprice (e : Engine) (o : Order) (ro : RestingOrder) :
    (e.reprice o ro).seqByOrder = e.seqByOrder := by
  rw [reprice]
  split <;> rfl

theorem Ledger.of_sameBook (hl : Ledger ps e) (h : SameBook e e') (hf : e'.fills = e.fills) :
    Ledger ps e' where
  wf := h.wf hl.wf
  distinct := hl.distinct
  index_iff := by
    intro id k
    rw [h.index, h.fifo]
    exact hl.index_iff
  owner := by
    intro s p m hm
    rw [h.fifo] at hm
    rw [hf]
    exact hl.owner hm
  filled := by
    rw [hf]
    exact hl.filled
  fill_mem := by
    rw [hf]
    exact hl.fill_mem

/-- Fills go to `id` and to ids that rested, an evicted id rested and rests no
more, and no id but `id` comes to rest. -/
structure Effect (e e' : Engine) (id : String) : Prop where
  fills : ∃ F, e'.fills = e.fills ++ F ∧ ∀ f ∈ F, f.orderID = id ∨ e.RestsID f.orderID
  evicted : ∃ V, e'.evicted = e.evicted ++ V ∧ ∀ x ∈ V, e.RestsID x ∧ ¬ e'.RestsID x
  rests : ∀ {x}, e'.RestsID x → e.RestsID x ∨ x = id

theorem Effect.of_sameBook (h : SameBook e e') (hf : e'.fills = e.fills)
    (hv : e'.evicted = e.evicted) (id : String) : Effect e e' id where
  fills := ⟨[], by rw [hf, append_nil], by simp⟩
  evicted := ⟨[], by rw [hv, append_nil], by simp⟩
  rests := fun hx => .inl ((h.restsID _).mp hx)

theorem Effect.insert (h : Effect e e' o.orderID) (hn : ¬ e.RestsID o.orderID) (rem : UInt64) :
    Effect e (e'.insert o rem) o.orderID := by
  have hrests : ∀ {x}, (e'.insert o rem).RestsID x → e'.RestsID x ∨ x = o.orderID := by
    rintro x ⟨s, p, m, hm, rfl⟩
    rcases mem_fifo_insert hm with hm | ⟨-, -, rfl⟩
    · exact .inl ⟨s, p, m, hm, rfl⟩
    · exact .inr rfl
  refine ⟨?_, ?_, fun hx => ?_⟩
  · rw [fills_insert]
    exact h.fills
  · obtain ⟨V, hV, hx⟩ := h.evicted
    refine ⟨V, by rw [← hV]; exact setTree_evicted _ _ _, fun x hxV => ⟨(hx x hxV).1, fun hr => ?_⟩⟩
    rcases hrests hr with hr | rfl
    · exact (hx x hxV).2 hr
    · exact hn (hx _ hxV).1
  · rcases hrests hx with hx | rfl
    · exact h.rests hx
    · exact .inr rfl

variable {e : Engine} {ro : RestingOrder}

theorem Effect.matched (hl : Ledger ps e) (o : Order)
    (hf : ∀ a ∈ ps, a.orderID ≠ o.orderID) : Effect e (matched e o) o.orderID where
  fills := by
    refine ⟨_, (matched_spec hl.wf o).fills, fun f hfm => ?_⟩
    obtain ⟨x, hx, hfx⟩ := mem_flatMap.mp hfm
    obtain ⟨p, hm⟩ := mem_fifo_of_mem_allot hx
    simp only [fillsOf, mem_cons, not_mem_nil, or_false] at hfx
    rcases hfx with rfl | rfl
    · exact .inl rfl
    · exact .inr ⟨_, p, x.1, hm, rfl⟩
  evicted := by
    refine ⟨_, (matched_spec hl.wf o).evicted, fun x hx => ⟨?_, ?_⟩⟩
    · obtain ⟨y, hy, rfl⟩ := mem_map.mp hx
      obtain ⟨p, hm⟩ := mem_fifo_of_mem_allot (mem_filter.mp hy).1
      exact ⟨_, p, y.1, hm, rfl⟩
    · refine (hl.matched o hf).not_rests ?_
      rw [(matched_spec hl.wf o).index, lookup_foldl_erase, if_pos hx]
  rests := by
    rintro x ⟨s, p, m', hm', rfl⟩
    obtain ⟨m, hm, -, -, he⟩ := (hl.mem_fifo_matched o).mp hm'
    exact .inl ⟨s, p, m, hm, by rw [he]⟩

theorem Effect.remove (hl : Ledger ps e) (id id' : String) : Effect e (e.remove id) id' where
  fills := ⟨[], by rw [Ledger.fills_remove, append_nil], by simp⟩
  evicted := by
    rcases hl.lookup_deref id with ⟨hb, -⟩ | ⟨s, p, m, hm, hid, hb⟩
    · exact ⟨[], by rw [Engine.remove, hb, append_nil], by simp⟩
    refine ⟨[id], by rw [Engine.remove, hb], fun x hx => ?_⟩
    obtain rfl := mem_singleton.mp hx
    refine ⟨⟨s, p, m, hm, hid⟩, (hl.remove x).not_rests ?_⟩
    rw [hl.lookup_remove, if_pos rfl]
  rests := by
    rintro x ⟨s, p, m, hm, rfl⟩
    exact .inl ⟨s, p, m, ((hl.mem_fifo_remove id).mp hm).1, rfl⟩

theorem Effect.amend (hl : Ledger ps e) (hro : e.Rests ro) (q : UInt64) (id : String) :
    Effect e (e.amended ro q id) id where
  fills := ⟨[], by simp, by simp⟩
  evicted := ⟨[], by simp, by simp⟩
  rests := by
    rintro x ⟨s, p, m, hm, rfl⟩
    rcases (hl.mem_fifo_amended hro q id).mp hm with ⟨hm, -⟩ | ⟨-, -, rfl⟩
    · exact .inl ⟨s, p, m, hm, rfl⟩
    · exact .inr rfl

theorem Effect.keep (hl : Ledger ps e) (hro : e.Rests ro) (q : UInt64) (id : String) :
    Effect e (e.modify ro.shape (fun x => { x with remaining := q })) id where
  fills := ⟨[], by simp, by simp⟩
  evicted := ⟨[], by simp, by simp⟩
  rests := by
    rintro x ⟨s, p, m, hm, rfl⟩
    rcases (hl.mem_fifo_modify hro _).mp hm with ⟨hm, -⟩ | ⟨-, -, rfl⟩
    · exact .inl ⟨s, p, m, hm, rfl⟩
    · obtain ⟨s₀, p₀, hro⟩ := hro
      exact .inl ⟨s₀, p₀, ro, hro, rfl⟩

/-! ### One call and every run -/

/-- A replace that moves its order has an id of its own. -/
def Named (e : Engine) (o : Order) : Prop :=
  o.kind = .replace → o.orderID = "" → ∀ ro, e.find o.origOrderID = some ro → InPlace o ro

theorem named_of_nonempty (h : o.kind = .replace → o.orderID ≠ "") :
    Named e o := fun hk he => absurd he (h hk)

section Step

variable {ps : List Order} {e : Engine} (hl : Ledger ps e) (o : Order)
  (hf : ∀ a ∈ ps, a.orderID ≠ o.orderID)

include hl hf

theorem not_rests_fresh : ¬ e.RestsID o.orderID := by
  intro h
  obtain ⟨a, ha, hid⟩ := hl.owner_id h
  exact hf a ha hid

theorem not_rests_matched : ¬ (Book.matched e o).RestsID o.orderID := by
  rintro ⟨s, p, m', hm', hid⟩
  obtain ⟨m, hm, -, -, he⟩ := (hl.mem_fifo_matched o).mp hm'
  exact not_rests_fresh hl o hf ⟨s, p, m, hm, by rw [← hid, he]⟩

theorem rest_ledger (rem : UInt64) (hrem : rem = residual o (greedyTrades e o)) :
    Ledger (ps ++ [o]) ((Book.matched e o).insert o rem) ∧
      Effect e ((Book.matched e o).insert o rem) o.orderID := by
  refine ⟨(hl.matched o hf).insert o _ (not_rests_matched hl o hf) ⟨o, by simp, rfl, ?_⟩,
    (Effect.matched hl o hf).insert (not_rests_fresh hl o hf) _⟩
  rw [hrem]
  exact (hl.fillQty_add_residual o hf).le

theorem reinsert_ledger (id : String) {n : Order} (hid : n.orderID = o.orderID) :
    Ledger (ps ++ [o]) ((e.remove id).insert n o.qty) ∧
      Effect e ((e.remove id).insert n o.qty) o.orderID := by
  have hn := not_rests_fresh hl o hf
  rw [← hid] at hn
  refine ⟨((hl.snoc hf).remove id).insert n _ (fun h => ?_) ⟨o, by simp, hid.symm, ?_⟩, ?_⟩
  · obtain ⟨s, p, m, hm, hid⟩ := h
    exact hn ⟨s, p, m, ((hl.mem_fifo_remove id).mp hm).1, hid⟩
  · rw [Ledger.fills_remove, hid, hl.fillQty_fresh hf, zero_add]
  · rw [← hid]
    exact (Effect.remove hl id _).insert hn _

/-- **One call keeps the ledger**, and its effect on the ids is `Effect`. -/
theorem process_ledger (hr : Named e o) :
    Ledger (ps ++ [o]) (e.process o) ∧ Effect e (e.process o) o.orderID := by
  have hstep := process_cases hl.wf o
  generalize e.process o = e' at hstep ⊢
  cases hstep with
  | filled hk => exact ⟨hl.matched o hf, Effect.matched hl o hf⟩
  | rested hk hrem => exact rest_ledger hl o hf _ rfl
  | cancelled hk => exact ⟨(hl.snoc hf).remove _, Effect.remove hl _ _⟩
  | ignored hk hn => exact ⟨hl.snoc hf, Effect.of_sameBook ⟨rfl, rfl, rfl, rfl⟩ rfl rfl _⟩
  | kept ro hk hro hp hid =>
    have hrests : e.Rests ro := ⟨_, _, mem_fifo_of_find hl.wf hro⟩
    exact ⟨hl.keep o hrests hp.2 hf, Effect.keep hl hrests _ _⟩
  | amended ro hk hro hp hid hne =>
    have hrests : e.Rests ro := ⟨_, _, mem_fifo_of_find hl.wf hro⟩
    exact ⟨hl.amend o hrests hf, Effect.amend hl hrests _ _⟩
  | moved ro hk hro hp =>
    have hb := SameBook.reprice e o ro
    have hid : (replacement o ro).orderID = o.orderID :=
      if_pos fun he => hp (hr hk he ro hro)
    obtain ⟨h1, h2⟩ := reinsert_ledger (hl.of_sameBook hb (fills_reprice e o ro)) o hf
      o.origOrderID hid
    refine ⟨h1, ⟨?_, ?_, fun hx => (h2.rests hx).imp (hb.restsID _).mp id⟩⟩
    · rw [← fills_reprice e o ro]
      obtain ⟨F, hF, hFm⟩ := h2.fills
      exact ⟨F, hF, fun f hfm => (hFm f hfm).imp id (hb.restsID _).mp⟩
    · rw [← evicted_reprice e o ro]
      obtain ⟨V, hV, hVm⟩ := h2.evicted
      exact ⟨V, hV, fun x hx => ⟨(hb.restsID _).mp (hVm x hx).1, (hVm x hx).2⟩⟩

end Step

/-- The input of a session: no two orders share an id, and a replace has one. -/
structure Session (os : List Order) : Prop where
  distinct : os.Pairwise (fun a b => a.orderID ≠ b.orderID)
  replace : ∀ o ∈ os, o.kind = .replace → o.orderID ≠ ""

theorem Session.left {ps qs : List Order} (h : Session (ps ++ qs)) : Session ps :=
  ⟨h.distinct.sublist (sublist_append_left ps qs),
    fun o ho => h.replace o (mem_append_left qs ho)⟩

theorem Session.snoc {os : List Order} (h : Session (os ++ [o])) :
    Session os ∧ (∀ a ∈ os, a.orderID ≠ o.orderID) ∧ (o.kind = .replace → o.orderID ≠ "") := by
  obtain ⟨-, -, h2⟩ := pairwise_append.mp h.distinct
  exact ⟨h.left, fun a ha => h2 a ha o (by simp), h.replace o (by simp)⟩

theorem run_snoc (os : List Order) (o : Order) : run (os ++ [o]) = (run os).process o := by
  rw [run, foldl_append, foldl_cons, foldl_nil, run]

/-- **Every session keeps the ledger.** -/
theorem Ledger.run : ∀ os : List Order, Session os → Ledger os (run os) := by
  intro os
  induction os using reverseRecOn with
  | nil => intro _; exact Ledger.newEngine
  | append_singleton os o ih =>
    intro h
    obtain ⟨hs, hf, hr⟩ := h.snoc
    rw [run_snoc]
    exact (process_ledger (ih hs) o hf (named_of_nonempty hr)).1

end Engine

end MatchBench.Book
