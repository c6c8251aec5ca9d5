import MatchBench.Book.Engine

/-!
# The book as a family of FIFOs

The trees of the engine are read here as one queue for each side and price:
`fifo e s p` is the queue of resting orders of side `s` at price `p`, empty when
the tree has no such level.  Every operation is then an equation between queues:

* `fifo_insert`: the new order is appended to its own queue;
* `fifo_modify`: a write through a pointer maps over the queue it points into;
* `fifo_remove`: a cancelled order leaves its queue.

`WF` is what the queues have in common along every run: each holds orders of its
own side and price, in the order of their `seq`, and no `seq` occurs twice in
the book.  It speaks only of the fields that never change (`shape`), so an
operation that drops orders or changes their quantity or id keeps it
(`WF.of_shrinks`), and `insert` keeps it because its `seq` is new (`WF.insert`).
-/

namespace MatchBench.Book

/-- The fields of a resting order that never change. -/
def RestingOrder.shape (m : RestingOrder) : Handle := ⟨m.side, m.price, m.seq⟩

namespace Engine

/-! ### Trees -/

@[simp] theorem tree_setTree_self (e : Engine) (s : Side) (t : Tree s) :
    (e.setTree s t).tree s = t := by cases s <;> rfl

theorem tree_setTree_ne (e : Engine) {s s' : Side} (t : Tree s) (h : s' ≠ s) :
    (e.setTree s t).tree s' = e.tree s' := by
  cases s <;> cases s' <;> first | rfl | exact absurd rfl h

@[simp] theorem setTree_index (e : Engine) (s : Side) (t : Tree s) :
    (e.setTree s t).index = e.index := by cases s <;> rfl

@[simp] theorem setTree_seq (e : Engine) (s : Side) (t : Tree s) :
    (e.setTree s t).seq = e.seq := by cases s <;> rfl

@[simp] theorem setTree_fills (e : Engine) (s : Side) (t : Tree s) :
    (e.setTree s t).fills = e.fills := by cases s <;> rfl

@[simp] theorem setTree_trades (e : Engine) (s : Side) (t : Tree s) :
    (e.setTree s t).trades = e.trades := by cases s <;> rfl

@[simp] theorem setTree_seqByOrder (e : Engine) (s : Side) (t : Tree s) :
    (e.setTree s t).seqByOrder = e.seqByOrder := by cases s <;> rfl

@[simp] theorem setTree_repriced (e : Engine) (s : Side) (t : Tree s) :
    (e.setTree s t).repriced = e.repriced := by cases s <;> rfl

@[simp] theorem setTree_evicted (e : Engine) (s : Side) (t : Tree s) :
    (e.setTree s t).evicted = e.evicted := by cases s <;> rfl

/-! ### Queues -/

/-- The queue of a tree at a price. -/
def queueAt {s : Side} (t : Tree s) (p : Int64) : List RestingOrder :=
  (t.get? p).elim [] PriceLevel.orders

/-- The queue of side `s` at price `p`. -/
def fifo (e : Engine) (s : Side) (p : Int64) : List RestingOrder := queueAt (e.tree s) p

/-- The order rests in the book. -/
def Rests (e : Engine) (m : RestingOrder) : Prop := ∃ s p, m ∈ e.fifo s p

variable {s : Side} {e e' : Engine} {m : RestingOrder} {p : Int64} {t : Tree s}

theorem queueAt_insert (t : Tree s) (l : PriceLevel) (p : Int64) :
    queueAt (t.insert l) p = if p = l.price then l.orders else queueAt t p := by
  rw [queueAt, BTree.get?_insert]
  split <;> rfl

theorem queueAt_erase (t : Tree s) (k p : Int64) :
    queueAt (t.erase k) p = if p = k then [] else queueAt t p := by
  rw [queueAt, BTree.get?_erase]
  split <;> rfl

theorem queueAt_eq_of_get? {l : PriceLevel} (h : t.get? p = some l) :
    queueAt t p = l.orders := by rw [queueAt, h]; rfl

theorem queueAt_eq_of_mem {l : PriceLevel} (h : l ∈ t.items) :
    queueAt t l.price = l.orders := queueAt_eq_of_get? (BTree.get?_eq_some.mpr ⟨h, rfl⟩)

theorem mem_queueAt : m ∈ queueAt t p ↔ ∃ l ∈ t.items, l.price = p ∧ m ∈ l.orders := by
  constructor
  · intro h
    cases hl : t.get? p with
    | none => rw [queueAt, hl] at h; simp at h
    | some l =>
      rw [queueAt_eq_of_get? hl] at h
      obtain ⟨hm, hp⟩ := BTree.get?_eq_some.mp hl
      exact ⟨l, hm, hp, h⟩
  · rintro ⟨l, hl, rfl, hm⟩
    rwa [queueAt_eq_of_mem hl]

theorem fifo_setTree (e : Engine) (s : Side) (t : Tree s) (s' : Side) (p : Int64) :
    (e.setTree s t).fifo s' p = if s' = s then queueAt t p else e.fifo s' p := by
  by_cases h : s' = s
  · subst h
    rw [fifo, tree_setTree_self, if_pos rfl]
  · rw [fifo, tree_setTree_ne e t h, if_neg h, fifo]

theorem fifo_eq_of_tree (h : ∀ s, e'.tree s = e.tree s) (s : Side) (p : Int64) :
    e'.fifo s p = e.fifo s p := by rw [fifo, h, fifo]

/-! ### The operations -/

/-- The resting order `insert` makes. -/
def newResting (e : Engine) (o : Order) (remaining : UInt64) : RestingOrder where
  orderID := o.orderID
  side := o.side
  price := o.price
  remaining := remaining
  seq := e.seq + 1
  smpID := o.smpID
  hasSMP := o.hasSMPID

theorem fifo_insert (e : Engine) (o : Order) (rem : UInt64) (s : Side) (p : Int64) :
    (e.insert o rem).fifo s p =
      e.fifo s p ++ (if s = o.side ∧ p = o.price then [e.newResting o rem] else []) := by
  have hlevel : ∀ l : PriceLevel, l.price = o.price →
      l.orders = e.fifo o.side o.price ++ [e.newResting o rem] →
      (e.setTree o.side ((e.tree o.side).insert l)).fifo s p =
        e.fifo s p ++ (if s = o.side ∧ p = o.price then [e.newResting o rem] else []) := by
    intro l hp ho
    rw [fifo_setTree]
    by_cases hs : s = o.side
    · rw [if_pos hs, queueAt_insert, hp]
      by_cases hpp : p = o.price
      · rw [if_pos hpp, if_pos ⟨hs, hpp⟩, ho, hs, hpp]
      · rw [if_neg hpp, if_neg (fun h => hpp h.2), List.append_nil, hs, fifo]
    · rw [if_neg hs, if_neg (fun h => hs h.1), List.append_nil]
  cases hg : (e.tree o.side).get? o.price with
  | none =>
    have := hlevel ⟨o.price, [e.newResting o rem]⟩ rfl (by rw [fifo, queueAt, hg]; rfl)
    rw [← this]
    refine fifo_eq_of_tree (fun s => ?_) s p
    simp only [insert, hg]
    cases s <;> rfl
  | some l =>
    have hl := BTree.get?_eq_some.mp hg
    have := hlevel { l with orders := l.orders ++ [e.newResting o rem] } hl.2
      (by rw [fifo, queueAt_eq_of_get? hg])
    rw [← this]
    refine fifo_eq_of_tree (fun s => ?_) s p
    simp only [insert, hg]
    cases s <;> rfl

theorem fifo_modify (e : Engine) (h : Handle) (f : RestingOrder → RestingOrder) (s : Side)
    (p : Int64) :
    (e.modify h f).fifo s p =
      if s = h.side ∧ p = h.price then
        (e.fifo s p).map (fun x => if x.seq = h.seq then f x else x)
      else e.fifo s p := by
  unfold modify
  cases hg : (e.tree h.side).get? h.price with
  | none =>
    by_cases hsp : s = h.side ∧ p = h.price
    · have hnil : e.fifo h.side h.price = [] := by rw [fifo, queueAt, hg]; rfl
      rw [if_pos hsp, hsp.1, hsp.2, hnil]
      rfl
    · rw [if_neg hsp]
  | some l =>
    have hp := (BTree.get?_eq_some.mp hg).2
    rw [fifo_setTree]
    by_cases hs : s = h.side
    · rw [if_pos hs, queueAt_insert]
      subst hs
      by_cases hpp : p = h.price
      · subst hpp
        rw [if_pos hp.symm, if_pos ⟨rfl, rfl⟩, fifo, queueAt_eq_of_get? hg]
      · rw [if_neg (fun he => hpp (he.trans hp)), if_neg (fun he => hpp he.2), fifo]
    · rw [if_neg hs, if_neg (fun he => hs he.1)]

variable {e : Engine} {ro : RestingOrder}

theorem mem_fifo_of_deref {h : Handle} (hd : e.deref h = some ro) :
    ro ∈ e.fifo h.side h.price ∧ ro.seq = h.seq := by
  unfold deref at hd
  cases hg : (e.tree h.side).get? h.price with
  | none => rw [hg] at hd; simp at hd
  | some l =>
    rw [hg, Option.bind_some] at hd
    rw [fifo, queueAt_eq_of_get? hg]
    exact ⟨List.mem_of_find?_eq_some hd, by simpa using List.find?_some hd⟩

theorem queueAt_unlink (t : Tree s) (k : Int64) (orderID : String) (p : Int64) :
    queueAt (unlink t k orderID) p =
      if p = k then (queueAt t p).eraseP (fun x => x.orderID = orderID) else queueAt t p := by
  unfold unlink
  cases hg : t.get? k with
  | none =>
    by_cases hp : p = k
    · rw [if_pos hp, hp, queueAt, hg]
      rfl
    · rw [if_neg hp]
  | some l =>
    have hk := (BTree.get?_eq_some.mp hg).2
    have hq : queueAt t k = l.orders := queueAt_eq_of_get? hg
    dsimp only
    by_cases hp : p = k
    · subst hp
      rw [if_pos rfl, hq]
      by_cases ho : l.orders.eraseP (fun x : RestingOrder => x.orderID = orderID) = []
      · rw [if_pos ho, queueAt_erase, if_pos hk.symm, ho]
      · rw [if_neg ho, queueAt_insert, if_pos hk.symm]
    · have hne : p ≠ l.price := fun he => hp (he.trans hk)
      rw [if_neg hp]
      by_cases ho : l.orders.eraseP (fun x : RestingOrder => x.orderID = orderID) = []
      · rw [if_pos ho, queueAt_erase, if_neg hne]
      · rw [if_neg ho, queueAt_insert, if_neg hne]

/-- What `remove` does to the queues when the id is indexed. -/
theorem fifo_remove {orderID : String}
    (hi : (e.index.lookup orderID).bind e.deref = some ro) (s : Side) (p : Int64) :
    (e.remove orderID).fifo s p =
      if s = ro.side ∧ p = ro.price then (e.fifo s p).eraseP (fun x => x.orderID = orderID)
      else e.fifo s p := by
  have htree : ∀ s, (e.remove orderID).tree s =
      (e.setTree ro.side (unlink (e.tree ro.side) ro.price orderID)).tree s := by
    intro s
    rw [remove, hi]
    cases s <;> rfl
  rw [fifo_eq_of_tree htree, fifo_setTree]
  by_cases hs : s = ro.side
  · subst hs
    rw [if_pos rfl, queueAt_unlink, fifo]
    simp [true_and]
  · rw [if_neg hs, if_neg (fun he => hs he.1)]

/-! ### Well-formed books -/

/-- Every queue holds orders of its own side and price in the order of their
`seq`, and no `seq` occurs in two queues. -/
structure WF (e : Engine) : Prop where
  shape : ∀ {s p m}, m ∈ e.fifo s p → m.side = s ∧ m.price = p ∧ m.seq ≤ e.seq
  order : ∀ s p, (e.fifo s p).Pairwise (fun a b => a.seq < b.seq)
  unique : ∀ {s p m s' p' m'}, m ∈ e.fifo s p → m' ∈ e.fifo s' p' → m.seq = m'.seq → s = s' ∧ p = p'

/-- The queues of `e'` keep only orders of `e`, in their places, up to the
quantity and the id. -/
def Shrinks (e e' : Engine) : Prop :=
  (∀ s p, ((e'.fifo s p).map RestingOrder.shape).Sublist ((e.fifo s p).map RestingOrder.shape)) ∧
    e.seq ≤ e'.seq

theorem Shrinks.mem (h : Shrinks e e') (hm : m ∈ e'.fifo s p) :
    ∃ m₀ ∈ e.fifo s p, m₀.shape = m.shape :=
  List.mem_map.mp ((h.1 s p).subset (List.mem_map_of_mem hm))

theorem Shrinks.of_fifo_eq (h : ∀ s p, e'.fifo s p = e.fifo s p) (hs : e.seq ≤ e'.seq) :
    Shrinks e e' :=
  ⟨fun s p => by rw [h], hs⟩

theorem WF.of_shrinks (hw : e.WF) (h : Shrinks e e') : e'.WF where
  shape := by
    intro s p m hm
    obtain ⟨m₀, hm₀, hs⟩ := h.mem hm
    obtain ⟨h1, h2, h3⟩ := hw.shape hm₀
    simp only [RestingOrder.shape, Handle.mk.injEq] at hs
    exact ⟨hs.1 ▸ h1, hs.2.1 ▸ h2, hs.2.2 ▸ le_trans h3 h.2⟩
  order := by
    intro s p
    have hp : ((e.fifo s p).map RestingOrder.shape).Pairwise (fun a b => a.seq < b.seq) :=
      List.pairwise_map.mpr (hw.order s p)
    have := hp.sublist (h.1 s p)
    rwa [List.pairwise_map] at this
  unique := by
    intro s p m s' p' m' hm hm' he
    obtain ⟨m₀, hm₀, hs⟩ := h.mem hm
    obtain ⟨m₁, hm₁, hs'⟩ := h.mem hm'
    simp only [RestingOrder.shape, Handle.mk.injEq] at hs hs'
    exact hw.unique hm₀ hm₁ (by rw [hs.2.2, hs'.2.2, he])

theorem WF.newEngine : newEngine.WF where
  shape := by
    intro s p m hm
    cases s <;> simp [fifo, queueAt, Book.newEngine, tree, BTree.get?] at hm
  order := by
    intro s p
    cases s <;> simp [fifo, queueAt, Book.newEngine, tree, BTree.get?]
  unique := by
    intro s p m s' p' m' hm
    cases s <;> simp [fifo, queueAt, Book.newEngine, tree, BTree.get?] at hm

theorem fills_insert (e : Engine) (o : Order) (rem : UInt64) : (e.insert o rem).fills = e.fills :=
  setTree_fills _ _ _

theorem mem_fifo_insert {o : Order} {rem : UInt64} (hm : m ∈ (e.insert o rem).fifo s p) :
    m ∈ e.fifo s p ∨ (s = o.side ∧ p = o.price ∧ m = e.newResting o rem) := by
  rw [fifo_insert, List.mem_append] at hm
  rcases hm with hm | hm
  · exact .inl hm
  split at hm
  next hsp =>
    exact .inr ⟨hsp.1, hsp.2, by simpa using hm⟩
  · simp at hm

theorem WF.insert (hw : e.WF) (o : Order) (rem : UInt64) : (e.insert o rem).WF where
  shape := by
    intro s p m hm
    rcases mem_fifo_insert hm with hm | ⟨hs, hp, rfl⟩
    · obtain ⟨h1, h2, h3⟩ := hw.shape hm
      exact ⟨h1, h2, le_trans h3 (Nat.le_succ _)⟩
    · exact ⟨hs.symm, hp.symm, le_rfl⟩
  order := by
    intro s p
    rw [fifo_insert]
    refine List.pairwise_append.mpr ⟨hw.order s p, ?_, ?_⟩
    · split <;> simp
    intro a ha b hb
    split at hb
    · obtain rfl : b = e.newResting o rem := by simpa using hb
      exact Nat.lt_succ_of_le (hw.shape ha).2.2
    · simp at hb
  unique := by
    intro s p m s' p' m' hm hm' he
    rcases mem_fifo_insert hm with hm | ⟨hs, hp, rfl⟩ <;>
      rcases mem_fifo_insert hm' with hm' | ⟨hs', hp', rfl⟩
    · exact hw.unique hm hm' he
    · have := (hw.shape hm).2.2
      rw [he] at this
      exact absurd this (Nat.not_succ_le_self _)
    · have := (hw.shape hm').2.2
      rw [← he] at this
      exact absurd this (Nat.not_succ_le_self _)
    · exact ⟨hs.trans hs'.symm, hp.trans hp'.symm⟩

theorem shrinks_modify (e : Engine) (h : Handle) (f : RestingOrder → RestingOrder)
    (hf : ∀ x, (f x).shape = x.shape) : Shrinks e (e.modify h f) := by
  constructor
  · intro s p
    rw [fifo_modify]
    split
    · have hx : ∀ x ∈ e.fifo s p,
          (if x.seq = h.seq then f x else x).shape = RestingOrder.shape x := by
        intro x _
        split
        · exact hf x
        · rfl
      rw [List.map_map, List.map_congr_left (f := _ ∘ _) hx]
    · exact List.Sublist.refl _
  · unfold modify
    split
    · exact le_rfl
    · rw [setTree_seq]

theorem shrinks_rename (e : Engine) (h : Handle) (oldID newID : String) :
    Shrinks e (e.rename h oldID newID) := by
  have hm := shrinks_modify e h (fun x => { x with orderID := newID }) (fun _ => rfl)
  refine ⟨fun s p => ?_, hm.2⟩
  rw [fifo_eq_of_tree (e := e.modify h (fun x => { x with orderID := newID }))
    (fun s => by cases s <;> rfl)]
  exact hm.1 s p

theorem shrinks_remove (e : Engine) (orderID : String) : Shrinks e (e.remove orderID) := by
  cases hi : (e.index.lookup orderID).bind e.deref with
  | none =>
    have : e.remove orderID = e := by rw [remove, hi]
    exact Shrinks.of_fifo_eq (fun _ _ => by rw [this]) (by rw [this])
  | some ro =>
    constructor
    · intro s p
      rw [fifo_remove hi]
      split
      · exact (List.eraseP_sublist).map _
      · exact List.Sublist.refl _
    · rw [remove, hi]
      exact le_of_eq (setTree_seq e _ _).symm

theorem WF.replace (hw : e.WF) (o : Order) : (e.replace o).WF := by
  unfold Engine.replace
  split
  · exact hw
  rename_i h _
  split
  · exact hw
  rename_i ro _
  split
  · have hw₁ := hw.of_shrinks (shrinks_modify e h (fun x => { x with remaining := o.qty })
      (fun _ => rfl))
    split
    · exact hw₁.of_shrinks (shrinks_rename _ _ _ _)
    · exact hw₁
  dsimp only
  refine WF.insert ?_ _ _
  refine WF.of_shrinks ?_ (shrinks_remove _ _)
  split
  · exact hw.of_shrinks (Shrinks.of_fifo_eq
      (fun s p => fifo_eq_of_tree (fun s => by cases s <;> rfl) s p) le_rfl)
  · exact hw

end Engine

end MatchBench.Book
