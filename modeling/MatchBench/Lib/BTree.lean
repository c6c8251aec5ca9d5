import Mathlib

/-!
# Ordered maps

`BTree key r` holds at most one item for each key, in the order `r` of the
keys.  It is what a B-tree with a comparator offers to its caller: the least
item (`min?`), lookup by key (`get?`), removal by key (`erase`) and an insertion
that replaces the item with the same key (`insert`).

The order is a field, so a tree out of order cannot be built.  `mem_insert` and
`mem_erase` say what the operations keep, and `ext_mem` says that the members
determine the tree, so an equation of trees is an equation of their members.
`foldl_insert_items` puts a run of items back in front of a tree they precede.
-/

open List

/-- An ordered map: the items in the order `r` of their keys. -/
structure BTree {α κ : Type} (key : α → κ) (r : κ → κ → Prop) where
  items : List α
  sorted : items.Pairwise (fun a b => r (key a) (key b))

namespace BTree

section Order

variable {κ : Type} {r : κ → κ → Prop} [IsStrictTotalOrder κ r]

theorem eq_of_not_rel {a b : κ} (h₁ : ¬ r a b) (h₂ : ¬ r b a) : a = b := by
  rcases trichotomous_of r a b with h | h | h
  · exact absurd h h₁
  · exact h
  · exact absurd h h₂

theorem ne_of_rel {a b : κ} (h : r a b) : a ≠ b := by
  rintro rfl
  exact irrefl_of r a h

end Order

section Insert

variable {α κ : Type} (key : α → κ) (r : κ → κ → Prop) [DecidableRel r]

/-- Insertion into the list of items; an item with the same key is replaced. -/
def insertItem (x : α) : List α → List α
  | [] => [x]
  | y :: ys =>
      if r (key x) (key y) then x :: y :: ys
      else if r (key y) (key x) then y :: insertItem x ys
      else x :: ys

variable {key r} [IsStrictTotalOrder κ r]

theorem mem_insertItem {x z : α} : ∀ {l : List α},
    l.Pairwise (fun a b => r (key a) (key b)) →
      (z ∈ insertItem key r x l ↔ z = x ∨ (z ∈ l ∧ key z ≠ key x)) := by
  intro l
  induction l with
  | nil => intro _; simp [insertItem]
  | cons y ys ih =>
    intro h
    obtain ⟨hy, hys⟩ := pairwise_cons.mp h
    unfold insertItem
    split
    next hxy =>
      have hne : ∀ z ∈ y :: ys, key z ≠ key x := by
        intro z hz
        rcases mem_cons.mp hz with rfl | hz
        · exact (ne_of_rel hxy).symm
        · exact (ne_of_rel (trans_of r hxy (hy z hz))).symm
      rw [mem_cons]
      constructor
      · rintro (h | h)
        · exact .inl h
        · exact .inr ⟨h, hne z h⟩
      · rintro (h | ⟨h, _⟩)
        · exact .inl h
        · exact .inr h
    · split
      next hyx =>
        rw [mem_cons, ih hys, mem_cons]
        constructor
        · rintro (rfl | h | ⟨h, hk⟩)
          · exact .inr ⟨.inl rfl, ne_of_rel hyx⟩
          · exact .inl h
          · exact .inr ⟨.inr h, hk⟩
        · rintro (h | ⟨rfl | h, hk⟩)
          · exact .inr (.inl h)
          · exact .inl rfl
          · exact .inr (.inr ⟨h, hk⟩)
      next hxy hyx =>
        have hk : key x = key y := eq_of_not_rel hxy hyx
        rw [mem_cons, mem_cons]
        constructor
        · rintro (h | h)
          · exact .inl h
          · exact .inr ⟨.inr h, hk ▸ (ne_of_rel (hy z h)).symm⟩
        rintro (h | ⟨rfl | h, hz⟩)
        · exact .inl h
        · exact absurd hk.symm hz
        · exact .inr h

theorem insertItem_sorted {x : α} {l : List α} :
    l.Pairwise (fun a b => r (key a) (key b)) →
      (insertItem key r x l).Pairwise (fun a b => r (key a) (key b)) := by
  induction l with
  | nil => intro _; simp [insertItem]
  | cons y ys ih =>
    intro h
    obtain ⟨hy, hys⟩ := pairwise_cons.mp h
    unfold insertItem
    split
    next hxy =>
      refine pairwise_cons.mpr ⟨?_, h⟩
      intro z hz
      rcases mem_cons.mp hz with rfl | hz
      · exact hxy
      · exact trans_of r hxy (hy z hz)
    split
    next hyx =>
      refine pairwise_cons.mpr ⟨?_, ih hys⟩
      intro z hz
      rcases (mem_insertItem hys).mp hz with rfl | ⟨hz, _⟩
      · exact hyx
      · exact hy z hz
    next hxy hyx =>
      have hk : key x = key y := eq_of_not_rel hxy hyx
      exact pairwise_cons.mpr ⟨fun z hz => hk ▸ hy z hz, hys⟩

/-- An item that follows `pre` and precedes `post` lands between them. -/
theorem insertItem_append {x : α} {pre post : List α}
    (hpre : ∀ y ∈ pre, r (key y) (key x)) (hpost : ∀ y ∈ post, r (key x) (key y)) :
    insertItem key r x (pre ++ post) = pre ++ x :: post := by
  induction pre with
  | nil =>
    cases post with
    | nil => rfl
    | cons y ys => rw [nil_append, insertItem, if_pos (hpost y (by simp))]; rfl
  | cons y ys ih =>
    have hyx := hpre y (by simp)
    rw [cons_append, insertItem, if_neg (fun h => irrefl_of r _ (trans_of r h hyx)),
      if_pos hyx, ih (fun z hz => hpre z (by simp [hz]))]
    rfl

end Insert

variable {α κ : Type} {key : α → κ} {r : κ → κ → Prop}

def empty : BTree key r := ⟨[], List.Pairwise.nil⟩

@[simp] theorem empty_items : (empty : BTree key r).items = [] := rfl

/-- The least item. -/
def min? (t : BTree key r) : Option α := t.items.head?

section Members

variable [IsStrictTotalOrder κ r]

theorem keys_nodup (t : BTree key r) : (t.items.map key).Nodup :=
  pairwise_map.mpr (t.sorted.imp (fun h => ne_of_rel (r := r) h))

theorem eq_of_key_eq {t : BTree key r} {x y : α} (hx : x ∈ t.items) (hy : y ∈ t.items)
    (h : key x = key y) : x = y :=
  inj_on_of_nodup_map t.keys_nodup hx hy h

theorem ext_mem {s t : BTree key r} (h : ∀ x, x ∈ s.items ↔ x ∈ t.items) : s = t := by
  have hperm : s.items.Perm t.items :=
    (perm_ext_iff_of_nodup s.keys_nodup.of_map t.keys_nodup.of_map).mpr h
  have heq : s.items = t.items :=
    hperm.eq_of_pairwise (fun a b _ _ hab hba => absurd (trans_of r hab hba) (irrefl_of r _))
      s.sorted t.sorted
  cases s
  cases t
  cases heq
  rfl

end Members

section Keys

variable [DecidableEq κ]

/-- The item with a given key. -/
def get? (t : BTree key r) (k : κ) : Option α := t.items.find? (fun x => key x = k)

/-- The tree without the item of a given key. -/
def erase (t : BTree key r) (k : κ) : BTree key r :=
  ⟨t.items.filter (fun x => key x ≠ k), t.sorted.filter _⟩

@[simp] theorem mem_erase {t : BTree key r} {k : κ} {x : α} :
    x ∈ (t.erase k).items ↔ x ∈ t.items ∧ key x ≠ k := by
  simp [erase]

variable {t : BTree key r}

variable [IsStrictTotalOrder κ r]

theorem get?_eq_some {k : κ} {x : α} : t.get? k = some x ↔ x ∈ t.items ∧ key x = k := by
  constructor
  · intro h
    exact ⟨mem_of_find?_eq_some h, by simpa using find?_some h⟩
  rintro ⟨hx, rfl⟩
  cases hf : t.get? (key x) with
  | none =>
    have := find?_eq_none.mp hf x hx
    simp at this
  | some y =>
    have hy := mem_of_find?_eq_some hf
    have hk : key y = key x := by simpa using find?_some hf
    rw [eq_of_key_eq hy hx hk]

theorem get?_erase (t : BTree key r) (k k' : κ) :
    (t.erase k).get? k' = if k' = k then none else t.get? k' := by
  ext x
  rw [get?_eq_some, mem_erase]
  by_cases hk : k' = k
  · rw [if_pos hk]
    simp only [reduceCtorEq, iff_false]
    rintro ⟨⟨_, hne⟩, hx⟩
    exact hne (hx.trans hk)
  rw [if_neg hk, get?_eq_some]
  constructor
  · rintro ⟨⟨hx, _⟩, hxk⟩
    exact ⟨hx, hxk⟩
  · rintro ⟨hx, hxk⟩
    exact ⟨⟨hx, fun h => hk (hxk.symm.trans h)⟩, hxk⟩

theorem erase_min_items {x : α} {xs : List α} (h : t.items = x :: xs) :
    (t.erase (key x)).items = xs := by
  have hs := t.sorted
  rw [h] at hs
  have hne : ∀ y ∈ xs, key y ≠ key x :=
    fun y hy => (ne_of_rel (r := r) ((pairwise_cons.mp hs).1 y hy)).symm
  simp only [erase, h, filter_cons, ne_eq, not_true_eq_false, decide_false]
  exact filter_eq_self.mpr (fun y hy => by simpa using hne y hy)

end Keys

variable [DecidableRel r] [IsStrictTotalOrder κ r]

/-- `ReplaceOrInsert`: the item takes the place of the one with its key. -/
def insert (t : BTree key r) (x : α) : BTree key r :=
  ⟨insertItem key r x t.items, insertItem_sorted t.sorted⟩

@[simp] theorem mem_insert {t : BTree key r} {x z : α} :
    z ∈ (t.insert x).items ↔ z = x ∨ (z ∈ t.items ∧ key z ≠ key x) :=
  mem_insertItem t.sorted

theorem get?_insert [DecidableEq κ] (t : BTree key r) (x : α) (k : κ) :
    (t.insert x).get? k = if k = key x then some x else t.get? k := by
  ext y
  rw [get?_eq_some, mem_insert]
  by_cases hk : k = key x
  · rw [if_pos hk, Option.some.injEq]
    constructor
    · rintro ⟨h | ⟨_, hne⟩, hy⟩
      · exact h.symm
      · exact absurd (hy.trans hk) hne
    · rintro rfl
      exact ⟨.inl rfl, hk.symm⟩
  rw [if_neg hk, get?_eq_some]
  constructor
  · rintro ⟨h | ⟨hy, _⟩, hyk⟩
    · exact absurd (hyk.symm.trans (congrArg key h)) hk
    · exact ⟨hy, hyk⟩
  · rintro ⟨hy, hyk⟩
    exact ⟨.inr ⟨hy, fun h => hk (hyk.symm.trans h)⟩, hyk⟩

theorem insert_min_items {t : BTree key r} {x y : α} {ys : List α} (h : t.items = y :: ys)
    (hk : key x = key y) : (t.insert x).items = x :: ys := by
  show insertItem key r x t.items = x :: ys
  rw [h, insertItem, hk, if_neg (irrefl_of r _), if_neg (irrefl_of r _)]

theorem foldl_insert_items : ∀ (xs pre : List α) (t : BTree key r) (post : List α),
    t.items = pre ++ post → (pre ++ (xs ++ post)).Pairwise (fun a b => r (key a) (key b)) →
      (xs.foldl insert t).items = pre ++ (xs ++ post) := by
  intro xs
  induction xs with
  | nil => intro pre t post h _; exact h
  | cons x xs ih =>
    intro pre t post h hs
    obtain ⟨_, hrest, hcross⟩ := pairwise_append.mp hs
    rw [cons_append] at hrest
    have hx : (t.insert x).items = (pre ++ [x]) ++ post := by
      show insertItem key r x t.items = _
      rw [h, insertItem_append (fun y hy => hcross y hy x (by simp))
        (fun y hy => (pairwise_cons.mp hrest).1 y (by simp [hy]))]
      simp
    have := ih (pre ++ [x]) (t.insert x) post hx (by simpa using hs)
    rw [foldl_cons, this]
    simp

end BTree
