import Mathlib

/-!
# Sorting with a comparator

`stableSort less` sorts a list by a comparator and keeps the order of elements
the comparator does not separate, as a library's stable sort does.

A comparator need not be an order on its whole type.  `StrictOn less l` asks for
a strict order that separates the members of `l` only, and that is enough: the
sorted list is sorted (`pairwise_stableSort`), it is the only sorted
rearrangement (`stableSort_eq_of_perm`), and when some members sort before all
the others they come first (`stableSort_append`).
-/

/-- Stable sort by `less`. -/
def stableSort {α : Type} (less : α → α → Bool) (l : List α) : List α :=
  l.insertionSort (fun a b => less b a = false)

theorem perm_stableSort {α : Type} (less : α → α → Bool) (l : List α) :
    (stableSort less l).Perm l := List.perm_insertionSort _ l

/-- How many members go when `n` of them are asked for. -/
theorem min_toNat_cases {α : Type} (n : Int) (l : List α) :
    (n ≤ 0 ∨ l = []) ∧ min n.toNat l.length = 0 ∨
      ¬ (n ≤ 0 ∨ l = []) ∧ min n.toNat l.length ≠ 0 ∧
        (if (l.length : Int) < n then l.length else n.toNat) = min n.toNat l.length := by
  rw [← List.length_eq_zero_iff]
  split <;> omega

/-- `less` is a strict order on the members of `l`, and separates them. -/
structure StrictOn {α : Type} (less : α → α → Bool) (l : List α) : Prop where
  irrefl : ∀ a ∈ l, less a a = false
  trans : ∀ a ∈ l, ∀ b ∈ l, ∀ c ∈ l, less a b = true → less b c = true → less a c = true
  total : ∀ a ∈ l, ∀ b ∈ l, a ≠ b → less a b = true ∨ less b a = true

namespace StrictOn

variable {α : Type} {less : α → α → Bool} {l : List α}

theorem mono (h : StrictOn less l) {l' : List α} (hs : ∀ a ∈ l', a ∈ l) : StrictOn less l' :=
  ⟨fun a ha => h.irrefl a (hs a ha),
    fun a ha b hb c hc => h.trans a (hs a ha) b (hs b hb) c (hs c hc),
    fun a ha b hb => h.total a (hs a ha) b (hs b hb)⟩

theorem asymm (h : StrictOn less l) {a b : α} (ha : a ∈ l) (hb : b ∈ l) (hab : less a b = true) :
    less b a = false := by
  by_contra hba
  have hba : less b a = true := by simpa using hba
  have := h.trans a ha b hb a ha hab hba
  rw [h.irrefl a ha] at this
  simp at this

theorem antisymm (h : StrictOn less l) {a b : α} (ha : a ∈ l) (hb : b ∈ l)
    (hab : less a b = false) (hba : less b a = false) : a = b := by
  by_contra hne
  rcases h.total a ha b hb hne with h1 | h1
  · rw [hab] at h1
    simp at h1
  · rw [hba] at h1
    simp at h1

theorem le_trans (h : StrictOn less l) {a b c : α} (ha : a ∈ l) (hb : b ∈ l) (hc : c ∈ l)
    (hab : less b a = false) (hbc : less c b = false) : less c a = false := by
  by_contra hca
  have hca : less c a = true := by simpa using hca
  by_cases heq : a = b
  · rw [heq] at hca
    rw [hbc] at hca
    simp at hca
  rcases h.total a ha b hb heq with h1 | h1
  · have := h.trans c hc a ha b hb hca h1
    rw [hbc] at this
    simp at this
  · rw [hab] at h1
    simp at h1

theorem pairwise_orderedInsert {x : α} : ∀ {s : List α}, StrictOn less (x :: s) →
    s.Pairwise (fun a b => less b a = false) →
      (s.orderedInsert (fun a b => less b a = false) x).Pairwise (fun a b => less b a = false) := by
  intro s
  induction s with
  | nil => intro _ _; simp
  | cons y s ih =>
    intro h hs
    obtain ⟨hy, hs'⟩ := List.pairwise_cons.mp hs
    by_cases hxy : less y x = false
    · rw [List.orderedInsert_cons, if_pos hxy]
      refine List.pairwise_cons.mpr ⟨fun z hz => ?_, hs⟩
      rcases List.mem_cons.mp hz with hz | hz
      · rw [hz]
        exact hxy
      · exact h.le_trans (by simp) (by simp) (by simp [hz]) hxy (hy z hz)
    rw [List.orderedInsert_cons, if_neg hxy]
    refine List.pairwise_cons.mpr ⟨fun z hz => ?_, ?_⟩
    · rcases (List.mem_orderedInsert _).mp hz with hz | hz
      · rw [hz]
        exact h.asymm (by simp) (by simp) (by simpa using hxy)
      · exact hy z hz
    · refine ih (h.mono (fun a ha => ?_)) hs'
      rcases List.mem_cons.mp ha with ha | ha
      · simp [ha]
      · simp [ha]

/-- **The sorted list is sorted.** -/
theorem pairwise_stableSort {l : List α} : StrictOn less l →
    (stableSort less l).Pairwise (fun a b => less b a = false) := by
  induction l with
  | nil => intro _; exact List.Pairwise.nil
  | cons x l ih =>
    intro h
    refine pairwise_orderedInsert (h.mono (fun a ha => ?_)) (ih (h.mono (by simp +contextual)))
    rcases List.mem_cons.mp ha with ha | ha
    · simp [ha]
    · exact List.mem_cons_of_mem _ ((perm_stableSort less l).mem_iff.mp ha)

/-- **A sorted rearrangement is the sorted list.** -/
theorem stableSort_eq_of_perm (h : StrictOn less l) {l' : List α} (hp : l'.Perm l)
    (hs : l'.Pairwise (fun a b => less b a = false)) : stableSort less l = l' := by
  refine List.Perm.eq_of_pairwise (fun a b ha hb hab hba => ?_) h.pairwise_stableSort hs
    ((perm_stableSort less l).trans hp.symm)
  exact (h.antisymm ((perm_stableSort less l).mem_iff.mp ha) (hp.mem_iff.mp hb) hba hab)

/-- **Members that sort before all the others come first.** -/
theorem stableSort_append (h : StrictOn less l) {c d : List α} (hp : l.Perm (c ++ d))
    (hc : c.Pairwise (fun a b => less b a = false))
    (hcd : ∀ a ∈ c, ∀ b ∈ d, less b a = false) :
    stableSort less l = c ++ stableSort less d := by
  have hd : StrictOn less d := h.mono (fun a ha => hp.mem_iff.mpr (by simp [ha]))
  refine h.stableSort_eq_of_perm (((perm_stableSort less d).append_left c).trans hp.symm) ?_
  refine List.pairwise_append.mpr ⟨hc, hd.pairwise_stableSort, fun a ha b hb => ?_⟩
  exact hcd a ha b ((perm_stableSort less d).mem_iff.mp hb)

end StrictOn
