import Mathlib

/-!
# Merging sorted streams

`Merges le streams out` says that `out` takes the streams apart head by head,
each time a head that is not after any other.  Which of several such heads comes
next is open, so a theorem about every `out` is about every way to break ties.

`Merges.perm` and `Merges.sorted` are what a merge gives: every element once, and
sorted when the streams are.
-/

open List

/-- `out` is a merge of the streams: each step takes a least head. -/
inductive Merges {α : Type} (le : α → α → Prop) : List (List α) → List α → Prop
  | nil {streams : List (List α)} : (∀ s ∈ streams, s = []) → Merges le streams []
  | cons {streams : List (List α)} {i : Nat} {b : α} {rest out : List α} :
      streams[i]? = some (b :: rest) → (∀ s ∈ streams, ∀ c, s.head? = some c → le b c) →
      Merges le (streams.set i rest) out → Merges le streams (b :: out)

namespace Merges

variable {α : Type} {le : α → α → Prop} {streams : List (List α)}

theorem perm_flatten_set {i : Nat} {b : α} {rest : List α} (h : streams[i]? = some (b :: rest)) :
    streams.flatten.Perm (b :: (streams.set i rest).flatten) := by
  induction streams generalizing i with
  | nil => simp at h
  | cons s streams ih =>
    cases i with
    | zero =>
      obtain rfl : s = b :: rest := by simpa using h
      simp
    | succ i =>
      have hp := (ih (i := i) (by simpa using h)).append_left s
      rw [flatten_cons, set_cons_succ, flatten_cons]
      exact hp.trans perm_middle

/-- **Every element once.** -/
theorem perm {out : List α} (h : Merges le streams out) : out.Perm streams.flatten := by
  induction h with
  | nil h => rw [flatten_eq_nil_iff.mpr h]
  | cons hi _ _ ih => exact (ih.cons _).trans (perm_flatten_set hi).symm

theorem mem_set {i : Nat} {t s : List α} (h : s ∈ streams.set i t) : s ∈ streams ∨ s = t := by
  rcases mem_or_eq_of_mem_set h with h | h
  · exact .inl h
  · exact .inr h

/-- **Sorted when the streams are.** -/
theorem sorted (htrans : ∀ a b c, le a b → le b c → le a c) {out : List α}
    (h : Merges le streams out) (hs : ∀ s ∈ streams, s.Pairwise le) :
    out.Pairwise le := by
  induction h with
  | nil _ => exact List.Pairwise.nil
  | @cons streams i b rest out hi hb hm ih =>
    have hmem : b :: rest ∈ streams := mem_of_getElem? hi
    have hs' : ∀ s ∈ streams.set i rest, s.Pairwise le := by
      intro s hset
      rcases mem_set hset with h | h
      · exact hs s h
      · rw [h]
        exact (pairwise_cons.mp (hs _ hmem)).2
    refine pairwise_cons.mpr ⟨fun c hc => ?_, ih hs'⟩
    obtain ⟨s, hset, hcs⟩ := mem_flatten.mp (hm.perm.mem_iff.mp hc)
    have hhead : ∀ t ∈ streams, c ∈ t → le b c := by
      intro t ht hct
      cases t with
      | nil => simp at hct
      | cons d t =>
        have hbd := hb _ ht d rfl
        rcases mem_cons.mp hct with hct | hct
        · rw [hct]
          exact hbd
        · exact htrans b d c hbd ((pairwise_cons.mp (hs _ ht)).1 c hct)
    rcases mem_set hset with h | h
    · exact hhead s h hcs
    · rw [h] at hcs
      exact hhead _ hmem (.tail _ hcs)

end Merges
