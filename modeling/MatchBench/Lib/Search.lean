import Mathlib

/-!
# Searching a list for a list

`OccursAt needle hay i` says that `needle` stands at position `i` of `hay`.  A
`Finder` is a search for the first such position; its law determines it, and
`Finder.naive` is one.

What is found does not depend on what follows it (`find_append`), and in a front part
of the list that has it whole it is found at the same place (`find_front`).
-/

open List

variable {α : Type}

/-- `needle` stands at position `i` of `hay`. -/
def OccursAt (needle hay : List α) (i : Nat) : Prop := needle <+: hay.drop i

namespace OccursAt

variable {needle hay : List α} {i : Nat}

theorem le (hne : needle ≠ []) (h : OccursAt needle hay i) : i + needle.length ≤ hay.length := by
  have hlen := h.length_le
  have hpos := length_pos_iff.mpr hne
  rw [length_drop] at hlen
  omega

theorem append (hne : needle ≠ []) (h : OccursAt needle hay i) (rest : List α) :
    OccursAt needle (hay ++ rest) i := by
  have hle := h.le hne
  rw [OccursAt, drop_append_of_le_length (by omega)]
  exact h.trans (prefix_append _ _)

theorem front {rest : List α} (h : OccursAt needle (hay ++ rest) i)
    (hle : i + needle.length ≤ hay.length) : OccursAt needle hay i := by
  rw [OccursAt, drop_append_of_le_length (by omega)] at h
  refine prefix_of_prefix_length_le h (prefix_append _ _) ?_
  rw [length_drop]
  omega

theorem le_of_head {a : α} {as rest : List α} (hna : a ∉ as)
    (h : OccursAt (a :: as) (hay ++ a :: rest) i) (hi : i < hay.length) :
    i + (a :: as).length ≤ hay.length := by
  by_contra hlt
  have hget : (a :: as)[hay.length - i]? = some a := by
    obtain ⟨tail, ht⟩ := h
    have hat : ((hay ++ a :: rest).drop i)[hay.length - i]? = some a := by
      rw [getElem?_drop, Nat.add_sub_cancel' (by omega),
        getElem?_append_right le_rfl, Nat.sub_self, getElem?_cons_zero]
    rw [← ht, getElem?_append_left (by omega)] at hat
    exact hat
  obtain ⟨k, hk⟩ : ∃ k, hay.length - i = k + 1 := ⟨hay.length - i - 1, by omega⟩
  rw [hk, getElem?_cons_succ] at hget
  exact hna (mem_of_getElem? hget)

end OccursAt

theorem occursAt_of_infix {needle hay : List α} (h : needle <:+: hay) :
    ∃ i, OccursAt needle hay i := by
  obtain ⟨pre, post, rfl⟩ := h
  exact ⟨pre.length, by rw [OccursAt, append_assoc, drop_left]; exact ⟨post, rfl⟩⟩

/-- A search for the first place where a list stands in another. -/
structure Finder (α : Type) where
  find : List α → List α → Option Nat
  find_iff : ∀ hay needle i, needle ≠ [] →
    (find hay needle = some i ↔ OccursAt needle hay i ∧ ∀ j < i, ¬ OccursAt needle hay j)

namespace Finder

variable (f : Finder α) {needle hay : List α} {i : Nat}

theorem find_eq_none (hne : needle ≠ []) :
    f.find hay needle = none ↔ ∀ i, ¬ OccursAt needle hay i := by
  classical
  refine ⟨fun h i hi => ?_, fun h => ?_⟩
  · have hex : ∃ i, OccursAt needle hay i := ⟨i, hi⟩
    have hsome := (f.find_iff hay needle (Nat.find hex) hne).mpr
      ⟨Nat.find_spec hex, fun j hj => Nat.find_min hex hj⟩
    rw [h] at hsome
    cases hsome
  · cases hf : f.find hay needle with
    | none => rfl
    | some i => exact absurd ((f.find_iff hay needle i hne).mp hf).1 (h i)

theorem find_le (hne : needle ≠ []) (h : f.find hay needle = some i) :
    i + needle.length ≤ hay.length :=
  ((f.find_iff hay needle i hne).mp h).1.le hne

theorem find_append (hne : needle ≠ []) (h : f.find hay needle = some i) (rest : List α) :
    f.find (hay ++ rest) needle = some i := by
  have hle := f.find_le hne h
  obtain ⟨hi, hmin⟩ := (f.find_iff hay needle i hne).mp h
  refine (f.find_iff _ needle i hne).mpr ⟨hi.append hne rest, fun j hj hocc => ?_⟩
  exact hmin j hj (hocc.front (by omega))

theorem find_front {rest : List α} (hne : needle ≠ [])
    (h : f.find (hay ++ rest) needle = some i) (hle : i + needle.length ≤ hay.length) :
    f.find hay needle = some i := by
  obtain ⟨hi, hmin⟩ := (f.find_iff _ needle i hne).mp h
  refine (f.find_iff hay needle i hne).mpr ⟨hi.front hle, fun j hj hocc => ?_⟩
  exact hmin j hj (hocc.append hne rest)

theorem find_skip {a : α} {as rest : List α} (hna : a ∉ as) (hh : f.find hay (a :: as) = none)
    (hr : (a :: as) <+: rest) : f.find (hay ++ rest) (a :: as) = some hay.length := by
  have hnone := (f.find_eq_none (cons_ne_nil a as)).mp hh
  refine (f.find_iff _ _ _ (cons_ne_nil a as)).mpr ⟨?_, fun j hj hocc => ?_⟩
  · rw [OccursAt, drop_left]
    exact hr
  · obtain ⟨tail, ht⟩ := hr
    rw [← ht, cons_append] at hocc
    exact hnone j ((hocc.front (hocc.le_of_head hna hj)))

/-- The search that tries every position. -/
def naive [DecidableEq α] : Finder α where
  find hay needle := (List.range (hay.length + 1)).find? (fun i => needle.isPrefixOf (hay.drop i))
  find_iff hay needle i hne := by
    have hocc : ∀ j, needle.isPrefixOf (hay.drop j) = true ↔ OccursAt needle hay j :=
      fun j => List.isPrefixOf_iff_prefix
    rw [find?_range_eq_some]
    simp only [hocc, Bool.not_eq_true', ← Bool.not_eq_true]
    refine ⟨fun h => ⟨h.1, fun j hj => h.2.2 j hj⟩, fun h => ⟨h.1, ?_, fun j hj => h.2 j hj⟩⟩
    have hle := h.1.le hne
    exact mem_range.mpr (by omega)

end Finder
