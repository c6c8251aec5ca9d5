import Mathlib.Data.List.DropRight
import Mathlib.Data.List.Rotate

/-!
# A ring buffer and the window it holds

`slide c w x` appends `x` to a window of at most `c` items, the oldest item
leaving when it is full.  A ring of `c` slots holds the window rotated: storing
at the slot of the oldest item and moving one slot on is one `slide`.
-/

namespace MatchBench.Lib

open List

variable {α : Type} {c : Nat}

def slide (c : Nat) (w : List α) (x : α) : List α :=
  (if w.length < c then w else w.tail) ++ [x]

/-- **The window is the last `c` items.** -/
theorem foldl_slide (hc : 0 < c) (xs : List α) : xs.foldl (slide c) [] = xs.rtake c := by
  induction xs using reverseRecOn with
  | nil => simp
  | append_singleton xs x ih =>
    obtain ⟨c, rfl⟩ := Nat.exists_eq_add_one.2 hc
    rw [foldl_append, ih, foldl_cons, foldl_nil, rtake_concat_succ, slide]
    congr 1
    simp only [rtake, length_drop]
    split
    · congr 1
      omega
    · rw [tail_drop]
      congr 1
      omega

theorem rotate_set {r : List α} {p : Nat} (h : p < r.length) (x : α) :
    (r.set p x).rotate ((p + 1) % r.length) = (r.rotate p).tail ++ [x] := by
  have hl : (r.set p x).length = r.length := length_set
  rw [← hl, rotate_mod, rotate_eq_drop_append_take (by omega), rotate_eq_drop_append_take h.le,
    drop_set_of_lt (by omega), take_add_one, take_set, set_eq_of_length_le (length_take_le p r),
    drop_eq_getElem_cons h]
  simp [h]

end MatchBench.Lib
