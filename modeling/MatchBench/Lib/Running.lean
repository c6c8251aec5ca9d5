import Mathlib

/-!
# Running totals of machine words

`runsOver limit total xs` counts how often the running total of `xs`, kept in 64 bits, is over the
limit.  The exact total can be over the limit without this ever being seen, when one word takes it
from below the limit past the largest word.  `Fits` rules this out, and then the count is positive
exactly when the exact total is over the limit (`runsOver_pos_iff`).
-/

namespace RunningTotal

/-- How often the running total, from `total`, is over the limit. -/
def runsOver (limit : UInt64) : UInt64 → List UInt64 → Nat
  | _, [] => 0
  | total, x :: xs =>
      (if limit < total + x then 1 else 0) + runsOver limit (total + x) xs

/-- The total without bounds. -/
def exactSum (xs : List UInt64) : Nat := (xs.map UInt64.toNat).sum

/-- No word takes the exact total, from `total`, from within the limit to `2 ^ 64`. -/
def Fits (limit : UInt64) (total : Nat) (xs : List UInt64) : Prop :=
  ∀ k < xs.length, total + exactSum (xs.take k) ≤ limit.toNat →
    total + exactSum (xs.take (k + 1)) < 2 ^ 64

instance (limit : UInt64) (total : Nat) (xs : List UInt64) : Decidable (Fits limit total xs) :=
  inferInstanceAs (Decidable (∀ k < xs.length, _))

@[simp] theorem exactSum_nil : exactSum [] = 0 := rfl

@[simp] theorem exactSum_cons (x : UInt64) (xs : List UInt64) :
    exactSum (x :: xs) = x.toNat + exactSum xs := by
  rw [exactSum, List.map_cons, List.sum_cons, exactSum]

variable {xs : List UInt64}

theorem Fits.head {limit x : UInt64} {total : Nat} (h : Fits limit total (x :: xs))
    (htotal : total ≤ limit.toNat) :
    total + x.toNat < 2 ^ 64 := by
  have := h 0 (Nat.succ_pos _) (by simpa using htotal)
  simpa using this

theorem Fits.tail {limit x : UInt64} {total : Nat} (h : Fits limit total (x :: xs)) :
    Fits limit (total + x.toNat) xs := by
  intro k hk hle
  have hnext := h (k + 1) (Nat.succ_lt_succ hk)
  rw [List.take_succ_cons, List.take_succ_cons, exactSum_cons, exactSum_cons, ← add_assoc,
    ← add_assoc] at hnext
  exact hnext hle

/-- **The limit is seen to be passed exactly when the exact total passes it.** -/
theorem runsOver_pos_iff {limit total : UInt64} (hfits : Fits limit total.toNat xs)
    (htotal : total.toNat ≤ limit.toNat) :
    0 < runsOver limit total xs ↔ limit.toNat < total.toNat + exactSum xs := by
  induction xs generalizing total with
  | nil =>
    rw [runsOver, exactSum_nil]
    omega
  | cons x xs ih =>
    have hsum : (total + x).toNat = total.toNat + x.toNat := by
      rw [UInt64.toNat_add, Nat.mod_eq_of_lt (hfits.head htotal)]
    rw [runsOver, exactSum_cons, ← add_assoc, ← hsum]
    by_cases hover : limit < total + x
    · rw [if_pos hover]
      have := UInt64.lt_iff_toNat_lt.mp hover
      omega
    rw [if_neg hover, zero_add]
    refine ih ?_ ?_
    · rw [hsum]
      exact hfits.tail
    · exact Nat.not_lt.mp fun h => hover (UInt64.lt_iff_toNat_lt.mpr h)

end RunningTotal
