import Mathlib

/-!
# Serial numbers

A 32-bit serial number wraps around, and two of them are compared by the sign of
their difference (`serialLess`).  On the whole circle this is no order.  Among
numbers that lie less than half the circle after a common base it is one:
`serialLess_iff` reads it as the order of the distances from the base, and the
laws of a strict order follow.
-/

/-- `a` comes before `b`: the sign of the 32-bit difference. -/
def serialLess (a b : UInt32) : Bool := (a - b).toInt32 < 0

/-- The distance from `base`, going up. -/
def serialDist (base a : UInt32) : Nat := (a - base).toNat

theorem serialDist_lt (base a : UInt32) : serialDist base a < 2 ^ 32 := UInt32.toNat_lt _

variable {base a b : UInt32}

theorem serialDist_inj (h : serialDist base a = serialDist base b) : a = b := by
  have h' : a - base = b - base := UInt32.toNat_inj.mp h
  have hb : ∀ x : UInt32, x - base + base = x := fun x => by simp
  rw [← hb a, h', hb b]

theorem toInt_toInt32 (a : UInt32) : a.toInt32.toInt = (a.toNat : Int).bmod (2 ^ 32) := by
  rw [← Int32.toInt_toBitVec, UInt32.toBitVec_toInt32, BitVec.toInt_eq_toNat_bmod,
    UInt32.toNat_toBitVec]

theorem serialLess_eq (a b : UInt32) : serialLess a b = decide (2 ^ 31 ≤ (a - b).toNat) := by
  have hlt := (a - b).toNat_lt
  rw [serialLess]
  congr 1
  rw [Int32.lt_iff_toInt_lt, toInt_toInt32, Int.bmod_def]
  refine propext ⟨fun h => ?_, fun h => ?_⟩
  · split at h <;> simp only [Int32.toInt_zero] at h <;> omega
  · split <;> simp only [Int32.toInt_zero] <;> omega

theorem toNat_sub_serialDist (base a b : UInt32) :
    (a - b).toNat = (2 ^ 32 - serialDist base b + serialDist base a) % 2 ^ 32 := by
  have he : a - b = (a - base) - (b - base) := by
    rw [← UInt32.toBitVec_inj]
    simp only [UInt32.toBitVec_sub]
    grind
  rw [he, UInt32.toNat_sub]
  rfl

/-- **Serial order is the order of the distances from a base** less than half the
circle behind. -/
theorem serialLess_iff (ha : serialDist base a < 2 ^ 31) (hb : serialDist base b < 2 ^ 31) :
    serialLess a b = true ↔ serialDist base a < serialDist base b := by
  rw [serialLess_eq, decide_eq_true_eq, toNat_sub_serialDist base]
  omega

theorem toInt_sub_serialDist (ha : serialDist base a < 2 ^ 31) (hb : serialDist base b < 2 ^ 31) :
    (a - b).toInt32.toInt = (serialDist base a : Int) - serialDist base b := by
  rw [toInt_toInt32, toNat_sub_serialDist base, Int.bmod_def]
  split <;> omega

theorem toNat_sub_of_le (h : serialDist base b ≤ serialDist base a) :
    (a - b).toNat = serialDist base a - serialDist base b := by
  have ha := serialDist_lt base a
  rw [toNat_sub_serialDist base]
  omega

theorem serialDist_add {base a : UInt32} {n : Nat} (h : serialDist base a + n < 2 ^ 32) :
    serialDist base (a + UInt32.ofNat n) = serialDist base a + n := by
  have he : a + UInt32.ofNat n - base = (a - base) + UInt32.ofNat n := by
    rw [← UInt32.toBitVec_inj]
    simp only [UInt32.toBitVec_sub, UInt32.toBitVec_add]
    grind
  have hn : (UInt32.ofNat n).toNat = n := UInt32.toNat_ofNat_of_lt (by simp [UInt32.size]; omega)
  rw [serialDist, he, UInt32.toNat_add, hn]
  exact Nat.mod_eq_of_lt h
