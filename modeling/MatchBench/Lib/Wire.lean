import Mathlib

/-!
# Byte layouts

Numbers in network byte order (`toBe`, `ofBe`) and windows of a byte string
(`window`).  Writing a number and reading it back gives it modulo the width
(`ofBe_toBe`); a piece of a concatenation is read back at the length of what stands
before it (`window_append`).

Intervals that cover a set of positions are together at least as long as the set
is large (`card_le_sum_of_covered`).
-/

open List

/-- The low `k` bytes of `n`, the most significant first. -/
def toBe : Nat → Nat → List UInt8
  | 0, _ => []
  | k + 1, n => UInt8.ofNat (n / 256 ^ k) :: toBe k n

def ofBe : List UInt8 → Nat
  | [] => 0
  | b :: bs => b.toNat * 256 ^ bs.length + ofBe bs

@[simp] theorem length_toBe (k n : Nat) : (toBe k n).length = k := by
  induction k with
  | zero => rfl
  | succ k ih => simp [toBe, ih]

theorem ofBe_toBe (k n : Nat) : ofBe (toBe k n) = n % 256 ^ k := by
  induction k with
  | zero => simp [toBe, ofBe, Nat.mod_one]
  | succ k ih =>
    have hsplit : n % 256 ^ (k + 1) = n % 256 ^ k + 256 ^ k * (n / 256 ^ k % 256) := by
      rw [pow_succ, Nat.mod_mul]
    rw [toBe, ofBe, length_toBe, ih, UInt8.toNat_ofNat', hsplit]
    ring

theorem ofBe_toBe_of_lt {k n : Nat} (h : n < 256 ^ k) : ofBe (toBe k n) = n := by
  rw [ofBe_toBe, Nat.mod_eq_of_lt h]

theorem foldl_be (bs : List UInt8) (v : Nat) :
    bs.foldl (fun v b => v * 256 + b.toNat) v = v * 256 ^ bs.length + ofBe bs := by
  induction bs generalizing v with
  | nil => simp [ofBe]
  | cons b bs ih =>
    rw [foldl_cons, ih, ofBe, length_cons, pow_succ]
    ring

/-- The `len` bytes at `offset`, when they are all there. -/
def window (bytes : List UInt8) (offset len : Nat) : Option (List UInt8) :=
  if bytes.length < offset + len then none else some ((bytes.drop offset).take len)

theorem window_append (before piece after : List UInt8) :
    window (before ++ (piece ++ after)) before.length piece.length = some piece := by
  rw [window, if_neg (by simp only [length_append]; omega), drop_left, take_left]

theorem window_of_eq {bytes before piece after : List UInt8} {offset len : Nat}
    (h : bytes = before ++ (piece ++ after)) (ho : before.length = offset)
    (hl : piece.length = len) : window bytes offset len = some piece := by
  rw [h, ← ho, ← hl, window_append]

/-- **Covering intervals are long enough.** -/
theorem card_le_sum_of_covered (l : List (Nat × Nat)) (s : Finset Nat)
    (h : ∀ i ∈ s, ∃ x ∈ l, x.1 ≤ i ∧ i < x.1 + x.2) : s.card ≤ (l.map Prod.snd).sum := by
  induction l generalizing s with
  | nil =>
    have hs : s = ∅ := Finset.eq_empty_of_forall_notMem (fun i hi => by simpa using h i hi)
    simp [hs]
  | cons x l ih =>
    have hrest := ih (s \ Finset.Ico x.1 (x.1 + x.2)) (by
      intro i hi
      rw [Finset.mem_sdiff, Finset.mem_Ico] at hi
      obtain ⟨y, hy, hyi⟩ := h i hi.1
      rcases mem_cons.mp hy with rfl | hy
      · exact absurd hyi hi.2
      · exact ⟨y, hy, hyi⟩)
    have hcut := Finset.card_le_card_sdiff_add_card (s := s) (t := Finset.Ico x.1 (x.1 + x.2))
    rw [Nat.card_Ico] at hcut
    simp only [map_cons, sum_cons]
    omega
