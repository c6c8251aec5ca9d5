import Mathlib

/-!
# Partition bands

A session has a band of consecutive partitions of the topics of sent and acknowledged orders.
The partition of an order is chosen within the band by a hash of the order id: by
`BandPartition` of `topics.go` and by `band_partition` of `lib.rs`.  The validator reads the
partitions of `bandPartitionSet`.

All three clamp the width of the band and take the partition modulo the number of partitions,
in 32 bits.  For a band that lies within the partitions nothing wraps around
(`placed_of_fits`): the band `b` of width `w` is the partitions from `b * w` up to
`(b + 1) * w`, whoever computes it.  So readers and writers agree, and two bands are apart
(`band_isolated`).
-/

namespace MatchBench.Schema

/-! ### The two producers -/

namespace Go

def fnv1a64 (s : List UInt8) : UInt64 :=
  s.foldl (fun hash b => (hash ^^^ b.toUInt64) * 0x100000001b3) 0xcbf29ce484222325

def bandPartition (band : UInt32) (orderID : List UInt8) (numPartitions bandWidth : Int32) : Int32 :=
  if numPartitions ≤ 1 then 0
  else
    let bandWidth := if bandWidth < 1 then 1 else bandWidth
    let bandWidth := if bandWidth > numPartitions then numPartitions else bandWidth
    let base := (Int64.ofNat band.toNat * bandWidth.toInt64).toInt32
    let within := Int32.ofNat (fnv1a64 orderID % UInt64.ofInt bandWidth.toInt).toNat
    (base + within) % numPartitions

end Go

namespace Rust

def fnv1a64 (bytes : List UInt8) : UInt64 :=
  bytes.foldl (fun hash byte => (hash ^^^ byte.toUInt64) * 0x100000001b3) 0xcbf29ce484222325

/-- `i32::clamp`. -/
def clamp (x min max : Int32) : Int32 := if x < min then min else if x > max then max else x

def bandPartition (band : UInt32) (orderID : List UInt8) (numPartitions bandWidth : Int32) : Int32 :=
  if numPartitions ≤ 1 then 0
  else
    let bandWidth := clamp bandWidth 1 numPartitions
    let base := (Int64.ofNat band.toNat * bandWidth.toInt64).toInt32
    let within := Int32.ofNat (fnv1a64 orderID % UInt64.ofInt bandWidth.toInt).toNat
    (base + within) % numPartitions

end Rust

/-! ### The validator -/

def bandPartitionSet (band : UInt32) (numPartitions bandWidth : Int32) : Finset Int :=
  if numPartitions ≤ 1 then {0}
  else
    let bandWidth := if bandWidth < 1 then 1 else bandWidth
    let bandWidth := if bandWidth > numPartitions then numPartitions else bandWidth
    let base := (Int64.ofNat band.toNat * bandWidth.toInt64).toInt32
    ((List.range bandWidth.toInt.toNat).map
      fun i => ((base + Int32.ofNat i) % numPartitions).toInt).toFinset

/-! ### Bands within the partitions -/

/-- The band lies within the partitions. -/
def Fits (n w : Int32) (band : UInt32) : Prop := ((band.toNat : Int) + 1) * w.toInt ≤ n.toInt
  deriving Decidable

section

variable {n w : Int32} {band : UInt32}

theorem width_pos (hw : 1 ≤ w) : 0 < w.toInt := by
  have h := Int32.le_iff_toInt_le.mp hw
  have h1 : (1 : Int32).toInt = 1 := rfl
  omega

theorem Fits.width_le (h : Fits n w band) (hw : 1 ≤ w) : w.toInt ≤ n.toInt := by
  have hpos := width_pos hw
  refine le_trans ?_ h
  have : 0 ≤ (band.toNat : Int) * w.toInt := by positivity
  rw [add_mul, one_mul]
  omega

theorem Fits.unclamped (h : Fits n w band) (hw : 1 ≤ w) :
    (if (if w < 1 then 1 else w) > n then n else (if w < 1 then 1 else w)) = w := by
  have hle := h.width_le hw
  have h0 := width_pos hw
  have h1 : (1 : Int32).toInt = 1 := rfl
  have hw1 : ¬ w < 1 := by
    rw [Int32.lt_iff_toInt_lt]
    omega
  have hn : ¬ w > n := by
    rw [gt_iff_lt, Int32.lt_iff_toInt_lt]
    omega
  rw [if_neg hw1, if_neg hn]

theorem bmod_of_lt {m : Nat} {x : Int} (h0 : 0 ≤ x) (h : 2 * x < m) : x.bmod m = x :=
  Int.bmod_eq_of_le (by omega) (by omega)

/-- **Nothing wraps around**: the partition at a place of the band is the one it looks like. -/
theorem placed_of_fits (h : Fits n w band) {i : Nat} (hi : (i : Int) < w.toInt) :
    (((Int64.ofNat band.toNat * w.toInt64).toInt32 + Int32.ofNat i) % n).toInt =
      band.toNat * w.toInt + i := by
  have hn := n.toInt_lt
  have hw := w.toInt_lt
  have hb : band.toNat < 2 ^ 32 := band.toNat_lt
  have hpos : 0 ≤ (band.toNat : Int) * w.toInt := mul_nonneg (by omega) (by omega)
  rw [Fits, add_mul, one_mul] at h
  have hband : (Int64.ofNat band.toNat).toInt = band.toNat :=
    Int64.toInt_ofNat'.trans (bmod_of_lt (by omega) (by rw [Int64.size]; omega))
  have hplace : (Int32.ofNat i).toInt = i :=
    Int32.toInt_ofNat'.trans (bmod_of_lt (by omega) (by rw [Int32.size]; omega))
  have hbase : (Int64.ofNat band.toNat * w.toInt64).toInt32.toInt = band.toNat * w.toInt := by
    rw [Int64.toInt_toInt32, Int64.toInt_mul, hband, Int32.toInt_toInt64,
      bmod_of_lt (m := 2 ^ 64) hpos (by omega), bmod_of_lt hpos (by omega)]
  rw [Int32.toInt_mod, Int32.toInt_add, hbase, hplace, bmod_of_lt (by omega) (by omega),
    Int.tmod_eq_of_lt (by omega) (by omega)]

theorem Fits.eq_zero (h : Fits n w band) (hw : 1 ≤ w) (hn : n ≤ 1) : band.toNat = 0 := by
  have h0 := width_pos hw
  have h1 : n.toInt ≤ 1 := Int32.le_iff_toInt_le.mp hn
  by_contra hne
  have hpos : (1 : Int) ≤ band.toNat := by omega
  have hmul : 1 * w.toInt ≤ band.toNat * w.toInt := by gcongr
  rw [Fits, add_mul] at h
  omega

theorem lt_of_mod {h : UInt64} (hw : 1 ≤ w) :
    ((h % UInt64.ofInt w.toInt).toNat : Int) < w.toInt := by
  have h0 := width_pos hw
  have hlt := w.toInt_lt
  have hnat : (UInt64.ofInt w.toInt).toNat = w.toInt.toNat := by
    rw [UInt64.ofInt, UInt64.toNat_ofNat', Nat.mod_eq_of_lt] <;> omega
  have hmod := Nat.mod_lt h.toNat (show 0 < w.toInt.toNat by omega)
  rw [UInt64.toNat_mod, hnat]
  omega

theorem toInt_bandPartition (h : Fits n w band) (hw : 1 ≤ w) (orderID : List UInt8) :
    (Go.bandPartition band orderID n w).toInt =
      band.toNat * w.toInt + (Go.fnv1a64 orderID % UInt64.ofInt w.toInt).toNat := by
  have hlt := lt_of_mod (h := Go.fnv1a64 orderID) hw
  rw [Go.bandPartition]
  split
  next hn =>
    have hb := h.eq_zero hw hn
    have hle := h.width_le hw
    have h1 : n.toInt ≤ 1 := Int32.le_iff_toInt_le.mp hn
    have h0 : (0 : Int32).toInt = 0 := rfl
    rw [hb, h0]
    omega
  · dsimp only
    rw [h.unclamped hw]
    exact placed_of_fits h hlt

theorem mem_bandPartitionSet (h : Fits n w band) (hw : 1 ≤ w) (p : Int) :
    p ∈ bandPartitionSet band n w ↔ band.toNat * w.toInt ≤ p ∧ p < (band.toNat + 1) * w.toInt := by
  have h0 := width_pos hw
  rw [bandPartitionSet, add_mul, one_mul]
  split
  next hn =>
    have hb := h.eq_zero hw hn
    have hle := h.width_le hw
    have h1 : n.toInt ≤ 1 := Int32.le_iff_toInt_le.mp hn
    rw [Finset.mem_singleton, hb]
    omega
  dsimp only
  rw [h.unclamped hw, List.mem_toFinset, List.mem_map]
  constructor
  · rintro ⟨i, hi, rfl⟩
    have hi := List.mem_range.mp hi
    rw [placed_of_fits h (by omega)]
    omega
  · rintro ⟨hle, hlt⟩
    refine ⟨(p - band.toNat * w.toInt).toNat, List.mem_range.mpr (by omega), ?_⟩
    rw [placed_of_fits h (by omega)]
    omega

theorem clamp_eq (x n : Int32) (hn : ¬ n ≤ 1) : Rust.clamp x 1 n =
    if (if x < 1 then 1 else x) > n then n else (if x < 1 then 1 else x) := by
  rw [Rust.clamp]
  by_cases hx : x < 1
  · have hlt : ¬ (1 : Int32) > n := fun hc => hn (Int32.le_of_lt hc)
    rw [if_pos hx, if_pos hx, if_neg hlt]
  · rw [if_neg hx, if_neg hx]

end

theorem bandPartition_eq (band : UInt32) (orderID : List UInt8) (n w : Int32) :
    Go.bandPartition band orderID n w = Rust.bandPartition band orderID n w := by
  rw [Go.bandPartition, Rust.bandPartition]
  split
  · rfl
  next hn =>
    rw [clamp_eq w n hn]
    rfl

/-- **Bands are isolated**: the producers put an order into the same partition, which exists and
is one that the validator reads for the band, and no other band has partitions of it. -/
theorem band_isolated (n w : Int32) (hw : 1 ≤ w) (b₁ b₂ : UInt32) (hne : b₁ ≠ b₂)
    (h₁ : Fits n w b₁) (h₂ : Fits n w b₂) (orderID : List UInt8) :
    Go.bandPartition b₁ orderID n w = Rust.bandPartition b₁ orderID n w ∧
      0 ≤ Go.bandPartition b₁ orderID n w ∧ Go.bandPartition b₁ orderID n w < n ∧
      (Go.bandPartition b₁ orderID n w).toInt ∈ bandPartitionSet b₁ n w ∧
      Disjoint (bandPartitionSet b₁ n w) (bandPartitionSet b₂ n w) := by
  have hpart := toInt_bandPartition h₁ hw orderID
  have hlt := lt_of_mod (h := Go.fnv1a64 orderID) hw
  have h0 := width_pos hw
  have hpos : 0 ≤ (b₁.toNat : Int) * w.toInt := mul_nonneg (by omega) (by omega)
  have hfits := h₁
  rw [Fits, add_mul, one_mul] at hfits
  have hzero : (0 : Int32).toInt = 0 := rfl
  refine ⟨bandPartition_eq b₁ orderID n w, ?_, ?_, ?_, ?_⟩
  · rw [Int32.le_iff_toInt_le, hpart]
    omega
  · rw [Int32.lt_iff_toInt_lt, hpart]
    omega
  · rw [mem_bandPartitionSet h₁ hw, hpart, add_mul, one_mul]
    omega
  refine Finset.disjoint_left.mpr fun p hp₁ hp₂ => ?_
  rw [mem_bandPartitionSet h₁ hw] at hp₁
  rw [mem_bandPartitionSet h₂ hw] at hp₂
  -- a partition has one quotient by the width
  have hq : ∀ {b : UInt32}, b.toNat * w.toInt ≤ p → p < (b.toNat + 1) * w.toInt →
      p / w.toInt = b.toNat := by
    intro b hle hlt
    refine Int.le_antisymm (Int.lt_add_one_iff.mp ?_) ?_
    · exact Int.ediv_lt_of_lt_mul h0 hlt
    · exact Int.le_ediv_of_mul_le h0 hle
  have heq := (hq hp₁.1 hp₁.2).symm.trans (hq hp₂.1 hp₂.2)
  exact hne (UInt32.toNat_inj.mp (by omega))

theorem band_isolated_fourBands :
    Fits 24 6 3 ∧ Go.bandPartition 3 "s_1_2_O".toUTF8.toList 24 6 < 24 ∧
      Disjoint (bandPartitionSet 3 24 6) (bandPartitionSet 0 24 6) :=
  have h := band_isolated 24 6 (by decide) 3 0 (by decide) (by decide) (by decide)
    "s_1_2_O".toUTF8.toList
  ⟨by decide, h.2.2.1, h.2.2.2.2⟩

end MatchBench.Schema
