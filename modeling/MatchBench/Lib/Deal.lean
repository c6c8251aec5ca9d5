import Mathlib

/-!
# Dealing round the table

Dealing a list to `w` hands gives hand `k` the elements at the positions `k`, `k + w`,
`k + 2 * w` and so on (`everyNth`).  The hands together are the list
(`flatMap_everyNth_perm`), and their lengths differ by one at most: `length_everyNth` says
how long each of them is.
-/

open List

section

variable {α β : Type*}

/-- The elements at the positions that leave `k` when divided by `w`. -/
def everyNth (w k : Nat) (l : List α) : List α :=
  (l.zipIdx.filter (fun p => p.2 % w == k)).map Prod.fst

theorem everyNth_nil (w k : Nat) : everyNth w k ([] : List α) = [] := rfl

theorem everyNth_concat (w k : Nat) (l : List α) (x : α) :
    everyNth w k (l ++ [x]) = everyNth w k l ++ if l.length % w = k then [x] else [] := by
  unfold everyNth
  rw [zipIdx_append, filter_append, map_append, zero_add]
  by_cases h : l.length % w = k
  · simp [h]
  · simp [h]

theorem everyNth_map (f : α → β) (w k : Nat) (l : List α) :
    everyNth w k (l.map f) = (everyNth w k l).map f := by
  induction l using reverseRecOn with
  | nil => rfl
  | append_singleton l x ih =>
    rw [map_append, map_singleton, everyNth_concat, everyNth_concat, ih, length_map, map_append]
    split <;> rfl

theorem flatMap_range_ite {w i : Nat} (hi : i < w) (x : α) :
    (List.range w).flatMap (fun k => if i = k then [x] else []) = [x] := by
  induction w with
  | zero => cases hi
  | succ w ih =>
    rw [range_succ, flatMap_append, flatMap_singleton]
    by_cases h : i = w
    · have hnil : (List.range w).flatMap (fun k => if i = k then [x] else []) = [] := by
        refine flatMap_eq_nil_iff.mpr fun k hk => if_neg ?_
        exact h ▸ (mem_range.mp hk).ne'
      rw [hnil, if_pos h, nil_append]
    · rw [ih (by omega), if_neg h, append_nil]

theorem flatMap_everyNth_perm {w : Nat} (hw : 0 < w) (l : List α) :
    ((List.range w).flatMap (fun k => everyNth w k l)).Perm l := by
  induction l using reverseRecOn with
  | nil =>
    rw [flatMap_eq_nil_iff.mpr fun k _ => everyNth_nil w k]
  | append_singleton l x ih =>
    have hsplit := flatMap_append_perm (List.range w) (fun k => everyNth w k l)
      (fun k => if l.length % w = k then [x] else [])
    rw [flatMap_range_ite (Nat.mod_lt _ hw)] at hsplit
    simp only [everyNth_concat]
    exact hsplit.symm.trans (ih.append_right [x])

/-- The length of hand `k` is `(n - k) / w`, rounded up. -/
theorem length_everyNth {w k : Nat} (hk : k < w) (l : List α) :
    l.length ≤ (everyNth w k l).length * w + k ∧
      (everyNth w k l).length * w + k < l.length + w := by
  induction l using reverseRecOn with
  | nil => exact ⟨Nat.zero_le _, by rw [everyNth_nil, length_nil]; omega⟩
  | append_singleton l x ih =>
    rw [everyNth_concat, length_append, length_append, length_singleton]
    generalize (everyNth w k l).length = m at ih ⊢
    have hmod : (m * w + k) % w = k := by rw [Nat.mul_add_mod_self_right, Nat.mod_eq_of_lt hk]
    by_cases h : l.length % w = k
    · -- both `n` and `m * w + k` leave `k`, and they are less than `w` apart
      have heq : m * w + k = l.length := by
        have hdvd : w ∣ m * w + k - l.length :=
          (Nat.modEq_iff_dvd' ih.1).mp (h.trans hmod.symm)
        have hzero := Nat.eq_zero_of_dvd_of_lt hdvd (by omega)
        omega
      rw [if_pos h, length_singleton, Nat.add_mul, Nat.one_mul]
      omega
    · have hne : m * w + k ≠ l.length := fun heq => h (heq ▸ hmod)
      rw [if_neg h, length_nil, add_zero m]
      omega

theorem everyNth_eq_nil {w k : Nat} (hk : k < w) {l : List α} (h : l.length ≤ k) :
    everyNth w k l = [] := by
  have hlen := (length_everyNth hk l).2
  have hlt : (everyNth w k l).length * w < 1 * w := by omega
  exact length_eq_zero_iff.mp (Nat.lt_one_iff.mp (Nat.lt_of_mul_lt_mul_right hlt))

end
