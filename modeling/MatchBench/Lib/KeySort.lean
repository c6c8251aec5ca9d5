import MatchBench.Lib.Sort

/-!
# Stable sorting by a key

`sortBy key` sorts by a key and keeps the order of elements with the same key, which need not be
equal.  Two facts determine it: the result is sorted (`pairwise_sortBy`), and the elements with a
given key are those of the list, in their order (`filter_sortBy`).  A sorted list with the same
elements at each key is the same list (`eq_of_filter_eq`), so a list is recognised as the result by
these facts (`sortBy_eq`).

`places` is the sorted list with the index that each element had.  When no element stands more than
`w` places before its sorted place, the elements that sort among the first `n` are among the first
`n + w` of the list, and no later one sorts before them (`key_le_of_places`).
-/

open List

section

variable {α β κ : Type} [LinearOrder κ] (key : α → κ)

def sortBy (l : List α) : List α := stableSort (fun a b => key a < key b) l

theorem perm_sortBy (l : List α) : (sortBy key l).Perm l := perm_stableSort _ l

theorem sortBy_cons (a : α) (l : List α) :
    sortBy key (a :: l) =
      (sortBy key l).orderedInsert (fun a b => decide (key b < key a) = false) a :=
  insertionSort_cons _ a l

theorem pairwise_sortBy (l : List α) : (sortBy key l).Pairwise (fun a b => key a ≤ key b) := by
  have htotal : Std.Total (fun a b : α => decide (key b < key a) = false) :=
    ⟨fun a b => by simpa using le_total (key a) (key b)⟩
  have htrans : IsTrans α (fun a b : α => decide (key b < key a) = false) :=
    ⟨fun a b c hab hbc => by
      simp only [decide_eq_false_iff_not, not_lt] at hab hbc ⊢
      exact hab.trans hbc⟩
  refine (pairwise_insertionSort (fun a b : α => decide (key b < key a) = false) l).imp ?_
  intro a b h
  simpa using h

variable {l s out rest : List α} {a : α}

theorem sortBy_of_pairwise (h : l.Pairwise (fun a b => key a ≤ key b)) : sortBy key l = l := by
  refine List.Pairwise.insertionSort_eq (h.imp fun {a b} hab => ?_)
  simpa using hab

theorem filter_orderedInsert (a : α) (k : κ) :
    (s.orderedInsert (fun a b => decide (key b < key a) = false) a).filter (fun x => key x = k) =
      (if key a = k then [a] else []) ++ s.filter (fun x => key x = k) := by
  induction s with
  | nil =>
    rw [orderedInsert_nil, filter_cons]
    simp
  | cons b s ih =>
    rw [orderedInsert_cons]
    split_ifs with hle hk hk
    · rw [filter_cons_of_pos (by simpa using hk)]
      rfl
    · rw [filter_cons_of_neg (by simpa using hk)]
      rfl
    · have hb : ¬ key b = k := by
        intro hb
        simp only [decide_eq_false_iff_not, not_not] at hle
        exact hle.ne (hb.trans hk.symm)
      rw [filter_cons_of_neg (by simpa using hb), ih, if_pos hk,
        filter_cons_of_neg (by simpa using hb)]
    · rw [filter_cons, ih, if_neg hk, nil_append, nil_append, filter_cons]

/-- **Stability**: the elements of a key keep their order. -/
theorem filter_sortBy (k : κ) (l : List α) :
    (sortBy key l).filter (fun x => key x = k) = l.filter (fun x => key x = k) := by
  induction l with
  | nil => rfl
  | cons a l ih =>
    rw [sortBy_cons, filter_orderedInsert, ih]
    by_cases h : key a = k
    · rw [if_pos h, filter_cons_of_pos (by simpa using h), singleton_append]
    · rw [if_neg h, filter_cons_of_neg (by simpa using h), nil_append]

theorem eq_of_filter_eq {s t : List α} (hs : s.Pairwise (fun a b => key a ≤ key b))
    (ht : t.Pairwise (fun a b => key a ≤ key b))
    (h : ∀ k, s.filter (fun x => key x = k) = t.filter (fun x => key x = k)) : s = t := by
  have hmem : ∀ x, x ∈ s ↔ x ∈ t := by
    intro x
    have hx := congrArg (x ∈ ·) (h (key x))
    simpa using hx
  induction s generalizing t with
  | nil =>
    cases t with
    | nil => rfl
    | cons b t => exact absurd ((hmem b).mpr (.head _)) not_mem_nil
  | cons a s ih =>
    cases t with
    | nil => exact absurd ((hmem a).mp (.head _)) not_mem_nil
    | cons b t =>
      obtain ⟨has, hs'⟩ := pairwise_cons.mp hs
      obtain ⟨hbt, ht'⟩ := pairwise_cons.mp ht
      -- both heads have the least key
      have hab : key a = key b := by
        refine le_antisymm ?_ ?_
        · rcases mem_cons.mp ((hmem b).mpr (.head _)) with rfl | hb
          · exact le_rfl
          · exact has b hb
        · rcases mem_cons.mp ((hmem a).mp (.head _)) with rfl | ha
          · exact le_rfl
          · exact hbt a ha
      have hhead := h (key a)
      rw [filter_cons_of_pos (by simp), filter_cons_of_pos (by simp [hab])] at hhead
      obtain rfl : a = b := (List.cons.inj hhead).1
      have htail : ∀ k, s.filter (fun x => key x = k) = t.filter (fun x => key x = k) := by
        intro k
        have hk := h k
        rw [filter_cons, filter_cons] at hk
        split_ifs at hk
        · exact (List.cons.inj hk).2
        · exact hk
      refine congrArg (a :: ·) (ih hs' ht' htail fun x => ?_)
      have hx := congrArg (x ∈ ·) (htail (key x))
      simpa using hx

/-- **A list is the sorted one** when it is sorted and keeps the order at each key. -/
theorem sortBy_eq (hs : s.Pairwise (fun a b => key a ≤ key b))
    (h : ∀ k, s.filter (fun x => key x = k) = l.filter (fun x => key x = k)) : sortBy key l = s :=
  eq_of_filter_eq key (pairwise_sortBy key l) hs fun k => (filter_sortBy key k l).trans (h k).symm

/-- **One more element**, after the sorted ones that are already out of the way. -/
theorem sortBy_concat (h : sortBy key l = out ++ sortBy key rest) (ha : ∀ x ∈ out, key x ≤ key a) :
    sortBy key (l ++ [a]) = out ++ sortBy key (rest ++ [a]) := by
  have hsorted := pairwise_sortBy key l
  rw [h, pairwise_append] at hsorted
  refine sortBy_eq key ?_ fun k => ?_
  · refine pairwise_append.mpr ⟨hsorted.1, pairwise_sortBy key _, fun x hx y hy => ?_⟩
    rcases mem_append.mp ((perm_sortBy key _).mem_iff.mp hy) with hy | hy
    · exact hsorted.2.2 x hx y ((perm_sortBy key _).mem_iff.mpr hy)
    · rw [mem_singleton.mp hy]
      exact ha x hx
  · have hk := filter_sortBy key k l
    rw [h, filter_append, filter_sortBy] at hk
    rw [filter_append, filter_sortBy, filter_append, ← append_assoc, hk, filter_append]

theorem sortBy_release (h : sortBy key l = out ++ sortBy key rest) (n : Nat) :
    sortBy key l = (out ++ (sortBy key rest).take n) ++ sortBy key ((sortBy key rest).drop n) := by
  have hdrop : sortBy key ((sortBy key rest).drop n) = (sortBy key rest).drop n :=
    sortBy_of_pairwise key ((pairwise_sortBy key rest).sublist (drop_sublist n _))
  rw [hdrop, append_assoc, take_append_drop, h]

/-- When enough elements are at most `k`, the first ones are. -/
theorem key_le_of_countP (hs : s.Pairwise (fun a b => key a ≤ key b)) {n : Nat} {k : κ}
    (hn : n ≤ s.countP (fun x => key x ≤ k)) : ∀ x ∈ s.take n, key x ≤ k := by
  induction s generalizing n with
  | nil =>
    intro x hx
    rw [take_nil] at hx
    cases hx
  | cons a s ih =>
    obtain ⟨has, hs⟩ := pairwise_cons.mp hs
    cases n with
    | zero =>
      intro x hx
      cases hx
    | succ n =>
      by_cases ha : key a ≤ k
      · rw [countP_cons_of_pos (by simpa using ha)] at hn
        intro x hx
        rcases mem_cons.mp hx with rfl | hx
        · exact ha
        · exact ih hs (Nat.le_of_succ_le_succ hn) x hx
      · -- then no element is
        have hnone : s.countP (fun x => key x ≤ k) = 0 :=
          countP_eq_zero.mpr fun x hx hle => ha ((has x hx).trans (by simpa using hle))
        rw [countP_cons_of_neg (by simpa using ha), hnone] at hn
        exact absurd hn (Nat.not_succ_le_zero n)

/-! ### Places -/

/-- The sorted list, with the index of each element before. -/
def places (l : List α) : List (α × Nat) := sortBy (fun x => key x.1) l.zipIdx

theorem countP_zipIdx_take (p : α → Bool) (l : List α) (m : Nat) :
    l.zipIdx.countP (fun x => decide (x.2 < m) && p x.1) = (l.take m).countP p := by
  have hsplit : l.zipIdx = (l.take m).zipIdx ++ (l.drop m).zipIdx (0 + (l.take m).length) := by
    rw [← zipIdx_append, take_append_drop]
  have hfront : (l.take m).zipIdx.countP (fun x => decide (x.2 < m) && p x.1) =
      (l.take m).countP p := by
    have hmap : (l.take m).countP p = ((l.take m).zipIdx.map Prod.fst).countP p := by
      rw [zipIdx_map_fst]
    rw [hmap, countP_map]
    refine countP_congr fun x hx => ?_
    have hlt := snd_lt_of_mem_zipIdx hx
    rw [length_take] at hlt
    simp [show x.2 < m by omega]
  have hback : ((l.drop m).zipIdx (0 + (l.take m).length)).countP
      (fun x => decide (x.2 < m) && p x.1) = 0 := by
    refine countP_eq_zero.mpr fun x hx => ?_
    have hle := le_snd_of_mem_zipIdx hx
    have hlen := length_pos_of_mem hx
    rw [length_zipIdx, length_drop] at hlen
    rw [length_take] at hle
    simp [show ¬ x.2 < m by omega]
  rw [hsplit, countP_append, hfront, hback, add_zero]

/-- **A later element does not sort before the first ones**, when no element stands more than `w`
places behind its sorted place. -/
theorem key_le_of_places {w n m : Nat}
    (hnear : ∀ p x, (places key l)[p]? = some x → x.2 ≤ p + w) (ha : l[m]? = some a)
    (hm : n + w ≤ m) : ∀ x ∈ (sortBy key (l.take m)).take n, key x ≤ key a := by
  cases n with
  | zero =>
    intro x hx
    cases hx
  | succ n =>
    have hperm : (places key l).Perm l.zipIdx := perm_sortBy _ _
    have hsorted : (places key l).Pairwise (fun a b => key a.1 ≤ key b.1) := pairwise_sortBy _ _
    have hmono : ∀ {i j : Nat} {x y : α × Nat}, (places key l)[i]? = some x →
        (places key l)[j]? = some y → i ≤ j → key x.1 ≤ key y.1 := by
      intro i j x y hx hy hij
      obtain ⟨hi, rfl⟩ := List.getElem?_eq_some_iff.mp hx
      obtain ⟨hj, rfl⟩ := List.getElem?_eq_some_iff.mp hy
      rcases hij.eq_or_lt with rfl | hlt
      · exact le_rfl
      · exact pairwise_iff_getElem.mp hsorted i j hi hj hlt
    -- where the later element is sorted to
    obtain ⟨p, hp⟩ : ∃ p, (places key l)[p]? = some (a, m) := by
      refine mem_iff_getElem?.mp (hperm.mem_iff.mpr ?_)
      exact mem_iff_getElem?.mpr ⟨m, by rw [getElem?_zipIdx, ha]; simp⟩
    have hpm := hnear p _ hp
    dsimp only at hpm
    have hplt : p < (places key l).length := (List.getElem?_eq_some_iff.mp hp).1
    have hnlt : n < (places key l).length := by omega
    have hlast : (places key l)[n]? = some (places key l)[n] := getElem?_eq_getElem hnlt
    have hle : key ((places key l)[n]).1 ≤ key a := hmono hlast hp (by omega)
    have hcount : n + 1 ≤ (l.take m).countP (fun x => decide (key x ≤ key ((places key l)[n]).1)) := by
      rw [← countP_zipIdx_take, ← hperm.countP_eq]
      calc n + 1 = ((places key l).take (n + 1)).countP (fun x => decide (x.2 < m) &&
            decide (key x.1 ≤ key ((places key l)[n]).1)) := by
            symm
            rw [countP_eq_length.mpr, length_take]
            · omega
            intro x hx
            obtain ⟨q, hq⟩ := mem_iff_getElem?.mp hx
            have hqn : q < n + 1 := by
              have := (List.getElem?_eq_some_iff.mp hq).1
              rw [length_take] at this
              omega
            rw [getElem?_take_of_lt hqn] at hq
            have hidx := hnear q x hq
            have hkey := hmono hq hlast (by omega)
            simp only [Bool.and_eq_true, decide_eq_true_eq]
            exact ⟨by omega, hkey⟩
        _ ≤ _ := (take_sublist _ _).countP_le
    intro x hx
    refine le_trans ?_ hle
    rw [← (perm_sortBy key (l.take m)).countP_eq] at hcount
    exact key_le_of_countP key (pairwise_sortBy key _) hcount x hx

end
