import MatchBench.Lib.Search

/-!
# Searching separated fields

Fields that do not have the separator in them, each followed by it (`sealed`).  A pattern
that begins with the separator stands only where a field begins, so the search for it
goes from field to field.  It passes every field that does not begin with the rest of
the pattern (`Blocks`) and stops at the first that does (`find_seal`).  Splitting at the
separator gives the fields back (`splitOnP_sealed`).

A pattern without the separator stands within one field, so the search passes every field
that does not have it (`find_lines`).
-/

open List

section

variable {α : Type} {c : α}

/-- Each field followed by the separator. -/
def sealed (c : α) : List (List α) → List α
  | [] => []
  | f :: fs => f ++ c :: sealed c fs

theorem sealed_append (fs gs : List (List α)) :
    sealed c (fs ++ gs) = sealed c fs ++ sealed c gs := by
  induction fs with
  | nil => rfl
  | cons f fs ih => rw [cons_append, sealed, sealed, ih, append_assoc, cons_append]

theorem exists_sealed_eq (f : List α) (fs : List (List α)) :
    ∃ init, sealed c (f :: fs) = init ++ [c] := by
  induction fs generalizing f with
  | nil => exact ⟨f, rfl⟩
  | cons g fs ih =>
    obtain ⟨init, hinit⟩ := ih g
    exact ⟨f ++ c :: init, by rw [sealed, hinit, append_assoc, cons_append]⟩

variable {fs : List (List α)} {pattern rest : List α}

theorem splitOnP_sealed [DecidableEq α] (h : ∀ f ∈ fs, c ∉ f) :
    (sealed c fs).splitOnP (· == c) = fs ++ [[]] := by
  induction fs with
  | nil => rfl
  | cons f fs ih =>
    have hf : ∀ x ∈ f, (x == c) = false := by
      intro x hx
      exact beq_eq_false_iff_ne.mpr fun hxc => h f (.head _) (hxc ▸ hx)
    rw [sealed, splitOnP_append_cons_of_forall_mem hf c (beq_self_eq_true c), ih, cons_append]
    exact fun g hg => h g (.tail f hg)

variable {field rest pattern f : List α} {k j : Nat}

theorem findIdx_separator [DecidableEq α] (h : c ∉ field) :
    (field ++ c :: rest).findIdx? (· == c) = some field.length := by
  rw [findIdx?_append, findIdx?_eq_none_iff.mpr, Option.none_or, findIdx?_cons,
    if_pos (beq_self_eq_true c), Option.map_some, zero_add]
  intro x hx
  exact beq_eq_false_iff_ne.mpr fun he => h (he ▸ hx)

/-- A field, followed by the separator, does not begin with the pattern. -/
def Blocks (c : α) (pattern field : List α) : Prop :=
  ∀ rest, ¬ pattern <+: field ++ c :: rest

theorem blocks_of_take {pattern name value : List α} (hp : k ≤ pattern.length)
    (hn : k ≤ name.length) (h : pattern.take k ≠ name.take k) : Blocks c pattern (name ++ value) := by
  rintro rest ⟨tail, ht⟩
  apply h
  have hk := congrArg (List.take k) ht
  rwa [take_append_of_le_length hp, append_assoc, take_append_of_le_length hn] at hk

theorem mem_names {names values : List (List α)} {g : List α}
    (hg : g ∈ zipWith (· ++ ·) names values) : ∃ n ∈ names, ∃ v ∈ values, n ++ v = g := by
  rw [← map_uncurry_zip_eq_zipWith] at hg
  obtain ⟨x, hx, rfl⟩ := mem_map.mp hg
  exact ⟨x.1, (of_mem_zip hx).1, x.2, (of_mem_zip hx).2, rfl⟩

theorem blocks_of_names (hp : k ≤ pattern.length) {names values : List (List α)}
    (h : ∀ n ∈ names, k ≤ n.length ∧ pattern.take k ≠ n.take k) :
    ∀ g ∈ zipWith (· ++ ·) names values, Blocks c pattern g := by
  intro g hg
  obtain ⟨n, hn, v, -, rfl⟩ := mem_names hg
  exact blocks_of_take hp (h n hn).1 (h n hn).2

theorem notMem_of_names {names values : List (List α)} (hn : ∀ n ∈ names, c ∉ n)
    (hv : ∀ v ∈ values, c ∉ v) : ∀ g ∈ zipWith (· ++ ·) names values, c ∉ g := by
  intro g hg
  obtain ⟨n, hmem, v, hmem', rfl⟩ := mem_names hg
  rw [mem_append, not_or]
  exact ⟨hn n hmem, hv v hmem'⟩

theorem blocks_of_not_prefix (hp : c ∉ pattern)
    (h : ¬ pattern <+: field) : Blocks c pattern field := by
  intro rest hpre
  rcases Nat.lt_or_ge field.length pattern.length with hlt | hle
  · obtain ⟨tail, ht⟩ := hpre
    have hat : (pattern ++ tail)[field.length]? = some c := by
      rw [ht, getElem?_append_right le_rfl, Nat.sub_self, getElem?_cons_zero]
    rw [getElem?_append_left hlt] at hat
    exact hp (mem_of_getElem? hat)
  · exact h (prefix_of_prefix_length_le hpre (prefix_append _ _) hle)

theorem blocks_of_ne {whole more field : List α} (hf : c ∉ field) (hw : c ∉ whole)
    (h : field ≠ whole) : Blocks c (whole ++ c :: more) field := by
  rintro rest ⟨tail, ht⟩
  apply h
  have heq : whole ++ c :: (more ++ tail) = field ++ c :: rest := by
    rw [← ht, append_assoc, cons_append]
  rcases append_eq_append_iff.mp heq with ⟨a, h₁, h₂⟩ | ⟨a, h₁, h₂⟩
  · cases a with
    | nil => rw [h₁, append_nil]
    | cons x a =>
      rw [cons_append, List.cons.injEq] at h₂
      exact absurd (by rw [h₁, h₂.1]; simp) hf
  · cases a with
    | nil => rw [h₁, append_nil]
    | cons x a =>
      rw [cons_append, List.cons.injEq] at h₂
      exact absurd (by rw [h₁, h₂.1]; simp) hw

theorem occursAt_field (hc : c ∉ field) (h : OccursAt (c :: pattern) (field ++ c :: rest) j) :
    (j = field.length ∧ pattern <+: rest) ∨
      ∃ i, j = field.length + 1 + i ∧ OccursAt (c :: pattern) rest i := by
  rcases Nat.lt_trichotomy j field.length with hj | hj | hj
  · exfalso
    obtain ⟨tail, ht⟩ := h
    rw [drop_append_of_le_length hj.le] at ht
    have hhead : (field.drop j).head? = some c := by
      have := congrArg List.head? ht
      rw [cons_append, head?_cons, head?_append_of_ne_nil _ (by simp; omega)] at this
      exact this.symm
    exact hc (mem_of_mem_drop (mem_of_mem_head? hhead))
  · left
    subst hj
    rw [OccursAt, drop_left, cons_prefix_cons] at h
    exact ⟨rfl, h.2⟩
  right
  obtain ⟨i, hi⟩ := Nat.exists_eq_add_of_lt hj
  refine ⟨i, by omega, ?_⟩
  have hdrop : (field ++ c :: rest).drop j = rest.drop i := by
    rw [hi, add_assoc, ← drop_drop, drop_left, add_comm i 1, ← drop_drop, drop_succ_cons, drop_zero]
  rw [OccursAt, hdrop] at h
  exact h

theorem occursAt_seal : ∀ {fs : List (List α)} {f : List α},
    (∀ g ∈ f :: fs, c ∉ g) → (∀ g ∈ fs, Blocks c pattern g) → ∀ {j : Nat},
    OccursAt (c :: pattern) (sealed c (f :: fs) ++ rest) j →
    (j = (sealed c (f :: fs)).length - 1 ∧ pattern <+: rest) ∨
      ∃ i, j = (sealed c (f :: fs)).length + i ∧ OccursAt (c :: pattern) rest i := by
  intro fs
  induction fs with
  | nil =>
    intro f hc _ j h
    rw [sealed, sealed, append_assoc, singleton_append] at h
    have hlen : (f ++ [c]).length = f.length + 1 := by simp
    rcases occursAt_field (hc f (.head _)) h with ⟨hj, hp⟩ | ⟨i, hj, hi⟩
    · exact .inl ⟨by rw [sealed, sealed, hlen]; omega, hp⟩
    · exact .inr ⟨i, by rw [sealed, sealed, hlen, hj], hi⟩
  | cons g fs ih =>
    intro f hc hb j h
    have hlen : (sealed c (f :: g :: fs)).length = f.length + 1 + (sealed c (g :: fs)).length := by
      rw [sealed, length_append, length_cons]
      omega
    have hpos : 0 < (sealed c (g :: fs)).length := by
      rw [sealed, length_append, length_cons]
      omega
    rw [sealed, append_assoc, cons_append] at h
    rcases occursAt_field (hc f (.head _)) h with ⟨_, hp⟩ | ⟨i, hj, hi⟩
    · rw [sealed, append_assoc, cons_append] at hp
      exact absurd hp (hb g (.head _) _)
    rcases ih (fun x hx => hc x (.tail f hx))
      (fun x hx => hb x (.tail g hx)) hi with ⟨hi', hp⟩ | ⟨k, hk, hocc⟩
    · exact .inl ⟨by omega, hp⟩
    · exact .inr ⟨k, by omega, hocc⟩

variable (finder : Finder α)

/-- **The search stops at the first field that begins with the pattern.** -/
theorem find_seal (hc : ∀ g ∈ f :: fs, c ∉ g) (hb : ∀ g ∈ fs, Blocks c pattern g)
    (hp : pattern <+: rest) :
    finder.find (sealed c (f :: fs) ++ rest) (c :: pattern) =
      some ((sealed c (f :: fs)).length - 1) := by
  have hpos : 0 < (sealed c (f :: fs)).length := by
    rw [sealed, length_append, length_cons]
    omega
  refine (finder.find_iff _ _ _ (cons_ne_nil c pattern)).mpr ⟨?_, fun j hj hocc => ?_⟩
  · obtain ⟨init, hinit⟩ := exists_sealed_eq (c := c) f fs
    rw [hinit, OccursAt, append_assoc, length_append, length_singleton,
      Nat.add_sub_cancel, drop_left, singleton_append, cons_prefix_cons]
    exact ⟨rfl, hp⟩
  · rcases occursAt_seal hc hb hocc with ⟨hj', _⟩ | ⟨i, hi, _⟩ <;> omega

theorem find_seal_none (hc : ∀ g ∈ f :: fs, c ∉ g) (hb : ∀ g ∈ fs, Blocks c pattern g)
    (hr : c ∉ rest) (hp : ¬ pattern <+: rest) :
    finder.find (sealed c (f :: fs) ++ rest) (c :: pattern) = none := by
  refine (finder.find_eq_none (cons_ne_nil c pattern)).mpr fun j hocc => ?_
  rcases occursAt_seal hc hb hocc with ⟨_, h⟩ | ⟨i, _, h⟩
  · exact hp h
  obtain ⟨tail, ht⟩ := h
  have hmem : c ∈ rest.drop i := by
    rw [← ht]
    exact .head _
  exact hr (mem_of_mem_drop hmem)

/-! ### A pattern within a field -/

theorem occursAt_line (hc : c ∉ pattern) (hne : pattern ≠ [])
    (h : OccursAt pattern (field ++ c :: rest) j) :
    pattern <:+: field ∨ ∃ i, j = field.length + 1 + i ∧ OccursAt pattern rest i := by
  have hpos := length_pos_iff.mpr hne
  rcases Nat.lt_or_ge field.length j with hlt | hge
  · obtain ⟨i, rfl⟩ := Nat.exists_eq_add_of_lt hlt
    refine .inr ⟨i, by omega, ?_⟩
    rw [OccursAt, add_assoc, ← drop_drop, drop_left, add_comm i 1,
      ← drop_drop, drop_succ_cons, drop_zero] at h
    exact h
  left
  obtain ⟨tail, ht⟩ := h
  rw [drop_append_of_le_length hge] at ht
  rcases Nat.lt_or_ge (field.drop j).length pattern.length with hlong | hshort
  · -- it would reach over the separator
    have hat : (pattern ++ tail)[(field.drop j).length]? = some c := by
      rw [ht, getElem?_append_right le_rfl, Nat.sub_self, getElem?_cons_zero]
    rw [getElem?_append_left hlong] at hat
    exact absurd (mem_of_getElem? hat) hc
  · have hpre : pattern <+: field.drop j :=
      prefix_of_prefix_length_le ⟨tail, ht⟩ (prefix_append _ _) hshort
    exact hpre.isInfix.trans (List.drop_suffix j field).isInfix

theorem find_lines (hc : c ∉ pattern) (hne : pattern ≠ [])
    (hf : ∀ f ∈ fs, ¬ pattern <:+: f) (h : finder.find rest pattern = some k) :
    finder.find (sealed c fs ++ rest) pattern = some ((sealed c fs).length + k) := by
  induction fs with
  | nil =>
    rw [sealed, nil_append, length_nil, zero_add]
    exact h
  | cons f fs ih =>
    have htail := ih fun g hg => hf g (.tail f hg)
    obtain ⟨hocc, hmin⟩ := (finder.find_iff _ _ _ hne).mp htail
    have hlen : (sealed c (f :: fs)).length = f.length + 1 + (sealed c fs).length := by
      rw [sealed, length_append, length_cons]
      omega
    rw [hlen, sealed, append_assoc, cons_append]
    refine (finder.find_iff _ _ _ hne).mpr ⟨?_, fun j hj hoccj => ?_⟩
    · rw [OccursAt, add_assoc, add_assoc, ← drop_drop, drop_left,
        ← drop_drop, drop_succ_cons, drop_zero]
      exact hocc
    · rcases occursAt_line hc hne hoccj with hin | ⟨i, rfl, hi⟩
      · exact hf f (.head _) hin
      · exact hmin i (by omega) hi

theorem find_lines_none (hc : c ∉ pattern) (hne : pattern ≠ []) (hf : ∀ f ∈ fs, ¬ pattern <:+: f) :
    finder.find (sealed c fs) pattern = none := by
  refine (finder.find_eq_none hne).mpr ?_
  induction fs with
  | nil =>
    intro j h
    rw [sealed, OccursAt, drop_nil, prefix_nil] at h
    exact hne h
  | cons f fs ih =>
    intro j h
    rw [sealed] at h
    rcases occursAt_line hc hne h with hin | ⟨i, _, hi⟩
    · exact hf f (.head _) hin
    · exact ih (fun g hg => hf g (.tail f hg)) i hi

end
