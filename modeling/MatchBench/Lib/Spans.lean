import Mathlib

/-!
# Pieces of a list

Of a list, the elements at some positions, each with its position (`kept`).  Pieces of the
list in order, with what they cover known, are together what is kept of it
(`flatMap_spans`).
-/

open List

section

variable {α : Type} {cover : Nat → Bool}

/-- The elements at covered positions, when the first is at position `x`. -/
def kept (cover : Nat → Bool) (x : Nat) (l : List α) : List (α × Nat) :=
  (l.zipIdx x).filter (fun y => cover y.2)

theorem kept_append (x : Nat) (a b : List α) :
    kept cover x (a ++ b) = kept cover x a ++ kept cover (x + a.length) b := by
  rw [kept, zipIdx_append, filter_append]
  rfl

variable {x : Nat} {l : List α}

theorem kept_eq_self (h : ∀ i < l.length, cover (x + i) = true) : kept cover x l = l.zipIdx x := by
  refine filter_eq_self.mpr fun y hy => ?_
  obtain ⟨hle, hlt, _⟩ := mem_zipIdx hy
  have := h (y.2 - x) (by omega)
  rwa [Nat.add_sub_of_le hle] at this

theorem kept_eq_nil (h : ∀ i < l.length, cover (x + i) = false) : kept cover x l = [] := by
  refine filter_eq_nil_iff.mpr fun y hy => ?_
  obtain ⟨hle, hlt, _⟩ := mem_zipIdx hy
  have := h (y.2 - x) (by omega)
  rw [Nat.add_sub_of_le hle] at this
  rw [this]
  exact Bool.false_ne_true

/-- **Pieces in order** are what is kept of the list. -/
theorem flatMap_spans {cs : List (Nat × List α)} : ∀ {a : Nat},
    cs.Pairwise (fun c d => c.1 + c.2.length ≤ d.1) →
    (∀ c ∈ cs, a ≤ c.1 ∧ c.2 ≠ [] ∧ c.2 <+: l.drop c.1) →
    (∀ p, a ≤ p → p < l.length → (cover p = true ↔ ∃ c ∈ cs, c.1 ≤ p ∧ p < c.1 + c.2.length)) →
    cs.flatMap (fun c => c.2.zipIdx c.1) = kept cover a (l.drop a) := by
  induction cs with
  | nil =>
    intro a _ _ hcover
    refine (kept_eq_nil fun i hi => ?_).symm
    rw [length_drop] at hi
    refine Bool.eq_false_iff.mpr fun hc => ?_
    obtain ⟨c, hc, _⟩ := (hcover (a + i) (by omega) (by omega)).mp hc
    cases hc
  | cons c cs ih =>
    intro a hpair hcs hcover
    obtain ⟨hle, hne, rest, hrest⟩ := hcs c (.head _)
    obtain ⟨hfirst, hpair⟩ := pairwise_cons.mp hpair
    have hpos := length_pos_iff.mpr hne
    have hlen : c.2.length + rest.length = l.length - c.1 := by
      rw [← length_append, hrest, length_drop]
    have hend : rest = l.drop (c.1 + c.2.length) := by
      rw [← drop_drop, ← hrest, drop_left]
    -- the list from `a` on is a gap, the piece, and what comes after it
    have hsplit : l.drop a = (l.drop a).take (c.1 - a) ++ (c.2 ++ l.drop (c.1 + c.2.length)) := by
      rw [← hend, hrest, ← Nat.add_sub_of_le hle, Nat.add_sub_cancel_left, ← drop_drop,
        take_append_drop]
    have hgap : ((l.drop a).take (c.1 - a)).length = c.1 - a := by
      rw [length_take, length_drop]
      omega
    rw [hsplit, kept_append, kept_append, hgap, Nat.add_sub_of_le hle, flatMap_cons,
      kept_eq_nil, nil_append, kept_eq_self,
      ih hpair (fun d hd => ⟨hfirst d hd, (hcs d (.tail c hd)).2⟩)]
    · intro p hp hlt
      rw [hcover p (by omega) hlt]
      refine ⟨fun ⟨d, hd, hdp⟩ => ?_, fun ⟨d, hd, hdp⟩ => ⟨d, mem_cons_of_mem c hd, hdp⟩⟩
      rcases mem_cons.mp hd with rfl | hd
      · omega
      · exact ⟨d, hd, hdp⟩
    · intro i hi
      exact (hcover (c.1 + i) (by omega) (by omega)).mpr ⟨c, .head _, by omega, by omega⟩
    intro i hi
    rw [hgap] at hi
    refine Bool.eq_false_iff.mpr fun hc => ?_
    obtain ⟨d, hd, hdp⟩ := (hcover (a + i) (by omega) (by omega)).mp hc
    rcases mem_cons.mp hd with rfl | hd
    · omega
    · have := hfirst d hd
      omega

theorem forall₂_comp {β γ : Type} {R : α → β → Prop} {S : β → γ → Prop} {T : α → γ → Prop} :
    ∀ {xs : List α} {ys : List β} {zs : List γ}, Forall₂ R xs ys → Forall₂ S ys zs →
    (∀ x y z, R x y → S y z → T x z) → Forall₂ T xs zs
  | _, _, _, .nil, .nil, _ => .nil
  | _, _, _, .cons hxy hrest, .cons hyz hrest', h =>
    .cons (h _ _ _ hxy hyz) (forall₂_comp hrest hrest' h)

end
