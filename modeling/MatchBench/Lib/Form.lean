import Mathlib

/-!
# Forms

A form is fixed text with fields between it: a list of pairs, each the text before a
field and the field, and the text after the last (`fill`).  `fieldAt` is where a field
starts.

Writing over a field with bytes of the same number gives the form with the new field
(`overwrite_fill`).  `padded` writes a number with a given number of decimal digits.

A form whose fields have the lengths of those of another is a filling of it (`Fills`).  Its fields
stand at the same places, and it stays a filling when a field is put that fits (`Fills.put`).
-/

open List Option

/-- The bytes from `offset` on replaced by `new`. -/
def overwrite (buf : List UInt8) (offset : Nat) (new : List UInt8) : List UInt8 :=
  buf.take offset ++ (new ++ buf.drop (offset + new.length))

theorem overwrite_append {pre old post new : List UInt8} {offset : Nat} (h : pre.length = offset)
    (hl : old.length = new.length) :
    overwrite (pre ++ (old ++ post)) offset new = pre ++ (new ++ post) := by
  rw [overwrite, ← h, take_left, ← hl, ← drop_drop, drop_left, drop_left]

/-! ### Sums and digits -/

def byteSum (b : List UInt8) : Nat := (b.map UInt8.toNat).sum

@[simp] theorem byteSum_singleton (b : UInt8) : byteSum [b] = b.toNat := by
  simp [byteSum]

@[simp] theorem byteSum_append (a b : List UInt8) : byteSum (a ++ b) = byteSum a + byteSum b := by
  simp [byteSum]

/-- The last `w` decimal digits of `n`. -/
def padded : Nat → Nat → List UInt8
  | 0, _ => []
  | w + 1, n => padded w (n / 10) ++ [UInt8.ofNat (48 + n % 10)]

@[simp] theorem length_padded (w n : Nat) : (padded w n).length = w := by
  induction w generalizing n with
  | zero => rfl
  | succ w ih => simp [padded, ih]

variable {w n i : Nat} {b : UInt8} {hs : List (List UInt8 × List UInt8)} {new : List UInt8}

theorem digit_of_mem_padded (h : b ∈ padded w n) : 48 ≤ b.toNat ∧ b.toNat ≤ 57 := by
  induction w generalizing n with
  | zero => cases h
  | succ w ih =>
    rcases mem_append.mp h with h | h
    · exact ih h
    · rw [mem_singleton.mp h, UInt8.toNat_ofNat']
      omega

theorem not_mem_padded (hb : b.toNat < 48 ∨ 57 < b.toNat) : b ∉ padded w n := by
  intro h
  have := digit_of_mem_padded h
  omega

/-! ### Fields -/

/-- The text and the fields, and the text after the last. -/
def fill : List (List UInt8 × List UInt8) → List UInt8 → List UInt8
  | [], last => last
  | h :: hs, last => h.1 ++ (h.2 ++ fill hs last)

/-- What stands before a field. -/
def textBefore : List (List UInt8 × List UInt8) → Nat → List UInt8
  | [], _ => []
  | h :: _, 0 => h.1
  | h :: hs, i + 1 => h.1 ++ (h.2 ++ textBefore hs i)

/-- Where a field starts. -/
def fieldAt (hs : List (List UInt8 × List UInt8)) (i : Nat) : Nat := (textBefore hs i).length

/-- The form with another field. -/
def putField : List (List UInt8 × List UInt8) → Nat → List UInt8 → List (List UInt8 × List UInt8)
  | [], _, _ => []
  | h :: hs, 0, new => (h.1, new) :: hs
  | h :: hs, i + 1, new => h :: putField hs i new

theorem fill_split : ∀ {hs : List (List UInt8 × List UInt8)} {i : Nat} {h : List UInt8 × List UInt8}
    (last : List UInt8), hs[i]? = some h →
    ∃ post, fill hs last = textBefore hs i ++ (h.2 ++ post) ∧
      ∀ new, fill (putField hs i new) last = textBefore hs i ++ (new ++ post) := by
  intro hs
  induction hs with
  | nil => exact fun _ h => absurd h (by simp)
  | cons x hs ih =>
    intro i h last hi
    cases i with
    | zero =>
      rw [getElem?_cons_zero, some_inj] at hi
      subst hi
      exact ⟨fill hs last, rfl, fun _ => rfl⟩
    | succ i =>
      rw [getElem?_cons_succ] at hi
      obtain ⟨post, hfill, hput⟩ := ih last hi
      refine ⟨post, ?_, fun new => ?_⟩
      · simp [fill, textBefore, hfill, append_assoc]
      · simp [putField, fill, textBefore, hput, append_assoc]

theorem fieldAt_put : ∀ {i : Nat} {h : List UInt8 × List UInt8} {new : List UInt8}, hs[i]? = some h → h.2.length = new.length → ∀ j,
    fieldAt (putField hs i new) j = fieldAt hs j := by
  induction hs with
  | nil => exact fun h => absurd h (by simp)
  | cons x hs ih =>
    intro i h new hi hl j
    cases i with
    | zero =>
      rw [getElem?_cons_zero, some_inj] at hi
      subst hi
      cases j with
      | zero => rfl
      | succ j => simp [fieldAt, putField, textBefore, length_append, hl]
    | succ i =>
      rw [getElem?_cons_succ] at hi
      cases j with
      | zero => rfl
      | succ j =>
        have := ih hi hl j
        simp only [fieldAt, putField, textBefore, length_append] at this ⊢
        omega

theorem putField_self : ∀ {hs : List (List UInt8 × List UInt8)} {i : Nat}
    {h : List UInt8 × List UInt8}, hs[i]? = some h → putField hs i h.2 = hs
  | [], i, h, hi => by simp at hi
  | x :: hs, 0, h, hi => by
    rw [getElem?_cons_zero, some_inj] at hi
    rw [← hi]
    rfl
  | x :: hs, i + 1, h, hi => by
    rw [getElem?_cons_succ] at hi
    rw [putField, putField_self hi]

/-- **Writing over a field.** -/
theorem overwrite_fill {h : List UInt8 × List UInt8} (last : List UInt8) (hi : hs[i]? = some h) (hl : h.2.length = new.length) :
    overwrite (fill hs last) (fieldAt hs i) new = fill (putField hs i new) last := by
  obtain ⟨post, hfill, hput⟩ := fill_split last hi
  rw [hfill, hput, fieldAt, overwrite_append rfl hl]

/-- The fields stand at the same places. -/
def SamePlaces (hs gs : List (List UInt8 × List UInt8)) : Prop := ∀ j, fieldAt gs j = fieldAt hs j

theorem SamePlaces.put {hs gs : List (List UInt8 × List UInt8)}
    {g : List UInt8 × List UInt8} (h : SamePlaces hs gs) (hi : gs[i]? = some g)
    (hl : g.2.length = new.length) : SamePlaces hs (putField gs i new) :=
  fun j => (fieldAt_put hi hl j).trans (h j)

/-! ### Fillings -/

theorem getElem?_putField : ∀ {hs : List (List UInt8 × List UInt8)} {i j : Nat} {new : List UInt8},
    j ≠ i → (putField hs i new)[j]? = hs[j]?
  | [], _, _, _, _ => rfl
  | h :: hs, 0, 0, _, hne => absurd rfl hne
  | h :: hs, 0, j + 1, _, _ => rfl
  | h :: hs, i + 1, 0, _, _ => rfl
  | h :: hs, i + 1, j + 1, _, hne => by
    rw [putField, getElem?_cons_succ, getElem?_cons_succ]
    exact getElem?_putField fun he => hne (congrArg (· + 1) he)

theorem getElem?_putField_self : ∀ {hs : List (List UInt8 × List UInt8)} {i : Nat}
    {h : List UInt8 × List UInt8} (new : List UInt8), hs[i]? = some h →
    (putField hs i new)[i]? = some (h.1, new)
  | [], i, h, _, hi => by simp at hi
  | x :: hs, 0, h, new, hi => by
    rw [getElem?_cons_zero, some_inj] at hi
    rw [← hi]
    rfl
  | x :: hs, i + 1, h, new, hi => by
    rw [putField, getElem?_cons_succ]
    rw [getElem?_cons_succ] at hi
    exact getElem?_putField_self new hi

/-- The same text, and fields of the same lengths that are as `ok` says. -/
def Fills (ok : List UInt8 → Prop) (hs gs : List (List UInt8 × List UInt8)) : Prop :=
  Forall₂ (fun h g => g.1 = h.1 ∧ g.2.length = h.2.length ∧ ok g.2) hs gs

namespace Fills

variable {ok : List UInt8 → Prop} {hs gs : List (List UInt8 × List UInt8)}

theorem refl (h : ∀ f ∈ hs, ok f.2) : Fills ok hs hs := by
  induction hs with
  | nil => exact .nil
  | cons f hs ih =>
    exact .cons ⟨rfl, rfl, h f (.head _)⟩ (ih fun g hg => h g (.tail f hg))

theorem get (h : Fills ok hs gs) : ∀ {i : Nat} {f : List UInt8 × List UInt8}, hs[i]? = some f →
    ∃ g, gs[i]? = some (f.1, g) ∧ g.length = f.2.length ∧ ok g := by
  induction h with
  | nil => exact fun hi => absurd hi (by simp)
  | cons hfg _ ih =>
    intro i f hi
    cases i with
    | zero =>
      rw [getElem?_cons_zero, some_inj] at hi
      subst hi
      obtain ⟨htext, hlen, hok⟩ := hfg
      exact ⟨_, by rw [getElem?_cons_zero, ← htext], hlen, hok⟩
    | succ i =>
      rw [getElem?_cons_succ] at hi
      exact ih hi

theorem fieldAt_eq (h : Fills ok hs gs) : ∀ i, fieldAt gs i = fieldAt hs i := by
  induction h with
  | nil => exact fun i => rfl
  | cons hfg _ ih =>
    intro i
    obtain ⟨htext, hlen, _⟩ := hfg
    cases i with
    | zero => rw [fieldAt, fieldAt, textBefore, textBefore, htext]
    | succ i =>
      have htail := ih i
      simp only [fieldAt, textBefore, length_append, htext, hlen] at htail ⊢
      omega

/-- **A field is put that fits.** -/
theorem put (h : Fills ok hs gs) : ∀ {i : Nat} {f : List UInt8 × List UInt8} {new : List UInt8},
    hs[i]? = some f → new.length = f.2.length → ok new → Fills ok hs (putField gs i new) := by
  induction h with
  | nil => exact fun hi => absurd hi (by simp)
  | cons hfg hrest ih =>
    intro i f new hi hlen hok
    cases i with
    | zero =>
      rw [getElem?_cons_zero, some_inj] at hi
      subst hi
      exact .cons ⟨hfg.1, hlen, hok⟩ hrest
    | succ i =>
      rw [getElem?_cons_succ] at hi
      exact .cons hfg (ih hi hlen hok)

end Fills
