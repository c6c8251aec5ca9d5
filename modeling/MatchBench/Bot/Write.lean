import MatchBench.Lib.Fields
import MatchBench.Bot.Template

/-!
# Writing in place

What the operations on the bytes of a template do to a form: writing a number gives the
form with the new digits and the sums of the old and the new field (`write_fill`), and
moving a right checksum by two sums gives the right checksum (`applyChecksumDelta_fill`).
The search for the text before a field ends there (`find_field`).
-/

namespace MatchBench.Bot

open List
open Capture (ascii soh)

/-! ### Numbers -/

theorem digitWidthLoop_le : ∀ (turns w : Nat) {v k : Nat}, v < 10 ^ k →
    digitWidthLoop turns w v ≤ w + k := by
  intro turns
  induction turns with
  | zero => exact fun w v k _ => Nat.le_add_right w k
  | succ turns ih =>
    intro w v k h
    rw [digitWidthLoop]
    split
    next hv =>
      cases k with
      | zero => omega
      | succ k =>
        have hdiv : v / 10 < 10 ^ k := by
          rw [Nat.div_lt_iff_lt_mul (by omega), ← pow_succ]
          exact h
        have := ih (w + 1) hdiv
        omega
    · exact Nat.le_add_right w k

variable {v k w i : Nat} {b x : UInt8} {pre post : List UInt8} {h g : List UInt8 × List UInt8}

theorem digitWidth_le (h : v < 10 ^ (k + 1)) : digitWidth v ≤ k + 1 := by
  have hdiv : v / 10 < 10 ^ k := by
    rw [Nat.div_lt_iff_lt_mul (by omega), ← pow_succ]
    exact h
  have := digitWidthLoop_le 20 1 hdiv
  rw [digitWidth]
  omega

theorem padU64_eq (h : v < 10 ^ (k + 1)) : padU64 v (k + 1) = padded (k + 1) v := by
  rw [padU64, Nat.max_eq_left (digitWidth_le h)]

theorem padU64_fixNum (v : UInt64) : padU64 v.toNat fixNumWidth = padded fixNumWidth v.toNat :=
  padU64_eq (lt_trans v.toNat_lt (by decide))

@[simp] theorem length_decimal (v : Nat) : (decimal v).length = digitWidth v := length_padded _ _

theorem not_mem_decimal (hb : b.toNat < 48 ∨ 57 < b.toNat) : b ∉ decimal v :=
  not_mem_padded hb

theorem not_mem_padU64 (hb : b.toNat < 48 ∨ 57 < b.toNat) : b ∉ padU64 v w :=
  not_mem_padded hb

/-! ### Writing a number -/

theorem getD_split : (pre ++ x :: post).getD pre.length 0 = x := by
  rw [getD_eq_getElem?_getD, getElem?_append_right le_rfl, Nat.sub_self]
  rfl

theorem set_split {x y : UInt8} : (pre ++ x :: post).set pre.length y = pre ++ y :: post := by
  rw [set_append_right _ _ le_rfl, Nat.sub_self]
  rfl

theorem write_split : ∀ {w : Nat} {f : List UInt8} (pre post : List UInt8) (v : Nat), f.length = w →
    writePaddedU64 w (pre ++ (f ++ post)) pre.length v =
      (pre ++ (padded w v ++ post), byteSum f, byteSum (padded w v)) := by
  intro w
  induction w with
  | zero =>
    intro f pre post v hf
    rw [length_eq_zero_iff.mp hf]
    rfl
  | succ w ih =>
    intro f pre post v hf
    obtain ⟨g, x, rfl⟩ : ∃ g x, f = g ++ [x] := by
      rcases eq_nil_or_concat f with hnil | ⟨g, x, hc⟩
      · rw [hnil] at hf
        exact absurd hf (by simp)
      · exact ⟨g, x, by rw [hc, concat_eq_append]⟩
    have hg : g.length = w := by simpa using hf
    have hbuf : pre ++ (g ++ [x] ++ post) = (pre ++ g) ++ x :: post := by simp
    have hlen : pre.length + w = (pre ++ g).length := by rw [length_append, hg]
    rw [writePaddedU64, hbuf, hlen, getD_split, set_split, append_assoc, ih pre _ (v / 10) hg]
    simp only [padded, byteSum_append, append_assoc, singleton_append]
    rfl

variable {hs gs : List (List UInt8 × List UInt8)} (last : List UInt8)

/-- **A number written over a field.** -/
theorem write_fill (v : Nat) (hi : hs[i]? = some h) (hl : h.2.length = w) :
    writePaddedU64 w (fill hs last) (fieldAt hs i) v =
      (fill (putField hs i (padded w v)) last, byteSum h.2, byteSum (padded w v)) := by
  obtain ⟨post, hfill, hput⟩ := fill_split last hi
  rw [hfill, hput, fieldAt, write_split _ _ v hl]

theorem write_samePlaces (h : SamePlaces hs gs) (v : Nat)
    (hi : gs[i]? = some g) (hl : g.2.length = w) :
    writePaddedU64 w (fill gs last) (fieldAt hs i) v =
        (fill (putField gs i (padded w v)) last, byteSum g.2, byteSum (padded w v)) ∧
      SamePlaces hs (putField gs i (padded w v)) :=
  ⟨h i ▸ write_fill last v hi hl, h.put hi (hl.trans (length_padded w v).symm)⟩

theorem set_fill (h : SamePlaces hs gs) (y : UInt8) (hi : gs[i]? = some g) (hx : g.2 = [x]) :
    (fill gs last).set (fieldAt hs i) y = fill (putField gs i [y]) last ∧
      (fill gs last).getD (fieldAt hs i) 0 = x := by
  obtain ⟨post, hfill, hput⟩ := fill_split last hi
  rw [← h i, hfill, hput, fieldAt, hx]
  exact ⟨set_split, getD_split⟩

/-! ### The checksum -/

theorem digit_toNat (h : k < 10) : (UInt8.ofNat (48 + k) - 48).toNat = k := by
  interval_cases k <;> rfl

theorem padded_three (n : Nat) : padded 3 n =
    [UInt8.ofNat (48 + n / 10 / 10 % 10), UInt8.ofNat (48 + n / 10 % 10),
      UInt8.ofNat (48 + n % 10)] := rfl

/-- **A checksum moved by two sums.** -/
theorem applyChecksumDelta_fill {i s s' o n : Nat} {c : List UInt8} (h : SamePlaces hs gs)
    (hi : gs[i]? = some (c, padded 3 (s % 256))) (hs' : s' + o = s + n) :
    applyChecksumDelta (fill gs last) (fieldAt hs i) o n =
      fill (putField gs i (padded 3 (s' % 256))) last := by
  obtain ⟨post, hfill, hput⟩ := fill_split last hi
  have hlt : s % 256 < 256 := Nat.mod_lt _ (by omega)
  have hd : ∀ j x, ((textBefore gs i ++ (padded 3 (s % 256) ++ post)).getD
      ((textBefore gs i).length + j) 0 = x) ↔
      (padded 3 (s % 256) ++ post).getD j 0 = x := by
    intro j x
    rw [getD_eq_getElem?_getD, getD_eq_getElem?_getD,
      getElem?_append_right (Nat.le_add_right _ _), Nat.add_sub_cancel_left]
  have hd0 := (hd 0 _).mpr rfl
  have hd1 := (hd 1 _).mpr rfl
  have hd2 := (hd 2 _).mpr rfl
  have hsum : (s % 256 / 10 / 10 % 10 * 100 + s % 256 / 10 % 10 * 10 + s % 256 % 10 + 256 + n % 256
      - o % 256) % 256 = s' % 256 := by
    have hdigits : s % 256 / 10 / 10 % 10 * 100 + s % 256 / 10 % 10 * 10 + s % 256 % 10 = s % 256 := by
      generalize s % 256 = c at hlt ⊢
      omega
    rw [hdigits]
    omega
  rw [← h i, hfill, hput, fieldAt, applyChecksumDelta]
  simp only [add_zero] at hd0
  rw [hd0, hd1, hd2]
  simp only [padded_three, cons_append, nil_append, getD_cons_zero,
    getD_cons_succ, digit_toNat (Nat.mod_lt _ (Nat.succ_pos 9)), hsum]
  have hlt' : s' % 256 < 256 := Nat.mod_lt _ (by omega)
  have h100 : s' % 256 / 10 / 10 % 10 = s' % 256 / 100 := by omega
  rw [h100, set_append_right _ _ le_rfl, set_append_right _ _ (Nat.le_add_right _ _),
    set_append_right _ _ (Nat.le_add_right _ _), Nat.sub_self, Nat.add_sub_cancel_left,
    Nat.add_sub_cancel_left]
  rfl

/-! ### Finding a field -/

theorem findSubslice_eq_find {haystack needle : List UInt8} (hne : needle ≠ []) :
    findSubslice haystack needle = Finder.naive.find haystack needle := by
  rw [findSubslice]
  split
  next h =>
    rcases h with h | h
    · exact absurd h hne
    · refine Eq.symm ((Finder.find_eq_none _ hne).mpr fun i hocc => ?_)
      have := hocc.le hne
      omega
  · rfl

theorem findSubslice_ne_none (a b : List UInt8) {needle : List UInt8} (hne : needle ≠ []) :
    ∃ i, findSubslice (a ++ (needle ++ b)) needle = some i := by
  rw [findSubslice_eq_find hne]
  cases h : Finder.naive.find (a ++ (needle ++ b)) needle with
  | some i => exact ⟨i, rfl⟩
  | none =>
    refine absurd ?_ ((Finder.find_eq_none _ hne).mp h a.length)
    rw [OccursAt, drop_left]
    exact prefix_append _ _

/-- The text is found, and ends there. -/
def EndsAt (buf text : List UInt8) (n : Nat) : Prop :=
  ∃ p, findSubslice buf text = some p ∧ p + text.length = n

/-- **What stands before a field is found there**, when it begins with the separator of
the fields before it and no field begins with the rest of it. -/
theorem find_field {c : UInt8}
    {last first pattern : List UInt8} {fs : List (List UInt8)} (hi : hs[i]? = some h)
    (htext : textBefore hs i = sealed c (first :: fs) ++ pattern) (hsep : ∀ g ∈ first :: fs, c ∉ g)
    (hblocks : ∀ g ∈ fs, Blocks c pattern g) :
    EndsAt (fill hs last) (c :: pattern) (fieldAt hs i) := by
  obtain ⟨post, hfill, _⟩ := fill_split last hi
  have hpos : 0 < (sealed c (first :: fs)).length := by
    rw [sealed, length_append, length_cons]
    omega
  refine ⟨(sealed c (first :: fs)).length - 1, ?_, ?_⟩
  · rw [findSubslice_eq_find (cons_ne_nil _ _), hfill, htext, append_assoc]
    exact find_seal _ hsep hblocks (prefix_append _ _)
  · rw [fieldAt, htext, length_append, length_cons]
    omega

end MatchBench.Bot
