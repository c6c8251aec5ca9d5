import MatchBench.Capture.FixStream

/-!
# The messages of a buffer

What the framing loop takes from bytes that have all arrived, with the places of the messages.
It is the loop of the reassembler without the times (`map_bytes_cutLoop`).  A message that is
framed whole comes out with its own length, whatever follows it, and the loop goes on behind it
(`framesFrom_append`).  A FIX message whose body is too long is skipped to its second field
(`frameFix_long`), so no message comes out at its place (`le_of_mem_framesFrom`).
-/

namespace MatchBench.Capture

open List

variable (mm : Finder UInt8) (transport : Transport) (direction : Direction)

/-- The messages of a buffer that starts at the offset `x`. -/
def framesFrom : Nat → Nat → List UInt8 → List (Nat × List UInt8)
  | 0, _, _ => []
  | fuel + 1, x, buf =>
      match frame mm transport direction buf with
      | .message n => (x, buf.take n) :: framesFrom fuel (x + n) (buf.drop n)
      | .incomplete => []
      | .resync skip => framesFrom fuel (x + max skip 1) (buf.drop (max skip 1))

/-- All messages of a buffer; a turn of the loop takes at least one byte. -/
def frames (buf : List UInt8) : List (Nat × List UInt8) :=
  framesFrom mm transport direction (buf.length + 1) 0 buf

variable {mm transport direction}

theorem framesFrom_nil (fuel x : Nat) : framesFrom mm transport direction fuel x [] = [] := by
  cases fuel with
  | zero => rfl
  | succ fuel => rw [framesFrom, frame_nil]

theorem framesFrom_append {m : List UInt8} (hm : Whole mm transport direction m) (fuel x : Nat)
    (rest : List UInt8) :
    framesFrom mm transport direction (fuel + 1) x (m ++ rest) =
      (x, m) :: framesFrom mm transport direction fuel (x + m.length) rest := by
  have hframe := hm.frame_eq (.inl (prefix_append m rest))
  rw [waitFor, if_neg (by rw [length_append]; omega)] at hframe
  rw [framesFrom, hframe]
  dsimp only
  rw [take_left, drop_left]

theorem le_of_mem_framesFrom {fuel x : Nat} {buf : List UInt8} {f : Nat × List UInt8}
    (h : f ∈ framesFrom mm transport direction fuel x buf) : x ≤ f.1 := by
  induction fuel generalizing x buf with
  | zero => cases h
  | succ fuel ih =>
    rw [framesFrom] at h
    cases hf : frame mm transport direction buf with
    | message n =>
      rw [hf] at h
      rcases mem_cons.mp h with rfl | h
      · exact Nat.le_refl x
      · exact le_trans (Nat.le_add_right x n) (ih h)
    | incomplete =>
      rw [hf] at h
      cases h
    | resync skip =>
      rw [hf] at h
      exact le_trans (Nat.le_add_right x _) (ih h)

/-- **A concatenation of whole messages** is taken apart where it was put together. -/
theorem framesFrom_flatten : ∀ {ms : List (List UInt8)}, (∀ m ∈ ms, Whole mm transport direction m) →
    ∀ {fuel : Nat}, ms.length ≤ fuel → ∀ x,
    framesFrom mm transport direction fuel x ms.flatten = placed x (ms.map (Parcel.mk [])) := by
  intro ms
  induction ms with
  | nil => exact fun _ fuel _ x => framesFrom_nil fuel x
  | cons m ms ih =>
    intro hw fuel hfuel x
    obtain ⟨fuel, rfl⟩ : ∃ k, fuel = k + 1 := ⟨fuel - 1, by simp at hfuel; omega⟩
    rw [flatten_cons, framesFrom_append (hw m (.head _)), map_cons, placed,
      ih (fun m' hm' => hw m' (.tail m hm')) (by simpa using hfuel)]
    rfl

theorem length_le_flatten {ms : List (List UInt8)} (h : ∀ m ∈ ms, 0 < m.length) :
    ms.length ≤ ms.flatten.length := by
  induction ms with
  | nil => exact Nat.le_refl 0
  | cons m ms ih =>
    have hpos := h m (.head _)
    have htail := ih fun x hx => h x (.tail m hx)
    rw [flatten_cons, length_append, length_cons]
    omega

theorem frames_flatten {ms : List (List UInt8)} (h : ∀ m ∈ ms, Whole mm transport direction m) :
    (frames mm transport direction ms.flatten).map Prod.snd = ms := by
  have hfuel := length_le_flatten fun m hm => (h m hm).length_pos
  rw [frames, framesFrom_flatten h (by omega), map_snd_placed, map_map]
  exact map_id ms

/-! ### A body that is too long -/

theorem frameFix_long (mm : Finder UInt8) {version digits : List UInt8} (hv : soh ∉ version)
    (hne : digits ≠ []) (hd : ∀ c ∈ digits, isAsciiDigit c = true)
    (hlong : maxFixMessage < decimal digits) (tail : List UInt8) :
    ∃ skip, frameFix mm (fixBegin ++ version ++ (soh :: (ascii "9=" ++ (digits ++ (soh :: tail))))) =
      .resync skip := by
  have hbegin : soh ∉ fixBegin ++ version := by
    rw [mem_append]
    exact fun h => h.elim (by decide) hv
  have hdigits : soh ∉ digits := fun h => absurd (hd soh h) (by decide)
  have hmax : maxFixMessage = 65536 := rfl
  have hpre : fixBegin <+: fixBegin ++ version := prefix_append _ _
  generalize fixBegin ++ version = p at hbegin hpre ⊢
  have hfirst : findByte (p ++ (soh :: (ascii "9=" ++ (digits ++ (soh :: tail))))) soh 0 =
      some p.length := by
    have h := findByte_append [] p (ascii "9=" ++ (digits ++ (soh :: tail))) hbegin
    rwa [nil_append, length_nil, zero_add] at h
  have hhead : p ++ (soh :: (ascii "9=" ++ (digits ++ (soh :: tail)))) =
      (p ++ (soh :: ascii "9=")) ++ (digits ++ (soh :: tail)) := by
    rw [append_assoc, cons_append]
  have hlen : (p ++ (soh :: ascii "9=")).length = p.length + 3 := by
    rw [length_append]
    rfl
  have hsecond : findByte (p ++ (soh :: (ascii "9=" ++ (digits ++ (soh :: tail))))) soh
      (p.length + 3) = some (p.length + 3 + digits.length) := by
    have h := findByte_append (p ++ (soh :: ascii "9=")) digits tail hdigits
    rwa [← hhead, hlen] at h
  have hroom : p.length + 3 ≤ (p ++ (soh :: (ascii "9=" ++ (digits ++ (soh :: tail))))).length := by
    rw [hhead, length_append, hlen]
    omega
  have htag : ((p ++ (soh :: (ascii "9=" ++ (digits ++ (soh :: tail))))).drop
      (p.length + 1)).take 2 = ascii "9=" := by
    rw [drop_append, drop_eq_nil_of_le (Nat.le_succ _), nil_append,
      show p.length + 1 - p.length = 1 by omega, drop_one, tail_cons]
    rfl
  have hdigs : ((p ++ (soh :: (ascii "9=" ++ (digits ++ (soh :: tail))))).take
      (p.length + 3 + digits.length)).drop (p.length + 3) = digits := by
    rw [hhead, ← append_assoc, ← hlen, ← length_append, take_left, drop_left]
  have hbegins : fixBegin.isPrefixOf (p ++ (soh :: (ascii "9=" ++ (digits ++ (soh :: tail))))) =
      true := List.isPrefixOf_iff_prefix.mpr (hpre.trans (prefix_append _ _))
  have h5 : fixBegin.length ≤ p.length := hpre.length_le
  refine ⟨p.length + 1, ?_⟩
  rw [frameFix, if_neg (by omega), hbegins, Bool.not_true, if_neg Bool.false_ne_true, hfirst]
  dsimp only
  rw [if_neg (by omega), if_neg (not_not.mpr htag), hsecond]
  dsimp only
  rw [hdigs, parseUint_min hne hd]
  dsimp only
  rw [if_pos (by omega)]

end MatchBench.Capture
