import MatchBench.Lib.KeySort
import MatchBench.Validate.Invariants

/-!
# The window over response times

The window of the book-free validator buffers records, and when it holds twice its size it sorts
them by the time of the first response and emits the first half.  A record that comes after a later
one was emitted is late and only counted.

What is emitted is a function of the records alone, whatever the callbacks do (`push_eq`).  The
emitted records followed by the sorted buffer are the stable sort of the accepted ones (`Feeds`), so
they are always sorted, and nothing is lost.  When every record arrives within the window of its
sorted place none is late, and the output is the stable sort of all.

This needs twice the window to be a machine integer.  From `2 ^ 62` on it is negative, every push
releases the whole buffer, and a record is late as soon as it comes after a later one
(`t7Window_sorts_iff`).
-/

namespace MatchBench.Validate

open List

/-! ### Release and push -/

def InvRec.t7 (rec : InvRec) : Nat := rec.minT7Ns.toNat

def sortInvRecs (buf : List InvRec) : List InvRec :=
  stableSort (fun a b => a.minT7Ns < b.minT7Ns) buf

theorem sortInvRecs_eq (buf : List InvRec) : sortInvRecs buf = sortBy InvRec.t7 buf := by
  have hless : (fun a b : InvRec => decide (a.minT7Ns < b.minT7Ns)) =
      fun a b => decide (a.t7 < b.t7) := by
    funext a b
    exact decide_eq_decide.mpr UInt64.lt_iff_toNat_lt
  rw [sortInvRecs, hless]
  rfl

namespace T7Reorderer

/-- The number of records that a release of `n` emits. -/
def amount (r : T7Reorderer) (n : Int) : Nat := min n.toNat r.buf.length

/-- The records that a release of `n` emits. -/
def released (r : T7Reorderer) (n : Int) : List InvRec := (sortInvRecs r.buf).take (r.amount n)

def afterRelease (r : T7Reorderer) (n : Int) : T7Reorderer :=
  { (r.released n).foldl advance r with
    buf := if r.amount n = 0 then r.buf else (sortInvRecs r.buf).drop (r.amount n) }

def isLate (r : T7Reorderer) (rec : InvRec) : Prop := r.started = true ∧ rec.minT7Ns < r.watermark
  deriving Decidable

def buffer (r : T7Reorderer) (rec : InvRec) : T7Reorderer := { r with buf := r.buf ++ [rec] }

section

variable {σ : Type} (emit : σ → InvRec → σ) (late : σ → σ) (r : T7Reorderer)

theorem release_eq (s : σ) (n : Int) :
    release emit (r, s) n = (r.afterRelease n, (r.released n).foldl emit s) := by
  rw [release, afterRelease, released, amount]
  rcases min_toNat_cases n r.buf with ⟨h, h0⟩ | ⟨h, h0, hamount⟩
  · rw [if_pos h, h0, take_zero, if_pos rfl]
    rfl
  · rw [if_neg h, hamount, if_neg h0]
    rfl

/-- **One push**: the record is late, or it is buffered and the buffer may be released. -/
theorem push_eq (s : σ) (rec : InvRec) :
    push emit late (r, s) rec =
      if r.isLate rec then (r, late s)
      else if (2 * r.window).toInt ≤ (r.buf.length + 1 : Nat) then
        ((r.buffer rec).afterRelease r.window.toInt,
          ((r.buffer rec).released r.window.toInt).foldl emit s)
      else (r.buffer rec, s) := by
  have hlen : (r.buf ++ [rec]).length = r.buf.length + 1 := length_append
  unfold push
  dsimp only
  rw [hlen, release_eq]
  rfl

theorem flush_eq (s : σ) :
    flush emit (r, s) = (r.afterRelease r.buf.length, (sortInvRecs r.buf).foldl emit s) := by
  have hall : r.released r.buf.length = sortInvRecs r.buf := by
    rw [released, amount, Int.toNat_natCast, Nat.min_self]
    exact take_of_length_le (perm_stableSort _ _).length_eq.le
  rw [flush, release_eq, hall]

end

/-! ### What is emitted and what is late -/

/-- The records emitted and the late ones, so far. -/
abbrev Output := List InvRec × List InvRec

def keepEmitted (s : Output) (rec : InvRec) : Output := (s.1 ++ [rec], s.2)

def keepLate (rec : InvRec) (s : Output) : Output := (s.1, s.2 ++ [rec])

def feedOne (st : T7Reorderer × Output) (rec : InvRec) : T7Reorderer × Output :=
  push keepEmitted (keepLate rec) st rec

def feed (window : Int64) (recs : List InvRec) : T7Reorderer × Output :=
  recs.foldl feedOne (newT7Reorderer window, ([], []))

/-- What is emitted, and what is late, when the records are pushed and the rest is flushed. -/
def outcome (window : Int64) (recs : List InvRec) : Output :=
  (flush keepEmitted (feed window recs)).2

theorem foldl_keepEmitted (l : List InvRec) (s : Output) :
    l.foldl keepEmitted s = (s.1 ++ l, s.2) := by
  induction l generalizing s with
  | nil => rw [append_nil, foldl_nil]
  | cons rec l ih =>
    rw [foldl_cons, ih, keepEmitted, append_assoc, singleton_append]

theorem isLate_foldl_advance (rec : InvRec) (l : List InvRec) (r : T7Reorderer) :
    (l.foldl advance r).isLate rec ↔ r.isLate rec ∨ ∃ x ∈ l, rec.t7 < x.t7 := by
  have hone : ∀ (r : T7Reorderer) (x : InvRec),
      (r.advance x).isLate rec ↔ r.isLate rec ∨ rec.t7 < x.t7 := by
    intro r x
    rw [advance, isLate]
    split_ifs with h
    · rw [isLate, UInt64.lt_iff_toNat_lt, UInt64.lt_iff_toNat_lt]
      refine ⟨fun hx => .inr hx.2, fun hx => ⟨rfl, ?_⟩⟩
      rcases hx with ⟨hs, hlt⟩ | hlt
      · rcases h with h | h
        · exact hlt.trans (UInt64.lt_iff_toNat_lt.mp h)
        · rw [hs] at h
          cases h
      · exact hlt
    simp only [not_or, Bool.not_eq_false, UInt64.not_lt] at h
    refine ⟨.inl, fun hx => ?_⟩
    rcases hx with hx | hx
    · exact hx
    · refine ⟨h.2, UInt64.lt_iff_toNat_lt.mpr ?_⟩
      exact lt_of_lt_of_le hx (UInt64.le_iff_toNat_le.mp h.1)
  induction l generalizing r with
  | nil => simp
  | cons x l ih =>
    refine (ih (r.advance x)).trans ?_
    rw [hone, or_assoc]
    simp

theorem window_foldl_advance (l : List InvRec) (r : T7Reorderer) :
    (l.foldl advance r).window = r.window := by
  induction l generalizing r with
  | nil => rfl
  | cons x l ih =>
    rw [foldl_cons, ih, advance]
    split_ifs
    · rfl
    · rfl

/-- The window after the records `recs`: those `accepted` are emitted or buffered, in the order of
their stable sort, and the others are late. -/
structure Feeds (recs accepted : List InvRec) (st : T7Reorderer × Output) : Prop where
  sorted : sortBy InvRec.t7 accepted = st.2.1 ++ sortBy InvRec.t7 st.1.buf
  perm : (accepted ++ st.2.2).Perm recs
  all : st.2.2 = [] → accepted = recs
  mark : ∀ rec, st.1.isLate rec ↔ ∃ x ∈ st.2.1, rec.t7 < x.t7

section

variable {recs accepted : List InvRec} {r : T7Reorderer} {s : Output}

theorem Feeds.new (window : Int64) : Feeds [] [] (newT7Reorderer window, ([], [])) := by
  refine ⟨rfl, Perm.refl _, fun _ => rfl, fun rec => ?_⟩
  simp [isLate, newT7Reorderer]

theorem Feeds.released (h : Feeds recs accepted (r, s)) (n : Int) :
    Feeds recs accepted (r.afterRelease n, (s.1 ++ r.released n, s.2)) := by
  refine ⟨?_, h.perm, h.all, fun rec => ?_⟩
  · have hsorted := sortBy_release InvRec.t7 h.sorted (r.amount n)
    dsimp only at hsorted ⊢
    rw [hsorted, T7Reorderer.released, afterRelease, sortInvRecs_eq]
    split_ifs with h0
    · rw [h0, take_zero, drop_zero, sortBy_of_pairwise _ (pairwise_sortBy _ _)]
    · rfl
  · have hmark := isLate_foldl_advance rec (r.released n) r
    have hbuf : (r.afterRelease n).isLate rec ↔ ((r.released n).foldl advance r).isLate rec := Iff.rfl
    rw [hbuf, hmark, h.mark rec]
    simp [or_and_right, exists_or]

theorem Feeds.buffer (h : Feeds recs accepted (r, s)) {rec : InvRec} (hrec : ¬ r.isLate rec) :
    Feeds (recs ++ [rec]) (accepted ++ [rec]) (r.buffer rec, s) := by
  refine ⟨?_, ?_, fun hnil => ?_, h.mark⟩
  · refine sortBy_concat InvRec.t7 h.sorted fun x hx => ?_
    exact Nat.not_lt.mp fun hlt => hrec ((h.mark rec).mpr ⟨x, hx, hlt⟩)
  · have hperm := h.perm
    dsimp only at hperm ⊢
    refine Perm.trans ?_ (hperm.append_right [rec])
    rw [append_assoc, append_assoc]
    exact perm_append_comm.append_left accepted
  · rw [h.all hnil]

theorem Feeds.late (h : Feeds recs accepted (r, s)) (rec : InvRec) :
    Feeds (recs ++ [rec]) accepted (r, keepLate rec s) := by
  refine ⟨h.sorted, ?_, fun hnil => ?_, h.mark⟩
  · have hperm := h.perm.append_right [rec]
    rw [append_assoc] at hperm
    exact hperm
  · exact absurd hnil (append_ne_nil_of_right_ne_nil _ (cons_ne_nil _ _))

/-- **One push keeps the order.** -/
theorem Feeds.feedOne (h : Feeds recs accepted (r, s)) (rec : InvRec) :
    ∃ accepted', Feeds (recs ++ [rec]) accepted' (T7Reorderer.feedOne (r, s) rec) := by
  rw [T7Reorderer.feedOne, push_eq]
  split_ifs with hlate
  · exact ⟨accepted, h.late rec⟩
  · rw [foldl_keepEmitted]
    exact ⟨_, (h.buffer hlate).released _⟩
  · exact ⟨_, h.buffer hlate⟩

theorem feed_concat (window : Int64) (recs : List InvRec) (rec : InvRec) :
    feed window (recs ++ [rec]) = feedOne (feed window recs) rec := by
  rw [feed, foldl_append]
  rfl

theorem exists_feeds (window : Int64) (recs : List InvRec) :
    ∃ accepted, Feeds recs accepted (feed window recs) := by
  induction recs using reverseRecOn with
  | nil => exact ⟨[], Feeds.new window⟩
  | append_singleton recs rec ih =>
    obtain ⟨accepted, h⟩ := ih
    rw [feed_concat]
    exact h.feedOne rec

theorem Feeds.outcome {window : Int64} (h : Feeds recs accepted (feed window recs)) :
    (T7Reorderer.outcome window recs).1 = sortInvRecs accepted ∧
      (T7Reorderer.outcome window recs).2 = (feed window recs).2.2 := by
  rw [T7Reorderer.outcome, flush_eq, foldl_keepEmitted, sortInvRecs_eq, sortInvRecs_eq, h.sorted]
  exact ⟨rfl, rfl⟩

end

/-! ### Records near their place -/

/-- The stable sort of the records, with the place at which each arrived. -/
def arrivals (recs : List InvRec) : List (InvRec × Nat) :=
  stableSort (fun a b => a.1.minT7Ns < b.1.minT7Ns) recs.zipIdx

/-- Every record arrives at most `window` places from its place in the stable sort. -/
def Near (window : Int64) (recs : List InvRec) : Prop :=
  ∀ (p : Nat) (rec : InvRec) (i : Nat), (arrivals recs)[p]? = some (rec, i) →
    (i : Int) ≤ p + window.toInt ∧ (p : Int) ≤ i + window.toInt

theorem arrivals_eq (recs : List InvRec) : arrivals recs = places InvRec.t7 recs := by
  have hless : (fun a b : InvRec × Nat => decide (a.1.minT7Ns < b.1.minT7Ns)) =
      fun a b => decide (a.1.t7 < b.1.t7) := by
    funext a b
    exact decide_eq_decide.mpr UInt64.lt_iff_toNat_lt
  rw [arrivals, hless]
  rfl

/-- The sizes while nothing is late: the buffer is not full, and after the first release it stays
half full. -/
structure Sizes (w : Nat) (recs : List InvRec) (st : T7Reorderer × Output) : Prop where
  window : st.1.window.toInt = w
  none : st.2.2 = []
  sum : st.2.1.length + st.1.buf.length = recs.length
  room : st.1.buf.length < 2 * w
  half : st.2.1 ≠ [] → st.2.1.length + w ≤ recs.length

section

variable {recs : List InvRec} {r : T7Reorderer} {s : Output} {w : Nat}

theorem length_released (r : T7Reorderer) {n : Nat} (hn : n ≤ r.buf.length) :
    (r.released n).length = n := by
  rw [released, amount, Int.toNat_natCast, length_take, sortInvRecs,
    (perm_stableSort _ _).length_eq]
  omega

theorem length_afterRelease (r : T7Reorderer) {n : Nat} (hpos : 0 < n) (hn : n ≤ r.buf.length) :
    (r.afterRelease n).buf.length = r.buf.length - n := by
  have hne : r.amount n ≠ 0 := by
    rw [amount, Int.toNat_natCast]
    omega
  rw [afterRelease]
  rw [if_neg hne, length_drop, sortInvRecs, (perm_stableSort _ _).length_eq, amount,
    Int.toNat_natCast, Nat.min_eq_left hn]

theorem Sizes.feedOne (hw : w < 2 ^ 62) (h : Sizes w recs (r, s)) {rec : InvRec}
    (hrec : ¬ r.isLate rec) : Sizes w (recs ++ [rec]) (T7Reorderer.feedOne (r, s) rec) := by
  obtain ⟨hwindow, hnone, hsum, hroom, hhalf⟩ := h
  dsimp only at hwindow hnone hsum hroom hhalf
  have hlen : (r.buffer rec).buf.length = r.buf.length + 1 := length_append
  have hrecs : (recs ++ [rec]).length = recs.length + 1 := length_append
  have htwice : (2 * r.window).toInt = 2 * w := by
    rw [Int64.toInt_mul, hwindow]
    exact Int.bmod_eq_of_le (by simp; omega) (by simp; omega)
  rw [T7Reorderer.feedOne, push_eq, if_neg hrec, htwice, hwindow]
  split_ifs with hfull
  · rw [foldl_keepEmitted]
    have hout := length_released (r.buffer rec) (n := w) (by omega)
    have hrest := length_afterRelease (r.buffer rec) (n := w) (by omega) (by omega)
    refine ⟨?_, hnone, ?_, ?_, fun _ => ?_⟩
    · rw [afterRelease]
      rw [window_foldl_advance]
      exact hwindow
    · dsimp only
      rw [length_append]
      omega
    · dsimp only
      omega
    · dsimp only
      rw [length_append]
      omega
  · refine ⟨hwindow, hnone, ?_, ?_, fun hne => ?_⟩
    · dsimp only
      omega
    · dsimp only
      omega
    · have := hhalf hne
      dsimp only
      omega

end

theorem toInt_newT7Reorderer (window : Int64) :
    (newT7Reorderer window).window.toInt = max 1 window.toInt := by
  rw [newT7Reorderer]
  split_ifs with h
  · have := Int64.lt_iff_toInt_lt.mp h
    rw [max_eq_left (by simpa using this.le)]
    rfl
  · have := Int64.lt_iff_toInt_lt.not.mp h
    rw [max_eq_right (by simpa using this)]

variable {window : Int64}

/-- **Records near their place are never late.** -/
theorem sizes_of_near (hw : window.toInt < 2 ^ 62) {recs : List InvRec} (hnear : Near window recs)
    {pre : List InvRec} (hpre : pre <+: recs) :
    Sizes (max 1 window.toInt).toNat pre (feed window pre) := by
  induction pre using reverseRecOn with
  | nil =>
    refine ⟨?_, rfl, rfl, ?_, fun h => absurd rfl h⟩
    · rw [feed, foldl_nil, toInt_newT7Reorderer]
      omega
    · rw [feed, foldl_nil, newT7Reorderer]
      simp
  | append_singleton pre rec ih =>
    have hsizes := ih ((prefix_append pre [rec]).trans hpre)
    obtain ⟨accepted, hfeeds⟩ := exists_feeds window pre
    obtain rfl := hfeeds.all hsizes.none
    rw [feed_concat]
    refine hsizes.feedOne (by omega) fun hlate => ?_
    -- what was emitted is the front of the stable sort of the records so far
    obtain ⟨x, hx, hlt⟩ := (hfeeds.mark rec).mp hlate
    have hout : (feed window accepted).2.1 =
        (sortBy InvRec.t7 accepted).take (feed window accepted).2.1.length := by
      rw [hfeeds.sorted, take_left']
      rfl
    obtain ⟨rest, rfl⟩ := hpre
    have hat : (accepted ++ [rec] ++ rest)[accepted.length]? = some rec := by
      rw [append_assoc, getElem?_append_right le_rfl, Nat.sub_self]
      rfl
    have htake : (accepted ++ [rec] ++ rest).take accepted.length = accepted := by
      rw [append_assoc, take_left']
      rfl
    have hfront := key_le_of_places InvRec.t7 (w := (max 1 window.toInt).toNat)
      (fun p y hy => ?_) hat (hsizes.half (ne_nil_of_mem hx))
    · rw [htake, ← hout] at hfront
      exact absurd (hfront x hx) (Nat.not_le.mpr hlt)
    · rw [← arrivals_eq] at hy
      have := (hnear p y.1 y.2 hy).1
      omega

/-- Two records, the later one first. -/
def descending : List InvRec := [⟨"a", ⟨0, 0⟩, 0, 0, 2⟩, ⟨"b", ⟨0, 0⟩, 0, 0, 1⟩]

theorem near_descending (h : 1 ≤ window.toInt) : Near window descending := by
  have harrivals : arrivals descending =
      [(⟨"b", ⟨0, 0⟩, 0, 0, 1⟩, 1), (⟨"a", ⟨0, 0⟩, 0, 0, 2⟩, 0)] := by decide +kernel
  intro p rec i hp
  rw [harrivals] at hp
  match p with
  | 0 =>
    obtain ⟨-, rfl⟩ := Prod.mk.inj (Option.some.inj hp)
    omega
  | 1 =>
    obtain ⟨-, rfl⟩ := Prod.mk.inj (Option.some.inj hp)
    omega
  | p + 2 => cases hp

theorem outcome_descending (h : 2 ^ 62 ≤ window.toInt) :
    outcome window descending = ([⟨"a", ⟨0, 0⟩, 0, 0, 2⟩], [⟨"b", ⟨0, 0⟩, 0, 0, 1⟩]) := by
  have htop := window.toInt_lt
  have hnew : newT7Reorderer window = { window := window } := by
    have hone : ¬ window < 1 := by
      rw [Int64.lt_iff_toInt_lt]
      have : (1 : Int64).toInt = 1 := rfl
      omega
    rw [newT7Reorderer, if_neg hone]
  have htwice : (2 * window).toInt ≤ 1 := by
    have htwo : (2 : Int64).toInt = 2 := rfl
    rw [Int64.toInt_mul, htwo, Int.bmod_def]
    split_ifs
    · omega
    · omega
  have hamount : ({ window := window, buf := [⟨"a", ⟨0, 0⟩, 0, 0, 2⟩] } : T7Reorderer).amount
      window.toInt = 1 := by
    rw [amount, length_singleton]
    omega
  have hsort : sortInvRecs [⟨"a", ⟨0, 0⟩, 0, 0, 2⟩] = [⟨"a", ⟨0, 0⟩, 0, 0, 2⟩] := by decide +kernel
  have hfirst : feedOne (({ window := window } : T7Reorderer), ([], [])) ⟨"a", ⟨0, 0⟩, 0, 0, 2⟩ =
      ({ window := window, watermark := 2, started := true }, ([⟨"a", ⟨0, 0⟩, 0, 0, 2⟩], [])) := by
    rw [feedOne, push_eq, if_neg (by simp [isLate]), if_pos (by simpa using htwice),
      foldl_keepEmitted, buffer, nil_append, afterRelease, released, hamount, hsort,
      if_neg Nat.one_ne_zero]
    rfl
  have hlate : (⟨window, [], 2, true⟩ : T7Reorderer).isLate ⟨"b", ⟨0, 0⟩, 0, 0, 1⟩ :=
    ⟨rfl, (by decide : (1 : UInt64) < 2)⟩
  rw [outcome, feed, hnew, descending, foldl_cons, hfirst, foldl_cons, foldl_nil,
    feedOne, push_eq, if_pos hlate, flush_eq]
  rfl

/-- **The window sorts and loses nothing.**  Records near their place are all emitted, in the order
of their stable sort, exactly when the window is below `2 ^ 62`. -/
theorem t7Window_sorts_iff (window : Int64) :
    (∀ recs, (outcome window recs).1.Pairwise (fun a b => a.minT7Ns ≤ b.minT7Ns) ∧
      ((outcome window recs).1 ++ (outcome window recs).2).Perm recs) ∧
    ((∀ recs, Near window recs →
      (outcome window recs).2 = [] ∧ (outcome window recs).1 = sortInvRecs recs) ↔
        window.toInt < 2 ^ 62) := by
  refine ⟨fun recs => ?_, fun hsorts => ?_, fun hw recs hnear => ?_⟩
  · obtain ⟨accepted, hfeeds⟩ := exists_feeds window recs
    obtain ⟨hemitted, hlate⟩ := hfeeds.outcome
    rw [hemitted, hlate]
    refine ⟨?_, ((perm_stableSort _ accepted).append_right _).trans hfeeds.perm⟩
    rw [sortInvRecs_eq]
    exact (pairwise_sortBy InvRec.t7 accepted).imp fun h => UInt64.le_iff_toNat_le.mpr h
  · by_contra hwide
    have hlate := (hsorts descending (near_descending (by omega))).1
    rw [outcome_descending (not_lt.mp hwide)] at hlate
    cases hlate
  · obtain ⟨accepted, hfeeds⟩ := exists_feeds window recs
    obtain ⟨hemitted, hlate⟩ := hfeeds.outcome
    have hnone := (sizes_of_near hw hnear (prefix_refl recs)).none
    rw [hemitted, hlate, hfeeds.all hnone]
    exact ⟨hnone, rfl⟩

/-- With a window of `2 ^ 62` the second of two records is late. -/
theorem t7Window_wide : Near 4611686018427387904 descending ∧
    outcome 4611686018427387904 descending = ([⟨"a", ⟨0, 0⟩, 0, 0, 2⟩], [⟨"b", ⟨0, 0⟩, 0, 0, 1⟩]) :=
  ⟨near_descending (by decide), by decide +kernel⟩

end T7Reorderer

end MatchBench.Validate
