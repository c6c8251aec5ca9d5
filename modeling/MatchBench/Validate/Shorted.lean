import MatchBench.Lib.Ring
import MatchBench.Validate.Stream

/-!
# The shorted index is a sliding window

`shortedIndex` keeps the under-reported orders twice: in a ring of
`shortedCapacity` slots and by level.  `Holds` says that both are one window of
the pushes, the ring rotated by `pos`.  The order `evict` removes is the oldest
of the window, so it is the first of its level: the search for its pointer stops
at the head, also when an equal order was pushed again later.
-/

namespace MatchBench.Validate

open AList
open List Lib

def ShortedOrder.level (x : ShortedOrder) : LevelKey := ⟨x.o.side, x.o.price⟩

namespace ShortedIndex

variable {s : ShortedIndex} {w : List ShortedOrder}

/-- The index after the pushes `xs`. -/
def pushes (xs : List ShortedOrder) : ShortedIndex := xs.foldl (fun s x => s.push x.o x.seq) {}

def atLevel (w : List ShortedOrder) (k : LevelKey) : List ShortedOrder :=
  w.filter fun x => x.level = k

/-- The levels of `byLevel` are those of `w`, without the empty ones. -/
def Levels (s : ShortedIndex) (w : List ShortedOrder) : Prop :=
  ∀ k, s.byLevel.lookup k = if atLevel w k = [] then none else some (atLevel w k)

structure Holds (s : ShortedIndex) (w : List ShortedOrder) : Prop where
  ring : s.ring.rotate s.pos = w
  pos : s.pos = 0 ∨ s.pos < s.ring.length
  full : s.ring.length < shortedCapacity ∧ s.pos = 0 ∨ s.ring.length = shortedCapacity
  levels : s.Levels w

theorem Levels.getD (h : s.Levels w) (k : LevelKey) :
    (s.byLevel.lookup k).getD [] = atLevel w k := by
  rw [h k]
  split <;> simp_all

theorem Levels.evict {y : ShortedOrder} (h : s.Levels (y :: w)) : (s.evict y).Levels w := by
  intro k
  have hy : (s.byLevel.lookup ⟨y.o.side, y.o.price⟩).getD [] = y :: atLevel w y.level :=
    (h.getD y.level).trans (by simp [atLevel])
  simp only [ShortedIndex.evict, hy, eraseP_cons, decide_true, cond_true]
  by_cases hk : k = y.level
  · subst hk
    split
    · exact AList.lookup_erase ..
    · exact AList.lookup_insert ..
  · rw [show atLevel w k = atLevel (y :: w) k by simp [atLevel, Ne.symm hk], ← h k]
    split
    · exact AList.lookup_erase_ne hk
    · exact AList.lookup_insert_ne hk

theorem Levels.insert (h : s.Levels w) (x : ShortedOrder) (r : List ShortedOrder) (p : Nat) :
    Levels ⟨s.byLevel.insert x.level ((s.byLevel.lookup x.level).getD [] ++ [x]), r, p⟩
      (w ++ [x]) := by
  intro k
  rw [h.getD]
  by_cases hk : k = x.level
  · subst hk
    simp [atLevel]
  · show (AList.insert ..).lookup k = _
    rw [lookup_insert_ne hk, h k]
    simp [atLevel, Ne.symm hk]

theorem Holds.push (h : s.Holds w) (x : ShortedOrder) :
    (s.push x.o x.seq).Holds (slide shortedCapacity w x) := by
  have hl : w.length = s.ring.length := by rw [← h.ring, length_rotate]
  rw [slide, hl]
  obtain ⟨hlt, hp⟩ | hf := h.full
  · have hr : s.ring = w := by simpa [hp] using h.ring
    simp only [ShortedIndex.push, hlt, if_true]
    exact ⟨by simp [hp, hr], .inl hp, by simp [hp]; omega, h.levels.insert x _ _⟩
  have hp : s.pos < s.ring.length := by
    rcases h.pos with hp | hp
    · rw [hp, hf]
      decide
    · exact hp
  -- the slot at `pos` holds the head of the window
  obtain ⟨y, t, rfl⟩ := exists_cons_of_length_pos (l := w) (by omega)
  have hy : s.ring[s.pos]? = some y := by
    have := congrArg (·[0]?) h.ring
    simpa [getElem?_rotate (n := s.pos) (show 0 < s.ring.length by omega), Nat.mod_eq_of_lt hp]
      using this
  have hr := rotate_set hp x
  rw [h.ring, hf] at hr
  simp only [ShortedIndex.push, hf, lt_irrefl, if_false, hy]
  have hlen : (s.ring.set s.pos x).length = shortedCapacity := length_set.trans hf
  exact ⟨hr, .inr ((Nat.mod_lt _ (by decide)).trans_eq hlen.symm), .inr hlen, h.levels.evict.insert x _ _⟩

theorem holds_pushes (xs : List ShortedOrder) : (pushes xs).Holds (xs.rtake shortedCapacity) := by
  rw [← foldl_slide (by decide)]
  induction xs using reverseRecOn with
  | nil => exact ⟨rfl, .inl rfl, .inl ⟨by decide, rfl⟩, fun _ => rfl⟩
  | append_singleton xs x ih =>
    rw [foldl_append, pushes, foldl_append]
    exact ih.push x

/-- **The index is the window of the last `shortedCapacity` pushes.**  A level
lists its pushes of the window in order, and is absent when there are none. -/
theorem ordersAt_pushes (xs : List ShortedOrder) (side : Side) (price : Int64) :
    let entries := (xs.rtake shortedCapacity).filter
      fun x => x.o.side = side ∧ x.o.price = price
    (pushes xs).ordersAt side price = entries ∧
      ((pushes xs).byLevel.lookup ⟨side, price⟩ = none ↔ entries = []) := by
  have he : atLevel (xs.rtake shortedCapacity) ⟨side, price⟩ =
      (xs.rtake shortedCapacity).filter fun x => x.o.side = side ∧ x.o.price = price := by
    simp [atLevel, ShortedOrder.level]
  have h := (holds_pushes xs).levels
  rw [← he]
  refine ⟨h.getD _, ?_⟩
  rw [h]
  simp

end ShortedIndex

end MatchBench.Validate
