import MatchBench.Lib.BTree

/-!
# Batches by key

Items wait in groups by key and leave in chunks of at most `c`, each with its key.
Nothing is lost when the chunks of a key and the group that waits are together the items
of the key, in their order.
-/

namespace MatchBench.Lib

open List BTree

variable {α κ : Type} [LinearOrder κ] (part : α → κ) (c : Nat)

abbrev Groups (κ α : Type) [LinearOrder κ] := BTree (Prod.fst : κ × List α → κ) (· < ·)

variable {k : κ} {m : Groups κ α}

def group (m : Groups κ α) (k : κ) : List α := ((m.get? k).map Prod.snd).getD []

/-- A group that is full leaves at once. -/
def push (m : Groups κ α) (e : α) : Groups κ α × List (κ × List α) :=
  let g := group m (part e) ++ [e]
  if c ≤ g.length then (m.insert (part e, []), [(part e, g)]) else (m.insert (part e, g), [])

def drain (m : Groups κ α) : List (κ × List α) := m.items.filter (·.2 ≠ [])

def groupAll (l : List α) : Groups κ α :=
  l.foldl (fun m e => m.insert (part e, group m (part e) ++ [e])) empty

def chunks (l : List α) : List (List α) :=
  if l = [] ∨ c = 0 then [] else l.take c :: chunks (l.drop c)
termination_by l.length
decreasing_by
  simp only [length_drop]
  have := length_pos_iff.mpr (not_or.mp ‹_›).1
  omega

def batch (l : List α) : List (κ × List α) :=
  (groupAll part l).items.flatMap fun x => (chunks c x.2).map (x.1, ·)

def emitted (k : κ) (out : List (κ × List α)) : List α := (out.filter (·.1 = k)).flatMap Prod.snd

/-- The chunk is not empty, not too long, and of one key. -/
def Chunk (x : κ × List α) : Prop := x.2 ≠ [] ∧ x.2.length ≤ c ∧ ∀ e ∈ x.2, part e = x.1

@[simp] theorem group_empty (k : κ) : group (empty : Groups κ α) k = [] := rfl

theorem group_insert (m : Groups κ α) (k k' : κ) (g : List α) :
    group (m.insert (k, g)) k' = if k' = k then g else group m k' := by
  rw [group, get?_insert]
  split <;> rfl

theorem emitted_append (a b : List (κ × List α)) : emitted k (a ++ b) = emitted k a ++ emitted k b := by
  simp [emitted]

theorem mem_group {x : κ × List α} (hx : x ∈ m.items) : group m x.1 = x.2 := by
  simp [group, get?_eq_some.mpr ⟨hx, rfl⟩]

theorem emitted_items (k : κ) (m : Groups κ α) : emitted k m.items = group m k := by
  have hn := m.keys_nodup
  rw [emitted, group, get?]
  generalize m.items = l at hn
  induction l with
  | nil => rfl
  | cons x l ih =>
    obtain ⟨hx, hn⟩ := nodup_cons.mp (map_cons ▸ hn)
    by_cases h : x.1 = k
    · have : l.filter (·.1 = k) = [] := by
        simp only [filter_eq_nil_iff, decide_eq_true_eq]
        exact fun y hy he => hx (mem_map.mpr ⟨y, hy, he.trans h.symm⟩)
      simp [h, this]
    · simpa [h] using ih hn

theorem emitted_drain (k : κ) (m : Groups κ α) : emitted k (drain m) = group m k := by
  rw [← emitted_items, drain, emitted, emitted, filter_filter]
  induction m.items with
  | nil => rfl
  | cons x l ih => by_cases h : x.1 = k <;> by_cases h' : x.2 = [] <;> simpa [h, h'] using ih

/-- **What goes in comes out or waits.** -/
theorem emitted_push (m : Groups κ α) (e : α) (k : κ) :
    emitted k (push part c m e).2 ++ group (push part c m e).1 k =
      group m k ++ [e].filter (part · = k) := by
  rw [push]
  rcases eq_or_ne (part e) k with rfl | h <;> split <;> simp [emitted, group_insert, *, Ne.symm]

theorem group_groupAll (l : List α) : group (groupAll part l) k = l.filter (part · = k) := by
  induction l using reverseRecOn with
  | nil => rfl
  | append_singleton l e ih =>
    rw [groupAll, foldl_append, ← groupAll, filter_append, ← ih]
    rcases eq_or_ne (part e) k with rfl | h <;> simp [group_insert, *, Ne.symm]

variable {c}

theorem flatten_chunks (hc : 0 < c) (l : List α) : (chunks c l).flatten = l := by
  induction l using chunks.induct c with
  | case1 l h => simp_all [chunks, Nat.pos_iff_ne_zero]
  | case2 l h ih => rw [chunks, if_neg h, flatten_cons, ih, take_append_drop]

theorem mem_chunks {l x : List α} (hx : x ∈ chunks c l) : x ≠ [] ∧ x.length ≤ c := by
  induction l using chunks.induct c with
  | case1 l h => simp [chunks, h] at hx
  | case2 l h ih =>
    rw [chunks, if_neg h, mem_cons] at hx
    rcases hx with rfl | hx
    · exact ⟨by simpa [not_or, and_comm] using h, by simp⟩
    · exact ih hx

theorem emitted_batch (hc : 0 < c) (l : List α) : emitted k (batch part c l) = l.filter (part · = k) := by
  rw [← group_groupAll, ← emitted_items, batch]
  induction (groupAll part l).items with
  | nil => rfl
  | cons x xs ih =>
    rw [flatMap_cons, emitted_append, ih]
    by_cases h : x.1 = k <;> simp [emitted, h, filter_map, Function.comp_def, flatMap_map, flatMap_id',
      flatten_chunks hc]

theorem chunk_batch (hc : 0 < c) (l : List α) : ∀ x ∈ batch part c l, Chunk part c x := by
  intro x hx
  simp only [batch, mem_flatMap, mem_map] at hx
  obtain ⟨y, hy, g, hg, rfl⟩ := hx
  obtain ⟨hne, hlen⟩ := mem_chunks hg
  refine ⟨hne, hlen, fun e he => ?_⟩
  have hmem : e ∈ group (groupAll part l) y.1 := by
    rw [mem_group hy, ← flatten_chunks hc y.2]
    exact mem_flatten_of_mem hg he
  rw [group_groupAll] at hmem
  simpa using (mem_filter.mp hmem).2

end MatchBench.Lib
