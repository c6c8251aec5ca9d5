import Mathlib.Data.List.AList
import Mathlib.Algebra.BigOperators.Group.List.Basic
import Mathlib.Tactic

/-!
# Tables

An association list with distinct keys is a table.  `retained` keeps the rows whose value
passes a test; `mem_lookup_retained` says which rows those are, and
`lookup_insert_eq_some` and `lookup_erase_eq_some` what stands in a table after one row is
written or erased.  `retainedKeys` keeps rows by their
key and `mapRows` replaces every value.  A table whose keys are
all keys of another is no longer than it (`entries_length_le`).  Removing a row and adding
a new one does not shorten a table (`entries_length_insert_erase`).

`tableSum` adds up a number for each row; `tableSum_insert` says how writing one row
changes it.
-/

open List AList

section

variable {α : Type*} {β : Type*}

/-- The rows of a table whose value passes the test. -/
def retained (keep : β → Bool) (t : AList (fun _ : α => β)) : AList (fun _ : α => β) :=
  ⟨t.entries.filter (fun e => keep e.2), t.nodupKeys.sublist filter_sublist⟩

/-- The rows of a table whose key passes the test. -/
def retainedKeys (keep : α → Bool) (t : AList (fun _ : α => β)) : AList (fun _ : α => β) :=
  ⟨t.entries.filter (fun e => keep e.1), t.nodupKeys.sublist filter_sublist⟩

theorem nodupKeys_map {l : List (Sigma fun _ : α => β)} (h : l.NodupKeys) (f : α → β → β) :
    (l.map fun e => (⟨e.1, f e.1 e.2⟩ : Sigma fun _ : α => β)).NodupKeys := by
  unfold NodupKeys List.keys at *
  rw [map_map]
  exact h

/-- The table with every value replaced. -/
def mapRows (f : α → β → β) (t : AList (fun _ : α => β)) : AList (fun _ : α => β) :=
  ⟨t.entries.map fun e => ⟨e.1, f e.1 e.2⟩, nodupKeys_map t.nodupKeys f⟩

/-- A number for each row, added up. -/
def tableSum (f : α → β → Nat) (t : AList (fun _ : α => β)) : Nat :=
  (t.entries.map fun e => f e.1 e.2).sum

variable {t : AList (fun _ : α => β)} {b : β} {a : α}

theorem tableSum_eq_zero {f : α → β → Nat} (h : ∀ e ∈ t.entries, f e.1 e.2 = 0) :
    tableSum f t = 0 := by
  refine sum_eq_zero fun n hn => ?_
  obtain ⟨e, he, rfl⟩ := mem_map.mp hn
  exact h e he

variable [DecidableEq α]

theorem entries_perm_of_lookup {k : α} (h : t.lookup k = some b) :
    t.entries.Perm (⟨k, b⟩ :: (t.erase k).entries) := by
  obtain ⟨b', l₁, l₂, -, hl, herase⟩ :=
    exists_of_kerase (AList.lookup_isSome.mp (h ▸ rfl) : k ∈ t)
  have hb : b' = b := by
    have hlook : b' ∈ t.lookup k :=
      AList.mem_lookup_iff.mpr (hl ▸ mem_append_right l₁ (.head _))
    exact (Option.some.inj (h.symm.trans hlook)).symm
  have hentries : (t.erase k).entries = l₁ ++ l₂ := herase
  rw [hentries, hl, hb]
  exact perm_middle

/-- What the row of a key adds to the sum. -/
def rowOf (f : α → β → Nat) (t : AList (fun _ : α => β)) (k : α) : Nat :=
  ((t.lookup k).map (f k)).getD 0

theorem tableSum_eq_add_erase (f : α → β → Nat) (t : AList (fun _ : α => β)) (k : α) :
    tableSum f t = rowOf f t k + tableSum f (t.erase k) := by
  cases h : t.lookup k with
  | none =>
    have herase : t.erase k = t :=
      AList.ext (kerase_of_notMem_keys (AList.lookup_eq_none.mp h))
    rw [rowOf, h, herase]
    exact (zero_add _).symm
  | some b =>
    have hperm := (entries_perm_of_lookup h).map (fun e => f e.1 e.2)
    rw [rowOf, h, tableSum, hperm.sum_eq, map_cons, sum_cons]
    rfl

theorem tableSum_insert (f : α → β → Nat) (t : AList (fun _ : α => β)) (k : α) (b : β) :
    tableSum f (t.insert k b) + rowOf f t k = tableSum f t + f k b := by
  have hinsert : tableSum f (t.insert k b) = f k b + tableSum f (t.erase k) := by
    rw [tableSum, entries_insert, map_cons, sum_cons]
    rfl
  rw [hinsert, tableSum_eq_add_erase f t k]
  omega

theorem mem_lookup_retained {keep : β → Bool} :
    b ∈ (retained keep t).lookup a ↔ b ∈ t.lookup a ∧ keep b = true := by
  rw [mem_lookup_iff, mem_lookup_iff, retained, mem_filter]

theorem lookup_insert_eq_some {k a : α} {b x : β} :
    (t.insert k b).lookup a = some x ↔ a = k ∧ x = b ∨ a ≠ k ∧ t.lookup a = some x := by
  by_cases ha : a = k
  · subst ha
    rw [lookup_insert, Option.some_inj]
    exact ⟨fun h => .inl ⟨rfl, h.symm⟩, fun h => h.elim (fun h => h.2.symm) fun h => absurd rfl h.1⟩
  · rw [lookup_insert_ne ha]
    exact ⟨fun h => .inr ⟨ha, h⟩, fun h => h.elim (fun h => absurd h.1 ha) And.right⟩

theorem lookup_erase_eq_some {k a : α} (h : (t.erase k).lookup a = some b) :
    a ≠ k ∧ t.lookup a = some b := by
  by_cases ha : a = k
  · rw [ha, lookup_erase] at h
    cases h
  · rw [lookup_erase_ne ha] at h
    exact ⟨ha, h⟩

theorem mem_lookup_mapRows {f : α → β → β} :
    b ∈ (mapRows f t).lookup a ↔ ∃ b₀ ∈ t.lookup a, f a b₀ = b := by
  rw [mem_lookup_iff, mapRows, mem_map]
  constructor
  · rintro ⟨⟨a', b₀⟩, hmem, heq⟩
    obtain ⟨rfl, hb⟩ := Sigma.mk.inj_iff.mp heq
    exact ⟨b₀, AList.mem_lookup_iff.mpr hmem, eq_of_heq hb⟩
  · rintro ⟨b₀, hmem, rfl⟩
    exact ⟨⟨a, b₀⟩, AList.mem_lookup_iff.mp hmem, rfl⟩

theorem entries_length_le {t u : AList (fun _ : α => β)}
    (h : ∀ a, t.lookup a ≠ none → u.lookup a ≠ none) : t.entries.length ≤ u.entries.length := by
  have hsub : t.keys ⊆ u.keys := by
    intro a ha
    have hu := h a (fun hn => AList.lookup_eq_none.mp hn ha)
    by_contra hn
    exact hu (AList.lookup_eq_none.mpr hn)
  have hlen := (t.keys_nodup.subperm hsub).length_le
  simpa only [AList.keys, List.keys, length_map] using hlen

theorem entries_length_insert (b : β) (h : t.lookup a = none) :
    (t.insert a b).entries.length = t.entries.length + 1 := by
  rw [entries_insert_of_notMem (AList.lookup_eq_none.mp h), length_cons]

theorem entries_length_insert_erase (k : α) (b : β) (h : t.lookup a = none) :
    t.entries.length ≤ ((t.erase k).insert a b).entries.length := by
  have hnone : (t.erase k).lookup a = none := by
    by_cases hk : a = k
    · rw [hk, lookup_erase]
    · rw [lookup_erase_ne hk, h]
  have herase : t.entries.length ≤ (t.erase k).entries.length + 1 := by
    have hkeys : (t.erase k).entries.keys.length = (t.entries.keys.erase k).length :=
      congrArg List.length keys_kerase
    rw [length_erase] at hkeys
    simp only [List.keys, length_map] at hkeys
    split at hkeys <;> omega
  rw [entries_length_insert b hnone]
  exact herase

end
