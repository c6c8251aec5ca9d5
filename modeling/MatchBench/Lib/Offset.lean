import Mathlib.Data.Finset.Basic

/-!
# The committed offset of a partition

A consumer reads the messages of a partition in order of their offsets.  The broker keeps
the offset from which a restarted consumer reads on, and a commit of a message moves it
just past the message.  Some messages are still owed: they must be read again, so the
committed offset must not pass them (`Partition.Safe`).
-/

namespace MatchBench

structure Partition where
  committed : Nat
  /-- The offset of the next message. -/
  position : Nat
  /-- The messages that must not be passed. -/
  owed : Finset Nat
  deriving DecidableEq

namespace Partition

def start (offset : Nat) : Partition := ⟨offset, offset, ∅⟩

/-- The next message is handed out. -/
def fetch (p : Partition) : Partition := { p with position := p.position + 1 }

def owe (p : Partition) (offset : Nat) : Partition := { p with owed := insert offset p.owed }

def settle (p : Partition) (offset : Nat) : Partition := { p with owed := p.owed.erase offset }

/-- The broker commits the message: everything up to it counts as consumed. -/
def commit (p : Partition) (offset : Nat) : Partition := { p with committed := offset + 1 }

/-- A new consumer of the partition starts at the committed offset. -/
def rewind (p : Partition) : Partition := { p with position := p.committed }

def Safe (p : Partition) : Prop := ∀ o ∈ p.owed, p.committed ≤ o
  deriving Decidable

theorem safe_start (offset : Nat) : (start offset).Safe := fun _ h => absurd h (Finset.notMem_empty _)

theorem Safe.owe {p : Partition} (h : p.Safe) {offset : Nat} (hle : p.committed ≤ offset) :
    (p.owe offset).Safe := by
  intro o ho
  rcases Finset.mem_insert.mp ho with ho | ho
  · rw [ho]
    exact hle
  · exact h o ho

theorem Safe.settle {p : Partition} (h : p.Safe) (offset : Nat) : (p.settle offset).Safe :=
  fun o ho => h o (Finset.mem_of_mem_erase ho)

theorem safe_commit_settle (p : Partition) (offset : Nat) :
    ((p.settle offset).commit offset).Safe ↔ ∀ o ∈ p.owed, offset ≤ o := by
  constructor
  · intro h o ho
    by_cases heq : o = offset
    · exact heq.ge
    · exact Nat.le_of_succ_le (h o (Finset.mem_erase.mpr ⟨heq, ho⟩))
  · intro h o ho
    obtain ⟨hne, ho⟩ := Finset.mem_erase.mp ho
    exact lt_of_le_of_ne (h o ho) hne.symm

end Partition

end MatchBench
