import MatchBench.Replay.Promote
import MatchBench.Validate.Tracks

/-!
# The order of map iteration

Go leaves the order in which a loop visits a map open, and two loops of the validator visit the map
of pending orders.  The search for a queue jump keeps the candidate with the least sequence number
and id, whatever the order in which they come (`pick_comm`), so the whole run up to `Finish` does
not depend on it (`run_range`).  `Finish` sorts the orders by the order of the replay.

That order compares TCP sequence numbers by the sign of their difference, and is an order as long as
these comparisons are transitive (`Serial`).  Then the report is the same for every iteration order
(`report_range`).  Two orders of one connection and one time that are half the circle apart each
come before the other, and the sort leaves the map's order in the report (`report_ambiguous`).
-/

namespace MatchBench.Validate.StreamValidator

open List

/-! ### The search for a queue jump -/

/-- The candidate with the least sequence number, and then the least id. -/
def pick (best : Option (String × Nat)) (c : String × Nat) : Option (String × Nat) :=
  match best with
  | none => some c
  | some b => if c.2 < b.2 ∨ (c.2 = b.2 ∧ c.1 < b.1) then some c else some b

theorem pick_comm (best : Option (String × Nat)) (c d : String × Nat) :
    pick (pick best c) d = pick (pick best d) c := by
  have htrans : ∀ x y z : String, x < y → y < z → x < z := fun _ _ _ => String.lt_trans
  have hasymm : ∀ x y : String, x < y → ¬ y < x := fun _ _ => String.lt_asymm
  have htotal : ∀ x y : String, ¬ x < y → ¬ y < x → x = y := fun _ _ h h' =>
    String.le_antisymm (String.not_lt.mp h') (String.not_lt.mp h)
  obtain ⟨i, m⟩ := c
  obtain ⟨j, n⟩ := d
  cases best with
  | none =>
    have h1 := hasymm i j
    have h2 := htotal i j
    simp only [pick]
    grind
  | some b =>
    obtain ⟨k, l⟩ := b
    simp only [pick]
    grind

theorem consider_eq (o : Order) (price : Int64) (mySeq : Nat) (best : Option (String × Nat))
    (id : String) (other : Order) (otherSeq : Nat) :
    consider o price mySeq best id other otherSeq =
      if (id = o.orderID ∨ other.side ≠ o.side ∨ other.price ≠ price) ∨ mySeq ≤ otherSeq ∨
        Replay.crossFlowTie o other = true then best else pick best (id, otherSeq) := by
  unfold consider pick
  grind

theorem consider_comm (o : Order) (price : Int64) (mySeq : Nat) (best : Option (String × Nat))
    (i j : String) (x y : Order) (m n : Nat) :
    consider o price mySeq (consider o price mySeq best i x m) j y n =
      consider o price mySeq (consider o price mySeq best j y n) i x m := by
  simp only [consider_eq]
  split_ifs
  · rfl
  · rfl
  · rfl
  · exact pick_comm best (i, m) (j, n)

variable (it it' : Nat → Range)

theorem queueJump_range (v : StreamValidator) (o : Order) (price : Int64) :
    v.queueJump it o price = v.queueJump it' o price := by
  unfold queueJump
  cases v.engine.seqOf o.orderID with
  | none => rfl
  | some mySeq =>
    have hperm := ((it v.ranges).perm v.pending.entries).trans
      ((it' v.ranges).perm v.pending.entries).symm
    dsimp only
    rw [hperm.foldl_eq' fun x _ y _ best => ?_]
    cases v.engine.seqOf x.1 with
    | none => rfl
    | some m =>
      cases v.engine.seqOf y.1 with
      | none => rfl
      | some n => exact consider_comm o price mySeq best x.1 y.1 x.2 y.2 m n

/-! ### The run -/

theorem classifyUnexplained_range : classifyUnexplained it = classifyUnexplained it' := by
  funext v o price qty detail
  rw [classifyUnexplained, classifyUnexplained, queueJump_range it it']

theorem scoreResponse_range : scoreResponse it = scoreResponse it' := by
  funext o r st resp
  rw [scoreResponse, scoreResponse, classifyUnexplained_range it it']

theorem finalize_range : finalize it = finalize it' := by
  have hscore : scoreOrder it = scoreOrder it' := by
    funext v o r
    unfold scoreOrder
    rw [scoreResponse_range it it']
  funext v id
  rw [finalize, finalize, hscore]

theorem apply_range : apply it = apply it' := by
  funext v o
  rw [apply, apply, finalize_range it it']

/-- **Up to `Finish` the iteration order leaves no trace.** -/
theorem run_range (os : List Order) : run it os = run it' os := by
  rw [run, run, apply_range it it']

theorem lookup_of_finalize {v : StreamValidator} {id x : String} {o : Order}
    (h : (v.finalize it id).pending.lookup x = some o) : v.pending.lookup x = some o := by
  cases hp : v.pending.lookup id with
  | none => rwa [finalize_of_none it hp] at h
  | some a =>
    rw [(finalize_spec it hp).2.1] at h
    exact (lookup_erase_eq_some h).2

theorem lookup_of_foldl_finalize {x : String} {o : Order} (ids : List String) (v : StreamValidator)
    (h : (ids.foldl (finalize it) v).pending.lookup x = some o) : v.pending.lookup x = some o := by
  induction ids generalizing v with
  | nil => exact h
  | cons id ids ih => exact lookup_of_finalize it (ih _ h)

theorem mem_of_pending (os : List Order) : ∀ o ∈ (run it os).pendingOrders, o ∈ os := by
  have hlookup : ∀ x o, (run it os).pending.lookup x = some o → o ∈ os := by
    induction os using reverseRecOn with
    | nil => exact nofun
    | append_singleton os a ih =>
      intro x o h
      rw [run, foldl_append, foldl_cons, foldl_nil, ← run, apply] at h
      dsimp only at h
      have hinsert : ((run it os).pending.insert a.orderID a).lookup x = some o := by
        split_ifs at h
        · exact lookup_of_foldl_finalize it _ _ (lookup_of_finalize it h)
        · exact lookup_of_foldl_finalize it _ _ h
      rcases lookup_insert_eq_some.mp hinsert with ⟨-, rfl⟩ | ⟨-, hold⟩
      · exact mem_append_right os (.head _)
      · exact mem_append_left [a] (ih x o hold)
  intro o ho
  obtain ⟨e, he, rfl⟩ := mem_map.mp ho
  exact hlookup e.1 e.2 (AList.mem_lookup_iff.mpr he)

theorem finish_range (v : StreamValidator) (h : StrictOn Replay.less v.pendingOrders) :
    v.finish it = v.finish it' := by
  have hperm : ∀ r : Range, ((r.enum v.pending.entries).map Sigma.snd).Perm v.pendingOrders :=
    fun r => (r.perm _).map _
  have hsort : ∀ r : Range, stableSort Replay.less ((r.enum v.pending.entries).map Sigma.snd) =
      stableSort Replay.less v.pendingOrders := fun r =>
    (h.mono fun a ha => (hperm r).mem_iff.mp ha).stableSort_eq_of_perm
      ((perm_stableSort _ _).trans (hperm r).symm) h.pairwise_stableSort
  rw [finish, finish, hsort, hsort, finishIn, finishIn, finalize_range it it']

/-- **The report does not depend on the iteration order**, when the orders differ in time,
connection or sequence number and the sequence numbers are in order. -/
theorem report_range (os : List Order) (hkeys : (os.map Replay.replayKey).Nodup)
    (hserial : Replay.Serial (run it os).pendingOrders) :
    (run it os).finish it = (run it' os).finish it' := by
  rw [← run_range it it' os]
  refine finish_range it it' _ (hserial.strictOn_less fun a ha b hb hab hkey => hab ?_)
  exact inj_on_of_nodup_map hkeys (mem_of_pending it os a ha) (mem_of_pending it os b hb) hkey

/-- Two orders that rest, each with a fill that the reference does not have. -/
def sampleResting (orderID : String) (tcpSeq : UInt32) : Order where
  orderID := orderID
  tcpSeq := tcpSeq
  price := 100
  qty := 5
  responses := [⟨"2", 5, 100, 20⟩]

def backwards : Range := ⟨List.reverse, reverse_perm⟩

theorem report_range_near :
    Replay.Serial (run (fun _ => .id) [sampleResting "a" 0, sampleResting "b" 1]).pendingOrders ∧
      (run (fun _ => .id) [sampleResting "a" 0, sampleResting "b" 1]).finish (fun _ => .id) =
        (run (fun _ => backwards) [sampleResting "a" 0, sampleResting "b" 1]).finish
          (fun _ => backwards) := by
  have hserial : Replay.Serial
      (run (fun _ => .id) [sampleResting "a" 0, sampleResting "b" 1]).pendingOrders := by
    decide +kernel
  exact ⟨hserial, report_range _ _ _ (by decide) hserial⟩

/-- **Half the circle apart**, the orders come in the order of the map. -/
theorem report_ambiguous :
    ([sampleResting "a" 0, sampleResting "b" 2147483648].map Replay.replayKey).Nodup ∧
      ((run (fun _ => .id) [sampleResting "a" 0, sampleResting "b" 2147483648]).finish
        (fun _ => .id)).violations.map Violation.orderID = ["a", "b"] ∧
      ((run (fun _ => backwards) [sampleResting "a" 0, sampleResting "b" 2147483648]).finish
        (fun _ => backwards)).violations.map Violation.orderID = ["b", "a"] := by
  decide +kernel

end MatchBench.Validate.StreamValidator
