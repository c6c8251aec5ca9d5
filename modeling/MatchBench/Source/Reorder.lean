import MatchBench.Replay.Promote

/-!
# The bounded reorderer

`internal/source/reorder.go`.  The reorderer buffers orders as they arrive; when
it holds twice its window it promotes and sorts the buffer and emits the first
half.  Its comment promises the output of `replay.Order` as long as no order
arrives more than the window away from its place.

That is not enough.  An order whose predecessor on its connection has not arrived
yet is promoted too little, and sorts too early: `overtaking` is a session of
four orders, each at most one place away, where window 1 emits them in another
order.  `reordered_eq_order_iff` is what it takes: at each release the orders due
have arrived, and no other order, with the time it has among those arrived, sorts
before the last of them.

The emitted orders are kept in `out`.  The window is a machine integer, and its
double wraps around from `2 ^ 62` on; every push releases then.
-/

namespace MatchBench.Source

open List Option MatchBench.Order
open Replay

structure Reorderer where
  window : Int64
  buf : List Order
  carry : GoMap Flow UInt64
  out : List Order

def newReorderer (window : Int64) : Reorderer where
  window := if window < 1 then 1 else window
  buf := []
  carry := ∅
  out := []

namespace Reorderer

/-- The running time of a flow after an order of it is emitted. -/
def advance (carry : GoMap Flow UInt64) (o : Order) : GoMap Flow UInt64 :=
  match carry.lookup o.flow with
  | none => carry.insert o.flow o.effectiveT3
  | some cur => if cur < o.effectiveT3 then carry.insert o.flow o.effectiveT3 else carry

/-- Promote and sort the buffer, and emit its first `n` orders. -/
def release (r : Reorderer) (n : Int) : Reorderer :=
  if n ≤ 0 ∨ r.buf = [] then r
  else
    let n := if (r.buf.length : Int) < n then r.buf.length else n.toNat
    let buf := stableSort less (promote r.carry r.buf)
    { r with
      carry := (buf.take n).foldl advance r.carry
      out := r.out ++ buf.take n
      buf := buf.drop n }

def push (r : Reorderer) (o : Order) : Reorderer :=
  let r := { r with buf := r.buf ++ [o] }
  if (2 * r.window).toInt ≤ r.buf.length then r.release r.window.toInt else r

def flush (r : Reorderer) : Reorderer := r.release r.buf.length

/-- What is emitted when the orders are pushed and the rest is flushed. -/
def reordered (window : Int64) (os : List Order) : List Order :=
  (os.foldl push (newReorderer window)).flush.out

/-! ### What every state keeps -/

/-- The state after the orders `pre`: each is buffered or emitted, and the time
carried for a flow is the latest emitted. -/
structure Holds (pre : List Order) (r : Reorderer) : Prop where
  perm : ((r.out ++ r.buf).map Order.raw).Perm (pre.map Order.raw)
  carry : ∀ f t, (r.carry.lookup f).getD 0 ≤ t ↔ ∀ a ∈ r.out, a.flow = f → a.effectiveT3 ≤ t

variable (carry : GoMap Flow UInt64) (window : Int64) (os : List Order)

theorem advance_le_iff (o : Order) (f : Flow) (t : UInt64) :
    ((advance carry o).lookup f).getD 0 ≤ t ↔
      (carry.lookup f).getD 0 ≤ t ∧ (o.flow = f → o.effectiveT3 ≤ t) := by
  have h0 : (0 : UInt64) ≤ t := UInt64.le_iff_toNat_le.mpr (Nat.zero_le _)
  rw [advance]
  by_cases hf : o.flow = f
  · subst hf
    cases hc : carry.lookup o.flow with
    | none =>
      rw [AList.lookup_insert, getD_some, getD_none]
      exact ⟨fun h => ⟨h0, fun _ => h⟩, fun h => h.2 rfl⟩
    | some cur =>
      dsimp only
      split
      · rw [AList.lookup_insert, getD_some, getD_some]
        rename_i hlt
        exact ⟨fun h => ⟨UInt64.le_trans (UInt64.le_of_lt hlt) h, fun _ => h⟩, fun h => h.2 rfl⟩
      · rw [hc, getD_some]
        rename_i hlt
        exact ⟨fun h => ⟨h, fun _ => UInt64.le_trans (UInt64.not_lt.mp hlt) h⟩, fun h => h.1⟩
  · have hne : ∀ x, (carry.insert o.flow x).lookup f = carry.lookup f := fun x =>
      AList.lookup_insert_ne (fun h => hf h.symm)
    rw [and_iff_left fun h => absurd h hf]
    split
    · rw [hne]
    split
    · rw [hne]
    · rfl

theorem foldl_advance_le_iff (f : Flow) (t : UInt64) (os : List Order) : ∀ (carry : GoMap Flow UInt64), ((os.foldl advance carry).lookup f).getD 0 ≤ t ↔
      (carry.lookup f).getD 0 ≤ t ∧ ∀ a ∈ os, a.flow = f → a.effectiveT3 ≤ t := by
  induction os with
  | nil => intro carry; simp
  | cons o os ih =>
    intro carry
    rw [foldl_cons, ih, advance_le_iff, and_assoc, forall_mem_cons]

/-- The number of orders a release of `n` emits. -/
def amount (r : Reorderer) (n : Int) : Nat := min n.toNat r.buf.length

theorem release_eq (r : Reorderer) (n : Int) :
    r.release n =
      { r with
        carry := ((stableSort less (promote r.carry r.buf)).take (r.amount n)).foldl advance r.carry
        out := r.out ++ (stableSort less (promote r.carry r.buf)).take (r.amount n)
        buf := if r.amount n = 0 then r.buf
          else (stableSort less (promote r.carry r.buf)).drop (r.amount n) } := by
  rw [release, amount]
  rcases min_toNat_cases n r.buf with ⟨h, h0⟩ | ⟨h, h0, ham⟩
  · rw [if_pos h, h0, if_pos rfl, take_zero, append_nil, foldl_nil]
  · rw [if_neg h, ham, if_neg h0]

theorem length_promote : (promote carry os).length = os.length := by
  rw [promote, length_map, length_zipIdx]

theorem map_raw_promote : (promote carry os).map raw = os.map raw := by
  rw [promote, List.map_map, ← zipIdx_map_fst 0 os, List.map_map, zipIdx_map_fst]
  rfl

theorem Holds.new : Holds [] (newReorderer window) := by
  refine ⟨by simp [newReorderer], fun f t => ?_⟩
  simp [newReorderer]

variable {r : Reorderer} {pre : List Order} {xs : List Order} {o : Order}

theorem Holds.release (h : Holds pre r) (n : Int) : Holds pre (r.release n) := by
  rw [release_eq]
  refine ⟨?_, fun f t => ?_⟩
  · by_cases h0 : r.amount n = 0
    · dsimp only
      rw [h0, if_pos rfl, take_zero, append_nil]
      exact h.perm
    dsimp only
    rw [if_neg h0, append_assoc, take_append_drop, map_append]
    refine Perm.trans ?_ h.perm
    rw [map_append, ← map_raw_promote r.carry r.buf]
    exact ((perm_stableSort _ _).map _).append_left _
  · rw [foldl_advance_le_iff, h.carry, forall_mem_append]

theorem Holds.append (h : Holds pre r) (o : Order) :
    Holds (pre ++ [o]) { r with buf := r.buf ++ [o] } := by
  refine ⟨?_, h.carry⟩
  have hpre : (pre ++ [o]).map raw = pre.map raw ++ [o.raw] := map_append
  rw [hpre, ← append_assoc, map_append]
  exact h.perm.append_right _

theorem Holds.push (h : Holds pre r) (o : Order) : Holds (pre ++ [o]) (r.push o) := by
  rw [Reorderer.push]
  by_cases hfire : (2 * r.window).toInt ≤ ((r.buf ++ [o]).length : Int)
  · exact (if_pos hfire).symm ▸ (h.append o).release _
  · exact (if_neg hfire).symm ▸ h.append o

theorem perm_reordered : ((reordered window os).map raw).Perm (os.map raw) := by
  have hrun : Holds os (os.foldl Reorderer.push (newReorderer window)) := by
    induction os using reverseRecOn with
    | nil => exact Holds.new window
    | append_singleton os o ih =>
      rw [foldl_append]
      exact ih.push o
  have hend := hrun.release (os.foldl Reorderer.push (newReorderer window)).buf.length
  have hbuf : (os.foldl Reorderer.push (newReorderer window)).flush.buf = [] := by
    rw [flush, release_eq, amount, Int.toNat_natCast, Nat.min_self]
    split
    next h0 =>
      exact length_eq_zero_iff.mp h0
    · refine drop_eq_nil_of_le ?_
      rw [(perm_stableSort _ _).length_eq, length_promote]
  have hperm := hend.perm
  rw [← flush, hbuf, append_nil] at hperm
  exact hperm

/-! ### The buffer while the output is right -/

section Right

variable {xs pre : List Order} {base : Flow → UInt32} {r : Reorderer} {B : List Order}
  (hd : (xs.map wireID).Nodup) (hb : Based base xs) (hpre : pre.Sublist xs)
  (h : Holds pre r)

include h

theorem Holds.exists_pre {z : Order} (hz : z ∈ r.out ++ r.buf) : ∃ o ∈ pre, o.raw = z.raw :=
  List.mem_map.mp (h.perm.mem_iff.mp (List.mem_map_of_mem hz))

theorem Holds.exists_held {o : Order} (ho : o ∈ pre) : ∃ z ∈ r.out ++ r.buf, z.raw = o.raw :=
  List.mem_map.mp (h.perm.mem_iff.mpr (List.mem_map_of_mem ho))

include hd hpre

theorem Holds.nodup : ((r.out ++ r.buf).map wireID).Nodup := by
  have hw : ∀ l : List Order, l.map wireID = (l.map raw).map wireID := by
    intro l
    rw [List.map_map]
    rfl
  rw [hw, (h.perm.map wireID).nodup_iff, ← hw]
  exact hd.sublist (hpre.map _)

theorem Holds.not_out {z a : Order} (hz : z ∈ r.buf) (ha : a ∈ r.out) : a.wireID ≠ z.wireID := by
  have hnd := h.nodup hd hpre
  rw [map_append] at hnd
  exact (nodup_append.mp hnd).2.2 _ (List.mem_map_of_mem ha) _ (List.mem_map_of_mem hz)

omit hd in
include hb in
theorem Holds.based : Based base r.buf := by
  intro z hz
  obtain ⟨o, ho, he⟩ := h.exists_pre (z := z) (by simp [hz])
  have hw := wireID_of_raw he
  have := hb o (hpre.subset ho)
  rw [wireID, wireID, Prod.mk.injEq] at hw
  rw [← hw.1, ← hw.2]
  exact this

include hb

/-- **Promotion at a release**: each buffered order gets the time it has among
those arrived. -/
theorem Holds.promote_eq (hout : order xs = r.out ++ B) :
    promote r.carry r.buf = r.buf.map (stamp pre) := by
  have hnd := h.nodup hd hpre
  rw [map_append] at hnd
  rw [Replay.promote_eq (nodup_append.mp hnd).2.1 (h.based hb hpre)]
  refine map_congr_left (fun z hz => ?_)
  rw [stamp]
  congr 1
  have h0 : ∀ t : UInt64, (0 : UInt64) ≤ t := fun t => UInt64.le_iff_toNat_le.mpr (Nat.zero_le _)
  obtain ⟨o, ho, hoz⟩ := h.exists_pre (z := z) (by simp [hz])
  have hzo := hpre.subset ho
  have hoB : stamp xs o ∈ B := by
    have hmem : stamp xs o ∈ r.out ++ B := hout ▸ (mem_order hd hb).mpr ⟨o, hzo, rfl⟩
    rcases mem_append.mp hmem with hm | hm
    · have hne := h.not_out hd hpre hz hm
      exact absurd (wireID_of_raw hoz) hne
    · exact hm
  refine time_ext (fun t => ?_)
  rw [eff_le_iff, eff_le_iff, h.carry]
  refine ⟨fun ⟨h1, h2⟩ => ⟨h0 t, fun x hx hu => ?_⟩, fun ⟨_, h2⟩ => ⟨fun a ha hf => ?_, ?_⟩⟩
  · obtain ⟨w, hw, hwx⟩ := h.exists_held hx
    have huw : upto z w = true := (upto_of_raw rfl hwx).trans hu
    rw [← t3Ns_of_raw hwx]
    rcases mem_append.mp hw with hw | hw
    · have hmem : w ∈ order xs := by rw [hout]; simp [hw]
      obtain ⟨v, hv, hvw⟩ := (mem_order hd hb).mp hmem
      have hle : w.t3Ns ≤ w.effectiveT3 := by
        rw [← hvw]
        exact (eff_le_iff.mp (UInt64.le_refl _)).2 v hv (upto_self v)
      have hflow : w.flow = z.flow := by
        simp only [upto, Bool.and_eq_true, decide_eq_true_eq] at huw
        exact huw.1
      exact UInt64.le_trans hle (h1 w hw hflow)
    · exact h2 w hw huw
  · have hmem : a ∈ order xs := by rw [hout]; simp [ha]
    obtain ⟨v, hv, rfl⟩ := (mem_order hd hb).mp hmem
    have hfo : (stamp xs v).flow = (stamp xs o).flow := hf.trans (flow_of_raw hoz).symm
    have hsv := upto_front hd hb hout ha hoB hfo
    have hov : upto o v = true := hsv
    refine eff_le_iff.mpr ⟨h0 t, fun w hw hu => ?_⟩
    have hwout : stamp xs w ∈ r.out :=
      mem_front hd hb hout ha ((mem_order hd hb).mpr ⟨w, hw, rfl⟩) hu
    obtain ⟨w', hw', hww⟩ := h.exists_pre (z := stamp xs w) (by simp [hwout])
    have how : upto o w = true := upto_trans (hb o hzo) (hb v hv) (hb w hw) hov hu
    have ht3 : w'.t3Ns = w.t3Ns := t3Ns_of_raw hww
    rw [← ht3]
    exact h2 w' hw' ((upto_of_raw hoz.symm hww).trans how)
  · intro x hx hu
    obtain ⟨x', hx', hxx⟩ := h.exists_pre (z := x) (by simp [hx])
    rw [← t3Ns_of_raw hxx]
    exact h2 x' hx' ((upto_of_raw rfl hxx).trans hu)

omit h in
theorem stamp_eq_of_front {A C : List Order} (hAC : order xs = A ++ C) {x : Order}
    (hxA : stamp xs x ∈ A) (harr : ∀ a ∈ A, ∃ o ∈ pre, o.wireID = a.wireID) :
    stamp pre x = stamp xs x := by
  rw [stamp, stamp]
  congr 1
  refine time_ext (fun t => ?_)
  rw [eff_le_iff, eff_le_iff]
  refine and_congr_right (fun _ => ⟨fun h1 w hw hu => ?_, fun h1 w hw hu => ?_⟩)
  · have hwA := mem_front hd hb hAC hxA ((mem_order hd hb).mpr ⟨w, hw, rfl⟩) hu
    obtain ⟨o, ho, hid⟩ := harr _ hwA
    obtain rfl : o = w := inj_on_of_nodup_map hd (hpre.subset ho) hw hid
    exact h1 o ho hu
  · exact h1 w (hpre.subset hw) hu

end Right

/-! ### One release -/

/-- **A release is safe**: the first `m` orders of the replay are among the first
`i` to arrive, and no other of these, with the time it has among them, sorts before
the last of the `m`. -/
def Safe (xs : List Order) (i m : Nat) : Prop :=
  (∀ c ∈ (order xs).take m, ∃ o ∈ xs.take i, o.wireID = c.wireID) ∧
  ∀ o ∈ xs.take i, (∀ c ∈ (order xs).take m, c.wireID ≠ o.wireID) →
    ∀ c, (order xs)[m - 1]? = some c → less (stamp (xs.take i) o) c = false

section Release

variable {xs : List Order} {base : Flow → UInt32} {r : Reorderer} {B : List Order} {i n : Nat}
  (hd : (xs.map Order.wireID).Nodup) (hb : Based base xs) (h : Holds (xs.take i) r)
  (hout : order xs = r.out ++ B)

include hd hb h hout

theorem length_due (hlen : n ≤ r.buf.length) : (B.take n).length = n := by
  have h1 := h.perm.length_eq
  have h2 := (perm_order hd hb).length_eq
  rw [hout] at h2
  simp only [length_map, length_append, length_take] at h1 h2 ⊢
  omega

theorem mem_promoted_of_due
    (harr : ∀ c ∈ r.out ++ B.take n, ∃ o ∈ xs.take i, o.wireID = c.wireID) {c : Order}
    (hc : c ∈ B.take n) :
    ∃ z ∈ r.buf, stamp (xs.take i) z = c ∧ z.raw = c.raw := by
  have hAC : order xs = (r.out ++ B.take n) ++ B.drop n := by
    rw [append_assoc, take_append_drop, hout]
  have hmem : c ∈ order xs := by rw [hout]; simp [mem_of_mem_take hc]
  obtain ⟨x, hx, rfl⟩ := (mem_order hd hb).mp hmem
  obtain ⟨o, ho, hid⟩ := harr (stamp xs x) (by simp [hc])
  obtain rfl : o = x := inj_on_of_nodup_map hd (mem_of_mem_take ho) hx hid
  obtain ⟨z, hz, hzo⟩ := h.exists_held ho
  rcases mem_append.mp hz with hz | hz
  · have hnd := (nodup_order hd hb)
    rw [hout, map_append] at hnd
    refine absurd (wireID_of_raw hzo) ((nodup_append.mp hnd).2.2 _ (List.mem_map_of_mem hz) _ ?_)
    exact List.mem_map.mpr ⟨stamp xs o, mem_of_mem_take hc, rfl⟩
  · refine ⟨z, hz, ?_, hzo⟩
    rw [stamp_of_raw hzo]
    exact stamp_eq_of_front hd hb (take_sublist i xs) hAC (by simp [hc]) harr

omit hout in
theorem strictOn_promoted : StrictOn less (r.buf.map (stamp (xs.take i))) := by
  have hnd := h.nodup hd (take_sublist i xs)
  rw [map_append] at hnd
  refine strictOn_less ?_ ((h.based hb (take_sublist i xs)).map_stamp _)
  rw [map_stamp_wireID]
  exact (nodup_append.mp hnd).2.1

theorem release_out (hlen : n ≤ r.buf.length) :
    (r.release n).out = r.out ++ (stableSort less (r.buf.map (stamp (xs.take i)))).take n := by
  have ham : r.amount n = n := by rw [amount, Int.toNat_natCast, Nat.min_eq_left hlen]
  rw [release_eq, ham, h.promote_eq hd hb (take_sublist i xs) hout]

theorem safe_of_release (hn : 0 < n)
    (hS : (stableSort less (r.buf.map (stamp (xs.take i)))).take n = B.take n) :
    Safe xs i (r.out.length + n) := by
  have hperm := perm_stableSort less (r.buf.map (stamp (xs.take i)))
  have hsorted := (strictOn_promoted hd hb h).pairwise_stableSort
  have htake : (order xs).take (r.out.length + n) = r.out ++ B.take n := by
    rw [hout, take_length_add_append]
  refine ⟨fun c hc => ?_, fun o ho hno c hc => ?_⟩
  · rw [htake] at hc
    rcases mem_append.mp hc with hc | hc
    · obtain ⟨o, ho, hoc⟩ := h.exists_pre (z := c) (by simp [hc])
      exact ⟨o, ho, wireID_of_raw hoc⟩
    rw [← hS] at hc
    obtain ⟨z, hz, rfl⟩ := List.mem_map.mp (hperm.mem_iff.mp (mem_of_mem_take hc))
    obtain ⟨o, ho, hoz⟩ := h.exists_pre (z := z) (by simp [hz])
    exact ⟨o, ho, wireID_of_raw hoz⟩
  rw [htake] at hno
  obtain ⟨z, hz, hzo⟩ := h.exists_held ho
  have hzb : z ∈ r.buf := by
    rcases mem_append.mp hz with hz | hz
    · exact absurd (wireID_of_raw hzo) (hno z (by simp [hz]))
    · exact hz
  have hmem : stamp (xs.take i) o ∈ stableSort less (r.buf.map (stamp (xs.take i))) := by
    rw [hperm.mem_iff, ← stamp_of_raw hzo]
    exact List.mem_map_of_mem hzb
  have hcB : c ∈ B.take n := by
    rw [hout, getElem?_append_right (by omega),
      show r.out.length + n - 1 - r.out.length = n - 1 by omega] at hc
    exact mem_of_getElem? (i := n - 1) (by rw [getElem?_take_of_lt (by omega), hc])
  rw [← take_append_drop n (stableSort less (r.buf.map (stamp (xs.take i))))] at hmem hsorted
  rw [hS] at hmem hsorted
  rcases mem_append.mp hmem with hm | hm
  · have hne := hno (stamp (xs.take i) o) (mem_append_right _ hm)
    exact absurd rfl hne
  · exact (pairwise_append.mp hsorted).2.2 c hcB _ hm

theorem release_of_safe (hn : 0 < n) (hlen : n ≤ r.buf.length)
    (hsafe : Safe xs i (r.out.length + n)) :
    (stableSort less (r.buf.map (stamp (xs.take i)))).take n = B.take n := by
  have hstrict := strictOn_promoted hd hb h
  have hlenB := length_due hd hb h hout hlen
  have htake : (order xs).take (r.out.length + n) = r.out ++ B.take n := by
    rw [hout, take_length_add_append]
  obtain ⟨harr, hlast⟩ := hsafe
  rw [htake] at harr hlast
  have hsorted : (B.take n).Pairwise (fun a b => less b a = false) := by
    have hp := pairwise_order hd hb
    rw [hout] at hp
    exact (pairwise_append.mp hp).2.1.sublist (take_sublist n B)
  have hndP : (r.buf.map (stamp (xs.take i))).Nodup := by
    have hnd := h.nodup hd (take_sublist i xs)
    rw [map_append, ← map_stamp_wireID (xs.take i) r.buf] at hnd
    exact (nodup_append.mp hnd).2.1.of_map
  have hndC : (B.take n).Nodup := by
    have hnd := (nodup_order hd hb).of_map
    rw [hout] at hnd
    exact (nodup_append.mp hnd).2.1.sublist (take_sublist n B)
  have hCP : ∀ c ∈ B.take n, c ∈ r.buf.map (stamp (xs.take i)) := by
    intro c hc
    obtain ⟨z, hz, hzc, -⟩ := mem_promoted_of_due hd hb h hout harr hc
    exact List.mem_map.mpr ⟨z, hz, hzc⟩
  have hperm : (r.buf.map (stamp (xs.take i))).Perm
      (B.take n ++ (r.buf.map (stamp (xs.take i))).filter (fun z => z ∉ B.take n)) := by
    have h1 := filter_append_perm (fun z => decide (z ∈ B.take n)) (r.buf.map (stamp (xs.take i)))
    have h2 : ((r.buf.map (stamp (xs.take i))).filter (fun z => z ∈ B.take n)).Perm (B.take n) := by
      refine (perm_ext_iff_of_nodup (hndP.filter _) hndC).mpr (fun z => ?_)
      rw [mem_filter, decide_eq_true_eq]
      exact ⟨fun hz => hz.2, fun hz => ⟨hCP z hz, hz⟩⟩
    refine h1.symm.trans ((h2.append_right _).trans ?_)
    simp only [decide_not]
    exact Perm.refl _
  have hfirst : ∀ c ∈ B.take n, ∀ d ∈ (r.buf.map (stamp (xs.take i))).filter
      (fun z => z ∉ B.take n), less d c = false := by
    intro c hc d hd'
    obtain ⟨hdP, hdC⟩ := mem_filter.mp hd'
    have hdC : d ∉ B.take n := by simpa using hdC
    obtain ⟨z, hz, rfl⟩ := List.mem_map.mp hdP
    obtain ⟨o, ho, hoz⟩ := h.exists_pre (z := z) (by simp [hz])
    have hlt : n - 1 < (B.take n).length := by omega
    have hl : (order xs)[r.out.length + n - 1]? = some ((B.take n).get ⟨n - 1, hlt⟩) := by
      rw [hout, getElem?_append_right (by omega),
        show r.out.length + n - 1 - r.out.length = n - 1 by omega, get_eq_getElem,
        ← getElem?_eq_getElem hlt, getElem?_take_of_lt (by omega)]
    have hno : ∀ c ∈ r.out ++ B.take n, c.wireID ≠ o.wireID := by
      intro a ha he
      rw [wireID_of_raw hoz] at he
      rcases mem_append.mp ha with ha | ha
      · exact h.not_out hd (take_sublist i xs) hz ha he
      obtain ⟨z', hz', hza, -⟩ := mem_promoted_of_due hd hb h hout harr ha
      have hzz : z' = z := by
        have hnd := h.nodup hd (take_sublist i xs)
        rw [map_append] at hnd
        refine inj_on_of_nodup_map (nodup_append.mp hnd).2.1 hz' hz ?_
        rw [← he, ← hza]
        rfl
      rw [hzz] at hza
      rw [hza] at hdC
      exact hdC ha
    have h1 := hlast o ho hno _ hl
    rw [stamp_of_raw hoz] at h1
    have h2 : less ((B.take n).get ⟨n - 1, hlt⟩) c = false := by
      obtain ⟨j, hj, rfl⟩ := getElem_of_mem hc
      by_cases hjn : j = n - 1
      · subst hjn
        exact hstrict.irrefl _ (hCP _ hc)
      · exact pairwise_iff_getElem.mp hsorted j (n - 1) hj hlt (by omega)
    exact hstrict.le_trans (hCP c hc) (hCP _ (List.get_mem _ _)) hdP h2 h1
  rw [hstrict.stableSort_append hperm hsorted hfirst, take_left' hlenB]

/-- **One release**: from a right output, it emits the orders due exactly when it is
safe. -/
theorem release_iff (hn : 0 < n) (hlen : n ≤ r.buf.length) :
    (r.release n).out = (order xs).take (r.out.length + n) ↔ Safe xs i (r.out.length + n) := by
  have htake : (order xs).take (r.out.length + n) = r.out ++ B.take n := by
    rw [hout, take_length_add_append]
  rw [release_out hd hb h hout hlen, htake, append_cancel_left_eq]
  exact ⟨safe_of_release hd hb h hout hn, release_of_safe hd hb h hout hn hlen⟩

end Release

/-! ### The run -/

/-- How many orders the buffer holds when it is released. -/
def releaseAt (w : Int64) : Nat := max 1 (2 * w).toInt.toNat

/-- How many orders a release emits. -/
def released (w : Int64) : Nat := min w.toInt.toNat (releaseAt w)

theorem release_window (r : Reorderer) (n : Int) : (r.release n).window = r.window := by
  rw [release_eq]

theorem push_of_lt (h : r.buf.length + 1 < releaseAt r.window) :
    r.push o = { r with buf := r.buf ++ [o] } := by
  rw [releaseAt] at h
  rw [push]
  dsimp only
  rw [if_neg]
  rw [length_append, length_singleton]
  omega

theorem push_of_eq (hw : 0 < r.window.toInt) (h : r.buf.length + 1 = releaseAt r.window) :
    r.push o = { r with buf := r.buf ++ [o] }.release (released r.window : Nat) := by
  have hlen : (r.buf ++ [o]).length = releaseAt r.window := by
    rw [length_append, length_singleton, h]
  have hfire : (2 * r.window).toInt ≤ ((r.buf ++ [o]).length : Int) := by
    rw [hlen, releaseAt]
    omega
  have ham : ∀ n : Int, n = r.window.toInt ∨ n = (released r.window : Nat) →
      { r with buf := r.buf ++ [o] }.amount n = released r.window := by
    intro n hn
    rw [amount]
    rw [hlen, released]
    rcases hn with hn | hn
    · rw [hn]
    · rw [hn, released]
      omega
  rw [push]
  rw [if_pos hfire, release_eq, release_eq, ham _ (.inl rfl), ham _ (.inr rfl)]

theorem release_lengths {n : Nat} (hn : n ≤ r.buf.length) :
    ∃ s : List Order, s.length = n ∧ (r.release n).out = r.out ++ s ∧
      (r.release n).buf.length = r.buf.length - n := by
  have ham : r.amount n = n := by rw [amount, Int.toNat_natCast, Nat.min_eq_left hn]
  have hsort : (stableSort less (promote r.carry r.buf)).length = r.buf.length := by
    rw [(perm_stableSort _ _).length_eq, length_promote]
  rw [release_eq, ham]
  refine ⟨(stableSort less (promote r.carry r.buf)).take n, ?_, rfl, ?_⟩
  · rw [length_take, hsort, Nat.min_eq_left hn]
  dsimp only
  split
  · omega
  · rw [length_drop, hsort]

section Run

variable {xs : List Order} {base : Flow → UInt32} {w : Int64}

/-- The state after the first `i` pushes, `k` of which released. -/
structure Running (xs : List Order) (w : Int64) (i k : Nat) (r : Reorderer) : Prop where
  holds : Holds (xs.take i) r
  window : r.window = w
  out : r.out.length = k * released w
  buf : r.buf.length < releaseAt w
  count : r.out.length + r.buf.length = i
  fired : ∀ j < k, releaseAt w + j * released w ≤ i
  right : r.out = (order xs).take (k * released w) ↔
    ∀ j < k, Safe xs (releaseAt w + j * released w) ((j + 1) * released w)

variable {r : Reorderer} {o : Order} {i k : Nat}

theorem Running.holds_append (h : Running xs w i k r) (ho : xs[i]? = some o) :
    Holds (xs.take (i + 1)) { r with buf := r.buf ++ [o] } := by
  rw [take_add_one, ho]
  exact h.holds.append o

theorem released_pos (hw : 0 < w.toInt) : 0 < released w := by
  rw [released, releaseAt]
  omega

theorem Running.push_buffer (h : Running xs w i k r) (ho : xs[i]? = some o)
    (hlt : r.buf.length + 1 < releaseAt w) :
    Running xs w (i + 1) k (r.push o) := by
  have hcount := h.count
  rw [push_of_lt (by rw [h.window]; exact hlt)]
  refine ⟨h.holds_append ho, h.window, h.out, ?_, ?_,
    fun j hj => (h.fired j hj).trans (Nat.le_succ i), h.right⟩
  · simpa using hlt
  · simp only [length_append, length_singleton]
    omega

theorem Running.push_release (hd : (xs.map wireID).Nodup) (hb : Based base xs)
    (hw : 0 < w.toInt) (h : Running xs w i k r) (ho : xs[i]? = some o)
    (heq : r.buf.length + 1 = releaseAt w) :
    Running xs w (i + 1) (k + 1) (r.push o) := by
  have happ := h.holds_append ho
  have hcount := h.count
  have hn := released_pos hw
  have hwin := h.window
  subst hwin
  have hlenb : ({ r with buf := r.buf ++ [o] } : Reorderer).buf.length = r.buf.length + 1 := by
    simp
  have hnlen : released r.window ≤ r.buf.length + 1 := by
    rw [heq]
    exact Nat.min_le_right _ _
  have hi : i + 1 = releaseAt r.window + k * released r.window := by
    rw [← h.out]
    omega
  have hlen : r.out.length + released r.window = (k + 1) * released r.window := by
    rw [h.out]
    ring
  rw [push_of_eq hw heq]
  generalize hq : ({ r with buf := r.buf ++ [o] } : Reorderer) = q at happ hlenb ⊢
  have hqout : q.out = r.out := by rw [← hq]
  obtain ⟨s, hs, hout, hbuf⟩ := release_lengths (r := q) (hlenb ▸ hnlen)
  refine ⟨happ.release _, ?_, ?_, ?_, ?_, fun j hj => ?_, ?_⟩
  · rw [release_window, ← hq]
  · rw [hout, length_append, hqout, hs, hlen]
  · omega
  · rw [hout, length_append, hqout, hs, hbuf]
    omega
  · rcases Nat.lt_succ_iff_lt_or_eq.mp hj with hj | hj
    · exact (h.fired j hj).trans (Nat.le_succ i)
    · rw [hj, hi]
  rw [Nat.forall_lt_succ_right, ← h.right]
  by_cases hgood : r.out = (order xs).take (k * released r.window)
  · have hq' : order xs = q.out ++ (order xs).drop (k * released r.window) := by
      rw [hqout]
      conv_rhs => rw [hgood]
      rw [take_append_drop]
    have hiff := release_iff hd hb happ hq' hn (hlenb ▸ hnlen)
    rw [hqout, hlen] at hiff
    rw [hiff, hi]
    exact ⟨fun hs => ⟨hgood, hs⟩, fun hs => hs.2⟩
  refine ⟨fun hr => absurd ?_ hgood, fun hr => absurd hr.1 hgood⟩
  have hpre := congrArg (List.take (k * released r.window)) hr
  have hle : k * released r.window ≤ (k + 1) * released r.window := by
    rw [Nat.succ_mul]
    exact Nat.le_add_right _ _
  rw [hout, hqout, take_take, Nat.min_eq_left hle, ← h.out, take_left, h.out] at hpre
  exact hpre

theorem Running.new (xs : List Order) (window : Int64) :
    Running xs (newReorderer window).window 0 0 (newReorderer window) := by
  have hout : (newReorderer window).out = [] := rfl
  have hbuf : (newReorderer window).buf = [] := rfl
  refine ⟨Holds.new window, rfl, ?_, ?_, ?_, by simp, ?_⟩
  · rw [hout, Nat.zero_mul, length_nil]
  · rw [hbuf, length_nil, releaseAt]
    omega
  · rw [hout, hbuf, length_nil]
  · rw [hout, Nat.zero_mul, take_zero]
    simp

theorem window_pos (window : Int64) : 0 < (newReorderer window).window.toInt := by
  rw [newReorderer]
  split
  · decide
  next h =>
    have h1 : (1 : Int64) ≤ window := Int64.not_lt.mp h
    have h2 := Int64.le_iff_toInt_le.mp h1
    rw [Int64.toInt_one] at h2
    exact h2

/-- **Every push sequence** leads to such a state. -/
theorem Running.run (hd : (xs.map wireID).Nodup) (hb : Based base xs) (window : Int64) :
    ∀ i ≤ xs.length, ∃ k, Running xs (newReorderer window).window i k
      ((xs.take i).foldl push (newReorderer window)) := by
  intro i
  induction i with
  | zero => intro _; exact ⟨0, Running.new xs window⟩
  | succ i ih =>
    intro hi
    obtain ⟨k, hk⟩ := ih (by omega)
    obtain ⟨o, ho⟩ : ∃ o, xs[i]? = some o := ⟨_, getElem?_eq_getElem (by omega)⟩
    rw [take_add_one, ho, foldl_append]
    by_cases hlt : ((xs.take i).foldl Reorderer.push (newReorderer window)).buf.length + 1 <
        releaseAt (newReorderer window).window
    · exact ⟨k, hk.push_buffer ho hlt⟩
    · refine ⟨k + 1, hk.push_release hd hb (window_pos window) ho ?_⟩
      have := hk.buf
      omega

theorem flush_iff (hd : (xs.map wireID).Nodup) (hb : Based base xs) {k : Nat}
    (h : Running xs w xs.length k r) :
    r.flush.out = order xs ↔ r.out = (order xs).take (k * released w) := by
  have hH := h.holds
  rw [take_length] at hH
  have hlen : (order xs).length = r.out.length + r.buf.length := by
    rw [(perm_order hd hb).length_eq, length_map, h.count]
  obtain ⟨s, hs, hout, -⟩ := release_lengths (r := r) (le_refl r.buf.length)
  refine ⟨fun hf => ?_, fun hgood => ?_⟩
  · rw [flush, hout] at hf
    rw [← hf, ← h.out, take_left]
  have hq : order xs = r.out ++ (order xs).drop (k * released w) := by
    conv_rhs => rw [hgood]
    rw [take_append_drop]
  rw [flush]
  by_cases hb0 : r.buf.length = 0
  · have hs0 : s = [] := length_eq_zero_iff.mp (hs.trans hb0)
    rw [hout, hs0, append_nil, hgood]
    refine take_of_length_le ?_
    rw [hlen, hb0, h.out]
    exact le_refl _
  have hsafe : Safe xs xs.length (r.out.length + r.buf.length) := by
    rw [← hlen, Safe, take_length, take_length]
    refine ⟨fun c hc => ?_, fun o ho hno => ?_⟩
    · obtain ⟨x, hx, rfl⟩ := (mem_order hd hb).mp hc
      exact ⟨x, hx, rfl⟩
    · exact absurd rfl (hno (stamp xs o) ((mem_order hd hb).mpr ⟨o, ho, rfl⟩))
  rw [(release_iff hd hb h.holds hq (Nat.pos_of_ne_zero hb0) (le_refl _)).mpr hsafe, ← hlen,
    take_length]

end Run

theorem reordered_iff_safe {base : Flow → UInt32} (hd : (xs.map wireID).Nodup)
    (hb : Based base xs) {w : Int64} (hw : (newReorderer window).window = w) :
    reordered window xs = order xs ↔
      ∀ k, releaseAt w + k * released w ≤ xs.length →
        Safe xs (releaseAt w + k * released w) ((k + 1) * released w) := by
  obtain ⟨k, hk⟩ := Running.run hd hb window xs.length (le_refl _)
  rw [take_length, hw] at hk
  rw [reordered, flush_iff hd hb hk, hk.right]
  refine ⟨fun h j hj => h j ?_, fun h j hj => h j (hk.fired j hj)⟩
  by_contra hle
  have hcount := hk.count
  have hbuf := hk.buf
  have hout := hk.out
  have hmul : k * released w ≤ j * released w := Nat.mul_le_mul_right _ (by omega)
  omega

/-- **When the reorderer emits the replay order.**  At its `k`-th release the first
`(k + 1) * released w` orders of the replay have arrived, and no other order that
has arrived, with the time it has among those, sorts before the last of them. -/
theorem reordered_eq_order_iff (window : Int64) (xs : List Order) (hu : Unambiguous xs) :
    let w := (newReorderer window).window
    reordered window xs = order xs ↔
      ∀ k, releaseAt w + k * released w ≤ xs.length →
        Safe xs (releaseAt w + k * released w) ((k + 1) * released w) := by
  intro w
  obtain ⟨base, hb⟩ := hu.exists_base
  exact reordered_iff_safe window hu.distinct hb rfl

/-- Every order arrives at most `w` places away from its place in the replay. -/
def Near (w : Nat) (xs : List Order) : Prop :=
  ∀ i < xs.length, ∀ j < xs.length,
    (xs[i]?).map Order.wireID = ((order xs)[j]?).map Order.wireID → i ≤ j + w ∧ j ≤ i + w

instance (w : Nat) (xs : List Order) : Decidable (Near w xs) :=
  inferInstanceAs (Decidable (∀ i < xs.length, ∀ j < xs.length, _ → _))

/-- The second connection's orders arrive the wrong way round: the one behind, whose
own time is early, is released before the one in front has arrived. -/
def overtaking : List Order :=
  [{ orderID := "a", flow := ⟨1, 1⟩, tcpSeq := 1, t3Ns := 10 },
   { orderID := "b", flow := ⟨1, 1⟩, tcpSeq := 2, t3Ns := 50 },
   { orderID := "o", flow := ⟨1, 2⟩, tcpSeq := 2, t3Ns := 5 },
   { orderID := "q", flow := ⟨1, 2⟩, tcpSeq := 1, t3Ns := 100 }]

theorem unambiguous_of_small (hd : (xs.map wireID).Nodup)
    (hs : ∀ o ∈ xs, serialDist 0 o.tcpSeq < 2 ^ 31) : Unambiguous xs :=
  ⟨hd, fun _ => ⟨0, fun o ho _ => hs o ho⟩⟩

theorem reordered_overtaking :
    Unambiguous overtaking ∧ Near 1 overtaking ∧
    (reordered 1 overtaking).map orderID = ["a", "o", "b", "q"] ∧
    (order overtaking).map orderID = ["a", "b", "q", "o"] :=
  ⟨unambiguous_of_small (by decide) (by decide), by decide, by decide, by decide⟩

/-- The same orders, with the second connection's in their order. -/
def inTurn : List Order := overtaking.take 2 ++ (overtaking.drop 2).reverse

theorem reordered_eq_order_iff_inTurn :
    (∀ k, releaseAt 1 + k * released 1 ≤ inTurn.length →
      Safe inTurn (releaseAt 1 + k * released 1) ((k + 1) * released 1)) ∧
    ¬ ∀ k, releaseAt 1 + k * released 1 ≤ overtaking.length →
      Safe overtaking (releaseAt 1 + k * released 1) ((k + 1) * released 1) := by
  have heq : reordered 1 inTurn = order inTurn := by decide
  have hne : reordered 1 overtaking ≠ order overtaking := by decide
  refine ⟨(reordered_eq_order_iff 1 inTurn
    (unambiguous_of_small (by decide) (by decide))).mp heq, fun h => hne ?_⟩
  exact (reordered_eq_order_iff 1 overtaking (unambiguous_of_small (by decide) (by decide))).mpr h

/-! ### Connections in order -/

theorem stamp_take_of_inOrder
    (hin : xs.Pairwise (fun a b => a.flow = b.flow → seqLess a.tcpSeq b.tcpSeq = true)) {i : Nat}
    (ho : o ∈ xs.take i) : stamp (xs.take i) o = stamp xs o := by
  rw [stamp, stamp]
  congr 1
  refine time_ext (fun t => ?_)
  rw [eff_le_iff, eff_le_iff]
  refine and_congr_right (fun _ => ⟨fun h x hx hu => ?_, fun h x hx hu => ?_⟩)
  · rw [← take_append_drop i xs] at hx hin
    rcases mem_append.mp hx with hx | hx
    · exact h x hx hu
    obtain ⟨hf, hs⟩ : x.flow = o.flow ∧ seqLess o.tcpSeq x.tcpSeq = false := by
      simpa [upto] using hu
    exact absurd ((pairwise_append.mp hin).2.2 o ho x hx hf.symm) (by simp [hs])
  · exact h x (mem_of_mem_take hx) hu

theorem releaseAt_eq {w : Int64} (h0 : 0 < w.toInt) (h : w.toInt < 2 ^ 62) :
    releaseAt w = 2 * w.toInt.toNat := by
  have h2 : (2 * w).toInt = 2 * w.toInt := by
    rw [Int64.toInt_mul, show (2 : Int64).toInt = 2 by decide, Int.bmod_def]
    split <;> omega
  rw [releaseAt, h2]
  omega

/-- **With each connection in order, the promise holds**: orders that arrive in the
order of their connection, at most the window away from their places, are emitted
in the replay order. -/
theorem reordered_of_inOrder (xs : List Order) (hu : Unambiguous xs)
    (hin : xs.Pairwise (fun a b => a.flow = b.flow → seqLess a.tcpSeq b.tcpSeq = true))
    (hmax : (newReorderer window).window.toInt < 2 ^ 62)
    (hnear : Near (newReorderer window).window.toInt.toNat xs) :
    reordered window xs = order xs := by
  obtain ⟨base, hb⟩ := hu.exists_base
  have hd := hu.distinct
  have hpos := window_pos window
  refine (reordered_iff_safe window hd hb rfl).mpr (fun k hk => ?_)
  generalize (newReorderer window).window = w at hmax hnear hpos hk ⊢
  have hrel : released w = w.toInt.toNat := by
    rw [released, releaseAt_eq hpos hmax]
    omega
  rw [releaseAt_eq hpos hmax, hrel] at hk ⊢
  have hn : 0 < w.toInt.toNat := by omega
  generalize w.toInt.toNat = n at hnear hk hn ⊢
  have hlen : (order xs).length = xs.length := by
    rw [(perm_order hd hb).length_eq, length_map]
  have hm : (k + 1) * n = k * n + n := Nat.succ_mul k n
  refine ⟨fun c hc => ?_, fun o ho hno c hc => ?_⟩
  · -- an order of the first places was at most `n` places behind its own
    obtain ⟨j, hj, rfl⟩ := mem_take_iff_getElem.mp hc
    obtain ⟨x, hx, hxc⟩ := (mem_order hd hb).mp (mem_of_mem_take hc)
    obtain ⟨i, hi, rfl⟩ := getElem_of_mem hx
    have hij := (hnear i hi j (by omega) (by
      rw [getElem?_eq_getElem hi, getElem?_eq_getElem (by omega), ← hxc]
      rfl)).1
    refine ⟨xs[i], mem_take_iff_getElem.mpr ⟨i, by omega, rfl⟩, ?_⟩
    rw [← hxc]
    rfl
  · rw [stamp_take_of_inOrder hin ho]
    have hmem := (mem_order hd hb).mpr ⟨o, mem_of_mem_take ho, rfl⟩
    have hsort := pairwise_order hd hb
    rw [← take_append_drop ((k + 1) * n) (order xs)] at hmem hsort
    have hct : c ∈ (order xs).take ((k + 1) * n) :=
      mem_of_getElem? (i := (k + 1) * n - 1) (by rw [getElem?_take_of_lt (by omega), hc])
    rcases mem_append.mp hmem with h1 | h1
    · exact (hno (stamp xs o) h1 rfl).elim
    · exact (pairwise_append.mp hsort).2.2 c hct _ h1

theorem reordered_of_inOrder_inTurn : Near 1 inTurn ∧ reordered 1 inTurn = order inTurn :=
  ⟨by decide, reordered_of_inOrder 1 inTurn (unambiguous_of_small (by decide) (by decide))
    (by decide) (by decide) (by decide)⟩

end Reorderer

end MatchBench.Source
