import MatchBench.Controller.Lease
import MatchBench.Lib.Trace

/-!
# Leases are exclusive and complete

The invariant of the allocator has two parts.  `Consistent` holds also inside a critical
section, between two grants: the partitions are accounted for, the queued waiters are the
blocked calls without a grant, in arrival order, and every grant in a channel is the lease
recorded for its session.  `HeadBlocked` holds when the lock is free.

A critical section that serves the queue is a run of `grantHead`, so each of the two is
proved for one round and `serveLoop_invariant` carries `Consistent` through the loop.
-/

namespace MatchBench.Controller

open List AList PartitionLeaseAllocator

namespace World

structure Consistent (w : World) : Prop where
  partitions : w.alloc.Partitions
  sorted : w.alloc.queue.Pairwise (fun p q => p.id < q.id)
  waiting : ∀ q ∈ w.alloc.queue, w.calls.lookup q.id = some ⟨q.sessionID, q.count, false⟩ ∧
    w.grants.lookup q.id = none ∧ q.sessionID ∉ w.alloc.leasedBy ∧ 0 < q.count
  blocked : ∀ id c, w.calls.lookup id = some c →
    (∃ q ∈ w.alloc.queue, q.id = id) ∨ ∃ parts, w.grants.lookup id = some parts
  called : ∀ id parts, w.grants.lookup id = some parts → ∃ c, w.calls.lookup id = some c ∧
    w.alloc.leasedBy.lookup c.sessionID = some parts ∧ (parts.length : Int) = c.count
  distinct : ∀ i j c d, w.calls.lookup i = some c → w.calls.lookup j = some d →
    c.sessionID = d.sessionID → i = j
  arrived : ∀ id c, w.calls.lookup id = some c → id < w.arrivals
  ordered : w.granted.Pairwise (· < ·)
  before : ∀ g ∈ w.granted, g < w.arrivals ∧ ∀ q ∈ w.alloc.queue, g < q.id
  accounted : ∀ id < w.arrivals, id ∈ w.granted ∨ id ∈ w.withdrawn ∨ ∃ q ∈ w.alloc.queue, q.id = id

theorem consistent_new (total : Int) : (new total).Consistent where
  partitions := by
    unfold PartitionLeaseAllocator.Partitions
    exact (append_nil _).symm ▸ Perm.refl _
  sorted := List.Pairwise.nil
  waiting := nofun
  blocked := fun _ _ h => nomatch h
  called := fun _ _ h => nomatch h
  distinct := fun _ _ _ _ h => nomatch h
  arrived := fun _ _ h => nomatch h
  ordered := List.Pairwise.nil
  before := nofun
  accounted := nofun

theorem acquiring_iff {w : World} {s : String} :
    w.Acquiring s ↔ ∃ id c, w.calls.lookup id = some c ∧ c.sessionID = s := by
  constructor
  · rintro ⟨⟨id, c⟩, hmem, hs⟩
    exact ⟨id, c, AList.mem_lookup_iff.mpr hmem, hs⟩
  · rintro ⟨id, c, hlook, hs⟩
    exact ⟨⟨id, c⟩, AList.mem_lookup_iff.mp hlook, hs⟩

/-! ### Serving the queue -/

section

variable {w : World} {it : Range} {head : LeaseWaiter} {rest : List LeaseWaiter}

/-- **One grant.**  The head's call gets its lease; the other queued sessions still hold
nothing, and the other leases stand. -/
theorem Consistent.grantHead (h : w.Consistent) (hq : w.alloc.queue = head :: rest)
    (hfit : head.count ≤ w.alloc.free.length) : (w.grantHead it head rest).Consistent := by
  have hhead : head ∈ w.alloc.queue := hq ▸ (.head _)
  have hrest : ∀ q ∈ rest, q ∈ w.alloc.queue := fun q hm => hq ▸ mem_cons_of_mem head hm
  obtain ⟨hcall, hnone, hnew, hpos⟩ := h.waiting head hhead
  have hsorted := pairwise_cons.mp (hq ▸ h.sorted)
  have hother : ∀ id c, id ≠ head.id → w.calls.lookup id = some c →
      c.sessionID ≠ head.sessionID := by
    intro id c hne hlook hs
    exact hne (h.distinct id head.id c _ hlook hcall hs)
  refine ⟨partitions_takeLocked hpos hnew h.partitions, hsorted.2,
    ?_, ?_, ?_, h.distinct, h.arrived, ?_, ?_, ?_⟩
  · intro q hm
    obtain ⟨hc, hg, hl, hp⟩ := h.waiting q (hrest q hm)
    have hne : q.id ≠ head.id := (hsorted.1 q hm).ne'
    refine ⟨hc, (lookup_insert_ne hne).trans hg, ?_, hp⟩
    intro hmem
    rcases (AList.mem_insert _).mp hmem with hs | hmem
    · exact hother q.id _ hne hc hs
    · exact hl hmem
  · intro id c hc
    by_cases hid : id = head.id
    · subst hid
      exact .inr ⟨_, lookup_insert _⟩
    rcases h.blocked id c hc with ⟨q, hm, rfl⟩ | ⟨parts, hg⟩
    · rw [hq, mem_cons] at hm
      exact .inl ⟨q, hm.resolve_left (fun he => hid (he ▸ rfl)), rfl⟩
    · exact .inr ⟨parts, (lookup_insert_ne hid).trans hg⟩
  · intro id parts hg
    by_cases hid : id = head.id
    · subst hid
      have hparts : some (w.alloc.takeLocked it head.sessionID head.count).1 = some parts :=
        (lookup_insert w.grants).symm.trans hg
      refine ⟨_, hcall, ?_, ?_⟩
      · exact lookup_takeLocked.trans hparts
      · rw [← Option.some.inj hparts]
        exact length_takeLocked hpos hfit
    · obtain ⟨c, hc, hl, hlen⟩ := h.called id parts ((lookup_insert_ne hid).symm.trans hg)
      have hs := hother id c hid hc
      exact ⟨c, hc, (lookup_takeLocked_ne hs).trans hl, hlen⟩
  · refine pairwise_append.mpr ⟨h.ordered, pairwise_singleton _ _, ?_⟩
    intro g hg i hi
    rw [mem_singleton.mp hi]
    exact (h.before g hg).2 head hhead
  · intro g hg
    rcases mem_append.mp hg with hg | hg
    · exact ⟨(h.before g hg).1, fun q hm => (h.before g hg).2 q (hrest q hm)⟩
    · rw [mem_singleton.mp hg]
      exact ⟨h.arrived head.id _ hcall, hsorted.1⟩
  intro id hlt
  rcases h.accounted id hlt with hg | hwd | ⟨q, hm, hid⟩
  · exact .inl (mem_append_left _ hg)
  · exact .inr (.inl hwd)
  rw [hq, mem_cons] at hm
  rcases hm with rfl | hm
  · exact .inl (mem_append_right _ (mem_singleton.mpr hid.symm))
  · exact .inr (.inr ⟨q, hm, hid⟩)

theorem serveLoop_invariant {P : World → Prop}
    (hgrant : ∀ w head rest, P w → w.alloc.queue = head :: rest →
      head.count ≤ w.alloc.free.length → P (w.grantHead it head rest)) :
    ∀ (queue : List LeaseWaiter) (w : World), w.alloc.queue = queue → P w →
      P (serveLoop it queue w) ∧ (serveLoop it queue w).alloc.HeadBlocked := by
  intro queue
  induction queue with
  | nil =>
    intro w hq hw
    refine ⟨hw, fun q hm => ?_⟩
    rw [serveLoop, hq] at hm
    cases hm
  | cons head rest ih =>
    intro w hq hw
    by_cases hlt : (w.alloc.free.length : Int) < head.count
    · rw [serveLoop, if_pos hlt]
      refine ⟨hw, fun q hm => ?_⟩
      rw [hq, head?_cons, Option.mem_some_iff] at hm
      exact hm ▸ hlt
    · rw [serveLoop, if_neg hlt]
      exact ih (w.grantHead it head rest) rfl (hgrant w head rest hw hq (not_lt.mp hlt))

theorem Consistent.serveQueueLocked (h : w.Consistent) (it : Range) :
    (w.serveQueueLocked it).Consistent ∧ (w.serveQueueLocked it).alloc.HeadBlocked :=
  serveLoop_invariant (fun _ _ _ hw hq hfit => hw.grantHead hq hfit) _ w rfl h

theorem lookup_serveQueueLocked {s : String} (hs : ∀ q ∈ w.alloc.queue, q.sessionID ≠ s) :
    (w.serveQueueLocked it).alloc.leasedBy.lookup s = w.alloc.leasedBy.lookup s := by
  have hgrant : ∀ (v : World) (head : LeaseWaiter) (rest : List LeaseWaiter),
      ((∀ q ∈ v.alloc.queue, q.sessionID ≠ s) ∧
        v.alloc.leasedBy.lookup s = w.alloc.leasedBy.lookup s) →
      v.alloc.queue = head :: rest → head.count ≤ v.alloc.free.length →
      (∀ q ∈ rest, q.sessionID ≠ s) ∧
        (v.grantHead it head rest).alloc.leasedBy.lookup s = w.alloc.leasedBy.lookup s := by
    rintro v head rest ⟨hne, hlook⟩ hq -
    rw [hq] at hne
    refine ⟨fun q hm => hne q (.tail head hm), ?_⟩
    have hhead : s ≠ head.sessionID := (hne head (.head _)).symm
    exact (lookup_takeLocked_ne hhead).trans hlook
  exact (serveLoop_invariant hgrant w.alloc.queue w rfl ⟨hs, rfl⟩).1.2

end

/-! ### The other changes of a critical section -/

section

variable {w : World} {it : Range} {sessionID : String} {count : Int} {parts : List Int} {id : Nat}

theorem Consistent.sessionID_ne (h : w.Consistent) (hnot : ¬ w.Acquiring sessionID) :
    ∀ q ∈ w.alloc.queue, q.sessionID ≠ sessionID :=
  fun q hm hs => hnot (acquiring_iff.mpr ⟨q.id, _, (h.waiting q hm).1, hs⟩)

theorem Consistent.putBack (h : w.Consistent) (hnot : ¬ w.Acquiring sessionID)
    (hlook : w.alloc.leasedBy.lookup sessionID = some parts) :
    Consistent { w with alloc := w.alloc.putBack sessionID parts } := by
  refine ⟨partitions_putBack hlook h.partitions, h.sorted, ?_, h.blocked,
    ?_, h.distinct, h.arrived, h.ordered, h.before, h.accounted⟩
  · intro q hm
    obtain ⟨hc, hg, hl, hp⟩ := h.waiting q hm
    exact ⟨hc, hg, fun hmem => hl (AList.mem_erase.mp hmem).2, hp⟩
  intro id parts hg
  obtain ⟨c, hc, hl, hlen⟩ := h.called id parts hg
  have hne : c.sessionID ≠ sessionID := fun hs => hnot (acquiring_iff.mpr ⟨id, c, hc, hs⟩)
  exact ⟨c, hc, (lookup_erase_ne hne).trans hl, hlen⟩

theorem Consistent.drop (h : w.Consistent) (hg : w.grants.lookup id = some parts) :
    Consistent { w with calls := w.calls.erase id, grants := w.grants.erase id } := by
  have hne : ∀ q ∈ w.alloc.queue, q.id ≠ id := by
    rintro q hm rfl
    exact nomatch (h.waiting q hm).2.1.symm.trans hg
  refine ⟨h.partitions, h.sorted, ?_, ?_, ?_, ?_, ?_, h.ordered, h.before, h.accounted⟩
  · intro q hm
    obtain ⟨hc, hg, hl, hp⟩ := h.waiting q hm
    exact ⟨(lookup_erase_ne (hne q hm)).trans hc, (lookup_erase_ne (hne q hm)).trans hg, hl, hp⟩
  · intro i c hc
    obtain ⟨hi, hc⟩ := lookup_erase_eq_some hc
    refine (h.blocked i c hc).imp_right ?_
    rintro ⟨ps, hps⟩
    exact ⟨ps, (lookup_erase_ne hi).trans hps⟩
  · intro i ps hps
    obtain ⟨hi, hps⟩ := lookup_erase_eq_some hps
    obtain ⟨c, hc, hl⟩ := h.called i ps hps
    exact ⟨c, (lookup_erase_ne hi).trans hc, hl⟩
  · intro i j c d hi hj
    exact h.distinct i j c d (lookup_erase_eq_some hi).2 (lookup_erase_eq_some hj).2
  · intro i c hc
    exact h.arrived i c (lookup_erase_eq_some hc).2

theorem Consistent.withdraw {q : LeaseWaiter} (h : w.Consistent) (hq : q ∈ w.alloc.queue) :
    Consistent { w with
      alloc := { w.alloc with queue := w.alloc.queue.eraseP (fun p => p.id == q.id) }
      calls := w.calls.erase q.id
      withdrawn := w.withdrawn ++ [q.id] } := by
  have hsub : ∀ p ∈ w.alloc.queue.eraseP (fun p => p.id == q.id), p ∈ w.alloc.queue :=
    fun p hp => mem_of_mem_eraseP hp
  have hkeep : ∀ p ∈ w.alloc.queue, p.id ≠ q.id →
      p ∈ w.alloc.queue.eraseP (fun p => p.id == q.id) := by
    intro p hp hne
    exact (mem_eraseP_of_neg (by simpa using hne)).mpr hp
  have hsorted : (w.alloc.queue.eraseP (fun p => p.id == q.id)).Pairwise (fun p r => p.id < r.id) :=
    h.sorted.sublist eraseP_sublist
  have hgone : ∀ p ∈ w.alloc.queue.eraseP (fun p => p.id == q.id), p.id ≠ q.id := by
    obtain ⟨r, l₁, l₂, hl₁, hr, hl, herase⟩ :=
      exists_of_eraseP (p := fun p => p.id == q.id) hq (beq_self_eq_true q.id)
    have hr : r.id = q.id := beq_iff_eq.mp hr
    intro p hp hpq
    rcases mem_append.mp (herase ▸ hp) with hp | hp
    · exact hl₁ p hp (beq_iff_eq.mpr hpq)
    · have hlt := (pairwise_cons.mp (pairwise_append.mp (hl ▸ h.sorted)).2.1).1 p hp
      omega
  refine ⟨h.partitions, hsorted, ?_, ?_, ?_, ?_, ?_, h.ordered, ?_, ?_⟩
  · intro p hp
    obtain ⟨hc, hrest⟩ := h.waiting p (hsub p hp)
    exact ⟨(lookup_erase_ne (hgone p hp)).trans hc, hrest⟩
  · intro i c hc
    obtain ⟨hi, hc⟩ := lookup_erase_eq_some hc
    refine (h.blocked i c hc).imp_left ?_
    rintro ⟨p, hp, rfl⟩
    exact ⟨p, hkeep p hp hi, rfl⟩
  · intro i ps hps
    have hi : i ≠ q.id := by
      rintro rfl
      exact nomatch (h.waiting q hq).2.1.symm.trans hps
    obtain ⟨c, hc, hl⟩ := h.called i ps hps
    exact ⟨c, (lookup_erase_ne hi).trans hc, hl⟩
  · intro i j c d hi hj
    exact h.distinct i j c d (lookup_erase_eq_some hi).2 (lookup_erase_eq_some hj).2
  · intro i c hc
    exact h.arrived i c (lookup_erase_eq_some hc).2
  · intro g hg
    exact ⟨(h.before g hg).1, fun p hp => (h.before g hg).2 p (hsub p hp)⟩
  intro i hlt
  rcases h.accounted i hlt with hg | hwd | ⟨p, hp, rfl⟩
  · exact .inl hg
  · exact .inr (.inl (mem_append_left _ hwd))
  · by_cases hi : p.id = q.id
    · exact .inr (.inl (mem_append_right _ (mem_singleton.mpr hi)))
    · exact .inr (.inr ⟨p, hkeep p hp hi, rfl⟩)

theorem Consistent.mark (h : w.Consistent) (hc : w.calls.lookup id = some ⟨sessionID, count, false⟩)
    (hnot : ∀ q ∈ w.alloc.queue, q.id ≠ id) :
    Consistent { w with calls := w.calls.insert id ⟨sessionID, count, true⟩ } := by
  have hold : ∀ i c, (w.calls.insert id ⟨sessionID, count, true⟩).lookup i = some c →
      ∃ d, w.calls.lookup i = some d ∧ d.sessionID = c.sessionID := by
    intro i c hi
    rcases lookup_insert_eq_some.mp hi with ⟨rfl, rfl⟩ | ⟨-, hi⟩
    · exact ⟨_, hc, rfl⟩
    · exact ⟨c, hi, rfl⟩
  refine ⟨h.partitions, h.sorted, ?_, ?_, ?_, ?_, ?_, h.ordered, h.before, h.accounted⟩
  · intro q hm
    obtain ⟨hq, hrest⟩ := h.waiting q hm
    exact ⟨(lookup_insert_ne (hnot q hm)).trans hq, hrest⟩
  · intro i c hi
    obtain ⟨d, hd, -⟩ := hold i c hi
    exact h.blocked i d hd
  · intro i parts hg
    obtain ⟨c, hci, hl⟩ := h.called i parts hg
    by_cases hid : i = id
    · subst hid
      obtain rfl : c = ⟨sessionID, count, false⟩ := Option.some.inj (hci.symm.trans hc)
      exact ⟨_, lookup_insert _, hl⟩
    · exact ⟨c, (lookup_insert_ne hid).trans hci, hl⟩
  · intro i j c d hi hj hs
    obtain ⟨c', hc', hcs⟩ := hold i c hi
    obtain ⟨d', hd', hds⟩ := hold j d hj
    exact h.distinct i j c' d' hc' hd' ((hcs.trans hs).trans hds.symm)
  · intro i c hi
    obtain ⟨d, hd, -⟩ := hold i c hi
    exact h.arrived i d hd

theorem Consistent.enqueue (h : w.Consistent) (hpos : 0 < count)
    (hnot : ¬ w.Acquiring sessionID) (hnew : sessionID ∉ w.alloc.leasedBy) :
    Consistent { w with
      alloc := { w.alloc with queue := w.alloc.queue ++ [⟨w.arrivals, sessionID, count⟩] }
      calls := w.calls.insert w.arrivals ⟨sessionID, count, false⟩
      arrivals := w.arrivals + 1 } := by
  have hlt : ∀ q ∈ w.alloc.queue, q.id < w.arrivals :=
    fun q hm => h.arrived q.id _ (h.waiting q hm).1
  have hfresh : w.grants.lookup w.arrivals = none := by
    cases hg : w.grants.lookup w.arrivals with
    | none => rfl
    | some parts =>
      obtain ⟨c, hc, -⟩ := h.called _ parts hg
      exact absurd (h.arrived _ c hc) (lt_irrefl _)
  have hold : ∀ i c, (w.calls.insert w.arrivals ⟨sessionID, count, false⟩).lookup i = some c →
      (i = w.arrivals ∧ c.sessionID = sessionID) ∨
        (w.calls.lookup i = some c ∧ c.sessionID ≠ sessionID) := by
    intro i c hi
    rcases lookup_insert_eq_some.mp hi with ⟨rfl, rfl⟩ | ⟨-, hc⟩
    · exact .inl ⟨rfl, rfl⟩
    · exact .inr ⟨hc, fun hs => hnot (acquiring_iff.mpr ⟨i, c, hc, hs⟩)⟩
  refine ⟨h.partitions, ?_, ?_, ?_, ?_, ?_, ?_, h.ordered, ?_, ?_⟩
  · refine pairwise_append.mpr ⟨h.sorted, pairwise_singleton _ _, ?_⟩
    intro q hm r hr
    rw [mem_singleton.mp hr]
    exact hlt q hm
  · intro q hm
    rcases mem_append.mp hm with hm | hm
    · obtain ⟨hc, hrest⟩ := h.waiting q hm
      exact ⟨(lookup_insert_ne (hlt q hm).ne).trans hc, hrest⟩
    · rw [mem_singleton.mp hm]
      exact ⟨lookup_insert _, hfresh, hnew, hpos⟩
  · intro i c hi
    rcases hold i c hi with ⟨rfl, -⟩ | ⟨hc, -⟩
    · exact .inl ⟨_, mem_append_right _ (.head _), rfl⟩
    · refine (h.blocked i c hc).imp_left ?_
      rintro ⟨q, hm, hq⟩
      exact ⟨q, mem_append_left _ hm, hq⟩
  · intro i parts hg
    obtain ⟨c, hc, hl⟩ := h.called i parts hg
    exact ⟨c, (lookup_insert_ne (h.arrived i c hc).ne).trans hc, hl⟩
  · intro i j c d hi hj hs
    rcases hold i c hi with ⟨rfl, hci⟩ | ⟨hc, hci⟩ <;>
      rcases hold j d hj with ⟨rfl, hdj⟩ | ⟨hd, hdj⟩
    · rfl
    · exact absurd (hs.symm.trans hci) hdj
    · exact absurd (hs.trans hdj) hci
    · exact h.distinct i j c d hc hd hs
  · intro i c hi
    rcases hold i c hi with ⟨rfl, -⟩ | ⟨hc, -⟩
    · exact Nat.lt_succ_self _
    · exact Nat.lt_succ_of_lt (h.arrived i c hc)
  · intro g hg
    obtain ⟨ha, hq⟩ := h.before g hg
    refine ⟨Nat.lt_succ_of_lt ha, fun q hm => ?_⟩
    rcases mem_append.mp hm with hm | hm
    · exact hq q hm
    · rw [mem_singleton.mp hm]
      exact ha
  intro i hi
  rcases Nat.lt_succ_iff_lt_or_eq.mp hi with hi | rfl
  · refine (h.accounted i hi).imp_right (Or.imp_right ?_)
    rintro ⟨q, hm, hq⟩
    exact ⟨q, mem_append_left _ hm, hq⟩
  · exact .inr (.inr ⟨_, mem_append_right _ (.head _), rfl⟩)

theorem Consistent.take (h : w.Consistent) (hpos : 0 < count)
    (hnot : ¬ w.Acquiring sessionID) (hnew : sessionID ∉ w.alloc.leasedBy)
    (hq : w.alloc.queue = []) :
    Consistent { w with
      alloc := (w.alloc.takeLocked it sessionID count).2
      arrivals := w.arrivals + 1
      granted := w.granted ++ [w.arrivals] } := by
  have hnone : ∀ q, q ∉ w.alloc.queue := fun q hm => absurd (hq ▸ hm) not_mem_nil
  refine ⟨partitions_takeLocked hpos hnew h.partitions, h.sorted,
    fun q hm => absurd hm (hnone q), h.blocked, ?_, h.distinct, ?_, ?_, ?_, ?_⟩
  · intro i parts hg
    obtain ⟨c, hc, hl, hlen⟩ := h.called i parts hg
    have hs : c.sessionID ≠ sessionID := fun hs => hnot (acquiring_iff.mpr ⟨i, c, hc, hs⟩)
    exact ⟨c, hc, (lookup_takeLocked_ne hs).trans hl, hlen⟩
  · intro i c hc
    exact Nat.lt_succ_of_lt (h.arrived i c hc)
  · refine pairwise_append.mpr ⟨h.ordered, pairwise_singleton _ _, ?_⟩
    intro g hg i hi
    rw [mem_singleton.mp hi]
    exact (h.before g hg).1
  · intro g hg
    refine ⟨?_, fun q hm => absurd hm (hnone q)⟩
    rcases mem_append.mp hg with hg | hg
    · exact Nat.lt_succ_of_lt (h.before g hg).1
    · rw [mem_singleton.mp hg]
      exact Nat.lt_succ_self _
  · intro i hi
    rcases Nat.lt_succ_iff_lt_or_eq.mp hi with hi | rfl
    · exact (h.accounted i hi).imp_left (fun hg => mem_append_left _ hg)
    · exact .inl (mem_append_right _ (mem_singleton_self _))

end

end World

/-! ### Every critical section -/

/-- What a call returns, compared with the allocator: a lease of `count` partitions that is
the one recorded for the session, or an error and no lease. -/
def Reply.Sound (r : Reply) (a : PartitionLeaseAllocator) : Prop :=
  match r.result with
  | .ok parts => a.leasedBy.lookup r.sessionID = some parts ∧ (parts.length : Int) = r.count
  | .error _ => r.sessionID ∉ a.leasedBy

namespace World

/-- The state a step leaves, and its reply. -/
structure Settles (p : World × Option Reply) : Prop where
  consistent : p.1.Consistent
  headBlocked : p.1.alloc.HeadBlocked
  sound : ∀ r ∈ p.2, r.Sound p.1.alloc

section

variable {w : World} {it : Range} {sessionID : String} {count : Int} {parts : List Int} {id : Nat}

theorem total_serveQueueLocked : (w.serveQueueLocked it).alloc.total = w.alloc.total :=
  (serveLoop_invariant (P := fun v => v.alloc.total = w.alloc.total)
    (fun _ _ _ hv _ _ => hv) w.alloc.queue w rfl rfl).1

theorem total_next (e : Event) : (w.next e).alloc.total = w.alloc.total := by
  cases e with
  | acquire it sessionID count =>
    unfold next step acquire
    dsimp only
    split_ifs <;> rfl
  | receive id =>
    unfold next step receive
    dsimp only
    split <;> rfl
  | cancel it id =>
    unfold next step cancel
    dsimp only
    split
    · split_ifs
      · exact total_serveQueueLocked
      · rfl
    · rfl
  | undo it id =>
    unfold next step undo
    dsimp only
    split
    · exact total_serveQueueLocked
    · rfl
  | release it sessionID =>
    unfold next step release
    dsimp only
    split
    · rfl
    · exact total_serveQueueLocked

theorem Consistent.settles (h : w.Consistent) (hb : w.alloc.HeadBlocked) : Settles (w, none) :=
  ⟨h, hb, fun _ hr => nomatch hr⟩

theorem Consistent.settles_error {err : LeaseError} (h : w.Consistent) (hb : w.alloc.HeadBlocked)
    (hnew : sessionID ∉ w.alloc.leasedBy) :
    Settles (w, some ⟨sessionID, count, .error err⟩) := by
  refine ⟨h, hb, fun r hr => ?_⟩
  rw [← Option.some.inj hr]
  exact hnew

theorem Consistent.settles_served (h : w.Consistent) (hnot : ¬ w.Acquiring sessionID)
    (hnew : sessionID ∉ w.alloc.leasedBy) :
    Settles (w.serveQueueLocked it, some ⟨sessionID, count, .error .ctxErr⟩) := by
  obtain ⟨hc, hb⟩ := h.serveQueueLocked it
  refine hc.settles_error hb ?_
  rw [← lookup_eq_none, lookup_serveQueueLocked (h.sessionID_ne hnot)]
  exact AList.lookup_eq_none.mpr hnew

theorem not_mem_putBack {a : PartitionLeaseAllocator} :
    sessionID ∉ (a.putBack sessionID parts).leasedBy :=
  fun hm => (AList.mem_erase.mp hm).1 rfl

theorem Consistent.not_acquiring_erase (h : w.Consistent) {c : Call}
    (hc : w.calls.lookup id = some c) :
    ¬ ∃ e ∈ (w.calls.erase id).entries, e.2.sessionID = c.sessionID := by
  rintro ⟨⟨i, d⟩, hm, hs⟩
  obtain ⟨hi, hd⟩ := lookup_erase_eq_some (AList.mem_lookup_iff.mpr hm)
  exact hi (h.distinct i id d c hd hc hs)

theorem settles_acquire (h : w.Consistent) (hb : w.alloc.HeadBlocked)
    (hnot : ¬ w.Acquiring sessionID) (hnew : sessionID ∉ w.alloc.leasedBy) :
    Settles (w.acquire it sessionID count) := by
  unfold acquire
  split_ifs with hpos htotal hq
  · exact h.settles_error hb hnew
  · exact h.settles_error hb hnew
  · have hpos := not_le.mp hpos
    refine ⟨h.take hpos hnot hnew hq.1, ?_, fun r hr => ?_⟩
    · intro q hm
      have hm : q ∈ w.alloc.queue.head? := hm
      rw [hq.1] at hm
      cases hm
    · rw [← Option.some.inj hr]
      exact ⟨lookup_takeLocked, length_takeLocked hpos hq.2⟩
  refine (h.enqueue (not_le.mp hpos) hnot hnew).settles fun q hm => ?_
  have hm : q ∈ (w.alloc.queue ++ [(⟨w.arrivals, sessionID, count⟩ : LeaseWaiter)]).head? := hm
  cases hl : w.alloc.queue with
  | nil =>
    rw [hl, nil_append, head?_cons, Option.mem_some_iff] at hm
    have hlt : ¬ (w.alloc.free.length : Int) ≥ count := fun hge => hq ⟨hl, hge⟩
    exact hm ▸ not_le.mp hlt
  | cons p ps =>
    refine hb q ?_
    rw [hl] at hm ⊢
    exact hm

theorem settles_receive (h : w.Consistent) (hb : w.alloc.HeadBlocked) : Settles (w.receive id) := by
  unfold receive
  split
  next s n parts hc hg =>
    refine ⟨h.drop hg, hb, fun r hr => ?_⟩
    obtain ⟨c, hc', hl⟩ := h.called id parts hg
    obtain rfl := Option.some.inj (hc.symm.trans hc')
    rw [← Option.some.inj hr]
    exact hl
  · exact h.settles hb

theorem settles_cancel (h : w.Consistent) (hb : w.alloc.HeadBlocked) :
    Settles (w.cancel it id) := by
  unfold cancel
  split
  next s n hc =>
    split_ifs with hany
    · obtain ⟨q, hm, hid⟩ := any_eq_true.mp hany
      obtain rfl : q.id = id := beq_iff_eq.mp hid
      obtain ⟨hq, -, hl, -⟩ := h.waiting q hm
      have hs : q.sessionID = s := congrArg Call.sessionID (Option.some.inj (hq.symm.trans hc))
      exact (h.withdraw hm).settles_served (h.not_acquiring_erase hc) (hs ▸ hl)
    · refine (h.mark hc fun q hm hid => hany ?_).settles hb
      exact any_eq_true.mpr ⟨q, hm, beq_iff_eq.mpr hid⟩
  · exact h.settles hb

theorem settles_undo (h : w.Consistent) (hb : w.alloc.HeadBlocked) : Settles (w.undo it id) := by
  unfold undo
  split
  next s n parts hc hg =>
    obtain ⟨c, hc', hl, -⟩ := h.called id parts hg
    obtain rfl := Option.some.inj (hc.symm.trans hc')
    exact ((h.drop hg).putBack (h.not_acquiring_erase hc) hl).settles_served
      (h.not_acquiring_erase hc) not_mem_putBack
  · exact h.settles hb

theorem settles_release (h : w.Consistent) (hb : w.alloc.HeadBlocked)
    (hnot : ¬ w.Acquiring sessionID) : Settles (w.release it sessionID, none) := by
  unfold release
  split
  · exact h.settles hb
  next parts hl =>
    obtain ⟨hc, hb'⟩ := (h.putBack hnot hl).serveQueueLocked it
    exact hc.settles hb'

/-- **One step.**  Whatever the event, the state it leaves is consistent with its head
blocked, and what a call returns is right. -/
theorem Consistent.step (h : w.Consistent) (hb : w.alloc.HeadBlocked) {e : Event}
    (hok : w.OneAtATime e) : Settles (w.step e) := by
  cases e with
  | acquire it sessionID count => exact settles_acquire h hb hok.1 hok.2
  | receive id => exact settles_receive h hb
  | cancel it id => exact settles_cancel h hb
  | undo it id => exact settles_undo h hb
  | release it sessionID => exact settles_release h hb hok

end

end World

/-! ### Every run -/

/-- The grants were made in arrival order: a call that has its lease was preceded by each
call that came earlier, unless that one was cancelled in the queue. -/
def World.FirstComeFirstServed (w : World) : Prop :=
  w.granted.Pairwise (· < ·) ∧ ∀ j ∈ w.granted, ∀ i < j, i ∈ w.granted ∨ i ∈ w.withdrawn

theorem World.Consistent.firstComeFirstServed {w : World} (h : w.Consistent) :
    w.FirstComeFirstServed := by
  refine ⟨h.ordered, fun j hj i hij => ?_⟩
  rcases h.accounted i (hij.trans (h.before j hj).1) with hi | hi | ⟨q, hq, rfl⟩
  · exact .inl hi
  · exact .inr hi
  · exact absurd hij ((h.before j hj).2 q hq).asymm

theorem World.Consistent.undo_ready {w : World} (h : w.Consistent) {id : Nat} {c : Call}
    (hc : w.calls.lookup id = some c) (hcan : c.cancelled = true) :
    ∃ parts, w.grants.lookup id = some parts := by
  rcases h.blocked id c hc with ⟨q, hq, rfl⟩ | hg
  · have hwait := Option.some.inj ((h.waiting q hq).1.symm.trans hc)
    rw [← hwait] at hcan
    cases hcan
  · exact hg

/-- **Leases stay exclusive and complete.**  For every total and every run of critical
sections by sessions with one `Acquire` or lease at a time, the state is one where `free`
and the leases partition `[0, total)`, grants were made in arrival order and the head of
the queue does not fit; and whatever happens next, a call that returns has exactly the
lease it asked for, or none and an error. -/
theorem leases_partition (total : Int) (es : List Event)
    (hrun : Allows World.next World.OneAtATime (World.new total) es) :
    let w := es.foldl World.next (World.new total)
    (w.alloc.free ++ w.alloc.leased).Perm (partitions total) ∧
      w.alloc.HeadBlocked ∧ w.FirstComeFirstServed ∧
      (∀ id c, w.calls.lookup id = some c → c.cancelled = true →
        ∃ parts, w.grants.lookup id = some parts) ∧
      ∀ e, w.OneAtATime e → ∀ r ∈ (w.step e).2, r.Sound (w.step e).1.alloc := by
  intro w
  have hinv : (w.Consistent ∧ w.alloc.HeadBlocked) ∧ w.alloc.total = total := by
    refine hrun.invariant (P := fun w => (w.Consistent ∧ w.alloc.HeadBlocked) ∧
      w.alloc.total = total) ?_ ⟨⟨World.consistent_new total, fun q hm => nomatch hm⟩, rfl⟩
    rintro w e ⟨⟨hc, hb⟩, ht⟩ hok
    have hstep := hc.step hb hok
    exact ⟨⟨hstep.consistent, hstep.headBlocked⟩, (World.total_next e).trans ht⟩
  obtain ⟨⟨hc, hb⟩, ht⟩ := hinv
  refine ⟨ht ▸ hc.partitions, hb, hc.firstComeFirstServed, fun id c => hc.undo_ready, ?_⟩
  intro e hok r hr
  exact (hc.step hb hok).sound r hr

/-- Four sessions on two partitions: the second is granted when the first releases and is
cancelled before it receives, and the undo passes its partition on to the fourth. -/
def cancelledGrant : List Event :=
  [.acquire .id "a" 2, .acquire .id "b" 1, .acquire .id "c" 1, .acquire .id "d" 1,
    .release .id "a", .cancel .id 1, .receive 2, .undo .id 1, .receive 3]

theorem leases_partition_cancelledGrant :
    (Allows World.next World.OneAtATime (World.new 2) cancelledGrant ∧
      (cancelledGrant.foldl World.next (World.new 2)).granted = [0, 1, 2, 3] ∧
      (cancelledGrant.foldl World.next (World.new 2)).alloc.leasedBy.lookup "d" = some [1]) ∧
    ((cancelledGrant.foldl World.next (World.new 2)).alloc.free ++
      (cancelledGrant.foldl World.next (World.new 2)).alloc.leased).Perm (partitions 2) :=
  ⟨by decide +kernel, (leases_partition 2 cancelledGrant (by decide +kernel)).1⟩

end MatchBench.Controller
