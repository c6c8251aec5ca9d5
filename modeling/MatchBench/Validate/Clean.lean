import MatchBench.Validate.Perfect

/-!
# What a clean order has reported

The validator keeps the set of prices and the total quantity of an order's
reference fills, so this is what a clean order has reported right: every fill at
one of those prices, and the total.  `clean_agrees` says so for every session;
with one reference price the totals at each price agree as well.  The totals are
sums in `uint64`, as the running total of `scoreOrder` is.

Which price got which quantity is not compared.  `swappedSession` is a clean
session that swaps the quantities of two prices.
-/

namespace MatchBench.Validate

open List
open Book (Engine Fill)
open Book.Engine (Session Ledger)

/-! ### Dirty orders -/

namespace Report

@[simp] theorem dirtyByOrder_markDirty (r : Report) (id : String) :
    (r.markDirty id).dirtyByOrder = insert id r.dirtyByOrder := by
  rw [markDirty]
  split
  next h =>
    exact (Finset.insert_eq_of_mem h).symm
  · rfl

@[simp] theorem dirtyByOrder_add (r : Report) (t : ViolationType) (id : String) (qty : UInt64)
    (price : Int64) (detail : String) :
    (r.add t id qty price detail).dirtyByOrder = insert id r.dirtyByOrder := by
  rw [add]
  split <;> exact dirtyByOrder_markDirty _ _

end Report

theorem Flag.count_keeps (f : Flag) (r : Report) :
    (f.count r).dirtyByOrder = r.dirtyByOrder ∧ (f.count r).dirtyOrders = r.dirtyOrders ∧
      (f.count r).totalViolations = r.totalViolations ∧
      (f.count r).scoredOrders = r.scoredOrders ∧ (f.count r).validFills = r.validFills ∧
      r.totalFills ≤ (f.count r).totalFills := by
  cases f with
  | overfill | selfTrade | price => exact ⟨rfl, rfl, rfl, rfl, rfl, Nat.le_succ _⟩
  | jump loss => cases loss <;> exact ⟨rfl, rfl, rfl, rfl, rfl, Nat.le_succ _⟩
  | missed => exact ⟨rfl, rfl, rfl, rfl, rfl, le_rfl⟩
  | lost kind =>
    rw [count]
    split_ifs <;> exact ⟨rfl, rfl, rfl, rfl, rfl, le_rfl⟩

namespace Report

variable {r r' : Report} {o : Order} {ref : Option OrderRef} {total : UInt64} {price : Int64}

theorem Flags.dirtyByOrder {id : String} {f : Flag} (h : r.Flags id f r') :
    r'.dirtyByOrder = insert id r.dirtyByOrder := by
  obtain ⟨t, qty, price, detail, rfl⟩ := h
  rw [dirtyByOrder_add, (f.count_keeps r).1]

theorem Judged.kept (h : r.Judged o ref total price r') : r.dirtyByOrder ⊆ r'.dirtyByOrder := by
  cases h with
  | overfill hover hflags | unexplained hwithin hne hflags =>
    rw [hflags.dirtyByOrder]
    exact Finset.subset_insert _ _
  | valid hwithin hk hp hq => exact Finset.Subset.refl _

theorem Judged.clean (h : r.Judged o ref total price r') (hn : o.orderID ∉ r'.dirtyByOrder) :
    ∃ k, ref = some k ∧ price ∈ k.prices ∧ total ≤ k.qty := by
  cases h with
  | overfill hover hflags | unexplained hwithin hne hflags =>
    rw [hflags.dirtyByOrder] at hn
    exact absurd (Finset.mem_insert_self _ _) hn
  | valid hwithin hk hp hq => exact ⟨_, hk, hp, hq⟩

end Report

namespace StreamValidator

variable (it : Nat → Range)

/-- **The responses of an order**: the running total is the sum of the claims,
marks are never taken back, and without a mark every claim is at a reference
price and the total ends within the reference. -/
theorem foldl_scoreResponse_clean (o : Order) (r : Option OrderRef) :
    ∀ (rs : List Response) (v : StreamValidator) (cum : UInt64),
      (rs.foldl (scoreResponse it o r) (v, cum)).2 = ((claims rs).map Prod.snd).foldl (· + ·) cum ∧
        v.rep.dirtyByOrder ⊆ (rs.foldl (scoreResponse it o r) (v, cum)).1.rep.dirtyByOrder ∧
        (o.orderID ∉ (rs.foldl (scoreResponse it o r) (v, cum)).1.rep.dirtyByOrder →
          (∀ c ∈ claims rs, ∃ k, r = some k ∧ c.1 ∈ k.prices) ∧
          (claims rs ≠ [] → ∃ k, r = some k ∧
            (rs.foldl (scoreResponse it o r) (v, cum)).2 ≤ k.qty)) := by
  intro rs
  induction rs with
  | nil =>
    intro v cum
    exact ⟨rfl, Finset.Subset.refl _, fun _ => ⟨by simp [claims], fun h => absurd rfl h⟩⟩
  | cons resp rs ih =>
    intro v cum
    rw [foldl_cons]
    by_cases hf : isFill resp.execType resp.fillQty = true
    · obtain ⟨rep, n, hjudged, heq⟩ := scoreResponse_fill it o r v cum hf
      obtain ⟨h1, h2, h3⟩ := ih { v with rep := rep, ranges := n } (cum + resp.fillQty)
      rw [claims_cons_of_pos hf, map_cons, foldl_cons, heq]
      refine ⟨h1, hjudged.kept.trans h2, fun hn => ?_⟩
      obtain ⟨h4, h5⟩ := h3 hn
      obtain ⟨k, hk, hp, hq⟩ := hjudged.clean fun hd => hn (h2 hd)
      refine ⟨fun c hc => ?_, fun _ => ?_⟩
      · rcases mem_cons.mp hc with rfl | hc
        · exact ⟨k, hk, hp⟩
        · exact h4 c hc
      by_cases hrs : claims rs = []
      · rw [h1, hrs]
        exact ⟨k, hk, hq⟩
      · exact h5 hrs
    · rw [claims_cons_of_neg hf, scoreResponse, if_neg hf]
      exact ih v cum

theorem dirtyByOrder_scoreOrder (v : StreamValidator) (o : Order) (r : Option OrderRef) :
    v.rep.dirtyByOrder ⊆ (v.scoreOrder it o r).1.rep.dirtyByOrder := by
  refine scoreOrder_induction it (P := fun rep => v.rep.dirtyByOrder ⊆ rep.dirtyByOrder)
    (fun rep rep' total price h hj => h.trans hj.kept) (fun rep rep' h hf => h.trans ?_)
    (Finset.Subset.refl _)
  rw [hf.dirtyByOrder]
  exact Finset.subset_insert _ _

variable {v : StreamValidator} {o : Order}

theorem scoreOrder_clean_none
    (h : o.orderID ∉ (v.scoreOrder it o none).1.rep.dirtyByOrder) : claims o.responses = [] := by
  obtain ⟨-, -, h3⟩ := foldl_scoreResponse_clean it o none o.responses v 0
  by_contra hne
  obtain ⟨c, hc⟩ := exists_mem_of_ne_nil _ hne
  obtain ⟨k, hk, -⟩ := (h3 h).1 c hc
  simp at hk

/-- **An order scored without a mark** claims fills at the reference prices, and
in total what the reference filled. -/
theorem scoreOrder_clean_some {r : OrderRef}
    (h : o.orderID ∉ (v.scoreOrder it o (some r)).1.rep.dirtyByOrder) :
    (∀ c ∈ claims o.responses, c.1 ∈ r.prices) ∧
      total ((claims o.responses).map Prod.snd) = r.qty := by
  obtain ⟨h1, -, h3⟩ := foldl_scoreResponse_clean it o (some r) o.responses v 0
  rw [scoreOrder] at h
  dsimp only at h
  by_cases hlt : (o.responses.foldl (scoreResponse it o (some r)) (v, 0)).2 < r.qty
  · rw [if_pos hlt, Report.dirtyByOrder_add] at h
    exact absurd (Finset.mem_insert_self _ _) h
  rw [if_neg hlt] at h
  obtain ⟨h4, h5⟩ := h3 h
  refine ⟨fun c hc => ?_, ?_⟩
  · obtain ⟨k, hk, hp⟩ := h4 c hc
    rw [Option.some.inj hk]
    exact hp
  rw [h1] at hlt h5
  rw [total]
  refine UInt64.le_antisymm ?_ (UInt64.not_lt.mp hlt)
  by_cases hnil : claims o.responses = []
  · rw [hnil]
    exact UInt64.le_iff_toNat_le.mpr (Nat.zero_le _)
  · obtain ⟨k, hk, hq⟩ := h5 hnil
    rw [Option.some.inj hk]
    exact hq

end StreamValidator

/-! ### The session -/

open StreamValidator

/-- The claims are at prices of the fills, and the totals are equal. -/
def Agrees (cs fs : List (Int64 × UInt64)) : Prop :=
  (∀ c ∈ cs, ∃ f ∈ fs, f.1 = c.1) ∧ total (cs.map Prod.snd) = total (fs.map Prod.snd)

variable {v : StreamValidator} {o : Order}

theorem agrees_of_scoreOrder (it : Nat → Range) {fs : List Fill}
    (h : o.orderID ∉ (v.scoreOrder it o (refOf fs o.orderID)).1.rep.dirtyByOrder) :
    Agrees (reported o) (filledUnder fs o.orderID) := by
  rw [refOf_eq] at h
  by_cases hnil : fs.filter (fun f => f.orderID = o.orderID) = []
  · rw [if_pos hnil] at h
    rw [reported, scoreOrder_clean_none it h, filledUnder_eq_nil.mpr hnil]
    exact ⟨by simp, rfl⟩
  rw [if_neg hnil] at h
  obtain ⟨h1, h2⟩ := scoreOrder_clean_some it h
  refine ⟨fun c hc => ?_, ?_⟩
  · obtain ⟨f, hf, hp⟩ := mem_map.mp (mem_toFinset.mp (h1 c hc))
    exact ⟨(f.price, f.qty), mem_map.mpr ⟨f, hf, rfl⟩, hp⟩
  · rw [reported, h2, filledUnder, map_map]
    rfl

theorem clean_scored (it : Nat → Range) {os : List Order} (hs : Session os) (hv : SameState (run it os) v) (hr : v.rep = (run it os).rep)
    {rest : List Order} (hrest : rest.Perm (run it os).pendingOrders) (ho : o ∈ os)
    (hc : o.orderID ∉ (v.scored it rest).rep.dirtyByOrder) :
    Agrees (reported o) (filledUnder (Engine.run os).fills o.orderID) := by
  have hl := Ledger.run os hs
  obtain ⟨hI, hp⟩ := scored_induction it hs
    (fun ps p r => ∀ id, (∃ a ∈ ps, a.orderID = id) → p.lookup id = none → id ∉ r.dirtyByOrder →
      ∀ o ∈ os, o.orderID = id → Agrees (reported o) (filledUnder (Engine.run os).fills o.orderID))
    (by simp)
    (by
      intro ps a p r hI id hid hp hd
      have hne : id ≠ a.orderID := by
        intro he
        rw [he, AList.lookup_insert] at hp
        simp at hp
      rw [AList.lookup_insert_ne hne] at hp
      obtain ⟨b, hb, hbid⟩ := hid
      rcases mem_append.mp hb with hb | hb
      · exact hI id ⟨b, hb, hbid⟩ hp hd
      · rw [mem_singleton.mp hb] at hbid
        exact absurd hbid.symm hne)
    (by
      intro ps w a ha hpa hI id hid hp hd b hb hbid
      by_cases he : id = a.orderID
      · obtain rfl := hl.eq_of_mem hb ha (hbid.trans he)
        rw [he] at hd
        exact agrees_of_scoreOrder it hd
      · rw [AList.lookup_erase_ne he] at hp
        exact hI id hid hp (fun hd' => hd (dirtyByOrder_scoreOrder it _ _ _ hd')) b hb hbid)
    hv hr hrest
  exact hI o.orderID ⟨o, ho, rfl⟩ (hp o ho) hc o ho rfl

/-- The total claimed or filled at a price. -/
def totalAt (p : Int64) (cs : List (Int64 × UInt64)) : UInt64 :=
  total ((cs.filter (fun c => c.1 = p)).map Prod.snd)

theorem totalAt_of_one_price {cs : List (Int64 × UInt64)} {p₀ : Int64} (h : ∀ c ∈ cs, c.1 = p₀)
    (p : Int64) : totalAt p cs = if p = p₀ then total (cs.map Prod.snd) else 0 := by
  rw [totalAt]
  by_cases hp : p = p₀
  · rw [if_pos hp, filter_eq_self.mpr (fun c hc => by simp [h c hc, hp])]
  · rw [if_neg hp, filter_eq_nil_iff.mpr (fun c hc => by simpa [h c hc] using fun he => hp he.symm)]
    rfl

/-- **A clean order has reported its reference prices and its reference total**;
with one reference price it has reported every fill at it. -/
theorem clean_agrees (it : Nat → Range) (os : List Order)
    (hd : os.Pairwise (fun a b => a.orderID ≠ b.orderID))
    (hn : ∀ o ∈ os, o.kind = .replace → o.orderID ≠ "") (o : Order) (ho : o ∈ os)
    (hc : o.orderID ∉ ((run it os).finish it).dirtyByOrder) :
    let fs := filledUnder (Engine.run os).fills o.orderID
    (∀ c ∈ reported o, ∃ f ∈ fs, f.1 = c.1) ∧
      total ((reported o).map Prod.snd) = total (fs.map Prod.snd) ∧
      ∀ p₀, (∀ f ∈ fs, f.1 = p₀) → ∀ p, totalAt p (reported o) = totalAt p fs := by
  have hs : Session os := ⟨hd, hn⟩
  obtain ⟨h1, h2⟩ := clean_scored it hs
    (v := { run it os with ranges := (run it os).ranges + 1 }) ⟨rfl, rfl, rfl, rfl, rfl⟩ rfl
    (perm_pendingOrders (it (run it os).ranges) (run it os)) ho hc
  intro fs
  refine ⟨h1, h2, fun p₀ hp₀ p => ?_⟩
  have hrep : ∀ c ∈ reported o, c.1 = p₀ := by
    intro c hcm
    obtain ⟨f, hf, hfc⟩ := h1 c hcm
    rw [← hfc]
    exact hp₀ f hf
  rw [totalAt_of_one_price hrep, totalAt_of_one_price hp₀, h2]

/-- The seller is filled 2 at 101 and 4 at 100, and reports 4 at 101 and 2 at 100. -/
def swappedSession : List Order :=
  [{ orderID := "b1", side := .buy, price := 101, qty := 2, responses := [⟨"2", 2, 101, 3⟩] },
   { orderID := "b2", side := .buy, price := 100, qty := 4, responses := [⟨"2", 4, 100, 4⟩] },
   { orderID := "s", side := .sell, price := 100, qty := 6,
     responses := [⟨"1", 4, 101, 5⟩, ⟨"2", 2, 100, 6⟩] }]

theorem clean_agrees_swappedSession :
    let s := swappedSession.get ⟨2, by decide⟩
    total ((reported s).map Prod.snd) =
      total ((filledUnder (Engine.run swappedSession).fills s.orderID).map Prod.snd) :=
  (clean_agrees (fun _ => Range.id) swappedSession (by decide) (by decide) _
    (get_mem _ _) (by decide +kernel)).2.1

theorem clean_swapped :
    let s := swappedSession.get ⟨2, by decide⟩
    swappedSession.Pairwise (fun a b => a.orderID ≠ b.orderID) ∧
    s.orderID ∉ ((run (fun _ => Range.id) swappedSession).finish (fun _ => Range.id)).dirtyByOrder ∧
    totalAt 101 (reported s) = 4 ∧
    totalAt 101 (filledUnder (Engine.run swappedSession).fills s.orderID) = 2 := by
  decide +kernel

end MatchBench.Validate
