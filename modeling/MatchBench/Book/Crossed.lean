import MatchBench.Book.Ledger

/-!
# Where the book may be crossed

A bid and an ask cross if the bid is not below the ask.  A limit order that arrives takes
every order that it crosses, so when its residual rests it crosses only orders that
self-match prevention kept from it (`sameSMP_of_crosses`).  A replace that moves an order
does not match it, so such an order may cross any other.  Nothing else puts an order into
the book or changes a price, so these are the only crossings: `run_crossed`.
-/

namespace MatchBench.Book

open List Engine

/-- The orders carry the same self-match-prevention id. -/
def SharesSMP (m n : RestingOrder) : Prop :=
  m.hasSMP = true ∧ n.hasSMP = true ∧ m.smpID = n.smpID

theorem SharesSMP.symm {m n : RestingOrder} (h : SharesSMP m n) : SharesSMP n m :=
  ⟨h.2.1, h.1, h.2.2.symm⟩

/-- Of two orders, the one that came later into the book. -/
def later (m n : RestingOrder) : RestingOrder := if m.seq < n.seq then n else m

/-- The order has its place in the book from a replace that changed the price or raised the
quantity of the order it found. -/
def EnteredByReplace (os : List Order) (m : RestingOrder) : Prop :=
  ∃ ps o qs ro, os = ps ++ o :: qs ∧ o.kind = .replace ∧
    (Engine.run ps).find o.origOrderID = some ro ∧ (o.price ≠ ro.price ∨ ro.remaining < o.qty) ∧
    (Engine.run ps).seq < m.seq ∧ m.seq ≤ (Engine.run (ps ++ [o])).seq

variable {os : List Order} {e : Engine} {m : RestingOrder} {o : Order} {e e' : Engine}

theorem EnteredByReplace.append (h : EnteredByReplace os m) (o : Order) :
    EnteredByReplace (os ++ [o]) m := by
  obtain ⟨ps, o', qs, ro, rfl, h⟩ := h
  exact ⟨ps, o', qs ++ [o], ro, by rw [append_assoc]; rfl, h⟩

/-! ### Matching is complete -/

theorem mem_allot_of_left_ne_zero : ∀ {ms : List RestingOrder} {rem : UInt64}, left rem ms ≠ 0 →
    ∀ m ∈ ms, ∃ q, (m, q) ∈ allot rem ms ∧ m.remaining - q = 0 := by
  intro ms
  induction ms with
  | nil => exact nofun
  | cons x xs ih =>
    intro rem h m hm
    have h0 : rem ≠ 0 := fun he => h (by rw [he, left_zero])
    rw [left] at h
    rw [allot, if_neg h0]
    rcases mem_cons.mp hm with rfl | hm
    · refine ⟨_, .head _, (sub_min_eq_zero rem m.remaining).resolve_left fun hz => h ?_⟩
      rw [hz, left_zero]
    · obtain ⟨q, hq, hz⟩ := ih h m hm
      exact ⟨q, mem_cons_of_mem _ hq, hz⟩

/-- **A residual crosses only what self-match prevention kept from it.** -/
theorem sameSMP_of_crosses (hw : e.WF) (hr : 0 < residual o (greedyTrades e o))
    {p : Int64} (hm : m ∈ (matched e o).fifo (oppositeSide o.side) p)
    (hc : crosses o.side o.price m.price = true) : sameSMP o m = true := by
  rw [(matched_spec hw o).fifo_opp, mem_filterMap] at hm
  obtain ⟨m₀, hm₀, hm⟩ := hm
  have hkept : m.price = m₀.price ∧ sameSMP o m = sameSMP o m₀ := by
    obtain ⟨q, rfl⟩ := eq_of_afterTrades hm
    exact ⟨rfl, rfl⟩
  rw [hkept.2]
  by_contra hn
  have hranked : m₀ ∈ ranked e o := by
    rw [ranked, mem_insertionSort, mem_filter]
    obtain ⟨l, hl, -, hml⟩ := mem_queueAt.mp hm₀
    refine ⟨mem_flatMap.mpr ⟨l, hl, hml⟩, ?_⟩
    rw [hkept.1] at hc
    simp [Bool.eq_false_of_not_eq_true hn, reaches, hc]
  have hleft : left o.qty (ranked e o) ≠ 0 := by
    rw [left_eq_residual o]
    exact UInt64.pos_iff_ne_zero.mp hr
  obtain ⟨q, hq, hz⟩ := mem_allot_of_left_ne_zero hleft m₀ hranked
  rcases afterTrades_greedy hw hm₀ with ⟨-, hx⟩ | ⟨q', hq', ha⟩
  · exact hx _ hq rfl
  have hnd : ((allot o.qty (ranked e o)).map (fun x => x.1.seq)).Nodup :=
    pairwise_map.mpr (allot_seq_pairwise hw o)
  have he := inj_on_of_nodup_map hnd hq hq' rfl
  rw [← (Prod.mk.inj he).2, if_pos hz, hm] at ha
  exact Option.some_ne_none _ ha

/-! ### What the calls keep -/

/-- Every order of `e'` is one of `e` in the same queue, up to its id and quantity. -/
def Descends (e e' : Engine) : Prop :=
  ∀ s p, ∀ m' ∈ e'.fifo s p, ∃ m ∈ e.fifo s p, ∃ q id, m' = { m with remaining := q, orderID := id }

theorem Descends.trans {e e' e'' : Engine} (h : Descends e e') (h' : Descends e' e'') :
    Descends e e'' := by
  intro s p m'' hm''
  obtain ⟨m', hm', _, _, rfl⟩ := h' s p m'' hm''
  obtain ⟨m, hm, _, _, rfl⟩ := h s p m' hm'
  exact ⟨m, hm, _, _, rfl⟩

theorem Descends.of_sameBook (h : Engine.SameBook e e') : Descends e e' :=
  fun s p m hm => ⟨m, h.fifo s p ▸ hm, m.remaining, m.orderID, rfl⟩

theorem descends_matched (hw : e.WF) (o : Order) : Descends e (matched e o) := by
  intro s p m' hm'
  by_cases hs : s = o.side
  · subst hs
    rw [fifo, (matched_spec hw o).tree_own] at hm'
    exact ⟨m', hm', m'.remaining, m'.orderID, rfl⟩
  obtain rfl := eq_oppositeSide hs
  rw [(matched_spec hw o).fifo_opp, mem_filterMap] at hm'
  obtain ⟨m, hm, hm'⟩ := hm'
  obtain ⟨q, rfl⟩ := eq_of_afterTrades hm'
  exact ⟨m, hm, q, m.orderID, rfl⟩

theorem descends_remove (e : Engine) (id : String) : Descends e (e.remove id) := by
  intro s p m' hm'
  refine ⟨m', ?_, m'.remaining, m'.orderID, rfl⟩
  cases hf : (e.index.lookup id).bind e.deref with
  | none =>
    rw [remove, hf] at hm'
    exact hm'
  | some ro =>
    rw [fifo_remove hf] at hm'
    split at hm'
    · exact eraseP_subset hm'
    · exact hm'

theorem descends_modify (e : Engine) (h : Handle) {f : RestingOrder → RestingOrder}
    (hf : ∀ x, ∃ q id, f x = { x with remaining := q, orderID := id }) :
    Descends e (e.modify h f) := by
  intro s p m' hm'
  rw [fifo_modify] at hm'
  split at hm'
  · obtain ⟨m, hm, rfl⟩ := mem_map.mp hm'
    refine ⟨m, hm, ?_⟩
    split
    · exact hf m
    · exact ⟨m.remaining, m.orderID, rfl⟩
  · exact ⟨m', hm', m'.remaining, m'.orderID, rfl⟩

theorem descends_amended (e : Engine) (ro : RestingOrder) (q : UInt64) (id : String) :
    Descends e (e.amended ro q id) := by
  intro s p m' hm'
  rw [Engine.Ledger.fifo_amended] at hm'
  exact descends_modify e _ (fun _ => ⟨q, id, rfl⟩) s p m' hm'

/-- Of two orders that cross, in the order in which they came, the second entered by a
replace unless they share an id. -/
def CrossedByRules (os : List Order) (e : Engine) : Prop :=
  ∀ s p q, ∀ m ∈ e.fifo s p, ∀ n ∈ e.fifo (oppositeSide s) q,
    crosses s m.price n.price = true → m.seq < n.seq → SharesSMP m n ∨ EnteredByReplace os n

theorem CrossedByRules.descends (h : CrossedByRules os e) (hd : Descends e e')
    (o : Order) : CrossedByRules (os ++ [o]) e' := by
  intro s p q m hm n hn hc hlt
  obtain ⟨m₀, hm₀, _, _, rfl⟩ := hd s p m hm
  obtain ⟨n₀, hn₀, _, _, rfl⟩ := hd _ q n hn
  exact (h s p q m₀ hm₀ n₀ hn₀ hc hlt).imp id fun h => EnteredByReplace.append h o

theorem CrossedByRules.insert (h : CrossedByRules os e) (hw : e.WF) {rem : UInt64}
    (hnew : ∀ p, ∀ m ∈ e.fifo (oppositeSide o.side) p, crosses o.side o.price m.price = true →
      SharesSMP m (e.newResting o rem) ∨ EnteredByReplace os (e.newResting o rem)) :
    CrossedByRules os (e.insert o rem) := by
  intro s p q m hm n hn hc hlt
  rcases mem_fifo_insert hm with hm | ⟨-, -, rfl⟩
  · rcases mem_fifo_insert hn with hn | ⟨hs, -, rfl⟩
    · exact h s p q m hm n hn hc hlt
    have hs' : s = oppositeSide o.side := by
      cases s <;> cases ho : o.side <;> rw [ho] at hs <;> first | rfl | exact absurd hs (by decide)
    subst hs'
    refine hnew p m hm ?_
    rw [← hc]
    cases o.side <;> rfl
  -- The new order is the latest of all.
  have hle : n.seq ≤ e.seq + 1 := by
    rcases mem_fifo_insert hn with hn | ⟨-, -, rfl⟩
    · exact le_trans (hw.shape hn).2.2 (Nat.le_succ _)
    · exact le_rfl
  exact absurd hlt (Nat.not_lt.mpr hle)

theorem CrossedByRules.process (h : CrossedByRules os (run os)) (o : Order) :
    CrossedByRules (os ++ [o]) (run (os ++ [o])) := by
  have hw := Engine.WF.run os
  have hrun := run_snoc os o
  have hstep := process_cases hw o
  rw [← hrun] at hstep
  generalize hnext : run (os ++ [o]) = e' at hstep ⊢
  cases hstep with
  | filled hk => exact h.descends (descends_matched hw o) o
  | rested hk hr =>
    refine (h.descends (descends_matched hw o) o).insert
      (hw.of_shrinks (shrinks_matched hw o)) fun p m hm hc => .inl ?_
    have hsame := sameSMP_of_crosses hw hr hm hc
    rw [sameSMP, Bool.and_eq_true, Bool.and_eq_true, beq_iff_eq] at hsame
    exact ⟨hsame.1.2, hsame.1.1, hsame.2⟩
  | cancelled hk => exact h.descends (descends_remove _ _) o
  | ignored hk hf => exact h.descends (.of_sameBook ⟨rfl, rfl, rfl, rfl⟩) o
  | kept ro hk hf hp hid =>
    exact h.descends (descends_modify _ _ (fun x => ⟨o.qty, x.orderID, rfl⟩)) o
  | amended ro hk hf hp hid hne => exact h.descends (descends_amended _ _ _ _) o
  | moved ro hk hf hp =>
    have hb := Engine.SameBook.reprice (run os) o ro
    have hd := (Descends.of_sameBook hb).trans (descends_remove _ o.origOrderID)
    have hshrinks := shrinks_remove ((run os).reprice o ro) o.origOrderID
    refine (h.descends hd o).insert ((hb.wf hw).of_shrinks hshrinks) fun p m hm hc => .inr ?_
    refine ⟨os, o, [], ro, rfl, hk, hf, ?_, ?_, ?_⟩
    · rw [InPlace, not_and_or] at hp
      exact hp.imp id UInt64.not_le.mp
    · exact Nat.lt_succ_of_le (hb.seq.ge.trans hshrinks.2)
    · rw [hnext]
      exact le_rfl

theorem CrossedByRules.run (os : List Order) : CrossedByRules os (Engine.run os) := by
  induction os using reverseRecOn with
  | nil =>
    intro s p q m hm
    rw [Engine.run, foldl_nil, Engine.fifo_newEngine] at hm
    cases hm
  | append_singleton os o ih => exact ih.process o

/-- **The book is crossed only where the rules allow it**: of a bid and an ask that cross,
after any calls, the later one entered by a replace, unless they share an id. -/
theorem run_crossed (os : List Order) (p q : Int64) (b a : RestingOrder)
    (hb : b ∈ (run os).fifo .buy p) (ha : a ∈ (run os).fifo .sell q)
    (hc : a.price ≤ b.price) : SharesSMP b a ∨ EnteredByReplace os (later b a) := by
  have hcross : crosses .buy b.price a.price = true ∧ crosses .sell a.price b.price = true :=
    ⟨decide_eq_true hc, decide_eq_true hc⟩
  rw [later]
  split
  next hlt =>
    exact CrossedByRules.run os .buy p q b hb a ha hcross.1 hlt
  next hlt =>
    have hne : a.seq ≠ b.seq := fun he =>
      Side.noConfusion ((Engine.WF.run os).unique ha hb he).1
    have hlt := lt_of_le_of_ne (Nat.not_lt.mp hlt) hne
    exact (CrossedByRules.run os .sell q p a ha b hb hcross.2 hlt).imp SharesSMP.symm id

/-- A bid, an ask above it that a replace brings below it, and a pair with one id. -/
def crossedBook : List Order :=
  [{ orderID := "a", side := .buy, price := 10, qty := 5, smpID := 7, hasSMPID := true },
   { orderID := "b", side := .sell, price := 12, qty := 5 },
   { orderID := "c", kind := .replace, origOrderID := "b", side := .sell, price := 9, qty := 5 },
   { orderID := "d", side := .sell, price := 9, qty := 1, smpID := 7, hasSMPID := true }]

theorem run_crossed_crossedBook : EnteredByReplace crossedBook ⟨"c", .sell, 9, 5, 3, 0, false⟩ :=
  (run_crossed crossedBook 10 9 ⟨"a", .buy, 10, 5, 1, 7, true⟩ ⟨"c", .sell, 9, 5, 3, 0, false⟩
    (by decide) (by decide) (by decide)).resolve_left (fun h => absurd h.2.1 (by decide))

end MatchBench.Book
