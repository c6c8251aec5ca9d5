import MatchBench.Book.Ledger

/-!
# The records do not feed back

`Process` writes fills, trades and evictions but never reads them, and the
per-order metadata (`repriced`, `seqByOrder`) decides nothing about the book.  So
two engines with the same book stay so, and the records of a call are the same
from both: `SameBook.process`.  The validator drains the records after every
call and forgets the metadata of finished orders; this is why it still follows
the run of an engine that does neither.
-/

namespace MatchBench.Book.Engine

/-- The same call from `e` to `f` and from `e'` to `f'`: equal books after it,
and equal new records. -/
structure SameStep (e e' f f' : Engine) : Prop where
  book : SameBook f f'
  fills : ∃ F, f.fills = e.fills ++ F ∧ f'.fills = e'.fills ++ F
  evicted : ∃ V, f.evicted = e.evicted ++ V ∧ f'.evicted = e'.evicted ++ V

variable {e e' : Engine}

theorem SameBook.setTree (h : SameBook e e') (s : Side) (t : Tree s) :
    SameBook (e.setTree s t) (e'.setTree s t) := by
  cases s
  · exact ⟨h.asks, rfl, h.index, h.seq⟩
  · exact ⟨rfl, h.bids, h.index, h.seq⟩

theorem SameBook.insert (h : SameBook e e') (o : Order) (rem : UInt64) :
    SameBook (e.insert o rem) (e'.insert o rem) := by
  have ht := fun t => h.setTree o.side t
  unfold Engine.insert
  rw [h.tree, h.seq, h.index]
  exact ⟨(ht _).asks, (ht _).bids, rfl, rfl⟩

theorem SameBook.modify (h : SameBook e e') (k : Handle) (f : RestingOrder → RestingOrder) :
    SameBook (e.modify k f) (e'.modify k f) := by
  unfold Engine.modify
  rw [h.tree]
  split
  · exact h
  · exact h.setTree _ _

theorem SameBook.rename (h : SameBook e e') (k : Handle) (oldID newID : String) :
    SameBook (e.rename k oldID newID) (e'.rename k oldID newID) := by
  have hm := h.modify k (fun x => { x with orderID := newID })
  exact ⟨hm.asks, hm.bids, by simp only [Engine.rename, h.index], hm.seq⟩

theorem SameBook.deref (h : SameBook e e') (k : Handle) :
    e'.deref k = e.deref k := by rw [Engine.deref, h.tree, Engine.deref]

theorem SameBook.remove (h : SameBook e e') (id : String) :
    SameStep e e' (e.remove id) (e'.remove id) := by
  have hd : (e'.index.lookup id).bind e'.deref = (e.index.lookup id).bind e.deref := by
    rw [h.index, funext h.deref]
  unfold Engine.remove
  rw [hd]
  split
  · exact ⟨h, ⟨[], by simp, by simp⟩, ⟨[], by simp, by simp⟩⟩
  next ro _ =>
    have ht := h.setTree ro.side (unlink (e.tree ro.side) ro.price id)
    rw [h.tree, h.index]
    exact ⟨⟨ht.asks, ht.bids, rfl, ht.seq⟩, ⟨[], by simp, by simp⟩, ⟨[id], rfl, rfl⟩⟩

theorem SameBook.ranked (h : SameBook e e') (o : Order) :
    ranked e' o = ranked e o := by rw [Book.ranked, resting, h.tree, Book.ranked, resting]

theorem SameBook.matched (h : SameBook e e') (hw : e.WF) (o : Order) :
    SameStep e e' (matched e o) (matched e' o) := by
  have hm := matched_spec hw o
  have hm' := matched_spec (h.wf hw) o
  have htree : ∀ s, (Book.matched e' o).tree s = (Book.matched e o).tree s := by
    intro s
    by_cases hs : s = o.side
    · rw [hs, hm.tree_own, hm'.tree_own, h.tree]
    obtain rfl : s = oppositeSide o.side := by
      revert hs
      cases s <;> cases o.side <;> simp [oppositeSide]
    refine BTree.ext_mem (fun x => ?_)
    rw [hm.items_opp, hm'.items_opp, h.tree]
  refine ⟨⟨htree .sell, htree .buy, ?_, ?_⟩, ⟨_, hm.fills, ?_⟩, ⟨_, hm.evicted, ?_⟩⟩
  · rw [hm.index, hm'.index, h.ranked, h.index]
  · rw [hm.seq, hm'.seq, h.seq]
  · rw [hm'.fills, h.ranked]
  · rw [hm'.evicted, h.ranked]

theorem SameStep.insert {e e' f f' : Engine} (h : SameStep e e' f f') (o : Order) (rem : UInt64) :
    SameStep e e' (f.insert o rem) (f'.insert o rem) := by
  obtain ⟨hb, ⟨F, hF, hF'⟩, V, hV, hV'⟩ := h
  exact ⟨hb.insert o rem, ⟨F, (setTree_fills _ _ _).trans hF, (setTree_fills _ _ _).trans hF'⟩,
    V, (setTree_evicted _ _ _).trans hV, (setTree_evicted _ _ _).trans hV'⟩

theorem SameBook.matchAndRest (h : SameBook e e') (hw : e.WF) (o : Order) (rest : Bool) :
    SameStep e e' (e.matchAndRest o rest) (e'.matchAndRest o rest) := by
  have hg : greedyTrades e' o = greedyTrades e o := by rw [greedyTrades, h.ranked, greedyTrades]
  rw [matchAndRest_eq hw, matchAndRest_eq (h.wf hw), hg]
  split
  · exact (h.matched hw o).insert o _
  · exact h.matched hw o

theorem SameStep.of_records {e e' f f' : Engine} (h : SameBook f f') (h1 : f.fills = e.fills)
    (h2 : f'.fills = e'.fills) (h3 : f.evicted = e.evicted) (h4 : f'.evicted = e'.evicted) :
    SameStep e e' f f' :=
  ⟨h, ⟨[], by rw [h1, List.append_nil], by rw [h2, List.append_nil]⟩,
    ⟨[], by rw [h3, List.append_nil], by rw [h4, List.append_nil]⟩⟩

theorem SameBook.replace (h : SameBook e e') (o : Order) :
    SameStep e e' (e.replace o) (e'.replace o) := by
  unfold Engine.replace
  rw [h.index]
  split
  · exact SameStep.of_records h rfl rfl rfl rfl
  rename_i k _
  rw [h.deref]
  split
  · exact SameStep.of_records h rfl rfl rfl rfl
  rename_i ro _
  have hm := h.modify k (fun x => { x with remaining := o.qty })
  split
  · dsimp only
    split
    · exact SameStep.of_records (hm.rename k _ _) (by simp [Engine.rename])
        (by simp [Engine.rename]) (by simp [Engine.rename]) (by simp [Engine.rename])
    · exact SameStep.of_records hm (by simp) (by simp) (by simp) (by simp)
  dsimp only
  refine SameStep.insert ?_ _ _
  split
  · have hr : SameBook { e with repriced := e.repriced.insert (orReplaceID o) true }
        { e' with
          index := e.index
          repriced := e'.repriced.insert (orReplaceID o) true } :=
      ⟨h.asks, h.bids, rfl, h.seq⟩
    have := hr.remove o.origOrderID
    exact ⟨this.book, this.fills, this.evicted⟩
  · exact h.remove o.origOrderID

/-- **The same call on the same book**: the same book after it and the same new
records. -/
theorem SameBook.process (h : SameBook e e') (hw : e.WF) (o : Order) :
    SameStep e e' (e.process o) (e'.process o) := by
  unfold Engine.process
  split
  · exact h.matchAndRest hw o true
  · exact h.matchAndRest hw o false
  · exact h.remove _
  · exact h.replace o

theorem SameBook.drain (e : Engine) : SameBook e e.drain := ⟨rfl, rfl, rfl, rfl⟩

theorem SameBook.forget (e : Engine) (id : String) : SameBook e (e.forget id) :=
  ⟨rfl, rfl, rfl, rfl⟩

theorem SameBook.trans {e f g : Engine} (h : SameBook e f) (h' : SameBook f g) : SameBook e g :=
  ⟨h'.asks.trans h.asks, h'.bids.trans h.bids, h'.index.trans h.index, h'.seq.trans h.seq⟩

end MatchBench.Book.Engine
