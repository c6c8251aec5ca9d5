import MatchBench.Book.Refine

/-!
# What one call can do

A `Process` call takes one of seven ways through the engine.  `ProcessStep` names them with
what decides between them and with the engine that each leaves behind, written in the
operations of `Fifo.lean` and `Refine.lean`; `process_cases` says that there are no others.
What every run keeps is then proved way by way.
-/

namespace MatchBench.Book

/-- The order that a replace puts in the place of `ro`. -/
def replacement (o : Order) (ro : RestingOrder) : Order :=
  { orderID := orReplaceID o, side := o.side, price := o.price, smpID := ro.smpID,
    hasSMPID := ro.hasSMP }

namespace Engine

/-- The book after a replace that keeps the order in its place. -/
def amended (e : Engine) (ro : RestingOrder) (q : UInt64) (id : String) : Engine :=
  (e.modify ro.shape (fun x => { x with remaining := q })).rename ro.shape ro.orderID id

/-- A replace at another price is noted. -/
def reprice (e : Engine) (o : Order) (ro : RestingOrder) : Engine :=
  if o.price ≠ ro.price then { e with repriced := e.repriced.insert (orReplaceID o) true } else e

/-- The resting order that an id is indexed to. -/
def find (e : Engine) (id : String) : Option RestingOrder := (e.index.lookup id).bind e.deref

end Engine

namespace Engine

/-! ### What removal and a write through a pointer leave alone -/

theorem trades_remove (e : Engine) (id : String) : (e.remove id).trades = e.trades := by
  rw [remove]
  split
  · rfl
  · exact setTree_trades _ _ _

theorem seqByOrder_remove (e : Engine) (id : String) : (e.remove id).seqByOrder = e.seqByOrder := by
  rw [remove]
  split
  · rfl
  · exact setTree_seqByOrder _ _ _

theorem repriced_remove (e : Engine) (id : String) : (e.remove id).repriced = e.repriced := by
  rw [remove]
  split
  · rfl
  · exact setTree_repriced _ _ _

theorem trades_modify (e : Engine) (h : Handle) (f : RestingOrder → RestingOrder) :
    (e.modify h f).trades = e.trades := by
  rw [modify]
  split
  · rfl
  · exact setTree_trades _ _ _

theorem seqByOrder_modify (e : Engine) (h : Handle) (f : RestingOrder → RestingOrder) :
    (e.modify h f).seqByOrder = e.seqByOrder := by
  rw [modify]
  split
  · rfl
  · exact setTree_seqByOrder _ _ _

theorem repriced_modify (e : Engine) (h : Handle) (f : RestingOrder → RestingOrder) :
    (e.modify h f).repriced = e.repriced := by
  rw [modify]
  split
  · rfl
  · exact setTree_repriced _ _ _

end Engine

/-! ### The ways of a call -/

/-- A replace leaves the order in its place. -/
def InPlace (o : Order) (ro : RestingOrder) : Prop := o.price = ro.price ∧ o.qty ≤ ro.remaining
  deriving Decidable

open Engine

/-- The ways of a `Process` call. -/
inductive ProcessStep (e : Engine) (o : Order) : Engine → Prop
  | filled (hk : o.kind = .newMarket ∨ o.kind = .newLimit ∧ residual o (greedyTrades e o) = 0) :
      ProcessStep e o (matched e o)
  | rested (hk : o.kind = .newLimit) (hr : 0 < residual o (greedyTrades e o)) :
      ProcessStep e o ((matched e o).insert o (residual o (greedyTrades e o)))
  | cancelled (hk : o.kind = .cancel) : ProcessStep e o (e.remove o.origOrderID)
  | ignored (hk : o.kind = .replace) (hf : e.find o.origOrderID = none) : ProcessStep e o e
  | kept (ro : RestingOrder) (hk : o.kind = .replace) (hf : e.find o.origOrderID = some ro)
      (hp : InPlace o ro) (hid : o.orderID = "" ∨ o.orderID = ro.orderID) :
      ProcessStep e o (e.modify ro.shape (fun x => { x with remaining := o.qty }))
  | amended (ro : RestingOrder) (hk : o.kind = .replace) (hf : e.find o.origOrderID = some ro)
      (hp : InPlace o ro) (hid : o.orderID ≠ "") (hne : o.orderID ≠ ro.orderID) :
      ProcessStep e o (e.amended ro o.qty o.orderID)
  | moved (ro : RestingOrder) (hk : o.kind = .replace) (hf : e.find o.origOrderID = some ro)
      (hp : ¬ InPlace o ro) :
      ProcessStep e o (((e.reprice o ro).remove o.origOrderID).insert (replacement o ro) o.qty)

variable {e : Engine}

theorem Engine.shape_of_deref (hw : e.WF) {h : Handle} {ro : RestingOrder}
    (hd : e.deref h = some ro) : ro.shape = h := by
  obtain ⟨hm, hseq⟩ := mem_fifo_of_deref hd
  obtain ⟨hs, hp, -⟩ := hw.shape hm
  rw [RestingOrder.shape, hs, hp, hseq]

theorem Engine.mem_fifo_of_find (hw : e.WF) {id : String} {ro : RestingOrder}
    (h : e.find id = some ro) : ro ∈ e.fifo ro.side ro.price := by
  obtain ⟨k, -, hd⟩ := Option.bind_eq_some_iff.mp h
  have hm := (mem_fifo_of_deref hd).1
  rwa [← shape_of_deref hw hd] at hm

theorem replace_cases (hw : e.WF) {o : Order} (hk : o.kind = .replace) :
    ProcessStep e o (e.replace o) := by
  rw [Engine.replace]
  cases hi : e.index.lookup o.origOrderID with
  | none => exact .ignored hk (by rw [find, hi]; rfl)
  | some h =>
    dsimp only
    cases hd : e.deref h with
    | none => exact .ignored hk (by rw [find, hi]; exact hd)
    | some ro =>
      have hf : e.find o.origOrderID = some ro := by
        rw [find, hi]
        exact hd
      obtain rfl := shape_of_deref hw hd
      dsimp only
      split
      next hp =>
        split
        next hid =>
          exact .amended ro hk hf hp hid.1 hid.2
        next hid =>
          refine .kept ro hk hf hp ?_
          rwa [not_and_or, not_not, not_not] at hid
      next hp =>
        exact .moved ro hk hf hp

/-- **The ways of a call**, from a well-formed book. -/
theorem process_cases (hw : e.WF) (o : Order) : ProcessStep e o (e.process o) := by
  rw [Engine.process]
  cases hk : o.kind with
  | newLimit =>
    dsimp only
    rw [matchAndRest_eq hw]
    split
    next hr =>
      exact .rested hk hr.2.1
    next hr =>
      refine .filled (.inr ⟨hk, ?_⟩)
      by_contra hne
      exact hr ⟨rfl, UInt64.pos_iff_ne_zero.mpr hne, hk⟩
  | newMarket =>
    dsimp only
    rw [matchAndRest_eq hw, if_neg (fun h => Bool.false_ne_true h.1)]
    exact .filled (.inl hk)
  | cancel => exact .cancelled hk
  | replace => exact replace_cases hw hk

end MatchBench.Book
