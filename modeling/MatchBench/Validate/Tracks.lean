import MatchBench.Book.Frame
import MatchBench.Lib.Table
import MatchBench.Validate.Stream

/-!
# The validator follows the reference run

An order is scored when it leaves the book, against the reference fills seen so
far, and its reference is then dropped.  `fills_stable` is why that is enough:
an id that neither rests nor is still to come is never filled again.

`Tracks ps v` is the invariant of `Apply`: after the orders `ps` the validator's
engine has the book of `Engine.run ps`, the reference kept for a pending order is
the one of all fills of the run, and no order that is no longer pending rests.
`run_induction` is the rule the scoring theorems use: a property of the report
that survives feeding an order and scoring one order against its reference of the
whole session holds at the end, in whatever order the orders are scored.
-/

namespace MatchBench.Validate

open List AList
open Book (Engine Fill fillQty)
open Book.Engine (Session Ledger SameBook)

/-! ### Fills of a finished id -/

theorem fills_stable : ∀ (qs ps : List Order), Session (ps ++ qs) → ∀ a ∈ ps,
    ¬ (Engine.run ps).RestsID a.orderID →
      (Engine.run (ps ++ qs)).fills.filter (fun f => f.orderID = a.orderID) =
        (Engine.run ps).fills.filter (fun f => f.orderID = a.orderID) := by
  intro qs
  induction qs with
  | nil => intro ps _ a _ _; rw [append_nil]
  | cons o qs ih =>
    intro ps hs a ha hn
    rw [← singleton_append, ← append_assoc] at hs ⊢
    obtain ⟨hps, hf, hr⟩ := hs.left.snoc
    obtain ⟨-, he⟩ := Book.Engine.process_ledger (Ledger.run ps hps) o hf
      (Book.Engine.named_of_nonempty hr)
    obtain ⟨F, hF, hid⟩ := he.fills
    have hne : a.orderID ≠ o.orderID := hf a ha
    have hnil : F.filter (fun f => f.orderID = a.orderID) = [] := by
      refine filter_eq_nil_iff.mpr (fun f hfF => ?_)
      simp only [decide_eq_true_eq]
      intro hfa
      rcases hid f hfF with h | h
      · exact hne (hfa.symm.trans h)
      · exact hn (hfa ▸ h)
    have hrest : ¬ (Engine.run (ps ++ [o])).RestsID a.orderID := by
      rw [Book.Engine.run_snoc]
      intro h
      rcases he.rests h with h | h
      · exact hn h
      · exact hne h
    rw [ih (ps ++ [o]) hs a (by simp [ha]) hrest, Book.Engine.run_snoc, hF, filter_append,
      hnil, append_nil]

/-! ### References -/

/-- The reference of an id after the fills `fs`. -/
def refOf (fs : List Fill) (id : String) : Option OrderRef := (fs.foldl addRef ∅).lookup id

theorem lookup_addRef (ref : GoMap String OrderRef) (f : Fill) (id : String) :
    (addRef ref f).lookup id =
      if f.orderID = id then
        some ⟨((ref.lookup id).getD ⟨0, ∅⟩).qty + f.qty,
          insert f.price ((ref.lookup id).getD ⟨0, ∅⟩).prices⟩
      else ref.lookup id := by
  by_cases h : f.orderID = id
  · subst h
    rw [if_pos rfl, addRef, lookup_insert]
  · rw [if_neg h, addRef, lookup_insert_ne (Ne.symm h)]

variable {id : String}

theorem lookup_foldl_addRef : ∀ (fs : List Fill) {ref ref' : GoMap String OrderRef},
    ref.lookup id = ref'.lookup id →
      (fs.foldl addRef ref).lookup id = (fs.foldl addRef ref').lookup id := by
  intro fs
  induction fs with
  | nil => intro ref ref' h; exact h
  | cons f fs ih =>
    intro ref ref' h
    exact ih (by rw [lookup_addRef, lookup_addRef, h])

variable {fs gs : List Fill}

theorem refOf_append {ref : GoMap String OrderRef}
    (h : ref.lookup id = refOf fs id) : (gs.foldl addRef ref).lookup id = refOf (fs ++ gs) id := by
  rw [refOf, foldl_append]
  exact lookup_foldl_addRef gs h

theorem foldl_addRef_filter (id : String) : ∀ (fs : List Fill) (ref : GoMap String OrderRef),
    (fs.foldl addRef ref).lookup id =
      ((fs.filter (fun f => f.orderID = id)).foldl addRef ref).lookup id := by
  intro fs
  induction fs with
  | nil => intro ref; rfl
  | cons f fs ih =>
    intro ref
    by_cases h : f.orderID = id
    · rw [filter_cons_of_pos (by simpa using h), foldl_cons, foldl_cons, ih]
    · rw [filter_cons_of_neg (by simpa using h), foldl_cons, ih]
      refine lookup_foldl_addRef _ ?_
      rw [lookup_addRef, if_neg h]

theorem refOf_congr
    (h : fs.filter (fun f => f.orderID = id) = gs.filter (fun f => f.orderID = id)) :
    refOf fs id = refOf gs id := by
  rw [refOf, foldl_addRef_filter, h, ← foldl_addRef_filter, refOf]

/-- A sum of quantities, in the machine's arithmetic. -/
def total (qs : List UInt64) : UInt64 := qs.foldl (· + ·) 0

theorem foldl_add_toNat : ∀ (qs : List UInt64) (q : UInt64),
    (qs.foldl (· + ·) q).toNat = (q.toNat + (qs.map UInt64.toNat).sum) % 2 ^ 64 := by
  intro qs
  induction qs with
  | nil =>
    intro q
    have := q.toNat_lt
    simp only [foldl_nil, map_nil, sum_nil]
    omega
  | cons x xs ih =>
    intro q
    rw [foldl_cons, ih, UInt64.toNat_add, map_cons, sum_cons]
    omega

theorem total_toNat {qs : List UInt64} (h : (qs.map UInt64.toNat).sum < 2 ^ 64) :
    (total qs).toNat = (qs.map UInt64.toNat).sum := by
  rw [total, foldl_add_toNat, show (0 : UInt64).toNat = 0 from rfl, zero_add, Nat.mod_eq_of_lt h]

theorem lookup_foldl_addRef_of_some : ∀ (gs : List Fill)
    (_ : ∀ f ∈ gs, f.orderID = id) {ref : GoMap String OrderRef} {r : OrderRef},
    ref.lookup id = some r → (gs.foldl addRef ref).lookup id =
      some ⟨(gs.map Fill.qty).foldl (· + ·) r.qty, r.prices ∪ (gs.map Fill.price).toFinset⟩ := by
  intro gs
  induction gs with
  | nil => intro _ ref r h; simpa using h
  | cons f gs ih =>
    intro hid ref r h
    have hf : (addRef ref f).lookup id = some ⟨r.qty + f.qty, insert f.price r.prices⟩ := by
      rw [lookup_addRef, if_pos (hid f (by simp)), h]
      rfl
    rw [foldl_cons, ih (fun x hx => hid x (by simp [hx])) hf, map_cons, map_cons,
      foldl_cons, toFinset_cons]
    congr 2
    ext p
    simp

/-- **The reference of an id**: none without a fill, and otherwise the total and
the prices of its fills. -/
theorem refOf_eq (fs : List Fill) (id : String) :
    refOf fs id =
      if fs.filter (fun f => f.orderID = id) = [] then none
      else some
        ⟨total ((fs.filter (fun f => f.orderID = id)).map Fill.qty),
          ((fs.filter (fun f => f.orderID = id)).map Fill.price).toFinset⟩ := by
  have hid : ∀ f ∈ fs.filter (fun f => f.orderID = id), f.orderID = id := fun f hf => by
    simpa using (mem_filter.mp hf).2
  rw [refOf, foldl_addRef_filter]
  generalize fs.filter (fun f => f.orderID = id) = gs at hid
  cases gs with
  | nil => rfl
  | cons f gs =>
    have hf : (addRef ∅ f).lookup id = some ⟨0 + f.qty, insert f.price ∅⟩ := by
      rw [lookup_addRef, if_pos (hid f (by simp)), lookup_empty]
      rfl
    rw [if_neg (by simp), foldl_cons,
      lookup_foldl_addRef_of_some gs (fun x hx => hid x (by simp [hx])) hf, map_cons,
      map_cons, total, foldl_cons, toFinset_cons]
    congr 2

/-! ### Violations -/

/-- A class of violations, as it is counted; a jump of the queue may be the loss of a replaced
order. -/
inductive Flag
  | overfill
  | selfTrade
  | jump (loss : Bool)
  | price
  | missed
  | lost (kind : Kind)
  deriving DecidableEq

def Flag.count (r : Report) : Flag → Report
  | .overfill => { r with totalFills := r.totalFills + 1, overfills := r.overfills + 1 }
  | .selfTrade => { r with totalFills := r.totalFills + 1, selfTrades := r.selfTrades + 1 }
  | .jump false => { r with totalFills := r.totalFills + 1, timeViolations := r.timeViolations + 1 }
  | .jump true =>
      { r with
        totalFills := r.totalFills + 1
        timeViolations := r.timeViolations + 1
        cancelReplaceLosses := r.cancelReplaceLosses + 1 }
  | .price => { r with totalFills := r.totalFills + 1, priceViolations := r.priceViolations + 1 }
  | .missed => { r with missedFills := r.missedFills + 1 }
  | .lost kind =>
      if kind = .cancel then { r with lostCancels := r.lostCancels + 1 }
      else { r with lostOrders := r.lostOrders + 1 }

/-- The report with one more violation of the order. -/
def Report.Flags (r : Report) (id : String) (f : Flag) (r' : Report) : Prop :=
  ∃ t qty price detail, r' = (f.count r).add t id qty price detail

/-- What a fill does to the report when the running total is `total`: it is a violation, or it is
valid and within the reference. -/
inductive Report.Judged (rep : Report) (o : Order) (r : Option OrderRef) (total : UInt64)
    (price : Int64) : Report → Prop
  | overfill {rep' : Report} (hover : o.qty < total) (hflags : rep.Flags o.orderID .overfill rep') :
      Judged rep o r total price rep'
  | unexplained {rep' : Report} {f : Flag} (hwithin : ¬ o.qty < total) (hne : f ≠ .overfill)
      (hflags : rep.Flags o.orderID f rep') : Judged rep o r total price rep'
  | valid {k : OrderRef} (hwithin : ¬ o.qty < total) (hk : r = some k) (hp : price ∈ k.prices)
      (hq : total ≤ k.qty) :
      Judged rep o r total price
        { rep with totalFills := rep.totalFills + 1, validFills := rep.validFills + 1 }

namespace StreamValidator

variable (it : Nat → Range)

/-! ### Scoring touches the report only -/

/-- Equal up to the report and the count of map loops. -/
structure SameState (v w : StreamValidator) : Prop where
  engine : w.engine = v.engine
  pending : w.pending = v.pending
  ref : w.ref = v.ref
  shorted : w.shorted = v.shorted
  captureGaps : w.captureGaps = v.captureGaps

variable (v : StreamValidator) (o : Order) (r : Option OrderRef)

theorem SameState.refl : SameState v v := ⟨rfl, rfl, rfl, rfl, rfl⟩

theorem SameState.trans {u v w : StreamValidator} (h : SameState u v) (h' : SameState v w) :
    SameState u w :=
  ⟨h'.engine.trans h.engine, h'.pending.trans h.pending, h'.ref.trans h.ref,
    h'.shorted.trans h.shorted, h'.captureGaps.trans h.captureGaps⟩

theorem classifyUnexplained_flags (price : Int64) (qty : UInt64) (detail : String) :
    ∃ f rep n, f ≠ Flag.overfill ∧ v.rep.Flags o.orderID f rep ∧
      classifyUnexplained it { v with rep := { v.rep with totalFills := v.rep.totalFills + 1 } } o
        price qty detail = { v with rep := rep, ranges := n } := by
  unfold classifyUnexplained
  split
  · exact ⟨.selfTrade, _, _, Flag.noConfusion, ⟨_, _, _, _, rfl⟩, rfl⟩
  split
  · dsimp only
    rw [Report.flagJump]
    split_ifs
    · exact ⟨.jump true, _, _, Flag.noConfusion, ⟨_, _, _, _, rfl⟩, rfl⟩
    · exact ⟨.jump false, _, _, Flag.noConfusion, ⟨_, _, _, _, rfl⟩, rfl⟩
  · exact ⟨.price, _, _, Flag.noConfusion, ⟨_, _, _, _, rfl⟩, rfl⟩

/-- **A reported fill** joins the running total, and is judged by it. -/
theorem scoreResponse_fill (v : StreamValidator) (cum : UInt64) {resp : Response}
    (hf : isFill resp.execType resp.fillQty = true) :
    ∃ rep n, v.rep.Judged o r (cum + resp.fillQty) resp.fillPrice.toInt64 rep ∧
      scoreResponse it o r (v, cum) resp =
        ({ v with rep := rep, ranges := n }, cum + resp.fillQty) := by
  rw [scoreResponse, if_pos hf]
  by_cases h1 : o.qty < cum + resp.fillQty
  · rw [if_pos h1]
    exact ⟨_, _, .overfill h1 ⟨_, _, _, _, rfl⟩, rfl⟩
  have hclass : ∀ detail, ∃ rep n, v.rep.Judged o r (cum + resp.fillQty) resp.fillPrice.toInt64 rep ∧
      (classifyUnexplained it { v with rep := { v.rep with totalFills := v.rep.totalFills + 1 } } o
        resp.fillPrice.toInt64 resp.fillQty detail, cum + resp.fillQty) =
          (({ v with rep := rep, ranges := n } : StreamValidator), cum + resp.fillQty) := by
    intro detail
    obtain ⟨f, rep, n, hne, hflags, heq⟩ :=
      classifyUnexplained_flags it v o resp.fillPrice.toInt64 resp.fillQty detail
    exact ⟨rep, n, .unexplained h1 hne hflags, by rw [heq]⟩
  rw [if_neg h1]
  cases r with
  | none => exact hclass _
  | some k =>
    dsimp only
    by_cases h2 : resp.fillPrice.toInt64 ∉ k.prices
    · rw [if_pos h2]
      exact hclass _
    rw [if_neg h2]
    by_cases h3 : k.qty < cum + resp.fillQty
    · rw [if_pos h3]
      exact hclass _
    rw [if_neg h3]
    exact ⟨_, _, .valid h1 rfl (not_not.mp h2) (UInt64.not_lt.mp h3), rfl⟩

theorem sameState_scoreResponse (st : StreamValidator × UInt64) (resp : Response) :
    SameState st.1 (scoreResponse it o r st resp).1 := by
  by_cases hf : isFill resp.execType resp.fillQty = true
  · obtain ⟨rep, n, -, heq⟩ := scoreResponse_fill it o r st.1 st.2 hf
    rw [heq]
    exact ⟨rfl, rfl, rfl, rfl, rfl⟩
  · rw [scoreResponse, if_neg hf]
    exact SameState.refl _

theorem sameState_foldl_scoreResponse :
    ∀ (rs : List Response) (st : StreamValidator × UInt64),
      SameState st.1 (rs.foldl (scoreResponse it o r) st).1 := by
  intro rs
  induction rs with
  | nil => intro st; exact SameState.refl _
  | cons resp rs ih =>
    intro st
    exact (sameState_scoreResponse it o r st resp).trans (ih _)

theorem sameState_scoreOrder : SameState v (v.scoreOrder it o r).1 := by
  have h := sameState_foldl_scoreResponse it o r o.responses (v, 0)
  unfold scoreOrder
  dsimp only
  split
  · exact h
  · split
    · exact h.trans ⟨rfl, rfl, rfl, rfl, rfl⟩
    · exact h

variable {o : Order} {v : StreamValidator}

/-- **A property of the report that every fill and a missed fill keep** is kept by the score of an
order. -/
theorem scoreOrder_induction {P : Report → Prop} {r : Option OrderRef}
    (hjudged : ∀ rep rep' total price, P rep → rep.Judged o r total price rep' → P rep')
    (hmissed : ∀ rep rep', P rep → rep.Flags o.orderID .missed rep' → P rep') (h : P v.rep) : P (v.scoreOrder it o r).1.rep := by
  have hfold : ∀ (rs : List Response) (v : StreamValidator) (cum : UInt64), P v.rep →
      P (rs.foldl (scoreResponse it o r) (v, cum)).1.rep := by
    intro rs
    induction rs with
    | nil => exact fun v cum h => h
    | cons resp rs ih =>
      intro v cum h
      rw [foldl_cons]
      by_cases hf : isFill resp.execType resp.fillQty = true
      · obtain ⟨rep, n, hj, heq⟩ := scoreResponse_fill it o r v cum hf
        rw [heq]
        exact ih _ _ (hjudged _ _ _ _ h hj)
      · rw [scoreResponse, if_neg hf]
        exact ih v cum h
  have hall := hfold o.responses v 0 h
  unfold scoreOrder
  dsimp only
  split
  · exact hall
  · split
    · exact hmissed _ _ hall ⟨_, _, _, _, rfl⟩
    · exact hall

/-- The validator without an order: what `finalize` scores it with. -/
def without (v : StreamValidator) (id : String) : StreamValidator :=
  { v with pending := v.pending.erase id, ref := v.ref.erase id }

variable {v : StreamValidator} {ps : List Order} {id : String} {o : Order}

/-- **`finalize` of a pending order**: it is scored, and then dropped with its
reference and its metadata. -/
theorem finalize_spec (h : v.pending.lookup id = some o) :
    (v.finalize it id).rep = ((v.without id).scoreOrder it o (v.ref.lookup id)).1.rep ∧
      (v.finalize it id).pending = v.pending.erase id ∧
      (v.finalize it id).ref = v.ref.erase id ∧
      (v.finalize it id).engine = v.engine.forget id := by
  have hs := sameState_scoreOrder it (v.without id) o (v.ref.lookup id)
  unfold finalize
  rw [h]
  exact ⟨rfl, hs.pending, hs.ref, congrArg (fun e => Engine.forget e id) hs.engine⟩

theorem finalize_of_none (h : v.pending.lookup id = none) : v.finalize it id = v := by
  unfold finalize
  rw [h]

/-! ### The invariant -/

/-- The validator after the order is processed and before anything is scored. -/
def feed (v : StreamValidator) (o : Order) : StreamValidator :=
  { v with
    rep := { v.rep with scoredOrders := v.rep.scoredOrders + 1 }
    pending := v.pending.insert o.orderID o
    ref := (v.engine.process o).fills.foldl addRef v.ref
    engine := (v.engine.process o).drain }

theorem apply_eq :
    v.apply it o =
      let w := (v.engine.process o).evicted.foldl (finalize it) (v.feed o)
      if (w.pending.lookup o.orderID).isSome ∧ w.engine.isResting o.orderID = false then
        w.finalize it o.orderID
      else w := rfl

/-- Pending orders are orders of `ps`, and the reference of a pending or unseen
id is the one of the fills `fs`. -/
structure Accounts (ps : List Order) (fs : List Fill) (v : StreamValidator) : Prop where
  pending : ∀ {id o}, v.pending.lookup id = some o → o ∈ ps ∧ o.orderID = id
  ref : ∀ id, (∀ a ∈ ps, a.orderID = id → v.pending.lookup id ≠ none) →
    v.ref.lookup id = refOf fs id

structure Tracks (ps : List Order) (v : StreamValidator) : Prop where
  accounts : Accounts ps (Engine.run ps).fills v
  book : SameBook (Engine.run ps) v.engine
  fills : v.engine.fills = []
  evicted : v.engine.evicted = []
  settled : ∀ a ∈ ps, v.pending.lookup a.orderID = none → ¬ (Engine.run ps).RestsID a.orderID

theorem Accounts.finalize (h : Accounts ps fs v) (id : String) :
    Accounts ps fs (v.finalize it id) := by
  cases hp : v.pending.lookup id with
  | none => rw [finalize_of_none it hp]; exact h
  | some o =>
    obtain ⟨-, h2, h3, -⟩ := finalize_spec it hp
    obtain ⟨hmem, hoid⟩ := h.pending hp
    refine ⟨fun {x a} hx => ?_, fun x hx => ?_⟩
    · rw [h2] at hx
      exact h.pending (lookup_erase_eq_some hx).2
    rw [h2] at hx
    have hne : x ≠ id := by
      intro he
      exact hx o hmem (hoid.trans he.symm) (by rw [he, lookup_erase])
    rw [lookup_erase_ne hne] at hx
    rw [h3, lookup_erase_ne hne]
    exact h.ref x hx

theorem Tracks.finalize (h : Tracks ps v) (hn : ¬ (Engine.run ps).RestsID id) :
    Tracks ps (v.finalize it id) := by
  cases hp : v.pending.lookup id with
  | none => rw [finalize_of_none it hp]; exact h
  | some o =>
    obtain ⟨-, h2, -, h4⟩ := finalize_spec it hp
    refine ⟨h.accounts.finalize it id, ?_, ?_, ?_, fun a ha hpa => ?_⟩
    · rw [h4]
      exact h.book.trans (SameBook.forget _ _)
    · rw [h4]
      exact h.fills
    · rw [h4]
      exact h.evicted
    by_cases hid : a.orderID = id
    · rw [hid]
      exact hn
    · rw [h2, lookup_erase_ne hid] at hpa
      exact h.settled a ha hpa

theorem Tracks.newStreamValidator : Tracks [] newStreamValidator where
  accounts := by
    refine ⟨fun {id o} h => ?_, fun id _ => rfl⟩
    simp [Validate.newStreamValidator] at h
  book := ⟨rfl, rfl, rfl, rfl⟩
  fills := rfl
  evicted := rfl
  settled := by simp

theorem Tracks.step (h : Tracks ps v) (hl : Ledger ps (Engine.run ps)) (o : Order) :
    SameBook (Engine.run (ps ++ [o])) (v.engine.process o) ∧
      (Engine.run (ps ++ [o])).fills = (Engine.run ps).fills ++ (v.engine.process o).fills ∧
      (Engine.run (ps ++ [o])).evicted =
        (Engine.run ps).evicted ++ (v.engine.process o).evicted := by
  obtain ⟨hb, ⟨F, hF, hF'⟩, V, hV, hV'⟩ := h.book.process hl.wf o
  rw [h.fills, nil_append] at hF'
  rw [h.evicted, nil_append] at hV'
  rw [Book.Engine.run_snoc, hF', hV']
  exact ⟨hb, hF, hV⟩

theorem Tracks.feed (h : Tracks ps v) (hs : Session (ps ++ [o])) :
    Tracks (ps ++ [o]) (v.feed o) := by
  obtain ⟨hps, hf, hr⟩ := hs.snoc
  have hl := Ledger.run ps hps
  obtain ⟨hb, hF, -⟩ := h.step hl o
  obtain ⟨-, he⟩ := Book.Engine.process_ledger hl o hf (Book.Engine.named_of_nonempty hr)
  refine ⟨⟨fun {id a} hp => ?_, fun id hid => ?_⟩, hb.trans (SameBook.drain _), rfl, rfl,
    fun a ha hp => ?_⟩
  · by_cases hid : id = o.orderID
    · rw [hid, StreamValidator.feed, lookup_insert, Option.some.injEq] at hp
      rw [← hp, hid]
      exact ⟨by simp, rfl⟩
    · rw [StreamValidator.feed, lookup_insert_ne hid] at hp
      obtain ⟨h1, h2⟩ := h.accounts.pending hp
      exact ⟨by simp [h1], h2⟩
  · rw [hF]
    refine refOf_append (h.accounts.ref id (fun a ha hai => ?_))
    have hne : id ≠ o.orderID := by
      rw [← hai]
      exact hf a ha
    have := hid a (by simp [ha]) hai
    rwa [StreamValidator.feed, lookup_insert_ne hne] at this
  have hne : a.orderID ≠ o.orderID := by
    intro hao
    rw [hao, StreamValidator.feed, lookup_insert] at hp
    simp at hp
  rw [StreamValidator.feed, lookup_insert_ne hne] at hp
  have hmem : a ∈ ps := by
    rcases mem_append.mp ha with ha | ha
    · exact ha
    · exact absurd (congrArg Order.orderID (mem_singleton.mp ha)) hne
  rw [Book.Engine.run_snoc]
  intro hrest
  rcases he.rests hrest with h1 | h1
  · exact h.settled a hmem hp h1
  · exact hne h1

/-! ### Induction over a session -/

section Induction

variable {os : List Order} (I : List Order → GoMap String Order → Report → Prop)
  (hfeed : ∀ ps o p r, I ps p r →
    I (ps ++ [o]) (p.insert o.orderID o) { r with scoredOrders := r.scoredOrders + 1 })
  (hscore : ∀ ps (v : StreamValidator) o, o ∈ os → v.pending.lookup o.orderID = some o →
    I ps v.pending v.rep →
    I ps (v.pending.erase o.orderID)
      ((v.without o.orderID).scoreOrder it o (refOf (Engine.run os).fills o.orderID)).1.rep)

include hscore

variable {ps qs : List Order}

theorem finalize_induction (hps : ∀ a ∈ ps, a ∈ os)
    (ha : Accounts ps (Engine.run ps).fills v) {id : String}
    (href : ∀ a ∈ ps, a.orderID = id →
      refOf (Engine.run ps).fills id = refOf (Engine.run os).fills id)
    (hI : I ps v.pending v.rep) : I ps (v.finalize it id).pending (v.finalize it id).rep := by
  cases hp : v.pending.lookup id with
  | none => rw [finalize_of_none it hp]; exact hI
  | some o =>
    obtain ⟨hmem, rfl⟩ := ha.pending hp
    obtain ⟨h1, h2, -, -⟩ := finalize_spec it hp
    have hr := ha.ref o.orderID (fun _ _ _ => by rw [hp]; simp)
    rw [h1, h2, hr, href o hmem rfl]
    exact hscore ps v o (hps o hmem) hp hI

theorem foldl_finalize_induction (hs : Session (ps ++ qs))
    (hos : ps ++ qs = os) (ids : List String) : ∀ {v : StreamValidator}, Tracks ps v →
      I ps v.pending v.rep → (∀ id ∈ ids, ¬ (Engine.run ps).RestsID id) →
        Tracks ps (ids.foldl (finalize it) v) ∧
          I ps (ids.foldl (finalize it) v).pending (ids.foldl (finalize it) v).rep := by
  induction ids with
  | nil => intro v ht hI _; exact ⟨ht, hI⟩
  | cons id ids ih =>
    intro v ht hI hids
    have hn := hids id (by simp)
    refine ih (ht.finalize it hn) ?_ (fun x hx => hids x (by simp [hx]))
    refine finalize_induction it I hscore (fun a ha => by simp [← hos, ha]) ht.accounts ?_ hI
    intro a ha hai
    rw [← hos]
    refine (refOf_congr ?_).symm
    rw [← hai] at hn ⊢
    exact fills_stable qs ps hs a ha hn

include hfeed

theorem apply_induction (hs : Session (ps ++ [o] ++ qs))
    (hos : ps ++ [o] ++ qs = os) (ht : Tracks ps v)
    (hI : I ps v.pending v.rep) :
    Tracks (ps ++ [o]) (v.apply it o) ∧
      I (ps ++ [o]) (v.apply it o).pending (v.apply it o).rep := by
  obtain ⟨hps, hf, hr⟩ := hs.left.snoc
  have hl := Ledger.run ps hps
  obtain ⟨hl', he⟩ := Book.Engine.process_ledger hl o hf (Book.Engine.named_of_nonempty hr)
  rw [← Book.Engine.run_snoc] at hl'
  obtain ⟨-, -, hV⟩ := ht.step hl o
  have hev : ∀ id ∈ (v.engine.process o).evicted, ¬ (Engine.run (ps ++ [o])).RestsID id := by
    obtain ⟨V, hV', hx⟩ := he.evicted
    rw [Book.Engine.run_snoc, hV', append_cancel_left_eq] at hV
    intro id hid
    rw [Book.Engine.run_snoc]
    exact (hx id (hV ▸ hid)).2
  obtain ⟨ht₁, hI₁⟩ := foldl_finalize_induction it I hscore hs hos
    (v.engine.process o).evicted (ht.feed hs.left) (hfeed ps o _ _ hI) hev
  rw [apply_eq]
  dsimp only
  split
  next hc =>
    refine foldl_finalize_induction it I hscore hs hos [o.orderID] ht₁ hI₁ ?_
    intro id hid
    rw [mem_singleton.mp hid, ← hl'.lookup_isSome, ← ht₁.book.index]
    simpa [Engine.isResting] using hc.2
  · exact ⟨ht₁, hI₁⟩

/-- **A session, step by step**: what feeding an order and scoring an order keep
holds after every list of `Apply` calls. -/
theorem run_induction (hs : Session os) (h0 : I [] ∅ {}) : ∀ (ps qs : List Order), ps ++ qs = os →
    Tracks ps (run it ps) ∧ I ps (run it ps).pending (run it ps).rep := by
  intro ps
  induction ps using reverseRecOn with
  | nil => intro qs _; exact ⟨Tracks.newStreamValidator, h0⟩
  | append_singleton ps o ih =>
    intro qs hos
    obtain ⟨ht, hI⟩ := ih (o :: qs) (by rw [← hos, append_assoc]; rfl)
    have hrun : run it (ps ++ [o]) = (run it ps).apply it o := by
      rw [run, foldl_append, foldl_cons, foldl_nil, run]
    rw [hrun]
    exact apply_induction it I hfeed hscore (hos ▸ hs) hos ht hI

end Induction

/-- The validator when the given orders are scored at the end. -/
def scored (v : StreamValidator) (rest : List Order) : StreamValidator :=
  (rest.map Order.orderID).foldl (finalize it) v

theorem lookup_foldl_finalize (id : String) (ids : List String) : ∀ (v : StreamValidator),
    (ids.foldl (finalize it) v).pending.lookup id =
      if id ∈ ids then none else v.pending.lookup id := by
  induction ids with
  | nil => intro v; rfl
  | cons x xs ih =>
    intro v
    rw [foldl_cons, ih]
    have hx : (v.finalize it x).pending.lookup id =
        if id = x then none else v.pending.lookup id := by
      cases hp : v.pending.lookup x with
      | none =>
        rw [finalize_of_none it hp]
        split
        next he =>
          rw [he, hp]
        · rfl
      | some o =>
        rw [(finalize_spec it hp).2.1]
        split
        next he =>
          rw [he, lookup_erase]
        next he =>
          rw [lookup_erase_ne he]
    rw [hx]
    by_cases h1 : id = x <;> by_cases h2 : id ∈ xs <;> simp [h1, h2]

/-- The orders still pending after a run, in the order of the map. -/
def pendingOrders (v : StreamValidator) : List Order := v.pending.entries.map Sigma.snd

theorem perm_pendingOrders (r : Range) (v : StreamValidator) :
    (stableSort Replay.less ((r.enum v.pending.entries).map Sigma.snd)).Perm v.pendingOrders :=
  (perm_stableSort _ _).trans ((r.perm _).map _)

theorem mem_pendingOrders (h : v.pending.lookup id = some o) : o ∈ v.pendingOrders :=
  mem_map.mpr ⟨⟨id, o⟩, AList.mem_lookup_iff.mp h, rfl⟩

/-- **The end of a session**: the property holds when the pending orders are
scored, in any order and after any number of map loops, and no order is pending
any more. -/
theorem scored_induction {os : List Order} (hs : Session os)
    (I : List Order → GoMap String Order → Report → Prop) (h0 : I [] ∅ {})
    (hfeed : ∀ ps o p r, I ps p r →
      I (ps ++ [o]) (p.insert o.orderID o) { r with scoredOrders := r.scoredOrders + 1 })
    (hscore : ∀ ps (v : StreamValidator) o, o ∈ os → v.pending.lookup o.orderID = some o →
      I ps v.pending v.rep → I ps (v.pending.erase o.orderID)
        ((v.without o.orderID).scoreOrder it o (refOf (Engine.run os).fills o.orderID)).1.rep)
    (hv : SameState (run it os) v) (hr : v.rep = (run it os).rep) {rest : List Order}
    (hrest : rest.Perm (run it os).pendingOrders) :
    I os (v.scored it rest).pending (v.scored it rest).rep ∧
      ∀ a ∈ os, (v.scored it rest).pending.lookup a.orderID = none := by
  obtain ⟨ht, hI⟩ := run_induction it I hfeed hscore hs h0 os [] (append_nil os)
  have ha : Accounts os (Engine.run os).fills v := by
    refine ⟨fun {id o} h => ?_, fun id h => ?_⟩
    · rw [hv.pending] at h
      exact ht.accounts.pending h
    · rw [hv.pending] at h
      rw [hv.ref]
      exact ht.accounts.ref id h
  rw [← hv.pending, ← hr] at hI
  have hfold : ∀ (ids : List String) {w : StreamValidator}, Accounts os (Engine.run os).fills w →
      I os w.pending w.rep → I os (ids.foldl (finalize it) w).pending
        (ids.foldl (finalize it) w).rep := by
    intro ids
    induction ids with
    | nil => intro w _ hI; exact hI
    | cons id ids ih =>
      intro w hw hI
      exact ih (hw.finalize it id)
        (finalize_induction it I hscore (fun _ h => h) hw (fun _ _ _ => rfl) hI)
  refine ⟨hfold _ ha hI, fun a _ => ?_⟩
  rw [scored, lookup_foldl_finalize]
  by_cases hmem : a.orderID ∈ rest.map Order.orderID
  · rw [if_pos hmem]
  rw [if_neg hmem, hv.pending]
  cases hp : (run it os).pending.lookup a.orderID with
  | none => rfl
  | some o =>
    refine absurd ?_ hmem
    rw [← (ht.accounts.pending hp).2]
    exact mem_map_of_mem (hrest.mem_iff.mpr (mem_pendingOrders hp))

end StreamValidator

end MatchBench.Validate
