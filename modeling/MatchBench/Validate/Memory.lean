import MatchBench.Validate.Tracks

/-!
# What the validator keeps

The validator is meant to keep an order only while it rests in the reference book.  `Live` says
so: the pending ids are the resting ids, and neither a reference, nor a sequence number, nor a
note of a new price is kept for any other.

The link between the two is the engine's list of evictions, and two kinds of replace break it.
One that amends an order in its place gives it another id, and the old id is not evicted: it
stays pending until the end of the session.  One that moves an order, but carries no id, puts
it under the old id again, which the same call has evicted.  `Tidy` leaves out these two and
nothing else: `run_live_iff`.
-/

namespace MatchBench

open List AList

namespace Book.Engine

/-! ### What a call does to the index and to the metadata -/

/-- A replace that finds its order leaves it in its place if it has no id, and otherwise moves
it. -/
def Tidy (e : Engine) (o : Order) : Prop :=
  o.kind = .replace → ∀ ro ∈ e.find o.origOrderID, (InPlace o ro ↔ o.orderID = "")
  deriving Decidable

theorem Tidy.named {e : Engine} {o : Order} (h : Tidy e o) : Named e o :=
  fun hk hid ro hro => (h hk ro hro).mpr hid

/-- An id that leaves the index is evicted, and metadata is added for `id` only. -/
structure Turnover (e e' : Engine) (id : String) : Prop where
  evicted : e.evicted ⊆ e'.evicted
  index : ∀ {x}, x ∈ e.index → x ∈ e'.index ∨ x ∈ e'.evicted
  seq : ∀ {x}, x ∈ e'.seqByOrder → x ∈ e.seqByOrder ∨ x = id
  repriced : ∀ {x}, x ∈ e'.repriced → x ∈ e.repriced ∨ x = id

namespace Turnover

variable {e e' e'' : Engine} {id : String}

theorem of_eq (hi : e'.index = e.index) (hv : e'.evicted = e.evicted)
    (hs : e'.seqByOrder = e.seqByOrder) (hr : e'.repriced = e.repriced) : Turnover e e' id where
  evicted := hv ▸ List.Subset.refl _
  index hx := .inl (hi ▸ hx)
  seq hx := .inl (hs ▸ hx)
  repriced hx := .inl (hr ▸ hx)

theorem trans (h : Turnover e e' id) (h' : Turnover e' e'' id) : Turnover e e'' id where
  evicted := List.Subset.trans h.evicted h'.evicted
  index hx := by
    rcases h.index hx with hx | hx
    · exact h'.index hx
    · exact .inr (h'.evicted hx)
  seq hx := by
    rcases h'.seq hx with hx | hx
    · exact h.seq hx
    · exact .inr hx
  repriced hx := by
    rcases h'.repriced hx with hx | hx
    · exact h.repriced hx
    · exact .inr hx

theorem matched (hw : e.WF) (o : Order) : Turnover e (matched e o) id where
  evicted := by
    rw [(matched_spec hw o).evicted]
    exact subset_append_left _ _
  index {x} hx := by
    have hm := matched_spec hw o
    by_cases hu : x ∈ usedUp (allot o.qty (ranked e o))
    · rw [hm.evicted]
      exact .inr (mem_append_right _ hu)
    · refine .inl (AList.lookup_isSome.mp ?_)
      rw [hm.index, lookup_foldl_erase, if_neg hu]
      exact AList.lookup_isSome.mpr hx
  seq hx := .inl ((matched_spec hw o).seqByOrder ▸ hx)
  repriced hx := .inl ((matched_spec hw o).repriced ▸ hx)

theorem insert (e : Engine) {o : Order} (hid : o.orderID = id) (rem : UInt64) :
    Turnover e (e.insert o rem) id where
  evicted := by
    rw [show (e.insert o rem).evicted = e.evicted from setTree_evicted _ _ _]
    exact List.Subset.refl _
  index hx := .inl ((AList.mem_insert _).mpr (.inr hx))
  seq hx := by
    rcases (AList.mem_insert _).mp hx with hx | hx
    · exact .inr (hx.trans hid)
    · exact .inl hx
  repriced hx := by
    rw [show (e.insert o rem).repriced = e.repriced from setTree_repriced _ _ _] at hx
    exact .inl hx

theorem remove (e : Engine) (y : String) : Turnover e (e.remove y) id where
  evicted := by
    rw [Engine.remove]
    split
    · exact List.Subset.refl _
    · exact subset_append_left _ _
  index {x} hx := by
    rw [Engine.remove]
    split
    · exact .inl hx
    · by_cases hxy : x = y
      · exact .inr (mem_append_right _ (mem_singleton.mpr hxy))
      · exact .inl (AList.mem_erase.mpr ⟨hxy, hx⟩)
  seq hx := .inl (seqByOrder_remove e y ▸ hx)
  repriced hx := .inl (repriced_remove e y ▸ hx)

theorem reprice (e : Engine) {o : Order} (hid : orReplaceID o = id) (ro : RestingOrder) :
    Turnover e (e.reprice o ro) id where
  evicted := evicted_reprice e o ro ▸ List.Subset.refl _
  index hx := .inl ((SameBook.reprice e o ro).index ▸ hx)
  seq hx := .inl (seqByOrder_reprice e o ro ▸ hx)
  repriced hx := by
    rw [Engine.reprice] at hx
    split at hx
    · rcases (AList.mem_insert _).mp hx with hx | hx
      · exact .inr (hx.trans hid)
      · exact .inl hx
    · exact .inl hx

theorem process (hw : e.WF) {o : Order} (ht : Tidy e o) : Turnover e (e.process o) o.orderID := by
  have hstep := process_cases hw o
  generalize e.process o = e' at hstep ⊢
  cases hstep with
  | filled hk => exact matched hw o
  | rested hk hr => exact (matched hw o).trans (insert _ rfl _)
  | cancelled hk => exact remove e _
  | ignored hk hf => exact of_eq rfl rfl rfl rfl
  | kept ro hk hf hp hid =>
    exact of_eq (Ledger.index_modify _ _ _) (Ledger.evicted_modify _ _ _)
      (seqByOrder_modify _ _ _) (repriced_modify _ _ _)
  | amended ro hk hf hp hid hne => exact absurd ((ht hk ro hf).mp hp) hid
  | moved ro hk hf hp =>
    have hid : orReplaceID o = o.orderID := if_pos fun he => hp ((ht hk ro hf).mpr he)
    exact (reprice e hid ro).trans ((remove _ _).trans (insert _ hid _))

end Turnover

theorem Ledger.drain {ps : List Order} {e : Engine} (hl : Ledger ps e) : Ledger ps e.drain where
  wf := (SameBook.drain e).wf hl.wf
  distinct := hl.distinct
  index_iff := by
    intro id k
    rw [(SameBook.drain e).index, (SameBook.drain e).fifo]
    exact hl.index_iff
  owner := by
    intro s p m hm
    rw [(SameBook.drain e).fifo] at hm
    obtain ⟨o, ho, hid, hq⟩ := hl.owner hm
    exact ⟨o, ho, hid, (Nat.add_le_add_right (Nat.zero_le _) _).trans hq⟩
  filled := fun o _ => Nat.zero_le _
  fill_mem := nofun

end Book.Engine

namespace Validate

open Book (Engine Fill InPlace)
open Book.Engine (Ledger SameBook Effect Tidy Turnover)

namespace StreamValidator

/-- Every entry is for a pending order. -/
structure Bounded (v : StreamValidator) : Prop where
  ref : ∀ {id}, id ∈ v.ref → id ∈ v.pending
  seq : ∀ {id}, id ∈ v.engine.seqByOrder → id ∈ v.pending
  repriced : ∀ {id}, id ∈ v.engine.repriced → id ∈ v.pending

/-- **The validator keeps the live book**, and nothing else. -/
structure Live (v : StreamValidator) : Prop extends Bounded v where
  pending : ∀ id, id ∈ v.pending ↔ v.engine.isResting id

variable (it : Nat → Range)

/-- What one `Apply` leaves is the live book, and an order that left the book was finalized. -/
structure Settles (v : StreamValidator) (o : Order) : Prop where
  live : Live (v.apply it o)
  finalized : ∀ id, v.engine.isResting id → ¬ (v.apply it o).engine.isResting id →
    id ∈ v.pending ∧ id ∉ (v.apply it o).pending

/-- Every order of a list meets `P` in the validator that finds it. -/
def EachCall (P : StreamValidator → Order → Prop) : StreamValidator → List Order → Prop
  | _, [] => True
  | v, o :: os => P v o ∧ EachCall P (v.apply it o) os

instance (P : StreamValidator → Order → Prop) [∀ v o, Decidable (P v o)] :
    ∀ v os, Decidable (EachCall it P v os)
  | _, [] => inferInstanceAs (Decidable True)
  | v, o :: os =>
    have := instDecidableEachCall P (v.apply it o) os
    inferInstanceAs (Decidable (_ ∧ _))

/-! ### One call, map by map -/

theorem mem_foldl_addRef {id : String} (fs : List Fill) : ∀ {ref : GoMap String OrderRef},
    id ∈ fs.foldl addRef ref → id ∈ ref ∨ ∃ f ∈ fs, f.orderID = id := by
  induction fs with
  | nil => exact fun h => .inl h
  | cons f fs ih =>
    intro ref h
    rcases ih h with h | ⟨g, hg, hid⟩
    · rcases (AList.mem_insert _).mp h with h | h
      · exact .inr ⟨f, .head _, h.symm⟩
      · exact .inl h
    · exact .inr ⟨g, mem_cons_of_mem _ hg, hid⟩

variable (v : StreamValidator) (o : Order) (id : String)

theorem mem_pending_foldl_finalize (ids : List String) (v : StreamValidator) :
    id ∈ (ids.foldl (finalize it) v).pending ↔ id ∉ ids ∧ id ∈ v.pending := by
  rw [← AList.lookup_isSome, lookup_foldl_finalize, ← AList.lookup_isSome]
  by_cases h : id ∈ ids
  · simp [h]
  · simp [h]

theorem engine_finalize :
    SameBook v.engine (v.finalize it id).engine ∧
      (v.finalize it id).engine.fills = v.engine.fills ∧
      (v.finalize it id).engine.evicted = v.engine.evicted := by
  cases hp : v.pending.lookup id with
  | none =>
    rw [finalize_of_none it hp]
    exact ⟨⟨rfl, rfl, rfl, rfl⟩, rfl, rfl⟩
  | some o =>
    rw [(finalize_spec it hp).2.2.2]
    exact ⟨SameBook.forget _ _, rfl, rfl⟩

theorem engine_foldl_finalize : ∀ (ids : List String) (v : StreamValidator),
    SameBook v.engine (ids.foldl (finalize it) v).engine ∧
      (ids.foldl (finalize it) v).engine.fills = v.engine.fills ∧
      (ids.foldl (finalize it) v).engine.evicted = v.engine.evicted := by
  intro ids
  induction ids with
  | nil => exact fun v => ⟨⟨rfl, rfl, rfl, rfl⟩, rfl, rfl⟩
  | cons id ids ih =>
    intro v
    obtain ⟨hb, hf, hv⟩ := engine_finalize it v id
    obtain ⟨hb', hf', hv'⟩ := ih (v.finalize it id)
    exact ⟨hb.trans hb', hf'.trans hf, hv'.trans hv⟩

theorem Bounded.finalize {v : StreamValidator} (h : Bounded v) (id : String) :
    Bounded (v.finalize it id) := by
  cases hp : v.pending.lookup id with
  | none => rwa [finalize_of_none it hp]
  | some o =>
    obtain ⟨-, hpend, href, heng⟩ := finalize_spec it hp
    refine ⟨fun {x} hx => ?_, fun {x} hx => ?_, fun {x} hx => ?_⟩ <;> rw [hpend] <;>
      refine AList.mem_erase.mpr ?_
    · rw [href] at hx
      exact (AList.mem_erase.mp hx).imp_right h.ref
    · rw [heng] at hx
      exact (AList.mem_erase.mp hx).imp_right h.seq
    · rw [heng] at hx
      exact (AList.mem_erase.mp hx).imp_right h.repriced

theorem Bounded.foldl_finalize : ∀ (ids : List String) {v : StreamValidator}, Bounded v →
    Bounded (ids.foldl (StreamValidator.finalize it) v) := by
  intro ids
  induction ids with
  | nil => exact fun h => h
  | cons id ids ih => exact fun h => ih (h.finalize it id)

/-- The ids that an `Apply` finalizes. -/
def leaving (v : StreamValidator) (o : Order) : List String :=
  (v.engine.process o).evicted ++
    if o.orderID ∈ (v.engine.process o).index then [] else [o.orderID]

/-- The check at the end of `Apply` reads the book as the call left it. -/
theorem apply_eq_foldl : v.apply it o = (v.leaving o).foldl (finalize it) (v.feed o) := by
  have hb := (engine_foldl_finalize it (v.engine.process o).evicted (v.feed o)).1
  have hidx : ((v.engine.process o).evicted.foldl (finalize it) (v.feed o)).engine.index =
      (v.engine.process o).index := hb.index
  rw [apply_eq, leaving, foldl_append]
  by_cases hr : o.orderID ∈ (v.engine.process o).index
  · have hrest : ((v.engine.process o).evicted.foldl (finalize it) (v.feed o)).engine.isResting
        o.orderID = true := by
      rw [Engine.isResting, hidx]
      exact AList.lookup_isSome.mpr hr
    rw [if_pos hr, if_neg (by simp [hrest])]
    rfl
  have hrest : ((v.engine.process o).evicted.foldl (finalize it) (v.feed o)).engine.isResting
      o.orderID = false := by
    rw [Engine.isResting, hidx, AList.lookup_eq_none.mpr hr]
    rfl
  rw [if_neg hr]
  by_cases hp : (((v.engine.process o).evicted.foldl (finalize it)
      (v.feed o)).pending.lookup o.orderID).isSome
  · rw [if_pos ⟨hp, hrest⟩]
    rfl
  · rw [if_neg fun h => hp h.1]
    exact (finalize_of_none it (Option.not_isSome_iff_eq_none.mp hp)).symm

theorem mem_pending_apply :
    id ∈ (v.apply it o).pending ↔ id ∉ v.leaving o ∧ (id = o.orderID ∨ id ∈ v.pending) := by
  rw [apply_eq_foldl, mem_pending_foldl_finalize, feed, AList.mem_insert]

theorem engine_apply :
    SameBook (v.engine.process o) (v.apply it o).engine ∧
      (v.apply it o).engine.fills = [] ∧ (v.apply it o).engine.evicted = [] := by
  rw [apply_eq_foldl]
  obtain ⟨hb, hf, hv⟩ := engine_foldl_finalize it (v.leaving o) (v.feed o)
  exact ⟨(SameBook.drain _).trans hb, hf, hv⟩

theorem isResting_apply : (v.apply it o).engine.isResting id ↔ id ∈ (v.engine.process o).index := by
  rw [Engine.isResting, (engine_apply it v o).1.index, AList.lookup_isSome]

/-! ### The invariant -/

/-- What holds between two calls: the book is that of the orders so far, the records are
drained, and what is kept is the live book. -/
structure Follows (ps : List Order) (v : StreamValidator) : Prop where
  ledger : Ledger ps v.engine
  fills : v.engine.fills = []
  evicted : v.engine.evicted = []
  live : Live v

theorem Follows.newStreamValidator : Follows [] newStreamValidator where
  ledger := Ledger.newEngine
  fills := rfl
  evicted := rfl
  live :=
    { ref := fun h => absurd h (notMem_empty _)
      seq := fun h => absurd h (notMem_empty _)
      repriced := fun h => absurd h (notMem_empty _)
      pending := fun id => by
        refine ⟨fun h => absurd h (notMem_empty _), fun h => ?_⟩
        exact absurd h (by simp [Engine.isResting, Validate.newStreamValidator, Book.newEngine]) }

namespace Follows

variable {ps : List Order} {v : StreamValidator} (h : Follows ps v) {o : Order}
  (hf : ∀ a ∈ ps, a.orderID ≠ o.orderID)

include h

theorem mem_pending_of_rests {id : String} (hr : v.engine.RestsID id) : id ∈ v.pending :=
  (h.live.pending id).mpr (h.ledger.lookup_isSome.mpr hr)

include hf

theorem bounded_feed (ht : Tidy v.engine o) : Bounded (v.feed o) := by
  obtain ⟨-, he⟩ := Book.Engine.process_ledger h.ledger o hf ht.named
  have hturn := Turnover.process h.ledger.wf ht
  have hin : ∀ {id}, id ∈ v.pending ∨ id = o.orderID → id ∈ (v.feed o).pending := fun hid =>
    (AList.mem_insert _).mpr hid.symm
  refine ⟨fun {id} hid => hin ?_, fun {id} hid => hin ?_, fun {id} hid => hin ?_⟩
  · obtain ⟨F, hF, hFm⟩ := he.fills
    rw [h.fills, nil_append] at hF
    rcases mem_foldl_addRef _ hid with hid | ⟨f, hfm, rfl⟩
    · exact .inl (h.live.ref hid)
    · rw [hF] at hfm
      exact (hFm f hfm).symm.imp_left h.mem_pending_of_rests
  · exact (hturn.seq hid).imp_left h.live.seq
  · exact (hturn.repriced hid).imp_left h.live.repriced

theorem mem_pending_apply_iff (ht : Tidy v.engine o) (id : String) :
    id ∈ (v.apply it o).pending ↔ id ∈ (v.engine.process o).index := by
  obtain ⟨hl', he⟩ := Book.Engine.process_ledger h.ledger o hf ht.named
  obtain ⟨V, hV, hVm⟩ := he.evicted
  rw [h.evicted, nil_append] at hV
  rw [mem_pending_apply, leaving, mem_append, not_or]
  constructor
  · rintro ⟨⟨hev, hown⟩, hid⟩
    by_cases ho : id = o.orderID
    · by_contra hn
      rw [if_neg (ho ▸ hn)] at hown
      exact hown (mem_singleton.mpr ho)
    · have hres : id ∈ v.engine.index :=
        AList.lookup_isSome.mp ((h.live.pending id).mp (hid.resolve_left ho))
      exact ((Turnover.process h.ledger.wf ht).index hres).resolve_right hev
  intro hr
  have hrests := hl'.lookup_isSome.mp (AList.lookup_isSome.mpr hr)
  refine ⟨⟨fun hev => (hVm id (hV ▸ hev)).2 hrests, ?_⟩, ?_⟩
  · split
    · exact not_mem_nil
    next hn =>
      exact fun hm => hn (mem_singleton.mp hm ▸ hr)
  · exact (he.rests hrests).symm.imp_right h.mem_pending_of_rests

/-- **A tidy call keeps the invariant.** -/
theorem apply (ht : Tidy v.engine o) : Follows (ps ++ [o]) (v.apply it o) := by
  obtain ⟨hl', -⟩ := Book.Engine.process_ledger h.ledger o hf ht.named
  obtain ⟨hb, hfills, hev⟩ := engine_apply it v o
  have hbounded : Bounded (v.apply it o) := by
    rw [apply_eq_foldl]
    exact (h.bounded_feed hf ht).foldl_finalize it _
  refine ⟨?_, hfills, hev, { hbounded with pending := fun id => ?_ }⟩
  · exact hl'.drain.of_sameBook ⟨hb.asks, hb.bids, hb.index, hb.seq⟩ hfills
  · rw [h.mem_pending_apply_iff it hf ht, isResting_apply]

/-- **Any other call breaks it.** -/
theorem tidy_of_live (hlive : Live (v.apply it o)) : Tidy v.engine o := by
  intro hk ro hro
  obtain ⟨hid, s, p, hm⟩ := h.ledger.find_id hro
  have hrests : v.engine.RestsID o.origOrderID := ⟨s, p, ro, hm, hid⟩
  have hne : o.origOrderID ≠ o.orderID := by
    intro he
    exact Book.Engine.not_rests_fresh h.ledger o hf (he ▸ hrests)
  -- Live or not is decided by the id of the order that is replaced.
  have hkeep : o.origOrderID ∉ v.leaving o ↔ o.origOrderID ∈ (v.engine.process o).index := by
    rw [← isResting_apply it, ← hlive.pending, mem_pending_apply]
    exact (and_iff_left (.inr (h.mem_pending_of_rests hrests))).symm
  rw [leaving, mem_append, not_or] at hkeep
  have hstep := Book.process_cases h.ledger.wf o
  generalize v.engine.process o = e' at hkeep hstep
  cases hstep with
  | filled hk' =>
    rw [hk] at hk'
    rcases hk' with hk' | ⟨hk', -⟩ <;> exact absurd hk' (by decide)
  | rested hk' | cancelled hk' => exact absurd (hk.symm.trans hk') (by decide)
  | ignored _ hn => exact absurd (hn.symm.trans hro) (Option.some_ne_none _).symm
  | kept ro' _ hro' hp hid' =>
    obtain rfl := Option.some.inj (hro'.symm.trans hro)
    exact iff_of_true hp (hid'.resolve_right fun he => hne (hid.symm.trans he.symm))
  | amended ro' _ hro' hp hid' =>
    obtain rfl := Option.some.inj (hro'.symm.trans hro)
    have hown : o.orderID ∈ (v.engine.amended ro' o.qty o.orderID).index := by
      rw [Ledger.index_amended]
      exact (AList.mem_insert _).mpr (.inl rfl)
    have hold : o.origOrderID ∉ (v.engine.amended ro' o.qty o.orderID).index := by
      rw [Ledger.index_amended, AList.mem_insert, AList.mem_erase]
      rintro (he | ⟨he, -⟩)
      · exact hne he
      · exact he hid.symm
    rw [Ledger.evicted_amended, h.evicted, if_pos hown] at hkeep
    exact absurd (hkeep.mp ⟨not_mem_nil, not_mem_nil⟩) hold
  | moved ro' _ hro' hp =>
    obtain rfl := Option.some.inj (hro'.symm.trans hro)
    refine iff_of_false hp fun he => ?_
    have hnew : (Book.replacement o ro').orderID = o.origOrderID := if_neg (not_not.mpr he)
    have hold : o.origOrderID ∈ ((v.engine.reprice o ro').remove o.origOrderID).evicted := by
      have hb := SameBook.reprice v.engine o ro'
      have hfind : ((v.engine.reprice o ro').index.lookup o.origOrderID).bind
          (v.engine.reprice o ro').deref = some ro' := by
        rw [hb.index, funext hb.deref]
        exact hro
      rw [Engine.remove, hfind]
      exact mem_append_right _ (mem_singleton.mpr rfl)
    refine (hkeep.mpr ((AList.mem_insert _).mpr (.inl hnew.symm))).1 ?_
    rw [show (Engine.insert _ (Book.replacement o ro') o.qty).evicted = _ from
      Book.Engine.setTree_evicted _ _ _]
    exact hold

end Follows

theorem Follows.settles {ps : List Order} {v : StreamValidator} (h : Follows ps v) {o : Order}
    (h' : Follows (ps ++ [o]) (v.apply it o)) : v.Settles it o where
  live := h'.live
  finalized id hr hn :=
    ⟨(h.live.pending id).mpr hr, fun hp => hn ((h'.live.pending id).mp hp)⟩

theorem settles_iff_tidy : ∀ (os : List Order) {ps : List Order} {v : StreamValidator},
    Follows ps v → (ps ++ os).Pairwise (fun a b => a.orderID ≠ b.orderID) →
      (EachCall it (Settles it) v os ↔ EachCall it (fun v o => Tidy v.engine o) v os) := by
  intro os
  induction os with
  | nil => exact fun _ _ => Iff.rfl
  | cons o os ih =>
    intro ps v h hd
    have hfresh : ∀ a ∈ ps, a.orderID ≠ o.orderID := fun a ha =>
      (pairwise_append.mp hd).2.2 a ha o (.head _)
    rw [← singleton_append, ← append_assoc] at hd
    constructor
    · rintro ⟨hs, hrest⟩
      have ht := h.tidy_of_live it hfresh hs.live
      exact ⟨ht, (ih (h.apply it hfresh ht) hd).mp hrest⟩
    · rintro ⟨ht, hrest⟩
      have h' := h.apply it hfresh ht
      exact ⟨h.settles it h', (ih h' hd).mpr hrest⟩

/-- **The validator keeps the live book after every call exactly when every call is tidy**, for
every session without a repeated id. -/
theorem run_live_iff (os : List Order) (hd : os.Pairwise (fun a b => a.orderID ≠ b.orderID)) :
    EachCall it (Settles it) newStreamValidator os ↔
      EachCall it (fun v o => Tidy v.engine o) newStreamValidator os :=
  settles_iff_tidy it os Follows.newStreamValidator hd

/-- A partial fill, a replace that moves its order, one that names nobody, and a cancel. -/
def tidySession : List Order :=
  [{ orderID := "a", side := .sell, price := 10, qty := 8 },
   { orderID := "b", side := .buy, price := 10, qty := 3 },
   { orderID := "c", kind := .replace, origOrderID := "a", side := .sell, price := 12, qty := 5 },
   { orderID := "d", kind := .replace, origOrderID := "a", side := .sell, price := 11, qty := 5 },
   { orderID := "e", side := .buy, price := 9, qty := 2 },
   { orderID := "f", kind := .cancel, origOrderID := "c" }]

theorem run_live_iff_tidySession :
    EachCall (fun _ => Range.id) (Settles fun _ => Range.id) newStreamValidator tidySession :=
  (run_live_iff (fun _ => Range.id) tidySession (by decide)).mpr (by decide +kernel)

/-- An order is amended in its place, under a new id. -/
def renamedOrder : List Order :=
  [{ orderID := "a", side := .sell, price := 10, qty := 8 },
   { orderID := "b", kind := .replace, origOrderID := "a", side := .sell, price := 10, qty := 5 }]

/-- **The old id of an amended order stays pending**: it rests no more, and is not finalized. -/
theorem run_renamedOrder :
    renamedOrder.Pairwise (fun a b => a.orderID ≠ b.orderID) ∧
      "a" ∈ (run (fun _ => Range.id) renamedOrder).pending ∧
      (run (fun _ => Range.id) renamedOrder).engine.isResting "a" = false ∧
      ¬ EachCall (fun _ => Range.id) (Settles fun _ => Range.id) newStreamValidator
        renamedOrder := by
  have hp : "a" ∈ (run (fun _ => Range.id) renamedOrder).pending := by decide +kernel
  have hr : (run (fun _ => Range.id) renamedOrder).engine.isResting "a" = false := by
    decide +kernel
  refine ⟨by decide, hp, hr, ?_⟩
  rintro ⟨-, hs, -⟩
  exact absurd ((hs.live.pending "a").mp hp) (Bool.eq_false_iff.mp hr)

end StreamValidator

end Validate

end MatchBench
