import MatchBench.Bot.Build
import MatchBench.Bot.Render

/-!
# Every frame of a template is an order

A template writes each order over the one before.  An id against self matches with more than
three digits is not written in full then, so the frame is not the one a new template has.  It is
an order with the right id all the same: whatever is written, every field keeps its length and its
place, and the number in the order id is written in full.

So the bytes of a template are always a filling of the form it was built with (`Descends`), and a
cache whose templates all are renders nothing but orders (`Stocked.renderFrames`).
-/

namespace MatchBench.Bot

open List
open Capture (ascii soh)

/-! ### Writing into a filling -/

section

variable {ok : List UInt8 → Prop} {hs gs : List (List UInt8 × List UInt8)} {i w : Nat}
  {f : List UInt8 × List UInt8}

theorem write_front (last : List UInt8) (v : Nat) (hi : hs[i]? = some f) (hl : w ≤ f.2.length) :
    ∃ o n, writePaddedU64 w (fill hs last) (fieldAt hs i) v =
      (fill (putField hs i (padded w v ++ f.2.drop w)) last, o, n) := by
  obtain ⟨post, hfill, hput⟩ := fill_split last hi
  have hsplit : f.2 ++ post = f.2.take w ++ (f.2.drop w ++ post) := by
    rw [← append_assoc, take_append_drop]
  have htake : (f.2.take w).length = w := length_take_of_le hl
  refine ⟨byteSum (f.2.take w), byteSum (padded w v), ?_⟩
  rw [hfill, hput, fieldAt, hsplit, write_split _ _ v htake, append_assoc]

theorem write_fills (h : Fills ok hs gs) (last : List UInt8) (v : Nat) (hi : hs[i]? = some f)
    (hl : w ≤ f.2.length) (hok : ∀ g, ok g → ok (padded w v ++ g.drop w)) :
    ∃ gs' o n, Fills ok hs gs' ∧
      writePaddedU64 w (fill gs last) (fieldAt hs i) v = (fill gs' last, o, n) ∧
      (∀ j ≠ i, gs'[j]? = gs[j]?) ∧ (w = f.2.length → gs'[i]? = some (f.1, padded w v)) := by
  obtain ⟨g, hg, hlen, hgok⟩ := h.get hi
  obtain ⟨o, n, hwrite⟩ := write_front last v hg (hlen ▸ hl)
  refine ⟨putField gs i (padded w v ++ g.drop w), o, n, h.put hi ?_ (hok g hgok), ?_,
    fun j hj => getElem?_putField hj, fun hw => ?_⟩
  · rw [length_append, length_padded, length_drop]
    omega
  · rw [← h.fieldAt_eq i]
    exact hwrite
  · rw [getElem?_putField_self _ hg, drop_eq_nil_of_le (by omega), append_nil]

theorem set_fills (h : Fills ok hs gs) (last : List UInt8) (y : UInt8) (hi : hs[i]? = some f)
    (hlen : f.2.length = 1) (hok : ok [y]) :
    ∃ gs', Fills ok hs gs' ∧ (fill gs last).set (fieldAt hs i) y = fill gs' last ∧
      ∀ j ≠ i, gs'[j]? = gs[j]? := by
  obtain ⟨g, hg, hglen, _⟩ := h.get hi
  obtain ⟨x, rfl⟩ := length_eq_one_iff.mp (hglen.trans hlen)
  refine ⟨putField gs i [y], h.put hi hlen.symm hok, ?_, fun j hj => getElem?_putField hj⟩
  exact (set_fill last h.fieldAt_eq y hg rfl).1

theorem applyChecksumDelta_fills (h : Fills ok hs gs) (last : List UInt8) (o n : Nat)
    (hi : hs[i]? = some f) (hlen : f.2.length = 3) (hok : ∀ c, ok (padded 3 c)) :
    ∃ gs', Fills ok hs gs' ∧
      Bot.applyChecksumDelta (fill gs last) (fieldAt hs i) o n = fill gs' last ∧
      ∀ j ≠ i, gs'[j]? = gs[j]? := by
  obtain ⟨g, hg, hglen, _⟩ := h.get hi
  obtain ⟨x, y, z, rfl⟩ := length_eq_three.mp (hglen.trans hlen)
  obtain ⟨post, hfill, hput⟩ := fill_split last hg
  rw [← h.fieldAt_eq i, Bot.applyChecksumDelta]
  generalize hc : ((((fill gs last).getD (fieldAt gs i) 0 - 48).toNat * 100 +
    ((fill gs last).getD (fieldAt gs i + 1) 0 - 48).toNat * 10 +
    ((fill gs last).getD (fieldAt gs i + 2) 0 - 48).toNat + 256 + n % 256 - o % 256) % 256) = c
  have hlt : c < 256 := by omega
  have h100 : c / 100 = c / 10 / 10 % 10 := by omega
  refine ⟨putField gs i (padded 3 c), h.put hi (by rw [length_padded, hlen]) (hok c), ?_,
    fun j hj => getElem?_putField hj⟩
  rw [hput, hfill, fieldAt, h100, padded_three, set_append_right _ _ le_rfl,
    set_append_right _ _ (Nat.le_add_right _ _), set_append_right _ _ (Nat.le_add_right _ _),
    Nat.sub_self, Nat.add_sub_cancel_left, Nat.add_sub_cancel_left]
  rfl

end

/-! ### FIX -/

namespace FixTemplate

/-- The form of the frame of some values. -/
def form (t : FixTemplate) (v : Values) : List (List UInt8 × List UInt8) :=
  fixForm t.kind t.sessionID t.botID v t.fixVersion

/-- **A template that was built for some order and written over since**: its bytes are a filling of
the form, with the number of the last order. -/
def Descends (t : FixTemplate) (seq : UInt64) : Prop :=
  ∃ (t₀ : FixTemplate) (v : Values) (gs : List (List UInt8 × List UInt8)) (id : UInt32),
    t₀.Shaped v ∧ Fills (soh ∉ ·) (t₀.form v) gs ∧ digitWidth seq.toNat = digitWidth v.seq.toNat ∧
      gs[1]?.map Prod.snd = some (decimal seq.toNat) ∧
      t = { t₀ with buf := fill gs [soh], smpID := id }

section

variable {t₀ : FixTemplate} {v : Values} {gs : List (List UInt8 × List UInt8)}

theorem soh_notMem_form (t : FixTemplate) (v : Values) : ∀ f ∈ t.form v, soh ∉ f.2 := by
  have hprice : soh ∉ priceField t.kind v := by
    unfold priceField
    split
    · exact not_mem_padded (by decide)
    · exact not_mem_nil
  have hsmp : soh ∉ smpField v := by
    rw [smpField]
    split
    · exact not_mem_nil
    · exact not_mem_padU64 (by decide)
  simp only [form, fixForm, bodyForm, forall_mem_append, forall_mem_cons, not_mem_nil,
    false_implies, implies_true, and_true]
  exact ⟨⟨not_mem_padded (by decide), not_mem_decimal (by decide), by cases v.side <;> decide,
    not_mem_padded (by decide), hprice, hsmp⟩, not_mem_padded (by decide)⟩

theorem clean_write (w n : Nat) : ∀ g : List UInt8, soh ∉ g → soh ∉ padded w n ++ g.drop w :=
  fun _ hg => not_mem_append (not_mem_padded (by decide)) fun h => hg (mem_of_mem_drop h)

theorem smpIdWidth_le_length (h : v.smpID ≠ smpIdNone) : smpIdWidth ≤ (smpField v).length := by
  rw [smpField, if_neg h, padU64, length_padded]
  exact Nat.le_max_left _ _

theorem Shaped.writeSmp_fills (ht : t₀.Shaped v) (hf : Fills (soh ∉ ·) (t₀.form v) gs)
    (buf : List UInt8) (id smpID : UInt32) : ∃ gs' o n, Fills (soh ∉ ·) (t₀.form v) gs' ∧
      FixTemplate.writeSmp { t₀ with buf := buf, smpID := id } (fill gs [soh]) smpID =
        (fill gs' [soh], o, n) ∧ gs'[1]? = gs[1]? := by
  simp only [FixTemplate.writeSmp, ht.smp_eq]
  by_cases hnone : v.smpID = smpIdNone
  · rw [if_pos hnone]
    exact ⟨gs, 0, 0, hf, rfl, rfl⟩
  rw [if_neg hnone]
  dsimp only
  by_cases hid : smpID ≠ id
  · obtain ⟨gs', o, n, hf', hwrite, hother, _⟩ := write_fills hf [soh] smpID.toNat
      (i := 5) (f := (smpText v, smpField v)) rfl (smpIdWidth_le_length hnone) (clean_write _ _)
    rw [if_pos hid]
    exact ⟨gs', o, n, hf', hwrite, hother 1 (by omega)⟩
  · rw [if_neg hid]
    exact ⟨gs, 0, 0, hf, rfl, rfl⟩

theorem Shaped.writePrice_fills (ht : t₀.Shaped v) (hf : Fills (soh ∉ ·) (t₀.form v) gs)
    (buf : List UInt8) (id : UInt32) (price : UInt64) :
    ∃ gs' o n, Fills (soh ∉ ·) (t₀.form v) gs' ∧
      FixTemplate.writePrice { t₀ with buf := buf, smpID := id } (fill gs [soh]) price =
        (fill gs' [soh], o, n) ∧ gs'[1]? = gs[1]? := by
  simp only [FixTemplate.writePrice, ht.price_eq]
  by_cases hk : t₀.kind = .new
  · have hlen : fixNumWidth ≤ (priceField t₀.kind v).length := by
      rw [hk]
      exact (length_padded _ _).ge
    obtain ⟨gs', o, n, hf', hwrite, hother, _⟩ := write_fills hf [soh] price.toNat
      (i := 4) (f := (priceText t₀.kind, priceField t₀.kind v)) rfl hlen (clean_write _ _)
    rw [if_pos hk]
    exact ⟨gs', o, n, hf', hwrite, hother 1 (by omega)⟩
  · rw [if_neg hk]
    exact ⟨gs, 0, 0, hf, rfl, rfl⟩

/-- **Writing over a filling** gives one with the number of the new order. -/
theorem Shaped.rewrite_fills (ht : t₀.Shaped v) (hf : Fills (soh ∉ ·) (t₀.form v) gs)
    (id : UInt32) (seq qty price : UInt64) (side : Side) (smpID : UInt32)
    (hw : digitWidth seq.toNat = digitWidth v.seq.toNat) :
    ∃ gs' id', Fills (soh ∉ ·) (t₀.form v) gs' ∧
      gs'[1]?.map Prod.snd = some (decimal seq.toNat) ∧
      FixTemplate.rewrite { t₀ with buf := fill gs [soh], smpID := id } seq qty price side smpID =
        { t₀ with buf := fill gs' [soh], smpID := id' } := by
  obtain ⟨gs₁, o₁, n₁, hf₁, h₁, -, -⟩ := write_fills hf [soh] (seq + 1).toNat (i := 0) rfl
    (length_padded _ _).ge (clean_write _ _)
  obtain ⟨gs₂, o₂, n₂, hf₂, h₂, -, hseq⟩ := write_fills hf₁ [soh] seq.toNat (i := 1) rfl
    (length_padded _ _).ge (clean_write _ _)
  obtain ⟨gs₃, o₃, n₃, hf₃, h₃, e₃⟩ := ht.writeSmp_fills hf₂ (fill gs [soh]) id smpID
  obtain ⟨gs₄, hf₄, h₄, e₄⟩ := set_fills hf₃ [soh] (sideByte side) (i := 2) rfl (length_sideTag _)
    (by cases side <;> decide)
  obtain ⟨gs₅, o₅, n₅, hf₅, h₅, e₅, -⟩ := write_fills hf₄ [soh] qty.toNat (i := 3) rfl
    (length_padded _ _).ge (clean_write _ _)
  obtain ⟨gs₆, o₆, n₆, hf₆, h₆, e₆⟩ := ht.writePrice_fills hf₅ (fill gs [soh]) id price
  obtain ⟨gs₇, hf₇, h₇, e₇⟩ := applyChecksumDelta_fills hf₆ [soh]
    (o₁ + o₂ + o₃ + ((fill gs₃ [soh]).getD t₀.sideOff 0).toNat + o₅ + o₆)
    (n₁ + n₂ + n₃ + (sideByte side).toNat + n₅ + n₆) (i := 6) rfl (length_padded _ _)
    fun c => not_mem_padded (by decide)
  refine ⟨gs₇, if t₀.smpOff.isSome then smpID else id, hf₇, ?_, ?_⟩
  · rw [e₇ 1 (by omega), e₆, e₅ 1 (by omega), e₄ 1 (by omega), e₃, hseq (length_padded _ _).symm,
      ← hw]
    rfl
  rw [form, ← ht.tag34_eq] at h₁
  rw [form, ← ht.clordid_eq, ← ht.width_eq] at h₂
  rw [form, ← ht.side_eq] at h₄
  rw [form, ← ht.qty_eq] at h₅
  rw [form, ← ht.checksum_eq] at h₇
  simp only [FixTemplate.rewrite, h₁, h₂, h₃, h₄, h₅, h₆, h₇]

end

/-- The fields behind the order id, with the given values. -/
def laterFields (kind : FrameKind) (smpID : UInt32) (side qty price smp : List UInt8) :
    List (List UInt8) :=
  [ascii "21=1", ascii "55=IICPC", ascii "54=" ++ side, ascii "38=" ++ qty] ++
    (match kind with
      | .new => [ascii "40=2", ascii "44=" ++ price]
      | _ => [ascii "40=1"]) ++
    (if smpID = smpIdNone then [] else [ascii "7928=" ++ smp]) ++ [ascii "59=0"]

theorem tame_laterFields (kind : FrameKind) (smpID : UInt32) {side qty price smp : List UInt8}
    (hside : soh ∉ side) (hqty : soh ∉ qty) (hprice : soh ∉ price) (hsmp : soh ∉ smp) :
    ∀ g ∈ laterFields kind smpID side qty price smp, Tame g := by
  have hkind : ∀ g ∈ (match kind with
      | .new => [ascii "40=2", ascii "44=" ++ price]
      | _ => [ascii "40=1"]), Tame g := by
    split <;> simp only [forall_mem_cons, not_mem_nil, false_implies, implies_true, and_true]
    · exact ⟨⟨by decide, fun f => ⟨rfl, rfl⟩⟩,
        ⟨not_mem_append (by decide) hprice, fun f => ⟨rfl, rfl⟩⟩⟩
    · exact ⟨by decide, fun f => ⟨rfl, rfl⟩⟩
  have hid : ∀ g ∈ (if smpID = smpIdNone then [] else [ascii "7928=" ++ smp]), Tame g := by
    split <;> simp only [forall_mem_cons, not_mem_nil, false_implies, implies_true, and_true]
    exact ⟨not_mem_append (by decide) hsmp, fun f => ⟨rfl, rfl⟩⟩
  simp only [laterFields, forall_mem_append, forall_mem_cons, not_mem_nil,
    false_implies, implies_true, and_true]
  refine ⟨⟨⟨⟨⟨by decide, fun f => ⟨rfl, rfl⟩⟩, ⟨by decide, fun f => ⟨rfl, rfl⟩⟩,
    ⟨not_mem_append (by decide) hside, fun f => ⟨rfl, rfl⟩⟩,
    ⟨not_mem_append (by decide) hqty, fun f => ⟨rfl, rfl⟩⟩⟩, hkind⟩, hid⟩,
    ⟨by decide, fun f => ⟨rfl, rfl⟩⟩⟩

variable {t : FixTemplate} {v : Values} {kind : FrameKind} {price smp : List UInt8} {seq : UInt64}

theorem sealed_laterFields (hk : kind.IsNew) (side qty : List UInt8) (hprice : price.length = (priceField kind v).length)
    (hsmp : smp.length = (smpField v).length) :
    sealed soh (laterFields kind v.smpID side qty price smp) =
      sealed soh [ascii "21=1", ascii "55=IICPC"] ++ (ascii "54=" ++ (side ++ (soh :: ascii "38=" ++
        (qty ++ (priceText kind ++ (price ++ (smpText v ++ (smp ++ bodyEnd)))))))) := by
  have hnone : v.smpID = smpIdNone → smp = [] := by
    intro hid
    rw [smpField, if_pos hid] at hsmp
    exact length_eq_zero_iff.mp hsmp
  rcases hk with rfl | rfl
  · by_cases hid : v.smpID = smpIdNone
    · simp [laterFields, sealed, priceText, smpText, bodyEnd, hid, hnone hid]
    · simp [laterFields, sealed, priceText, smpText, bodyEnd, hid]
  have hempty : price = [] := length_eq_zero_iff.mp hprice
  by_cases hid : v.smpID = smpIdNone
  · simp [laterFields, sealed, priceText, smpText, bodyEnd, hid, hnone hid, hempty]
  · simp [laterFields, sealed, priceText, smpText, bodyEnd, hid, hempty]

/-- The body of a template with other fields. -/
def bodyWith (kind : FrameKind) (sessionID : List UInt8) (botID : UInt64) (v : Values)
    (fields : List (List UInt8)) : List UInt8 :=
  fill (zipWith (fun h f => (h.1, f)) (bodyForm kind sessionID botID v []) fields) bodyEnd

theorem sealed_bodyWith (hk : kind.IsNew) (sessionID : List UInt8)
    (botID seq : UInt64) (msgSeqNum side qty : List UInt8)
    (hprice : price.length = (priceField kind v).length) (hsmp : smp.length = (smpField v).length) :
    sealed soh ([ascii "35=" ++ ascii "D", ascii "49=IICPC-BOT", ascii "56=CONTESTANT",
      ascii "34=" ++ msgSeqNum, ascii "52=" ++ fixTimestampPlaceholder,
      ascii "11=" ++ kind.orderID sessionID botID seq] ++
        laterFields kind v.smpID side qty price smp) =
      bodyWith kind sessionID botID v [msgSeqNum, decimal seq.toNat, side, qty, price, smp] := by
  have h35 : ascii "35=" ++ ascii "D" = ascii "35=D" := by decide
  rw [sealed_append, sealed_laterFields hk side qty hprice hsmp, h35, bodyWith]
  simp [bodyForm, zipWith_cons_cons, zipWith_nil_right, fill, sealed, FrameKind.orderID,
    clordidText, append_assoc, cons_append, nil_append]

/-- **The bytes are those of an order.** -/
theorem Descends.isOrder (h : t.Descends seq) (hs : validIdentifier t.sessionID = true) :
    ∃ o : FixOrder, t.buf = o.bytes t.fixVersion ∧
      o.orderID = t.kind.orderID t.sessionID t.botID seq := by
  obtain ⟨t₀, v, gs, id, ht, hf, -, hseq, rfl⟩ := h
  change validIdentifier t₀.sessionID = true at hs
  simp only [Fills, form, fixForm, bodyForm, cons_append, nil_append,
    forall₂_cons_left_iff, forall₂_nil_left_iff] at hf
  obtain ⟨⟨_, f₀⟩, _, ⟨rfl, hl₀, hc₀⟩, ⟨⟨_, f₁⟩, _, ⟨rfl, hl₁, hc₁⟩, ⟨⟨_, f₂⟩, _, ⟨rfl, hl₂, hc₂⟩,
    ⟨⟨_, f₃⟩, _, ⟨rfl, hl₃, hc₃⟩, ⟨⟨_, f₄⟩, _, ⟨rfl, hl₄, hc₄⟩, ⟨⟨_, f₅⟩, _, ⟨rfl, hl₅, hc₅⟩,
    ⟨⟨_, f₆⟩, _, ⟨rfl, hl₆, hc₆⟩, rfl, rfl⟩, rfl⟩, rfl⟩, rfl⟩, rfl⟩, rfl⟩, rfl⟩ := hf
  obtain rfl : f₁ = decimal seq.toNat := Option.some.inj hseq
  dsimp only at hl₀ hl₁ hl₂ hl₃ hl₄ hl₅ hl₆ hc₀ hc₂ hc₃ hc₄ hc₅ hc₆
  have htame := tame_laterFields t₀.kind v.smpID hc₂ hc₃ hc₄ hc₅
  have hid : soh ∉ t₀.kind.orderID t₀.sessionID t₀.botID seq :=
    notMem_of_valid (valid_orderID _ _ _ hs) (by decide +kernel)
  have hsealed := sealed_bodyWith ht.isNew t₀.sessionID t₀.botID seq f₀ f₂ f₃ hl₄ hl₅
  have hlen : (bodyWith t₀.kind t₀.sessionID t₀.botID v
      [f₀, decimal seq.toNat, f₂, f₃, f₄, f₅]).length =
      (fixBody t₀.kind t₀.sessionID t₀.botID v).length := by
    simp [bodyWith, fixBody, bodyForm, zipWith_cons_cons, zipWith_nil_right, fill,
      length_append, hl₀, hl₁, hl₂, hl₃, hl₄, hl₅]
  refine ⟨⟨ascii "D", f₀, fixTimestampPlaceholder, t₀.kind.orderID t₀.sessionID t₀.botID seq,
    laterFields t₀.kind v.smpID f₂ f₃ f₄ f₅, f₆, by decide, hc₀, by decide, hid,
    fun g hg => (htame g hg).1, fun g hg => (htame g hg).2, hl₆.trans (length_padded _ _), hc₆⟩, ?_, rfl⟩
  rw [FixOrder.bytes, fixText_eq, FixOrder.fields]
  rw [hsealed, hlen, bodyWith]
  simp [bodyForm, zipWith_cons_cons, zipWith_nil_right, fill, fixStart, sealed,
    append_assoc, cons_append, nil_append]

theorem Shaped.descends (ht : t.Shaped v) : t.Descends v.seq := by
  refine ⟨t, v, t.form v, t.smpID, ht, Fills.refl (soh_notMem_form t v), rfl, rfl, ?_⟩
  rw [form, ← fixBytes, ← ht.buf_eq]

/-- **Patching keeps it so.** -/
theorem Descends.patch (h : t.Descends seq) (w : Values)
    (hversion : validIdentifier t.fixVersion = true) (hsession : validIdentifier t.sessionID = true) :
    ∃ t', t.patch w.seq w.qty w.price w.side w.smpID =
        some (t', t'.frame w.seq w.qty w.price w.side w.smpID) ∧
      t'.Serves t.kind t.fixVersion t.sessionID t.botID ∧ t'.Descends w.seq := by
  rw [FixTemplate.patch]
  obtain ⟨t₀, v, gs, id, ht, hf, -, -, rfl⟩ := h
  by_cases hneeded : digitWidth w.seq.toNat ≠ t₀.clordidSeqWidth ∨
      ((w.smpID == smpIdNone) != t₀.smpOff.isNone) = true
  · obtain ⟨t', hbuild, hserves, hshaped⟩ := shaped_build t₀.botID w ht.isNew hversion hsession
    refine ⟨t', ?_, hserves, hshaped.descends⟩
    simp only [if_pos hneeded, hbuild]
    rfl
  have hwidth : digitWidth w.seq.toNat = digitWidth v.seq.toNat := by
    rw [not_or, not_not] at hneeded
    exact hneeded.1.trans ht.width_eq
  obtain ⟨gs', id', hf', hseq, hrewrite⟩ := ht.rewrite_fills hf id w.seq w.qty w.price w.side w.smpID
    hwidth
  refine ⟨{ t₀ with buf := fill gs' [soh], smpID := id' }, ?_, ⟨rfl, rfl, rfl, rfl⟩,
    t₀, v, gs', id', ht, hf', hwidth, hseq, rfl⟩
  simp only [if_neg hneeded, hrewrite]
  rfl

end FixTemplate

/-! ### JSON -/

namespace JsonTemplate

/-- **A template that was built for some order and written over since.** -/
def Descends (t : JsonTemplate) (seq : UInt64) : Prop :=
  ∃ (t₀ : JsonTemplate) (v : Values) (gs : List (List UInt8 × List UInt8)) (id : UInt32),
    t₀.Shaped v ∧ Fills (fun _ => True) (t₀.form v) gs ∧
      digitWidth seq.toNat = digitWidth v.seq.toNat ∧
      gs[0]?.map Prod.snd = some (decimal seq.toNat) ∧
      t = { t₀ with buf := fill gs (jsonEnd v), smpID := id }

section

variable {t₀ : JsonTemplate} {v : Values} {hs gs : List (List UInt8 × List UInt8)} {i w : Nat}
  {f : List UInt8 × List UInt8}

theorem writeAt_fills (h : Fills (fun _ => True) hs gs) (last : List UInt8) (n : Nat)
    (hi : hs[i]? = some f) (hl : w ≤ f.2.length) :
    ∃ gs', Fills (fun _ => True) hs gs' ∧
      writeAt (fill gs last) (some (fieldAt hs i)) w n = fill gs' last ∧ ∀ j ≠ i, gs'[j]? = gs[j]? := by
  obtain ⟨gs', o, m, hf', hwrite, hother, _⟩ := write_fills h last n hi hl fun _ _ => trivial
  refine ⟨gs', hf', ?_, hother⟩
  rw [writeAt]
  simp [hwrite]

/-- **Writing over a filling** gives one with the number of the new order. -/
theorem Shaped.rewrite_fills (ht : t₀.Shaped v) (hf : Fills (fun _ => True) (t₀.form v) gs)
    (id : UInt32) (seq qty price : UInt64) (side : Side) (smpID : UInt32)
    (hw : digitWidth seq.toNat = digitWidth v.seq.toNat)
    (hside : (sideName side).length = (sideName v.side).length) :
    ∃ gs' id', Fills (fun _ => True) (t₀.form v) gs' ∧
      gs'[0]?.map Prod.snd = some (decimal seq.toNat) ∧
      JsonTemplate.rewrite { t₀ with buf := fill gs (jsonEnd v), smpID := id } seq qty price side smpID =
        { t₀ with buf := fill gs' (jsonEnd v), smpID := id' } := by
  obtain ⟨gs₁, o₁, n₁, hf₁, h₁, -, hseq⟩ := write_fills hf (jsonEnd v) seq.toNat (i := 0) rfl
    (length_padded _ _).ge fun _ _ => trivial
  obtain ⟨gs₂, hf₂, h₂, e₂⟩ : ∃ gs₂, Fills (fun _ => True) (t₀.form v) gs₂ ∧
      (if smpID ≠ id then writeAt (fill gs₁ (jsonEnd v)) t₀.smpOff smpIdWidth smpID.toNat
        else fill gs₁ (jsonEnd v)) = fill gs₂ (jsonEnd v) ∧ gs₂[0]? = gs₁[0]? := by
    rw [ht.smp_eq]
    by_cases hnone : v.smpID = smpIdNone
    · rw [if_pos hnone, writeAt, ite_self]
      exact ⟨gs₁, hf₁, rfl, rfl⟩
    by_cases hid : smpID ≠ id
    · obtain ⟨gs₂, hf₂, hwrite, hother⟩ := writeAt_fills hf₁ (jsonEnd v) smpID.toNat (i := 4)
        (f := (jsonSmpText v, smpField v)) rfl (FixTemplate.smpIdWidth_le_length hnone)
      rw [if_neg hnone, if_pos hid]
      exact ⟨gs₂, hf₂, hwrite, hother 0 (by omega)⟩
    · rw [if_neg hid]
      exact ⟨gs₁, hf₁, rfl, rfl⟩
  obtain ⟨gs₃, hf₃, h₃, e₃⟩ := writeAt_fills hf₂ (jsonEnd v) qty.toNat (i := 2) rfl
    (length_padded _ _).ge
  obtain ⟨gs₄, hf₄, h₄, e₄⟩ : ∃ gs₄, Fills (fun _ => True) (t₀.form v) gs₄ ∧
      writeAt (fill gs₃ (jsonEnd v)) t₀.priceOff t₀.priceWidth price.toNat = fill gs₄ (jsonEnd v) ∧
      gs₄[0]? = gs₃[0]? := by
    rw [ht.price_eq]
    by_cases hk : t₀.kind = .new
    · have hlen : t₀.priceWidth ≤ (memberField t₀.kind v).length := by
        rw [ht.priceWidth_eq hk, hk]
        exact (length_padded _ _).ge
      obtain ⟨gs₄, hf₄, hwrite, hother⟩ := writeAt_fills hf₃ (jsonEnd v) price.toNat (i := 3)
        (f := (memberText t₀.kind, memberField t₀.kind v)) rfl hlen
      rw [if_pos hk]
      exact ⟨gs₄, hf₄, hwrite, hother 0 (by omega)⟩
    · rw [if_neg hk, writeAt]
      exact ⟨gs₃, hf₃, rfl, rfl⟩
  obtain ⟨g, hg, hglen, -⟩ := hf₄.get (i := 1) rfl
  have hover := overwrite_fill (jsonEnd v) hg (hglen.trans hside.symm)
  refine ⟨putField gs₄ 1 (sideName side), if t₀.smpOff.isSome then smpID else id,
    hf₄.put (i := 1) rfl hside trivial, ?_, ?_⟩
  · rw [getElem?_putField (by omega), e₄, e₃ 0 (by omega), e₂, hseq (length_padded _ _).symm, ← hw]
    rfl
  rw [hf₄.fieldAt_eq] at hover
  rw [← ht.clordid_eq, ← ht.width_eq] at h₁
  rw [← ht.qty_eq, ← ht.qtyWidth_eq] at h₃
  simp [JsonTemplate.rewrite, h₁, h₂, h₃, h₄, ht.side_eq, hover]

/-- The payload of a template with other fields, behind some text. -/
def payloadWith (kind : FrameKind) (sessionID : List UInt8) (botID : UInt64) (v : Values)
    (start : List UInt8) (fields : List (List UInt8)) : List UInt8 :=
  fill (zipWith (fun h f => (h.1, f)) (jsonForm kind sessionID botID v start) fields) (jsonEnd v)

theorem payloadWith_order (kind : FrameKind) {sessionID : List UInt8} (botID seq : UInt64) (v : Values)
    (side qty price smp : List UInt8) (hs : validIdentifier sessionID = true) :
    ∃ o : JsonOrder, o.orderID = kind.orderID sessionID botID seq ∧ ∀ start,
      payloadWith kind sessionID botID v start [decimal seq.toNat, side, qty, price, smp] =
        start ++ o.bytes := by
  have hid := valid_orderID kind botID seq hs
  have hkey : ascii "\"cl_ord_id\"" = quote :: (ascii "cl_ord_id" ++ [quote]) := by decide
  have hcolon : ascii ":\"" = ascii ":" ++ [quote] := by decide
  have hopen : ascii "\x7b" = [123] := by decide
  refine ⟨⟨ascii "\x7b", kind.orderID sessionID botID seq,
    sealed quote [ascii ",", ascii "symbol", ascii ":", ascii "IICPC", ascii ",", ascii "side",
      ascii ":"] ++ (side ++ (quote :: (sealed quote [ascii ",", ascii "qty"] ++ ascii ":") ++ (qty ++
        (memberText kind ++ (price ++ (jsonSmpText v ++ (smp ++ jsonEnd v))))))), by decide,
    (validIdentifier_iff.mp hid).1, notMem_of_valid hid (by decide +kernel)⟩, rfl, fun start => ?_⟩
  rw [JsonOrder.bytes, hkey, hcolon]
  simp [hopen, payloadWith, jsonForm, zipWith_cons_cons, zipWith_nil_right, fill, sealed,
    FrameKind.orderID, clordidText, append_assoc, cons_append, nil_append]

variable {t : JsonTemplate} {seq : UInt64}

/-- **The bytes are those of an order.** -/
theorem Descends.isOrder (h : t.Descends seq)
    (hs : validIdentifier t.sessionID = true) (fixVersion : List UInt8) :
    IsOrder t.protocol fixVersion t.targetHost (t.kind.orderID t.sessionID t.botID seq) t.buf := by
  obtain ⟨t₀, v, gs, id, ht, hf, -, hseq, rfl⟩ := h
  change validIdentifier t₀.sessionID = true at hs
  simp only [Fills, form, jsonForm, forall₂_cons_left_iff, forall₂_nil_left_iff] at hf
  obtain ⟨⟨_, f₀⟩, _, ⟨rfl, hl₀, -⟩, ⟨⟨_, f₁⟩, _, ⟨rfl, hl₁, -⟩, ⟨⟨_, f₂⟩, _, ⟨rfl, hl₂, -⟩,
    ⟨⟨_, f₃⟩, _, ⟨rfl, hl₃, -⟩, ⟨⟨_, f₄⟩, _, ⟨rfl, hl₄, -⟩, rfl, rfl⟩, rfl⟩, rfl⟩, rfl⟩, rfl⟩ := hf
  obtain rfl : f₀ = decimal seq.toNat := Option.some.inj hseq
  obtain ⟨o, ho, hbytes⟩ := payloadWith_order t₀.kind t₀.botID seq v f₁ f₂ f₃ f₄ hs
  have hlen : o.bytes.length = (jsonBody t₀.kind t₀.sessionID t₀.botID v).length := by
    rw [← nil_append o.bytes, ← hbytes []]
    simp [payloadWith, jsonBody, jsonForm, zipWith_cons_cons, zipWith_nil_right, fill,
      length_append, hl₀, hl₁, hl₂, hl₃, hl₄]
  have hbuf := hbytes (jsonHead t₀.protocol t₀.targetHost o.bytes.length)
  rw [hlen] at hbuf
  change IsOrder t₀.protocol fixVersion t₀.targetHost (t₀.kind.orderID t₀.sessionID t₀.botID seq)
    (payloadWith t₀.kind t₀.sessionID t₀.botID v _ [decimal seq.toNat, f₁, f₂, f₃, f₄])
  rw [hbuf, ← hlen]
  cases hp : t₀.protocol with
  | fix => exact absurd hp ht.notFix
  | rest => exact ⟨o, .new, ascii "/orders", by decide, by decide, rfl, ho⟩
  | ws => exact ⟨o, rfl, ho⟩

theorem Shaped.descends (ht : t.Shaped v) : t.Descends v.seq := by
  refine ⟨t, v, t.form v, t.smpID, ht, Fills.refl fun _ _ => trivial, rfl, rfl, ?_⟩
  rw [form, ← jsonBytes_eq_fill, ← ht.buf_eq]

/-- **Patching keeps it so.** -/
theorem Descends.patch (h : t.Descends seq) (w : Values)
    (hsession : validIdentifier t.sessionID = true) :
    ∃ t', t.patch w.seq w.qty w.price w.side w.smpID =
        some (t', t'.frame w.seq w.qty w.price w.side w.smpID) ∧
      t'.Serves t.kind t.protocol t.sessionID t.botID t.targetHost ∧ t'.Descends w.seq := by
  rw [JsonTemplate.patch]
  cases hneeded : t.needsRebuild w.seq w.qty w.price w.side w.smpID with
  | true =>
    obtain ⟨t₀, v, gs, id, ht, hf, -, -, rfl⟩ := h
    obtain ⟨t', hbuild, hserves, hshaped⟩ :=
      shaped_build t₀.targetHost t₀.botID w ht.isNew ht.notFix hsession
    refine ⟨t', ?_, hserves, hshaped.descends⟩
    simp only [if_true, hbuild]
    rfl
  | false =>
    obtain ⟨t₀, v, gs, id, ht, hf, -, -, rfl⟩ := h
    simp only [needsRebuild, Bool.or_eq_false_iff, bne_eq_false_iff_eq] at hneeded
    obtain ⟨⟨⟨⟨hseqw, hsidew⟩, -⟩, -⟩, -⟩ := hneeded
    have hwidth : digitWidth w.seq.toNat = digitWidth v.seq.toNat := hseqw.trans ht.width_eq
    obtain ⟨gs', id', hf', hseq, hrewrite⟩ := ht.rewrite_fills hf id w.seq w.qty w.price w.side w.smpID
      hwidth (hsidew.trans ht.sideLen_eq)
    refine ⟨{ t₀ with buf := fill gs' (jsonEnd v), smpID := id' }, ?_, ⟨rfl, rfl, rfl, rfl, rfl⟩,
      t₀, v, gs', id', ht, hf', hwidth, hseq, rfl⟩
    simp only [Bool.false_eq_true, if_false, hrewrite]
    rfl

end

end JsonTemplate

/-! ### A task -/

/-- What a task does next, as `content.rs` has it. -/
inductive Action
  | newLimit (seq : UInt32) (price qty : UInt64) (side : Side)
  | newMarket (seq : UInt32) (qty : UInt64) (side : Side)
  | cancel (seq : UInt32) (origOrderID : List UInt8) (price qty : UInt64) (side : Side)
  | replace (seq : UInt32) (origOrderID : List UInt8) (price qty : UInt64) (side : Side)
  deriving DecidableEq, Repr

namespace Action

def seq : Action → UInt32
  | .newLimit seq .. | .newMarket seq .. | .cancel seq .. | .replace seq .. => seq

def kind : Action → FrameKind
  | .newLimit .. => .new
  | .newMarket .. => .market
  | .cancel .. => .cancel
  | .replace .. => .replace

/-- The order that a cancel or a replace is about. -/
def origOrderID : Action → Option (List UInt8)
  | .newLimit .. | .newMarket .. => none
  | .cancel _ id .. | .replace _ id .. => some id

end Action

namespace TemplateCache

/-- `render_frame` of the worker. -/
def renderFrame (c : TemplateCache) : Action → Option (TemplateCache × OrderFrame)
  | .newLimit seq price qty side => c.renderNew seq.toUInt64 price qty side
  | .newMarket seq qty side => c.renderMarket seq.toUInt64 qty side
  | .cancel seq id price qty side => (c.renderCancel seq.toUInt64 id price qty side).map (c, ·)
  | .replace seq id price qty side => (c.renderReplace seq.toUInt64 id price qty side).map (c, ·)

/-- The frames of a task, one after the other. -/
def renderFrames (c : TemplateCache) : List Action → Option (TemplateCache × List OrderFrame)
  | [] => some (c, [])
  | action :: actions => do
      let (c, frame) ← c.renderFrame action
      let (c, frames) ← c.renderFrames actions
      return (c, frame :: frames)

/-- **Every template was built for some order.** -/
structure Stocked (c : TemplateCache) : Prop where
  version : validIdentifier c.fixVersion = true
  session : validIdentifier c.sessionID = true
  fix : ∀ kind t, c.fix kind = some t →
    t.Serves kind c.fixVersion c.sessionID c.botID ∧ ∃ seq, t.Descends seq
  json : ∀ kind t, c.json kind = some t →
    t.Serves kind c.protocol c.sessionID c.botID c.targetHost ∧ ∃ seq, t.Descends seq

section

variable {c : TemplateCache} {kind : FrameKind}

/-- **A new order** is rendered, and the cache stays as it should be. -/
theorem Stocked.renderFast (hc : c.Stocked) (hk : kind.IsNew) (seq qty price : UInt64) (side : Side) :
    ∃ d frame, c.renderFast kind seq qty price side = some (d, frame) ∧ d.Stocked ∧ SameParts c d ∧
      frame.orderID = kind.orderID c.sessionID c.botID seq ∧
      IsOrder c.protocol c.fixVersion c.targetHost frame.orderID frame.bytes := by
  let v : Values := ⟨seq, qty, price, side, c.smpFor seq⟩
  by_cases hp : c.protocol = .fix
  · obtain ⟨t, ht, ⟨hkind, hversion, hsession, hbot⟩, _, hdesc⟩ :=
      fixTemplate_of (v := v) (hc.fix _) (fun _ h => ⟨_, h.descends⟩) hk hc.version hc.session
    obtain ⟨t', ht', hserves, hdesc'⟩ := hdesc.patch v (hversion ▸ hc.version) (hsession ▸ hc.session)
    rw [hkind, hversion, hsession, hbot] at hserves
    refine ⟨_, _, renderFast_fix hp (v := v) rfl ht ht',
      ⟨hc.version, hc.session, fun k u hu => update_eq_some hc.fix ⟨hserves, _, hdesc'⟩ hu, hc.json⟩,
      ⟨rfl, rfl, rfl, rfl, rfl, rfl⟩, ?_, ?_⟩
    · obtain ⟨hkind', _, hsession', hbot'⟩ := hserves
      rw [FixTemplate.frame, hkind', hsession', hbot']
    obtain ⟨o, hbytes, ho⟩ := hdesc'.isOrder (hserves.2.2.1 ▸ hc.session)
    rw [hserves.2.1] at hbytes
    rw [hp]
    exact ⟨o, hbytes, ho⟩
  · obtain ⟨t, ht, ⟨hkind, hproto, hsession, hbot, hhost⟩, _, hdesc⟩ :=
      jsonTemplate_of (v := v) (hc.json _) (fun _ h => ⟨_, h.descends⟩) hk hp hc.session
    obtain ⟨t', ht', hserves, hdesc'⟩ := hdesc.patch v (hsession ▸ hc.session)
    rw [hkind, hproto, hsession, hbot, hhost] at hserves
    refine ⟨_, _, renderFast_json hp (v := v) rfl ht ht',
      ⟨hc.version, hc.session, hc.fix, fun k u hu => update_eq_some hc.json ⟨hserves, _, hdesc'⟩ hu⟩,
      ⟨rfl, rfl, rfl, rfl, rfl, rfl⟩, ?_, ?_⟩
    · obtain ⟨hkind', _, hsession', hbot', _⟩ := hserves
      rw [JsonTemplate.frame, hkind', hsession', hbot']
    · have horder := hdesc'.isOrder (hserves.2.2.1 ▸ hc.session) c.fixVersion
      rw [hserves.2.1, hserves.2.2.2.2] at horder
      exact horder

/-- **Every action is rendered as an order**, and the cache stays as it should be. -/
theorem Stocked.renderFrame (hc : c.Stocked) {action : Action}
    (horig : ∀ id ∈ action.origOrderID, validIdentifier id = true) :
    ∃ d frame, c.renderFrame action = some (d, frame) ∧ d.Stocked ∧ SameParts c d ∧
      frame.orderID = action.kind.orderID c.sessionID c.botID action.seq.toUInt64 ∧
      IsOrder c.protocol c.fixVersion c.targetHost frame.orderID frame.bytes := by
  cases action with
  | newLimit seq price qty side => exact hc.renderFast (.inl rfl) _ _ _ _
  | newMarket seq qty side => exact hc.renderFast (.inr rfl) _ _ _ _
  | cancel seq id price qty side =>
    obtain ⟨frame, hframe, hid, horder⟩ := isOrder_buildFrame .cancel hc.session horig fun _ => rfl
    exact ⟨c, frame, congrArg (Option.map (c, ·)) hframe, hc, ⟨rfl, rfl, rfl, rfl, rfl, rfl⟩, hid, horder⟩
  | replace seq id price qty side =>
    obtain ⟨frame, hframe, hid, horder⟩ := isOrder_buildFrame .replace hc.session horig fun _ => rfl
    exact ⟨c, frame, congrArg (Option.map (c, ·)) hframe, hc, ⟨rfl, rfl, rfl, rfl, rfl, rfl⟩, hid, horder⟩

/-- **A task renders an order for each action.** -/
theorem Stocked.renderFrames {c : TemplateCache} (hc : c.Stocked) {actions : List Action} :
    (∀ a ∈ actions, ∀ id ∈ a.origOrderID, validIdentifier id = true) →
    ∃ d frames, c.renderFrames actions = some (d, frames) ∧
      Forall₂ (fun (a : Action) (frame : OrderFrame) =>
        frame.orderID = a.kind.orderID c.sessionID c.botID a.seq.toUInt64 ∧
        IsOrder c.protocol c.fixVersion c.targetHost frame.orderID frame.bytes) actions frames := by
  induction actions generalizing c with
  | nil => exact fun _ => ⟨c, [], rfl, .nil⟩
  | cons action actions ih =>
    intro h
    obtain ⟨d, frame, hrender, hd, ⟨hp, hv, hs, hh, hb, _⟩, hframe⟩ :=
      hc.renderFrame (h action (.head _))
    obtain ⟨e, frames, hrest, hframes⟩ := ih hd fun a ha => h a (.tail action ha)
    rw [hp, hv, hs, hh, hb] at hframes
    refine ⟨e, frame :: frames, ?_, .cons hframe hframes⟩
    rw [TemplateCache.renderFrames, hrender]
    simp only [Option.bind_eq_bind, Option.bind_some, hrest]
    rfl

end

end TemplateCache

end MatchBench.Bot
