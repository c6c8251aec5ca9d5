import MatchBench.Bot.Write

/-!
# Patching a FIX frame

The bytes of a FIX template are a form with seven fields: the message number, the number
in the order id, the side, the quantity, the price, the id against self matches and the
checksum (`fixForm`).  Building a template finds the fields where they are
(`shaped_build`): a tag stands only at the beginning of a field, and no field before it
begins like it.

The text between the fields depends on the widths of the order id and on whether there is
an id against self matches, not on the values.  So a template whose widths fit takes the
values of the next order in place, and its bytes are those of a new template
(`Shaped.rewrite`), provided the id has three digits at most.
-/

namespace MatchBench.Bot

open List
open Capture (ascii soh)

/-- The values of an order that a frame carries. -/
structure Values where
  seq : UInt64
  qty : UInt64
  price : UInt64
  side : Side
  smpID : UInt32
  deriving DecidableEq, Repr

/-- The id has three digits at most, or there is none. -/
def Values.Narrow (v : Values) : Prop := v.smpID = smpIdNone ∨ v.smpID.toNat < 1000

/-! ### The form -/

section

variable (kind : FrameKind) (sessionID : List UInt8) (botID : UInt64) (v : Values)

/-- The order id up to its number. -/
def clordidText : List UInt8 := sessionID ++ (ascii "_" ++ (decimal botID.toNat ++ ascii "_"))

def priceText : List UInt8 :=
  match kind with
  | .new => soh :: (ascii "40=2" ++ soh :: ascii "44=")
  | _ => soh :: ascii "40=1"

def priceField : List UInt8 :=
  match kind with
  | .new => padded fixNumWidth v.price.toNat
  | _ => []

def smpText : List UInt8 := if v.smpID = smpIdNone then [] else soh :: ascii "7928="

def smpField : List UInt8 :=
  if v.smpID = smpIdNone then [] else padU64 v.smpID.toNat smpIdWidth

/-- The body after some text. -/
def bodyForm (start : List UInt8) : List (List UInt8 × List UInt8) :=
  [(start ++ (sealed soh [ascii "35=D", ascii "49=IICPC-BOT", ascii "56=CONTESTANT"] ++ ascii "34="),
      padded fixNumWidth (v.seq + 1).toNat),
    (soh :: (sealed soh [ascii "52=" ++ fixTimestampPlaceholder] ++
      (ascii "11=" ++ clordidText sessionID botID)), decimal v.seq.toNat),
    (ascii "_" ++ kind.letter :: soh ::
      (sealed soh [ascii "21=1", ascii "55=IICPC"] ++ ascii "54="), sideTag v.side),
    (soh :: ascii "38=", padded fixNumWidth v.qty.toNat),
    (priceText kind, priceField kind v),
    (smpText v, smpField v)]

/-- The end of the body. -/
def bodyEnd : List UInt8 := soh :: (ascii "59=0" ++ [soh])

def fixBody : List UInt8 := fill (bodyForm kind sessionID botID v []) bodyEnd

variable (fixVersion : List UInt8)

/-- The tags 8 and 9. -/
def fixStart (n : Nat) : List UInt8 :=
  sealed soh [ascii "8=" ++ fixVersion, ascii "9=" ++ decimal n]

/-- The sum of the bytes before the checksum. -/
def fixSum : Nat :=
  byteSum (fixStart fixVersion (fixBody kind sessionID botID v).length) +
    byteSum (fixBody kind sessionID botID v)

/-- **The form of a FIX frame.** -/
def fixForm : List (List UInt8 × List UInt8) :=
  bodyForm kind sessionID botID v (fixStart fixVersion (fixBody kind sessionID botID v).length) ++
    [(bodyEnd ++ ascii "10=", padded 3 (fixSum kind sessionID botID v fixVersion % 256))]

def fixBytes : List UInt8 := fill (fixForm kind sessionID botID v fixVersion) [soh]

end

section

variable {kind : FrameKind} {sessionID fixVersion : List UInt8} {botID : UInt64} {v : Values}

/-- Only new orders have templates. -/
def FrameKind.IsNew (kind : FrameKind) : Prop := kind = .new ∨ kind = .market

theorem fill_bodyForm (start last : List UInt8) :
    fill (bodyForm kind sessionID botID v start) last =
      start ++ fill (bodyForm kind sessionID botID v []) last := by
  simp [bodyForm, fill, append_assoc, nil_append]

theorem fill_concat (hs : List (List UInt8 × List UInt8)) (c f last : List UInt8) :
    fill (hs ++ [(c, f)]) last = fill hs (c ++ (f ++ last)) := by
  induction hs with
  | nil => rfl
  | cons h hs ih => simp [cons_append, fill, ih]

theorem fill_last (hs : List (List UInt8 × List UInt8)) (a b : List UInt8) :
    fill hs (a ++ b) = fill hs a ++ b := by
  induction hs with
  | nil => rfl
  | cons h hs ih => simp [fill, ih, append_assoc]

theorem buildFixBodyPadded_eq (hk : kind.IsNew) :
    buildFixBodyPadded kind v.seq (kind.orderID sessionID botID v.seq) v.side v.qty v.price v.smpID =
      some (fixBody kind sessionID botID v) := by
  have h₁ : ascii "35=D\x0149=IICPC-BOT\x0156=CONTESTANT\x0134=" =
      sealed soh [ascii "35=D", ascii "49=IICPC-BOT", ascii "56=CONTESTANT"] ++ ascii "34=" := by
    decide
  have h₂ : ascii "\x0152=" = soh :: ascii "52=" := by decide
  have h₃ : ascii "\x0111=" = soh :: ascii "11=" := by decide
  have h₄ : ascii "\x0121=1\x0155=IICPC\x0154=" =
      soh :: (sealed soh [ascii "21=1", ascii "55=IICPC"] ++ ascii "54=") := by decide
  have h₅ : ascii "\x0138=" = soh :: ascii "38=" := by decide
  have h₆ : ascii "\x0140=2\x0144=" = soh :: (ascii "40=2" ++ soh :: ascii "44=") := by decide
  have h₇ : ascii "\x0140=1" = soh :: ascii "40=1" := by decide
  have h₈ : ascii "59=0\x01" = ascii "59=0" ++ [soh] := by decide
  rcases hk with rfl | rfl <;>
  · simp only [buildFixBodyPadded, fixBody, bodyForm, fill, bodyEnd, priceText, priceField,
      smpText, smpField, fixSmpTag, FrameKind.orderID, clordidText, padU64_fixNum, h₁, h₂, h₃, h₄,
      h₅, h₆, h₇, h₈]
    split <;> simp [sealed]

theorem finalizeFix_eq :
    finalizeFix fixVersion (fixBody kind sessionID botID v) =
      fixBytes kind sessionID botID v fixVersion := by
  have h₉ : ascii "\x019=" = soh :: ascii "9=" := by decide
  have hfront : ascii "8=" ++ fixVersion ++ ascii "\x019=" ++
      decimal (fixBody kind sessionID botID v).length ++ [soh] ++ fixBody kind sessionID botID v =
      fixStart fixVersion (fixBody kind sessionID botID v).length ++
        fixBody kind sessionID botID v := by
    simp [fixStart, sealed, h₉]
  rw [finalizeFix]
  simp only [hfront]
  rw [byteSum_append, padU64_eq (lt_trans (Nat.mod_lt _ (by omega)) (by decide : 256 < 10 ^ 3)),
    fixBytes, fixForm, fill_concat, fill_bodyForm, append_assoc bodyEnd, fill_last, ← fixBody]
  simp only [append_assoc]
  rfl

end

/-! ### Finding the fields -/

variable {i : Nat} {h : List UInt8 × List UInt8}

/-- **A tag is found before its field**: the text up to the field is fields that do not
begin like the tag, and the tag. -/
theorem find_tag {hs : List (List UInt8 × List UInt8)}
    {last first head more : List UInt8} {names values : List (List UInt8)} (hi : hs[i]? = some h)
    (htext : textBefore hs i =
      sealed soh (first :: zipWith (· ++ ·) names values) ++ (head ++ more))
    (hfirst : soh ∉ first)
    (hnames : ∀ n ∈ names, soh ∉ n ∧ head.length ≤ n.length ∧ head ≠ n.take head.length)
    (hvalues : ∀ x ∈ values, soh ∉ x) :
    EndsAt (fill hs last) (soh :: (head ++ more)) (fieldAt hs i) := by
  refine find_field hi htext (fun g hg => ?_) (blocks_of_names (k := head.length) (by simp) ?_)
  · rcases mem_cons.mp hg with rfl | hg
    · exact hfirst
    · exact notMem_of_names (fun n hn => (hnames n hn).1) hvalues g hg
  · intro n hn
    rw [take_left]
    exact (hnames n hn).2

section

variable {kind : FrameKind} {sessionID fixVersion : List UInt8} {botID : UInt64} {v : Values}

theorem soh_not_mem {value : List UInt8} (h : validIdentifier value = true) : soh ∉ value := by
  intro hm
  rw [validIdentifier, Bool.and_eq_true, all_eq_true] at h
  exact absurd (h.2 soh hm) (by decide)

theorem soh_not_mem_clordidText (h : validIdentifier sessionID = true) :
    soh ∉ clordidText sessionID botID := by
  simp only [clordidText, mem_append, not_or]
  exact ⟨soh_not_mem h, by decide, not_mem_decimal (by decide), by decide⟩

theorem soh_not_mem_orderID (h : validIdentifier sessionID = true) :
    soh ∉ clordidText sessionID botID ++ (decimal v.seq.toNat ++ (ascii "_" ++ [kind.letter])) := by
  simp only [mem_append, not_or]
  exact ⟨soh_not_mem_clordidText h, not_mem_decimal (by decide), by decide, by cases kind <;> decide⟩

/-- The fields of a frame up to the price: their names, and what stands after those. -/
def fixNames : List (List UInt8) :=
  [ascii "9=", ascii "35=D", ascii "49=IICPC-BOT", ascii "56=CONTESTANT", ascii "34=",
    ascii "52=" ++ fixTimestampPlaceholder, ascii "11=", ascii "21=1", ascii "55=IICPC",
    ascii "54=", ascii "38="]

def fixValues (kind : FrameKind) (sessionID : List UInt8) (botID : UInt64) (v : Values) :
    List (List UInt8) :=
  [decimal (fixBody kind sessionID botID v).length, [], [], [],
    padded fixNumWidth (v.seq + 1).toNat, [],
    clordidText sessionID botID ++ (decimal v.seq.toNat ++ (ascii "_" ++ [kind.letter])), [], [],
    sideTag v.side, padded fixNumWidth v.qty.toNat]

theorem soh_not_mem_fixValues (h : validIdentifier sessionID = true) :
    ∀ x ∈ fixValues kind sessionID botID v, soh ∉ x := by
  simp only [fixValues, forall_mem_cons, not_mem_nil, not_false_eq_true, true_and,
    false_implies, implies_true, and_true]
  exact ⟨not_mem_decimal (by decide), not_mem_padded (by decide), soh_not_mem_orderID h,
    by cases v.side <;> decide, not_mem_padded (by decide)⟩

section

variable (hv : validIdentifier fixVersion = true) (hs : validIdentifier sessionID = true)

include hv hs

theorem find_fixTag (k : Nat) (head more text : List UInt8)
    (extra extraValues : List (List UInt8)) (htag : text = head ++ more)
    (hi : (fixForm kind sessionID botID v fixVersion)[i]? = some h)
    (htext : textBefore (fixForm kind sessionID botID v fixVersion) i =
      sealed soh ((ascii "8=" ++ fixVersion) :: zipWith (· ++ ·) (fixNames.take k ++ extra)
        ((fixValues kind sessionID botID v).take k ++ extraValues)) ++ text)
    (hnames : ∀ n ∈ fixNames.take k ++ extra,
      soh ∉ n ∧ head.length ≤ n.length ∧ head ≠ n.take head.length)
    (hextra : ∀ x ∈ extraValues, soh ∉ x) :
    EndsAt (fixBytes kind sessionID botID v fixVersion) (soh :: text)
      (fieldAt (fixForm kind sessionID botID v fixVersion) i) := by
  subst htag
  refine find_tag hi htext ?_ hnames fun x hx => ?_
  · rw [mem_append, not_or]
    exact ⟨by decide, soh_not_mem hv⟩
  · rcases mem_append.mp hx with hx | hx
    · exact soh_not_mem_fixValues hs x (mem_of_mem_take hx)
    · exact hextra x hx

variable (kind botID v)

theorem find_tag34 : EndsAt (fixBytes kind sessionID botID v fixVersion) (ascii "\x0134=")
    (fieldAt (fixForm kind sessionID botID v fixVersion) 0) := by
  refine find_fixTag hv hs 4 (ascii "34") (ascii "=") (ascii "34=") [] [] (by decide) rfl ?_
    (by decide) (by simp)
  simp [fixForm, bodyForm, textBefore, fixStart, sealed, fixNames, fixValues]

theorem find_clordid : EndsAt (fixBytes kind sessionID botID v fixVersion)
    (ascii "\x0111=" ++ sessionID ++ ascii "_" ++ decimal botID.toNat ++ ascii "_")
    (fieldAt (fixForm kind sessionID botID v fixVersion) 1) := by
  have h₁ : ascii "11=" = ascii "11" ++ ascii "=" := by decide
  have h : ascii "\x0111=" ++ sessionID ++ ascii "_" ++ decimal botID.toNat ++ ascii "_" =
      soh :: (ascii "11" ++ (ascii "=" ++ clordidText sessionID botID)) := by
    have h₂ : ascii "\x0111=" = soh :: (ascii "11" ++ ascii "=") := by decide
    rw [h₂]
    simp [clordidText]
  rw [h]
  refine find_fixTag hv hs 6 (ascii "11") _ _ [] [] rfl rfl ?_ (by decide) (by simp)
  simp [fixForm, bodyForm, textBefore, fixStart, sealed, fixNames, fixValues, h₁]

theorem find_tag54 : EndsAt (fixBytes kind sessionID botID v fixVersion) (ascii "\x0154=")
    (fieldAt (fixForm kind sessionID botID v fixVersion) 2) := by
  refine find_fixTag hv hs 9 (ascii "54") (ascii "=") (ascii "54=") [] [] (by decide) rfl ?_
    (by decide) (by simp)
  simp [fixForm, bodyForm, textBefore, fixStart, sealed, fixNames, fixValues]

theorem find_tag38 : EndsAt (fixBytes kind sessionID botID v fixVersion) (ascii "\x0138=")
    (fieldAt (fixForm kind sessionID botID v fixVersion) 3) := by
  refine find_fixTag hv hs 10 (ascii "38") (ascii "=") (ascii "38=") [] [] (by decide) rfl ?_
    (by decide) (by simp)
  simp [fixForm, bodyForm, textBefore, fixStart, sealed, fixNames, fixValues]

theorem find_tag44 : EndsAt (fixBytes .new sessionID botID v fixVersion) (ascii "\x0144=")
    (fieldAt (fixForm .new sessionID botID v fixVersion) 4) := by
  refine find_fixTag hv hs 11 (ascii "44") (ascii "=") (ascii "44=") [ascii "40=2"] [[]]
    (by decide) rfl ?_ (by decide) (by simp)
  simp [fixForm, bodyForm, textBefore, fixStart, sealed, fixNames, fixValues, priceText]

theorem find_tag7928 (hk : kind.IsNew) (hsmp : v.smpID ≠ smpIdNone) :
    EndsAt (fixBytes kind sessionID botID v fixVersion) (ascii "\x017928=")
      (fieldAt (fixForm kind sessionID botID v fixVersion) 5) := by
  rcases hk with rfl | rfl
  · refine find_fixTag hv hs 11 (ascii "79") (ascii "28=") (ascii "7928=") [ascii "40=2", ascii "44="]
      [[], padded fixNumWidth v.price.toNat] (by decide) rfl ?_ (by decide) ?_
    · simp [fixForm, bodyForm, textBefore, fixStart, sealed, fixNames, fixValues, priceText,
        priceField, smpText, hsmp]
    · simp only [forall_mem_cons, not_mem_nil, not_false_eq_true, true_and,
        false_implies, implies_true, and_true]
      exact not_mem_padded (by decide)
  · refine find_fixTag hv hs 11 (ascii "79") (ascii "28=") (ascii "7928=") [ascii "40=1"] [[]]
      (by decide) rfl ?_ (by decide) (by simp)
    simp [fixForm, bodyForm, textBefore, fixStart, sealed, fixNames, fixValues, priceText,
      priceField, smpText, hsmp]

end

theorem find_tag52 (sessionID fixVersion : List UInt8) (kind : FrameKind) (botID : UInt64)
    (v : Values) : ∃ p, findTag52Offset (fixBytes kind sessionID botID v fixVersion) = some p := by
  obtain ⟨pre, post, h⟩ : ∃ pre post, fixBytes kind sessionID botID v fixVersion =
      pre ++ ((ascii "52=" ++ fixTimestampPlaceholder) ++ post) := by
    refine ⟨textBefore (fixForm kind sessionID botID v fixVersion) 0 ++
      (padded fixNumWidth (v.seq + 1).toNat ++ [soh]), soh :: (ascii "11=" ++
        (clordidText sessionID botID ++ fill ((fixForm kind sessionID botID v fixVersion).tail.modify 0
          (fun x => ([], x.2))) [soh])), ?_⟩
    simp [fixBytes, fixForm, bodyForm, fill, textBefore, sealed]
  have hne : ascii "52=" ++ fixTimestampPlaceholder ≠ [] := by decide
  obtain ⟨p, hp⟩ := findSubslice_ne_none pre post hne
  exact ⟨p + 3, by rw [findTag52Offset, h, hp, Option.map_some]⟩

end

/-! ### Templates -/

namespace FixTemplate

/-- **A template that holds the frame of some values.** -/
structure Shaped (t : FixTemplate) (v : Values) : Prop where
  isNew : t.kind.IsNew
  buf_eq : t.buf = fixBytes t.kind t.sessionID t.botID v t.fixVersion
  width_eq : t.clordidSeqWidth = digitWidth v.seq.toNat
  tag34_eq : t.tag34Off = fieldAt (fixForm t.kind t.sessionID t.botID v t.fixVersion) 0
  clordid_eq : t.clordidSeqOff = fieldAt (fixForm t.kind t.sessionID t.botID v t.fixVersion) 1
  side_eq : t.sideOff = fieldAt (fixForm t.kind t.sessionID t.botID v t.fixVersion) 2
  qty_eq : t.qtyOff = fieldAt (fixForm t.kind t.sessionID t.botID v t.fixVersion) 3
  price_eq : t.priceOff = if t.kind = .new then
    some (fieldAt (fixForm t.kind t.sessionID t.botID v t.fixVersion) 4) else none
  smp_eq : t.smpOff = if v.smpID = smpIdNone then none else
    some (fieldAt (fixForm t.kind t.sessionID t.botID v t.fixVersion) 5)
  checksum_eq : t.checksumOff = fieldAt (fixForm t.kind t.sessionID t.botID v t.fixVersion) 6
  smpID_eq : t.smpID = v.smpID

/-- The template of these parts. -/
def Serves (t : FixTemplate) (kind : FrameKind) (fixVersion sessionID : List UInt8)
    (botID : UInt64) : Prop :=
  t.kind = kind ∧ t.fixVersion = fixVersion ∧ t.sessionID = sessionID ∧ t.botID = botID

section

variable {kind : FrameKind} {sessionID fixVersion : List UInt8} {botID : UInt64} {v : Values}

theorem findPrice_eq (hv : validIdentifier fixVersion = true)
    (hs : validIdentifier sessionID = true) :
    findPrice kind (fixBytes kind sessionID botID v fixVersion) =
      some (if kind = .new then some (fieldAt (fixForm kind sessionID botID v fixVersion) 4)
        else none) := by
  rw [findPrice]
  split
  next hnew =>
    subst hnew
    obtain ⟨p, hp, e⟩ := find_tag44 botID v hv hs
    rw [hp, Option.map_some, ← e]
    rfl
  · rfl

theorem findSmp_eq (hk : kind.IsNew) (hv : validIdentifier fixVersion = true)
    (hs : validIdentifier sessionID = true) :
    findSmp v.smpID (fixBytes kind sessionID botID v fixVersion) =
      some (if v.smpID = smpIdNone then none
        else some (fieldAt (fixForm kind sessionID botID v fixVersion) 5)) := by
  rw [findSmp]
  by_cases hnone : v.smpID = smpIdNone
  · rw [if_neg (not_not.mpr hnone), if_pos hnone]
  · obtain ⟨p, hp, e⟩ := find_tag7928 kind botID v hv hs hk hnone
    rw [if_pos hnone, if_neg hnone, hp, Option.map_some, ← e]
    rfl

theorem length_fixBytes : (fixBytes kind sessionID botID v fixVersion).length =
    fieldAt (fixForm kind sessionID botID v fixVersion) 6 + 4 := by
  simp [fixBytes, fixForm, bodyForm, fill, fieldAt, textBefore]
  omega

/-- **A new template.** -/
theorem shaped_build (botID : UInt64) (v : Values) (hk : kind.IsNew) (hv : validIdentifier fixVersion = true)
    (hs : validIdentifier sessionID = true) :
    ∃ t, build kind fixVersion sessionID botID v.seq v.qty v.price v.side v.smpID = some t ∧
      t.Serves kind fixVersion sessionID botID ∧ t.Shaped v := by
  obtain ⟨p34, h34, e34⟩ := find_tag34 kind botID v hv hs
  obtain ⟨p11, h11, e11⟩ := find_clordid kind botID v hv hs
  obtain ⟨p54, h54, e54⟩ := find_tag54 kind botID v hv hs
  obtain ⟨p38, h38, e38⟩ := find_tag38 kind botID v hv hs
  obtain ⟨p52, h52⟩ := find_tag52 sessionID fixVersion kind botID v
  rw [build, buildFixBodyPadded_eq hk]
  simp only [Option.bind_eq_bind, Option.bind_some, finalizeFix_eq, h34, h54, h38,
    findPrice_eq hv hs, h11, h52, findSmp_eq hk hv hs, e11]
  refine ⟨_, rfl, ⟨rfl, rfl, rfl, rfl⟩, hk, rfl, rfl, e34, rfl, e54, e38, rfl, rfl, ?_, rfl⟩
  rw [length_fixBytes, Nat.add_sub_cancel]

end

/-! ### Writing over a frame -/

section

variable {t : FixTemplate} {v w : Values} {hs : List (List UInt8 × List UInt8)}

/-- The next values fit over the old ones. -/
structure Fits (v w : Values) : Prop where
  width : digitWidth w.seq.toNat = digitWidth v.seq.toNat
  smp : w.smpID = smpIdNone ↔ v.smpID = smpIdNone
  narrow : v.Narrow
  narrow' : w.Narrow

theorem smpField_of_narrow (h : v.Narrow) :
    smpField v = if v.smpID = smpIdNone then [] else padded smpIdWidth v.smpID.toNat := by
  rw [smpField]
  split
  · rfl
  next hne =>
    exact padU64_eq (h.resolve_left hne)

theorem length_smpField_eq (hv : v.Narrow) (hw : w.Narrow)
    (hsmp : w.smpID = smpIdNone ↔ v.smpID = smpIdNone) :
    (smpField w).length = (smpField v).length := by
  rw [smpField_of_narrow hv, smpField_of_narrow hw]
  simp only [hsmp]
  split
  · rfl
  · rw [length_padded, length_padded]

theorem Fits.length_smpField (h : Fits v w) : (smpField w).length = (smpField v).length :=
  length_smpField_eq h.narrow h.narrow' h.smp

theorem Fits.smpText_eq (h : Fits v w) : smpText w = smpText v := by
  simp [smpText, h.smp]

theorem sideTag_eq (s : Side) : sideTag s = [sideByte s] := by
  cases s <;> rfl

theorem length_sideTag (s : Side) : (sideTag s).length = 1 := by
  cases s <;> rfl

theorem length_priceField (kind : FrameKind) (v w : Values) :
    (priceField kind v).length = (priceField kind w).length := by
  cases kind <;> simp [priceField]

theorem Fits.length_fixBody (h : Fits v w) (kind : FrameKind) (sessionID : List UInt8)
    (botID : UInt64) :
    (fixBody kind sessionID botID w).length = (fixBody kind sessionID botID v).length := by
  simp [fixBody, bodyForm, fill, length_append, length_padded, length_decimal, h.width,
    length_sideTag, h.smpText_eq, h.length_smpField, length_priceField kind w v]

theorem Shaped.writeSmp (ht : t.Shaped v) (hf : Fits v w) (last : List UInt8)
    (hi : hs[5]? = some (smpText v, smpField v))
    (hat : fieldAt hs 5 = fieldAt (fixForm t.kind t.sessionID t.botID v t.fixVersion) 5) :
    ∃ o n, t.writeSmp (fill hs last) w.smpID = (fill (putField hs 5 (smpField w)) last, o, n) ∧
      o + byteSum (smpField w) = n + byteSum (smpField v) := by
  have hsame : smpField w = smpField v → putField hs 5 (smpField w) = hs := by
    intro h
    rw [h]
    exact putField_self hi
  by_cases hnone : v.smpID = smpIdNone
  · have hw : w.smpID = smpIdNone := hf.smp.mpr hnone
    have heq : smpField w = smpField v := by rw [smpField, smpField, if_pos hw, if_pos hnone]
    refine ⟨0, 0, ?_, by rw [heq]⟩
    rw [hsame heq, FixTemplate.writeSmp, ht.smp_eq, if_pos hnone]
  have hw : w.smpID ≠ smpIdNone := fun h => hnone (hf.smp.mp h)
  by_cases hid : w.smpID = v.smpID
  · have heq : smpField w = smpField v := by rw [smpField, smpField, hid]
    refine ⟨0, 0, ?_, by rw [heq]⟩
    rw [hsame heq, FixTemplate.writeSmp, ht.smp_eq, if_neg hnone]
    simp [ht.smpID_eq, hid, ne_eq, not_true_eq_false]
  have hfield : smpField w = padded smpIdWidth w.smpID.toNat := by
    rw [smpField_of_narrow hf.narrow', if_neg hw]
  have hlen : (smpField v).length = smpIdWidth := by
    rw [smpField_of_narrow hf.narrow, if_neg hnone, length_padded]
  refine ⟨byteSum (smpField v), byteSum (smpField w), ?_, add_comm _ _⟩
  rw [FixTemplate.writeSmp, ht.smp_eq, if_neg hnone]
  simp only [ht.smpID_eq, ne_eq, hid, not_false_eq_true, if_true]
  rw [← hat, write_fill last _ hi hlen, hfield]

theorem Shaped.writePrice (ht : t.Shaped v) (last : List UInt8)
    (hi : hs[4]? = some (priceText t.kind, priceField t.kind v))
    (hat : fieldAt hs 4 = fieldAt (fixForm t.kind t.sessionID t.botID v t.fixVersion) 4) :
    ∃ o n, t.writePrice (fill hs last) w.price =
        (fill (putField hs 4 (priceField t.kind w)) last, o, n) ∧
      o + byteSum (priceField t.kind w) = n + byteSum (priceField t.kind v) := by
  rcases ht.isNew with hk | hk
  · have hfield : ∀ x : Values, priceField t.kind x = padded fixNumWidth x.price.toNat := by
      intro x
      rw [hk]
      rfl
    have hlen : (priceField t.kind v).length = fixNumWidth := by rw [hfield, length_padded]
    refine ⟨byteSum (priceField t.kind v), byteSum (priceField t.kind w), ?_, add_comm _ _⟩
    rw [FixTemplate.writePrice, ht.price_eq, if_pos hk, ← hat]
    simp [write_fill last w.price.toNat hi hlen, hfield w]
  · have hnew : t.kind ≠ .new := by rw [hk]; decide
    have heq : priceField t.kind w = priceField t.kind v := by rw [hk]; rfl
    refine ⟨0, 0, ?_, by rw [heq]⟩
    rw [FixTemplate.writePrice, ht.price_eq, if_neg hnew, heq]
    simp [putField_self hi]

theorem Fits.fixForm_eq (h : Fits v w) (kind : FrameKind) (sessionID : List UInt8)
    (botID : UInt64) (fixVersion : List UInt8) :
    putField (putField (putField (putField (putField (putField (putField
        (fixForm kind sessionID botID v fixVersion)
        0 (padded fixNumWidth (w.seq + 1).toNat))
        1 (padded (digitWidth v.seq.toNat) w.seq.toNat))
        5 (smpField w))
        2 (sideTag w.side))
        3 (padded fixNumWidth w.qty.toNat))
        4 (priceField kind w))
        6 (padded 3 (fixSum kind sessionID botID w fixVersion % 256)) =
      fixForm kind sessionID botID w fixVersion := by
  simp [fixForm, bodyForm, cons_append, nil_append, putField, ← h.width,
    h.length_fixBody, ← h.smpText_eq, decimal]

theorem Fits.fixSum_eq (h : Fits v w) (kind : FrameKind) (sessionID : List UInt8)
    (botID : UInt64) (fixVersion : List UInt8) :
    fixSum kind sessionID botID w fixVersion +
        (byteSum (padded fixNumWidth (v.seq + 1).toNat) + byteSum (decimal v.seq.toNat) +
          byteSum (smpField v) + byteSum (sideTag v.side) + byteSum (padded fixNumWidth v.qty.toNat) +
          byteSum (priceField kind v)) =
      fixSum kind sessionID botID v fixVersion +
        (byteSum (padded fixNumWidth (w.seq + 1).toNat) + byteSum (decimal w.seq.toNat) +
          byteSum (smpField w) + byteSum (sideTag w.side) + byteSum (padded fixNumWidth w.qty.toNat) +
          byteSum (priceField kind w)) := by
  simp only [fixSum, fixBody, bodyForm, fill, byteSum_append, h.smpText_eq]
  have hlen := h.length_fixBody kind sessionID botID
  simp only [fixBody, bodyForm, fill, h.smpText_eq] at hlen
  rw [hlen]
  omega

theorem Fits.fieldAt_eq (h : Fits v w) (kind : FrameKind) (sessionID : List UInt8)
    (botID : UInt64) (fixVersion : List UInt8) (hi : i < 7) :
    fieldAt (fixForm kind sessionID botID w fixVersion) i =
      fieldAt (fixForm kind sessionID botID v fixVersion) i := by
  interval_cases i <;>
    simp [fieldAt, fixForm, bodyForm, cons_append, nil_append, textBefore,
      length_append, length_cons, length_padded, length_decimal, h.width, length_sideTag,
      h.smpText_eq, h.length_smpField, length_priceField kind w v, h.length_fixBody]

theorem Shaped.rewrite_buf (ht : t.Shaped v) (hf : Fits v w) :
    (t.rewrite w.seq w.qty w.price w.side w.smpID).buf =
      fixBytes t.kind t.sessionID t.botID w t.fixVersion := by
  -- Every field is written over one of its length, so the offsets stay right.
  have e₀ : SamePlaces (fixForm t.kind t.sessionID t.botID v t.fixVersion) _ := fun _ => rfl
  obtain ⟨h₁, e₁⟩ := write_samePlaces [soh] e₀ (w.seq + 1).toNat (i := 0) rfl (length_padded _ _)
  obtain ⟨h₂, e₂⟩ := write_samePlaces [soh] e₁ w.seq.toNat (i := 1) rfl (length_padded _ _)
  obtain ⟨o₃, n₃, h₃, hsmp⟩ := ht.writeSmp hf [soh] rfl (e₂ 5)
  have e₃ := e₂.put (i := 5) rfl hf.length_smpField.symm
  obtain ⟨h₄, h₄'⟩ := set_fill [soh] e₃ (sideByte w.side) (i := 2) rfl (sideTag_eq v.side)
  have e₄ := e₃.put (i := 2) rfl ((length_sideTag v.side).trans (length_sideTag w.side).symm)
  obtain ⟨h₅, e₅⟩ := write_samePlaces [soh] e₄ w.qty.toNat (i := 3) rfl (length_padded _ _)
  obtain ⟨o₆, n₆, h₆, hprice⟩ := ht.writePrice (w := w) [soh] rfl (e₅ 4)
  have e₆ := e₅.put (i := 4) rfl (length_priceField t.kind v w)
  have h₇ := fun o n (h : fixSum t.kind t.sessionID t.botID w t.fixVersion + o =
    fixSum t.kind t.sessionID t.botID v t.fixVersion + n) =>
      applyChecksumDelta_fill [soh] e₆ (i := 6) rfl h
  rw [← sideTag_eq] at h₄
  simp only [hf.fixForm_eq] at h₇
  simp only [FixTemplate.rewrite, ht.buf_eq, fixBytes, ht.tag34_eq, ht.clordid_eq, ht.width_eq,
    ht.side_eq, ht.qty_eq, ht.checksum_eq, h₁, h₂, h₃, h₄, h₄', h₅, h₆]
  refine h₇ _ _ ?_
  have hsum := hf.fixSum_eq t.kind t.sessionID t.botID t.fixVersion
  have hdecimal : padded (digitWidth v.seq.toNat) w.seq.toNat = decimal w.seq.toNat := by
    rw [← hf.width, decimal]
  simp only [sideTag_eq, byteSum_singleton] at hsum
  rw [hdecimal]
  omega

/-- **A frame written over an old one.** -/
theorem Shaped.rewrite (ht : t.Shaped v) (hf : Fits v w) :
    (t.rewrite w.seq w.qty w.price w.side w.smpID).Shaped w := by
  have hat : ∀ {i : Nat}, i < 7 → fieldAt (fixForm t.kind t.sessionID t.botID v t.fixVersion) i =
      fieldAt (fixForm t.kind t.sessionID t.botID w t.fixVersion) i :=
    fun hi => (hf.fieldAt_eq t.kind t.sessionID t.botID t.fixVersion hi).symm
  refine ⟨ht.isNew, ht.rewrite_buf hf, ?_, ?_, ?_, ?_, ?_, ?_, ?_, ?_, ?_⟩
  · exact ht.width_eq.trans hf.width.symm
  · exact ht.tag34_eq.trans (hat (by omega))
  · exact ht.clordid_eq.trans (hat (by omega))
  · exact ht.side_eq.trans (hat (by omega))
  · exact ht.qty_eq.trans (hat (by omega))
  · exact ht.price_eq.trans (by rw [hat (by omega)]; rfl)
  · refine ht.smp_eq.trans ?_
    simp only [hf.smp, hat (i := 5) (by omega)]
    rfl
  · exact ht.checksum_eq.trans (hat (by omega))
  show (if t.smpOff.isSome then w.smpID else t.smpID) = w.smpID
  rw [ht.smp_eq]
  by_cases hnone : v.smpID = smpIdNone
  · rw [if_pos hnone, if_neg (by simp), ht.smpID_eq, hnone, hf.smp.mpr hnone]
  · rw [if_neg hnone]
    rfl

/-- **Patching gives the template of the new values.** -/
theorem Shaped.patch (ht : t.Shaped v) (hv : v.Narrow) (hw : w.Narrow)
    (hversion : validIdentifier t.fixVersion = true)
    (hsession : validIdentifier t.sessionID = true) :
    ∃ t', t.patch w.seq w.qty w.price w.side w.smpID =
        some (t', t'.frame w.seq w.qty w.price w.side w.smpID) ∧
      t'.Serves t.kind t.fixVersion t.sessionID t.botID ∧ t'.Shaped w := by
  by_cases hneeded : digitWidth w.seq.toNat ≠ t.clordidSeqWidth ∨
      ((w.smpID == smpIdNone) != t.smpOff.isNone) = true
  · obtain ⟨t', hbuild, hserves, hshaped⟩ := shaped_build t.botID w ht.isNew hversion hsession
    refine ⟨t', ?_, hserves, hshaped⟩
    rw [FixTemplate.patch]
    simp only [if_pos hneeded, hbuild]
    rfl
  rw [not_or, not_not, Bool.not_eq_true, bne_eq_false_iff_eq] at hneeded
  have hsmp : w.smpID = smpIdNone ↔ v.smpID = smpIdNone := by
    have h := hneeded.2
    rw [ht.smp_eq] at h
    by_cases hnone : v.smpID = smpIdNone
    · simpa [hnone] using h
    · simpa [hnone] using h
  have hfits : Fits v w := ⟨hneeded.1.trans ht.width_eq, hsmp, hv, hw⟩
  refine ⟨t.rewrite w.seq w.qty w.price w.side w.smpID, ?_, ⟨rfl, rfl, rfl, rfl⟩, ht.rewrite hfits⟩
  rw [FixTemplate.patch]
  simp only [hneeded, ne_eq, not_true_eq_false, bne_self_eq_false, Bool.false_eq_true, or_self,
    if_false]
  rfl

end

end FixTemplate

end MatchBench.Bot
