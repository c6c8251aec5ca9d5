import MatchBench.Bot.FixPatch

/-!
# Patching a JSON frame

The payload of a JSON template is a form with five fields: the number in the order id, the
side, the quantity, the price and the id against self matches (`jsonForm`).  The names of
the members are found by their quotes: between two quotes stands a name or a value, and
none of those before a member is its name.  The order id is not one of the names, since it
ends with a capital letter (`find_member`).

Numbers have as many digits as they need, so a template is written over only when every
width is the same (`Fits`); then also the payload has the same length, and the length in
the head of a request stays right (`Shaped.rewrite`).
-/

namespace MatchBench.Bot

open List
open Capture (ascii soh)

/-! ### The form -/

/-- The quote, which separates names and values. -/
def quote : UInt8 := 34

section

variable (kind : FrameKind) (sessionID : List UInt8) (botID : UInt64) (v : Values)

/-- The order id. -/
def orderText : List UInt8 :=
  clordidText sessionID botID ++ (decimal v.seq.toNat ++ (ascii "_" ++ [kind.letter]))

def memberText : List UInt8 :=
  match kind with
  | .new => ascii "," ++ quote :: ascii "price" ++ quote :: ascii ":"
  | _ => ascii "," ++ quote :: ascii "ord_type" ++ quote :: ascii ":" ++ quote :: ascii "MARKET" ++
      [quote]

def memberField : List UInt8 :=
  match kind with
  | .new => decimal v.price.toNat
  | _ => []

def jsonSmpText : List UInt8 :=
  if v.smpID = smpIdNone then []
  else ascii "," ++ quote :: ascii "smp_id" ++ quote :: ascii ":" ++ [quote]

/-- **The form of a payload**, after some text. -/
def jsonForm (start : List UInt8) : List (List UInt8 × List UInt8) :=
  [(start ++ (sealed quote [[123], ascii "cl_ord_id", ascii ":"] ++ clordidText sessionID botID),
      decimal v.seq.toNat),
    (ascii "_" ++ kind.letter :: quote ::
      (sealed quote [ascii ",", ascii "symbol", ascii ":", ascii "IICPC", ascii ",", ascii "side",
        ascii ":"]), sideName v.side),
    (quote :: (sealed quote [ascii ",", ascii "qty"] ++ ascii ":"), decimal v.qty.toNat),
    (memberText kind, memberField kind v),
    (jsonSmpText v, smpField v)]

def jsonEnd : List UInt8 := if v.smpID = smpIdNone then [125] else [quote, 125]

def jsonBody : List UInt8 := fill (jsonForm kind sessionID botID v []) (jsonEnd v)

/-- What a request has before its payload. -/
def restHead (targetHost : List UInt8) (n : Nat) : List UInt8 :=
  ascii "POST" ++ ascii " " ++ ascii "/orders" ++ ascii " HTTP/1.1\r\nHost: " ++ targetHost ++
    ascii "\r\nContent-Type: application/json\r\nContent-Length: " ++ decimal n ++
    ascii "\r\nConnection: keep-alive\r\n\r\n"

/-- What a protocol has before the payload. -/
def jsonHead (protocol : Protocol) (targetHost : List UInt8) (n : Nat) : List UInt8 :=
  match protocol with
  | .rest => restHead targetHost n
  | _ => []

def jsonBytes (protocol : Protocol) (targetHost : List UInt8) : List UInt8 :=
  jsonHead protocol targetHost (jsonBody kind sessionID botID v).length ++
    jsonBody kind sessionID botID v

end

section

variable {kind : FrameKind} {sessionID targetHost : List UInt8} {botID : UInt64} {v : Values}
  {protocol : Protocol}

theorem fill_jsonForm (start last : List UInt8) :
    fill (jsonForm kind sessionID botID v start) last =
      start ++ fill (jsonForm kind sessionID botID v []) last := by
  simp [jsonForm, fill, append_assoc, nil_append]

theorem jsonBytes_eq_fill : jsonBytes kind sessionID botID v protocol targetHost =
    fill (jsonForm kind sessionID botID v
      (jsonHead protocol targetHost (jsonBody kind sessionID botID v).length)) (jsonEnd v) := by
  rw [fill_jsonForm, jsonBytes, jsonBody]

/-- A byte that is written as it is: no control byte, quote or backslash. -/
def Plain (b : UInt8) : Prop := 32 ≤ b.toNat ∧ b ≠ 34 ∧ b ≠ 92

theorem Plain.jsonEscape_eq {b : UInt8} (h : Plain b) : jsonEscape b = [b] := by
  obtain ⟨hle, hquote, hslash⟩ := h
  have hne : ∀ c : UInt8, c.toNat < 32 → b ≠ c := by
    rintro c hc rfl
    omega
  have hlt : ¬ b < 32 := by
    rw [UInt8.lt_iff_toNat_lt]
    exact Nat.not_lt.mpr hle
  rw [jsonEscape, if_neg hquote, if_neg hslash, if_neg (hne 8 (by decide)),
    if_neg (hne 9 (by decide)), if_neg (hne 10 (by decide)), if_neg (hne 12 (by decide)),
    if_neg (hne 13 (by decide)), if_neg hlt]

theorem flatMap_jsonEscape : ∀ {value : List UInt8}, (∀ b ∈ value, Plain b) →
    value.flatMap jsonEscape = value
  | [], _ => rfl
  | b :: value, h => by
    rw [flatMap_cons, (h b (.head _)).jsonEscape_eq,
      flatMap_jsonEscape fun c hc => h c (.tail b hc), singleton_append]

theorem plain_of_valid {value : List UInt8} (h : validIdentifier value = true) :
    ∀ b ∈ value, Plain b := by
  intro b hb
  rw [validIdentifier, Bool.and_eq_true, all_eq_true] at h
  have hbyte := h.2 b hb
  refine ⟨?_, ?_, ?_⟩
  · simp only [Bool.or_eq_true, Bool.and_eq_true, decide_eq_true_eq, beq_iff_eq,
      UInt8.le_iff_toNat_le, ← UInt8.toNat_inj, UInt8.reduceToNat] at hbyte
    omega
  · rintro rfl
    exact absurd hbyte (by decide)
  · rintro rfl
    exact absurd hbyte (by decide)

theorem plain_digit {w n : Nat} : ∀ b ∈ padded w n, Plain b := by
  intro b hb
  have := digit_of_mem_padded hb
  refine ⟨by omega, ?_, ?_⟩ <;>
  · rintro rfl
    exact absurd hb (not_mem_padded (by decide))

theorem plain_orderText (h : validIdentifier sessionID = true) :
    ∀ b ∈ orderText kind sessionID botID v, Plain b := by
  have hunder : ∀ b ∈ ascii "_", Plain b := plain_of_valid (by decide)
  have hletter : ∀ b ∈ [kind.letter], Plain b := plain_of_valid (by cases kind <;> decide)
  simp only [orderText, clordidText, forall_mem_append]
  exact ⟨⟨plain_of_valid h, hunder, plain_digit, hunder⟩, plain_digit, hunder, hletter⟩

theorem quote_not_mem_orderText (h : validIdentifier sessionID = true) :
    quote ∉ orderText kind sessionID botID v :=
  fun hm => (plain_orderText h quote hm).2.1 rfl

theorem buildJsonPayloadNatural_eq (hk : kind.IsNew) (hs : validIdentifier sessionID = true) :
    buildJsonPayloadNatural kind (kind.orderID sessionID botID v.seq) v.side v.qty v.price v.smpID =
      some (jsonBody kind sessionID botID v) := by
  have horder : kind.orderID sessionID botID v.seq = orderText kind sessionID botID v := by
    simp [FrameKind.orderID, orderText, clordidText]
  have h₁ : ascii "\x7b\"cl_ord_id\":" = sealed quote [[123], ascii "cl_ord_id"] ++ ascii ":" := by
    decide
  have h₂ : ascii ",\"symbol\":\"IICPC\",\"side\":\"" =
      sealed quote [ascii ",", ascii "symbol", ascii ":", ascii "IICPC", ascii ",", ascii "side",
        ascii ":"] := by decide
  have h₃ : ascii "\",\"qty\":" = quote :: (sealed quote [ascii ",", ascii "qty"] ++ ascii ":") := by
    decide
  have h₄ : ascii ",\"price\":" = memberText .new := by decide
  have h₅ : ascii ",\"ord_type\":\"MARKET\"" = memberText .market := by decide
  have h₆ : ascii ",\"smp_id\":\"" =
      ascii "," ++ quote :: ascii "smp_id" ++ quote :: ascii ":" ++ [quote] := by decide
  have h₇ : ascii "\"" = [quote] := by decide
  have h₈ : ascii "\x7d" = [125] := by decide
  rw [horder]
  rcases hk with rfl | rfl <;>
  · simp only [buildJsonPayloadNatural, jsonString, flatMap_jsonEscape (plain_orderText hs),
      jsonSmpField, h₁, h₂, h₃, h₄, h₅, h₆, h₇, h₈, jsonBody, jsonForm, fill, jsonEnd, jsonSmpText,
      smpField, memberField]
    split <;> simp [sealed, orderText]

theorem wrap_eq (hk : kind.IsNew) (hp : protocol ≠ .fix) :
    JsonTemplate.wrap kind protocol targetHost (jsonBody kind sessionID botID v) =
      some (jsonBytes kind sessionID botID v protocol targetHost,
        (jsonHead protocol targetHost (jsonBody kind sessionID botID v).length).length) := by
  have hrest : buildRestRequest kind.restMethod targetHost (kind.restPath [])
      (jsonBody kind sessionID botID v) =
      restHead targetHost (jsonBody kind sessionID botID v).length ++
        jsonBody kind sessionID botID v := by
    rcases hk with rfl | rfl <;> rfl
  cases protocol with
  | rest =>
    simp only [JsonTemplate.wrap, hrest, length_append, Nat.add_sub_cancel]
    rfl
  | ws => rfl
  | fix => exact absurd rfl hp

end

/-! ### Finding the members -/

variable {i : Nat} {kind : FrameKind} {sessionID : List UInt8}

/-- **A name is found before its field**, when it is none of the names and values before. -/
theorem find_member {hs : List (List UInt8 × List UInt8)} {h : List UInt8 × List UInt8}
    {last text : List UInt8} (whole more : List UInt8) (fs : List (List UInt8))
    (hmember : text = quote :: (whole ++ quote :: more)) (hi : hs[i]? = some h)
    (htext : textBefore hs i = sealed quote ([123] :: fs) ++ (whole ++ quote :: more))
    (hw : quote ∉ whole) (hfs : ∀ g ∈ fs, quote ∉ g ∧ g ≠ whole) :
    EndsAt (fill hs last) text (fieldAt hs i) := by
  subst hmember
  refine find_field hi htext (fun g hg => ?_) fun g hg => blocks_of_ne (hfs g hg).1 hw (hfs g hg).2
  rcases mem_cons.mp hg with rfl | hg
  · decide
  · exact (hfs g hg).1

section

variable {kind : FrameKind} {sessionID : List UInt8} {botID : UInt64} {v : Values}

/-- The names and values of a payload up to the quantity. -/
def jsonParts (kind : FrameKind) (sessionID : List UInt8) (botID : UInt64) (v : Values) :
    List (List UInt8) :=
  [ascii "cl_ord_id", ascii ":", orderText kind sessionID botID v, ascii ",", ascii "symbol",
    ascii ":", ascii "IICPC", ascii ",", ascii "side", ascii ":", sideName v.side, ascii ",",
    ascii "qty", ascii ":" ++ (decimal v.qty.toNat ++ ascii ",")]

variable {whole : List UInt8}

theorem orderText_ne (h : whole.getLast? ≠ some kind.letter) :
    orderText kind sessionID botID v ≠ whole := by
  rintro rfl
  apply h
  simp [orderText]

theorem colon_ne {whole value : List UInt8} (h : whole.head? ≠ some 58) : ascii ":" ++ value ≠ whole := by
  rintro rfl
  exact h rfl

theorem quote_not_mem_number (n : Nat) : quote ∉ ascii ":" ++ (decimal n ++ ascii ",") := by
  simp only [mem_append, not_or]
  exact ⟨by decide, not_mem_decimal (by decide), by decide⟩

theorem quote_not_mem_jsonParts (hs : validIdentifier sessionID = true) :
    ∀ g ∈ jsonParts kind sessionID botID v, quote ∉ g := by
  simp only [jsonParts, forall_mem_cons, not_mem_nil, false_implies, implies_true, and_true]
  exact ⟨by decide, by decide, quote_not_mem_orderText hs, by decide, by decide, by decide, by decide,
    by decide, by decide, by decide, by cases v.side <;> decide, by decide, by decide,
    quote_not_mem_number _⟩

variable (botID v) (last : List UInt8)

theorem passes_jsonParts (k : Nat) (hs : validIdentifier sessionID = true)
    (hlast : whole.getLast? ≠ some kind.letter) (hhead : whole.head? ≠ some 58)
    (hconst : ∀ g ∈ [ascii "cl_ord_id", ascii ":", ascii ":", ascii ",", ascii "symbol", ascii ":",
      ascii "IICPC", ascii ",", ascii "side", ascii ":", sideName v.side, ascii ",",
      ascii "qty", ascii ":"].take k, g ≠ whole) :
    ∀ g ∈ (jsonParts kind sessionID botID v).take k, quote ∉ g ∧ g ≠ whole := by
  intro g hg
  refine ⟨quote_not_mem_jsonParts hs g (mem_of_mem_take hg), ?_⟩
  obtain ⟨i, hi, hget⟩ := mem_iff_getElem.mp hg
  rw [length_take, lt_min_iff] at hi
  rw [getElem_take] at hget
  by_cases h₂ : i = 2
  · subst h₂
    rw [← hget]
    exact orderText_ne hlast
  by_cases h₁₃ : i = 13
  · subst h₁₃
    rw [← hget]
    exact colon_ne hhead
  refine hconst g (mem_iff_getElem.mpr ⟨i, by simpa using ⟨hi.1, hi.2⟩, ?_⟩)
  rw [getElem_take, ← hget]
  have hlt : i < 14 := hi.2
  interval_cases i <;> first | rfl | omega

variable (kind)

theorem find_jsonClordid (sessionID : List UInt8) :
    EndsAt (fill (jsonForm kind sessionID botID v []) last)
      (ascii "\"cl_ord_id\":\"" ++ sessionID ++ ascii "_" ++ decimal botID.toNat ++ ascii "_")
      (fieldAt (jsonForm kind sessionID botID v []) 0) := by
  refine find_member (ascii "cl_ord_id") (ascii ":" ++ quote :: clordidText sessionID botID) [] ?_ rfl
    ?_ (by decide) (by simp)
  · have h : ascii "\"cl_ord_id\":\"" =
        quote :: (ascii "cl_ord_id" ++ quote :: (ascii ":" ++ [quote])) := by decide
    rw [h]
    simp [clordidText]
  · simp [jsonForm, textBefore, sealed]

section

variable (hk : kind.IsNew) (hs : validIdentifier sessionID = true)

include hk hs

theorem find_side : EndsAt (fill (jsonForm kind sessionID botID v []) last) (ascii "\"side\":\"")
    (fieldAt (jsonForm kind sessionID botID v []) 1) := by
  refine find_member (ascii "side") (ascii ":" ++ [quote]) ((jsonParts kind sessionID botID v).take 8)
    (by decide) rfl ?_ (by decide) (passes_jsonParts botID v 8 hs
      (by rcases hk with rfl | rfl <;> decide) (by decide) (by simp; decide))
  simp [jsonForm, textBefore, sealed, jsonParts, orderText]

theorem find_qty : EndsAt (fill (jsonForm kind sessionID botID v []) last) (ascii "\"qty\":")
    (fieldAt (jsonForm kind sessionID botID v []) 2) := by
  refine find_member (ascii "qty") (ascii ":") ((jsonParts kind sessionID botID v).take 12)
    (by decide) rfl ?_ (by decide) (passes_jsonParts botID v 12 hs
      (by rcases hk with rfl | rfl <;> decide) (by decide) (by cases v.side <;> decide))
  simp [jsonForm, textBefore, sealed, jsonParts, orderText]

theorem find_smp (hsmp : v.smpID ≠ smpIdNone) :
    EndsAt (fill (jsonForm kind sessionID botID v []) last) (ascii "\"smp_id\":\"")
      (fieldAt (jsonForm kind sessionID botID v []) 4) := by
  have hparts : ∀ g ∈ (jsonParts kind sessionID botID v).take 14, quote ∉ g ∧ g ≠ ascii "smp_id" :=
    passes_jsonParts botID v 14 hs (by rcases hk with rfl | rfl <;> decide) (by decide)
      (by cases v.side <;> decide)
  rcases hk with rfl | rfl
  · refine find_member (ascii "smp_id") (ascii ":" ++ [quote]) ((jsonParts .new sessionID botID v).take 14
      ++ [ascii "price", ascii ":" ++ (decimal v.price.toNat ++ ascii ",")]) (by decide) rfl ?_
      (by decide) ?_
    · simp [jsonForm, textBefore, sealed, jsonParts, orderText, memberText, memberField, jsonSmpText,
        hsmp]
    · simp only [forall_mem_append, forall_mem_cons, not_mem_nil, false_implies,
        implies_true, and_true]
      exact ⟨hparts, by decide, quote_not_mem_number _, colon_ne (by decide)⟩
  refine find_member (ascii "smp_id") (ascii ":" ++ [quote]) ((jsonParts .market sessionID botID
    v).take 14 ++ [ascii "ord_type", ascii ":", ascii "MARKET", ascii ","]) (by decide) rfl ?_
    (by decide) ?_
  · simp [jsonForm, textBefore, sealed, jsonParts, orderText, memberText, memberField, jsonSmpText,
      hsmp]
  · rw [forall_mem_append]
    exact ⟨hparts, by decide⟩

end

theorem find_price (hs : validIdentifier sessionID = true) :
    EndsAt (fill (jsonForm .new sessionID botID v []) last) (ascii "\"price\":")
      (fieldAt (jsonForm .new sessionID botID v []) 3) := by
  refine find_member (ascii "price") (ascii ":") ((jsonParts .new sessionID botID v).take 14)
    (by decide) rfl ?_ (by decide) (passes_jsonParts botID v 14 hs (by decide) (by decide)
      (by cases v.side <;> decide))
  simp [jsonForm, textBefore, sealed, jsonParts, orderText, memberText]

theorem find_price_market (hs : validIdentifier sessionID = true) :
    findSubslice (fill (jsonForm .market sessionID botID v []) (jsonEnd v)) (ascii "\"price\":") =
      none := by
  have h : ascii "\"price\":" = quote :: (ascii "price" ++ quote :: ascii ":") := by decide
  have hparts : ∀ g ∈ (jsonParts .market sessionID botID v).take 14, quote ∉ g ∧ g ≠ ascii "price" :=
    passes_jsonParts botID v 14 hs (by decide) (by decide) (by cases v.side <;> decide)
  obtain ⟨fs, htext, hfs⟩ : ∃ fs, fill (jsonForm .market sessionID botID v []) (jsonEnd v) =
      sealed quote ([123] :: fs) ++ [125] ∧ ∀ g ∈ fs, quote ∉ g ∧ g ≠ ascii "price" := by
    by_cases hsmp : v.smpID = smpIdNone
    · refine ⟨(jsonParts .market sessionID botID v).take 14 ++
        [ascii "ord_type", ascii ":", ascii "MARKET"], ?_, ?_⟩
      · simp [jsonForm, fill, sealed, jsonParts, orderText, memberText, memberField, jsonSmpText,
          jsonEnd, smpField, hsmp]
      · rw [forall_mem_append]
        exact ⟨hparts, by decide⟩
    refine ⟨(jsonParts .market sessionID botID v).take 14 ++
      [ascii "ord_type", ascii ":", ascii "MARKET", ascii ",", ascii "smp_id", ascii ":",
        padU64 v.smpID.toNat smpIdWidth], ?_, ?_⟩
    · simp [jsonForm, fill, sealed, jsonParts, orderText, memberText, memberField, jsonSmpText,
        jsonEnd, smpField, hsmp]
    have hid : padU64 v.smpID.toNat smpIdWidth ≠ ascii "price" := by
      intro heq
      exact not_mem_padU64 (b := 112) (by decide) (heq ▸ (by decide : (112 : UInt8) ∈ ascii "price"))
    simp only [forall_mem_append, forall_mem_cons, not_mem_nil, false_implies,
      implies_true, and_true]
    exact ⟨hparts, by decide, by decide, by decide, by decide, by decide, by decide,
      not_mem_padU64 (by decide), hid⟩
  rw [h, findSubslice_eq_find (cons_ne_nil _ _), htext]
  refine find_seal_none _ (fun g hg => ?_) (fun g hg => blocks_of_ne (hfs g hg).1 (by decide) (hfs g hg).2)
    (by decide) (by decide)
  rcases mem_cons.mp hg with rfl | hg
  · decide
  · exact (hfs g hg).1

end

/-! ### Templates -/

theorem fieldAt_jsonForm {botID : UInt64} {v : Values} (start : List UInt8) (i : Nat) :
    fieldAt (jsonForm kind sessionID botID v start) i =
      start.length + fieldAt (jsonForm kind sessionID botID v []) i := by
  cases i with
  | zero => simp only [fieldAt, jsonForm, textBefore, nil_append, length_append]
  | succ i =>
    simp only [fieldAt, jsonForm, textBefore, nil_append, length_append]
    omega

namespace JsonTemplate

/-- The form of the frame of some values. -/
def form (t : JsonTemplate) (v : Values) : List (List UInt8 × List UInt8) :=
  jsonForm t.kind t.sessionID t.botID v
    (jsonHead t.protocol t.targetHost (jsonBody t.kind t.sessionID t.botID v).length)

/-- **A template that holds the frame of some values.** -/
structure Shaped (t : JsonTemplate) (v : Values) : Prop where
  isNew : t.kind.IsNew
  notFix : t.protocol ≠ .fix
  buf_eq : t.buf = jsonBytes t.kind t.sessionID t.botID v t.protocol t.targetHost
  width_eq : t.clordidSeqWidth = digitWidth v.seq.toNat
  sideLen_eq : t.sideLen = (sideName v.side).length
  qtyWidth_eq : t.qtyWidth = digitWidth v.qty.toNat
  priceWidth_eq : t.kind = .new → t.priceWidth = digitWidth v.price.toNat
  clordid_eq : t.clordidSeqOff = fieldAt (t.form v) 0
  side_eq : t.sideOff = some (fieldAt (t.form v) 1)
  qty_eq : t.qtyOff = some (fieldAt (t.form v) 2)
  price_eq : t.priceOff = if t.kind = .new then some (fieldAt (t.form v) 3) else none
  smp_eq : t.smpOff = if v.smpID = smpIdNone then none else some (fieldAt (t.form v) 4)
  smpID_eq : t.smpID = v.smpID

/-- The template of these parts. -/
def Serves (t : JsonTemplate) (kind : FrameKind) (protocol : Protocol) (sessionID : List UInt8)
    (botID : UInt64) (targetHost : List UInt8) : Prop :=
  t.kind = kind ∧ t.protocol = protocol ∧ t.sessionID = sessionID ∧ t.botID = botID ∧
    t.targetHost = targetHost

/-- **A new template.** -/
theorem shaped_build {protocol : Protocol}
    (targetHost : List UInt8) (botID : UInt64) (v : Values) (hk : kind.IsNew) (hp : protocol ≠ .fix)
    (hs : validIdentifier sessionID = true) :
    ∃ t, build kind protocol sessionID botID targetHost v.seq v.qty v.price v.side v.smpID = some t ∧
      t.Serves kind protocol sessionID botID targetHost ∧ t.Shaped v := by
  have hdrop : (jsonBytes kind sessionID botID v protocol targetHost).drop
      (jsonHead protocol targetHost (jsonBody kind sessionID botID v).length).length =
      fill (jsonForm kind sessionID botID v []) (jsonEnd v) := by
    rw [jsonBytes, drop_left]
    rfl
  obtain ⟨p₀, h₀, e₀⟩ := find_jsonClordid kind botID v (jsonEnd v) sessionID
  obtain ⟨p₁, h₁, e₁⟩ := find_side kind botID v (jsonEnd v) hk hs
  obtain ⟨p₂, h₂, e₂⟩ := find_qty kind botID v (jsonEnd v) hk hs
  rw [build, buildJsonPayloadNatural_eq hk hs]
  simp only [Option.bind_eq_bind, Option.bind_some, wrap_eq hk hp, hdrop, h₀, h₁, h₂,
    Option.map_some, add_assoc, e₀, e₁, e₂, ← fieldAt_jsonForm]
  refine ⟨_, rfl, ⟨rfl, rfl, rfl, rfl, rfl⟩, hk, hp, rfl, rfl, rfl, rfl, fun _ => rfl, rfl, rfl, rfl,
    ?_, ?_, rfl⟩
  · show Option.map _ _ = if kind = .new then _ else none
    rcases hk with rfl | rfl
    · obtain ⟨p₃, h₃, e₃⟩ := find_price botID v (jsonEnd v) hs
      rw [h₃, Option.map_some, if_pos rfl, e₃, ← fieldAt_jsonForm]
      rfl
    · rw [find_price_market botID v hs, if_neg (by decide), Option.map_none]
  show (if v.smpID ≠ smpIdNone then Option.map _ _ else none) =
    if v.smpID = smpIdNone then none else some _
  by_cases hnone : v.smpID = smpIdNone
  · rw [if_neg (not_not.mpr hnone), if_pos hnone]
  · obtain ⟨p₄, h₄, e₄⟩ := find_smp kind botID v (jsonEnd v) hk hs hnone
    rw [if_pos hnone, if_neg hnone, h₄, Option.map_some, e₄, ← fieldAt_jsonForm]
    rfl

/-! ### Writing over a frame -/

/-- The next values fit over the old ones. -/
structure Fits (kind : FrameKind) (v w : Values) : Prop where
  width : digitWidth w.seq.toNat = digitWidth v.seq.toNat
  side : (sideName w.side).length = (sideName v.side).length
  qty : digitWidth w.qty.toNat = digitWidth v.qty.toNat
  price : kind = .new → digitWidth w.price.toNat = digitWidth v.price.toNat
  smp : w.smpID = smpIdNone ↔ v.smpID = smpIdNone
  narrow : v.Narrow
  narrow' : w.Narrow

section

variable {t : JsonTemplate} {kind : FrameKind} {v w : Values} {hs : List (List UInt8 × List UInt8)}

theorem Fits.length_smpField (h : Fits kind v w) : (smpField w).length = (smpField v).length :=
  FixTemplate.length_smpField_eq h.narrow h.narrow' h.smp

theorem Fits.length_memberField (h : Fits kind v w) :
    (memberField kind w).length = (memberField kind v).length := by
  cases kind with
  | new => rw [memberField, memberField, length_decimal, length_decimal, h.price rfl]
  | _ => rfl

theorem Fits.jsonSmpText_eq (h : Fits kind v w) : jsonSmpText w = jsonSmpText v := by
  simp [jsonSmpText, h.smp]

theorem Fits.jsonEnd_eq (h : Fits kind v w) : jsonEnd w = jsonEnd v := by
  simp [jsonEnd, h.smp]

theorem Fits.length_jsonBody (h : Fits kind v w) (sessionID : List UInt8) (botID : UInt64) :
    (jsonBody kind sessionID botID w).length = (jsonBody kind sessionID botID v).length := by
  simp [jsonBody, jsonForm, fill, length_append, length_decimal, h.width, h.side, h.qty,
    h.jsonSmpText_eq, h.length_smpField, h.length_memberField, h.jsonEnd_eq]

theorem Fits.fieldAt_eq (h : Fits t.kind v w) (hi : i < 5) :
    fieldAt (t.form w) i = fieldAt (t.form v) i := by
  interval_cases i <;>
    simp [fieldAt, form, jsonForm, textBefore, length_append, length_decimal, h.width,
      h.side, h.qty, h.jsonSmpText_eq, h.length_memberField, h.length_jsonBody]

theorem Fits.form_eq (h : Fits t.kind v w) :
    putField (putField (putField (putField (putField (t.form v)
        0 (padded (digitWidth v.seq.toNat) w.seq.toNat))
        4 (smpField w))
        2 (padded (digitWidth v.qty.toNat) w.qty.toNat))
        3 (memberField t.kind w))
        1 (sideName w.side) = t.form w := by
  simp [form, jsonForm, putField, ← h.width, ← h.qty, h.length_jsonBody, ← h.jsonSmpText_eq,
    decimal]

theorem Shaped.writeSmp (ht : t.Shaped v) (hf : Fits t.kind v w) (last : List UInt8)
    (hi : hs[4]? = some (jsonSmpText v, smpField v)) (hat : fieldAt hs 4 = fieldAt (t.form v) 4) :
    (if w.smpID ≠ t.smpID then writeAt (fill hs last) t.smpOff smpIdWidth w.smpID.toNat
      else fill hs last) = fill (putField hs 4 (smpField w)) last := by
  have hsame : smpField w = smpField v → fill hs last = fill (putField hs 4 (smpField w)) last := by
    intro h
    rw [h, putField_self hi]
  by_cases hid : w.smpID = v.smpID
  · rw [ht.smpID_eq, if_neg (not_not.mpr hid)]
    exact hsame (by rw [smpField, smpField, hid])
  rw [ht.smpID_eq, if_pos hid, ht.smp_eq]
  by_cases hnone : v.smpID = smpIdNone
  · exact absurd ((hf.smp.mpr hnone).trans hnone.symm) hid
  have hw : w.smpID ≠ smpIdNone := fun h => hnone (hf.smp.mp h)
  have hfield : smpField w = padded smpIdWidth w.smpID.toNat := by
    rw [FixTemplate.smpField_of_narrow hf.narrow', if_neg hw]
  have hlen : (smpField v).length = smpIdWidth := by
    rw [FixTemplate.smpField_of_narrow hf.narrow, if_neg hnone, length_padded]
  rw [if_neg hnone, ← hat, hfield, writeAt]
  simp [write_fill last w.smpID.toNat hi hlen]

theorem Shaped.writePrice (ht : t.Shaped v) (hf : Fits t.kind v w) (last : List UInt8)
    (hi : hs[3]? = some (memberText t.kind, memberField t.kind v))
    (hat : fieldAt hs 3 = fieldAt (t.form v) 3) :
    writeAt (fill hs last) t.priceOff t.priceWidth w.price.toNat =
      fill (putField hs 3 (memberField t.kind w)) last := by
  rw [ht.price_eq]
  rcases ht.isNew with hk | hk
  · have hfield : ∀ x : Values, memberField t.kind x = decimal x.price.toNat := by
      intro x
      rw [hk]
      rfl
    have hlen : (memberField t.kind v).length = t.priceWidth := by
      rw [hfield, length_decimal, ht.priceWidth_eq hk]
    rw [if_pos hk, ← hat, writeAt]
    simp only [write_fill last w.price.toNat hi hlen]
    rw [hfield, decimal, hf.price hk, ht.priceWidth_eq hk]
  · have hnew : t.kind ≠ .new := by rw [hk]; decide
    have heq : memberField t.kind w = memberField t.kind v := by rw [hk]; rfl
    rw [if_neg hnew, heq, putField_self hi, writeAt]

theorem Shaped.rewrite_buf (ht : t.Shaped v) (hf : Fits t.kind v w) :
    (t.rewrite w.seq w.qty w.price w.side w.smpID).buf =
      jsonBytes t.kind t.sessionID t.botID w t.protocol t.targetHost := by
  have e₀ : SamePlaces (t.form v) _ := fun _ => rfl
  have hbuf : t.buf = fill (t.form v) (jsonEnd v) := ht.buf_eq.trans jsonBytes_eq_fill
  obtain ⟨h₁, e₁⟩ := write_samePlaces (jsonEnd v) e₀ w.seq.toNat (i := 0) rfl (length_padded _ _)
  have h₂ := ht.writeSmp hf (jsonEnd v) rfl (e₁ 4)
  have e₂ := e₁.put (i := 4) rfl hf.length_smpField.symm
  obtain ⟨h₃, e₃⟩ := write_samePlaces (jsonEnd v) e₂ w.qty.toNat (i := 2) rfl (length_padded _ _)
  have h₄ := ht.writePrice hf (jsonEnd v) rfl (e₃ 3)
  have e₄ := e₃.put (i := 3) rfl hf.length_memberField.symm
  have h₅ := e₄ 1 ▸ overwrite_fill (jsonEnd v) (i := 1) rfl hf.side.symm
  replace h₃ : writeAt _ (some _) _ _ = _ := congrArg Prod.fst h₃
  simp only [JsonTemplate.rewrite, hbuf, ht.clordid_eq, ht.width_eq, h₁, h₂, ht.qty_eq,
    ht.qtyWidth_eq, h₃, h₄, ht.side_eq, h₅, hf.form_eq]
  rw [jsonBytes_eq_fill, hf.jsonEnd_eq]
  rfl

/-- **A frame written over an old one.** -/
theorem Shaped.rewrite (ht : t.Shaped v) (hf : Fits t.kind v w) :
    (t.rewrite w.seq w.qty w.price w.side w.smpID).Shaped w := by
  have hat : ∀ {i : Nat}, i < 5 → fieldAt (t.form v) i = fieldAt (t.form w) i :=
    fun hi => (hf.fieldAt_eq hi).symm
  refine ⟨ht.isNew, ht.notFix, ht.rewrite_buf hf, ?_, ?_, ?_, ?_, ?_, ?_, ?_, ?_, ?_, ?_⟩
  · exact ht.width_eq.trans hf.width.symm
  · exact ht.sideLen_eq.trans hf.side.symm
  · exact ht.qtyWidth_eq.trans hf.qty.symm
  · exact fun hk => (ht.priceWidth_eq hk).trans (hf.price hk).symm
  · exact ht.clordid_eq.trans (hat (by omega))
  · exact ht.side_eq.trans (congrArg some (hat (by omega)))
  · exact ht.qty_eq.trans (congrArg some (hat (by omega)))
  · refine ht.price_eq.trans ?_
    rw [hat (by omega)]
    rfl
  · refine ht.smp_eq.trans ?_
    simp only [hf.smp, hat (i := 4) (by omega)]
    rfl
  show (if t.smpOff.isSome then w.smpID else t.smpID) = w.smpID
  rw [ht.smp_eq]
  by_cases hnone : v.smpID = smpIdNone
  · rw [if_pos hnone, if_neg (by simp), ht.smpID_eq, hnone, hf.smp.mpr hnone]
  · rw [if_neg hnone]
    rfl

theorem Shaped.fits (ht : t.Shaped v) (hv : v.Narrow) (hw : w.Narrow)
    (h : t.needsRebuild w.seq w.qty w.price w.side w.smpID = false) : Fits t.kind v w := by
  simp only [needsRebuild, Bool.or_eq_false_iff, bne_eq_false_iff_eq, Bool.and_eq_false_iff] at h
  obtain ⟨⟨⟨⟨hseq, hside⟩, hqty⟩, hprice⟩, hsmp⟩ := h
  refine ⟨hseq.trans ht.width_eq, hside.trans ht.sideLen_eq, hqty.trans ht.qtyWidth_eq, fun hk => ?_,
    ?_, hv, hw⟩
  · rcases hprice with hnone | heq
    · rw [ht.price_eq, if_pos hk] at hnone
      exact absurd hnone (by simp)
    · exact heq.trans (ht.priceWidth_eq hk)
  · rw [ht.smp_eq] at hsmp
    by_cases hnone : v.smpID = smpIdNone <;> simpa [hnone] using hsmp

/-- **Patching gives the template of the new values.** -/
theorem Shaped.patch (ht : t.Shaped v) (hv : v.Narrow) (hw : w.Narrow)
    (hsession : validIdentifier t.sessionID = true) :
    ∃ t', t.patch w.seq w.qty w.price w.side w.smpID =
        some (t', t'.frame w.seq w.qty w.price w.side w.smpID) ∧
      t'.Serves t.kind t.protocol t.sessionID t.botID t.targetHost ∧ t'.Shaped w := by
  cases hneeded : t.needsRebuild w.seq w.qty w.price w.side w.smpID with
  | true =>
    obtain ⟨t', hbuild, hserves, hshaped⟩ :=
      shaped_build t.targetHost t.botID w ht.isNew ht.notFix hsession
    refine ⟨t', ?_, hserves, hshaped⟩
    rw [JsonTemplate.patch]
    simp only [hneeded, if_true, hbuild]
    rfl
  | false =>
    refine ⟨t.rewrite w.seq w.qty w.price w.side w.smpID, ?_, ⟨rfl, rfl, rfl, rfl, rfl⟩,
      ht.rewrite (ht.fits hv hw hneeded)⟩
    rw [JsonTemplate.patch]
    simp only [hneeded, Bool.false_eq_true, if_false]
    rfl

end

end JsonTemplate

end MatchBench.Bot
