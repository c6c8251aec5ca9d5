import MatchBench.Bot.JsonPatch
import MatchBench.Capture.HttpRequest
import MatchBench.Capture.WsStream

/-!
# Orders on the wire

What the capture makes of an order of the bot, in each of the three forms.  A FIX order is a
message whose fields after the type and the id have other tags (`FixOrder`); a JSON order is an
object whose first member, but perhaps for the action, is the id (`JsonOrder`), in an HTTP request
or in a masked WebSocket frame.

Each is framed whole when it keeps to the limits of the capture, and is parsed as a request with
its id (`FixOrder.whole`, `FixOrder.parseFix_bytes`, `JsonOrder.parseJson_bytes`).  The requests and
the frames in which JSON is sent are those that the capture takes whole (`bytes_restRequest`,
`bytes_wsOrder`).
-/

namespace MatchBench.Bot

open List Option Capture
open Capture (ascii soh Whole)

/-! ### Numbers -/

theorem digitWidthLoop_spec : ∀ (turns w : Nat) {v : Nat}, v < 10 ^ turns →
    ∃ k, digitWidthLoop turns w v = w + k ∧ v < 10 ^ k := by
  intro turns
  induction turns with
  | zero => exact fun w v h => ⟨0, rfl, h⟩
  | succ turns ih =>
    intro w v h
    rw [digitWidthLoop]
    split
    · have hdiv : v / 10 < 10 ^ turns := by
        rw [Nat.div_lt_iff_lt_mul (by omega), ← pow_succ]
        exact h
      obtain ⟨k, hk, hlt⟩ := ih (w + 1) hdiv
      refine ⟨k + 1, by omega, ?_⟩
      rwa [Nat.div_lt_iff_lt_mul (by omega), ← pow_succ] at hlt
    · exact ⟨0, rfl, by omega⟩

theorem lt_pow_digitWidth {v : Nat} (h : v < 10 ^ 20) : v < 10 ^ digitWidth v := by
  obtain ⟨k, hk, hlt⟩ := digitWidthLoop_spec 20 1 (v := v / 10) (by omega)
  rw [digitWidth, hk, add_comm, pow_succ]
  omega

theorem decimal_padded (w n : Nat) : Capture.decimal (padded w n) = n % 10 ^ w := by
  induction w generalizing n with
  | zero => rw [pow_zero, Nat.mod_one]; rfl
  | succ w ih =>
    have hdigit := digit_toNat (Nat.mod_lt n (Nat.succ_pos 9))
    have hfold := ih (n / 10)
    rw [Capture.decimal] at hfold ⊢
    rw [padded, foldl_append, hfold, foldl_cons, foldl_nil, pow_succ', Nat.mod_mul]
    change n / 10 % 10 ^ w * 10 + (UInt8.ofNat (48 + n % 10) - 48).toNat = _
    rw [hdigit]
    omega

/-- **A number is read back.** -/
theorem decimal_decimal {n : Nat} (h : n < 10 ^ 20) : Capture.decimal (decimal n) = n := by
  rw [decimal, decimal_padded, Nat.mod_eq_of_lt (lt_pow_digitWidth h)]

theorem isAsciiDigit_decimal (n : Nat) : ∀ c ∈ decimal n, isAsciiDigit c = true := by
  intro c hc
  have hdigit := digit_of_mem_padded hc
  rw [isAsciiDigit, Bool.and_eq_true, decide_eq_true_iff, decide_eq_true_iff,
    UInt8.le_iff_toNat_le, UInt8.le_iff_toNat_le]
  exact hdigit

theorem le_digitWidthLoop (turns w v : Nat) : w ≤ digitWidthLoop turns w v := by
  induction turns generalizing w v with
  | zero => exact Nat.le_refl w
  | succ turns ih =>
    rw [digitWidthLoop]
    split
    · exact Nat.le_of_succ_le (ih (w + 1) (v / 10))
    · exact Nat.le_refl w

theorem decimal_ne_nil (n : Nat) : decimal n ≠ [] := by
  have hpos : 1 ≤ digitWidth n := le_digitWidthLoop 20 1 (n / 10)
  intro h
  have hlen := length_decimal n
  rw [h, length_nil] at hlen
  omega

/-! ### FIX -/

/-- A message with the given fields. -/
def fixText (version : List UInt8) (fields : List (List UInt8)) (checkSum : List UInt8) : List UInt8 :=
  sealed soh ((ascii "8=" ++ version) :: (ascii "9=" ++ decimal (sealed soh fields).length) ::
    (fields ++ [ascii "10=" ++ checkSum]))

theorem finalizeFix_sealed (version : List UInt8) (fields : List (List UInt8)) :
    ∃ checkSum, finalizeFix version (sealed soh fields) = fixText version fields checkSum ∧
      checkSum.length = 3 ∧ soh ∉ checkSum := by
  have h₉ : ascii "\x019=" = soh :: ascii "9=" := by decide
  refine ⟨padU64 (byteSum (ascii "8=" ++ version ++ ascii "\x019=" ++
    decimal (sealed soh fields).length ++ [soh] ++ sealed soh fields) % 256) 3, ?_, ?_,
    not_mem_padU64 (by decide)⟩
  · rw [finalizeFix, fixText, sealed, sealed, sealed_append, sealed, sealed, h₉]
    simp [append_assoc, cons_append, nil_append]
  · rw [padU64_eq (by omega), length_padded]

theorem fixText_eq (version : List UInt8) (fields : List (List UInt8)) (checkSum : List UInt8) :
    fixText version fields checkSum = ascii "8=" ++ version ++ (soh :: (ascii "9=" ++
      (decimal (sealed soh fields).length ++ (soh :: (sealed soh fields ++ (ascii "10=" ++
        (checkSum ++ [soh]))))))) := by
  rw [fixText, sealed, sealed, sealed_append, sealed, sealed]
  simp [append_assoc]

variable {checkSum : List UInt8}

theorem length_fixText (version : List UInt8) (fields : List (List UInt8))
    (hc : checkSum.length = 3) : (fixText version fields checkSum).length =
      version.length + digitWidth (sealed soh fields).length + (sealed soh fields).length + 13 := by
  have h8 : (ascii "8=").length = 2 := rfl
  have h9 : (ascii "9=").length = 2 := rfl
  have h10 : (ascii "10=").length = 3 := rfl
  rw [fixText_eq]
  simp only [length_append, length_cons, length_nil, length_decimal, h8, h9, h10, hc]
  omega

/-- **A message with a short body is framed whole.** -/
theorem whole_fixText (mm : Finder UInt8) (direction : Capture.Direction) {version : List UInt8}
    {fields : List (List UInt8)} (hfix : ascii "FIX" <+: version) (hv : soh ∉ version)
    (hroom : version.length < 2 ^ 61) (hbody : (sealed soh fields).length ≤ Capture.maxFixMessage)
    (hc : checkSum.length = 3) :
    Whole mm .fix direction (fixText version fields checkSum) := by
  obtain ⟨rest, rfl⟩ := hfix
  have hbegin : ascii "8=" ++ (ascii "FIX" ++ rest) = Capture.fixBegin ++ rest := rfl
  have hmax : Capture.maxFixMessage = 65536 := rfl
  rw [fixText_eq, hbegin]
  exact Capture.FixMessage.whole
    { version := rest
      bodyLength := decimal (sealed soh fields).length
      body := sealed soh fields
      checkSum := checkSum
      version_soh := fun h => hv (mem_append_right _ h)
      bodyLength_ne := decimal_ne_nil _
      bodyLength_digits := isAsciiDigit_decimal _
      bodyLength_eq := decimal_decimal (by omega)
      body_le := hbody
      checkSum_length := hc
      header_lt := by
        have hwidth : digitWidth (sealed soh fields).length ≤ 5 := digitWidth_le (by omega)
        rw [length_append] at hroom
        rw [length_decimal]
        omega } mm direction

theorem length_body_le {version : List UInt8} {fields : List (List UInt8)}
    (hc : checkSum.length = 3) : (sealed soh fields).length ≤ maxFixMessage ↔
      (fixText version fields checkSum).length ≤ version.length + 18 + maxFixMessage := by
  have hmax : maxFixMessage = 65536 := rfl
  rw [length_fixText version fields hc]
  generalize (sealed soh fields).length = n
  constructor
  · intro h
    have hwidth : digitWidth n ≤ 5 := digitWidth_le (by omega)
    omega
  intro h
  by_contra hlong
  have hlt := lt_pow_digitWidth (v := n) (by omega)
  have hwidth : 5 ≤ digitWidth n := by
    by_contra hshort
    have hle : 10 ^ digitWidth n ≤ 10 ^ 4 := Nat.pow_le_pow_right (by omega) (by omega)
    omega
  omega

/-- A field with another tag than the type and the id. -/
def Quiet (g : List UInt8) : Prop :=
  ∀ f, (Capture.fixField f g).msgType = f.msgType ∧ (Capture.fixField f g).clordid = f.clordid

theorem foldl_quiet {gs : List (List UInt8)} (h : ∀ g ∈ gs, Quiet g) (f : Capture.FixFields) :
    (gs.foldl fixField f).msgType = f.msgType ∧ (gs.foldl fixField f).clordid = f.clordid := by
  induction gs generalizing f with
  | nil => exact ⟨rfl, rfl⟩
  | cons g gs ih =>
    obtain ⟨htype, hid⟩ := ih (fun x hx => h x (.tail g hx)) (fixField f g)
    obtain ⟨htype', hid'⟩ := h g (.head _) f
    exact ⟨htype.trans htype', hid.trans hid'⟩

/-- A FIX order: its type, the number of the message, the time, the id and the fields behind. -/
structure FixOrder where
  type : List UInt8
  msgSeqNum : List UInt8
  stamp : List UInt8
  orderID : List UInt8
  more : List (List UInt8)
  checkSum : List UInt8
  type_mem : type ∈ [ascii "D", ascii "F", ascii "G"]
  msgSeqNum_soh : soh ∉ msgSeqNum
  stamp_soh : soh ∉ stamp
  orderID_soh : soh ∉ orderID
  more_soh : ∀ g ∈ more, soh ∉ g
  more_quiet : ∀ g ∈ more, Quiet g
  checkSum_length : checkSum.length = 3
  checkSum_soh : soh ∉ checkSum

namespace FixOrder

variable (o : FixOrder) (version : List UInt8)

def fields : List (List UInt8) :=
  [ascii "35=" ++ o.type, ascii "49=IICPC-BOT", ascii "56=CONTESTANT", ascii "34=" ++ o.msgSeqNum,
    ascii "52=" ++ o.stamp, ascii "11=" ++ o.orderID] ++ o.more

def bytes : List UInt8 := fixText version o.fields o.checkSum

theorem soh_notMem_fields : ∀ g ∈ o.fields, soh ∉ g := by
  have htype : soh ∉ o.type := by
    have hall : ∀ t ∈ [ascii "D", ascii "F", ascii "G"], soh ∉ t := by decide
    exact hall o.type o.type_mem
  simp only [fields, forall_mem_append, forall_mem_cons]
  exact ⟨⟨not_mem_append (by decide) htype, by decide, by decide,
    not_mem_append (by decide) o.msgSeqNum_soh, not_mem_append (by decide) o.stamp_soh,
    not_mem_append (by decide) o.orderID_soh, nofun⟩,
    o.more_soh⟩

theorem splitOnP_bytes (hv : soh ∉ version) : (o.bytes version).splitOnP (· == soh) =
    [ascii "8=" ++ version, ascii "9=" ++ decimal (sealed soh o.fields).length,
      ascii "35=" ++ o.type, ascii "49=IICPC-BOT", ascii "56=CONTESTANT", ascii "34=" ++ o.msgSeqNum,
      ascii "52=" ++ o.stamp, ascii "11=" ++ o.orderID] ++
    (o.more ++ [ascii "10=" ++ o.checkSum, []]) := by
  have hsoh : ∀ g ∈ (ascii "8=" ++ version) :: (ascii "9=" ++ decimal (sealed soh o.fields).length) ::
      (o.fields ++ [ascii "10=" ++ o.checkSum]), soh ∉ g := by
    simp only [forall_mem_append, forall_mem_cons]
    exact ⟨not_mem_append (by decide) hv,
      not_mem_append (by decide) (not_mem_decimal (by decide)), o.soh_notMem_fields,
      not_mem_append (by decide) o.checkSum_soh, nofun⟩
  rw [bytes, fixText, splitOnP_sealed hsoh]
  simp [fields, cons_append, nil_append, append_assoc]

/-- **The order is parsed as a request with its id.** -/
theorem parseFix_bytes (hv : soh ∉ version) :
    (parseFix .request (o.bytes version)).classified = .request ∧
      (parseFix .request (o.bytes version)).clordid = string o.orderID := by
  have hquiet : ∀ g ∈ o.more ++ [ascii "10=" ++ o.checkSum, []], Quiet g := by
    simp only [forall_mem_append, forall_mem_cons]
    exact ⟨o.more_quiet, fun f => ⟨rfl, rfl⟩, fun f => ⟨rfl, rfl⟩, nofun⟩
  obtain ⟨f, hf, htype, hid⟩ : ∃ f, ((o.bytes version).splitOnP (· == soh)).foldl fixField {} =
      f ∧ f.msgType = o.type ∧ f.clordid = string o.orderID := by
    refine ⟨_, rfl, ?_⟩
    rw [o.splitOnP_bytes version hv, foldl_append]
    exact foldl_quiet hquiet _
  have hrequest : o.type = ascii "D" ∨ o.type = ascii "F" ∨ o.type = ascii "G" := by
    simpa using o.type_mem
  rw [parseFix, hf]
  exact ⟨if_pos (htype ▸ hrequest), hid⟩

theorem whole (mm : Finder UInt8) (hfix : ascii "FIX" <+: version) (hv : soh ∉ version)
    (hroom : version.length < 2 ^ 61)
    (hbody : (o.bytes version).length ≤ version.length + 18 + maxFixMessage) :
    Whole mm .fix .request (o.bytes version) :=
  whole_fixText mm .request hfix hv hroom ((length_body_le o.checkSum_length).mpr hbody)
    o.checkSum_length

end FixOrder

/-! ### JSON -/

/-- What an order begins with. -/
def jsonOpenings : List (List UInt8) :=
  [ascii "\x7b", ascii "\x7b\"action\":\"CANCEL\",", ascii "\x7b\"action\":\"REPLACE\","]

/-- A JSON order: the opening, the id and the members behind it. -/
structure JsonOrder where
  opening : List UInt8
  orderID : List UInt8
  more : List UInt8
  opening_mem : opening ∈ jsonOpenings
  orderID_ne : orderID ≠ []
  orderID_quote : quote ∉ orderID

namespace JsonOrder

variable (o : JsonOrder)

def bytes : List UInt8 :=
  o.opening ++ (ascii "\"cl_ord_id\"" ++ (ascii ":\"" ++ (o.orderID ++ quote :: o.more)))

theorem find_key (mm : Finder UInt8) :
    find mm o.bytes (ascii "\"cl_ord_id\"") = some o.opening.length := by
  have hhere : mm.find (o.opening ++ ascii "\"cl_ord_id\"") (ascii "\"cl_ord_id\"") =
      some o.opening.length := by
    have hall : ∀ p ∈ jsonOpenings, ∀ j < p.length,
        ¬ ascii "\"cl_ord_id\"" <+: (p ++ ascii "\"cl_ord_id\"").drop j := by decide
    refine (mm.find_iff _ _ _ (by decide)).mpr ⟨?_, hall o.opening o.opening_mem⟩
    rw [OccursAt, drop_left]
  rw [find, if_neg (by decide), bytes, ← append_assoc]
  exact mm.find_append (by decide) hhere _

theorem jsonString_bytes (mm : Finder UInt8) :
    Capture.jsonString mm o.bytes "cl_ord_id" = some (Capture.string o.orderID) := by
  have hkey : ascii "\"" ++ ascii "cl_ord_id" ++ ascii "\"" = ascii "\"cl_ord_id\"" := by decide
  have hdrop : o.bytes.drop (o.opening.length + (ascii "\"cl_ord_id\"").length) =
      ascii ":\"" ++ (o.orderID ++ quote :: o.more) := by
    rw [bytes, ← drop_drop, drop_left, drop_left]
  have hafter : Capture.jsonAfter mm o.bytes "cl_ord_id" =
      some (quote :: (o.orderID ++ quote :: o.more)) := by
    rw [Capture.jsonAfter]
    simp only [hkey, o.find_key mm, bind_eq_bind, bind_some, hdrop]
    rfl
  have hend : (o.orderID ++ quote :: o.more).findIdx? (· == 0x22) = some o.orderID.length :=
    findIdx_separator o.orderID_quote
  have hopen : (quote :: (o.orderID ++ quote :: o.more)).findIdx? (· == 0x22) = some 0 := rfl
  rw [Capture.jsonString, hafter]
  simp only [bind_eq_bind, bind_some, hopen, drop_succ_cons, drop_zero, hend, take_left]
  rfl

theorem string_ne_empty {b : List UInt8} (h : b ≠ []) : string b ≠ "" := by
  obtain ⟨b₀, rest, rfl⟩ := exists_cons_of_ne_nil h
  have hlossy : lossy (b₀ :: rest) ≠ [] := by
    rw [lossy.eq_def]
    dsimp only
    repeat' split
    all_goals exact cons_ne_nil _ _
  intro hempty
  have hlist := congrArg String.toList hempty
  rw [string, String.toList_ofList] at hlist
  exact hlossy hlist

/-- **The order is parsed as a request with its id.** -/
theorem parseJson_bytes (mm : Finder UInt8) :
    (Capture.parseJson mm .request o.bytes).classified = .request ∧
      (Capture.parseJson mm .request o.bytes).clordid = Capture.string o.orderID := by
  rw [Capture.parseJson]
  simp only [o.jsonString_bytes mm, getD_some, and_true]
  rw [if_neg (string_ne_empty o.orderID_ne), if_pos trivial]

end JsonOrder

/-! ### REST -/

/-- A name of a host: the capture reads neither the end of a line nor a header in it. -/
def PlainHost (targetHost : List UInt8) : Prop :=
  Capture.cr ∉ targetHost ∧
    ¬ Capture.transferEncoding <:+: targetHost.map Capture.toAsciiLowercase ∧
    ¬ Capture.contentLength <:+: targetHost.map Capture.toAsciiLowercase
  deriving Decidable

theorem toAsciiLowercase_eq_colon {c : UInt8} (h : toAsciiLowercase c = 58) : c = 58 := by
  rw [toAsciiLowercase] at h
  split at h
  next hc =>
    rw [Bool.and_eq_true, decide_eq_true_iff, decide_eq_true_iff, UInt8.le_iff_toNat_le,
      UInt8.le_iff_toNat_le] at hc
    have hnat := congrArg UInt8.toNat h
    rw [UInt8.toNat_add] at hnat
    simp only [UInt8.reduceToNat] at hc hnat
    omega
  · exact h

theorem not_infix_of_colon {name line : List UInt8} (hname : 58 ∈ name) (hline : 58 ∉ line) :
    ¬ name <:+: line.map toAsciiLowercase := by
  intro h
  obtain ⟨c, hc, heq⟩ := List.mem_map.mp (h.subset hname)
  rw [toAsciiLowercase_eq_colon heq] at hc
  exact hline hc

theorem not_infix_host {targetHost : List UInt8} (h : PlainHost targetHost) :
    ¬ transferEncoding <:+: (ascii "\nHost: " ++ targetHost).map toAsciiLowercase ∧
      ¬ contentLength <:+: (ascii "\nHost: " ++ targetHost).map toAsciiLowercase := by
  have hline : (ascii "\nHost: " ++ targetHost).map toAsciiLowercase =
      10 :: 104 :: 111 :: 115 :: 116 :: 58 :: 32 :: targetHost.map toAsciiLowercase := rfl
  have ht : transferEncoding = 116 :: 114 :: ascii "ansfer-encoding:" := by decide
  have hc : contentLength = 99 :: ascii "ontent-length:" := by decide
  obtain ⟨_, hchunked, hsized⟩ := h
  rw [hline]
  constructor
  · rw [ht] at hchunked ⊢
    simpa [infix_cons_iff, cons_prefix_cons] using hchunked
  · rw [hc] at hsized ⊢
    simpa [infix_cons_iff, cons_prefix_cons] using hsized

section

variable (kind : FrameKind) (targetHost path json : List UInt8)

/-- The line of the method and the path. -/
def requestLine : List UInt8 := kind.restMethod ++ ascii " " ++ path ++ ascii " HTTP/1.1"

variable {kind path} in
theorem notMem_requestLine {b : UInt8} (hb : b = cr ∨ b = 58) (hpath : b ∉ path) :
    b ∉ requestLine kind path := by
  have hmethod : b ∉ kind.restMethod := by
    rcases hb with rfl | rfl <;> cases kind <;> decide
  have hspace : b ∉ ascii " " := by rcases hb with rfl | rfl <;> decide
  have hversion : b ∉ ascii " HTTP/1.1" := by rcases hb with rfl | rfl <;> decide
  exact not_mem_append (not_mem_append (not_mem_append hmethod hspace) hpath) hversion

/-- An order as the capture sees a request. -/
def restRequest (hhost : PlainHost targetHost) (hcr : Capture.cr ∉ path) (hcolon : 58 ∉ path)
    (hjson : json.length < 10 ^ 20) : Capture.HttpRequest where
  requestLine := requestLine kind path
  before := [ascii "\nHost: " ++ targetHost, ascii "\nContent-Type: application/json"]
  digits := decimal json.length
  after := [ascii "\nConnection: keep-alive"]
  body := json
  opens := by cases kind <;> rfl
  lines_cr := by
    simp only [cons_append, nil_append, forall_mem_cons]
    exact ⟨notMem_requestLine (.inl rfl) hcr, not_mem_append (by decide) hhost.1, by decide,
      by decide, nofun⟩
  lines_ne := by
    simp only [cons_append, nil_append, forall_mem_cons]
    refine ⟨fun h => ?_, by decide, by decide, nofun⟩
    have hlen := congrArg List.length h
    have h7 : (ascii "\nHost: ").length = 7 := rfl
    have h1 : (ascii "\n").length = 1 := rfl
    rw [length_append] at hlen
    omega
  not_chunked := by
    simp only [cons_append, nil_append, forall_mem_cons]
    exact ⟨not_infix_of_colon (by decide) (notMem_requestLine (.inr rfl) hcolon),
      (not_infix_host hhost).1, by decide, by decide, nofun⟩
  not_sized := by
    simp only [forall_mem_cons]
    exact ⟨not_infix_of_colon (by decide) (notMem_requestLine (.inr rfl) hcolon),
      (not_infix_host hhost).2, by decide, nofun⟩
  digits_ne := decimal_ne_nil _
  digits_digits := isAsciiDigit_decimal _
  digits_eq := decimal_decimal hjson

theorem bytes_restRequest (hhost : PlainHost targetHost) (hcr : cr ∉ path)
    (hcolon : 58 ∉ path) (hjson : json.length < 10 ^ 20) :
    (restRequest kind targetHost path json hhost hcr hcolon hjson).bytes =
      buildRestRequest kind.restMethod targetHost path json := by
  have h₁ : ascii " HTTP/1.1\r\nHost: " = ascii " HTTP/1.1" ++ cr :: ascii "\nHost: " := by
    decide
  have h₂ : ascii "\r\nContent-Type: application/json\r\nContent-Length: " =
      cr :: (ascii "\nContent-Type: application/json" ++
        cr :: ascii "\nContent-Length: ") := by decide
  have h₃ : ascii "\r\nConnection: keep-alive\r\n\r\n" =
      cr :: (ascii "\nConnection: keep-alive" ++ cr :: ascii "\n\r\n") := by decide
  rw [Capture.HttpRequest.bytes, Capture.HttpRequest.lines, Capture.HttpRequest.lengthLine, restRequest,
    buildRestRequest, h₁, h₂, h₃]
  simp [requestLine, sealed, cons_append, nil_append, append_assoc]

end

/-! ### WebSocket -/

/-- A payload in the shortest form that has room for it. -/
def wsOrder (payload : List UInt8) (maskKey : Fin 4 → UInt8) (h : payload.length < 65536) :
    Capture.WsFrame where
  fin := true
  opcode := .text
  form := if payload.length < 126 then .short else .extended16
  maskKey := ofFn maskKey
  payload := payload
  maskKey_length := length_ofFn
  payload_le := by
    split
    · exact Nat.le_of_lt_succ (by assumption)
    · exact Nat.le_of_lt_succ h

theorem bytes_wsOrder {payload : List UInt8} (maskKey : Fin 4 → UInt8) (h : payload.length < 65536) :
    buildWsFrame payload maskKey = some ((wsOrder payload maskKey h).bytes .request) := by
  have hmask : payload.zipIdx.map (fun x => x.1 ^^^ maskKey (Fin.ofNat 4 x.2)) =
      wsMask (ofFn maskKey) payload := by
    rw [wsMask]
    refine map_congr_left fun x _ => ?_
    have hlt : x.2 % 4 < (ofFn maskKey).length := by
      rw [length_ofFn]
      exact Nat.mod_lt _ (by omega)
    change _ = x.1 ^^^ (ofFn maskKey).getD (x.2 % 4) 0
    rw [getD_eq_getElem _ _ hlt, List.getElem_ofFn]
    rfl
  have hbytes : (wsOrder payload maskKey h).bytes .request = 0x81 ::
      (if payload.length < 126 then Capture.LenForm.short else .extended16).lengthBytes 0x80
        payload.length ++ (ofFn maskKey ++ wsMask (ofFn maskKey) payload) := by
    have hfirst : (wsOrder payload maskKey h).first = 0x81 :=
      (by decide : (0x80 ||| 0x1 : UInt8) = 0x81)
    rw [Capture.WsFrame.bytes, Capture.WsFrame.header, hfirst]
    rfl
  rw [buildWsFrame, hmask, hbytes]
  by_cases hshort : payload.length < 126
  · rw [if_pos hshort, if_pos hshort]
    rfl
  have hlen : toBe 2 payload.length =
      [UInt8.ofNat (payload.length / 256), UInt8.ofNat (payload.length % 256)] := by
    have hlow : UInt8.ofNat payload.length = UInt8.ofNat (payload.length % 256) := by
      rw [← UInt8.toNat_inj, UInt8.toNat_ofNat', UInt8.toNat_ofNat']
      omega
    rw [toBe, toBe, toBe, pow_one, pow_zero, Nat.div_one, hlow]
  rw [if_neg hshort, if_pos h, if_neg hshort, Capture.LenForm.lengthBytes, hlen]
  rfl

end MatchBench.Bot
