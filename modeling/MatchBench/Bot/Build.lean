import MatchBench.Bot.Order

/-!
# What the builders build

`build_frame` writes an order of each kind from scratch.  In FIX its body is the fields of a
`FixOrder` and in JSON it is a `JsonOrder`, so whatever the numbers, the side and the ids are, the
bytes are those of an order with the id of the frame (`isOrder_buildFrame`).

A cancel and a replace carry two ids.  In FIX the earlier one has a tag of its own.  In JSON it is
a member behind the new one, whose name with its quotes is not a part of the other name.
-/

namespace MatchBench.Bot

open List Option
open Capture (ascii soh)

/-! ### Identifiers -/

/-- A byte of an identifier. -/
def identifierByte (b : UInt8) : Bool :=
  (48 ≤ b && b ≤ 57) || (65 ≤ b && b ≤ 90) || (97 ≤ b && b ≤ 122) || b == 45 || b == 95 || b == 46

variable {value orderID origOrderID : List UInt8} {b : UInt8} {orig : Option (List UInt8)}

theorem validIdentifier_iff :
    validIdentifier value = true ↔ value ≠ [] ∧ ∀ b ∈ value, identifierByte b = true := by
  rw [validIdentifier, Bool.and_eq_true, Bool.not_eq_true', isEmpty_eq_false_iff, List.all_eq_true]
  rfl

theorem notMem_of_valid (h : validIdentifier value = true)
    (hb : identifierByte b = false) : b ∉ value := by
  intro hm
  rw [(validIdentifier_iff.mp h).2 b hm] at hb
  exact Bool.false_ne_true hb.symm

theorem identifierByte_decimal {n : Nat} : ∀ b ∈ decimal n, identifierByte b = true := by
  intro b hb
  have hdigit := digit_of_mem_padded hb
  have hrange : (48 ≤ b && b ≤ 57) = true := by
    rw [Bool.and_eq_true, decide_eq_true_iff, decide_eq_true_iff, UInt8.le_iff_toNat_le,
      UInt8.le_iff_toNat_le]
    exact hdigit
  rw [identifierByte, hrange]
  rfl

/-- **An order id is an identifier.** -/
theorem valid_orderID (kind : FrameKind) {sessionID : List UInt8} (botID seq : UInt64)
    (h : validIdentifier sessionID = true) :
    validIdentifier (kind.orderID sessionID botID seq) = true := by
  obtain ⟨_, hsession⟩ := validIdentifier_iff.mp h
  have hunder : ∀ b ∈ ascii "_", identifierByte b = true := by decide +kernel
  have hletter : ∀ b ∈ [kind.letter], identifierByte b = true := by
    cases kind <;> decide +kernel
  refine validIdentifier_iff.mpr ⟨?_, ?_⟩
  · exact append_ne_nil_of_right_ne_nil _ (cons_ne_nil _ _)
  · simp only [FrameKind.orderID, forall_mem_append]
    exact ⟨⟨⟨⟨⟨⟨hsession, hunder⟩, identifierByte_decimal⟩, hunder⟩, identifierByte_decimal⟩, hunder⟩,
      hletter⟩

/-! ### FIX -/

/-- A field without the separator, with another tag than the type and the id. -/
def Tame (g : List UInt8) : Prop := soh ∉ g ∧ Quiet g

def smpFields (smpID : UInt32) : List (List UInt8) :=
  if smpID = smpIdNone then [] else [ascii "7928=" ++ padU64 smpID.toNat smpIdWidth]

theorem fixSmpTag_eq (smpID : UInt32) : fixSmpTag smpID = sealed soh (smpFields smpID) := by
  rw [fixSmpTag, smpFields]
  split
  · rfl
  · rw [sealed, sealed]

theorem tame_smpFields (smpID : UInt32) : ∀ g ∈ smpFields smpID, Tame g := by
  rw [smpFields]
  split
  · exact nofun
  · intro g hg
    rw [mem_singleton.mp hg]
    exact ⟨not_mem_append (by decide) (not_mem_padU64 (by decide)), fun f => ⟨rfl, rfl⟩⟩

def FrameKind.msgType : FrameKind → List UInt8
  | .new | .market => ascii "D"
  | .cancel => ascii "F"
  | .replace => ascii "G"

section

variable (kind : FrameKind) (origOrderID : List UInt8) (price qty : UInt64) (side : Side)
  (smpID : UInt32)

/-- The fields behind the order id. -/
def moreFields : List (List UInt8) :=
  match kind with
  | .new => [ascii "21=1", ascii "55=IICPC", ascii "54=" ++ sideTag side,
      ascii "38=" ++ decimal qty.toNat, ascii "40=2", ascii "44=" ++ decimal price.toNat] ++
        smpFields smpID ++ [ascii "59=0"]
  | .market => [ascii "21=1", ascii "55=IICPC", ascii "54=" ++ sideTag side,
      ascii "38=" ++ decimal qty.toNat, ascii "40=1"] ++ smpFields smpID ++ [ascii "59=0"]
  | .cancel => [ascii "41=" ++ origOrderID, ascii "55=IICPC", ascii "54=" ++ sideTag side,
      ascii "38=" ++ decimal qty.toNat] ++ smpFields smpID
  | .replace => [ascii "41=" ++ origOrderID, ascii "21=1", ascii "55=IICPC",
      ascii "54=" ++ sideTag side, ascii "38=" ++ decimal qty.toNat, ascii "40=2",
      ascii "44=" ++ decimal price.toNat] ++ smpFields smpID

variable {origOrderID} in
theorem tame_moreFields (horig : soh ∉ origOrderID) :
    ∀ g ∈ moreFields kind origOrderID price qty side smpID, Tame g := by
  have hconst : Tame (ascii "21=1") ∧ Tame (ascii "55=IICPC") ∧ Tame (ascii "40=2") ∧
      Tame (ascii "40=1") ∧ Tame (ascii "59=0") :=
    ⟨⟨by decide, fun f => ⟨rfl, rfl⟩⟩, ⟨by decide, fun f => ⟨rfl, rfl⟩⟩,
      ⟨by decide, fun f => ⟨rfl, rfl⟩⟩, ⟨by decide, fun f => ⟨rfl, rfl⟩⟩,
      ⟨by decide, fun f => ⟨rfl, rfl⟩⟩⟩
  obtain ⟨h21, h55, hlimit, hmarket, h59⟩ := hconst
  have hside : Tame (ascii "54=" ++ sideTag side) :=
    ⟨not_mem_append (by decide) (by cases side <;> decide), fun f => ⟨rfl, rfl⟩⟩
  have hqty : Tame (ascii "38=" ++ decimal qty.toNat) :=
    ⟨not_mem_append (by decide) (not_mem_decimal (by decide)), fun f => ⟨rfl, rfl⟩⟩
  have hprice : Tame (ascii "44=" ++ decimal price.toNat) :=
    ⟨not_mem_append (by decide) (not_mem_decimal (by decide)), fun f => ⟨rfl, rfl⟩⟩
  have horig' : Tame (ascii "41=" ++ origOrderID) :=
    ⟨not_mem_append (by decide) horig, fun f => ⟨rfl, rfl⟩⟩
  have hsmp := tame_smpFields smpID
  cases kind <;>
    simp only [moreFields, forall_mem_append, forall_mem_cons, not_mem_nil,
      false_implies, implies_true, and_true]
  · exact ⟨⟨⟨h21, h55, hside, hqty, hlimit, hprice⟩, hsmp⟩, h59⟩
  · exact ⟨⟨⟨h21, h55, hside, hqty, hmarket⟩, hsmp⟩, h59⟩
  · exact ⟨⟨horig', h55, hside, hqty⟩, hsmp⟩
  · exact ⟨⟨horig', h21, h55, hside, hqty, hlimit, hprice⟩, hsmp⟩

theorem buildFixBody_eq {seq : UInt64} {orderID : List UInt8} {orig : Option (List UInt8)}
    (h : kind = .cancel ∨ kind = .replace → orig = some origOrderID) :
    buildFixBody kind seq orderID orig price qty side smpID =
      some (sealed soh ([ascii "35=" ++ kind.msgType, ascii "49=IICPC-BOT", ascii "56=CONTESTANT",
        ascii "34=" ++ decimal (seq + 1).toNat, ascii "52=" ++ fixTimestampPlaceholder,
        ascii "11=" ++ orderID] ++ moreFields kind origOrderID price qty side smpID)) := by
  have hD : ascii "35=D\x0149=IICPC-BOT\x0156=CONTESTANT\x0134=" =
      sealed soh [ascii "35=" ++ ascii "D", ascii "49=IICPC-BOT", ascii "56=CONTESTANT"] ++
        ascii "34=" := by decide
  have hF : ascii "35=F\x0149=IICPC-BOT\x0156=CONTESTANT\x0134=" =
      sealed soh [ascii "35=" ++ ascii "F", ascii "49=IICPC-BOT", ascii "56=CONTESTANT"] ++
        ascii "34=" := by decide
  have hG : ascii "35=G\x0149=IICPC-BOT\x0156=CONTESTANT\x0134=" =
      sealed soh [ascii "35=" ++ ascii "G", ascii "49=IICPC-BOT", ascii "56=CONTESTANT"] ++
        ascii "34=" := by decide
  have h52 : ascii "\x0152=19700101-00:00:00.000\x0111=" =
      soh :: (ascii "52=" ++ fixTimestampPlaceholder ++ soh :: ascii "11=") := by decide
  have h41 : ascii "\x0141=" = soh :: ascii "41=" := by decide
  have h21 : ascii "\x0121=1\x0155=IICPC\x0154=" =
      soh :: (ascii "21=1" ++ soh :: (ascii "55=IICPC" ++ soh :: ascii "54=")) := by decide
  have h55 : ascii "\x0155=IICPC\x0154=" = soh :: (ascii "55=IICPC" ++ soh :: ascii "54=") := by
    decide
  have h38 : ascii "\x0138=" = soh :: ascii "38=" := by decide
  have hlimit : ascii "\x0140=2\x0144=" = soh :: (ascii "40=2" ++ soh :: ascii "44=") := by decide
  have hmarket : ascii "\x0140=1\x01" = soh :: (ascii "40=1" ++ [soh]) := by decide
  have h59 : ascii "59=0\x01" = ascii "59=0" ++ [soh] := by decide
  have hsoh : ascii "\x01" = [soh] := by decide
  cases kind with
  | new =>
    simp [buildFixBody, FrameKind.msgType, moreFields, fixSmpTag_eq, hD, h52, h21, h38, hlimit,
      h59, hsoh, sealed_append, sealed, append_assoc, cons_append, nil_append]
  | market =>
    simp [buildFixBody, FrameKind.msgType, moreFields, fixSmpTag_eq, hD, h52, h21, h38, hmarket,
      h59, sealed_append, sealed, append_assoc, cons_append, nil_append]
  | cancel =>
    simp only [buildFixBody, h (.inl rfl), bind_eq_bind, bind_some, FrameKind.msgType,
      moreFields, fixSmpTag_eq, hF, h52, h41, h55, h38, hsoh, sealed,
      append_assoc, cons_append, nil_append]
    rfl
  | replace =>
    simp only [buildFixBody, h (.inr rfl), bind_eq_bind, bind_some, FrameKind.msgType,
      moreFields, fixSmpTag_eq, hG, h52, h41, h21, h38, hlimit, hsoh, sealed,
      append_assoc, cons_append, nil_append]
    rfl

end

/-- **A message with a built body is an order.** -/
theorem fixOrder_build (version : List UInt8) (kind : FrameKind) (seq price qty : UInt64)
    (side : Side) (smpID : UInt32)
    (hid : soh ∉ orderID) (horig : soh ∉ origOrderID)
    (h : kind = .cancel ∨ kind = .replace → orig = some origOrderID) :
    ∃ body, ∃ o : FixOrder, buildFixBody kind seq orderID orig price qty side smpID = some body ∧
      finalizeFix version body = o.bytes version ∧ o.orderID = orderID := by
  have htame := tame_moreFields kind price qty side smpID horig
  obtain ⟨checkSum, hsum, hlen, hsoh⟩ := finalizeFix_sealed version
    ([ascii "35=" ++ kind.msgType, ascii "49=IICPC-BOT", ascii "56=CONTESTANT",
      ascii "34=" ++ decimal (seq + 1).toNat, ascii "52=" ++ fixTimestampPlaceholder,
      ascii "11=" ++ orderID] ++ moreFields kind origOrderID price qty side smpID)
  refine ⟨_, ⟨kind.msgType, decimal (seq + 1).toNat, fixTimestampPlaceholder, orderID,
    moreFields kind origOrderID price qty side smpID, checkSum, by cases kind <;> decide,
    not_mem_decimal (by decide), by decide, hid, fun g hg => (htame g hg).1,
    fun g hg => (htame g hg).2, hlen, hsoh⟩,
    buildFixBody_eq kind origOrderID price qty side smpID h, hsum, rfl⟩

/-! ### JSON -/

/-- **A built payload is an order.** -/
theorem jsonOrder_build {kind : FrameKind} (price qty : UInt64) (side : Side)
    (hid : validIdentifier orderID = true)
    (h : kind = .cancel ∨ kind = .replace → orig = some origOrderID) :
    ∃ o : JsonOrder, buildJsonPayload kind orderID orig price qty side = some o.bytes ∧
      o.orderID = orderID := by
  have hquote : quote ∉ orderID := notMem_of_valid hid (by decide +kernel)
  have hne := (validIdentifier_iff.mp hid).1
  have hstring : jsonString orderID = quote :: (orderID ++ [quote]) := by
    rw [jsonString, flatMap_jsonEscape (plain_of_valid hid)]
    rfl
  have hkey : ascii "\x7b\"cl_ord_id\":" = ascii "\x7b" ++ (ascii "\"cl_ord_id\"" ++ ascii ":") := by
    decide
  have hcolon : ascii ":\"" = ascii ":" ++ [quote] := by decide
  have horig : ascii "\",\"orig_cl_ord_id\":\"" = quote :: ascii ",\"orig_cl_ord_id\":\"" := by decide
  cases kind with
  | new =>
    refine ⟨⟨ascii "\x7b", orderID, ascii ",\"symbol\":\"IICPC\",\"side\":\"" ++ sideName side ++
      ascii "\",\"qty\":" ++ decimal qty.toNat ++ ascii ",\"price\":" ++ decimal price.toNat ++
      ascii "\x7d", by decide, hne, hquote⟩, ?_, rfl⟩
    rw [JsonOrder.bytes, buildJsonPayload, hstring, hkey, hcolon]
    simp [append_assoc, cons_append, nil_append]
  | market =>
    refine ⟨⟨ascii "\x7b", orderID, ascii ",\"symbol\":\"IICPC\",\"side\":\"" ++ sideName side ++
      ascii "\",\"qty\":" ++ decimal qty.toNat ++ ascii ",\"ord_type\":\"MARKET\"\x7d", by decide, hne,
      hquote⟩, ?_, rfl⟩
    rw [JsonOrder.bytes, buildJsonPayload, hstring, hkey, hcolon]
    simp [append_assoc, cons_append, nil_append]
  | cancel =>
    have hopen : ascii "\x7b\"action\":\"CANCEL\",\"cl_ord_id\":\"" =
        ascii "\x7b\"action\":\"CANCEL\"," ++ (ascii "\"cl_ord_id\"" ++ ascii ":\"") := by decide
    refine ⟨⟨ascii "\x7b\"action\":\"CANCEL\",", orderID, ascii ",\"orig_cl_ord_id\":\"" ++
      origOrderID ++ ascii "\",\"symbol\":\"IICPC\"\x7d", by decide, hne, hquote⟩, ?_, rfl⟩
    rw [JsonOrder.bytes, buildJsonPayload, h (.inl rfl), horig, hopen]
    simp only [bind_eq_bind, bind_some, append_assoc, cons_append]
    rfl
  | replace =>
    have hopen : ascii "\x7b\"action\":\"REPLACE\",\"cl_ord_id\":\"" =
        ascii "\x7b\"action\":\"REPLACE\"," ++ (ascii "\"cl_ord_id\"" ++ ascii ":\"") := by decide
    refine ⟨⟨ascii "\x7b\"action\":\"REPLACE\",", orderID, ascii ",\"orig_cl_ord_id\":\"" ++
      origOrderID ++ ascii "\",\"symbol\":\"IICPC\",\"side\":\"" ++ sideName side ++ ascii "\",\"qty\":" ++
      decimal qty.toNat ++ ascii ",\"price\":" ++ decimal price.toNat ++ ascii "\x7d", by decide, hne,
      hquote⟩, ?_, rfl⟩
    rw [JsonOrder.bytes, buildJsonPayload, h (.inr rfl), horig, hopen]
    simp only [bind_eq_bind, bind_some, append_assoc, cons_append]
    rfl

/-! ### Frames -/

/-- **The bytes of an order**, in the form of the protocol, with the given id. -/
def IsOrder (protocol : Protocol) (fixVersion targetHost orderID bytes : List UInt8) : Prop :=
  match protocol with
  | .fix => ∃ o : FixOrder, bytes = o.bytes fixVersion ∧ o.orderID = orderID
  | .rest => ∃ o : JsonOrder, ∃ kind path, Capture.cr ∉ path ∧ 58 ∉ path ∧
      bytes = buildRestRequest (FrameKind.restMethod kind) targetHost path o.bytes ∧
      o.orderID = orderID
  | .ws => ∃ o : JsonOrder, bytes = o.bytes ∧ o.orderID = orderID

section

variable {protocol : Protocol} {fixVersion sessionID targetHost : List UInt8}
  {botID seq price qty : UInt64} {side : Side} {kind : FrameKind} {smpID : UInt32}
  {orig : Option (List UInt8)}

theorem buildFrame_of_bytes {bytes : List UInt8} {tag52Offset : Option Nat}
    (h : buildBytes protocol fixVersion targetHost seq (kind.orderID sessionID botID seq) orig price
      qty side kind smpID = some (bytes, tag52Offset)) :
    ∃ frame, buildFrame protocol fixVersion sessionID targetHost botID seq orig price qty side kind
        smpID = some frame ∧ frame.orderID = kind.orderID sessionID botID seq ∧
      frame.bytes = bytes := by
  refine ⟨⟨kind.orderID sessionID botID seq, orig.getD [], price, qty, side, bytes, tag52Offset,
    kind.payloadType, kind.ordType, smpID⟩, ?_, rfl, rfl⟩
  rw [buildFrame]
  simp only [h, bind_eq_bind, bind_some]
  rfl

theorem notMem_restPath (hb : b = Capture.cr ∨ b = 58)
    (h : b ∉ origOrderID) : b ∉ kind.restPath origOrderID := by
  have hpath : b ∉ ascii "/orders" ∧ b ∉ ascii "/orders/" := by
    rcases hb with rfl | rfl <;> decide
  cases kind with
  | new | market => exact hpath.1
  | cancel | replace => exact not_mem_append hpath.2 h

variable (kind) in
/-- **Every frame that is built is an order**, and one with an earlier id where that is needed is
built. -/
theorem isOrder_buildFrame (hs : validIdentifier sessionID = true)
    (horig : ∀ id ∈ orig, validIdentifier id = true)
    (h : kind = .cancel ∨ kind = .replace → orig.isSome = true) :
    ∃ frame, buildFrame protocol fixVersion sessionID targetHost botID seq orig price qty side kind
        smpID = some frame ∧ frame.orderID = kind.orderID sessionID botID seq ∧
      IsOrder protocol fixVersion targetHost frame.orderID frame.bytes := by
  have hid := valid_orderID kind botID seq hs
  have hsome : kind = .cancel ∨ kind = .replace → orig = some (orig.getD []) := by
    intro hk
    obtain ⟨id, rfl⟩ := Option.isSome_iff_exists.mp (h hk)
    rfl
  -- an earlier id has only bytes of an identifier
  have hget : ∀ b, identifierByte b = false → b ∉ orig.getD [] := by
    intro b hb
    cases orig with
    | none => exact not_mem_nil
    | some id => exact notMem_of_valid (horig id rfl) hb
  suffices hbytes : ∃ bytes offset, buildBytes protocol fixVersion targetHost seq
      (kind.orderID sessionID botID seq) orig price qty side kind smpID = some (bytes, offset) ∧
      IsOrder protocol fixVersion targetHost (kind.orderID sessionID botID seq) bytes by
    obtain ⟨bytes, offset, hbuild, horder⟩ := hbytes
    obtain ⟨frame, hframe, hfid, hfbytes⟩ := buildFrame_of_bytes hbuild
    exact ⟨frame, hframe, hfid, by rw [hfid, hfbytes]; exact horder⟩
  cases protocol with
  | fix =>
    obtain ⟨body, o, hbody, hbytes, ho⟩ := fixOrder_build fixVersion kind seq price qty side smpID
      (notMem_of_valid hid (by decide +kernel)) (hget soh (by decide +kernel)) hsome
    refine ⟨_, findTag52Offset (finalizeFix fixVersion body), ?_, o, hbytes, ho⟩
    rw [buildBytes, hbody]
    rfl
  | rest =>
    obtain ⟨o, hjson, ho⟩ := jsonOrder_build price qty side hid hsome
    refine ⟨_, none, ?_, o, kind, kind.restPath (orig.getD []),
      notMem_restPath (.inl rfl) (hget _ (by decide +kernel)),
      notMem_restPath (.inr rfl) (hget _ (by decide +kernel)), rfl, ho⟩
    rw [buildBytes, hjson]
    rfl
  | ws =>
    obtain ⟨o, hjson, ho⟩ := jsonOrder_build price qty side hid hsome
    refine ⟨_, none, ?_, o, rfl, ho⟩
    rw [buildBytes, hjson]
    rfl

theorem isOrder_of_buildFrame {frame : OrderFrame} (hs : validIdentifier sessionID = true)
    (horig : ∀ id ∈ orig, validIdentifier id = true)
    (h : buildFrame protocol fixVersion sessionID targetHost botID seq orig price qty side kind smpID =
      some frame) :
    frame.orderID = kind.orderID sessionID botID seq ∧
      IsOrder protocol fixVersion targetHost frame.orderID frame.bytes := by
  -- without the earlier id a cancel or a replace is not built
  have hsome : kind = .cancel ∨ kind = .replace → orig.isSome = true := by
    cases orig with
    | some id => exact fun _ => rfl
    | none => rintro (rfl | rfl) <;> cases protocol <;> cases h
  obtain ⟨frame', hframe, horder⟩ := isOrder_buildFrame kind hs horig hsome
  rw [some.inj (h.symm.trans hframe)]
  exact horder

end

end MatchBench.Bot
