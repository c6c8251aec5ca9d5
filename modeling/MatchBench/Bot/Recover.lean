import MatchBench.Bot.Patched

/-!
# What the bot sends is what the capture reads

The bot writes its orders in one of three forms, from scratch or over an earlier one, and the
capture sees nothing but the bytes of a connection.  From any orders one after the other it gets
them back: a request message for each, with the bytes of the frame, and the id of the order in it.
For a cancel and a replace this is the new id and not that of the order it is about
(`requests_recovered`).

There are limits.  The capture takes a FIX message only when the version begins with `FIX`, a body
or a request only up to 64 KiB, and it reads the head of a request, in which the bot writes the name
of the host as it is.  Identifiers that the bot accepts need not keep to them (`requests_lost`).
-/

namespace MatchBench.Bot

open List Capture
open Capture (ascii soh)

def Protocol.transport : Protocol → Capture.Transport
  | .fix => .fix
  | .rest | .ws => .httpWs

/-- What the orders of a session have in common. -/
structure Link where
  protocol : Protocol
  fixVersion : List UInt8
  sessionID : List UInt8
  targetHost : List UInt8
  version_valid : validIdentifier fixVersion = true
  session_valid : validIdentifier sessionID = true

namespace Link

variable (l : Link)

/-- The cache of a task. -/
def cache (botID : UInt64) (smpIdCount : UInt32) : TemplateCache :=
  TemplateCache.withSmp l.protocol l.fixVersion l.sessionID l.targetHost botID smpIdCount

/-- **The frames that the bot renders**: those that are built from scratch, and those of a task.
The ids of earlier orders are identifiers. -/
inductive Rendered (kind : FrameKind) (botID seq : UInt64) (frame : OrderFrame) : Prop
  | built (orig : Option (List UInt8)) (price qty : UInt64) (side : Side) (smpID : UInt32) :
      (∀ id ∈ orig, validIdentifier id = true) →
      buildFrame l.protocol l.fixVersion l.sessionID l.targetHost botID seq orig price qty side kind
        smpID = some frame → Rendered kind botID seq frame
  | task (smpIdCount : UInt32) (actions : List Action) (c : TemplateCache) (frames : List OrderFrame)
      (i : Nat) (action : Action) :
      (∀ a ∈ actions, ∀ id ∈ a.origOrderID, validIdentifier id = true) →
      (l.cache botID smpIdCount).renderFrames actions = some (c, frames) →
      actions[i]? = some action → frames[i]? = some frame → action.kind = kind →
      action.seq.toUInt64 = seq → Rendered kind botID seq frame

/-- The bytes on the connection; a payload that is too long for a frame stops the program. -/
def wire (frame : OrderFrame) (maskKey : Fin 4 → UInt8) : Option (List UInt8) :=
  match l.protocol with
  | .ws => buildWsFrame frame.bytes maskKey
  | .fix | .rest => some frame.bytes

/-- **The frame keeps to the limits of the capture.**  A message with a body of 64 KiB has 18 bytes
beside it and its version. -/
def Readable (frame : OrderFrame) : Prop :=
  match l.protocol with
  | .fix => ascii "FIX" <+: l.fixVersion ∧ l.fixVersion.length < 2 ^ 61 ∧
      frame.bytes.length ≤ l.fixVersion.length + 18 + Capture.maxFixMessage
  | .rest => PlainHost l.targetHost ∧ frame.bytes.length ≤ Capture.maxHttpMessage
  | .ws => frame.bytes.length < 65536

instance (frame : OrderFrame) : Decidable (l.Readable frame) := by
  unfold Readable
  split <;> infer_instance

variable {l} {kind : FrameKind} {botID seq : UInt64} {frame : OrderFrame}

theorem Rendered.isOrder (h : l.Rendered kind botID seq frame) :
    frame.orderID = kind.orderID l.sessionID botID seq ∧
      IsOrder l.protocol l.fixVersion l.targetHost frame.orderID frame.bytes := by
  cases h with
  | built orig price qty side smpID horig hbuild =>
    exact isOrder_of_buildFrame l.session_valid horig hbuild
  | task smpIdCount actions c frames i action horig hrender haction hframe hkind hseq =>
    have hc : (TemplateCache.withSmp l.protocol l.fixVersion l.sessionID l.targetHost botID
      smpIdCount).Stocked := ⟨l.version_valid, l.session_valid, nofun, nofun⟩
    obtain ⟨d, frames', hrender', hframes⟩ := hc.renderFrames horig
    obtain ⟨-, rfl⟩ := Prod.mk.inj (Option.some.inj (hrender.symm.trans hrender'))
    subst hkind hseq
    obtain ⟨hi, rfl⟩ := List.getElem?_eq_some_iff.mp haction
    obtain ⟨hi', rfl⟩ := List.getElem?_eq_some_iff.mp hframe
    exact hframes.get hi hi'

/-- **One frame**: it is on the wire whole, and is parsed as a request with its id. -/
theorem Rendered.recovered (mm : Finder UInt8) (h : l.Rendered kind botID seq frame)
    (hread : l.Readable frame) (maskKey : Fin 4 → UInt8) :
    ∃ bytes, l.wire frame maskKey = some bytes ∧
      Capture.Whole mm l.protocol.transport .request bytes ∧
      (parse mm l.protocol.transport .request bytes).classified = .request ∧
      (parse mm l.protocol.transport .request bytes).clordid = string frame.orderID := by
  obtain ⟨_, horder⟩ := h.isOrder
  rw [Readable] at hread
  rw [wire]
  cases hp : l.protocol with
  | fix =>
    rw [hp] at horder hread
    obtain ⟨o, hbytes, ho⟩ := horder
    obtain ⟨hversion, hroom, hsize⟩ := hread
    have hsoh := soh_not_mem l.version_valid
    rw [hbytes] at hsize ⊢
    rw [← ho]
    exact ⟨_, rfl, o.whole l.fixVersion mm hversion hsoh hroom hsize, o.parseFix_bytes l.fixVersion hsoh⟩
  | rest =>
    rw [hp] at horder hread
    obtain ⟨o, kind, path, hcr, hcolon, hbytes, ho⟩ := horder
    obtain ⟨hhost, hsize⟩ := hread
    have hjson : o.bytes.length < 10 ^ 20 := by
      have hmax : maxHttpMessage = 65536 := rfl
      rw [hbytes, buildRestRequest, length_append] at hsize
      omega
    have hrequest := bytes_restRequest kind l.targetHost path o.bytes hhost hcr hcolon hjson
    rw [hbytes, ← hrequest] at hsize
    refine ⟨_, rfl, ?_⟩
    rw [hbytes, ← hrequest, ← ho]
    refine ⟨Capture.HttpRequest.whole _ mm .request hsize, ?_⟩
    rw [Protocol.transport, Capture.HttpRequest.parse_bytes]
    exact o.parseJson_bytes mm
  | ws =>
    rw [hp] at horder hread
    obtain ⟨o, hbytes, ho⟩ := horder
    rw [hbytes] at hread ⊢
    rw [← ho]
    refine ⟨_, bytes_wsOrder maskKey hread, Capture.WsFrame.whole _ _ mm, ?_⟩
    rw [Protocol.transport, Capture.WsFrame.parse_bytes]
    exact o.parseJson_bytes mm

end Link

/-! ### A connection -/

/-- A frame that was rendered, and the key it is masked with if it is. -/
structure Sent where
  link : Link
  kind : FrameKind
  botID : UInt64
  seq : UInt64
  frame : OrderFrame
  maskKey : Fin 4 → UInt8
  rendered : link.Rendered kind botID seq frame

namespace Sent

def wire (s : Sent) : Option (List UInt8) := s.link.wire s.frame s.maskKey

/-- The bytes are read as a request with the id of the frame, which is that of the message
itself. -/
def ReadAs (mm : Finder UInt8) (transport : Capture.Transport) (s : Sent) (bytes : List UInt8) : Prop :=
  (Capture.parse mm transport .request bytes).classified = .request ∧
    (Capture.parse mm transport .request bytes).clordid = Capture.string s.frame.orderID ∧
    s.frame.orderID = s.kind.orderID s.link.sessionID s.botID s.seq

end Sent

theorem wires_recovered (mm : Finder UInt8) (transport : Capture.Transport) : ∀ {sent : List Sent},
    (∀ s ∈ sent, s.link.protocol.transport = transport ∧ s.link.Readable s.frame) →
    ∃ wires, Forall₂ (fun s wire => Sent.wire s = some wire) sent wires ∧
      (∀ wire ∈ wires, Capture.Whole mm transport .request wire) ∧
      Forall₂ (Sent.ReadAs mm transport) sent wires := by
  intro sent
  induction sent with
  | nil => exact fun _ => ⟨[], .nil, nofun, .nil⟩
  | cons s sent ih =>
    intro h
    obtain ⟨htransport, hread⟩ := h s (.head _)
    obtain ⟨wires, hwires, hwhole, hparse⟩ := ih fun x hx => h x (.tail s hx)
    obtain ⟨wire, hwire, hw, hclass, hid⟩ := s.rendered.recovered mm hread s.maskKey
    rw [htransport] at hw hclass hid
    refine ⟨wire :: wires, .cons hwire hwires, ?_, .cons ⟨hclass, hid, s.rendered.isOrder.1⟩ hparse⟩
    exact forall_mem_cons.mpr ⟨hw, hwhole⟩

/-- **What the bot sends is what the capture reads**: of orders of any kind, one after the other on
a connection, that keep to the limits of the capture, the framer takes each with its own bytes, and
the parser reads a request with its id. -/
theorem requests_recovered (mm : Finder UInt8) (transport : Capture.Transport) (sent : List Sent)
    (h : ∀ s ∈ sent, s.link.protocol.transport = transport ∧ s.link.Readable s.frame) :
    ∃ wires, Forall₂ (fun s wire => Sent.wire s = some wire) sent wires ∧
      (frames mm transport .request wires.flatten).map Prod.snd = wires ∧
      Forall₂ (Sent.ReadAs mm transport) sent wires := by
  obtain ⟨wires, hwires, hwhole, hparse⟩ := wires_recovered mm transport h
  exact ⟨wires, hwires, frames_flatten hwhole, hparse⟩

/-- A frame that is built from scratch. -/
def Sent.ofBuild (l : Link) (kind : FrameKind) (seq : UInt64) (orig : Option (List UInt8))
    (horig : ∀ id ∈ orig, validIdentifier id = true)
    (h : (buildFrame l.protocol l.fixVersion l.sessionID l.targetHost 7 seq orig 100 5 .buy kind
      1).isSome = true) : Sent where
  link := l
  kind := kind
  botID := 7
  seq := seq
  frame := (buildFrame l.protocol l.fixVersion l.sessionID l.targetHost 7 seq orig 100 5 .buy kind 1).get h
  maskKey := ![0xA1, 0xB2, 0xC3, 0xD4]
  rendered := .built orig 100 5 .buy 1 horig (Option.some_get h).symm

/-- A session with the given protocol. -/
def sampleLink (protocol : Protocol) : Link :=
  ⟨protocol, ascii "FIX.4.2", ascii "s", ascii "h", by decide +kernel, by decide +kernel⟩

/-- A cancel in a request and a replace in a WebSocket frame, of the same order. -/
def cancelRest : Sent :=
  .ofBuild (sampleLink .rest) .cancel 10 (some (ascii "s_7_9_O")) (by decide +kernel) (by decide +kernel)

def replaceWs : Sent :=
  .ofBuild (sampleLink .ws) .replace 11 (some (ascii "s_7_9_O")) (by decide +kernel) (by decide +kernel)

theorem requests_recovered_cancelReplace :
    (cancelRest.link.Readable cancelRest.frame ∧ replaceWs.link.Readable replaceWs.frame) ∧
      ∃ wires, Forall₂ (fun s wire => Sent.wire s = some wire) [cancelRest, replaceWs] wires ∧
        (frames Finder.naive .httpWs .request wires.flatten).map Prod.snd = wires ∧
        Forall₂ (Sent.ReadAs Finder.naive .httpWs) [cancelRest, replaceWs] wires := by
  have hcancel : cancelRest.link.Readable cancelRest.frame := by decide +kernel
  have hreplace : replaceWs.link.Readable replaceWs.frame := by decide +kernel
  refine ⟨⟨hcancel, hreplace⟩, requests_recovered Finder.naive .httpWs [cancelRest, replaceWs] ?_⟩
  simp only [forall_mem_cons]
  exact ⟨⟨rfl, hcancel⟩, ⟨rfl, hreplace⟩, fun s hs => absurd hs not_mem_nil⟩

/-! ### Beyond the limits -/

theorem frames_fixText_long (mm : Finder UInt8) {version : List UInt8} {fields : List (List UInt8)}
    (checkSum : List UInt8) (hfix : ascii "FIX" <+: version) (hv : soh ∉ version)
    (hlong : maxFixMessage < (sealed soh fields).length)
    (hbig : (sealed soh fields).length < 10 ^ 20) :
    ∀ f ∈ frames mm .fix .request (fixText version fields checkSum), 0 < f.1 := by
  intro f hf
  obtain ⟨rest, rfl⟩ := hfix
  have hbegin : ascii "8=" ++ (ascii "FIX" ++ rest) = fixBegin ++ rest := rfl
  have hrest : soh ∉ rest := fun h => hv (mem_append_right _ h)
  obtain ⟨skip, hskip⟩ := frameFix_long mm hrest (decimal_ne_nil (sealed soh fields).length)
    (isAsciiDigit_decimal _) (by rwa [decimal_decimal hbig])
    (sealed soh fields ++ (ascii "10=" ++ (checkSum ++ [soh])))
  rw [fixText_eq, hbegin, frames, framesFrom, frame, hskip] at hf
  have hle := le_of_mem_framesFrom hf
  omega

/-- A session id of 64 KiB. -/
def longLink : Link :=
  ⟨.fix, ascii "FIX.4.2", List.replicate 65536 97, ascii "h", by decide +kernel, by
    refine validIdentifier_iff.mpr ⟨cons_ne_nil _ _, fun b hb => ?_⟩
    rw [eq_of_mem_replicate hb]
    decide +kernel⟩

/-- The fields of an order of that session, before the id. -/
def longHead : List (List UInt8) :=
  [ascii "35=" ++ FrameKind.new.msgType, ascii "49=IICPC-BOT", ascii "56=CONTESTANT",
    ascii "34=" ++ decimal ((9 : UInt64) + 1).toNat, ascii "52=" ++ fixTimestampPlaceholder]

def longFields : List (List UInt8) :=
  longHead ++ (ascii "11=" ++ FrameKind.new.orderID longLink.sessionID 7 9) ::
    moreFields .new [] 100 5 .buy 1

theorem length_longFields : (sealed soh longFields).length = 65659 := by
  have hhead : (sealed soh longHead).length = 63 := by decide +kernel
  have hmore : (sealed soh (moreFields .new [] 100 5 .buy 1)).length = 50 := by decide +kernel
  have hsession : longLink.sessionID.length = 65536 := length_replicate
  have hnumbers : (ascii "_" ++ decimal (7 : UInt64).toNat ++ ascii "_" ++
      decimal (9 : UInt64).toNat ++ ascii "_" ++ [FrameKind.new.letter]).length = 6 := by decide +kernel
  have hid : (FrameKind.new.orderID longLink.sessionID 7 9).length = 65542 := by
    rw [FrameKind.orderID]
    simp only [length_append] at hnumbers ⊢
    omega
  have htag : (ascii "11=").length = 3 := rfl
  rw [longFields, sealed_append, sealed, length_append, hhead, length_append,
    length_append, length_cons, htag, hid, hmore]

/-- **An order with a long id is not read as a message.** -/
theorem longLink_lost : ∃ frame, longLink.Rendered .new 7 9 frame ∧
    ∀ f ∈ frames Finder.naive .fix .request frame.bytes, 0 < f.1 := by
  have hbody : buildFixBody .new 9 (FrameKind.new.orderID longLink.sessionID 7 9) none 100 5 .buy 1 =
      some (sealed soh longFields) :=
    buildFixBody_eq .new [] 100 5 .buy 1 fun h => absurd h (by decide)
  obtain ⟨checkSum, hbytes, -, -⟩ := finalizeFix_sealed longLink.fixVersion longFields
  have hbuild : buildBytes .fix longLink.fixVersion longLink.targetHost 9
      (FrameKind.new.orderID longLink.sessionID 7 9) none 100 5 .buy .new 1 =
      some (fixText longLink.fixVersion longFields checkSum,
        findTag52Offset (fixText longLink.fixVersion longFields checkSum)) := by
    rw [← hbytes, buildBytes, hbody]
    rfl
  obtain ⟨frame, hframe, -, hfbytes⟩ := buildFrame_of_bytes hbuild
  refine ⟨frame, .built none 100 5 .buy 1 (by simp) hframe, ?_⟩
  have hmax : maxFixMessage = 65536 := rfl
  rw [hfbytes]
  exact frames_fixText_long Finder.naive checkSum (by decide) (by decide)
    (by rw [length_longFields]; omega) (by rw [length_longFields]; omega)

theorem requests_lost :
    (∃ l : Link, ∃ frame, l.fixVersion = ascii "4.2" ∧ l.Rendered .new 7 9 frame ∧
      frames Finder.naive l.protocol.transport .request frame.bytes = []) ∧
    (∃ l : Link, ∃ frame, l.targetHost = ascii "h\r\n\r\n" ∧ l.Rendered .new 7 9 frame ∧
      (frames Finder.naive l.protocol.transport .request frame.bytes).map Prod.snd ≠
        [frame.bytes]) ∧
    (∃ frame, longLink.Rendered .new 7 9 frame ∧
      ∀ f ∈ frames Finder.naive .fix .request frame.bytes, 0 < f.1) := by
  refine ⟨?_, ?_, longLink_lost⟩
  · let l : Link := ⟨.fix, ascii "4.2", ascii "s", ascii "h", by decide +kernel, by decide +kernel⟩
    let s := Sent.ofBuild l .new 9 none (by simp) (by decide +kernel)
    exact ⟨l, s.frame, rfl, s.rendered, by decide +kernel⟩
  let l : Link := ⟨.rest, ascii "FIX.4.2", ascii "s", ascii "h\r\n\r\n", by decide +kernel,
    by decide +kernel⟩
  let s := Sent.ofBuild l .new 9 none (by simp) (by decide +kernel)
  exact ⟨l, s.frame, rfl, s.rendered, by decide +kernel⟩

end MatchBench.Bot
