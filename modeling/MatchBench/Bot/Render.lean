import MatchBench.Bot.JsonPatch

/-!
# Rendering orders

A bot renders its orders one after the other through one `TemplateCache`.  Every slot of
the cache holds the frame of some earlier order (`Kept`), and rendering an order gives
the bytes of a template built for it from scratch, with the right lengths and checksum
(`renderAll_of_narrow`), as long as the ids against self matches have three digits at most.

An id with four digits is written in full by a new template, and cut to its last three
digits when it is written over an old one.
-/

namespace MatchBench.Bot

open List Option
open Capture (ascii soh)

/-- A call of the task generator; sequence numbers are 32-bit. -/
inductive Call
  | new (seq : UInt32) (price qty : UInt64) (side : Side)
  | market (seq : UInt32) (qty : UInt64) (side : Side)
  deriving DecidableEq, Repr

namespace Call

def kind : Call → FrameKind
  | .new .. => .new
  | .market .. => .market

def seq : Call → UInt32
  | .new seq .. => seq
  | .market seq .. => seq

theorem isNew_kind (call : Call) : call.kind.IsNew := by
  cases call with
  | new => exact .inl rfl
  | market => exact .inr rfl

end Call

namespace TemplateCache

def render (c : TemplateCache) : Call → Option (TemplateCache × OrderFrame)
  | .new seq price qty side => c.renderNew seq.toUInt64 price qty side
  | .market seq qty side => c.renderMarket seq.toUInt64 qty side

/-- The calls of a task, and the frames of all of them. -/
def renderAll (c : TemplateCache) : List Call → Option (TemplateCache × List OrderFrame)
  | [] => some (c, [])
  | call :: calls => do
      let (c, frame) ← c.render call
      let (c, frames) ← c.renderAll calls
      return (c, frame :: frames)

/-- The values of a call. -/
def values (c : TemplateCache) : Call → Values
  | .new seq price qty side => ⟨seq.toUInt64, qty, price, side, c.smpFor seq.toUInt64⟩
  | .market seq qty side => ⟨seq.toUInt64, qty, 0, side, c.smpFor seq.toUInt64⟩

/-- **The bytes of a template built from scratch.** -/
def freshBytes (c : TemplateCache) (call : Call) : Option (List UInt8) :=
  let v := c.values call
  match c.protocol with
  | .fix =>
      (FixTemplate.build call.kind c.fixVersion c.sessionID c.botID v.seq v.qty v.price v.side
        v.smpID).map FixTemplate.buf
  | .rest | .ws =>
      (JsonTemplate.build call.kind c.protocol c.sessionID c.botID c.targetHost v.seq v.qty v.price
        v.side v.smpID).map JsonTemplate.buf

/-- **The lengths and the checksum are those of the bytes.**  The body of a FIX message is
what stands between its length and its checksum, and the checksum is the sum of all bytes
before it.  A WebSocket frame of the payload says its length to a reader. -/
def Sound (c : TemplateCache) (bytes : List UInt8) : Prop :=
  match c.protocol with
  | .fix => ∃ body : List UInt8, ∃ front : List UInt8,
      front = ascii "8=" ++ c.fixVersion ++ [soh] ++ ascii "9=" ++ decimal body.length ++ [soh] ++ body ∧
      body.getLast? = some soh ∧
      bytes = front ++ ascii "10=" ++ padded 3 (byteSum front % 256) ++ [soh]
  | .rest => ∃ body : List UInt8,
      bytes = ascii "POST /orders HTTP/1.1\r\nHost: " ++ c.targetHost ++
        ascii "\r\nContent-Type: application/json\r\nContent-Length: " ++ decimal body.length ++
        ascii "\r\nConnection: keep-alive\r\n\r\n" ++ body
  | .ws => bytes.length < 65536 → ∀ maskKey, ∃ frame size, buildWsFrame bytes maskKey = some frame ∧
      Capture.wsHeader frame = .header size bytes.length ∧ frame.length = size + 4 + bytes.length

/-- The id of a call has three digits at most, or there is none. -/
def NarrowCall (smpIdCount : UInt32) (call : Call) : Prop :=
  smpIdCount ≤ 1 ∨ (call.seq % smpIdCount).toNat < 1000
  deriving Decidable

/-- The parts of a cache that stay. -/
def SameParts (c d : TemplateCache) : Prop :=
  d.protocol = c.protocol ∧ d.fixVersion = c.fixVersion ∧ d.sessionID = c.sessionID ∧
    d.targetHost = c.targetHost ∧ d.botID = c.botID ∧ d.smpIdCount = c.smpIdCount

/-- **Every slot holds the frame of some order.** -/
structure Kept (c : TemplateCache) : Prop where
  version : validIdentifier c.fixVersion = true
  session : validIdentifier c.sessionID = true
  fix : ∀ kind t, c.fix kind = some t →
    t.Serves kind c.fixVersion c.sessionID c.botID ∧ ∃ v : Values, v.Narrow ∧ t.Shaped v
  json : ∀ kind t, c.json kind = some t →
    t.Serves kind c.protocol c.sessionID c.botID c.targetHost ∧ ∃ v : Values, v.Narrow ∧ t.Shaped v

section

variable {c : TemplateCache} {call : Call}

theorem narrow_values (h : NarrowCall c.smpIdCount call) : (c.values call).Narrow := by
  have hid : (c.values call).smpID = c.smpFor call.seq.toUInt64 := by cases call <;> rfl
  rw [Values.Narrow, hid, smpFor]
  by_cases hcount : c.smpIdCount ≤ 1
  · exact .inl (if_pos hcount)
  right
  have hlt := h.resolve_left hcount
  rw [UInt32.toNat_mod] at hlt
  rw [if_neg hcount, UInt64.toNat_toUInt32, UInt64.toNat_mod, UInt32.toNat_toUInt64,
    UInt32.toNat_toUInt64]
  exact lt_of_le_of_lt (Nat.mod_le _ _) hlt

theorem render_eq : c.render call = c.renderFast call.kind (c.values call).seq (c.values call).qty
    (c.values call).price (c.values call).side := by
  cases call <;> rfl

theorem smpFor_values : c.smpFor (c.values call).seq = (c.values call).smpID := by
  cases call <;> rfl

/-! ### One call -/

variable {kind : FrameKind} {v : Values}

theorem fixTemplate_of {P : FixTemplate → Prop} (hslot : ∀ t, c.fix kind = some t →
    t.Serves kind c.fixVersion c.sessionID c.botID ∧ P t) (hP : ∀ t : FixTemplate, t.Shaped v → P t)
    (hk : kind.IsNew) (hv : validIdentifier c.fixVersion = true)
    (hs : validIdentifier c.sessionID = true) :
    ∃ t, c.fixTemplate kind v.seq v.qty v.price v.side v.smpID = some t ∧
      t.Serves kind c.fixVersion c.sessionID c.botID ∧ P t := by
  rw [fixTemplate]
  cases h : c.fix kind with
  | some t => exact ⟨t, rfl, hslot t h⟩
  | none =>
    obtain ⟨t, hbuild, hserves, hshaped⟩ := FixTemplate.shaped_build c.botID v hk hv hs
    exact ⟨t, hbuild, hserves, hP t hshaped⟩

theorem jsonTemplate_of {P : JsonTemplate → Prop} (hslot : ∀ t, c.json kind = some t →
    t.Serves kind c.protocol c.sessionID c.botID c.targetHost ∧ P t)
    (hP : ∀ t : JsonTemplate, t.Shaped v → P t) (hk : kind.IsNew) (hp : c.protocol ≠ .fix)
    (hs : validIdentifier c.sessionID = true) :
    ∃ t, c.jsonTemplate kind v.seq v.qty v.price v.side v.smpID = some t ∧
      t.Serves kind c.protocol c.sessionID c.botID c.targetHost ∧ P t := by
  rw [jsonTemplate]
  cases h : c.json kind with
  | some t => exact ⟨t, rfl, hslot t h⟩
  | none =>
    obtain ⟨t, hbuild, hserves, hshaped⟩ := JsonTemplate.shaped_build c.targetHost c.botID v hk hp hs
    exact ⟨t, hbuild, hserves, hP t hshaped⟩

theorem update_eq_some {T : Type} {slots : FrameKind → Option T} {kind k : FrameKind} {t u : T}
    {p : FrameKind → T → Prop} (hslots : ∀ k u, slots k = some u → p k u) (ht : p kind t)
    (hu : Function.update slots kind (some t) k = some u) : p k u := by
  by_cases hk : k = kind
  · subst hk
    rw [Function.update_self, some_inj] at hu
    exact hu ▸ ht
  · rw [Function.update_of_ne hk] at hu
    exact hslots k u hu

theorem Kept.update_fix {t : FixTemplate} (hc : c.Kept)
    (hserves : t.Serves kind c.fixVersion c.sessionID c.botID) (hv : v.Narrow) (ht : t.Shaped v) :
    Kept { c with fix := Function.update c.fix kind (some t) } := by
  refine ⟨hc.version, hc.session, fun k u hu => ?_, hc.json⟩
  exact update_eq_some hc.fix ⟨hserves, v, hv, ht⟩ hu

theorem Kept.update_json {t : JsonTemplate} (hc : c.Kept)
    (hserves : t.Serves kind c.protocol c.sessionID c.botID c.targetHost) (hv : v.Narrow)
    (ht : t.Shaped v) : Kept { c with json := Function.update c.json kind (some t) } := by
  refine ⟨hc.version, hc.session, hc.fix, fun k u hu => ?_⟩
  exact update_eq_some hc.json ⟨hserves, v, hv, ht⟩ hu

/-- The bytes of an order. -/
def wireBytes (c : TemplateCache) (call : Call) : List UInt8 :=
  match c.protocol with
  | .fix => fixBytes call.kind c.sessionID c.botID (c.values call) c.fixVersion
  | _ => jsonBytes call.kind c.sessionID c.botID (c.values call) c.protocol c.targetHost

theorem Kept.freshBytes_fix (hc : c.Kept) (call : Call) (hp : c.protocol = .fix) :
    c.freshBytes call = some (c.wireBytes call) := by
  obtain ⟨t, hbuild, ⟨hk, hv, hs, hb⟩, hshaped⟩ :=
    FixTemplate.shaped_build c.botID (c.values call) call.isNew_kind hc.version hc.session
  rw [freshBytes, wireBytes]
  simp [hp, hbuild, map_some, hshaped.buf_eq, hk, hv, hs, hb]

theorem Kept.freshBytes_json (hc : c.Kept) (call : Call) (hp : c.protocol ≠ .fix) :
    c.freshBytes call = some (c.wireBytes call) := by
  obtain ⟨t, hbuild, ⟨hk, hpt, hs, hb, hh⟩, hshaped⟩ :=
    JsonTemplate.shaped_build c.targetHost c.botID (c.values call) call.isNew_kind hp hc.session
  rw [freshBytes, wireBytes]
  cases hproto : c.protocol with
  | fix => exact absurd hproto hp
  | rest | ws =>
    rw [hproto] at hbuild hpt
    simp [hbuild, map_some, hshaped.buf_eq, hk, hpt, hs, hb, hh]

variable {frame : OrderFrame}

theorem renderFast_fix (hp : c.protocol = .fix) (hv : c.smpFor v.seq = v.smpID) {t t' : FixTemplate} (ht : c.fixTemplate kind v.seq v.qty v.price v.side v.smpID = some t)
    (ht' : t.patch v.seq v.qty v.price v.side v.smpID = some (t', frame)) :
    c.renderFast kind v.seq v.qty v.price v.side =
      some ({ c with fix := Function.update c.fix kind (some t') }, frame) := by
  rw [renderFast]
  simp only [hv, hp, ht, bind_eq_bind, bind_some, ht']
  rfl

theorem renderFast_json (hp : c.protocol ≠ .fix) (hv : c.smpFor v.seq = v.smpID)
    {t t' : JsonTemplate}
    (ht : c.jsonTemplate kind v.seq v.qty v.price v.side v.smpID = some t)
    (ht' : t.patch v.seq v.qty v.price v.side v.smpID = some (t', frame)) :
    c.renderFast kind v.seq v.qty v.price v.side =
      some ({ c with json := Function.update c.json kind (some t') }, frame) := by
  rw [renderFast]
  cases hproto : c.protocol with
  | fix => exact absurd hproto hp
  | rest | ws =>
    simp only [hv, ht, bind_eq_bind, bind_some, ht']
    rfl

/-- **One call keeps the cache** and gives the bytes of its order. -/
theorem Kept.render (hc : c.Kept) (hcall : NarrowCall c.smpIdCount call) :
    ∃ d frame, c.render call = some (d, frame) ∧ d.Kept ∧ SameParts c d ∧
      frame.bytes = c.wireBytes call := by
  have hk := call.isNew_kind
  have hv := narrow_values hcall
  rw [render_eq]
  by_cases hp : c.protocol = .fix
  · obtain ⟨t, ht, ⟨hkind, hversion, hsession, hbot⟩, u, hu, hshaped⟩ :=
      fixTemplate_of (hc.fix _) (fun _ h => ⟨_, hv, h⟩) hk hc.version hc.session
    obtain ⟨t', ht', hserves, hshaped'⟩ := hshaped.patch hu hv (hversion ▸ hc.version)
      (hsession ▸ hc.session)
    rw [hkind, hversion, hsession, hbot] at hserves
    refine ⟨_, _, renderFast_fix hp smpFor_values ht ht', hc.update_fix hserves hv hshaped',
      ⟨rfl, rfl, rfl, rfl, rfl, rfl⟩, ?_⟩
    obtain ⟨hkind', hversion', hsession', hbot'⟩ := hserves
    rw [FixTemplate.frame, hshaped'.buf_eq, hkind', hversion', hsession', hbot', wireBytes]
    simp [hp]
  obtain ⟨t, ht, ⟨hkind, hproto, hsession, hbot, hhost⟩, u, hu, hshaped⟩ :=
    jsonTemplate_of (hc.json _) (fun _ h => ⟨_, hv, h⟩) hk hp hc.session
  obtain ⟨t', ht', hserves, hshaped'⟩ := hshaped.patch hu hv (hsession ▸ hc.session)
  rw [hkind, hproto, hsession, hbot, hhost] at hserves
  refine ⟨_, _, renderFast_json hp smpFor_values ht ht', hc.update_json hserves hv hshaped',
    ⟨rfl, rfl, rfl, rfl, rfl, rfl⟩, ?_⟩
  obtain ⟨hkind', hproto', hsession', hbot', hhost'⟩ := hserves
  rw [JsonTemplate.frame, hshaped'.buf_eq, hkind', hproto', hsession', hbot', hhost', wireBytes]
  cases h : c.protocol with
  | fix => exact absurd h hp
  | rest | ws => rfl

end

/-! ### Lengths and checksums -/

theorem length_masked (payload : List UInt8) (maskKey : Fin 4 → UInt8) :
    (ofFn maskKey ++ payload.zipIdx.map (fun x => x.1 ^^^ maskKey (Fin.ofNat 4 x.2))).length =
      4 + payload.length := by
  rw [length_append, length_ofFn, length_map, length_zipIdx]

/-- **A reader of a WebSocket frame sees the length of its payload.** -/
theorem buildWsFrame_sound {payload : List UInt8} (h : payload.length < 65536)
    (maskKey : Fin 4 → UInt8) :
    ∃ frame size, buildWsFrame payload maskKey = some frame ∧
      Capture.wsHeader frame = .header size payload.length ∧
      frame.length = size + 4 + payload.length := by
  have hlen7 : ∀ n < 126, ((0x80 ||| UInt8.ofNat n) &&& 0x7F).toNat = n := by decide
  have hlong : ((0x80 ||| 126 : UInt8) &&& 0x7F).toNat = 126 := by decide
  have hmasked := length_masked payload maskKey
  rw [buildWsFrame]
  by_cases hshort : payload.length < 126
  · refine ⟨_, 2, if_pos hshort, ?_, ?_⟩
    · rw [Capture.wsHeader]
      simp [cons_append, nil_append, hlen7 _ hshort, if_pos hshort]
    · rw [append_assoc, length_append, hmasked]
      simp only [length_cons, length_nil]
      omega
  refine ⟨_, 4, (if_neg hshort).trans (if_pos h), ?_, ?_⟩
  · rw [Capture.wsHeader]
    have hvalue : Capture.fromBeBytes
        [UInt8.ofNat (payload.length / 256), UInt8.ofNat (payload.length % 256)] = payload.length := by
      simp only [Capture.fromBeBytes, foldl_cons, foldl_nil, UInt8.toNat_ofNat']
      omega
    simp only [cons_append, nil_append, getD_cons_succ, getD_cons_zero, hlong,
      length_cons, drop_succ_cons, drop_zero, take_succ_cons, take_zero,
      hvalue]
    rw [if_neg (by omega), if_pos trivial, if_neg (by omega)]
  · rw [append_assoc, length_append, hmasked]
    simp only [length_cons, length_nil]
    omega

theorem sound_wireBytes (c : TemplateCache) (call : Call) : c.Sound (c.wireBytes call) := by
  rw [Sound, wireBytes]
  cases hp : c.protocol with
  | fix =>
    refine ⟨fixBody call.kind c.sessionID c.botID (c.values call), _, rfl, ?_, ?_⟩
    · have hend : bodyEnd = (soh :: ascii "59=0") ++ [soh] := rfl
      rw [fixBody, hend, fill_last, getLast?_concat]
    have h₉ : ascii "\x019=" = [soh] ++ ascii "9=" := by decide
    rw [← finalizeFix_eq, finalizeFix]
    simp only [h₉, ← append_assoc]
    rw [padU64_eq (lt_trans (Nat.mod_lt _ (by omega)) (by decide : 256 < 10 ^ 3))]
  | rest =>
    have hfirst : ascii "POST /orders HTTP/1.1\r\nHost: " =
        ascii "POST" ++ ascii " " ++ ascii "/orders" ++ ascii " HTTP/1.1\r\nHost: " := by decide
    refine ⟨jsonBody call.kind c.sessionID c.botID (c.values call), ?_⟩
    rw [hfirst]
    rfl
  | ws => exact fun h maskKey => buildWsFrame_sound h maskKey

/-! ### A task -/

theorem SameParts.wireBytes_eq {c d : TemplateCache} (h : SameParts c d) (call : Call) :
    d.wireBytes call = c.wireBytes call := by
  obtain ⟨hp, hv, hs, hh, hb, hn⟩ := h
  have hvalues : d.values call = c.values call := by
    cases call <;> simp only [values, smpFor, hn]
  rw [wireBytes, wireBytes, hp, hv, hs, hh, hb, hvalues]

variable {c : TemplateCache}

theorem Kept.renderAll (hc : c.Kept) : ∀ {calls : List Call},
    (∀ call ∈ calls, NarrowCall c.smpIdCount call) →
    ∃ d frames, c.renderAll calls = some (d, frames) ∧
      Forall₂ (fun call (frame : OrderFrame) => frame.bytes = c.wireBytes call) calls frames := by
  intro calls
  induction calls generalizing c with
  | nil => exact fun _ => ⟨c, [], rfl, .nil⟩
  | cons call calls ih =>
    intro h
    obtain ⟨d, frame, hrender, hd, hparts, hbytes⟩ := hc.render (h call (.head _))
    obtain ⟨e, frames, hrest, hframes⟩ := ih hd fun x hx => by
      rw [hparts.2.2.2.2.2]
      exact h x (.tail call hx)
    refine ⟨e, frame :: frames, ?_, .cons hbytes (hframes.imp fun x y hxy => ?_)⟩
    · rw [TemplateCache.renderAll, hrender]
      simp only [bind_eq_bind, bind_some, hrest]
      rfl
    · rw [hxy, hparts.wireBytes_eq]

theorem Kept.freshBytes (hc : c.Kept) (call : Call) :
    c.freshBytes call = some (c.wireBytes call) := by
  by_cases hp : c.protocol = .fix
  · exact hc.freshBytes_fix call hp
  · exact hc.freshBytes_json call hp

/-- **Every frame of a task is that of a new template.** -/
theorem renderAll_of_narrow (protocol : Protocol) (fixVersion sessionID targetHost : List UInt8)
    (botID : UInt64) (smpIdCount : UInt32) (calls : List Call)
    (hversion : validIdentifier fixVersion = true) (hsession : validIdentifier sessionID = true)
    (hnarrow : ∀ call ∈ calls, NarrowCall smpIdCount call) :
    ∃ d frames,
      (withSmp protocol fixVersion sessionID targetHost botID smpIdCount).renderAll calls =
        some (d, frames) ∧
      Forall₂ (fun call (frame : OrderFrame) =>
        (withSmp protocol fixVersion sessionID targetHost botID smpIdCount).freshBytes call =
          some frame.bytes ∧
        (withSmp protocol fixVersion sessionID targetHost botID smpIdCount).Sound frame.bytes)
        calls frames := by
  have hc : Kept (withSmp protocol fixVersion sessionID targetHost botID smpIdCount) :=
    ⟨hversion, hsession, nofun, nofun⟩
  obtain ⟨d, frames, hrender, hframes⟩ := hc.renderAll hnarrow
  refine ⟨d, frames, hrender, hframes.imp fun call frame hbytes => ?_⟩
  rw [hbytes]
  exact ⟨hc.freshBytes call, sound_wireBytes _ call⟩

/-- Two limit orders and a market order, with two ids in turn. -/
theorem renderAll_three : ∃ d frames,
    (withSmp .fix (ascii "FIX.4.2") (ascii "s") (ascii "h") 7 2).renderAll
        [.new 9 100 5 .buy, .market 10 5 .sell, .new 11 100 5 .buy] = some (d, frames) ∧
      Forall₂ (fun call (frame : OrderFrame) =>
        (withSmp .fix (ascii "FIX.4.2") (ascii "s") (ascii "h") 7 2).freshBytes call =
          some frame.bytes ∧
        (withSmp .fix (ascii "FIX.4.2") (ascii "s") (ascii "h") 7 2).Sound frame.bytes)
        [.new 9 100 5 .buy, .market 10 5 .sell, .new 11 100 5 .buy] frames :=
  renderAll_of_narrow .fix (ascii "FIX.4.2") (ascii "s") (ascii "h") 7 2 _ (by decide) (by decide)
    (by decide)

/-- **The id 1000 and then the id 0**: the second is written over the first three digits of
the first, and the fourth digit stays. -/
theorem renderAll_thousand_one : ∃ patched fresh,
    ((withSmp .fix (ascii "FIX.4.2") (ascii "s") (ascii "h") 7 1001).renderAll
      [.new 1000 100 5 .buy, .new 1001 100 5 .buy]).bind (fun x => x.2[1]?.map OrderFrame.bytes) =
        some patched ∧
    (withSmp .fix (ascii "FIX.4.2") (ascii "s") (ascii "h") 7 1001).freshBytes
      (.new 1001 100 5 .buy) = some fresh ∧ patched ≠ fresh := by
  have hpatched : (((withSmp .fix (ascii "FIX.4.2") (ascii "s") (ascii "h") 7 1001).renderAll
      [.new 1000 100 5 .buy, .new 1001 100 5 .buy]).bind
        (fun x => x.2[1]?.map OrderFrame.bytes)).isSome = true := by decide +kernel
  have hfresh : ((withSmp .fix (ascii "FIX.4.2") (ascii "s") (ascii "h") 7 1001).freshBytes
      (.new 1001 100 5 .buy)).isSome = true := by decide +kernel
  have hne : ((withSmp .fix (ascii "FIX.4.2") (ascii "s") (ascii "h") 7 1001).renderAll
      [.new 1000 100 5 .buy, .new 1001 100 5 .buy]).bind (fun x => x.2[1]?.map OrderFrame.bytes) ≠
      (withSmp .fix (ascii "FIX.4.2") (ascii "s") (ascii "h") 7 1001).freshBytes
        (.new 1001 100 5 .buy) := by decide +kernel
  refine ⟨_, _, (some_get hpatched).symm, (some_get hfresh).symm, fun h => hne ?_⟩
  rw [← some_get hpatched, ← some_get hfresh, h]

end TemplateCache

end MatchBench.Bot
