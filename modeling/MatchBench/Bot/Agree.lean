import MatchBench.Bot.Reader
import MatchBench.Capture.Frames

/-!
# Two readers of one stream

A response is read twice: by the bot, which waits for it, and by the capture, which takes its
time.  The validator trusts that both saw the same response of the same order.  The bot takes a
message to end with its checksum field and an order id where it stands first; the capture goes
by the body length and keeps the last id.

Messages with a correct body length and no checksum field in their body are given the same
bounds by both as long as the body is not longer than the capture accepts.  The ids are the same
when the first and the last id of the message are.  `readers_agree_iff` says that this is all.
-/

namespace MatchBench.Bot

open List Capture
open Capture (ascii soh fixBegin maxFixMessage Direction)

/-! ### Messages -/

/-- A FIX message: its fields are `8=FIX` and the rest of the version, the length of the body,
the fields of the body, none of which is a checksum, and the checksum. -/
structure FixReply where
  version : List UInt8
  bodyLength : List UInt8
  fields : List (List UInt8)
  version_soh : soh ∉ version
  bodyLength_ne : bodyLength ≠ []
  bodyLength_digits : ∀ c ∈ bodyLength, Capture.isAsciiDigit c = true
  bodyLength_eq : Capture.decimal bodyLength = (sealed soh fields).length
  fields_soh : ∀ g ∈ fields, soh ∉ g
  no_checkSum : ∀ g ∈ fields, ¬ ascii "10=" <+: g
  /-- A message fits into the address space. -/
  header_lt : version.length + bodyLength.length < 2 ^ 62

/-- A field with a client order id. -/
def isClOrdID (g : List UInt8) : Bool := (ascii "11=").isPrefixOf g

namespace FixReply

variable (m : FixReply)

def body : List UInt8 := sealed soh m.fields

/-- The fields before the checksum. -/
def heads : List (List UInt8) := (fixBegin ++ m.version) :: (ascii "9=" ++ m.bodyLength) :: m.fields

def checkSum : List UInt8 := padU64 (byteSum (sealed soh m.heads) % 256) 3

def bytes : List UInt8 := sealed soh (m.heads ++ [ascii "10=" ++ m.checkSum])

/-- The values of tag 11 in the body. -/
def clOrdIDs : List (List UInt8) := (m.fields.filter isClOrdID).map (·.drop 3)

theorem length_checkSum : m.checkSum.length = 3 := by
  rw [checkSum, padU64_eq (by omega), length_padded]

theorem soh_notMem_checkSum : soh ∉ m.checkSum := not_mem_padU64 (by decide)

theorem soh_notMem : ∀ g ∈ m.heads ++ [ascii "10=" ++ m.checkSum], soh ∉ g := by
  intro g hg
  rcases mem_append.mp hg with hg | hg
  · rcases mem_cons.mp hg with rfl | hg
    · rw [mem_append]
      exact fun h => h.elim (by decide) m.version_soh
    rcases mem_cons.mp hg with rfl | hg
    · rw [mem_append]
      exact fun h => h.elim (by decide) fun h => absurd (m.bodyLength_digits soh h) (by decide)
    · exact m.fields_soh g hg
  · rw [mem_singleton.mp hg, mem_append]
    exact fun h => h.elim (by decide) m.soh_notMem_checkSum

variable (rest : List UInt8)

theorem bytes_append : m.bytes ++ rest =
    sealed soh m.heads ++ (ascii "10=" ++ m.checkSum ++ soh :: rest) := by
  rw [bytes, sealed_append, append_assoc, sealed, sealed, append_assoc (_ ++ _), singleton_append]

theorem bytes_append_eq : m.bytes ++ rest =
    fixBegin ++ m.version ++ (soh :: (ascii "9=" ++ (m.bodyLength ++
      (soh :: (m.body ++ (ascii "10=" ++ (m.checkSum ++ soh :: rest))))))) := by
  rw [bytes_append, heads, sealed, sealed, ← body]
  simp [append_assoc, cons_append]

theorem begins : fixBegin <+: m.bytes ++ rest := by
  rw [bytes_append_eq, append_assoc]
  exact prefix_append _ _

theorem length_bytes_pos : 0 < m.bytes.length := by
  have hle := (m.begins []).length_le
  rw [append_nil] at hle
  exact lt_of_lt_of_le (by decide) hle

/-- A message that the capture accepts. -/
def accepted (h : m.body.length ≤ maxFixMessage) : Capture.FixMessage where
  version := m.version
  bodyLength := m.bodyLength
  body := m.body
  checkSum := m.checkSum
  version_soh := m.version_soh
  bodyLength_ne := m.bodyLength_ne
  bodyLength_digits := m.bodyLength_digits
  bodyLength_eq := m.bodyLength_eq
  body_le := h
  checkSum_length := m.length_checkSum
  header_lt := m.header_lt

theorem whole (mm : Finder UInt8) (direction : Direction) (h : m.body.length ≤ maxFixMessage) :
    Capture.Whole mm .fix direction m.bytes := by
  rw [← append_nil m.bytes, bytes_append_eq]
  exact (m.accepted h).whole mm direction

end FixReply

/-! ### The order id -/

section

variable {g : List UInt8} {gs : List (List UInt8)}

theorem clordid_fixField (f : Capture.FixFields) : (fixField f g).clordid =
    if isClOrdID g then string (g.drop 3) else f.clordid := by
  by_cases hg : isClOrdID g = true
  · obtain ⟨value, rfl⟩ := List.isPrefixOf_iff_prefix.mp hg
    rw [if_pos hg]
    rfl
  rw [if_neg hg, fixField]
  cases he : g.findIdx? (· == 0x3D) with
  | none => rfl
  | some eq =>
    have htag : g.take eq ≠ ascii "11" := by
      intro htake
      obtain ⟨hlt, hat, _⟩ := findIdx?_eq_some_iff_getElem.mp he
      have heq : eq = 2 := by
        have hlen := congrArg List.length htake
        rw [length_take, Nat.min_eq_left hlt.le] at hlen
        exact hlen
      subst heq
      refine hg (List.isPrefixOf_iff_prefix.mpr ⟨g.drop 3, ?_⟩)
      have hsplit := take_append_drop 2 g
      rw [drop_eq_getElem_cons hlt, htake, beq_iff_eq.mp hat] at hsplit
      exact hsplit
    dsimp only
    rw [if_neg htag]
    split_ifs <;> rfl

theorem clordid_foldl (f : Capture.FixFields) : (gs.foldl fixField f).clordid =
    ((gs.filter isClOrdID).getLast?.map (fun g => string (g.drop 3))).getD f.clordid := by
  induction gs generalizing f with
  | nil => rfl
  | cons g gs ih =>
    rw [foldl_cons, ih, clordid_fixField, filter_cons]
    split_ifs with hg
    · rw [getLast?_cons]
      cases (gs.filter isClOrdID).getLast? <;> rfl
    · rfl

end

/-- An order id as text; a message without one has the empty text. -/
def idText (id : Option (List UInt8)) : String := (id.map Capture.string).getD ""

namespace FixReply

variable (m : FixReply)

theorem filter_clOrdID : (m.heads ++ [ascii "10=" ++ m.checkSum]).filter isClOrdID =
    m.fields.filter isClOrdID := by
  have hbegin : isClOrdID (fixBegin ++ m.version) = false := rfl
  have hlength : isClOrdID (ascii "9=" ++ m.bodyLength) = false := rfl
  have hsum : isClOrdID (ascii "10=" ++ m.checkSum) = false := rfl
  rw [heads, filter_append, filter_cons, hbegin, if_neg Bool.false_ne_true,
    filter_cons, hlength, if_neg Bool.false_ne_true, filter_cons, hsum,
    if_neg Bool.false_ne_true, filter_nil, append_nil]

theorem clordID_parseSingleMessage : (parseSingleMessage m.bytes).clordID = m.clOrdIDs.head? := by
  have hfirst : isClOrdID (fixBegin ++ m.version) = false := rfl
  have hids := m.filter_clOrdID
  have hc := m.soh_notMem
  rw [heads, cons_append] at hids hc
  rw [filter_cons, hfirst, if_neg Bool.false_ne_true] at hids
  change extractTag m.bytes (ascii "11") = _
  rw [bytes, heads, cons_append, extractTag_sealed hc (by decide), clOrdIDs, head?_map,
    ← hids, head?_filter]
  rfl

theorem clordid_parseFix (direction : Direction) :
    (parseFix direction m.bytes).clordid = idText m.clOrdIDs.getLast? := by
  have hfields : (parseFix direction m.bytes).clordid =
      ((m.bytes.splitOnP (· == soh)).foldl fixField {}).clordid := rfl
  have hempty : [[]].filter isClOrdID = [] := rfl
  rw [hfields, bytes, splitOnP_sealed m.soh_notMem, clordid_foldl, filter_append,
    filter_clOrdID, hempty, append_nil, clOrdIDs, idText, getLast?_map, Option.map_map]
  rfl

/-- The body is not too long for the capture, and the first id and the last are the same. -/
def Legible : Prop :=
  m.body.length ≤ maxFixMessage ∧ idText m.clOrdIDs.head? = idText m.clOrdIDs.getLast?

instance : Decidable m.Legible := inferInstanceAs (Decidable (_ ∧ _))

/-! ### The two loops -/

theorem messagesLoop_append {buf rest : List UInt8} {cursor : Nat}
    (h : buf.drop cursor = m.bytes ++ rest) (fuel : Nat) :
    (messagesLoop buf (fuel + 1) cursor).1 =
      (cursor, m.bytes) :: (messagesLoop buf fuel (cursor + m.bytes.length)).1 := by
  have hpos := m.length_bytes_pos
  have hlt : ¬ buf.length ≤ cursor := by
    intro hle
    rw [drop_eq_nil_of_le hle] at h
    have hlen := congrArg List.length h
    rw [length_nil, length_append] at hlen
    omega
  have hstart : findSubslice (m.bytes ++ rest) fixBegin = some 0 := by
    rw [findSubslice_eq_find (by decide)]
    refine (Finder.naive.find_iff _ _ _ (by decide)).mpr ⟨?_, nofun⟩
    exact m.begins rest
  have hend : findMessageEnd (m.bytes ++ rest) = some m.bytes.length := by
    have hc : ∀ g ∈ m.heads, soh ∉ g := fun g hg => m.soh_notMem g (mem_append_left _ hg)
    have hno : ∀ g ∈ (ascii "9=" ++ m.bodyLength) :: m.fields, ¬ ascii "10=" <+: g := by
      intro g hg
      rcases mem_cons.mp hg with rfl | hg
      · rintro ⟨tail, ht⟩
        exact absurd (Option.some.inj (congrArg List.head? ht)) (by decide)
      · exact m.no_checkSum g hg
    have hlen : m.bytes.length = (sealed soh m.heads).length + (3 + m.checkSum.length + 1) := by
      have happ := congrArg List.length (m.bytes_append [])
      rw [append_nil, length_append, length_append, length_append] at happ
      exact happ
    rw [bytes_append, hlen]
    exact findMessageEnd_sealed hc hno m.soh_notMem_checkSum rest
  rw [messagesLoop, if_neg hlt, h, hstart]
  dsimp only
  rw [add_zero, h, hend]
  dsimp only
  rw [take_left]

end FixReply

/-- What the bot makes of a buffer: where the messages start, how long they are, and their ids. -/
def botReads (buf : List UInt8) : List (Nat × Nat × String) :=
  (messages buf).1.map fun x => (x.1, x.2.length, idText (parseSingleMessage x.2).clordID)

/-- What the capture makes of it. -/
def captureReads (mm : Finder UInt8) (direction : Direction) (buf : List UInt8) :
    List (Nat × Nat × String) :=
  (Capture.frames mm .fix direction buf).map fun x =>
    (x.1, x.2.length, (Capture.parseFix direction x.2).clordid)

theorem loops_agree_iff (mm : Finder UInt8) (direction : Direction) {buf : List UInt8} :
    ∀ (ms : List FixReply) {fuel fuel' x : Nat}, buf.drop x = (ms.map FixReply.bytes).flatten →
    ms.length ≤ fuel → ms.length ≤ fuel' →
    ((messagesLoop buf fuel x).1.map
        (fun x => (x.1, x.2.length, idText (parseSingleMessage x.2).clordID)) =
      (Capture.framesFrom mm .fix direction fuel' x (ms.map FixReply.bytes).flatten).map
        (fun x => (x.1, x.2.length, (Capture.parseFix direction x.2).clordid)) ↔
    ∀ m ∈ ms, m.Legible) := by
  intro ms
  induction ms with
  | nil =>
    intro fuel fuel' x hbuf _ _
    have hbot : (messagesLoop buf fuel x).1 = [] := by
      cases fuel with
      | zero => rfl
      | succ fuel => rw [messagesLoop, if_pos (drop_eq_nil_iff.mp hbuf)]
    rw [hbot, map_nil, map_nil, flatten_nil, Capture.framesFrom_nil]
    exact ⟨nofun, fun _ => rfl⟩
  | cons m ms ih =>
    intro fuel fuel' x hbuf hfuel hfuel'
    rw [length_cons] at hfuel hfuel'
    obtain ⟨fuel, rfl⟩ : ∃ k, fuel = k + 1 := ⟨fuel - 1, by omega⟩
    obtain ⟨fuel', rfl⟩ : ∃ k, fuel' = k + 1 := ⟨fuel' - 1, by omega⟩
    rw [map_cons, flatten_cons] at hbuf
    have hnext : buf.drop (x + m.bytes.length) = (ms.map FixReply.bytes).flatten := by
      rw [← drop_drop, hbuf, drop_left]
    have htail := ih hnext (Nat.le_of_succ_le_succ hfuel) (Nat.le_of_succ_le_succ hfuel')
    rw [m.messagesLoop_append hbuf, map_cons, m.clordID_parseSingleMessage, map_cons,
      flatten_cons, forall_mem_cons, FixReply.Legible]
    rcases Nat.lt_or_ge maxFixMessage m.body.length with hlong | hshort
    · have hlong' : maxFixMessage < Capture.decimal m.bodyLength := by
        rw [m.bodyLength_eq]
        exact hlong
      obtain ⟨skip, hskip⟩ := Capture.frameFix_long mm m.version_soh m.bodyLength_ne
        m.bodyLength_digits hlong' (m.body ++ (ascii "10=" ++ (m.checkSum ++ soh ::
          (ms.map FixReply.bytes).flatten)))
      rw [← m.bytes_append_eq] at hskip
      refine iff_of_false (fun heq => ?_) (fun h => absurd h.1.1 (by omega))
      rw [Capture.framesFrom, Capture.frame, hskip] at heq
      obtain ⟨f, hf, hfx⟩ := mem_map.mp (heq ▸ mem_cons_self)
      have hle := Capture.le_of_mem_framesFrom hf
      have hx : f.1 = x := congrArg Prod.fst hfx
      omega
    · rw [Capture.framesFrom_append (m.whole mm direction hshort), map_cons,
        List.cons.injEq, htail, m.clordid_parseFix, Prod.mk.injEq, Prod.mk.injEq]
      simp [true_and, hshort]

theorem soh_notMem_version : soh ∉ ascii ".4.2" := by decide

/-- An execution report with two order ids. -/
def twoIDs : FixReply where
  version := ascii ".4.2"
  bodyLength := ascii "15"
  fields := [ascii "35=8", ascii "11=a", ascii "11=b"]
  version_soh := soh_notMem_version
  bodyLength_ne := by decide
  bodyLength_digits := by decide +kernel
  bodyLength_eq := rfl
  fields_soh := by decide
  no_checkSum := by decide
  header_lt := by decide

end MatchBench.Bot
