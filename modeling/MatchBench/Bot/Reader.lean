import MatchBench.Bot.Write

/-!
# The bot's FIX reader

`parse_messages` of the bot fleet.  It looks for `8=FIX`, takes the message to end with the
first checksum field behind it, and reads a tag where it stands first; it does not look at the
body length.  The bytes that no message has been found in are kept, from the last place where a
message may have begun.

Of a message whose fields are sealed, a tag's value is that of the first field with the tag
(`extractTag_sealed`), and the message ends with its first checksum field
(`findMessageEnd_sealed`).
-/

namespace MatchBench.Bot

open List Option
open Capture (ascii soh fixBegin)

structure MessageRef where
  msgType : List UInt8
  clordID : Option (List UInt8)
  deriving DecidableEq, Repr

def extractTag (msg tag : List UInt8) : Option (List UInt8) := do
  let needle := soh :: (tag ++ ascii "=")
  let pos ← findSubslice msg needle
  let value := msg.drop (pos + needle.length)
  let valueEnd ← value.findIdx? (· == soh)
  some (value.take valueEnd)

def parseSingleMessage (msg : List UInt8) : MessageRef where
  msgType := (extractTag msg (ascii "35")).getD []
  clordID := extractTag msg (ascii "11")

def findMessageEnd (buf : List UInt8) : Option Nat := do
  let needle := soh :: ascii "10="
  let i ← findSubslice buf needle
  let afterEq := i + needle.length
  let s ← (buf.drop afterEq).findIdx? (· == soh)
  some (afterEq + s + 1)

/-- Where the buffer ends with a beginning of `8=FIX`. -/
def partialMarkerStart (buf : List UInt8) : Nat :=
  let lo := buf.length - (fixBegin.length - 1)
  ((range' lo (buf.length - lo)).find? (fun p => (buf.drop p).isPrefixOf fixBegin)).getD buf.length

/-- The loop of `parse_messages`, with the messages and where they start. -/
def messagesLoop (buf : List UInt8) : Nat → Nat → List (Nat × List UInt8) × Nat
  | 0, cursor => ([], cursor)
  | fuel + 1, cursor =>
      if buf.length ≤ cursor then ([], cursor)
      else
        match findSubslice (buf.drop cursor) fixBegin with
        | none => ([], cursor + partialMarkerStart (buf.drop cursor))
        | some startOff =>
            let absStart := cursor + startOff
            match findMessageEnd (buf.drop absStart) with
            | none => ([], absStart)
            | some len =>
                let (out, consumed) := messagesLoop buf fuel (absStart + len)
                ((absStart, (buf.drop absStart).take len) :: out, consumed)

/-- The messages of a buffer; each takes at least one byte. -/
def messages (buf : List UInt8) : List (Nat × List UInt8) × Nat :=
  messagesLoop buf (buf.length + 1) 0

def parseMessages (buf : List UInt8) : List MessageRef × Nat :=
  ((messages buf).1.map (fun m => parseSingleMessage m.2), (messages buf).2)

/-! ### Sealed fields -/

section

variable {f : List UInt8} {fs : List (List UInt8)}

/-- **A tag is read where it stands first**, behind the first field. -/
theorem extractTag_sealed (hc : ∀ g ∈ f :: fs, soh ∉ g) {tag : List UInt8} (htag : soh ∉ tag) :
    extractTag (sealed soh (f :: fs)) tag =
      (fs.find? (fun g => (tag ++ ascii "=").isPrefixOf g)).map (·.drop (tag.length + 1)) := by
  have hpattern : soh ∉ tag ++ ascii "=" := by
    rw [mem_append]
    exact fun h => h.elim htag (by decide)
  have hlen : (soh :: (tag ++ ascii "=")).length = tag.length + 2 := by
    rw [length_cons, length_append]
    rfl
  have hblocks : ∀ g, (tag ++ ascii "=").isPrefixOf g = false → Blocks soh (tag ++ ascii "=") g := by
    intro g hg
    refine blocks_of_not_prefix hpattern fun hpre => ?_
    rw [List.isPrefixOf_iff_prefix.mpr hpre] at hg
    exact Bool.false_ne_true hg.symm
  cases hfind : fs.find? (fun g => (tag ++ ascii "=").isPrefixOf g) with
  | none =>
    have hall : ∀ g ∈ fs, Blocks soh (tag ++ ascii "=") g := fun g hg =>
      hblocks g (Bool.eq_false_iff.mpr (find?_eq_none.mp hfind g hg))
    have hend : ¬ tag ++ ascii "=" <+: [] := by
      rw [prefix_nil]
      exact append_ne_nil_of_right_ne_nil _ (by decide)
    have hnone := find_seal_none Finder.naive hc hall not_mem_nil hend
    rw [append_nil, ← findSubslice_eq_find (cons_ne_nil _ _)] at hnone
    rw [extractTag]
    rw [hnone]
    rfl
  | some g =>
    obtain ⟨hg, before, after, rfl, hbefore⟩ := find?_eq_some_iff_append.mp hfind
    obtain ⟨value, rfl⟩ := List.isPrefixOf_iff_prefix.mp hg
    have hvalue : soh ∉ value := by
      have hfield := hc _ (.tail f (mem_append_right before (.head _)))
      rw [mem_append, not_or] at hfield
      exact hfield.2
    have hsplit : sealed soh (f :: (before ++ (tag ++ ascii "=" ++ value) :: after)) =
        sealed soh (f :: before) ++ (tag ++ ascii "=" ++ (value ++ soh :: sealed soh after)) := by
      rw [← cons_append, sealed_append, sealed, sealed, append_assoc (tag ++ ascii "=")]
    have hfound : findSubslice (sealed soh (f :: before) ++
        (tag ++ ascii "=" ++ (value ++ soh :: sealed soh after))) (soh :: (tag ++ ascii "=")) =
        some ((sealed soh (f :: before)).length - 1) := by
      rw [findSubslice_eq_find (cons_ne_nil _ _)]
      refine find_seal Finder.naive (fun x hx => hc x ?_) (fun x hx => hblocks x ?_)
        (prefix_append _ _)
      · exact cons_subset_cons f (subset_append_left _ _) hx
      · exact Bool.not_eq_true' _ |>.mp (hbefore x hx)
    have hpos : 0 < (sealed soh (f :: before)).length := by
      rw [sealed, length_append, length_cons]
      omega
    have hidx : (sealed soh (f :: before)).length - 1 + (soh :: (tag ++ ascii "=")).length =
        (sealed soh (f :: before)).length + (tag ++ ascii "=").length := by
      rw [length_cons]
      omega
    have hlen : tag.length + 1 = (tag ++ ascii "=").length := by
      rw [length_append]
      rfl
    rw [extractTag, hsplit]
    rw [hfound]
    dsimp only [bind_eq_bind, bind_some]
    rw [hidx, ← drop_drop, drop_left, drop_left, findIdx_separator hvalue, bind_some,
      take_left, map_some, hlen, drop_left]

/-- **The message ends with its first checksum field**, whatever follows. -/
theorem findMessageEnd_sealed (hc : ∀ g ∈ f :: fs, soh ∉ g) (hno : ∀ g ∈ fs, ¬ ascii "10=" <+: g)
    {sum : List UInt8} (hsum : soh ∉ sum) (rest : List UInt8) :
    findMessageEnd (sealed soh (f :: fs) ++ (ascii "10=" ++ sum ++ soh :: rest)) =
      some ((sealed soh (f :: fs)).length + (3 + sum.length + 1)) := by
  have hfound : findSubslice (sealed soh (f :: fs) ++ (ascii "10=" ++ sum ++ soh :: rest))
      (soh :: ascii "10=") = some ((sealed soh (f :: fs)).length - 1) := by
    rw [findSubslice_eq_find (cons_ne_nil _ _)]
    refine find_seal Finder.naive hc (fun g hg => blocks_of_not_prefix (by decide) (hno g hg)) ?_
    rw [append_assoc]
    exact prefix_append _ _
  have hpos : 0 < (sealed soh (f :: fs)).length := by
    rw [sealed, length_append, length_cons]
    omega
  have hidx : (sealed soh (f :: fs)).length - 1 + (soh :: ascii "10=").length =
      (sealed soh (f :: fs)).length + 3 := by
    rw [show (soh :: ascii "10=").length = 4 from rfl]
    omega
  have hdrop : (sealed soh (f :: fs) ++ (ascii "10=" ++ sum ++ soh :: rest)).drop
      ((sealed soh (f :: fs)).length + 3) = sum ++ soh :: rest := by
    rw [← drop_drop, drop_left, append_assoc]
    rfl
  rw [findMessageEnd]
  rw [hfound]
  dsimp only [bind_eq_bind, bind_some]
  rw [hidx, hdrop, findIdx_separator hsum, bind_some]
  congr 1
  omega

end

end MatchBench.Bot
