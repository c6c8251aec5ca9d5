import MatchBench.Capture.Frames

/-!
# HTTP requests

A request with a content length, as the framer of the capture reads it.  Its head is made of
lines, each of which ends with a carriage return and begins, but for the first, with a line
feed.  The framer looks for the empty line and, in the lowercased head, for the names of two
headers; both searches go from line to line.

A request whose lines have no carriage return in them, none of which says that the body is
chunked and none before the right one that there is a content length, is framed whole when it is
not too long (`HttpRequest.whole`), and its body is what is parsed
(`HttpRequest.parse_bytes`).
-/

namespace MatchBench.Capture

open List

def cr : UInt8 := 0x0D

def transferEncoding : List UInt8 := ascii "transfer-encoding:"

def contentLength : List UInt8 := ascii "content-length:"

/-- The lines of a request, each as it stands between two carriage returns. -/
structure HttpRequest where
  requestLine : List UInt8
  before : List (List UInt8)
  digits : List UInt8
  after : List (List UInt8)
  body : List UInt8
  opens : looksLikeHttp requestLine = true
  lines_cr : ∀ l ∈ requestLine :: (before ++ after), cr ∉ l
  /-- No line but the last is empty. -/
  lines_ne : ∀ l ∈ before ++ after, l ≠ ascii "\n"
  not_chunked : ∀ l ∈ requestLine :: (before ++ after),
    ¬ transferEncoding <:+: l.map toAsciiLowercase
  not_sized : ∀ l ∈ requestLine :: before, ¬ contentLength <:+: l.map toAsciiLowercase
  digits_ne : digits ≠ []
  digits_digits : ∀ c ∈ digits, isAsciiDigit c = true
  digits_eq : decimal digits = body.length

namespace HttpRequest

variable (r : HttpRequest)

def lengthLine : List UInt8 := ascii "\nContent-Length: " ++ r.digits

def lines : List (List UInt8) := r.requestLine :: (r.before ++ r.lengthLine :: r.after)

def bytes : List UInt8 := sealed cr r.lines ++ (ascii "\n\r\n" ++ r.body)

/-! ### The lines -/

theorem cr_notMem_digits : cr ∉ r.digits := fun h => absurd (r.digits_digits cr h) (by decide)

theorem mem_lines {l : List UInt8} (h : l ∈ r.lines) :
    l = r.lengthLine ∨ l ∈ r.requestLine :: (r.before ++ r.after) := by
  rw [lines, mem_cons, mem_append, mem_cons] at h
  rw [mem_cons, mem_append]
  tauto

theorem cr_notMem_lines : ∀ l ∈ r.lines, cr ∉ l := by
  intro l hl
  rcases r.mem_lines hl with rfl | hl
  · rw [lengthLine, mem_append]
    exact fun h => h.elim (by decide) r.cr_notMem_digits
  · exact r.lines_cr l hl

variable (mm : Finder UInt8)

theorem find_headEnd :
    find mm r.bytes (ascii "\r\n\r\n") = some ((sealed cr r.lines).length - 1) := by
  have hpattern : ascii "\r\n\r\n" = cr :: (ascii "\n" ++ cr :: ascii "\n") := by decide
  rw [find, if_neg (by decide), hpattern, bytes, lines]
  refine find_seal mm r.cr_notMem_lines (fun l hl => ?_) ⟨r.body, rfl⟩
  have hcr := r.cr_notMem_lines l (.tail _ hl)
  refine blocks_of_ne hcr (by decide) ?_
  rcases mem_append.mp hl with hl | hl
  · exact r.lines_ne l (mem_append_left _ hl)
  rcases mem_cons.mp hl with rfl | hl
  · intro h
    have hlen := congrArg List.length h
    rw [lengthLine, length_append] at hlen
    have h17 : (ascii "\nContent-Length: ").length = 17 := by decide
    have h1 : (ascii "\n").length = 1 := by decide
    omega
  · exact r.lines_ne l (mem_append_right _ hl)

theorem lines_length_pos : 0 < (sealed cr r.lines).length := by
  rw [lines, sealed, length_append, length_cons]
  omega

theorem take_headEnd :
    r.bytes.take ((sealed cr r.lines).length - 1) ++ [cr] = sealed cr r.lines := by
  obtain ⟨init, hinit⟩ := exists_sealed_eq (c := cr) r.requestLine (r.before ++ r.lengthLine :: r.after)
  rw [bytes, lines, hinit, length_append, length_singleton, Nat.add_sub_cancel,
    append_assoc, take_left]

theorem map_lower_sealed (ls : List (List UInt8)) :
    (sealed cr ls).map toAsciiLowercase = sealed cr (ls.map (·.map toAsciiLowercase)) := by
  induction ls with
  | nil => rfl
  | cons l ls ih =>
    rw [sealed, map_append, map_cons, ih, map_cons, sealed]
    rfl

theorem find_lower {name : List UInt8} (hne : name ≠ []) (hcr : cr ∉ name) :
    find mm ((r.bytes.take ((sealed cr r.lines).length - 1)).map toAsciiLowercase) name =
      mm.find (sealed cr (r.lines.map (·.map toAsciiLowercase))) name := by
  have hall : (r.bytes.take ((sealed cr r.lines).length - 1)).map toAsciiLowercase ++ [cr] =
      sealed cr (r.lines.map (·.map toAsciiLowercase)) := by
    have hhead := congrArg (List.map toAsciiLowercase) r.take_headEnd
    rw [map_append, map_lower_sealed] at hhead
    exact hhead
  rw [find, if_neg hne, ← hall]
  generalize (r.bytes.take ((sealed cr r.lines).length - 1)).map toAsciiLowercase = lower
  cases hfind : mm.find lower name with
  | some i => exact (mm.find_append hne hfind [cr]).symm
  | none =>
    have hnone := (mm.find_eq_none hne).mp hfind
    refine ((mm.find_eq_none hne).mpr fun j hocc => ?_).symm
    rcases occursAt_line hcr hne hocc with hin | ⟨i, _, hi⟩
    · obtain ⟨k, hk⟩ := occursAt_of_infix hin
      exact hnone k hk
    have hle := hi.le hne
    have hpos := length_pos_iff.mpr hne
    rw [length_nil] at hle
    omega

/-! ### The two headers -/

theorem lower_lengthLine :
    r.lengthLine.map toAsciiLowercase = ascii "\ncontent-length: " ++ r.digits := by
  have hdigits : r.digits.map toAsciiLowercase = r.digits := by
    refine (map_congr_left fun c hc => ?_).trans (map_id _)
    have hc' := r.digits_digits c hc
    rw [isAsciiDigit, Bool.and_eq_true, decide_eq_true_iff, decide_eq_true_iff] at hc'
    rw [toAsciiLowercase, if_neg, id]
    rw [Bool.and_eq_true, decide_eq_true_iff]
    exact fun h => absurd (UInt8.le_trans h.1 hc'.2) (by decide)
  rw [lengthLine, map_append, hdigits]
  rfl

theorem headerIsChunked_eq :
    headerIsChunked mm (r.bytes.take ((sealed cr r.lines).length - 1)) = false := by
  have hnone : mm.find (sealed cr (r.lines.map (·.map toAsciiLowercase))) transferEncoding = none := by
    refine find_lines_none mm (by decide) (by decide) fun l hl => ?_
    obtain ⟨l, hmem, rfl⟩ := mem_map.mp hl
    rcases r.mem_lines hmem with rfl | hmem
    · -- the name has an `f`, and the line of the content length has none
      intro hin
      have hf := hin.subset (by decide : (102 : UInt8) ∈ transferEncoding)
      rw [lower_lengthLine, mem_append] at hf
      exact hf.elim (by decide) fun h => absurd (r.digits_digits 102 h) (by decide)
    · exact r.not_chunked l hmem
  have hfind := r.find_lower mm (by decide) (by decide : cr ∉ transferEncoding)
  rw [hnone, transferEncoding] at hfind
  rw [headerIsChunked, hfind]

theorem line_append_cr (x y : List UInt8) : line (x ++ cr :: y) = line x := by
  rw [line, line, takeWhile_append]
  split
  next hall =>
    rw [takeWhile_cons, if_neg (by decide), append_nil]
    exact (List.takeWhile_prefix _).eq_of_length hall |>.symm
  · rfl

theorem line_eq {x : List UInt8} (h : cr ∉ x) : line x = x := by
  refine takeWhile_eq_self_iff.mpr fun b hb => ?_
  refine bne_iff_ne.mpr fun he => h ?_
  rw [he] at hb
  exact hb

theorem lines_split : sealed cr r.lines = sealed cr (r.requestLine :: r.before) ++
    (ascii "\nContent-Length:" ++ (ascii " " ++ r.digits ++ cr :: sealed cr r.after)) := by
  have hname : ascii "\nContent-Length: " = ascii "\nContent-Length:" ++ ascii " " := by decide
  rw [lines, ← cons_append, sealed_append, sealed, lengthLine, hname, sealed]
  simp [append_assoc]

theorem find_contentLength :
    mm.find (sealed cr (r.lines.map (·.map toAsciiLowercase))) contentLength =
      some ((sealed cr (r.requestLine :: r.before)).length + 1) := by
  have hhere : mm.find (ascii "\ncontent-length:") contentLength = some 1 := by
    refine (mm.find_iff _ _ _ (by decide)).mpr ⟨?_, ?_⟩
    · exact (by decide : contentLength <+: (ascii "\ncontent-length:").drop 1)
    · exact (by decide : ∀ j < 1, ¬ contentLength <+: (ascii "\ncontent-length:").drop j)
  have hbefore : ∀ l ∈ (r.requestLine :: r.before).map (·.map toAsciiLowercase),
      ¬ contentLength <:+: l := by
    intro l hl
    obtain ⟨l, hmem, rfl⟩ := mem_map.mp hl
    exact r.not_sized l hmem
  have hfind := find_lines mm (by decide : cr ∉ contentLength) (by decide) hbefore
    (mm.find_append (by decide) hhere
      ((ascii " " ++ r.digits ++ cr :: sealed cr r.after).map toAsciiLowercase))
  rw [← map_lower_sealed, length_map] at hfind
  rw [← map_lower_sealed, lines_split, map_append, map_append]
  exact hfind

theorem not_isAsciiWhitespace {c : UInt8} (h : isAsciiDigit c = true) :
    (!isAsciiWhitespace c) = true := by
  rw [isAsciiDigit, Bool.and_eq_true, decide_eq_true_iff, decide_eq_true_iff] at h
  have hne : ∀ d : UInt8, d < 0x30 → (c == d) = false := by
    intro d hd
    refine beq_eq_false_iff_ne.mpr fun he => ?_
    exact absurd h.1 (UInt8.not_le.mpr (he ▸ hd))
  rw [isAsciiWhitespace, hne _ (by decide), hne _ (by decide), hne _ (by decide), hne _ (by decide),
    hne _ (by decide)]
  rfl

theorem headerContentLength_eq (hlt : r.body.length < 2 ^ 64) :
    headerContentLength mm (r.bytes.take ((sealed cr r.lines).length - 1)) = some r.body.length := by
  have hhead := r.take_headEnd
  have hfind := r.find_lower mm (by decide) (by decide : cr ∉ contentLength)
  rw [r.find_contentLength mm] at hfind
  generalize r.bytes.take ((sealed cr r.lines).length - 1) = headers at hhead hfind ⊢
  -- the line behind the name, which the header may end with
  have hline : line (headers.drop ((sealed cr (r.requestLine :: r.before)).length + 1 +
      contentLength.length)) = ascii " " ++ r.digits := by
    have hname : (sealed cr (r.requestLine :: r.before)).length + 1 + contentLength.length =
        (sealed cr (r.requestLine :: r.before) ++ ascii "\nContent-Length:").length := by
      rw [length_append, add_assoc]
      rfl
    have hdrop := congrArg (List.drop (sealed cr (r.requestLine :: r.before) ++
      ascii "\nContent-Length:").length) hhead
    have hle : (sealed cr (r.requestLine :: r.before) ++ ascii "\nContent-Length:").length ≤
        headers.length := by
      have hlen := congrArg List.length hhead
      rw [lines_split] at hlen
      simp only [length_append, length_cons, length_nil] at hlen ⊢
      omega
    rw [lines_split, ← append_assoc, drop_left, drop_append_of_le_length hle] at hdrop
    rw [hname, ← line_append_cr _ [], hdrop, line_append_cr, line_eq]
    rw [mem_append]
    exact fun h => h.elim (by decide) r.cr_notMem_digits
  have hfilter : (ascii " " ++ r.digits).filter (fun b => !isAsciiWhitespace b) = r.digits := by
    have hspace : (ascii " ").filter (fun b => !isAsciiWhitespace b) = [] := by decide
    rw [filter_append, hspace, nil_append, filter_eq_self]
    exact fun c hc => not_isAsciiWhitespace (r.digits_digits c hc)
  rw [contentLength] at hfind hline
  rw [headerContentLength, hfind]
  dsimp only
  rw [hline, hfilter, parseUint_eq r.digits_ne r.digits_digits (by rw [r.digits_eq]; exact hlt),
    r.digits_eq]

/-! ### The request -/

theorem looksLikeHttp_bytes : looksLikeHttp r.bytes = true := by
  obtain ⟨p, hp, hpre⟩ := looksLikeHttp_iff.mp r.opens
  refine looksLikeHttp_iff.mpr ⟨p, hp, hpre.trans ?_⟩
  rw [bytes, lines, sealed, append_assoc]
  exact prefix_append _ _

theorem length_bytes : r.bytes.length = (sealed cr r.lines).length + 3 + r.body.length := by
  have h3 : (ascii "\n\r\n").length = 3 := rfl
  rw [bytes, length_append, length_append, h3]
  omega

/-- **A request that is not too long is framed whole.** -/
theorem whole (direction : Direction) (h : r.bytes.length ≤ maxHttpMessage) :
    Whole mm .httpWs direction r.bytes := by
  have hlen := r.length_bytes
  have hpos := r.lines_length_pos
  have hmax : maxHttpMessage = 65536 := rfl
  have hne : r.bytes ≠ [] := by
    intro hnil
    rw [hnil, length_nil] at hlen
    omega
  rw [Whole, frame, frameHttpWs, if_neg hne, r.looksLikeHttp_bytes, if_pos rfl, frameHttp,
    r.find_headEnd mm]
  dsimp only
  rw [r.headerIsChunked_eq mm, if_neg Bool.false_ne_true,
    r.headerContentLength_eq mm (by omega), Option.getD_some, Nat.mod_eq_of_lt (by omega),
    if_neg (by omega), if_neg (by omega)]
  congr 1
  omega

/-- **The body is what is parsed.** -/
theorem parse_bytes (direction : Direction) :
    parse mm .httpWs direction r.bytes = parseJson mm direction r.body := by
  have hpos := r.lines_length_pos
  have hdrop : r.bytes.drop ((sealed cr r.lines).length - 1 + 4) = r.body := by
    have h3 : (ascii "\n\r\n").length = 3 := rfl
    rw [bytes, ← append_assoc,
      show (sealed cr r.lines).length - 1 + 4 = (sealed cr r.lines ++ ascii "\n\r\n").length by
        rw [length_append, h3]; omega, drop_left]
  rw [parse, parseHttpWs, r.looksLikeHttp_bytes, if_pos rfl, r.find_headEnd mm]
  dsimp only
  rw [hdrop]

end HttpRequest

end MatchBench.Capture
