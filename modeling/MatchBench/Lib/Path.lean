import Mathlib.Data.List.Infix

/-!
# Lexical paths

A path is a list of letters in which a separator stands between elements.  `clean` works on
the elements only, as one that never looks at a file system: empty elements and dots are
left out, and two dots take away the element before them.  `join` cleans what it joins, so a
name that is joined to a root can climb out of the root and come down elsewhere.

`climbs` says from the elements of the name alone whether it does.  If it does not, the
joined path is the root followed by the elements that are left (`join_of_not_climbs`); if it
does, the joined path no longer depends on the root (`join_of_climbs`).
-/

namespace MatchBench.Lexical

open List

section

variable {α : Type*} [DecidableEq α] (sep dot : α)

/-- The next element of a path that is cleaned.  The elements kept so far come last first. -/
def push (rooted : Bool) (kept : List (List α)) (e : List α) : List (List α) :=
  if e = [] ∨ e = [dot] then kept
  else if e = [dot, dot] then
    match kept with
    | [] => if rooted then [] else [e]
    | top :: rest => if top = [dot, dot] then e :: top :: rest else rest
  else e :: kept

/-- The absolute path of the elements. -/
def absolute (es : List (List α)) : List α := sep :: [sep].intercalate es

def clean (path : List α) : List α :=
  let rooted : Bool := path.head? = some sep
  let es := ((path.splitOn sep).foldl (push dot rooted) []).reverse
  if rooted then absolute sep es
  else if es = [] then [dot]
  else [sep].intercalate es

/-- Empty elements at the front are left out. -/
def join (es : List (List α)) : List α :=
  match es.dropWhile (· = []) with
  | [] => []
  | e :: es => clean sep dot ([sep].intercalate (e :: es))

/-- The path up to its last separator, cleaned. -/
def dir (path : List α) : List α := clean sep dot (path.reverse.dropWhile (· ≠ sep)).reverse

/-- The directories on an absolute path, with the path itself and without the root of all. -/
def leading (path : List α) : List (List α) :=
  ((path.splitOn sep).filter (· ≠ [])).inits.tail.map (absolute sep)

/-- The path is the root, or lies below it. -/
def Below (root path : List α) : Prop := path = root ∨ root ++ [sep] <+: path

instance (root path : List α) : Decidable (Below sep root path) :=
  inferInstanceAs (Decidable (_ ∨ _))

/-- From that many levels below a root, the elements lead out of it. -/
def climbs : Nat → List (List α) → Bool
  | _, [] => false
  | depth, e :: es =>
      if e = [] ∨ e = [dot] then climbs depth es
      else if e = [dot, dot] then
        match depth with
        | 0 => true
        | depth + 1 => climbs depth es
      else climbs (depth + 1) es

/-- An element that stays when a path is cleaned. -/
structure Proper (e : List α) : Prop where
  nonempty : e ≠ []
  notDot : e ≠ [dot]
  notDots : e ≠ [dot, dot]
  whole : sep ∉ e

/-! ### Elements -/

variable {sep dot}

theorem not_mem_of_mem_splitOn : ∀ {path e : List α}, e ∈ path.splitOn sep → sep ∉ e := by
  intro path
  induction path with
  | nil =>
    intro e he
    rw [splitOn_nil, mem_singleton] at he
    rw [he]
    exact not_mem_nil
  | cons x path ih =>
    intro e he
    rw [splitOn_cons_eq_if_modifyHead] at he
    split at he
    · rcases mem_cons.mp he with rfl | he
      · exact not_mem_nil
      · exact ih he
    rename_i hx
    cases hs : path.splitOn sep with
    | nil => exact absurd hs (splitOn_ne_nil sep path)
    | cons e' es =>
      rw [hs] at he ih
      rw [modifyHead_cons] at he
      rcases mem_cons.mp he with rfl | he
      · intro hm
        rcases mem_cons.mp hm with rfl | hm
        · exact hx (beq_self_eq_true _)
        · exact ih (.head _) hm
      · exact ih (.tail _ he)

variable {es : List (List α)} {e : List α} {rooted : Bool} {depth : Nat} {c : List α}

variable (dot) in
theorem proper_or (he : sep ∉ e) : (e = [] ∨ e = [dot]) ∨ e = [dot, dot] ∨ Proper sep dot e := by
  by_cases hskip : e = [] ∨ e = [dot]
  · exact .inl hskip
  · by_cases hdots : e = [dot, dot]
    · exact .inr (.inl hdots)
    · exact .inr (.inr ⟨fun h => hskip (.inl h), fun h => hskip (.inr h), hdots, he⟩)

variable {kept : List (List α)} {name p : List α}

theorem push_skip (he : e = [] ∨ e = [dot]) : push dot rooted kept e = kept := by
  unfold push
  exact if_pos he

theorem push_dots {top : List α} {rest : List (List α)} (htop : Proper sep dot top) :
    push dot true (top :: rest) [dot, dot] = rest := by
  simp [push, htop.notDots]

theorem Proper.push (he : Proper sep dot e) : push dot rooted kept e = e :: kept := by
  unfold Lexical.push
  rw [if_neg (not_or.mpr ⟨he.nonempty, he.notDot⟩), if_neg he.notDots]

theorem foldl_push_of_proper : ∀ {es kept : List (List α)},
    (∀ e ∈ es, Proper sep dot e) → es.foldl (push dot rooted) kept = es.reverse ++ kept := by
  intro es
  induction es with
  | nil => exact fun _ => rfl
  | cons e es ih =>
    intro kept hes
    rw [foldl_cons, (hes e (.head _)).push,
      ih (fun e he => hes e (.tail _ he)), reverse_cons, append_assoc]
    rfl

theorem proper_foldl_push : ∀ {es kept : List (List α)}, (∀ k ∈ kept, Proper sep dot k) →
    (∀ e ∈ es, sep ∉ e) → ∀ k ∈ es.foldl (push dot true) kept, Proper sep dot k := by
  intro es
  induction es with
  | nil => exact fun hkept _ => hkept
  | cons e es ih =>
    intro kept hkept hes
    refine ih ?_ (fun e' he' => hes e' (.tail _ he'))
    rcases proper_or dot (hes e (.head _)) with he | rfl | he
    · rwa [push_skip he]
    · cases kept with
      | nil => simp [push]
      | cons top rest =>
        rw [push_dots (hkept top (.head _))]
        exact fun k hk => hkept k (.tail _ hk)
    · rw [he.push]
      exact forall_mem_cons.mpr ⟨he, hkept⟩

/-! ### Climbing out of a root -/

theorem climbs_skip (he : e = [] ∨ e = [dot]) :
    climbs dot depth (e :: es) = climbs dot depth es := by
  rw [climbs.eq_def]
  exact if_pos he

theorem climbs_dots : climbs dot (depth + 1) ([dot, dot] :: es) = climbs dot depth es := by
  simp [climbs]

theorem Proper.climbs (he : Proper sep dot e) :
    climbs dot depth (e :: es) = climbs dot (depth + 1) es := by
  rw [Lexical.climbs.eq_def]
  dsimp only
  rw [if_neg (not_or.mpr ⟨he.nonempty, he.notDot⟩), if_neg he.notDots]

theorem foldl_push_of_not_climbs : ∀ {es kept : List (List α)}, (∀ k ∈ kept, Proper sep dot k) →
    (∀ e ∈ es, sep ∉ e) → climbs dot kept.length es = false → ∀ base : List (List α),
      es.foldl (push dot true) (kept ++ base) = es.foldl (push dot true) kept ++ base := by
  intro es
  induction es with
  | nil => exact fun _ _ _ _ => rfl
  | cons e es ih =>
    intro kept hkept hes hclimbs base
    have hes' : ∀ e' ∈ es, sep ∉ e' := fun e' he' => hes e' (.tail _ he')
    rw [foldl_cons, foldl_cons]
    rcases proper_or dot (hes e (.head _)) with he | rfl | he
    · rw [climbs_skip he] at hclimbs
      rw [push_skip he, push_skip he]
      exact ih hkept hes' hclimbs base
    · cases kept with
      | nil => simp [climbs] at hclimbs
      | cons top rest =>
        have htop := hkept top (.head _)
        rw [length_cons, climbs_dots] at hclimbs
        rw [cons_append, push_dots htop, push_dots htop]
        exact ih (fun k hk => hkept k (.tail _ hk)) hes' hclimbs base
    · rw [he.climbs] at hclimbs
      rw [he.push, he.push]
      exact ih (forall_mem_cons.mpr ⟨he, hkept⟩) hes' hclimbs base

theorem foldl_push_of_climbs : ∀ {es kept : List (List α)}, (∀ k ∈ kept, Proper sep dot k) →
    (∀ e ∈ es, sep ∉ e) → climbs dot kept.length es = true →
      ∃ out : List (List α), (∀ k ∈ out, Proper sep dot k) ∧
        ∀ c, Proper sep dot c → es.foldl (push dot true) (kept ++ [c]) = out := by
  intro es
  induction es with
  | nil => exact nofun
  | cons e es ih =>
    intro kept hkept hes hclimbs
    have hes' : ∀ e' ∈ es, sep ∉ e' := fun e' he' => hes e' (.tail _ he')
    simp only [foldl_cons]
    rcases proper_or dot (hes e (.head _)) with he | rfl | he
    · rw [climbs_skip he] at hclimbs
      simp only [push_skip he]
      exact ih hkept hes' hclimbs
    · cases kept with
      | nil =>
        -- The root itself is taken away, and what follows starts from nothing.
        refine ⟨es.foldl (push dot true) [], proper_foldl_push (nofun) hes', fun c hc => ?_⟩
        rw [nil_append, push_dots hc]
      | cons top rest =>
        rw [length_cons, climbs_dots] at hclimbs
        simp only [cons_append, push_dots (hkept top (.head _))]
        exact ih (fun k hk => hkept k (.tail _ hk)) hes' hclimbs
    · rw [he.climbs] at hclimbs
      simp only [he.push]
      exact ih (forall_mem_cons.mpr ⟨he, hkept⟩) hes' hclimbs

theorem join_root (hc : Proper sep dot c) (name : List α) :
    join sep dot [sep :: c, name] =
      absolute sep ((name.splitOn sep).foldl (push dot true) [c]).reverse := by
  have hdrop : [sep :: c, name].dropWhile (fun e => decide (e = [])) = [sep :: c, name] := by
    rw [dropWhile_cons, if_neg]
    rw [decide_eq_true_iff]
    exact cons_ne_nil _ _
  have hjoin : [sep].intercalate [sep :: c, name] = sep :: (c ++ sep :: name) := by
    rw [intercalate_cons_cons, intercalate_singleton, append_assoc]
    rfl
  have hsplit : (sep :: (c ++ sep :: name)).splitOn sep = [] :: c :: name.splitOn sep := by
    rw [← nil_append (sep :: (c ++ sep :: name)), splitOn_append_cons_self,
      splitOn_nil, splitOn_append_cons_self, splitOn_eq_singleton hc.whole]
    rfl
  rw [join, hdrop]
  dsimp only
  rw [hjoin, clean, hsplit]
  simp only [head?_cons, decide_true, if_true, foldl_cons]
  rw [push_skip (.inl rfl), hc.push]

/-- **A name that does not climb stays below the root** it is joined to. -/
theorem join_of_not_climbs (h : climbs dot 0 (name.splitOn sep) = false) :
    ∃ es : List (List α), (∀ e ∈ es, Proper sep dot e) ∧
      ∀ c, Proper sep dot c → join sep dot [sep :: c, name] = absolute sep (c :: es) := by
  have hnone : ∀ k ∈ ([] : List (List α)), Proper sep dot k := nofun
  have hwhole : ∀ e ∈ name.splitOn sep, sep ∉ e := fun _ => not_mem_of_mem_splitOn
  refine ⟨((name.splitOn sep).foldl (push dot true) []).reverse,
    fun e he => proper_foldl_push hnone hwhole e (mem_reverse.mp he), fun c hc => ?_⟩
  rw [join_root hc, ← nil_append [c], foldl_push_of_not_climbs hnone hwhole h, reverse_append]
  rfl

/-- **A name that climbs** leads to one place, whatever the root. -/
theorem join_of_climbs (h : climbs dot 0 (name.splitOn sep) = true) :
    ∃ es : List (List α), (∀ e ∈ es, Proper sep dot e) ∧
      ∀ c, Proper sep dot c → join sep dot [sep :: c, name] = absolute sep es := by
  have hnone : ∀ k ∈ ([] : List (List α)), Proper sep dot k := nofun
  obtain ⟨out, hout, heq⟩ := foldl_push_of_climbs hnone (fun _ => not_mem_of_mem_splitOn) h
  refine ⟨out.reverse, fun e he => hout e (mem_reverse.mp he), fun c hc => ?_⟩
  rw [join_root hc, ← heq c hc]
  rfl

/-! ### Absolute paths -/

theorem splitOn_absolute (hes : ∀ e ∈ es, sep ∉ e) (hne : es ≠ []) :
    (absolute sep es).splitOn sep = [] :: es := by
  rw [absolute, ← nil_append (sep :: _), splitOn_append_cons_self, splitOn_nil,
    splitOn_intercalate sep hes hne]
  rfl

theorem below_absolute (hc : Proper sep dot c) (hes : ∀ e ∈ es, sep ∉ e) :
    Below sep (sep :: c) (absolute sep es) ↔ es.head? = some c := by
  cases es with
  | nil =>
    refine ⟨fun h => ?_, nofun⟩
    rcases h with h | h
    · exact absurd (List.cons.inj h).2.symm hc.nonempty
    · have := h.length_le
      simp [absolute] at this
  | cons e es =>
    have hsplit := splitOn_absolute hes (cons_ne_nil e es)
    rw [head?_cons, Option.some.injEq]
    constructor
    · rintro (h | ⟨t, h⟩)
      · rw [h, ← nil_append (sep :: c), splitOn_append_cons_self, splitOn_nil,
          splitOn_eq_singleton hc.whole] at hsplit
        exact (List.cons.inj (List.cons.inj hsplit).2).1.symm
      have ht : absolute sep (e :: es) = [] ++ sep :: (c ++ sep :: t) := by
        rw [← h]
        simp
      rw [ht, splitOn_append_cons_self, splitOn_nil, splitOn_append_cons_self,
        splitOn_eq_singleton hc.whole] at hsplit
      exact (List.cons.inj (List.cons.inj hsplit).2).1.symm
    rintro rfl
    cases es with
    | nil => exact .inl (by rw [absolute, intercalate_singleton])
    | cons e' es =>
      refine .inr ⟨[sep].intercalate (e' :: es), ?_⟩
      rw [absolute, intercalate_cons_cons]
      simp

theorem filter_splitOn_absolute (hes : ∀ e ∈ es, Proper sep dot e) :
    ((absolute sep es).splitOn sep).filter (· ≠ []) = es := by
  have hfilter : es.filter (· ≠ []) = es :=
    filter_eq_self.mpr fun e he => decide_eq_true (hes e he).nonempty
  cases es with
  | nil => simp [absolute, splitOn_cons_eq_if_modifyHead]
  | cons e es =>
    rw [splitOn_absolute (fun e he => (hes e he).whole) (cons_ne_nil e es), filter_cons]
    simpa using hfilter

theorem clean_of_filter {path : List α} (hes : ∀ e ∈ es, Proper sep dot e)
    (hhead : path.head? = some sep) (hsplit : (path.splitOn sep).filter (· ≠ []) = es) :
    clean sep dot path = absolute sep es := by
  have hskip : ∀ (l kept : List (List α)),
      l.foldl (push dot true) kept = (l.filter (· ≠ [])).foldl (push dot true) kept := by
    intro l
    induction l with
    | nil => exact fun _ => rfl
    | cons e l ih =>
      intro kept
      rw [foldl_cons, filter_cons]
      by_cases he : e = []
      · rw [if_neg (by simp [he]), push_skip (.inl he)]
        exact ih kept
      · rw [if_pos (by simp [he]), foldl_cons]
        exact ih _
  rw [clean]
  simp only [hhead, decide_true, if_true]
  rw [hskip, hsplit, foldl_push_of_proper hes, append_nil, reverse_reverse]

omit [DecidableEq α] in
theorem absolute_concat (es : List (List α)) (e : List α) :
    absolute sep (es ++ [e]) = (if es = [] then [sep] else absolute sep es ++ [sep]) ++ e := by
  split
  next he =>
    rw [he, nil_append, absolute, intercalate_singleton]
    rfl
  rename_i hne
  have hinter : ∀ l : List (List α), l ≠ [] →
      [sep].intercalate (l ++ [e]) = [sep].intercalate l ++ sep :: e := by
    intro l
    induction l with
    | nil => exact fun h => absurd rfl h
    | cons x l ih =>
      intro _
      cases l with
      | nil => simp [intercalate_cons_cons, intercalate_singleton]
      | cons y l =>
        have ih := ih (cons_ne_nil y l)
        rw [cons_append] at ih
        rw [cons_append, cons_append, intercalate_cons_cons, ih,
          intercalate_cons_cons, append_assoc, append_assoc]
        simp [append_assoc]
  rw [absolute, hinter es hne, absolute, append_assoc]
  rfl

theorem dir_absolute (hes : ∀ e ∈ es, Proper sep dot e) :
    dir sep dot (absolute sep es) = absolute sep es.dropLast := by
  rcases eq_nil_or_concat es with rfl | ⟨init, e, rfl⟩
  · refine clean_of_filter (nofun) ?_ ?_
    · simp [absolute]
    · simp [absolute, splitOn_cons_eq_if_modifyHead]
  rw [concat_eq_append] at hes ⊢
  have hinit : ∀ x ∈ init, Proper sep dot x := fun x hx => hes x (mem_append_left _ hx)
  have hdrop : ∀ q : List α, (((q ++ [sep]) ++ e).reverse.dropWhile (· ≠ sep)).reverse =
      q ++ [sep] := by
    intro q
    have he : sep ∉ e := (hes e (mem_append_right _ (.head _))).whole
    rw [reverse_append, dropWhile_append_of_pos, reverse_append,
      reverse_singleton, singleton_append, dropWhile_cons_of_neg,
      reverse_cons, reverse_reverse]
    · simp
    intro x hx
    rw [decide_eq_true_iff]
    rintro rfl
    exact he (mem_reverse.mp hx)
  have hempty : ([sep].splitOn sep).filter (· ≠ []) = [] := by
    simp [splitOn_cons_eq_if_modifyHead]
  rw [dir, absolute_concat, dropLast_concat]
  split
  next hnil =>
    rw [hnil, ← nil_append [sep], hdrop]
    exact clean_of_filter (nofun) rfl hempty
  · rw [hdrop]
    refine clean_of_filter hinit rfl ?_
    rw [splitOn_append_cons_self, filter_append, filter_splitOn_absolute hinit]
    simp

theorem mem_leading_absolute (hes : ∀ e ∈ es, Proper sep dot e) :
    p ∈ leading sep (absolute sep es) ↔ ∃ l, l ≠ [] ∧ l <+: es ∧ absolute sep l = p := by
  have htail : ∀ l : List (List α), l ∈ es.inits.tail ↔ l ≠ [] ∧ l <+: es := by
    intro l
    cases es with
    | nil => simp
    | cons e es =>
      rw [inits_cons, tail_cons, mem_map]
      constructor
      · rintro ⟨l', hl', rfl⟩
        exact ⟨cons_ne_nil _ _, cons_prefix_cons.mpr ⟨rfl, (mem_inits _ _).mp hl'⟩⟩
      rintro ⟨hne, hl⟩
      cases l with
      | nil => exact absurd rfl hne
      | cons e' l =>
        obtain ⟨rfl, hl'⟩ := cons_prefix_cons.mp hl
        exact ⟨l, (mem_inits _ _).mpr hl', rfl⟩
  rw [leading, filter_splitOn_absolute hes, mem_map]
  simp [htail, and_assoc]

theorem below_of_mem_leading (hc : Proper sep dot c) (hes : ∀ e ∈ es, Proper sep dot e)
    (hhead : es = [] ∨ es.head? = some c) (hp : p ∈ leading sep (absolute sep es)) :
    Below sep (sep :: c) p := by
  obtain ⟨l, hne, hl, rfl⟩ := (mem_leading_absolute hes).mp hp
  refine (below_absolute hc fun e he => (hes e (hl.subset he)).whole).mpr ?_
  obtain ⟨t, rfl⟩ := hl
  cases l with
  | nil => exact absurd rfl hne
  | cons e l => exact hhead.resolve_left (cons_ne_nil _ _)

end

end MatchBench.Lexical
