import Mathlib.Data.List.AList

/-!
# The validation mode of a session

The validator learns from the workload assignments which order band a session has and
whether all its tasks are max-rate, and keeps this in a cache.  An attempt to validate the
session that gets past the summary check and the settle delay takes the entry out of the
cache (`BandCache.getAndDelete`) and reads the mode and the band off it.

An attempt that is repeated finds nothing.  `choices_eq` says what the attempts for one
session choose, among the specs and attempts of all others: the first what was learned,
the rest the default.  So the choice is the same every time exactly when there is at most
one, or when the default is what was learned (`sameChoice_iff`).
-/

namespace MatchBench.Service

open List Option AList

structure SessionMeta where
  band : UInt32
  maxRate : Bool
  deriving DecidableEq, Repr

def orderBandUnset : UInt32 := 0xFFFFFFFF

abbrev BandCache := AList (fun _ : String => SessionMeta)

namespace BandCache

def set (c : BandCache) (sessionID : String) (m : SessionMeta) : BandCache := c.insert sessionID m

/-- What a session that was never observed has. -/
def unseen : SessionMeta := ⟨orderBandUnset, false⟩

def getAndDelete (c : BandCache) (sessionID : String) : SessionMeta × BandCache :=
  match c.lookup sessionID with
  | none => (unseen, c)
  | some m => (m, c.erase sessionID)

end BandCache

/-- What the band consumer decodes of a workload assignment. -/
structure WorkloadSpec where
  sessionID : String
  orderBand : Option UInt32
  targetRPS : List UInt32
  deriving DecidableEq, Repr

def WorkloadSpec.meta (spec : WorkloadSpec) : SessionMeta where
  band := spec.orderBand.getD orderBandUnset
  maxRate := !spec.targetRPS.isEmpty && spec.targetRPS.all (fun rps => rps == 0)

/-- `VALIDATOR_MODE`; any value but the first two is `auto`. -/
inductive ValidatorMode
  | full
  | invariants
  | auto
  deriving DecidableEq, Repr

inductive Mode
  | full
  | invariants
  deriving DecidableEq, Repr

def sessionMode (mode : ValidatorMode) (m : SessionMeta) : Mode :=
  match mode with
  | .full => .full
  | .invariants => .invariants
  | .auto => if m.maxRate then .full else .invariants

/-- The status of a row of `correctness_summary`. -/
inductive SummaryStatus
  | scored
  | timedOut
  deriving DecidableEq, Repr

/-! ### Specs and attempts -/

inductive Event
  /-- A message of the workload assignments, if it decodes. -/
  | spec (s : Option WorkloadSpec)
  /-- A call of `validateSession`: what the summary check answers, if it does not fail, and
  whether the settle delay passes before the context is done. -/
  | attempt (sessionID : String) (summary : Option (Option SummaryStatus)) (settled : Bool)
  deriving DecidableEq, Repr

/-- Whether an attempt gets to mode selection. -/
def reachesMode : Option (Option SummaryStatus) → Bool → Bool
  | none, _ => false
  | some (some .scored), _ => false
  | some _, settled => settled

/-- What an attempt validates with. -/
structure Choice where
  mode : Mode
  band : UInt32
  deriving DecidableEq, Repr

def choose (mode : ValidatorMode) (m : SessionMeta) : Choice := ⟨sessionMode mode m, m.band⟩

def step (mode : ValidatorMode) (c : BandCache) : Event → BandCache × Option (String × Choice)
  | .spec none => (c, none)
  | .spec (some s) => (if s.sessionID ≠ "" then c.set s.sessionID s.meta else c, none)
  | .attempt id summary settled =>
      if reachesMode summary settled then
        ((c.getAndDelete id).2, some (id, choose mode (c.getAndDelete id).1))
      else (c, none)

/-- The choices of the attempts for a session. -/
def choices (mode : ValidatorMode) (id : String) : BandCache → List Event → List Choice
  | _, [] => []
  | c, e :: es =>
      match (step mode c e).2 with
      | some (id', x) =>
          if id' = id then x :: choices mode id (step mode c e).1 es
          else choices mode id (step mode c e).1 es
      | none => choices mode id (step mode c e).1 es

/-! ### One session among all -/

/-- What a spec says of the session. -/
def Event.learns (id : String) : Event → Option SessionMeta
  | .spec (some s) => if s.sessionID = id ∧ s.sessionID ≠ "" then some s.meta else none
  | .spec none => none
  | .attempt _ _ _ => none

/-- An attempt for the session that selects the mode. -/
def Event.selects (id : String) : Event → Bool
  | .attempt id' summary settled => id' = id && reachesMode summary settled
  | .spec _ => false

/-- What is learned of the session: its last spec. -/
def learned (id : String) (es : List Event) : SessionMeta :=
  (es.filterMap (Event.learns id)).getLast?.getD BandCache.unseen

variable (mode : ValidatorMode) (c : BandCache) (id : String)

theorem getAndDelete_lookup_ne {id id' : String} (h : id ≠ id') :
    (c.getAndDelete id').2.lookup id = c.lookup id := by
  rw [BandCache.getAndDelete]
  cases c.lookup id' with
  | none => rfl
  | some m => exact lookup_erase_ne h

theorem getAndDelete_lookup : (c.getAndDelete id).2.lookup id = none := by
  rw [BandCache.getAndDelete]
  cases h : c.lookup id with
  | none => exact h
  | some m => exact lookup_erase id c

theorem getAndDelete_fst : (c.getAndDelete id).1 = (c.lookup id).getD BandCache.unseen := by
  rw [BandCache.getAndDelete]
  cases c.lookup id <;> rfl

theorem step_spec (e : Event) :
    (step mode c e).1.lookup id = (if e.selects id then none else (e.learns id).or (c.lookup id)) ∧
      ∀ es, choices mode id c (e :: es) =
        (if e.selects id then [choose mode ((c.lookup id).getD BandCache.unseen)] else []) ++
          choices mode id (step mode c e).1 es := by
  cases e with
  | spec s =>
    cases s with
    | none => exact ⟨rfl, fun es => rfl⟩
    | some s =>
      refine ⟨?_, fun es => rfl⟩
      rw [Event.selects, if_neg Bool.false_ne_true, step, Event.learns]
      by_cases hne : s.sessionID ≠ ""
      · rw [if_pos hne, BandCache.set]
        by_cases hid : s.sessionID = id
        · rw [if_pos ⟨hid, hne⟩, ← hid, lookup_insert, some_or]
        · rw [if_neg (fun h => hid h.1), lookup_insert_ne (fun h => hid h.symm), none_or]
      · rw [if_neg hne, if_neg (fun h => hne h.2), none_or]
  | attempt id' summary settled =>
    rw [Event.selects, Event.learns, none_or]
    cases hr : reachesMode summary settled with
    | false =>
      have hs : step mode c (.attempt id' summary settled) = (c, none) := by
        rw [step, hr, if_neg Bool.false_ne_true]
      rw [Bool.and_false, if_neg Bool.false_ne_true, if_neg Bool.false_ne_true, hs]
      exact ⟨rfl, fun es => by rw [choices, hs]; rfl⟩
    | true =>
      have hs : step mode c (.attempt id' summary settled) =
          ((c.getAndDelete id').2, some (id', choose mode (c.getAndDelete id').1)) := by
        rw [step, hr, if_pos rfl]
      rw [Bool.and_true, hs]
      by_cases hid : id' = id
      · rw [if_pos (decide_eq_true hid), if_pos (decide_eq_true hid), hid]
        refine ⟨getAndDelete_lookup c id, fun es => ?_⟩
        rw [hid] at hs
        rw [choices, hs, getAndDelete_fst]
        dsimp only
        rw [if_pos rfl]
        rfl
      have hf : ¬ decide (id' = id) = true := fun h => hid (of_decide_eq_true h)
      rw [if_neg hf, if_neg hf]
      refine ⟨getAndDelete_lookup_ne c (fun h => hid h.symm), fun es => ?_⟩
      rw [choices, hs]
      dsimp only
      rw [if_neg hid]
      rfl

theorem choices_before (pre : List Event) : ∀ (c : BandCache),
    (∀ e ∈ pre, e.selects id = false) →
    ∃ c' : BandCache,
      c'.lookup id = ((pre.filterMap (Event.learns id)).getLast?).or (c.lookup id) ∧
      ∀ post, choices mode id c (pre ++ post) = choices mode id c' post := by
  induction pre with
  | nil => exact fun c _ => ⟨c, rfl, fun post => rfl⟩
  | cons e pre ih =>
    intro c hsel
    obtain ⟨hlook, hch⟩ := step_spec mode c id e
    have he : ¬ e.selects id = true := by
      rw [hsel e (.head _)]
      exact Bool.false_ne_true
    rw [if_neg he] at hlook
    obtain ⟨c', hc', hpost⟩ := ih (step mode c e).1 (fun x hx => hsel x (.tail _ hx))
    refine ⟨c', ?_, fun post => ?_⟩
    · rw [hc', hlook]
      cases hl : e.learns id with
      | none => rw [filterMap_cons_none hl, none_or]
      | some m =>
        rw [filterMap_cons_some hl, some_or, getLast?_cons]
        cases (pre.filterMap (Event.learns id)).getLast? <;> rfl
    · rw [cons_append, hch, if_neg he, nil_append, hpost]

/-- The number of attempts that select the mode. -/
def attempts (id : String) (es : List Event) : Nat := es.countP (Event.selects id)

theorem modifyHead_replicate (n : Nat) (a : Choice) :
    (List.replicate n a).modifyHead (fun _ => a) = List.replicate n a := by
  cases n <;> rfl

/-- **The choices of a session**: the first attempt has what is in the cache, and the
others have nothing. -/
theorem choices_eq : ∀ (post : List Event) (c : BandCache),
    (∀ e ∈ post, e.learns id = none) →
    choices mode id c post =
      (List.replicate (attempts id post) (choose mode BandCache.unseen)).modifyHead
        (fun _ => choose mode ((c.lookup id).getD BandCache.unseen)) := by
  intro post
  induction post with
  | nil => exact fun c _ => rfl
  | cons e post ih =>
    intro c hl
    have hl' : ∀ x ∈ post, x.learns id = none := fun x hx => hl x (.tail _ hx)
    obtain ⟨hlook, hch⟩ := step_spec mode c id e
    rw [hl e (.head _), none_or] at hlook
    rw [hch, attempts, countP_cons]
    by_cases he : e.selects id = true
    · rw [if_pos he] at hlook
      rw [if_pos he, if_pos he, ih _ hl', hlook, getD_none, modifyHead_replicate,
        replicate_succ, modifyHead_cons]
      rfl
    · rw [if_neg he] at hlook
      rw [if_neg he, if_neg he, ih _ hl', hlook]
      rfl

/-! ### The same choice every time -/

theorem choose_auto_inj {m m' : SessionMeta} (h : choose .auto m = choose .auto m') : m = m' := by
  obtain ⟨b, r⟩ := m
  obtain ⟨b', r'⟩ := m'
  rw [choose, choose, Choice.mk.injEq, sessionMode, sessionMode] at h
  dsimp only at h
  rw [SessionMeta.mk.injEq]
  refine ⟨h.2, ?_⟩
  cases r <;> cases r' <;> simp_all

/-- **The mode and the band do not depend on the attempt** exactly when the session has at
most one attempt that selects them, or what was learned of it is the default. -/
theorem sameChoice_iff (id : String) (pre post : List Event)
    (hpre : ∀ e ∈ pre, e.selects id = false) (hpost : ∀ e ∈ post, e.learns id = none) :
    (∀ x ∈ choices .auto id ∅ (pre ++ post), x = choose .auto (learned id pre)) ↔
      attempts id post ≤ 1 ∨ learned id pre = BandCache.unseen := by
  obtain ⟨c, hc, hch⟩ := choices_before .auto id pre ∅ hpre
  have hm : (c.lookup id).getD BandCache.unseen = learned id pre := by
    rw [hc, lookup_empty, or_none, learned]
  rw [hch, choices_eq .auto id post c hpost, hm]
  rcases hk : attempts id post with _ | k
  · simp
  rw [replicate_succ, modifyHead_cons]
  constructor
  · intro h
    rcases k with _ | k
    · exact .inl le_rfl
    · have := h (choose .auto BandCache.unseen)
        (.tail _ (mem_replicate.mpr ⟨Nat.succ_ne_zero k, rfl⟩))
      exact .inr (choose_auto_inj this.symm)
  rintro (h | h) x hx
  · rcases mem_cons.mp hx with hx | hx
    · exact hx
    · exact absurd (mem_replicate.mp hx).1 (by omega)
  · rcases mem_cons.mp hx with hx | hx
    · exact hx
    · rw [(mem_replicate.mp hx).2, h]

/-- A session that is validated once, with another in between. -/
theorem sameChoice_once :
    attempts "s" [.attempt "t" (some none) true, .attempt "s" (some none) false,
        .attempt "s" (some none) true, .attempt "s" (some (some .scored)) true] = 1 ∧
      ∀ x ∈ choices .auto "s" ∅ ([.spec (some ⟨"s", some 3, [0, 0]⟩)] ++
        [.attempt "t" (some none) true, .attempt "s" (some none) false,
          .attempt "s" (some none) true, .attempt "s" (some (some .scored)) true]),
        x = choose .auto (learned "s" [.spec (some ⟨"s", some 3, [0, 0]⟩)]) :=
  ⟨by decide, (sameChoice_iff "s" [.spec (some ⟨"s", some 3, [0, 0]⟩)] _ (by decide)
    (by decide)).mpr (.inl (by decide))⟩

/-- An all max-rate session that is retried is validated without its book and band. -/
theorem choices_retried :
    choices .auto "s" ∅ [.spec (some ⟨"s", some 3, [0, 0]⟩), .attempt "s" (some none) true,
      .attempt "s" (some (some .timedOut)) true] =
      [⟨.full, 3⟩, ⟨.invariants, orderBandUnset⟩] := by
  decide

end MatchBench.Service
