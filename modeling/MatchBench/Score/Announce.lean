import MatchBench.Score.Final

/-!
# Which stored scores are announced

`internal/worker/worker.go`.  A call of `score` loads and computes, inserts the
row, asks for its rank, marks it and publishes the update; any step may fail,
which ends the call, and a restart ends all of them.  The two scans skip a group
that has a row, so a call that ends after its insert and before its publication
is not made again: the score is stored and never announced.

`Moves` says what one step does to the row of a group, to the calls that still
owe its update and to the updates.  Rank and time of an update are left out.
-/

namespace MatchBench.Score

open List
open Score.System (flawless someBench gradedRuns)

/-- What a call of `score` does next. -/
inductive Phase
  | saveScore
  | rankForRunGroup
  | markPublished
  | publish
  deriving DecidableEq, Repr

structure Call where
  res : Result
  next : Phase

structure Scorer where
  store : Store
  ready : List String := []
  calls : List Call := []
  /-- The scores of the updates that were published. -/
  published : List Result := []

inductive WorkerStep
  /-- An event is recorded, and its group is queued if it is ready. -/
  | record (r : Store.Record)
  /-- The service starts again; its scan may fail. -/
  | restart (ok : Bool)
  /-- A worker takes a group: `LoadInput` and `Compute`. -/
  | take (ok : Bool)
  /-- The `i`-th call makes its next step. -/
  | advance (i : Nat) (ok : Bool)
  deriving DecidableEq

namespace Scorer

def perform (s : Scorer) (c : Call) : Scorer :=
  match c.next with
  | .saveScore =>
      { s with
        store := s.store.saveScore c.res
        calls := s.calls ++
          if s.store.scores.lookup c.res.runGroupID = none then [⟨c.res, .rankForRunGroup⟩] else [] }
  | .rankForRunGroup => { s with calls := s.calls ++ [⟨c.res, .markPublished⟩] }
  | .markPublished => { s with calls := s.calls ++ [⟨c.res, .publish⟩] }
  | .publish => { s with published := s.published ++ [c.res] }

def step (bench : Bench) (s : Scorer) : WorkerStep → Scorer
  | .record r =>
      { s with
        store := s.store.recorded r
        ready := s.ready ++ match s.store.record r with
          | .ok x => x.2
          | .error _ => [] }
  | .restart ok => { s with ready := if ok then s.store.pendingRunGroups else [], calls := [] }
  | .take ok =>
      match s.ready with
      | [] => s
      | g :: ready =>
          match (s.store.loadInput bench g).bind scoreOf, ok with
          | some res, true => { s with ready := ready, calls := s.calls ++ [⟨res, .saveScore⟩] }
          | _, _ => { s with ready := ready }
  | .advance i ok =>
      match s.calls[i]? with
      | none => s
      | some c =>
          let s := { s with calls := s.calls.eraseIdx i }
          if ok then s.perform c else s

def run (bench : Bench) (runs : Runs) (steps : List WorkerStep) : Scorer :=
  steps.foldl (step bench) { store := ⟨runs, ∅, ∅⟩ }

/-! ### One step -/

/-- The call has inserted the row of `g` and not announced it. -/
def Call.Owes (c : Call) (g : String) : Prop := c.res.runGroupID = g ∧ c.next ≠ .saveScore

def Owed (s : Scorer) (g : String) : Prop := ∃ c ∈ s.calls, Call.Owes c g

def Told (s : Scorer) (g : String) : Prop := ∃ r ∈ s.published, r.runGroupID = g

def Stored (s : Scorer) (g : String) : Prop := (s.store.scores.lookup g).isSome

/-- The step ends no call between its insert and its publication. -/
def Spares (s : Scorer) : WorkerStep → Prop
  | .restart _ => ∀ c ∈ s.calls, c.next = .saveScore
  | .advance i false => ∀ c ∈ s.calls[i]?, c.next = .saveScore
  | _ => True

structure Moves (s t : Scorer) (spares : Prop) (g : String) : Prop where
  stored : s.Stored g → t.Stored g
  stored_or : t.Stored g → s.Stored g ∨ t.Owed g
  owed : t.Owed g → s.Owed g ∨ ¬s.Stored g
  told : t.Told g → s.Told g ∨ s.Owed g
  kept : s.Told g → t.Told g
  spared : spares → s.Owed g → t.Owed g ∨ t.Told g

variable {s : Scorer}

theorem moves_of_same {t : Scorer} {spares : Prop} {g : String}
    (hs : t.store.scores = s.store.scores) (hp : t.published = s.published)
    (ho : t.Owed g → s.Owed g) (h : spares → s.Owed g → t.Owed g) : Moves s t spares g where
  stored := by simp [Stored, hs]
  stored_or := by simp +contextual [Stored, hs]
  owed x := .inl (ho x)
  told := by simp +contextual [Told, hp]
  kept := by simp [Told, hp]
  spared x y := .inl (h x y)

theorem moves_perform {c : Call} {l : List Call} (hmem : ∀ x, x ∈ s.calls ↔ x = c ∨ x ∈ l)
    (g : String) : Moves s (perform { s with calls := l } c) True g := by
  obtain ⟨res, next⟩ := c
  cases next with
  | saveScore =>
    cases hrow : s.store.scores.lookup res.runGroupID with
    | some row =>
      refine moves_of_same ?_ rfl ?_ fun _ => ?_ <;>
        simp [perform, Store.saveScore, hrow, Owed, hmem, Call.Owes]
    | none =>
      by_cases hg : g = res.runGroupID
      · subst hg
        constructor <;> simp [perform, Store.saveScore, hrow, Owed, hmem, Call.Owes, Stored, Told]
        grind
      · constructor <;>
          simp [perform, Store.saveScore, hrow, Owed, hmem, Call.Owes, Stored, Told, hg] <;> grind
  | rankForRunGroup | markPublished =>
    refine moves_of_same rfl rfl ?_ fun _ => ?_ <;> simp [perform, Owed, hmem, Call.Owes, or_comm]
  | publish => constructor <;> simp [perform, Owed, hmem, Call.Owes, Stored, Told] <;> grind

theorem moves_step (bench : Bench) (s : Scorer) (t : WorkerStep) (g : String) :
    Moves s (s.step bench t) (s.Spares t) g := by
  cases t with
  | record r => exact moves_of_same (s.store.recorded_tables r).2 rfl id fun _ => id
  | restart ok =>
    refine moves_of_same rfl rfl (by simp [step, Owed]) fun h ⟨c, hc, ho⟩ => ?_
    exact absurd (h c hc) ho.2
  | take ok =>
    cases hr : s.ready with
    | nil => refine moves_of_same ?_ ?_ ?_ fun _ => ?_ <;> simp [step, hr]
    | cons g' ready =>
      cases hres : (s.store.loadInput bench g').bind scoreOf <;> cases ok <;>
        refine moves_of_same ?_ ?_ ?_ fun _ => ?_ <;> simp [step, hr, hres, Owed, Call.Owes]
  | advance i ok =>
    cases hc : s.calls[i]? with
    | none => refine moves_of_same ?_ ?_ ?_ fun _ => ?_ <;> simp [step, hc]
    | some c =>
      obtain ⟨hi, hci⟩ := List.getElem?_eq_some_iff.mp hc
      have hmem : ∀ x, x ∈ s.calls ↔ x = c ∨ x ∈ s.calls.eraseIdx i := fun x => by
        rw [← (getElem_cons_eraseIdx_perm hi).mem_iff, hci, mem_cons]
      cases ok with
      | true => simpa [step, hc, Spares] using moves_perform hmem g
      | false =>
        have hs : (s.step bench (.advance i false)).calls = s.calls.eraseIdx i := by simp [step, hc]
        refine moves_of_same (by simp [step, hc]) (by simp [step, hc]) ?_ fun h => ?_
        · exact fun ⟨x, hx, ho⟩ => ⟨x, (hmem x).mpr (.inr (hs ▸ hx)), ho⟩
        rintro ⟨x, hx, ho⟩
        rcases (hmem x).mp hx with rfl | hx
        · exact absurd (h x hc) ho.2
        · exact ⟨x, hs ▸ hx, ho⟩

/-! ### Whole runs -/

/-- **Every stored score is announced** or is about to be, if no failure and no
restart comes between the insert and the publication. -/
theorem told_of_stored (bench : Bench) (runs : Runs) (steps : List WorkerStep)
    (h : ∀ pre t post, steps = pre ++ t :: post → (run bench runs pre).Spares t) (g : String)
    (hg : (run bench runs steps).Stored g) :
    (run bench runs steps).Told g ∨ (run bench runs steps).Owed g := by
  induction steps using reverseRecOn with
  | nil => simp [run, Stored] at hg
  | append_singleton steps t ih =>
    have hm := moves_step bench (run bench runs steps) t g
    have ih := ih fun pre u post hu => h pre u (post ++ [t]) (by simp [hu])
    simp only [run, foldl_append, foldl_cons, foldl_nil] at hg hm ih ⊢
    rcases hm.stored_or hg with hs | ho
    · rcases ih hs with ht | ho
      · exact .inl (hm.kept ht)
      · exact (hm.spared (h steps t [] rfl) ho).symm
    · exact .inr ho

/-- No scan returns the group of a stored score. -/
theorem Stored.unscanned {g : String} (hs : s.Stored g) :
    s.store.readyRunGroups g = [] ∧ g ∉ s.store.pendingRunGroups := by
  have hrow : s.store.scores.lookup g ≠ none := Option.isSome_iff_ne_none.mp hs
  refine ⟨if_neg fun h => hrow h.1, ?_⟩
  simp only [Store.pendingRunGroups, mem_flatMap, not_exists, not_and]
  intro x _ hx
  rw [Store.readyRunGroups] at hx
  grind

/-- A stored score that no call owes is never announced. -/
theorem hidden (bench : Bench) {g : String} (hs : s.Stored g) (ht : ¬s.Told g) (ho : ¬s.Owed g)
    (more : List WorkerStep) :
    (more.foldl (step bench) s).Stored g ∧ ¬(more.foldl (step bench) s).Told g := by
  induction more generalizing s with
  | nil => exact ⟨hs, ht⟩
  | cons t more ih =>
    have hm := moves_step bench s t g
    exact ih (hm.stored hs) (fun h => (hm.told h).elim ht ho)
      fun h => (hm.owed h).elim ho fun h => h hs

/-- Both runs of a group are done, and its score is inserted. -/
def saved : List WorkerStep :=
  [.record (.status ⟨"s", "sub", "g", .completed⟩), .record (.status ⟨"t", "sub", "g", .completed⟩),
    .record (.correctness (flawless "s").event), .record (.correctness (flawless "t").event),
    .take true, .advance 0 true]

theorem told_of_stored_saved : (run someBench gradedRuns saved).Stored "g" ∧
    ((run someBench gradedRuns saved).Told "g" ∨ (run someBench gradedRuns saved).Owed "g") := by
  have hs : (run someBench gradedRuns saved).Stored "g" := by
    unfold Stored
    decide +kernel
  refine ⟨hs, told_of_stored someBench gradedRuns saved (fun pre t post h => ?_) "g" hs⟩
  have ht : t ∈ saved := by simp [h]
  fin_cases ht <;> trivial

/-- The query for the rank fails: the score of `g` stays and is never announced. -/
theorem stored_untold :
    let s := run someBench gradedRuns (saved ++ [.advance 0 false])
    s.Stored "g" ∧ ∀ more : List WorkerStep, let t := more.foldl (step someBench) s
      ¬t.Told "g" ∧ t.store.readyRunGroups "g" = [] ∧ "g" ∉ t.store.pendingRunGroups := by
  intro s
  have h : (s.store.scores.lookup "g").isSome ∧ s.published.length = 0 ∧ s.calls.length = 0 := by
    decide +kernel
  refine ⟨h.1, fun more => ?_⟩
  obtain ⟨hs, ht⟩ := hidden someBench h.1 (by simp [Told, length_eq_zero_iff.mp h.2.1])
    (by simp [Owed, length_eq_zero_iff.mp h.2.2]) more
  exact ⟨ht, hs.unscanned⟩

end Scorer

end MatchBench.Score
