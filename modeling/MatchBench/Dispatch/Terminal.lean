import MatchBench.Dispatch.System

/-!
# Closed run groups

A run group is closed once its status is `completed` or `failed`.  The recovery of the
controller closes a group as soon as the first of its runs is failed, and the status
consumer opens it again when it claims another run or counts the runs of the group before
the recovery has failed them all (`run_reopened`).

`run_closed` says what is enough for a closed group to stay closed and to have no more
runs dispatched: the consumer claims and counts in a closed group only when all its runs
have ended, and the recovery does not close a group between the claim of a run and its
publication, or between the count and the write of an open status.
-/

namespace MatchBench.Dispatch

/-- The status of the group is `completed` or `failed`. -/
def World.Closed (w : World) (runGroupID : String) : Prop :=
  ∃ g, w.db.groups.lookup runGroupID = some g ∧ terminalRunStatus g.status = true

instance (w : World) (runGroupID : String) : Decidable (w.Closed runGroupID) :=
  match h : w.db.groups.lookup runGroupID with
  | none => isFalse fun ⟨_, hg, _⟩ => Option.some_ne_none _ (hg.symm.trans h)
  | some g =>
      decidable_of_iff (terminalRunStatus g.status = true)
        ⟨fun ht => ⟨g, h, ht⟩, fun ⟨_, hg, ht⟩ => Option.some.inj (hg.symm.trans h) ▸ ht⟩

/-- The consumer is about to publish a run of the group, or to write that it is open. -/
def Task.Opens (runGroupID : String) : Task → Prop
  | .publish d _ => d.msg.runGroupID = runGroupID
  | .write d status => d.msg.runGroupID = runGroupID ∧ terminalRunStatus status = false
  | .idle | .update _ | .lookup _ | .claim _ | .reset _ _ | .count _ | .commit _ _ => False

instance (runGroupID : String) : ∀ t : Task, Decidable (t.Opens runGroupID)
  | .publish _ _ => inferInstanceAs (Decidable (_ = _))
  | .write _ _ => inferInstanceAs (Decidable (_ ∧ _))
  | .idle | .update _ | .lookup _ | .claim _ | .reset _ _ | .count _ | .commit _ _ =>
      inferInstanceAs (Decidable False)

/-- The consumer claims and counts in a closed group only when all its runs have ended. -/
def Task.Apart (w : World) : Task → Prop
  | .claim d | .count d => w.Closed d.msg.runGroupID → w.db.Ended d.msg.runGroupID
  | .idle | .update _ | .lookup _ | .publish _ _ | .reset _ _ | .write _ _ | .commit _ _ => True

/-- The recovery closes no group that the consumer is about to open. -/
def Recovery.Apart (w : World) : Recovery → Prop
  | .markGroup r _ _ => ¬ w.task.Opens r.runGroupID
  | .off | .list | .markRun _ _ | .publish _ _ _ => True

/-- The first run of a group is published while the group is open. -/
def Start.Apart (w : World) : Start → Prop
  | .publish q => ¬ w.Closed q.runGroupID
  | .find _ | .insert _ | .findAgain _ | .answered _ => True

/-- The step keeps out of the way of the other programs. -/
def Apart (w : World) : Event → Prop
  | .taskStep _ => w.task.Apart w
  | .recoveryStep _ _ => w.recovery.Apart w
  | .startStep i _ => ∀ s ∈ w.starts[i]?, s.Apart w
  | .start _ _ _ _ | .report _ _ | .fetch _ | .restart | .recover | .listRuns _ _ => True

instance (w : World) : ∀ t : Task, Decidable (t.Apart w)
  | .claim _ | .count _ => inferInstanceAs (Decidable (_ → _))
  | .idle | .update _ | .lookup _ | .publish _ _ | .reset _ _ | .write _ _ | .commit _ _ =>
      inferInstanceAs (Decidable True)

instance (w : World) : ∀ r : Recovery, Decidable (r.Apart w)
  | .markGroup _ _ _ => inferInstanceAs (Decidable (¬ _))
  | .off | .list | .markRun _ _ | .publish _ _ _ => inferInstanceAs (Decidable True)

instance (w : World) : ∀ s : Start, Decidable (s.Apart w)
  | .publish _ => inferInstanceAs (Decidable (¬ _))
  | .find _ | .insert _ | .findAgain _ | .answered _ => inferInstanceAs (Decidable True)

instance (w : World) : ∀ e : Event, Decidable (Apart w e)
  | .taskStep _ => inferInstanceAs (Decidable (w.task.Apart w))
  | .recoveryStep _ _ => inferInstanceAs (Decidable (w.recovery.Apart w))
  | .startStep i _ => inferInstanceAs (Decidable (∀ s ∈ w.starts[i]?, s.Apart w))
  | .start _ _ _ _ | .report _ _ | .fetch _ | .restart | .recover | .listRuns _ _ =>
      inferInstanceAs (Decidable True)

/-! ### What one step keeps -/

/-- The consumer is about to open no group that is closed. -/
structure Tidy (w : World) : Prop where
  opens : ∀ g, w.Closed g → ¬ w.task.Opens g
  next : ∀ d next, w.task = .publish d next → next.runGroupID = d.msg.runGroupID

/-- From one world to the next, closed groups stay so and get no run dispatched. -/
structure Keeps (w w' : World) : Prop where
  closed : ∀ g, w.Closed g → w'.Closed g
  dispatched : ∀ g, w.Closed g → w'.dispatchedOf g = w.dispatchedOf g

variable {w w' : World}

theorem Keeps.of_eq (hg : w'.db.groups = w.db.groups) (hr : w'.requested = w.requested) :
    Keeps w w' where
  closed g h := by rwa [World.Closed, hg]
  dispatched g _ := by rw [World.dispatchedOf, hr, World.dispatchedOf]

theorem closed_congr (hg : w'.db.groups = w.db.groups) (g : String) : w'.Closed g ↔ w.Closed g := by
  rw [World.Closed, hg, World.Closed]

variable {w : World} {g : String} {row : RunGroupMeta}

theorem Tidy.of_opens (h : ∀ g, ¬ w.task.Opens g) : Tidy w where
  opens g _ := h g
  next d _ ht := absurd (ht ▸ rfl : w.task.Opens d.msg.runGroupID) (h _)

theorem Tidy.congr (h : Tidy w) (hg : w'.db.groups = w.db.groups) (ht : w'.task = w.task) :
    Tidy w' where
  opens g hc := ht ▸ h.opens g ((closed_congr hg g).mp hc)
  next d next hn := h.next d next (ht ▸ hn)

theorem Tidy.step_of_eq (h : Tidy w) (hg : w'.db.groups = w.db.groups)
    (hr : w'.requested = w.requested) (ht : w'.task = w.task) : Keeps w w' ∧ Tidy w' :=
  ⟨.of_eq hg hr, h.congr hg ht⟩

theorem step_of_opens (hg : w'.db.groups = w.db.groups) (hr : w'.requested = w.requested)
    (ht : ∀ g, ¬ w'.task.Opens g) : Keeps w w' ∧ Tidy w' :=
  ⟨.of_eq hg hr, .of_opens ht⟩

theorem Keeps.publishRequested {m : BenchmarkMeta} (hg : w'.db.groups = w.db.groups)
    (hr : w'.requested = w.requested ++ [m]) (hopen : ¬ w.Closed m.runGroupID) : Keeps w w' where
  closed g h := (closed_congr hg g).mpr h
  dispatched g h := by
    have hne : ¬ m.runGroupID = g := fun he => hopen (he ▸ h)
    rw [World.dispatchedOf, hr, List.filter_append, List.filter_cons_of_neg (by simpa using hne),
      List.filter_nil, List.append_nil, World.dispatchedOf]

theorem Keeps.setGroup
    (hg : w'.db.groups = w.db.groups.insert g row) (hr : w'.requested = w.requested)
    (hrow : w.Closed g → terminalRunStatus row.status = true) : Keeps w w' where
  closed g' h := by
    rw [World.Closed, hg]
    by_cases he : g' = g
    · rw [he, AList.lookup_insert]
      exact ⟨row, rfl, hrow (he ▸ h)⟩
    · rwa [AList.lookup_insert_ne he]
  dispatched g' _ := by rw [World.dispatchedOf, hr, World.dispatchedOf]

theorem closed_insert {g g' : String}
    (hg : w'.db.groups = w.db.groups.insert g row) (h : w'.Closed g') :
    g' = g ∧ terminalRunStatus row.status = true ∨ w.Closed g' := by
  rw [World.Closed, hg] at h
  obtain ⟨x, hx, ht⟩ := h
  rcases lookup_insert_eq_some.mp hx with ⟨rfl, rfl⟩ | ⟨-, hx⟩
  · exact .inl ⟨rfl, ht⟩
  · exact .inr ⟨x, hx, ht⟩

theorem Tidy.startStep (h : Tidy w) (i : Nat) (ok : Bool) (hapart : Apart w (.startStep i ok)) :
    Keeps w (w.startStep i ok) ∧ Tidy (w.startStep i ok) := by
  rw [Apart] at hapart
  have hstep := startStep_cases w i ok
  generalize w.startStep i ok = w' at hstep ⊢
  cases hstep with
  | stay | move ok s s' => exact h.step_of_eq rfl rfl rfl
  | insert q db hs hdb =>
    obtain ⟨hnone, hgroups, _⟩ := Tables.insertRunGroupWithChildren_eq_ok hdb
    refine ⟨.setGroup hgroups rfl ?_, ?_, h.next⟩
    · rintro ⟨row, hrow, _⟩
      exact absurd (hrow.symm.trans hnone) (Option.some_ne_none _)
    intro g hc
    rcases closed_insert hgroups hc with ⟨_, ht⟩ | hc
    · cases ht
    · exact h.opens g hc
  | publish q a hs => exact ⟨.publishRequested rfl rfl (hapart _ hs), h.congr rfl rfl⟩
  | fail q a hs => exact h.step_of_eq rfl rfl rfl

theorem Task.not_opens_ite {c : Prop} [Decidable c] {t t' : Task} (h : ¬ t.Opens g)
    (h' : ¬ t'.Opens g) : ¬ (if c then t else t').Opens g := by
  split
  · exact h
  · exact h'

theorem Tidy.fetch (h : Tidy w) (partition : Nat) :
    Keeps w (w.fetch partition) ∧ Tidy (w.fetch partition) := by
  rw [World.fetch]
  split
  · refine step_of_opens rfl rfl fun g => ?_
    rw [World.setTask]
    split
    · exact Task.not_opens_ite id id
    · exact id
  · exact h.step_of_eq rfl rfl rfl

theorem Delivery.not_opens_updated (d : Delivery) (g : String) : ¬ d.updated.Opens g := by
  rw [Delivery.updated]
  exact Task.not_opens_ite id (Task.not_opens_ite id id)

/-- **A call of the consumer keeps closed groups closed.** -/
theorem Tidy.taskStep (h : Tidy w) (ok : Bool) (hapart : w.task.Apart w) :
    Keeps w (w.taskStep ok) ∧ Tidy (w.taskStep ok) := by
  have hclear : ∀ t : Task, (∀ g, ¬ t.Opens g) → Keeps w (w.setTask t) ∧ Tidy (w.setTask t) :=
    fun t ht => step_of_opens rfl rfl ht
  have hstep := taskStep_cases w ok
  generalize w.taskStep ok = w' at hstep ⊢
  cases hstep with
  | idle => exact h.step_of_eq rfl rfl rfl
  | leave d => exact step_of_opens rfl rfl (fun g => id)
  | update d => exact step_of_opens rfl rfl d.not_opens_updated
  | noUpdate d => exact hclear _ (fun g => id)
  | ended d => exact hclear _ d.not_opens_updated
  | unknown d => exact hclear _ (fun g => id)
  | claim d s r ht hr hg hreq =>
    -- a run waits, so the group is open
    have hopen : ¬ w.Closed d.msg.runGroupID := by
      intro hclosed
      rw [ht] at hapart
      have hend := hapart hclosed s r hr hg
      rw [hreq] at hend
      exact Bool.false_ne_true hend
    refine ⟨.of_eq rfl rfl, fun g hclosed hopens => ?_, fun d' next hn => ?_⟩
    · obtain rfl : d.msg.runGroupID = g := hopens
      exact hopen hclosed
    · obtain ⟨rfl, rfl⟩ := Task.publish.inj hn
      rfl
  | noClaim d => exact hclear _ (fun g => id)
  | publish d next ht =>
    have hopen : ¬ w.Closed next.runGroupID := by
      rw [h.next d next ht]
      exact fun hc => h.opens _ hc (ht ▸ rfl)
    exact ⟨.publishRequested rfl rfl hopen, .of_opens fun g => id⟩
  | noPublish d next => exact hclear _ (fun g => id)
  | reset d next | noReset d next => exact step_of_opens rfl rfl (fun g => id)
  | count d status ht hstatus =>
    rw [ht] at hapart
    refine ⟨.of_eq rfl rfl, fun g hclosed hopens => ?_, fun d' next hn => Task.noConfusion hn⟩
    obtain ⟨rfl, hfalse⟩ : d.msg.runGroupID = g ∧ terminalRunStatus status = false := hopens
    exact Bool.false_ne_true (hfalse.symm.trans (hstatus.mpr (hapart hclosed)))
  | noCount d => exact hclear _ (fun g => id)
  | write d status ht =>
    refine ⟨?_, .of_opens fun g => id⟩
    have hwrite : w.Closed d.msg.runGroupID → terminalRunStatus status = true := by
      intro hc
      by_contra hopen
      exact h.opens _ hc (ht ▸ ⟨rfl, Bool.eq_false_iff.mpr hopen⟩)
    rw [Tables.setRunGroupStatus]
    cases hrow : w.db.groups.lookup d.msg.runGroupID with
    | none => exact .of_eq rfl rfl
    | some row => exact .setGroup rfl rfl hwrite
  | noWrite d status => exact hclear _ (fun g => id)
  | commit partition offset => exact step_of_opens rfl rfl (fun g => id)

theorem Tidy.recoveryStep (h : Tidy w) (ok : Bool) (partition : Nat)
    (hapart : Apart w (.recoveryStep ok partition)) :
    Keeps w (w.recoveryStep ok partition) ∧ Tidy (w.recoveryStep ok partition) := by
  rw [Apart] at hapart
  have hstep := recoveryStep_cases w ok partition
  generalize w.recoveryStep ok partition = w' at hstep ⊢
  cases hstep with
  | stay hdb hrequested _ htask => exact h.step_of_eq (by rw [hdb]) hrequested htask
  | markRun s hdb hrequested _ htask =>
    exact h.step_of_eq (by rw [hdb, Tables.groups_updateRunStatus]) hrequested htask
  | markGroup r todo failedGroups hr hdb hrequested _ htask =>
    rw [hr] at hapart
    rw [Tables.markRunGroupFailed] at hdb
    cases hrow : w.db.groups.lookup r.runGroupID with
    | none => exact h.step_of_eq (by rw [hdb, hrow]) hrequested htask
    | some row =>
      rw [hrow] at hdb
      dsimp only at hdb
      split at hdb
      · exact h.step_of_eq (by rw [hdb]) hrequested htask
      have hgroups : w'.db.groups = w.db.groups.insert r.runGroupID { row with status := .failed } :=
        by rw [hdb]; rfl
      refine ⟨.setGroup hgroups hrequested (fun _ => rfl), ?_, ?_⟩
      · intro g hc
        rw [htask]
        rcases closed_insert hgroups hc with ⟨rfl, _⟩ | hc
        · exact hapart
        · exact h.opens g hc
      · intro d next hn
        exact h.next d next (htask ▸ hn)

theorem Tidy.step (h : Tidy w) (e : Event) (hapart : Apart w e) :
    Keeps w (step w e) ∧ Tidy (step w e) := by
  cases e with
  | start submissionID contestantID runGroupID children =>
    obtain ⟨s, _, _, _, he⟩ := startBenchmark_eq w submissionID contestantID runGroupID children
    rw [Dispatch.step, he]
    exact h.step_of_eq rfl rfl rfl
  | startStep i ok => exact h.startStep i ok hapart
  | report partition m => exact h.step_of_eq rfl rfl rfl
  | fetch partition => exact h.fetch partition
  | taskStep ok => exact h.taskStep ok hapart
  | restart =>
    obtain ⟨parts, he⟩ := restart_eq w
    rw [Dispatch.step, he]
    exact step_of_opens rfl rfl (fun g => id)
  | recover => exact h.step_of_eq rfl rfl rfl
  | listRuns ok runs =>
    obtain ⟨recovery, he⟩ := listRuns_eq w ok runs
    rw [Dispatch.step, he]
    exact h.step_of_eq rfl rfl rfl
  | recoveryStep ok partition => exact h.recoveryStep ok partition hapart

/-! ### Runs -/

theorem Tidy.keeps_run (h : Tidy w) {es : List Event}
    (hes : Allows Dispatch.step Apart w es) : Keeps w (run w es) := by
  induction es generalizing w with
  | nil => exact .of_eq rfl rfl
  | cons e es ih =>
    obtain ⟨hk, ht⟩ := h.step e hes.1
    have hrest := ih ht hes.2
    exact ⟨fun g hc => hrest.closed g (hk.closed g hc),
      fun g hc => (hrest.dispatched g (hk.closed g hc)).trans (hk.dispatched g hc)⟩

/-- **A closed group stays closed, and no run of it is dispatched**, however the recovery and
the consumer interleave, when their steps keep apart. -/
theorem run_closed (w : World) (hidle : w.task = .idle) (pre post : List Event)
    (hes : Allows step Apart w (pre ++ post)) (g : String) (hclosed : (run w pre).Closed g) :
    (run w (pre ++ post)).Closed g ∧
      (run w (pre ++ post)).dispatchedOf g = (run w pre).dispatchedOf g := by
  obtain ⟨hpre, hpost⟩ := allows_append.mp hes
  have hstart : Tidy w := .of_opens (fun g => hidle ▸ id)
  have htidy : Tidy (run w pre) :=
    hpre.invariant (fun w e h ha => (h.step e ha).2) hstart
  have hrun : run w (pre ++ post) = run (run w pre) post := List.foldl_append
  rw [hrun]
  have hkeeps := htidy.keeps_run hpost
  exact ⟨hkeeps.closed g hclosed, hkeeps.dispatched g hclosed⟩

/-- A benchmark of two scenarios whose first run is dispatched; the controller starts, fails
that run and the group, and reports the failure. -/
def recovering : List Event :=
  [.start "s" "c" "g" [("r1", "x"), ("r2", "y")], .startStep 0 true, .startStep 0 true,
    .startStep 0 true, .recover, .listRuns true [⟨"r1", "s", "g"⟩, ⟨"r2", "s", "g"⟩],
    .recoveryStep true 0, .recoveryStep true 0, .recoveryStep true 0]

/-- The consumer takes up a status update and makes some calls. -/
def processing (calls : Nat) : List Event := .fetch 0 :: List.replicate calls (.taskStep true)

theorem run_closed_recovered :
    (run World.empty (recovering ++ (.recoveryStep true 0 :: .recoveryStep true 0 ::
      processing 6 ++ processing 6))).Closed "g" ∧
    (run World.empty (recovering ++ (.recoveryStep true 0 :: .recoveryStep true 0 ::
      processing 6 ++ processing 6))).dispatchedOf "g" =
        (run World.empty recovering).dispatchedOf "g" :=
  run_closed World.empty rfl recovering _ (by decide +kernel) "g" (by decide +kernel)

/-- **The consumer opens a closed group**: it takes up the failure of the first run before
the second run is failed, dispatches that run and writes that the group is running. -/
theorem run_reopened :
    (run World.empty recovering).Closed "g" ∧
      ¬ (run World.empty (recovering ++ processing 7)).Closed "g" ∧
      ((run World.empty recovering).dispatchedOf "g").map BenchmarkMeta.sessionID = ["r1"] ∧
      ((run World.empty (recovering ++ processing 7)).dispatchedOf "g").map
        BenchmarkMeta.sessionID = ["r1", "r2"] := by
  refine ⟨by decide +kernel, by decide +kernel, by decide +kernel, by decide +kernel⟩

end MatchBench.Dispatch
