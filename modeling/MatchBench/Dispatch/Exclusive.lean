import MatchBench.Dispatch.System

/-!
# One run at a time

A run is in flight from its dispatch until it has ended.  The status consumer dispatches
the next run of a group whenever it processes a message that says that a run of the group
has ended, and it does not look whether another run is in flight.  So a message that is
delivered again dispatches one run too many (`run_redelivered`).

`run_oneAtATime` says what is enough: when a message about an ended run is taken up, that
run is in flight, or it was dispatched and no run of its group is in flight.  Then at most
one run of a group is in flight, no run is dispatched twice, and the runs of a group are
dispatched in the order of their session ids.  This holds for any failures of the calls,
for restarts anywhere, and together with the recovery of the controller.
-/

namespace MatchBench.Dispatch

open List Option World

namespace World

variable (w : World)

def Dispatched (s : String) : Prop := ∃ m ∈ w.requested, m.sessionID = s
  deriving Decidable

/-- The sessions of the group that were dispatched, in this order. -/
def sessionsOf (g : String) : List String := (w.dispatchedOf g).map BenchmarkMeta.sessionID

/-- The run of the group was dispatched and has not ended. -/
def InFlight (g s : String) : Prop :=
  w.Dispatched s ∧ ∃ r, w.db.Has s r ∧ r.inGroup g = true ∧ terminalRunStatus r.status = false
  deriving Decidable

structure OneAtATime : Prop where
  one : ∀ g s s', w.InFlight g s → w.InFlight g s' → s = s'
  once : (w.requested.map BenchmarkMeta.sessionID).Nodup
  order : ∀ g, (w.sessionsOf g).Pairwise (· < ·)

end World

/-- The message says that a run has ended that is in flight, or that was dispatched when
none of the group is. -/
structure Delivery.Fresh (w : World) (d : Delivery) : Prop where
  known : ∃ r, w.db.Has d.msg.sessionID r ∧ r.inGroup d.msg.runGroupID = true
  dispatched : w.Dispatched d.msg.sessionID
  free : w.InFlight d.msg.runGroupID d.msg.sessionID ∨ ∀ s, ¬ w.InFlight d.msg.runGroupID s

/-- No message sets a run back, and those that say that a run of a group has ended are
fresh. -/
def Task.Timely (w : World) : Task → Prop
  | .update d => d.msg.status ≠ .requested ∧
      (d.msg.runGroupID ≠ "" → terminalRunStatus d.msg.status = true → d.Fresh w)
  | .idle | .lookup _ | .claim _ | .publish _ _ | .reset _ _ | .count _ | .write _ _
  | .commit _ _ => True

/-- The session ids of a benchmark are minted in increasing order, and the consumer takes up
its messages in time. -/
def Timely (w : World) : Event → Prop
  | .start _ _ _ children => (children.map Prod.fst).Pairwise (· < ·)
  | .taskStep _ => w.task.Timely w
  | .startStep _ _ | .report _ _ | .fetch _ | .restart | .recover | .listRuns _ _
  | .recoveryStep _ _ => True

theorem World.not_inFlight_iff (w : World) (g : String) :
    (∀ m ∈ w.requested, ¬ w.InFlight g m.sessionID) ↔ ∀ s, ¬ w.InFlight g s := by
  refine ⟨fun h s hf => ?_, fun h m _ => h m.sessionID⟩
  obtain ⟨m, hm, rfl⟩ := hf.1
  exact h m hm hf

instance (w : World) (d : Delivery) : Decidable (d.Fresh w) :=
  have := decidable_of_iff _ (w.not_inFlight_iff d.msg.runGroupID)
  decidable_of_iff
    ((∃ r, w.db.Has d.msg.sessionID r ∧ r.inGroup d.msg.runGroupID = true) ∧
      w.Dispatched d.msg.sessionID ∧
      (w.InFlight d.msg.runGroupID d.msg.sessionID ∨ ∀ s, ¬ w.InFlight d.msg.runGroupID s))
    ⟨fun h => ⟨h.1, h.2.1, h.2.2⟩, fun h => ⟨h.known, h.dispatched, h.free⟩⟩

instance (w : World) : ∀ t : Task, Decidable (t.Timely w)
  | .update _ => inferInstanceAs (Decidable (_ ∧ _))
  | .idle | .lookup _ | .claim _ | .publish _ _ | .reset _ _ | .count _ | .write _ _
  | .commit _ _ => inferInstanceAs (Decidable True)

instance (w : World) : ∀ e : Event, Decidable (Timely w e)
  | .start _ _ _ children =>
      inferInstanceAs (Decidable ((children.map Prod.fst).Pairwise (· < ·)))
  | .taskStep _ => inferInstanceAs (Decidable (w.task.Timely w))
  | .startStep _ _ | .report _ _ | .fetch _ | .restart | .recover | .listRuns _ _
  | .recoveryStep _ _ => inferInstanceAs (Decidable True)

/-! ### The invariant -/

namespace World

variable (w : World)

/-- What was dispatched of the group is before the session. -/
def Before (g s : String) : Prop := ∀ d ∈ w.sessionsOf g, d < s

/-- The run can be dispatched: it is after all that were, and before all that wait. -/
structure Next (m : BenchmarkMeta) : Prop where
  claimed : ∃ r, w.db.Has m.sessionID r ∧ r.inGroup m.runGroupID = true ∧ r.status ≠ .requested
  after : w.Before m.runGroupID m.sessionID
  first : ∀ s r, w.db.Has s r → r.inGroup m.runGroupID = true → r.status = .requested →
    m.sessionID < s

/-- No run of the group is in flight, nor is its first one about to be dispatched. -/
structure Free (g : String) : Prop where
  known : w.db.groups.lookup g ≠ none
  flight : ∀ s, ¬ w.InFlight g s
  start : ∀ (i : Nat) (q : StartRequest), w.starts[i]? = some (.publish q) → q.runGroupID ≠ g

end World

/-- The sessions of a group that is still to be inserted are in order. -/
def Start.Minted : Start → Prop
  | .find q | .insert q => ((q.first :: q.rest).map Prod.fst).Pairwise (· < ·)
  | .findAgain _ | .publish _ | .answered _ => True

/-- What holds of the tables, the topic and the requests. -/
structure Orderly (w : World) : Prop where
  known : ∀ m ∈ w.requested, ∃ r, w.db.Has m.sessionID r ∧ r.inGroup m.runGroupID = true
  grouped : ∀ s r g, w.db.Has s r → r.inGroup g = true → w.db.groups.lookup g ≠ none
  oneAtATime : w.OneAtATime
  behind : ∀ g s r, w.db.Has s r → r.inGroup g = true → r.status = .requested → w.Before g s
  minted : ∀ (i : Nat) (s : Start), w.starts[i]? = some s → s.Minted
  starts : ∀ (i : Nat) (q : StartRequest), w.starts[i]? = some (.publish q) →
    w.sessionsOf q.runGroupID = [] ∧ w.Next q.benchmark
  alone : ∀ (i j : Nat) (q q' : StartRequest), w.starts[i]? = some (.publish q) →
    w.starts[j]? = some (.publish q') → q.runGroupID = q'.runGroupID → i = j

/-- What holds where the consumer stands. -/
def Task.Ready (w : World) : Task → Prop
  | .lookup d => d.msg.runGroupID ≠ "" → terminalRunStatus d.msg.status = true →
      w.Free d.msg.runGroupID
  | .claim d => w.Free d.msg.runGroupID
  | .publish d next | .reset d next =>
      next.runGroupID = d.msg.runGroupID ∧ w.Free d.msg.runGroupID ∧ w.Next next
  | .idle | .update _ | .count _ | .write _ _ | .commit _ _ => True

/-! ### Steps that only move runs on -/

/-- The requests that are about to publish were so before. -/
def SamePending (w w' : World) : Prop :=
  ∀ (i : Nat) (q : StartRequest), w'.starts[i]? = some (.publish q) → w.starts[i]? = some (.publish q)

theorem SamePending.of_eq {w w' : World} (h : w'.starts = w.starts) : SamePending w w' :=
  fun _ _ hq => h ▸ hq

/-- From one world to the next nothing is dispatched, runs are not set back, and those that
have ended stay so. -/
structure Moves (w w' : World) : Prop where
  requested : w'.requested = w.requested
  pending : SamePending w w'
  groups : ∀ g, w.db.groups.lookup g ≠ none → w'.db.groups.lookup g ≠ none
  back : ∀ s r', w'.db.Has s r' → ∃ r, w.db.Has s r ∧ r.runGroupID = r'.runGroupID ∧
    (r'.status = .requested → r.status = .requested) ∧
    (terminalRunStatus r'.status = false → terminalRunStatus r.status = false)
  forth : ∀ s r, w.db.Has s r → ∃ r', w'.db.Has s r' ∧ r'.runGroupID = r.runGroupID

theorem RunMeta.inGroup_congr {r r' : RunMeta} (h : r.runGroupID = r'.runGroupID) (g : String) :
    r.inGroup g = r'.inGroup g := by
  rw [RunMeta.inGroup, h, RunMeta.inGroup]

variable {r : RunMeta} {g s : String} {i : Nat} {q : StartRequest}

theorem RunMeta.inGroup_unique {g g' : String} (h : r.inGroup g = true)
    (h' : r.inGroup g' = true) : g = g' := by
  rw [RunMeta.inGroup, decide_eq_true_iff] at h h'
  exact some.inj (h.symm.trans h')

namespace Moves

variable {status : RunStatus} {w w' : World}

theorem of_eq (hdb : w'.db = w.db) (hr : w'.requested = w.requested) (hs : SamePending w w') :
    Moves w w' where
  requested := hr
  pending := hs
  groups g h := by rwa [hdb]
  back s r' h := ⟨r', hdb ▸ h, rfl, id, id⟩
  forth s r h := ⟨r, hdb ▸ h, rfl⟩

variable {s : String}

theorem setRun (h : w.db.Has s r)
    (hdb : w'.db = w.db.setRun s { r with status := status }) (hr : w'.requested = w.requested)
    (hs : SamePending w w') (hreq : status = .requested → r.status = .requested)
    (hend : terminalRunStatus r.status = false) : Moves w w' where
  requested := hr
  pending := hs
  groups g hg := by rwa [hdb]
  back s' r' h' := by
    rw [hdb] at h'
    rcases Tables.has_setRun.mp h' with ⟨rfl, rfl⟩ | ⟨_, h'⟩
    · exact ⟨r, h, rfl, hreq, fun _ => hend⟩
    · exact ⟨r', h', rfl, id, id⟩
  forth s' r' h' := by
    rw [hdb]
    by_cases he : s' = s
    · subst he
      obtain rfl := Tables.Has.unique h h'
      exact ⟨_, Tables.has_setRun.mpr (.inl ⟨rfl, rfl⟩), rfl⟩
    · exact ⟨r', Tables.has_setRun.mpr (.inr ⟨he, h'⟩), rfl⟩

theorem updateRunStatus (s : String) (hne : status ≠ .requested)
    (hdb : w'.db = (w.db.updateRunStatus s status).1) (hr : w'.requested = w.requested)
    (hs : SamePending w w') : Moves w w' := by
  rcases w.db.updateRunStatus_cases s status with ⟨he, _⟩ | ⟨r, h, hend, he⟩
  · exact .of_eq (by rw [hdb, he]) hr hs
  · exact .setRun h (by rw [hdb, he]) hr hs (fun hc => absurd hc hne) hend

theorem setRunGroupStatus (hdb : w'.db = w.db.setRunGroupStatus g status)
    (hr : w'.requested = w.requested) (hs : SamePending w w') : Moves w w' where
  requested := hr
  pending := hs
  groups g' hg := by
    rw [hdb]
    exact Tables.lookup_setRunGroupStatus status hg
  back s r' h := by
    rw [hdb, Tables.Has, Tables.runs_setRunGroupStatus] at h
    exact ⟨r', h, rfl, id, id⟩
  forth s r h := by
    refine ⟨r, ?_, rfl⟩
    rwa [hdb, Tables.Has, Tables.runs_setRunGroupStatus]

variable {w w' : World} (hm : Moves w w')

include hm

theorem dispatched : w'.Dispatched s ↔ w.Dispatched s := by
  rw [World.Dispatched, hm.requested, World.Dispatched]

theorem sessionsOf (g : String) : w'.sessionsOf g = w.sessionsOf g := by
  rw [World.sessionsOf, World.dispatchedOf, hm.requested, World.sessionsOf, World.dispatchedOf]

theorem inFlight (h : w'.InFlight g s) : w.InFlight g s := by
  obtain ⟨hd, r', hr', hg, hend⟩ := h
  obtain ⟨r, hr, hgroup, _, hback⟩ := hm.back s r' hr'
  exact ⟨hm.dispatched.mp hd, r, hr, (RunMeta.inGroup_congr hgroup g).trans hg, hback hend⟩

theorem before (h : w.Before g s) : w'.Before g s := by
  rw [World.Before, hm.sessionsOf]
  exact h

theorem next {m : BenchmarkMeta} (h : w.Next m) : w'.Next m where
  claimed := by
    obtain ⟨r, hr, hg, hne⟩ := h.claimed
    obtain ⟨r', hr', hgroup⟩ := hm.forth _ r hr
    refine ⟨r', hr', (RunMeta.inGroup_congr hgroup _).trans hg, fun hc => hne ?_⟩
    obtain ⟨r₀, hr₀, _, hback, _⟩ := hm.back _ r' hr'
    exact Tables.Has.unique hr₀ hr ▸ hback hc
  after := hm.before h.after
  first s r' hr' hg hs := by
    obtain ⟨r, hr, hgroup, hback, _⟩ := hm.back s r' hr'
    exact h.first s r hr ((RunMeta.inGroup_congr hgroup _).trans hg) (hback hs)

theorem free (h : w.Free g) : w'.Free g where
  known := hm.groups g h.known
  flight s hs := h.flight s (hm.inFlight hs)
  start i q hq := h.start i q (hm.pending i q hq)

theorem orderly (h : Orderly w)
    (hminted : ∀ (i : Nat) (s : Start), w'.starts[i]? = some s → s.Minted) : Orderly w' where
  known m hmem := by
    obtain ⟨r, hr, hg⟩ := h.known m (hm.requested ▸ hmem)
    obtain ⟨r', hr', hgroup⟩ := hm.forth _ r hr
    exact ⟨r', hr', (RunMeta.inGroup_congr hgroup _).trans hg⟩
  grouped s r' g hr' hg := by
    obtain ⟨r, hr, hgroup, _⟩ := hm.back s r' hr'
    exact hm.groups g (h.grouped s r g hr ((RunMeta.inGroup_congr hgroup _).trans hg))
  oneAtATime :=
    { one := fun g s s' hs hs' => h.oneAtATime.one g s s' (hm.inFlight hs) (hm.inFlight hs')
      once := hm.requested ▸ h.oneAtATime.once
      order := fun g => hm.sessionsOf g ▸ h.oneAtATime.order g }
  behind g s r' hr' hg hs := by
    obtain ⟨r, hr, hgroup, hback, _⟩ := hm.back s r' hr'
    exact hm.before (h.behind g s r hr ((RunMeta.inGroup_congr hgroup _).trans hg) (hback hs))
  minted := hminted
  starts i q hq := by
    obtain ⟨hnil, hnext⟩ := h.starts i q (hm.pending i q hq)
    exact ⟨(hm.sessionsOf _).trans hnil, hm.next hnext⟩
  alone i j q q' hq hq' := h.alone i j q q' (hm.pending i q hq) (hm.pending j q' hq')

theorem ready {t : Task} (h : t.Ready w) : t.Ready w' := by
  cases t with
  | lookup d => exact fun hne hend => hm.free (h hne hend)
  | claim d => exact hm.free h
  | publish d next | reset d next => exact ⟨h.1, hm.free h.2.1, hm.next h.2.2⟩
  | idle | update d | count d | write d status | commit partition offset => trivial

end Moves

/-! ### The dispatch of a run -/

variable {w : World}

theorem World.mem_sessionsOf :
    s ∈ w.sessionsOf g ↔ ∃ m ∈ w.requested, m.runGroupID = g ∧ m.sessionID = s := by
  rw [sessionsOf, dispatchedOf, List.mem_map]
  simp [mem_filter, decide_eq_true_eq, and_assoc]

theorem Orderly.mem_sessionsOf (h : Orderly w) (hd : w.Dispatched s)
    (hr : w.db.Has s r) (hg : r.inGroup g = true) : s ∈ w.sessionsOf g := by
  obtain ⟨m, hm, rfl⟩ := hd
  obtain ⟨r', hr', hg'⟩ := h.known m hm
  obtain rfl := Tables.Has.unique hr hr'
  exact mem_sessionsOf.mpr ⟨m, hm, RunMeta.inGroup_unique hg' hg, rfl⟩

section

variable {w w' : World} {m : BenchmarkMeta} (hdb : w'.db = w.db)
  (hr : w'.requested = w.requested ++ [m])

include hr

theorem sessionsOf_publish (g : String) :
    w'.sessionsOf g = w.sessionsOf g ++ if m.runGroupID = g then [m.sessionID] else [] := by
  rw [sessionsOf, dispatchedOf, hr, filter_append, map_append, sessionsOf, dispatchedOf]
  congr 1
  by_cases h : m.runGroupID = g
  · rw [if_pos h, filter_cons_of_pos (by simpa using h)]
    rfl
  · rw [if_neg h, filter_cons_of_neg (by simpa using h)]
    rfl

theorem sessionsOf_publish_of_ne (h : m.runGroupID ≠ g) : w'.sessionsOf g = w.sessionsOf g := by
  rw [sessionsOf_publish hr, if_neg h, append_nil]

include hdb

theorem inFlight_publish (hnext : w.Next m) (h : w'.InFlight g s) :
    w.InFlight g s ∨ s = m.sessionID ∧ m.runGroupID = g := by
  obtain ⟨⟨m', hm', rfl⟩, r, hrow, hg, hend⟩ := h
  rw [hdb] at hrow
  rw [hr] at hm'
  rcases mem_append.mp hm' with hm' | hm'
  · exact .inl ⟨⟨m', hm', rfl⟩, r, hrow, hg, hend⟩
  obtain rfl := mem_singleton.mp hm'
  obtain ⟨r', hr', hg', _⟩ := hnext.claimed
  obtain rfl := Tables.Has.unique hrow hr'
  exact .inr ⟨rfl, RunMeta.inGroup_unique hg' hg⟩

theorem World.Next.publish {m' : BenchmarkMeta} (h : w.Next m') (hne : m.runGroupID ≠ m'.runGroupID) :
    w'.Next m' where
  claimed := hdb ▸ h.claimed
  after := by
    rw [World.Before, sessionsOf_publish_of_ne hr hne]
    exact h.after
  first := hdb ▸ h.first

theorem World.Free.publish (h : w.Free g) (hnext : w.Next m) (hne : m.runGroupID ≠ g)
    (hstarts : SamePending w w') : w'.Free g where
  known := hdb ▸ h.known
  flight s hs := (inFlight_publish hdb hr hnext hs).elim (h.flight s) (fun he => hne he.2)
  start i q hq := h.start i q (hstarts i q hq)

/-- **A run is dispatched** when none of its group is in flight. -/
theorem Orderly.publish (h : Orderly w) (hnext : w.Next m)
    (hflight : ∀ s, ¬ w.InFlight m.runGroupID s)
    (hstarts : ∀ (i : Nat) (q : StartRequest), w'.starts[i]? = some (.publish q) →
      w.starts[i]? = some (.publish q) ∧ m.runGroupID ≠ q.runGroupID)
    (hminted : ∀ (i : Nat) (s : Start), w'.starts[i]? = some s → s.Minted) : Orderly w' where
  known m' hm' := by
    rw [hr] at hm'
    rw [hdb]
    rcases mem_append.mp hm' with hm' | hm'
    · exact h.known m' hm'
    · obtain rfl := mem_singleton.mp hm'
      obtain ⟨r, hrow, hg, _⟩ := hnext.claimed
      exact ⟨r, hrow, hg⟩
  grouped := hdb ▸ h.grouped
  oneAtATime :=
    { one := by
        intro g s s' hs hs'
        rcases inFlight_publish hdb hr hnext hs with hs | ⟨rfl, rfl⟩
        · rcases inFlight_publish hdb hr hnext hs' with hs' | ⟨rfl, rfl⟩
          · exact h.oneAtATime.one g s s' hs hs'
          · exact absurd hs (hflight s)
        · rcases inFlight_publish hdb hr hnext hs' with hs' | ⟨rfl, _⟩
          · exact absurd hs' (hflight s')
          · rfl
      once := by
        rw [hr, map_append]
        refine h.oneAtATime.once.append (nodup_singleton _) ?_
        intro s hs hs'
        obtain rfl := mem_singleton.mp hs'
        obtain ⟨m', hm', he⟩ := List.mem_map.mp hs
        obtain ⟨r, hrow, hg, _⟩ := hnext.claimed
        exact lt_irrefl _ (hnext.after _ (h.mem_sessionsOf ⟨m', hm', he⟩ hrow hg))
      order := by
        intro g
        rw [sessionsOf_publish hr]
        split
        next he =>
          subst he
          refine pairwise_append.mpr ⟨h.oneAtATime.order _, pairwise_singleton _ _, ?_⟩
          intro s hs s' hs'
          obtain rfl := mem_singleton.mp hs'
          exact hnext.after s hs
        · rw [append_nil]
          exact h.oneAtATime.order g }
  behind g s r hrow hg hreq := by
    rw [hdb] at hrow
    rw [World.Before, sessionsOf_publish hr]
    intro d hd
    rcases mem_append.mp hd with hold | hnew
    · exact h.behind g s r hrow hg hreq d hold
    split at hnew
    next he =>
      subst he
      obtain rfl := mem_singleton.mp hnew
      exact hnext.first s r hrow hg hreq
    · cases hnew
  minted := hminted
  starts i q hq := by
    obtain ⟨hq, hne⟩ := hstarts i q hq
    obtain ⟨hnil, hn⟩ := h.starts i q hq
    exact ⟨(sessionsOf_publish_of_ne hr hne).trans hnil, hn.publish hdb hr hne⟩
  alone i j q q' hq hq' := h.alone i j q q' (hstarts i q hq).1 (hstarts j q' hq').1

end

/-! ### The requests -/

theorem World.getElem?_setStart {i j : Nat} {s t : Start} (h : (w.setStart i s).starts[j]? = some t) :
    j = i ∧ t = s ∨ j ≠ i ∧ w.starts[j]? = some t := by
  rw [setStart, getElem?_set] at h
  split at h
  next he =>
    split at h
    · exact .inl ⟨he.symm, (some.inj h).symm⟩
    · cases h
  next he =>
    exact .inr ⟨fun hc => he hc.symm, h⟩

theorem World.getElem?_addStart {i : Nat} {s t : Start} (h : (w.starts ++ [s])[i]? = some t) :
    w.starts[i]? = some t ∨ t = s := by
  rw [getElem?_append] at h
  split at h
  · exact .inl h
  · exact .inr (mem_singleton.mp (mem_of_getElem? h))

theorem World.alone_setStart {key : StartRequest → String}
    (hnew : ∀ (j : Nat) (q' : StartRequest), w.starts[j]? = some (.publish q') → key q' ≠ key q)
    (halone : ∀ (j k : Nat) (q₁ q₂ : StartRequest), w.starts[j]? = some (.publish q₁) →
      w.starts[k]? = some (.publish q₂) → key q₁ = key q₂ → j = k)
    {j k : Nat} {q₁ q₂ : StartRequest}
    (h₁ : (w.setStart i (.publish q)).starts[j]? = some (.publish q₁))
    (h₂ : (w.setStart i (.publish q)).starts[k]? = some (.publish q₂)) (he : key q₁ = key q₂) :
    j = k := by
  rcases getElem?_setStart h₁ with ⟨hj, he₁⟩ | ⟨_, hold₁⟩
  · obtain rfl := Start.publish.inj he₁
    rcases getElem?_setStart h₂ with ⟨hk, _⟩ | ⟨_, hold₂⟩
    · exact hj.trans hk.symm
    · exact absurd he.symm (hnew k q₂ hold₂)
  · rcases getElem?_setStart h₂ with ⟨_, he₂⟩ | ⟨_, hold₂⟩
    · obtain rfl := Start.publish.inj he₂
      exact absurd he (hnew j q₁ hold₁)
    · exact halone j k q₁ q₂ hold₁ hold₂ he

section

variable {w : World} {i : Nat} {q : StartRequest} {db : Tables} {r : RunMeta}

theorem StartRequest.mem_children (h : (s, r) ∈ q.children) :
    r.inGroup q.runGroupID = true ∧ (r.status = .requested → ∃ c ∈ q.rest, c.1 = s) := by
  rcases mem_cons.mp h with h | h
  · obtain ⟨rfl, rfl⟩ := Prod.mk.inj h
    exact ⟨decide_eq_true rfl, fun hc => RunStatus.noConfusion hc⟩
  · obtain ⟨c, hc, he⟩ := List.mem_map.mp h
    obtain ⟨rfl, rfl⟩ := Prod.mk.inj he
    exact ⟨decide_eq_true rfl, fun _ => ⟨c, hc, rfl⟩⟩

variable (h : Orderly w) (hs : w.starts[i]? = some (.insert q))
  (hdb : w.db.insertRunGroupWithChildren q.runGroupID q.group q.children = .ok db)

include hdb

theorem has_of_insert (hr : db.Has s r) (hg : r.inGroup g = true)
    (hne : q.runGroupID ≠ g) : w.db.Has s r := by
  obtain ⟨_, _, _, _, hhas⟩ := Tables.insertRunGroupWithChildren_eq_ok hdb
  refine ((hhas s r).mp hr).resolve_right fun hc => hne ?_
  exact RunMeta.inGroup_unique (StartRequest.mem_children hc).1 hg

theorem lookup_of_insert (hg : w.db.groups.lookup g ≠ none) :
    q.runGroupID ≠ g ∧ db.groups.lookup g ≠ none := by
  obtain ⟨hnone, hgroups, _⟩ := Tables.insertRunGroupWithChildren_eq_ok hdb
  have hne : q.runGroupID ≠ g := fun he => hg (he ▸ hnone)
  rw [hgroups, AList.lookup_insert_ne hne.symm]
  exact ⟨hne, hg⟩

theorem grouped_of_insert
    (hold : ∀ s r g, w.db.Has s r → r.inGroup g = true → w.db.groups.lookup g ≠ none)
    (hr : db.Has s r) (hg : r.inGroup g = true) : db.groups.lookup g ≠ none := by
  obtain ⟨_, hgroups, _, _, hhas⟩ := Tables.insertRunGroupWithChildren_eq_ok hdb
  rcases (hhas s r).mp hr with hr | hr
  · exact (lookup_of_insert hdb (hold s r g hr hg)).2
  · obtain rfl := RunMeta.inGroup_unique (StartRequest.mem_children hr).1 hg
    rw [hgroups, AList.lookup_insert]
    exact some_ne_none _

include h

theorem Orderly.not_inGroup (hr : w.db.Has s r) : ¬ r.inGroup q.runGroupID = true := fun hg =>
  h.grouped s r _ hr hg (Tables.insertRunGroupWithChildren_eq_ok hdb).1

theorem Orderly.sessionsOf_insert : w.sessionsOf q.runGroupID = [] := by
  refine eq_nil_iff_forall_not_mem.mpr fun s hmem => ?_
  obtain ⟨m, hm, hg, _⟩ := World.mem_sessionsOf.mp hmem
  obtain ⟨r, hr, hrg⟩ := h.known m hm
  exact h.not_inGroup hdb hr (hg ▸ hrg)

variable {s : Start}

theorem Orderly.inFlight_insert {g t : String}
    (hf : ((w.setTables db).setStart i s).InFlight g t) : w.InFlight g t := by
  obtain ⟨⟨m, hm, rfl⟩, r, hr, hg, hend⟩ := hf
  obtain ⟨_, _, _, _, hhas⟩ := Tables.insertRunGroupWithChildren_eq_ok hdb
  obtain ⟨r', hr', _⟩ := h.known m hm
  have hkept : db.Has m.sessionID r' := (hhas _ _).mpr (.inl hr')
  obtain rfl := hkept.unique hr
  exact ⟨⟨m, hm, rfl⟩, r', hr', hg, hend⟩

theorem Orderly.next_insert {m : BenchmarkMeta} (hm : w.Next m) :
    q.runGroupID ≠ m.runGroupID ∧ ((w.setTables db).setStart i s).Next m := by
  obtain ⟨_, _, _, _, hhas⟩ := Tables.insertRunGroupWithChildren_eq_ok hdb
  obtain ⟨r, hr, hg, hne⟩ := hm.claimed
  have hother : q.runGroupID ≠ m.runGroupID := fun he => h.not_inGroup hdb hr (he ▸ hg)
  exact ⟨hother, ⟨r, (hhas _ _).mpr (.inl hr), hg, hne⟩, hm.after,
    fun s r hr hg => hm.first s r (has_of_insert hdb hr hg hother) hg⟩

theorem Orderly.ready_insert {t : Task} (ht : t.Ready w) :
    t.Ready ((w.setTables db).setStart i (.publish q)) := by
  have hfree : ∀ {g}, w.Free g → ((w.setTables db).setStart i (.publish q)).Free g := by
    intro g hg
    obtain ⟨hne, hknown⟩ := lookup_of_insert hdb hg.known
    refine ⟨hknown, fun s hf => hg.flight s (h.inFlight_insert hdb hf), fun j q' hq' => ?_⟩
    rcases getElem?_setStart hq' with ⟨_, he⟩ | ⟨_, hq'⟩
    · exact Start.publish.inj he ▸ hne
    · exact hg.start j q' hq'
  cases t with
  | lookup d => exact fun hne hend => hfree (ht hne hend)
  | claim d => exact hfree ht
  | publish d next | reset d next => exact ⟨ht.1, hfree ht.2.1, (h.next_insert hdb ht.2.2).2⟩
  | idle | update d | count d | write d status | commit partition offset => trivial

include hs

/-- **A group is inserted** with its runs, of which the first comes next. -/
theorem Orderly.insert : Orderly ((w.setTables db).setStart i (.publish q)) := by
  obtain ⟨hnone, hgroups, _, _, hhas⟩ := Tables.insertRunGroupWithChildren_eq_ok hdb
  have hnil := h.sessionsOf_insert hdb
  have hbefore : ∀ t, w.Before q.runGroupID t := by
    intro t d hd
    rw [hnil] at hd
    cases hd
  have hnext : ((w.setTables db).setStart i (.publish q)).Next q.benchmark := by
    refine ⟨⟨_, (hhas _ _).mpr (.inr (.head _)), decide_eq_true rfl,
      fun hc => RunStatus.noConfusion hc⟩, hbefore _, fun s r hr hg hreq => ?_⟩
    rcases (hhas s r).mp hr with hr | hr
    · exact absurd hg (h.not_inGroup hdb hr)
    · obtain ⟨c, hc, rfl⟩ := (StartRequest.mem_children hr).2 hreq
      exact rel_of_pairwise_cons (h.minted i _ hs) (List.mem_map_of_mem hc)
  constructor
  case known =>
    intro m hm
    obtain ⟨r, hr, hg⟩ := h.known m hm
    exact ⟨r, (hhas _ _).mpr (.inl hr), hg⟩
  case grouped => exact fun s r g hr hg => grouped_of_insert hdb h.grouped hr hg
  case oneAtATime =>
    exact ⟨fun g s s' hf hf' => h.oneAtATime.one g s s' (h.inFlight_insert hdb hf)
      (h.inFlight_insert hdb hf'), h.oneAtATime.once, h.oneAtATime.order⟩
  case behind =>
    intro g s r hr hg hreq
    by_cases hne : q.runGroupID = g
    · subst hne
      exact hbefore s
    · exact h.behind g s r (has_of_insert hdb hr hg hne) hg hreq
  case minted =>
    intro j t ht
    rcases getElem?_setStart ht with ⟨_, rfl⟩ | ⟨_, ht⟩
    · trivial
    · exact h.minted j t ht
  case starts =>
    intro j q' hq'
    rcases getElem?_setStart hq' with ⟨_, he⟩ | ⟨_, hq'⟩
    · obtain rfl := Start.publish.inj he
      exact ⟨hnil, hnext⟩
    · exact ⟨(h.starts j q' hq').1, (h.next_insert hdb (h.starts j q' hq').2).2⟩
  case alone =>
    have hother : ∀ (j : Nat) (q' : StartRequest), w.starts[j]? = some (.publish q') →
        q'.runGroupID ≠ q.runGroupID := fun j q' hq' =>
      (h.next_insert (s := .publish q) (i := i) hdb (h.starts j q' hq').2).1.symm
    exact fun j k q₁ q₂ h₁ h₂ he => alone_setStart hother h.alone h₁ h₂ he

end

/-! ### Steps -/

/-- The invariant of the dispatch. -/
structure Sequential (w : World) : Prop where
  orderly : Orderly w
  ready : w.task.Ready w

namespace Sequential

variable {w w' : World}

theorem moves (h : Sequential w) (hm : Moves w w') (ht : w'.task = w.task)
    (hminted : ∀ (i : Nat) (s : Start), w'.starts[i]? = some s → s.Minted) : Sequential w' :=
  ⟨hm.orderly h.orderly hminted, ht ▸ hm.ready h.ready⟩

theorem moves_task (h : Sequential w) (hm : Moves w w') (hs : w'.starts = w.starts)
    (hready : w'.task.Ready w') : Sequential w' :=
  ⟨hm.orderly h.orderly (fun i s hi => h.orderly.minted i s (hs ▸ hi)), hready⟩

theorem setStart (h : Sequential w) (i : Nat) {s : Start} (hs : ∀ q, s ≠ .publish q)
    (hm : s.Minted) : Sequential (w.setStart i s) := by
  refine h.moves (.of_eq rfl rfl fun j q hq => ?_) rfl fun j t ht => ?_
  · exact (getElem?_setStart hq).elim (fun he => absurd he.2.symm (hs q)) And.right
  · rcases getElem?_setStart ht with ⟨_, rfl⟩ | ⟨_, ht⟩
    · exact hm
    · exact h.orderly.minted j t ht

theorem publishFirst (h : Sequential w) {a : Answer}
    (hs : w.starts[i]? = some (.publish q)) (hdb : w'.db = w.db)
    (hr : w'.requested = w.requested ++ [q.benchmark])
    (hstarts : w'.starts = w.starts.set i (.answered a)) (ht : w'.task = w.task) :
    Sequential w' := by
  obtain ⟨hnil, hnext⟩ := h.orderly.starts i q hs
  have hset : ∀ {j : Nat} {t : Start}, w'.starts[j]? = some t →
      j = i ∧ t = .answered a ∨ j ≠ i ∧ w.starts[j]? = some t := by
    intro j t hj
    rw [hstarts] at hj
    exact getElem?_setStart hj
  have hpending : ∀ (j : Nat) (q' : StartRequest), w'.starts[j]? = some (.publish q') →
      w.starts[j]? = some (.publish q') ∧ q.runGroupID ≠ q'.runGroupID := by
    intro j q' hq'
    rcases hset hq' with ⟨_, he⟩ | ⟨hne, hold⟩
    · exact Start.noConfusion he
    · exact ⟨hold, fun he => hne (h.orderly.alone j i q' q hold hs he.symm)⟩
  have hfree : ∀ {g}, w.Free g → w'.Free g := fun hg =>
    hg.publish hdb hr hnext (hg.start i q hs) (fun j q' hq' => (hpending j q' hq').1)
  constructor
  · refine h.orderly.publish hdb hr hnext (fun s hf => ?_) hpending fun j t hj => ?_
    · obtain ⟨hd, r, hrow, hg, _⟩ := hf
      have hmem : s ∈ w.sessionsOf q.runGroupID := h.orderly.mem_sessionsOf hd hrow hg
      rw [hnil] at hmem
      cases hmem
    · rcases hset hj with ⟨_, rfl⟩ | ⟨_, hold⟩
      · trivial
      · exact h.orderly.minted j t hold
  have hready := h.ready
  rw [ht]
  generalize w.task = t at hready
  cases t with
  | lookup d => exact fun hne hend => hfree (hready hne hend)
  | claim d => exact hfree hready
  | publish d next | reset d next =>
    exact ⟨hready.1, hfree hready.2.1,
      hready.2.2.publish hdb hr (hready.1 ▸ hready.2.1.start i q hs)⟩
  | idle | update d | count d | write d status | commit partition offset => trivial

theorem startStep (h : Sequential w) (i : Nat) (ok : Bool) : Sequential (w.startStep i ok) := by
  have hstep := startStep_cases w i ok
  generalize w.startStep i ok = w' at hstep ⊢
  cases hstep with
  | stay => exact h
  | move _ s s' hs _ hq' hf hi =>
    refine h.setStart i hq' ?_
    cases s' with
    | find q => exact absurd rfl (hf q)
    | insert q =>
      obtain rfl := hi q rfl
      have hminted := h.orderly.minted i _ hs
      exact hminted
    | findAgain q | publish q | answered a => trivial
  | insert q db hs hdb =>
    exact ⟨h.orderly.insert hs hdb, h.orderly.ready_insert hdb h.ready⟩
  | publish q a hs => exact h.publishFirst (a := a) hs rfl rfl rfl rfl
  | fail q a hs => exact h.setStart i nofun trivial

theorem leave (h : Sequential w) (d : Delivery) : Sequential (w.leave d) :=
  h.moves_task (.of_eq rfl rfl (.of_eq rfl)) rfl trivial

variable {d : Delivery}

/-- **A fresh message frees its group**: once its run has ended, none of the group is in
flight. -/
theorem free_update (h : Sequential w) (hfresh : d.Fresh w) (hm : Moves w w')
    (hrow : ∀ r, w'.db.Has d.msg.sessionID r → terminalRunStatus r.status = true) :
    w'.Free d.msg.runGroupID := by
  obtain ⟨r, hr, hg⟩ := hfresh.known
  refine ⟨hm.groups _ (h.orderly.grouped _ r _ hr hg), fun s hf => ?_, fun i q hq he => ?_⟩
  · rcases hfresh.free with hflight | hfree
    · obtain rfl := h.orderly.oneAtATime.one _ s _ (hm.inFlight hf) hflight
      obtain ⟨_, r', hr', _, hend'⟩ := hf
      exact absurd (hrow r' hr') (by rw [hend']; exact Bool.false_ne_true)
    · exact hfree s (hm.inFlight hf)
  · have hmem := h.orderly.mem_sessionsOf hfresh.dispatched hr hg
    rw [← he, (h.orderly.starts i q (hm.pending i q hq)).1] at hmem
    cases hmem

theorem ready_updated (hfree : d.msg.runGroupID ≠ "" →
    terminalRunStatus d.msg.status = true → w.Free d.msg.runGroupID) : d.updated.Ready w := by
  rw [Delivery.updated]
  split
  · trivial
  next hne =>
    split
    next hend =>
      exact hfree hne hend
    · trivial

theorem reset (h : Sequential w) {next : BenchmarkMeta}
    (ht : w.task = .reset d next) (hr : w.db.Has next.sessionID r)
    (hend : terminalRunStatus r.status = false) :
    Sequential ((w.setTables (w.db.setRun next.sessionID { r with status := .requested })).leave d) := by
  have hready := h.ready
  rw [ht] at hready
  obtain ⟨hgroup, hfree, hnext⟩ := hready
  obtain ⟨r₀, hr₀, hg₀, _⟩ := hnext.claimed
  obtain rfl := Tables.Has.unique hr hr₀
  have hback : ∀ s r', (w.db.setRun next.sessionID { r with status := .requested }).Has s r' →
      s = next.sessionID ∧ r' = { r with status := .requested } ∨ w.db.Has s r' := fun s r' h' =>
    (Tables.has_setRun.mp h').imp id And.right
  have hflight : ∀ g s, World.InFlight
      ((w.setTables (w.db.setRun next.sessionID { r with status := .requested })).leave d) g s →
      w.InFlight g s := by
    rintro g s ⟨hd, r', hr', hg, hend'⟩
    rcases hback s r' hr' with ⟨rfl, rfl⟩ | hr'
    · exact ⟨hd, r, hr, hg, hend⟩
    · exact ⟨hd, r', hr', hg, hend'⟩
  -- the group is free, so no request is about to publish its first run
  have hother : ∀ (i : Nat) (q : StartRequest), w.starts[i]? = some (.publish q) →
      ¬ r.inGroup q.runGroupID = true := fun i q hq hg =>
    hfree.start i q hq ((RunMeta.inGroup_unique hg hg₀).trans hgroup)
  refine ⟨⟨?_, ?_, ⟨?_, h.orderly.oneAtATime.once, h.orderly.oneAtATime.order⟩, ?_,
    h.orderly.minted, ?_, h.orderly.alone⟩, trivial⟩
  · intro m hm
    obtain ⟨r', hr', hg'⟩ := h.orderly.known m hm
    by_cases he : m.sessionID = next.sessionID
    · rw [he] at hr' ⊢
      obtain rfl := Tables.Has.unique hr hr'
      exact ⟨_, Tables.has_setRun.mpr (.inl ⟨rfl, rfl⟩), hg'⟩
    · exact ⟨r', Tables.has_setRun.mpr (.inr ⟨he, hr'⟩), hg'⟩
  · intro s r' g hr' hg
    rcases hback s r' hr' with ⟨rfl, rfl⟩ | hr'
    · exact h.orderly.grouped _ r g hr hg
    · exact h.orderly.grouped s r' g hr' hg
  · exact fun g s s' hs hs' => h.orderly.oneAtATime.one g s s' (hflight g s hs) (hflight g s' hs')
  · intro g s r' hr' hg hreq
    rcases hback s r' hr' with ⟨rfl, rfl⟩ | hr'
    · exact RunMeta.inGroup_unique hg₀ hg ▸ hnext.after
    · exact h.orderly.behind g s r' hr' hg hreq
  intro i q hq
  obtain ⟨hnil, hnext'⟩ := h.orderly.starts i q hq
  obtain ⟨r', hr', hg', hne'⟩ := hnext'.claimed
  refine ⟨hnil, ⟨r', Tables.has_setRun.mpr (.inr ⟨fun he => ?_, hr'⟩), hg', hne'⟩, hnext'.after, ?_⟩
  · rw [he] at hr'
    exact hother i q hq (Tables.Has.unique hr hr' ▸ hg')
  intro s r'' hr'' hg'' hreq
  rcases hback s r'' hr'' with ⟨rfl, rfl⟩ | hr''
  · exact absurd hg'' (hother i q hq)
  · exact hnext'.first s r'' hr'' hg'' hreq

/-- **A call of the consumer.** -/
theorem taskStep (h : Sequential w) (ok : Bool) (htimely : w.task.Timely w) :
    Sequential (w.taskStep ok) := by
  have hready := h.ready
  have hsame : ∀ t, Moves w (w.setTask t) := fun t => .of_eq rfl rfl (.of_eq rfl)
  have hstep := taskStep_cases w ok
  generalize w.taskStep ok = w' at hstep ⊢
  cases hstep with
  | idle => exact h
  | leave d => exact h.leave d
  | update d r ht hr hend =>
    rw [ht] at htimely
    have hm : Moves w ((w.setTables
        (w.db.setRun d.msg.sessionID { r with status := d.msg.status })).setTask d.updated) :=
      .setRun hr rfl rfl (.of_eq rfl) (fun hc => absurd hc htimely.1) hend
    refine h.moves_task hm rfl (ready_updated fun hne hstatus => ?_)
    refine h.free_update (htimely.2 hne hstatus) hm fun r' hr' => ?_
    rcases Tables.has_setRun.mp hr' with ⟨_, rfl⟩ | ⟨hc, _⟩
    · exact hstatus
    · exact absurd rfl hc
  | noUpdate d ht hend =>
    rw [ht] at htimely
    exact h.moves_task (hsame _) rfl
      (fun hne hstatus => h.free_update (htimely.2 hne hstatus) (hsame _) hend)
  | ended d ht =>
    rw [ht] at hready
    exact h.moves_task (hsame _) rfl
      (ready_updated fun hne hstatus => (hsame _).free (hready hne hstatus))
  | unknown d ht => exact h.moves_task (hsame _) rfl trivial
  | claim d s r ht hr hg hreq hleast =>
    rw [ht] at hready
    have hm : Moves w ((w.setTables (w.db.setRun s { r with status := .queued })).setTask
        (.publish d ⟨s, r.submissionID, r.contestantID, d.msg.runGroupID, r.scenarioID⟩)) :=
      .setRun hr rfl rfl (.of_eq rfl) (fun hc => RunStatus.noConfusion hc) (by rw [hreq]; rfl)
    refine h.moves_task hm rfl ⟨rfl, hm.free hready, ?_, ?_, ?_⟩
    · exact ⟨_, Tables.has_setRun.mpr (.inl ⟨rfl, rfl⟩), hg, fun hc => RunStatus.noConfusion hc⟩
    · exact hm.before (h.orderly.behind _ s r hr hg hreq)
    intro s' r' hr' hg' hreq'
    rcases Tables.has_setRun.mp hr' with ⟨_, rfl⟩ | ⟨hne, hr'⟩
    · exact RunStatus.noConfusion hreq'
    · exact lt_of_le_of_ne (hleast s' r' hr' hg' hreq') hne.symm
  | noClaim d ht => exact h.moves_task (hsame _) rfl trivial
  | publish d next ht =>
    rw [ht] at hready
    obtain ⟨hgroup, hfree, hnext⟩ := hready
    have hreq : ((w.publishRequested next).setTask (.count d)).requested = w.requested ++ [next] := rfl
    have hdb : ((w.publishRequested next).setTask (.count d)).db = w.db := rfl
    refine ⟨h.orderly.publish hdb hreq hnext (hgroup ▸ hfree.flight) (fun i q hq => ⟨hq, ?_⟩)
      h.orderly.minted, trivial⟩
    rw [hgroup]
    exact (hfree.start i q hq).symm
  | noPublish d next ht =>
    rw [ht] at hready
    have hm := hsame (.reset d next)
    exact h.moves_task hm rfl ⟨hready.1, hm.free hready.2.1, hm.next hready.2.2⟩
  | reset d next r ht hr hend => exact h.reset ht hr hend
  | noReset d => exact h.leave d
  | count d | noCount d => exact h.moves_task (hsame _) rfl trivial
  | write d status => exact h.moves_task (.setRunGroupStatus rfl rfl (.of_eq rfl)) rfl trivial
  | noWrite d status => exact h.moves_task (hsame _) rfl trivial
  | commit partition offset => exact h.moves_task (.of_eq rfl rfl (.of_eq rfl)) rfl trivial

theorem fetch (h : Sequential w) (partition : Nat) : Sequential (w.fetch partition) := by
  rw [World.fetch]
  split
  · refine h.moves_task (.of_eq rfl rfl (.of_eq rfl)) rfl ?_
    rw [World.setTask]
    split
    · split <;> trivial
    · trivial
  · exact h

theorem recoveryStep (h : Sequential w) (ok : Bool) (partition : Nat) :
    Sequential (w.recoveryStep ok partition) := by
  have hstep := recoveryStep_cases w ok partition
  generalize w.recoveryStep ok partition = w' at hstep ⊢
  have hminted : w'.starts = w.starts → ∀ (i : Nat) (s : Start), w'.starts[i]? = some s → s.Minted :=
    fun he i s hs => h.orderly.minted i s (he ▸ hs)
  cases hstep with
  | stay hdb hr hs ht => exact h.moves (.of_eq hdb hr (.of_eq hs)) ht (hminted hs)
  | markRun s hdb hr hs ht =>
    exact h.moves (.updateRunStatus s (fun hc => RunStatus.noConfusion hc) hdb hr (.of_eq hs)) ht
      (hminted hs)
  | markGroup r todo failedGroups _ hdb hr hs ht =>
    rcases w.db.markRunGroupFailed_eq r.runGroupID with he | he
    · exact h.moves (.of_eq (hdb.trans he) hr (.of_eq hs)) ht (hminted hs)
    · exact h.moves (.setRunGroupStatus (hdb.trans he) hr (.of_eq hs)) ht (hminted hs)

theorem start (h : Sequential w) (submissionID contestantID runGroupID : String)
    {children : List (String × String)} (hc : (children.map Prod.fst).Pairwise (· < ·)) :
    Sequential (w.startBenchmark submissionID contestantID runGroupID children) := by
  obtain ⟨s, hp, hi, hf, he⟩ := startBenchmark_eq w submissionID contestantID runGroupID children
  rw [he]
  refine h.moves (.of_eq rfl rfl fun i q hq => ?_) rfl fun i t ht => ?_
  · exact (getElem?_addStart hq).resolve_right (fun hc => hp q hc.symm)
  rcases getElem?_addStart ht with ht | rfl
  · exact h.orderly.minted i t ht
  cases t with
  | find q =>
    rw [← hf q rfl] at hc
    exact hc
  | insert q => exact absurd rfl (hi q)
  | findAgain q | publish q | answered a => trivial

theorem step (h : Sequential w) (e : Event) (htimely : Timely w e) : Sequential (step w e) := by
  cases e with
  | start submissionID contestantID runGroupID children =>
    exact h.start submissionID contestantID runGroupID htimely
  | startStep i ok => exact h.startStep i ok
  | report partition m => exact h.moves (.of_eq rfl rfl (.of_eq rfl)) rfl h.orderly.minted
  | fetch partition => exact h.fetch partition
  | taskStep ok => exact h.taskStep ok htimely
  | restart =>
    obtain ⟨parts, he⟩ := restart_eq w
    rw [Dispatch.step, he]
    exact h.moves_task (.of_eq rfl rfl (.of_eq rfl)) rfl trivial
  | recover => exact h.moves (.of_eq rfl rfl (.of_eq rfl)) rfl h.orderly.minted
  | listRuns ok runs =>
    obtain ⟨recovery, he⟩ := listRuns_eq w ok runs
    rw [Dispatch.step, he]
    exact h.moves (.of_eq rfl rfl (.of_eq rfl)) rfl h.orderly.minted
  | recoveryStep ok partition => exact h.recoveryStep ok partition

theorem empty : Sequential empty where
  orderly :=
    { known := nofun
      grouped := nofun
      oneAtATime :=
        { one := fun _ _ _ hs => nomatch hs.1.choose_spec.1
          once := nodup_nil
          order := fun _ => List.Pairwise.nil }
      behind := nofun
      minted := nofun
      starts := nofun
      alone := nofun }
  ready := trivial

end Sequential

/-- **The runs of a group are dispatched one at a time**, when each message about an ended
run is fresh where it is taken up. -/
theorem run_oneAtATime (pre post : List Event) (hes : Allows step Timely empty (pre ++ post)) :
    (run empty pre).OneAtATime :=
  ((allows_append.mp hes).1.invariant (fun _ e h ht => h.step e ht) Sequential.empty).orderly.oneAtATime

/-- A benchmark of three scenarios, whose first run is dispatched and ends. -/
def firstEnded : List Event :=
  [.start "s" "c" "g" [("r1", "x"), ("r2", "y"), ("r3", "z")], .startStep 0 true,
    .startStep 0 true, .startStep 0 true, .report 0 (some ⟨"r1", "s", "g", .completed⟩), .fetch 0]

/-- The second run is claimed, but its publication fails; the consumer is started anew and
succeeds. -/
def retried : List Event :=
  firstEnded ++ [.taskStep true, .taskStep true, .taskStep false, .taskStep true, .restart,
    .fetch 0] ++ List.replicate 7 (.taskStep true)

theorem run_oneAtATime_retried : (run empty retried).OneAtATime :=
  run_oneAtATime retried [] (by decide +kernel)

example : ((run empty retried).sessionsOf "g") = ["r1", "r2"] := by decide +kernel

/-- The second run is dispatched, but the commit fails; the consumer is started anew and
takes up the message again. -/
def redelivered : List Event :=
  firstEnded ++ List.replicate 5 (.taskStep true) ++ [.taskStep false, .restart, .fetch 0] ++
    List.replicate 4 (.taskStep true)

/-- **Two runs in flight**: the message about the first run dispatches the third one while
the second is in flight. -/
theorem run_redelivered :
    (run empty redelivered).InFlight "g" "r2" ∧
      (run empty redelivered).InFlight "g" "r3" ∧
      ¬ (run empty redelivered).OneAtATime := by
  have h2 : (run empty redelivered).InFlight "g" "r2" := by decide +kernel
  have h3 : (run empty redelivered).InFlight "g" "r3" := by decide +kernel
  exact ⟨h2, h3, fun h => absurd (h.one "g" "r2" "r3" h2 h3) (by decide)⟩

end MatchBench.Dispatch
