import MatchBench.Dispatch.Exclusive
import MatchBench.Dispatch.Terminal

/-!
# No benchmark is stuck

A run group that is neither completed nor failed is stuck if none of its runs is in flight
and no message is left whose processing dispatches one.  `StartBenchmark` leaves such a
group behind when it cannot publish the first run: the group is in the table, and the next
request for a benchmark of the submission is answered with it (`run_stranded`).

`run_progressing` says what is enough: the first run of a group is published, the messages
are about dispatched runs and name their groups, a run whose publication failed is set
back, the status of a group is written once its runs have ended, and no commit passes a
message that was left.  Then, whenever the programs rest, no group is stuck.
-/

namespace MatchBench.Dispatch

open List Option AList World

/-- The run stands in the table and has ended. -/
def Tables.EndedRun (db : Tables) (s : String) : Prop :=
  ∃ r, db.Has s r ∧ terminalRunStatus r.status = true

/-- The message says that a run of the group has ended, and it has: the next run of the
group is claimed for it. -/
structure Advances (db : Tables) (g : String) (m : BenchmarkStatusUpdated) : Prop where
  group : m.runGroupID = g
  ended : terminalRunStatus m.status = true
  known : db.EndedRun m.sessionID

namespace World

variable (w : World)

/-- The status of the group is neither `completed` nor `failed`. -/
def Active (g : String) : Prop :=
  ∃ row, w.db.groups.lookup g = some row ∧ terminalRunStatus row.status = false

/-- A run of the group is in flight. -/
def Alive (g : String) : Prop := ∃ s, w.InFlight g s

/-- A run of the group waits to be claimed. -/
def Waits (g : String) : Prop :=
  ∃ s r, w.db.Has s r ∧ r.inGroup g = true ∧ r.status = .requested

/-- A message is not committed whose processing dispatches a run of the group. -/
def Revives (g : String) : Prop :=
  w.Waits g ∧ ∃ partition offset m, (w.parts partition).committed ≤ offset ∧
    (w.statuses partition)[offset]? = some (some m) ∧ Advances w.db g m

/-- A request is about to publish the first run of the group. -/
def Starting (g : String) : Prop :=
  ∃ (i : Nat) (q : StartRequest), w.starts[i]? = some (.publish q) ∧ q.runGroupID = g

/-- The consumer is between two messages, and every request that has inserted a group has
dispatched its first run. -/
structure Rests : Prop where
  idle : w.task = .idle
  starting : ∀ g, ¬ w.Starting g

/-- **No run group is stuck.** -/
def Progressing : Prop := ∀ g, w.Active g → w.Alive g ∨ w.Revives g

end World

/-- The message is about a dispatched run, and names its group. -/
structure Delivery.Reports (w : World) (d : Delivery) : Prop where
  known : ∃ r, w.db.Has d.msg.sessionID r ∧ r.inGroup d.msg.runGroupID = true
  dispatched : w.Dispatched d.msg.sessionID

/-- The call of the consumer may fail: a message whose claim fails still has a run to
claim, a run that is not published is set back, and the status of a group is written when
its runs have ended. -/
def Task.MayFail (w : World) : Task → Prop
  | .claim d => w.Waits d.msg.runGroupID
  | .reset _ _ => False
  | .count d | .write d _ => ¬ w.db.Ended d.msg.runGroupID
  | .idle | .update _ | .lookup _ | .publish _ _ | .commit _ _ => True

/-- The consumer may be stopped: also not between the claim of a run and its publication. -/
def Task.MayStop (w : World) : Task → Prop
  | .publish _ _ => False
  | t => t.MayFail w

/-- What is required of a message before it is applied, and of a commit: nothing before it
is left. -/
def Task.Sound (w : World) : Task → Prop
  | .update d => d.Reports w
  | .commit partition offset => ∀ o ∈ (w.parts partition).owed, offset ≤ o
  | .idle | .lookup _ | .claim _ | .publish _ _ | .reset _ _ | .count _ | .write _ _ => True

/-- A step of a benchmark that goes on; the recovery of the controller takes no part. -/
def Sound (w : World) : Event → Prop
  | .start _ _ runGroupID _ => runGroupID ≠ ""
  | .startStep i ok => ok = true ∨ ∀ q, w.starts[i]? ≠ some (.publish q)
  | .taskStep ok => w.task.Sound w ∧ (ok = true ∨ w.task.MayFail w)
  | .restart => w.task.MayStop w
  | .report _ _ | .fetch _ => True
  | .recover | .listRuns _ _ | .recoveryStep _ _ => False

instance (w : World) (g : String) : Decidable (w.Waits g) :=
  decidable_of_iff (∃ e ∈ w.db.runs.entries, e.2.inGroup g = true ∧ e.2.status = .requested)
    ⟨fun ⟨e, he, hg⟩ => ⟨e.1, e.2, Tables.has_iff_mem.mpr he, hg⟩,
      fun ⟨s, r, hr, hg⟩ => ⟨⟨s, r⟩, Tables.has_iff_mem.mp hr, hg⟩⟩

instance (w : World) (d : Delivery) : Decidable (d.Reports w) :=
  decidable_of_iff
    ((∃ r, w.db.Has d.msg.sessionID r ∧ r.inGroup d.msg.runGroupID = true) ∧
      w.Dispatched d.msg.sessionID)
    ⟨fun h => ⟨h.1, h.2⟩, fun h => ⟨h.known, h.dispatched⟩⟩

instance (w : World) : ∀ t : Task, Decidable (t.MayFail w)
  | .claim d => inferInstanceAs (Decidable (w.Waits d.msg.runGroupID))
  | .reset _ _ => inferInstanceAs (Decidable False)
  | .count _ | .write _ _ => inferInstanceAs (Decidable (¬ _))
  | .idle | .update _ | .lookup _ | .publish _ _ | .commit _ _ => inferInstanceAs (Decidable True)

instance (w : World) : ∀ t : Task, Decidable (t.MayStop w)
  | .claim d => inferInstanceAs (Decidable (w.Waits d.msg.runGroupID))
  | .publish _ _ | .reset _ _ => inferInstanceAs (Decidable False)
  | .count _ | .write _ _ => inferInstanceAs (Decidable (¬ _))
  | .idle | .update _ | .lookup _ | .commit _ _ => inferInstanceAs (Decidable True)

instance (w : World) : ∀ t : Task, Decidable (t.Sound w)
  | .update d => inferInstanceAs (Decidable (d.Reports w))
  | .commit partition offset =>
      inferInstanceAs (Decidable (∀ o ∈ (w.parts partition).owed, offset ≤ o))
  | .idle | .lookup _ | .claim _ | .publish _ _ | .reset _ _ | .count _ | .write _ _ =>
      inferInstanceAs (Decidable True)

instance : ∀ s : Start, Decidable (∀ q, s ≠ .publish q)
  | .publish q => isFalse fun h => h q rfl
  | .find _ | .insert _ | .findAgain _ | .answered _ => isTrue fun _ => Start.noConfusion

instance (w : World) (i : Nat) : Decidable (∀ q, w.starts[i]? ≠ some (.publish q)) :=
  decidable_of_iff (∀ s ∈ w.starts[i]?, ∀ q, s ≠ .publish q)
    ⟨fun h q hq => h _ hq q rfl, fun h _ hs q hq => h q (hq ▸ hs)⟩

theorem World.not_starting {w : World} (h : ∀ s ∈ w.starts, ∀ q, s ≠ .publish q) (g : String) :
    ¬ w.Starting g := by
  rintro ⟨i, q, hq, _⟩
  exact h _ (mem_of_getElem? hq) q rfl

instance (w : World) : ∀ e : Event, Decidable (Sound w e)
  | .start _ _ _ _ => inferInstanceAs (Decidable (_ ≠ _))
  | .startStep _ _ => inferInstanceAs (Decidable (_ ∨ _))
  | .taskStep _ => inferInstanceAs (Decidable (_ ∧ _))
  | .restart => inferInstanceAs (Decidable (w.task.MayStop w))
  | .report _ _ | .fetch _ => inferInstanceAs (Decidable True)
  | .recover | .listRuns _ _ | .recoveryStep _ _ => inferInstanceAs (Decidable False)

namespace World

variable (w : World)

/-- A message was left that has the next run of the group claimed. -/
def Owes (g : String) : Prop :=
  ∃ partition offset m, offset ∈ (w.parts partition).owed ∧
    (w.statuses partition)[offset]? = some (some m) ∧ Advances w.db g m

/-- If the message says that a run has ended, then a run of its group is in flight or none
waits. -/
def Served (m : BenchmarkStatusUpdated) : Prop :=
  terminalRunStatus m.status = true → w.db.groups.lookup m.runGroupID ≠ none ∧
    (w.Alive m.runGroupID ∨ ¬ w.Waits m.runGroupID)

end World

/-- The consumer has claimed the run and not dispatched it. -/
def Task.Holds (s : String) : Task → Prop
  | .publish _ next | .reset _ next => next.sessionID = s
  | .idle | .update _ | .lookup _ | .claim _ | .count _ | .write _ _ | .commit _ _ => False

/-- The consumer is about to dispatch a run of the group, or to close it. -/
def Task.Carries (db : Tables) (g : String) : Task → Prop
  | .claim d | .publish d _ | .reset d _ => d.msg.runGroupID = g
  | .count d | .write d _ => d.msg.runGroupID = g ∧ db.Ended g
  | .idle | .update _ | .lookup _ | .commit _ _ => False

theorem Task.Carries.mono {db db' : Tables} {g : String} {t : Task} (h : t.Carries db g)
    (hended : db.Ended g → db'.Ended g) : t.Carries db' g := by
  cases t with
  | claim d | publish d next | reset d next => exact h
  | count d | write d status => exact ⟨h.1, hended h.2⟩
  | idle | update d | lookup d | commit partition offset => exact h

/-- The message at this offset was fetched and is not committed. -/
def Open (p : Partition) (offset : Nat) : Prop := p.committed ≤ offset ∧ offset < p.position

/-- The delivery is a message of the topic. -/
def Delivery.Taken (w : World) (d : Delivery) : Prop :=
  (w.statuses d.partition)[d.offset]? = some (some d.msg) ∧ Open (w.parts d.partition) d.offset

/-- The delivery is about a run of its group. -/
def Delivery.Live (w : World) (d : Delivery) : Prop :=
  d.Taken w ∧ ∃ r, w.db.Has d.msg.sessionID r ∧ r.inGroup d.msg.runGroupID = true

/-- The run was claimed and is not dispatched yet. -/
def World.Claimed (w : World) (g : String) (next : BenchmarkMeta) : Prop :=
  (∃ r, w.db.Has next.sessionID r ∧ r.inGroup g = true ∧ r.status = .queued) ∧
    ∀ (i : Nat) (q : StartRequest), w.starts[i]? = some (.publish q) → q.first.1 ≠ next.sessionID

/-- What holds where the consumer stands. -/
def Task.Live (w : World) : Task → Prop
  | .idle => True
  | .update d => d.Taken w
  | .lookup d => d.Live w ∧ w.db.EndedRun d.msg.sessionID
  | .claim d => d.Live w ∧ Advances w.db d.msg.runGroupID d.msg
  | .publish d next | .reset d next => d.Live w ∧ Advances w.db d.msg.runGroupID d.msg ∧
      w.Claimed d.msg.runGroupID next
  | .count d => d.Live w ∧ w.Served d.msg
  | .write d status => d.Live w ∧ w.Served d.msg ∧
      (terminalRunStatus status = true ↔ w.db.Ended d.msg.runGroupID)
  | .commit partition offset => Open (w.parts partition) offset ∧
      ∃ x, (w.statuses partition)[offset]? = some x ∧ ∀ m, x = some m → w.Served m

/-- A request that is still to insert its group has a name for it. -/
def Start.Named : Start → Prop
  | .find q | .insert q => q.runGroupID ≠ ""
  | .findAgain _ | .publish _ | .answered _ => True

/-- What holds of the tables, the topics and the requests, wherever the consumer stands. -/
structure Live (w : World) : Prop where
  known : ∀ s, w.Dispatched s → ∃ r, w.db.Has s r
  grouped : ∀ s r g, w.db.Has s r → r.inGroup g = true → w.db.groups.lookup g ≠ none
  named : ∀ g, w.db.groups.lookup g ≠ none → g ≠ ""
  request : ∀ (i : Nat) (s : Start), w.starts[i]? = some s → s.Named
  /-- A run that has left the queue is dispatched, or will be. -/
  claimed : ∀ s r g, w.db.Has s r → r.inGroup g = true → terminalRunStatus r.status = false →
    r.status ≠ .requested → w.Dispatched s ∨ w.task.Holds s ∨
      ∃ (i : Nat) (q : StartRequest), w.starts[i]? = some (.publish q) ∧ q.first.1 = s ∧
        q.runGroupID = g
  closed : ∀ g row, w.db.groups.lookup g = some row → terminalRunStatus row.status = true →
    w.db.Ended g
  parts : ∀ partition, (w.parts partition).Safe ∧
    (w.parts partition).committed ≤ (w.parts partition).position
  first : ∀ (i : Nat) (q : StartRequest), w.starts[i]? = some (.publish q) →
    (∃ r, w.db.Has q.first.1 r ∧ r.inGroup q.runGroupID = true ∧ r.status = .queued) ∧
      ¬ w.Dispatched q.first.1
  alone : ∀ (i j : Nat) (q q' : StartRequest), w.starts[i]? = some (.publish q) →
    w.starts[j]? = some (.publish q') → q.first.1 = q'.first.1 → i = j
  task : w.task.Live w
  active : ∀ g, w.Active g → w.Alive g ∨ w.Waits g ∧ w.Owes g ∨ w.Starting g ∨ w.task.Carries w.db g

/-- What holds where the consumer stands still holds when the topic grows, runs are added to
other groups or dispatched, and other requests publish. -/
theorem Task.Live.mono {w w' : World} {t : Task} (h : t.Live w)
    (hstatuses : ∀ (p o : Nat) x, (w.statuses p)[o]? = some x → (w'.statuses p)[o]? = some x)
    (hparts : w'.parts = w.parts) (hhas : ∀ s r, w.db.Has s r → w'.db.Has s r)
    (hended : ∀ s r g, w.db.Has s r → r.inGroup g = true → (w'.db.Ended g ↔ w.db.Ended g))
    (hserved : ∀ m, w.Served m → w'.Served m)
    (hfirst : ∀ s r, w.db.Has s r → ∀ (i : Nat) (q : StartRequest),
      w'.starts[i]? = some (.publish q) → w.starts[i]? = some (.publish q) ∨ q.first.1 ≠ s) :
    t.Live w' := by
  have htaken : ∀ {d : Delivery}, d.Taken w → d.Taken w' := fun hd =>
    ⟨hstatuses _ _ _ hd.1, hparts ▸ hd.2⟩
  have hlive : ∀ {d : Delivery}, d.Live w → d.Live w' := fun hd =>
    ⟨htaken hd.1, hd.2.imp fun r hr => ⟨hhas _ r hr.1, hr.2⟩⟩
  have hadvances : ∀ {g m}, Advances w.db g m → Advances w'.db g m := fun hm =>
    ⟨hm.group, hm.ended, hm.known.imp fun r hr => ⟨hhas _ r hr.1, hr.2⟩⟩
  have hclaimed : ∀ {g next}, w.Claimed g next → w'.Claimed g next := by
    rintro g next ⟨⟨r, hr, hg⟩, hne⟩
    exact ⟨⟨r, hhas _ r hr, hg⟩, fun i q hq => (hfirst _ r hr i q hq).elim (hne i q) id⟩
  cases t with
  | idle => trivial
  | update d => exact htaken h
  | lookup d => exact ⟨hlive h.1, h.2.imp fun r hr => ⟨hhas _ r hr.1, hr.2⟩⟩
  | claim d => exact ⟨hlive h.1, hadvances h.2⟩
  | publish d next | reset d next => exact ⟨hlive h.1, hadvances h.2.1, hclaimed h.2.2⟩
  | count d => exact ⟨hlive h.1, hserved _ h.2⟩
  | write d status =>
    obtain ⟨r, hr, hg⟩ := h.1.2
    exact ⟨hlive h.1, hserved _ h.2.1, h.2.2.trans (hended _ r _ hr hg).symm⟩
  | commit partition offset =>
    obtain ⟨hopen, x, hx, hall⟩ := h
    exact ⟨hparts ▸ hopen, x, hstatuses _ _ _ hx, fun m hm => hserved m (hall m hm)⟩

namespace Live

variable {w : World}

/-- **At rest no group is stuck.** -/
theorem progressing (h : Live w) (hrest : w.Rests) : w.Progressing := by
  intro g hactive
  rcases h.active g hactive with hg | ⟨hwaits, p, o, m, ho, hm, hadv⟩ | hg | hg
  · exact .inl hg
  · exact .inr ⟨hwaits, p, o, m, (h.parts p).1 o ho, hm, hadv⟩
  · exact absurd hg (hrest.starting g)
  · rw [hrest.idle] at hg
    exact hg.elim

theorem quiet (h : Live w) {t₀ t : Task} (ht : w.task = t₀) {parts : Nat → Partition}
    {statuses : Nat → List (Option BenchmarkStatusUpdated)}
    (hparts : ∀ partition, (parts partition).Safe ∧
      (parts partition).committed ≤ (parts partition).position)
    (hholds : ∀ s, t₀.Holds s → t.Holds s)
    (htask : t.Live { w with task := t, parts := parts, statuses := statuses })
    (hactive : ∀ g, w.Waits g ∧ w.Owes g ∨ t₀.Carries w.db g → w.Alive g ∨
      w.Waits g ∧ World.Owes { w with task := t, parts := parts, statuses := statuses } g ∨
      w.Starting g ∨ t.Carries w.db g) :
    Live { w with task := t, parts := parts, statuses := statuses } where
  __ := h
  claimed s r g hr hg hend hreq :=
    (h.claimed s r g hr hg hend hreq).imp id (Or.imp (fun hs => hholds s (ht ▸ hs)) id)
  parts := hparts
  task := htask
  active g hg := by
    rcases h.active g hg with hg | hg | hg | hg
    · exact .inl hg
    · exact hactive g (.inl hg)
    · exact .inr (.inr (.inl hg))
    · exact hactive g (.inr (ht ▸ hg))

theorem setTask (h : Live w) {t₀ t : Task} (ht : w.task = t₀) (hholds : ∀ s, t₀.Holds s → t.Holds s)
    (htask : t.Live (w.setTask t)) (hcarries : ∀ g, t₀.Carries w.db g → w.Alive g ∨
      w.Starting g ∨ t.Carries w.db g) : Live (w.setTask t) :=
  h.quiet ht h.parts hholds htask
    fun g hg => hg.elim (fun hg => .inr (.inl hg)) (fun hg => (hcarries g hg).imp id .inr)

end Live

/-! ### A run gets a new status -/

section

variable {w : World} {s : String} {r : RunMeta} {status : RunStatus} (hr : w.db.Has s r)
  {t : Task} {parts : Nat → Partition}

/-- The world in which the run has the status. -/
def World.withStatus (w : World) (s : String) (r : RunMeta) (status : RunStatus) (t : Task)
    (parts : Nat → Partition) : World :=
  { w with db := w.db.setRun s { r with status := status }, task := t, parts := parts }

theorem has_withStatus_of_ne {s' : String} {r' : RunMeta} (h : w.db.Has s' r') (hne : s' ≠ s) :
    (w.withStatus s r status t parts).db.Has s' r' := Tables.has_setRun.mpr (.inr ⟨hne, h⟩)

theorem has_withStatus_self :
    (w.withStatus s r status t parts).db.Has s { r with status := status } :=
  Tables.has_setRun.mpr (.inl ⟨rfl, rfl⟩)

theorem inFlight_withStatus_of_ne {g s' : String} (h : w.InFlight g s') (hne : s' ≠ s) :
    (w.withStatus s r status t parts).InFlight g s' := by
  obtain ⟨hd, r', hr', hg, hend'⟩ := h
  exact ⟨hd, r', has_withStatus_of_ne hr' hne, hg, hend'⟩

include hr

theorem known_withStatus (status : RunStatus) (t : Task) (parts : Nat → Partition) {s' : String}
    (P : Option String → Prop) (h : ∃ r', w.db.Has s' r' ∧ P r'.runGroupID) :
    ∃ r', (w.withStatus s r status t parts).db.Has s' r' ∧ P r'.runGroupID := by
  obtain ⟨r', hr', hp⟩ := h
  by_cases he : s' = s
  · subst he
    obtain rfl := Tables.Has.unique hr hr'
    exact ⟨_, has_withStatus_self, hp⟩
  · exact ⟨r', has_withStatus_of_ne hr' he, hp⟩

variable (hend : terminalRunStatus r.status = false)

include hend

theorem advances_withStatus {g : String} {m : BenchmarkStatusUpdated} (h : Advances w.db g m) :
    Advances (w.withStatus s r status t parts).db g m := by
  obtain ⟨r', hr', hend'⟩ := h.known
  refine ⟨h.group, h.ended, r', has_withStatus_of_ne hr' fun he => ?_, hend'⟩
  rw [he] at hr'
  rw [← Tables.Has.unique hr hr', hend] at hend'
  exact Bool.false_ne_true hend'

theorem owes_withStatus {g : String} (h : w.Owes g)
    (hparts : ∀ partition, (w.parts partition).owed ⊆ (parts partition).owed) :
    (w.withStatus s r status t parts).Owes g := by
  obtain ⟨p, o, m, ho, hm, hadv⟩ := h
  exact ⟨p, o, m, hparts p ho, hm, advances_withStatus hr hend hadv⟩

theorem ended_withStatus {g : String} (h : w.db.Ended g) :
    (w.withStatus s r status t parts).db.Ended g := by
  intro s' r' hr' hg
  rcases Tables.has_setRun.mp hr' with ⟨rfl, rfl⟩ | ⟨_, hr'⟩
  · exact absurd (h _ r hr hg) (by rw [hend]; exact Bool.false_ne_true)
  · exact h s' r' hr' hg

theorem Live.withStatus (h : Live w)
    (hparts : ∀ partition, (parts partition).Safe ∧
      (parts partition).committed ≤ (parts partition).position)
    (hfirst : ∀ (i : Nat) (q : StartRequest), w.starts[i]? = some (.publish q) → q.first.1 ≠ s)
    (hclaimed : terminalRunStatus status = false → status ≠ .requested → w.Dispatched s ∨ t.Holds s)
    (hholds : ∀ s', w.task.Holds s' → s' ≠ s → t.Holds s')
    (htask : t.Live (w.withStatus s r status t parts))
    (hactive : ∀ g, w.Alive g ∨ w.Waits g ∧ w.Owes g ∨ w.task.Carries w.db g →
      (w.withStatus s r status t parts).Alive g ∨
      (w.withStatus s r status t parts).Waits g ∧ (w.withStatus s r status t parts).Owes g ∨
      t.Carries (w.withStatus s r status t parts).db g) :
    Live (w.withStatus s r status t parts) where
  known s' hd := by
    obtain ⟨r', hr', _⟩ := known_withStatus hr status t parts (fun _ => True)
      ((h.known s' hd).imp fun _ hr' => ⟨hr', trivial⟩)
    exact ⟨r', hr'⟩
  grouped s' r' g hr' hg := by
    rcases Tables.has_setRun.mp hr' with ⟨rfl, rfl⟩ | ⟨_, hr'⟩
    · exact h.grouped _ r g hr hg
    · exact h.grouped s' r' g hr' hg
  __ := h
  claimed s' r' g hr' hg hend' hreq := by
    rcases Tables.has_setRun.mp hr' with ⟨rfl, rfl⟩ | ⟨hne, hr'⟩
    · exact (hclaimed hend' hreq).imp id Or.inl
    · exact (h.claimed s' r' g hr' hg hend' hreq).imp id (Or.imp (fun ht => hholds s' ht hne) id)
  closed g row hrow hterm := ended_withStatus hr hend (h.closed g row hrow hterm)
  parts := hparts
  first i q hq := by
    obtain ⟨⟨r', hr', hg, hs⟩, hnot⟩ := h.first i q hq
    exact ⟨⟨r', has_withStatus_of_ne hr' (hfirst i q hq), hg, hs⟩, hnot⟩
  task := htask
  active g hg := by
    have hcases := hactive g
    rcases h.active g hg with hg | hg | hg | hg
    · exact (hcases (.inl hg)).imp id (Or.imp id .inr)
    · exact (hcases (.inr (.inl hg))).imp id (Or.imp id .inr)
    · exact .inr (.inr (.inl hg))
    · exact (hcases (.inr (.inr hg))).imp id (Or.imp id .inr)

end

namespace Live

variable {w : World} {d : Delivery} {parts : Nat → Partition} {r : RunMeta}

theorem live_withStatus {s : String} {status : RunStatus} {t : Task} (hr : w.db.Has s r)
    (hd : d.Live w) : d.Live (w.withStatus s r status t w.parts) :=
  ⟨hd.1, known_withStatus hr status t w.parts (fun g => decide (g = some d.msg.runGroupID) = true) hd.2⟩

theorem ne_empty (h : Live w)
    (hknown : ∃ r, w.db.Has d.msg.sessionID r ∧ r.inGroup d.msg.runGroupID = true) :
    d.msg.runGroupID ≠ "" := by
  obtain ⟨r, hr, hg⟩ := hknown
  exact h.named _ (h.grouped _ r _ hr hg)

theorem update (h : Live w) (ht : w.task = .update d) (hreports : d.Reports w)
    (hr : w.db.Has d.msg.sessionID r) (hend : terminalRunStatus r.status = false) :
    Live (w.withStatus d.msg.sessionID r d.msg.status d.updated w.parts) := by
  have hne := h.ne_empty hreports.known
  have htaken : d.Taken w := by
    have := h.task
    rwa [ht] at this
  have hlive : d.Live (w.withStatus d.msg.sessionID r d.msg.status d.updated w.parts) :=
    live_withStatus hr ⟨htaken, hreports.known⟩
  have hg : r.inGroup d.msg.runGroupID = true := by
    obtain ⟨r', hr', hg⟩ := hreports.known
    exact Tables.Has.unique hr' hr ▸ hg
  -- the run of the message keeps its group going
  have hself : ∀ g, r.inGroup g = true →
      (w.withStatus d.msg.sessionID r d.msg.status d.updated w.parts).Alive g ∨
        d.updated.Carries (w.withStatus d.msg.sessionID r d.msg.status d.updated w.parts).db g := by
    intro g hg'
    obtain rfl := RunMeta.inGroup_unique hg hg'
    cases hterm : terminalRunStatus d.msg.status with
    | true =>
      right
      rw [Delivery.updated, if_neg hne, if_pos hterm]
      rfl
    | false =>
      exact .inl ⟨d.msg.sessionID, hreports.dispatched, _, has_withStatus_self, hg, hterm⟩
  refine Live.withStatus hr hend h h.parts ?_ (fun _ _ => .inl hreports.dispatched) ?_ ?_ ?_
  · intro i q hq he
    exact (h.first i q hq).2 (he ▸ hreports.dispatched)
  · intro s' hs'
    rw [ht] at hs'
    exact hs'.elim
  · rw [Delivery.updated, if_neg hne] at hlive ⊢
    split
    next hterm =>
      rw [if_pos hterm] at hlive
      exact ⟨hlive, rfl, hterm, _, has_withStatus_self, hterm⟩
    next hterm =>
      rw [if_neg hterm] at hlive
      exact ⟨hlive, fun hc => absurd hc hterm⟩
  rintro g (⟨s', hs'⟩ | ⟨⟨s', r', hr', hg', hreq⟩, howes⟩ | hcarries)
  · by_cases he : s' = d.msg.sessionID
    · obtain ⟨_, r', hr', hg', _⟩ := hs'
      rw [he] at hr'
      obtain rfl := Tables.Has.unique hr hr'
      exact (hself g hg').imp id Or.inr
    · exact .inl ⟨s', inFlight_withStatus_of_ne hs' he⟩
  · by_cases he : s' = d.msg.sessionID
    · rw [he] at hr'
      obtain rfl := Tables.Has.unique hr hr'
      exact (hself g hg').imp id Or.inr
    · exact .inr (.inl ⟨⟨s', r', has_withStatus_of_ne hr' he, hg', hreq⟩,
        owes_withStatus hr hend howes (fun _ => Finset.Subset.refl _)⟩)
  · rw [ht] at hcarries
    exact hcarries.elim

theorem ne_of_inGroup {s s' g g' : String} {r r' : RunMeta} (hr : w.db.Has s r)
    (hg : r.inGroup g = true) (hr' : w.db.Has s' r') (hg' : r'.inGroup g' = true) (hne : g ≠ g') :
    s' ≠ s := by
  rintro rfl
  obtain rfl := Tables.Has.unique hr hr'
  exact hne (RunMeta.inGroup_unique hg hg')

theorem other (status : RunStatus) (t : Task) {s g g' : String} (hr : w.db.Has s r)
    (hend : terminalRunStatus r.status = false) (hg : r.inGroup g = true) (hne : g ≠ g')
    (hparts : ∀ partition, (w.parts partition).owed ⊆ (parts partition).owed) :
    (w.Alive g' → (w.withStatus s r status t parts).Alive g') ∧
      (w.Waits g' ∧ w.Owes g' → (w.withStatus s r status t parts).Waits g' ∧
        (w.withStatus s r status t parts).Owes g') := by
  refine ⟨fun ⟨s', hs'⟩ => ?_, fun ⟨⟨s', r', hr', hg', hreq⟩, howes⟩ => ?_⟩
  · obtain ⟨_, r', hr', hg', _⟩ := id hs'
    exact ⟨s', inFlight_withStatus_of_ne hs' (ne_of_inGroup hr hg hr' hg' hne)⟩
  · exact ⟨⟨s', r', has_withStatus_of_ne hr' (ne_of_inGroup hr hg hr' hg' hne), hg', hreq⟩,
      owes_withStatus hr hend howes hparts⟩

theorem claim (h : Live w) (next : BenchmarkMeta) (ht : w.task = .claim d)
    (hr : w.db.Has next.sessionID r) (hg : r.inGroup d.msg.runGroupID = true)
    (hreq : r.status = .requested) :
    Live (w.withStatus next.sessionID r .queued (.publish d next) w.parts) := by
  have htask := h.task
  rw [ht] at htask
  have hfirst : ∀ (i : Nat) (q : StartRequest), w.starts[i]? = some (.publish q) →
      q.first.1 ≠ next.sessionID := by
    intro i q hq he
    obtain ⟨⟨r', hr', _, hs⟩, _⟩ := h.first i q hq
    rw [he] at hr'
    rw [← Tables.Has.unique hr hr', hreq] at hs
    exact RunStatus.noConfusion hs
  have hend : terminalRunStatus r.status = false := by
    rw [hreq]
    rfl
  refine Live.withStatus hr hend h h.parts hfirst (fun _ _ => .inr rfl) ?_ ?_ ?_
  · intro s' hs'
    rw [ht] at hs'
    exact hs'.elim
  · exact ⟨live_withStatus hr htask.1, advances_withStatus hr hend htask.2,
      ⟨_, has_withStatus_self, hg, rfl⟩, hfirst⟩
  intro g hcases
  by_cases he : d.msg.runGroupID = g
  · exact .inr (.inr he)
  obtain ⟨halive, howes⟩ := other .queued (.publish d next) hr hend hg he
    (fun partition => Finset.Subset.refl (w.parts partition).owed)
  rcases hcases with hc | hc | hc
  · exact .inl (halive hc)
  · exact .inr (.inl (howes hc))
  · rw [ht] at hc
    exact absurd hc he

theorem parts_update (h : Live w) {partition : Nat} {p : Partition}
    (hp : p.Safe ∧ p.committed ≤ p.position) :
    ∀ p', (Function.update w.parts partition p p').Safe ∧
      (Function.update w.parts partition p p').committed ≤
        (Function.update w.parts partition p p').position := by
  intro p'
  by_cases he : p' = partition
  · rw [he, Function.update_self]
    exact hp
  · rw [Function.update_of_ne he]
    exact h.parts p'

theorem parts_owe (h : Live w) (htaken : d.Taken w) :
    ((w.parts d.partition).owe d.offset).Safe ∧
      ((w.parts d.partition).owe d.offset).committed ≤ ((w.parts d.partition).owe d.offset).position :=
  ⟨(h.parts d.partition).1.owe htaken.2.1, (h.parts d.partition).2⟩

theorem owed_subset_owe (d : Delivery) (partition : Nat) : (w.parts partition).owed ⊆
    (Function.update w.parts d.partition ((w.parts d.partition).owe d.offset) partition).owed := by
  by_cases he : partition = d.partition
  · rw [he, Function.update_self]
    exact Finset.subset_insert _ _
  · rw [Function.update_of_ne he]

theorem mem_owe (d : Delivery) : d.offset ∈
    (Function.update w.parts d.partition ((w.parts d.partition).owe d.offset) d.partition).owed := by
  rw [Function.update_self]
  exact Finset.mem_insert_self _ _

theorem owes_leave (htaken : d.Taken w)
    (hparts : ∀ partition, (parts partition).owed =
      (Function.update w.parts d.partition ((w.parts d.partition).owe d.offset) partition).owed) :
    (∀ g, w.Owes g → World.Owes { w with task := .idle, parts := parts } g) ∧
      ∀ g, Advances w.db g d.msg → World.Owes { w with task := .idle, parts := parts } g := by
  refine ⟨fun g ⟨p, o, m, ho, hm⟩ => ⟨p, o, m, ?_, hm⟩, fun g hadv =>
    ⟨d.partition, d.offset, d.msg, ?_, htaken.1, hadv⟩⟩
  · show o ∈ (parts p).owed
    rw [hparts]
    exact owed_subset_owe d p ho
  · show d.offset ∈ (parts d.partition).owed
    rw [hparts]
    exact mem_owe d

theorem leave (h : Live w) {t₀ : Task} (ht : w.task = t₀) (htaken : d.Taken w)
    (hparts : ∀ partition, (parts partition).owed =
      (Function.update w.parts d.partition ((w.parts d.partition).owe d.offset) partition).owed)
    (hsafe : ∀ partition, (parts partition).Safe ∧
      (parts partition).committed ≤ (parts partition).position)
    (hholds : ∀ s, ¬ t₀.Holds s)
    (hcarries : ∀ g, t₀.Carries w.db g → w.Waits g ∧ Advances w.db g d.msg) :
    Live { w with task := .idle, parts := parts } := by
  obtain ⟨hold, hnew⟩ := owes_leave htaken hparts
  refine h.quiet ht hsafe (fun s hs => absurd hs (hholds s)) trivial fun g hg => .inr (.inl ?_)
  rcases hg with ⟨hwaits, howes⟩ | hg
  · exact ⟨hwaits, hold g howes⟩
  · obtain ⟨hwaits, hadv⟩ := hcarries g hg
    exact ⟨hwaits, hnew g hadv⟩

theorem mem_settle {partition offset p o : Nat} {f : Partition → Partition}
    (ho : o ∈ (w.parts p).owed) (hne : p ≠ partition ∨ o ≠ offset)
    (hf : ∀ p, (f p).owed = p.owed.erase offset) :
    o ∈ (Function.update w.parts partition (f (w.parts partition)) p).owed := by
  by_cases he : p = partition
  · subst he
    rw [Function.update_self, hf]
    exact Finset.mem_erase.mpr ⟨hne.resolve_left (fun hc => hc rfl), ho⟩
  · rwa [Function.update_of_ne he]

theorem commit (h : Live w) {partition offset : Nat} (ht : w.task = .commit partition offset)
    (howed : ∀ p o, o ∈ (w.parts p).owed → p ≠ partition ∨ o ≠ offset → o ∈ (parts p).owed)
    (hsafe : ∀ partition, (parts partition).Safe ∧
      (parts partition).committed ≤ (parts partition).position) :
    Live { w with task := .idle, parts := parts } := by
  have htask := h.task
  rw [ht] at htask
  refine h.quiet ht hsafe (fun s hs => hs.elim) trivial fun g hg => ?_
  rcases hg with ⟨hwaits, p, o, m, ho, hm, hadv⟩ | hg
  · by_cases he : p = partition ∧ o = offset
    · -- the message was served, so a run is in flight
      obtain ⟨rfl, rfl⟩ := he
      obtain ⟨_, x, hx, hall⟩ := htask
      have hserved := (hall m (some.inj (hx.symm.trans hm)) hadv.ended).2
      rw [hadv.group] at hserved
      exact .inl (hserved.resolve_right fun hc => hc hwaits)
    · exact .inr (.inl ⟨hwaits, p, o, m, howed p o ho (not_and_or.mp he), hm, hadv⟩)
  · exact hg.elim

theorem reset (h : Live w) {next : BenchmarkMeta} (ht : w.task = .reset d next)
    (hr : w.db.Has next.sessionID r) (hend : terminalRunStatus r.status = false) :
    Live (w.withStatus next.sessionID r .requested .idle
      (Function.update w.parts d.partition ((w.parts d.partition).owe d.offset))) := by
  have htask := h.task
  rw [ht] at htask
  obtain ⟨hlive, hadv, ⟨r', hr', hg, _⟩, hfirst⟩ := htask
  obtain rfl := Tables.Has.unique hr hr'
  refine Live.withStatus hr hend h (h.parts_update (h.parts_owe hlive.1)) hfirst
    (fun _ hne => absurd rfl hne) (fun s' hs' hne => ?_) trivial fun g hcases => ?_
  · rw [ht] at hs'
    exact absurd hs'.symm hne
  by_cases he : d.msg.runGroupID = g
  · subst he
    exact .inr (.inl ⟨⟨_, _, has_withStatus_self, hg, rfl⟩,
      ⟨d.partition, d.offset, d.msg, mem_owe d, hlive.1.1, advances_withStatus hr hend hadv⟩⟩)
  obtain ⟨halive, howes⟩ := other .requested .idle hr hend hg he (owed_subset_owe d)
  rcases hcases with hc | hc | hc
  · exact .inl (halive hc)
  · exact .inr (.inl (howes hc))
  · rw [ht] at hc
    exact absurd hc he

end Live

/-! ### The dispatch of a run -/

/-- The world in which the run is dispatched. -/
def World.withRequested (w : World) (m : BenchmarkMeta) (starts : List Start) (t : Task) : World :=
  { w with requested := w.requested ++ [m], starts := starts, task := t }

section

variable {w : World} {m : BenchmarkMeta} {starts : List Start} {t : Task}

theorem dispatched_withRequested {s : String} :
    (w.withRequested m starts t).Dispatched s ↔ w.Dispatched s ∨ s = m.sessionID := by
  show (∃ m' ∈ w.requested ++ [m], _) ↔ (∃ m' ∈ w.requested, _) ∨ _
  simp only [mem_append, mem_singleton, or_and_right, exists_or, exists_eq_left]
  exact or_congr_right eq_comm

theorem alive_withRequested {g : String} (h : w.Alive g) : (w.withRequested m starts t).Alive g := by
  obtain ⟨s, hd, hrow⟩ := h
  exact ⟨s, dispatched_withRequested.mpr (.inl hd), hrow⟩

theorem alive_dispatched {g : String}
    (hrow : ∃ r, w.db.Has m.sessionID r ∧ r.inGroup g = true ∧ r.status = .queued) :
    (w.withRequested m starts t).Alive g := by
  obtain ⟨r, hr, hg, hs⟩ := hrow
  exact ⟨m.sessionID, dispatched_withRequested.mpr (.inr rfl), r, hr, hg, by rw [hs]; rfl⟩

theorem served_withRequested {msg : BenchmarkStatusUpdated} (h : w.Served msg) :
    (w.withRequested m starts t).Served msg := fun hterm =>
  (h hterm).imp id (Or.imp alive_withRequested id)

/-- **A run is dispatched**: its group goes on. -/
theorem Live.withRequested (h : Live w) {g : String}
    (hrow : ∃ r, w.db.Has m.sessionID r ∧ r.inGroup g = true ∧ r.status = .queued)
    (hrequest : ∀ (i : Nat) (s : Start), starts[i]? = some s → s.Named)
    (hpending : ∀ (i : Nat) (q : StartRequest), starts[i]? = some (.publish q) →
      w.starts[i]? = some (.publish q) ∧ q.first.1 ≠ m.sessionID)
    (hkept : ∀ (i : Nat) (q : StartRequest), w.starts[i]? = some (.publish q) →
      starts[i]? = some (.publish q) ∨ q.first.1 = m.sessionID)
    (hholds : ∀ s, w.task.Holds s → t.Holds s ∨ s = m.sessionID)
    (htask : t.Live (w.withRequested m starts t))
    (hcarries : ∀ g', w.task.Carries w.db g' → g = g' ∨ t.Carries w.db g') :
    Live (w.withRequested m starts t) where
  known s hd := by
    rcases dispatched_withRequested.mp hd with hd | rfl
    · exact h.known s hd
    · exact hrow.imp fun _ hr => hr.1
  __ := h
  request := hrequest
  claimed s r g' hr hg hend hreq := by
    rw [dispatched_withRequested]
    rcases h.claimed s r g' hr hg hend hreq with hd | hd | ⟨i, q, hq, hs, hg'⟩
    · exact .inl (.inl hd)
    · exact (hholds s hd).elim (fun ht => .inr (.inl ht)) (fun he => .inl (.inr he))
    · exact (hkept i q hq).elim (fun hq => .inr (.inr ⟨i, q, hq, hs, hg'⟩))
        (fun he => .inl (.inr (hs.symm.trans he)))
  first i q hq := by
    obtain ⟨hold, hne⟩ := hpending i q hq
    obtain ⟨hfirst, hnot⟩ := h.first i q hold
    exact ⟨hfirst, fun hd => (dispatched_withRequested.mp hd).elim hnot hne⟩
  alone i j q q' hq hq' := h.alone i j q q' (hpending i q hq).1 (hpending j q' hq').1
  task := htask
  active g' hg' := by
    rcases h.active g' hg' with hc | hc | ⟨i, q, hq, hgroup⟩ | hc
    · exact .inl (alive_withRequested hc)
    · exact .inr (.inl hc)
    · rcases hkept i q hq with hq' | he
      · exact .inr (.inr (.inl ⟨i, q, hq', hgroup⟩))
      obtain ⟨⟨r, hr, hrg, hs⟩, _⟩ := h.first i q hq
      rw [he] at hr
      rw [hgroup] at hrg
      exact .inl (alive_dispatched ⟨r, hr, hrg, hs⟩)
    · rcases hcarries g' hc with rfl | hc
      · exact .inl (alive_dispatched hrow)
      · exact .inr (.inr (.inr hc))

end

/-! ### Calls of the consumer -/

namespace Live

variable {w : World}

theorem alive_or_ended (h : Live w) (hholds : ∀ s, ¬ w.task.Holds s) {g : String}
    (hnone : ∀ s r, w.db.Has s r → r.inGroup g = true → r.status ≠ .requested) :
    w.Alive g ∨ w.Starting g ∨ w.db.Ended g := by
  by_cases hend : w.db.Ended g
  · exact .inr (.inr hend)
  obtain ⟨s, r, hr, hg, hr'⟩ : ∃ s r, w.db.Has s r ∧ r.inGroup g = true ∧
      ¬ terminalRunStatus r.status = true := by
    simpa only [Tables.Ended, not_forall, exists_prop] using hend
  have hfalse := Bool.eq_false_iff.mpr hr'
  rcases h.claimed s r g hr hg hfalse (hnone s r hr hg) with hd | hd | ⟨i, q, hq, _, hgroup⟩
  · exact .inl ⟨s, hd, r, hr, hg, hfalse⟩
  · exact absurd hd (hholds s)
  · exact .inr (.inl ⟨i, q, hq, hgroup⟩)

variable {d : Delivery}

theorem updated (h : Live w) (hlive : d.Live w) (hended : w.db.EndedRun d.msg.sessionID) :
    d.updated.Live (w.setTask d.updated) := by
  rw [Delivery.updated, if_neg (h.ne_empty hlive.2)]
  split
  next hterm =>
    exact ⟨hlive, rfl, hterm, hended⟩
  next hterm =>
    exact ⟨hlive, fun hc => absurd hc hterm⟩

theorem served_commit (hlive : d.Live w) (hserved : w.Served d.msg) :
    (Task.commit d.partition d.offset).Live (w.setTask (.commit d.partition d.offset)) := by
  refine ⟨hlive.1.2, some d.msg, hlive.1.1, fun m hm => ?_⟩
  obtain rfl := some.inj hm
  exact hserved

theorem write (h : Live w) {status : RunStatus} (ht : w.task = .write d status) :
    Live ((w.setTables (w.db.setRunGroupStatus d.msg.runGroupID status)).setTask
      (.commit d.partition d.offset)) := by
  have htask := h.task
  rw [ht] at htask
  obtain ⟨hlive, hserved, hstatus⟩ := htask
  obtain ⟨r, hr, hg⟩ := hlive.2
  rw [Tables.setRunGroupStatus]
  cases hrow : w.db.groups.lookup d.msg.runGroupID with
  | none => exact absurd hrow (h.grouped _ r _ hr hg)
  | some row =>
    have hself : (w.db.groups.insert d.msg.runGroupID { row with status := status }).lookup
        d.msg.runGroupID = some { row with status := status } := lookup_insert _
    have hother : ∀ g, g ≠ d.msg.runGroupID →
        (w.db.groups.insert d.msg.runGroupID { row with status := status }).lookup g =
          w.db.groups.lookup g := fun g hne => lookup_insert_ne hne
    have hknown : ∀ g, (w.db.groups.insert d.msg.runGroupID { row with status := status }).lookup g
        ≠ none ↔ w.db.groups.lookup g ≠ none := by
      intro g
      by_cases he : g = d.msg.runGroupID
      · rw [he, hself, hrow]
        exact iff_of_true (some_ne_none _) (some_ne_none _)
      · rw [hother g he]
    constructor
    case known => exact h.known
    case grouped => exact fun s r g hr hg => (hknown g).mpr (h.grouped s r g hr hg)
    case named => exact fun g hg => h.named g ((hknown g).mp hg)
    case request => exact h.request
    case claimed =>
      exact fun s r g hr hg hend hreq => (h.claimed s r g hr hg hend hreq).imp id
        (Or.imp (fun hs => (ht ▸ hs : Task.Holds s (.write d status)).elim) id)
    case closed =>
      intro g row' hrow' hterm
      by_cases he : g = d.msg.runGroupID
      · obtain rfl := he
        obtain rfl := some.inj (hself.symm.trans hrow')
        exact hstatus.mp hterm
      · exact h.closed g row' ((hother g he).symm.trans hrow') hterm
    case parts => exact h.parts
    case first => exact h.first
    case alone => exact h.alone
    case task =>
      refine ⟨hlive.1.2, some d.msg, hlive.1.1, fun m hm hterm => ?_⟩
      obtain rfl := some.inj hm
      exact (hserved hterm).imp (hknown _).mpr id
    case active =>
      rintro g ⟨row', hrow', hterm⟩
      -- a group that is open after the write was open before
      have hactive : w.Active g ∧ ¬ Task.Carries w.db g (.write d status) := by
        by_cases he : g = d.msg.runGroupID
        · obtain rfl := he
          obtain rfl := some.inj (hself.symm.trans hrow')
          have hended : ¬ w.db.Ended d.msg.runGroupID := fun hc =>
            Bool.false_ne_true (hterm.symm.trans (hstatus.mpr hc))
          exact ⟨⟨row, hrow, Bool.eq_false_iff.mpr fun hc => hended (h.closed _ row hrow hc)⟩,
            fun hc => hended hc.2⟩
        · exact ⟨⟨row', (hother g he).symm.trans hrow', hterm⟩, fun hc => he hc.1.symm⟩
      rcases h.active g hactive.1 with hc | ⟨hwaits, p, o, m, ho, hm, hadv⟩ | hc | hc
      · exact .inl hc
      · exact .inr (.inl ⟨hwaits, p, o, m, ho, hm, hadv.group, hadv.ended, hadv.known⟩)
      · exact .inr (.inr (.inl hc))
      · exact absurd (ht ▸ hc) hactive.2

/-- **A call of the consumer.** -/
theorem taskStep (h : Live w) (ok : Bool) (hsound : w.task.Sound w)
    (hfail : ok = true ∨ w.task.MayFail w) : Live (w.taskStep ok) := by
  have htask := h.task
  have hstep := taskStep_cases w ok
  generalize w.taskStep ok = w' at hstep ⊢
  cases hstep with
  | idle => exact h
  | leave d ht =>
    rcases ht with ht | ht | ht
    · rw [ht] at htask
      exact h.leave ht htask (fun _ => rfl) (h.parts_update (h.parts_owe htask)) (fun _ => id)
        (fun _ hg => hg.elim)
    · rw [ht] at htask
      exact h.leave ht htask.1.1 (fun _ => rfl) (h.parts_update (h.parts_owe htask.1.1))
        (fun _ => id) (fun _ hg => hg.elim)
    rw [ht] at htask hfail
    refine h.leave ht htask.1.1 (fun _ => rfl) (h.parts_update (h.parts_owe htask.1.1))
      (fun _ => id) fun g hg => ?_
    obtain rfl : d.msg.runGroupID = g := hg
    exact ⟨hfail.resolve_left Bool.false_ne_true, htask.2⟩
  | update d r ht hr hend =>
    rw [ht] at hsound
    exact h.update ht hsound hr hend
  | noUpdate d ht hend =>
    rw [ht] at htask hsound
    exact h.setTask ht (fun _ hs => hs.elim)
      ⟨⟨htask, hsound.known⟩, hsound.known.imp fun r hr => ⟨hr.1, hend r hr.1⟩⟩
      (fun _ hg => hg.elim)
  | ended d ht =>
    rw [ht] at htask
    exact h.setTask ht (fun _ hs => hs.elim) (h.updated htask.1 htask.2) (fun _ hg => hg.elim)
  | unknown d ht hnone =>
    rw [ht] at htask
    obtain ⟨r, hr, _⟩ := htask.2
    exact absurd hr (hnone r)
  | claim d s r ht hr hg hreq =>
    exact h.claim ⟨s, r.submissionID, r.contestantID, d.msg.runGroupID, r.scenarioID⟩ ht hr hg hreq
  | noClaim d ht hnone =>
    rw [ht] at htask
    obtain ⟨r, hr, hg⟩ := htask.1.2
    refine h.setTask ht (fun _ hs => hs.elim)
      ⟨htask.1, fun _ => ⟨h.grouped _ r _ hr hg, .inr ?_⟩⟩ fun g hg => ?_
    · rintro ⟨s, r, hr, hg, hreq⟩
      exact hnone s r hr hg hreq
    · obtain rfl : d.msg.runGroupID = g := hg
      exact (h.alive_or_ended (fun s hs => (ht ▸ hs : Task.Holds s (.claim d))) hnone).imp id
        (Or.imp id fun hend => ⟨rfl, hend⟩)
  | publish d next ht =>
    rw [ht] at htask
    obtain ⟨hlive, _, hrow, hfirst⟩ := htask
    obtain ⟨r, hr, hg⟩ := hlive.2
    exact h.withRequested hrow h.request (fun i q hq => ⟨hq, hfirst i q hq⟩) (fun _ _ => .inl)
      (fun s hs => .inr ((ht ▸ hs : Task.Holds s (.publish d next)).symm))
      ⟨hlive, fun _ => ⟨h.grouped _ r _ hr hg, .inl (alive_dispatched hrow)⟩⟩
      (fun g hc => .inl (ht ▸ hc : Task.Carries w.db g (.publish d next)))
  | noPublish d next ht =>
    rw [ht] at htask
    exact h.setTask ht (fun _ => id) htask (fun _ hg => .inr (.inr hg))
  | reset d next r ht hr hend => exact h.reset ht hr hend
  | noReset d next ok ht hend =>
    rw [ht] at htask hfail
    obtain ⟨r, hr, _, hs⟩ := htask.2.2.1
    have hended := hend (hfail.resolve_right id) r hr
    rw [hs] at hended
    cases hended
  | count d status ht hstatus =>
    rw [ht] at htask
    exact h.setTask ht (fun _ hs => hs.elim) ⟨htask.1, htask.2, hstatus⟩
      (fun _ hg => .inr (.inr hg))
  | noCount d ok ht hend =>
    rw [ht] at htask hfail
    refine h.setTask ht (fun _ hs => hs.elim) (served_commit htask.1 htask.2) fun g hg => ?_
    obtain ⟨rfl, hended⟩ : d.msg.runGroupID = g ∧ w.db.Ended g := hg
    obtain ⟨r, hr, hrg⟩ := htask.1.2
    rcases hfail with hok | hfail
    · exact absurd hrg (hend hok _ r hr)
    · exact absurd hended hfail
  | write d status ht => exact h.write ht
  | noWrite d status ht =>
    rw [ht] at htask hfail
    refine h.setTask ht (fun _ hs => hs.elim) (served_commit htask.1 htask.2.1) fun g hg => ?_
    obtain ⟨rfl, hended⟩ : d.msg.runGroupID = g ∧ w.db.Ended g := hg
    exact absurd hended (hfail.resolve_left Bool.false_ne_true)
  | commit partition offset ok ht =>
    rw [ht] at htask hsound
    refine h.commit ht (fun p o ho hne => ?_) (h.parts_update ?_)
    · exact mem_settle (f := fun p => if ok then (p.settle offset).commit offset
        else p.settle offset) ho hne (fun p => by split <;> rfl)
    · split
      · exact ⟨(Partition.safe_commit_settle _ _).mpr hsound, htask.1.2⟩
      · exact ⟨(h.parts partition).1.settle offset, (h.parts partition).2⟩

theorem valid_of_terminal {status : RunStatus} (h : terminalRunStatus status = true) :
    Service.Submission.validRunStatus status = true := by
  rw [terminalRunStatus, Bool.or_eq_true, decide_eq_true_iff, decide_eq_true_iff] at h
  rcases h with rfl | rfl <;> rfl

theorem fetch (h : Live w) (partition : Nat) : Live (w.fetch partition) := by
  rw [World.fetch]
  split
  next m ht hm =>
    have hopen : Open (Function.update w.parts partition (w.parts partition).fetch partition)
        (w.parts partition).position := by
      rw [Function.update_self]
      exact ⟨(h.parts partition).2, Nat.lt_succ_self _⟩
    have howed : ∀ p, (Function.update w.parts partition (w.parts partition).fetch p).owed =
        (w.parts p).owed := by
      intro p
      by_cases he : p = partition
      · rw [he, Function.update_self]
        rfl
      · rw [Function.update_of_ne he]
    refine h.quiet ht (h.parts_update ⟨(h.parts partition).1, Nat.le_succ_of_le (h.parts partition).2⟩)
      (fun _ hs => hs.elim) ?_ fun g hg => ?_
    · split
      next msg =>
        split
        · exact ⟨hm, hopen⟩
        next hvalid =>
          refine ⟨hopen, _, hm, fun m' he hterm => absurd hterm ?_⟩
          obtain rfl := some.inj he
          exact fun hterm => hvalid (valid_of_terminal hterm)
      · exact ⟨hopen, _, hm, fun m' he => by cases he⟩
    · rcases hg with ⟨hwaits, p, o, m', ho, hm', hadv⟩ | hg
      · exact .inr (.inl ⟨hwaits, p, o, m', (howed p).symm ▸ ho, hm', hadv⟩)
      · exact hg.elim
  · exact h

theorem report (h : Live w) (partition : Nat) (m : Option BenchmarkStatusUpdated) :
    Live (w.publishStatus partition m) := by
  have hstatuses : ∀ (p o : Nat) x, (w.statuses p)[o]? = some x →
      (Function.update w.statuses partition (w.statuses partition ++ [m]) p)[o]? = some x := by
    intro p o x hx
    by_cases he : p = partition
    · subst he
      rw [Function.update_self, getElem?_append_left (List.getElem?_eq_some_iff.mp hx).1]
      exact hx
    · rwa [Function.update_of_ne he]
  refine h.quiet rfl h.parts (fun _ => id) ?_ fun g hg => ?_
  · exact h.task.mono hstatuses rfl (fun _ _ => id) (fun _ _ _ _ _ => Iff.rfl) (fun _ => id)
      (fun _ _ _ _ _ => .inl)
  · rcases hg with ⟨hwaits, p, o, m', ho, hm', hadv⟩ | hg
    · exact .inr (.inl ⟨hwaits, p, o, m', ho, hstatuses p o _ hm', hadv⟩)
    · exact .inr (.inr (.inr hg))

theorem restart_leave (h : Live w) {t₀ : Task} (ht : w.task = t₀) (htaken : d.Taken w)
    (hholds : ∀ s, ¬ t₀.Holds s)
    (hcarries : ∀ g, t₀.Carries w.db g → w.Waits g ∧ Advances w.db g d.msg) :
    Live { w with
      task := .idle
      parts := fun p => (Function.update w.parts d.partition
        ((w.parts d.partition).owe d.offset) p).rewind } :=
  h.leave ht htaken (fun _ => rfl)
    (fun p => ⟨((h.parts_update (h.parts_owe htaken)) p).1, le_rfl⟩) hholds hcarries

theorem restart (h : Live w) (hstop : w.task.MayStop w) : Live w.restart := by
  have htask := h.task
  rw [World.restart]
  cases ht : w.task with
  | idle =>
    refine h.quiet ht (fun p => ⟨(h.parts p).1, le_rfl⟩) (fun _ => id) trivial fun g hg => ?_
    rcases hg with ⟨hwaits, p, o, m, ho, hm, hadv⟩ | hg
    · exact .inr (.inl ⟨hwaits, p, o, m, ho, hm, hadv⟩)
    · exact hg.elim
  | commit partition offset =>
    refine h.commit ht (fun p o ho hne => ?_) (fun p => ⟨((h.parts_update
      ⟨(h.parts partition).1.settle offset, (h.parts partition).2⟩) p).1, le_rfl⟩)
    exact mem_settle (f := fun p => p.settle offset) ho hne (fun _ => rfl)
  | update d =>
    rw [ht] at htask
    exact h.restart_leave ht htask (fun _ => id) (fun _ hg => hg.elim)
  | lookup d =>
    rw [ht] at htask
    exact h.restart_leave ht htask.1.1 (fun _ => id) (fun _ hg => hg.elim)
  | claim d =>
    rw [ht] at htask hstop
    refine h.restart_leave ht htask.1.1 (fun _ => id) fun g hg => ?_
    obtain rfl : d.msg.runGroupID = g := hg
    exact ⟨hstop, htask.2⟩
  | publish d next =>
    rw [ht] at hstop
    exact hstop.elim
  | reset d next =>
    rw [ht] at hstop
    exact False.elim hstop
  | count d | write d status =>
    rw [ht] at htask hstop
    refine h.restart_leave ht htask.1.1 (fun _ => id) fun g hg => ?_
    obtain ⟨rfl, hended⟩ : d.msg.runGroupID = g ∧ w.db.Ended g := hg
    exact absurd hended hstop

/-! ### Calls of the requests -/

theorem requests (h : Live w) {starts : List Start}
    (hpending : ∀ (i : Nat) (q : StartRequest),
      starts[i]? = some (.publish q) ↔ w.starts[i]? = some (.publish q))
    (hrequest : ∀ (i : Nat) (s : Start), starts[i]? = some s → s.Named) :
    Live { w with starts := starts } where
  __ := h
  request := hrequest
  claimed s r g hr hg hend hreq :=
    (h.claimed s r g hr hg hend hreq).imp id
      (Or.imp id fun ⟨i, q, hq, hs⟩ => ⟨i, q, (hpending i q).mpr hq, hs⟩)
  first i q hq := h.first i q ((hpending i q).mp hq)
  alone i j q q' hq hq' := h.alone i j q q' ((hpending i q).mp hq) ((hpending j q').mp hq')
  task := h.task.mono (fun _ _ _ => id) rfl (fun _ _ => id) (fun _ _ _ _ _ => Iff.rfl) (fun _ => id)
    (fun _ _ _ i q hq => .inl ((hpending i q).mp hq))
  active g hg := (h.active g hg).imp id (Or.imp id
    (Or.imp (fun ⟨i, q, hq, he⟩ => ⟨i, q, (hpending i q).mpr hq, he⟩) id))

theorem setStart (h : Live w) {i : Nat} {s s' : Start} (hs : w.starts[i]? = some s)
    (hq : ∀ q, s ≠ .publish q) (hq' : ∀ q, s' ≠ .publish q) (hn : s'.Named) :
    Live (w.setStart i s') := by
  refine h.requests (fun j q => ⟨fun hj => ?_, fun hj => ?_⟩) fun j t hj => ?_
  · exact (getElem?_setStart hj).elim (fun he => absurd he.2.symm (hq' q)) And.right
  · have hne : i ≠ j := fun he => hq q (some.inj (hs.symm.trans (he ▸ hj)))
    rwa [getElem?_set_ne hne]
  · rcases getElem?_setStart hj with ⟨_, rfl⟩ | ⟨_, hj⟩
    · exact hn
    · exact h.request j t hj

theorem start (h : Live w) (submissionID contestantID : String) {runGroupID : String}
    (children : List (String × String)) (hne : runGroupID ≠ "") :
    Live (w.startBenchmark submissionID contestantID runGroupID children) := by
  have hadd : ∀ s : Start, (∀ q, s ≠ .publish q) → s.Named →
      Live { w with starts := w.starts ++ [s] } := by
    intro s hs hn
    refine h.requests (fun i q => ⟨fun hi => ?_, fun hi => ?_⟩) fun i t hi => ?_
    · exact (getElem?_addStart hi).resolve_right (fun hc => hs q hc.symm)
    · rwa [getElem?_append_left (List.getElem?_eq_some_iff.mp hi).1]
    · rcases getElem?_addStart hi with hi | rfl
      · exact h.request i t hi
      · exact hn
  cases children with
  | nil => exact hadd _ nofun trivial
  | cons c cs => exact hadd _ nofun hne

theorem publishFirst (h : Live w) {i : Nat} {q : StartRequest} {a : Answer}
    (hs : w.starts[i]? = some (.publish q)) :
    Live (w.withRequested q.benchmark (w.starts.set i (.answered a)) w.task) := by
  have hset : ∀ {j : Nat} {t : Start}, (w.starts.set i (.answered a))[j]? = some t →
      j = i ∧ t = .answered a ∨ j ≠ i ∧ w.starts[j]? = some t := getElem?_setStart
  have hpending : ∀ (j : Nat) (q' : StartRequest),
      (w.starts.set i (.answered a))[j]? = some (.publish q') →
      j ≠ i ∧ w.starts[j]? = some (.publish q') := by
    intro j q' hq'
    rcases hset hq' with ⟨_, he⟩ | hold
    · exact Start.noConfusion he
    · exact hold
  refine h.withRequested (h.first i q hs).1 ?_ ?_ ?_ (fun _ => .inl) ?_ (fun _ => .inr)
  · intro j t hj
    rcases hset hj with ⟨_, rfl⟩ | ⟨_, hold⟩
    · trivial
    · exact h.request j t hold
  · intro j q' hq'
    obtain ⟨hne, hold⟩ := hpending j q' hq'
    exact ⟨hold, fun he => hne (h.alone j i q' q hold hs he)⟩
  · intro j q' hq'
    by_cases he : j = i
    · subst he
      obtain rfl := Start.publish.inj (some.inj (hq'.symm.trans hs))
      exact .inr rfl
    · exact .inl (by rwa [getElem?_set_ne (Ne.symm he)])
  · exact h.task.mono (fun _ _ _ => id) rfl (fun _ _ => id) (fun _ _ _ _ _ => Iff.rfl)
      (fun _ => served_withRequested) (fun _ _ _ j q' hq' => .inl (hpending j q' hq').2)

/-- **A group is inserted**, and its first run is about to be published. -/
theorem insert (h : Live w) {i : Nat} {q : StartRequest} {db : Tables}
    (hs : w.starts[i]? = some (.insert q))
    (hdb : w.db.insertRunGroupWithChildren q.runGroupID q.group q.children = .ok db) :
    Live ((w.setTables db).setStart i (.publish q)) := by
  obtain ⟨hnone, hgroups, _, hfresh, hhas⟩ := Tables.insertRunGroupWithChildren_eq_ok hdb
  have hkeep : ∀ s r, w.db.Has s r → db.Has s r := fun s r hr => (hhas s r).mpr (.inl hr)
  have hnew : ∀ r, ¬ w.db.Has q.first.1 r := hfresh _ (.head _)
  have hrow : ∃ r, db.Has q.first.1 r ∧ r.inGroup q.runGroupID = true ∧ r.status = .queued :=
    ⟨_, (hhas _ _).mpr (.inr (.head _)), decide_eq_true rfl, rfl⟩
  have hself : ((w.setTables db).setStart i (.publish q)).starts[i]? = some (.publish q) :=
    getElem?_set_self (List.getElem?_eq_some_iff.mp hs).1
  have hpending : ∀ (j : Nat) (q' : StartRequest), w.starts[j]? = some (.publish q') →
      ((w.setTables db).setStart i (.publish q)).starts[j]? = some (.publish q') := by
    intro j q' hq'
    have hne : i ≠ j := fun he => Start.noConfusion (some.inj (hs.symm.trans (he ▸ hq')))
    exact (getElem?_set_ne hne).trans hq'
  have halive : ∀ g, w.Alive g → ((w.setTables db).setStart i (.publish q)).Alive g :=
    fun g ⟨s, hd, r, hr, hg⟩ => ⟨s, hd, r, hkeep s r hr, hg⟩
  -- the other groups have the runs that they had
  have hended : ∀ g, q.runGroupID ≠ g → (db.Ended g ↔ w.db.Ended g) := fun g hne =>
    ⟨fun he s r hr hg => he s r (hkeep s r hr) hg,
      fun he s r hr hg => he s r (has_of_insert hdb hr hg hne) hg⟩
  have hother : ∀ s r g, w.db.Has s r → r.inGroup g = true → q.runGroupID ≠ g :=
    fun s r g hr hg he => h.grouped s r g hr hg (he ▸ hnone)
  constructor
  case known => exact fun s hd => (h.known s hd).imp (hkeep s)
  case grouped => exact fun s r g hr hg => grouped_of_insert hdb h.grouped hr hg
  case named =>
    intro g hg
    by_cases he : g = q.runGroupID
    · rw [he]
      have hn := h.request i _ hs
      exact hn
    · refine h.named g fun hc => hg ?_
      show db.groups.lookup g = none
      rwa [hgroups, lookup_insert_ne he]
  case request =>
    intro j t hj
    rcases getElem?_setStart hj with ⟨_, rfl⟩ | ⟨_, hj⟩
    · trivial
    · exact h.request j t hj
  case claimed =>
    intro s r g hr hg hend hreq
    rcases (hhas s r).mp hr with hr | hr
    · rcases h.claimed s r g hr hg hend hreq with hd | hd | ⟨j, q', hq', hs', hg'⟩
      · exact .inl hd
      · exact .inr (.inl hd)
      · exact .inr (.inr ⟨j, q', hpending j q' hq', hs', hg'⟩)
    obtain rfl := RunMeta.inGroup_unique (StartRequest.mem_children hr).1 hg
    refine .inr (.inr ⟨i, q, hself, ?_, rfl⟩)
    rcases mem_cons.mp hr with he | hr
    · exact (Prod.mk.inj he).1.symm
    · obtain ⟨c, _, he⟩ := List.mem_map.mp hr
      exact absurd (congrArg RunMeta.status (Prod.mk.inj he).2).symm hreq
  case closed =>
    intro g row hlookup hterm
    have hlookup' : db.groups.lookup g = some row := hlookup
    have hne : q.runGroupID ≠ g := by
      rintro rfl
      rw [hgroups, lookup_insert] at hlookup'
      obtain rfl := some.inj hlookup'
      exact Bool.false_ne_true hterm
    rw [hgroups, lookup_insert_ne hne.symm] at hlookup'
    exact (hended g hne).mpr (h.closed g row hlookup' hterm)
  case parts => exact h.parts
  case first =>
    intro j q' hq'
    rcases getElem?_setStart hq' with ⟨_, he⟩ | ⟨_, hq'⟩
    · obtain rfl := Start.publish.inj he
      exact ⟨hrow, fun hd => (h.known _ hd).elim hnew⟩
    · obtain ⟨⟨r, hr, hg⟩, hnot⟩ := h.first j q' hq'
      exact ⟨⟨r, hkeep _ r hr, hg⟩, hnot⟩
  case alone =>
    have hother : ∀ (j : Nat) (q' : StartRequest), w.starts[j]? = some (.publish q') →
        q'.first.1 ≠ q.first.1 := by
      intro j q' hq' he
      obtain ⟨⟨r, hr, _⟩, _⟩ := h.first j q' hq'
      exact hnew r (he ▸ hr)
    intro j k q₁ q₂ h₁ h₂ he
    exact alone_setStart (w := w.setTables db) hother h.alone h₁ h₂ he
  case task =>
    refine h.task.mono (fun _ _ _ => id) rfl hkeep
      (fun s r g hr hg => hended g (hother s r g hr hg)) ?_ ?_
    · intro m hm hterm
      obtain ⟨hknown, hc⟩ := hm hterm
      obtain ⟨hne, hlookup⟩ := lookup_of_insert hdb hknown
      refine ⟨hlookup, hc.imp (halive _) fun hwaits => ?_⟩
      rintro ⟨s, r, hr, hg, hreq⟩
      exact hwaits ⟨s, r, has_of_insert hdb hr hg hne, hg, hreq⟩
    · intro s r hr j q' hq'
      rcases getElem?_setStart hq' with ⟨_, he⟩ | ⟨_, hq'⟩
      · obtain rfl := Start.publish.inj he
        exact .inr fun he => hnew r (he ▸ hr)
      · exact .inl hq'
  case active =>
    rintro g ⟨row, hlookup, hterm⟩
    by_cases hne : q.runGroupID = g
    · exact .inr (.inr (.inl ⟨i, q, hself, hne⟩))
    have hlookup' : db.groups.lookup g = some row := hlookup
    rw [hgroups, lookup_insert_ne (Ne.symm hne)] at hlookup'
    rcases h.active g ⟨row, hlookup', hterm⟩ with
      hc | ⟨⟨s, r, hr, hg⟩, p, o, m, ho, hm, hadv⟩ | ⟨j, q', hq', hg⟩ | hc
    · exact .inl (halive g hc)
    · exact .inr (.inl ⟨⟨s, r, hkeep s r hr, hg⟩, p, o, m, ho, hm, hadv.group, hadv.ended,
        hadv.known.imp fun r hr => ⟨hkeep _ r hr.1, hr.2⟩⟩)
    · exact .inr (.inr (.inl ⟨j, q', hpending j q' hq', hg⟩))
    · exact .inr (.inr (.inr (hc.mono (hended g hne).mpr)))

theorem startStep (h : Live w) (i : Nat) (ok : Bool)
    (hok : ok = true ∨ ∀ q, w.starts[i]? ≠ some (.publish q)) : Live (w.startStep i ok) := by
  have hstep := startStep_cases w i ok
  generalize w.startStep i ok = w' at hstep ⊢
  cases hstep with
  | stay => exact h
  | move _ s s' hs hq hq' hf hi =>
    refine h.setStart hs hq hq' ?_
    cases s' with
    | find q => exact absurd rfl (hf q)
    | insert q =>
      obtain rfl := hi q rfl
      have hn := h.request i _ hs
      exact hn
    | findAgain q | publish q | answered a => trivial
  | insert q db hs hdb => exact h.insert hs hdb
  | publish q a hs => exact h.publishFirst hs
  | fail q a hs => exact absurd hs (hok.resolve_left Bool.false_ne_true q)

theorem step (h : Live w) (e : Event) (hsound : Sound w e) : Live (step w e) := by
  cases e with
  | start submissionID contestantID runGroupID children =>
    exact h.start submissionID contestantID children hsound
  | startStep i ok => exact h.startStep i ok hsound
  | report partition m => exact h.report partition m
  | fetch partition => exact h.fetch partition
  | taskStep ok => exact h.taskStep ok hsound.1 hsound.2
  | restart => exact h.restart hsound
  | recover | listRuns ok runs | recoveryStep ok partition => exact hsound.elim

theorem empty : Live empty where
  known _ hd := nomatch hd.choose_spec.1
  grouped _ r _ hr := nomatch hr
  named _ hg := absurd rfl hg
  request _ s hs := nomatch hs
  claimed _ r _ hr := nomatch hr
  closed _ row hrow := nomatch hrow
  parts _ := ⟨Partition.safe_start 0, le_rfl⟩
  first _ _ hq := nomatch hq
  alone _ _ _ _ hq := nomatch hq
  task := trivial
  active _ hg := nomatch hg.choose_spec.1

end Live

/-- **No run group is stuck** when the programs rest, after a run of sound steps. -/
theorem run_progressing (es : List Event) (hes : Allows step Sound empty es)
    (hrests : (run empty es).Rests) : (run empty es).Progressing :=
  (hes.invariant (fun _ e h hs => h.step e hs) Live.empty).progressing hrests

/-- The publication of the second run fails and the consumer is started anew; the third run
waits while the second is in flight. -/
theorem run_progressing_retried : (run empty retried).Progressing :=
  run_progressing retried (by decide +kernel) ⟨by decide +kernel, not_starting (by decide +kernel)⟩

/-- **A group is closed only when its runs have ended**, after a run of sound steps. -/
theorem run_ended (es : List Event) (hes : Allows step Sound empty es) {g : String}
    (hclosed : (run empty es).Closed g) : (run empty es).db.Ended g := by
  obtain ⟨row, hrow, hterm⟩ := hclosed
  exact (hes.invariant (fun _ e h hs => h.step e hs) Live.empty).closed g row hrow hterm

/-- A benchmark of one scenario, whose run ends. -/
def finished : List Event :=
  [.start "s" "c" "g" [("r", "x")], .startStep 0 true, .startStep 0 true, .startStep 0 true,
    .report 0 (some ⟨"r", "s", "g", .completed⟩)] ++ processing 6

theorem run_ended_finished : (run empty finished).db.Ended "g" :=
  run_ended finished (by decide +kernel) (by decide +kernel)

/-- The first run of a benchmark cannot be published, and the request is made again. -/
def unpublished : List Event :=
  [.start "s" "c" "g" [("r1", "x"), ("r2", "y")], .startStep 0 true, .startStep 0 true,
    .startStep 0 false, .start "s" "c" "g2" [("r3", "x"), ("r4", "y")], .startStep 1 true]

/-- **A benchmark that never starts**: nothing was dispatched and no message is left, but the
group is active, and the request that is made again is answered with it. -/
theorem run_stranded :
    (run empty unpublished).Rests ∧ ¬ (run empty unpublished).Progressing ∧
      (run empty unpublished).requested = [] ∧
      (run empty unpublished).starts[1]? =
        some (.answered (.group 200 "g" ⟨"s", "c", .requested⟩)) := by
  have hactive : (run empty unpublished).Active "g" :=
    ⟨⟨"s", "c", .requested⟩, by decide +kernel, rfl⟩
  have hnone : (run empty unpublished).requested = [] := by decide +kernel
  refine ⟨⟨by decide +kernel, not_starting (by decide +kernel)⟩, fun h => ?_, hnone,
    by decide +kernel⟩
  rcases h "g" hactive with ⟨s, ⟨m, hm, _⟩, _⟩ | ⟨_, p, o, m, _, hm, _⟩
  · rw [hnone] at hm
    cases hm
  · cases hm

end MatchBench.Dispatch
