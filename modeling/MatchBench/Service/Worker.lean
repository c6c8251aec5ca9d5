import MatchBench.Lib.Offset
import MatchBench.Lib.Table

/-!
# The worker loop of the bot fleet

A worker reads workload assignments, runs each of them in a task of its own, and commits an
assignment when its task is done.  `InFlight` admits one task per partition, so that tasks
that finish out of order do not commit past each other.  But the loop also commits from
where it receives, when it discards a message that is empty, invalid or stale, and an
assignment that was not admitted is left behind for redelivery while the loop reads on.

The state of a partition is followed together with what is owed: the assignments that were
received and are neither completed nor discarded (`Track`).  `commits_safe` says that the
committed offset never passes one of them in a run where each message that is discarded or
admitted comes when nothing before it is owed (`InTurn`).
-/

namespace MatchBench.Service

/-! ### Admission -/

/-- The partitions that have a task, with the slot of each. -/
structure InFlight where
  partitions : AList (fun _ : Int => Nat)

inductive Reject
  | partitionBusy
  | atCapacity
  deriving DecidableEq, Repr

namespace InFlight

def new : InFlight := ⟨∅⟩

def len (f : InFlight) : Nat := f.partitions.entries.length

def tryAdmit (f : InFlight) (partition : Int) (cap : Nat) : Except Reject (Nat × InFlight) :=
  if (f.partitions.lookup partition).isSome then .error .partitionBusy
  else if cap ≤ f.len then .error .atCapacity
  else
    let used := f.partitions.entries.map Sigma.snd
    -- the lowest free slot
    match (List.range cap).find? (fun s => !used.contains s) with
    | none => .error .atCapacity
    | some slot => .ok (slot, ⟨f.partitions.insert partition slot⟩)

def finish (f : InFlight) (partition : Int) : InFlight := ⟨f.partitions.erase partition⟩

end InFlight

/-! ### Assignments -/

/-- A message of the workload assignments with what is read off the clock and the settings
when it is received.  The payload may be missing, and it may not decode; of the spec only
the time of publication matters here. -/
structure Assignment where
  payload : Option (Option UInt64)
  nowUnixNs : UInt64
  maxAgeS : UInt64
  deriving DecidableEq, Repr

/-- With saturating arithmetic. -/
def isSpecStale (publishedAtUnixNs nowUnixNs maxAgeS : UInt64) : Bool :=
  if publishedAtUnixNs = 0 then false
  else decide (min (maxAgeS.toNat * 1000000000) (2 ^ 64 - 1) <
    nowUnixNs.toNat - publishedAtUnixNs.toNat)

/-- Empty, invalid or stale. -/
def Assignment.discarded (m : Assignment) : Bool :=
  match m.payload with
  | none => true
  | some none => true
  | some (some publishedAtUnixNs) => isSpecStale publishedAtUnixNs m.nowUnixNs m.maxAgeS

/-! ### The state of the partitions -/

/-- A partition with the assignments that were completed or discarded.  Every offset below
`high` has been received. -/
structure Track where
  part : Partition
  high : Nat
  settled : Finset Nat

namespace Track

/-- What lies before the start counts as settled. -/
def start (offset : Nat) : Track := ⟨Partition.start offset, offset, Finset.range offset⟩

/-- The next message is received; it is owed unless it was settled before. -/
def receive (t : Track) : Track where
  part :=
    if t.part.position ∈ t.settled then t.part.fetch else t.part.fetch.owe t.part.position
  high := max t.high (t.part.position + 1)
  settled := t.settled

def settle (t : Track) (offset : Nat) : Track :=
  { t with part := t.part.settle offset, settled := insert offset t.settled }

def commit (t : Track) (offset : Nat) : Track := { t with part := t.part.commit offset }

def rewind (t : Track) : Track := { t with part := t.part.rewind }

end Track

structure Worker where
  inFlight : InFlight
  /-- The running tasks, each with the partition and the offset of its assignment. -/
  tasks : AList (fun _ : Nat => Int × Nat)
  nextTask : Nat
  tracks : Int → Track

namespace Worker

def new (offsets : Int → Nat) : Worker :=
  ⟨InFlight.new, ∅, 0, fun partition => Track.start (offsets partition)⟩

def update (w : Worker) (partition : Int) (f : Track → Track) : Worker :=
  { w with tracks := Function.update w.tracks partition (f (w.tracks partition)) }

/-- The process ends, and a new one reads on from the committed offsets. -/
def restart (w : Worker) : Worker :=
  { w with inFlight := InFlight.new, tasks := ∅, tracks := fun partition => (w.tracks partition).rewind }

inductive Turn
  | recv (partition : Int) (m : Assignment) (commitOk : Bool)
  /-- A task is done, with or without an error. -/
  | finish (task : Nat) (commitOk : Bool)
  | panicked (task : Nat)
  | restart
  /-- The partition is taken away and given back; its tasks run on. -/
  | rebalance (partition : Int)
  deriving DecidableEq, Repr

/-- The receive arm of the loop. -/
def recv (cap : Nat) (w : Worker) (partition : Int) (m : Assignment) (commitOk : Bool) : Worker :=
  let offset := (w.tracks partition).part.position
  let w := w.update partition Track.receive
  if m.discarded then
    let w := w.update partition (fun t => t.settle offset)
    -- an error of this commit ends the worker
    if commitOk then w.update partition (fun t => t.commit offset) else w.restart
  else
    match w.inFlight.tryAdmit partition cap with
    | .ok (_, inFlight) =>
        { w with
          inFlight := inFlight
          tasks := w.tasks.insert w.nextTask (partition, offset)
          nextTask := w.nextTask + 1 }
    | .error _ => w

/-- Remove a task and free its partition. -/
def release (w : Worker) (task : Nat) (partition : Int) : Worker :=
  { w with tasks := w.tasks.erase task, inFlight := w.inFlight.finish partition }

def completeWorkload (w : Worker) (task : Nat) (commitOk : Bool) : Worker :=
  match w.tasks.lookup task with
  | none => w
  | some (partition, offset) =>
      let w := (w.release task partition).update partition (fun t => t.settle offset)
      if commitOk then w.update partition (fun t => t.commit offset) else w

/-- One turn of the loop; at capacity it does not receive. -/
def turn (cap : Nat) (w : Worker) : Turn → Worker
  | .recv partition m commitOk =>
      if w.inFlight.len < cap then w.recv cap partition m commitOk else w
  | .finish task commitOk => w.completeWorkload task commitOk
  | .panicked task =>
      match w.tasks.lookup task with
      | none => w
      | some (partition, _) => w.release task partition
  | .restart => w.restart
  | .rebalance partition => w.update partition Track.rewind

def run (cap : Nat) (offsets : Int → Nat) (ts : List Turn) : Worker :=
  ts.foldl (turn cap) (new offsets)

end Worker

/-! ### What one turn keeps -/

/-- Nothing before the offset is owed. -/
def Track.NoneBefore (t : Track) (offset : Nat) : Prop := ∀ o ∈ t.part.owed, offset ≤ o
  deriving Decidable

structure Track.OK (t : Track) : Prop where
  safe : t.part.Safe
  committed : t.part.committed ≤ t.high
  position : t.part.position ≤ t.high
  owed : ∀ o ∈ t.part.owed, o < t.high
  received : ∀ o < t.high, o ∈ t.settled ∨ o ∈ t.part.owed

namespace Track

theorem OK.start (offset : Nat) : (start offset).OK where
  safe := Partition.safe_start offset
  committed := le_rfl
  position := le_rfl
  owed _ h := absurd h (Finset.notMem_empty _)
  received _ h := .inl (Finset.mem_range.mpr h)

theorem mem_receive (t : Track) {o : Nat} :
    o ∈ t.receive.part.owed ↔ o ∈ t.part.owed ∨
      o = t.part.position ∧ t.part.position ∉ t.settled := by
  rw [receive]
  by_cases hs : t.part.position ∈ t.settled
  · rw [if_pos hs]
    exact ⟨Or.inl, fun ho => ho.resolve_right (fun hc => hc.2 hs)⟩
  · rw [if_neg hs]
    exact Finset.mem_insert.trans ⟨fun ho => ho.symm.imp id (fun he => ⟨he, hs⟩),
      fun ho => ho.symm.imp (fun he => he.1) id⟩

theorem receive_committed (t : Track) : t.receive.part.committed = t.part.committed := by
  rw [receive]
  split <;> rfl

theorem receive_position (t : Track) : t.receive.part.position = t.part.position + 1 := by
  rw [receive]
  split <;> rfl

variable {t : Track} {offset : Nat}

theorem OK.receive (h : t.OK) : t.receive.OK where
  safe o ho := by
    rw [receive_committed]
    rcases t.mem_receive.mp ho with ho | ⟨ho, hs⟩
    · exact h.safe o ho
    -- a message that is delivered again is owed already
    rcases Nat.lt_or_ge o t.high with hlt | hge
    · rcases h.received o hlt with hc | hc
      · exact absurd (ho ▸ hc) hs
      · exact h.safe o hc
    · exact h.committed.trans hge
  committed := by
    rw [receive_committed]
    exact h.committed.trans (le_max_left _ _)
  position := by
    rw [receive_position]
    exact le_max_right _ _
  owed o ho := by
    rcases t.mem_receive.mp ho with ho | ⟨ho, _⟩
    · exact (h.owed o ho).trans_le (le_max_left _ _)
    · rw [ho]
      exact lt_of_lt_of_le (Nat.lt_succ_self _) (le_max_right t.high _)
  received o ho := by
    rcases Nat.lt_or_ge o t.high with hlt | hge
    · exact (h.received o hlt).imp id (fun hc => t.mem_receive.mpr (.inl hc))
    have hpos := h.position
    have heq : o = t.part.position := by
      have : o < max t.high (t.part.position + 1) := ho
      omega
    by_cases hs : t.part.position ∈ t.settled
    · exact .inl (heq ▸ hs)
    · exact .inr (t.mem_receive.mpr (.inr ⟨heq, hs⟩))

theorem OK.settle (h : t.OK) (offset : Nat) : (t.settle offset).OK where
  safe := h.safe.settle offset
  __ := h
  owed o ho := h.owed o (Finset.mem_of_mem_erase ho)
  received o ho := by
    by_cases heq : o = offset
    · exact .inl (heq ▸ Finset.mem_insert_self _ _)
    · exact (h.received o ho).imp (fun hs => Finset.mem_insert_of_mem hs)
        (fun hs => Finset.mem_erase.mpr ⟨heq, hs⟩)

theorem OK.rewind (h : t.OK) : t.rewind.OK where
  __ := h
  position := h.committed

theorem OK.commit (h : t.OK) (hb : t.NoneBefore offset) (hlt : offset < t.high) :
    ((t.settle offset).commit offset).OK where
  safe := (Partition.safe_commit_settle t.part offset).mpr hb
  committed := hlt
  position := h.position
  owed := (h.settle offset).owed
  received := (h.settle offset).received

theorem NoneBefore.settle (h : t.NoneBefore offset) (o : Nat) :
    (t.settle o).NoneBefore offset := fun o' ho => h o' (Finset.mem_of_mem_erase ho)

theorem OK.noneBefore_receive (h : t.OK) (hb : t.NoneBefore offset)
    (hlt : offset < t.high ∨ offset = t.part.position) : t.receive.NoneBefore offset := by
  intro o ho
  rcases t.mem_receive.mp ho with ho | ⟨ho, hs⟩
  · exact hb o ho
  rcases Nat.lt_or_ge o t.high with hlt' | hge
  · rcases h.received o hlt' with hc | hc
    · exact absurd (ho ▸ hc) hs
    · exact hb o hc
  · omega

end Track

namespace Worker

/-- The state of one partition: nothing is passed, and nothing before the assignment of a
running task is owed. -/
structure OK (w : Worker) (partition : Int) : Prop where
  track : (w.tracks partition).OK
  tasks : ∀ task offset, w.tasks.lookup task = some (partition, offset) →
    offset < (w.tracks partition).high ∧ (w.tracks partition).NoneBefore offset

/-- A message of the partition that is discarded or admitted comes when nothing before it
is owed. -/
def InTurn (cap : Nat) (w : Worker) (partition : Int) : Turn → Prop
  | .recv partition' m _ =>
      partition' = partition → w.inFlight.len < cap →
      m.discarded = true ∨ (w.inFlight.tryAdmit partition cap).isOk = true →
      (w.tracks partition).NoneBefore (w.tracks partition).part.position
  | .finish _ _ => True
  | .panicked _ => True
  | .restart => True
  | .rebalance _ => True

instance (cap : Nat) (w : Worker) (partition : Int) (t : Turn) :
    Decidable (InTurn cap w partition t) :=
  match t with
  | .recv _ _ _ => inferInstanceAs (Decidable (_ → _ → _ → _))
  | .finish _ _ => inferInstanceAs (Decidable True)
  | .panicked _ => inferInstanceAs (Decidable True)
  | .restart => inferInstanceAs (Decidable True)
  | .rebalance _ => inferInstanceAs (Decidable True)

theorem update_self (w : Worker) (partition : Int) (f : Track → Track) :
    (w.update partition f).tracks partition = f (w.tracks partition) := Function.update_self ..

theorem update_of_ne (w : Worker) {partition partition' : Int} (h : partition ≠ partition')
    (f : Track → Track) : (w.update partition' f).tracks partition = w.tracks partition :=
  Function.update_of_ne h ..

variable {partition : Int} {w : Worker} {cap : Nat}

theorem OK.restart (h : w.OK partition) : w.restart.OK partition where
  track := h.track.rewind
  tasks task offset ht := by
    rw [Worker.restart, AList.lookup_empty] at ht
    cases ht

theorem OK.congr {w w' : Worker} (h : w.OK partition)
    (htrack : w'.tracks partition = w.tracks partition)
    (htasks : ∀ task offset, w'.tasks.lookup task = some (partition, offset) →
      w.tasks.lookup task = some (partition, offset)) :
    w'.OK partition where
  track := htrack ▸ h.track
  tasks task offset ht := htrack ▸ h.tasks task offset (htasks task offset ht)

theorem OK.receive (h : w.OK partition) : (w.update partition Track.receive).OK partition where
  track := by
    rw [update_self]
    exact h.track.receive
  tasks task offset ht := by
    obtain ⟨hlt, hb⟩ := h.tasks task offset ht
    rw [update_self]
    exact ⟨hlt.trans_le (le_max_left _ _), h.track.noneBefore_receive hb (.inl hlt)⟩

theorem OK.settle (h : w.OK partition) {offset : Nat} (hlt : offset < (w.tracks partition).high)
    (hb : (w.tracks partition).NoneBefore offset) :
    (w.update partition (fun t => t.settle offset)).OK partition ∧
      ((w.update partition (fun t => t.settle offset)).update partition
        (fun t => t.commit offset)).OK partition := by
  have htasks : ∀ task o, w.tasks.lookup task = some (partition, o) →
      o < (w.tracks partition).high ∧ ((w.tracks partition).settle offset).NoneBefore o :=
    fun task o ht => (h.tasks task o ht).imp id (fun hn => hn.settle offset)
  constructor
  · constructor
    · rw [update_self]
      exact h.track.settle offset
    · intro task o ht
      rw [update_self]
      exact htasks task o ht
  constructor
  · rw [update_self, update_self]
    exact h.track.commit hb hlt
  · intro task o ht
    rw [update_self, update_self]
    exact htasks task o ht

theorem OK.recv (h : w.OK partition) {m : Assignment} (commitOk : Bool)
    (hturn : m.discarded = true ∨ (w.inFlight.tryAdmit partition cap).isOk = true →
      (w.tracks partition).NoneBefore (w.tracks partition).part.position) :
    (w.recv cap partition m commitOk).OK partition := by
  have hr := h.receive
  have hlt : (w.tracks partition).part.position <
      ((w.update partition Track.receive).tracks partition).high := by
    rw [update_self]
    exact lt_of_lt_of_le (Nat.lt_succ_self _) (le_max_right (w.tracks partition).high _)
  have hnone : (w.tracks partition).NoneBefore (w.tracks partition).part.position →
      ((w.update partition Track.receive).tracks partition).NoneBefore
        (w.tracks partition).part.position := by
    intro hb
    rw [update_self]
    exact h.track.noneBefore_receive hb (.inr rfl)
  rw [Worker.recv]
  by_cases hd : m.discarded = true
  · rw [if_pos hd]
    obtain ⟨hs, hc⟩ := hr.settle hlt (hnone (hturn (.inl hd)))
    cases commitOk with
    | false => exact hs.restart
    | true => exact hc
  rw [if_neg hd]
  have hin : (w.update partition Track.receive).inFlight = w.inFlight := rfl
  rw [hin]
  cases hslot : w.inFlight.tryAdmit partition cap with
  | error r => exact hr
  | ok x =>
    have hb := hnone (hturn (.inr (by rw [hslot]; rfl)))
    refine ⟨hr.track, fun task offset ht => ?_⟩
    rcases lookup_insert_eq_some.mp ht with ⟨-, heq⟩ | ⟨-, ht⟩
    · rw [(Prod.mk.inj heq).2]
      exact ⟨hlt, hb⟩
    · exact hr.tasks task offset ht

theorem OK.recv_ne {partition partition' : Int} (h : w.OK partition) (hne : partition ≠ partition')
    (m : Assignment) (commitOk : Bool) :
    (w.recv cap partition' m commitOk).OK partition := by
  rw [Worker.recv]
  have hr : (w.update partition' Track.receive).OK partition :=
    h.congr (update_of_ne w hne _) (fun _ _ ht => ht)
  have hs : ((w.update partition' Track.receive).update partition'
      (fun t => t.settle (w.tracks partition').part.position)).OK partition :=
    hr.congr (update_of_ne _ hne _) (fun _ _ ht => ht)
  split
  · cases commitOk with
    | false => exact hs.restart
    | true =>
      rw [if_pos rfl]
      exact hs.congr (update_of_ne _ hne _) (fun _ _ ht => ht)
  split
  · refine hr.congr rfl (fun task offset ht => ?_)
    rcases lookup_insert_eq_some.mp ht with ⟨-, heq⟩ | ⟨-, ht⟩
    · exact absurd (Prod.mk.inj heq).1 hne
    · exact ht
  · exact hr

theorem OK.release (h : w.OK partition) (task : Nat) (partition' : Int) :
    (w.release task partition').OK partition := by
  refine h.congr rfl (fun task' offset ht => ?_)
  by_cases heq : task' = task
  · rw [Worker.release, heq, AList.lookup_erase] at ht
    cases ht
  · rw [Worker.release, AList.lookup_erase_ne heq] at ht
    exact ht

theorem OK.completeWorkload (h : w.OK partition) (task : Nat) (commitOk : Bool) :
    (w.completeWorkload task commitOk).OK partition := by
  rw [Worker.completeWorkload]
  cases ht : w.tasks.lookup task with
  | none => exact h
  | some x =>
    obtain ⟨partition', offset⟩ := x
    dsimp only
    have hr := h.release task partition'
    by_cases heq : partition' = partition
    · rw [heq] at ht hr ⊢
      obtain ⟨hlt, hb⟩ := h.tasks task offset ht
      obtain ⟨hs, hc⟩ := hr.settle hlt hb
      cases commitOk with
      | false => exact hs
      | true => exact hc
    have hne : partition ≠ partition' := fun he => heq he.symm
    have hs : ((w.release task partition').update partition' (fun t => t.settle offset)).OK
        partition := hr.congr (update_of_ne _ hne _) (fun _ _ ht => ht)
    cases commitOk with
    | false => exact hs
    | true =>
      rw [if_pos rfl]
      exact hs.congr (update_of_ne _ hne _) (fun _ _ ht => ht)

/-- **One turn** keeps the state of a partition. -/
theorem OK.turn (h : w.OK partition) (t : Turn) (ht : InTurn cap w partition t) :
    (w.turn cap t).OK partition := by
  cases t with
  | recv partition' m commitOk =>
    rw [Worker.turn]
    by_cases hlen : w.inFlight.len < cap
    · rw [if_pos hlen]
      by_cases heq : partition' = partition
      · rw [heq]
        exact h.recv commitOk (ht heq hlen)
      · exact h.recv_ne (fun he => heq he.symm) m commitOk
    · rw [if_neg hlen]
      exact h
  | finish task commitOk => exact h.completeWorkload task commitOk
  | panicked task =>
    rw [Worker.turn]
    cases w.tasks.lookup task with
    | none => exact h
    | some x => exact h.release task x.1
  | restart => exact h.restart
  | rebalance partition' =>
    rw [Worker.turn]
    by_cases heq : partition' = partition
    · rw [heq]
      constructor
      · rw [update_self]
        exact h.track.rewind
      · intro task offset hl
        rw [update_self]
        exact h.tasks task offset hl
    · exact h.congr (update_of_ne _ (fun he => heq he.symm) _) (fun _ _ hl => hl)

/-- Every turn of a run comes in turn. -/
def InTurns (cap : Nat) (partition : Int) : Worker → List Turn → Prop
  | _, [] => True
  | w, t :: ts => InTurn cap w partition t ∧ InTurns cap partition (w.turn cap t) ts

instance instDecidableInTurns (cap : Nat) (partition : Int) : ∀ (w : Worker) (ts : List Turn),
    Decidable (InTurns cap partition w ts)
  | _, [] => inferInstanceAs (Decidable True)
  | w, t :: ts =>
      have : Decidable (InTurns cap partition (w.turn cap t) ts) :=
        instDecidableInTurns cap partition (w.turn cap t) ts
      inferInstanceAs (Decidable (_ ∧ _))

theorem OK.run {ts : List Turn} : ∀ {w : Worker}, w.OK partition →
    InTurns cap partition w ts → ∀ pre, pre <+: ts → (pre.foldl (Worker.turn cap) w).OK partition := by
  induction ts with
  | nil =>
    intro w h _ pre hp
    rw [List.prefix_nil.mp hp]
    exact h
  | cons t ts ih =>
    intro w h ht pre hp
    cases pre with
    | nil => exact h
    | cons t' pre =>
      obtain ⟨he, hp⟩ := List.cons_prefix_cons.mp hp
      rw [he]
      exact ih (h.turn t ht.1) ht.2 pre hp

/-- **The committed offset passes no unfinished assignment** in a run in which each message
of the partition that is discarded or admitted comes when nothing before it is owed. -/
theorem commits_safe (cap : Nat) (offsets : Int → Nat) (partition : Int) (ts : List Turn)
    (h : InTurns cap partition (new offsets) ts) :
    ∀ pre, pre <+: ts → ((run cap offsets pre).tracks partition).part.Safe := by
  have hnew : (new offsets).OK partition :=
    ⟨Track.OK.start _, nofun⟩
  exact fun pre hp => (hnew.run h pre hp).track.safe

/-- An assignment that is not stale. -/
def fresh : Assignment := ⟨some (some 0), 1, 1⟩

/-- A null message. -/
def empty : Assignment := ⟨none, 1, 1⟩

/-- An assignment is run to its end, and one is rejected meanwhile; after a restart it is
delivered again and run, and then a null message is discarded. -/
theorem commits_safe_redelivered :
    InTurns 2 0 (new fun _ => 0) [.recv 0 fresh true, .recv 0 fresh true, .finish 0 true, .restart,
        .recv 0 fresh true, .finish 1 true, .recv 0 empty true] ∧
      ∀ pre, pre <+: [.recv 0 fresh true, .recv 0 fresh true, .finish 0 true, .restart,
        .recv 0 fresh true, .finish 1 true, .recv 0 empty true] →
        ((run 2 (fun _ => 0) pre).tracks 0).part.Safe :=
  ⟨by decide, commits_safe 2 (fun _ => 0) 0 _ (by decide)⟩

/-- A null message is discarded while the assignment before it runs.  And an assignment that
was rejected is passed by the next one, without any discard. -/
theorem run_passes_unfinished :
    ¬ ((run 2 (fun _ => 0) [.recv 0 fresh true, .recv 0 empty true]).tracks 0).part.Safe ∧
      ¬ ((run 2 (fun _ => 0) [.recv 0 fresh true, .recv 0 fresh true, .finish 0 true,
        .recv 0 fresh true, .finish 1 true]).tracks 0).part.Safe := by
  decide

end Worker

end MatchBench.Service
