import MatchBench.Model.Order
import MatchBench.Lib.Sort
import MatchBench.Lib.Table

/-!
# The partition lease allocator

The controller's `PartitionLeaseAllocator` owns the partitions `[0, total)`.  A session
takes a lease of `count` of them through `Acquire` and gives it back through `Release`;
an `Acquire` that does not fit waits in a first-in first-out queue.

All of the allocator's work is done under one mutex, so a run is a sequence of critical
sections.  `World` is the allocator with what stands outside the lock: the `Acquire` calls
that are blocked, by arrival number, and the contents of their grant channels.  An `Event`
is one critical section, or the receive that ends a blocked call, and `step` runs it and
says what the call returns, if it returns.  A call that is cancelled after its grant leaves
the lock and comes back for it: that is two events, `cancel` and `undo`, and others may come
between them.

`takeLocked` takes the first `count` keys that ranging over the map `free` yields.  Go leaves
that order open, so an event carries one (`Range`).  While a queue is served `free` only
shrinks, so one order for each set covers every choice of the critical section.
-/

namespace MatchBench.Controller

open List

/-- An iteration order for the Go map `free`. -/
structure Range where
  enum : List Int → List Int
  perm : ∀ l, (enum l).Perm l

/-- Iteration in the order of the list. -/
def Range.id : Range := ⟨fun l => l, fun _ => Perm.refl _⟩

/-- A queued `Acquire`; `id` stands for the pointer, and is the call's arrival number. -/
structure LeaseWaiter where
  id : Nat
  sessionID : String
  count : Int
  deriving DecidableEq, Repr

structure PartitionLeaseAllocator where
  total : Int
  free : List Int
  leasedBy : GoMap String (List Int)
  queue : List LeaseWaiter

/-- The partitions `[0, total)`. -/
def partitions (total : Int) : List Int := (List.range total.toNat).map Int.ofNat

def newLeaseAllocator (total : Int) : PartitionLeaseAllocator :=
  { total := total, free := partitions total, leasedBy := ∅, queue := [] }

inductive LeaseError where
  | notPositive (count : Int)
  | exceedsTotal (count total : Int)
  | alreadyHolds (sessionID : String)
  | ctxErr
  deriving DecidableEq, Repr

/-- The text of the error; a done context's own text is not the allocator's. -/
def LeaseError.text : LeaseError → Option String
  | notPositive count => some s!"lease count must be positive, got {count}"
  | exceedsTotal count total => some
      s!"requested {count} partitions exceeds workload.assignments partition count {total}"
  | alreadyHolds sessionID => some s!"session {sessionID} already holds a partition lease"
  | ctxErr => none

/-- The loop of `takeLocked` over the map's keys: it stops once it has `count`. -/
def pickLoop (count : Int) : List Int → List Int → List Int
  | parts, [] => parts
  | parts, p :: ps =>
      if ((parts ++ [p]).length : Int) = count then parts ++ [p]
      else pickLoop count (parts ++ [p]) ps

namespace PartitionLeaseAllocator

def takeLocked (it : Range) (a : PartitionLeaseAllocator) (sessionID : String) (count : Int) :
    List Int × PartitionLeaseAllocator :=
  let parts := stableSort (fun x y => decide (x < y)) (pickLoop count [] (it.enum a.free))
  (parts, { a with free := a.free.diff parts, leasedBy := a.leasedBy.insert sessionID parts })

/-- The body that `Release` and a cancelled `Acquire` share: the partitions go back and the
lease is deleted. -/
def putBack (a : PartitionLeaseAllocator) (sessionID : String) (parts : List Int) :
    PartitionLeaseAllocator :=
  { a with
    free := parts.foldl (fun free p => free.insert p) a.free
    leasedBy := a.leasedBy.erase sessionID }

/-- The partitions of all leases. -/
def leased (a : PartitionLeaseAllocator) : List Int := a.leasedBy.entries.flatMap (·.2)

/-- `free` and the leases make up `[0, total)`, each partition once. -/
def Partitions (a : PartitionLeaseAllocator) : Prop :=
  (a.free ++ a.leased).Perm (partitions a.total)

/-- The head of the queue, if there is one, does not fit in `free`. -/
def HeadBlocked (a : PartitionLeaseAllocator) : Prop :=
  ∀ q ∈ a.queue.head?, (a.free.length : Int) < q.count

end PartitionLeaseAllocator

/-- An `Acquire` that is blocked; once `cancelled` it has left the `select` through
`ctx.Done()` without finding itself in the queue, and waits for its grant to undo it. -/
structure Call where
  sessionID : String
  count : Int
  cancelled : Bool
  deriving DecidableEq, Repr

/-- What an `Acquire` returns. -/
structure Reply where
  sessionID : String
  count : Int
  result : Except LeaseError (List Int)

/-- The allocator, the blocked calls and their grant channels.  `granted` and `withdrawn`
keep the history: the arrival numbers of the calls that got a lease, in the order of the
grants, and of those cancelled while they were queued. -/
structure World where
  alloc : PartitionLeaseAllocator
  calls : GoMap Nat Call := ∅
  grants : GoMap Nat (List Int) := ∅
  arrivals : Nat := 0
  granted : List Nat := []
  withdrawn : List Nat := []

namespace World

def new (total : Int) : World := { alloc := newLeaseAllocator total }

/-- One round of `serveQueueLocked`: the head gets its lease and leaves the queue, and the
parts go into its channel. -/
def grantHead (it : Range) (w : World) (head : LeaseWaiter) (rest : List LeaseWaiter) : World :=
  let (parts, a) := w.alloc.takeLocked it head.sessionID head.count
  { w with
    alloc := { a with queue := rest }
    grants := w.grants.insert head.id parts
    granted := w.granted ++ [head.id] }

def serveLoop (it : Range) : List LeaseWaiter → World → World
  | [], w => w
  | head :: rest, w =>
      if (w.alloc.free.length : Int) < head.count then w
      else serveLoop it rest (w.grantHead it head rest)

def serveQueueLocked (it : Range) (w : World) : World := serveLoop it w.alloc.queue w

/-- `Acquire` up to the point where it returns or blocks. -/
def acquire (it : Range) (w : World) (sessionID : String) (count : Int) : World × Option Reply :=
  if count ≤ 0 then (w, some ⟨sessionID, count, .error (.notPositive count)⟩)
  else if count > w.alloc.total then
    (w, some ⟨sessionID, count, .error (.exceedsTotal count w.alloc.total)⟩)
  else if sessionID ∈ w.alloc.leasedBy then
    (w, some ⟨sessionID, count, .error (.alreadyHolds sessionID)⟩)
  else if w.alloc.queue = [] ∧ (w.alloc.free.length : Int) ≥ count then
    let (parts, a) := w.alloc.takeLocked it sessionID count
    ({ w with alloc := a, arrivals := w.arrivals + 1, granted := w.granted ++ [w.arrivals] },
      some ⟨sessionID, count, .ok parts⟩)
  else
    ({ w with
        alloc := { w.alloc with queue := w.alloc.queue ++ [⟨w.arrivals, sessionID, count⟩] }
        calls := w.calls.insert w.arrivals ⟨sessionID, count, false⟩
        arrivals := w.arrivals + 1 }, none)

/-- The call leaves the `select` with its grant. -/
def receive (w : World) (id : Nat) : World × Option Reply :=
  match w.calls.lookup id, w.grants.lookup id with
  | some ⟨sessionID, count, false⟩, some parts =>
      ({ w with calls := w.calls.erase id, grants := w.grants.erase id },
        some ⟨sessionID, count, .ok parts⟩)
  | _, _ => (w, none)

/-- The call leaves the `select` through `ctx.Done()` and looks for itself in the queue. -/
def cancel (it : Range) (w : World) (id : Nat) : World × Option Reply :=
  match w.calls.lookup id with
  | some ⟨sessionID, count, false⟩ =>
      if w.alloc.queue.any (fun q => q.id == id) then
        (serveQueueLocked it
          { w with
            alloc := { w.alloc with queue := w.alloc.queue.eraseP (fun q => q.id == id) }
            calls := w.calls.erase id
            withdrawn := w.withdrawn ++ [id] },
          some ⟨sessionID, count, .error .ctxErr⟩)
      else ({ w with calls := w.calls.insert id ⟨sessionID, count, true⟩ }, none)
  | _ => (w, none)

/-- A cancelled call receives its grant, takes the lock again and undoes the lease. -/
def undo (it : Range) (w : World) (id : Nat) : World × Option Reply :=
  match w.calls.lookup id, w.grants.lookup id with
  | some ⟨sessionID, count, true⟩, some parts =>
      (serveQueueLocked it
        { w with
          alloc := w.alloc.putBack sessionID parts
          calls := w.calls.erase id
          grants := w.grants.erase id },
        some ⟨sessionID, count, .error .ctxErr⟩)
  | _, _ => (w, none)

def release (it : Range) (w : World) (sessionID : String) : World :=
  match w.alloc.leasedBy.lookup sessionID with
  | none => w
  | some parts => serveQueueLocked it { w with alloc := w.alloc.putBack sessionID parts }

end World

inductive Event where
  | acquire (it : Range) (sessionID : String) (count : Int)
  | receive (id : Nat)
  | cancel (it : Range) (id : Nat)
  | undo (it : Range) (id : Nat)
  | release (it : Range) (sessionID : String)

namespace World

def step (w : World) : Event → World × Option Reply
  | .acquire it sessionID count => w.acquire it sessionID count
  | .receive id => w.receive id
  | .cancel it id => w.cancel it id
  | .undo it id => w.undo it id
  | .release it sessionID => (w.release it sessionID, none)

def next (w : World) (e : Event) : World := (w.step e).1

/-- The session has an `Acquire` that has not returned. -/
def Acquiring (w : World) (sessionID : String) : Prop :=
  ∃ e ∈ w.calls.entries, e.2.sessionID = sessionID
  deriving Decidable

/-- A session has one `Acquire` or one lease at a time: it calls `Acquire` when it has
neither, and `Release` when no `Acquire` of its own is under way. -/
def OneAtATime (w : World) : Event → Prop
  | .acquire _ sessionID _ => ¬ w.Acquiring sessionID ∧ sessionID ∉ w.alloc.leasedBy
  | .release _ sessionID => ¬ w.Acquiring sessionID
  | _ => True

instance (w : World) (e : Event) : Decidable (w.OneAtATime e) := by
  cases e <;> unfold OneAtATime <;> infer_instance

end World

/-! ### Taking and putting back -/

theorem pickLoop_eq {count : Int} (hpos : 0 < count) (parts l : List Int) :
    (parts.length : Int) < count → pickLoop count parts l = parts ++ l.take (count.toNat - parts.length) := by
  induction l generalizing parts with
  | nil => intro _; rw [pickLoop, take_nil, append_nil]
  | cons p ps ih =>
    intro hlt
    have hlen : (parts ++ [p]).length = parts.length + 1 := length_append
    have htake : count.toNat - parts.length = (count.toNat - (parts.length + 1)) + 1 := by omega
    rw [htake, take_succ_cons]
    by_cases heq : ((parts ++ [p]).length : Int) = count
    · have hzero : count.toNat - (parts.length + 1) = 0 := by omega
      rw [pickLoop, if_pos heq, hzero, take_zero]
    · rw [pickLoop, if_neg heq, ih (parts ++ [p]) (by omega), hlen, append_assoc]
      rfl

theorem perm_insert_foldl : ∀ (parts free : List Int), (parts ++ free).Nodup →
    (parts.foldl (fun free p => free.insert p) free).Perm (parts ++ free) := by
  intro parts
  induction parts with
  | nil => intro free _; exact Perm.refl _
  | cons p ps ih =>
    intro free hnd
    have hp : p ∉ free := fun h => (nodup_cons.mp hnd).1 (mem_append_right ps h)
    have hmid : (ps ++ p :: free).Perm (p :: (ps ++ free)) := perm_middle
    rw [foldl_cons, insert_of_not_mem hp]
    exact (ih (p :: free) (hmid.nodup_iff.mpr hnd)).trans hmid

namespace PartitionLeaseAllocator

variable {a : PartitionLeaseAllocator} {it : Range} {sessionID : String} {count : Int}

/-- The lease that `takeLocked` records is what it returns. -/
theorem lookup_takeLocked :
    (a.takeLocked it sessionID count).2.leasedBy.lookup sessionID
      = some (a.takeLocked it sessionID count).1 :=
  AList.lookup_insert _

theorem lookup_takeLocked_ne {s : String} (h : s ≠ sessionID) :
    (a.takeLocked it sessionID count).2.leasedBy.lookup s = a.leasedBy.lookup s :=
  AList.lookup_insert_ne h

theorem perm_takeLocked (hpos : 0 < count) :
    (a.takeLocked it sessionID count).1.Perm ((it.enum a.free).take count.toNat) := by
  have hpick := pickLoop_eq hpos [] (it.enum a.free) hpos
  rw [nil_append, length_nil, Nat.sub_zero] at hpick
  exact hpick ▸ perm_stableSort _ _

theorem length_takeLocked (hpos : 0 < count) (hfit : count ≤ a.free.length) :
    ((a.takeLocked it sessionID count).1.length : Int) = count := by
  rw [(perm_takeLocked hpos).length_eq, length_take, (it.perm a.free).length_eq]
  omega

theorem partitions_takeLocked (hpos : 0 < count) (hnew : sessionID ∉ a.leasedBy)
    (h : a.Partitions) : (a.takeLocked it sessionID count).2.Partitions := by
  have hsub : (a.takeLocked it sessionID count).1.Subperm a.free :=
    (perm_takeLocked hpos).subperm.trans ((take_sublist _ _).subperm.trans (it.perm a.free).subperm)
  have hfree : ((a.takeLocked it sessionID count).1 ++
      a.free.diff (a.takeLocked it sessionID count).1).Perm a.free :=
    subperm_append_diff_self_of_count_le (subperm_ext_iff.mp hsub)
  have hleased : (a.takeLocked it sessionID count).2.leased
      = (a.takeLocked it sessionID count).1 ++ a.leased := by
    unfold leased takeLocked
    rw [AList.entries_insert_of_notMem hnew, flatMap_cons]
  unfold Partitions
  rw [hleased, ← append_assoc]
  exact ((perm_append_comm.trans hfree).append_right a.leased).trans h

theorem leased_perm {parts : List Int} (h : a.leasedBy.lookup sessionID = some parts) :
    a.leased.Perm (parts ++ (a.leasedBy.erase sessionID).entries.flatMap (·.2)) := by
  have hperm := (entries_perm_of_lookup h).flatMap_right (·.2)
  rwa [flatMap_cons] at hperm

theorem partitions_putBack {parts : List Int} (hlook : a.leasedBy.lookup sessionID = some parts)
    (h : a.Partitions) : (a.putBack sessionID parts).Partitions := by
  have hall : (parts ++ a.free ++ (a.putBack sessionID parts).leased).Perm (a.free ++ a.leased) := by
    have hl := (leased_perm hlook).symm.append_left a.free
    rw [← append_assoc] at hl
    exact (perm_append_comm.append_right _).trans hl
  have hnd : (parts ++ a.free).Nodup := by
    have hrange : (partitions a.total).Nodup :=
      Nodup.map (fun _ _ => Int.ofNat.inj) nodup_range
    exact (((hall.trans h).nodup_iff).mpr hrange).of_append_left
  exact ((perm_insert_foldl parts a.free hnd).append_right _).trans (hall.trans h)

end PartitionLeaseAllocator

end MatchBench.Controller
