import MatchBench.Bot.Connection

/-!
# Every order is reported

The watchdog's last tick sweeps the map, so that, in the words of its comment, every offered
order ends matched or timed out.  An order that was offered is in `pending`, or in the hands of
the reader or the watchdog, which took it from there and will record it, or recorded
(`Traced`); what a loop does moves it forward along this line.

Two steps do not.  A writer whose write fails removes the batch from `pending`, where the paths
that abandon a write leave it to the sweep; part of the batch may have reached the peer.  And a
writer that waits for room in `pending` is woken by the sweep itself and then sends one more
batch, which no one will sweep.  `reported_of_accounts` is the result for runs without these.
-/

namespace MatchBench.Bot

open List Option AList Conn
open Capture (ascii)

variable {t : Task}

/-! ### The map -/

section

variable {pending : GoMap (List UInt8) PendingOrder} {id : List UInt8} {p : PendingOrder}

/-- Every order is under its own id. -/
def Keyed (pending : GoMap (List UInt8) PendingOrder) : Prop :=
  ∀ id p, pending.lookup id = some p → p.orderID = id

theorem Keyed.insert (h : Keyed pending) (hp : p.orderID = id) : Keyed (pending.insert id p) := by
  intro k q hq
  by_cases hk : k = id
  · rw [hk, lookup_insert] at hq
    rw [← some.inj hq, hk, hp]
  · rw [lookup_insert_ne hk] at hq
    exact h k q hq

theorem isSome_lookup_insert (k : List UInt8) (h : (pending.lookup k).isSome) :
    ((pending.insert id p).lookup k).isSome := by
  by_cases hk : k = id
  · rw [hk, lookup_insert]
    rfl
  · rw [lookup_insert_ne hk]
    exact h

variable (ids : List (List UInt8)) (batch : Batch)

theorem keyed_insertBatch {writeStartNs : UInt64} (h : Keyed pending) :
    Keyed (insertBatch t writeStartNs pending batch) := by
  induction batch generalizing pending with
  | nil => exact h
  | cons x batch ih => exact ih (h.insert rfl)

theorem isSome_lookup_insertBatch {writeStartNs : UInt64}
    (h : (pending.lookup id).isSome ∨ id ∈ batch.map (·.1.orderID)) :
    ((insertBatch t writeStartNs pending batch).lookup id).isSome := by
  induction batch generalizing pending with
  | nil => exact h.resolve_right not_mem_nil
  | cons x batch ih =>
    refine ih ?_
    rcases h with h | h
    · exact .inl (isSome_lookup_insert id h)
    rcases mem_cons.mp h with rfl | h
    · rw [lookup_insert]
      exact .inl rfl
    · exact .inr h

variable {sendTsNs : UInt64}

theorem keyed_patchOrder (x : OrderFrame × UInt64) (h : Keyed pending) :
    Keyed (patchOrder t sendTsNs pending x) := by
  unfold patchOrder
  cases hx : pending.lookup x.1.orderID with
  | none => exact h
  | some p => exact h.insert (h x.1.orderID p hx)

theorem isSome_lookup_patchOrder (x : OrderFrame × UInt64) :
    ((patchOrder t sendTsNs pending x).lookup id).isSome = (pending.lookup id).isSome := by
  unfold patchOrder
  cases hx : pending.lookup x.1.orderID with
  | none => rfl
  | some p =>
    by_cases hid : id = x.1.orderID
    · rw [hid, lookup_insert, hx]
      rfl
    · rw [lookup_insert_ne hid]

theorem keyed_patch (h : Keyed pending) : Keyed (batch.foldl (patchOrder t sendTsNs) pending) := by
  induction batch generalizing pending with
  | nil => exact h
  | cons x batch ih => exact ih (keyed_patchOrder x h)

theorem isSome_lookup_patch :
    ((batch.foldl (patchOrder t sendTsNs) pending).lookup id).isSome =
      (pending.lookup id).isSome := by
  induction batch generalizing pending with
  | nil => rfl
  | cons x batch ih => exact ih.trans (isSome_lookup_patchOrder x)

theorem lookup_removeAll :
    (removeAll pending ids).1.lookup id = if id ∈ ids then none else pending.lookup id := by
  have hfold : ∀ (ids : List (List UInt8)) (st : GoMap (List UInt8) PendingOrder × List PendingOrder),
      (ids.foldl removeOne st).1.lookup id = if id ∈ ids then none else st.1.lookup id := by
    intro ids
    induction ids with
    | nil => intro st; rw [if_neg not_mem_nil]; rfl
    | cons k ids ih =>
      intro st
      rw [foldl_cons, ih, removeOne]
      by_cases hids : id ∈ ids
      · rw [if_pos hids, if_pos (.tail _ hids)]
      rw [if_neg hids]
      by_cases hk : id = k
      · rw [hk, if_pos (.head _), lookup_erase]
      · rw [if_neg (fun h => (mem_cons.mp h).elim hk hids), lookup_erase_ne hk]
  exact hfold ids (pending, [])

theorem mem_removeAll (h : pending.lookup id = some p) (hid : id ∈ ids) :
    p ∈ (removeAll pending ids).2 := by
  have hout : ∀ (ids : List (List UInt8)) (st : GoMap (List UInt8) PendingOrder × List PendingOrder),
      p ∈ st.2 → p ∈ (ids.foldl removeOne st).2 := by
    intro ids
    induction ids with
    | nil => exact fun st hp => hp
    | cons k ids ih => exact fun st hp => ih _ (mem_append_left _ hp)
  have hfold : ∀ (ids : List (List UInt8)) (st : GoMap (List UInt8) PendingOrder × List PendingOrder),
      st.1.lookup id = some p → id ∈ ids → p ∈ (ids.foldl removeOne st).2 := by
    intro ids
    induction ids with
    | nil => exact nofun
    | cons k ids ih =>
      intro st h hid
      by_cases hk : id = k
      · refine hout ids _ (mem_append_right _ ?_)
        rw [← hk, h]
        exact mem_singleton_self p
      · refine ih _ ((lookup_erase_ne hk).trans h) ?_
        exact (mem_cons.mp hid).resolve_left hk
  exact hfold ids (pending, []) h hid

theorem keyed_removeAll (h : Keyed pending) : Keyed (removeAll pending ids).1 := by
  intro k q hq
  rw [lookup_removeAll] at hq
  split_ifs at hq
  exact h k q hq

end

/-! ### Where an order is -/

namespace Conn

/-- The orders that a loop has taken from the map and not recorded. -/
def inHand (c : Conn) : List PendingOrder :=
  (match c.reader with
    | .answered p _ => [p]
    | _ => []) ++
  match c.watchdog with
    | .evicting toEvict _ => toEvict
    | _ => []

/-- The order is in the map, in someone's hands, or recorded. -/
def Traced (c : Conn) (id : List UInt8) : Prop :=
  (c.pending.lookup id).isSome ∨ (∃ p ∈ c.inHand, p.orderID = id) ∨ ∃ e ∈ c.recorded, e.orderID = id

structure Accounted (c : Conn) : Prop where
  keyed : Keyed c.pending
  traced : ∀ id ∈ c.offered, c.Traced id
  swept : c.swept = true → ∀ id, c.pending.lookup id = none

variable {c d : Conn}

theorem Accounted.same (h : c.Accounted) (hp : d.pending = c.pending) (hh : d.inHand = c.inHand)
    (hr : d.recorded = c.recorded) (ho : d.offered = c.offered) (hs : d.swept = c.swept) :
    d.Accounted := by
  refine ⟨hp ▸ h.keyed, fun id hid => ?_, fun hd id => hp ▸ h.swept (hs ▸ hd) id⟩
  rw [Traced, hp, hh, hr]
  exact h.traced id (ho ▸ hid)

theorem accounted_new : ({} : Conn).Accounted :=
  ⟨nofun, nofun,
    fun _ _ => rfl⟩

/-! ### The writer -/

theorem Accounted.stop (h : c.Accounted) : c.stop.Accounted := by
  unfold Conn.stop
  split <;> exact h.same rfl rfl rfl rfl rfl

theorem Accounted.check (h : c.Accounted) (nowNs : UInt64) : (c.check t nowNs).Accounted := by
  unfold Conn.check
  split
  · split_ifs <;> exact h.same rfl rfl rfl rfl rfl
  · exact h

theorem Accounted.room (h : c.Accounted) : (c.room t).Accounted := by
  unfold Conn.room
  split
  · split_ifs <;> exact h.same rfl rfl rfl rfl rfl
  · exact h

theorem Accounted.insert (h : c.Accounted) (writeStartNs : UInt64) (batch : Batch)
    (hok : c.Accounts (.insert writeStartNs batch)) :
    (c.insert t writeStartNs batch).Accounted := by
  unfold Conn.insert
  split
  case h_2 => exact h
  case h_1 hw =>
    split_ifs
    · exact h
    refine ⟨keyed_insertBatch batch h.keyed, fun id hid => ?_, fun hs => ?_⟩
    · rcases mem_append.mp hid with hid | hid
      · rcases h.traced id hid with hin | hrest
        · exact .inl (isSome_lookup_insertBatch batch (.inl hin))
        · exact .inr hrest
      · exact .inl (isSome_lookup_insertBatch batch (.inr hid))
    · exact absurd ((hok hw).symm.trans hs) Bool.false_ne_true

theorem Accounted.writeOk (h : c.Accounted) (sendTsNs : UInt64) :
    (c.writeOk sendTsNs).Accounted := by
  unfold Conn.writeOk
  split <;> exact h.same rfl rfl rfl rfl rfl

theorem Accounted.patch (h : c.Accounted) : (c.patch t).Accounted := by
  unfold Conn.patch
  split
  case h_2 => exact h
  case h_1 batch sendTsNs _ =>
    refine ⟨keyed_patch batch h.keyed, fun id hid => ?_, fun hs id => ?_⟩
    · rcases h.traced id hid with hin | hrest
      · exact .inl ((isSome_lookup_patch batch).trans hin)
      · exact .inr hrest
    · rw [← isNone_iff_eq_none, ← isSome_eq_false_iff, isSome_lookup_patch, h.swept hs id]
      rfl

theorem Accounted.enqueue (h : c.Accounted) : c.enqueue.Accounted := by
  unfold Conn.enqueue
  split <;> exact h.same rfl rfl rfl rfl rfl

theorem Accounted.writeErr (h : c.Accounted) (hok : c.Accounts .writeErr) :
    c.writeErr.Accounted := by
  unfold Conn.writeErr
  split
  case h_2 => exact h
  case h_1 batch hw =>
    rw [Accounts, hw] at hok
    have hids : ∀ id, (removeAll c.pending (batch.map (·.1.orderID))).1.lookup id =
        c.pending.lookup id := by
      intro id
      rw [lookup_removeAll]
      split_ifs with hid
      · obtain ⟨x, hx, rfl⟩ := List.mem_map.mp hid
        exact (hok x hx).symm
      · rfl
    refine ⟨keyed_removeAll _ h.keyed, fun id hid => ?_, fun hs id => (hids id).trans (h.swept hs id)⟩
    rcases h.traced id hid with hin | hrest
    · exact .inl ((congrArg Option.isSome (hids id)).trans hin)
    · exact .inr hrest

theorem Accounted.abandon (h : c.Accounted) : c.abandon.Accounted := by
  unfold Conn.abandon
  split <;> exact h.same rfl rfl rfl rfl rfl

/-! ### The reader and the watchdog -/

theorem Accounted.answer (h : c.Accounted) (clordID : List UInt8) (recvDoneTsNs : UInt64) :
    (c.answer clordID recvDoneTsNs).Accounted := by
  unfold Conn.answer
  split
  case h_2 => exact h
  case h_1 p hr hp =>
    refine ⟨fun k q hq => h.keyed k q (lookup_erase_eq_some hq).2, fun id hid => ?_, fun hs id => ?_⟩
    · rcases h.traced id hid with hin | ⟨q, hq, hqid⟩ | hrec
      · by_cases hk : id = clordID
        · refine .inr (.inl ⟨p, mem_append_left _ (.head _), ?_⟩)
          exact (h.keyed clordID p hp).trans hk.symm
        · exact .inl ((congrArg Option.isSome (lookup_erase_ne hk)).trans hin)
      · rw [inHand, hr] at hq
        exact .inr (.inl ⟨q, mem_append_right _ hq, hqid⟩)
      · exact .inr (.inr hrec)
    · exact absurd (hp.symm.trans (h.swept hs clordID)) (some_ne_none p)

theorem Accounted.recordAnswer (h : c.Accounted) : (c.recordAnswer t).Accounted := by
  unfold Conn.recordAnswer
  split
  case h_2 => exact h
  case h_1 p recvDoneTsNs hr =>
    refine ⟨h.keyed, fun id hid => ?_, h.swept⟩
    rcases h.traced id hid with hin | ⟨q, hq, hqid⟩ | ⟨e, he, heid⟩
    · exact .inl hin
    · rw [inHand, hr] at hq
      rcases mem_append.mp hq with hq | hq
      · rw [mem_singleton.mp hq] at hqid
        exact .inr (.inr ⟨_, mem_append_right _ (.head _), hqid⟩)
      · exact .inr (.inl ⟨q, hq, hqid⟩)
    · exact .inr (.inr ⟨e, mem_append_left _ he, heid⟩)

theorem Accounted.readerExit (h : c.Accounted) : c.readerExit.Accounted := by
  unfold Conn.readerExit
  split
  case h_2 => exact h
  case h_1 hr => exact h.same rfl (by rw [inHand, inHand, hr]) rfl rfl rfl

theorem Accounted.tick (h : c.Accounted) (nowNs : UInt64) : (c.tick t nowNs).Accounted := by
  unfold Conn.tick
  split
  case h_2 => exact h
  case h_1 hw =>
    refine h.same rfl ?_ rfl rfl ?_
    · rw [inHand, inHand, hw]
    · rw [Conn.swept, Conn.swept, hw]

/-- **The sweep**: what the watchdog removes from the map it holds in its hands. -/
theorem Accounted.evict (h : c.Accounted) (drained : List PendingOrder) :
    (c.evict t drained).Accounted := by
  unfold Conn.evict
  split
  case h_2 => exact h
  case h_1 due lastTick hw =>
    have hhand : ∀ q ∈ c.inHand, q ∈ (match c.reader with
        | .answered p _ => [p]
        | _ => []) := by
      intro q hq
      rw [inHand, hw, append_nil] at hq
      exact hq
    have hmoved : ∀ id ∈ c.offered, ((removeAll c.pending (dueIDs t due)).1.lookup id).isSome ∨
        (∃ p ∈ (removeAll c.pending (dueIDs t due)).2, p.orderID = id) ∨
        (∃ p ∈ c.inHand, p.orderID = id) ∨ ∃ e ∈ c.recorded, e.orderID = id := by
      intro id hid
      rcases h.traced id hid with hin | hrest
      · by_cases hdue : id ∈ dueIDs t due
        · obtain ⟨p, hp⟩ := Option.isSome_iff_exists.mp hin
          exact .inr (.inl ⟨p, mem_removeAll _ hp hdue, h.keyed id p hp⟩)
        · rw [lookup_removeAll, if_neg hdue]
          exact .inl hin
      · exact .inr (.inr hrest)
    dsimp only
    split_ifs with hlast hperm
    · refine ⟨nofun, fun id hid => ?_,
        fun _ _ => rfl⟩
      rcases hmoved id hid with hin | ⟨p, hp, hpid⟩ | ⟨p, hp, hpid⟩ | hrec
      · obtain ⟨p, hp⟩ := Option.isSome_iff_exists.mp hin
        have hmem := AList.mem_lookup_iff.mp hp
        refine .inr (.inl ⟨p, mem_append_right _ (mem_append_right _ ?_),
          keyed_removeAll _ h.keyed id p hp⟩)
        exact hperm.mem_iff.mpr (List.mem_map.mpr ⟨_, hmem, rfl⟩)
      · exact .inr (.inl ⟨p, mem_append_right _ (mem_append_left _ hp), hpid⟩)
      · exact .inr (.inl ⟨p, mem_append_left _ (hhand p hp), hpid⟩)
      · exact .inr (.inr hrec)
    · exact h
    refine ⟨keyed_removeAll _ h.keyed, fun id hid => ?_, nofun⟩
    rcases hmoved id hid with hin | ⟨p, hp, hpid⟩ | ⟨p, hp, hpid⟩ | hrec
    · exact .inl hin
    · exact .inr (.inl ⟨p, mem_append_right _ hp, hpid⟩)
    · exact .inr (.inl ⟨p, mem_append_left _ (hhand p hp), hpid⟩)
    · exact .inr (.inr hrec)

theorem Accounted.recordEvicted (h : c.Accounted) : (c.recordEvicted t).Accounted := by
  unfold Conn.recordEvicted
  split
  case h_2 => exact h
  case h_1 p ps lastTick hw =>
    have hswept : c.swept = lastTick := by rw [Conn.swept, hw]
    refine ⟨h.keyed, fun id hid => ?_, fun hs => h.swept (hswept.trans hs)⟩
    rcases h.traced id hid with hin | ⟨q, hq, hqid⟩ | ⟨e, he, heid⟩
    · exact .inl hin
    · rw [inHand, hw] at hq
      rcases mem_append.mp hq with hq | hq
      · exact .inr (.inl ⟨q, mem_append_left _ hq, hqid⟩)
      · rcases mem_cons.mp hq with rfl | hq
        · exact .inr (.inr ⟨_, mem_append_right _ (.head _), hqid⟩)
        · exact .inr (.inl ⟨q, mem_append_right _ hq, hqid⟩)
    · exact .inr (.inr ⟨e, mem_append_left _ he, heid⟩)

theorem Accounted.settle (h : c.Accounted) : c.settle.Accounted := by
  unfold Conn.settle
  split
  case h_2 => exact h
  case h_1 lastTick hw =>
    refine h.same rfl ?_ rfl rfl ?_
    · rw [inHand, inHand, hw]
      cases lastTick <;> rfl
    · rw [Conn.swept, Conn.swept, hw]
      cases lastTick <;> rfl

/-! ### A run -/

theorem Accounted.next (h : c.Accounted) (e : Event) (hok : c.Accounts e) :
    (c.next t e).Accounted := by
  cases e with
  | stop => exact h.stop
  | check nowNs => exact h.check nowNs
  | room => exact h.room
  | insert writeStartNs batch => exact h.insert writeStartNs batch hok
  | writeOk sendTsNs => exact h.writeOk sendTsNs
  | patch => exact h.patch
  | enqueue => exact h.enqueue
  | writeErr => exact h.writeErr hok
  | abandon => exact h.abandon
  | answer clordID recvDoneTsNs => exact h.answer clordID recvDoneTsNs
  | recordAnswer => exact h.recordAnswer
  | readerExit => exact h.readerExit
  | tick nowNs => exact h.tick nowNs
  | evict drained => exact h.evict drained
  | recordEvicted => exact h.recordEvicted
  | settle => exact h.settle

theorem Accounted.recorded (h : c.Accounted) (hend : c.Ended) :
    ∀ id ∈ c.offered, ∃ e ∈ c.recorded, e.orderID = id := by
  obtain ⟨_, hreader, hwatchdog⟩ := hend
  have hswept : c.swept = true := by rw [Conn.swept, hwatchdog]
  intro id hid
  rcases h.traced id hid with hin | ⟨p, hp, _⟩ | hrec
  · rw [h.swept hswept id] at hin
    cases hin
  · rw [inHand, hreader, hwatchdog] at hp
    cases hp
  · exact hrec

/-- **No offered order vanishes** from a run whose failed writes find their orders gone and
whose batches come before the sweep: once the task has ended, each order that was put into
`pending` has an event, answered or timed out. -/
theorem reported_of_accounts (t : Task) (es : List Event)
    (hrun : Allows (next t) Conn.Accounts {} es) (hend : (es.foldl (next t) {}).Ended) :
    ∀ id ∈ (es.foldl (next t) {}).offered, ∃ e ∈ (es.foldl (next t) {}).recorded, e.orderID = id :=
  (hrun.invariant (P := Accounted) (fun _ e h hok => h.next e hok) accounted_new).recorded hend

end Conn

/-! ### Runs -/

/-- A second of FIX orders, one in flight and one to a batch. -/
def oneByOne : Task where
  sessionID := ascii "s"
  submissionID := ascii "sub"
  workerID := ascii "w"
  taskID := 1
  barrierEpochNs := 0
  taskEndNs := 1000000000
  maxRate := false
  maxInflight := 1
  batchMax := 1

/-- The limit order with the number `seq`. -/
def limitFrame (seq : UInt32) : OrderFrame where
  orderID := joinOrderID (ascii "s") 1 seq 79
  origOrderID := []
  price := 100
  qty := 1
  side := .buy
  bytes := []
  tag52Offset := none
  payloadType := .new
  ordType := .limit
  smpID := smpIdNone

/-- A batch of one order, written at `ns`. -/
def send (seq : UInt32) (ns : UInt64) : List Event :=
  [.check ns, .room, .insert ns [(limitFrame seq, ns)], .writeOk ns, .patch, .enqueue]

/-- The last tick, with what it finds in the map besides the orders that are due. -/
def lastTick (drained : List PendingOrder) : List Event :=
  [.tick oneByOne.drainEndNs, .evict drained]

/-- One order is answered, the next expires, and the write of the third never returns. -/
def answeredExpiredAbandoned : List Event :=
  send 0 0 ++ [.answer (limitFrame 0).orderID 500, .recordAnswer] ++
  send 1 1000 ++ [.tick 5000001000, .evict [], .check 2000, .recordEvicted, .settle,
    .room, .insert 2000 [(limitFrame 2, 2000)]] ++
  lastTick [pendingOrder oneByOne 2000 (limitFrame 2, 2000)] ++
  [.abandon, .readerExit, .recordEvicted, .settle]

theorem reported_answeredExpiredAbandoned :
    (Allows (next oneByOne) Conn.Accounts {} answeredExpiredAbandoned ∧
      (answeredExpiredAbandoned.foldl (next oneByOne) {}).Ended ∧
      (answeredExpiredAbandoned.foldl (next oneByOne) {}).offered.length = 3) ∧
    ∀ id ∈ (answeredExpiredAbandoned.foldl (next oneByOne) {}).offered,
      ∃ e ∈ (answeredExpiredAbandoned.foldl (next oneByOne) {}).recorded, e.orderID = id :=
  ⟨by decide +kernel, reported_of_accounts oneByOne answeredExpiredAbandoned
    (by decide +kernel) (by decide +kernel)⟩

/-- The write of the first batch fails. -/
def failedWrite : List Event :=
  [.check 0, .room, .insert 0 [(limitFrame 0, 0)], .writeErr, .readerExit] ++ lastTick [] ++
  [.settle]

/-- The first order is sent at the end of the task and not answered; the writer, which waits for
its place, gets it from the last tick. -/
def wokenBySweep : List Event :=
  send 0 999000000 ++ [.check 999500000, .tick 5998000000, .evict [], .settle] ++
  lastTick [] ++
  [.room, .insert 6000000000 [(limitFrame 1, 6000000000)], .writeOk 6000000001, .patch, .enqueue,
    .stop, .recordEvicted, .settle, .readerExit]

theorem offered_vanishes :
    ((failedWrite.foldl (next oneByOne) {}).Ended ∧
      (failedWrite.foldl (next oneByOne) {}).offered = [(limitFrame 0).orderID] ∧
      (failedWrite.foldl (next oneByOne) {}).recorded = []) ∧
    (wokenBySweep.foldl (next oneByOne) {}).Ended ∧
      (wokenBySweep.foldl (next oneByOne) {}).offered =
        [(limitFrame 0).orderID, (limitFrame 1).orderID] ∧
      (wokenBySweep.foldl (next oneByOne) {}).recorded.map OrderSentEvent.orderID =
        [(limitFrame 0).orderID] := by
  decide +kernel

end MatchBench.Bot
