import MatchBench.Bot.Connection
import MatchBench.Capture.Pipeline
import MatchBench.Lib.Batch
import MatchBench.Schema.Band

/-!
# The two batchers of events

`PartitionBatcher` of the bot takes sent events one by one and lets a chunk go when
it is full or drained; `batch_by_partition` of the capture takes all it has at once.
Neither loses or reorders the events of a partition, and with the same band both
choose the partition of an order in the same way.
-/

namespace MatchBench.Bot

open List Lib

def orderBandUnset : UInt32 := 0xFFFFFFFF

def maxEventsPerBatch : Nat := 1000

open Schema.Rust in
def sessionBandPartition (sessionID orderID : List UInt8) (numPartitions bandWidth : Int32) : Int32 :=
  if numPartitions ≤ 1 then 0
  else
    let bandWidth := clamp bandWidth 1 numPartitions
    let numBands := max ((numPartitions.toInt.toNat + bandWidth.toInt.toNat - 1) /
      bandWidth.toInt.toNat) 1
    let band := Int32.ofNat ((fnv1a64 sessionID).toNat % numBands)
    let within := Int32.ofNat (fnv1a64 orderID % UInt64.ofInt bandWidth.toInt).toNat
    (band * bandWidth + within) % numPartitions

/-- The choice that both producers make. -/
def partitionOf (orderBand : UInt32) (sessionID orderID : List UInt8)
    (numPartitions bandWidth : Int32) : Int :=
  if orderBand ≠ orderBandUnset then
    (Schema.Rust.bandPartition orderBand orderID numPartitions bandWidth).toInt
  else (sessionBandPartition sessionID orderID numPartitions bandWidth).toInt

structure PartitionBatcher where
  numPartitions : Int32
  bandWidth : Int32
  orderBand : UInt32
  byPart : Groups Int OrderSentEvent := BTree.empty

inductive BatcherOp
  | push (event : OrderSentEvent)
  | drainReady

namespace PartitionBatcher

def part (b : PartitionBatcher) (e : OrderSentEvent) : Int :=
  partitionOf b.orderBand e.sessionID e.orderID b.numPartitions b.bandWidth

/-- The batcher after the call, and the chunks it returns. -/
def apply (b : PartitionBatcher) : BatcherOp → PartitionBatcher × List (Int × List OrderSentEvent)
  | .push e =>
      let (byPart, ready) := Lib.push b.part maxEventsPerBatch b.byPart e
      ({ b with byPart := byPart }, ready)
  | .drainReady => ({ b with byPart := BTree.empty }, drain b.byPart)

def run (b : PartitionBatcher) (ops : List BatcherOp) :
    PartitionBatcher × List (Int × List OrderSentEvent) :=
  ops.foldl (fun s op => ((s.1.apply op).1, s.2 ++ (s.1.apply op).2)) (b, [])

end PartitionBatcher

def BatcherOp.pushed : BatcherOp → List OrderSentEvent
  | .push e => [e]
  | .drainReady => []

def ackedPart (sessionID : List UInt8) (ordersPartitions partitionBandWidth : Int32)
    (orderBand : UInt32) (e : Capture.MatchedEvent) : Int :=
  partitionOf orderBand sessionID e.orderID.toUTF8.data.toList ordersPartitions partitionBandWidth

def batchByPartition (events : List Capture.MatchedEvent) (sessionID : List UInt8)
    (ordersPartitions partitionBandWidth : Int32) (orderBand : UInt32) :
    List (Int × List Capture.MatchedEvent) :=
  batch (ackedPart sessionID ordersPartitions partitionBandWidth orderBand) maxEventsPerBatch events

namespace PartitionBatcher

/-- What waits is short and of its partition. -/
def Waiting (b : PartitionBatcher) : Prop :=
  ∀ p, (group b.byPart p).length < maxEventsPerBatch ∧ ∀ e ∈ group b.byPart p, b.part e = p

/-- What becomes of the events in `l`: those of a partition leave in chunks, after the ones
that waited and in their order, or wait. -/
structure Lossless (b : PartitionBatcher) (l : List OrderSentEvent)
    (r : PartitionBatcher × List (Int × List OrderSentEvent)) : Prop where
  part : r.1.part = b.part
  waiting : r.1.Waiting
  chunk : ∀ x ∈ r.2, Chunk b.part maxEventsPerBatch x
  all : ∀ p, emitted p r.2 ++ group r.1.byPart p = group b.byPart p ++ l.filter (b.part · = p)

theorem Waiting.apply {b : PartitionBatcher} (h : b.Waiting) (op : BatcherOp) :
    b.Lossless op.pushed (b.apply op) := by
  cases op with
  | push e =>
    have hlen := (h (b.part e)).1
    have hmem : ∀ x ∈ group b.byPart (b.part e) ++ [e], b.part x = b.part e := by
      simpa [or_imp, forall_and] using (h (b.part e)).2
    have hpush := emitted_push b.part maxEventsPerBatch b.byPart e
    rw [PartitionBatcher.apply]
    refine ⟨rfl, fun p => ?_, ?_, hpush⟩
    · show (group (Lib.push ..).1 p).length < _ ∧ ∀ x ∈ group (Lib.push ..).1 p, b.part x = p
      rw [Lib.push]
      split <;> rw [group_insert] <;> split
      · simp [maxEventsPerBatch]
      · exact h p
      · simp_all
      · exact h p
    · show ∀ x ∈ (Lib.push ..).2, _
      rw [Lib.push]
      split
      · intro x hx
        rw [mem_singleton.mp hx]
        exact ⟨by simp, by simpa using hlen, hmem⟩
      · simp
  | drainReady =>
    refine ⟨rfl, fun p => ?_, fun x hx => ?_, fun p => ?_⟩
    · simp [PartitionBatcher.apply, maxEventsPerBatch]
    · obtain ⟨hx, hne⟩ := mem_filter.mp hx
      have hw := mem_group hx ▸ h x.1
      exact ⟨by simpa using hne, hw.1.le, hw.2⟩
    · simp [PartitionBatcher.apply, emitted_drain, BatcherOp.pushed]

theorem Waiting.run {b : PartitionBatcher} (h : b.Waiting) (ops : List BatcherOp) :
    b.Lossless (ops.flatMap BatcherOp.pushed) (b.run ops) := by
  induction ops using reverseRecOn with
  | nil => exact ⟨rfl, h, by simp [PartitionBatcher.run], by simp [PartitionBatcher.run, emitted]⟩
  | append_singleton ops op ih =>
    have hop := ih.waiting.apply op
    rw [PartitionBatcher.run, foldl_append, ← PartitionBatcher.run]
    refine ⟨hop.part.trans ih.part, hop.waiting, fun x hx => ?_, fun p => ?_⟩
    · exact (mem_append.mp hx).elim (ih.chunk x) (ih.part ▸ hop.chunk x)
    · have hall := hop.all p
      rw [ih.part] at hall
      rw [flatMap_append, filter_append, ← append_assoc, ← ih.all]
      simpa [emitted_append] using hall

end PartitionBatcher

/-- **Both batchers are lossless and choose the same partitions.** -/
theorem batchers_lossless (n w : Int32) (band : UInt32) (sessionID : List UInt8)
    (ops : List BatcherOp) (calls : List (List Capture.MatchedEvent)) :
    let b : PartitionBatcher := { numPartitions := n, bandWidth := w, orderBand := band }
    let part := ackedPart sessionID n w band
    let acked := calls.flatMap (batchByPartition · sessionID n w band)
    b.Lossless (ops.flatMap BatcherOp.pushed) (b.run ops) ∧
      (∀ p, emitted p acked = calls.flatten.filter (part · = p)) ∧
      (∀ x ∈ acked, Chunk part maxEventsPerBatch x) ∧
      ∀ (e : OrderSentEvent) (m : Capture.MatchedEvent), e.sessionID = sessionID →
        e.orderID = m.orderID.toUTF8.data.toList → b.part e = part m := by
  intro b part acked
  refine ⟨PartitionBatcher.Waiting.run (fun p => by simp [b, maxEventsPerBatch]) ops,
    fun p => ?_, fun x hx => ?_, ?_⟩
  · show emitted p (calls.flatMap _) = _
    induction calls with
    | nil => rfl
    | cons l calls ih =>
      rw [flatMap_cons, emitted_append, ih, flatten_cons, filter_append, batchByPartition,
        emitted_batch _ (by decide)]
  · obtain ⟨l, -, hl⟩ := mem_flatMap.mp hx
    exact chunk_batch _ (by decide) l x hl
  · rintro e m rfl he
    simp [PartitionBatcher.part, part, ackedPart, he, b]

end MatchBench.Bot
