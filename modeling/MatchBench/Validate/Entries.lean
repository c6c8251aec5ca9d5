import MatchBench.Validate.Invariants

/-!
# What the book-free validator writes

Whatever `InvariantsValidator` does, its report changes by a few kinds of entries: a valid fill, an
overfill, a lost order, a time violation, an unmatched response.  `Report.enter` makes one.  An
order enters its fills as it is applied (`foldl_countFill`) and, when no response has a usable
time, that it is lost; a record that leaves the window enters its time violations (`onEmit_eq`).

The checks of a record do not read the report.  So what is entered is a function of the orders and
of the records in the order in which they leave the window.

A time violation belongs to an order here and not to a fill, and an order may have two.  So a
fill is valid or an overfill, nothing else (`Checked`); the rest of the tally is that of the full
replay.
-/

namespace MatchBench.Validate

open List Option InvariantsValidator

/-! ### Entries -/

inductive Entry
  | valid
  | overfill (orderID : String) (qty : UInt64) (price : Int64)
  | lost (orderID : String) (kind : Kind)
  | time (orderID detail : String)
  | unmatched
  deriving DecidableEq

def overfillDetail : String :=
  "cumulative reported fill qty exceeds order qty (book-free own-qty check)"

def Report.enter (r : Report) : Entry → Report
  | .valid => { r with totalFills := r.totalFills + 1, validFills := r.validFills + 1 }
  | .overfill id qty price =>
      { r with totalFills := r.totalFills + 1, overfills := r.overfills + 1 }.add .overfill id qty
        price overfillDetail
  | .lost id kind =>
      (InvariantsValidator.countLost r kind).add (StreamValidator.lostViolationType kind) id 0 0
        InvariantsValidator.lostDetail
  | .time id detail =>
      { r with timeViolations := r.timeViolations + 1 }.add .time id 0 0 detail
  | .unmatched => { r with phantomFills := r.phantomFills + 1 }

/-- What an entry does to the counters. -/
def Entry.count (c : Counters) : Entry → Counters
  | .valid => { c with totalFills := c.totalFills + 1, validFills := c.validFills + 1 }
  | .overfill _ _ _ => { c with totalFills := c.totalFills + 1, overfills := c.overfills + 1 }
  | .lost _ kind =>
      if kind = .cancel then { c with lostCancels := c.lostCancels + 1 }
      else { c with lostOrders := c.lostOrders + 1 }
  | .time _ _ => { c with timeViolations := c.timeViolations + 1 }
  | .unmatched => c

/-- The order that an entry marks. -/
def Entry.marks : Entry → Finset String
  | .overfill id _ _ | .lost id _ | .time id _ => {id}
  | .valid | .unmatched => ∅

theorem Report.counters_enter (r : Report) (e : Entry) : (r.enter e).counters = e.count r.counters := by
  cases e with
  | valid => rfl
  | overfill id qty price => exact counters_add _ _ _ _ _ _
  | lost id kind =>
    refine (counters_add _ _ _ _ _ _).trans ?_
    rw [countLost, Entry.count]
    split_ifs
    · rfl
    · rfl
  | time id detail => exact counters_add _ _ _ _ _ _
  | unmatched => rfl

theorem Report.dirtyByOrder_enter (r : Report) (e : Entry) :
    (r.enter e).dirtyByOrder = e.marks ∪ r.dirtyByOrder := by
  cases e with
  | valid => exact (Finset.empty_union _).symm
  | overfill id qty price => exact dirtyByOrder_add _ _ _ _ _ _
  | lost id kind =>
    refine (dirtyByOrder_add _ _ _ _ _ _).trans ?_
    rw [countLost]
    split_ifs
    · rfl
    · rfl
  | time id detail => exact dirtyByOrder_add _ _ _ _ _ _
  | unmatched => exact (Finset.empty_union _).symm

/-- The entries of the fills of an order, from the total `cum`. -/
def fillEntries (o : Order) : UInt64 → List Response → List Entry
  | _, [] => []
  | cum, resp :: rs =>
      if isFill resp.execType resp.fillQty then
        (if o.qty < cum + resp.fillQty then
          .overfill o.orderID resp.fillQty resp.fillPrice.toInt64 else .valid) ::
          fillEntries o (cum + resp.fillQty) rs
      else fillEntries o cum rs

variable {o : Order} {e : Entry}

theorem mem_fillEntries {rs : List Response} {cum : UInt64}
    (h : e ∈ fillEntries o cum rs) : e = .valid ∨ ∃ qty price, e = .overfill o.orderID qty price := by
  induction rs generalizing cum with
  | nil => cases h
  | cons resp rs ih =>
    rw [fillEntries] at h
    split_ifs at h
    · rcases mem_cons.mp h with rfl | h
      · exact .inr ⟨_, _, rfl⟩
      · exact ih h
    · rcases mem_cons.mp h with rfl | h
      · exact .inl rfl
      · exact ih h
    · exact ih h

namespace InvariantsValidator

theorem foldl_countFill (o : Order) (rs : List Response) (rep : Report) (cum : UInt64) :
    (rs.foldl (countFill o) (rep, cum)).1 = (fillEntries o cum rs).foldl Report.enter rep := by
  induction rs generalizing rep cum with
  | nil => rfl
  | cons resp rs ih =>
    rw [foldl_cons, fillEntries, countFill]
    by_cases hfill : isFill resp.execType resp.fillQty = true
    · rw [if_pos hfill, if_pos hfill, foldl_cons]
      by_cases hover : o.qty < cum + resp.fillQty
      · rw [if_pos hover, if_pos hover, ih]
        rfl
      · rw [if_neg hover, if_neg hover, ih]
        rfl
    · rw [if_neg hfill, if_neg hfill, ih]

/-! ### The checks of a record -/

/-- The record breaks the order of its connection. -/
def breaksFIFO (v : InvariantsValidator) (rec : InvRec) : Bool :=
  match v.lastSeq.lookup rec.flow with
  | some last => seqLE rec.tcpSeq last
  | none => false

/-- The sample of the jitter that the record gives. -/
def sample (v : InvariantsValidator) (rec : InvRec) : Option UInt64 :=
  match v.candidate rec.flow with
  | some candT3 => if candT3 ≤ rec.t3Ns then none else some (candT3 - rec.t3Ns)
  | none => none

/-- The record is inverted by more than the window. -/
def breaksWindow (v : InvariantsValidator) (rec : InvRec) : Bool :=
  (v.sample rec).any (fun jitterNs => v.windowUs * 1000 < jitterNs)

def fifoDetail : String := "out-of-order TCPSeq within one flow"

def crossFlowDetail : String := "cross-flow processed after a later-arriving order beyond window W"

/-- What the record enters. -/
def timeEntries (v : InvariantsValidator) (rec : InvRec) : List Entry :=
  (if v.breaksFIFO rec then [.time rec.orderID fifoDetail] else []) ++
    (if v.breaksWindow rec then [.time rec.orderID crossFlowDetail] else [])

theorem mem_timeEntries {v : InvariantsValidator} {rec : InvRec}
    (h : e ∈ v.timeEntries rec) : ∃ detail, e = .time rec.orderID detail := by
  rw [timeEntries] at h
  rcases mem_append.mp h with h | h
  · split_ifs at h
    · exact ⟨_, mem_singleton.mp h⟩
    · cases h
  · split_ifs at h
    · exact ⟨_, mem_singleton.mp h⟩
    · cases h

/-- The two latest arrivals, after the record. -/
def nextMax (max1 : Option (UInt64 × Flow)) (max2T3 : Option UInt64) (rec : InvRec) :
    Option (UInt64 × Flow) × Option UInt64 :=
  match max1 with
  | none => (some (rec.t3Ns, rec.flow), max2T3)
  | some (max1T3, max1Flow) =>
      if max1T3 < rec.t3Ns then
        (some (rec.t3Ns, rec.flow),
          if max1Flow ≠ rec.flow ∧ ∀ t ∈ max2T3, t < max1T3 then some max1T3 else max2T3)
      else if rec.flow ≠ max1Flow ∧ ∀ t ∈ max2T3, t < rec.t3Ns then (max1, some rec.t3Ns)
      else (max1, max2T3)

/-- **One record that leaves the window.**  The checks read and write their own state, and the
report only receives their entries. -/
theorem onEmit_eq (v : InvariantsValidator) (rec : InvRec) :
    v.onEmit rec =
      { v with
        processed := v.processed + 1
        lastSeq := v.lastSeq.insert rec.flow rec.tcpSeq
        jitter := (v.sample rec).elim v.jitter v.jitter.record
        max1 := (nextMax v.max1 v.max2T3 rec).1
        max2T3 := (nextMax v.max1 v.max2T3 rec).2
        rep := (v.timeEntries rec).foldl Report.enter v.rep } := by
  have hfifo : ({ v with processed := v.processed + 1 } : InvariantsValidator).checkFIFO rec =
      { v with
        processed := v.processed + 1
        lastSeq := v.lastSeq.insert rec.flow rec.tcpSeq
        rep := (if v.breaksFIFO rec then [Entry.time rec.orderID fifoDetail] else []).foldl
          Report.enter v.rep } := by
    unfold checkFIFO breaksFIFO
    cases v.lastSeq.lookup rec.flow with
    | none => rfl
    | some last =>
      dsimp only
      split_ifs
      · rfl
      · rfl
  have hcross : ∀ w : InvariantsValidator, w.checkCrossFlow rec =
      { w with
        jitter := (w.sample rec).elim w.jitter w.jitter.record
        rep := (if w.breaksWindow rec then [Entry.time rec.orderID crossFlowDetail] else []).foldl
          Report.enter w.rep } := by
    intro w
    unfold checkCrossFlow breaksWindow sample
    cases w.candidate rec.flow with
    | none => rfl
    | some candT3 =>
      dsimp only [crossFlowPredicate]
      by_cases hinv : candT3 ≤ rec.t3Ns
      · simp only [hinv, if_true]
        rfl
      simp only [hinv, if_false, if_true, any_some, decide_eq_true_eq]
      split_ifs
      · rfl
      · rfl
  have hmax : ∀ w : InvariantsValidator, w.trackMax rec =
      { w with
        max1 := (nextMax w.max1 w.max2T3 rec).1
        max2T3 := (nextMax w.max1 w.max2T3 rec).2 } := by
    intro w
    unfold trackMax nextMax
    cases hmax1 : w.max1 with
    | none => rfl
    | some m =>
      dsimp only
      split_ifs
      · rfl
      · rfl
      · rw [← hmax1]
      · rw [← hmax1]
  rw [onEmit, hfifo, hcross, hmax, timeEntries, foldl_append]
  rfl

/-! ### The accounting of an order -/

/-- The anomalous responses of an order, and the time of its first usable one. -/
def timing (v : InvariantsValidator) (o : Order) : Nat × Option UInt64 :=
  o.responses.foldl (firstResponse o v.anomalyCapNs) (0, none)

theorem foldl_firstResponse (o : Order) (capNs : UInt64) (rs : List Response) (n : Nat)
    (first : Option UInt64) :
    rs.foldl (firstResponse o capNs) (n, first) =
      (n + (rs.foldl (firstResponse o capNs) (0, first)).1,
        (rs.foldl (firstResponse o capNs) (0, first)).2) := by
  induction rs generalizing n first with
  | nil => rfl
  | cons resp rs ih =>
    rw [foldl_cons, foldl_cons, firstResponse, firstResponse]
    split_ifs
    · exact ih n first
    · rw [ih (n + 1), ih (0 + 1)]
      rw [add_assoc, zero_add]
    · cases first with
      | none => exact ih n _
      | some minT7Ns => exact ih n _

/-- What the order enters before it goes to the window. -/
def orderEntries (v : InvariantsValidator) (o : Order) : List Entry :=
  fillEntries o 0 o.responses ++ if (v.timing o).2 = none then [.lost o.orderID o.kind] else []

/-- The validator when the order is accounted for. -/
def register (v : InvariantsValidator) (o : Order) : InvariantsValidator :=
  { v with
    rep := (v.orderEntries o).foldl Report.enter v.rep
    t7Anomalies := v.t7Anomalies + (v.timing o).1
    applied := v.applied + if (v.timing o).2 = none then 0 else 1 }

/-- The record of an order that was answered. -/
def recordOf (v : InvariantsValidator) (o : Order) : Option InvRec :=
  (v.timing o).2.map (fun minT7Ns => ⟨o.orderID, o.flow, o.tcpSeq, o.t3Ns, minT7Ns⟩)

/-- The record goes to the window. -/
def pushRec (v : InvariantsValidator) (rec : InvRec) : InvariantsValidator :=
  { (T7Reorderer.push onEmit onLate (v.window, v) rec).2 with
    window := (T7Reorderer.push onEmit onLate (v.window, v) rec).1 }

/-- **One order**: it is accounted for, and an answered one goes to the window. -/
theorem apply_eq (v : InvariantsValidator) (o : Order) :
    v.apply o = (v.recordOf o).elim (v.register o) (v.register o).pushRec := by
  have htiming := foldl_firstResponse o v.anomalyCapNs o.responses v.t7Anomalies none
  rw [apply, recordOf, register, orderEntries]
  rw [htiming, foldl_countFill, foldl_append, ← timing]
  cases (v.timing o).2 with
  | none =>
    dsimp only
    rw [countLost_add]
    rfl
  | some minT7Ns => rfl

end InvariantsValidator

/-! ### Its counters -/

/-- A fill is valid or an overfill, no class of the reference is counted, and `lost` orders and
cancels are. -/
structure Counters.BookFree (lost : Nat) (c : Counters) : Prop where
  fills : c.totalFills = c.validFills + c.overfills
  selfTrades : c.selfTrades = 0
  priceViolations : c.priceViolations = 0
  missedFills : c.missedFills = 0
  losses : c.cancelReplaceLosses = 0
  lost : c.lostOrders + c.lostCancels = lost

structure Report.Checked (ids : List String) (lost : Nat) (r : Report) : Prop where
  tally : r.Tally ids
  counters : r.counters.BookFree lost

def Entry.isLost : Entry → Bool
  | .lost _ _ => true
  | _ => false

theorem Counters.BookFree.count {n : Nat} {c : Counters} (h : c.BookFree n) (e : Entry) :
    (e.count c).BookFree (n + if e.isLost then 1 else 0) := by
  obtain ⟨hfills, hself, hprice, hmissed, hloss, hlost⟩ := h
  cases e with
  | unmatched | time id detail => exact ⟨hfills, hself, hprice, hmissed, hloss, hlost⟩
  | valid | overfill id qty price =>
    refine ⟨?_, hself, hprice, hmissed, hloss, hlost⟩
    dsimp only [Entry.count]
    omega
  | lost id kind =>
    rw [Entry.count, Entry.isLost, if_pos rfl]
    split_ifs
    all_goals
      refine ⟨hfills, hself, hprice, hmissed, hloss, ?_⟩
      dsimp only
      omega

section

variable {ids : List String} {n : Nat} {r : Report}

theorem Report.Tally.enter (h : r.Tally ids) (hmarks : ∀ id ∈ e.marks, id ∈ ids) :
    (r.enter e).Tally ids := by
  have hlosses := h.losses
  cases e with
  | valid | unmatched => exact h.of_eq rfl rfl hlosses rfl rfl
  | overfill id qty price | time id detail | lost id kind =>
    refine h.add (hmarks id (Finset.mem_singleton_self id)) ?_ ?_ ?_ ?_ ?_ _ _ _ _
    all_goals grind [Counters.violations, counters, countLost]

theorem Report.checked_empty : Report.Checked [] 0 {} :=
  ⟨⟨rfl, le_rfl, rfl, fun _ h => absurd h (Finset.notMem_empty _)⟩, ⟨rfl, rfl, rfl, rfl, rfl, rfl⟩⟩

theorem Report.Checked.mono (h : r.Checked ids n) {more : List String} (hids : ids ⊆ more) :
    r.Checked more n := ⟨h.tally.mono hids, h.counters⟩

/-- **Entries of orders among `ids`.** -/
theorem Report.Checked.enterAll (es : List Entry) (h : r.Checked ids n)
    (hmarks : ∀ e ∈ es, ∀ id ∈ e.marks, id ∈ ids) :
    (es.foldl Report.enter r).Checked ids (n + es.countP Entry.isLost) := by
  induction es generalizing r n with
  | nil => exact h
  | cons e es ih =>
    have hcounters := h.counters.count e
    rw [← counters_enter] at hcounters
    rw [countP_cons, add_comm (es.countP _), ← add_assoc]
    exact ih ⟨h.tally.enter (hmarks e (.head _)), hcounters⟩
      fun x hx => hmarks x (.tail _ hx)

end

namespace InvariantsValidator

variable {ids : List String} {n : Nat} {v : InvariantsValidator}

theorem checked_onEmit (h : v.rep.Checked ids n) {rec : InvRec} (hid : rec.orderID ∈ ids) :
    (v.onEmit rec).rep.Checked ids n := by
  have hentry : ∀ e ∈ v.timeEntries rec, e.isLost = false ∧ ∀ id ∈ e.marks, id ∈ ids := by
    intro e he
    obtain ⟨detail, rfl⟩ := mem_timeEntries he
    exact ⟨rfl, fun id hm => Finset.mem_singleton.mp hm ▸ hid⟩
  have hall := h.enterAll (v.timeEntries rec) fun e he => (hentry e he).2
  rw [countP_eq_zero.mpr fun e he => by simp [(hentry e he).1]] at hall
  rw [onEmit_eq]
  exact hall

theorem applied_onEmit (v : InvariantsValidator) (rec : InvRec) :
    (v.onEmit rec).applied = v.applied := by
  rw [onEmit_eq]

theorem checked_register (h : v.rep.Checked ids n) (hid : o.orderID ∈ ids) :
    (v.register o).rep.Checked ids (n + if (v.timing o).2 = none then 1 else 0) := by
  have hfill : ∀ e ∈ fillEntries o 0 o.responses, e.isLost = false ∧ ∀ id ∈ e.marks, id ∈ ids := by
    intro e he
    rcases mem_fillEntries he with rfl | ⟨qty, price, rfl⟩
    · exact ⟨rfl, fun id hm => absurd hm (Finset.notMem_empty id)⟩
    · exact ⟨rfl, fun id hm => Finset.mem_singleton.mp hm ▸ hid⟩
  have hfills := h.enterAll _ fun e he => (hfill e he).2
  rw [countP_eq_zero.mpr fun e he => by simp [(hfill e he).1]] at hfills
  rw [register, orderEntries, foldl_append]
  split_ifs
  · refine hfills.enterAll [.lost o.orderID o.kind] fun e he => ?_
    rw [mem_singleton.mp he]
    exact fun id hm => Finset.mem_singleton.mp hm ▸ hid
  · exact hfills

/-- The report after `ids` were handed in: `n` of them are lost, the others were applied, and
the window holds records of some of these. -/
structure Tallied (ids : List String) (v : InvariantsValidator) : Prop where
  rep : ∃ n, v.rep.Checked ids n ∧ v.applied + n = ids.length
  buffered : ∀ rec ∈ v.window.buf, rec.orderID ∈ ids

theorem Tallied.apply (h : v.Tallied ids) (o : Order) :
    (v.apply o).Tallied (ids ++ [o.orderID]) := by
  obtain ⟨⟨n, hrep, hcount⟩, hbuf⟩ := h
  have hids := subset_append_left ids [o.orderID]
  have hid : o.orderID ∈ ids ++ [o.orderID] :=
    mem_append_right _ (.head _)
  have hlen : (ids ++ [o.orderID]).length = ids.length + 1 := length_append
  have hregister := checked_register (hrep.mono hids) hid
  have happlied : (v.register o).applied = v.applied + if (v.timing o).2 = none then 0 else 1 := rfl
  rw [apply_eq, recordOf]
  cases htiming : (v.timing o).2 with
  | none =>
    rw [htiming, if_pos rfl] at hregister happlied
    refine ⟨⟨n + 1, hregister, ?_⟩, fun rec hrec => hids (hbuf rec hrec)⟩
    rw [map_none, elim_none]
    omega
  | some minT7Ns =>
    rw [htiming, if_neg (some_ne_none minT7Ns)] at hregister happlied
    obtain ⟨⟨hpushed, hsame⟩, hbuffered⟩ := T7Reorderer.push_induction onEmit onLate
      (P := fun w : InvariantsValidator =>
        w.rep.Checked (ids ++ [o.orderID]) n ∧ w.applied = (v.register o).applied)
      (Q := fun rec : InvRec => rec.orderID ∈ ids ++ [o.orderID])
      (fun w rec hw hrec => ⟨checked_onEmit hw.1 hrec, (applied_onEmit w rec).trans hw.2⟩)
      (fun w hw => hw) ((v.register o).window, v.register o) ⟨hregister, rfl⟩
      (fun rec hrec => hids (hbuf rec hrec))
      ⟨o.orderID, o.flow, o.tcpSeq, o.t3Ns, minT7Ns⟩ hid
    refine ⟨⟨n, hpushed, ?_⟩, hbuffered⟩
    rw [map_some, elim_some, pushRec]
    dsimp only
    omega

theorem Tallied.addLost (h : v.Tallied ids) (orderID : String) (kind : Kind) :
    (v.addLost orderID kind).Tallied (ids ++ [orderID]) := by
  obtain ⟨⟨n, hrep, hcount⟩, hbuf⟩ := h
  have hids := subset_append_left ids [orderID]
  have hlen : (ids ++ [orderID]).length = ids.length + 1 := length_append
  refine ⟨⟨n + 1, (hrep.mono hids).enterAll [.lost orderID kind] fun e he => ?_, ?_⟩,
    fun rec hrec => hids (hbuf rec hrec)⟩
  · rw [mem_singleton.mp he]
    exact fun id hm => Finset.mem_singleton.mp hm ▸ mem_append_right _ (.head _)
  · rw [InvariantsValidator.addLost]
    dsimp only
    omega

theorem Tallied.call (h : v.Tallied ids) (c : StreamValidator.Call) :
    (v.call c).Tallied (ids ++ c.handed) := by
  cases c with
  | apply o => exact h.apply o
  | lost orderID kind => exact h.addLost orderID kind
  | phantom =>
    obtain ⟨⟨n, hrep, hcount⟩, hbuf⟩ := h
    rw [StreamValidator.Call.handed, append_nil]
    exact ⟨⟨n, ⟨hrep.tally.of_eq rfl rfl hrep.tally.losses rfl rfl, hrep.counters⟩, hcount⟩, hbuf⟩
  | captureGap =>
    rw [StreamValidator.Call.handed, append_nil]
    exact ⟨h.rep, h.buffered⟩

theorem Tallied.calls (calls : List StreamValidator.Call) (h : v.Tallied ids) :
    (calls.foldl InvariantsValidator.call v).Tallied
      (ids ++ calls.flatMap StreamValidator.Call.handed) := by
  induction calls generalizing ids v with
  | nil =>
    rw [flatMap_nil, append_nil]
    exact h
  | cons c calls ih =>
    rw [flatMap_cons, ← append_assoc]
    exact ih (h.call c)

theorem tallied_new (windowUs : UInt64) (t7Window : Int64) (capNs : UInt64) (rate : ℚ) :
    (((newInvariantsValidatorWithWindow windowUs t7Window).setT7AnomalyCapNs
      capNs).setLateTaintRate rate).Tallied [] := by
  unfold setLateTaintRate setT7AnomalyCapNs
  split_ifs
  all_goals exact ⟨⟨0, Report.checked_empty, rfl⟩, nofun⟩

/-- `finish` empties the window, and only then counts the orders. -/
theorem Tallied.finish (h : v.Tallied ids) :
    ∃ n, v.finish.Checked ids n ∧ v.finish.scoredOrders = ids.length := by
  obtain ⟨⟨n, hrep, hcount⟩, hbuf⟩ := h
  obtain ⟨⟨hflushed, happlied⟩, _⟩ := T7Reorderer.release_induction onEmit
    (P := fun w : InvariantsValidator => w.rep.Checked ids n ∧ w.applied = v.applied)
    (Q := fun rec : InvRec => rec.orderID ∈ ids)
    (fun w rec hw hrec => ⟨checked_onEmit hw.1 hrec, (applied_onEmit w rec).trans hw.2⟩)
    (v.window, v) ⟨hrep, rfl⟩ hbuf v.window.buf.length
  have hlost := hflushed.counters.lost
  simp only [Report.counters] at hlost
  refine ⟨n, ⟨hflushed.tally.of_eq rfl rfl hflushed.tally.losses rfl rfl, ?_⟩, ?_⟩
  · obtain ⟨hfills, hself, hprice, hmissed, hloss, hlost⟩ := hflushed.counters
    exact ⟨hfills, hself, hprice, hmissed, hloss, hlost⟩
  · rw [InvariantsValidator.finish, T7Reorderer.flush]
    dsimp only
    omega

end InvariantsValidator

/-! ### The counters of a report -/

/-- The counters of a report partition what was graded: `graded` orders were handed in, and of
the fills `classed` have a class and the others are valid. -/
structure Report.Partitions (r : Report) (classed graded : Nat) : Prop where
  fills : r.totalFills = r.validFills + classed
  violations : r.totalViolations = r.overfills + r.selfTrades + r.timeViolations +
    r.priceViolations + r.missedFills + r.lostOrders + r.lostCancels
  losses : r.cancelReplaceLosses ≤ r.timeViolations
  dirty : r.dirtyOrders ≤ r.scoredOrders
  scored : r.scoredOrders = graded

/-- **The counters of every session partition the graded work**, in a full replay and without a
book.  Without a book no class needs the reference, and a time violation is not one of a fill. -/
theorem counters_partition (it : Nat → Range) (windowUs : UInt64) (t7Window : Int64)
    (capNs : UInt64) (rate : ℚ) (calls : List StreamValidator.Call) :
    (StreamValidator.report it calls).Partitions
      ((StreamValidator.report it calls).overfills +
        (StreamValidator.report it calls).selfTrades +
        (StreamValidator.report it calls).timeViolations +
        (StreamValidator.report it calls).priceViolations)
      (calls.countP StreamValidator.Call.isApply + calls.countP StreamValidator.Call.isLost) ∧
    (InvariantsValidator.report windowUs t7Window capNs rate calls).Partitions
      (InvariantsValidator.report windowUs t7Window capNs rate calls).overfills
      (calls.countP StreamValidator.Call.isApply + calls.countP StreamValidator.Call.isLost) ∧
    (InvariantsValidator.report windowUs t7Window capNs rate calls).selfTrades = 0 ∧
    (InvariantsValidator.report windowUs t7Window capNs rate calls).priceViolations = 0 ∧
    (InvariantsValidator.report windowUs t7Window capNs rate calls).missedFills = 0 := by
  have hlen := StreamValidator.Call.length_handed calls
  have hfull := StreamValidator.tallied_report it calls
  obtain ⟨n, hfree, hscored⟩ :=
    ((InvariantsValidator.tallied_new windowUs t7Window capNs rate).calls calls).finish
  change (InvariantsValidator.report windowUs t7Window capNs rate calls).Checked _ n at hfree
  change (InvariantsValidator.report windowUs t7Window capNs rate calls).scoredOrders = _ at hscored
  rw [nil_append] at hfree hscored
  refine ⟨⟨?_, hfull.tally.violations, hfull.tally.losses, ?_, hfull.scored.trans hlen⟩,
    ⟨hfree.counters.fills, hfree.tally.violations, hfree.tally.losses, ?_, hscored.trans hlen⟩,
    hfree.counters.selfTrades, hfree.counters.priceViolations, hfree.counters.missedFills⟩
  · have hfills := hfull.fills
    simp only [Counters.fills, Report.counters] at hfills
    omega
  · exact hfull.tally.dirtyOrders_le.trans_eq hfull.scored.symm
  · exact hfree.tally.dirtyOrders_le.trans_eq hscored.symm

end MatchBench.Validate
