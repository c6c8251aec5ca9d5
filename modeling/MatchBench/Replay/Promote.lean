import MatchBench.Lib.Serial
import MatchBench.Replay.Order

/-!
# Promotion

Sequence numbers order the messages of a connection only while they stay within
half the circle of each other; `Unambiguous os` asks for that, and for no two
orders at one place of one connection.  Then `promote` gives each order the
latest of the times of its flow up to it, and of the time carried
(`promote_eq`), the comparator of the replay is a strict order (`strictOn_less`),
and the replay order runs through each flow by sequence number (`less_of_upto`).

Times are compared through their upper bounds: `eff_le_iff` says which bounds
the time of an order has, and two times with the same bounds are equal.
-/

namespace MatchBench

open List

/-- Where an order stands on the wire. -/
def Order.wireID (o : Order) : Flow × UInt32 := (o.flow, o.tcpSeq)

/-- An order without its time of replay. -/
def Order.raw (o : Order) : Order := { o with effectiveT3 := 0 }

theorem Order.wireID_of_raw {a b : Order} (h : a.raw = b.raw) : a.wireID = b.wireID := by
  have hr : ∀ x : Order, x.wireID = x.raw.wireID := fun _ => rfl
  rw [hr, hr b, h]

theorem Order.flow_of_raw {a b : Order} (h : a.raw = b.raw) : a.flow = b.flow := by
  have hr : ∀ x : Order, x.flow = x.raw.flow := fun _ => rfl
  rw [hr, hr b, h]

theorem Order.t3Ns_of_raw {a b : Order} (h : a.raw = b.raw) : a.t3Ns = b.t3Ns := by
  have hr : ∀ x : Order, x.t3Ns = x.raw.t3Ns := fun _ => rfl
  rw [hr, hr b, h]

namespace Replay

/-- No two orders at one place, and the sequence numbers of a flow less than
half the circle after a base. -/
structure Unambiguous (os : List Order) : Prop where
  distinct : (os.map Order.wireID).Nodup
  serial : ∀ f, ∃ base, ∀ o ∈ os, o.flow = f → serialDist base o.tcpSeq < 2 ^ 31

/-- The base of each flow is less than half the circle behind its orders. -/
def Based (base : Flow → UInt32) (os : List Order) : Prop :=
  ∀ o ∈ os, serialDist (base o.flow) o.tcpSeq < 2 ^ 31

variable {base : Flow → UInt32} {os : List Order}

theorem Unambiguous.exists_base (h : Unambiguous os) : ∃ base, Based base os := by
  choose base hbase using h.serial
  exact ⟨base, fun o ho => hbase o.flow o ho rfl⟩

/-! ### Serial order -/

theorem seqLess_self (a : UInt32) : seqLess a a = false := by
  simp [seqLess]

theorem seqLess_iff {base a b : UInt32} (ha : serialDist base a < 2 ^ 31)
    (hb : serialDist base b < 2 ^ 31) :
    seqLess a b = true ↔ serialDist base a < serialDist base b := serialLess_iff ha hb

theorem seqLess_total {a b : UInt32} (h : a ≠ b) : seqLess a b = true ∨ seqLess b a = true := by
  have hne : (a - b).toNat ≠ 0 := by
    intro h0
    have hdist : serialDist b a = serialDist b b := by simpa [serialDist] using h0
    exact h (serialDist_inj hdist)
  have hlt := (a - b).toNat_lt
  have hback : (b - a).toNat = 2 ^ 32 - (a - b).toNat := by
    rw [toNat_sub_serialDist b b a, serialDist, serialDist, UInt32.sub_self]
    simp only [UInt32.toNat_zero, add_zero]
    omega
  change serialLess a b = true ∨ serialLess b a = true
  rw [serialLess_eq, serialLess_eq, decide_eq_true_eq, decide_eq_true_eq, hback]
  omega

theorem seqLess_eq_false_iff {base a b : UInt32} (ha : serialDist base a < 2 ^ 31)
    (hb : serialDist base b < 2 ^ 31) :
    seqLess a b = false ↔ serialDist base b ≤ serialDist base a := by
  rw [← Bool.not_eq_true, seqLess_iff ha hb, not_lt]

/-- `x` is on the flow of `o`, and not after it. -/
def upto (o x : Order) : Bool := x.flow = o.flow && !seqLess o.tcpSeq x.tcpSeq

theorem upto_self (o : Order) : upto o o = true := by
  simp [upto, seqLess_self]

theorem upto_of_raw {a b x y : Order} (h : a.raw = b.raw) (h' : x.raw = y.raw) :
    upto a x = upto b y := by
  have hr : ∀ o z : Order, upto o z = upto o.raw z.raw := fun _ _ => rfl
  rw [hr, hr b, h, h']

theorem upto_iff {o x : Order} (ho : serialDist (base o.flow) o.tcpSeq < 2 ^ 31)
    (hx : serialDist (base x.flow) x.tcpSeq < 2 ^ 31) :
    upto o x = true ↔ x.flow = o.flow ∧
      serialDist (base o.flow) x.tcpSeq ≤ serialDist (base o.flow) o.tcpSeq := by
  rw [upto, Bool.and_eq_true, decide_eq_true_eq, Bool.not_eq_true']
  refine and_congr_right (fun hf => ?_)
  rw [hf] at hx
  exact seqLess_eq_false_iff ho hx

theorem upto_trans {a b c : Order} (ha : serialDist (base a.flow) a.tcpSeq < 2 ^ 31)
    (hb : serialDist (base b.flow) b.tcpSeq < 2 ^ 31)
    (hc : serialDist (base c.flow) c.tcpSeq < 2 ^ 31) (hab : upto a b = true)
    (hbc : upto b c = true) : upto a c = true := by
  rw [upto_iff ha hb] at hab
  rw [upto_iff hb hc] at hbc
  rw [upto_iff ha hc]
  rw [hab.1] at hbc
  exact ⟨hbc.1, hbc.2.trans hab.2⟩

/-! ### Times -/

/-- The later of two times. -/
def later (m t : UInt64) : UInt64 := if m < t then t else m

theorem later_le_iff {m t b : UInt64} : later m t ≤ b ↔ m ≤ b ∧ t ≤ b := by
  rw [later]
  split <;> grind

theorem foldl_later_le_iff {b : UInt64} : ∀ (ts : List UInt64) (m : UInt64),
    ts.foldl later m ≤ b ↔ m ≤ b ∧ ∀ t ∈ ts, t ≤ b := by
  intro ts
  induction ts with
  | nil => intro m; simp
  | cons t ts ih =>
    intro m
    rw [foldl_cons, ih, later_le_iff, and_assoc, forall_mem_cons]

theorem time_ext {a b : UInt64} (h : ∀ t, a ≤ t ↔ b ≤ t) : a = b :=
  UInt64.le_antisymm ((h b).mpr (UInt64.le_refl b)) ((h a).mp (UInt64.le_refl a))

/-- The time of `o` among `ms`: the latest of its flow up to it, and of the time
carried. -/
def eff (carry : Option UInt64) (ms : List Order) (o : Order) : UInt64 :=
  ((ms.filter (upto o)).map Order.t3Ns).foldl later (carry.getD 0)

theorem eff_le_iff {carry : Option UInt64} {ms : List Order} {o : Order} {b : UInt64} :
    eff carry ms o ≤ b ↔ carry.getD 0 ≤ b ∧ ∀ x ∈ ms, upto o x = true → x.t3Ns ≤ b := by
  rw [eff, foldl_later_le_iff]
  refine and_congr_right (fun _ => ?_)
  simp only [mem_map, mem_filter, forall_exists_index, and_imp]
  exact ⟨fun h x hx hu => h _ x hx hu rfl, fun h t x hx hu ht => ht ▸ h x hx hu⟩

theorem promoteFlow_cons (prev : Option UInt64) (o : Order) (i : Nat) (rest : List (Order × Nat)) :
    promoteFlow prev ((o, i) :: rest) =
      (i, later (prev.getD 0) o.t3Ns) :: promoteFlow (some (later (prev.getD 0) o.t3Ns)) rest := by
  cases prev with
  | none =>
    have h0 : later 0 o.t3Ns = o.t3Ns := by
      rw [later]
      split <;> grind
    rw [Option.getD_none, h0]
    rfl
  | some p => rfl

/-- **One flow of the loop**: the time at a place is the latest up to it. -/
theorem lookup_promoteFlow (o : Order) (i : Nat) (g₂ : List (Order × Nat)) :
    ∀ (g₁ : List (Order × Nat)) (prev : Option UInt64), (∀ x ∈ g₁, x.2 ≠ i) →
      (promoteFlow prev (g₁ ++ (o, i) :: g₂)).lookup i =
        some (((g₁ ++ [(o, i)]).map (fun x => x.1.t3Ns)).foldl later (prev.getD 0)) := by
  intro g₁
  induction g₁ with
  | nil =>
    intro prev _
    rw [nil_append, promoteFlow_cons, lookup_cons_self]
    rfl
  | cons x g₁ ih =>
    intro prev hx
    obtain ⟨a, j⟩ := x
    have hj : (i == j) = false := by
      simpa using fun h : i = j => hx (a, j) (by simp) h.symm
    rw [cons_append, promoteFlow_cons, lookup_cons, hj]
    exact ih _ (fun y hy => hx y (by simp [hy]))

/-! ### Promotion -/

theorem eq_of_zipIdx (h : (os.map Order.wireID).Nodup) {x y : Order × Nat} (hx : x ∈ os.zipIdx)
    (hy : y ∈ os.zipIdx) (hid : x.1.wireID = y.1.wireID) : x = y := by
  have hmap : os.zipIdx.map (fun x => x.1.wireID) = os.map Order.wireID := by
    rw [← zipIdx_map_fst 0 os, map_map, zipIdx_map_fst]
    rfl
  exact inj_on_of_nodup_map (hmap ▸ h) hx hy hid

theorem nodup_zipIdx (os : List Order) : os.zipIdx.Nodup := by
  refine Nodup.of_map Prod.snd ?_
  rw [zipIdx_map_snd]
  exact nodup_range'

section Flow

variable {os : List Order} {base : Flow → UInt32} (hd : (os.map Order.wireID).Nodup)
  (hb : Based base os)

include hd hb

theorem strictOn_flow (f : Flow) :
    StrictOn (fun a b : Order × Nat => seqLess a.1.tcpSeq b.1.tcpSeq)
      (os.zipIdx.filter (fun y => y.1.flow = f)) := by
  have hmem : ∀ x ∈ os.zipIdx.filter (fun y => y.1.flow = f),
      x ∈ os.zipIdx ∧ x.1.flow = f ∧ serialDist (base f) x.1.tcpSeq < 2 ^ 31 := by
    intro x hx
    obtain ⟨h1, h2⟩ := mem_filter.mp hx
    have hf : x.1.flow = f := by simpa using h2
    refine ⟨h1, hf, ?_⟩
    rw [← hf]
    exact hb x.1 (fst_mem_of_mem_zipIdx h1)
  refine ⟨fun a _ => seqLess_self _, fun a ha b hb' c hc hab hbc => ?_,
    fun a ha b hb' hne => ?_⟩
  · obtain ⟨-, -, h1⟩ := hmem a ha
    obtain ⟨-, -, h2⟩ := hmem b hb'
    obtain ⟨-, -, h3⟩ := hmem c hc
    rw [seqLess_iff h1 h2] at hab
    rw [seqLess_iff h2 h3] at hbc
    exact (seqLess_iff h1 h3).mpr (hab.trans hbc)
  · obtain ⟨ha1, ha2, ha3⟩ := hmem a ha
    obtain ⟨hb1, hb2, hb3⟩ := hmem b hb'
    rw [seqLess_iff ha3 hb3, seqLess_iff hb3 ha3]
    refine Nat.lt_or_gt_of_ne (fun he => hne (eq_of_zipIdx hd ha1 hb1 ?_))
    rw [Order.wireID, Order.wireID, ha2, hb2, serialDist_inj he]

/-- **Promotion** gives each order the latest time of its flow up to it. -/
theorem promote_eq (carry : GoMap Flow UInt64) :
    promote carry os =
      os.map (fun o => { o with effectiveT3 := eff (carry.lookup o.flow) os o }) := by
  have hfst : os.map (fun o : Order => { o with effectiveT3 := eff (carry.lookup o.flow) os o }) =
      os.zipIdx.map (fun x : Order × Nat =>
        { x.1 with effectiveT3 := eff (carry.lookup x.1.flow) os x.1 }) := by
    rw [← zipIdx_map_fst 0 os, map_map, zipIdx_map_fst]
    rfl
  rw [promote, hfst]
  refine map_congr_left (fun x hx => ?_)
  dsimp only
  have hs := strictOn_flow hd hb x.1.flow
  have hsorted := hs.pairwise_stableSort
  have hperm := perm_stableSort (fun a b : Order × Nat => seqLess a.1.tcpSeq b.1.tcpSeq)
    (os.zipIdx.filter (fun y => y.1.flow = x.1.flow))
  have hnd := hperm.nodup_iff.mpr ((nodup_zipIdx os).filter _)
  have hxm : x ∈ os.zipIdx.filter (fun y => y.1.flow = x.1.flow) :=
    mem_filter.mpr ⟨hx, by simp⟩
  have hmem := fun y => hperm.mem_iff (a := y)
  obtain ⟨g₁, g₂, hg⟩ := append_of_mem ((hmem x).mpr hxm)
  rw [hg] at hsorted hnd hmem ⊢
  obtain ⟨-, hg₂, hg₁⟩ := pairwise_append.mp hsorted
  have hidx : ∀ y ∈ g₁, y.2 ≠ x.2 := by
    intro y hy he
    have hyx : y = x := by
      have hy' := mem_zipIdx_iff_getElem?.mp (mem_filter.mp ((hmem y).mp (by simp [hy]))).1
      have hx' := mem_zipIdx_iff_getElem?.mp hx
      rw [he, hx', Option.some.injEq] at hy'
      exact Prod.ext hy'.symm he
    rw [hyx] at hy
    exact (nodup_append.mp hnd).2.2 x hy x (by simp) rfl
  have hlookup := lookup_promoteFlow x.1 x.2 g₂ g₁ (carry.lookup x.1.flow) hidx
  rw [Prod.mk.eta] at hlookup
  rw [hlookup, Option.getD_some]
  congr 1
  refine time_ext (fun t => ?_)
  rw [foldl_later_le_iff, eff_le_iff]
  refine and_congr_right (fun _ => ⟨fun h z hz hu => ?_, fun h u hu => ?_⟩)
  · obtain ⟨hzf, hzs⟩ : z.flow = x.1.flow ∧ seqLess x.1.tcpSeq z.tcpSeq = false := by
      simpa [upto] using hu
    obtain ⟨i, hi⟩ := mem_iff_getElem?.mp hz
    have hzi : (z, i) ∈ os.zipIdx.filter (fun y => y.1.flow = x.1.flow) :=
      mem_filter.mpr ⟨mk_mem_zipIdx_iff_getElem?.mpr hi, by simpa using hzf⟩
    rcases mem_append.mp ((hmem (z, i)).mpr hzi) with hz1 | hz2
    · exact h _ (mem_map.mpr ⟨(z, i), by simp [hz1], rfl⟩)
    rcases mem_cons.mp hz2 with hz2 | hz2
    · exact h _ (mem_map.mpr ⟨(z, i), by simp [hz2], rfl⟩)
    have h1 := (pairwise_cons.mp hg₂).1 (z, i) hz2
    have hne : (z, i) ≠ x := by
      intro he
      rw [he] at hz2
      exact (nodup_cons.mp (nodup_append.mp hnd).2.1).1 hz2
    exact absurd (hs.antisymm hzi hxm h1 hzs) hne
  · obtain ⟨y, hy, rfl⟩ := mem_map.mp hu
    have hyo : y ∈ os.zipIdx.filter (fun y => y.1.flow = x.1.flow) := by
      rcases mem_append.mp hy with hy | hy
      · exact (hmem y).mp (by simp [hy])
      · rw [mem_singleton.mp hy]
        exact hxm
    obtain ⟨hyz, hyf⟩ := mem_filter.mp hyo
    refine h y.1 (fst_mem_of_mem_zipIdx hyz) ?_
    have hseq : seqLess x.1.tcpSeq y.1.tcpSeq = false := by
      rcases mem_append.mp hy with hy | hy
      · exact hg₁ y hy x (by simp)
      · rw [mem_singleton.mp hy]
        exact seqLess_self _
    simpa [upto, hseq] using hyf

end Flow

/-! ### The replay order -/

theorem flow_less_asymm {f g : Flow} (h : f.less g = true) : g.less f = false := by
  unfold Flow.less at h ⊢
  grind

theorem flow_less_trans {f g k : Flow} (h : f.less g = true) (h' : g.less k = true) :
    f.less k = true := by
  unfold Flow.less at h h' ⊢
  grind

theorem flow_less_total {f g : Flow} (h : f ≠ g) : f.less g = true ∨ g.less f = true := by
  obtain ⟨a, p⟩ := f
  obtain ⟨b, q⟩ := g
  unfold Flow.less
  simp only [ne_eq, Flow.mk.injEq, not_and] at h
  grind

/-- Among the orders of one connection and one time, the sequence numbers are in order. -/
def Serial (os : List Order) : Prop :=
  ∀ a ∈ os, ∀ b ∈ os, ∀ c ∈ os, a.effectiveT3 = b.effectiveT3 → b.effectiveT3 = c.effectiveT3 →
    a.flow = b.flow → b.flow = c.flow → seqLess a.tcpSeq b.tcpSeq = true →
      seqLess b.tcpSeq c.tcpSeq = true → seqLess a.tcpSeq c.tcpSeq = true
  deriving Decidable

/-- What the comparator of the replay looks at. -/
def replayKey (o : Order) : UInt64 × Flow × UInt32 := (o.effectiveT3, o.flow, o.tcpSeq)

/-- **The comparator of the replay is a strict order** on orders it can tell apart. -/
theorem Serial.strictOn_less (h : Serial os)
    (hne : ∀ a ∈ os, ∀ b ∈ os, a ≠ b → replayKey a ≠ replayKey b) : StrictOn less os := by
  refine ⟨fun a _ => by simp [less, seqLess_self], fun a ha b hb c hc hab hbc => ?_,
    fun a ha b hb hab => ?_⟩
  · have h1 := h a ha b hb c hc
    have h2 := @flow_less_trans a.flow b.flow c.flow
    have h3 := @flow_less_asymm a.flow b.flow
    unfold less at hab hbc ⊢
    grind
  have h1 := hne a ha b hb hab
  have h2 := @flow_less_total a.flow b.flow
  have h3 := @seqLess_total a.tcpSeq b.tcpSeq
  rw [replayKey, replayKey] at h1
  unfold less
  grind

theorem Based.serial (hb : Based base os) : Serial os := by
  intro a ha b hb' c hc _ _ hab hbc h1 h2
  have ha' := hb a ha
  have hb' := hb b hb'
  rw [hab, hbc] at ha'
  rw [hbc] at hb'
  rw [seqLess_iff ha' hb'] at h1
  rw [seqLess_iff hb' (hb c hc)] at h2
  exact (seqLess_iff ha' (hb c hc)).mpr (h1.trans h2)

theorem strictOn_less (hd : (os.map Order.wireID).Nodup) (hb : Based base os) :
    StrictOn less os := by
  refine hb.serial.strictOn_less fun a ha b hb hne hkey => hne ?_
  rw [replayKey, replayKey, Prod.mk.injEq, Prod.mk.injEq] at hkey
  exact inj_on_of_nodup_map hd ha hb (by rw [Order.wireID, hkey.2.1, hkey.2.2]; rfl)

/-- An order with the time it has among `ms`. -/
def stamp (ms : List Order) (o : Order) : Order := { o with effectiveT3 := eff none ms o }

theorem stamp_of_raw {ms : List Order} {a b : Order} (h : a.raw = b.raw) :
    stamp ms a = stamp ms b := by
  have hr : ∀ x : Order, stamp ms x = { x.raw with effectiveT3 := eff none ms x.raw } :=
    fun _ => rfl
  rw [hr, hr, h]

@[simp] theorem stamp_wireID (ms : List Order) (o : Order) : (stamp ms o).wireID = o.wireID := rfl

theorem map_stamp_wireID (ms os : List Order) :
    (os.map (stamp ms)).map Order.wireID = os.map Order.wireID := by
  rw [map_map]
  rfl

theorem Based.map_stamp (h : Based base os) (ms : List Order) : Based base (os.map (stamp ms)) := by
  intro o ho
  obtain ⟨x, hx, rfl⟩ := mem_map.mp ho
  exact h x hx

theorem eff_mono (hb : Based base os) {x y : Order} (hx : x ∈ os) (hy : y ∈ os)
    (h : upto y x = true) : eff none os x ≤ eff none os y := by
  refine eff_le_iff.mpr ⟨UInt64.le_iff_toNat_le.mpr (Nat.zero_le _), fun z hz hu => ?_⟩
  exact (eff_le_iff.mp (UInt64.le_refl (eff none os y))).2 z hz
    (upto_trans (hb y hy) (hb x hx) (hb z hz) h hu)

section Order

variable {os : List Order} {base : Flow → UInt32} (hd : (os.map Order.wireID).Nodup)
  (hb : Based base os)

include hd hb

theorem order_eq : order os = stableSort less (os.map (stamp os)) := by
  rw [order, promote_eq hd hb]
  rfl

theorem perm_order : (order os).Perm (os.map (stamp os)) := by
  rw [order_eq hd hb]
  exact perm_stableSort _ _

theorem strictOn_stamped : StrictOn less (os.map (stamp os)) :=
  strictOn_less (by rw [map_stamp_wireID]; exact hd) (hb.map_stamp os)

theorem pairwise_order : (order os).Pairwise (fun a b => less b a = false) := by
  rw [order_eq hd hb]
  exact (strictOn_stamped hd hb).pairwise_stableSort

theorem nodup_order : ((order os).map Order.wireID).Nodup := by
  rw [((perm_order hd hb).map Order.wireID).nodup_iff, map_stamp_wireID]
  exact hd

theorem mem_order {a : Order} : a ∈ order os ↔ ∃ x ∈ os, stamp os x = a := by
  rw [(perm_order hd hb).mem_iff, mem_map]

/-- **The replay order follows each flow.** -/
theorem less_of_upto {a b : Order} (ha : a ∈ order os) (hb' : b ∈ order os)
    (h : upto b a = true) (hne : a ≠ b) : less a b = true := by
  obtain ⟨x, hx, rfl⟩ := (mem_order hd hb).mp ha
  obtain ⟨y, hy, rfl⟩ := (mem_order hd hb).mp hb'
  have hle := eff_mono hb hx hy h
  have hu := (upto_iff (hb y hy) (hb x hx)).mp h
  have hs : seqLess x.tcpSeq y.tcpSeq = true := by
    have h1 := hb x hx
    rw [hu.1] at h1
    refine (seqLess_iff h1 (hb y hy)).mpr (lt_of_le_of_ne hu.2 (fun he => hne ?_))
    have hxy : x = y := inj_on_of_nodup_map hd hx hy (by
      rw [Order.wireID, hu.1, serialDist_inj he]
      rfl)
    rw [hxy]
  unfold less stamp
  grind

theorem mem_front {A B : List Order} (hAB : order os = A ++ B) {a x : Order} (ha : a ∈ A)
    (hx : x ∈ order os) (h : upto a x = true) : x ∈ A := by
  rw [hAB] at hx
  rcases mem_append.mp hx with hx' | hx'
  · exact hx'
  by_cases hne : x = a
  · rw [hne]
    exact ha
  have hl := less_of_upto hd hb (by rw [hAB]; exact hx) (by rw [hAB]; simp [ha]) h hne
  have hp := pairwise_order hd hb
  rw [hAB] at hp
  rw [(pairwise_append.mp hp).2.2 a ha x hx'] at hl
  simp at hl

theorem upto_front {A B : List Order} (hAB : order os = A ++ B) {a b : Order} (ha : a ∈ A)
    (hb' : b ∈ B) (hf : a.flow = b.flow) : upto b a = true := by
  by_contra hu
  have ha' : a ∈ order os := by rw [hAB]; simp [ha]
  have hb'' : b ∈ order os := by rw [hAB]; simp [hb']
  have hab : upto a b = true := by
    have hs : seqLess b.tcpSeq a.tcpSeq = true := by simpa [upto, hf] using hu
    obtain ⟨x, hx, rfl⟩ := (mem_order hd hb).mp ha'
    obtain ⟨y, hy, rfl⟩ := (mem_order hd hb).mp hb''
    refine (upto_iff (hb x hx) (hb y hy)).mpr ⟨hf.symm, ?_⟩
    have h1 := hb y hy
    rw [show y.flow = x.flow from hf.symm] at h1
    exact le_of_lt ((seqLess_iff h1 (hb x hx)).mp hs)
  have hbA := mem_front hd hb hAB ha hb'' hab
  have hnd := (nodup_order hd hb).of_map
  rw [hAB] at hnd
  exact (nodup_append.mp hnd).2.2 b hbA b hb' rfl

end Order

end Replay

end MatchBench
