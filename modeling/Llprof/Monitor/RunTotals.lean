import Llprof.Monitor.Runs

namespace Llprof.Monitor.RunTotals

open Faulting hiding store
open LittleEndian MachineIntegers ParentTree TreeMaps Slots Nodes Store SlotLoops TreeShape FlushSpec
  NewLeaf Receive StoreSpec Runs
open Profiler.CallTree (MethodNodeSerializedInfo)

def lastRecord (log : List MethodNodeSerializedInfo) (k : NodeID) : Option MethodNodeSerializedInfo :=
  (log.filter (fun r => r.callNodeId = k)).getLast?

def lastValue (log : List MethodNodeSerializedInfo) (k : NodeID) (i : Nat) : ProfileValue :=
  ((lastRecord log k).map (recordValue i)).getD 0

def allAt (tree : Tree) (i : Nat) (k : NodeID) : ProfileValue :=
  ((tree[k]?).map (fun n => value n.allValues i)).getD 0

/-- The totals in the tree are those of the records of a log, as far as 64 bits can
hold them: a sum that fits is exact, and one that does not is off by a multiple of 2^64. -/
structure Totals (ds : DataStore) (log : List MethodNodeSerializedInfo) (tree : Tree) : Prop where
  clean : ∀ (k : NodeID) (n : RecordNode), tree[k]? = some n → n.dirty = false
  known : ∀ k : NodeID, (∃ n, tree[k]? = some n) ↔ Known log k
  children : ∀ (k : NodeID) (n : RecordNode), tree[k]? = some n → ∀ c, c ∈ n.childrenId ↔
    parentOf tree c = some k
  static : ∀ (k : NodeID) (n : RecordNode) (i : Nat), tree[k]? = some n →
    i < ds.numRecords → isStatic ds i = true → value n.allValues i = lastValue log k i
  own : ∀ (k : NodeID) (n : RecordNode) (i : Nat), tree[k]? = some n →
    i < ds.numRecords → isStatic ds i = false → isAccumulated ds i = true →
    Counts (value n.allValues i) (sumAt (fun r => r.callNodeId) (fun r => (recordValue i r).toInt) log k)
  subtree : ∀ (k : NodeID) (n : RecordNode) (i : Nat), tree[k]? = some n →
    i < ds.numRecords → isStatic ds i = false → isAccumulated ds i = false →
    Counts (value n.allValues i) (sumBelow (parentOf tree) (fun r => r.callNodeId) (fun r => (recordValue i r).toInt) log k)
  childrenValues : ∀ (k : NodeID) (n : RecordNode) (i : Nat), tree[k]? = some n → i < ds.numRecords →
    isStatic ds i = false →
    Counts (value n.childrenValues i) (n.childrenId.toList.map (fun c => (allAt tree i c).toInt)).sum

structure Tallied (ds : DataStore) (log : List MethodNodeSerializedInfo) (tree : Tree)
    (k : NodeID) (n : RecordNode) : Prop where
  all : ∀ i, i < ds.numRecords → value n.allValues i =
    if isStatic ds i then lastValue log k i else gain ds (linkOf log).parent log k i
  children : ∀ i, i < ds.numRecords → value n.childrenValues i =
    counted ds i ((childrenAt tree k).map (fun c => gain ds (linkOf log).parent log c i)).sum
  calls : n.callCount = sumAt (fun r => r.callNodeId) (fun r => (r.callCount : LongLong)) log k

variable {gl : Settings} {ds : DataStore} {rank rank' : NodeID → Nat}
  {tree tree' : Tree} {ts ts' : ThreadStore} {log batch : List MethodNodeSerializedInfo} {running : NodeID}

theorem lastRecord_append (log batch : List MethodNodeSerializedInfo) (k : NodeID) :
    lastRecord (log ++ batch) k = (lastRecord batch k).or (lastRecord log k) := by
  rw [lastRecord, List.filter_append, List.getLast?_append, lastRecord, lastRecord]

theorem lastRecord_singleton (r : MethodNodeSerializedInfo) (k : NodeID) :
    lastRecord [r] k = if r.callNodeId = k then some r else none := by
  by_cases h : r.callNodeId = k <;> simp [lastRecord, h]

theorem recordAt_singleton (r : MethodNodeSerializedInfo) (k : NodeID) :
    recordAt [r] k = if r.callNodeId = k then some r else none := by
  by_cases h : r.callNodeId = k <;> simp [recordAt, h]

theorem lastRecord_nodup (hn : (batch.map (fun r => r.callNodeId)).Nodup) (k : NodeID) :
    lastRecord batch k = recordAt batch k := by
  induction batch with
  | nil => rfl
  | cons r rest ih =>
      rw [List.map_cons, List.nodup_cons] at hn
      rw [← List.singleton_append, lastRecord_append, recordAt_or, ih hn.2,
        lastRecord_singleton, recordAt_singleton]
      by_cases hr : r.callNodeId = k
      · rw [recordAt_later hn.1 hr, Option.or_none, Option.none_or]
      · rw [if_neg hr, Option.or_none, Option.none_or]

theorem linkOf_mono {k : NodeID} {l : NodeID × NameID} (h : linkOf log k = some l)
    (batch : List MethodNodeSerializedInfo) : linkOf (log ++ batch) k = some l := by
  rw [linkOf] at h ⊢
  split at h
  next h1 => rw [if_pos h1, h]
  next h1 =>
    obtain ⟨r, hr, he⟩ := Option.map_eq_some_iff.mp h
    rw [if_neg h1, recordAt_or, hr, Option.some_or, Option.map_some, he]

theorem parent_mono {k p : NodeID} (h : (linkOf log).parent k = some p)
    (batch : List MethodNodeSerializedInfo) : (linkOf (log ++ batch)).parent k = some p := by
  obtain ⟨l, hl, rfl⟩ := Option.map_eq_some_iff.mp h
  rw [Links.parent, linkOf_mono hl, Option.map_some]

theorem linkOf_old {k : NodeID} (h : Known log k) (batch : List MethodNodeSerializedInfo) :
    linkOf (log ++ batch) k = linkOf log k := by
  obtain ⟨l, hl⟩ := Option.isSome_iff_exists.mp (linkOf_isSome.mpr h)
  rw [linkOf_mono hl, hl]

theorem Known.append {k : NodeID} (h : Known log k) (batch : List MethodNodeSerializedInfo) :
    Known (log ++ batch) k := by
  rw [← linkOf_isSome, linkOf_old h, linkOf_isSome]
  exact h

section Growth

variable (hr : Rooted tree rank) (hl : Linked tree log) (hr' : Rooted tree' rank')
  (hl' : Linked tree' (log ++ batch))

include hr hl hr' hl'

theorem below_old {k x : NodeID} (hx : Known log x) :
    Below (linkOf (log ++ batch)).parent k x ↔ Below (linkOf log).parent k x := by
  refine below_congr_of_closed (S := fun y => Known log y ∨ y = 0) ?_ ?_ (Or.inl hx)
  · rintro y (hy | rfl)
    · rw [Links.parent, linkOf_old hy, Links.parent]
    · rw [← hl'.parentOf, ← hl.parentOf, parentOf, parentOf, hr.zero, hr'.zero]
  · intro y q _ hq
    rw [← hl.parentOf] at hq
    rw [← hl.known]
    exact (hr.parent_known hq).symm

theorem gain_old (ds : DataStore) (k : NodeID) (i : Nat) :
    gain ds (linkOf (log ++ batch)).parent log k i = gain ds (linkOf log).parent log k i := by
  rw [gain, gain]
  split
  · rfl
  · exact sumBelow_congr fun r hm => below_old hr hl hr' hl' (Or.inr ⟨r, hm, rfl⟩)

omit hr' hl' in
theorem gain_unknown (ds : DataStore) {k : NodeID} (h0 : k ≠ 0) (h : ¬ Known log k) (i : Nat) :
    gain ds (linkOf log).parent log k i = 0 := by
  have hnone : ∀ r ∈ log, ¬ Below (linkOf log).parent k r.callNodeId := by
    intro r hm hb
    have hS := Below.closed (S := fun y => Known log y ∨ y = 0) (fun c p hp _ => by
      rw [← hl.parentOf] at hp
      rw [← hl.known]
      exact (hr.parent_known hp).symm) hb (Or.inl (Or.inr ⟨r, hm, rfl⟩))
    exact hS.elim h h0
  rw [gain]
  split
  · exact sumAt_eq_zero fun r hm he => hnone r hm (he ▸ Below.refl _)
  · exact sumBelow_eq_zero hnone

theorem children_old (ds : DataStore) (k : NodeID) (h0 : k ≠ 0) (i : Nat) :
    ((childrenAt tree' k).map (fun c => gain ds (linkOf log).parent log c i)).sum =
      ((childrenAt tree k).map (fun c => gain ds (linkOf log).parent log c i)).sum := by
  cases hk' : tree'[k]? with
  | none =>
      have hk : tree[k]? = none := by
        rw [Option.eq_none_iff_forall_ne_some]
        intro n hn
        obtain ⟨m, hm⟩ := (hl'.known k).mpr (Known.append ((hl.known k).mp ⟨n, hn⟩) batch)
        rw [hk'] at hm
        cases hm
      rw [childrenAt, childrenAt, hk, hk']
  | some n' =>
      refine sum_map_subset (childrenAt_nodup tree k) (childrenAt_nodup tree' k) ?_ _ ?_
      · intro c hc
        cases hk : tree[k]? with
        | none =>
            rw [childrenAt, hk] at hc
            cases hc
        | some n =>
            rw [hr.mem_childrenAt hk, hl.parentOf] at hc
            rw [hr'.mem_childrenAt hk', hl'.parentOf]
            exact parent_mono hc batch
      · intro c hc hn
        rw [hr'.mem_childrenAt hk'] at hc
        obtain ⟨m, hm, -⟩ := Rooted.child_exists hc
        refine gain_unknown hr hl ds (hr'.ne_zero hm) (fun hkn => hn ?_) i
        rw [hl'.parentOf, Links.parent, linkOf_old hkn, ← Links.parent, ← hl.parentOf] at hc
        obtain h | ⟨n, hk⟩ := hr.parent_known hc
        · exact absurd h h0
        · exact (hr.mem_childrenAt hk c).mpr hc

end Growth

theorem gain_nil (parent : NodeID → Option NodeID) (k : NodeID) (i : Nat) : gain ds parent [] k i = 0 := by
  simp [gain, sumAt, sumBelow]

theorem gain_append (parent : NodeID → Option NodeID) (xs ys : List MethodNodeSerializedInfo)
    (k : NodeID) (i : Nat) :
    gain ds parent (xs ++ ys) k i = gain ds parent xs k i + gain ds parent ys k i := by
  rw [gain, gain, gain]
  split
  · exact sumAt_append xs ys k
  · exact sumBelow_append xs ys k

theorem Stored.node (hs : Stored gl ds ts batch running rank' ts') (hw : Wf gl ds rank ts.currentTree)
    (hsingle : gl.singleTreeMode = false) {k : NodeID} {n' : RecordNode}
    (hk : ts'.currentTree[k]? = some n') :
    ∃ b, baseAt gl ds ts.currentTree batch k = some b ∧
      (∀ i, i < ds.numRecords → value n'.allValues i =
        if isStatic ds i then ((recordAt batch k).map (recordValue i)).getD (value b.allValues i)
        else value b.allValues i + gain ds (parentOf ts'.currentTree) batch k i) ∧
      (∀ i, i < ds.numRecords → value n'.childrenValues i = value b.childrenValues i + counted ds i
        ((childrenAt ts'.currentTree k).map (fun c => gain ds (parentOf ts'.currentTree) batch c i)).sum) ∧
      n'.callCount = startCalls batch k + b.callCount := by
  classical
  have hnodes := hs.nodes k
  rw [hk, Option.map_some] at hnodes
  obtain ⟨b, hb, hn'⟩ := Option.map_eq_some_iff.mp hnodes.symm
  have hlen : b.allValues.length = ds.numRecords ∧ b.childrenValues.length = ds.numRecords := by
    rw [baseAt] at hb
    cases ht : ts.currentTree[k]? with
    | some n =>
        rw [ht] at hb
        cases hb
        exact (hw.sized k n ht).2.2.2 hsingle
    | none =>
        rw [ht] at hb
        obtain ⟨r, -, rfl⟩ := Option.map_eq_some_iff.mp hb
        exact (sized_fresh gl ds).2.2.2 hsingle
  have hall := congrArg Base.allValues hn'
  have hchildren := congrArg Base.childrenValues hn'
  have hcalls := congrArg Base.callCount hn'
  dsimp only [settledBase, baseOf] at hall hchildren hcalls
  refine ⟨b, hb, fun i hi => ?_, fun i hi => ?_, hcalls.symm⟩
  · rw [← hall, value_refill hlen.1 _ hi]
    cases hst : isStatic ds i with
    | false => rfl
    | true =>
        rw [if_pos rfl, if_pos rfl, startTemp]
        cases hrec : recordAt batch k with
        | none => simp [hst, hsingle]
        | some r =>
            rw [if_pos]
            · rfl
            · refine ⟨⟨_, by rw [linkIn, hb, Option.map_some]⟩, k, Or.inl ⟨r, ?_, ?_⟩, Below.refl k⟩
              · exact List.mem_of_find?_eq_some hrec
              · simpa using List.find?_some hrec
  · rw [← hchildren, value_refill hlen.2 _ hi]

theorem value_fresh (gl : Settings) (ds : DataStore) (i : Nat) : value (freshValues gl ds) i = 0 := by
  rw [freshValues]
  split
  · rfl
  · by_cases hi : i < ds.numRecords
    · rw [value_slots _ hi]
    · rw [value, List.getD_eq_getElem?_getD, List.getElem?_eq_none (by rw [length_slots]; omega),
        Option.getD_none]

theorem Tallied.step (ds : DataStore) (hsingle : gl.singleTreeMode = false)
    (hw : Wf gl ds rank ts.currentTree) (hl : Linked ts.currentTree log)
    (hl' : Linked ts'.currentTree (log ++ batch)) (hn : (batch.map (fun r => r.callNodeId)).Nodup)
    (ht : ∀ (k : NodeID) (n : RecordNode), ts.currentTree[k]? = some n → Tallied ds log ts.currentTree k n)
    (hs : Stored gl ds ts batch running rank' ts') {k : NodeID} {n' : RecordNode}
    (hk : ts'.currentTree[k]? = some n') : Tallied ds (log ++ batch) ts'.currentTree k n' := by
  obtain ⟨b, hb, hall, hchildren, hcalls⟩ := Stored.node hs hw hsingle hk
  have h0 := hs.wf.rooted.ne_zero hk
  have hgain := gain_old hw.rooted hl hs.wf.rooted hl' ds
  -- What an unknown node starts with is what the log has of it: nothing.
  have hbase : (∀ i, i < ds.numRecords → value b.allValues i =
        if isStatic ds i then lastValue log k i else gain ds (linkOf log).parent log k i) ∧
      (∀ i, i < ds.numRecords → value b.childrenValues i =
        counted ds i ((childrenAt ts.currentTree k).map (fun c => gain ds (linkOf log).parent log c i)).sum) ∧
      b.callCount = sumAt (fun r => r.callNodeId) (fun r => (r.callCount : LongLong)) log k := by
    rw [baseAt] at hb
    cases hold : ts.currentTree[k]? with
    | some n =>
        rw [hold] at hb
        cases hb
        exact ⟨(ht k n hold).all, (ht k n hold).children, (ht k n hold).calls⟩
    | none =>
        rw [hold] at hb
        obtain ⟨r, -, rfl⟩ := Option.map_eq_some_iff.mp hb
        have hunknown : ¬ Known log k := by
          rw [← hl.known, hold]
          rintro ⟨n, hn⟩
          cases hn
        have hsite : ∀ r ∈ log, r.callNodeId ≠ k := fun r hr he => hunknown (Or.inr ⟨r, hr, he⟩)
        refine ⟨fun i _ => ?_, fun i _ => ?_, ?_⟩
        · rw [gain_unknown hw.rooted hl ds h0 hunknown, lastValue, lastRecord,
            List.filter_eq_nil_iff.mpr (by simpa using hsite)]
          simp [freshBase, value_fresh]
        · rw [childrenAt, hold]
          simp [freshBase, value_fresh, counted]
        · rw [sumAt_eq_zero hsite]
          rfl
  rw [hl'.parentOf] at hall hchildren
  refine ⟨fun i hi => ?_, fun i hi => ?_, ?_⟩
  · rw [hall i hi, hbase.1 i hi, gain_append, hgain]
    cases hst : isStatic ds i with
    | false => rfl
    | true =>
        rw [if_pos rfl, if_pos rfl, if_pos rfl, lastValue, lastValue, lastRecord_append, lastRecord_nodup hn]
        cases recordAt batch k <;> rfl
  · have hsum := children_old hw.rooted hl hs.wf.rooted hl' ds k h0 i
    rw [hchildren i hi, hbase.2.1 i hi, ← hsum, ← counted_add, ← List.sum_map_add]
    simp only [gain_append, hgain]
  · have hstart : sumAt (fun r : MethodNodeSerializedInfo => r.callNodeId) (fun r => (r.callCount : LongLong))
        batch k = startCalls batch k :=
      sumAt_record _ hn k
    rw [hcalls, hbase.2.2, sumAt_append, hstart, add_comm]

theorem newThreadStore_tallied (gl : Settings) (ds : DataStore) (threadId : ThreadID)
    (k : NodeID) (n : RecordNode) (hk : (newThreadStore gl ds threadId).currentTree[k]? = some n) :
    Tallied ds [] (newThreadStore gl ds threadId).currentTree k n := by
  rw [newThreadStore_tree] at hk
  split at hk
  next h1 =>
    subst h1
    cases hk
    refine ⟨fun i hi => ?_, fun i hi => ?_, rfl⟩
    · simp [resize_nil, value_slots _ hi, lastValue, lastRecord, gain_nil]
    · simp [resize_nil, value_slots _ hi, gain_nil, counted]
  next => cases hk

theorem Tallied.delivery (hsingle : gl.singleTreeMode = false) {done : List Delivery} {d : Delivery}
    (hb : WellFormedBatch ds (logOf done) d) (hr : Reached gl ds done rank ts)
    (ht : ∀ (k : NodeID) (n : RecordNode), ts.currentTree[k]? = some n →
      Tallied ds (logOf done) ts.currentTree k n)
    (hs : Stored gl (d.dataStore ds) ts d.batch d.now.runningNode rank' ts')
    (hr' : Reached gl ds (done ++ [d]) rank' ts') (k : NodeID) (n : RecordNode)
    (hk : ts'.currentTree[k]? = some n) :
    Tallied ds (logOf (done ++ [d])) ts'.currentTree k n := by
  have hlinks := hr'.links
  rw [logOf_append, logOf_singleton] at hlinks ⊢
  have hstep := Tallied.step (d.dataStore ds) hsingle (Wf.dataStore hr.wf rfl) hr.links hlinks hb.ids
    (fun k n hk => ⟨(ht k n hk).all, (ht k n hk).children, (ht k n hk).calls⟩) hs hk
  exact ⟨hstep.all, hstep.children, hstep.calls⟩

theorem storeAll_tallied (gl : Settings) (hd : Described ds) (hoff : gl.leafNodeAccumulate = false)
    (hsingle : gl.singleTreeMode = false) (threadId : ThreadID) {deliveries : List Delivery}
    (hw : WellFormedRun ds deliveries) (hu : UndisturbedRun ds deliveries) :
    ∃ ts rank, storeAll gl ds (newThreadStore gl ds threadId) deliveries = .ok ts ∧
      Reached gl ds deliveries rank ts ∧ ∀ (k : NodeID) (n : RecordNode), ts.currentTree[k]? = some n →
        Tallied ds (logOf deliveries) ts.currentTree k n := by
  obtain ⟨rank, hr⟩ := newThreadStore_reached gl ds threadId
  refine storeAll_reached [] hd hoff hw hu
    (fun done ts => ∀ (k : NodeID) (n : RecordNode), ts.currentTree[k]? = some n →
      Tallied ds (logOf done) ts.currentTree k n) ?_ hr (newThreadStore_tallied gl ds threadId)
  intro done d rest ts ts' rank rank' _ hb hr ht hs hr'
  exact Tallied.delivery hsingle hb hr ht hs hr'

theorem Reached.totals {done : List Delivery} (hr : Reached gl ds done rank ts)
    (ht : ∀ (k : NodeID) (n : RecordNode), ts.currentTree[k]? = some n →
      Tallied ds (logOf done) ts.currentTree k n) :
    Totals ds (logOf done) ts.currentTree := by
  have hgain {k : NodeID} {n : RecordNode} {i : Nat} (hk : ts.currentTree[k]? = some n)
    (hi : i < ds.numRecords)
      (hs : isStatic ds i = false) : value n.allValues i =
        gain ds (parentOf ts.currentTree) (logOf done) k i := by
    rw [(ht k n hk).all i hi, hs, if_neg Bool.false_ne_true, hr.links.parentOf]
  refine ⟨?_, hr.links.known, hr.wf.rooted.children, ?_, ?_, ?_, ?_⟩
  · intro k n hk
    rw [← dirtyAt_eq hk, hr.clean]
  · intro k n i hk hi hs
    rw [(ht k n hk).all i hi, if_pos hs]
  · intro k n i hk hi hs ha
    rw [hgain hk hi hs, gain, if_pos ha]
    exact counts_sumAt (fun r _ => counts_toInt _) _ k
  · intro k n i hk hi hs ha
    rw [hgain hk hi hs, gain, ha, if_neg Bool.false_ne_true]
    exact counts_sumBelow (fun r _ => counts_toInt _) _ _ k
  · intro k n i hk hi hs
    rw [(ht k n hk).children i hi, counted, hs, if_neg Bool.false_ne_true, childrenAt_eq hk]
    refine counts_sum fun c hc => ?_
    rw [mem_toList_set, hr.wf.rooted.children k n hk] at hc
    obtain ⟨m, hm, -⟩ := Rooted.child_exists hc
    rw [allAt, hm, Option.map_some, Option.getD_some, hgain hm hi hs, hr.links.parentOf]
    exact counts_toInt _

/-- After every store of an undisturbed run no node is dirty and the totals are
those of the records stored so far. -/
theorem store_totals (gl : Settings) (hoff : gl.leafNodeAccumulate = false)
    (hsingle : gl.singleTreeMode = false) (ds : DataStore) (hd : Described ds) (threadId : ThreadID)
    (deliveries : List Delivery) (hw : WellFormedRun ds deliveries)
    (hu : UndisturbedRun ds deliveries) (done : List Delivery) (hdone : done <+: deliveries) :
    ∃ ts, storeAll gl ds (newThreadStore gl ds threadId) done = .ok ts ∧
      Totals ds (logOf done) ts.currentTree := by
  obtain ⟨rest, rfl⟩ := hdone
  obtain ⟨ts, rank, hrun, hr, ht⟩ := storeAll_tallied gl hd hoff hsingle threadId hw.left hu.left
  exact ⟨ts, hrun, Reached.totals hr ht⟩

def defaultMode : Settings := { leafNodeAccumulate := false, singleTreeMode := false, hashStrHard := fun _ => 7 }

def plainSlot : DataStore :=
  { currentTimeNumber := 0
    recordMetadata := [{ fieldName := [], unit := [], flags := [], accumulatedValueFlag := false, staticValueFlag := false }]
    numRecords := 1
    nameTable := ∅ }

def belowHash : Delivery :=
  { time := 1
    nameTable := (∅ : Std.TreeMap NameID Bytes).insert 1 (ascii "#a")
    batch := [⟨1, 2, 1, 1, [0]⟩, ⟨2, 3, 2, 1, [5]⟩]
    now := ⟨3, [0]⟩ }

theorem belowHash_wellFormed : WellFormedRun plainSlot [belowHash] := by
  refine ⟨by decide, forall_split_cons.mpr ⟨⟨by decide, by decide, ?_, by decide, by decide⟩, forall_split_nil⟩⟩
  exact forall_split_cons.mpr ⟨Or.inl rfl, forall_split_cons.mpr ⟨Or.inr (by decide), forall_split_nil⟩⟩

theorem totals_fail_below_hash :
    WellFormedRun plainSlot [belowHash] ∧
      ∃ ts, storeAll defaultMode plainSlot (newThreadStore defaultMode plainSlot 0) [belowHash] = .ok ts ∧
        (∃ n, ts.currentTree[3]? = some n ∧ n.dirty = true) ∧
          ¬ Totals plainSlot (logOf [belowHash]) ts.currentTree := by
  obtain ⟨ts, hrun, hd⟩ :=
    ok_of_any (x := storeAll defaultMode plainSlot (newThreadStore defaultMode plainSlot 0) [belowHash])
      (p := fun ts => dirtyAt ts.currentTree 3) (by decide +kernel)
  obtain ⟨n, hn, hdn⟩ := dirtyAt_some hd
  refine ⟨belowHash_wellFormed, ts, hrun, ⟨n, hn, hdn⟩, fun h => ?_⟩
  rw [h.clean 3 n hn] at hdn
  cases hdn

def twoDeliveries : List Delivery :=
  [{ time := 1, nameTable := ∅, batch := [⟨1, 2, 1, 1, [0]⟩, ⟨2, 3, 2, 1, [5]⟩], now := ⟨3, [0]⟩ },
   { time := 2, nameTable := ∅, batch := [⟨2, 3, 2, 2, [4]⟩], now := ⟨1, [0]⟩ }]

theorem undisturbed_of_names {link : Links} {seed : NodeID → Prop}
    (h : ∀ x, isAttrName (ds.getNameFromID x) = false) : Undisturbed ds link seed := by
  intro k p x _ _ ha
  rw [h] at ha
  cases ha

theorem twoDeliveries_wellFormed : WellFormedRun plainSlot twoDeliveries := by
  refine ⟨by decide, forall_split_cons.mpr ⟨⟨by decide, by decide, ?_, by decide, by decide⟩, forall_split_cons.mpr
    ⟨⟨by decide, by decide, ?_, by decide, by decide⟩, forall_split_nil⟩⟩⟩
  · exact forall_split_cons.mpr ⟨Or.inl rfl, forall_split_cons.mpr ⟨Or.inr (by decide), forall_split_nil⟩⟩
  · exact forall_split_cons.mpr ⟨Or.inr (by decide), forall_split_nil⟩

theorem unknown_names (h : ds.nameTable = ∅) (x : NameID) : isAttrName (ds.getNameFromID x) = false := by
  rw [DataStore.getNameFromID, h, Std.TreeMap.getD_eq_getD_getElem?]
  rfl

theorem twoDeliveries_undisturbed : UndisturbedRun plainSlot twoDeliveries :=
  forall_split_cons.mpr ⟨undisturbed_of_names (unknown_names rfl), forall_split_cons.mpr
    ⟨undisturbed_of_names (unknown_names rfl), forall_split_nil⟩⟩

theorem store_totals_two :
    ∃ ts, storeAll defaultMode plainSlot (newThreadStore defaultMode plainSlot 0) twoDeliveries = .ok ts ∧
    Totals plainSlot (logOf twoDeliveries) ts.currentTree :=
  store_totals defaultMode rfl rfl plainSlot rfl 0 twoDeliveries twoDeliveries_wellFormed
    twoDeliveries_undisturbed twoDeliveries (List.prefix_refl _)

end Llprof.Monitor.RunTotals
