import Llprof.Monitor.StoreSpec

namespace Llprof.Monitor.Runs

open Faulting hiding store
open LittleEndian ParentTree TreeMaps Nodes Store SlotLoops TreeShape FlushSpec Receive Slices StoreSpec
open Profiler.CallTree (MethodNodeSerializedInfo)

/-- What a drain brings to a thread store: its time number, the names that are
known by then, the records and the NOWINFO. -/
structure Delivery where
  time : Int
  nameTable : Std.TreeMap NameID Bytes
  batch : List MethodNodeSerializedInfo
  now : NowInfo

def Delivery.dataStore (ds : DataStore) (d : Delivery) : DataStore :=
  { ds with currentTimeNumber := d.time, nameTable := d.nameTable }

def Delivery.store (gl : Settings) (ds : DataStore) (ts : ThreadStore) (d : Delivery) : Run ThreadStore :=
  Store.store gl (d.dataStore ds) ts d.batch d.now

def storeAll (gl : Settings) (ds : DataStore) (ts : ThreadStore) (deliveries : List Delivery) :
    Run ThreadStore :=
  deliveries.foldlM (Delivery.store gl ds) ts

def logOf (deliveries : List Delivery) : List MethodNodeSerializedInfo :=
  deliveries.flatMap (fun d => d.batch)

def Known (log : List MethodNodeSerializedInfo) (k : NodeID) : Prop := k = 1 ∨ ∃ r ∈ log, r.callNodeId = k

/-- The first record of a node says where it hangs. -/
def linkOf (log : List MethodNodeSerializedInfo) : Links := fun k =>
  if k = 1 then some (0, 0) else (recordAt log k).map (fun r => (r.parentNodeId, r.nameid))

def seedOf (log batch : List MethodNodeSerializedInfo) (running x : NodeID) : Prop :=
  (∃ r ∈ batch, r.callNodeId = x) ∨ x = running ∧ Known log x

/-- A batch that is well formed after the records of `log`. -/
structure WellFormedBatch (ds : DataStore) (log : List MethodNodeSerializedInfo) (d : Delivery) : Prop where
  ids : (d.batch.map (fun r => r.callNodeId)).Nodup
  nonzero : ∀ r ∈ d.batch, r.callNodeId ≠ 0
  parents : ∀ done r rest, d.batch = done ++ r :: rest → Known (log ++ done) r.parentNodeId
  values : ∀ r ∈ d.batch, r.profileValue.length = ds.numRecords
  nowValues : ds.numRecords ≤ d.now.values.length

structure WellFormedRun (ds : DataStore) (deliveries : List Delivery) : Prop where
  times : (deliveries.map (fun d => d.time)).Pairwise (· < ·)
  batches : ∀ done d rest, deliveries = done ++ d :: rest → WellFormedBatch ds (logOf done) d

/-- No store of a run meets a touched node named `#…` that is the root or has a
touched child. -/
def UndisturbedRun (ds : DataStore) (deliveries : List Delivery) : Prop :=
  ∀ done d rest, deliveries = done ++ d :: rest →
    Undisturbed (d.dataStore ds) (linkOf (logOf done ++ d.batch))
      (seedOf (logOf done) d.batch d.now.runningNode)

variable {gl : Settings} {ds : DataStore} {rank : NodeID → Nat} {tree : Tree}
  {log : List MethodNodeSerializedInfo}

theorem logOf_append (xs ys : List Delivery) : logOf (xs ++ ys) = logOf xs ++ logOf ys := List.flatMap_append

theorem logOf_singleton (d : Delivery) : logOf [d] = d.batch := by simp [logOf]

theorem WellFormedRun.left {xs ys : List Delivery} (h : WellFormedRun ds (xs ++ ys)) :
    WellFormedRun ds xs := by
  refine ⟨?_, fun done d rest he => h.batches done d (rest ++ ys) (by rw [he]; simp)⟩
  have := h.times
  rw [List.map_append, List.pairwise_append] at this
  exact this.1

theorem UndisturbedRun.left {xs ys : List Delivery} (h : UndisturbedRun ds (xs ++ ys)) :
    UndisturbedRun ds xs :=
  fun done d rest he => h done d (rest ++ ys) (by rw [he]; simp)

theorem WellFormedRun.time_lt {done rest : List Delivery} {d : Delivery}
    (h : WellFormedRun ds (done ++ d :: rest)) : ∀ e ∈ done, e.time < d.time := by
  have := h.times
  rw [List.map_append, List.pairwise_append] at this
  exact fun e he => this.2.2 _ (List.mem_map_of_mem he) _ (by simp)

def Linked (tree : Tree) (log : List MethodNodeSerializedInfo) : Prop :=
  ∀ k : NodeID, (tree[k]?).map (fun n => (n.parentId, n.nodeName)) = linkOf log k

theorem linkOf_isSome {k : NodeID} : (linkOf log k).isSome = true ↔ Known log k := by
  rw [linkOf, Known]
  by_cases h : k = 1
  · simp [h]
  · simp [h, recordAt]

theorem Linked.known (h : Linked tree log) (k : NodeID) : (∃ n, tree[k]? = some n) ↔ Known log k := by
  rw [← linkOf_isSome, ← h k, Option.isSome_map, Option.isSome_iff_exists]

theorem Linked.parentOf (h : Linked tree log) : parentOf tree = (linkOf log).parent := by
  funext k
  rw [Links.parent, ← h k, Option.map_map]
  rfl

theorem Linked.seed (h : Linked tree log) (batch : List MethodNodeSerializedInfo) (running : NodeID) :
    Seed tree batch running = seedOf log batch running := by
  funext x
  rw [Seed, seedOf, h.known]

theorem recordAt_or (log batch : List MethodNodeSerializedInfo) (k : NodeID) :
    recordAt (log ++ batch) k = (recordAt log k).or (recordAt batch k) := List.find?_append

theorem Linked.linkIn (gl : Settings) (ds : DataStore) (h : Linked tree log)
    (batch : List MethodNodeSerializedInfo) : linkIn gl ds tree batch = linkOf (log ++ batch) := by
  funext k
  have hk := h k
  rw [StoreSpec.linkIn, baseAt, linkOf, recordAt_or]
  rw [linkOf] at hk
  cases ht : tree[k]? with
  | some n =>
      rw [ht, Option.map_some] at hk
      by_cases h1 : k = 1
      · rw [if_pos h1] at hk ⊢
        exact hk
      · rw [if_neg h1] at hk ⊢
        obtain ⟨r, hr, he⟩ := Option.map_eq_some_iff.mp hk.symm
        rw [hr, Option.some_or, ← hr, ← hk]
        rfl
  | none =>
      rw [ht, Option.map_none] at hk
      by_cases h1 : k = 1
      · rw [if_pos h1] at hk
        cases hk
      · rw [if_neg h1] at hk ⊢
        rw [Option.map_eq_none_iff.mp hk.symm, Option.none_or, Option.map_map]
        rfl

/-- What holds of a thread store after the deliveries `done`. -/
structure Reached (gl : Settings) (ds : DataStore) (done : List Delivery)
    (rank : NodeID → Nat) (ts : ThreadStore) : Prop where
  wf : Wf gl ds rank ts.currentTree
  clean : ∀ k, dirtyAt ts.currentTree k = false
  attrNodeMap : ts.attrNodeMap = ∅
  links : Linked ts.currentTree (logOf done)
  started : done ≠ [] → ts.timeSlice ≠ []
  start : ts.timeSlice = [] ∨ ∃ d ∈ done, ts.startTimeNumber ≤ d.time
  fresh : ∀ u, (∀ d ∈ done, d.time ≠ u) → sliceAt ts u = ∅

theorem newThreadStore_tree (gl : Settings) (ds : DataStore) (threadId : ThreadID) (k : NodeID) :
    (newThreadStore gl ds threadId).currentTree[k]? = if k = 1 then some { emptyNode with
      id := 1
      allValues := resize [] ds.numRecords
      childrenValues := resize [] ds.numRecords
      tempValues := resize [] ds.numRecords
      gnid := 1 } else none := by
  simp only [newThreadStore, ThreadStore.addCurrentNode, ThreadStore.getNodeFromID, ThreadStore.setNode,
    getElem?_insert_self, getElem?_insert, Std.TreeMap.getElem?_emptyc]
  by_cases h : k = 1
  · simp [h, RecordNode.setDataStore, RecordNodeBasic.setDataStore, emptyNode, emptyBasic]
  · simp [h]

theorem newThreadStore_reached (gl : Settings) (ds : DataStore) (threadId : ThreadID) :
    ∃ rank, Reached gl ds [] rank (newThreadStore gl ds threadId) := by
  have htree := newThreadStore_tree gl ds threadId
  have hone {k : NodeID} {n : RecordNode} (h : (newThreadStore gl ds threadId).currentTree[k]? = some n) :
      k = 1 ∧ n = { emptyNode with
        id := 1
        allValues := resize [] ds.numRecords
        childrenValues := resize [] ds.numRecords
        tempValues := resize [] ds.numRecords
        gnid := 1 } := by
    rw [htree] at h
    by_cases h1 : k = 1
    · rw [if_pos h1, Option.some.injEq] at h
      exact ⟨h1, h.symm⟩
    · rw [if_neg h1] at h
      cases h
  have hlen : (resize [] ds.numRecords).length = ds.numRecords := by rw [resize_nil, Slots.length_slots]
  have hpar (c p : NodeID) (h : parentOf (newThreadStore gl ds threadId).currentTree c = some p) : c = 1 ∧
      p = 0 := by
    obtain ⟨n, hn, rfl⟩ := parentOf_eq_some.mp h
    obtain ⟨h1, rfl⟩ := hone hn
    exact ⟨h1, rfl⟩
  have hroot : (newThreadStore gl ds threadId).currentTree[(1 : NodeID)]? = some _ :=
    (htree 1).trans (if_pos rfl)
  refine ⟨fun k => if k = 1 then 1 else 0, ⟨⟨?_, ?_, ⟨_, hroot, rfl⟩, ?_, ?_, ?_, ?_⟩, ?_, ?_, ?_⟩, ?_, ?_,
    ?_, ?_, ?_, ?_⟩
  · rw [htree, if_neg (by decide)]
  · intro k n hn
    obtain ⟨rfl, rfl⟩ := hone hn
    rfl
  · intro k n hn h1
    exact absurd (hone hn).1 h1
  · intro p n hn c
    obtain ⟨rfl, rfl⟩ := hone hn
    refine iff_of_false (by simp [emptyNode]) fun h => ?_
    cases (hpar c 1 h).2
  · intro c p h
    obtain ⟨rfl, rfl⟩ := hpar c p h
    simp
  · intro k n hn
    obtain ⟨rfl, -⟩ := hone hn
    rw [if_pos rfl]
    have h0 : (newThreadStore gl ds threadId).currentTree.size ≠ 0 := by
      intro h0
      have hem := Std.TreeMap.isEmpty_eq_size_eq_zero (t := (newThreadStore gl ds threadId).currentTree)
      rw [h0] at hem
      have := (Std.TreeMap.isEmpty_iff_forall_not_mem.mp hem) 1
      exact this (mem_iff_some.mpr ⟨n, hn⟩)
    omega
  · intro k n hn
    obtain ⟨-, rfl⟩ := hone hn
    exact ⟨Or.inr hlen, Or.inr hlen, hlen, fun _ => ⟨hlen, hlen⟩⟩
  · intro c p h hd
    have := (hpar c p h).1
    rw [this, dirtyAt, hroot] at hd
    cases hd
  · intro n hn
    rw [(hone hn).2]
    exact Nat.one_ne_zero
  · intro k
    rw [dirtyAt, htree]
    split <;> rfl
  · rfl
  · intro k
    rw [htree, linkOf]
    split <;> rfl
  · intro h
    exact absurd rfl h
  · exact Or.inl rfl
  · intro u _
    exact sliceAt_nil rfl u

theorem Linked.wellFormed (h : Linked tree log) {d : Delivery} (hb : WellFormedBatch ds log d) :
    WellFormed (d.dataStore ds) tree d.batch d.now := by
  refine ⟨hb.ids, hb.nonzero, fun done r rest he => ?_, hb.values, hb.nowValues⟩
  rw [h.known]
  obtain h1 | ⟨q, hq, hqr⟩ := hb.parents done r rest he
  · exact Or.inl (Or.inl h1)
  · obtain hq | hq := List.mem_append.mp hq
    · exact Or.inl (Or.inr ⟨q, hq, hqr⟩)
    · exact Or.inr ⟨q, hq, hqr⟩

theorem Wf.dataStore {ds' : DataStore} (h : Wf gl ds rank tree) (hn : ds'.numRecords = ds.numRecords) :
    Wf gl ds' rank tree := by
  refine ⟨h.rooted, fun k n hk => ?_, h.upward, h.rootGnid⟩
  have := h.sized k n hk
  rwa [← hn, Sized, Sized, ← hn] at this

theorem Reached.step (hd : Described ds) (hoff : gl.leafNodeAccumulate = false)
    {done : List Delivery} {ts : ThreadStore} (h : Reached gl ds done rank ts) {d : Delivery}
    (hb : WellFormedBatch ds (logOf done) d)
    (hu : Undisturbed (d.dataStore ds) (linkOf (logOf done ++ d.batch)) (seedOf (logOf done) d.batch d.now.runningNode))
    (htime : ∀ e ∈ done, e.time < d.time) :
    ∃ ts' rank', d.store gl ds ts = .ok ts' ∧
      Stored gl (d.dataStore ds) ts d.batch d.now.runningNode rank' ts' ∧
        Reached gl ds (done ++ [d]) rank' ts' := by
  have hw : Wf gl (d.dataStore ds) rank ts.currentTree := Wf.dataStore h.wf rfl
  rw [← h.links.linkIn gl (d.dataStore ds), ← h.links.seed] at hu
  have hreach : ts.timeSlice = [] ∨ ts.startTimeNumber ≤ d.time := by
    obtain h0 | ⟨e, he, hle⟩ := h.start
    · exact Or.inl h0
    · exact Or.inr (hle.trans (htime e he).le)
  obtain ⟨ts', rank', hrun, hs⟩ := store_stored (d.dataStore ds) hd hoff ts h.attrNodeMap hw h.clean
    (h.links.wellFormed hb) hu hreach (h.fresh d.time fun e he => (htime e he).ne)
  refine ⟨ts', rank', hrun, hs, Wf.dataStore hs.wf rfl, hs.clean, hs.attrNodeMap.trans h.attrNodeMap, ?_,
    fun _ => hs.timeSlice, ?_, ?_⟩
  · intro k
    rw [logOf_append, logOf_singleton, ← h.links.linkIn gl (d.dataStore ds), linkIn]
    have hk := congrArg (Option.map (fun b : Base => (b.parentId, b.nodeName))) (hs.nodes k)
    rwa [Option.map_map, Option.map_map] at hk
  · right
    rw [hs.startTimeNumber, ThreadStore.startFor]
    split
    · exact ⟨d, by simp, le_refl _⟩
    next he =>
      obtain h0 | ⟨e, he, hle⟩ := h.start
      · rw [h0] at he
        exact absurd rfl he
      · exact ⟨e, List.mem_append_left _ he, hle⟩
  · intro u hfree
    have hne : u ≠ d.time := fun he => hfree d (by simp) he.symm
    rw [hs.slices u hne]
    exact h.fresh u fun e he => hfree e (List.mem_append_left _ he)

theorem storeAll_reached (first : List Delivery) (hd : Described ds)
    (hoff : gl.leafNodeAccumulate = false) {more : List Delivery} (hw : WellFormedRun ds (first ++ more))
    (hu : UndisturbedRun ds (first ++ more)) (P : List Delivery → ThreadStore → Prop)
    (hstep : ∀ (done : List Delivery) (d : Delivery) (rest : List Delivery) ts ts' rank rank',
      more = done ++ d :: rest →
      WellFormedBatch ds (logOf (first ++ done)) d → Reached gl ds (first ++ done) rank ts → P done ts →
      Stored gl (d.dataStore ds) ts d.batch d.now.runningNode rank' ts' →
      Reached gl ds (first ++ done ++ [d]) rank' ts' → P (done ++ [d]) ts')
    {ts : ThreadStore} (hr : Reached gl ds first rank ts) (hp : P [] ts) :
    ∃ ts' rank', storeAll gl ds ts more = .ok ts' ∧ Reached gl ds (first ++ more) rank' ts' ∧ P more ts' := by
  obtain ⟨ts', hrun, ⟨rank', hr'⟩, hp'⟩ := foldlM_total (f := Delivery.store gl ds)
    (fun (done : List Delivery) ts => (∃ rank, Reached gl ds (first ++ done) rank ts) ∧ P done ts) more
    (by
      rintro done d rest ts he ⟨⟨rank, hr⟩, hp⟩
      have hsplit : first ++ more = first ++ done ++ d :: rest := by rw [he, List.append_assoc]
      have htime := WellFormedRun.time_lt (hsplit ▸ hw)
      have hb := hw.batches _ d rest hsplit
      obtain ⟨ts', rank', hrun, hs, hr'⟩ := hr.step hd hoff hb (hu _ d rest hsplit) htime
      refine ⟨ts', hrun, ⟨rank', ?_⟩, hstep done d rest ts ts' rank rank' he hb hr hp hs hr'⟩
      rwa [← List.append_assoc])
    (s := ts) ⟨⟨rank, by rwa [List.append_nil]⟩, hp⟩
  exact ⟨ts', rank', hrun, hr', hp'⟩

theorem storeAll_append {xs ys : List Delivery} {ts ts' : ThreadStore} :
    storeAll gl ds ts (xs ++ ys) = .ok ts' ↔
      ∃ t, storeAll gl ds ts xs = .ok t ∧ storeAll gl ds t ys = .ok ts' :=
  foldlM_append_ok (f := Delivery.store gl ds)

end Llprof.Monitor.Runs
