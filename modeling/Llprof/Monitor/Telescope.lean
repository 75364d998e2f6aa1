import Llprof.Monitor.MergeSlices
import Llprof.Monitor.RunTotals

namespace Llprof.Monitor.Telescope

open Faulting hiding store
open LittleEndian ParentTree TreeMaps Slots Timeline Nodes Store SlotLoops TreeShape FlushSpec Slices
  NewLeaf Receive StoreSpec MergeSlices Runs RunTotals
open Profiler.CallTree (MethodNodeSerializedInfo)

def baseEntry (b : Base) : Entry := ⟨b.allValues, b.childrenValues, b.callCount⟩

variable {gl : Settings} {ds : DataStore} {rank rank' : NodeID → Nat} {ts ts' : ThreadStore}
  {batch : List MethodNodeSerializedInfo} {running : NodeID}

theorem dataAt_base (tree : Tree) (k : NodeID) : dataAt tree k = ((tree[k]?).map baseOf).map baseEntry := by
  rw [dataAt, Option.map_map]
  rfl

theorem refill_eq_slots {values : List ProfileValue} (h : values.length = ds.numRecords)
    (f : Nat → ProfileValue) : refill ds values f = slots ds.numRecords f := by
  rw [refill]
  split
  next he =>
    rw [List.isEmpty_iff] at he
    rw [he] at h ⊢
    rw [← h]
    rfl
  next => rfl

theorem untouched_gain (hs : Stored gl ds ts batch running rank' ts') {k : NodeID} {b : Base}
    (hb : baseAt gl ds ts.currentTree batch k = some b)
    (ht : ¬ Touched (linkIn gl ds ts.currentTree batch) (Seed ts.currentTree batch running) k) :
    recordAt batch k = none ∧ ∀ i, gain ds (parentOf ts'.currentTree) batch k i = 0 ∧
      ((childrenAt ts'.currentTree k).map (fun c => gain ds (parentOf ts'.currentTree) batch c i)).sum =
        0 := by
  have hnone : ∀ r ∈ batch, ¬ Below (parentOf ts'.currentTree) k r.callNodeId := by
    intro r hr hbel
    rw [hs.parent] at hbel
    exact ht ⟨⟨_, by rw [linkIn, hb, Option.map_some]⟩, r.callNodeId, Or.inl ⟨r, hr, rfl⟩, hbel⟩
  have hgain (c : NodeID) (hc : ∀ r ∈ batch, ¬ Below (parentOf ts'.currentTree) c r.callNodeId) (i : Nat) :
      gain ds (parentOf ts'.currentTree) batch c i = 0 := by
    rw [gain]
    split
    · exact sumAt_eq_zero fun r hr he => hc r hr (he ▸ Below.refl _)
    · exact sumBelow_eq_zero hc
  refine ⟨recordAt_none.mpr fun r hr he => hnone r hr (he ▸ Below.refl _), fun i => ⟨hgain k hnone i, ?_⟩⟩
  have hzero : (childrenAt ts'.currentTree k).map (fun c => gain ds (parentOf ts'.currentTree) batch c i) =
      (childrenAt ts'.currentTree k).map (fun _ => (0 : ProfileValue)) := by
    refine List.map_congr_left fun c hc => hgain c (fun r hr hbel => ?_) i
    cases hk : ts'.currentTree[k]? with
    | none =>
        rw [childrenAt, hk] at hc
        cases hc
    | some n => exact hnone r hr (hbel.child ((hs.wf.rooted.mem_childrenAt hk c).mp hc))
  rw [hzero]
  simp

theorem Stored.entry (hs : Stored gl ds ts batch running rank' ts') (hw : Wf gl ds rank ts.currentTree)
    (hsingle : gl.singleTreeMode = false)
    (hstatic : ∀ (k : NodeID) (n : RecordNode) (i : Nat), ts.currentTree[k]? = some n → i < ds.numRecords →
      isStatic ds i = true → value n.childrenValues i = 0) (k : NodeID) :
    dataAt ts'.currentTree k = Option.merge (Entry.add ds) (dataAt ts.currentTree k)
      (deltaAt (sliceAt ts' ds.currentTimeNumber) k) := by
  classical
  rw [dataAt_base, hs.nodes, dataAt_base, deltaAt, hs.slice]
  cases hb : baseAt gl ds ts.currentTree batch k with
  | none =>
      have hk : ts.currentTree[k]? = none := by
        rw [baseAt] at hb
        cases hk : ts.currentTree[k]? with
        | none => rfl
        | some n =>
            rw [hk] at hb
            cases hb
      rw [hk]
      split <;> rfl
  | some b =>
      by_cases ht : Touched (linkIn gl ds ts.currentTree batch) (Seed ts.currentTree batch running) k
      · rw [if_pos ht]
        simp only [Option.map_some]
        rw [baseAt] at hb
        cases hk : ts.currentTree[k]? with
        | some n =>
            rw [hk, Option.some.injEq] at hb
            subst hb
            obtain ⟨hlen, hlen'⟩ := (hw.sized k n hk).2.2.2 hsingle
            simp only [Option.map_some, Option.merge_some_some, Option.some.injEq]
            rw [Entry.mk.injEq]
            refine ⟨?_, ?_, add_comm _ _⟩
            · refine (refill_eq_slots hlen _).trans (slots_congr fun i hi => ?_)
              simp only [entryOf, settledEntry, baseEntry, value_slots _ hi]
              cases isStatic ds i with
              | true => simp only [if_true, if_pos ht]
              | false => rfl
            · refine (refill_eq_slots hlen' _).trans (slots_congr fun i hi => ?_)
              simp only [entryOf, settledEntry, baseEntry, value_slots _ hi]
              cases hst : isStatic ds i with
              | true => simp [baseOf, hstatic k n i hk hi hst, counted, hst]
              | false => rfl
        | none =>
            rw [hk] at hb
            obtain ⟨r, -, rfl⟩ := Option.map_eq_some_iff.mp hb
            have hlen : (freshValues gl ds).length = ds.numRecords := ((sized_fresh gl ds).2.2.2 hsingle).1
            simp only [Option.map_none, Option.merge_none_left, Option.some.injEq]
            rw [baseEntry, entryOf, Entry.mk.injEq]
            refine ⟨?_, ?_, add_zero _⟩
            · refine (refill_eq_slots hlen _).trans (slots_congr fun i hi => ?_)
              simp only [if_pos ht, freshBase, value_fresh, zero_add]
            · refine (refill_eq_slots hlen _).trans (slots_congr fun i hi => ?_)
              simp only [freshBase, value_fresh, zero_add]
      · rw [if_neg ht]
        obtain ⟨hrec, hgain⟩ := untouched_gain hs hb ht
        rw [baseAt, hrec] at hb
        cases hk : ts.currentTree[k]? with
        | none =>
            rw [hk] at hb
            cases hb
        | some n =>
            rw [hk, Option.some.injEq] at hb
            subst hb
            obtain ⟨hlen, hlen', -⟩ := hw.sized k n hk
            simp only [Option.map_some, Option.map_none, Option.merge_none_right, Option.some.injEq]
            rw [baseEntry, baseEntry, Entry.mk.injEq]
            refine ⟨?_, ?_, ?_⟩
            · refine Eq.trans (refill_congr fun i _ => ?_) (refill_value hlen)
              rw [if_neg ht, (hgain i).1, add_zero, ite_self]
            · refine Eq.trans (refill_congr fun i _ => ?_) (refill_value hlen')
              rw [(hgain i).2, counted_zero, add_zero]
            · simp [settledBase, startCalls, hrec]

structure Sliced (ds : DataStore) (done : List Delivery) (ts : ThreadStore) : Prop where
  tallied : ∀ (k : NodeID) (n : RecordNode), ts.currentTree[k]? = some n →
    Tallied ds (logOf done) ts.currentTree k n
  slices : SlicesOk ds ts

theorem Tallied.static {log : List MethodNodeSerializedInfo} {tree : Tree} {k : NodeID} {n : RecordNode}
    (h : Tallied ds log tree k n) {i : Nat} (hi : i < ds.numRecords) (hs : isStatic ds i = true) :
    value n.childrenValues i = 0 := by
  rw [h.children i hi, counted, if_pos hs]

theorem Sliced.delivery (hsingle : gl.singleTreeMode = false) {done : List Delivery} {d : Delivery}
    (hb : WellFormedBatch ds (logOf done) d) (hr : Reached gl ds done rank ts) (h : Sliced ds done ts)
    (hs : Stored gl (d.dataStore ds) ts d.batch d.now.runningNode rank' ts')
    (hr' : Reached gl ds (done ++ [d]) rank' ts') :
    Sliced ds (done ++ [d]) ts' := by
  refine ⟨Tallied.delivery hsingle hb hr h.tallied hs hr', fun u k e he => ?_, fun u k e he => ?_⟩
  all_goals by_cases hu : u = d.time
  · rw [hu, show d.time = (d.dataStore ds).currentTimeNumber from rfl, hs.slice] at he
    split at he
    · obtain ⟨b, hb, -⟩ := Option.map_eq_some_iff.mp he
      have hk := hs.nodes k
      rw [hb, Option.map_some, Option.map_eq_some_iff] at hk
      obtain ⟨n, hn, -⟩ := hk
      exact ⟨n, hn⟩
    · cases he
  · rw [hs.slices u hu] at he
    rw [hr'.links.known, logOf_append]
    exact Known.append ((hr.links.known k).mp (h.slices.known u k e he)) _
  · rw [hu, show d.time = (d.dataStore ds).currentTimeNumber from rfl, hs.slice] at he
    split at he
    · obtain ⟨b, -, rfl⟩ := Option.map_eq_some_iff.mp he
      exact ⟨length_slots _ _, length_slots _ _⟩
    · cases he
  · rw [hs.slices u hu] at he
    exact h.slices.sized u k e he

theorem newThreadStore_sliced (gl : Settings) (ds : DataStore) (threadId : ThreadID) :
    Sliced ds [] (newThreadStore gl ds threadId) := by
  refine ⟨newThreadStore_tallied gl ds threadId, fun u k e he => ?_, fun u => ?_⟩
  · rw [sliceAt_nil rfl, Std.TreeMap.getElem?_emptyc] at he
    cases he
  · rw [sliceAt_nil rfl]
    exact sizedSlice_empty

theorem storeAll_sliced (gl : Settings) (hd : Described ds) (hoff : gl.leafNodeAccumulate = false)
    (hsingle : gl.singleTreeMode = false) (threadId : ThreadID) {deliveries : List Delivery}
    (hw : WellFormedRun ds deliveries) (hu : UndisturbedRun ds deliveries) :
    ∃ ts rank, storeAll gl ds (newThreadStore gl ds threadId) deliveries = .ok ts ∧
      Reached gl ds deliveries rank ts ∧ Sliced ds deliveries ts := by
  obtain ⟨rank, hr⟩ := newThreadStore_reached gl ds threadId
  refine storeAll_reached [] hd hoff hw hu (Sliced ds) ?_ hr (newThreadStore_sliced gl ds threadId)
  intro done d rest ts ts' rank rank' _ hb hr h hs hr'
  exact Sliced.delivery hsingle hb hr h hs hr'

theorem slices_kept (hd : Described ds) (hoff : gl.leafNodeAccumulate = false) {first more : List Delivery}
    (hw : WellFormedRun ds (first ++ more)) (hu : UndisturbedRun ds (first ++ more)) {t : Int}
    (ht : ∀ d ∈ more, t < d.time) (hr : Reached gl ds first rank ts) :
    ∃ ts', storeAll gl ds ts more = .ok ts' ∧ ∀ u, u ≤ t → sliceAt ts' u = sliceAt ts u := by
  obtain ⟨ts', -, hrun, -, hp⟩ := storeAll_reached first hd hoff hw hu
    (fun _ ts' => ∀ u, u ≤ t → sliceAt ts' u = sliceAt ts u) (by
      intro done d rest t₁ t₂ _ _ he _ _ hp hs _ u hu
      have hlt := ht d (by rw [he]; simp)
      rw [hs.slices u (show u ≠ d.time by omega)]
      exact hp u hu) hr (fun _ _ => rfl)
  exact ⟨ts', hrun, hp⟩

section Run

variable (gl ds)

def treeAfter (threadId : ThreadID) (done : List Delivery) : Tree :=
  match storeAll gl ds (newThreadStore gl ds threadId) done with
  | .ok ts => ts.currentTree
  | .error _ => ∅

end Run

theorem treeAfter_eq {threadId : ThreadID} {done : List Delivery} {ts : ThreadStore}
    (h : storeAll gl ds (newThreadStore gl ds threadId) done = .ok ts) :
    treeAfter gl ds threadId done = ts.currentTree := by
  rw [treeAfter, h]

theorem treeAfter_succ (hd : Described ds) (hoff : gl.leafNodeAccumulate = false)
    (hsingle : gl.singleTreeMode = false) {threadId : ThreadID} {deliveries : List Delivery}
    (hw : WellFormedRun ds deliveries) (hu : UndisturbedRun ds deliveries)
    (hrun : storeAll gl ds (newThreadStore gl ds threadId) deliveries = .ok ts) (k : NodeID) (t : Int) :
    dataAt (treeAfter gl ds threadId (through Delivery.time deliveries (t + 1))) k =
      Option.merge (Entry.add ds) (dataAt (treeAfter gl ds threadId (through Delivery.time deliveries t)) k)
        (deltaAt (sliceAt ts (t + 1)) k) := by
  obtain ⟨ts₀, rank₀, hrun₀, hr₀, -⟩ := storeAll_sliced gl hd hoff hsingle threadId hw hu
  rw [hrun, Except.ok.injEq] at hrun₀
  subst hrun₀
  obtain ⟨hsame, hfree⟩ | ⟨d, htime, hsucc⟩ := through_succ hw.times t
  · rw [hsame, hr₀.fresh (t + 1) hfree, show deltaAt ∅ k = none from rfl, Option.merge_none_right]
  · have hsplit := through_append_after hw.times (t + 1)
    have hlater : ∀ e ∈ deliveries.filter (fun d => t + 1 < d.time), t + 1 < e.time := by
      intro e he
      simpa using (List.mem_filter.mp he).2
    generalize deliveries.filter (fun d => t + 1 < d.time) = later at hsplit hlater
    rw [hsucc] at hsplit ⊢
    generalize through Delivery.time deliveries t = first at hsplit ⊢
    subst hsplit
    have hall : first ++ [d] ++ later = first ++ d :: later := by simp
    obtain ⟨ts₁, rank₁, hrun₁, hr₁, hsl₁⟩ :=
      storeAll_sliced gl hd hoff hsingle threadId (hw.left).left (hu.left).left
    have hb := hw.batches first d later hall
    obtain ⟨ts₂, rank₂, hrun₂, hs, hr₂⟩ :=
      hr₁.step hd hoff hb (hu first d later hall) (WellFormedRun.time_lt (hall ▸ hw))
    have hone : storeAll gl ds (newThreadStore gl ds threadId) (first ++ [d]) = .ok ts₂ := by
      refine storeAll_append.mpr ⟨ts₁, hrun₁, ?_⟩
      rw [storeAll, List.foldlM_cons, hrun₂, ok_bind]
      rfl
    obtain ⟨ts₃, hrun₃, hkept⟩ := slices_kept hd hoff hw hu hlater hr₂
    obtain ⟨t₂, h₂, h₃⟩ := storeAll_append.mp hrun
    rw [hone, Except.ok.injEq] at h₂
    subst h₂
    rw [hrun₃, Except.ok.injEq] at h₃
    subst h₃
    rw [treeAfter_eq hone, treeAfter_eq hrun₁, hkept (t + 1) (le_refl _), ← htime]
    exact Stored.entry hs (Wf.dataStore hr₁.wf rfl) hsingle
      (fun j n i hj hi hst => Tallied.static (hsl₁.tallied j n hj) hi hst) k

/-- The running node of a NOWINFO is the root, known or in the batch. -/
def RunningKnown (deliveries : List Delivery) : Prop :=
  ∀ done d rest, deliveries = done ++ d :: rest → Known (logOf done ++ d.batch) d.now.runningNode

def SameData (n m : RecordNodeBasic) : Prop :=
  n.allValues = m.allValues ∧ n.childrenValues = m.childrenValues ∧ n.callCount = m.callCount

/-- The third node is what `Accumulate` makes of the first two. A node that is
absent on one side is taken from the other. -/
def AccumulatesTo (ds : DataStore) : Option RecordNodeBasic → Option RecordNodeBasic →
    Option RecordNodeBasic → Prop
  | none, none, m => m = none
  | some n, none, m => ∃ n', m = some n' ∧ SameData n' n
  | none, some e, m => ∃ n', m = some n' ∧ SameData n' e
  | some n, some e, m => ∃ n' acc, m = some n' ∧ n.accumulate ds e = .ok acc ∧ SameData n' acc

def basicAt (tree : Tree) (k : NodeID) : Option RecordNodeBasic := (tree[k]?).map RecordNode.toRecordNodeBasic

theorem sameData_iff {n m : RecordNodeBasic} : SameData n m ↔ entryOf n = entryOf m := by
  rw [SameData, entryOf, entryOf, Entry.mk.injEq]

theorem accumulatesTo_of_merge (hd : Described ds) {n e m : Option RecordNodeBasic}
    (hn : ∀ a, n = some a → (entryOf a).Sized ds) (he : ∀ a, e = some a → (entryOf a).Sized ds)
    (h : m.map entryOf = Option.merge (Entry.add ds) (n.map entryOf) (e.map entryOf)) :
    AccumulatesTo ds n e m := by
  cases n with
  | none =>
      cases e with
      | none => exact Option.map_eq_none_iff.mp h
      | some e =>
          obtain ⟨n', hm, hn'⟩ := Option.map_eq_some_iff.mp h
          exact ⟨n', hm, sameData_iff.mpr hn'⟩
  | some n =>
      cases e with
      | none =>
          obtain ⟨n', hm, hn'⟩ := Option.map_eq_some_iff.mp h
          exact ⟨n', hm, sameData_iff.mpr hn'⟩
      | some e =>
          obtain ⟨n', hm, hn'⟩ := Option.map_eq_some_iff.mp h
          obtain ⟨acc, hacc, hentry⟩ := accumulate_entry hd (hn n rfl) (he e rfl)
          exact ⟨n', acc, hm, hacc, sameData_iff.mpr (hn'.trans hentry.symm)⟩

theorem Wf.sizedData (h : Wf gl ds rank ts.currentTree) (hsingle : gl.singleTreeMode = false) {k : NodeID}
    {a : RecordNodeBasic} (ha : basicAt ts.currentTree k = some a) : (entryOf a).Sized ds := by
  obtain ⟨n, hn, rfl⟩ := Option.map_eq_some_iff.mp ha
  exact (h.sized k n hn).2.2.2 hsingle

theorem Stored.root (hs : Stored gl ds ts batch running rank' ts')
    (hrun : (∃ r ∈ batch, r.callNodeId = running) ∨ ∃ n, ts.currentTree[running]? = some n) :
    ((sliceAt ts' ds.currentTimeNumber)[(1 : NodeID)]?).isSome = true := by
  classical
  have hknown (k : NodeID) (b : Base) (hb : baseAt gl ds ts.currentTree batch k = some b) :
      Below (linkIn gl ds ts.currentTree batch).parent 1 k := by
    have hk := hs.nodes k
    rw [hb, Option.map_some, Option.map_eq_some_iff] at hk
    obtain ⟨n, hn, -⟩ := hk
    rw [← hs.parent]
    exact FlushOutcome.below_root hs.wf.rooted hn
  obtain ⟨n, hn, -⟩ := hs.wf.rooted.root
  have hroot := hs.nodes 1
  rw [hn, Option.map_some] at hroot
  obtain ⟨b, hb, -⟩ := Option.map_eq_some_iff.mp hroot.symm
  rw [hs.slice, if_pos, hb]
  · rfl
  · refine ⟨⟨_, by rw [linkIn, hb, Option.map_some]⟩, running, ?_, ?_⟩
    · obtain ⟨r, hr, he⟩ | hk := hrun
      · exact Or.inl ⟨r, hr, he⟩
      · exact Or.inr ⟨rfl, hk⟩
    · obtain ⟨c, hc⟩ : ∃ c, baseAt gl ds ts.currentTree batch running = some c := by
        rw [baseAt]
        obtain ⟨r, hr, he⟩ | ⟨m, hm⟩ := hrun
        · cases ht : ts.currentTree[running]? with
          | some m => exact ⟨_, rfl⟩
          | none =>
              cases hrec : recordAt batch running with
              | some q => exact ⟨_, rfl⟩
              | none => exact absurd he (recordAt_none.mp hrec r hr)
        · rw [hm]
          exact ⟨_, rfl⟩
      exact hknown running c hc

theorem slices_merge (hd : Described ds) (hoff : gl.leafNodeAccumulate = false)
    (hsingle : gl.singleTreeMode = false) {threadId : ThreadID} {deliveries : List Delivery}
    (hw : WellFormedRun ds deliveries) (hu : UndisturbedRun ds deliveries)
    (hrun : storeAll gl ds (newThreadStore gl ds threadId) deliveries = .ok ts) (b : Int) (n : Nat) :
    ∃ st, mergeTimeSlice gl ds ts ∅ (b + 1) (b + n) = .ok st ∧ st.ts.currentTree = ts.currentTree ∧
      SizedSlice ds st.integrated ∧
      (∀ k, deltaAt st.integrated k = gathered (Entry.add ds) (fun t => deltaAt (sliceAt ts t) k) b n) ∧
      ∀ k, dataAt (treeAfter gl ds threadId (through Delivery.time deliveries (b + n))) k =
        Option.merge (Entry.add ds) (dataAt (treeAfter gl ds threadId (through Delivery.time deliveries b)) k)
          (deltaAt st.integrated k) := by
  obtain ⟨ts₀, rank₀, hrun₀, -, hsl⟩ := storeAll_sliced gl hd hoff hsingle threadId hw hu
  rw [hrun, Except.ok.injEq] at hrun₀
  subst hrun₀
  obtain ⟨st, hst, htree, hsize, hmerge⟩ := mergeTimeSlice_ok gl hd hsl.slices b n
  refine ⟨st, hst, htree, hsize, hmerge, fun k => ?_⟩
  rw [hmerge]
  exact telescope Entry.add_assoc
    (fun t => dataAt (treeAfter gl ds threadId (through Delivery.time deliveries t)) k)
      (treeAfter_succ hd hoff hsingle hw hu hrun k) b n

theorem storeAll_roots (hd : Described ds) (hoff : gl.leafNodeAccumulate = false) {threadId : ThreadID}
    {deliveries : List Delivery} (hw : WellFormedRun ds deliveries) (hu : UndisturbedRun ds deliveries)
    (hrunning : RunningKnown deliveries)
    (hrun : storeAll gl ds (newThreadStore gl ds threadId) deliveries = .ok ts) :
    ∀ d ∈ deliveries, ((sliceAt ts d.time)[(1 : NodeID)]?).isSome = true := by
  obtain ⟨rank, hr⟩ := newThreadStore_reached gl ds threadId
  obtain ⟨ts', rank', hrun', -, hp⟩ := storeAll_reached [] hd hoff hw hu
    (fun done ts => ∀ d ∈ done, ((sliceAt ts d.time)[(1 : NodeID)]?).isSome = true) (by
      intro done d rest t₁ t₂ r₁ r₂ he hb hr hp hs hr' e hmem
      obtain hold | hnew := List.mem_append.mp hmem
      · have hlt := WellFormedRun.time_lt (he ▸ hw) e hold
        rw [hs.slices e.time (show e.time ≠ d.time by omega)]
        exact hp e hold
      · rw [List.mem_singleton.mp hnew]
        refine Stored.root hs ?_
        obtain h1 | ⟨r, hr₁, hr₂⟩ := hrunning done d rest he
        · exact Or.inr ((hr.links.known _).mpr (Or.inl h1))
        · obtain hr₁ | hr₁ := List.mem_append.mp hr₁
          · exact Or.inr ((hr.links.known _).mpr (Or.inr ⟨r, hr₁, hr₂⟩))
          · exact Or.inl ⟨r, hr₁, hr₂⟩) hr (fun d hd => by cases hd)
  rw [hrun, Except.ok.injEq] at hrun'
  subst hrun'
  exact hp

theorem slices_complete (hd : Described ds) (hoff : gl.leafNodeAccumulate = false)
    (hsingle : gl.singleTreeMode = false) {threadId : ThreadID} {deliveries : List Delivery}
    (hw : WellFormedRun ds deliveries) (hu : UndisturbedRun ds deliveries)
    (hrunning : RunningKnown deliveries)
    (hrun : storeAll gl ds (newThreadStore gl ds threadId) deliveries = .ok ts) (hne : deliveries ≠ [])
    (htimes : ∀ d ∈ deliveries, 0 ≤ d.time ∧ d.time ≤ ds.currentTimeNumber) :
    ∃ st, mergeTimeSlice gl ds ts ∅ 0 ds.currentTimeNumber = .ok st ∧ st.ts.currentTree = ts.currentTree ∧
      ∀ k, dataAt ts.currentTree k = deltaAt st.integrated k := by
  obtain ⟨d, hdm⟩ := List.exists_mem_of_ne_nil _ hne
  have hd₀ := htimes d hdm
  obtain ⟨st, hst, htree, hsize, hmerge, hall⟩ :=
    slices_merge hd hoff hsingle hw hu hrun (-1) (ds.currentTimeNumber + 1).toNat
  have hend : (-1 : Int) + ((ds.currentTimeNumber + 1).toNat : Int) = ds.currentTimeNumber := by omega
  have hnow : through Delivery.time deliveries ds.currentTimeNumber = deliveries := by
    rw [through, List.filter_eq_self]
    exact fun e he => by simpa using (htimes e he).2
  have hbefore : through Delivery.time deliveries (-1) = [] := by
    rw [through, List.filter_eq_nil_iff]
    intro e he
    have := (htimes e he).1
    simp
    omega
  rw [hend, show (-1 : Int) + 1 = 0 from rfl] at hst
  rw [hend, hnow, hbefore, treeAfter_eq hrun, treeAfter_eq (show storeAll gl ds _ [] = _ from rfl)] at hall
  refine ⟨st, hst, htree, fun k => ?_⟩
  rw [hall k, dataAt, newThreadStore_tree]
  by_cases hk : k = 1
  · have hroot := storeAll_roots hd hoff hw hu hrunning hrun d hdm
    have hsome : (deltaAt st.integrated k).isSome = true := by
      rw [hmerge]
      refine gathered_isSome (i := d.time.toNat) (by omega) ?_
      rw [show (-1 : Int) + 1 + (d.time.toNat : Int) = d.time by omega, deltaAt, Option.isSome_map, hk]
      exact hroot
    obtain ⟨e, he⟩ := Option.isSome_iff_exists.mp hsome
    obtain ⟨n, hn, rfl⟩ := Option.map_eq_some_iff.mp he
    obtain ⟨hsa, hsc⟩ := hsize k n hn
    rw [if_pos hk, he, Option.map_some, Option.merge_some_some, Option.some.injEq]
    simp only [Entry.add, entryOf, emptyNode, emptyBasic, resize_nil, zero_add]
    rw [Entry.mk.injEq]
    exact ⟨lastOrSum_zero hsa, lastOrSum_zero hsc, rfl⟩
  · rw [if_neg hk, Option.map_none, Option.merge_none_left]

theorem check_ok {st : Merging} (hst : mergeTimeSlice gl ds ts ∅ 0 ds.currentTimeNumber = .ok st)
    (htree : st.ts.currentTree = ts.currentTree)
    (hall : ∀ k, dataAt ts.currentTree k = deltaAt st.integrated k) :
    (∀ (k : NodeID) (n : RecordNode), ts.currentTree[k]? = some n →
      ∃ e, st.integrated[k]? = some e ∧ n.toRecordNodeBasic.valuesEquals e = true) ∧
      checkAllTimeSlice gl ds ts = .ok [] := by
  have hequal (k : NodeID) (n : RecordNode) (hk : ts.currentTree[k]? = some n) :
      ∃ e, st.integrated[k]? = some e ∧ n.toRecordNodeBasic.valuesEquals e = true := by
    have h := hall k
    rw [dataAt, hk, Option.map_some, eq_comm] at h
    obtain ⟨e, he, hee⟩ := Option.map_eq_some_iff.mp h
    refine ⟨e, he, ?_⟩
    rw [entryOf, entryOf, Entry.mk.injEq] at hee
    simp [RecordNodeBasic.valuesEquals, hee.1, hee.2.1]
  refine ⟨hequal, ?_⟩
  rw [checkAllTimeSlice, hst, ok_bind, htree]
  obtain ⟨errors, hrun, rfl⟩ :=
    foldlM_total (fun _ (errors : List NodeID) => errors = []) ts.currentTree.toList
      (f := checkNode st.integrated)
      (by
        rintro done ⟨k, n⟩ rest _ he rfl
        have hk : ts.currentTree[k]? = some n := getElem?_of_split he
        obtain ⟨e, hi, heq⟩ := hequal k n hk
        exact ⟨[], by simp [checkNode, hi, heq], rfl⟩) (s := []) rfl
  exact hrun

/-- The tree at a time is the tree at an earlier time with the slices in between
merged into it, and the slices up to now make up the tree. -/
theorem slices_telescope (gl : Settings) (hoff : gl.leafNodeAccumulate = false)
    (hsingle : gl.singleTreeMode = false) (ds : DataStore) (hd : Described ds) (threadId : ThreadID)
    (deliveries : List Delivery) (hw : WellFormedRun ds deliveries) (hu : UndisturbedRun ds deliveries)
    (hrunning : RunningKnown deliveries) :
    ∃ ts, storeAll gl ds (newThreadStore gl ds threadId) deliveries = .ok ts ∧
      (∀ b c : Int, b ≤ c → ∃ tsb tsc st,
        storeAll gl ds (newThreadStore gl ds threadId) (through Delivery.time deliveries b) = .ok tsb ∧
        storeAll gl ds (newThreadStore gl ds threadId) (through Delivery.time deliveries c) = .ok tsc ∧
        mergeTimeSlice gl ds ts ∅ (b + 1) c = .ok st ∧
        ∀ k : NodeID, AccumulatesTo ds (basicAt tsb.currentTree k) st.integrated[k]?
          (basicAt tsc.currentTree k)) ∧
      (deliveries ≠ [] → (∀ d ∈ deliveries, 0 ≤ d.time ∧ d.time ≤ ds.currentTimeNumber) →
        ∃ st, mergeTimeSlice gl ds ts ∅ 0 ds.currentTimeNumber = .ok st ∧
          (∀ (k : NodeID) (n : RecordNode), ts.currentTree[k]? = some n →
            ∃ e, st.integrated[k]? = some e ∧ n.toRecordNodeBasic.valuesEquals e = true) ∧
          checkAllTimeSlice gl ds ts = .ok []) := by
  obtain ⟨ts, -, hrun, -, -⟩ := storeAll_sliced gl hd hoff hsingle threadId hw hu
  have hpart (t : Int) : ∃ ts rank,
    storeAll gl ds (newThreadStore gl ds threadId) (through Delivery.time deliveries t) =
      .ok ts ∧ Wf gl ds rank ts.currentTree := by
    obtain ⟨rest, he⟩ := through_prefix hw.times t
    obtain ⟨ts, rank, hrun, hr, -⟩ :=
      storeAll_sliced gl hd hoff hsingle threadId (he ▸ hw).left (he ▸ hu).left
    exact ⟨ts, rank, hrun, hr.wf⟩
  refine ⟨ts, hrun, fun b c hbc => ?_, fun hne htimes => ?_⟩
  · obtain ⟨tsb, rankb, hrunb, hwb⟩ := hpart b
    obtain ⟨tsc, -, hrunc, -⟩ := hpart c
    obtain ⟨st, hst, -, hsize, -, hall⟩ := slices_merge hd hoff hsingle hw hu hrun b (c - b).toNat
    have hend : b + ((c - b).toNat : Int) = c := by omega
    rw [hend] at hst hall
    refine ⟨tsb, tsc, st, hrunb, hrunc, hst, fun k => ?_⟩
    refine accumulatesTo_of_merge hd (fun a ha => Wf.sizedData hwb hsingle ha) (fun a ha => hsize k a ha) ?_
    have h := hall k
    rw [treeAfter_eq hrunb, treeAfter_eq hrunc] at h
    rw [basicAt, basicAt, Option.map_map, Option.map_map]
    exact h
  · obtain ⟨st, hst, htree, hall⟩ := slices_complete hd hoff hsingle hw hu hrunning hrun hne htimes
    obtain ⟨hequal, hcheck⟩ := check_ok hst htree hall
    exact ⟨st, hst, hequal, hcheck⟩

theorem slices_fail_below_hash :
    WellFormedRun plainSlot [belowHash] ∧ RunningKnown [belowHash] ∧
      ∃ ts, storeAll defaultMode plainSlot (newThreadStore defaultMode plainSlot 0) [belowHash] = .ok ts ∧
        checkAllTimeSlice defaultMode { plainSlot with currentTimeNumber := 1 } ts = .error .endDeref := by
  obtain ⟨ts, hrun, hcheck⟩ := ok_of_any
    (x := storeAll defaultMode plainSlot (newThreadStore defaultMode plainSlot 0) [belowHash])
    (p := fun ts => checkAllTimeSlice defaultMode { plainSlot with currentTimeNumber := 1 } ts = .error .endDeref)
    (by decide +kernel)
  exact ⟨belowHash_wellFormed, forall_split_cons.mpr ⟨Or.inr (by decide), forall_split_nil⟩, ts,
    hrun, by simpa using hcheck⟩

theorem slices_telescope_two : ∃ ts st,
    storeAll defaultMode { plainSlot with currentTimeNumber := 2 } (newThreadStore defaultMode plainSlot 0)
      twoDeliveries = .ok ts ∧
    mergeTimeSlice defaultMode { plainSlot with currentTimeNumber := 2 } ts ∅ 0 2 = .ok st ∧
    checkAllTimeSlice defaultMode { plainSlot with currentTimeNumber := 2 } ts = .ok [] := by
  obtain ⟨ts, hrun, -, hcheck⟩ :=
    slices_telescope defaultMode rfl rfl { plainSlot with currentTimeNumber := 2 } rfl 0
      twoDeliveries ⟨twoDeliveries_wellFormed.times, fun done d rest he =>
        let h := twoDeliveries_wellFormed.batches done d rest he
        ⟨h.ids, h.nonzero, h.parents, h.values, h.nowValues⟩⟩ twoDeliveries_undisturbed
      (forall_split_cons.mpr ⟨Or.inr (by decide), forall_split_cons.mpr ⟨Or.inl rfl, forall_split_nil⟩⟩)
  obtain ⟨st, hst, -, hok⟩ := hcheck (by decide) (by decide)
  exact ⟨ts, st, hrun, hst, hok⟩

end Llprof.Monitor.Telescope
