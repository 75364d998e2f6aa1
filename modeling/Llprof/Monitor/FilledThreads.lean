import Llprof.Monitor.GatheredSlices
import Llprof.Monitor.LogPaths
import Llprof.Monitor.Sealing

namespace Llprof.Monitor.FilledThreads

open Faulting hiding store
open Avoiding LabelPaths ParentTree TreeMaps Slots Nodes Store SlotLoops TreeShape FlushSpec Receive
  Slices MergeSlices SliceFrame SliceContents StoreSpec Runs Ticks TickFrame NamePaths Sealing
  Gathering GatheredSlices LogPaths
open Profiler.CallTree (MethodNodeSerializedInfo)

variable {gl : Settings} {ds ds' : DataStore} {ts : ThreadStore} {log old : List MethodNodeSerializedInfo}

structure Settled (gl : Settings) (ds : DataStore) (log : List MethodNodeSerializedInfo) (ts : ThreadStore) :
    Prop where
  wf : ∃ rank, Wf gl ds rank ts.currentTree
  clean : ∀ k, dirtyAt ts.currentTree k = false
  attrNodeMap : ts.attrNodeMap = ∅
  links : Linked ts.currentTree log
  isSealed : Sealed gl ds ts.currentTree

theorem newThreadStore_settled (gl : Settings) (ds : DataStore) (id : ThreadID) :
    Settled gl ds [] (newThreadStore gl ds id) := by
  obtain ⟨rank, hr⟩ := newThreadStore_reached gl ds id
  have htree := newThreadStore_tree gl ds id
  refine ⟨⟨rank, hr.wf⟩, hr.clean, hr.attrNodeMap, hr.links,
    ⟨_, (htree 1).trans (if_pos rfl), rfl, rfl⟩, fun k n hk h1 => ?_⟩
  rw [htree, if_neg h1] at hk
  cases hk

theorem Settled.dataStore (h : Settled gl ds log ts) (hn : ds'.numRecords = ds.numRecords)
    (hnames : ∀ r ∈ log, ds'.getNameFromID r.nameid = ds.getNameFromID r.nameid) : Settled gl ds' log ts := by
  obtain ⟨rank, hw⟩ := h.wf
  refine ⟨⟨rank, Wf.dataStore hw hn⟩, h.clean, h.attrNodeMap, h.links, h.isSealed.root, fun k n hk h1 => ?_⟩
  obtain ⟨pn, hpn, hg⟩ := h.isSealed.nodes k n hk h1
  have hlink := h.links k
  rw [hk, linkOf, if_neg h1] at hlink
  obtain ⟨r, hr, he⟩ := Option.map_eq_some_iff.mp hlink.symm
  refine ⟨pn, hpn, hg.trans ?_⟩
  rw [← (Prod.mk.inj he).2, hnames r (recordAt_mem hr).1]

theorem Settled.withSlices (h : Settled gl ds log ts) (start : Int) (slices : List TimeSliceStore) :
    Settled gl ds log (withSlices start slices ts) :=
  ⟨h.wf, h.clean, h.attrNodeMap, h.links, h.isSealed⟩

theorem Settled.leads (h : Settled gl ds log ts) {k : NodeID} {p : NamePath} :
    Leads (nameLink ds ts.currentTree) k p ↔ Leads (logLink ds log) k p := by
  obtain ⟨rank, hw⟩ := h.wf
  rw [nameLink_eq h.links hw.rooted]

theorem Settled.path_cases (h : Settled gl ds log ts) {k : NodeID} {p : NamePath}
    (hp : Leads (nameLink ds ts.currentTree) k p) : p = [] ∨ p ∈ logPaths ds log :=
  leads_cases (h.leads.mp hp)

theorem Settled.record_path (h : Settled gl ds log ts) {r : MethodNodeSerializedInfo} (hr : r ∈ log) :
    ∃ p, Leads (logLink ds log) r.callNodeId p := by
  obtain ⟨rank, hw⟩ := h.wf
  obtain ⟨n, hn⟩ := (h.links.known r.callNodeId).mpr (Or.inr ⟨r, hr, rfl⟩)
  obtain ⟨p, hp, -⟩ := h.isSealed.path hw.rooted hn
  exact ⟨p, h.leads.mp hp⟩

/-- What has come since the records `old` is in the current slice. -/
structure Filled (gl : Settings) (ds : DataStore) (old log : List MethodNodeSerializedInfo)
    (ts : ThreadStore) : Prop extends Settled gl ds log ts, Current ds ts where
  more : ∃ batch, log = old ++ batch
  entered : ∀ r ∈ log, (∃ p, Leads (logLink ds old) r.callNodeId p) ∨
    r.callNodeId ∈ (contentAt ts ds.currentTimeNumber).tree

theorem Settled.idle (h : Settled gl ds log ts) (hempty : ts.timeSlice = []) : Filled gl ds log log ts := by
  have hblank (u : Int) : (contentAt ts u).tree = ∅ := by rw [contentAt_nil hempty]; rfl
  refine ⟨h, ⟨Or.inl hempty, fun u _ => hblank u, fun k e he => ?_⟩, ⟨[], (List.append_nil log).symm⟩,
    fun r hr => Or.inl (h.record_path hr)⟩
  rw [hblank, Std.TreeMap.getElem?_emptyc] at he
  cases he

def deliveryOf (ds : DataStore) (call : StoreCall) : Delivery :=
  ⟨ds.currentTimeNumber, ds.nameTable, call.batch, call.now⟩

theorem Settled.store (hd : Described ds) (hoff : gl.leafNodeAccumulate = false) (h : Settled gl ds log ts)
    (hempty : ts.timeSlice = []) {call : StoreCall} (hb : WellFormedBatch ds log (deliveryOf ds call))
    (hu : Undisturbed ds (linkOf (log ++ call.batch)) (seedOf log call.batch call.now.runningNode)) :
    ∃ ts', Store.store gl ds ts call.batch call.now = .ok ts' ∧ Filled gl ds log (log ++ call.batch) ts' := by
  obtain ⟨rank, hw⟩ := h.wf
  have hwf : WellFormed ds ts.currentTree call.batch call.now := h.links.wellFormed hb
  have hlink := h.links.linkIn gl ds call.batch
  have hseed := h.links.seed call.batch call.now.runningNode
  rw [← hlink, ← hseed] at hu
  obtain ⟨ts', rank', hrun, hs⟩ := store_stored ds hd hoff ts h.attrNodeMap hw h.clean hwf hu (Or.inl hempty)
    (sliceAt_nil hempty _)
  have hsealed := avoids_never_iff.mp (store_sealed hoff h.isSealed hb.nonzero call.now) ts' hrun
  have hnodes (k : NodeID) : (ts'.currentTree[k]?).map (fun n => (n.parentId, n.nodeName)) =
      linkOf (log ++ call.batch) k := by
    rw [← hlink, linkIn]
    have hk := congrArg (Option.map (fun b : Base => (b.parentId, b.nodeName))) (hs.nodes k)
    rwa [Option.map_map, Option.map_map] at hk
  refine ⟨ts', hrun, ⟨⟨rank', hs.wf⟩, hs.clean, hs.attrNodeMap.trans h.attrNodeMap, hnodes, hsealed⟩,
    ⟨Or.inr ?_, fun u hne => ?_, fun k e he => ?_⟩, ⟨call.batch, rfl⟩, fun r hr => ?_⟩
  · rw [hs.startTimeNumber, ThreadStore.startFor, if_pos (by rw [hempty]; rfl)]
  · rw [contentAt_tree, hs.slices u hne, sliceAt_nil hempty]
  · rw [contentAt_tree, hs.slice] at he
    split at he
    next =>
      obtain ⟨b, hbase, rfl⟩ := Option.map_eq_some_iff.mp he
      have hk := hs.nodes k
      rw [hbase, Option.map_some, Option.map_eq_some_iff] at hk
      obtain ⟨n, hn, -⟩ := hk
      exact ⟨rfl, ⟨n, hn⟩, length_slots _ _, length_slots _ _⟩
    next => cases he
  · rcases List.mem_append.mp hr with hr | hr
    · exact Or.inl (h.record_path hr)
    · right
      rw [contentAt_tree, mem_iff_some, hs.slice]
      have hknown : ∃ l, linkIn gl ds ts.currentTree call.batch r.callNodeId = some l := by
        rw [← Option.isSome_iff_exists, hlink, linkOf_isSome]
        exact Or.inr ⟨r, List.mem_append_right _ hr, rfl⟩
      obtain ⟨l, hl⟩ := hknown
      obtain ⟨b, hbase, -⟩ := Option.map_eq_some_iff.mp hl
      rw [if_pos ⟨⟨l, hl⟩, r.callNodeId, Or.inl ⟨r, hr, rfl⟩, Below.refl _⟩, hbase]
      exact ⟨_, rfl⟩

theorem Filled.offers {src : List NamePath} (h : Filled gl ds old log ts) (hroot : [] ∈ src)
    (hsrc : ∀ p ∈ logPaths ds log, p ∈ src) : Offers gl src ds ts := by
  obtain ⟨rank, hw⟩ := h.wf
  refine ⟨h.toCurrent, ⟨rank, hw.rooted⟩, h.isSealed, fun k p hp => ?_⟩
  rcases h.toSettled.path_cases hp with rfl | hp
  · exact hroot
  · exact hsrc p hp

theorem Filled.sound (h : Filled gl ds old log ts) {m : Measurement} (hm : m ∈ threadMeasurements ds ts) :
    ∃ p, m.path = some p ∧ (p = [] ∨ p ∈ logPaths ds log) := by
  rw [h.toCurrent.threadMeasurements, measurementsIn, List.mem_map] at hm
  obtain ⟨it, hit, rfl⟩ := hm
  obtain ⟨hid, ⟨n, hn⟩, -⟩ :=
    h.toCurrent.entries it.1 it.2 (Std.TreeMap.mem_toList_iff_getElem?_eq_some.mp hit)
  obtain ⟨rank, hw⟩ := h.wf
  obtain ⟨p, hp, -⟩ := h.isSealed.path hw.rooted hn
  refine ⟨p, ?_, h.toSettled.path_cases hp⟩
  rw [hid]
  exact pathOf_eq_some.mpr hp

theorem Filled.complete (h : Filled gl ds old log ts) {p : NamePath} (hp : p ∈ logPaths ds log) :
    p = [] ∨ p ∈ logPaths ds old ∨ ∃ m ∈ threadMeasurements ds ts, m.path = some p := by
  obtain ⟨r, hr, hlead⟩ := mem_logPaths.mp hp
  obtain ⟨batch, hlog⟩ := h.more
  rcases h.entered r hr with ⟨q, hq⟩ | hmem
  · have hqp : q = p := by
      have hmore : Leads (logLink ds log) r.callNodeId q := by
        rw [hlog]
        exact leads_more (fun _ _ => rfl) hq
      exact hmore.unique hlead
    subst hqp
    exact (leads_cases hq).imp id Or.inl
  · obtain ⟨e, he⟩ := mem_iff_some.mp hmem
    obtain ⟨hid, -, -⟩ := h.toCurrent.entries _ e he
    refine Or.inr (Or.inr ⟨⟨some p, e⟩, ?_, rfl⟩)
    rw [h.toCurrent.threadMeasurements, measurementsIn, List.mem_map]
    refine ⟨_, Std.TreeMap.mem_toList_iff_getElem?_eq_some.mpr he, ?_⟩
    rw [hid, pathOf_eq_some.mpr (h.toSettled.leads.mpr hlead)]

end Llprof.Monitor.FilledThreads
