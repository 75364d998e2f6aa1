import Llprof.Monitor.Marking
import Llprof.Monitor.StoreRule

namespace Llprof.Monitor.Stripping

open Faulting hiding store
open Avoiding TreeMaps Nodes Store SlotLoops TreeShape FlushSpec Slices MergeSlices SliceFrame SliceContents
  SlicesKnown FlushRule StoreRule Marking
open Profiler.CallTree (MethodNodeSerializedInfo)

variable {gl : Settings} {ds : DataStore} {bad : Fault → Prop} {tree : Tree} {ts ts' : ThreadStore}

theorem sized_congr {values values' : List ProfileValue} (h : Sized ds values)
    (hlen : values'.length = values.length) : Sized ds values' := by
  rcases h with rfl | h
  · exact Or.inl (List.length_eq_zero_iff.mp hlen)
  · exact Or.inr (hlen.trans h)

theorem avoids_updateUnless {skip : Bool} {values : List ProfileValue} {i : Nat}
    (h : skip = false → i < values.length) (f : ProfileValue → ProfileValue) :
    Avoids bad (fun values' => values'.length = values.length) (updateUnless skip values i f) := by
  cases skip with
  | true => exact rfl
  | false => exact avoids_updateAt_lt (h rfl) f

theorem lt_of_sized {values : List ProfileValue} (h : Sized ds values) {i : Nat} (hi : i < ds.numRecords) :
    values.isEmpty = false → i < values.length := by
  rcases h with rfl | h
  · intro he
    cases he
  · exact fun _ => hi.trans_eq h.symm

structure SizedNode (gl : Settings) (ds : DataStore) (n : RecordNode) : Prop where
  all : Sized ds n.allValues
  children : Sized ds n.childrenValues
  temps : n.tempValues.length = ds.numRecords
  full : gl.singleTreeMode = false → n.allValues.length = ds.numRecords

def SizedNodes (gl : Settings) (ds : DataStore) (tree : Tree) : Prop :=
  ∀ (k : NodeID) (n : RecordNode), tree[k]? = some n → SizedNode gl ds n

theorem SizedNode.congr {ds' : DataStore} (hn : ds'.numRecords = ds.numRecords)
    {n : RecordNode} (h : SizedNode gl ds n) : SizedNode gl ds' n := by
  obtain ⟨hall, hchildren, htemps, hfull⟩ := h
  refine ⟨?_, ?_, htemps.trans hn.symm, fun hmode => (hfull hmode).trans hn.symm⟩
  · rw [Sized, hn]
    exact hall
  · rw [Sized, hn]
    exact hchildren

theorem SizedNodes.insert (h : SizedNodes gl ds tree) {k : NodeID} {n : RecordNode} (hn : SizedNode gl ds n) :
    SizedNodes gl ds (tree.insert k n) := by
  intro j m hj
  rw [getElem?_insert] at hj
  split at hj
  · cases hj
    exact hn
  · exact h j m hj

theorem setDataStore_sized {n : RecordNode} (ha : Sized ds n.allValues)
    (hc : Sized ds n.childrenValues) (strippable : Bool) :
    SizedNode gl ds (n.setDataStore gl ds strippable) := by
  have hbasic : Sized ds (n.toRecordNodeBasic.setDataStore gl ds strippable).allValues ∧
      Sized ds (n.toRecordNodeBasic.setDataStore gl ds strippable).childrenValues := by
    rw [RecordNodeBasic.setDataStore]
    split
    · exact ⟨Or.inr (length_resize _ _), Or.inr (length_resize _ _)⟩
    · exact ⟨ha, hc⟩
  refine ⟨hbasic.1, hbasic.2, length_resize _ _, fun hmode => ?_⟩
  rw [RecordNode.setDataStore]
  dsimp only
  rw [RecordNodeBasic.setDataStore, hmode, if_pos (by simp)]
  exact length_resize _ _

theorem addTempToChildren_inside (hd : Described ds) {tssNode : RecordNodeBasic} {dest src : RecordNode}
    (ht : (entryOf tssNode).Sized ds) (hdest : SizedNode gl ds dest) (hsrc : SizedNode gl ds src) :
    Avoids bad (fun st => (entryOf st.1).Sized ds ∧ st.1.id = tssNode.id ∧ SizedNode gl ds st.2)
      (addTempToChildren ds tssNode dest src) := by
  refine avoids_forRange_lt ds.numRecords (fun st i hi hst => ?_) ⟨ht, rfl, hdest⟩
  obtain ⟨⟨hall, hchildren⟩, hid, hnode⟩ := hst
  refine (avoids_fetch_lt (hi.trans_eq hd.symm)).bind fun md _ => ?_
  split
  next => exact ⟨⟨hall, hchildren⟩, hid, hnode⟩
  next =>
    refine (avoids_fetch_lt (hi.trans_eq hsrc.temps.symm)).bind fun v _ => ?_
    refine (avoids_updateUnless (lt_of_sized hnode.children hi) _).bind fun destChildren hdc => ?_
    refine (avoids_updateAt_lt (hi.trans_eq hchildren.symm) _).bind fun tssChildren htc => ?_
    refine (avoids_updateUnless (fun _ => hi.trans_eq hnode.temps.symm) _).bind fun temp htemp => ?_
    exact ⟨⟨hall, htc.trans hchildren⟩, hid, hnode.all, sized_congr hnode.children hdc,
      htemp.trans hnode.temps, hnode.full⟩

theorem addAllValues_inside (hbad : ¬ bad .assertion) (hd : Described ds)
    {tssNode : RecordNodeBasic} {node : RecordNode} (ht : (entryOf tssNode).Sized ds)
    (hnode : SizedNode gl ds node) :
    Avoids bad (fun st => (entryOf st.1).Sized ds ∧ st.1.id = tssNode.id ∧
      SizedNode gl ds st.2) (addAllValues ds tssNode node) := by
  refine avoids_forRange_lt ds.numRecords (fun st i hi hst => ?_) ⟨ht, rfl, hnode⟩
  obtain ⟨⟨hall, hchildren⟩, hid, hnode⟩ := hst
  refine (avoids_fetch_lt (hi.trans_eq hall.symm)).bind fun all _ => ?_
  refine (avoids_require hbad).bind fun _ _ => ?_
  refine (avoids_fetch_lt (hi.trans_eq hd.symm)).bind fun md _ => ?_
  refine (avoids_fetch_lt (hi.trans_eq hnode.temps.symm)).bind fun v _ => ?_
  refine (avoids_updateUnless (lt_of_sized hnode.all hi) _).bind fun nodeAll hna => ?_
  refine (avoids_updateAt_lt (hi.trans_eq hall.symm) _).bind fun tssAll hta => ?_
  exact ⟨⟨hta.trans hall, hchildren⟩, hid, sized_congr hnode.all hna, hnode.children, hnode.temps,
    fun hmode => hna.trans (hnode.full hmode)⟩

/-- A thread of a target: its tables name nodes, and the entries of its slices have their
own ids. -/
structure SizedThread (gl : Settings) (ds : DataStore) (ts : ThreadStore) : Prop where
  nodes : SizedNodes gl ds ts.currentTree
  alts : ∀ k a : NodeID, ts.attrNodeIdAlt[k]? = some a → a ∈ ts.currentTree
  attrs : ∀ (q : NodeID × NameID) (a : NodeID), ts.attrNodeMap[q]? = some a → a ∈ ts.currentTree
  entries : ∀ (u : Int) (k : NodeID) (e : RecordNodeBasic), (contentAt ts u).tree[k]? = some e → e.id = k

theorem SizedThread.congr {ds' : DataStore} (hn : ds'.numRecords = ds.numRecords) (h : SizedThread gl ds ts) :
    SizedThread gl ds' ts := ⟨fun k n hk => (h.nodes k n hk).congr hn, h.alts, h.attrs, h.entries⟩

theorem SizedThread.setNode (h : SizedThread gl ds ts) (k : NodeID) {n : RecordNode} (hn : SizedNode gl ds n) :
    SizedThread gl ds (ts.setNode k n) := by
  have hgrow {a : NodeID} (ha : a ∈ ts.currentTree) : a ∈ (ts.setNode k n).currentTree :=
    Std.TreeMap.mem_insert.mpr (Or.inr ha)
  exact ⟨h.nodes.insert hn, fun j a hj => hgrow (h.alts j a hj), fun q a hq =>
    hgrow (h.attrs q a hq), h.entries⟩

theorem SizedThread.addCurrentNode (h : SizedThread gl ds ts) (k p : NodeID) (x : NameID) (strippable : Bool) :
    SizedThread gl ds (ts.addCurrentNode gl ds k p x strippable) := by
  apply h.setNode
  have hold : SizedNode gl ds (((ts.currentTree[k]?).getD emptyNode).setDataStore gl ds strippable) := by
    cases hk : ts.currentTree[k]? with
    | none => exact setDataStore_sized (Or.inl rfl) (Or.inl rfl) strippable
    | some n => exact setDataStore_sized (h.nodes k n hk).all (h.nodes k n hk).children strippable
  exact ⟨hold.all, hold.children, hold.temps, hold.full⟩

theorem SizedThread.note (h : SizedThread gl ds ts) (q : NodeID × NameID) {a : NodeID}
    (ha : a ∈ ts.currentTree) : SizedThread gl ds { ts with attrNodeMap := ts.attrNodeMap.insert q a } := by
  refine ⟨h.nodes, h.alts, fun q' a' hq => ?_, h.entries⟩
  rw [getElem?_insert_pair] at hq
  split at hq
  · cases hq
    exact ha
  · exact h.attrs q' a' hq

theorem sized_store (hd : Described ds) :
    StoreInvariant gl ds bad (fun r => bad .outOfRange ∨ bad .assertion →
      ds.numRecords ≤ r.profileValue.length) (SizedThread gl ds) where
  marked ts k n h hk := by
    obtain ⟨hall, hchildren, htemps, hfull⟩ := h.nodes k n hk
    rw [defaultTemps_marked hd htemps hfull]
    exact h.setNode k ⟨hall, hchildren, Slots.length_slots _ _, hfull⟩
  running ts k n b h hk := by
    obtain ⟨hall, hchildren, htemps, hfull⟩ := h.nodes k n hk
    exact h.setNode k ⟨hall, hchildren, htemps, hfull⟩
  numbered ts k n m g h _ hk hm _ := by
    obtain ⟨hall, hchildren, htemps, hfull⟩ := h.nodes k m hk
    rw [← hm]
    exact h.setNode k ⟨hall, hchildren, htemps, hfull⟩
  attr ts k n x _ h hk := by
    have hadd : SizedThread gl ds (ts.addCurrentNode gl ds ts.currentAttrNodeIdIndex n.id x true) :=
      h.addCurrentNode _ _ _ _
    have hnoted := hadd.note (n.id, x) (a := ts.currentAttrNodeIdIndex)
      (mem_insert_self _ _ _)
    exact ⟨hnoted.nodes, hnoted.alts, hnoted.attrs, hnoted.entries⟩
  child ts p c h := by
    unfold ThreadStore.addChildID
    split
    next => exact h
    next n hn =>
      obtain ⟨hall, hchildren, htemps, hfull⟩ := h.nodes p n hn
      exact h.setNode p ⟨hall, hchildren, htemps, hfull⟩
  record ts r h _ _ := h.addCurrentNode _ _ _ _
  noted ts q c h hc := h.note q hc
  aliased ts k a h ha := by
    refine ⟨h.nodes, fun j b hj => ?_, h.attrs, h.entries⟩
    rw [getElem?_insert] at hj
    split at hj
    · cases hj
      exact ha
    · exact h.alts j b hj
  alts ts h := h.alts
  attrs ts h := h.attrs
  temps ts k n r h hk hr := by
    obtain ⟨hall, hchildren, htemps, hfull⟩ := h.nodes k n hk
    rw [RecordNode.setTempValues]
    by_cases hlen : n.tempValues.length = (r.profileValue.take ds.numRecords).length
    · rw [require_of hlen]
      exact h.setNode k ⟨hall, hchildren, hlen.symm.trans htemps, hfull⟩
    · rw [require, if_neg hlen]
      intro hb
      rw [htemps, List.length_take, min_eq_left (hr (Or.inr hb))] at hlen
      exact hlen rfl
  now ts now h := ⟨h.nodes, h.alts, h.attrs, h.entries⟩
  values r hr hb := hr (Or.inl hb)

structure SizedFlush (gl : Settings) (ds : DataStore) (tree : Tree) (s : Flush) : Prop where
  ok : FlushOk ds tree s
  nodes : SizedNodes gl ds s.tree
  entries : ∀ (k : NodeID) (e : RecordNodeBasic), s.slice[k]? = some e → e.id = k

theorem entries_insert {slice : Slice}
    (h : ∀ (k : NodeID) (e : RecordNodeBasic), slice[k]? = some e → e.id = k) {id : NodeID}
    {e : RecordNodeBasic} (he : e.id = id) :
    ∀ (k : NodeID) (d : RecordNodeBasic), (slice.insert id e)[k]? = some d → d.id = k := by
  intro k d hk
  rw [getElem?_insert] at hk
  split at hk
  next hkid =>
    cases hk
    exact he.trans hkid.symm
  next => exact h k d hk

theorem SizedFlush.insert {s : Flush} (h : SizedFlush gl ds tree s) {k : NodeID}
    {n : RecordNode} {e : RecordNodeBasic} (hn : SizedNode gl ds n)
    (he : (entryOf e).Sized ds) (hid : e.id = k) :
    SizedFlush gl ds tree ⟨s.tree.insert k n, s.slice.insert k e⟩ :=
  ⟨h.ok.insert k n he, h.nodes.insert hn, entries_insert h.entries hid⟩

theorem sized_flush (hbad : OfAccess bad) (hd : Described ds) (tree : Tree) :
    FlushInvariant gl ds bad (SizedFlush gl ds tree) where
  enter s id n h hn _ :=
    ⟨h.ok.enter hn (sliceNode_sized h.ok.sized id), h.nodes,
      entries_insert h.entries (sliceNode_id (h.entries id))⟩
  addTemp s id n src m h _ hn hm := by
    apply (addTempToChildren_inside hd (sliceNode_sized h.ok.sized id) (h.nodes id n hn) (h.nodes src m hm)).mono
    rintro st ⟨hentry, hid, hnode⟩
    exact h.insert hnode hentry (hid.trans (sliceNode_id (h.entries id)))
  settle s id n h _ hn := by
    apply (addAllValues_inside (hbad.spared (by decide)) hd (sliceNode_sized h.ok.sized id) (h.nodes id n hn)).mono
    rintro st ⟨hentry, hid, hnode⟩
    exact h.insert ⟨hnode.all, hnode.children, hnode.temps, hnode.full⟩ hentry (hid.trans (sliceNode_id (h.entries id)))

/-- `Store` does not leave the vectors of the nodes, and finds every node that it looks for. -/
theorem store_inside (hbad : OfAccess bad) (hd : Described ds) (hs : SlicesOk ds ts)
    (h : SizedThread gl ds ts) {batch : List MethodNodeSerializedInfo}
    (hfits : ∀ r ∈ batch, bad .outOfRange → ds.numRecords ≤ r.profileValue.length) (now : NowInfo) :
    Avoids bad (SizedThread gl ds) (store gl ds ts batch now) := by
  have hreceive := receive_rule hbad (sized_store hd) h
    (fun r hr hb => hfits r hr (hb.resolve_right (hbad.spared (by decide)))) now
  have hkeeps : Avoids never (fun ts₁ => ts₁.startTimeNumber = ts.startTimeNumber ∧
    ts₁.timeSlice = ts.timeSlice)
      (receive gl ds ts batch now) := avoids_never_iff.mpr fun _ h₁ => receive_keeps h₁
  rw [store]
  apply (and_never hreceive (and_never (receive_knows ts batch now) hkeeps)).bind
  rintro ts₁ ⟨h₁, hknows, hstart, hslices⟩
  have hcontent (u : Int) : contentAt ts₁ u = contentAt ts u := by
    rw [contentAt, contentAt, hstart, hslices]
  have hnow := slicesOk_iff.mp hs ds.currentTimeNumber
  rw [← hcontent] at hnow
  have hok : FlushOk ds ts₁.currentTree ⟨ts₁.currentTree, (contentAt ts₁ ds.currentTimeNumber).tree⟩ :=
    ⟨Knows.refl _, fun k hk => hknows k (hnow.1 k hk), hnow.2⟩
  apply (flush_rule hbad (sized_flush hbad hd ts₁.currentTree) ⟨hok, h₁.nodes, h₁.entries _⟩).mono
  intro ts₂ hdone
  have htree := hdone.state.ok.tree
  refine ⟨hdone.state.nodes, fun k a hk => ?_, fun q a hq => ?_, fun u => ?_⟩
  · rw [hdone.attrNodeIdAlt] at hk
    exact htree a (h₁.alts k a hk)
  · rw [hdone.attrNodeMap] at hq
    exact htree a (h₁.attrs q a hq)
  · by_cases hu : u = ds.currentTimeNumber
    · rw [hu]
      exact hdone.state.entries
    · rw [hdone.slices u hu]
      exact h₁.entries u

theorem newThreadStore_sized (gl : Settings) (ds : DataStore) (id : ThreadID) :
    SizedThread gl ds (newThreadStore gl ds id) := by
  have hempty : SizedThread gl ds
      { currentTree := ∅, startTimeNumber := 0, timeSlice := [], nowValues := [], runningNode := 0, threadId := id
        attrNodeIdAlt := ∅, attrNodeMap := ∅, currentAttrNodeIdIndex := 0xFF000000 } := by
    refine ⟨fun k n hk => ?_, fun k a hk => ?_, fun q a hq => ?_, fun u k e he => ?_⟩
    · rw [Std.TreeMap.getElem?_emptyc] at hk
      cases hk
    · rw [Std.TreeMap.getElem?_emptyc] at hk
      cases hk
    · rw [Std.TreeMap.getElem?_emptyc] at hq
      cases hq
    · rw [contentAt_nil rfl, emptySlice, Std.TreeMap.getElem?_emptyc] at he
      cases he
  have hroot : SizedThread gl ds (ThreadStore.addCurrentNode gl ds _ 1 0 0 false) :=
    hempty.addCurrentNode 1 0 0 false
  rw [newThreadStore]
  split
  next => exact hroot
  next n hn =>
    obtain ⟨hall, hchildren, htemps, hfull⟩ := hroot.nodes 1 n hn
    exact hroot.setNode 1 ⟨hall, hchildren, htemps, hfull⟩

theorem SizedThread.sliced (h : SizedThread gl ds ts) {start : Int} {slices : List TimeSliceStore}
    (hs : ∀ (u : Int) (k : NodeID) (e : RecordNodeBasic), (readAt start slices u).tree[k]? = some e →
      e.id = k) :
    SizedThread gl ds (withSlices start slices ts) := ⟨h.nodes, h.alts, h.attrs, hs⟩

theorem SizedThread.like (h : SizedThread gl ds ts) (hl : Like ts ts') : SizedThread gl ds ts' := by
  rw [hl.rest]
  apply h.sliced
  intro u
  have hu : readAt ts'.startTimeNumber ts'.timeSlice u = contentAt ts u := hl.content u
  rw [hu]
  exact h.entries u

theorem SizedThread.drained (h : SizedThread gl ds ts) (start : Int) :
    SizedThread gl ds (withSlices start [] ts) := by
  apply h.sliced
  intro u k e he
  have hnil : readAt start [] u = emptySlice := by
    rw [readAt]
    simp
  rw [hnil, emptySlice, Std.TreeMap.getElem?_emptyc] at he
  cases he

end Llprof.Monitor.Stripping
