import Llprof.Monitor.FlushRule
import Llprof.Monitor.MergeSlices
import Llprof.Monitor.SlotWrites

namespace Llprof.Monitor.SlicesKnown

open Faulting hiding store
open Avoiding TreeMaps Slots Nodes Store SlotLoops SlotWrites TreeShape FlushSpec Slices MergeSlices
  SliceFrame SliceContents FlushRule
open Profiler.CallTree (MethodNodeSerializedInfo)

variable {gl : Settings} {ds : DataStore} {tree : Tree} {s : Flush} {ts : ThreadStore}

def Knows (tree tree' : Tree) : Prop := ∀ k ∈ tree, k ∈ tree'

theorem Knows.refl (tree : Tree) : Knows tree tree := fun _ h => h

theorem Knows.trans {t₁ t₂ t₃ : Tree} (h : Knows t₁ t₂) (h' : Knows t₂ t₃) : Knows t₁ t₃ :=
  fun k hk => h' k (h k hk)

theorem Knows.insert {t : Tree} (h : Knows tree t) (k : NodeID) (n : RecordNode) :
    Knows tree (t.insert k n) :=
  fun j hj => Std.TreeMap.mem_insert.mpr (Or.inr (h j hj))

theorem touchGNID_knows (h : Knows tree ts.currentTree) (fuel : Nat) (id : NodeID) :
    Avoids never (fun r => Knows tree r.1.currentTree) (touchGNID gl ds fuel ts id) := by
  induction fuel generalizing id with
  | zero => exact fun h => h
  | succ fuel ih =>
      rw [touchGNID]
      split
      next => exact fun h => h
      next node _ =>
        split
        · exact h
        · exact (ih node.parentId).bind fun r hr => hr.insert id _

theorem touch_knows (h : Knows tree ts.currentTree) (id : NodeID) :
    Avoids never (fun ts' => Knows tree ts'.currentTree) (touch gl ds ts id) :=
  (touchGNID_knows h (ts.currentTree.size + 1) id).bind fun _ hr => hr

theorem addChildID_knows (h : Knows tree ts.currentTree) (parent child : NodeID) :
    Knows tree (ts.addChildID parent child).currentTree := by
  unfold ThreadStore.addChildID
  split
  · exact h
  · exact h.insert _ _

theorem getAttrNode_knows (h : Knows tree ts.currentTree) (cnid : NodeID) (attrName : NameID) :
    Avoids never (fun r => Knows tree r.1.currentTree) (getAttrNode gl ds ts cnid attrName) := by
  rw [getAttrNode]
  split
  · exact h
  · exact (touch_knows (h.insert _ _) _).bind fun ts' h' => addChildID_knows h' _ _

theorem markNodeDirty_knows (fuel : Nat) (id : NodeID) (h : Knows tree ts.currentTree) :
    Avoids never (fun ts' => Knows tree ts'.currentTree) (markNodeDirty gl ds fuel ts id) := by
  induction fuel generalizing ts id with
  | zero => exact fun h => h
  | succ fuel ih =>
      rw [markNodeDirty]
      split
      next => exact h
      next node _ =>
        split
        · exact h
        · refine (avoids_any _).bind fun node' _ => ?_
          refine (ih node'.parentId (h.insert id node')).bind fun ts₁ h₁ => ?_
          split
          · split
            next => exact h₁
            next pnode _ =>
              split
              next => exact h₁
              next ppnode _ =>
                exact (getAttrNode_knows h₁ ppnode.id node'.nodeName).bind fun r hr => ih r.2 hr
          · exact h₁

theorem setRunning_knows (running : Bool) (fuel : Nat) (id : NodeID) (h : Knows tree ts.currentTree) :
    Avoids never (fun ts' => Knows tree ts'.currentTree) (setRunning running fuel ts id) := by
  induction fuel generalizing ts id with
  | zero => exact fun h => h
  | succ fuel ih =>
      rw [setRunning]
      split
      next => exact h
      next node _ => exact ih node.parentId (h.insert id _)

theorem markRunningNodes_knows (h : Knows tree ts.currentTree) :
    Avoids never (fun ts' => Knows tree ts'.currentTree) (markRunningNodes gl ds ts) :=
  (markNodeDirty_knows _ _ h).bind fun _ h' => setRunning_knows true _ _ h'

theorem addRecordNode_knows (h : Knows tree ts.currentTree) (cnid : NodeID) (r : MethodNodeSerializedInfo) :
    Avoids never (fun ts' => Knows tree ts'.currentTree) (addRecordNode gl ds ts cnid r) := by
  refine (touch_knows (h.insert _ _) cnid).bind fun ts' h' => ?_
  dsimp only
  split
  · exact addChildID_knows h' _ _
  · exact addChildID_knows h' _ _

theorem locate_knows (h : Knows tree ts.currentTree) (r : MethodNodeSerializedInfo) :
    Avoids never (fun p => Knows tree p.1.currentTree) (locate gl ds ts r) := by
  unfold locate
  dsimp only
  split
  · exact h
  · split
    · exact h
    · exact (addRecordNode_knows h _ r).bind fun ts' h' => h'

theorem storeRecord_knows (h : Knows tree ts.currentTree) (r : MethodNodeSerializedInfo) :
    Avoids never (fun ts' => Knows tree ts'.currentTree) (storeRecord gl ds ts r) := by
  refine (locate_knows h r).bind fun p hp => ?_
  refine (avoids_any _).bind fun _ _ => ?_
  refine (avoids_any _).bind fun _ _ => ?_
  refine (markNodeDirty_knows _ p.2 hp).bind fun ts₁ h₁ => ?_
  split
  next => exact fun h => h
  next node _ => exact (avoids_any _).bind fun node' _ => h₁.insert _ _

theorem receive_knows (ts : ThreadStore) (batch : List MethodNodeSerializedInfo) (now : NowInfo) :
    Avoids never (fun ts' => Knows ts.currentTree ts'.currentTree) (receive gl ds ts batch now) := by
  refine (setRunning_knows false _ _ (Knows.refl ts.currentTree)).bind fun ts₁ h₁ => ?_
  refine (avoids_any _).bind fun _ _ => ?_
  have hnow : Knows ts.currentTree (updateNowValues ds ts₁ now).currentTree := h₁
  refine (markRunningNodes_knows hnow).bind fun ts₂ h₂ => ?_
  exact avoids_foldlM (fun _ (ts' : ThreadStore) => Knows ts.currentTree ts'.currentTree) batch
    (fun _ r _ ts' _ h' => storeRecord_knows h' r) h₂

structure FlushOk (ds : DataStore) (tree : Tree) (s : Flush) : Prop where
  tree : Knows tree s.tree
  known : ∀ k ∈ s.slice, k ∈ s.tree
  sized : SizedSlice ds s.slice

theorem FlushOk.insert (h : FlushOk ds tree s) (k : NodeID) (n : RecordNode) {e : RecordNodeBasic}
    (he : (entryOf e).Sized ds) : FlushOk ds tree ⟨s.tree.insert k n, s.slice.insert k e⟩ := by
  refine ⟨h.tree.insert k n, fun j hj => ?_, fun j m hm => ?_⟩
  · rcases Std.TreeMap.mem_insert.mp hj with hkj | hj
    · exact Std.TreeMap.mem_insert.mpr (Or.inl hkj)
    · exact Std.TreeMap.mem_insert.mpr (Or.inr (h.known j hj))
  · rw [getElem?_insert] at hm
    split at hm
    · cases hm
      exact he
    · exact h.sized j m hm

theorem FlushOk.enter (h : FlushOk ds tree s) {id : NodeID} {n : RecordNode} (hn : s.tree[id]? = some n)
    {e : RecordNodeBasic} (he : (entryOf e).Sized ds) : FlushOk ds tree ⟨s.tree, s.slice.insert id e⟩ := by
  refine ⟨h.tree, fun j hj => ?_, fun j m hm => ?_⟩
  · rcases mem_insert_iff.mp hj with rfl | hj
    · exact mem_iff_some.mpr ⟨n, hn⟩
    · exact h.known j hj
  · rw [getElem?_insert] at hm
    split at hm
    · cases hm
      exact he
    · exact h.sized j m hm

theorem sliceNode_id {slice : Slice} {id : NodeID} (h : ∀ e, slice[id]? = some e → e.id = id) :
    (sliceNode gl ds slice id).id = id := by
  unfold sliceNode
  split
  next e he => exact h e he
  next => rfl

theorem sliceNode_sized {slice : Slice} (h : SizedSlice ds slice) (id : NodeID) :
    (entryOf (sliceNode gl ds slice id)).Sized ds := by
  unfold sliceNode
  split
  next node hnode => exact h id node hnode
  next =>
    simp only [RecordNodeBasic.setDataStore, emptyBasic, Bool.not_false, Bool.true_or,
      if_true, entryOf, Entry.Sized, resize_nil, length_slots, and_self]

theorem addTempToChildren_sized {tssNode : RecordNodeBasic} (h : (entryOf tssNode).Sized ds)
    (destNode srcNode : RecordNode) :
    Avoids never (fun st => (entryOf st.1).Sized ds) (addTempToChildren ds tssNode destNode srcNode) :=
  addTempToChildren_writes id srcNode (fun _ _ _ _ _ hlen hst => ⟨hst.1, hlen.trans hst.2⟩) h

theorem addAllValues_sized {tssNode : RecordNodeBasic} (h : (entryOf tssNode).Sized ds) (node : RecordNode) :
    Avoids never (fun st => (entryOf st.1).Sized ds) (addAllValues ds tssNode node) :=
  addAllValues_writes id id (fun _ _ _ _ hlen hst => ⟨hlen.trans hst.1, hst.2⟩) h

theorem flushOk_flush (tree : Tree) : FlushInvariant gl ds never (FlushOk ds tree) where
  enter s id n h hn _ := h.enter hn (sliceNode_sized h.sized id)
  addTemp s id n src m h _ _ _ := by
    apply (addTempToChildren_sized (sliceNode_sized h.sized id) n m).mono
    intro st hst
    exact h.insert id st.2 hst
  settle s id n h _ _ := by
    apply (addAllValues_sized (sliceNode_sized h.sized id) n).mono
    intro st hst
    exact h.insert id _ hst

theorem slicesOk_iff : SlicesOk ds ts ↔ ∀ u, (∀ k ∈ (contentAt ts u).tree, k ∈ ts.currentTree) ∧
    SizedSlice ds (contentAt ts u).tree := by
  constructor
  · intro h u
    rw [contentAt_tree]
    refine ⟨fun k hk => ?_, h.sized u⟩
    obtain ⟨e, he⟩ := mem_iff_some.mp hk
    exact mem_iff_some.mpr (h.known u k e he)
  · intro h
    refine ⟨fun u k e he => ?_, fun u => ?_⟩
    · have hu := (h u).1 k
      rw [contentAt_tree] at hu
      exact mem_iff_some.mp (hu (mem_iff_some.mpr ⟨e, he⟩))
    · have hu := (h u).2
      rwa [contentAt_tree] at hu

theorem SlicesOk.like {ts' : ThreadStore} (h : SlicesOk ds ts) (hl : Like ts ts') : SlicesOk ds ts' := by
  rw [slicesOk_iff] at h ⊢
  intro u
  rw [hl.content, hl.currentTree]
  exact h u

theorem slicesOk_nil (h : ts.timeSlice = []) : SlicesOk ds ts := by
  rw [slicesOk_iff]
  intro u
  rw [contentAt_nil h]
  exact ⟨fun k hk => absurd hk Std.TreeMap.not_mem_emptyc, sizedSlice_empty⟩

theorem flush_slicesOk (h : SlicesOk ds ts) : Avoids never (SlicesOk ds) (flush gl ds ts) := by
  rw [slicesOk_iff] at h
  have hnow := h ds.currentTimeNumber
  apply (flush_rule ofAccess_never (flushOk_flush ts.currentTree) ⟨Knows.refl _, hnow.1, hnow.2⟩).mono
  intro ts' hdone
  rw [slicesOk_iff]
  intro u
  by_cases hu : u = ds.currentTimeNumber
  · rw [hu]
    exact ⟨hdone.state.known, hdone.state.sized⟩
  · rw [hdone.slices u hu]
    exact ⟨fun k hk => hdone.state.tree k ((h u).1 k hk), (h u).2⟩

/-- Whatever a batch holds, `Store` puts into the slices full nodes of the tree only. -/
theorem store_slicesOk (h : SlicesOk ds ts) (batch : List MethodNodeSerializedInfo) (now : NowInfo) :
    Avoids never (SlicesOk ds) (store gl ds ts batch now) := by
  have hknows := avoids_never_iff.mp (@receive_knows gl ds ts batch now)
  refine (avoids_any _).bind fun ts₁ h₁ => ?_
  obtain ⟨hstart, hslices⟩ := receive_keeps h₁
  refine flush_slicesOk ?_
  rw [slicesOk_iff] at h ⊢
  intro u
  have hcontent : contentAt ts₁ u = contentAt ts u := by
    rw [contentAt, contentAt, hstart, hslices]
  rw [hcontent]
  exact ⟨fun k hk => hknows ts₁ h₁ k ((h u).1 k hk), (h u).2⟩

end Llprof.Monitor.SlicesKnown
