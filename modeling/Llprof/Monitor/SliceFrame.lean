import Llprof.Foundations.Lockstep
import Llprof.Monitor.Slices

namespace Llprof.Monitor.SliceFrame

open Faulting hiding store
open Lockstep LittleEndian Nodes Store
open Profiler.CallTree (MethodNodeSerializedInfo)

def withSlices (start : Int) (slices : List TimeSliceStore) (ts : ThreadStore) : ThreadStore :=
  { ts with startTimeNumber := start, timeSlice := slices }

variable {gl : Settings} {ds : DataStore} (start : Int) (slices : List TimeSliceStore)

theorem getNodeFromID_slices (ts : ThreadStore) (id : NodeID) :
    (withSlices start slices ts).getNodeFromID id = ts.getNodeFromID id := rfl

theorem setNode_slices (ts : ThreadStore) (id : NodeID) (node : RecordNode) :
    (withSlices start slices ts).setNode id node = withSlices start slices (ts.setNode id node) := rfl

theorem addCurrentNode_slices (ts : ThreadStore) (cnid parentCnid : NodeID)
    (nameid : NameID) (strippable : Bool) :
    (withSlices start slices ts).addCurrentNode gl ds cnid parentCnid nameid strippable =
      withSlices start slices (ts.addCurrentNode gl ds cnid parentCnid nameid strippable) := rfl

theorem addChildID_slices (ts : ThreadStore) (parent child : NodeID) :
    (withSlices start slices ts).addChildID parent child =
      withSlices start slices (ts.addChildID parent child) := by
  rw [ThreadStore.addChildID, ThreadStore.addChildID, getNodeFromID_slices]
  cases ts.getNodeFromID parent with
  | none => rfl
  | some node => rfl

def Sliced (ts ts' : ThreadStore) : Prop := ts' = withSlices start slices ts

def SlicedWith {α : Type} (r r' : ThreadStore × α) : Prop := r' = (withSlices start slices r.1, r.2)

theorem touchGNID_slices (fuel : Nat) (ts : ThreadStore) (id : NodeID) :
    Related (SlicedWith start slices) (touchGNID gl ds fuel ts id)
      (touchGNID gl ds fuel (withSlices start slices ts) id) := by
  induction fuel generalizing ts id with
  | zero => rfl
  | succ fuel ih =>
      rw [touchGNID, touchGNID, getNodeFromID_slices]
      cases ts.getNodeFromID id with
      | none => rfl
      | some node =>
          dsimp only
          split
          · rfl
          · apply (ih ts node.parentId).bind
            rintro ⟨ts₁, g⟩ _ rfl
            rfl

theorem touch_slices (ts : ThreadStore) (id : NodeID) :
    Related (Sliced start slices) (touch gl ds ts id) (touch gl ds (withSlices start slices ts) id) := by
  apply (touchGNID_slices start slices (ts.currentTree.size + 1) ts id).bind
  rintro ⟨ts₁, g⟩ _ rfl
  rfl

theorem getAttrNode_slices (ts : ThreadStore) (cnid : NodeID) (attrName : NameID) :
    Related (SlicedWith start slices) (getAttrNode gl ds ts cnid attrName)
      (getAttrNode gl ds (withSlices start slices ts) cnid attrName) := by
  have hmap : (withSlices start slices ts).attrNodeMap = ts.attrNodeMap := rfl
  rw [getAttrNode, getAttrNode, hmap]
  cases ts.attrNodeMap[(cnid, attrName)]? with
  | some a => rfl
  | none =>
      dsimp only
      apply (touch_slices start slices _ ts.currentAttrNodeIdIndex).bind
      rintro ts₁ _ rfl
      rw [addChildID_slices]
      rfl

theorem markNodeDirty_slices (fuel : Nat) (ts : ThreadStore) (id : NodeID) :
    Related (Sliced start slices) (markNodeDirty gl ds fuel ts id)
      (markNodeDirty gl ds fuel (withSlices start slices ts) id) := by
  induction fuel generalizing ts id with
  | zero => rfl
  | succ fuel ih =>
      rw [markNodeDirty, markNodeDirty, getNodeFromID_slices]
      cases ts.getNodeFromID id with
      | none => rfl
      | some node =>
          dsimp only
          split
          · rfl
          · apply related_same_bind
            intro node' _
            rw [setNode_slices]
            apply (ih (ts.setNode id node') node'.parentId).bind
            rintro ts₁ _ rfl
            split
            · rw [getNodeFromID_slices]
              cases ts₁.getNodeFromID node'.parentId with
              | none => rfl
              | some pnode =>
                  dsimp only
                  rw [getNodeFromID_slices]
                  cases ts₁.getNodeFromID pnode.parentId with
                  | none => rfl
                  | some ppnode =>
                      dsimp only
                      apply (getAttrNode_slices start slices ts₁ ppnode.id node'.nodeName).bind
                      rintro ⟨ts₂, a⟩ _ rfl
                      exact ih ts₂ a
            · rfl

theorem mark_slices (ts : ThreadStore) (id : NodeID) :
    Related (Sliced start slices) (mark gl ds ts id) (mark gl ds (withSlices start slices ts) id) :=
  markNodeDirty_slices start slices (ts.currentTree.size + 1) ts id

theorem setRunning_slices (running : Bool) (fuel : Nat) (ts : ThreadStore) (id : NodeID) :
    Related (Sliced start slices) (setRunning running fuel ts id)
      (setRunning running fuel (withSlices start slices ts) id) := by
  induction fuel generalizing ts id with
  | zero => rfl
  | succ fuel ih =>
      rw [setRunning, setRunning, getNodeFromID_slices]
      cases ts.getNodeFromID id with
      | none => rfl
      | some node =>
          dsimp only
          rw [setNode_slices]
          exact ih (ts.setNode id { node with running }) node.parentId

theorem markRunningNodes_slices (ts : ThreadStore) :
    Related (Sliced start slices) (markRunningNodes gl ds ts)
      (markRunningNodes gl ds (withSlices start slices ts)) := by
  apply (mark_slices start slices ts ts.runningNode).bind
  rintro ts₁ _ rfl
  exact setRunning_slices start slices true (ts₁.currentTree.size + 1) ts₁ ts₁.runningNode

theorem addRecordNode_slices (ts : ThreadStore) (cnid : NodeID) (r : MethodNodeSerializedInfo) :
    Related (Sliced start slices) (addRecordNode gl ds ts cnid r)
      (addRecordNode gl ds (withSlices start slices ts) cnid r) := by
  rw [addRecordNode, addRecordNode, addCurrentNode_slices]
  apply (touch_slices start slices (ts.addCurrentNode gl ds cnid r.parentNodeId r.nameid true) cnid).bind
  rintro ts₁ _ rfl
  rw [addChildID_slices]
  split
  · rfl
  · rfl

theorem locate_slices (ts : ThreadStore) (r : MethodNodeSerializedInfo) :
    Related (SlicedWith start slices) (locate gl ds ts r) (locate gl ds (withSlices start slices ts) r) := by
  have hadd (cnid : NodeID) : Related (SlicedWith start slices)
      (do
        let ts ← addRecordNode gl ds ts cnid r
        return (ts, cnid))
      (do
        let ts ← addRecordNode gl ds (withSlices start slices ts) cnid r
        return (ts, cnid)) := by
    apply (addRecordNode_slices start slices ts cnid r).bind
    rintro ts₁ _ rfl
    rfl
  have halt : (withSlices start slices ts).attrNodeIdAlt = ts.attrNodeIdAlt := rfl
  have hmap : (withSlices start slices ts).attrNodeMap = ts.attrNodeMap := rfl
  unfold locate
  simp only [halt, hmap, getNodeFromID_slices]
  generalize (if gl.leafNodeAccumulate then ts.attrNodeIdAlt.getD r.callNodeId r.callNodeId else r.callNodeId) = cnid
  cases ts.getNodeFromID cnid with
  | some node => rfl
  | none =>
      cases (if gl.leafNodeAccumulate then ts.attrNodeMap[(r.parentNodeId, r.nameid)]? else none) with
      | some a => rfl
      | none => exact hadd cnid

theorem storeRecord_slices (ts : ThreadStore) (r : MethodNodeSerializedInfo) :
    Related (Sliced start slices) (storeRecord gl ds ts r)
      (storeRecord gl ds (withSlices start slices ts) r) := by
  apply (locate_slices start slices ts r).bind
  rintro ⟨ts₁, cnid⟩ _ rfl
  apply related_same_bind
  intro _ _
  apply related_same_bind
  intro _ _
  apply (mark_slices start slices ts₁ cnid).bind
  rintro ts₂ _ rfl
  dsimp only
  rw [getNodeFromID_slices]
  cases ts₂.getNodeFromID cnid with
  | none => rfl
  | some node =>
      apply related_same_bind
      intro node' _
      rfl

theorem receive_slices (ts : ThreadStore) (batch : List MethodNodeSerializedInfo) (now : NowInfo) :
    Related (Sliced start slices) (receive gl ds ts batch now)
      (receive gl ds (withSlices start slices ts) batch now) := by
  apply (setRunning_slices start slices false (ts.currentTree.size + 1) ts ts.runningNode).bind
  rintro ts₁ _ rfl
  apply related_same_bind
  intro _ _
  apply (markRunningNodes_slices start slices (updateNowValues ds ts₁ now)).bind
  rintro ts₂ _ rfl
  apply related_foldlM
  · rintro a _ r rfl
    exact storeRecord_slices start slices a r
  · rfl

end Llprof.Monitor.SliceFrame
