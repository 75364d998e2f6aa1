import Llprof.Monitor.NamePaths

namespace Llprof.Monitor.Sealing

open Faulting hiding store
open Avoiding TreeMaps Nodes Store TreeShape FlushSpec NewLeaf FlushFrame SliceFrame
  SliceContents FlushRule NamePaths
open Profiler.CallTree (MethodNodeSerializedInfo)

variable {gl : Settings} {ds : DataStore} {tree : Tree} {ts : ThreadStore}

theorem setRunning_tags (running : Bool) (fuel : Nat) (ts : ThreadStore) (id : NodeID) :
    Avoids never (fun ts' => SameTags ts.currentTree ts'.currentTree) (setRunning running fuel ts id) := by
  induction fuel generalizing ts id with
  | zero => exact fun h => h
  | succ fuel ih =>
      rw [setRunning]
      split
      next => exact SameTags.refl _
      next node hnode =>
        have hset : SameTags ts.currentTree (ts.setNode id { node with running }).currentTree :=
          (SameTags.refl _).insert hnode rfl
        apply (ih (ts.setNode id { node with running }) node.parentId).mono
        intro ts' h'
        exact hset.trans h'

theorem markNodeDirty_tags (hoff : gl.leafNodeAccumulate = false) (fuel : Nat)
    (ts : ThreadStore) (id : NodeID) :
    Avoids never (fun ts' => SameTags ts.currentTree ts'.currentTree) (markNodeDirty gl ds fuel ts id) := by
  induction fuel generalizing ts id with
  | zero => exact fun h => h
  | succ fuel ih =>
      rw [markNodeDirty]
      split
      next => exact SameTags.refl _
      next node hnode =>
        split
        next => exact SameTags.refl _
        next =>
          have htemps : Avoids never (fun n : RecordNode => tag n = tag node)
              (defaultTemps gl ds (RecordNode.clearTempValues { node with dirty := true })) := by
            refine avoids_forRange _ (fun n i h => ?_) rfl
            refine (avoids_any _).bind fun md _ => ?_
            split
            · refine (avoids_any _).bind fun v _ => ?_
              exact (avoids_any _).bind fun temp _ => h
            · exact h
          apply htemps.bind
          intro n hn
          have hset : SameTags ts.currentTree (ts.setNode id n).currentTree :=
            (SameTags.refl _).insert hnode hn
          apply (ih (ts.setNode id n) n.parentId).bind
          intro ts' h'
          rw [hoff, Bool.false_and, if_neg Bool.false_ne_true]
          exact hset.trans h'

theorem addChildID_tags (ts : ThreadStore) (p c : NodeID) :
    SameTags ts.currentTree (ts.addChildID p c).currentTree := by
  unfold ThreadStore.addChildID
  split
  next => exact SameTags.refl _
  next node hnode => exact (SameTags.refl _).insert hnode rfl

theorem tags_invariant (tree : Tree) : FlushInvariant gl ds never (fun s => SameTags tree s.tree) where
  enter s id n h _ _ := h
  addTemp s id n src m h _ hn _ := by
    apply ((addTempToChildren_frame _ n m).weaken fun _ h => h.elim).mono
    intro st hst
    obtain ⟨hplace, hg⟩ := Prod.mk.inj hst
    refine h.insert hn ?_
    rw [tag, tag, hg, show st.2.parentId = n.parentId from congrArg Place.parentId hplace,
      show st.2.nodeName = n.nodeName from congrArg Place.nodeName hplace]
  settle s id n h _ hn := by
    apply ((addAllValues_frame _ n).weaken fun _ h => h.elim).mono
    intro st hst
    obtain ⟨hplace, hg⟩ := Prod.mk.inj hst
    refine h.insert hn ?_
    change (st.2.parentId, st.2.nodeName, st.2.gnid) = tag n
    rw [tag, hg, show st.2.parentId = n.parentId from congrArg Place.parentId hplace,
      show st.2.nodeName = n.nodeName from congrArg Place.nodeName hplace]

def Due (gl : Settings) (ds : DataStore) (tree : Tree) (n : RecordNode) : Prop :=
  n.gnid ≠ 0 ∨ ∃ pn, tree[n.parentId]? = some pn ∧
    n.gnid = gl.hashStrHard (gnidString pn.gnid (ds.getNameFromID n.nodeName))

/-- `TouchGNID` changes nothing at a node that has its GNID, and so have those above it. -/
theorem touchGNID_same (ts : ThreadStore) {c : NodeID}
    (h : ∀ (k : NodeID) (n : RecordNode), ts.currentTree[k]? = some n → k ≠ c →
      n.parentId ≠ c ∧ Due gl ds ts.currentTree n)
    (fuel : Nat) {id : NodeID} (hid : id ≠ c) :
    Avoids never (fun r => (∀ k : NodeID, r.1.currentTree[k]? = ts.currentTree[k]?) ∧
        ∃ n, ts.currentTree[id]? = some n ∧ r.2 = n.gnid) (touchGNID gl ds fuel ts id) := by
  induction fuel generalizing id with
  | zero => exact fun h => h
  | succ fuel ih =>
      rw [touchGNID, ThreadStore.getNodeFromID]
      split
      next => exact fun h => h
      next n hn =>
        split
        next => exact ⟨fun _ => rfl, n, hn, rfl⟩
        next hg =>
          have hg : n.gnid = 0 := not_not.mp hg
          obtain ⟨hpc, hdue⟩ := h id n hn hid
          obtain ⟨pn, hpn, hgn⟩ := hdue.resolve_left fun h0 => h0 hg
          apply (ih hpc).bind
          rintro ⟨ts', g⟩ ⟨hsame, pn', hpn', rfl⟩
          rw [hpn, Option.some.injEq] at hpn'
          dsimp only
          rw [← hpn', ← hgn]
          refine ⟨fun k => ?_, n, hn, rfl⟩
          change (ts'.currentTree.insert id n)[k]? = _
          rw [getElem?_insert, hsame]
          split
          next hk => rw [hk, hn]
          next => rfl

theorem touchGNID_self (ts : ThreadStore) {id : NodeID} {n : RecordNode}
    (hn : ts.currentTree[id]? = some n) (hg : n.gnid = 0) (hp : n.parentId = id)
    (fuel : Nat) : touchGNID gl ds fuel ts id = .error .outOfFuel := by
  induction fuel with
  | zero => rfl
  | succ fuel ih =>
      rw [touchGNID, ThreadStore.getNodeFromID, hn]
      dsimp only
      rw [if_neg (not_not.mpr hg), hp, ih]
      rfl

theorem addRecordNode_sealed (hoff : gl.leafNodeAccumulate = false) (h : Sealed gl ds ts.currentTree)
    {r : MethodNodeSerializedInfo} (h0 : r.callNodeId ≠ 0) (hnew : ts.currentTree[r.callNodeId]? = none) :
    Avoids never (fun ts' => Sealed gl ds ts'.currentTree) (addRecordNode gl ds ts r.callNodeId r) := by
  have hold {k : NodeID} {n : RecordNode} (hk : ts.currentTree[k]? = some n) : k ≠ r.callNodeId := by
    rintro rfl
    rw [hnew] at hk
    cases hk
  obtain ⟨root, hroot, hrootg, hroot0⟩ := h.root
  have hparent {k : NodeID} {n : RecordNode} (hk : ts.currentTree[k]? = some n) :
      n.parentId ≠ r.callNodeId := by
    by_cases h1 : k = 1
    · rw [h1, hroot, Option.some.injEq] at hk
      rw [← hk, hroot0]
      exact h0.symm
    · obtain ⟨pn, hpn, -⟩ := h.nodes k n hk h1
      exact hold hpn
  let n₀ : RecordNode := freshNode gl ds r.callNodeId r.parentNodeId r.nameid
  let tree₁ : Tree := ts.currentTree.insert r.callNodeId n₀
  have hfind (k : NodeID) : tree₁[k]? = if k = r.callNodeId then some n₀ else ts.currentTree[k]? :=
    getElem?_insert _ _ _ _
  have hdue (k : NodeID) (n : RecordNode) (hk : tree₁[k]? = some n) (hkc : k ≠ r.callNodeId) :
      n.parentId ≠ r.callNodeId ∧ Due gl ds tree₁ n := by
    rw [hfind, if_neg hkc] at hk
    refine ⟨hparent hk, ?_⟩
    by_cases h1 : k = 1
    · rw [h1, hroot, Option.some.injEq] at hk
      rw [← hk]
      exact Or.inl (by rw [hrootg]; exact one_ne_zero)
    · obtain ⟨pn, hpn, hg⟩ := h.nodes k n hk h1
      exact Or.inr ⟨pn, by rw [hfind, if_neg (hold hpn), hpn], hg⟩
  have hself : tree₁[r.callNodeId]? = some n₀ := (hfind _).trans (if_pos rfl)
  have htouch : Avoids never (fun ts' => ∃ pn, ts.currentTree[r.parentNodeId]? = some pn ∧
      ∀ k : NodeID, ts'.currentTree[k]? = if k = r.callNodeId then
        some { n₀ with gnid := gl.hashStrHard (gnidString pn.gnid (ds.getNameFromID r.nameid)) } else ts.currentTree[k]?)
      (touch gl ds { ts with currentTree := tree₁ } r.callNodeId) := by
    rw [touch]
    by_cases hp : r.parentNodeId = r.callNodeId
    · rw [touchGNID_self { ts with currentTree := tree₁ } hself rfl hp]
      exact fun h => h
    · rw [touchGNID, ThreadStore.getNodeFromID, hself]
      dsimp only
      rw [if_neg (not_not.mpr (show n₀.gnid = 0 from rfl))]
      refine Avoids.bind (P := fun st : ThreadStore × NodeID =>
        ∃ pn, ts.currentTree[r.parentNodeId]? = some pn ∧
        ∀ k : NodeID, st.1.currentTree[k]? = if k = r.callNodeId then
          some { n₀ with gnid := gl.hashStrHard (gnidString pn.gnid (ds.getNameFromID r.nameid)) } else ts.currentTree[k]?)
        ?_ fun st hst => hst
      apply (touchGNID_same { ts with currentTree := tree₁ } hdue _ hp).bind
      rintro ⟨ts', g⟩ ⟨hsame, pn, hpn, rfl⟩
      refine ⟨pn, by rw [← hpn, hfind, if_neg hp], fun k => ?_⟩
      change (ts'.currentTree.insert r.callNodeId _)[k]? = _
      rw [getElem?_insert]
      split
      next => rfl
      next hk => rw [hsame, hfind, if_neg hk]
  rw [addRecordNode, addCurrentNode_new ts hnew]
  apply htouch.bind
  rintro ts' ⟨pn, hpn, htree⟩
  have hsealed : Sealed gl ds ts'.currentTree := by
    have hkeep {k : NodeID} {n : RecordNode} (hk : ts.currentTree[k]? = some n) :
        ts'.currentTree[k]? = some n := by
      rw [htree, if_neg (hold hk), hk]
    refine ⟨⟨root, hkeep hroot, hrootg, hroot0⟩, fun k n hk h1 => ?_⟩
    rw [htree] at hk
    split at hk
    next =>
      cases hk
      exact ⟨pn, hkeep hpn, rfl⟩
    next =>
      obtain ⟨pn', hpn', hg⟩ := h.nodes k n hk h1
      exact ⟨pn', hkeep hpn', hg⟩
  have hchild := hsealed.congr (addChildID_tags ts' r.parentNodeId r.callNodeId)
  rw [hoff, Bool.false_and, if_neg Bool.false_ne_true]
  exact hchild

theorem storeRecord_sealed (hoff : gl.leafNodeAccumulate = false) (h : Sealed gl ds ts.currentTree)
    {r : MethodNodeSerializedInfo} (h0 : r.callNodeId ≠ 0) :
    Avoids never (fun ts' => Sealed gl ds ts'.currentTree) (storeRecord gl ds ts r) := by
  have hlocate : Avoids never (fun st => Sealed gl ds st.1.currentTree) (locate gl ds ts r) := by
    rw [locate]
    simp only [hoff, Bool.false_eq_true, if_false, ThreadStore.getNodeFromID]
    cases hc : ts.currentTree[r.callNodeId]? with
    | some n => exact h
    | none => exact (addRecordNode_sealed hoff h h0 hc).bind fun ts' h' => h'
  rw [storeRecord]
  apply hlocate.bind
  rintro ⟨ts₁, cnid⟩ h₁
  refine (avoids_any _).bind fun _ _ => (avoids_any _).bind fun _ _ => ?_
  apply (markNodeDirty_tags hoff _ ts₁ cnid).bind
  intro ts₂ h₂
  split
  next => exact fun h => h
  next node hnode =>
    rw [RecordNode.setTempValues]
    refine Avoids.bind (P := fun n => tag n = tag node) ((avoids_any _).bind fun _ _ => rfl) fun n hn => ?_
    exact (Sealed.congr h₁ h₂).congr ((SameTags.refl _).insert hnode hn)

theorem store_sealed (hoff : gl.leafNodeAccumulate = false) (h : Sealed gl ds ts.currentTree)
    {batch : List MethodNodeSerializedInfo} (h0 : ∀ r ∈ batch, r.callNodeId ≠ 0) (now : NowInfo) :
    Avoids never (fun ts' => Sealed gl ds ts'.currentTree) (store gl ds ts batch now) := by
  have hreceive : Avoids never (fun ts' => Sealed gl ds ts'.currentTree) (receive gl ds ts batch now) := by
    rw [receive, unmarkRunningNodes]
    apply (setRunning_tags false _ ts ts.runningNode).bind
    intro ts₁ h₁
    refine (avoids_any _).bind fun _ _ => ?_
    rw [markRunningNodes]
    refine Avoids.bind (P := fun ts' => Sealed gl ds ts'.currentTree) ?_ fun ts₂ h₂ => ?_
    · apply (markNodeDirty_tags hoff _ (updateNowValues ds ts₁ now) now.runningNode).bind
      intro ts₂ h₂
      apply (setRunning_tags true _ ts₂ ts₂.runningNode).mono
      intro ts₃ h₃
      exact ((h.congr h₁).congr h₂).congr h₃
    · refine avoids_foldlM (fun _ (ts' : ThreadStore) => Sealed gl ds ts'.currentTree) batch
        (fun done r rest ts' he h' => ?_) h₂
      exact storeRecord_sealed hoff h' (h0 r (by rw [he]; simp))
  rw [store]
  apply hreceive.bind
  intro ts₁ h₁
  apply (flush_rule ofAccess_never (tags_invariant ts₁.currentTree) (SameTags.refl _)).mono
  intro ts₂ h₂
  exact h₁.congr h₂.state

end Llprof.Monitor.Sealing
