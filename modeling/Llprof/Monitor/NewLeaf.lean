import Llprof.Monitor.Marking

namespace Llprof.Monitor.NewLeaf

open Faulting hiding store
open ParentTree TreeMaps Slots Nodes Store SlotLoops TreeShape FlushSpec Marking
open Profiler.CallTree (MethodNodeSerializedInfo)

variable {gl : Settings} {ds : DataStore} {rank : NodeID → Nat} {tree : Tree}

/-- The vectors of a new node. Single-tree mode leaves them empty. -/
def freshValues (gl : Settings) (ds : DataStore) : List ProfileValue :=
  if gl.singleTreeMode then [] else slots ds.numRecords (fun _ => 0)

def freshNode (gl : Settings) (ds : DataStore) (cnid parentCnid : NodeID) (nameid : NameID) : RecordNode :=
  { emptyNode with
    id := cnid
    parentId := parentCnid
    nodeName := nameid
    allValues := freshValues gl ds
    childrenValues := freshValues gl ds
    tempValues := slots ds.numRecords (fun _ => 0) }

theorem addCurrentNode_new (ts : ThreadStore) {c : NodeID} (h : ts.currentTree[c]? = none)
    (p : NodeID) (x : NameID) : ts.addCurrentNode gl ds c p x true =
      { ts with currentTree := ts.currentTree.insert c (freshNode gl ds c p x) } := by
  rw [ThreadStore.addCurrentNode, h]
  cases hs : gl.singleTreeMode <;>
    simp [ThreadStore.setNode, freshNode, freshValues, RecordNode.setDataStore,
      RecordNodeBasic.setDataStore, hs, emptyNode, emptyBasic, resize_nil]

def withLeaf (gl : Settings) (ds : DataStore) (tree : Tree) (c p : NodeID) (x : NameID) (k : NodeID) :
    Option RecordNode :=
  if k = c then some (freshNode gl ds c p x)
  else if k = p then (tree[p]?).map (fun n => { n with childrenId := n.childrenId.insert c })
  else tree[k]?

/-- The second tree is the first with the new leaf, up to running marks and
numbers across threads, of which those that were set are kept. -/
structure Grown (gl : Settings) (ds : DataStore) (tree : Tree) (c p : NodeID) (x : NameID) (tree' : Tree) :
    Prop where
  nodes : ∀ k : NodeID, (tree'[k]?).map core = (withLeaf gl ds tree c p x k).map core
  gnids : KeepsGnid tree tree'

theorem addLeaf_grows (gl : Settings) (ds : DataStore) (ts : ThreadStore) {c p : NodeID}
    (hc0 : c ≠ 0) (x : NameID) (hr : Rooted ts.currentTree rank)
    (hg : ∀ n, ts.currentTree[(1 : NodeID)]? = some n → n.gnid ≠ 0) (hc : ts.currentTree[c]? = none)
    (hp : ∃ n, ts.currentTree[p]? = some n) :
    ∃ tree₂ tree', touch gl ds (ts.addCurrentNode gl ds c p x true) c = .ok { ts with currentTree := tree₂ } ∧
      ({ ts with currentTree := tree₂ } : ThreadStore).addChildID p c = { ts with currentTree := tree' } ∧
      Grown gl ds ts.currentTree c p x tree' := by
  obtain ⟨pn, hpn⟩ := hp
  have hnc {k : NodeID} {n : RecordNode} (h : ts.currentTree[k]? = some n) : k ≠ c := by
    rintro rfl
    rw [hc] at h
    cases h
  have hpc := hnc hpn
  let tree₁ := ts.currentTree.insert c (freshNode gl ds c p x)
  let rank' : NodeID → Nat := fun k => if k = c then rank p + 1 else rank k
  have hrank : Ranked (parentOf tree₁) rank' := by
    intro k q hk
    rw [parentOf, getElem?_insert] at hk
    by_cases hkc : k = c
    · rw [if_pos hkc, Option.map_some, Option.some.injEq] at hk
      have hq : q = p := hk.symm
      simp only [rank', hkc, if_true, hq, hpc, if_false]
    · rw [if_neg hkc] at hk
      have hqc : q ≠ c := by
        obtain rfl | ⟨m, hm⟩ := hr.parent_known hk
        · exact hc0.symm
        · exact hnc hm
      simp only [rank', hkc, if_false, hqc]
      exact hr.ranked k q hk
  have hfind (k : NodeID) : tree₁[k]? = if k = c then some (freshNode gl ds c p x) else
      ts.currentTree[k]? := getElem?_insert _ _ _ _
  have hnum : Numbered tree₁ rank' := by
    intro k n hk hg0
    refine ⟨?_, Nat.lt_of_lt_of_eq (Nat.lt_succ_self _) (hrank k _ (parentOf_eq_some.mpr ⟨n, hk, rfl⟩)).symm⟩
    rw [hfind] at hk
    by_cases hkc : k = c
    · rw [if_pos hkc, Option.some.injEq] at hk
      exact ⟨pn, by rw [← hk, hfind]; exact (if_neg hpc).trans hpn⟩
    · rw [if_neg hkc] at hk
      by_cases h1 : k = 1
      · exact absurd hg0 (hg n (h1 ▸ hk))
      · obtain ⟨m, hm⟩ := hr.parent k n hk h1
        exact ⟨m, by rw [hfind, if_neg (hnc hm), hm]⟩
  obtain ⟨tree₂, gnid, hrun, hsame, hkeep⟩ := touchGNID_core (tree₁.size + 1)
    { ts with currentTree := tree₁ } c hnum
    ((hfind c).trans (if_pos rfl))
    (by
      have := hr.bound _ pn hpn
      have hsize : tree₁.size = ts.currentTree.size + 1 := size_insert_new hc _
      simp only [rank', if_true]
      omega)
  obtain ⟨pn₂, hpn₂, hcore⟩ := hsame.symm.find (show tree₁[p]? = some pn by rw [hfind, if_neg hpc, hpn])
  let linked : RecordNode := { pn₂ with childrenId := pn₂.childrenId.insert c }
  refine ⟨tree₂, tree₂.insert p linked, ?_, ?_, fun k => ?_, fun k n hk hn => ?_⟩
  · rw [addCurrentNode_new ts hc, touch, hrun]
    rfl
  · simp only [ThreadStore.addChildID, ThreadStore.getNodeFromID, hpn₂]
    rfl
  · rw [getElem?_insert, withLeaf]
    by_cases hkp : k = p
    · rw [if_pos hkp, if_neg (hkp ▸ hpc), if_pos hkp, hpn, Option.map_some, Option.map_some, Option.map_some]
      have hlink : core linked = { core pn₂ with childrenId := (core pn₂).childrenId.insert c } := rfl
      rw [hlink, ← hcore]
      rfl
    · rw [if_neg hkp, hsame k]
      dsimp only
      rw [hfind]
      by_cases hkc : k = c
      · rw [if_pos hkc, if_pos hkc]
      · rw [if_neg hkc, if_neg hkc, if_neg hkp]
  · have hk₂ := hkeep k n (by dsimp only; rw [hfind, if_neg (hnc hk), hk]) hn
    rw [getElem?_insert]
    by_cases hkp : k = p
    · rw [hkp, hpn₂, Option.some.injEq] at hk₂
      exact ⟨linked, if_pos hkp, by rw [← hk₂]⟩
    · exact ⟨n, by rw [if_neg hkp, hk₂], rfl⟩

def attrNoted (gl : Settings) (ds : DataStore) (m : AttrNodeMap) (c : NodeID) (r : MethodNodeSerializedInfo) :
    AttrNodeMap :=
  if gl.leafNodeAccumulate && isAttrName (ds.getNameFromID r.nameid) then m.insert
    (r.parentNodeId, r.nameid) c else m

theorem addRecordNode_grows (gl : Settings) (ds : DataStore) (ts : ThreadStore) {c : NodeID} (hc0 : c ≠ 0)
    (r : MethodNodeSerializedInfo) (hr : Rooted ts.currentTree rank)
    (hg : ∀ n, ts.currentTree[(1 : NodeID)]? = some n → n.gnid ≠ 0) (hc : ts.currentTree[c]? = none)
    (hp : ∃ n, ts.currentTree[r.parentNodeId]? = some n) :
    ∃ tree', addRecordNode gl ds ts c r =
        .ok { ts with currentTree := tree', attrNodeMap := attrNoted gl ds ts.attrNodeMap c r } ∧
      Grown gl ds ts.currentTree c r.parentNodeId r.nameid tree' := by
  obtain ⟨tree₂, tree', hrun, hadd, hgrown⟩ := addLeaf_grows gl ds ts hc0 r.nameid hr hg hc hp
  refine ⟨tree', ?_, hgrown⟩
  rw [addRecordNode, hrun, ok_bind, hadd, attrNoted]
  dsimp only
  cases gl.leafNodeAccumulate && isAttrName (ds.getNameFromID r.nameid) <;> rfl

theorem getAttrNode_grows (gl : Settings) (ds : DataStore) (ts : ThreadStore) {p : NodeID} {x : NameID}
    (hi0 : ts.currentAttrNodeIdIndex ≠ 0) (hr : Rooted ts.currentTree rank)
    (hg : ∀ n, ts.currentTree[(1 : NodeID)]? = some n → n.gnid ≠ 0)
    (hi : ts.currentTree[ts.currentAttrNodeIdIndex]? = none) (hp : ∃ n, ts.currentTree[p]? = some n)
    (hm : ts.attrNodeMap[(p, x)]? = none) :
    ∃ tree', getAttrNode gl ds ts p x = .ok ({ ts with
        currentTree := tree'
        currentAttrNodeIdIndex := ts.currentAttrNodeIdIndex + 1
        attrNodeMap := ts.attrNodeMap.insert (p, x) ts.currentAttrNodeIdIndex }, ts.currentAttrNodeIdIndex) ∧
      Grown gl ds ts.currentTree ts.currentAttrNodeIdIndex p x tree' := by
  obtain ⟨tree₂, tree', hrun, hadd, hgrown⟩ := addLeaf_grows gl ds { ts with
    currentAttrNodeIdIndex := ts.currentAttrNodeIdIndex + 1
    attrNodeMap := ts.attrNodeMap.insert (p, x) ts.currentAttrNodeIdIndex } hi0 x hr hg hi hp
  refine ⟨tree', ?_, hgrown⟩
  rw [getAttrNode, hm]
  dsimp only
  rw [hrun, ok_bind, pure_eq_ok, hadd]

/-- A node without its children, running mark and number across threads. -/
def payload (n : RecordNode) : RecordNode := { n with running := false, gnid := 0, childrenId := ∅ }

section Grown

variable {tree' : Tree} {c p : NodeID} {x : NameID}

theorem Grown.payload (h : Grown gl ds tree c p x tree') (k : NodeID) :
    (tree'[k]?).map payload = if k =
      c then some (NewLeaf.payload (freshNode gl ds c p x)) else (tree[k]?).map payload := by
  have hk := congrArg (Option.map NewLeaf.payload) (h.nodes k)
  rw [Option.map_map, Option.map_map] at hk
  refine Eq.trans hk ?_
  rw [withLeaf]
  split
  · rfl
  · split
    next hkp =>
      rw [hkp]
      cases tree[p]? <;> rfl
    next => rfl

theorem Grown.find (h : Grown gl ds tree c p x tree') {k : NodeID} {n' : RecordNode}
    (hk : tree'[k]? = some n') (hkc : k ≠ c) : ∃ n, tree[k]? = some n ∧
    NewLeaf.payload n' = NewLeaf.payload n := by
  have := h.payload k
  rw [hk, if_neg hkc, Option.map_some, eq_comm, Option.map_eq_some_iff] at this
  obtain ⟨n, hn, he⟩ := this
  exact ⟨n, hn, he.symm⟩

theorem Grown.find_new (h : Grown gl ds tree c p x tree') :
    ∃ n, tree'[c]? = some n ∧ NewLeaf.payload n = NewLeaf.payload (freshNode gl ds c p x) := by
  have := h.payload c
  rw [if_pos rfl, Option.map_eq_some_iff] at this
  exact this

theorem Grown.parentOf (h : Grown gl ds tree c p x tree') (k : NodeID) :
    parentOf tree' k = if k = c then some p else TreeShape.parentOf tree k := by
  have := congrArg (Option.map (fun n : RecordNode => n.parentId)) (h.payload k)
  rw [Option.map_map, apply_ite (Option.map (fun n : RecordNode => n.parentId)), Option.map_map] at this
  exact this

theorem Grown.dirtyAt (h : Grown gl ds tree c p x tree') (hc : tree[c]? = none) (k : NodeID) :
    dirtyAt tree' k = FlushSpec.dirtyAt tree k := by
  have := congrArg (Option.any (fun n : RecordNode => n.dirty)) (h.payload k)
  rw [Option.any_map] at this
  refine Eq.trans this ?_
  split
  next hk =>
    rw [hk, FlushSpec.dirtyAt, hc]
    rfl
  next =>
    rw [Option.any_map]
    rfl

theorem parent_ne_new (hr : Rooted tree rank) (hc0 : c ≠ 0) (hc : tree[c]? = none) {k q : NodeID}
    (hk : TreeShape.parentOf tree k = some q) : q ≠ c := by
  rintro rfl
  obtain h0 | ⟨m, hm⟩ := hr.parent_known hk
  · exact hc0 h0
  · rw [hc] at hm
    cases hm

theorem Grown.below (h : Grown gl ds tree c p x tree') (hr : Rooted tree rank)
    (hc0 : c ≠ 0) (hc : tree[c]? = none) {k j : NodeID} (hj : j ≠ c) :
    Below (TreeShape.parentOf tree') k j ↔ Below (TreeShape.parentOf tree) k j :=
  below_congr_of_closed (fun y hy => (h.parentOf y).trans (if_neg hy))
    (fun _ _ _ hq => parent_ne_new hr hc0 hc hq) hj

theorem Grown.rooted (h : Grown gl ds tree c p x tree') (hr : Rooted tree rank)
    (hc0 : c ≠ 0) (hc : tree[c]? = none) {pn : RecordNode}
    (hp : tree[p]? = some pn) : Rooted tree' (fun k => if k = c then rank p + 1 else rank k) := by
  have hnc {k : NodeID} {n : RecordNode} (hk : tree[k]? = some n) : k ≠ c := by
    rintro rfl
    rw [hc] at hk
    cases hk
  have hpc := hnc hp
  have hold {k : NodeID} {n : RecordNode} (hk : tree[k]? = some n) :
      ∃ n', tree'[k]? = some n' ∧ NewLeaf.payload n' = NewLeaf.payload n := by
    have := h.payload k
    rw [if_neg (hnc hk), hk, Option.map_some, Option.map_eq_some_iff] at this
    exact this
  have hqc {k q : NodeID} (hk : TreeShape.parentOf tree k = some q) : q ≠ c := parent_ne_new hr hc0 hc hk
  have hsize : tree'.size = tree.size + 1 := by
    rw [← size_insert_new hc (freshNode gl ds c p x)]
    refine size_eq fun k => ?_
    rw [← Option.isSome_map (f := NewLeaf.payload), h.payload k, getElem?_insert]
    split
    · rfl
    · rw [Option.isSome_map]
  refine ⟨?_, ?_, ?_, ?_, ?_, ?_, ?_⟩
  · have := h.payload 0
    rwa [if_neg hc0.symm, hr.zero, Option.map_none, Option.map_eq_none_iff] at this
  · intro k n hk
    by_cases hkc : k = c
    · have := h.payload k
      rw [hk, if_pos hkc, Option.map_some, Option.some.injEq] at this
      exact (congrArg (fun n : RecordNode => n.id) this).trans hkc.symm
    · obtain ⟨m, hm, he⟩ := h.find hk hkc
      exact (congrArg (fun n : RecordNode => n.id) he).trans (hr.id k m hm)
  · obtain ⟨n, hn, h0⟩ := hr.root
    obtain ⟨n', hn', he⟩ := hold hn
    exact ⟨n', hn', (congrArg (fun n : RecordNode => n.parentId) he).trans h0⟩
  · intro k n hk h1
    by_cases hkc : k = c
    · have := h.payload k
      rw [hk, if_pos hkc, Option.map_some, Option.some.injEq] at this
      have hpar : n.parentId = p := congrArg (fun n : RecordNode => n.parentId) this
      obtain ⟨q, hq, -⟩ := hold hp
      exact ⟨q, hpar ▸ hq⟩
    · obtain ⟨m, hm, he⟩ := h.find hk hkc
      obtain ⟨q, hq⟩ := hr.parent k m hm h1
      have hpar := congrArg (fun n : RecordNode => n.parentId) he
      obtain ⟨q', hq', -⟩ := hold hq
      refine ⟨q', ?_⟩
      rw [← hq']
      exact congrArg (fun j : NodeID => tree'[j]?) hpar
  · intro q n hq d
    have hnode := h.nodes q
    rw [hq, withLeaf, Option.map_some] at hnode
    rw [h.parentOf d]
    by_cases hqc' : q = c
    · rw [if_pos hqc', Option.map_some, Option.some.injEq] at hnode
      have hch : n.childrenId = ∅ := congrArg (fun n : RecordNode => n.childrenId) hnode
      rw [hch]
      refine iff_of_false (by simp) ?_
      split
      · rw [Option.some.injEq, hqc']
        exact hpc
      · intro hd
        exact hqc hd hqc'
    · rw [if_neg hqc'] at hnode
      by_cases hqp : q = p
      · rw [if_pos hqp, hp, Option.map_some, Option.map_some, Option.some.injEq] at hnode
        have hch : n.childrenId = pn.childrenId.insert c :=
          congrArg (fun n : RecordNode => n.childrenId) hnode
        rw [hch, mem_insert_set, hr.children p pn hp, hqp]
        by_cases hdc : d = c
        · simp [hdc]
        · simp [hdc]
      · rw [if_neg hqp, eq_comm, Option.map_eq_some_iff] at hnode
        obtain ⟨m, hm, he⟩ := hnode
        have hch : n.childrenId = m.childrenId := (congrArg (fun n : RecordNode => n.childrenId) he).symm
        rw [hch, hr.children q m hm]
        by_cases hdc : d = c
        · have hnone : TreeShape.parentOf tree c = none := by rw [TreeShape.parentOf, hc, Option.map_none]
          simp [hdc, hnone, Ne.symm hqp]
        · simp [hdc]
  · intro k q hk
    rw [h.parentOf k] at hk
    by_cases hkc : k = c
    · rw [if_pos hkc, Option.some.injEq] at hk
      simp only [hkc, if_true, ← hk, hpc, if_false]
    · rw [if_neg hkc] at hk
      simp only [hkc, if_false, hqc hk]
      exact hr.ranked k q hk
  · intro k n hk
    rw [hsize]
    split
    · have := hr.bound p pn hp
      omega
    next hkc =>
      obtain ⟨m, hm, -⟩ := h.find hk hkc
      have := hr.bound k m hm
      omega

end Grown

end Llprof.Monitor.NewLeaf
