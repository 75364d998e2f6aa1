import Llprof.Monitor.Linkage
import Llprof.Monitor.StoreRule

namespace Llprof.Monitor.ParentOrder

open Faulting hiding store
open Avoiding ParentTree TreeMaps Nodes Store SlotWrites TreeShape FlushSpec Slices SliceContents SlicesKnown
  FlushFrame Linkage FlushRule StoreRule
open Profiler.CallTree (MethodNodeSerializedInfo)

variable {gl : Settings} {ds : DataStore} {tree : Tree} {ts ts' : ThreadStore}

def label (n : RecordNode) : NodeID × NodeID := (n.id, n.parentId)

/-- Every node has a greater id than its parent, and the nodes of `tree` hang where
they did. The ids that the monitor takes are past those of the records. -/
structure Descending (gl : Settings) (tree : Tree) (ts : ThreadStore) : Prop where
  nodes : ∀ (k : NodeID) (n : RecordNode), ts.currentTree[k]? = some n →
    n.id = k ∧ n.parentId < k ∧ (k = 1 → n.gnid = 1)
  root : (1 : NodeID) ∈ ts.currentTree
  kept : ∀ k p, parentOf tree k = some p → parentOf ts.currentTree k = some p
  base : 0xFF000000 ≤ ts.currentAttrNodeIdIndex
  index : gl.leafNodeAccumulate = true → ∀ k ∈ ts.currentTree, k < ts.currentAttrNodeIdIndex
  alts : ∀ k a : NodeID, ts.attrNodeIdAlt[k]? = some a → a ∈ ts.currentTree
  attrs : ∀ (q : NodeID × NameID) (a : NodeID), ts.attrNodeMap[q]? = some a → a ∈ ts.currentTree

/-- The ids of a record grow from its parent to its node, and stay below the ids that
the monitor takes for its own nodes. The root has no parent. -/
def Grows (gl : Settings) (r : MethodNodeSerializedInfo) : Prop :=
  r.callNodeId ≠ 1 → r.parentNodeId < r.callNodeId ∧
    (gl.leafNodeAccumulate = true → r.callNodeId < 0xFF000000)

theorem Descending.setNode (h : Descending gl tree ts) {k : NodeID} {n n' : RecordNode}
    (hk : ts.currentTree[k]? = some n) (hl : label n' = label n)
    (hg : k = 1 → n'.gnid = n.gnid) : Descending gl tree (ts.setNode k n') := by
  obtain ⟨hid, hpar⟩ := Prod.mk.inj hl
  have hknown (j : NodeID) (hj : j ∈ ts.currentTree) : j ∈ ts.currentTree.insert k n' :=
    mem_insert_iff.mpr (Or.inr hj)
  refine ⟨fun j m hj => ?_, hknown 1 h.root, fun j p hp => ?_, h.base, fun hon j hj => ?_,
    fun j a ha => hknown a (h.alts j a ha), fun q a ha => hknown a (h.attrs q a ha)⟩
  · change (ts.currentTree.insert k n')[j]? = some m at hj
    rw [getElem?_insert] at hj
    split at hj
    next hjk =>
      cases hj
      obtain ⟨hnid, hlt, hone⟩ := h.nodes k n hk
      rw [hjk, hid, hpar]
      exact ⟨hnid, hlt, fun h1 => (hg h1).trans (hone h1)⟩
    next => exact h.nodes j m hj
  · have hp := h.kept j p hp
    change ((ts.currentTree.insert k n')[j]?).map _ = _
    rw [getElem?_insert]
    split
    next hjk =>
      rw [hjk, parentOf, hk, Option.map_some] at hp
      rw [Option.map_some, hpar]
      exact hp
    next => exact hp
  · obtain rfl | hj := mem_insert_iff.mp hj
    · exact h.index hon j (mem_iff_some.mpr ⟨n, hk⟩)
    · exact h.index hon j hj

theorem Descending.grown (h : Descending gl tree ts) {c p : NodeID} {x : NameID}
    (hc : ts.currentTree[c]? = none) (hp : p < c) {i : NodeID} {m : AttrNodeMap}
    (hi : gl.leafNodeAccumulate = true → c < i) (hle : ts.currentAttrNodeIdIndex ≤ i)
    (hm : ∀ (q : NodeID × NameID) (a : NodeID), m[q]? = some a → a = c ∨ ts.attrNodeMap[q]? = some a) :
    Descending gl tree { ts.addCurrentNode gl ds c p x true with currentAttrNodeIdIndex := i, attrNodeMap := m } := by
  rw [NewLeaf.addCurrentNode_new ts hc p x]
  generalize hn : NewLeaf.freshNode gl ds c p x = n
  have hid : n.id = c := by rw [← hn]; rfl
  have hpar : n.parentId = p := by rw [← hn]; rfl
  have hknown (j : NodeID) (hj : j ∈ ts.currentTree) : j ∈ ts.currentTree.insert c n :=
    mem_insert_iff.mpr (Or.inr hj)
  have hnew (j : NodeID) (hj : j ∈ ts.currentTree) : j ≠ c := by
    rintro rfl
    obtain ⟨m, hm⟩ := mem_iff_some.mp hj
    rw [hc] at hm
    cases hm
  refine ⟨fun j m hj => ?_, hknown 1 h.root, fun j q hq => ?_, h.base.trans hle, fun hon j hj => ?_,
    fun j a ha => hknown a (h.alts j a ha), fun q a ha => ?_⟩
  · rw [getElem?_insert] at hj
    split at hj
    next hjc =>
      cases hj
      rw [hjc, hid, hpar]
      exact ⟨rfl, hp, fun h1 => absurd h1.symm (hnew 1 h.root)⟩
    next => exact h.nodes j m hj
  · have hq := h.kept j q hq
    obtain ⟨m, hm, -⟩ := parentOf_eq_some.mp hq
    rw [parentOf, getElem?_insert, if_neg (hnew j (mem_iff_some.mpr ⟨m, hm⟩))]
    exact hq
  · obtain rfl | hj := mem_insert_iff.mp hj
    · exact hi hon
    · exact (h.index hon j hj).trans_le hle
  · obtain rfl | ha := hm q a ha
    · exact mem_insert_self _ _ _
    · exact hknown a (h.attrs q a ha)

theorem Descending.attr_free (h : Descending gl tree ts) (hon : gl.leafNodeAccumulate = true) :
    ts.currentTree[ts.currentAttrNodeIdIndex]? = none := by
  rw [Option.eq_none_iff_forall_ne_some]
  intro n hn
  exact lt_irrefl _ (h.index hon _ (mem_iff_some.mpr ⟨n, hn⟩))

theorem defaultTemps_label (node : RecordNode) :
    Avoids never (fun n => label n = label node ∧ n.gnid = node.gnid) (defaultTemps gl ds node) :=
  defaultTemps_writes id (fun _ _ h => h) ⟨rfl, rfl⟩

theorem descending_store (tree : Tree) : StoreInvariant gl ds never (Grows gl) (Descending gl tree) where
  marked ts k n h hk := by
    apply (defaultTemps_label _).mono
    rintro n' ⟨hl, hg⟩
    exact h.setNode hk hl fun _ => hg
  running ts k n b h hk := h.setNode hk rfl fun _ => rfl
  numbered ts k n m g h hg hm hmn hroot := by
    have hk : k ≠ 1 := by
      intro hk
      obtain ⟨ts₀, h₀, hn₀⟩ := hroot hk
      have hone := (h₀.nodes k n hn₀).2.2 hk
      rw [hg] at hone
      cases hone
    refine h.setNode hm ?_ fun h1 => absurd h1 hk
    rw [← hmn]
    rfl
  attr ts k n x hon h hk := by
    obtain ⟨hid, -⟩ := h.nodes k n hk
    have hlt : n.id < ts.currentAttrNodeIdIndex := by
      rw [hid]
      exact h.index hon k (mem_iff_some.mpr ⟨n, hk⟩)
    refine @Descending.grown gl ds tree ts h _ _ x (h.attr_free hon) hlt (ts.currentAttrNodeIdIndex + 1)
      (ts.attrNodeMap.insert (n.id, x) ts.currentAttrNodeIdIndex) (fun _ =>
        Nat.lt_succ_self _) (Nat.le_succ _) ?_
    intro q a ha
    rw [getElem?_insert_pair] at ha
    split at ha
    · cases ha
      exact Or.inl rfl
    · exact Or.inr ha
  child ts p c h := by
    unfold ThreadStore.addChildID
    split
    next => exact h
    next node hnode => exact h.setNode hnode rfl fun _ => rfl
  record ts r h hr hnew := by
    have h1 : r.callNodeId ≠ 1 := by
      intro h1
      obtain ⟨n, hn⟩ := mem_iff_some.mp h.root
      rw [h1, hn] at hnew
      cases hnew
    obtain ⟨hlt, hsmall⟩ := hr h1
    exact h.grown hnew hlt (fun hon => (hsmall hon).trans_le h.base) (le_refl _) fun _ _ => Or.inr
  noted ts q c h hc := by
    refine ⟨h.nodes, h.root, h.kept, h.base, h.index, h.alts, fun q' a ha => ?_⟩
    rw [getElem?_insert_pair] at ha
    split at ha
    · cases ha
      exact hc
    · exact h.attrs q' a ha
  aliased ts k a h ha := by
    refine ⟨h.nodes, h.root, h.kept, h.base, h.index, fun j b hb => ?_, h.attrs⟩
    rw [getElem?_insert] at hb
    split at hb
    · cases hb
      exact ha
    · exact h.alts j b hb
  alts ts h := h.alts
  attrs ts h := h.attrs
  temps ts k n r h hk _ := by
    rw [RecordNode.setTempValues]
    refine (avoids_any _).bind fun _ _ => ?_
    exact h.setNode hk rfl fun _ => rfl
  now ts now h := ⟨h.nodes, h.root, h.kept, h.base, h.index, h.alts, h.attrs⟩
  values r _ hbad := hbad.elim

def Closed (tree : Tree) (slice : Slice) : Prop :=
  ∀ (k : NodeID) (e : RecordNodeBasic), slice[k]? = some e →
    e.id = k ∧ ∃ p, parentOf tree k = some p ∧ (p = 0 ∨ p ∈ slice)

theorem closed_empty (tree : Tree) : Closed tree ∅ := by
  intro k e he
  rw [Std.TreeMap.getElem?_emptyc] at he
  cases he

theorem Closed.mono {slice : Slice} (h : Closed tree slice) {tree' : Tree}
    (hp : ∀ k p, parentOf tree k = some p → parentOf tree' k = some p) : Closed tree' slice := by
  intro k e he
  obtain ⟨hid, p, hk, hp0⟩ := h k e he
  exact ⟨hid, p, hp k p hk, hp0⟩

theorem Closed.insert {slice : Slice} (h : Closed tree slice) {k : NodeID}
    {e : RecordNodeBasic} (hid : e.id = k) (hp : ∃ p, parentOf tree k = some p ∧ (p = 0 ∨ p ∈ slice)) :
    Closed tree (slice.insert k e) := by
  have hgrow {p : NodeID} (hp : p = 0 ∨ p ∈ slice) : p = 0 ∨ p ∈ slice.insert k e :=
    hp.imp id fun hm => mem_insert_iff.mpr (Or.inr hm)
  intro j d hj
  rw [getElem?_insert] at hj
  split at hj
  next hjk =>
    cases hj
    obtain ⟨p, hk, hp0⟩ := hp
    rw [hjk]
    exact ⟨hid, p, hk, hgrow hp0⟩
  next =>
    obtain ⟨hd, p, hk, hp0⟩ := h j d hj
    exact ⟨hd, p, hk, hgrow hp0⟩

theorem Closed.update {slice : Slice} (h : Closed tree slice) {k : NodeID}
    (hk : k ∈ slice) {e : RecordNodeBasic} (hid : e.id = k) : Closed tree (slice.insert k e) := by
  obtain ⟨d, hd⟩ := mem_iff_some.mp hk
  exact h.insert hid (h k d hd).2

theorem Closed.sliceNode_id {slice : Slice} (h : Closed tree slice) (id : NodeID) :
    (sliceNode gl ds slice id).id = id :=
  SlicesKnown.sliceNode_id fun e he => (h id e he).1

theorem addTempToChildren_id (tssNode : RecordNodeBasic) (destNode srcNode : RecordNode) :
    Avoids never (fun st => st.1.id = tssNode.id) (addTempToChildren ds tssNode destNode srcNode) :=
  addTempToChildren_writes id srcNode (fun _ _ _ _ _ _ h => h) rfl

theorem addAllValues_id (tssNode : RecordNodeBasic) (node : RecordNode) :
    Avoids never (fun st => st.1.id = tssNode.id) (addAllValues ds tssNode node) :=
  addAllValues_writes id id (fun _ _ _ _ _ h => h) rfl

/-- A flush that has left every node in its place, and has entered none before its parent. -/
structure Flushing (tree : Tree) (s : Flush) : Prop where
  framed : Framed tree s.tree
  closed : Closed tree s.slice

theorem flushing_invariant {rank : NodeID → Nat} (hr : Rooted tree rank) :
    FlushInvariant gl ds never (Flushing tree) where
  enter s id n h _ hent := by
    refine ⟨h.framed, h.closed.insert (h.closed.sliceNode_id id) ?_⟩
    rcases hent with rfl | ⟨s₀, p, pn, h₀, hp, hc, hmem⟩
    · obtain ⟨r, hr1, hr0⟩ := hr.root
      exact ⟨0, parentOf_eq_some.mpr ⟨r, hr1, hr0⟩, Or.inl rfl⟩
    · have hpar := ((hr.congr h₀.framed.places).children p pn hp id).mp hc
      rw [h₀.framed.places.parentOf] at hpar
      exact ⟨p, hpar, Or.inr hmem⟩
  addTemp s id n src m h hid hn _ := by
    apply (and_never ((addTempToChildren_frame _ n m).weaken fun _ h => h.elim) (addTempToChildren_id _ n m)).mono
    rintro st ⟨hframe, hst⟩
    exact ⟨h.framed.insert hn hframe, h.closed.update hid (hst.trans (h.closed.sliceNode_id id))⟩
  settle s id n h hid hn := by
    apply (and_never ((addAllValues_frame _ n).weaken fun _ h => h.elim) (addAllValues_id _ n)).mono
    rintro st ⟨hframe, hst⟩
    exact ⟨h.framed.insert hn hframe, h.closed.update hid (hst.trans (h.closed.sliceNode_id id))⟩

def SlicesClosed (ts : ThreadStore) : Prop := ∀ u, Closed ts.currentTree (contentAt ts u).tree

/-- A thread store that has been given the records `done` of the records `log`. -/
structure InOrder (gl : Settings) (hash : NameID → Prop)
    (log done : List MethodNodeSerializedInfo) (ts : ThreadStore) : Prop where
  processed : ∃ rank, Processed gl hash log done rank ts
  descending : Descending gl ∅ ts
  closed : SlicesClosed ts

theorem Descending.since (h : Descending gl tree ts) : Descending gl ts.currentTree ts :=
  ⟨h.nodes, h.root, fun _ _ hp => hp, h.base, h.index, h.alts, h.attrs⟩

theorem Descending.anyway (h : Descending gl tree ts) : Descending gl ∅ ts := by
  refine ⟨h.nodes, h.root, fun k p hp => ?_, h.base, h.index, h.alts, h.attrs⟩
  rw [parentOf, Std.TreeMap.getElem?_emptyc] at hp
  cases hp

theorem Descending.framed (h : Descending gl tree ts) (hf : Framed ts.currentTree ts'.currentTree)
    (hm : ts'.attrNodeMap = ts.attrNodeMap) (ha : ts'.attrNodeIdAlt = ts.attrNodeIdAlt)
    (hi : ts'.currentAttrNodeIdIndex = ts.currentAttrNodeIdIndex) : Descending gl tree ts' := by
  have hmem (k : NodeID) : k ∈ ts'.currentTree ↔ k ∈ ts.currentTree := by
    have := congrArg Option.isSome (hf k)
    rw [Option.isSome_map, Option.isSome_map] at this
    rw [Std.TreeMap.mem_iff_isSome_getElem?, Std.TreeMap.mem_iff_isSome_getElem?, this]
  refine ⟨fun k n hn => ?_, (hmem 1).mpr h.root, fun k p hp =>
    ?_, by rw [hi]; exact h.base, fun hon k hk => ?_, fun k a hk => ?_, fun q a hq => ?_⟩
  · have hk := hf k
    rw [hn, Option.map_some, eq_comm, Option.map_eq_some_iff] at hk
    obtain ⟨m, hm, he⟩ := hk
    obtain ⟨hid, hlt, hone⟩ := h.nodes k m hm
    have hplace : place m = place n := congrArg Prod.fst he
    have hgnid : m.gnid = n.gnid := congrArg Prod.snd he
    rw [← hgnid, ← show m.id = n.id from congrArg Place.id hplace,
      ← show m.parentId = n.parentId from congrArg Place.parentId hplace]
    exact ⟨hid, hlt, hone⟩
  · rw [hf.places.parentOf]
    exact h.kept k p hp
  · rw [hi]
    exact h.index hon k ((hmem k).mp hk)
  · rw [ha] at hk
    exact (hmem a).mpr (h.alts k a hk)
  · rw [hm] at hq
    exact (hmem a).mpr (h.attrs q a hq)

theorem store_inOrder {hash : NameID → Prop} {log done rest batch : List MethodNodeSerializedInfo}
    {p : MethodNodeSerializedInfo → Bool}
    (hhash : gl.leafNodeAccumulate = true → ∀ x, isAttrName (ds.getNameFromID x) = true → hash x)
    (hl : Linkable gl hash log) (hlog : log = done ++ batch.filter p ++ rest)
    (hroot : ∀ r ∈ batch, p r = false → r.callNodeId = 1 ∧ ∀ q ∈ log, q.callNodeId ≠ 1)
    (hgrows : ∀ r ∈ batch, Grows gl r) (h : InOrder gl hash log done ts) (now : NowInfo) :
    Avoids lost (InOrder gl hash log (done ++ batch.filter p)) (store gl ds ts batch now) := by
  obtain ⟨rank, hproc⟩ := h.processed
  have hreceive : Avoids never (Descending gl ts.currentTree) (receive gl ds ts batch now) :=
    receive_rule ofAccess_never (descending_store ts.currentTree) h.descending.since hgrows now
  have hkeeps : Avoids never (fun ts₁ => ts₁.startTimeNumber = ts.startTimeNumber ∧
    ts₁.timeSlice = ts.timeSlice)
      (receive gl ds ts batch now) := avoids_never_iff.mpr fun _ h₁ => receive_keeps h₁
  rw [store]
  apply (and_never (and_never (receive_processed hhash hl hlog hroot hproc now) hreceive) hkeeps).bind
  rintro ts₁ ⟨⟨⟨rank₁, hproc₁⟩, hdesc₁⟩, hstart, hslices⟩
  have hclosed (u : Int) : Closed ts₁.currentTree (contentAt ts₁ u).tree := by
    have hcontent : contentAt ts₁ u = contentAt ts u := by
      rw [contentAt, contentAt, hstart, hslices]
    rw [hcontent]
    exact (h.closed u).mono hdesc₁.kept
  have hr := hproc₁.standing.rooted
  have hflush : Avoids never (Flushed (Flushing ts₁.currentTree) ds.currentTimeNumber ts₁)
      (flush gl ds ts₁) :=
    flush_rule ofAccess_never (flushing_invariant hr) ⟨Framed.refl _, hclosed _⟩
  apply (and_never (flush_framed hr) hflush).mono
  rintro ts₂ ⟨⟨hf, hm, ha, hi⟩, hdone⟩
  obtain ⟨hs₂, he₂⟩ := hproc₁.standing.congr hf.places hf.gnids hm ha hi
  refine ⟨⟨rank₁, hproc₁.extend hs₂ he₂⟩, (hdesc₁.framed hf hm ha hi).anyway, fun u => ?_⟩
  have hmono : ∀ k q, parentOf ts₁.currentTree k = some q → parentOf ts₂.currentTree k = some q :=
    fun k q hq =>
    (hf.places.parentOf k).trans hq
  by_cases hu : u = ds.currentTimeNumber
  · rw [hu]
    exact hdone.state.closed.mono hmono
  · rw [hdone.slices u hu]
    exact (hclosed u).mono hmono

end Llprof.Monitor.ParentOrder
