import Llprof.Monitor.Runs
import Llprof.Monitor.Sealing
import Llprof.Monitor.Stripping
import Llprof.Monitor.TickFrame

namespace Llprof.Monitor.AnyRecords

open Faulting hiding store
open Avoiding MachineIntegers TreeMaps Nodes Store SlotLoops TreeShape FlushSpec Marking NewLeaf MergeSlices
  SliceFrame SlicesKnown TickFrame FlushRule StoreRule NamePaths Sealing Stripping Runs
open Profiler.CallTree (MethodNodeSerializedInfo)

variable {gl : Settings} {ds : DataStore} {rank : NodeID → Nat} {tree tree' : Tree} {ts ts' : ThreadStore}

theorem mem_iff_parent {k : NodeID} : k ∈ tree ↔ ∃ p, parentOf tree k = some p := by
  rw [mem_iff_some]
  constructor
  · rintro ⟨n, hn⟩
    exact ⟨n.parentId, parentOf_eq_some.mpr ⟨n, hn, rfl⟩⟩
  · rintro ⟨p, hp⟩
    obtain ⟨n, hn, -⟩ := parentOf_eq_some.mp hp
    exact ⟨n, hn⟩

theorem mem_congr (h : parentOf tree' = parentOf tree) (k : NodeID) : k ∈ tree' ↔ k ∈ tree := by
  rw [mem_iff_parent, mem_iff_parent, h]

/-- The root has its number and all other nodes hang below nodes, whatever the records said. -/
structure Hung (tree : Tree) (rank : NodeID → Nat) : Prop where
  root : ∃ n, tree[(1 : NodeID)]? = some n ∧ n.gnid ≠ 0
  parent : ∀ k p, k ≠ 1 → parentOf tree k = some p → p ∈ tree ∧ rank p < rank k
  bound : ∀ k ∈ tree, rank k < tree.size

theorem Hung.congr (h : Hung tree rank) (hpar : parentOf tree' = parentOf tree)
    (hroot : ∃ n, tree'[(1 : NodeID)]? = some n ∧ n.gnid ≠ 0) : Hung tree' rank := by
  have hsize : tree'.size = tree.size := by
    apply size_eq
    intro k
    rw [Bool.eq_iff_iff, ← Std.TreeMap.mem_iff_isSome_getElem?, ← Std.TreeMap.mem_iff_isSome_getElem?,
      mem_congr hpar]
  refine ⟨hroot, fun k p h1 hp => ?_, fun k hk => ?_⟩
  · rw [hpar] at hp
    rw [mem_congr hpar]
    exact h.parent k p h1 hp
  · rw [mem_congr hpar] at hk
    rw [hsize]
    exact h.bound k hk

theorem Hung.tags (h : Hung tree rank) (ht : SameTags tree tree') : Hung tree' rank := by
  apply h.congr ht.parentOf
  obtain ⟨n, hn, hg⟩ := h.root
  obtain ⟨n', hn', he⟩ := ht.find hn
  exact ⟨n', hn', (Prod.mk.inj (Prod.mk.inj he).2).2 ▸ hg⟩

theorem Hung.numbered (h : Hung tree rank) : Numbered tree rank := by
  intro k n hn hg
  have h1 : k ≠ 1 := by
    rintro rfl
    obtain ⟨m, hm, hg'⟩ := h.root
    rw [hn, Option.some.injEq] at hm
    exact hg' (hm ▸ hg)
  obtain ⟨hp, hrank⟩ := h.parent k n.parentId h1 (parentOf_eq_some.mpr ⟨n, hn, rfl⟩)
  exact ⟨mem_iff_some.mp hp, hrank⟩

/-- A new node below one that is there. -/
theorem Hung.leaf (gl : Settings) (ds : DataStore) (h : Hung tree rank) {c p : NodeID} (hc : c ∉ tree)
    (hp : p ∈ tree) (x : NameID) :
    Hung (tree.insert c (freshNode gl ds c p x)) (fun k => if k = c then tree.size else rank k) := by
  have hne {k : NodeID} (hk : k ∈ tree) : k ≠ c := fun he => hc (he ▸ hk)
  have hnone : tree[c]? = none := Std.TreeMap.getElem?_eq_none hc
  have hpar (k : NodeID) : parentOf (tree.insert c (freshNode gl ds c p x)) k =
      if k = c then some p else parentOf tree k := by
    rw [parentOf, getElem?_insert]
    split
    · rfl
    · rfl
  obtain ⟨n, hn, hg⟩ := h.root
  refine ⟨⟨n, ?_, hg⟩, fun k q h1 hq => ?_, fun k hk => ?_⟩
  · rw [getElem?_insert_ne _ (hne (mem_iff_some.mpr ⟨n, hn⟩)), hn]
  · rw [hpar] at hq
    rw [mem_insert_iff]
    by_cases hkc : k = c
    · rw [if_pos hkc, Option.some.injEq] at hq
      rw [← hq, if_neg (hne hp), if_pos hkc]
      exact ⟨Or.inr hp, h.bound p hp⟩
    · rw [if_neg hkc] at hq
      obtain ⟨hmem, hrank⟩ := h.parent k q h1 hq
      rw [if_neg (hne hmem), if_neg hkc]
      exact ⟨Or.inr hmem, hrank⟩
  · rw [size_insert_new hnone]
    rcases mem_insert_iff.mp hk with rfl | hk
    · rw [if_pos rfl]
      exact Nat.lt_succ_self _
    · rw [if_neg (hne hk)]
      exact Nat.lt_succ_of_lt (h.bound k hk)

theorem touch_hung (gl : Settings) (ds : DataStore) (ts : ThreadStore) (h : Hung ts.currentTree rank)
    {id : NodeID} (hid : id ∈ ts.currentTree) :
    ∃ tree', touch gl ds ts id = .ok { ts with currentTree := tree' } ∧ Hung tree' rank ∧
      parentOf tree' = parentOf ts.currentTree := by
  obtain ⟨n, hn⟩ := mem_iff_some.mp hid
  obtain ⟨tree', gnid, hrun, hsame, hkeep⟩ :=
    @touchGNID_core gl ds rank (ts.currentTree.size + 1) ts id h.numbered n hn
      (Nat.lt_succ_of_lt (h.bound id hid))
  have hpar : parentOf tree' = parentOf ts.currentTree := funext hsame.places.parentOf
  obtain ⟨root, hroot, hg⟩ := h.root
  refine ⟨tree', ?_, h.congr hpar ⟨root, hkeep 1 root hroot hg, hg⟩, hpar⟩
  rw [touch, hrun]
  rfl

/-- The recursion ends on any tree, also on one with a cycle of parents: each call leaves
one node less that is not dirty. -/
theorem markNodeDirty_ends (hd : Described ds) (hoff : gl.leafNodeAccumulate = false) (fuel : Nat)
    (ts : ThreadStore) (id : NodeID) (hs : SizedNodes gl ds ts.currentTree) (clean : List NodeID)
    (hclean : ∀ (k : NodeID) (n : RecordNode), ts.currentTree[k]? = some n → n.dirty = false → k ∈ clean)
    (hfuel : clean.length < fuel) : ∃ ts', markNodeDirty gl ds fuel ts id = .ok ts' := by
  induction fuel generalizing ts id clean with
  | zero => omega
  | succ fuel ih =>
      rw [markNodeDirty, ThreadStore.getNodeFromID]
      cases hn : ts.currentTree[id]? with
      | none => exact ⟨ts, rfl⟩
      | some n =>
          dsimp only
          by_cases hdirty : n.dirty = true
          · exact ⟨ts, if_pos hdirty⟩
          · obtain ⟨hall, hchildren, htemps, hfull⟩ := hs id n hn
            have hmem := hclean id n hn (Bool.not_eq_true _ ▸ hdirty)
            have hpos := List.length_pos_of_mem hmem
            obtain ⟨ts', hrun⟩ := ih (ts.setNode id (markedNode gl ds n)) n.parentId
              (hs.insert ⟨hall, hchildren, Slots.length_slots _ _, hfull⟩) (clean.erase id)
              (by
                intro k m hk hm
                have hk : (ts.currentTree.insert id (markedNode gl ds n))[k]? = some m := hk
                rw [getElem?_insert] at hk
                by_cases hki : k = id
                · rw [if_pos hki, Option.some.injEq] at hk
                  rw [← hk] at hm
                  cases hm
                · rw [if_neg hki] at hk
                  exact (List.mem_erase_of_ne hki).mpr (hclean k m hk hm))
              (by
                rw [List.length_erase_of_mem hmem]
                omega)
            have hup : markNodeDirty gl ds fuel (ts.setNode id (markedNode gl ds n)) (markedNode gl ds n).parentId =
                .ok ts' := hrun
            rw [if_neg hdirty, defaultTemps_marked hd htemps hfull, ok_bind, hup, ok_bind, hoff, Bool.false_and]
            exact ⟨ts', rfl⟩

theorem mark_ends (hd : Described ds) (hoff : gl.leafNodeAccumulate = false)
    (hs : SizedNodes gl ds ts.currentTree) (id : NodeID) : ∃ ts', mark gl ds ts id = .ok ts' := by
  refine markNodeDirty_ends hd hoff _ ts id hs ts.currentTree.keys (fun k n hk _ => ?_) ?_
  · exact Std.TreeMap.mem_keys.mpr (mem_iff_some.mpr ⟨n, hk⟩)
  · rw [Std.TreeMap.length_keys]
    exact Nat.lt_succ_self _

/-- The record has a node, or its parent has one, below which the node is made. -/
def Placed (known : NodeID → Prop) (r : MethodNodeSerializedInfo) : Prop :=
  known r.callNodeId ∨ known r.parentNodeId

theorem addRecordNode_hung (ds : DataStore) (hoff : gl.leafNodeAccumulate = false) (h : Hung ts.currentTree rank)
    {r : MethodNodeSerializedInfo} (hnew : r.callNodeId ∉ ts.currentTree)
    (hp : r.parentNodeId ∈ ts.currentTree) :
    ∃ ts' rank', addRecordNode gl ds ts r.callNodeId r = .ok ts' ∧ Hung ts'.currentTree rank' ∧
      ∀ k, k ∈ ts'.currentTree ↔ k = r.callNodeId ∨ k ∈ ts.currentTree := by
  let tree₁ : Tree := ts.currentTree.insert r.callNodeId (freshNode gl ds r.callNodeId r.parentNodeId r.nameid)
  have hadd : ts.addCurrentNode gl ds r.callNodeId r.parentNodeId r.nameid true =
      { ts with currentTree := tree₁ } := addCurrentNode_new ts (Std.TreeMap.getElem?_eq_none hnew) _ _
  obtain ⟨tree', htouch, hung, hpar⟩ :=
    touch_hung gl ds { ts with currentTree := tree₁ } (h.leaf gl ds hnew hp r.nameid) (mem_insert_self _ _ _)
  have htags := addChildID_tags { ts with currentTree := tree' } r.parentNodeId r.callNodeId
  refine ⟨_, _, ?_, hung.tags htags, fun k => ?_⟩
  · rw [addRecordNode, hadd, htouch, ok_bind, hoff, Bool.false_and]
    rfl
  · rw [mem_congr htags.parentOf, mem_congr hpar]
    exact mem_insert_iff

theorem locate_hung (ds : DataStore) (hoff : gl.leafNodeAccumulate = false) (h : Hung ts.currentTree rank)
    {r : MethodNodeSerializedInfo} (hp : Placed (· ∈ ts.currentTree) r) :
    ∃ ts' rank', locate gl ds ts r = .ok (ts', r.callNodeId) ∧ Hung ts'.currentTree rank' ∧
      ∀ k, k ∈ ts'.currentTree ↔ k = r.callNodeId ∨ k ∈ ts.currentTree := by
  by_cases hc : r.callNodeId ∈ ts.currentTree
  · obtain ⟨n, hn⟩ := mem_iff_some.mp hc
    refine ⟨ts, rank, ?_, h, fun k => ⟨Or.inr, fun hk => hk.elim (fun he => he ▸ hc) id⟩⟩
    simp [locate, hoff, ThreadStore.getNodeFromID, hn]
  · obtain ⟨ts', rank', hadd, h', hmem⟩ := addRecordNode_hung ds hoff h hc (hp.resolve_left hc)
    refine ⟨ts', rank', ?_, h', hmem⟩
    simp [locate, hoff, ThreadStore.getNodeFromID, Std.TreeMap.getElem?_eq_none hc, hadd]

/-- Without a parent to hang it under `TouchGNID` finds no node; a node that is its own
parent it never leaves. -/
theorem locate_unplaced (hoff : gl.leafNodeAccumulate = false) {r : MethodNodeSerializedInfo}
    (hp : ¬ Placed (· ∈ ts.currentTree) r) (q : ThreadStore × NodeID) : locate gl ds ts r ≠ .ok q := by
  obtain ⟨hc, hpar⟩ := not_or.mp hp
  have hnone := Std.TreeMap.getElem?_eq_none hc
  let tree₁ : Tree := ts.currentTree.insert r.callNodeId (freshNode gl ds r.callNodeId r.parentNodeId r.nameid)
  have hself : tree₁[r.callNodeId]? = some (freshNode gl ds r.callNodeId r.parentNodeId r.nameid) :=
    getElem?_insert_self _ _ _
  have htouch (g : ThreadStore × NodeID) :
      touchGNID gl ds (tree₁.size + 1) { ts with currentTree := tree₁ } r.callNodeId ≠ .ok g := by
    by_cases hown : r.parentNodeId = r.callNodeId
    · rw [touchGNID_self _ hself rfl hown]
      exact fun h => by cases h
    · have habove : tree₁[r.parentNodeId]? = none := by
        rw [getElem?_insert_ne _ hown]
        exact Std.TreeMap.getElem?_eq_none hpar
      have hsize : tree₁.size = ts.currentTree.size + 1 := size_insert_new hnone _
      rw [hsize, touchGNID, ThreadStore.getNodeFromID]
      dsimp only
      rw [hself]
      dsimp only
      rw [if_neg (by simp [freshNode, emptyNode]), touchGNID, ThreadStore.getNodeFromID]
      have hup : tree₁[(freshNode gl ds r.callNodeId r.parentNodeId r.nameid).parentId]? = none := habove
      dsimp only
      rw [hup]
      exact fun h => by cases h
  intro h
  simp only [locate, hoff, ThreadStore.getNodeFromID, hnone, Bool.false_eq_true, if_false, addRecordNode,
    addCurrentNode_new ts hnone, touch, bind_eq_ok] at h
  obtain ⟨_, ⟨_, ⟨g, hg, -⟩, -⟩, -⟩ := h
  exact htouch g hg

theorem storeRecord_sized (hd : Described ds) (hs : SizedThread gl ds ts) (r : MethodNodeSerializedInfo) :
    Avoids never (SizedThread gl ds) (storeRecord gl ds ts r) :=
  storeRecord_rule ofAccess_never.spares (sized_store hd) hs fun h => (or_self_iff.mp h).elim

/-- The assertion of `SetTempValues` holds, whatever the record. -/
theorem storeRecord_asserts (hd : Described ds) (hs : SizedThread gl ds ts) {r : MethodNodeSerializedInfo}
    (hfit : ds.numRecords ≤ r.profileValue.length) :
    Avoids (· = .assertion) (SizedThread gl ds) (storeRecord gl ds ts r) :=
  storeRecord_rule ⟨by decide, by decide⟩ (sized_store hd) hs fun _ => hfit

theorem storeRecord_placed (hd : Described ds) (hoff : gl.leafNodeAccumulate = false)
    (hs : SizedThread gl ds ts) (h : Hung ts.currentTree rank) {r : MethodNodeSerializedInfo}
    (hp : Placed (· ∈ ts.currentTree) r) (hfit : ds.numRecords ≤ r.profileValue.length) :
    ∃ ts' rank', storeRecord gl ds ts r = .ok ts' ∧ Hung ts'.currentTree rank' ∧
      ∀ k, k ∈ ts'.currentTree ↔ k = r.callNodeId ∨ k ∈ ts.currentTree := by
  obtain ⟨ts₁, rank', hlocate, h₁, hmem⟩ := locate_hung ds hoff h hp
  have hs₁ : SizedThread gl ds ts₁ :=
    (avoids_never_iff.mp (locate_rule ofAccess_never.spares (sized_store hd) hs
      fun h => (or_self_iff.mp h).elim) _ hlocate).1
  obtain ⟨ts₂, hmark⟩ := mark_ends hd hoff hs₁.nodes r.callNodeId
  have hs₂ : SizedThread gl ds ts₂ :=
    avoids_never_iff.mp (markNodeDirty_rule ofAccess_never.spares (sized_store hd) _ r.callNodeId hs₁) _ hmark
  have htags := avoids_never_iff.mp (markNodeDirty_tags hoff _ ts₁ r.callNodeId) _ hmark
  have hc₁ : r.callNodeId ∈ ts₁.currentTree := (hmem _).mpr (Or.inl rfl)
  obtain ⟨n, hn⟩ := mem_iff_some.mp ((mem_congr htags.parentOf _).mpr hc₁)
  have hlen : n.tempValues.length = (r.profileValue.take ds.numRecords).length := by
    rw [(hs₂.nodes _ n hn).temps, List.length_take, min_eq_left hfit]
  let n' : RecordNode :=
    { n with tempValues := r.profileValue.take ds.numRecords, tempCallCount := (r.callCount : LongLong) }
  have hset : SameTags ts₁.currentTree (ts₂.setNode r.callNodeId n').currentTree := htags.insert hn rfl
  refine ⟨ts₂.setNode r.callNodeId n', rank', ?_, h₁.tags hset, fun k =>
    (mem_congr hset.parentOf k).trans (hmem k)⟩
  rw [storeRecord, hlocate, ok_bind]
  dsimp only
  rw [require_of (Std.TreeMap.contains_iff_mem.mpr hc₁), ok_bind, require_of hfit, ok_bind, hmark, ok_bind,
    ThreadStore.getNodeFromID, hn]
  dsimp only
  rw [RecordNode.setTempValues, require_of hlen]
  rfl

theorem storeRecord_unplaced (hoff : gl.leafNodeAccumulate = false) {r : MethodNodeSerializedInfo}
    (hp : ¬ Placed (· ∈ ts.currentTree) r) (ts' : ThreadStore) : storeRecord gl ds ts r ≠ .ok ts' := by
  intro h
  rw [storeRecord, bind_eq_ok] at h
  obtain ⟨q, hq, -⟩ := h
  exact locate_unplaced hoff hp q hq

/-- One record after the other has a node or a parent to hang it under, where `known` are the
nodes that are there before. -/
def AllPlaced (known : NodeID → Prop) : List MethodNodeSerializedInfo → Prop
  | [] => True
  | r :: batch => Placed known r ∧ AllPlaced (fun k => k = r.callNodeId ∨ known k) batch

theorem storeRecords_iff (hd : Described ds) (hoff : gl.leafNodeAccumulate = false)
    (hs : SizedThread gl ds ts) (h : Hung ts.currentTree rank) {batch : List MethodNodeSerializedInfo}
    (hfits : ∀ r ∈ batch, ds.numRecords ≤ r.profileValue.length) :
    (∃ ts', batch.foldlM (storeRecord gl ds) ts = .ok ts') ↔ AllPlaced (· ∈ ts.currentTree) batch := by
  induction batch generalizing ts rank with
  | nil => exact iff_of_true ⟨ts, rfl⟩ trivial
  | cons r batch ih =>
      rw [List.forall_mem_cons] at hfits
      rw [AllPlaced]
      by_cases hp : Placed (· ∈ ts.currentTree) r
      · obtain ⟨ts₁, rank', hrun, h₁, hmem⟩ := storeRecord_placed hd hoff hs h hp hfits.1
        have hs₁ := avoids_never_iff.mp (storeRecord_sized hd hs r) ts₁ hrun
        have hknown : (fun k => k ∈ ts₁.currentTree) = fun k => k = r.callNodeId ∨ k ∈ ts.currentTree :=
          funext fun k => propext (hmem k)
        rw [List.foldlM_cons, hrun, ok_bind, ih hs₁ h₁ hfits.2, hknown]
        exact (and_iff_right hp).symm
      · refine iff_of_false ?_ fun h => hp h.1
        rintro ⟨ts', hrun⟩
        rw [List.foldlM_cons, bind_eq_ok] at hrun
        obtain ⟨ts₁, h₁, -⟩ := hrun
        exact storeRecord_unplaced hoff hp ts₁ h₁

theorem storeRecord_hung (hd : Described ds) (hoff : gl.leafNodeAccumulate = false)
    (hs : SizedThread gl ds ts) (h : Hung ts.currentTree rank) (r : MethodNodeSerializedInfo) :
    Avoids never (fun ts' => ∃ rank', Hung ts'.currentTree rank') (storeRecord gl ds ts r) := by
  rw [avoids_never_iff]
  intro ts' hrun
  have hp : Placed (· ∈ ts.currentTree) r := by
    by_contra hp
    exact storeRecord_unplaced hoff hp ts' hrun
  have hfit : ds.numRecords ≤ r.profileValue.length := by
    rw [storeRecord, bind_eq_ok] at hrun
    obtain ⟨_, -, hrun⟩ := hrun
    obtain ⟨_, -, hrun⟩ := bind_eq_ok.mp hrun
    obtain ⟨_, hfit, -⟩ := bind_eq_ok.mp hrun
    exact require_eq_ok.mp hfit
  obtain ⟨ts'', rank', hrun', h', -⟩ := storeRecord_placed hd hoff hs h hp hfit
  rw [hrun, Except.ok.injEq] at hrun'
  exact ⟨rank', hrun' ▸ h'⟩

theorem receive_split (gl : Settings) (ds : DataStore) (ts : ThreadStore)
    (batch : List MethodNodeSerializedInfo) (now : NowInfo) :
    receive gl ds ts batch now = receive gl ds ts [] now >>= fun ts => batch.foldlM (storeRecord gl ds) ts := by
  simp only [receive, List.foldlM_nil, bind_assoc, pure_bind]

theorem receive_start (hoff : gl.leafNodeAccumulate = false) (h : Hung ts.currentTree rank) (now : NowInfo) :
    Avoids never (fun ts' => Hung ts'.currentTree rank) (receive gl ds ts [] now) := by
  rw [receive, unmarkRunningNodes]
  apply (setRunning_tags false _ ts ts.runningNode).bind
  intro ts₁ h₁
  refine (avoids_any _).bind fun _ _ => ?_
  rw [markRunningNodes, bind_assoc]
  apply (markNodeDirty_tags hoff _ (updateNowValues ds ts₁ now) now.runningNode).bind
  intro ts₂ h₂
  apply (setRunning_tags true _ ts₂ ts₂.runningNode).bind
  intro ts₃ h₃
  exact ((h.tags h₁).tags h₂).tags h₃

/-- A thread store that `Store` has left, whatever records it was given. -/
structure Steady (gl : Settings) (ds : DataStore) (ts : ThreadStore) : Prop where
  sized : SizedThread gl ds ts
  slices : SlicesOk ds ts
  hung : gl.leafNodeAccumulate = false → ∃ rank, Hung ts.currentTree rank

/-- The thread store at the loop over the records. -/
theorem Steady.start (h : Steady gl ds ts) (hd : Described ds) (now : NowInfo) :
    Avoids never (fun ts' => SizedThread gl ds ts' ∧
      (gl.leafNodeAccumulate = false → ∃ rank, Hung ts'.currentTree rank)) (receive gl ds ts [] now) := by
  rw [avoids_never_iff]
  intro ts' hrun
  have hsized : Avoids never (SizedThread gl ds) (receive gl ds ts [] now) :=
    receive_rule ofAccess_never (sized_store hd) h.sized (fun _ h => absurd h List.not_mem_nil) now
  refine ⟨avoids_never_iff.mp hsized _ hrun, fun hoff => ?_⟩
  obtain ⟨rank, hung⟩ := h.hung hoff
  exact ⟨rank, avoids_never_iff.mp (receive_start hoff hung now) _ hrun⟩

theorem Steady.store (h : Steady gl ds ts) (hd : Described ds) (batch : List MethodNodeSerializedInfo)
    (now : NowInfo) : Avoids never (Steady gl ds) (Store.store gl ds ts batch now) := by
  rw [avoids_never_iff]
  intro ts' hrun
  have hinside : Avoids never (SizedThread gl ds) (Store.store gl ds ts batch now) :=
    store_inside ofAccess_never hd h.slices h.sized (fun _ _ h => h.elim) now
  refine ⟨avoids_never_iff.mp hinside _ hrun, avoids_never_iff.mp (store_slicesOk h.slices batch now) _ hrun,
    fun hoff => ?_⟩
  rw [Store.store, receive_split, bind_assoc, bind_eq_ok] at hrun
  obtain ⟨ts₁, h₁, hrun⟩ := hrun
  obtain ⟨ts₂, h₂, hflush⟩ := bind_eq_ok.mp hrun
  obtain ⟨hs₁, hung⟩ := avoids_never_iff.mp (h.start hd now) _ h₁
  have hfold : Avoids never (fun ts => SizedThread gl ds ts ∧ ∃ rank, Hung ts.currentTree rank)
      (batch.foldlM (storeRecord gl ds) ts₁) := by
    refine avoids_foldlM (fun _ ts => SizedThread gl ds ts ∧ ∃ rank, Hung ts.currentTree rank) batch ?_
      ⟨hs₁, hung hoff⟩
    rintro done r rest ts - ⟨hs, rank, hr⟩
    exact and_never (storeRecord_sized hd hs r) (storeRecord_hung hd hoff hs hr r)
  obtain ⟨-, rank, hr⟩ := avoids_never_iff.mp hfold _ h₂
  have htags := flush_rule ofAccess_never (@tags_invariant gl ds ts₂.currentTree) (SameTags.refl _)
  exact ⟨rank, hr.tags (avoids_never_iff.mp htags _ hflush).state⟩

theorem newThreadStore_steady (gl : Settings) (ds : DataStore) (id : ThreadID) :
    Steady gl ds (newThreadStore gl ds id) := by
  have htree := newThreadStore_tree gl ds id
  have hroot := (htree 1).trans (if_pos rfl)
  refine ⟨newThreadStore_sized gl ds id, slicesOk_nil (newThreadStore_slices gl ds id), fun _ =>
    ⟨fun _ => 0, ⟨_, hroot, Nat.one_ne_zero⟩, fun k p h1 hp => ?_, fun k hk => ?_⟩⟩
  · rw [parentOf, htree, if_neg h1] at hp
    cases hp
  · rw [← Std.TreeMap.length_keys]
    exact List.length_pos_of_mem (Std.TreeMap.mem_keys.mpr hk)

theorem Steady.congr {ds' : DataStore} (hn : ds'.numRecords = ds.numRecords) (h : Steady gl ds ts) :
    Steady gl ds' ts := ⟨h.sized.congr hn, slicesOk_congr hn h.slices, h.hung⟩

theorem steady_run (hd : Described ds) (id : ThreadID) (deliveries : List Delivery) :
    Avoids never (Steady gl ds) (storeAll gl ds (newThreadStore gl ds id) deliveries) := by
  refine avoids_foldlM (fun _ => Steady gl ds) deliveries (fun done d rest ts _ h => ?_)
    (newThreadStore_steady gl ds id)
  have hn : (d.dataStore ds).numRecords = ds.numRecords := rfl
  exact ((h.congr hn).store hd d.batch d.now).mono fun _ h' => h'.congr hn.symm

end Llprof.Monitor.AnyRecords
