import Llprof.Monitor.NewLeaf

namespace Llprof.Monitor.Receive

open Faulting hiding store
open MachineIntegers ParentTree TreeMaps Slots Nodes Store SlotLoops TreeShape FlushSpec Marking NewLeaf
open Profiler.CallTree (MethodNodeSerializedInfo)

variable {gl : Settings} {ds : DataStore} {rank : NodeID → Nat} {tree : Tree}

structure Base where
  parentId : NodeID
  nodeName : NameID
  allValues : List ProfileValue
  childrenValues : List ProfileValue
  callCount : LongLong
  deriving DecidableEq, Repr

def baseOf (n : RecordNode) : Base := ⟨n.parentId, n.nodeName, n.allValues, n.childrenValues, n.callCount⟩

def recordAt (batch : List MethodNodeSerializedInfo) (k : NodeID) : Option MethodNodeSerializedInfo :=
  batch.find? (fun r => r.callNodeId = k)

def freshBase (gl : Settings) (ds : DataStore) (r : MethodNodeSerializedInfo) : Base :=
  ⟨r.parentNodeId, r.nameid, freshValues gl ds, freshValues gl ds, 0⟩

def baseAt (gl : Settings) (ds : DataStore) (tree : Tree)
    (batch : List MethodNodeSerializedInfo) (k : NodeID) : Option Base :=
  match tree[k]? with
  | some n => some (baseOf n)
  | none => (recordAt batch k).map (freshBase gl ds)

def startTemp (gl : Settings) (ds : DataStore) (batch : List MethodNodeSerializedInfo)
    (all : List ProfileValue) (k : NodeID) (i : Nat) : ProfileValue :=
  match recordAt batch k with
  | some r => value r.profileValue i
  | none => if isStatic ds i && !gl.singleTreeMode then value all i else 0

def startCalls (batch : List MethodNodeSerializedInfo) (k : NodeID) : LongLong :=
  match recordAt batch k with
  | some r => (r.callCount : LongLong)
  | none => 0

def Seed (tree : Tree) (batch : List MethodNodeSerializedInfo) (running x : NodeID) : Prop :=
  (∃ r ∈ batch, r.callNodeId = x) ∨ x = running ∧ ∃ n, tree[x]? = some n

structure Wf (gl : Settings) (ds : DataStore) (rank : NodeID → Nat) (tree : Tree) : Prop where
  rooted : Rooted tree rank
  sized : ∀ (k : NodeID) (n : RecordNode), tree[k]? = some n →
    Sized ds n.allValues ∧ Sized ds n.childrenValues ∧ n.tempValues.length = ds.numRecords ∧
    (gl.singleTreeMode = false → n.allValues.length = ds.numRecords ∧ n.childrenValues.length = ds.numRecords)
  upward : ∀ c p, parentOf tree c = some p → dirtyAt tree c = true → p ≠ 0 → dirtyAt tree p = true
  rootGnid : ∀ n, tree[(1 : NodeID)]? = some n → n.gnid ≠ 0

/-- The tree in the loop over the records, of which `batch` have been processed. -/
structure Received (gl : Settings) (ds : DataStore) (tree : Tree) (running : NodeID)
    (batch : List MethodNodeSerializedInfo) (rank : NodeID → Nat) (tree' : Tree) : Prop where
  wf : Wf gl ds rank tree'
  base : ∀ k : NodeID, (tree'[k]?).map baseOf = baseAt gl ds tree batch k
  temps : ∀ (k : NodeID) (n : RecordNode), tree'[k]? = some n → n.dirty = true →
    n.tempValues = slots ds.numRecords (startTemp gl ds batch n.allValues k) ∧
      n.tempCallCount = startCalls batch k
  dirty : ∀ k, dirtyAt tree' k = true ↔
    (∃ n, tree'[k]? = some n) ∧ ∃ x, Seed tree batch running x ∧ Below (parentOf tree') k x

theorem Marks.base {S : NodeID → Prop} {tree' : Tree} (h : Marks gl ds S tree tree') (k : NodeID) :
    (tree'[k]?).map baseOf = (tree[k]?).map baseOf := by
  by_cases hS : S k ∧ dirtyAt tree k = false
  · rw [(h k).1 hS.1 hS.2, Option.map_map]
    rfl
  · rw [(h k).2 hS]

theorem SameCore.base {tree' : Tree} (h : SameCore tree tree') (k : NodeID) :
    (tree'[k]?).map baseOf = (tree[k]?).map baseOf := by
  have := congrArg (Option.map baseOf) (h k)
  rwa [Option.map_map, Option.map_map] at this

theorem Marks.dirty_cases {S : NodeID → Prop} {tree' : Tree} (h : Marks gl ds S tree tree') {k : NodeID}
    {n : RecordNode} (hk : tree'[k]? = some n) (hd : n.dirty = true) :
    (tree[k]? = some n) ∨ (dirtyAt tree k = false ∧ ∃ m, tree[k]? = some m ∧ n = markedNode gl ds m) := by
  by_cases hS : S k ∧ dirtyAt tree k = false
  · rw [(h k).1 hS.1 hS.2, Option.map_eq_some_iff] at hk
    obtain ⟨m, hm, rfl⟩ := hk
    exact Or.inr ⟨hS.2, m, hm, rfl⟩
  · rw [(h k).2 hS] at hk
    exact Or.inl hk

theorem Wf.marks (hw : Wf gl ds rank tree) {id : NodeID} {tree' : Tree}
    (h : Marks gl ds (fun k => Below (parentOf tree) k id) tree tree') : Wf gl ds rank tree' := by
  have hpar : parentOf tree' = parentOf tree := funext h.places.parentOf
  refine ⟨hw.rooted.congr h.places, ?_, ?_, ?_⟩
  · intro k n hk
    by_cases hS : Below (parentOf tree) k id ∧ dirtyAt tree k = false
    · rw [(h k).1 hS.1 hS.2, Option.map_eq_some_iff] at hk
      obtain ⟨m, hm, rfl⟩ := hk
      obtain ⟨h1, h2, -, h4⟩ := hw.sized k m hm
      exact ⟨h1, h2, length_slots _ _, h4⟩
    · rw [(h k).2 hS] at hk
      exact hw.sized k n hk
  · intro c p hc hdc hp0
    rw [hpar] at hc
    obtain rfl | ⟨m, hm⟩ := hw.rooted.parent_known hc
    · exact absurd rfl hp0
    · rw [h.dirtyAt] at hdc ⊢
      obtain hdc | ⟨hb, -⟩ := hdc
      · exact Or.inl (hw.upward c p hc hdc hp0)
      · exact Or.inr ⟨hb.child hc, m, hm⟩
  · intro n hn
    obtain ⟨r, hr, -⟩ := hw.rooted.root
    obtain ⟨n', hn', hg⟩ := h.gnids 1 r hr (hw.rootGnid r hr)
    rw [hn, Option.some.injEq] at hn'
    rw [hn', hg]
    exact hw.rootGnid r hr

theorem Wf.markable (hw : Wf gl ds rank tree) (id : NodeID) : Markable gl ds rank tree id :=
  ⟨hw.rooted.ranked, hw.rooted.zero, fun k m hm =>
    ⟨(hw.sized k m hm).2.2.1, fun h => ((hw.sized k m hm).2.2.2 h).1⟩, fun c p _ => hw.upward c p⟩

theorem mark_marks (hd : Described ds) (hoff : gl.leafNodeAccumulate = false) (ts : ThreadStore)
    (hw : Wf gl ds rank ts.currentTree) (id : NodeID) :
    ∃ tree', mark gl ds ts id = .ok { ts with currentTree := tree' } ∧
      Marks gl ds (fun k => Below (parentOf ts.currentTree) k id) ts.currentTree tree' := by
  cases hn : ts.currentTree[id]? with
  | none =>
      refine ⟨ts.currentTree, ?_, fun k => ⟨fun hb _ => ?_, fun _ => rfl⟩⟩
      · rw [mark, markNodeDirty, ThreadStore.getNodeFromID, hn]
      · obtain rfl | ⟨p, hp, -⟩ := below_iff_parent.mp hb
        · rw [hn, Option.map_none]
        · rw [parentOf, hn] at hp
          cases hp
  | some n =>
      have := hw.rooted.bound id n hn
      exact markNodeDirty_marks hd _ ts id (fun _ _ => by rw [hoff, Bool.false_and])
        (hw.markable id) (by omega)

theorem Wf.core (hw : Wf gl ds rank tree) {tree' : Tree} (h : SameCore tree tree')
    (hg : KeepsGnid tree tree') : Wf gl ds rank tree' := by
  refine ⟨hw.rooted.congr h.places, ?_, ?_, ?_⟩
  · intro k n hk
    obtain ⟨m, hm, he⟩ := h.find hk
    have h1 := congrArg (fun n : RecordNode => n.allValues) he
    have h2 := congrArg (fun n : RecordNode => n.childrenValues) he
    have h3 := congrArg (fun n : RecordNode => n.tempValues) he
    have := hw.sized k m hm
    dsimp only [Marking.core] at h1 h2 h3
    rwa [h1, h2, h3]
  · intro c p hc hdc hp0
    rw [h.places.parentOf] at hc
    rw [h.dirtyAt] at hdc ⊢
    exact hw.upward c p hc hdc hp0
  · intro n hn
    obtain ⟨r, hr, -⟩ := hw.rooted.root
    obtain ⟨n', hn', hgn⟩ := hg 1 r hr (hw.rootGnid r hr)
    rw [hn, Option.some.injEq] at hn'
    rw [hn', hgn]
    exact hw.rootGnid r hr

theorem recordAt_append (batch : List MethodNodeSerializedInfo) (r : MethodNodeSerializedInfo) (k : NodeID) :
    recordAt (batch ++ [r]) k = (recordAt batch k).or (if r.callNodeId = k then some r else none) := by
  rw [recordAt, List.find?_append, recordAt]
  congr 1
  by_cases h : r.callNodeId = k <;> simp [h]

theorem recordAt_none {batch : List MethodNodeSerializedInfo} {k : NodeID} :
    recordAt batch k = none ↔ ∀ r ∈ batch, r.callNodeId ≠ k := by
  simp [recordAt]

theorem setRunning_rooted (ts : ThreadStore) (hr : Rooted ts.currentTree rank)
    (id : NodeID) (running : Bool) :
    ∃ tree', setRunning running (ts.currentTree.size + 1) ts id = .ok { ts with currentTree := tree' } ∧
      SameCore ts.currentTree tree' ∧ KeepsGnid ts.currentTree tree' := by
  cases hn : ts.currentTree[id]? with
  | none =>
      refine ⟨ts.currentTree, ?_, SameCore.refl _, KeepsGnid.refl _⟩
      rw [setRunning, ThreadStore.getNodeFromID]
      simp only [hn]
  | some n =>
      have := hr.bound id n hn
      exact setRunning_core running _ ts id hr.ranked (by omega)

theorem received_start (hd : Described ds) (hoff : gl.leafNodeAccumulate = false) (ts : ThreadStore)
    (hw : Wf gl ds rank ts.currentTree) (hclean : ∀ k, dirtyAt ts.currentTree k = false) (now : NowInfo) :
    ∃ tree₁ tree', unmarkRunningNodes ts = .ok { ts with currentTree := tree₁ } ∧
      markRunningNodes gl ds (updateNowValues ds { ts with currentTree := tree₁ } now) =
        .ok { updateNowValues ds ts now with currentTree := tree' } ∧
      Received gl ds ts.currentTree now.runningNode [] rank tree' := by
  obtain ⟨tree₁, h₁, hs₁, hg₁⟩ := setRunning_rooted ts hw.rooted ts.runningNode false
  have hw₁ := hw.core hs₁ hg₁
  obtain ⟨tree₂, h₂, hmarks⟩ :=
    mark_marks hd hoff (updateNowValues ds { ts with currentTree := tree₁ } now) hw₁ now.runningNode
  have hm : Marks gl ds (fun k => Below (parentOf tree₁) k now.runningNode) tree₁ tree₂ := hmarks
  have hw₂ := hw₁.marks hm
  obtain ⟨tree₃, h₃, hs₃, hg₃⟩ :=
    setRunning_rooted { updateNowValues ds ts now with currentTree := tree₂ } hw₂.rooted now.runningNode true
  have hclean₁ (k : NodeID) : dirtyAt tree₁ k = false := by rw [hs₁.dirtyAt, hclean]
  have hpar : parentOf tree₃ = parentOf tree₁ := by
    funext k
    rw [hs₃.places.parentOf, hm.places.parentOf]
  refine ⟨tree₁, tree₃, h₁, ?_, hw₂.core hs₃ hg₃, ?_, ?_, ?_⟩
  · rw [markRunningNodes, show (updateNowValues ds { ts with currentTree := tree₁ } now).runningNode =
      now.runningNode from rfl, h₂, ok_bind]
    exact h₃
  · intro k
    rw [SameCore.base hs₃ k, Marks.base hm k, SameCore.base hs₁ k, baseAt]
    cases ts.currentTree[k]? <;> rfl
  · intro k n hk hdn
    obtain ⟨m, hmk, he⟩ := hs₃.find hk
    have hall := congrArg (fun n : RecordNode => n.allValues) he
    have htemp := congrArg (fun n : RecordNode => n.tempValues) he
    have hcalls := congrArg (fun n : RecordNode => n.tempCallCount) he
    have hdm := congrArg (fun n : RecordNode => n.dirty) he
    dsimp only [Marking.core] at hall htemp hcalls hdm
    rw [hall, htemp, hcalls]
    obtain hold | ⟨-, m₁, -, rfl⟩ := Marks.dirty_cases hm hmk (hdm ▸ hdn)
    · have := (dirtyAt_eq hold).symm.trans (hclean₁ k)
      rw [← hdm, hdn] at this
      cases this
    · exact ⟨rfl, rfl⟩
  · intro k
    rw [hs₃.dirtyAt, hm.dirtyAt, hpar, hclean₁]
    have hsome : (∃ n, tree₃[k]? = some n) ↔ ∃ n, tree₁[k]? = some n := by
      rw [← Option.isSome_iff_exists, ← Option.isSome_iff_exists, ← Option.isSome_map (f := place),
        (hm.places.trans hs₃.places) k, Option.isSome_map]
    have hknown : (∃ n, ts.currentTree[now.runningNode]? = some n) ↔
        ∃ n, tree₁[now.runningNode]? = some n := by
      rw [← Option.isSome_iff_exists, ← Option.isSome_iff_exists, ← Option.isSome_map (f := place),
        ← hs₁.places now.runningNode, Option.isSome_map]
    rw [hsome]
    constructor
    · rintro (hf | ⟨hb, hk⟩)
      · cases hf
      · refine ⟨hk, now.runningNode, Or.inr ⟨rfl, hknown.mpr ?_⟩, hb⟩
        obtain rfl | ⟨p, hp, -⟩ := below_iff_parent.mp hb
        · exact hk
        · obtain ⟨m, hm', -⟩ := parentOf_eq_some.mp hp
          exact ⟨m, hm'⟩
    · rintro ⟨hk, x, ⟨r, hr, -⟩ | ⟨rfl, -⟩, hb⟩
      · cases hr
      · exact Or.inr ⟨hb, hk⟩

theorem sized_fresh (gl : Settings) (ds : DataStore) :
    Sized ds (freshValues gl ds) ∧ Sized ds (freshValues gl ds) ∧
      (slots ds.numRecords (fun _ => (0 : ProfileValue))).length = ds.numRecords ∧
      (gl.singleTreeMode = false →
        (freshValues gl ds).length = ds.numRecords ∧ (freshValues gl ds).length = ds.numRecords) := by
  have hs : Sized ds (freshValues gl ds) := by
    rw [freshValues]
    split
    · exact Or.inl rfl
    · exact sized_slots _
  have hl (h : gl.singleTreeMode = false) : (freshValues gl ds).length = ds.numRecords := by
    rw [freshValues, h, if_neg Bool.false_ne_true, length_slots]
  exact ⟨hs, hs, length_slots _ _, fun h => ⟨hl h, hl h⟩⟩

theorem Received.known {tree' : Tree} {running : NodeID} {batch : List MethodNodeSerializedInfo}
    (h : Received gl ds tree running batch rank tree') (k : NodeID) :
    (∃ n, tree'[k]? = some n) ↔ (∃ n, tree[k]? = some n) ∨ ∃ r ∈ batch, r.callNodeId = k := by
  have hb := congrArg Option.isSome (h.base k)
  rw [Option.isSome_map] at hb
  rw [← Option.isSome_iff_exists, hb, baseAt]
  cases hk : tree[k]? with
  | some n => simp
  | none => simp [recordAt]

theorem Grown.rootGnid {tree' : Tree} {c p : NodeID} {x : NameID}
    (hg : Grown gl ds tree c p x tree') (hr : Rooted tree rank)
    (h : ∀ n, tree[(1 : NodeID)]? = some n → n.gnid ≠ 0) (n : RecordNode)
    (hn : tree'[(1 : NodeID)]? = some n) :
    n.gnid ≠ 0 := by
  obtain ⟨m, hm, -⟩ := hr.root
  obtain ⟨n', hn', hgn⟩ := hg.gnids 1 m hm (h m hm)
  rw [hn, Option.some.injEq] at hn'
  rw [hn', hgn]
  exact h m hm

theorem Grown.vectors {tree' : Tree} {c p : NodeID} {x : NameID} (hg : Grown gl ds tree c p x tree')
    {P : List ProfileValue → List ProfileValue → List ProfileValue → Prop}
    (hnew : P (freshValues gl ds) (freshValues gl ds) (slots ds.numRecords (fun _ => 0)))
    (h : ∀ (k : NodeID) (n : RecordNode), tree[k]? = some n → P n.allValues n.childrenValues n.tempValues)
    (k : NodeID) (n : RecordNode) (hk : tree'[k]? = some n) :
    P n.allValues n.childrenValues n.tempValues := by
  by_cases hkc : k = c
  · obtain ⟨n', hn', he⟩ := hg.find_new
    rw [hkc, hn', Option.some.injEq] at hk
    subst hk
    have hall := congrArg (fun n : RecordNode => n.allValues) he
    have hchildren := congrArg (fun n : RecordNode => n.childrenValues) he
    have htemp := congrArg (fun n : RecordNode => n.tempValues) he
    dsimp only [payload, freshNode] at hall hchildren htemp
    rw [hall, hchildren, htemp]
    exact hnew
  · obtain ⟨m, hm, he⟩ := hg.find hk hkc
    have hall := congrArg (fun n : RecordNode => n.allValues) he
    have hchildren := congrArg (fun n : RecordNode => n.childrenValues) he
    have htemp := congrArg (fun n : RecordNode => n.tempValues) he
    dsimp only [payload] at hall hchildren htemp
    rw [hall, hchildren, htemp]
    exact h k m hm

theorem Wf.grown (h : Wf gl ds rank tree) {tree' : Tree} {c p : NodeID} {x : NameID}
    (hg : Grown gl ds tree c p x tree') (hc0 : c ≠ 0) (hc : tree[c]? = none) {pn : RecordNode}
    (hp : tree[p]? = some pn) : Wf gl ds (fun k => if k = c then rank p + 1 else rank k) tree' := by
  refine ⟨hg.rooted h.rooted hc0 hc hp, ?_, ?_, Grown.rootGnid hg h.rooted h.rootGnid⟩
  · exact Grown.vectors hg (P := fun all children temps => Sized ds all ∧ Sized ds children ∧
      temps.length = ds.numRecords ∧
      (gl.singleTreeMode = false → all.length = ds.numRecords ∧ children.length = ds.numRecords))
        (sized_fresh gl ds) h.sized
  · intro d q hd hdd hq0
    rw [hg.dirtyAt hc] at hdd ⊢
    rw [hg.parentOf d] at hd
    have hdc : d ≠ c := by
      rintro rfl
      rw [dirtyAt, hc] at hdd
      cases hdd
    rw [if_neg hdc] at hd
    exact h.upward d q hd hdd hq0

theorem dirtyAt_insert {k : NodeID} {n : RecordNode} (hn : tree[k]? = some n) {n' : RecordNode}
    (hd : n.dirty = n'.dirty) (j : NodeID) : dirtyAt (tree.insert k n') j = dirtyAt tree j := by
  rw [dirtyAt, getElem?_insert, dirtyAt]
  split
  next hj => rw [hj, hn, Option.any_some, Option.any_some, ← hd]
  next => rfl

theorem Wf.withTemps (h : Wf gl ds rank tree) {k : NodeID} {n : RecordNode} (hn : tree[k]? = some n)
    {values : List ProfileValue} (hv : values.length = ds.numRecords) (calls : Nat) :
    Wf gl ds rank (tree.insert k { n with tempValues := values, tempCallCount := calls }) := by
  have hpl : SamePlaces tree (tree.insert k { n with tempValues := values, tempCallCount := calls }) :=
    SamePlaces.insert hn rfl
  refine ⟨h.rooted.congr hpl, ?_, ?_, ?_⟩
  · intro j m hm
    rw [getElem?_insert] at hm
    split at hm
    · cases hm
      obtain ⟨h1, h2, -, h4⟩ := h.sized _ n hn
      exact ⟨h1, h2, hv, h4⟩
    · exact h.sized j m hm
  · intro c p hc hdc hp0
    rw [dirtyAt_insert hn (by rfl)] at hdc ⊢
    exact h.upward c p (hpl.parentOf c ▸ hc) hdc hp0
  · intro m hm
    rw [getElem?_insert] at hm
    split at hm
    next h1 =>
      cases hm
      exact h.rootGnid n (h1 ▸ hn)
    next => exact h.rootGnid m hm

/-- What `locate` leaves for the rest of the loop body: the tree knows the node
of the record, and otherwise nothing has changed. -/
structure Located (gl : Settings) (ds : DataStore) (tree : Tree) (running : NodeID)
    (batch : List MethodNodeSerializedInfo) (r : MethodNodeSerializedInfo)
    (rank : NodeID → Nat) (tree' : Tree) :
    Prop where
  wf : Wf gl ds rank tree'
  here : ∃ n, tree'[r.callNodeId]? = some n
  base : ∀ k : NodeID, (tree'[k]?).map baseOf = baseAt gl ds tree (batch ++ [r]) k
  temps : ∀ (k : NodeID) (n : RecordNode), tree'[k]? = some n → n.dirty = true →
    n.tempValues = slots ds.numRecords (startTemp gl ds batch n.allValues k) ∧
      n.tempCallCount = startCalls batch k
  dirty : ∀ k, dirtyAt tree' k = true ↔
    (∃ n, tree'[k]? = some n) ∧ ∃ x, Seed tree batch running x ∧ Below (parentOf tree') k x

/-- A record fits a tree and the records before it. -/
structure Fits (ds : DataStore) (tree : Tree) (batch : List MethodNodeSerializedInfo)
    (r : MethodNodeSerializedInfo) : Prop where
  fresh : ∀ q ∈ batch, q.callNodeId ≠ r.callNodeId
  nonzero : r.callNodeId ≠ 0
  parent : (∃ n, tree[r.parentNodeId]? = some n) ∨ ∃ q ∈ batch, q.callNodeId = r.parentNodeId
  values : r.profileValue.length = ds.numRecords

theorem locate_located (hoff : gl.leafNodeAccumulate = false) (ts : ThreadStore) {running : NodeID}
    {batch : List MethodNodeSerializedInfo} {r : MethodNodeSerializedInfo}
    (h : Received gl ds tree running batch rank ts.currentTree) (hr : Fits ds tree batch r) :
    ∃ tree' rank', locate gl ds ts r = .ok ({ ts with currentTree := tree' }, r.callNodeId) ∧
      Located gl ds tree running batch r rank' tree' := by
  have hrecord (k : NodeID) : baseAt gl ds tree (batch ++ [r]) k = if k = r.callNodeId ∧ tree[k]? = none then
      some (freshBase gl ds r) else baseAt gl ds tree batch k := by
    rw [baseAt, baseAt, recordAt_append]
    cases hk : tree[k]? with
    | some n => simp
    | none =>
        by_cases hkr : k = r.callNodeId
        · have hnone : recordAt batch k = none := by
            rw [recordAt_none, hkr]
            exact hr.fresh
          subst hkr
          simp [hnone]
        · simp [hkr, Ne.symm hkr]
  rw [locate]
  simp only [hoff, Bool.false_eq_true, if_false, ThreadStore.getNodeFromID]
  cases hc : ts.currentTree[r.callNodeId]? with
  | some n =>
      refine ⟨ts.currentTree, rank, rfl, h.wf, ⟨n, hc⟩, fun k => ?_, h.temps, h.dirty⟩
      rw [h.base, hrecord, if_neg]
      rintro ⟨rfl, hnone⟩
      obtain ⟨m, hm⟩ | ⟨q, hq, he⟩ := (h.known r.callNodeId).mp ⟨n, hc⟩
      · rw [hnone] at hm
        cases hm
      · exact hr.fresh q hq he
  | none =>
      obtain ⟨pn, hpn⟩ := (h.known r.parentNodeId).mpr hr.parent
      obtain ⟨tree', hadd, hgrown⟩ := addRecordNode_grows gl ds ts hr.nonzero r h.wf.rooted
        h.wf.rootGnid hc ⟨pn, hpn⟩
      rw [attrNoted, hoff, Bool.false_and, if_neg Bool.false_ne_true] at hadd
      have hnc {k : NodeID} {n : RecordNode} (hk : ts.currentTree[k]? = some n) : k ≠ r.callNodeId := by
        rintro rfl
        rw [hc] at hk
        cases hk
      have hnone : tree[r.callNodeId]? = none := by
        rw [Option.eq_none_iff_forall_ne_some]
        intro n hn
        obtain ⟨m, hm⟩ := (h.known r.callNodeId).mpr (Or.inl ⟨n, hn⟩)
        exact hnc hm rfl
      refine ⟨tree', _, by simp only [hadd, ok_bind, pure_eq_ok], h.wf.grown hgrown hr.nonzero hc hpn, ?_, ?_, ?_, ?_⟩
      · obtain ⟨n, hn, -⟩ := hgrown.find_new
        exact ⟨n, hn⟩
      · intro k
        have hpay := congrArg (Option.map baseOf) (hgrown.payload k)
        rw [Option.map_map] at hpay
        refine Eq.trans hpay ?_
        rw [hrecord]
        by_cases hkc : k = r.callNodeId
        · rw [if_pos hkc, if_pos ⟨hkc, hkc ▸ hnone⟩]
          rfl
        · rw [if_neg hkc, if_neg (fun he => hkc he.1), Option.map_map, ← h.base k]
          rfl
      · intro k n hk hdn
        have hdk : dirtyAt ts.currentTree k = true := by rw [← hgrown.dirtyAt hc, dirtyAt_eq hk, hdn]
        have hkc : k ≠ r.callNodeId := by
          rintro rfl
          rw [dirtyAt, hc] at hdk
          cases hdk
        obtain ⟨m, hm, he⟩ := hgrown.find hk hkc
        have hall := congrArg (fun n : RecordNode => n.allValues) he
        have htemp := congrArg (fun n : RecordNode => n.tempValues) he
        have hcalls := congrArg (fun n : RecordNode => n.tempCallCount) he
        dsimp only [payload] at hall htemp hcalls
        rw [hall, htemp, hcalls]
        exact h.temps k m hm ((dirtyAt_eq hm).symm.trans hdk)
      · intro k
        have hseed (x : NodeID) (hx : Seed tree batch running x) : x ≠ r.callNodeId := by
          obtain ⟨q, hq, rfl⟩ | ⟨rfl, hx⟩ := hx
          · exact hr.fresh q hq
          · obtain ⟨m, hm⟩ := (h.known x).mpr (Or.inl hx)
            exact hnc hm
        rw [hgrown.dirtyAt hc, h.dirty k]
        constructor
        · rintro ⟨⟨n, hn⟩, x, hx, hb⟩
          have hk' := hgrown.payload k
          rw [if_neg (hnc hn), hn, Option.map_some, Option.map_eq_some_iff] at hk'
          obtain ⟨n', hn', -⟩ := hk'
          exact ⟨⟨n', hn'⟩, x, hx, (hgrown.below h.wf.rooted hr.nonzero hc (hseed x hx)).mpr hb⟩
        · rintro ⟨⟨n', hn'⟩, x, hx, hb⟩
          rw [hgrown.below h.wf.rooted hr.nonzero hc (hseed x hx)] at hb
          have hkc : k ≠ r.callNodeId := by
            obtain rfl | ⟨q, hq, -⟩ := below_iff_child.mp hb
            · exact hseed x hx
            · exact parent_ne_new h.wf.rooted hr.nonzero hc hq
          obtain ⟨n, hn, -⟩ := hgrown.find hn' hkc
          exact ⟨⟨n, hn⟩, x, hx, hb⟩

theorem startTemp_append (gl : Settings) (ds : DataStore) {batch : List MethodNodeSerializedInfo}
    {r : MethodNodeSerializedInfo} (hfresh : ∀ q ∈ batch, q.callNodeId ≠ r.callNodeId)
    (all : List ProfileValue) (k : NodeID) :
    startTemp gl ds (batch ++ [r]) all k =
        (if k = r.callNodeId then value r.profileValue else startTemp gl ds batch all k) ∧
      startCalls (batch ++ [r]) k = if k =
        r.callNodeId then (r.callCount : LongLong) else startCalls batch k := by
  unfold startTemp startCalls
  rw [recordAt_append]
  by_cases hk : k = r.callNodeId
  · have hnone : recordAt batch k = none := by
      rw [recordAt_none, hk]
      exact hfresh
    simp [hk.symm, hnone]
  · simp [hk, Ne.symm hk]

theorem storeRecord_received (hd : Described ds) (hoff : gl.leafNodeAccumulate = false) (ts : ThreadStore)
    {running : NodeID} {batch : List MethodNodeSerializedInfo} {r : MethodNodeSerializedInfo}
    (h : Received gl ds tree running batch rank ts.currentTree) (hr : Fits ds tree batch r) :
    ∃ tree' rank', storeRecord gl ds ts r = .ok { ts with currentTree := tree' } ∧
      Received gl ds tree running (batch ++ [r]) rank' tree' := by
  obtain ⟨tree₁, rank', hloc, hl⟩ := locate_located hoff ts h hr
  obtain ⟨n₁, hn₁⟩ := hl.here
  obtain ⟨tree₂, hmark, hmarks⟩ := mark_marks hd hoff { ts with currentTree := tree₁ } hl.wf r.callNodeId
  have hm : Marks gl ds (fun k => Below (parentOf tree₁) k r.callNodeId) tree₁ tree₂ := hmarks
  have hw₂ := hl.wf.marks hm
  obtain ⟨n₂, hn₂, -⟩ := hm.places.find hn₁
  let n₃ : RecordNode := { n₂ with tempValues := r.profileValue, tempCallCount := r.callCount }
  have hlen := (hw₂.sized _ n₂ hn₂).2.2.1
  have hset : n₂.setTempValues (r.profileValue.take ds.numRecords) r.callCount = .ok n₃ := by
    rw [RecordNode.setTempValues, ← hr.values, List.take_length,
      require_of (by rw [hlen, hr.values]), ok_bind, pure_eq_ok]
  have hd₂ (k : NodeID) : dirtyAt (tree₂.insert r.callNodeId n₃) k = dirtyAt tree₂ k :=
    dirtyAt_insert hn₂ (by rfl) k
  have hpl : SamePlaces tree₂ (tree₂.insert r.callNodeId n₃) := SamePlaces.insert hn₂ rfl
  have hpar : parentOf (tree₂.insert r.callNodeId n₃) = parentOf tree₁ := by
    funext k
    rw [hpl.parentOf, hm.places.parentOf]
  refine ⟨tree₂.insert r.callNodeId n₃, rank', ?_, hw₂.withTemps hn₂ hr.values r.callCount, ?_, ?_, ?_⟩
  · rw [storeRecord, hloc]
    simp only [ok_bind]
    rw [require_of (contains_iff_some.mpr ⟨n₁, hn₁⟩), ok_bind, require_of hr.values.symm.le,
      ok_bind, hmark, ok_bind]
    simp only [ThreadStore.getNodeFromID, hn₂, hset, ok_bind, pure_eq_ok]
    rfl
  · intro k
    rw [← hl.base k, ← Marks.base hm k, getElem?_insert]
    split
    next hk => rw [hk, hn₂]; rfl
    next => rfl
  · intro k n hk hdn
    obtain ⟨htemp, hcalls⟩ := startTemp_append gl ds hr.fresh n.allValues k
    rw [htemp, hcalls]
    rw [getElem?_insert] at hk
    by_cases hkc : k = r.callNodeId
    · rw [if_pos hkc, Option.some.injEq] at hk
      rw [if_pos hkc, if_pos hkc, ← hk]
      exact ⟨(slots_value hr.values).symm, rfl⟩
    · rw [if_neg hkc] at hk
      rw [if_neg hkc, if_neg hkc]
      obtain hold | ⟨hclean, m, hmk, rfl⟩ := Marks.dirty_cases hm hk hdn
      · exact hl.temps k n hold hdn
      · have hnone : recordAt batch k = none := by
          rw [recordAt_none]
          intro q hq he
          have : dirtyAt tree₁ k = true :=
            (hl.dirty k).mpr ⟨⟨m, hmk⟩, k, Or.inl ⟨q, hq, he⟩, Below.refl k⟩
          rw [hclean] at this
          cases this
        unfold startTemp startCalls
        rw [hnone]
        exact ⟨rfl, rfl⟩
  · intro k
    have hsome : (∃ n, (tree₂.insert r.callNodeId n₃)[k]? = some n) ↔ ∃ n, tree₁[k]? = some n := by
      rw [← Option.isSome_iff_exists, ← Option.isSome_iff_exists, ← Option.isSome_map (f := place),
        (hm.places.trans hpl) k, Option.isSome_map]
    rw [hd₂, hm.dirtyAt, hl.dirty k, hsome, hpar]
    constructor
    · rintro (⟨hk, x, hx, hb⟩ | ⟨hb, hk⟩)
      · refine ⟨hk, x, ?_, hb⟩
        obtain ⟨q, hq, he⟩ | hx := hx
        · exact Or.inl ⟨q, List.mem_append_left _ hq, he⟩
        · exact Or.inr hx
      · exact ⟨hk, r.callNodeId, Or.inl ⟨r, by simp, rfl⟩, hb⟩
    · rintro ⟨hk, x, ⟨q, hq, he⟩ | hx, hb⟩
      · obtain hq | hq := List.mem_append.mp hq
        · exact Or.inl ⟨hk, x, Or.inl ⟨q, hq, he⟩, hb⟩
        · rw [List.mem_singleton.mp hq] at he
          exact Or.inr ⟨he ▸ hb, hk⟩
      · exact Or.inl ⟨hk, x, Or.inr hx, hb⟩

/-- A well-formed batch: each node at most once, with one value for each slot,
and each record's parent known or earlier in the batch. Node 0 is no node. -/
structure WellFormed (ds : DataStore) (tree : Tree) (batch : List MethodNodeSerializedInfo) (now : NowInfo) :
    Prop where
  ids : (batch.map (fun r => r.callNodeId)).Nodup
  nonzero : ∀ r ∈ batch, r.callNodeId ≠ 0
  parents : ∀ done r rest, batch = done ++ r :: rest →
    (∃ n, tree[r.parentNodeId]? = some n) ∨ ∃ q ∈ done, q.callNodeId = r.parentNodeId
  values : ∀ r ∈ batch, r.profileValue.length = ds.numRecords
  nowValues : ds.numRecords ≤ now.values.length

theorem WellFormed.fits {batch : List MethodNodeSerializedInfo} {now : NowInfo}
    (h : WellFormed ds tree batch now) {done rest : List MethodNodeSerializedInfo}
    {r : MethodNodeSerializedInfo} (he : batch = done ++ r :: rest) : Fits ds tree done r := by
  have hmem : r ∈ batch := by rw [he]; simp
  refine ⟨fun q hq => ?_, h.nonzero r hmem, h.parents done r rest he, h.values r hmem⟩
  have hn := h.ids
  rw [he, List.map_append, List.map_cons] at hn
  exact (List.nodup_append.mp hn).2.2 _ (List.mem_map_of_mem hq) _ List.mem_cons_self

theorem receive_received (hd : Described ds) (hoff : gl.leafNodeAccumulate = false) (ts : ThreadStore)
    (hw : Wf gl ds rank ts.currentTree) (hclean : ∀ k, dirtyAt ts.currentTree k = false)
    {batch : List MethodNodeSerializedInfo} {now : NowInfo} (hb : WellFormed ds ts.currentTree batch now) :
    ∃ tree' rank', receive gl ds ts batch now = .ok { updateNowValues ds ts now with currentTree := tree' } ∧
      Received gl ds ts.currentTree now.runningNode batch rank' tree' := by
  obtain ⟨tree₁, tree₂, h₁, h₂, hstart⟩ := received_start hd hoff ts hw hclean now
  obtain ⟨ts', hrun, tree', rank', rfl, hr⟩ := foldlM_total (f := storeRecord gl ds)
    (fun done ts' => ∃ tree' rank', ts' = { updateNowValues ds ts now with currentTree := tree' } ∧
      Received gl ds ts.currentTree now.runningNode done rank' tree') batch
    (by
      rintro done r rest _ he ⟨tree', rank', rfl, hr⟩
      obtain ⟨tree'', rank'', hrun, hr'⟩ := storeRecord_received hd hoff
        { updateNowValues ds ts now with currentTree := tree' } hr (hb.fits he)
      exact ⟨_, hrun, tree'', rank'', rfl, hr'⟩)
    ⟨tree₂, rank, rfl, hstart⟩
  refine ⟨tree', rank', ?_, hr⟩
  rw [receive, h₁, ok_bind, require_of hb.nowValues, ok_bind, h₂, ok_bind, hrun]

end Llprof.Monitor.Receive
