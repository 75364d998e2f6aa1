import Llprof.Monitor.FlushSpec

namespace Llprof.Monitor.Marking

open Faulting hiding store
open ParentTree TreeMaps Slots Nodes Store SlotLoops TreeShape FlushSpec

def core (n : RecordNode) : RecordNode := { n with running := false, gnid := 0 }

def SameCore (tree tree' : Tree) : Prop := ∀ k : NodeID, (tree'[k]?).map core = (tree[k]?).map core

theorem SameCore.refl (tree : Tree) : SameCore tree tree := fun _ => rfl

theorem SameCore.trans {t₁ t₂ t₃ : Tree} (h : SameCore t₁ t₂) (h' : SameCore t₂ t₃) : SameCore t₁ t₃ :=
  fun k => (h' k).trans (h k)

theorem SameCore.symm {t₁ t₂ : Tree} (h : SameCore t₁ t₂) : SameCore t₂ t₁ := fun k => (h k).symm

theorem SameCore.places {t₁ t₂ : Tree} (h : SameCore t₁ t₂) : SamePlaces t₁ t₂ := by
  intro k
  have := congrArg (Option.map place) (h k)
  rwa [Option.map_map, Option.map_map] at this

theorem SameCore.find {t₁ t₂ : Tree} (h : SameCore t₁ t₂) {k : NodeID} {n : RecordNode}
    (hk : t₂[k]? = some n) : ∃ m, t₁[k]? = some m ∧ core n = core m := by
  have := h k
  rw [hk, Option.map_some, eq_comm, Option.map_eq_some_iff] at this
  obtain ⟨m, hm, he⟩ := this
  exact ⟨m, hm, he.symm⟩

theorem SameCore.insert {tree : Tree} {k : NodeID} {n n' : RecordNode} (h : tree[k]? = some n)
    (hc : core n' = core n) : SameCore tree (tree.insert k n') := by
  intro j
  rw [getElem?_insert]
  split
  next hj => rw [hj, h, Option.map_some, Option.map_some, hc]
  next => rfl

theorem SameCore.dirtyAt {t₁ t₂ : Tree} (h : SameCore t₁ t₂) (k : NodeID) : dirtyAt t₂ k = dirtyAt t₁ k := by
  have := congrArg (Option.any (fun n => n.dirty)) (h k)
  rwa [Option.any_map, Option.any_map] at this

def KeepsGnid (tree tree' : Tree) : Prop :=
  ∀ (k : NodeID) (n : RecordNode), tree[k]? = some n → n.gnid ≠ 0 →
    ∃ n', tree'[k]? = some n' ∧ n'.gnid = n.gnid

theorem KeepsGnid.refl (tree : Tree) : KeepsGnid tree tree := fun _ n h _ => ⟨n, h, rfl⟩

theorem KeepsGnid.trans {t₁ t₂ t₃ : Tree} (h : KeepsGnid t₁ t₂) (h' : KeepsGnid t₂ t₃) : KeepsGnid t₁ t₃ := by
  intro k n hk hn
  obtain ⟨n', hk', he⟩ := h k n hk hn
  obtain ⟨n'', hk'', he'⟩ := h' k n' hk' (he ▸ hn)
  exact ⟨n'', hk'', he'.trans he⟩

theorem KeepsGnid.insert {tree : Tree} {k : NodeID} {n n' : RecordNode} (h : tree[k]? = some n)
    (hg : n'.gnid = n.gnid) : KeepsGnid tree (tree.insert k n') := by
  intro j m hj _
  rw [getElem?_insert]
  split
  next hjk =>
    rw [hjk, h, Option.some.injEq] at hj
    exact ⟨n', rfl, hj ▸ hg⟩
  next => exact ⟨m, hj, rfl⟩

variable {gl : Settings} {ds : DataStore} {rank : NodeID → Nat} {ts : ThreadStore}

theorem setRunning_core (running : Bool) (fuel : Nat) (ts : ThreadStore) (id : NodeID)
    (hr : Ranked (parentOf ts.currentTree) rank) (hfuel : rank id < fuel) :
    ∃ tree', setRunning running fuel ts id = .ok { ts with currentTree := tree' } ∧
      SameCore ts.currentTree tree' ∧ KeepsGnid ts.currentTree tree' := by
  induction fuel generalizing ts id with
  | zero => omega
  | succ fuel ih =>
      rw [setRunning, ThreadStore.getNodeFromID]
      cases hn : ts.currentTree[id]? with
      | none => exact ⟨ts.currentTree, rfl, SameCore.refl _, KeepsGnid.refl _⟩
      | some n =>
          have hpar := parentOf_eq_some.mpr ⟨n, hn, rfl⟩
          have hrank := hr _ _ hpar
          have hcore : SameCore ts.currentTree (ts.currentTree.insert id { n with running }) :=
            SameCore.insert hn rfl
          have hgnid : KeepsGnid ts.currentTree (ts.currentTree.insert id { n with running }) :=
            KeepsGnid.insert hn rfl
          obtain ⟨tree', hrun, hsame, hkeep⟩ := ih (ts.setNode id { n with running }) n.parentId
            (by
              intro c p hc
              rw [ThreadStore.setNode, hcore.places.parentOf] at hc
              exact hr c p hc)
            (by omega)
          exact ⟨tree', hrun, hcore.trans hsame, hgnid.trans hkeep⟩

/-- From each node without a number a parent leads on towards one that has a number. -/
def Numbered (tree : Tree) (rank : NodeID → Nat) : Prop :=
  ∀ (k : NodeID) (n : RecordNode), tree[k]? = some n → n.gnid = 0 →
    (∃ m, tree[n.parentId]? = some m) ∧ rank n.parentId < rank k

theorem touchGNID_core (fuel : Nat) (ts : ThreadStore) (id : NodeID) (hnum : Numbered ts.currentTree rank)
    {n : RecordNode} (hn : ts.currentTree[id]? = some n) (hfuel : rank id < fuel) :
    ∃ tree' gnid, touchGNID gl ds fuel ts id = .ok ({ ts with currentTree := tree' }, gnid) ∧
      SameCore ts.currentTree tree' ∧
      ∀ (k : NodeID) (m : RecordNode), ts.currentTree[k]? = some m → m.gnid ≠ 0 → tree'[k]? = some m := by
  induction fuel generalizing id n with
  | zero => omega
  | succ fuel ih =>
      rw [touchGNID, ThreadStore.getNodeFromID, hn]
      dsimp only
      by_cases hg : n.gnid = 0
      · obtain ⟨⟨m, hm⟩, hrank⟩ := hnum id n hn hg
        obtain ⟨tree', gnid, hrun, hsame, hkeep⟩ := ih n.parentId hm (by omega)
        rw [if_neg (by simpa using hg), hrun]
        refine ⟨tree'.insert id
            { n with gnid := gl.hashStrHard (gnidString gnid (ds.getNameFromID n.nodeName)) },
          _, rfl, fun k => ?_, fun k m hm hm0 => ?_⟩
        · rw [getElem?_insert]
          split
          next hk => rw [hk, hn]; rfl
          next => exact hsame k
        · have hk : k ≠ id := by
            rintro rfl
            rw [hn] at hm
            cases hm
            exact hm0 hg
          rw [getElem?_insert_ne _ hk]
          exact hkeep k m hm hm0
      · rw [if_pos hg]
        exact ⟨ts.currentTree, n.gnid, rfl, SameCore.refl _, fun _ _ h _ => h⟩

/-- What `MarkNodeDirty` makes of a node that is not dirty. -/
def markedNode (gl : Settings) (ds : DataStore) (n : RecordNode) : RecordNode :=
  { n with
    dirty := true
    tempCallCount := 0
    tempValues := slots ds.numRecords (fun i =>
      if isStatic ds i && !gl.singleTreeMode then value n.allValues i else 0) }

/-- The nodes of `S` that were not dirty have been marked. -/
def Marks (gl : Settings) (ds : DataStore) (S : NodeID → Prop) (tree tree' : Tree) : Prop :=
  ∀ k : NodeID, (S k → dirtyAt tree k = false → tree'[k]? = (tree[k]?).map (markedNode gl ds)) ∧
    (¬ (S k ∧ dirtyAt tree k = false) → tree'[k]? = tree[k]?)

theorem Marks.places {S : NodeID → Prop} {tree tree' : Tree} (h : Marks gl ds S tree tree') :
    SamePlaces tree tree' := by
  intro k
  by_cases hS : S k ∧ dirtyAt tree k = false
  · rw [(h k).1 hS.1 hS.2, Option.map_map]
    rfl
  · rw [(h k).2 hS]

theorem Marks.dirtyAt {S : NodeID → Prop} {tree tree' : Tree} (h : Marks gl ds S tree tree') (k : NodeID) :
    dirtyAt tree' k = true ↔ dirtyAt tree k = true ∨ S k ∧ ∃ n, tree[k]? = some n := by
  by_cases hS : S k ∧ FlushSpec.dirtyAt tree k = false
  · rw [FlushSpec.dirtyAt, (h k).1 hS.1 hS.2, hS.2]
    cases hk : tree[k]? with
    | none => simp
    | some n => simp [markedNode, hS.1]
  · rw [FlushSpec.dirtyAt, (h k).2 hS]
    constructor
    · exact Or.inl
    · rintro (hd | ⟨hSk, -⟩)
      · exact hd
      · by_contra hd
        exact hS ⟨hSk, by simpa [FlushSpec.dirtyAt] using hd⟩

theorem Marks.gnids {S : NodeID → Prop} {tree tree' : Tree} (h : Marks gl ds S tree tree') :
    KeepsGnid tree tree' := by
  intro k n hk _
  by_cases hS : S k ∧ FlushSpec.dirtyAt tree k = false
  · exact ⟨markedNode gl ds n, by rw [(h k).1 hS.1 hS.2, hk, Option.map_some], rfl⟩
  · exact ⟨n, by rw [(h k).2 hS, hk], rfl⟩

theorem defaultTemps_marked (hd : Described ds) {n : RecordNode} (ht : n.tempValues.length = ds.numRecords)
    (ha : gl.singleTreeMode = false → n.allValues.length = ds.numRecords) :
    defaultTemps gl ds (RecordNode.clearTempValues { n with dirty := true }) = .ok (markedNode gl ds n) := by
  have := defaultTemps_eq hd gl (RecordNode.clearTempValues { n with dirty := true })
    (clear_eq_slots ht) (fun h => (slots_value (ha h)).symm)
  rw [this]
  rfl

theorem dirtyAt_above {tree : Tree} (hzero : tree[0]? = none) {id k : NodeID}
    (hup : ∀ c p, Below (parentOf tree) c id → parentOf tree c = some p → dirtyAt tree c = true → p ≠ 0 →
      dirtyAt tree p = true)
    (hb : Below (parentOf tree) k id) (hid : dirtyAt tree id = true) (hk : k ≠ 0) :
      dirtyAt tree k = true := by
  induction hb with
  | refl => exact hid
  | tail hcb hp ih =>
      refine hup _ _ hcb hp (ih ?_) hk
      rintro rfl
      rw [parentOf, hzero] at hp
      cases hp

/-- A tree in which a node can be marked: what lies above a dirty node that is above
it is dirty. -/
structure Markable (gl : Settings) (ds : DataStore) (rank : NodeID → Nat) (tree : Tree) (id : NodeID) :
    Prop where
  ranked : Ranked (parentOf tree) rank
  zero : tree[0]? = none
  sized : ∀ (k : NodeID) (n : RecordNode), tree[k]? = some n →
    n.tempValues.length = ds.numRecords ∧ (gl.singleTreeMode = false → n.allValues.length = ds.numRecords)
  upward : ∀ c p, Below (parentOf tree) c id → parentOf tree c = some p → dirtyAt tree c = true → p ≠ 0 →
    dirtyAt tree p = true

section Above

variable {tree : Tree} {id : NodeID} {n : RecordNode}

theorem dirtyAt_insert_ne {c : NodeID} (hc : c ≠ id) (m : RecordNode) :
    dirtyAt (tree.insert id m) c = dirtyAt tree c := by
  rw [FlushSpec.dirtyAt, getElem?_insert_ne _ hc, FlushSpec.dirtyAt]

theorem parentOf_marked (hn : tree[id]? = some n) :
    parentOf (tree.insert id (markedNode gl ds n)) = parentOf tree := by
  have hpl : SamePlaces tree (tree.insert id (markedNode gl ds n)) := SamePlaces.insert hn rfl
  exact funext hpl.parentOf

theorem ne_of_above (hr : Ranked (parentOf tree) rank) (hn : tree[id]? = some n) {c : NodeID}
    (hb : Below (parentOf tree) c n.parentId) : c ≠ id := by
  rintro rfl
  exact not_below_of_parent hr (parentOf_eq_some.mpr ⟨n, hn, rfl⟩) hb

theorem Markable.parent (h : Markable gl ds rank tree id) (hn : tree[id]? = some n) :
    Markable gl ds rank (tree.insert id (markedNode gl ds n)) n.parentId := by
  have hpar := parentOf_eq_some.mpr ⟨n, hn, rfl⟩
  have hne {c : NodeID} (hb : Below (parentOf tree) c n.parentId) : c ≠ id := ne_of_above h.ranked hn hb
  refine ⟨?_, ?_, ?_, ?_⟩
  · rw [parentOf_marked hn]
    exact h.ranked
  · have h0 : (0 : NodeID) ≠ id := by
      rintro rfl
      rw [h.zero] at hn
      cases hn
    rw [getElem?_insert_ne _ h0]
    exact h.zero
  · intro k m hm
    rw [getElem?_insert] at hm
    split at hm
    · cases hm
      exact ⟨length_slots _ _, (h.sized id n hn).2⟩
    · exact h.sized k m hm
  · intro c p hb hp hdc hp0
    rw [parentOf_marked hn] at hb hp
    rw [dirtyAt_insert_ne (hne hb)] at hdc
    rw [dirtyAt_insert_ne (hne (hb.child hp))]
    exact h.upward c p (hb.up hpar) hp hdc hp0

theorem Marks.up (hr : Ranked (parentOf tree) rank) (hn : tree[id]? = some n)
    (hd : n.dirty = false) {tree' : Tree}
    (h : Marks gl ds (fun k => Below (parentOf tree) k n.parentId) (tree.insert id (markedNode gl ds n)) tree') :
    Marks gl ds (fun k => Below (parentOf tree) k id) tree tree' := by
  have hpar := parentOf_eq_some.mpr ⟨n, hn, rfl⟩
  intro k
  have hmk := h k
  by_cases hk : k = id
  · subst hk
    refine ⟨fun _ _ => ?_, fun h => absurd ⟨Below.refl k, (dirtyAt_eq hn).trans hd⟩ h⟩
    rw [hmk.2 (fun h => ne_of_above hr hn h.1 rfl), getElem?_insert_self, hn, Option.map_some]
  · have hb : Below (parentOf tree) k id ↔ Below (parentOf tree) k n.parentId := by
      rw [below_iff_parent]
      constructor
      · rintro (he | ⟨p, hp, h⟩)
        · exact absurd he.symm hk
        · rw [hpar] at hp
          cases hp
          exact h
      · exact fun h => Or.inr ⟨_, hpar, h⟩
    rw [dirtyAt_insert_ne hk, getElem?_insert_ne _ hk] at hmk
    exact ⟨fun h => hmk.1 (hb.mp h), fun h => hmk.2 (fun h' => h ⟨hb.mpr h'.1, h'.2⟩)⟩

end Above

/-- `MarkNodeDirty` marks the node and all that lies above it, where no attribute
node is among them or they are not looked for. It may stop at a dirty node, since
what lies above that is dirty already. -/
theorem markNodeDirty_marks (hd : Described ds) (fuel : Nat) (ts : ThreadStore) (id : NodeID)
    (hplain : ∀ k, Below (parentOf ts.currentTree) k id →
      (gl.leafNodeAccumulate && attrAt ds ts.currentTree k) = false)
    (h : Markable gl ds rank ts.currentTree id) (hfuel : rank id < fuel) :
    ∃ tree', markNodeDirty gl ds fuel ts id = .ok { ts with currentTree := tree' } ∧
      Marks gl ds (fun k => Below (parentOf ts.currentTree) k id) ts.currentTree tree' := by
  induction fuel generalizing ts id with
  | zero => omega
  | succ fuel ih =>
      rw [markNodeDirty, ThreadStore.getNodeFromID]
      cases hn : ts.currentTree[id]? with
      | none =>
          refine ⟨ts.currentTree, rfl, fun k => ⟨fun hb _ => ?_, fun _ => rfl⟩⟩
          obtain rfl | ⟨p, hp, -⟩ := below_iff_parent.mp hb
          · rw [hn, Option.map_none]
          · rw [parentOf, hn] at hp
            cases hp
      | some n =>
          have hdn := dirtyAt_eq hn
          cases hdirty : n.dirty with
          | true =>
              refine ⟨ts.currentTree, by simp only [hdirty, if_true], fun k => ⟨fun hb hk => ?_, fun _ => rfl⟩⟩
              cases hnk : ts.currentTree[k]? with
              | none => rfl
              | some m =>
                  have hk0 : k ≠ 0 := by
                    rintro rfl
                    rw [h.zero] at hnk
                    cases hnk
                  exfalso
                  rw [dirtyAt_above h.zero h.upward hb (hdn.trans hdirty) hk0] at hk
                  cases hk
          | false =>
              obtain ⟨ht, ha⟩ := h.sized id n hn
              have hpar := parentOf_eq_some.mpr ⟨n, hn, rfl⟩
              have hrank := h.ranked _ _ hpar
              have hpl : SamePlaces ts.currentTree (ts.currentTree.insert id (markedNode gl ds n)) :=
                SamePlaces.insert hn rfl
              have hattr : (gl.leafNodeAccumulate && (markedNode gl ds n).isAttrNode ds) = false := by
                rw [← hplain id (Below.refl id), attrAt_eq hn]
                rfl
              obtain ⟨tree', hrun, hmarks⟩ := ih (ts.setNode id (markedNode gl ds n)) n.parentId
                (by
                  intro k hb
                  rw [ThreadStore.setNode, parentOf_marked hn] at hb
                  rw [ThreadStore.setNode, attrAt_congr hpl]
                  exact hplain k (hb.up hpar))
                (h.parent hn) (by omega)
              rw [ThreadStore.setNode, parentOf_marked hn] at hmarks
              refine ⟨tree', ?_, Marks.up h.ranked hn hdirty hmarks⟩
              have hpid : (markedNode gl ds n).parentId = n.parentId := rfl
              simp only [hdirty, Bool.false_eq_true, if_false, defaultTemps_marked hd ht ha,
                ok_bind, hpid, hrun, hattr, pure_eq_ok]
              rfl

end Llprof.Monitor.Marking
