import Llprof.Foundations.ParentTree
import Llprof.Foundations.TreeMaps
import Llprof.Monitor.SlotLoops

namespace Llprof.Monitor.TreeShape

open ParentTree TreeMaps Nodes

abbrev Tree := Std.TreeMap NodeID RecordNode

def parentOf (tree : Tree) (k : NodeID) : Option NodeID := (tree[k]?).map (fun n => n.parentId)

theorem parentOf_eq_some {tree : Tree} {k p : NodeID} :
    parentOf tree k = some p ↔ ∃ n, tree[k]? = some n ∧ n.parentId = p := by
  simp [parentOf, Option.map_eq_some_iff]

structure Place where
  id : NodeID
  parentId : NodeID
  nodeName : NameID
  childrenId : Std.TreeSet NodeID

def place (n : RecordNode) : Place := ⟨n.id, n.parentId, n.nodeName, n.childrenId⟩

def SamePlaces (tree tree' : Tree) : Prop := ∀ k : NodeID, (tree'[k]?).map place = (tree[k]?).map place

theorem SamePlaces.refl (tree : Tree) : SamePlaces tree tree := fun _ => rfl

theorem SamePlaces.trans {t₁ t₂ t₃ : Tree} (h : SamePlaces t₁ t₂) (h' : SamePlaces t₂ t₃) :
    SamePlaces t₁ t₃ :=
  fun k => (h' k).trans (h k)

theorem SamePlaces.symm {t₁ t₂ : Tree} (h : SamePlaces t₁ t₂) : SamePlaces t₂ t₁ := fun k => (h k).symm

theorem SamePlaces.size {t₁ t₂ : Tree} (h : SamePlaces t₁ t₂) : t₂.size = t₁.size := by
  refine size_eq fun k => ?_
  rw [← Option.isSome_map (f := place), h k, Option.isSome_map]

theorem SamePlaces.insert {tree : Tree} {k : NodeID} {n n' : RecordNode} (h : tree[k]? = some n)
    (hp : place n' = place n) : SamePlaces tree (tree.insert k n') := by
  intro j
  rw [getElem?_insert]
  split
  next hj => rw [hj, h, Option.map_some, Option.map_some, hp]
  next => rfl

theorem SamePlaces.find {tree tree' : Tree} (h : SamePlaces tree tree') {k : NodeID} {n : RecordNode}
    (hk : tree[k]? = some n) : ∃ n', tree'[k]? = some n' ∧ place n' = place n := by
  have := h k
  rw [hk, Option.map_some, Option.map_eq_some_iff] at this
  exact this

theorem SamePlaces.parentOf {tree tree' : Tree} (h : SamePlaces tree tree') (k : NodeID) :
    parentOf tree' k = parentOf tree k := by
  have := congrArg (Option.map Place.parentId) (h k)
  rwa [Option.map_map, Option.map_map] at this

structure Rooted (tree : Tree) (rank : NodeID → Nat) : Prop where
  zero : tree[0]? = none
  id : ∀ (k : NodeID) (n : RecordNode), tree[k]? = some n → n.id = k
  root : ∃ n, tree[1]? = some n ∧ n.parentId = 0
  parent : ∀ (k : NodeID) (n : RecordNode), tree[k]? = some n → k ≠ 1 → ∃ p, tree[n.parentId]? = some p
  children : ∀ (p : NodeID) (n : RecordNode), tree[p]? = some n → ∀ c, c ∈ n.childrenId ↔
    parentOf tree c = some p
  ranked : Ranked (parentOf tree) rank
  bound : ∀ (k : NodeID) (n : RecordNode), tree[k]? = some n → rank k ≤ tree.size

variable {tree : Tree} {rank : NodeID → Nat}

theorem Rooted.congr (hr : Rooted tree rank) {tree' : Tree} (h : SamePlaces tree tree') :
    Rooted tree' rank := by
  have hpar : TreeShape.parentOf tree' = TreeShape.parentOf tree := funext h.parentOf
  refine ⟨?_, ?_, ?_, ?_, ?_, hpar ▸ hr.ranked, ?_⟩
  · have := h 0
    rwa [hr.zero, Option.map_none, Option.map_eq_none_iff] at this
  · intro k n hn
    obtain ⟨m, hm, hp⟩ := h.symm.find hn
    exact (congrArg Place.id hp).symm.trans (hr.id k m hm)
  · obtain ⟨n, hn, h0⟩ := hr.root
    obtain ⟨n', hn', hp⟩ := h.find hn
    exact ⟨n', hn', (congrArg Place.parentId hp).trans h0⟩
  · intro k n hn h1
    obtain ⟨m, hm, hp⟩ := h.symm.find hn
    obtain ⟨q, hq⟩ := hr.parent k m hm h1
    obtain ⟨q', hq', -⟩ := h.find hq
    have hpar : m.parentId = n.parentId := congrArg Place.parentId hp
    exact ⟨q', hpar ▸ hq'⟩
  · intro p n hn c
    obtain ⟨m, hm, hp⟩ := h.symm.find hn
    have hc : m.childrenId = n.childrenId := congrArg Place.childrenId hp
    rw [hpar, ← hr.children p m hm c, hc]
  · intro k n hn
    obtain ⟨m, hm, -⟩ := h.symm.find hn
    rw [h.size]
    exact hr.bound k m hm

theorem Rooted.rank_child (hr : Rooted tree rank) {c p : NodeID} (h : parentOf tree c = some p) :
    rank c = rank p + 1 :=
  hr.ranked c p h

theorem Rooted.rank_pos (hr : Rooted tree rank) {k : NodeID} {n : RecordNode} (h : tree[k]? = some n) :
    1 ≤ rank k := by
  have := hr.ranked k n.parentId (parentOf_eq_some.mpr ⟨n, h, rfl⟩)
  omega

theorem Rooted.parent_known (hr : Rooted tree rank) {k p : NodeID} (h : parentOf tree k = some p) :
    p = 0 ∨ ∃ m, tree[p]? = some m := by
  obtain ⟨n, hn, rfl⟩ := parentOf_eq_some.mp h
  by_cases h1 : k = 1
  · obtain ⟨m, hm, h0⟩ := hr.root
    rw [h1, hm, Option.some.injEq] at hn
    exact Or.inl (hn ▸ h0)
  · exact Or.inr (hr.parent k n hn h1)

theorem Rooted.root_unique (hr : Rooted tree rank) {c : NodeID} (h : parentOf tree c = some 0) : c = 1 := by
  obtain ⟨n, hn, h0⟩ := parentOf_eq_some.mp h
  by_contra h1
  obtain ⟨m, hm⟩ := hr.parent c n hn h1
  rw [h0, hr.zero] at hm
  cases hm

theorem Rooted.ne_zero (hr : Rooted tree rank) {k : NodeID} {n : RecordNode} (h : tree[k]? = some n) :
    k ≠ 0 := by
  rintro rfl
  rw [hr.zero] at h
  cases h

theorem Rooted.parent_ne (hr : Rooted tree rank) {c p : NodeID} (h : parentOf tree c = some p) : c ≠ p := by
  intro he
  have := hr.rank_child h
  rw [he] at this
  omega

def childrenAt (tree : Tree) (k : NodeID) : List NodeID :=
  ((tree[k]?).map (fun n => n.childrenId.toList)).getD []

theorem childrenAt_eq {k : NodeID} {n : RecordNode} (h : tree[k]? = some n) :
    childrenAt tree k = n.childrenId.toList := by rw [childrenAt, h, Option.map_some, Option.getD_some]

theorem SamePlaces.childrenAt {tree' : Tree} (h : SamePlaces tree tree') (k : NodeID) :
    childrenAt tree' k = childrenAt tree k := by
  have := congrArg (Option.map (fun p : Place => p.childrenId.toList)) (h k)
  rw [Option.map_map, Option.map_map] at this
  exact congrArg (fun o : Option (List NodeID) => o.getD []) this

theorem Rooted.mem_childrenAt (hr : Rooted tree rank) {k : NodeID} {n : RecordNode} (h : tree[k]? = some n)
    (c : NodeID) : c ∈ childrenAt tree k ↔ parentOf tree c = some k := by
  rw [childrenAt_eq h, mem_toList_set]
  exact hr.children k n h c

theorem childrenAt_nodup (tree : Tree) (k : NodeID) : (childrenAt tree k).Nodup := by
  rw [childrenAt]
  cases tree[k]? with
  | none => exact List.nodup_nil
  | some n => exact nodup_toList_set n.childrenId

theorem Rooted.child_exists {c p : NodeID} (h : parentOf tree c = some p) :
    ∃ n, tree[c]? = some n ∧ n.parentId = p :=
  parentOf_eq_some.mp h

end Llprof.Monitor.TreeShape
