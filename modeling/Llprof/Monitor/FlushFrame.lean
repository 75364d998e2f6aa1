import Llprof.Monitor.Marking
import Llprof.Monitor.SlotWrites

namespace Llprof.Monitor.FlushFrame

open Faulting hiding store
open Avoiding ParentTree TreeMaps Nodes Store SlotWrites TreeShape FlushSpec Marking

/-- The faults of a walk over the tree that does not find its way. -/
def lost : Fault → Prop
  | .missingParent => True
  | .outOfFuel => True
  | _ => False

def frame (n : RecordNode) : Place × NodeID := (place n, n.gnid)

def Framed (tree tree' : Tree) : Prop := ∀ k : NodeID, (tree'[k]?).map frame = (tree[k]?).map frame

variable {gl : Settings} {ds : DataStore} {attrNodeMap : AttrNodeMap} {tree : Tree}
  {rank : NodeID → Nat} {s : Flush} {k : NodeID}

theorem Framed.refl (tree : Tree) : Framed tree tree := fun _ => rfl

theorem Framed.trans {t₁ t₂ t₃ : Tree} (h : Framed t₁ t₂) (h' : Framed t₂ t₃) : Framed t₁ t₃ :=
  fun k => (h' k).trans (h k)

theorem Framed.places {t₁ t₂ : Tree} (h : Framed t₁ t₂) : SamePlaces t₁ t₂ := by
  intro k
  have := congrArg (Option.map Prod.fst) (h k)
  rwa [Option.map_map, Option.map_map] at this

theorem Framed.gnids {t₁ t₂ : Tree} (h : Framed t₁ t₂) : KeepsGnid t₁ t₂ := by
  intro k n hk _
  have := h k
  rw [hk, Option.map_some, Option.map_eq_some_iff] at this
  obtain ⟨n', hn', he⟩ := this
  exact ⟨n', hn', congrArg Prod.snd he⟩

theorem Framed.insert {t : Tree} (h : Framed tree t) {n n' : RecordNode} (hk : t[k]? = some n)
    (he : frame n' = frame n) : Framed tree (t.insert k n') := by
  intro j
  rw [← h j, getElem?_insert]
  split
  next hj => rw [hj, hk, Option.map_some, Option.map_some, he]
  next => rfl

theorem addTempToChildren_frame (tssNode : RecordNodeBasic) (destNode srcNode : RecordNode) :
    Avoids lost (fun st => frame st.2 = frame destNode) (addTempToChildren ds tssNode destNode srcNode) :=
  addTempToChildren_writes id srcNode (fun _ _ _ _ _ _ h => h) rfl

theorem addAllValues_frame (tssNode : RecordNodeBasic) (node : RecordNode) :
    Avoids lost (fun st => frame st.2 = frame node) (addAllValues ds tssNode node) :=
  addAllValues_writes id id (fun _ _ _ _ _ h => h) rfl

theorem addTemp_framed (hs : Framed tree s.tree) (id src : NodeID) :
    Avoids lost (fun s' => Framed tree s'.tree) (s.addTemp gl ds id src) := by
  rw [Flush.addTemp]
  split
  next node srcNode hnode _ =>
    refine (addTempToChildren_frame _ node srcNode).bind fun st hst => ?_
    exact hs.insert hnode hst
  next => exact fun h => h

theorem settle_framed (hs : Framed tree s.tree) (id : NodeID) :
    Avoids lost (fun s' => Framed tree s'.tree) (settle gl ds s id) := by
  rw [settle]
  split
  next => exact fun h => h
  next node hnode =>
    refine (addAllValues_frame _ node).bind fun st hst => ?_
    exact hs.insert hnode hst

theorem pullAttr_framed (hs : Framed tree s.tree) (id : NodeID) (node : RecordNode) :
    Avoids lost (fun s' => Framed tree s'.tree) (pullAttr gl ds attrNodeMap id node s) := by
  rw [pullAttr]
  split
  next => exact fun h => h
  next =>
    refine avoids_foldlM (fun _ (s' : Flush) => Framed tree s'.tree) _ ?_ hs
    intro _ c _ s' _ hs'
    split
    next => exact fun h => h
    next =>
      split
      · exact hs'
      · split
        · exact hs'
        · exact addTemp_framed hs' _ _

/-- `clearDirtyNode` with so much fuel, on the children of a node. -/
def FramesBelow (gl : Settings) (ds : DataStore) (attrNodeMap : AttrNodeMap)
    (tree : Tree) (rank : NodeID → Nat) (fuel : Nat) : Prop :=
  ∀ k n s, tree[k]? = some n → tree.size + 1 ≤ fuel + rank k → Framed tree s.tree →
    Avoids lost (fun r => Framed tree r.1.tree) (clearDirtyNode gl ds attrNodeMap fuel s k)

theorem clearChildren_framed (hr : Rooted tree rank) {fuel : Nat} (hfuel : tree.size + 1 ≤ fuel + 1 + rank k)
    (hclear : FramesBelow gl ds attrNodeMap tree rank fuel) (hs : Framed tree s.tree) {children : List NodeID}
    (hc : ∀ c ∈ children, parentOf tree c = some k) :
    Avoids lost (fun st => Framed tree st.1.tree ∧ ∀ c ∈ st.2, parentOf tree c = some k)
      (clearChildren gl ds (clearDirtyNode gl ds attrNodeMap fuel) k children s) := by
  refine avoids_foldlM (fun _ (st : Flush × List NodeID) => Framed tree st.1.tree ∧
    ∀ c ∈ st.2, parentOf tree c = some k)
    _ ?_ ⟨hs, fun c h => absurd h List.not_mem_nil⟩
  rintro done c rest ⟨s', attrs⟩ he ⟨hs', ha⟩
  have hck := hc c (by rw [he]; simp)
  obtain ⟨n, hn, -⟩ := Rooted.child_exists hck
  have hrank := hr.rank_child hck
  rw [clearChild]
  split
  next => exact fun h => h
  next child _ =>
    split
    · refine ⟨hs', fun d hd => ?_⟩
      rcases List.mem_append.mp hd with hd | hd
      · exact ha d hd
      · rw [List.mem_singleton.mp hd]
        exact hck
    · refine (hclear c n s' hn (by omega) hs').bind ?_
      rintro ⟨s₂, cleared⟩ hs₂
      cases cleared with
      | true => exact (addTemp_framed hs₂ k c).bind fun s₃ hs₃ => avoids_ok.mpr ⟨hs₃, ha⟩
      | false => exact ⟨hs₂, ha⟩

theorem clearAttrs_framed (hr : Rooted tree rank) {fuel : Nat} (hfuel : tree.size + 1 ≤ fuel + 1 + rank k)
    (hclear : FramesBelow gl ds attrNodeMap tree rank fuel) (hs : Framed tree s.tree)
    {attrNodes : List NodeID} (hc : ∀ c ∈ attrNodes, parentOf tree c = some k) :
    Avoids lost (fun s' => Framed tree s'.tree)
      (clearAttrs gl ds (clearDirtyNode gl ds attrNodeMap fuel) k attrNodes s) := by
  refine avoids_foldlM (fun _ (s' : Flush) => Framed tree s'.tree) _ ?_ hs
  intro done c rest s' he hs'
  have hck := hc c (by rw [he]; simp)
  obtain ⟨n, hn, -⟩ := Rooted.child_exists hck
  have hrank := hr.rank_child hck
  split
  next => exact fun h => h
  next child _ =>
    split
    · refine (addTemp_framed hs' _ _).bind fun s₂ hs₂ => ?_
      exact (hclear c n s₂ hn (by omega) hs₂).bind fun r hr' => hr'
    · exact hs'

theorem clearDirtyNode_framed (hr : Rooted tree rank) (fuel : Nat) :
    FramesBelow gl ds attrNodeMap tree rank fuel := by
  induction fuel with
  | zero =>
      intro k n s hk hfuel
      have := hr.bound k n hk
      omega
  | succ fuel ih =>
      intro k n s hk hfuel hs
      rw [clearDirtyNode]
      split
      next => exact hs
      next node hnode =>
        split
        next =>
          have hchildren : ∀ c ∈ node.childrenId.toList, parentOf tree c = some k := by
            intro c hc
            have hr' := hr.congr hs.places
            rw [← hs.places.parentOf]
            exact (hr'.children k node hnode c).mp (mem_toList_set.mp hc)
          have hend (s₂ : Flush) (hs₂ : Framed tree s₂.tree) :
            Avoids lost (fun r : Flush × Bool => Framed tree r.1.tree)
              (settle gl ds s₂ k >>= fun s₃ => pure (s₃, true)) :=
            (settle_framed hs₂ k).bind fun s₃ hs₃ => avoids_ok.mpr hs₃
          have hslice : Framed tree (⟨s.tree, s.slice.insert k (sliceNode gl ds s.slice k)⟩ : Flush).tree :=
            hs
          dsimp only
          split
          · exact (pullAttr_framed hslice k node).bind hend
          · refine (clearChildren_framed hr hfuel ih hslice hchildren).bind fun st hst => ?_
            exact (clearAttrs_framed hr hfuel ih hst.1 hst.2).bind hend
        next => exact hs

theorem flush_framed {ts : ThreadStore} (hr : Rooted ts.currentTree rank) :
    Avoids lost (fun ts' => Framed ts.currentTree ts'.currentTree ∧ ts'.attrNodeMap = ts.attrNodeMap ∧
      ts'.attrNodeIdAlt = ts.attrNodeIdAlt ∧ ts'.currentAttrNodeIdIndex = ts.currentAttrNodeIdIndex)
      (flush gl ds ts) := by
  obtain ⟨r, hr1, -⟩ := hr.root
  rw [flush, ThreadStore.getTimeSlice]
  dsimp only
  split
  next => exact fun h => h
  next ts' i he =>
    split at he
    · cases he
    · rw [Prod.mk.injEq] at he
      obtain ⟨rfl, -⟩ := he
      refine (avoids_fetch id _ _).bind fun tss _ => ?_
      refine (clearDirtyNode_framed hr (ts.currentTree.size + 1) 1 r ⟨ts.currentTree, tss.tree⟩ hr1 (by omega)
        (Framed.refl _)).bind fun p hp => ?_
      exact ⟨hp, rfl, rfl, rfl⟩

end Llprof.Monitor.FlushFrame
