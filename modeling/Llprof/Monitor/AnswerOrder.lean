import Llprof.Foundations.TreeListing
import Llprof.Monitor.DiffAnswers
import Llprof.Monitor.ParentOrder

namespace Llprof.Monitor.AnswerOrder

open Faulting hiding store
open Avoiding TreeMaps TreeListing Nodes TreeShape FlushSpec MergeSlices SliceFrame SliceContents
  Answers DiffAnswers FlushFrame ParentOrder

variable {gl : Settings} {ds : DataStore} {ts ts' : ThreadStore}

def unplaced (e : Fault) : Prop := lost e ∨ e = .indeterminate

theorem spared {e : Fault} (h : e = .outOfRange ∨ e = .nullDeref ∨ e = .endDeref ∨ e = .assertion) :
    ¬ unplaced e := by
  rcases h with rfl | rfl | rfl | rfl <;> exact fun h => h.elim id (by simp)

structure Answerable (ts : ThreadStore) : Prop where
  ids : ∀ (k : NodeID) (n : RecordNode), ts.currentTree[k]? = some n → n.id = k
  parents : ∀ (k : NodeID) (n : RecordNode), ts.currentTree[k]? = some n → n.parentId ≠ 0 →
    n.parentId < k ∧ n.parentId ∈ ts.currentTree
  closed : SlicesClosed ts

theorem Answerable.like (h : Answerable ts) (hl : Like ts ts') : Answerable ts' := by
  have htree := hl.currentTree
  refine ⟨?_, ?_, fun u => ?_⟩
  · rw [htree]
    exact h.ids
  · rw [htree]
    exact h.parents
  · rw [htree, hl.content]
    exact h.closed u

def entryLabel (e : RecordNodeBasic) : NodeID × NodeID := (e.id, e.parentId)

theorem accumulate_label (node rhs : RecordNodeBasic) :
    Avoids unplaced (fun n => entryLabel n = entryLabel node) (node.accumulate ds rhs) := by
  have hr : ¬ unplaced .outOfRange := spared (Or.inl rfl)
  have hloop : Avoids unplaced (fun n => entryLabel n = entryLabel node) (forRange ds.numRecords
      (fun (node : RecordNodeBasic) i => do
        let md ← fetch ds.recordMetadata i
        let all ← fetch rhs.allValues i
        let children ← fetch rhs.childrenValues i
        if md.staticValueFlag then
          let allValues ← updateAt node.allValues i (fun _ => all)
          let childrenValues ← updateAt node.childrenValues i (fun _ => children)
          return { node with allValues, childrenValues }
        else
          let allValues ← updateAt node.allValues i (· + all)
          let childrenValues ← updateAt node.childrenValues i (· + children)
          return { node with allValues, childrenValues }) node) := by
    refine avoids_forRange _ (fun n i h => ?_) rfl
    refine (avoids_fetch hr _ _).bind fun md _ => ?_
    refine (avoids_fetch hr _ _).bind fun all _ => ?_
    refine (avoids_fetch hr _ _).bind fun children _ => ?_
    split
    · refine (avoids_updateAt hr _ _ _).bind fun _ _ => ?_
      exact (avoids_updateAt hr _ _ _).bind fun _ _ => h
    · refine (avoids_updateAt hr _ _ _).bind fun _ _ => ?_
      exact (avoids_updateAt hr _ _ _).bind fun _ _ => h
  exact hloop.bind fun n h => h

/-- The result of a diff so far: every node is below the parent that it has in the
tree, which is there. -/
structure Gathered (tree : Tree) (integrated : Slice) : Prop where
  closed : Closed tree integrated
  places : ∀ (k : NodeID) (e : RecordNodeBasic), integrated[k]? = some e → parentOf tree k = some e.parentId

theorem mergeNode_gathered {integrated : Slice} (h : Gathered ts.currentTree integrated)
    {it : NodeID × RecordNodeBasic}
    (hit : ∃ p, parentOf ts.currentTree it.1 = some p ∧ (p = 0 ∨ p ∈ integrated)) :
    Avoids unplaced (fun r => Gathered ts.currentTree r ∧ it.1 ∈ r ∧ ∀ k ∈ integrated, k ∈ r)
      (mergeNode gl ds ts integrated it) := by
  obtain ⟨p, hp, hp0⟩ := hit
  have hnode : Avoids unplaced (fun n => entryLabel n = (it.1, p))
      (integratedNode gl ds ts integrated it.1) := by
    rw [integratedNode]
    split
    next e he =>
      have hpar := h.places it.1 e he
      rw [hp, Option.some.injEq] at hpar
      exact Prod.ext (h.closed it.1 e he).1 hpar.symm
    next =>
      obtain ⟨n, hn, hnp⟩ := parentOf_eq_some.mp hp
      rw [ThreadStore.getNodeFromID, hn]
      exact Prod.ext rfl hnp
  rw [mergeNode]
  apply hnode.bind
  intro node hl
  apply (accumulate_label node it.2).bind
  intro node' hl'
  obtain ⟨hid, hpar⟩ := Prod.mk.inj (hl'.trans hl)
  refine ⟨⟨h.closed.insert hid ⟨p, hp, hp0⟩, fun k e he => ?_⟩, mem_insert_self _ _ _, fun k hk =>
    mem_insert_iff.mpr (Or.inr hk)⟩
  rw [getElem?_insert] at he
  split at he
  next hk =>
    cases he
    rw [hk, hpar]
    exact hp
  next => exact h.places k e he

theorem mergeNodes_gathered (h : Answerable ts) {integrated slice : Slice}
    (hi : Gathered ts.currentTree integrated) (hs : Closed ts.currentTree slice) :
    Avoids unplaced (Gathered ts.currentTree) (slice.toList.foldlM (mergeNode gl ds ts) integrated) := by
  have hrun : Avoids unplaced (fun r => Gathered ts.currentTree r ∧ ∀ it ∈ slice.toList, it.1 ∈ r)
      (slice.toList.foldlM (mergeNode gl ds ts) integrated) :=
    avoids_foldlM (fun done r => Gathered ts.currentTree r ∧ ∀ it ∈ done, it.1 ∈ r) slice.toList (by
      rintro done ⟨k, e⟩ rest r he ⟨hr, hdone⟩
      have hk : slice[k]? = some e := getElem?_of_split he
      obtain ⟨-, p, hp, hp0⟩ := hs k e hk
      have hparent : p = 0 ∨ p ∈ r := by
        by_cases h0 : p = 0
        · exact Or.inl h0
        · obtain ⟨n, hn, rfl⟩ := parentOf_eq_some.mp hp
          obtain ⟨d, hd⟩ := mem_iff_some.mp (hp0.resolve_left h0)
          exact Or.inr (hdone (n.parentId, d) (visited_of_lt he hd (h.parents k n hn h0).1))
      have hturn : ∃ p, parentOf ts.currentTree ((k, e) : NodeID × RecordNodeBasic).1 = some p ∧
          (p = 0 ∨ p ∈ r) :=
        ⟨p, hp, hparent⟩
      apply (mergeNode_gathered hr hturn).mono
      rintro r' ⟨hr', hk', hmono⟩
      refine ⟨hr', fun it hit => ?_⟩
      rcases List.mem_append.mp hit with hit | hit
      · exact hmono _ (hdone it hit)
      · rw [List.mem_singleton.mp hit]
        exact hk') ⟨hi, fun it hit => absurd hit List.not_mem_nil⟩
  exact hrun.mono fun r hr => hr.1

theorem merged_gathered (h : Answerable ts) (p1 : Int) (n : Nat) :
    Avoids unplaced (Gathered ts.currentTree) (merged gl ds ts p1 n) := by
  rw [merged]
  refine avoids_forRange _ (fun r i hr => mergeNodes_gathered h hr (h.closed _))
    ⟨closed_empty _, fun k e he => ?_⟩
  rw [Std.TreeMap.getElem?_emptyc] at he
  cases he

def nodesOf : ThreadTree → List RecordNodeBasic
  | .current nodes _ _ => nodes
  | .diff nodes _ => nodes

theorem threadAnswer_parentsFirst (h : Answerable ts) (flag : DumpFlag) (p1 p2 : Int) :
    Avoids unplaced (fun r => Like ts r.1 ∧
        ParentsFirst (fun n => n.id) (fun n : RecordNodeBasic => n.parentId) 0 (nodesOf r.2.tree))
      (threadAnswer gl ds flag p1 p2 ts) := by
  cases flag with
  | currentTree => exact ⟨Like.refl ts, (parentsFirst_values h.ids h.parents).map⟩
  | diffTree =>
      obtain ⟨ts', hasked, hrun⟩ := diffAnswer_spec gl ds ts p1 p2
      rw [threadAnswer, hrun]
      apply (merged_gathered h p1 _).bind
      intro m hm
      refine ⟨hasked.like, parentsFirst_values (fun k e he => (hm.closed k e he).1) fun k e he h0 => ?_⟩
      obtain ⟨-, p, hp, hp0⟩ := hm.closed k e he
      have hplace := hm.places k e he
      rw [hp, Option.some.injEq] at hplace
      subst hplace
      obtain ⟨n, hn, hnp⟩ := parentOf_eq_some.mp hp
      rw [← hnp] at h0 hp0 ⊢
      exact ⟨(h.parents k n hn h0).1, hp0.resolve_left h0⟩

end Llprof.Monitor.AnswerOrder
