import Llprof.Foundations.TreeListing
import Llprof.Monitor.ParentOrder
import Llprof.Monitor.TickFrame

namespace Llprof.Monitor.SequenceOrder

open Faulting hiding store
open Avoiding TreeMaps TreeListing Nodes Store TreeShape FlushSpec Slices SliceFrame SliceContents
  SlicesKnown FlushFrame Ticks TickFrame FlushRule StoreRule ParentOrder

variable {gl : Settings} {ds : DataStore} {up : NodeID → NodeID} {g : GlobalThreadStore}
  {tree : Tree} {st : Integrating}

def seqOf (g : GlobalThreadStore) (gnid : NodeID) : Option NodeID :=
  if gnid < 2 then some gnid else g.gnidToSeqMap[gnid]?

/-- The numbers grow from the GNID of a parent, which is `up` of that of its child, to
that of the child. Every node hangs below the number of the parent, which is in
the tree. -/
structure Numbered (up : NodeID → NodeID) (g : GlobalThreadStore) : Prop where
  range : ∀ gnid s : NodeID, g.gnidToSeqMap[gnid]? = some s → 2 ≤ gnid ∧ 2 ≤ s ∧ s ≤ g.seqNum
  seq : 1 ≤ g.seqNum
  inj : ∀ gnid gnid' s : NodeID, g.gnidToSeqMap[gnid]? = some s →
    g.gnidToSeqMap[gnid']? = some s → gnid = gnid'
  grows : ∀ gnid s : NodeID, g.gnidToSeqMap[gnid]? = some s → ∃ p, seqOf g (up gnid) = some p ∧ p ≠ 0 ∧ p < s
  nodes : ∀ (k : NodeID) (n : RecordNode), g.ts.currentTree[k]? = some n →
    n.id = k ∧ (k = 1 ∧ n.parentId = 0 ∨ ∃ gnid, g.gnidToSeqMap[gnid]? = some k ∧
      seqOf g (up gnid) = some n.parentId)
  root : (1 : NodeID) ∈ g.ts.currentTree
  known : ∀ gnid s : NodeID, g.gnidToSeqMap[gnid]? = some s → s ∈ g.ts.currentTree

theorem seqOf_small {gnid : NodeID} (h : gnid < 2) : seqOf g gnid = some gnid := if_pos h

theorem seqOf_large {gnid : NodeID} (h : 2 ≤ gnid) : seqOf g gnid = g.gnidToSeqMap[gnid]? :=
  if_neg (Nat.not_lt.mpr h)

theorem seqOf_kept {g' : GlobalThreadStore}
    (h : ∀ x s : NodeID, g.gnidToSeqMap[x]? = some s → g'.gnidToSeqMap[x]? = some s) {gnid s : NodeID}
    (hs : seqOf g gnid = some s) : seqOf g' gnid = some s := by
  by_cases hlt : gnid < 2
  · rwa [seqOf_small hlt] at hs ⊢
  · have h2 : 2 ≤ gnid := Nat.not_lt.mp hlt
    rw [seqOf_large h2] at hs ⊢
    exact h gnid s hs

theorem insert_keeps {gnid s : NodeID} (hnew : g.gnidToSeqMap[gnid]? = none) (x s' : NodeID)
    (h : g.gnidToSeqMap[x]? = some s') : (g.gnidToSeqMap.insert gnid s)[x]? = some s' := by
  rw [getElem?_insert, if_neg]
  · exact h
  · rintro rfl
    rw [hnew] at h
    cases h

theorem gnidToSeq_found {gnid s : NodeID} (h : seqOf g gnid = some s) : g.gnidToSeq gnid = (g, s) := by
  rw [seqOf] at h
  rw [GlobalThreadStore.gnidToSeq]
  split at h
  next hlt =>
    cases h
    rw [if_pos hlt]
  next hlt => rw [if_neg hlt, h]

theorem gnidToSeq_new {gnid : NodeID} (h2 : 2 ≤ gnid) (h : g.gnidToSeqMap[gnid]? = none) :
    g.gnidToSeq gnid =
      ({ g with seqNum := g.seqNum + 1, gnidToSeqMap := g.gnidToSeqMap.insert gnid (g.seqNum + 1) },
        g.seqNum + 1) := by
  rw [GlobalThreadStore.gnidToSeq, if_neg (Nat.not_lt.mpr h2), h]

theorem eq_one {n : Nat} (h : n < 2) (h0 : n ≠ 0) : n = 1 := by omega

theorem Numbered.seqOf_mem (h : Numbered up g) {gnid s : NodeID} (hs : seqOf g gnid = some s) (h0 : s ≠ 0) :
    s ∈ g.ts.currentTree ∧ s ≤ g.seqNum := by
  rw [seqOf] at hs
  split at hs
  next hlt =>
    cases hs
    rw [eq_one hlt h0]
    exact ⟨h.root, h.seq⟩
  next => exact ⟨h.known gnid s hs, (h.range gnid s hs).2.2⟩

theorem Numbered.parent (h : Numbered up g) {k : NodeID} {n : RecordNode} (hk : g.ts.currentTree[k]? = some n)
    (h0 : n.parentId ≠ 0) : n.parentId < k ∧ n.parentId ∈ g.ts.currentTree := by
  rcases (h.nodes k n hk).2 with ⟨-, hp⟩ | ⟨gnid, hg, hp⟩
  · exact absurd hp h0
  · obtain ⟨p, hup, -, hlt⟩ := h.grows gnid k hg
    rw [hp, Option.some.injEq] at hup
    exact ⟨hup ▸ hlt, (h.seqOf_mem hp h0).1⟩

theorem Numbered.next_free (h : Numbered up g) : g.ts.currentTree[g.seqNum + 1]? = none := by
  rw [Option.eq_none_iff_forall_ne_some]
  intro n hn
  rcases (h.nodes _ n hn).2 with ⟨h1, -⟩ | ⟨gnid, hg, -⟩
  · have hseq := h.seq
    exact absurd (Nat.succ.inj h1) (Nat.one_le_iff_ne_zero.mp hseq)
  · exact absurd (h.range gnid _ hg).2.2 (Nat.not_succ_le_self _)

structure Later (g g' : GlobalThreadStore) : Prop where
  seqs : ∀ gnid s, seqOf g gnid = some s → seqOf g' gnid = some s
  parents : ∀ k p, parentOf g.ts.currentTree k = some p → parentOf g'.ts.currentTree k = some p

theorem Later.refl (g : GlobalThreadStore) : Later g g := ⟨fun _ _ h => h, fun _ _ h => h⟩

theorem Later.trans {g₁ g₂ g₃ : GlobalThreadStore} (h : Later g₁ g₂) (h' : Later g₂ g₃) : Later g₁ g₃ :=
  ⟨fun gnid s hs => h'.seqs gnid s (h.seqs gnid s hs), fun k p hp => h'.parents k p (h.parents k p hp)⟩

/-- A node of a target is a root, or its GNID is next to that of its parent, which has
its number. -/
def Sourced (up : NodeID → NodeID) (srcTree : Tree) (g : GlobalThreadStore) (n : RecordNode) : Prop :=
  n.gnid = 1 ∨ 2 ≤ n.gnid ∧ ∃ pn, srcTree[n.parentId]? = some pn ∧ up n.gnid = pn.gnid ∧
    ∃ q, seqOf g pn.gnid = some q ∧ q ≠ 0

structure Found (up : NodeID → NodeID) (g g' : GlobalThreadStore) (gnid id : NodeID) : Prop where
  numbered : Numbered up g'
  later : Later g g'
  seq : seqOf g' gnid = some id
  here : id ∈ g'.ts.currentTree

theorem added_tree (ts : ThreadStore) (s q gnid : NodeID) :
    ∃ m, label m = (s, q) ∧ ∀ k : NodeID,
      (setGNID (ts.addCurrentNode gl ds s q s false) s gnid).currentTree[k]? =
      if k = s then some m else ts.currentTree[k]? := by
  obtain ⟨m, hm, hl⟩ : ∃ m, ts.addCurrentNode gl ds s q s false = ts.setNode s m ∧ label m = (s, q) := by
    rw [ThreadStore.addCurrentNode]
    exact ⟨_, rfl, rfl⟩
  refine ⟨{ m with gnid }, hl, fun k => ?_⟩
  have hfind : (ts.setNode s m).getNodeFromID s = some m := getElem?_insert_self _ _ _
  rw [hm, setGNID, hfind]
  change ((ts.currentTree.insert s m).insert s { m with gnid })[k]? = _
  rw [getElem?_insert, getElem?_insert]
  split
  · rfl
  · rfl

theorem Numbered.added (h : Numbered up g) {gnid q : NodeID} (h2 : 2 ≤ gnid)
    (hnew : g.gnidToSeqMap[gnid]? = none) (hq : seqOf g (up gnid) = some q) (hq0 : q ≠ 0)
    {g' : GlobalThreadStore} (hseq : g'.seqNum = g.seqNum + 1)
    (hmap : g'.gnidToSeqMap = g.gnidToSeqMap.insert gnid (g.seqNum + 1)) {m : RecordNode}
    (hm : label m = (g.seqNum + 1, q))
    (htree : ∀ k : NodeID, g'.ts.currentTree[k]? = if k = g.seqNum + 1 then some m else g.ts.currentTree[k]?) :
    Found up g g' gnid (g.seqNum + 1) := by
  have hfree := h.next_free
  have hmem {k : NodeID} (hk : k ∈ g.ts.currentTree) : k ∈ g'.ts.currentTree := by
    obtain ⟨n, hn⟩ := mem_iff_some.mp hk
    rw [mem_iff_some, htree]
    split
    · exact ⟨m, rfl⟩
    · exact ⟨n, hn⟩
  have hself : g.seqNum + 1 ∈ g'.ts.currentTree := by
    rw [mem_iff_some, htree, if_pos rfl]
    exact ⟨m, rfl⟩
  have hcases {x s : NodeID} (hx : g'.gnidToSeqMap[x]? = some s) :
      x = gnid ∧ s = g.seqNum + 1 ∨ x ≠ gnid ∧ g.gnidToSeqMap[x]? = some s := by
    rw [hmap, getElem?_insert] at hx
    split at hx
    next hxg => exact Or.inl ⟨hxg, (Option.some.inj hx).symm⟩
    next hxg => exact Or.inr ⟨hxg, hx⟩
  have hlater : Later g g' := by
    refine ⟨fun x s => seqOf_kept ?_, fun k p hp => ?_⟩
    · rw [hmap]
      exact insert_keeps hnew
    · obtain ⟨n, hn, -⟩ := parentOf_eq_some.mp hp
      rw [parentOf, htree, if_neg]
      · exact hp
      · rintro rfl
        rw [hfree] at hn
        cases hn
  have hqle := (h.seqOf_mem hq hq0).2
  have hseq1 := h.seq
  have hgnid : g'.gnidToSeqMap[gnid]? = some (g.seqNum + 1) := by rw [hmap, getElem?_insert_self]
  refine ⟨⟨fun x s hx => ?_, ?_, fun x y s hx hy => ?_, fun x s hx => ?_, fun k n hk => ?_, hmem h.root, fun x s hx => ?_⟩,
    hlater, ?_, hself⟩
  · rw [hseq]
    rcases hcases hx with ⟨rfl, rfl⟩ | ⟨-, hold⟩
    · exact ⟨h2, Nat.succ_le_succ hseq1, le_refl _⟩
    · obtain ⟨hx2, hs2, hle⟩ := h.range x s hold
      exact ⟨hx2, hs2, hle.trans (Nat.le_succ _)⟩
  · rw [hseq]
    exact Nat.le_succ_of_le hseq1
  · rcases hcases hx with ⟨rfl, rfl⟩ | ⟨-, hold⟩
    · rcases hcases hy with ⟨rfl, -⟩ | ⟨-, hold'⟩
      · rfl
      · exact absurd (h.range y _ hold').2.2 (Nat.not_succ_le_self _)
    · rcases hcases hy with ⟨rfl, rfl⟩ | ⟨-, hold'⟩
      · exact absurd (h.range x _ hold).2.2 (Nat.not_succ_le_self _)
      · exact h.inj x y s hold hold'
  · rcases hcases hx with ⟨rfl, rfl⟩ | ⟨-, hold⟩
    · exact ⟨q, hlater.seqs _ q hq, hq0, Nat.lt_succ_of_le hqle⟩
    · obtain ⟨p, hp, hp0, hlt⟩ := h.grows x s hold
      exact ⟨p, hlater.seqs _ p hp, hp0, hlt⟩
  · rw [htree] at hk
    split at hk
    next hks =>
      cases hk
      obtain ⟨hid, hpar⟩ := Prod.mk.inj hm
      rw [hks, hid, hpar]
      exact ⟨rfl, Or.inr ⟨gnid, hgnid, hlater.seqs _ q hq⟩⟩
    next =>
      obtain ⟨hid, hroot | ⟨x, hx, hp⟩⟩ := h.nodes k n hk
      · exact ⟨hid, Or.inl hroot⟩
      · refine ⟨hid, Or.inr ⟨x, ?_, hlater.seqs _ _ hp⟩⟩
        rw [hmap]
        exact insert_keeps hnew x k hx
  · rcases hcases hx with ⟨-, rfl⟩ | ⟨-, hold⟩
    · exact hself
    · exact hmem (h.known x s hold)
  · rw [seqOf_large h2, hgnid]

theorem destNode_found {srcDs : DataStore} {srcTree : Tree} {n : RecordNode} (h : Numbered up st.g)
    (hn : Sourced up srcTree st.g n) :
    Found up st.g (destNode gl srcDs srcTree st n).1.g n.gnid (destNode gl srcDs srcTree st n).2 ∧
      (destNode gl srcDs srcTree st n).1.dest = st.dest := by
  -- a GNID that has its number has its node
  have hfound {s : NodeID} (hs : seqOf st.g n.gnid = some s) (h0 : s ≠ 0) :
      destNode gl srcDs srcTree st n = (st, s) ∧ s ∈ st.g.ts.currentTree := by
    have hmem := (h.seqOf_mem hs h0).1
    obtain ⟨m, hm⟩ := mem_iff_some.mp hmem
    rw [destNode, gnidToSeq_found hs]
    dsimp only
    rw [ThreadStore.getNodeFromID, hm]
    exact ⟨rfl, hmem⟩
  rcases hn with h1 | ⟨h2, pn, hpn, hup, q, hq, hq0⟩
  · have hs : seqOf st.g n.gnid = some 1 := by rw [h1]; rfl
    obtain ⟨hrun, hmem⟩ := hfound hs one_ne_zero
    rw [hrun]
    exact ⟨⟨h, Later.refl _, hs, hmem⟩, rfl⟩
  · cases hmap : st.g.gnidToSeqMap[n.gnid]? with
    | some s =>
        have hs : seqOf st.g n.gnid = some s := by rw [seqOf_large h2, hmap]
        have h0 : s ≠ 0 := (Nat.zero_lt_of_lt (h.range _ s hmap).2.1).ne'
        obtain ⟨hrun, hmem⟩ := hfound hs h0
        rw [hrun]
        exact ⟨⟨h, Later.refl _, hs, hmem⟩, rfl⟩
    | none =>
        have hpar : seqOf ({ st.g with
            seqNum := st.g.seqNum + 1
            gnidToSeqMap := st.g.gnidToSeqMap.insert n.gnid (st.g.seqNum + 1) } : GlobalThreadStore) pn.gnid =
              some q :=
          seqOf_kept (insert_keeps hmap) hq
        obtain ⟨m, hm, htree⟩ := @added_tree gl st.ds st.g.ts (st.g.seqNum + 1) q n.gnid
        have hrun : destNode gl srcDs srcTree st n = ({ st with
            g := ⟨setGNID (st.g.ts.addCurrentNode gl st.ds (st.g.seqNum + 1) q (st.g.seqNum + 1) false)
              (st.g.seqNum + 1) n.gnid, st.g.seqNum + 1, st.g.gnidToSeqMap.insert n.gnid (st.g.seqNum + 1)⟩
            ds := { st.ds with nameTable := st.ds.nameTable.insert (st.g.seqNum + 1) (srcDs.getNameFromID n.nodeName) } },
            st.g.seqNum + 1) := by
          rw [destNode, gnidToSeq_new h2 hmap]
          dsimp only
          rw [ThreadStore.getNodeFromID, h.next_free]
          dsimp only
          rw [parentSeq, hpn]
          dsimp only
          rw [gnidToSeq_found hpar]
        rw [hrun]
        exact ⟨h.added h2 hmap (hup ▸ hq) hq0 rfl rfl hm htree, rfl⟩

end Llprof.Monitor.SequenceOrder
