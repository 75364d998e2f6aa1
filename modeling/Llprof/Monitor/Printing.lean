import Llprof.Monitor.IntegrationSlots
import Llprof.Monitor.OperationFrame

namespace Llprof.Monitor.Printing

open Faulting hiding store
open Avoiding TreeMaps Nodes TreeShape FlushSpec MergeSlices SliceContents DiffAnswers Operations
  OperationFrame IntegrationSlots
open LittleEndian (Bytes)

variable {gl : Settings} {ds : DataStore} {ts : ThreadStore} {bad : Fault → Prop}

theorem printValues_avoids {values : Nat → Run (List ProfileValue)}
    (hv : ∀ i, i < ds.numRecords → Avoids bad (fun _ => True) (values i)) (out : Bytes) :
    Avoids bad (fun _ => True) (printValues ds values out) := by
  rw [printValues]
  refine avoids_forRange_lt (P := fun _ => True) _ (fun out i hi _ => ?_) trivial
  exact (hv i hi).bind fun _ _ => trivial

theorem printBasic_avoids {node : RecordNodeBasic} (h : bad .outOfRange → (entryOf node).Sized ds) :
    Avoids bad (fun _ => True) (printBasic ds node) := by
  rw [printBasic]
  refine (printValues_avoids (fun i hi => ?_) _).bind fun _ _ => trivial
  refine (avoids_fetch_if fun hb => hi.trans_eq (h hb).1.symm).bind fun _ _ => ?_
  exact (avoids_fetch_if fun hb => hi.trans_eq (h hb).2.symm).bind fun _ _ => trivial

theorem printNode_avoids {node : RecordNode} (h : bad .outOfRange → FullNode ds node) :
    Avoids bad (fun _ => True) (printNode ds node) := by
  rw [printNode]
  refine (printValues_avoids (fun i hi => ?_) _).bind fun _ _ => trivial
  refine (avoids_fetch_if fun hb => hi.trans_eq (h hb).entry.1.symm).bind fun _ _ => ?_
  refine (avoids_fetch_if fun hb => hi.trans_eq (h hb).entry.2.symm).bind fun _ _ => ?_
  exact (avoids_fetch_if fun hb => hi.trans_eq (h hb).temps.symm).bind fun _ _ => trivial

/-- A thread that has a value for every slot wherever `dump` prints one. -/
structure Printable (ds : DataStore) (ts : ThreadStore) : Prop where
  nodes : FullNodes ds ts.currentTree
  slices : ∀ tss ∈ ts.timeSlice, SizedSlice ds tss.tree

theorem printSlice_avoids {tss : TimeSliceStore} (h : bad .outOfRange → SizedSlice ds tss.tree)
    (out : Bytes) : Avoids bad (fun _ => True) (printSlice ds out tss) := by
  rw [printSlice]
  refine avoids_foldlM (fun _ _ => True) _ (fun done it rest out he _ => ?_) trivial
  have hit : tss.tree[it.1]? = some it.2 := getElem?_of_split he
  exact (printBasic_avoids fun hb => h hb it.1 it.2 hit).bind fun _ _ => trivial

theorem dumpText_avoids (h : bad .outOfRange → Printable ds ts) (out : Bytes) :
    Avoids bad (fun _ => True) (dumpText ds out ts) := by
  rw [dumpText]
  have hnodes (out : Bytes) : Avoids bad (fun _ => True) (ts.currentTree.toList.foldlM
      (fun out it => printNode ds it.2 >>= fun node =>
        pure (out ++ LittleEndian.ascii "  Node:" ++ node ++ LittleEndian.ascii "\n"))
      out) := by
    refine avoids_foldlM (fun _ _ => True) _ (fun done it rest out he _ => ?_) trivial
    have hit : ts.currentTree[it.1]? = some it.2 := getElem?_of_split he
    exact (printNode_avoids fun hb => (h hb).nodes it.1 it.2 hit).bind fun _ _ => trivial
  apply (hnodes _).bind
  intro out _
  refine avoids_foldlM (fun _ _ => True) _ (fun done tss rest out he _ => ?_) trivial
  exact printSlice_avoids (fun hb => (h hb).slices tss (by rw [he]; simp)) out

theorem dumpStores_avoids {s : Stores} (h : ∀ u ∈ allThreads s, bad .outOfRange → Printable u.1 u.2) :
    Avoids bad (fun _ => True) (dumpStores s) := by
  have htargets (out : Bytes) : Avoids bad (fun _ => True)
      (s.targets.foldlM (fun out t => t.threads.foldlM (fun out p => dumpText t.ds out p.2) out) out) := by
    refine avoids_foldlM (fun _ _ => True) _ (fun done t rest out he _ => ?_) trivial
    refine avoids_foldlM (fun _ _ => True) _ (fun done' p rest' out he' _ => ?_) trivial
    have ht : t ∈ s.targets := by rw [he]; simp
    have hp : p ∈ t.threads := by rw [he']; simp
    exact dumpText_avoids (h (t.ds, p.2) (mem_allThreads.mpr (Or.inr ⟨t, ht, p, hp, rfl⟩))) out
  rw [dumpStores]
  split
  next => exact htargets []
  next g hg =>
    apply (dumpText_avoids (h (s.global.ds, g.ts) (mem_allThreads.mpr (Or.inl ⟨g, hg, rfl⟩))) _).bind
    exact fun out _ => htargets out

/-- What the check reads, where that counts: a node of the slices for every node of
the tree, and a value for every slot. -/
structure Checkable (bad : Fault → Prop) (ds : DataStore) (tree : Tree) (m : Slice) : Prop where
  found : bad .endDeref → ∀ k ∈ tree, k ∈ m
  nodes : bad .outOfRange → FullNodes ds tree
  sized : bad .outOfRange → SizedSlice ds m

theorem printDifference_avoids {m : Slice} (h : Checkable bad ds ts.currentTree m) {it : NodeID × RecordNode}
    (hit : ts.currentTree[it.1]? = some it.2) (out : Bytes) : Avoids bad (fun _ => True)
    (printDifference ds m out it) := by
  rw [printDifference]
  split
  next hnone =>
    intro hb
    obtain ⟨e, he⟩ := mem_iff_some.mp (h.found hb it.1 (mem_iff_some.mpr ⟨_, hit⟩))
    rw [he] at hnone
    cases hnone
  next e he =>
    split
    next => trivial
    next =>
      refine (printNode_avoids fun hb => h.nodes hb it.1 it.2 hit).bind fun _ _ => ?_
      exact (printBasic_avoids fun hb => h.sized hb it.1 e he).bind fun _ _ => trivial

theorem checkThread_avoids
    (h : Avoids bad (Checkable bad ds ts.currentTree) (merged gl ds ts 0 (ds.currentTimeNumber + 1).toNat)) :
    Avoids bad (fun r => Like ts r.1) (checkThread gl ds ts) := by
  obtain ⟨ts', hlike, out, hrun⟩ := checkThread_spec gl ds ts
  rw [hrun]
  apply h.bind
  intro m hm
  have hloop : Avoids bad (fun _ => True) (ts.currentTree.toList.foldlM (printDifference ds m) (out m)) := by
    refine avoids_foldlM (fun _ _ => True) _ (fun done it rest out he _ => ?_) trivial
    apply printDifference_avoids hm
    rw [← Std.TreeMap.mem_toList_iff_getElem?_eq_some, he]
    simp
  exact hloop.bind fun _ _ => hlike

end Llprof.Monitor.Printing
