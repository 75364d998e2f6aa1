import Llprof.Monitor.FlushWalk
import Llprof.Monitor.Slices

namespace Llprof.Monitor.FlushOutcome

open Faulting hiding store
open ParentTree TreeMaps Nodes Store SlotLoops TreeShape FlushSpec FlushWalk Slices

variable {ds : DataStore} {rank : NodeID → Nat} {f : NodeID → Nat → ProfileValue}

theorem below_root {tree : Tree} (hr : Rooted tree rank) {k : NodeID} {n : RecordNode}
    (hk : tree[k]? = some n) : Below (parentOf tree) 1 k := by
  induction h : rank k using Nat.strong_induction_on generalizing k n with
  | _ m ih =>
      by_cases h1 : k = 1
      · rw [h1]
        exact Below.refl 1
      · obtain ⟨p, hp⟩ := hr.parent k n hk h1
        have hpar := parentOf_eq_some.mpr ⟨n, hk, rfl⟩
        have := hr.rank_child hpar
        exact (ih _ (by omega) hp rfl).up hpar

theorem sliceAt_set {ts : ThreadStore} {slices : List TimeSliceStore} {start t : Int} (hstart : start ≤ t)
    {tss tss' : TimeSliceStore} (hi : slices[(t - start).toNat]? = some tss) (tree : Tree) (u : Int) :
    sliceAt { ts with
        currentTree := tree
        startTimeNumber := start
        timeSlice := slices.set (t - start).toNat tss' } u =
      if u = t then tss'.tree else sliceAt { ts with startTimeNumber := start, timeSlice := slices } u := by
  have hlt := (List.getElem?_eq_some_iff.mp hi).1
  by_cases hu : u = t
  · rw [if_pos hu, hu, sliceAt]
    dsimp only
    rw [if_neg (not_lt.mpr hstart), List.getElem?_set_self hlt, Option.map_some, Option.getD_some]
  · rw [if_neg hu, sliceAt, sliceAt]
    dsimp only
    split
    · rfl
    · rw [List.getElem?_set_ne (by omega)]

theorem flush_after (gl : Settings) (ts : ThreadStore)
    (htime : ts.timeSlice = [] ∨ ts.startTimeNumber ≤ ds.currentTimeNumber)
    (H : Ready ds ts.attrNodeMap ts.currentTree (sliceAt ts ds.currentTimeNumber) rank)
    (hf : Settles ds ts.attrNodeMap ts.currentTree f) : ∃ ts', flush gl ds ts = .ok ts' ∧
      (∀ k, After ds ts.attrNodeMap ts.currentTree f (fun _ => True)
        ⟨ts.currentTree, sliceAt ts ds.currentTimeNumber⟩
        ⟨ts'.currentTree, sliceAt ts' ds.currentTimeNumber⟩ k) ∧
      (∀ u, u ≠ ds.currentTimeNumber → sliceAt ts' u = sliceAt ts u) ∧
      (ts'.timeSlice ≠ [] ∧ ts'.startTimeNumber = ts.startFor ds.currentTimeNumber) ∧
      ts' = { ts with
        currentTree := ts'.currentTree
        startTimeNumber := ts'.startTimeNumber
        timeSlice := ts'.timeSlice } := by
  obtain ⟨slices, tss, hget, hstart, hi, htree, hsame⟩ := getTimeSlice_some htime
  obtain ⟨r, hr, -⟩ := H.rooted.root
  obtain ⟨s', hrun, hafter⟩ := clearDirtyNode_clears (g := gl) H hf (ts.currentTree.size + 1) 1 r
    ⟨ts.currentTree, tss.tree⟩ hr (by omega) (SamePlaces.refl _) (fun j _ => ⟨rfl, by rw [htree]⟩)
    (by
      intro ha p c a hp hc hca
      have hp0 : p = 0 := by
        obtain ⟨n, hn, h0⟩ := H.rooted.root
        rw [parentOf, hn, Option.map_some, h0, Option.some.injEq] at hp
        exact hp.symm
      subst hp0
      have hc1 := H.rooted.root_unique hc
      subst hc1
      rw [ha] at hca
      cases hca)
  refine ⟨{ ts with
      currentTree := s'.tree
      startTimeNumber := ts.startFor ds.currentTimeNumber
      timeSlice := slices.set (ds.currentTimeNumber - ts.startFor ds.currentTimeNumber).toNat
        { tss with tree := s'.slice, nowValues := ts.nowValues, runningNode := ts.runningNode } },
    ?_, ?_, ?_, ⟨?_, rfl⟩, rfl⟩
  · rw [flush, hget]
    dsimp only
    rw [fetch_eq_ok.mpr hi, ok_bind, hrun, ok_bind, pure_eq_ok]
  · intro k
    have hk := (hafter k).congr (T := fun _ => True) (fun hd => by
      obtain ⟨n, hn, -⟩ := dirtyAt_some hd
      exact iff_of_true (below_root H.rooted hn) trivial)
    rw [After, sliceAt_set hstart hi, if_pos rfl]
    rw [After, htree] at hk
    exact hk
  · intro u hu
    rw [sliceAt_set hstart hi, if_neg hu, hsame]
  · intro h
    have hlt := (List.getElem?_eq_some_iff.mp hi).1
    rw [List.set_eq_nil_iff] at h
    rw [h] at hlt
    cases hlt

end Llprof.Monitor.FlushOutcome
