import Llprof.Foundations.Timeline
import Llprof.Monitor.Slices

namespace Llprof.Monitor.MergeSlices

open Faulting hiding store
open MachineIntegers TreeMaps Slots Timeline Nodes SlotLoops TreeShape FlushSpec Slices

/-- The node of the result for an id of a slice. Of a node that the tree does not
know, `current_tree_[id]` adds one whose parent is never set. -/
def integratedNode (gl : Settings) (ds : DataStore) (ts : ThreadStore) (integrated : Slice) (id : NodeID) :
    Run RecordNodeBasic :=
  match integrated[id]? with
  | some node => .ok node
  | none =>
      match ts.getNodeFromID id with
      | none => .error .indeterminate
      | some cur => .ok { emptyBasic.setDataStore gl ds false with
          id
          parentId := cur.parentId
          nodeName := cur.nodeName }

/-- One turn of the inner loop of `MergeTimeSlice`. -/
def mergeNode (gl : Settings) (ds : DataStore) (ts : ThreadStore) (integrated : Slice)
    (it : NodeID × RecordNodeBasic) : Run Slice := do
  let node ← integratedNode gl ds ts integrated it.1
  let node ← node.accumulate ds it.2
  return integrated.insert it.1 node

/-- The state of `MergeTimeSlice`: the result is the position of the last slice. -/
structure Merging where
  ts : ThreadStore
  integrated : Slice
  lastTss : Option Nat

def mergeTime (gl : Settings) (ds : DataStore) (st : Merging) (t : Int) : Run Merging :=
  match st.ts.getTimeSlice t with
  | (ts, none) => .ok { st with ts }
  | (ts, some i) => do
      let tss ← fetch ts.timeSlice i
      let integrated ← tss.tree.toList.foldlM (mergeNode gl ds ts) st.integrated
      return { ts, integrated, lastTss := some i }

def mergeTimeSlice (gl : Settings) (ds : DataStore) (ts : ThreadStore)
    (integrated : Slice) (start stop : Int) : Run Merging :=
  forRange (stop + 1 - start).toNat (fun st i => mergeTime gl ds st (start + i)) ⟨ts, integrated, none⟩

def checkNode (integrated : Slice) (errors : List NodeID) (it : NodeID × RecordNode) : Run (List NodeID) :=
  match integrated[it.1]? with
  | none => .error .endDeref
  | some node => .ok (if it.2.toRecordNodeBasic.valuesEquals node then errors else errors ++ [it.1])

def checkAllTimeSlice (gl : Settings) (ds : DataStore) (ts : ThreadStore) : Run (List NodeID) := do
  let st ← mergeTimeSlice gl ds ts ∅ 0 ds.currentTimeNumber
  st.ts.currentTree.toList.foldlM (checkNode st.integrated) []

/-- The data of a node that slices are about. -/
structure Entry where
  all : List ProfileValue
  children : List ProfileValue
  calls : LongLong
  deriving DecidableEq, Repr

def entryOf (n : RecordNodeBasic) : Entry := ⟨n.allValues, n.childrenValues, n.callCount⟩

def lastOrSum (ds : DataStore) (a b : List ProfileValue) : List ProfileValue :=
  slots ds.numRecords (fun i => if isStatic ds i then value b i else value a i + value b i)

def Entry.add (ds : DataStore) (a b : Entry) : Entry :=
  ⟨lastOrSum ds a.all b.all, lastOrSum ds a.children b.children, a.calls + b.calls⟩

def Entry.Sized (ds : DataStore) (e : Entry) : Prop :=
  e.all.length = ds.numRecords ∧ e.children.length = ds.numRecords

def dataAt (tree : Tree) (k : NodeID) : Option Entry := (tree[k]?).map (fun n => entryOf n.toRecordNodeBasic)

def deltaAt (slice : Slice) (k : NodeID) : Option Entry := (slice[k]?).map entryOf

def SizedSlice (ds : DataStore) (slice : Slice) : Prop :=
  ∀ (k : NodeID) (e : RecordNodeBasic), slice[k]? = some e → (entryOf e).Sized ds

variable {gl : Settings} {ds : DataStore}

theorem sizedSlice_empty : SizedSlice ds ∅ := by
  intro k e he
  rw [Std.TreeMap.getElem?_emptyc] at he
  cases he

theorem lastOrSum_assoc (a b c : List ProfileValue) :
    lastOrSum ds (lastOrSum ds a b) c = lastOrSum ds a (lastOrSum ds b c) := by
  refine slots_congr fun i hi => ?_
  rw [lastOrSum, lastOrSum, value_slots _ hi, value_slots _ hi]
  cases isStatic ds i with
  | true => rfl
  | false => simp [add_assoc]

theorem Entry.add_assoc (a b c : Entry) : (a.add ds b).add ds c = a.add ds (b.add ds c) := by
  simp only [Entry.add, lastOrSum_assoc, BitVec.add_assoc]

theorem Entry.sized_add (a b : Entry) : (a.add ds b).Sized ds := ⟨length_slots _ _, length_slots _ _⟩

theorem lastOrSum_zero {b : List ProfileValue} (hb : b.length = ds.numRecords) :
    lastOrSum ds (slots ds.numRecords (fun _ => 0)) b = b := by
  refine Eq.trans (slots_congr fun i hi => ?_) (slots_value hb)
  rw [value_slots _ hi]
  cases isStatic ds i <;> simp

theorem accumulate_entry (hd : Described ds) {node rhs : RecordNodeBasic} (hn : (entryOf node).Sized ds)
    (hr : (entryOf rhs).Sized ds) :
    ∃ node', node.accumulate ds rhs = .ok node' ∧ entryOf node' = (entryOf node).add ds (entryOf rhs) :=
  ⟨_, accumulate_eq hd (slots_value hn.1).symm (slots_value hn.2).symm (slots_value hr.1).symm (slots_value hr.2).symm, rfl⟩

theorem mergeNode_ok (gl : Settings) (hd : Described ds) {ts : ThreadStore} {integrated : Slice}
    {k : NodeID} {e : RecordNodeBasic} (hk : ∃ n, ts.currentTree[k]? = some n) (hs : SizedSlice ds integrated)
    (he : (entryOf e).Sized ds) :
    ∃ integrated', mergeNode gl ds ts integrated (k, e) = .ok integrated' ∧ SizedSlice ds integrated' ∧
      ∀ j : NodeID, deltaAt integrated' j = if j = k then
        Option.merge (Entry.add ds) (deltaAt integrated k) (some (entryOf e)) else deltaAt integrated j := by
  obtain ⟨n, hn⟩ := hk
  obtain ⟨node, hnode, hsize, hmerge⟩ : ∃ node, integratedNode gl ds ts integrated k = .ok node ∧
      (entryOf node).Sized ds ∧
      some ((entryOf node).add ds (entryOf e)) =
        Option.merge (Entry.add ds) (deltaAt integrated k) (some (entryOf e)) := by
    rw [integratedNode, deltaAt]
    cases hi : integrated[k]? with
    | some node => exact ⟨node, rfl, hs k node hi, rfl⟩
    | none =>
        have hzero : entryOf { emptyBasic.setDataStore gl ds false with
            id := k
            parentId := n.parentId
            nodeName := n.nodeName } = ⟨slots ds.numRecords (fun _ => 0),
              slots ds.numRecords (fun _ => 0), 0⟩ := by
          simp [entryOf, RecordNodeBasic.setDataStore, emptyBasic, resize_nil]
        refine ⟨_, by rw [ThreadStore.getNodeFromID, hn], ?_, ?_⟩
        · rw [hzero]
          exact ⟨length_slots _ _, length_slots _ _⟩
        · rw [hzero, Entry.add, lastOrSum_zero he.1, lastOrSum_zero he.2]
          dsimp only
          rw [zero_add]
          rfl
  obtain ⟨node', hacc, hentry⟩ := accumulate_entry hd hsize he
  refine ⟨integrated.insert k node', ?_, ?_, ?_⟩
  · rw [mergeNode, hnode, ok_bind, hacc, ok_bind, pure_eq_ok]
  · intro j m hj
    rw [getElem?_insert] at hj
    split at hj
    · cases hj
      rw [hentry]
      exact Entry.sized_add _ _
    · exact hs j m hj
  · intro j
    rw [deltaAt, getElem?_insert]
    split
    · rw [Option.map_some, hentry, hmerge]
    · rfl

theorem mergeNodes_ok (gl : Settings) (hd : Described ds) (ts : ThreadStore)
    {integrated : Slice} (slice : Slice)
    (hk : ∀ (k : NodeID) (e : RecordNodeBasic), slice[k]? = some e → ∃ n, ts.currentTree[k]? = some n)
    (hs : SizedSlice ds integrated) (he : SizedSlice ds slice) :
    ∃ integrated', slice.toList.foldlM (mergeNode gl ds ts) integrated = .ok integrated' ∧
      SizedSlice ds integrated' ∧
      ∀ k, deltaAt integrated' k = Option.merge (Entry.add ds) (deltaAt integrated k) (deltaAt slice k) := by
  obtain ⟨integrated', hrun, hsize, hall⟩ := foldlM_total (f := mergeNode gl ds ts)
    (fun (done : List (NodeID × RecordNodeBasic)) (cur : Slice) => SizedSlice ds cur ∧
      ∀ k, deltaAt cur k = Option.merge (Entry.add ds) (deltaAt integrated k)
        (if k ∈ done.map Prod.fst then deltaAt slice k else none))
    slice.toList
    (by
      rintro done ⟨k, e⟩ rest cur hsplit ⟨hsize, hcur⟩
      have hmem : slice[k]? = some e := by
        rw [← Std.TreeMap.mem_toList_iff_getElem?_eq_some, hsplit]
        simp
      have hnew : k ∉ done.map Prod.fst := by
        intro hm
        have hdist := Std.TreeMap.nodup_keys (t := slice)
        rw [← Std.TreeMap.map_fst_toList_eq_keys, hsplit, List.map_append, List.map_cons] at hdist
        exact (List.nodup_append.mp hdist).2.2 k hm k List.mem_cons_self rfl
      obtain ⟨next, hrun, hsize', hnext⟩ := mergeNode_ok gl hd (hk k e hmem) hsize (he k e hmem)
      refine ⟨next, hrun, hsize', fun j => ?_⟩
      rw [hnext, List.map_append]
      by_cases hj : j = k
      · subst hj
        rw [if_pos rfl, hcur, if_neg hnew, if_pos (by simp), deltaAt, deltaAt, hmem]
        cases integrated[j]? <;> rfl
      · rw [if_neg hj, hcur]
        exact congrArg _ (if_congr (by simp [hj]) rfl rfl))
    (s := integrated) ⟨hs, fun k => by simp⟩
  refine ⟨integrated', hrun, hsize, fun k => ?_⟩
  rw [hall k]
  by_cases hm : k ∈ slice.toList.map Prod.fst
  · rw [if_pos hm]
  · rw [if_neg hm]
    have hnone : slice[k]? = none := by
      rw [Option.eq_none_iff_forall_ne_some]
      intro e hke
      exact hm (List.mem_map.mpr ⟨(k, e), Std.TreeMap.mem_toList_iff_getElem?_eq_some.mpr hke, rfl⟩)
    rw [show deltaAt slice k = none by rw [deltaAt, hnone, Option.map_none]]

structure SlicesOk (ds : DataStore) (ts : ThreadStore) : Prop where
  known : ∀ (u : Int) (k : NodeID) (e : RecordNodeBasic), (sliceAt ts u)[k]? = some e →
    ∃ n, ts.currentTree[k]? = some n
  sized : ∀ u : Int, SizedSlice ds (sliceAt ts u)

theorem mergeTime_ok (gl : Settings) (hd : Described ds) {ts : ThreadStore}
    (hts : SlicesOk ds ts) {integrated : Slice} (hs : SizedSlice ds integrated)
    (last : Option Nat) (t : Int) :
    ∃ st, mergeTime gl ds ⟨ts, integrated, last⟩ t = .ok st ∧ st.ts.currentTree = ts.currentTree ∧
      (∀ u, sliceAt st.ts u = sliceAt ts u) ∧ SizedSlice ds st.integrated ∧
      ∀ k, deltaAt st.integrated k = Option.merge (Entry.add ds) (deltaAt integrated k)
        (deltaAt (sliceAt ts t) k) := by
  by_cases hreach : ts.timeSlice = [] ∨ ts.startTimeNumber ≤ t
  · obtain ⟨slices, tss, hget, -, htss, htree, hsame⟩ := getTimeSlice_some hreach
    obtain ⟨integrated', hrun, hsize, hmerge⟩ := mergeNodes_ok gl hd
      { ts with startTimeNumber := ts.startFor t, timeSlice := slices } tss.tree
      (by rw [htree]; exact hts.known t) hs (by rw [htree]; exact hts.sized t)
    refine ⟨⟨{ ts with startTimeNumber := ts.startFor t, timeSlice := slices }, integrated',
      some (t - ts.startFor t).toNat⟩, ?_, rfl, hsame, hsize, ?_⟩
    · rw [mergeTime, hget]
      dsimp only
      rw [fetch_eq_ok.mpr htss, ok_bind, hrun, ok_bind, pure_eq_ok]
    · rw [← htree]
      exact hmerge
  · rw [not_or, not_le] at hreach
    have hfor : ts.startFor t = ts.startTimeNumber := by
      rw [ThreadStore.startFor, if_neg (by rw [List.isEmpty_iff]; exact hreach.1)]
    refine ⟨⟨{ ts with startTimeNumber := ts.startFor t }, integrated, last⟩, ?_, rfl, ?_, hs, ?_⟩
    · rw [mergeTime, ThreadStore.getTimeSlice]
      simp only [hfor, if_pos hreach.2]
    · intro u
      simp only [hfor]
    · intro k
      rw [show deltaAt (sliceAt ts t) k = none by
        rw [sliceAt, if_pos hreach.2, deltaAt, Std.TreeMap.getElem?_emptyc, Option.map_none],
        Option.merge_none_right]

/-- `MergeTimeSlice` gathers the slices of its times, and leaves the thread store
as it was. -/
theorem mergeTimeSlice_ok (gl : Settings) (hd : Described ds) {ts : ThreadStore}
    (hts : SlicesOk ds ts) (b : Int) (n : Nat) :
    ∃ st, mergeTimeSlice gl ds ts ∅ (b + 1) (b + n) = .ok st ∧ st.ts.currentTree = ts.currentTree ∧
      SizedSlice ds st.integrated ∧
      ∀ k, deltaAt st.integrated k = gathered (Entry.add ds) (fun t => deltaAt (sliceAt ts t) k) b n := by
  obtain ⟨st, hrun, htree, -, hsize, hall⟩ := forRange_total n
    (fun i (st : Merging) => st.ts.currentTree = ts.currentTree ∧ (∀ u, sliceAt st.ts u = sliceAt ts u) ∧
      SizedSlice ds st.integrated ∧
      ∀ k, deltaAt st.integrated k = gathered (Entry.add ds) (fun t => deltaAt (sliceAt ts t) k) b i)
    (f := fun st i => mergeTime gl ds st (b + 1 + i))
    (by
      rintro i ⟨ts₁, integrated, last⟩ - ⟨htree, hslice, hsize, hall⟩
      have hts₁ : SlicesOk ds ts₁ := by
        refine ⟨fun u k e he => ?_, fun u => ?_⟩
        · rw [hslice] at he
          rw [htree]
          exact hts.known u k e he
        · rw [hslice]
          exact hts.sized u
      obtain ⟨st', hrun, htree', hslice', hsize', hmerge⟩ := mergeTime_ok gl hd hts₁ hsize last (b + 1 + i)
      refine ⟨st', hrun, htree'.trans htree, fun u => (hslice' u).trans (hslice u), hsize', fun k => ?_⟩
      rw [hmerge, hall, hslice, gathered_succ])
    (s := ⟨ts, ∅, none⟩) ⟨rfl, fun _ => rfl, sizedSlice_empty, fun k => rfl⟩
  refine ⟨st, ?_, htree, hsize, hall⟩
  rw [mergeTimeSlice, show (b + n + 1 - (b + 1)).toNat = n by omega]
  exact hrun

end Llprof.Monitor.MergeSlices
