import Llprof.Foundations.TreeListing
import Llprof.Monitor.DiffAnswers
import Llprof.Monitor.Telescope
import Llprof.Monitor.ThreadIds

namespace Llprof.Monitor.RangeAnswers

open Faulting hiding store
open Avoiding MachineIntegers TreeMaps TreeListing Timeline Slots Nodes Store SlotLoops TreeShape FlushSpec
  Slices MergeSlices Runs RunTotals Telescope Answers DiffAnswers ThreadIds

variable {gl : Settings} {ds : DataStore} {ts : ThreadStore} {i : ThreadID} {tree : Tree}

def shownAt (nodes : List RecordNodeBasic) (k : NodeID) : Option Entry :=
  (nodes.find? (fun n => n.id = k)).map entryOf

def callsIn (e : Option Entry) : LongLong := (e.map Entry.calls).getD 0

def valueIn (e : Option Entry) (s : Nat) : ProfileValue := (e.map (fun e => value e.all s)).getD 0

theorem callsIn_merge (ds : DataStore) (a b : Option Entry) :
    callsIn (Option.merge (Entry.add ds) a b) = callsIn a + callsIn b := by
  cases a <;> cases b <;> simp [callsIn, Entry.add]

theorem valueIn_merge {s : Nat} (hs : s < ds.numRecords)
    (hstatic : isStatic ds s = false) (a b : Option Entry) :
    valueIn (Option.merge (Entry.add ds) a b) s = valueIn a s + valueIn b s := by
  cases a <;> cases b <;> simp [valueIn, Entry.add, lastOrSum, value_slots _ hs, hstatic]

def placeOf (n : RecordNodeBasic) : NodeID × NodeID × NameID := (n.id, n.parentId, n.nodeName)

def Placed (tree : Tree) (slice : Slice) : Prop := ∀ (k : NodeID) (e : RecordNodeBasic), slice[k]? = some e →
  ∃ n, tree[k]? = some n ∧ placeOf e = (k, n.parentId, n.nodeName)

theorem accumulate_place (node rhs : RecordNodeBasic) :
    Avoids never (fun n => placeOf n = placeOf node) (node.accumulate ds rhs) := by
  refine Avoids.bind (P := fun n => placeOf n = placeOf node)
    (avoids_forRange ds.numRecords (fun n s hn => ?_) rfl) fun n hn => hn
  apply avoids_never_iff.mpr
  intro n' h
  obtain ⟨md, -, h⟩ := bind_eq_ok.mp h
  obtain ⟨all, -, h⟩ := bind_eq_ok.mp h
  obtain ⟨children, -, h⟩ := bind_eq_ok.mp h
  split at h
  all_goals
    obtain ⟨allValues, -, h⟩ := bind_eq_ok.mp h
    obtain ⟨childrenValues, -, h⟩ := bind_eq_ok.mp h
    cases h
    exact hn

theorem mergeNode_placed {integrated : Slice} (h : Placed ts.currentTree integrated)
    (it : NodeID × RecordNodeBasic) :
    Avoids never (Placed ts.currentTree) (mergeNode gl ds ts integrated it) := by
  have hnode : Avoids never (fun e => ∃ n, ts.currentTree[it.1]? = some n ∧
    placeOf e = (it.1, n.parentId, n.nodeName))
      (integratedNode gl ds ts integrated it.1) := by
    rw [integratedNode]
    split
    next e he => exact h it.1 e he
    next =>
      split
      next => exact id
      next n hn => exact ⟨n, hn, rfl⟩
  rw [mergeNode]
  apply hnode.bind
  rintro e ⟨n, hn, he⟩
  apply (accumulate_place e it.2).bind
  intro e' he' k d hd
  rw [getElem?_insert] at hd
  split at hd
  next hk =>
    cases hd
    subst hk
    exact ⟨n, hn, he'.trans he⟩
  next => exact h k d hd

theorem merged_placed (gl : Settings) (ds : DataStore) (ts : ThreadStore) (p1 : Int) (n : Nat) :
    Avoids never (Placed ts.currentTree) (merged gl ds ts p1 n) := by
  rw [merged]
  refine avoids_forRange _ (fun r j hr => ?_) fun k e he => ?_
  · exact avoids_foldlM (fun _ => Placed ts.currentTree) _ (fun _ it _ _ _ h => mergeNode_placed h it) hr
  · rw [Std.TreeMap.getElem?_emptyc] at he
    cases he

theorem ids_values {slice : Slice} (h : Placed tree slice) :
    slice.values.map (fun n => n.id) = slice.toList.map Prod.fst := by
  rw [values_eq_map, List.map_map]
  apply List.map_congr_left
  intro it hit
  obtain ⟨n, -, hplace⟩ := h it.1 it.2 (Std.TreeMap.mem_toList_iff_getElem?_eq_some.mp hit)
  exact (Prod.mk.inj hplace).1

theorem nodup_values {slice : Slice} (h : Placed tree slice) : (slice.values.map (fun n => n.id)).Nodup := by
  rw [ids_values h, List.Nodup, List.pairwise_map]
  apply (Std.TreeMap.ordered_keys_toList (t := slice)).imp
  intro p q hpq he
  rw [Nat.compare_eq_lt, he] at hpq
  exact Nat.lt_irrefl _ hpq

theorem mem_values {slice : Slice} (h : Placed tree slice) {e : RecordNodeBasic} :
    e ∈ slice.values ↔ slice[e.id]? = some e := by
  rw [values_eq_map, List.mem_map, ← Std.TreeMap.mem_toList_iff_getElem?_eq_some]
  constructor
  · rintro ⟨it, hit, rfl⟩
    obtain ⟨n, -, hplace⟩ := h it.1 it.2 (Std.TreeMap.mem_toList_iff_getElem?_eq_some.mp hit)
    rw [show it.2.id = it.1 from (Prod.mk.inj hplace).1]
    exact hit
  · exact fun hit => ⟨_, hit, rfl⟩

theorem shownAt_values {slice : Slice} (h : Placed tree slice) (k : NodeID) :
    shownAt slice.values k = deltaAt slice k := by
  rw [shownAt, deltaAt]
  congr 1
  cases hk : slice[k]? with
  | none =>
      rw [List.find?_eq_none]
      intro e he hid
      rw [mem_values h, of_decide_eq_true hid, hk] at he
      cases he
  | some e =>
      have hid : e.id = k := by
        obtain ⟨n, -, hplace⟩ := h k e hk
        exact (Prod.mk.inj hplace).1
      have hmem : e ∈ slice.values := (mem_values h).mpr (hid ▸ hk)
      obtain ⟨d, hd⟩ : ∃ d, slice.values.find? (fun n => n.id = k) = some d := by
        rw [← Option.isSome_iff_exists, List.find?_isSome]
        exact ⟨e, hmem, decide_eq_true hid⟩
      have hdid : d.id = k := by simpa using List.find?_some hd
      have hdk : slice[d.id]? = some d := (mem_values h).mp (List.mem_of_find?_eq_some hd)
      rw [hdid, hk] at hdk
      rw [hd, hdk]

theorem diffAnswer_run (hd : Described ds) (hoff : gl.leafNodeAccumulate = false)
    (hsingle : gl.singleTreeMode = false) {deliveries : List Delivery} (hw : WellFormedRun ds deliveries)
    (hu : UndisturbedRun ds deliveries) (hrun : storeAll gl ds (newThreadStore gl ds i) deliveries = .ok ts)
    (now p2 : Int) (names : Std.TreeMap NameID LittleEndian.Bytes) (b : Int) (n : Nat)
    (hstop : stopOf { ds with currentTimeNumber := now, nameTable := names } p2 = b + n) :
    ∃ ts' nodes last, diffAnswer gl { ds with currentTimeNumber := now, nameTable := names } ts (b + 1) p2 =
        .ok (ts', ⟨i, .diff nodes last⟩) ∧
      (nodes.map (fun e => e.id)).Nodup ∧
      (∀ e ∈ nodes, linkOf (logOf deliveries) e.id = some (e.parentId, e.nodeName)) ∧
      ∀ k, dataAt (treeAfter gl ds i (through Delivery.time deliveries (b + n))) k =
        Option.merge (Entry.add ds) (dataAt (treeAfter gl ds i (through Delivery.time deliveries b)) k)
          (shownAt nodes k) := by
  obtain ⟨ts₀, rank, hrun₀, hreached, -⟩ := storeAll_sliced gl hd hoff hsingle i hw hu
  obtain rfl := Except.ok.inj (hrun.symm.trans hrun₀)
  obtain ⟨st, hst, -, -, -, hall⟩ := slices_merge hd hoff hsingle hw hu hrun b n
  obtain ⟨ts', -, hanswer⟩ :=
    diffAnswer_spec gl { ds with currentTimeNumber := now, nameTable := names } ts (b + 1) p2
  have hlen : (b + n + 1 - (b + 1)).toNat = n := by omega
  obtain ⟨m, hm, hmst⟩ : ∃ m, merged gl ds ts (b + 1) n = .ok m ∧ m = st.integrated := by
    obtain ⟨ts₁, last, hmerge, -⟩ := mergeTimes_spec gl ds ts (b + 1) n
    rw [mergeTimeSlice, hlen, hmerge] at hst
    obtain ⟨m, hm, hst⟩ := bind_eq_ok.mp hst
    cases hst
    exact ⟨m, hm, rfl⟩
  have hplaced : Placed ts.currentTree m := avoids_never_iff.mp (merged_placed gl ds ts (b + 1) n) m hm
  have hsame : merged gl { ds with currentTimeNumber := now, nameTable := names } ts (b + 1) n =
    merged gl ds ts (b + 1) n := rfl
  rw [hstop, hlen, hsame, hm, ok_bind, storeAll_threadId hrun] at hanswer
  refine ⟨ts', m.values, _, hanswer, nodup_values hplaced, fun e he => ?_, fun k => ?_⟩
  · obtain ⟨n, hn, hplace⟩ := hplaced e.id e ((mem_values hplaced).mp he)
    rw [placeOf, Prod.mk.injEq, Prod.mk.injEq] at hplace
    rw [← hreached.links e.id, hn, hplace.2.1, hplace.2.2]
    rfl
  · rw [shownAt_values hplaced, hmst]
    exact hall k

end Llprof.Monitor.RangeAnswers
