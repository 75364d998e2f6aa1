import Llprof.Monitor.OperationFrame
import Llprof.Monitor.ParentOrder

namespace Llprof.Monitor.OrderedThreads

open Faulting hiding store
open Avoiding TreeMaps Nodes Store TreeShape SliceFrame SliceContents Linkage ParentOrder FlushFrame Ticks
  Runs TickFrame OperationFrame
open LittleEndian (Bytes)
open Profiler.CallTree (MethodNodeSerializedInfo)

variable {gl : Settings} {ds : DataStore} {ts ts' : ThreadStore} {threads : Threads} {id : ThreadID}

def belowRoot (log : List MethodNodeSerializedInfo) : List MethodNodeSerializedInfo :=
  log.filter (fun r => decide (r.callNodeId ≠ 1))

/-- A log that goes down from the root: the ids grow, and the parent of a record is the
root or has a record before. In attribute mode the nodes that `hash` names are leaves. -/
structure Descends (gl : Settings) (hash : NameID → Prop) (log : List MethodNodeSerializedInfo) : Prop where
  grows : ∀ r ∈ log, Grows gl r
  parents : ∀ done r rest, log = done ++ r :: rest → r.callNodeId ≠ 1 →
    r.parentNodeId = 1 ∨ ∃ q ∈ done, q.callNodeId = r.parentNodeId
  leaves : gl.leafNodeAccumulate = true → ∀ q ∈ log, q.callNodeId ≠ 1 → hash q.nameid →
    ∀ r ∈ log, r.callNodeId ≠ 1 → r.parentNodeId ≠ q.callNodeId

theorem mem_belowRoot {log : List MethodNodeSerializedInfo} {r : MethodNodeSerializedInfo} :
    r ∈ belowRoot log ↔ r ∈ log ∧ r.callNodeId ≠ 1 := by
  rw [belowRoot, List.mem_filter, decide_eq_true_iff]

theorem belowRoot_append (log log' : List MethodNodeSerializedInfo) :
    belowRoot (log ++ log') = belowRoot log ++ belowRoot log' := List.filter_append ..

theorem Descends.linkable {hash : NameID → Prop} {log : List MethodNodeSerializedInfo}
    (h : Descends gl hash log) : Linkable gl hash (belowRoot log) := by
  refine ⟨fun r hr => ?_, fun done r rest he => ?_, fun hon r hr => ?_, fun hon q hq hx r hr => ?_⟩
  · obtain ⟨hmem, h1⟩ := mem_belowRoot.mp hr
    exact (Nat.zero_lt_of_lt (h.grows r hmem h1).1).ne'
  · obtain ⟨done', rest', rfl, rfl, hrest⟩ := List.filter_eq_append_iff.mp he
    obtain ⟨skipped, more, rfl, hskipped, hr, -⟩ := List.filter_eq_cons_iff.mp hrest
    have h1 : r.callNodeId ≠ 1 := decide_eq_true_iff.mp hr
    rcases h.parents (done' ++ skipped) r more (by simp) h1 with hroot | ⟨q, hq, hp⟩
    · exact Or.inl hroot
    · by_cases hq1 : q.callNodeId = 1
      · exact Or.inl (hp.symm.trans hq1)
      · refine Or.inr ⟨q, ?_, hp⟩
        rcases List.mem_append.mp hq with hq | hq
        · exact mem_belowRoot.mpr ⟨hq, hq1⟩
        · exact absurd (decide_eq_true_iff.mpr hq1) (hskipped q hq)
  · obtain ⟨hmem, h1⟩ := mem_belowRoot.mp hr
    exact (h.grows r hmem h1).2 hon
  · obtain ⟨hq, hq1⟩ := mem_belowRoot.mp hq
    obtain ⟨hr, hr1⟩ := mem_belowRoot.mp hr
    exact h.leaves hon q hq hq1 hx r hr hr1

theorem newThreadStore_inOrder (hash : NameID → Prop) (log : List MethodNodeSerializedInfo) (id : ThreadID) :
    InOrder gl hash log [] (newThreadStore gl ds id) := by
  have htree := newThreadStore_tree gl ds id
  have hmap : (newThreadStore gl ds id).attrNodeMap = ∅ := rfl
  have halt : (newThreadStore gl ds id).attrNodeIdAlt = ∅ := rfl
  have hindex : (newThreadStore gl ds id).currentAttrNodeIdIndex = 0xFF000000 := rfl
  refine ⟨newThreadStore_processed hash log id, ⟨fun k n hk => ?_, ?_, fun k p hp => ?_, hindex.ge, fun _ k hk => ?_,
    fun k a ha => ?_, fun q a ha => ?_⟩, fun u => ?_⟩
  · rw [htree] at hk
    split at hk
    next h1 =>
      cases hk
      rw [h1]
      exact ⟨rfl, Nat.one_pos, fun _ => rfl⟩
    next => cases hk
  · rw [mem_iff_some, htree]
    exact ⟨_, rfl⟩
  · rw [parentOf, Std.TreeMap.getElem?_emptyc] at hp
    cases hp
  · obtain ⟨n, hn⟩ := mem_iff_some.mp hk
    rw [htree] at hn
    split at hn
    next h1 =>
      rw [h1, hindex]
      decide
    next => cases hn
  · rw [halt, Std.TreeMap.getElem?_emptyc] at ha
    cases ha
  · rw [hmap, Std.TreeMap.getElem?_emptyc] at ha
    cases ha
  · rw [contentAt_nil (newThreadStore_slices gl ds id)]
    exact closed_empty _

def batchesOf (id : ThreadID) (calls : List StoreCall) : List MethodNodeSerializedInfo :=
  calls.flatMap (fun call => if call.thread = id then call.batch else [])

theorem batchesOf_append (id : ThreadID) (calls calls' : List StoreCall) :
    batchesOf id (calls ++ calls') = batchesOf id calls ++ batchesOf id calls' := List.flatMap_append

theorem batchesOf_singleton (id : ThreadID) (call : StoreCall) :
    batchesOf id [call] = if call.thread = id then call.batch else [] := List.flatMap_singleton ..

/-- The threads of a target which has given `seen` of the records `log`. -/
structure ThreadsInOrder (gl : Settings) (hash : NameID → Prop)
    (log seen : ThreadID → List MethodNodeSerializedInfo) (threads : Threads) : Prop where
  sorted : SortedThreads threads
  inOrder : ∀ p ∈ threads, InOrder gl hash (belowRoot (log p.1)) (belowRoot (seen p.1)) p.2
  fresh : ∀ id, (∀ p ∈ threads, p.1 ≠ id) → belowRoot (seen id) = []

theorem storeCall_inOrder {hash : NameID → Prop} {log seen : ThreadID → List MethodNodeSerializedInfo}
    (hhash : gl.leafNodeAccumulate = true → ∀ x, isAttrName (ds.getNameFromID x) = true → hash x)
    (hlog : ∀ id, Descends gl hash (log id)) {call : StoreCall}
    (hseen : ∃ rest, log call.thread = seen call.thread ++ call.batch ++ rest)
    (h : ThreadsInOrder gl hash log seen threads) :
    Avoids lost (ThreadsInOrder gl hash log (fun id => seen id ++ batchesOf id [call]))
      (storeCall gl ds threads call) := by
  obtain ⟨rest, hrest⟩ := hseen
  have hbatch {r : MethodNodeSerializedInfo} (hr : r ∈ call.batch) : r ∈ log call.thread := by
    rw [hrest]
    exact List.mem_append_left _ (List.mem_append_right _ hr)
  have hstart : InOrder gl hash (belowRoot (log call.thread)) (belowRoot (seen call.thread))
      (threadOf gl ds threads call.thread) := by
    rw [threadOf]
    cases hlook : threads.lookup call.thread with
    | some ts => exact h.inOrder _ (mem_of_lookup hlook)
    | none =>
        have hnone : ∀ p ∈ threads, p.1 ≠ call.thread := fun p hp he => by
          have := List.lookup_eq_none_iff.mp hlook p hp
          rw [he] at this
          simp at this
        rw [h.fresh _ hnone, Option.getD_none]
        exact newThreadStore_inOrder hash _ _
  have hsplit : belowRoot (log call.thread) = belowRoot (seen call.thread) ++
      belowRoot call.batch ++ belowRoot rest := by
    rw [hrest, belowRoot_append, belowRoot_append]
  have hstore :=
    store_inOrder (p := fun r => decide (r.callNodeId ≠ 1)) hhash (hlog call.thread).linkable hsplit
      (fun r hr h1 => ⟨by simpa using h1, fun q hq => (mem_belowRoot.mp hq).2⟩)
      (fun r hr => (hlog call.thread).grows r (hbatch hr)) hstart call.now
  rw [storeCall]
  apply hstore.bind
  intro ts hts
  have hother {id : ThreadID} (hid : id ≠ call.thread) : seen id ++ batchesOf id [call] = seen id := by
    rw [batchesOf_singleton, if_neg (Ne.symm hid), List.append_nil]
  refine ⟨sorted_putThread h.sorted _ _, fun p hp => ?_, fun id hid => ?_⟩
  · rcases putThread_unique h.sorted hp with rfl | ⟨hp, hne⟩
    · rw [batchesOf_singleton, if_pos rfl, belowRoot_append]
      exact hts
    · rw [hother hne]
      exact h.inOrder p hp
  · have hne : id ≠ call.thread := fun he => hid _ (exists_putThread _ _ _) he.symm
    rw [hother hne]
    refine h.fresh id fun p hp he => ?_
    obtain ⟨q, hq, hqp⟩ := kept_putThread threads call.thread ts hp
    exact hid q hq (hqp.trans he)

theorem storeCalls_inOrder {hash : NameID → Prop} {log seen : ThreadID → List MethodNodeSerializedInfo}
    (hhash : gl.leafNodeAccumulate = true → ∀ x, isAttrName (ds.getNameFromID x) = true → hash x)
    (hlog : ∀ id, Descends gl hash (log id)) {calls : List StoreCall}
    (hseen : ∀ id, ∃ rest, log id = seen id ++ batchesOf id calls ++ rest)
    (h : ThreadsInOrder gl hash log seen threads) :
    Avoids lost (ThreadsInOrder gl hash log (fun id => seen id ++ batchesOf id calls))
      (calls.foldlM (storeCall gl ds) threads) := by
  refine avoids_foldlM (fun done => ThreadsInOrder gl hash log (fun id => seen id ++ batchesOf id done)) calls
    ?_ ?_
  · intro done call more threads' he h'
    obtain ⟨rest, hrest⟩ := hseen call.thread
    have hsplit : log call.thread = seen call.thread ++ batchesOf call.thread done ++ call.batch ++
        (batchesOf call.thread more ++ rest) := by
      rw [hrest, he, ← List.singleton_append, batchesOf_append, batchesOf_append,
        batchesOf_singleton, if_pos rfl]
      simp only [List.append_assoc]
    apply (storeCall_inOrder hhash hlog ⟨_, hsplit⟩ h').mono
    intro threads'' h''
    simp only [batchesOf_append, ← List.append_assoc] at h'' ⊢
    exact h''
  · have hnil : (fun id => seen id ++ batchesOf id []) = seen := funext fun id => List.append_nil _
    rw [hnil]
    exact h

end Llprof.Monitor.OrderedThreads
