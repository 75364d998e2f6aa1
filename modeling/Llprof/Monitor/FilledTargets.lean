import Llprof.Monitor.FilledThreads
import Llprof.Monitor.OrderedStores

namespace Llprof.Monitor.FilledTargets

open Faulting hiding store
open TreeMaps Nodes Store SlotLoops Slices SliceFrame StoreSpec Ticks OperationFrame OrderedThreads
  IntegrationSlots FilledThreads
open LittleEndian (Bytes)
open Runs (WellFormedBatch linkOf seedOf Linked)
open OrderedStores (recordsIn namesIn logOf namesOf logOf_snoc named exchanged_keeps)
open Profiler.CallTree (MethodNodeSerializedInfo)

def callsIn : Reception → List StoreCall
  | .silent => []
  | .drained _ _ calls => calls

def tableOf (rs : List Reception) : Std.TreeMap NameID Bytes :=
  (namesOf rs).foldl (fun table name => table.insert name.1 name.2) ∅

/-- The slots and names of a target that has given `rs`. -/
def descriptionOf (md : List RecordMetadata) (rs : List Reception) : DataStore :=
  { currentTimeNumber := 0, recordMetadata := md, numRecords := md.length, nameTable := tableOf rs }

/-- The batches of a reception, at most one for each thread, are well formed after what
has come before, and their names are known. -/
structure WellFormedReception (md : List RecordMetadata) (done : List Reception) (r : Reception) : Prop where
  once : ((callsIn r).map (fun call => call.thread)).Nodup
  batches : ∀ call ∈ callsIn r, WellFormedBatch (descriptionOf md (done ++ [r])) (logOf call.thread done)
    (deliveryOf (descriptionOf md (done ++ [r])) call)
  named : ∀ call ∈ callsIn r, ∀ q ∈ call.batch, ∃ name, (q.nameid, name) ∈ namesOf (done ++ [r])

structure WellFormedHistory (md : List RecordMetadata) (rs : List Reception) : Prop where
  introduced : ∃ names calls rest, rs = .drained md names calls :: rest
  receptions : ∀ done r rest, rs = done ++ r :: rest → WellFormedReception md done r
  settled : ∀ x name name', (x, name) ∈ namesOf rs → (x, name') ∈ namesOf rs → name = name'

/-- No store of a reception meets a touched node named `#…` that is the root or has a
touched child. -/
def UndisturbedReception (md : List RecordMetadata) (done : List Reception) (r : Reception) : Prop :=
  ∀ call ∈ callsIn r, Undisturbed (descriptionOf md (done ++ [r]))
    (linkOf (logOf call.thread done ++ call.batch))
    (seedOf (logOf call.thread done) call.batch call.now.runningNode)

variable {gl : Settings} {ds : DataStore} {md : List RecordMetadata} {rs more : List Reception}
  {r : Reception} {t t' : TargetStore} {threads : Threads} {id : ThreadID}

theorem namesOf_append (rs more : List Reception) : namesOf (rs ++ more) = namesOf rs ++ namesOf more :=
  List.flatMap_append

theorem logOf_append (id : ThreadID) (rs more : List Reception) :
    logOf id (rs ++ more) = logOf id rs ++ logOf id more :=
  List.flatMap_append

theorem namesOf_singleton (r : Reception) : namesOf [r] = namesIn r := List.flatMap_singleton ..

theorem tableOf_snoc (rs : List Reception) (r : Reception) :
    tableOf (rs ++ [r]) = (namesIn r).foldl (fun table name => table.insert name.1 name.2) (tableOf rs) := by
  rw [tableOf, namesOf_append, List.foldl_append, namesOf_singleton, ← tableOf]

theorem find_inserted {names : List (NameID × Bytes)}
    (h : ∀ x name name', (x, name) ∈ names → (x, name') ∈ names → name = name') {x : NameID} {name : Bytes}
    (hx : (x, name) ∈ names) :
    (names.foldl (fun table name => table.insert name.1 name.2) (∅ : Std.TreeMap NameID Bytes))[x]? =
      some name := by
  induction names using List.reverseRecOn with
  | nil => cases hx
  | append_singleton names n ih =>
      rw [List.foldl_append, List.foldl_cons, List.foldl_nil, getElem?_insert]
      split
      next hn =>
        have hlast : (x, n.2) ∈ names ++ [n] := List.mem_append_right _ (by rw [hn]; exact List.mem_cons_self)
        rw [h x _ _ hx hlast]
      next hn =>
        have hold : (x, name) ∈ names := by
          rcases List.mem_append.mp hx with hx | hx
          · exact hx
          · exact absurd (congrArg Prod.fst (List.mem_singleton.mp hx)) hn
        exact ih (fun y a b ha hb => h y a b (List.mem_append_left _ ha) (List.mem_append_left _ hb)) hold

theorem getNameFromID_known (h : WellFormedHistory md rs) (ht : ds.nameTable = tableOf rs)
    {x : NameID} {name : Bytes} (hx : (x, name) ∈ namesOf rs) : ds.getNameFromID x = name := by
  rw [DataStore.getNameFromID, ht, Std.TreeMap.getD_eq_getD_getElem?, tableOf,
    find_inserted h.settled hx, Option.getD_some]

theorem getNameFromID_kept (h : WellFormedHistory md (rs ++ more)) {ds' : DataStore}
    (ht : ds.nameTable = tableOf rs) (ht' : ds'.nameTable = tableOf (rs ++ more)) {x : NameID} {name : Bytes}
    (hx : (x, name) ∈ namesOf rs) : ds'.getNameFromID x = ds.getNameFromID x := by
  rw [getNameFromID_known h ht' (by rw [namesOf_append]; exact List.mem_append_left _ hx),
    DataStore.getNameFromID, ht,
    Std.TreeMap.getD_eq_getD_getElem?, tableOf, find_inserted (fun y a b ha hb => h.settled y a b
      (by rw [namesOf_append]; exact List.mem_append_left _ ha)
        (by rw [namesOf_append]; exact List.mem_append_left _ hb)) hx,
    Option.getD_some]

theorem WellFormedHistory.named (h : ∀ done r rest, rs = done ++ r :: rest → WellFormedReception md done r)
    {q : MethodNodeSerializedInfo} (hq : q ∈ logOf id rs) : ∃ name, (q.nameid, name) ∈ namesOf rs := by
  obtain ⟨r, hr, hqr⟩ := List.mem_flatMap.mp hq
  obtain ⟨done, rest, rfl⟩ := List.append_of_mem hr
  have hstep := (h done r rest rfl).named
  cases r with
  | silent => cases hqr
  | drained metadata names calls =>
      obtain ⟨call, hcall, hmem⟩ := List.mem_flatMap.mp hqr
      split at hmem
      · obtain ⟨name, hname⟩ := hstep call hcall q hmem
        refine ⟨name, ?_⟩
        rw [← List.singleton_append, ← List.append_assoc, namesOf_append]
        exact List.mem_append_left _ hname
      · cases hmem

theorem WellFormedHistory.ne_nil (h : WellFormedHistory md rs) : rs ≠ [] := by
  obtain ⟨names, calls, rest, rfl⟩ := h.introduced
  exact List.cons_ne_nil _ _

/-- The threads after the calls `done`, each of another thread. -/
structure Filling (gl : Settings) (ds : DataStore) (old : ThreadID → List MethodNodeSerializedInfo)
    (done : List StoreCall) (threads : Threads) : Prop where
  sorted : SortedThreads threads
  filled : ∀ p ∈ threads, Filled gl ds (old p.1) (old p.1 ++ batchesOf p.1 done) p.2
  idle : ∀ p ∈ threads, (∀ call ∈ done, call.thread ≠ p.1) → p.2.timeSlice = []
  fresh : ∀ id, (∀ p ∈ threads, p.1 ≠ id) → old id ++ batchesOf id done = []

theorem batchesOf_none {calls : List StoreCall} (h : ∀ call ∈ calls, call.thread ≠ id) :
    batchesOf id calls = [] := by
  rw [batchesOf, List.flatMap_eq_nil_iff]
  intro call hcall
  rw [if_neg (h call hcall)]

theorem storeCall_filling (hd : Described ds) (hoff : gl.leafNodeAccumulate = false)
    {old : ThreadID → List MethodNodeSerializedInfo} {done : List StoreCall} {call : StoreCall}
    (hnew : ∀ c ∈ done, c.thread ≠ call.thread)
    (hb : WellFormedBatch ds (old call.thread) (deliveryOf ds call))
    (hu : Undisturbed ds (linkOf (old call.thread ++ call.batch)) (seedOf (old call.thread) call.batch call.now.runningNode))
    (h : Filling gl ds old done threads) :
    ∃ threads', storeCall gl ds threads call = .ok threads' ∧
      Filling gl ds old (done ++ [call]) threads' := by
  have hstart : Settled gl ds (old call.thread) (threadOf gl ds threads call.thread) ∧
      (threadOf gl ds threads call.thread).timeSlice = [] := by
    rw [threadOf]
    cases hlook : threads.lookup call.thread with
    | some ts =>
        have hmem := mem_of_lookup hlook
        have hfilled := (h.filled _ hmem).toSettled
        rw [batchesOf_none hnew, List.append_nil] at hfilled
        exact ⟨hfilled, h.idle _ hmem hnew⟩
    | none =>
        have hnone : ∀ p ∈ threads, p.1 ≠ call.thread := fun p hp he => by
          have := List.lookup_eq_none_iff.mp hlook p hp
          rw [he] at this
          simp at this
        have hold := h.fresh _ hnone
        rw [(List.append_eq_nil_iff.mp hold).1]
        exact ⟨newThreadStore_settled gl ds _, TickFrame.newThreadStore_slices gl ds _⟩
  obtain ⟨ts', hrun, hts'⟩ := hstart.1.store hd hoff hstart.2 hb hu
  have hother {id : ThreadID} (hid : id ≠ call.thread) :
      batchesOf id (done ++ [call]) = batchesOf id done := by
    rw [batchesOf_append, batchesOf_singleton, if_neg (Ne.symm hid), List.append_nil]
  refine ⟨_, by rw [storeCall, hrun]; rfl, sorted_putThread h.sorted _ _, fun p hp => ?_, fun p hp hidle => ?_, fun id hid => ?_⟩
  · rcases putThread_unique h.sorted hp with rfl | ⟨hp, hne⟩
    · rw [batchesOf_append, batchesOf_singleton, if_pos rfl, batchesOf_none hnew, List.nil_append]
      exact hts'
    · rw [hother hne]
      exact h.filled p hp
  · rcases putThread_unique h.sorted hp with rfl | ⟨hp, -⟩
    · exact absurd rfl (hidle call (List.mem_append_right _ List.mem_cons_self))
    · exact h.idle p hp fun c hc => hidle c (List.mem_append_left _ hc)
  · have hne : id ≠ call.thread := fun he => hid _ (exists_putThread _ _ _) he.symm
    rw [hother hne]
    refine h.fresh id fun p hp he => ?_
    obtain ⟨q, hq, hqp⟩ := kept_putThread threads call.thread ts' hp
    exact hid q hq (hqp.trans he)

theorem storeCalls_filling (hd : Described ds) (hoff : gl.leafNodeAccumulate = false)
    {old : ThreadID → List MethodNodeSerializedInfo} {calls : List StoreCall}
    (honce : (calls.map (fun call => call.thread)).Nodup)
    (hb : ∀ call ∈ calls, WellFormedBatch ds (old call.thread) (deliveryOf ds call))
    (hu : ∀ call ∈ calls, Undisturbed ds (linkOf (old call.thread ++ call.batch))
      (seedOf (old call.thread) call.batch call.now.runningNode))
    (h : Filling gl ds old [] threads) :
    ∃ threads', calls.foldlM (storeCall gl ds) threads = .ok threads' ∧ Filling gl ds old calls threads' := by
  refine foldlM_total (f := storeCall gl ds) (fun done => Filling gl ds old done) calls ?_ h
  intro done call rest threads' he h'
  have hmem : call ∈ calls := by rw [he]; simp
  have hnew : ∀ c ∈ done, c.thread ≠ call.thread := by
    rw [he, List.map_append, List.map_cons, List.nodup_append] at honce
    exact fun c hc => honce.2.2 _ (List.mem_map_of_mem hc) _ List.mem_cons_self
  exact storeCall_filling hd hoff hnew (hb call hmem) (hu call hmem) h'

structure TargetSettled (gl : Settings) (md : List RecordMetadata) (rs : List Reception) (t : TargetStore) :
    Prop where
  slots : rs = [] ∧ t = newDataStore ∨ t.firstReceived = true ∧ t.ds.recordMetadata = md ∧
    t.ds.numRecords = md.length
  names : t.ds.nameTable = tableOf rs
  sorted : SortedThreads t.threads
  threads : ∀ p ∈ t.threads, Settled gl t.ds (logOf p.1 rs) p.2 ∧ p.2.timeSlice = []
  fresh : ∀ id, (∀ p ∈ t.threads, p.1 ≠ id) → logOf id rs = []

/-- A target that has given `rs`, with what came after `old` in its slices. -/
structure TargetFilled (gl : Settings) (md : List RecordMetadata) (old rs : List Reception)
    (t : TargetStore) : Prop where
  first : t.firstReceived = true
  metadata : t.ds.recordMetadata = md
  numRecords : t.ds.numRecords = md.length
  names : t.ds.nameTable = tableOf rs
  sorted : SortedThreads t.threads
  threads : ∀ p ∈ t.threads, Filled gl t.ds (logOf p.1 old) (logOf p.1 rs) p.2
  fresh : ∀ id, (∀ p ∈ t.threads, p.1 ≠ id) → logOf id rs = []

theorem newDataStore_settled (gl : Settings) (md : List RecordMetadata) :
    TargetSettled gl md [] newDataStore :=
  ⟨Or.inl ⟨rfl, rfl⟩, rfl, List.Pairwise.nil, fun _ hp => absurd hp List.not_mem_nil, fun _ _ => rfl⟩

theorem TargetSettled.idle (h : TargetSettled gl md rs t) (hne : rs ≠ []) : TargetFilled gl md rs rs t := by
  obtain ⟨hfirst, hmd, hnum⟩ := h.slots.resolve_left fun h => hne h.1
  exact ⟨hfirst, hmd, hnum, h.names, h.sorted, fun p hp =>
    (h.threads p hp).1.idle (h.threads p hp).2, h.fresh⟩

theorem TargetFilled.drained {old : List Reception} (h : TargetFilled gl md old rs t)
    (hd : TargetDrained t t') : TargetSettled gl md rs t' := by
  have hids : t'.threads.map Prod.fst = t.threads.map Prod.fst :=
    List.Forall₂.rec (motive := fun a b _ => b.map Prod.fst = a.map Prod.fst) rfl
      (fun hpq _ ih => by rw [List.map_cons, List.map_cons, hpq.1, ih]) hd.threads
  refine ⟨Or.inr ⟨hd.firstReceived.trans h.first, by rw [hd.ds, h.metadata], by rw [hd.ds, h.numRecords]⟩,
    by rw [hd.ds, h.names], ?_, fun q hq => ?_, fun id hid => h.fresh id fun p hp he => ?_⟩
  · have hsorted := List.pairwise_map.mpr h.sorted
    rw [← hids] at hsorted
    exact List.pairwise_map.mp hsorted
  · obtain ⟨p, hp, hid, start, hq⟩ := Lockstep.mem_right_of_forall₂ hd.threads hq
    rw [hid, hq, hd.ds]
    exact ⟨(h.threads p hp).toSettled.withSlices start [], rfl⟩
  · have hmem : id ∈ t'.threads.map Prod.fst := by
      rw [hids, ← he]
      exact List.mem_map_of_mem hp
    obtain ⟨q, hq, hqid⟩ := List.mem_map.mp hmem
    exact hid q hq hqid

theorem receiveLoop_filled (hoff : gl.leafNodeAccumulate = false) (h : TargetSettled gl md rs t)
    (hw : WellFormedHistory md (rs ++ [r])) (hu : UndisturbedReception md rs r) :
    ∃ t', receiveLoop gl t r = .ok t' ∧ TargetFilled gl md rs (rs ++ [r]) t' := by
  have hstep := hw.receptions rs r [] rfl
  cases r with
  | silent =>
      have hne : rs ≠ [] := by
        rintro rfl
        obtain ⟨names, calls, rest, he⟩ := hw.introduced
        cases he
      have hlog (id : ThreadID) : logOf id (rs ++ [.silent]) = logOf id rs := by
        rw [logOf_snoc, recordsIn, List.append_nil]
      obtain ⟨hfirst, hmd, hnum, hnames, hsorted, hthreads, hfresh⟩ := h.idle hne
      refine ⟨t, rfl, hfirst, hmd, hnum, ?_, hsorted, fun p hp => by rw [hlog]; exact hthreads p hp,
        fun id hid => by rw [hlog]; exact hfresh id hid⟩
      rw [tableOf_snoc]
      exact hnames
  | drained metadata names calls =>
      obtain ⟨hthreads, htable⟩ := exchanged_keeps t metadata
      have hslots : (exchanged t metadata).firstReceived = true ∧
        (exchanged t metadata).ds.recordMetadata = md ∧
          (exchanged t metadata).ds.numRecords = md.length := by
        rcases h.slots with ⟨rfl, rfl⟩ | ⟨hfirst, hmd, hnum⟩
        · obtain ⟨names', calls', rest, he⟩ := hw.introduced
          cases he
          exact ⟨rfl, rfl, rfl⟩
        · rw [exchanged, if_pos hfirst]
          exact ⟨hfirst, hmd, hnum⟩
      obtain ⟨hfirst, hmd, hnum⟩ := hslots
      have htable' : (advanced (exchanged t metadata).ds names).nameTable =
          tableOf (rs ++ [.drained metadata names calls]) := by
        rw [tableOf_snoc, ← h.names, ← htable]
        rfl
      rw [receiveLoop, hthreads]
      generalize hds : advanced (exchanged t metadata).ds names = ds' at htable'
      have hmd' : ds'.recordMetadata = md := by rw [← hds]; exact hmd
      have hnum' : ds'.numRecords = md.length := by rw [← hds]; exact hnum
      have hname (x : NameID) :
          ds'.getNameFromID x = (descriptionOf md (rs ++ [.drained metadata names calls])).getNameFromID
            x := by
        rw [DataStore.getNameFromID, htable', DataStore.getNameFromID]
        rfl
      have hstart : Filling gl ds' (fun id => logOf id rs) [] t.threads := by
        have hold (p : ThreadID × ThreadStore) (hp : p ∈ t.threads) : Settled gl ds' (logOf p.1 rs) p.2 := by
          refine (h.threads p hp).1.dataStore ?_ fun q hq => ?_
          · rcases h.slots with ⟨-, rfl⟩ | ⟨-, -, hn⟩
            · cases hp
            · rw [hnum', hn]
          · obtain ⟨name, hx⟩ := WellFormedHistory.named (fun done r rest he =>
              hw.receptions done r (rest ++ [.drained metadata names calls])
                (by rw [he, List.append_assoc, List.cons_append])) hq
            exact getNameFromID_kept hw h.names htable' hx
        refine ⟨h.sorted, fun p hp => ?_, fun p hp _ => (h.threads p hp).2, fun id hid => ?_⟩
        · have hnil : logOf p.1 rs ++ batchesOf p.1 [] = logOf p.1 rs := List.append_nil _
          rw [hnil]
          exact (hold p hp).idle (h.threads p hp).2
        · rw [h.fresh id hid]
          rfl
      obtain ⟨threads', hrun, hfill⟩ :=
        storeCalls_filling (by rw [Described, hmd', hnum']) hoff hstep.once (fun call hcall => by
            obtain ⟨hids, hnonzero, hparents, hvalues, hnow⟩ := hstep.batches call hcall
            exact ⟨hids, hnonzero, hparents, fun q hq => (hvalues q hq).trans hnum'.symm, hnum'.trans_le hnow⟩)
          (fun call hcall k p x hl ht ha => hu call hcall k p x hl ht (by rw [← hname]; exact ha)) hstart
      have hlog (id : ThreadID) : logOf id (rs ++ [.drained metadata names calls]) = logOf id rs ++
        batchesOf id calls := logOf_snoc ..
      rw [show callsIn (.drained metadata names calls) = calls from rfl] at hrun hfill
      refine ⟨{ exchanged t metadata with ds := ds', threads := threads' }, by rw [hrun]; rfl, hfirst, hmd', hnum', htable',
        hfill.sorted, fun p hp => ?_, fun id hid => ?_⟩
      · rw [hlog]
        exact hfill.filled p hp
      · rw [hlog]
        exact hfill.fresh id hid

end Llprof.Monitor.FilledTargets
