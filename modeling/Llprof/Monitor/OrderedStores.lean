import Llprof.Monitor.AnswerOrder
import Llprof.Monitor.IntegrationOrder
import Llprof.Monitor.OrderedThreads
import Llprof.Monitor.Printing

namespace Llprof.Monitor.OrderedStores

open Faulting hiding store
open Avoiding TreeMaps TreeListing Nodes Store TreeShape MergeSlices SliceFrame SliceContents Linkage
  Answers DiffAnswers FlushFrame ParentOrder SequenceOrder FlushRule StoreRule IntegrationSlots
  IntegrationOrder AnswerOrder OrderedThreads Ticks Operations OperationFrame Printing
open LittleEndian (Bytes)
open Profiler.CallTree (MethodNodeSerializedInfo)

variable {gl : Settings} {ds : DataStore} {ts ts' : ThreadStore} {up : NodeID → NodeID}

def recordsIn (id : ThreadID) : Reception → List MethodNodeSerializedInfo
  | .silent => []
  | .drained _ _ calls => batchesOf id calls

def namesIn : Reception → List (NameID × Bytes)
  | .silent => []
  | .drained _ names _ => names

def logOf (id : ThreadID) (rs : List Reception) : List MethodNodeSerializedInfo := rs.flatMap (recordsIn id)

def namesOf (rs : List Reception) : List (NameID × Bytes) := rs.flatMap namesIn

def attrNamed (rs : List Reception) (x : NameID) : Prop :=
  ∃ name, (x, name) ∈ namesOf rs ∧ isAttrName name = true

def gather (given : List (List Reception)) : Operation → List (List Reception)
  | .connect _ => given ++ [[]]
  | .receive i r => given.modify i (· ++ [r])
  | _ => given

def received (ops : List Operation) : List (List Reception) := ops.foldl gather []

/-- Every target gives well-formed batches for each of its threads. -/
def WellFormed (gl : Settings) (ops : List Operation) : Prop :=
  ∀ rs ∈ received ops, ∀ id, Descends gl (attrNamed rs) (logOf id rs)

/-- The GNIDs of the targets are free of collisions. -/
def GnidsTell (up : NodeID → NodeID) (s : Stores) : Prop :=
  ∀ t ∈ s.targets, ∀ p ∈ t.threads, Tells up p.2.currentTree

theorem received_snoc (ops : List Operation) (op : Operation) :
    received (ops ++ [op]) = gather (received ops) op := by
  rw [received, List.foldl_append]
  rfl

theorem received_extends (done rest : List Operation) {i : Nat} {rs : List Reception}
    (h : (received done)[i]? = some rs) : ∃ more, (received (done ++ rest))[i]? = some (rs ++ more) := by
  induction rest generalizing done rs with
  | nil => exact ⟨[], by rwa [List.append_nil, List.append_nil]⟩
  | cons op rest ih =>
      have hnext : ∃ more, (received (done ++ [op]))[i]? = some (rs ++ more) := by
        rw [received_snoc]
        cases op with
        | connect unset =>
            refine ⟨[], ?_⟩
            rw [gather, List.getElem?_append_left (List.getElem?_eq_some_iff.mp h).1, h, List.append_nil]
        | receive j r =>
            rw [gather, List.getElem?_modify, h]
            split
            · exact ⟨[r], rfl⟩
            · exact ⟨[], by rw [List.append_nil]; rfl⟩
        | integrate => exact ⟨[], by rw [List.append_nil]; exact h⟩
        | tree id flag p1 p2 => exact ⟨[], by rw [List.append_nil]; exact h⟩
        | check id => exact ⟨[], by rw [List.append_nil]; exact h⟩
        | dump => exact ⟨[], by rw [List.append_nil]; exact h⟩
      obtain ⟨more, hmore⟩ := hnext
      obtain ⟨more', hmore'⟩ := ih _ hmore
      refine ⟨more ++ more', ?_⟩
      rw [← List.append_assoc, ← hmore', List.append_assoc, List.singleton_append]

theorem InOrder.withSlices {hash : NameID → Prop} {log done : List MethodNodeSerializedInfo}
    (h : InOrder gl hash log done ts) {start : Int} {slices : List TimeSliceStore}
    (hc : ∀ u, Closed ts.currentTree (readAt start slices u).tree) :
    InOrder gl hash log done (withSlices start slices ts) := by
  obtain ⟨rank, hp⟩ := h.processed
  have hd := h.descending
  exact ⟨⟨rank, ⟨hp.standing.rooted, hp.standing.rootGnid, hp.standing.index, hp.standing.attrs, hp.standing.alts⟩, hp.bound,
    hp.known, hp.aliased⟩, ⟨hd.nodes, hd.root, hd.kept, hd.base, hd.index, hd.alts, hd.attrs⟩, hc⟩

theorem InOrder.like {hash : NameID → Prop} {log done : List MethodNodeSerializedInfo}
    (h : InOrder gl hash log done ts) (hl : Like ts ts') : InOrder gl hash log done ts' := by
  rw [hl.rest]
  apply InOrder.withSlices h
  intro u
  have hu : readAt ts'.startTimeNumber ts'.timeSlice u = contentAt ts u := hl.content u
  rw [hu]
  exact h.closed u

theorem InOrder.answerable {hash : NameID → Prop} {log done : List MethodNodeSerializedInfo}
    (h : InOrder gl hash log done ts) : Answerable ts := by
  obtain ⟨rank, hp⟩ := h.processed
  refine ⟨fun k n hk => (h.descending.nodes k n hk).1, fun k n hk h0 =>
    ⟨(h.descending.nodes k n hk).2.1, ?_⟩, h.closed⟩
  rcases hp.standing.rooted.parent_known (parentOf_eq_some.mpr ⟨n, hk, rfl⟩) with h1 | hknown
  · exact absurd h1 h0
  · exact mem_iff_some.mpr hknown

theorem InOrder.integrable {hash : NameID → Prop} {log done : List MethodNodeSerializedInfo}
    (h : InOrder gl hash log done ts) (ht : Tells up ts.currentTree) : Integrable up ts := by
  obtain ⟨rank, hp⟩ := h.processed
  intro u
  exact listed_of_closed hp.standing.rooted h.descending ht (h.closed u)

theorem GlobalOrdered.answerable {g : GlobalThreadStore} (h : GlobalOrdered up g) : Answerable g.ts :=
  ⟨fun k n hk => (h.numbered.nodes k n hk).1, fun _ _ hk h0 => h.numbered.parent hk h0, h.closed⟩

theorem GlobalOrdered.like {g : GlobalThreadStore} (h : GlobalOrdered up g) (hl : Like g.ts ts') :
    GlobalOrdered up { g with ts := ts' } := by
  have htree := hl.currentTree
  have hlabels (k : NodeID) : (ts'.currentTree[k]?).map label = (g.ts.currentTree[k]?).map label := by
    rw [htree]
  refine ⟨(Numbered.withThread h.numbered ts' hlabels).1, fun u => ?_⟩
  change Closed ts'.currentTree (contentAt ts' u).tree
  rw [htree, hl.content]
  exact h.closed u

structure TargetInOrder (gl : Settings) (all rs : List Reception) (t : TargetStore) : Prop where
  names : ∀ (x : NameID) (name : Bytes), t.ds.nameTable[x]? = some name → (x, name) ∈ namesOf rs
  threads : ThreadsInOrder gl (attrNamed all) (fun id => logOf id all) (fun id => logOf id rs) t.threads

theorem newDataStore_inOrder (all : List Reception) : TargetInOrder gl all [] newDataStore := by
  refine ⟨fun x name h => ?_, ⟨List.Pairwise.nil, fun p hp => absurd hp List.not_mem_nil, fun id _ => rfl⟩⟩
  change (∅ : Std.TreeMap NameID Bytes)[x]? = some name at h
  rw [Std.TreeMap.getElem?_emptyc] at h
  cases h

theorem exchanged_keeps (t : TargetStore) (metadata : List RecordMetadata) :
    (exchanged t metadata).threads = t.threads ∧ (exchanged t metadata).ds.nameTable = t.ds.nameTable := by
  rw [exchanged]
  split
  · exact ⟨rfl, rfl⟩
  · exact ⟨rfl, rfl⟩

theorem named {names : List (NameID × Bytes)} {table : Std.TreeMap NameID Bytes} {x : NameID} {name : Bytes}
    (h : (names.foldl (fun table name => table.insert name.1 name.2) table)[x]? = some name) :
    table[x]? = some name ∨ (x, name) ∈ names := by
  induction names generalizing table with
  | nil => exact Or.inl h
  | cons n rest ih =>
      rcases ih h with hold | hmem
      · rw [getElem?_insert] at hold
        split at hold
        next hx =>
          cases hold
          rw [hx]
          exact Or.inr List.mem_cons_self
        next => exact Or.inl hold
      · exact Or.inr (List.mem_cons_of_mem _ hmem)

theorem logOf_snoc (id : ThreadID) (rs : List Reception) (r : Reception) :
    logOf id (rs ++ [r]) = logOf id rs ++ recordsIn id r := by
  rw [logOf, List.flatMap_append, List.flatMap_singleton, logOf]

theorem unknown_not_attr : isAttrName (LittleEndian.ascii "<Unknown>") = false := by decide

theorem receiveLoop_inOrder {all rs more : List Reception} {t : TargetStore} {r : Reception}
    (hall : all = rs ++ r :: more) (hwf : ∀ id, Descends gl (attrNamed all) (logOf id all))
    (h : TargetInOrder gl all rs t) :
    Avoids lost (TargetInOrder gl all (rs ++ [r])) (receiveLoop gl t r) := by
  have hlogs (id : ThreadID) : logOf id all = logOf id rs ++ recordsIn id r ++ logOf id more := by
    rw [hall, ← List.singleton_append, ← List.append_assoc, logOf, List.flatMap_append,
      ← logOf, logOf_snoc, ← logOf]
  cases r with
  | silent =>
      have hsame (id : ThreadID) : logOf id (rs ++ [.silent]) = logOf id rs := by
        rw [logOf_snoc, recordsIn, List.append_nil]
      refine ⟨fun x name hx => ?_, ?_⟩
      · rw [namesOf, List.flatMap_append, List.mem_append]
        exact Or.inl (h.names x name hx)
      · rw [funext hsame]
        exact h.threads
  | drained metadata names calls =>
      obtain ⟨hthreads, htable⟩ := exchanged_keeps t metadata
      have hnames (x : NameID) (name : Bytes) (hx : (advanced (exchanged t metadata).ds names).nameTable[x]? = some name) :
          (x, name) ∈ namesOf (rs ++ [.drained metadata names calls]) := by
        rw [namesOf, List.flatMap_append, List.mem_append, List.flatMap_singleton]
        rcases named hx with hold | hmem
        · rw [htable] at hold
          exact Or.inl (h.names x name hold)
        · exact Or.inr hmem
      have hhash (x : NameID) (hx : isAttrName ((advanced (exchanged t metadata).ds names).getNameFromID x) = true) :
          attrNamed all x := by
        rw [DataStore.getNameFromID, Std.TreeMap.getD_eq_getD_getElem?] at hx
        cases hname : (advanced (exchanged t metadata).ds names).nameTable[x]? with
        | none =>
            rw [hname, Option.getD_none, unknown_not_attr] at hx
            cases hx
        | some name =>
            rw [hname, Option.getD_some] at hx
            refine ⟨name, ?_, hx⟩
            rw [hall, ← List.singleton_append, ← List.append_assoc, namesOf,
              List.flatMap_append, List.mem_append]
            exact Or.inl (hnames x name hname)
      rw [receiveLoop, hthreads]
      apply (storeCalls_inOrder (fun _ => hhash) hwf (fun id => ⟨_, hlogs id⟩) h.threads).bind
      intro threads hin
      refine ⟨hnames, ?_⟩
      rw [funext fun id => logOf_snoc id rs _]
      exact hin

theorem ThreadsInOrder.forall₂ {hash : NameID → Prop} {log seen : ThreadID → List MethodNodeSerializedInfo}
    {threads threads' : Threads} (h : ThreadsInOrder gl hash log seen threads)
    (hall : List.Forall₂ (fun p q => q.1 = p.1 ∧ ∀ l d, InOrder gl hash l d p.2 → InOrder gl hash l d q.2) threads threads') :
    ThreadsInOrder gl hash log seen threads' := by
  have hids : threads'.map Prod.fst = threads.map Prod.fst := by
    clear h
    induction hall with
    | nil => rfl
    | cons hpq _ ih => rw [List.map_cons, List.map_cons, hpq.1, ih]
  refine ⟨?_, fun q hq => ?_, fun id hid => h.fresh id fun p hp he => ?_⟩
  · have hsorted := List.pairwise_map.mpr h.sorted
    rw [← hids] at hsorted
    exact List.pairwise_map.mp hsorted
  · obtain ⟨p, hp, he, hpq⟩ := Lockstep.mem_right_of_forall₂ hall hq
    rw [he]
    exact hpq _ _ (h.inOrder p hp)
  · have hmem : id ∈ threads'.map Prod.fst := by
      rw [hids, ← he]
      exact List.mem_map_of_mem hp
    obtain ⟨q, hq, hqid⟩ := List.mem_map.mp hmem
    exact hid q hq hqid

theorem TargetInOrder.drained {all rs : List Reception} {t t' : TargetStore} (h : TargetInOrder gl all rs t)
    (hd : TargetDrained t t') : TargetInOrder gl all rs t' := by
  refine ⟨by rw [hd.ds]; exact h.names, ThreadsInOrder.forall₂ h.threads (List.Forall₂.imp ?_ hd.threads)⟩
  rintro p q ⟨hid, start, hq⟩
  refine ⟨hid, fun l d hp => ?_⟩
  rw [hq]
  apply InOrder.withSlices hp
  intro u
  have hnil : readAt start [] u = emptySlice := by
    rw [readAt]
    simp
  rw [hnil]
  exact closed_empty _

theorem dumpStores_placed (s : Stores) : Avoids unplaced (fun _ => True) (dumpStores s) :=
  dumpStores_avoids fun _ _ hb => absurd hb (spared (Or.inl rfl))

theorem checkThread_placed (h : Answerable ts) :
    Avoids unplaced (fun r => Like ts r.1) (checkThread gl ds ts) := by
  apply checkThread_avoids
  apply (merged_gathered h 0 _).mono
  intro m _
  exact ⟨fun hb => absurd hb (spared (Or.inr (Or.inr (Or.inl rfl)))), fun hb =>
    absurd hb (spared (Or.inl rfl)), fun hb => absurd hb (spared (Or.inl rfl))⟩

/-- The data stores after `done` of the operations `ops`. -/
structure StoresInOrder (gl : Settings) (up : NodeID → NodeID) (ops done : List Operation) (s : Stores) :
    Prop where
  count : (received done).length = s.targets.length
  targets : ∀ (i : Nat) (t : TargetStore) (rs all : List Reception), s.targets[i]? = some t →
    (received done)[i]? = some rs → (received ops)[i]? = some all → TargetInOrder gl all rs t
  global : ∀ g, s.global.thread = some g → GlobalOrdered up g

theorem StoresInOrder.target {ops done : List Operation} {s : Stores} (h : StoresInOrder gl up ops done s)
    (hops : ∃ rest, ops = done ++ rest) {i : Nat} {t : TargetStore} (ht : s.targets[i]? = some t) :
    ∃ rs all, (received done)[i]? = some rs ∧ (received ops)[i]? = some all ∧ TargetInOrder gl all rs t := by
  have hlt : i < (received done).length := by
    rw [h.count]
    exact (List.getElem?_eq_some_iff.mp ht).1
  have hrs := List.getElem?_eq_getElem hlt
  obtain ⟨rest, rfl⟩ := hops
  obtain ⟨more, hall⟩ := received_extends done rest hrs
  exact ⟨_, _, hrs, hall, h.targets i t _ _ ht hrs hall⟩

theorem StoresInOrder.answerable {ops done : List Operation} {s : Stores} (h : StoresInOrder gl up ops done s)
    (hops : ∃ rest, ops = done ++ rest) {u : DataStore × ThreadStore}
    (hu : u ∈ allThreads s) : Answerable u.2 := by
  rcases mem_allThreads.mp hu with ⟨g, hg, rfl⟩ | ⟨t, ht, p, hp, rfl⟩
  · exact GlobalOrdered.answerable (h.global g hg)
  · obtain ⟨i, hi⟩ := List.getElem?_of_mem ht
    obtain ⟨rs, all, -, -, hin⟩ := h.target hops hi
    exact InOrder.answerable (hin.threads.inOrder p hp)

theorem StoresInOrder.asked {ops done : List Operation} {s s' : Stores} (h : StoresInOrder gl up ops done s)
    (ha : StoresAsked s s') : StoresInOrder gl up ops done s' := by
  refine ⟨h.count.trans ha.targets.length_eq, fun i t' rs all ht' hrs hall => ?_, fun g' hg' => ?_⟩
  · rcases Lockstep.forall₂_getElem? ha.targets i with ⟨-, hnone⟩ | ⟨t, t₂, ht, ht₂, htt⟩
    · rw [hnone] at ht'
      cases ht'
    · rw [ht₂, Option.some.injEq] at ht'
      subst ht'
      have hin := h.targets i t rs all ht hrs hall
      refine ⟨by rw [htt.ds]; exact hin.names, ThreadsInOrder.forall₂ hin.threads (List.Forall₂.imp ?_ htt.threads)⟩
      rintro p q ⟨hid, hl⟩
      exact ⟨hid, fun l d hp => InOrder.like hp hl⟩
  · rcases ha.thread with ⟨-, hnone⟩ | ⟨g, ts', hg, hgl, hl⟩
    · rw [hnone] at hg'
      cases hg'
    · rw [hgl, Option.some.injEq] at hg'
      rw [← hg']
      exact GlobalOrdered.like (h.global g hg) hl

theorem StoresInOrder.same {ops done : List Operation} {s : Stores}
    (h : StoresInOrder gl up ops done s) {op : Operation}
    (hop : gather (received done) op = received done) : StoresInOrder gl up ops (done ++ [op]) s := by
  have hsame : received (done ++ [op]) = received done := (received_snoc done op).trans hop
  exact ⟨by rw [hsame]; exact h.count, by rw [hsame]; exact h.targets, h.global⟩

theorem connect_inOrder {ops done : List Operation} {s : Stores}
    (h : StoresInOrder gl up ops done s) (unset : Int) : StoresInOrder gl up ops (done ++ [.connect unset])
      { s with targets := s.targets ++ [newDataStore], unset := s.unset ++ [unset] } := by
  have hgiven : received (done ++ [.connect unset]) = received done ++ [[]] := received_snoc done _
  refine ⟨?_, fun i t rs all ht hrs hall => ?_, h.global⟩
  · rw [hgiven, List.length_append, List.length_append, h.count]
    rfl
  · rw [hgiven] at hrs
    by_cases hi : i < s.targets.length
    · rw [List.getElem?_append_left hi] at ht
      rw [List.getElem?_append_left (by rw [h.count]; exact hi)] at hrs
      exact h.targets i t rs all ht hrs hall
    · have hle : s.targets.length ≤ i := Nat.not_lt.mp hi
      rw [List.getElem?_append_right hle, List.getElem?_singleton] at ht
      rw [List.getElem?_append_right (by rw [h.count]; exact hle), List.getElem?_singleton, h.count] at hrs
      split at ht
      next h0 =>
        rw [if_pos h0] at hrs
        cases ht
        cases hrs
        exact newDataStore_inOrder all
      next => cases ht

theorem receiveAt_inOrder {ops done rest : List Operation} {s : Stores} {i : Nat} {r : Reception}
    (hwf : WellFormed gl ops) (hops : ops = done ++ .receive i r :: rest)
    (h : StoresInOrder gl up ops done s) :
    Avoids lost (StoresInOrder gl up ops (done ++ [.receive i r])) (receiveAt gl s i r) := by
  have hgiven : received (done ++ [.receive i r]) = (received done).modify i (· ++ [r]) :=
    received_snoc done _
  have hcount : (received (done ++ [.receive i r])).length = s.targets.length := by
    rw [hgiven, List.length_modify, h.count]
  have hother {j : Nat} (hj : i ≠ j) {t : TargetStore} {rs all : List Reception} (ht : s.targets[j]? = some t)
      (hrs : (received (done ++ [.receive i r]))[j]? = some rs) (hall : (received ops)[j]? = some all) :
      TargetInOrder gl all rs t := by
    rw [hgiven, List.getElem?_modify] at hrs
    simp only [if_neg hj, id_map'] at hrs
    exact h.targets j t rs all ht hrs hall
  rw [receiveAt]
  split
  next hnone =>
    refine ⟨hcount, fun j t rs all ht hrs hall => hother (fun hij => ?_) ht hrs hall, h.global⟩
    rw [← hij, hnone] at ht
    cases ht
  next t ht =>
    have hlt : i < (received done).length := by
      rw [h.count]
      exact (List.getElem?_eq_some_iff.mp ht).1
    have hrs := List.getElem?_eq_getElem hlt
    generalize (received done)[i] = rs at hrs
    have hnext : (received (done ++ [.receive i r]))[i]? = some (rs ++ [r]) := by
      rw [hgiven, List.getElem?_modify, hrs]
      simp
    obtain ⟨more, hall⟩ := received_extends (done ++ [.receive i r]) rest hnext
    rw [List.append_assoc, List.singleton_append, ← hops, List.append_assoc, List.singleton_append] at hall
    apply (receiveLoop_inOrder rfl (hwf _ (List.mem_of_getElem? hall)) (h.targets i t rs _ ht hrs hall)).bind
    intro t' ht'
    refine ⟨by rw [List.length_set]; exact hcount, fun j t₂ rs₂ all₂ ht₂ hrs₂ hall₂ => ?_, h.global⟩
    rw [List.getElem?_set] at ht₂
    split at ht₂
    next hij =>
      subst hij
      rw [if_pos (List.getElem?_eq_some_iff.mp ht).1, Option.some.injEq] at ht₂
      rw [hnext, Option.some.injEq] at hrs₂
      rw [hall, Option.some.injEq] at hall₂
      rw [← ht₂, ← hrs₂, ← hall₂]
      exact ht'
    next hij => exact hother hij ht₂ hrs₂ hall₂

theorem describe_ordered {s : Stores} (h : ∀ g, s.global.thread = some g → GlobalOrdered up g) :
    Avoids lost (fun global => ∀ g, global.thread = some g → GlobalOrdered up g) (describe gl s) := by
  rw [describe]
  split
  · split
    · exact h
    · split
      · exact fun h => h
      · intro g hg
        cases hg
        exact newThreadStore_ordered up gl _
  · exact h

theorem integrateStores_inOrder (hmode : gl.singleTreeMode = true)
    {ops done rest : List Operation} {s : Stores} (hops : ops = done ++ .integrate :: rest)
    (htell : GnidsTell up s) (h : StoresInOrder gl up ops done s) :
    Avoids lost (StoresInOrder gl up ops (done ++ [.integrate])) (integrateStores gl s) := by
  have hgiven : received (done ++ [.integrate]) = received done := received_snoc done _
  have hsource : ∀ t ∈ s.targets, ∀ p ∈ t.threads, Integrable up p.2 := by
    intro t ht p hp
    obtain ⟨i, hi⟩ := List.getElem?_of_mem ht
    obtain ⟨rs, all, -, -, hin⟩ := h.target ⟨_, hops⟩ hi
    exact InOrder.integrable (hin.threads.inOrder p hp) (htell t ht p hp)
  rw [integrateStores]
  apply (describe_ordered h.global).bind
  intro global hglobal
  split
  next => exact ⟨by rw [hgiven]; exact h.count, by rw [hgiven]; exact h.targets, hglobal⟩
  next =>
    split
    next => exact fun h => h
    next g hg =>
      apply (and_never (integrateAll_ordered (hglobal g hg) hsource) (integrateAll_drained hmode g s.targets)).bind
      rintro ⟨global', targets'⟩ ⟨hordered, hdrained⟩
      refine ⟨by rw [hgiven, h.count]; exact hdrained.length_eq, fun i t' rs all ht' hrs hall => ?_, hordered⟩
      rw [hgiven] at hrs
      rcases Lockstep.forall₂_getElem? hdrained i with ⟨-, hnone⟩ | ⟨t, t₂, ht, ht₂, hd⟩
      · rw [hnone] at ht'
        cases ht'
      · rw [ht₂, Option.some.injEq] at ht'
        rw [← ht']
        exact TargetInOrder.drained (h.targets i t rs all ht hrs hall) hd

theorem step_inOrder {ops done rest : List Operation} {op : Operation} {s : Stores} (hwf : WellFormed gl ops)
    (hops : ops = done ++ op :: rest) (htell : gl.singleTreeMode = true → op = .integrate → GnidsTell up s)
    (h : StoresInOrder gl up ops done s) : Avoids lost (StoresInOrder gl up ops (done ++ [op]))
    (step gl s op) := by
  cases op with
  | connect unset => exact connect_inOrder h unset
  | receive i r => exact receiveAt_inOrder hwf hops h
  | integrate =>
      rw [step]
      split
      next hmode => exact integrateStores_inOrder hmode hops (htell hmode rfl) h
      next => exact h.same rfl
  | tree id flag p1 p2 =>
      rw [step]
      refine Avoids.mono (onThreads_asked fun u hu => ?_) fun s' ha => (h.asked ha).same rfl
      have hu := h.answerable ⟨_, hops⟩ (mem_of_asked hu)
      exact ((threadAnswer_parentsFirst hu flag p1 p2).weaken fun _ he => Or.inl he).bind fun r hr => hr.1
  | check id =>
      rw [step]
      refine Avoids.mono (onThreads_asked fun u hu => ?_) fun s' ha => (h.asked ha).same rfl
      have hu := h.answerable ⟨_, hops⟩ (mem_of_asked hu)
      exact ((checkThread_placed hu).weaken fun _ he => Or.inl he).bind fun r hr => hr
  | dump => exact ((dumpStores_placed s).weaken fun _ he => Or.inl he).bind fun _ _ => h.same rfl

theorem run_inOrder {ops : List Operation} (hwf : WellFormed gl ops)
    (htell : gl.singleTreeMode = true → ∀ done rest s, ops = done ++ .integrate :: rest →
      run gl done noStores = .ok s →
      GnidsTell up s) : Avoids lost (StoresInOrder gl up ops ops) (run gl ops noStores) := by
  rw [run]
  refine avoids_foldlM_reached (StoresInOrder gl up ops) ops ?_ ⟨rfl, fun i t rs all ht => ?_, fun g hg => ?_⟩
  · intro done op rest s he hreach h
    exact step_inOrder hwf he (fun hmode hop => htell hmode done rest s (by rw [he, hop]) hreach) h
  · cases ht
  · cases hg

end Llprof.Monitor.OrderedStores
