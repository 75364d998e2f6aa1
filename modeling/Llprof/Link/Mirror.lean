import Llprof.Monitor.RunTotals
import Llprof.Profiler.Activations

namespace Llprof.Link.Mirror

open Faulting hiding store
open LittleEndian MachineIntegers ParentTree
open Profiler.Records Profiler.CallTree Profiler.TreeInvariant Profiler.Drains Profiler.Activations
open Monitor.Nodes Monitor.Store Monitor.SlotLoops Monitor.TreeShape Monitor.Receive
  Monitor.StoreSpec Monitor.Runs Monitor.RunTotals

/-- The NOWINFO buffer of a drain, as `Store` reads it. -/
def nowOf (nowInfo : NowBuffer) : NowInfo := ⟨nowInfo.node, nowInfo.values⟩

/-- The deliveries are the drains in order, each at a new time. -/
structure Delivers (drained : List Drained) (deliveries : List Delivery) : Prop where
  buffers : deliveries.map (fun d => (d.batch, d.now)) = drained.map (fun d => (d.records, nowOf d.nowInfo))
  times : (deliveries.map (fun d => d.time)).Pairwise (· < ·)

/-- The monitor has the record list of the profiled program. -/
structure Exchanged (g : RecordTable) (ds : DataStore) : Prop where
  numRecords : ds.numRecords = g.activeRecords.length
  described : Described ds
  flags : ∀ i, i < ds.numRecords → ∃ flags md, recordFlag g i = .ok flags ∧ ds.recordMetadata[i]? = some md ∧
    md.flags = flags ∧ md.updateFlag = md

/-- The tree of the monitor has the nodes of the profiled thread that calls have
entered, with their places, their calls and the time of their activations. The
last two are exact as far as they fit 64 bits. -/
structure Mirrors (ti : ThreadInfo) (a : Activity) (tree : Tree) : Prop where
  nodes : ∀ k : NodeID, (∃ n, tree[k]? = some n) ↔ k = 1 ∨ k ∈ a.entered
  place : ∀ (k : NodeID) (n : RecordNode), tree[k]? = some n → k ≠ 1 → ∃ m : MethodNodeInfo,
    ti.nodeInfoArray[k]? = some m ∧ n.parentId = m.parentNodeId ∧ n.nodeName = m.nameid
  calls : ∀ (k : NodeID) (n : RecordNode), tree[k]? = some n → Numbers n.callCount (a.entered.count k)
  times : ∀ (k : NodeID) (n : RecordNode), tree[k]? = some n →
    Counts (value n.allValues 0) (sumAt Prod.fst Prod.snd a.completed k)

variable {g : RecordTable} {t : Nat} {gl : Settings} {ds : DataStore} {st : Session} {a : Activity}
  {deliveries : List Delivery}

theorem Delivers.split {drained : List Drained} (h : Delivers drained deliveries)
    {done rest : List Delivery} {d : Delivery} (he : deliveries = done ++ d :: rest) :
    ∃ ddone dd drest, drained = ddone ++ dd :: drest ∧ logOf done = recordsOf ddone ∧ d.batch = dd.records ∧
      d.now = nowOf dd.nowInfo := by
  have hb := h.buffers
  rw [he, List.map_append, List.map_cons, eq_comm, List.map_eq_append_iff] at hb
  obtain ⟨ddone, more, hst, hdone, hmore⟩ := hb
  obtain ⟨dd, drest, rfl, hd, -⟩ := List.map_eq_cons_iff.mp hmore
  rw [Prod.mk.injEq] at hd
  refine ⟨ddone, dd, drest, hst, ?_, hd.1.symm, hd.2.symm⟩
  have hlog :=
    congrArg (fun l : List (List MethodNodeSerializedInfo × NowInfo) => (l.map Prod.fst).flatten) hdone
  simpa [logOf, recordsOf, List.flatMap, Function.comp_def] using hlog.symm

theorem Delivers.log {drained : List Drained} (h : Delivers drained deliveries) :
    logOf deliveries = recordsOf drained := by
  have hlog :=
    congrArg (fun l : List (List MethodNodeSerializedInfo × NowInfo) => (l.map Prod.fst).flatten) h.buffers
  simpa [logOf, recordsOf, List.flatMap, Function.comp_def] using hlog

theorem Accounted.wellFormed_two (hnum : ds.numRecords = 2) (ha : Accounted st a)
    (h : Delivers st.drained deliveries) : WellFormedRun ds deliveries := by
  refine ⟨h.times, fun done d rest he => ?_⟩
  obtain ⟨ddone, dd, drest, hst, hlog, hbatch, hnow⟩ := h.split he
  have hmem : dd ∈ st.drained := by rw [hst]; simp
  have hrecords : st.log = recordsOf ddone ++ dd.records ++
      (recordsOf drest ++ st.thread.serializedNodeInfoArray) := by
    rw [Session.log, hst, recordsOf_append, ← List.singleton_append, recordsOf_append, recordsOf_singleton]
    simp only [List.append_assoc]
  have hin (r : MethodNodeSerializedInfo) (hr : r ∈ d.batch) : r ∈ st.log := by
    rw [hrecords]
    rw [hbatch] at hr
    exact List.mem_append_left _ (List.mem_append_right _ hr)
  refine ⟨?_, ?_, ?_, ?_, ?_⟩
  · rw [hbatch]
    exact ha.logged.ids dd hmem
  · intro r hr
    have := (ha.logged.place r (hin r hr)).1
    omega
  · intro pre r post hsplit
    rw [hlog]
    have hlog' : st.log = (recordsOf ddone ++ pre) ++
        r :: (post ++ (recordsOf drest ++ st.thread.serializedNodeInfoArray)) := by
      rw [hrecords, ← hbatch, hsplit]
      simp only [List.append_assoc, List.cons_append]
    have hj : st.log[(recordsOf ddone ++ pre).length]? = some r := by
      rw [hlog', List.getElem?_append_right (le_refl _), Nat.sub_self]
      rfl
    have hpar := ha.logged.parent _ r hj
    rwa [hlog', List.take_left'] at hpar
    rfl
  · intro r hr
    obtain ⟨v₀, v₁, hv⟩ := ha.values r (hin r hr)
    rw [hv, hnum]
    rfl
  · obtain ⟨v₀, v₁, hv⟩ := ha.drained dd hmem
    rw [hnow, nowOf, hv, hnum]
    exact le_refl 2

theorem Accounted.wellFormed (hc : SingleCounter g t) (hx : Exchanged g ds) (ha : Accounted st a)
    (h : Delivers st.drained deliveries) : WellFormedRun ds deliveries :=
  Accounted.wellFormed_two (by rw [hx.numRecords, hc.active]; rfl) ha h

theorem Exchanged.counter (hc : SingleCounter g t) (hx : Exchanged g ds) :
    0 < ds.numRecords ∧ isStatic ds 0 = false ∧ isAccumulated ds 0 = true := by
  have hnum : ds.numRecords = 2 := by rw [hx.numRecords, hc.active]; rfl
  obtain ⟨flags, md, hflags, hmd, he, hup⟩ := hx.flags 0 (by omega)
  rw [hc.flags.1, Except.ok.injEq] at hflags
  subst hflags
  have hs := congrArg RecordMetadata.staticValueFlag hup
  have ha := congrArg RecordMetadata.accumulatedValueFlag hup
  simp only [RecordMetadata.updateFlag, RecordMetadata.assocFlag, he] at hs ha
  refine ⟨by omega, ?_, ?_⟩
  · rw [isStatic, hmd, Option.any_some, ← hs]
    decide
  · rw [isAccumulated, hmd, Option.any_some, ← ha]
    decide

theorem observeEvents_drained (hc : SingleCounter g t) (threadID : Nat) (es : List Event) (reading : Reading)
    (hcount : drainCount (es ++ [.drain reading]) < 2 ^ 32 - 1) :
    ∃ st a, observeEvents g t threadID (es ++ [.drain reading]) = .ok (st, a) ∧ Accounted st a ∧
      st.thread.serializedNodeInfoArray = [] := by
  rw [drainCount_append, show drainCount [.drain reading] = 1 from rfl] at hcount
  obtain ⟨st, a, hrun, ha, hlen⟩ := observeEvents_accounted hc threadID es (by omega)
  obtain ⟨ti', d, hdrain, hlive, -, ha'⟩ := Accounted.drain hc ha (by omega) reading
  refine ⟨⟨ti', st.drained ++ [d]⟩, a, ?_, ha', hlive⟩
  rw [observeEvents, List.foldlM_append, show es.foldlM _ _ = _ from hrun, ok_bind,
    List.foldlM_cons, Event.observed, Event.run, hdrain]
  rfl

/-- After every store of an undisturbed run the tree of the monitor mirrors the
profiled thread as of the last drain. -/
theorem tree_mirrors (g : RecordTable) (t : Nat) (hc : SingleCounter g t) (threadID : Nat) (gl : Settings)
    (hoff : gl.leafNodeAccumulate = false) (hsingle : gl.singleTreeMode = false)
    (ds : DataStore) (hx : Exchanged g ds) (es : List Event) (reading : Reading)
    (hcount : drainCount (es ++ [.drain reading]) < 2 ^ 32 - 1) :
    ∃ st a, observeEvents g t threadID (es ++ [.drain reading]) = .ok (st, a) ∧
      ∀ deliveries, Delivers st.drained deliveries → UndisturbedRun ds deliveries →
        ∃ ts, storeAll gl ds (newThreadStore gl ds threadID) deliveries = .ok ts ∧
          Mirrors st.thread a ts.currentTree := by
  obtain ⟨st, a, hrun, ha, hlive⟩ := observeEvents_drained hc threadID es reading hcount
  refine ⟨st, a, hrun, fun deliveries hdel hu => ?_⟩
  obtain ⟨ts, rank, hstore, hr, ht⟩ := storeAll_tallied gl hx.described hoff hsingle threadID
    (Accounted.wellFormed hc hx ha hdel) hu
  have hlog : logOf deliveries = st.log := by rw [hdel.log, Session.log, hlive, List.append_nil]
  rw [hlog] at ht
  have hlinks := hr.links
  rw [hlog] at hlinks
  obtain ⟨h0, hstatic, hacc⟩ := hx.counter hc
  refine ⟨ts, hstore, ?_, ?_, ?_, ?_⟩
  · intro k
    rw [hlinks.known, Known, ha.entered]
  · intro k n hk h1
    have hlink := hlinks k
    rw [hk, Option.map_some, linkOf, if_neg h1] at hlink
    obtain ⟨r, hrec, he⟩ := Option.map_eq_some_iff.mp hlink.symm
    rw [Prod.mk.injEq] at he
    have hid : r.callNodeId = k := by simpa using List.find?_some hrec
    obtain ⟨-, s, hs, hp, hx⟩ := ha.logged.place r (List.mem_of_find?_eq_some hrec)
    rw [hid] at hs
    obtain ⟨m, hm, rfl⟩ := shapeAt_eq_some.mp hs
    exact ⟨m, hm, he.1.symm.trans hp.symm, he.2.symm.trans hx.symm⟩
  · intro k n hk
    rw [(ht k n hk).calls, ← ha.calls k]
    exact numbers_sumAt (fun r _ => numbers_iff.mpr rfl) _ k
  · intro k n hk
    rw [(ht k n hk).all 0 h0, hstatic, if_neg Bool.false_ne_true, gain, hacc, if_pos rfl, counts_iff]
    exact ha.times k

def counterSlots : DataStore :=
  { currentTimeNumber := 0
    recordMetadata :=
      [{ fieldName := [], unit := [], flags := ascii "A", accumulatedValueFlag := true, staticValueFlag := false },
       { fieldName := [], unit := [], flags := ascii "S", accumulatedValueFlag := false, staticValueFlag := true }]
    numRecords := 2
    nameTable := ∅ }

def nestedCalls : List Event :=
  [.handler (.call 1 (fun _ => 10)), .drain (fun _ => 15), .handler (.call 2 (fun _ => 20)),
   .handler (.ret (fun _ => 35)), .handler (.ret (fun _ => 40))]

def nestedDeliveries (nameTable : Std.TreeMap NameID Bytes) : List Delivery :=
  [{ time := 1, nameTable, batch := [⟨1, 2, 1, 1, [0, 10]⟩], now := ⟨2, [0, 15]⟩ },
   { time := 2, nameTable, batch := [⟨2, 3, 2, 1, [15, 20]⟩, ⟨1, 2, 1, 0, [30, 0]⟩], now := ⟨1, [0, 50]⟩ }]

/-- The drained buffers of `nestedCalls`, with a last drain. -/
def nestedDrained : List Drained :=
  [⟨[⟨1, 2, 1, 1, [0, 10]⟩], ⟨2, [0, 15]⟩⟩, ⟨[⟨2, 3, 2, 1, [15, 20]⟩, ⟨1, 2, 1, 0, [30, 0]⟩], ⟨1, [0, 50]⟩⟩]

theorem nestedCalls_observed :
    ∃ st a, observeEvents oneCounter 0 0 (nestedCalls ++ [.drain (fun _ => 50)]) = .ok (st, a) ∧
      st.drained = nestedDrained ∧ a.entered = [2, 3] := by
  obtain ⟨⟨st, a⟩, hrun, h⟩ :=
    ok_of_any (x := observeEvents oneCounter 0 0 (nestedCalls ++ [.drain (fun _ => 50)]))
      (p := fun x => x.1.drained = nestedDrained ∧ x.2.entered = [2, 3]) (by decide +kernel)
  exact ⟨st, a, hrun, of_decide_eq_true h⟩

theorem nestedDeliveries_delivers (nameTable : Std.TreeMap NameID Bytes) :
    Delivers nestedDrained (nestedDeliveries nameTable) := by
  refine ⟨rfl, ?_⟩
  simp [nestedDeliveries]

theorem oneCounter_single : SingleCounter oneCounter 0 := ⟨rfl, _, rfl, rfl⟩

theorem counterSlots_exchanged : Exchanged oneCounter counterSlots := by
  refine ⟨rfl, rfl, fun i hi => ?_⟩
  obtain rfl | rfl : i = 0 ∨ i = 1 := by
    have : i < 2 := hi
    omega
  · exact ⟨_, _, (oneCounter_single.flags).1, rfl, rfl, by decide⟩
  · exact ⟨_, _, (oneCounter_single.flags).2, rfl, rfl, by decide⟩

theorem mirror_fails_below_hash :
    ∃ st a ts, observeEvents oneCounter 0 0 (nestedCalls ++ [.drain (fun _ => 50)]) = .ok (st, a) ∧
      Delivers st.drained (nestedDeliveries ((∅ : Std.TreeMap NameID Bytes).insert 1 (ascii "#a"))) ∧
      storeAll defaultMode counterSlots (newThreadStore defaultMode counterSlots 0)
        (nestedDeliveries ((∅ : Std.TreeMap NameID Bytes).insert 1 (ascii "#a"))) = .ok ts ∧
      ¬ Mirrors st.thread a ts.currentTree := by
  obtain ⟨st, a, hobserve, hdrained, hentered⟩ := nestedCalls_observed
  obtain ⟨ts, hrun, hcalls⟩ :=
    ok_of_any (x := storeAll defaultMode counterSlots (newThreadStore defaultMode counterSlots 0)
        (nestedDeliveries ((∅ : Std.TreeMap NameID Bytes).insert 1 (ascii "#a"))))
      (p := fun ts => (ts.currentTree[(3 : NodeID)]?).any (fun n => n.callCount = 0)) (by decide +kernel)
  refine ⟨st, a, ts, hobserve, ?_, hrun, fun h => ?_⟩
  · rw [hdrained]
    exact nestedDeliveries_delivers _
  · obtain ⟨n, hn, hn0⟩ : ∃ n, ts.currentTree[(3 : NodeID)]? = some n ∧ n.callCount = 0 := by
      simpa only [Option.any_eq_true, decide_eq_true_eq] using hcalls
    have hc := h.calls 3 n hn
    rw [hn0, hentered] at hc
    exact absurd (hc.exact.mpr (by decide)) (by decide)

theorem tree_mirrors_nested :
    ∃ st a ts, observeEvents oneCounter 0 0 (nestedCalls ++ [.drain (fun _ => 50)]) = .ok (st, a) ∧
      storeAll defaultMode counterSlots (newThreadStore defaultMode counterSlots 0) (nestedDeliveries ∅) =
        .ok ts ∧
      Mirrors st.thread a ts.currentTree := by
  obtain ⟨st', a', hobserve, hdrained, -⟩ := nestedCalls_observed
  obtain ⟨st, a, hrun, hall⟩ := tree_mirrors oneCounter 0 oneCounter_single 0 defaultMode rfl rfl counterSlots
    counterSlots_exchanged nestedCalls (fun _ => 50) (by decide)
  rw [hobserve, Except.ok.injEq, Prod.mk.injEq] at hrun
  obtain ⟨rfl, rfl⟩ := hrun
  rw [hdrained] at hall
  obtain ⟨ts, hstore, hm⟩ := hall (nestedDeliveries ∅) (nestedDeliveries_delivers _)
    (forall_split_cons.mpr ⟨undisturbed_of_names (unknown_names rfl), forall_split_cons.mpr
      ⟨undisturbed_of_names (unknown_names rfl), forall_split_nil⟩⟩)
  exact ⟨st', a', ts, hobserve, hstore, hm⟩

end Llprof.Link.Mirror
