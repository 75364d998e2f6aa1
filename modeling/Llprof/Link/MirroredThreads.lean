import Llprof.Link.WireTick
import Llprof.Monitor.OperationFrame
import Llprof.Monitor.RangeAnswers

namespace Llprof.Link.MirroredThreads

open Faulting hiding store
open LittleEndian MachineIntegers ParentTree Profiler.Records Profiler.CallTree Profiler.TreeInvariant
  Profiler.Drains Profiler.Activations Wire.NameQuery Monitor.Nodes Monitor.Store Monitor.SlotLoops
  Monitor.TreeShape Monitor.Receive Monitor.StoreSpec Monitor.Runs Monitor.RunTotals Monitor.MergeSlices
  Monitor.RangeAnswers Mirror WireTick
open Monitor.Ticks (Threads putThread threadOf storeCall)
open Monitor.OperationFrame (SortedThreads sorted_putThread)

def drainsIn (i : Nat) (sweep : Sweep) : List Drained := (sweep.filter (fun e => e.1 = i)).map Prod.snd

def PlainNames (names : NameTable) : Prop :=
  ∀ (x : Nat) (name : Bytes), names[x]? = some name → isAttrName name = false

structure CounterSlots (base : DataStore) : Prop where
  two : base.numRecords = 2
  described : Described base
  static : isStatic base 0 = false
  accumulated : isAccumulated base 0 = true

def Drawn (drained : List Drained) : Prop := ∃ st a, Accounted st a ∧ st.drained = drained

def deliveryOf (time : Int) (names : NameTable) (b : Drained) : Delivery :=
  ⟨time, names, b.records, nowOf b.nowInfo⟩

/-- The store of a thread is what all that has been drained from the thread makes of a new
one, and it is there if something has been drained. -/
structure Holds (gl : Settings) (base : DataStore) (time : Int) (i : ThreadID) (drained : List Drained)
    (given : List Delivery) (threads : Threads) : Prop where
  present : threads.lookup i = none ↔ drained = []
  delivers : Delivers drained given
  before : ∀ d ∈ given, PlainNames d.nameTable ∧ d.time < time
  stored : storeAll gl base (newThreadStore gl base i) given = .ok (threadOf gl base threads i)

variable {gl : Settings} {base : DataStore} {time : Int} {names : NameTable} {threads : Threads}
  {drained : List Drained} {given : List Delivery} {i j : ThreadID}

theorem drainsIn_append (i : Nat) (xs ys : Sweep) :
    drainsIn i (xs ++ ys) = drainsIn i xs ++ drainsIn i ys := by
  rw [drainsIn, List.filter_append, List.map_append]
  rfl

theorem lookup_putThread (threads : Threads) (i : ThreadID) (ts : ThreadStore) :
    (putThread threads i ts).lookup i = some ts := by
  induction threads with
  | nil => exact List.lookup_cons_self
  | cons p rest ih =>
      obtain ⟨k, t⟩ := p
      rw [putThread]
      split
      next he =>
        subst he
        exact List.lookup_cons_self
      next hne =>
        split
        · exact List.lookup_cons_self
        · rw [List.lookup_cons, beq_eq_false_iff_ne.mpr hne]
          exact ih

theorem lookup_putThread_ne (h : j ≠ i) (threads : Threads) (ts : ThreadStore) :
    (putThread threads i ts).lookup j = threads.lookup j := by
  have hb : (j == i) = false := beq_eq_false_iff_ne.mpr h
  induction threads with
  | nil => rw [putThread, List.lookup_cons, hb]
  | cons p rest ih =>
      obtain ⟨k, t⟩ := p
      rw [putThread]
      split
      next he =>
        subst he
        rw [List.lookup_cons, List.lookup_cons, hb]
      next =>
        split
        · rw [List.lookup_cons, hb]
        · rw [List.lookup_cons, List.lookup_cons, ih]

theorem Holds.frame (h : Holds gl base time j drained given threads) (hne : j ≠ i) (ts : ThreadStore) :
    Holds gl base time j drained given (putThread threads i ts) := by
  have hlook := lookup_putThread_ne hne threads ts
  refine ⟨hlook ▸ h.present, h.delivers, h.before, ?_⟩
  rw [threadOf, hlook]
  exact h.stored

theorem Holds.later (h : Holds gl base time i drained given threads) {time' : Int} (ht : time ≤ time') :
    Holds gl base time' i drained given threads :=
  ⟨h.present, h.delivers, fun d hm => ⟨(h.before d hm).1, (h.before d hm).2.trans_le ht⟩, h.stored⟩

theorem undisturbed_of_plain {deliveries : List Delivery} (h : ∀ d ∈ deliveries, PlainNames d.nameTable) :
    UndisturbedRun base deliveries := by
  intro done d rest he
  apply undisturbed_of_names
  intro x
  have hplain := h d (by rw [he]; simp)
  rw [DataStore.getNameFromID, Std.TreeMap.getD_eq_getD_getElem?]
  cases hx : (d.dataStore base).nameTable[x]? with
  | none => rfl
  | some name => exact hplain x name hx

theorem Delivers.snoc (h : Delivers drained given) (htime : ∀ d ∈ given, d.time < time)
    (names : NameTable) (b : Drained) : Delivers (drained ++ [b]) (given ++ [deliveryOf time names b]) := by
  refine ⟨?_, ?_⟩
  · rw [List.map_append, List.map_append, h.buffers]
    rfl
  · rw [List.map_append, List.pairwise_append]
    refine ⟨h.times, List.pairwise_singleton _ _, ?_⟩
    intro u hu v hv
    obtain ⟨d, hd, rfl⟩ := List.mem_map.mp hu
    obtain rfl := List.mem_singleton.mp hv
    exact htime d hd

theorem storeCall_holds (hs : CounterSlots base) (hoff : gl.leafNodeAccumulate = false)
    (hsingle : gl.singleTreeMode = false) (hplain : PlainNames names) {e : Nat × Drained}
    (hdrawn : Drawn (drained ++ [e.2])) (h : Holds gl base time e.1 drained given threads) :
    ∃ ts, storeCall gl { base with currentTimeNumber := time, nameTable := names } threads (callOf e) =
        .ok (putThread threads e.1 ts) ∧
      Holds gl base (time + 1) e.1 (drained ++ [e.2]) (given ++ [deliveryOf time names e.2])
        (putThread threads e.1 ts) := by
  obtain ⟨st, a, ha, hst⟩ := hdrawn
  have hdel : Delivers (drained ++ [e.2]) (given ++ [deliveryOf time names e.2]) :=
    Delivers.snoc h.delivers (fun d hd => (h.before d hd).2) names e.2
  have hbefore : ∀ d ∈ given ++ [deliveryOf time names e.2], PlainNames d.nameTable ∧ d.time < time + 1 := by
    intro d hd
    rcases List.mem_append.mp hd with hd | hd
    · exact ⟨(h.before d hd).1, by have := (h.before d hd).2; omega⟩
    · obtain rfl := List.mem_singleton.mp hd
      exact ⟨hplain, Int.lt_succ time⟩
  obtain ⟨ts, -, hstore, -, -⟩ := storeAll_tallied gl hs.described hoff hsingle e.1
    (Accounted.wellFormed_two hs.two ha (hst ▸ hdel)) (undisturbed_of_plain fun d hd => (hbefore d hd).1)
  have hlast := hstore
  rw [storeAll_append] at hlast
  obtain ⟨ts₀, hts₀, hlast⟩ := hlast
  obtain rfl := Except.ok.inj (hts₀.symm.trans h.stored)
  rw [storeAll, List.foldlM_cons, bind_eq_ok] at hlast
  obtain ⟨ts₁, hlast, hend⟩ := hlast
  cases hend
  refine ⟨ts, ?_, ?_, hdel, hbefore, ?_⟩
  · have hcall : store gl { base with currentTimeNumber := time, nameTable := names }
        (threadOf gl { base with currentTimeNumber := time, nameTable := names } threads e.1)
          e.2.records (nowOf e.2.nowInfo) =
        .ok ts := hlast
    rw [storeCall, callOf]
    dsimp only
    rw [hcall]
    rfl
  · rw [lookup_putThread]
    simp
  · rw [hstore, threadOf, lookup_putThread]
    rfl

theorem storeCalls_hold (hs : CounterSlots base) (hoff : gl.leafNodeAccumulate = false)
    (hsingle : gl.singleTreeMode = false) (hplain : PlainNames names) (sweep : Sweep)
    (hids : (sweep.map Prod.fst).Nodup) (past : Nat → List Drained) (given : Nat → List Delivery)
    (hdrawn : ∀ e ∈ sweep, Drawn (past e.1 ++ [e.2]))
    (hnew : ∀ e ∈ sweep, Holds gl base time e.1 (past e.1) (given e.1) threads)
    (hall : ∀ i, Holds gl base (time + 1) i (past i) (given i) threads) (hsorted : SortedThreads threads) :
    ∃ threads', (sweep.map callOf).foldlM (storeCall gl { base with currentTimeNumber := time, nameTable := names }) threads =
        .ok threads' ∧ SortedThreads threads' ∧
      ∀ i, Holds gl base (time + 1) i (past i ++ drainsIn i sweep)
        (given i ++ (drainsIn i sweep).map (deliveryOf time names)) threads' := by
  induction sweep generalizing threads past given with
  | nil =>
      refine ⟨threads, rfl, hsorted, fun i => ?_⟩
      rw [drainsIn, List.filter_nil, List.map_nil, List.map_nil, List.append_nil, List.append_nil]
      exact hall i
  | cons e sweep ih =>
      rw [List.map_cons, List.nodup_cons] at hids
      rw [List.forall_mem_cons] at hdrawn hnew
      obtain ⟨ts, hcall, hholds⟩ := storeCall_holds hs hoff hsingle hplain hdrawn.1 hnew.1
      let past' := Function.update past e.1 (past e.1 ++ [e.2])
      let given' := Function.update given e.1 (given e.1 ++ [deliveryOf time names e.2])
      have hself : past' e.1 = past e.1 ++ [e.2] ∧ given' e.1 = given e.1 ++ [deliveryOf time names e.2] :=
        ⟨Function.update_self .., Function.update_self ..⟩
      have hother (i : Nat) (hi : i ≠ e.1) : past' i = past i ∧ given' i = given i :=
        ⟨Function.update_of_ne hi .., Function.update_of_ne hi ..⟩
      have hne (f : Nat × Drained) (hf : f ∈ sweep) : f.1 ≠ e.1 := by
        intro he
        exact hids.1 (he ▸ List.mem_map_of_mem hf)
      obtain ⟨threads', hrun, hend, hrest⟩ := ih hids.2 past' given'
        (fun f hf => by
          rw [(hother f.1 (hne f hf)).1]
          exact hdrawn.2 f hf)
        (fun f hf => by
          rw [(hother f.1 (hne f hf)).1, (hother f.1 (hne f hf)).2]
          exact (hnew.2 f hf).frame (hne f hf) ts)
        (fun i => by
          by_cases hi : i = e.1
          · subst hi
            rw [hself.1, hself.2]
            exact hholds
          · rw [(hother i hi).1, (hother i hi).2]
            exact (hall i).frame hi ts)
        (sorted_putThread hsorted e.1 ts)
      refine ⟨threads', ?_, hend, fun i => ?_⟩
      · rw [List.map_cons, List.foldlM_cons, hcall]
        exact hrun
      · have hi := hrest i
        by_cases he : e.1 = i
        · subst he
          rw [hself.1, hself.2, List.append_assoc, List.append_assoc] at hi
          simpa [drainsIn] using hi
        · rw [(hother i (Ne.symm he)).1, (hother i (Ne.symm he)).2] at hi
          simpa [drainsIn, he] using hi

theorem place_of_link {st : Session} {a : Activity} (ha : Accounted st a) {k : NodeID}
    {p : NodeID} {y : NameID} (h : linkOf st.log k = some (p, y)) (h1 : k ≠ 1) :
    ∃ m : MethodNodeInfo, st.thread.nodeInfoArray[k]? = some m ∧ p = m.parentNodeId ∧ y = m.nameid := by
  rw [linkOf, if_neg h1] at h
  obtain ⟨r, hrec, he⟩ := Option.map_eq_some_iff.mp h
  obtain ⟨hp, hy⟩ := Prod.mk.inj he
  obtain ⟨-, s, hs, hsp, hsy⟩ := ha.logged.place r (List.mem_of_find?_eq_some hrec)
  obtain ⟨m, hm, rfl⟩ := shapeAt_eq_some.mp hs
  have hid : r.callNodeId = k := by simpa using List.find?_some hrec
  exact ⟨m, hid ▸ hm, hp.symm.trans hsp.symm, hy.symm.trans hsy.symm⟩

/-- The tree of all that has been drained has the calls and the time of the activations,
if the thread has sent all its records. -/
theorem tree_tallies {st : Session} {a : Activity} (hs : CounterSlots base)
    (hoff : gl.leafNodeAccumulate = false) (hsingle : gl.singleTreeMode = false) (ha : Accounted st a)
    (hlive : st.thread.serializedNodeInfoArray = []) (hdel : Delivers st.drained given)
    (hplain : ∀ d ∈ given, PlainNames d.nameTable) (i : ThreadID) :
    ∃ ts rank, storeAll gl base (newThreadStore gl base i) given = .ok ts ∧
      Reached gl base given rank ts ∧ logOf given = st.log ∧
      ∀ k, Numbers (callsIn (dataAt ts.currentTree k)) (a.entered.count k) ∧
        Counts (valueIn (dataAt ts.currentTree k) 0) (sumAt Prod.fst Prod.snd a.completed k) := by
  obtain ⟨ts, rank, hrun, hr, ht⟩ :=
    storeAll_tallied gl hs.described hoff hsingle i (Accounted.wellFormed_two hs.two ha hdel)
      (undisturbed_of_plain hplain)
  have hlog : logOf given = st.log := by rw [hdel.log, Session.log, hlive, List.append_nil]
  refine ⟨ts, rank, hrun, hr, hlog, fun k => ?_⟩
  rw [numbers_iff, counts_iff, ← ha.calls k, ← ha.times k]
  cases hk : ts.currentTree[k]? with
  | none =>
      have hnone : ∀ r ∈ st.log, r.callNodeId ≠ k := by
        intro r hrec he
        obtain ⟨n, hn⟩ := (hr.links.known k).mpr (Or.inr ⟨r, hlog ▸ hrec, he⟩)
        rw [hk] at hn
        cases hn
      rw [dataAt, hk, sumAt_eq_zero hnone, sumAt_eq_zero hnone]
      exact ⟨rfl, rfl⟩
  | some n =>
      have hvalue := (ht k n hk).all 0 (by rw [hs.two]; exact Nat.two_pos)
      have hcalls := (ht k n hk).calls
      rw [hs.static, if_neg Bool.false_ne_true, gain, hs.accumulated, if_pos rfl, hlog] at hvalue
      rw [hlog] at hcalls
      rw [dataAt, hk]
      exact ⟨hcalls.trans (numbers_sumAt (fun r _ => numbers_iff.mpr rfl) _ k).wrapped, hvalue⟩

theorem Holds.mirrors {st : Session} {a : Activity} (hs : CounterSlots base)
    (hoff : gl.leafNodeAccumulate = false) (hsingle : gl.singleTreeMode = false) (ha : Accounted st a)
    (hlive : st.thread.serializedNodeInfoArray = []) (hne : st.drained ≠ [])
    (h : Holds gl base time i st.drained given threads) :
    ∃ ts, threads.lookup i = some ts ∧ Mirrors st.thread a ts.currentTree := by
  obtain ⟨ts, rank, hstore, hr, hlog, ht⟩ :=
    tree_tallies hs hoff hsingle ha hlive h.delivers (fun d hd => (h.before d hd).1) i
  have hlinks := hr.links
  rw [hlog] at hlinks
  have hlook : threads.lookup i = some ts := by
    have hrun := h.stored
    cases hl : threads.lookup i with
    | none => exact absurd (h.present.mp hl) hne
    | some ts' =>
        rw [threadOf, hl, Option.getD_some, hstore, Except.ok.injEq] at hrun
        rw [hrun]
  refine ⟨ts, hlook, ?_, ?_, ?_, ?_⟩
  · intro k
    rw [hlinks.known, Known, ha.entered]
  · intro k n hk h1
    have hlink := hlinks k
    rw [hk, Option.map_some] at hlink
    exact place_of_link ha hlink.symm h1
  · intro k n hk
    have hcalls := (ht k).1
    rw [dataAt, hk] at hcalls
    exact hcalls
  · intro k n hk
    have htimes := (ht k).2
    rw [dataAt, hk] at htimes
    exact htimes

end Llprof.Link.MirroredThreads
