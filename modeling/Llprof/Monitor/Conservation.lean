import Llprof.Foundations.Lockstep
import Llprof.Monitor.MixedStores
import Llprof.Monitor.RunTotals
import Llprof.Monitor.TargetHistories
import Mathlib.Data.List.Infix

namespace Llprof.Monitor.Conservation

open Faulting hiding store
open TreeMaps Nodes Store SlotLoops TreeShape SliceFrame SliceContents Ticks SequenceOrder
  IntegrationSlots NamePaths Gathering GatheredSlices GlobalPaths LogPaths FilledThreads FilledTargets
  TargetHistories MixedStores
open LittleEndian (Bytes ascii)
open MachineIntegers
open OrderedStores (logOf namesOf)
open Runs (newThreadStore_tree)

/-- The monitor, and all that was in the slices when they were integrated. -/
structure Watched where
  stores : AllDataStore
  measured : List Measurement

def connected (m : AllDataStore) (n : Nat) :
    AllDataStore := { m with targets := m.targets ++ List.replicate n newDataStore }

def watch (gl : Settings) (w : Watched) (t : Turn) : Run Watched := do
  let m := connected w.stores t.connected
  let targets ← receiveAll gl m.targets t.receptions
  let stores ← tick gl m t.receptions
  return ⟨stores, w.measured ++ measurements targets⟩

def watchAll (gl : Settings) (turns : List Turn) : Run Watched := turns.foldlM (watch gl) ⟨initDataStore, []⟩

def SourcePath (m : AllDataStore) (p : NamePath) : Prop :=
  ∃ t ∈ m.targets, ∃ x ∈ t.threads, ∃ k, pathOf t.ds x.2.currentTree k = some p

def globalTree (global : GlobalDataStore) : Tree := (global.thread.map fun g => g.ts.currentTree).getD ∅

/-- A node has the sums of all measurements of a path, as far as 64 bits can hold them. -/
structure Sums (ds : DataStore) (ms : List Measurement) (p : NamePath) (n : RecordNodeBasic) : Prop where
  calls : Numbers n.callCount (total (fun e => e.callCount.toNat) ms p)
  all : ∀ i < ds.numRecords, isStatic ds i = false →
    Counts (value n.allValues i) (total (fun e => (value e.allValues i).toInt) ms p)
  children : ∀ i < ds.numRecords, isStatic ds i = false →
    Counts (value n.childrenValues i) (total (fun e => (value e.childrenValues i).toInt) ms p)

/-- The global tree has one node for each path of the sources, below the one of the path
without its last name, with the sums of all that was measured of the path. -/
structure Conserves (m : AllDataStore) (ms : List Measurement) : Prop where
  drained : ∀ t ∈ m.targets, ∀ x ∈ t.threads, x.2.timeSlice = []
  measured : ∀ e ∈ ms, ∃ p, e.path = some p ∧ (p = [] ∨ SourcePath m p)
  one : ∀ p, (SourcePath m p ∨ ∃ e ∈ ms, e.path = some p) →
    ∃! k, pathOf m.global.ds (globalTree m.global) k = some p
  nodes : ∀ (k : NodeID) (n : RecordNode), (globalTree m.global)[k]? = some n →
    ∃ p, pathOf m.global.ds (globalTree m.global) k = some p ∧ (p = [] ∨ SourcePath m p) ∧
      (∀ name q, p = name :: q → pathOf m.global.ds (globalTree m.global) n.parentId = some q) ∧
      Sums m.global.ds ms p n.toRecordNodeBasic

variable {gl : Settings} {md : List RecordMetadata} {gs gs' : List (List Reception)} {rs : List Reception}
  {turns done rest : List Turn} {t : TargetStore} {targets targets' : List TargetStore}
  {src : List NamePath} {w : Watched} {ms : List Measurement} {global : GlobalDataStore} {ds ds' : DataStore}
  {g : GlobalThreadStore} {p : NamePath}

structure GlobalGathered (gl : Settings) (md : List RecordMetadata)
    (src : List NamePath) (ms : List Measurement) (global : GlobalDataStore)
    (g : GlobalThreadStore) : Prop where
  thread : global.thread = some g
  metadata : global.ds.recordMetadata = md
  numRecords : global.ds.numRecords = md.length
  slots : GlobalSlots global.ds g.ts
  reaches : Reaches g.ts global.ds.currentTimeNumber
  gathered : Gathered gl global.ds src ms global.ds.nameTable g

structure Conserved (gl : Settings) (md : List RecordMetadata) (src : List NamePath)
    (gs : List (List Reception)) (w : Watched) : Prop where
  targets : List.Forall₂ (TargetSettled gl md) gs w.stores.targets
  sound : ∀ m ∈ w.measured, ∃ p, m.path = some p ∧ (p = [] ∨ ∃ rs ∈ gs, p ∈ historyPaths md rs)
  complete : ∀ rs ∈ gs, ∀ p ∈ historyPaths md rs, p = [] ∨ ∃ m ∈ w.measured, m.path = some p
  global : gs = [] ∧ w.measured = [] ∧ w.stores.global = newGlobalDataStore ∨
    ∃ g, GlobalGathered gl md src w.measured w.stores.global g

theorem Holds.dataStore {n : RecordNodeBasic} (h : Holds ds ms p n) (hn : ds'.numRecords = ds.numRecords)
    (hm : ds'.recordMetadata = ds.recordMetadata) : Holds ds' ms p n := by
  have hstatic (i : Nat) : isStatic ds' i = isStatic ds i := by rw [isStatic, hm]; rfl
  refine ⟨h.calls, fun i hi hs => h.all i (hn ▸ hi) ?_, fun i hi hs => h.children i (hn ▸ hi) ?_⟩
  · rw [← hstatic, hs]
  · rw [← hstatic, hs]

theorem Holds.sums {n : RecordNodeBasic} (h : Holds ds ms p n) : Sums ds ms p n := by
  have hcounts (f : RecordNodeBasic → ProfileValue) :
      Counts (total f ms p) (total (fun e => (f e).toInt) ms p) :=
    counts_sumAt (fun _ _ => counts_toInt _) _ _
  refine ⟨?_, fun i hi hs => ?_, fun i hi hs => ?_⟩
  · rw [h.calls]
    exact numbers_sumAt (fun _ _ => numbers_toNat _) _ _
  · rw [h.all i hi hs]
    exact hcounts fun e => value e.allValues i
  · rw [h.children i hi hs]
    exact hcounts fun e => value e.childrenValues i

theorem Gathered.dataStore {names : Std.TreeMap NameID Bytes} (h : Gathered gl ds src ms names g)
    (hn : ds'.numRecords = ds.numRecords) (hm : ds'.recordMetadata = ds.recordMetadata) :
    Gathered gl ds' src ms names g := by
  refine ⟨h.numbering, h.root, fun k n hk => ?_, h.measured⟩
  obtain ⟨p, hp, hmeasured, hstands⟩ := h.nodes k n hk
  exact ⟨p, hp, hmeasured, hstands.seq, hstands.placed, Holds.dataStore hstands.holds hn hm⟩

theorem newThreadStore_gathered (gl : Settings) (ds : DataStore) (hs : [] ∈ src)
    (names : Std.TreeMap NameID Bytes) : Gathered gl ds src [] names ⟨newThreadStore gl ds 0, 1, ∅⟩ := by
  have htree := newThreadStore_tree gl ds 0
  refine ⟨⟨le_refl _, fun gnid s h => ?_, fun gnid gnid' s h => ?_⟩,
    mem_iff_some.mpr ⟨_, (htree 1).trans (if_pos rfl)⟩, fun k n hk => ?_, fun m hm => ?_⟩
  · rw [Std.TreeMap.getElem?_emptyc] at h
    cases h
  · rw [Std.TreeMap.getElem?_emptyc] at h
    cases h
  · change (newThreadStore gl ds 0).currentTree[k]? = some n at hk
    rw [htree] at hk
    split at hk
    next h1 =>
      cases hk
      subst h1
      exact ⟨[], hs, Or.inl rfl, seqOf_root gl _, rfl, holds_none rfl rfl rfl fun m hm =>
        absurd hm List.not_mem_nil⟩
    next => cases hk
  · cases hm

theorem described_gathered (hmd : md ≠ []) (hs : [] ∈ src)
    (ht : ∀ t ∈ targets, t.ds.recordMetadata = md ∧ t.ds.numRecords = md.length)
    (h : (targets ≠ [] ∧ ms = [] ∧ global = newGlobalDataStore) ∨ ∃ g, GlobalGathered gl md src ms global g) :
    ∃ g, GlobalGathered gl md src ms (described gl global targets) g := by
  have hpos : md.length ≠ 0 := fun h0 => hmd (List.length_eq_zero_iff.mp h0)
  rcases h with ⟨hne, rfl, rfl⟩ | ⟨g, hg⟩
  · obtain ⟨t, rest, rfl⟩ := List.exists_cons_of_ne_nil hne
    obtain ⟨hm, hn⟩ := ht t List.mem_cons_self
    have hfind : (t :: rest).find? (fun t => t.ds.numRecords ≠ 0) = some t := by
      rw [List.find?_cons_of_pos]
      rw [hn]
      exact decide_eq_true hpos
    rw [described, if_pos (show newGlobalDataStore.ds.numRecords = 0 from rfl), hfind]
    exact ⟨_, rfl, hm, hn, newThreadStore_globalSlots gl _ 0, Or.inl (TickFrame.newThreadStore_slices gl _ 0),
      newThreadStore_gathered gl _ hs _⟩
  · rw [described, if_neg (by rw [hg.numRecords]; exact hpos)]
    exact ⟨g, hg⟩

theorem Received.offers (h : Received gl md gs rs t) (hroot : [] ∈ src)
    (hsrc : ∀ p ∈ historyPaths md rs, p ∈ src) : ∀ x ∈ t.threads, Offers gl src t.ds x.2 := by
  obtain ⟨old, -, -, hfilled⟩ := h.filled
  intro x hx
  refine (hfilled.threads x hx).offers hroot fun p hp => hsrc p (mem_historyPaths.mpr ⟨x.1, ?_⟩)
  rwa [logPaths_described md hfilled.names] at hp

theorem integrate_gathered (hmode : gl.singleTreeMode = true) (hmd : md ≠ []) (hs : Sources gl src)
    (hr : List.Forall₂ (Received gl md gs) gs' targets) (hsrc : ∀ rs ∈ gs', ∀ p ∈ historyPaths md rs, p ∈ src)
    (h : (targets ≠ [] ∧ ms = [] ∧ global = newGlobalDataStore) ∨ ∃ g, GlobalGathered gl md src ms global g) :
    ∃ global' targets' g', integrate gl global targets = .ok (global', targets') ∧
      List.Forall₂ TargetDrained targets targets' ∧
      GlobalGathered gl md src (ms ++ measurements targets) global' g' := by
  have hslots : ∀ t ∈ targets, t.ds.recordMetadata = md ∧ t.ds.numRecords = md.length := by
    intro t ht
    obtain ⟨rs, -, hrs⟩ := Lockstep.mem_right_of_forall₂ hr ht
    obtain ⟨old, -, -, hfilled⟩ := hrs.filled
    exact ⟨hfilled.metadata, hfilled.numRecords⟩
  have hoffers : ∀ t ∈ targets, ∀ x ∈ t.threads, Offers gl src t.ds x.2 := by
    intro t ht
    obtain ⟨rs, hmem, hrs⟩ := Lockstep.mem_right_of_forall₂ hr ht
    exact Received.offers hrs hs.root (hsrc rs hmem)
  obtain ⟨g, hg⟩ := described_gathered hmd hs.root hslots h
  rw [integrate]
  generalize described gl global targets = global at hg
  dsimp only
  have hpos : global.ds.numRecords ≠ 0 := by
    rw [hg.numRecords]
    exact fun h0 => hmd (List.length_eq_zero_iff.mp h0)
  rw [if_neg hpos, hg.thread]
  generalize hds : ({ global.ds with currentTimeNumber := global.ds.currentTimeNumber + 1 } : DataStore) = ds
  have hnum : ds.numRecords = global.ds.numRecords := by rw [← hds]
  have hmeta : ds.recordMetadata = global.ds.recordMetadata := by rw [← hds]
  have hnames : ds.nameTable = global.ds.nameTable := by rw [← hds]
  have htime : ds.currentTimeNumber = global.ds.currentTimeNumber + 1 := by rw [← hds]
  have hdesc : Described ds := by rw [Described, hmeta, hnum, hg.metadata, hg.numRecords]
  have hgathered : Gathered gl ds src ms ds.nameTable g := by
    rw [hnames]
    exact Gathered.dataStore hg.gathered hnum hmeta
  obtain ⟨global', targets', g', hrun, hg'⟩ := integrateAll_gathers hdesc hs hmode (hg.slots.congr hnum)
    (hg.reaches.mono (by omega)) (fun t ht => by rw [(hslots t ht).2, hnum, hg.numRecords]) hoffers hgathered
  refine ⟨global', targets', g', hrun, hg'.drained, hg'.thread, ?_, ?_, hg'.slots, hg'.reaches,
    Gathered.dataStore hg'.gathered hg'.numRecords hg'.metadata⟩
  · rw [hg'.metadata, hmeta, hg.metadata]
  · rw [hg'.numRecords, hnum, hg.numRecords]

theorem integrate_kept (hmode : gl.singleTreeMode = true) (hmd : md ≠ []) (hs : Sources gl src)
    (hr : List.Forall₂ (Received gl md gs) gs' targets) (hsrc : ∀ rs ∈ gs', ∀ p ∈ historyPaths md rs, p ∈ src)
    (h : ms = [] ∧ global = newGlobalDataStore ∨ ∃ g, GlobalGathered gl md src ms global g) :
    ∃ global' targets', integrate gl global targets = .ok (global', targets') ∧
      List.Forall₂ TargetDrained targets targets' ∧
      (gs' = [] ∧ ms ++ measurements targets = [] ∧ global' = newGlobalDataStore ∨
        ∃ g, GlobalGathered gl md src (ms ++ measurements targets) global' g) := by
  by_cases hnone : targets = [] ∧ ms = [] ∧ global = newGlobalDataStore
  · obtain ⟨rfl, rfl, rfl⟩ := hnone
    exact ⟨_, [], rfl, List.Forall₂.nil, Or.inl ⟨List.forall₂_nil_right_iff.mp hr, rfl, rfl⟩⟩
  · have hsome : (targets ≠ [] ∧ ms = [] ∧ global = newGlobalDataStore) ∨
        ∃ g, GlobalGathered gl md src ms global g :=
      h.imp (fun hstart => ⟨fun hnil => hnone ⟨hnil, hstart⟩, hstart⟩) fun hg => hg
    obtain ⟨global', targets', g', hrun, hdrained, hg'⟩ := integrate_gathered hmode hmd hs hr hsrc hsome
    exact ⟨global', targets', hrun, hdrained, Or.inr ⟨g', hg'⟩⟩

theorem watch_conserved (hmode : gl.singleTreeMode = true) (hoff : gl.leafNodeAccumulate = false)
    (hw : WellFormedTurns md turns) (hu : UndisturbedTurns md turns)
    (hs : Sources gl (sources md (given turns))) {turn : Turn} (hturns : turns = done ++ turn :: rest)
    (h : Conserved gl md (sources md (given turns)) (given done) w) :
    ∃ w', watch gl w turn = .ok w' ∧
      Conserved gl md (sources md (given turns)) (given (done ++ [turn])) w' := by
  have hsplit : turns = (done ++ [turn]) ++ rest := by rw [hturns, List.append_assoc, List.singleton_append]
  have hwf := hw.histories (done ++ [turn]) rest hsplit
  rw [hsplit] at hu
  have hund : UndisturbedTurns md (done ++ [turn]) := hu.left
  have hsrc : ∀ rs ∈ given (done ++ [turn]), ∀ p ∈ historyPaths md rs, p ∈ sources md (given turns) := by
    intro rs hrs p hp
    rw [hsplit] at hw ⊢
    exact sources_later hw hrs hp
  generalize sources md (given turns) = src at hs hsrc h ⊢
  rw [UndisturbedTurns] at hund
  rw [given_snoc, giveTurn] at hwf hund hsrc ⊢
  have hsettled : List.Forall₂ (TargetSettled gl md) (given done ++ List.replicate turn.connected [])
      (connected w.stores turn.connected).targets :=
    List.rel_append h.targets (Lockstep.forall₂_replicate (newDataStore_settled gl md) _)
  obtain ⟨targets, hrecv, hr⟩ := receiveAll_received hoff hsettled hwf hund
  obtain ⟨global, targets', hint, hdrained, hglobal⟩ := integrate_kept hmode hw.slots hs hr hsrc
    (h.global.imp (fun hstart => hstart.2) fun hg => hg)
  refine ⟨⟨⟨targets', global⟩, w.measured ++ measurements targets⟩, ?_, ?_, fun m hm => ?_,
    fun rs hrs p hp => ?_, hglobal⟩
  · have hglob : (connected w.stores turn.connected).global = w.stores.global := rfl
    rw [watch, hrecv, ok_bind, tick, hrecv, ok_bind, if_pos hmode, hglob, hint]
    rfl
  · exact Lockstep.forall₂_trans hr hdrained fun rs t t' hreceived hd => by
      obtain ⟨old, -, -, hfilled⟩ := hreceived.filled
      exact hfilled.drained hd
  · rcases List.mem_append.mp hm with hm | hm
    · obtain ⟨p, hmp, hcases⟩ := h.sound m hm
      refine ⟨p, hmp, hcases.imp (fun hnil => hnil) ?_⟩
      rintro ⟨rs, hrs, hp⟩
      obtain ⟨more, hmore⟩ := give_extends (List.mem_append_left _ hrs) turn.receptions
      exact ⟨_, hmore, historyPaths_later (hwf _ hmore) hp⟩
    · obtain ⟨t, ht, hmt⟩ := List.mem_flatMap.mp hm
      obtain ⟨rs, hrs, hreceived⟩ := Lockstep.mem_right_of_forall₂ hr ht
      obtain ⟨p, hmp, hcases⟩ := hreceived.sound hmt
      exact ⟨p, hmp, hcases.imp (fun hnil => hnil) fun hp => ⟨rs, hrs, hp⟩⟩
  · obtain ⟨t, ht, hreceived⟩ := Lockstep.mem_left_of_forall₂ hr hrs
    rcases hreceived.complete hp with hnil | ⟨old, hold, hp⟩ | ⟨m, hm, hmp⟩
    · exact Or.inl hnil
    · rcases List.mem_append.mp hold with hold | hold
      · refine (h.complete old hold p hp).imp (fun hnil => hnil) ?_
        rintro ⟨m, hm, hmp⟩
        exact ⟨m, List.mem_append_left _ hm, hmp⟩
      · rw [List.eq_of_mem_replicate hold] at hp
        cases hp
    · exact Or.inr ⟨m, List.mem_append_right _ (List.mem_flatMap.mpr ⟨t, ht, hm⟩), hmp⟩

theorem watchAll_conserved (hmode : gl.singleTreeMode = true) (hoff : gl.leafNodeAccumulate = false)
    (hw : WellFormedTurns md turns) (hu : UndisturbedTurns md turns)
    (hs : Sources gl (sources md (given turns))) :
    ∃ w, watchAll gl turns = .ok w ∧ Conserved gl md (sources md (given turns)) (given turns) w :=
  foldlM_total (f := watch gl) (fun done w => Conserved gl md (sources md (given turns)) (given done) w) turns
    (fun _ _ _ _ hturns h => watch_conserved hmode hoff hw hu hs hturns h)
    ⟨List.Forall₂.nil, fun _ hm => absurd hm List.not_mem_nil, fun _ hrs =>
      absurd hrs List.not_mem_nil, Or.inl ⟨rfl, rfl, rfl⟩⟩

theorem history_of_sourcePath {m : AllDataStore} (h : List.Forall₂ (TargetSettled gl md) gs m.targets)
    (hp : SourcePath m p) : p = [] ∨ ∃ rs ∈ gs, p ∈ historyPaths md rs := by
  obtain ⟨t, ht, x, hx, k, hk⟩ := hp
  obtain ⟨rs, hrs, hsettled⟩ := Lockstep.mem_right_of_forall₂ h ht
  refine ((hsettled.threads x hx).1.path_cases (pathOf_eq_some.mp hk)).imp (fun hnil => hnil) fun hmem => ?_
  rw [logPaths_described md hsettled.names] at hmem
  exact ⟨rs, hrs, mem_historyPaths.mpr ⟨x.1, hmem⟩⟩

theorem sourcePath_of_history {m : AllDataStore} (h : List.Forall₂ (TargetSettled gl md) gs m.targets)
    (hrs : rs ∈ gs) (hp : p ∈ historyPaths md rs) : SourcePath m p := by
  obtain ⟨t, ht, hsettled⟩ := Lockstep.mem_left_of_forall₂ h hrs
  obtain ⟨id, hp⟩ := mem_historyPaths.mp hp
  obtain ⟨q, hq, hlead⟩ := mem_logPaths.mp hp
  have hthread : ∃ x ∈ t.threads, x.1 = id := by
    by_contra hnone
    rw [hsettled.fresh id fun x hx he => hnone ⟨x, hx, he⟩] at hq
    cases hq
  obtain ⟨x, hx, rfl⟩ := hthread
  have hlink : logLink t.ds (logOf x.1 rs) = logLink (descriptionOf md rs) (logOf x.1 rs) :=
    logLink_congr hsettled.names _
  refine ⟨t, ht, x, hx, q.callNodeId, pathOf_eq_some.mpr ((hsettled.threads x hx).1.leads.mpr ?_)⟩
  rwa [hlink]

theorem GlobalGathered.conserves {m : AllDataStore} (hg : GlobalGathered gl md src ms m.global g)
    (hs : Sources gl src) (ht : TailsMeasured ms)
    (hdrained : ∀ t ∈ m.targets, ∀ x ∈ t.threads, x.2.timeSlice = [])
    (hmeasured : ∀ e ∈ ms, ∃ p, e.path = some p ∧ (p = [] ∨ SourcePath m p))
    (hsource : ∀ p, SourcePath m p → p = [] ∨ ∃ e ∈ ms, e.path = some p) : Conserves m ms := by
  have htree : globalTree m.global = g.ts.currentTree := by
    rw [globalTree, hg.thread]
    rfl
  refine ⟨hdrained, hmeasured, fun p hp => ?_, fun k n hk => ?_⟩
  · rw [htree]
    exact Gathered.unique hg.gathered hs ht (hp.elim (hsource p) Or.inr)
  · rw [htree] at hk ⊢
    obtain ⟨p, -, hcases, hpath, hstands⟩ := Gathered.path hg.gathered hs ht hk
    refine ⟨p, hpath, hcases.elim Or.inl ?_, fun name q he => pathOf_parent hk (he ▸ hpath),
      Holds.sums hstands.holds⟩
    rintro ⟨e, he, hep⟩
    obtain ⟨p', hp', hcases⟩ := hmeasured e he
    rw [hep, Option.some.injEq] at hp'
    exact hp' ▸ hcases

/-- In every run that is not disturbed by names `#…`, the global tree has all that was
measured. -/
theorem integration_conserves (hmode : gl.singleTreeMode = true) (hoff : gl.leafNodeAccumulate = false)
    (hw : WellFormedTurns md turns) (hu : UndisturbedTurns md turns)
    (ht : HashTells gl (sources md (given turns))) :
    ∃ w, watchAll gl turns = .ok w ∧ Conserves w.stores w.measured := by
  have hs := sources_told ht
  obtain ⟨w, hrun, h⟩ := watchAll_conserved hmode hoff hw hu hs
  refine ⟨w, hrun, ?_⟩
  have hmeasured : ∀ e ∈ w.measured, ∃ p, e.path = some p ∧ (p = [] ∨ SourcePath w.stores p) := by
    intro e he
    obtain ⟨p, hep, hcases⟩ := h.sound e he
    refine ⟨p, hep, hcases.imp (fun hnil => hnil) ?_⟩
    rintro ⟨rs, hrs, hp⟩
    exact sourcePath_of_history h.targets hrs hp
  have hdrained : ∀ t ∈ w.stores.targets, ∀ x ∈ t.threads, x.2.timeSlice = [] := by
    intro t ht x hx
    obtain ⟨rs, -, hsettled⟩ := Lockstep.mem_right_of_forall₂ h.targets ht
    exact (hsettled.threads x hx).2
  have htails : TailsMeasured w.measured := by
    intro e he name q hep
    obtain ⟨p, hp, hcases⟩ := h.sound e he
    rw [hep, Option.some.injEq] at hp
    subst hp
    obtain ⟨rs, hrs, hp⟩ := hcases.resolve_left (List.cons_ne_nil _ _)
    rcases historyPaths_tail hp with hnil | hp
    · exact Or.inl hnil
    · exact h.complete rs hrs q hp
  have hsource : ∀ p, SourcePath w.stores p → p = [] ∨ ∃ e ∈ w.measured, e.path = some p := by
    intro p hp
    rcases history_of_sourcePath h.targets hp with hnil | ⟨rs, hrs, hmem⟩
    · exact Or.inl hnil
    · exact h.complete rs hrs p hmem
  rcases h.global with ⟨hgs, hms, hglobal⟩ | ⟨g, hg⟩
  · have hnone : w.stores.targets = [] := by
      have htargets := h.targets
      rw [hgs] at htargets
      exact List.forall₂_nil_left_iff.mp htargets
    have hempty (p : NamePath) : ¬ (SourcePath w.stores p ∨ ∃ e ∈ w.measured, e.path = some p) := by
      rw [hms, SourcePath, hnone]
      rintro (⟨t, ht, -⟩ | ⟨e, he, -⟩)
      · cases ht
      · cases he
    refine ⟨hdrained, hmeasured, fun p hp => absurd hp (hempty p), fun k n hk => ?_⟩
    rw [hglobal] at hk
    change (∅ : Tree)[k]? = some n at hk
    rw [Std.TreeMap.getElem?_emptyc] at hk
    cases hk
  · exact hg.conserves hs htails hdrained hmeasured hsource

def singleTree : Settings :=
  { leafNodeAccumulate := false, singleTreeMode := true, hashStrHard := fun s => s.foldl (fun h c => 257 * h + c.toNat) 2 }

def oneSlot : List RecordMetadata :=
  [{ fieldName := [], unit := [], flags := [], accumulatedValueFlag := false, staticValueFlag := false }]

def nestedCalls : StoreCall := ⟨1, [⟨7, 2, 1, 1, [5]⟩, ⟨8, 3, 2, 1, [4]⟩], ⟨3, [5]⟩⟩

def moreCalls : StoreCall := ⟨1, [⟨8, 3, 2, 2, [9]⟩], ⟨2, [9]⟩⟩

def nested (f : Bytes) : Reception := .drained oneSlot [(7, f), (8, ascii "g")] [nestedCalls]

def again : Reception := .drained oneSlot [] [moreCalls]

def twoTurns : List Turn := [⟨2, [nested (ascii "f"), nested (ascii "f")]⟩, ⟨0, [again, .silent]⟩]

theorem settled_of_nodup {names : List (NameID × Bytes)} (h : (names.map Prod.fst).Nodup)
    (x : NameID) (name name' : Bytes) (hx : (x, name) ∈ names) (hx' : (x, name') ∈ names) : name = name' :=
  congrArg Prod.snd (List.inj_on_of_nodup_map h hx hx' rfl)

theorem silent_wellFormed (md : List RecordMetadata) (done : List Reception) :
    WellFormedReception md done .silent :=
  ⟨List.nodup_nil, fun _ h => absurd h List.not_mem_nil, fun _ h => absurd h List.not_mem_nil⟩

theorem nested_wellFormed (f : Bytes) : WellFormedReception oneSlot [] (nested f) := by
  refine ⟨List.nodup_singleton _, List.forall_mem_singleton.mpr ?_, List.forall_mem_singleton.mpr ?_⟩
  · have hids : (nestedCalls.batch.map fun r => r.callNodeId).Nodup := by decide
    have hnonzero : ∀ r ∈ nestedCalls.batch, r.callNodeId ≠ 0 := by decide
    have hvalues : ∀ r ∈ nestedCalls.batch, r.profileValue.length = 1 := by decide
    refine ⟨hids, hnonzero, ?_, hvalues, le_refl 1⟩
    exact forall_split_cons.mpr ⟨Or.inl rfl, forall_split_cons.mpr ⟨Or.inr ⟨_, List.mem_cons_self, rfl⟩, forall_split_nil⟩⟩
  · exact List.forall_mem_cons.mpr ⟨⟨f, List.mem_cons_self⟩, List.forall_mem_singleton.mpr
      ⟨ascii "g", List.mem_cons_of_mem _ List.mem_cons_self⟩⟩

theorem again_wellFormed (f : Bytes) : WellFormedReception oneSlot [nested f] again := by
  refine ⟨List.nodup_singleton _, List.forall_mem_singleton.mpr ?_, List.forall_mem_singleton.mpr ?_⟩
  · have hids : (moreCalls.batch.map fun r => r.callNodeId).Nodup := by decide
    have hnonzero : ∀ r ∈ moreCalls.batch, r.callNodeId ≠ 0 := by decide
    have hvalues : ∀ r ∈ moreCalls.batch, r.profileValue.length = 1 := by decide
    refine ⟨hids, hnonzero, ?_, hvalues, le_refl 1⟩
    exact forall_split_cons.mpr ⟨Or.inr ⟨_, List.mem_cons_self, rfl⟩, forall_split_nil⟩
  · exact List.forall_mem_singleton.mpr ⟨ascii "g", List.mem_cons_of_mem _ List.mem_cons_self⟩

theorem history_wellFormed {f : Bytes} {rest : List Reception}
    (hrest : ∀ done r after, rest = done ++ r :: after → WellFormedReception oneSlot (nested f :: done) r)
    (hnames : (namesOf (nested f :: rest)).map Prod.fst = [7, 8]) :
    WellFormedHistory oneSlot (nested f :: rest) := by
  refine ⟨⟨_, _, _, rfl⟩, forall_split_cons.mpr ⟨nested_wellFormed f, hrest⟩, settled_of_nodup ?_⟩
  rw [hnames]
  decide

theorem nested_history (f : Bytes) : WellFormedHistory oneSlot [nested f] :=
  history_wellFormed forall_split_nil rfl

theorem twoTurns_wellFormed : WellFormedTurns oneSlot twoTurns := by
  have hagain : WellFormedHistory oneSlot [nested (ascii "f"), again] :=
    history_wellFormed (forall_split_cons.mpr ⟨again_wellFormed _, forall_split_nil⟩) rfl
  have hsilent : WellFormedHistory oneSlot [nested (ascii "f"), .silent] :=
    history_wellFormed (forall_split_cons.mpr ⟨silent_wellFormed _ _, forall_split_nil⟩) rfl
  refine ⟨by decide, fun done rest he => ?_⟩
  have hprefix : done ∈ twoTurns.inits := (List.mem_inits _ _).mpr ⟨rest, he.symm⟩
  have hinits : twoTurns.inits = [[], twoTurns.take 1, twoTurns] := rfl
  rw [hinits] at hprefix
  rcases List.mem_cons.mp hprefix with rfl | hprefix
  · exact fun _ h => absurd h List.not_mem_nil
  rcases List.mem_cons.mp hprefix with rfl | hprefix
  · exact List.forall_mem_cons.mpr ⟨nested_history _, List.forall_mem_singleton.mpr (nested_history _)⟩
  · rw [List.mem_singleton.mp hprefix]
    exact List.forall_mem_cons.mpr ⟨hagain, List.forall_mem_singleton.mpr hsilent⟩

theorem undisturbed_reception {done : List Reception} {r : Reception}
    (h : ∀ n ∈ namesOf (done ++ [r]), isAttrName n.2 = false) : UndisturbedReception md done r := by
  refine fun call _ => RunTotals.undisturbed_of_names fun x => ?_
  rw [DataStore.getNameFromID, Std.TreeMap.getD_eq_getD_getElem?]
  cases hx : (descriptionOf md (done ++ [r])).nameTable[x]? with
  | none => exact OrderedStores.unknown_not_attr
  | some name =>
      rcases OrderedStores.named hx with hempty | hmem
      · rw [Std.TreeMap.getElem?_emptyc] at hempty
        cases hempty
      · exact h _ hmem

theorem twoTurns_undisturbed : UndisturbedTurns oneSlot twoTurns := by
  have hnested : UndisturbedReception oneSlot [] (nested (ascii "f")) := undisturbed_reception (by decide)
  refine List.forall_mem_cons.mpr ⟨?_, List.forall_mem_singleton.mpr ?_⟩
  · exact forall_split_cons.mpr ⟨hnested, forall_split_cons.mpr ⟨undisturbed_reception (by decide), forall_split_nil⟩⟩
  · exact forall_split_cons.mpr ⟨hnested, forall_split_cons.mpr ⟨undisturbed_reception (by decide), forall_split_nil⟩⟩

theorem integration_conserves_two : ∃ w, watchAll singleTree twoTurns = .ok w ∧
    Conserves w.stores w.measured :=
  integration_conserves rfl rfl twoTurns_wellFormed twoTurns_undisturbed (by decide +kernel)

def loses (p : NamePath) (w : Watched) : Bool :=
  (w.stores.targets.any fun t => t.threads.any fun x => x.2.currentTree.keys.any fun k =>
    pathOf t.ds x.2.currentTree k = some p) &&
    (globalTree w.stores.global).keys.all fun k =>
      pathOf w.stores.global.ds (globalTree w.stores.global) k ≠ some p

theorem not_conserves_of_loses (h : loses p w = true) : ¬ Conserves w.stores w.measured := by
  intro hc
  rw [loses, Bool.and_eq_true] at h
  obtain ⟨hsource, hnone⟩ := h
  simp only [List.any_eq_true, decide_eq_true_eq] at hsource
  obtain ⟨t, ht, x, hx, k, -, hk⟩ := hsource
  obtain ⟨j, hj, -⟩ := hc.one p (Or.inl ⟨t, ht, x, hx, k, hk⟩)
  have hall := List.all_eq_true.mp hnone j (Std.TreeMap.mem_keys.mpr (mem_of_pathOf hj))
  exact of_decide_eq_true hall hj

def belowHash : List Turn := [⟨1, [nested (ascii "#f")]⟩]

theorem integration_loses_below_hash : WellFormedTurns oneSlot belowHash ∧
    HashTells singleTree (sources oneSlot (given belowHash)) ∧
    ∃ w, watchAll singleTree belowHash = .ok w ∧ ¬ Conserves w.stores w.measured := by
  have hwf : WellFormedTurns oneSlot belowHash := by
    refine ⟨by decide, fun done rest he => ?_⟩
    have hprefix : done ∈ belowHash.inits := (List.mem_inits _ _).mpr ⟨rest, he.symm⟩
    have hinits : belowHash.inits = [[], belowHash] := rfl
    rw [hinits] at hprefix
    rcases List.mem_cons.mp hprefix with rfl | hprefix
    · exact fun _ h => absurd h List.not_mem_nil
    · rw [List.mem_singleton.mp hprefix]
      exact List.forall_mem_singleton.mpr (nested_history _)
  obtain ⟨w, hrun, hlost⟩ :=
    ok_of_any (x := watchAll singleTree belowHash) (p := loses [ascii "g", ascii "#f"]) (by decide +kernel)
  exact ⟨hwf, by decide +kernel, w, hrun, not_conserves_of_loses hlost⟩

end Llprof.Monitor.Conservation
