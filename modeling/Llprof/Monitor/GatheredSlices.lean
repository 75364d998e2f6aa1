import Llprof.Monitor.Gathering

namespace Llprof.Monitor.GatheredSlices

open Faulting hiding store
open Avoiding LabelPaths TreeMaps Nodes Store SlotLoops TreeShape FlushSpec Slices MergeSlices
  SliceFrame SliceContents SlicesKnown Ticks TickFrame StoreRule IntegrationSlots NamePaths Gathering

variable {gl : Settings} {ds srcDs : DataStore} {src : List NamePath} {st : Integrating} {tree : Tree}
  {ms : List Measurement} {ts : ThreadStore}

def measurementsIn (ds : DataStore) (tree : Tree) (slice : Slice) : List Measurement :=
  slice.toList.map fun it => ⟨pathOf ds tree it.2.id, it.2⟩

def threadMeasurements (ds : DataStore) (ts : ThreadStore) : List Measurement :=
  ts.timeSlice.flatMap fun tss => measurementsIn ds ts.currentTree tss.tree

def targetMeasurements (t : TargetStore) : List Measurement :=
  t.threads.flatMap fun p => threadMeasurements t.ds p.2

def measurements (targets : List TargetStore) : List Measurement := targets.flatMap targetMeasurements

/-- What is to be integrated of a thread: entries of its nodes in the current slice, and
none in any other. -/
structure Current (srcDs : DataStore) (ts : ThreadStore) : Prop where
  reaches : Reaches ts srcDs.currentTimeNumber
  only : ∀ u, u ≠ srcDs.currentTimeNumber → (contentAt ts u).tree = ∅
  entries : ∀ (k : NodeID) (e : RecordNodeBasic), (contentAt ts srcDs.currentTimeNumber).tree[k]? = some e →
    e.id = k ∧ (∃ n, ts.currentTree[k]? = some n) ∧ (entryOf e).Sized srcDs

structure Offers (gl : Settings) (src : List NamePath) (srcDs : DataStore) (ts : ThreadStore) : Prop extends
    Current srcDs ts where
  rooted : ∃ rank, Rooted ts.currentTree rank
  isSealed : Sealed gl srcDs ts.currentTree
  paths : ∀ k p, Leads (nameLink srcDs ts.currentTree) k p → p ∈ src

theorem flatMap_single {α β : Type} {f : α → List β} {xs : List α} {i : Nat} {x : α} (hx : xs[i]? = some x)
    (h : ∀ j y, xs[j]? = some y → j ≠ i → f y = []) : xs.flatMap f = f x := by
  induction xs generalizing i with
  | nil => cases hx
  | cons y ys ih =>
      cases i with
      | zero =>
          rw [List.getElem?_cons_zero, Option.some.injEq] at hx
          have hrest : ys.flatMap f = [] := by
            rw [List.flatMap_eq_nil_iff]
            intro z hz
            obtain ⟨j, hj⟩ := List.getElem?_of_mem hz
            exact h (j + 1) z hj (Nat.succ_ne_zero j)
          rw [List.flatMap_cons, hrest, List.append_nil, hx]
      | succ i =>
          have hy : f y = [] := h 0 y rfl (Nat.succ_ne_zero i).symm
          rw [List.flatMap_cons, hy, List.nil_append]
          exact ih hx fun j z hz hj => h (j + 1) z hz fun he => hj (Nat.succ.inj he)

theorem measurementsIn_empty (ds : DataStore) (tree : Tree) : measurementsIn ds tree ∅ = [] :=
  congrArg _ (List.isEmpty_iff.mp Std.TreeMap.isEmpty_toList)

theorem Current.threadMeasurements (h : Current srcDs ts) :
    threadMeasurements srcDs ts = measurementsIn srcDs ts.currentTree
      (contentAt ts srcDs.currentTimeNumber).tree := by
  rw [GatheredSlices.threadMeasurements]
  by_cases hnil : ts.timeSlice = []
  · rw [hnil, contentAt_nil hnil]
    exact (measurementsIn_empty _ _).symm
  · have hstart := h.reaches.resolve_left hnil
    have hat (j : Nat) (tss : TimeSliceStore) (hj : ts.timeSlice[j]? = some tss) :
        contentAt ts (ts.startTimeNumber + j) = content tss := by
      refine contentAt_index (by omega) ?_
      rwa [show (ts.startTimeNumber + j - ts.startTimeNumber).toNat = j by omega]
    have hother (j : Nat) (tss : TimeSliceStore) (hj : ts.timeSlice[j]? = some tss)
        (hne : j ≠ (srcDs.currentTimeNumber - ts.startTimeNumber).toNat) :
          measurementsIn srcDs ts.currentTree tss.tree = [] := by
      have htree : tss.tree = ∅ := by
        have := h.only (ts.startTimeNumber + j) (by omega)
        rwa [hat j tss hj] at this
      rw [htree, measurementsIn_empty]
    cases hi : ts.timeSlice[(srcDs.currentTimeNumber - ts.startTimeNumber).toNat]? with
    | some tss =>
        rw [flatMap_single hi hother, contentAt_index hstart hi]
        rfl
    | none =>
        have hempty : contentAt ts srcDs.currentTimeNumber = emptySlice := by
          rw [contentAt, readAt, if_neg (by omega), hi]
          rfl
        rw [hempty, List.flatMap_eq_nil_iff.mpr fun tss htss => ?_]
        · exact (measurementsIn_empty _ _).symm
        · obtain ⟨j, hj⟩ := List.getElem?_of_mem htss
          exact hother j tss hj fun he => by rw [he, hi] at hj; cases hj

theorem Offers.hasPath (h : Offers gl src srcDs ts) {k : NodeID} {n : RecordNode}
    (hk : ts.currentTree[k]? = some n) :
    ∃ p ∈ src, pathOf srcDs ts.currentTree k = some p ∧ HasPath gl srcDs ts.currentTree n p := by
  obtain ⟨rank, hr⟩ := h.rooted
  have hsealed := h.isSealed
  rcases hsealed.path_cases hr hk with ⟨-, hg, hlink⟩ | ⟨pn, hpn, -, hlink, hg⟩
  · have hp := leads_root hlink
    exact ⟨[], h.paths _ _ hp, pathOf_eq_some.mpr hp, hg, fun name q he => by cases he⟩
  · obtain ⟨q, hq, hpg⟩ := hsealed.path hr hpn
    have hp := hq.child hlink
    refine ⟨_, h.paths _ _ hp, pathOf_eq_some.mpr hp, by rw [hg, hpg]; rfl, fun name q' he => ?_⟩
    cases he
    exact ⟨pn, hpn, hpg, rfl⟩

theorem Current.slicesOk (h : Current srcDs ts) : SlicesOk srcDs ts := by
  rw [slicesOk_iff]
  intro u
  by_cases hu : u = srcDs.currentTimeNumber
  · rw [hu]
    refine ⟨fun k hk => ?_, fun k e he => (h.entries k e he).2.2⟩
    obtain ⟨e, he⟩ := mem_iff_some.mp hk
    exact mem_iff_some.mpr (h.entries k e he).2.1
  · rw [h.only u hu]
    exact ⟨fun k hk => absurd hk Std.TreeMap.not_mem_emptyc, sizedSlice_empty⟩

variable (hd : Described ds) (hs : Sources gl src)

include hd hs

theorem integrateThread_gathers (hmode : gl.singleTreeMode = true) {p : ThreadID × ThreadStore}
    (hsize : srcDs.numRecords = ds.numRecords) (hp : Offers gl src srcDs p.2) (hfed : Fed ds tree st)
    (h : Gathered gl ds src ms st.ds.nameTable st.g) :
    ∃ st' q, integrateThread gl srcDs st p = .ok (st', q) ∧ (Fed ds tree st' ∧
      Gathered gl ds src (ms ++ threadMeasurements srcDs p.2) st'.ds.nameTable st'.g) ∧ Drained p q := by
  obtain ⟨slices, tss, hget, htss, hcontent, -, -, -⟩ := getTimeSlice_reaches hp.reaches
  have htree : tss.tree = (contentAt p.2 srcDs.currentTimeNumber).tree :=
    (congrArg TimeSliceStore.tree hcontent :)
  have hcopy : Fed ds tree (copyNowValues st tss) ∧
      Gathered gl ds src ms (copyNowValues st tss).ds.nameTable (copyNowValues st tss).g := by
    rw [copyNowValues]
    split
    · exact ⟨hfed, h⟩
    · exact ⟨⟨⟨hfed.ok.numRecords, hfed.ok.metadata, hfed.ok.time, hfed.ok.tree, hfed.ok.known, hfed.ok.sized⟩, hfed.full⟩,
        h.congr rfl rfl rfl⟩
  have hdrained := @integrateThread_drained gl srcDs hmode st p
  rw [integrateThread, hget] at hdrained ⊢
  dsimp only at hdrained ⊢
  rw [fetch_eq_ok.mpr (show (withSlices _ slices p.2).timeSlice[_]? = some tss from htss),
    ok_bind, htree] at hdrained ⊢
  obtain ⟨st', hrun, hfed', h'⟩ := foldlM_total (f := integrateNode gl srcDs p.2.currentTree)
    (fun done st' => Fed ds tree st' ∧ Gathered gl ds src (ms ++ done.map fun it =>
      (⟨pathOf srcDs p.2.currentTree it.2.id, it.2⟩ : Measurement)) st'.ds.nameTable st'.g)
    (contentAt p.2 srcDs.currentTimeNumber).tree.toList (by
      rintro done it rest st' he ⟨hfed', h'⟩
      obtain ⟨hid, ⟨n, hn⟩, hsized⟩ := hp.entries it.1 it.2 (getElem?_of_split he)
      obtain ⟨q, hq, hpath, hhas⟩ := hp.hasPath hn
      have hit : (entryOf it.2).Sized ds := by
        rw [Entry.Sized, hsize] at hsized
        exact hsized
      obtain ⟨st'', hrun, hfed'', h''⟩ :=
        integrateNode_gathers hd hs hsize (hid.symm ▸ hn) hhas hq hit hfed' h'
      refine ⟨st'', hrun, hfed'', ?_⟩
      rw [List.map_append, ← List.append_assoc, List.map_cons, hid, hpath]
      exact h'') ⟨hcopy.1, by rw [List.map_nil, List.append_nil]; exact hcopy.2⟩
  rw [show (withSlices (p.2.startFor srcDs.currentTimeNumber) slices p.2).currentTree =
    p.2.currentTree from rfl, hrun] at hdrained ⊢
  refine ⟨_, _, rfl, ⟨hfed', ?_⟩, hdrained⟩
  rw [hp.threadMeasurements]
  exact h'

theorem integrateTarget_gathers (hmode : gl.singleTreeMode = true) {t : TargetStore}
    (hsize : t.ds.numRecords = ds.numRecords) (ht : ∀ p ∈ t.threads, Offers gl src t.ds p.2)
    (hfed : Fed ds tree st) (h : Gathered gl ds src ms st.ds.nameTable st.g) :
    ∃ st' t', integrateTarget gl st t = .ok (st', t') ∧ (Fed ds tree st' ∧
      Gathered gl ds src (ms ++ targetMeasurements t) st'.ds.nameTable st'.g) ∧ TargetDrained t t' := by
  obtain ⟨st', threads, hrun, hst', hdrained⟩ := sweep_total (f := integrateThread gl t.ds)
    (fun done st' => Fed ds tree st' ∧ Gathered gl ds src (ms ++ done.flatMap fun p => threadMeasurements t.ds p.2)
      st'.ds.nameTable st'.g) Drained t.threads (by
      rintro done p rest st' he ⟨hfed', h'⟩
      obtain ⟨st'', q, hrun, ⟨hfed'', h''⟩, hq⟩ :=
        integrateThread_gathers hd hs hmode hsize (ht p (by rw [he]; simp)) hfed' h'
      refine ⟨st'', q, hrun, ⟨hfed'', ?_⟩, hq⟩
      rw [List.flatMap_append, List.flatMap_singleton, ← List.append_assoc]
      exact h'') ⟨hfed, by rw [List.flatMap_nil, List.append_nil]; exact h⟩
  exact ⟨st', { t with threads }, by rw [integrateTarget, hrun]; rfl, hst', ⟨rfl, rfl, hdrained⟩⟩

/-- What `Integrate` makes of the global data store and of the targets. -/
structure Integrated (gl : Settings) (ds : DataStore) (src : List NamePath) (ms : List Measurement)
    (targets : List TargetStore) (global : GlobalDataStore) (targets' : List TargetStore)
    (g : GlobalThreadStore) : Prop where
  thread : global.thread = some g
  numRecords : global.ds.numRecords = ds.numRecords
  metadata : global.ds.recordMetadata = ds.recordMetadata
  slots : GlobalSlots global.ds g.ts
  reaches : Reaches g.ts global.ds.currentTimeNumber
  gathered : Gathered gl ds src (ms ++ measurements targets) global.ds.nameTable g
  drained : List.Forall₂ TargetDrained targets targets'

theorem integrateAll_gathers (hmode : gl.singleTreeMode = true) {g : GlobalThreadStore}
    (hg : GlobalSlots ds g.ts) (hreach : Reaches g.ts ds.currentTimeNumber) {targets : List TargetStore}
    (hsize : ∀ t ∈ targets, t.ds.numRecords = ds.numRecords)
    (ht : ∀ t ∈ targets, ∀ p ∈ t.threads, Offers gl src t.ds p.2) (h : Gathered gl ds src ms ds.nameTable g) :
    ∃ global targets' g', integrateAll gl ds g targets = .ok (global, targets') ∧
      Integrated gl ds src ms targets global targets' g' := by
  obtain ⟨slices, tss, hget, htss, hcontent, hall, -, -⟩ := getTimeSlice_reaches hreach
  have htree : tss.tree = (contentAt g.ts ds.currentTimeNumber).tree :=
    (congrArg TimeSliceStore.tree hcontent :)
  have hnow := slicesOk_iff.mp hg.slices ds.currentTimeNumber
  rw [← htree] at hnow
  obtain ⟨st, targets', hrun, ⟨hfed, hgathered⟩, hdrained⟩ := sweep_total (f := integrateTarget gl)
    (fun done st => Fed ds g.ts.currentTree st ∧
      Gathered gl ds src (ms ++ done.flatMap targetMeasurements) st.ds.nameTable st.g)
    TargetDrained targets (by
      rintro done t rest st he ⟨hfed, h'⟩
      have hmem : t ∈ targets := by rw [he]; simp
      obtain ⟨st', t', hrun, ⟨hfed', h''⟩, ht'⟩ :=
        integrateTarget_gathers hd hs hmode (hsize t hmem) (ht t hmem) hfed h'
      refine ⟨st', t', hrun, ⟨hfed', ?_⟩, ht'⟩
      rw [List.flatMap_append, List.flatMap_singleton, ← List.append_assoc]
      exact h'')
    (s := ⟨ds, { g with
      ts :=
        { withSlices (g.ts.startFor ds.currentTimeNumber) slices g.ts with
          startTimeNumber := 0, timeSlice := [] } }, tss, false⟩)
    ⟨⟨⟨rfl, rfl, rfl, Knows.refl _, hnow.1, hnow.2⟩, hg.full⟩, by
      rw [List.flatMap_nil, List.append_nil]
      exact h.congr rfl rfl rfl⟩
  have hslots := avoids_never_iff.mp (@integrateAll_fed gl ds never id hd g hg targets
    (fun t ht' p hp => (ht t ht' p hp).toCurrent.slicesOk) (fun hb => hb.elim) (fun t ht' _ i md hmd _ => by
      rw [hsize t ht', ← hd]
      exact (List.getElem?_eq_some_iff.mp hmd).1))
  rw [integrateAll, hget] at hslots ⊢
  dsimp only at hslots ⊢
  rw [fetch_eq_ok.mpr (show (withSlices _ slices g.ts).timeSlice[_]? = some tss from htss),
    ok_bind, hrun] at hslots ⊢
  obtain ⟨-, -, a, ha, hfull⟩ := hslots _ rfl
  cases ha
  refine ⟨_, _, _, rfl, rfl, hfed.ok.numRecords, hfed.ok.metadata, hfull, Or.inr ?_,
    hgathered.congr rfl rfl rfl, hdrained⟩
  have htime : st.ds.currentTimeNumber = ds.currentTimeNumber := hfed.ok.time
  change g.ts.startFor ds.currentTimeNumber ≤ st.ds.currentTimeNumber
  rw [htime]
  exact hreach.startFor

end Llprof.Monitor.GatheredSlices
