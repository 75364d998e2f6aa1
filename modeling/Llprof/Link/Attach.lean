import Llprof.Link.Mirror
import Llprof.Monitor.Linkage
import Llprof.Profiler.Cuts

namespace Llprof.Link.Attach

open Faulting hiding store
open Avoiding ParentTree TreeMaps
open Profiler.Records Profiler.CallTree Profiler.TreeInvariant Profiler.Drains Profiler.Cuts
open Monitor.Nodes Monitor.Store Monitor.SlotLoops Monitor.TreeShape Monitor.FlushSpec
  Monitor.Marking Monitor.NewLeaf Monitor.Receive Monitor.Runs Monitor.FlushFrame
  Monitor.Linkage Monitor.Slices
open Mirror (Delivers nowOf)
open Monitor

/-- The names that begin with `#` in some name table of the deliveries. -/
def attrNamed (ds : DataStore) (deliveries : List Delivery) (x : NameID) : Prop :=
  ∃ d ∈ deliveries, isAttrName ((d.dataStore ds).getNameFromID x) = true

/-- In attribute mode functions named `#…` call nothing, and the ids of the nodes
are below those that the monitor gives to its own. -/
def AttrLeaves (gl : Settings) (ds : DataStore) (deliveries : List Delivery) : Prop :=
  gl.leafNodeAccumulate = true → (∀ r ∈ logOf deliveries, r.callNodeId < 0xFF000000) ∧
    ∀ q ∈ logOf deliveries, attrNamed ds deliveries q.nameid →
      ∀ r ∈ logOf deliveries, r.parentNodeId ≠ q.callNodeId

variable {g : RecordTable} {gl : Settings} {ds : DataStore} {ts : ThreadStore} {threadID : Nat}
  {deliveries : List Delivery}

theorem storeAll_linked (threadID : ThreadID)
    (hl : Linkable gl (attrNamed ds deliveries) (logOf deliveries)) :
    Avoids lost (fun _ => True) (storeAll gl ds (newThreadStore gl ds threadID) deliveries) := by
  have hrun : Avoids lost (fun ts =>
    ∃ rank, Processed gl (attrNamed ds deliveries) (logOf deliveries) (logOf deliveries) rank ts)
      (storeAll gl ds (newThreadStore gl ds threadID) deliveries) := by
    apply avoids_foldlM (fun done ts => ∃ rank, Processed gl (attrNamed ds deliveries) (logOf deliveries) (logOf done) rank ts)
    · rintro done d rest ts he ⟨rank, h⟩
      have hlog : logOf deliveries = logOf done ++ d.batch ++ logOf rest := by
        rw [he, ← List.singleton_append, logOf_append, logOf_append, logOf_singleton, List.append_assoc]
      rw [logOf_append, logOf_singleton]
      exact store_processed (fun _ x hx => ⟨d, by rw [he]; simp, hx⟩) hl hlog h d.now
    · exact newThreadStore_processed _ _ _
  exact hrun.mono fun _ _ => trivial

structure Bare (gl : Settings) (ds : DataStore) (ts : ThreadStore) : Prop where
  wf : ∃ rank, Wf gl ds rank ts.currentTree
  only : ∀ k : NodeID, k ≠ 1 → ts.currentTree[k]? = none
  clean : dirtyAt ts.currentTree 1 = false
  attrNodeMap : ts.attrNodeMap = ∅
  attrNodeIdAlt : ts.attrNodeIdAlt = ∅
  running : ts.runningNode ≠ 1

theorem newThreadStore_bare (gl : Settings) (ds : DataStore) (threadID : Nat) :
    Bare gl ds (newThreadStore gl ds threadID) := by
  obtain ⟨rank, hr⟩ := newThreadStore_reached gl ds threadID
  refine ⟨⟨rank, hr.wf⟩, fun k hk => ?_, hr.clean 1, hr.attrNodeMap, rfl, Nat.zero_ne_one⟩
  rw [newThreadStore_tree, if_neg hk]

theorem setRunning_absent {id : NodeID} (h : ts.currentTree[id]? = none) (running : Bool) (fuel : Nat) :
    setRunning running (fuel + 1) ts id = .ok ts := by
  rw [setRunning, ThreadStore.getNodeFromID, h]

theorem mark_absent {id : NodeID} (h : ts.currentTree[id]? = none) : mark gl ds ts id = .ok ts := by
  rw [mark, markNodeDirty, ThreadStore.getNodeFromID, h]

theorem Bare.store_quiet (h : Bare gl ds ts) {now : NowInfo} (hrun : now.runningNode ≠ 1)
    (hvalues : ds.numRecords ≤ now.values.length)
    (htime : ts.timeSlice = [] ∨ ts.startTimeNumber ≤ ds.currentTimeNumber) :
    ∃ ts', Monitor.Store.store gl ds ts [] now = .ok ts' ∧ Bare gl ds ts' ∧
      ts'.startTimeNumber = ts.startFor ds.currentTimeNumber := by
  obtain ⟨rank, hw⟩ := h.wf
  obtain ⟨r, hr, -⟩ := hw.rooted.root
  have hreceive : receive gl ds ts [] now = .ok (updateNowValues ds ts now) := by
    have h₁ : unmarkRunningNodes ts = .ok ts := setRunning_absent (h.only _ h.running) _ _
    have habsent : (updateNowValues ds ts now).currentTree[(updateNowValues ds ts now).runningNode]? = none :=
      h.only _ hrun
    rw [receive, h₁, ok_bind, require_of hvalues, ok_bind, markRunningNodes, mark_absent habsent, ok_bind,
      setRunning_absent habsent, ok_bind, List.foldlM_nil, pure_eq_ok]
  have hreach : (updateNowValues ds ts now).timeSlice = [] ∨
      (updateNowValues ds ts now).startTimeNumber ≤ ds.currentTimeNumber := htime
  obtain ⟨slices, tss, hget, -, hi, -, -⟩ := getTimeSlice_some hreach
  have hclear : clearDirtyNode gl ds ts.attrNodeMap (ts.currentTree.size + 1) ⟨ts.currentTree, tss.tree⟩ 1 =
      .ok (⟨ts.currentTree, tss.tree⟩, false) := by
    have hd : r.dirty = false := (dirtyAt_eq hr).symm.trans h.clean
    rw [clearDirtyNode, hr]
    simp only [hd, Bool.false_eq_true, if_false]
  refine ⟨{ updateNowValues ds ts now with
      startTimeNumber := ts.startFor ds.currentTimeNumber
      timeSlice := slices.set (ds.currentTimeNumber - ts.startFor ds.currentTimeNumber).toNat
        { tss with
          nowValues := (updateNowValues ds ts now).nowValues
          runningNode := now.runningNode } },
    ?_, ⟨⟨rank, hw⟩, h.only, h.clean, h.attrNodeMap, h.attrNodeIdAlt, hrun⟩, rfl⟩
  rw [Monitor.Store.store, hreceive, ok_bind, flush, hget]
  dsimp only
  rw [fetch_eq_ok.mpr hi, ok_bind]
  exact congrArg (fun x : Run (Flush × Bool) => x >>= _) hclear

theorem Bare.markRunning (hd : Described ds) (h : Bare gl ds ts) (now : NowInfo) :
    ∃ tree', markRunningNodes gl ds (updateNowValues ds ts now) =
        .ok { updateNowValues ds ts now with currentTree := tree' } ∧ SamePlaces ts.currentTree tree' := by
  by_cases hrun : now.runningNode = 1
  · obtain ⟨rank, hw⟩ := h.wf
    obtain ⟨r, hr, hr0⟩ := hw.rooted.root
    have hdirty : r.dirty = false := (dirtyAt_eq hr).symm.trans h.clean
    have hsized := hw.sized 1 r hr
    have hplaces : SamePlaces ts.currentTree (ts.currentTree.insert 1 (markedNode gl ds r)) :=
      SamePlaces.insert hr rfl
    obtain ⟨fuel, hfuel⟩ : ∃ fuel, ts.currentTree.size = fuel + 1 := by
      have hle := hw.rooted.bound 1 r hr
      have hpos := hw.rooted.rank_pos hr
      exact ⟨ts.currentTree.size - 1, by omega⟩
    have hzero : (ts.currentTree.insert 1 (markedNode gl ds r))[(0 : NodeID)]? = none := by
      rw [getElem?_insert_ne _ (by decide)]
      exact hw.rooted.zero
    have hmark : mark gl ds (updateNowValues ds ts now) now.runningNode =
        .ok { updateNowValues ds ts now with currentTree := ts.currentTree.insert 1 (markedNode gl ds r) } := by
      have hr' : (updateNowValues ds ts now).getNodeFromID 1 = some r := hr
      have hsize : (updateNowValues ds ts now).currentTree.size = fuel + 1 := hfuel
      have hpid : (markedNode gl ds r).parentId = 0 := hr0
      have hup : ((updateNowValues ds ts now).setNode 1 (markedNode gl ds r)).getNodeFromID 0 = none := hzero
      rw [mark, hrun, hsize, markNodeDirty, hr']
      simp only [hdirty, Bool.false_eq_true, if_false,
        defaultTemps_marked hd hsized.2.2.1 (fun hs => (hsized.2.2.2 hs).1),
        ok_bind, hpid, markNodeDirty, hup, pure_eq_ok, ite_self]
      rfl
    obtain ⟨tree', hset, hcore, -⟩ := setRunning_core true
      ((ts.currentTree.insert 1 (markedNode gl ds r)).size + 1)
      { updateNowValues ds ts now with currentTree := ts.currentTree.insert 1 (markedNode gl ds r) }
        now.runningNode
      (hw.rooted.congr hplaces).ranked
      (Nat.lt_succ_of_le ((hw.rooted.congr hplaces).bound _ _ (by rw [hrun]; exact getElem?_insert_self _ _ _)))
    refine ⟨tree', ?_, hplaces.trans hcore.places⟩
    rw [markRunningNodes]
    exact (congrArg (· >>= _) hmark).trans hset
  · have habsent : (updateNowValues ds ts now).currentTree[(updateNowValues ds ts now).runningNode]? = none :=
      h.only _ hrun
    refine ⟨ts.currentTree, ?_, SamePlaces.refl _⟩
    rw [markRunningNodes, mark_absent habsent, ok_bind, setRunning_absent habsent]
    rfl

/-- A record whose parent is unknown: the second level of `TouchGNID` has no node. -/
theorem storeRecord_orphan {r : MethodNodeSerializedInfo} (hr : Orphan r)
    (honly : ∀ k : NodeID, k ≠ 1 → ts.currentTree[k]? = none) (hm : ts.attrNodeMap = ∅)
    (ha : ts.attrNodeIdAlt = ∅) : storeRecord gl ds ts r = .error .missingParent := by
  have hnode := hr.node
  have hbelow := hr.below
  have hnew : ts.currentTree[r.callNodeId]? = none := honly _ (Nat.ne_of_gt hnode)
  have hparent : (ts.currentTree.insert r.callNodeId (freshNode gl ds r.callNodeId r.parentNodeId r.nameid))[r.parentNodeId]? =
      none := by
    rw [getElem?_insert_ne _ (Nat.ne_of_lt hbelow)]
    exact honly _ hr.deep
  have hadd : addRecordNode gl ds ts r.callNodeId r = .error .missingParent := by
    rw [addRecordNode, addCurrentNode_new ts hnew, touch]
    dsimp only
    rw [size_insert_new hnew, touchGNID, ThreadStore.getNodeFromID, getElem?_insert_self]
    dsimp only
    rw [if_neg (by simp [freshNode, emptyNode]), touchGNID, ThreadStore.getNodeFromID]
    simp only [freshNode] at hparent ⊢
    rw [hparent]
    rfl
  have hcnid : (if gl.leafNodeAccumulate then ts.attrNodeIdAlt.getD r.callNodeId r.callNodeId else r.callNodeId) =
      r.callNodeId := by
    rw [ha]
    simp
  have hattr : (if gl.leafNodeAccumulate then ts.attrNodeMap[(r.parentNodeId, r.nameid)]? else none) =
      none := by
    rw [hm]
    simp
  rw [storeRecord, locate]
  simp only [hcnid, hattr, ThreadStore.getNodeFromID, hnew, hadd, error_bind]

theorem Bare.store_orphan (hd : Described ds) (h : Bare gl ds ts) {r : MethodNodeSerializedInfo}
    {rest : List MethodNodeSerializedInfo} (hr : Orphan r) {now : NowInfo}
    (hvalues : ds.numRecords ≤ now.values.length) :
    Monitor.Store.store gl ds ts (r :: rest) now = .error .missingParent := by
  obtain ⟨tree', hmark, hplaces⟩ := h.markRunning hd now
  have honly (k : NodeID) (hk : k ≠ 1) : tree'[k]? = none := by
    have := hplaces k
    rwa [h.only k hk, Option.map_none, Option.map_eq_none_iff] at this
  have h₁ : unmarkRunningNodes ts = .ok ts := setRunning_absent (h.only _ h.running) _ _
  have hfail : storeRecord gl ds { updateNowValues ds ts now with currentTree := tree' } r =
      .error .missingParent :=
    storeRecord_orphan hr honly h.attrNodeMap h.attrNodeIdAlt
  rw [Monitor.Store.store, receive, h₁, ok_bind, require_of hvalues, ok_bind, hmark, ok_bind,
    List.foldlM_cons, hfail]
  rfl

theorem storeAll_quiet (gl : Settings) (threadID : ThreadID) {quiet : List Delivery}
    (hquiet : ∀ d ∈ quiet, d.batch = [] ∧ d.now.runningNode ≠ 1 ∧ ds.numRecords ≤ d.now.values.length)
    (htimes : (quiet.map (fun d => d.time)).Pairwise (· < ·)) :
    ∃ ts, storeAll gl ds (newThreadStore gl ds threadID) quiet = .ok ts ∧ Bare gl ds ts := by
  obtain ⟨ts, hrun, hbare, -⟩ := foldlM_total (f := Delivery.store gl ds)
    (fun done ts => Bare gl ds ts ∧ (ts.timeSlice = [] ∨ ∃ e ∈ done, ts.startTimeNumber ≤ e.time)) quiet
    (by
      rintro done d rest ts he ⟨hb, hstart⟩
      obtain ⟨hbatch, hrunning, hvalues⟩ := hquiet d (by rw [he]; simp)
      have hlt (e : Delivery) (hin : e ∈ done) : e.time < d.time := by
        rw [he, List.map_append, List.pairwise_append] at htimes
        exact htimes.2.2 _ (List.mem_map_of_mem hin) _ (by simp)
      have hreach : ts.timeSlice = [] ∨ ts.startTimeNumber ≤ (d.dataStore ds).currentTimeNumber := by
        rcases hstart with h0 | ⟨e, hin, hle⟩
        · exact Or.inl h0
        · exact Or.inr (hle.trans (hlt e hin).le)
      have hb' : Bare gl (d.dataStore ds) ts := by
        obtain ⟨rank, hw⟩ := hb.wf
        exact ⟨⟨rank, Wf.dataStore hw rfl⟩, hb.only, hb.clean, hb.attrNodeMap, hb.attrNodeIdAlt, hb.running⟩
      obtain ⟨ts', hrun, hb'', hstart'⟩ := hb'.store_quiet hrunning hvalues hreach
      refine ⟨ts', by rw [Delivery.store, hbatch, hrun], ?_, Or.inr ?_⟩
      · obtain ⟨rank, hw⟩ := hb''.wf
        exact ⟨⟨rank, Wf.dataStore hw rfl⟩, hb''.only, hb''.clean, hb''.attrNodeMap,
          hb''.attrNodeIdAlt, hb''.running⟩
      · rw [hstart', ThreadStore.startFor]
        split
        · exact ⟨d, by simp, le_refl _⟩
        next hne =>
          rcases hstart with h0 | ⟨e, hin, hle⟩
          · rw [h0] at hne
            exact absurd rfl hne
          · exact ⟨e, List.mem_append_left _ hin, hle⟩)
    (s := newThreadStore gl ds threadID) ⟨newThreadStore_bare gl ds threadID, Or.inl rfl⟩
  exact ⟨ts, hrun, hbare⟩

theorem storeAll_orphan (hds : Described ds) {quiet rest : List Delivery} {d : Delivery}
    (hquiet : ∀ d ∈ quiet, d.batch = [] ∧ d.now.runningNode ≠ 1 ∧ ds.numRecords ≤ d.now.values.length)
    (htimes : (quiet.map (fun d => d.time)).Pairwise (· < ·)) {r : MethodNodeSerializedInfo}
    {more : List MethodNodeSerializedInfo} (hbatch : d.batch = r :: more) (hr : Orphan r)
    (hvalues : ds.numRecords ≤ d.now.values.length) :
    storeAll gl ds (newThreadStore gl ds threadID) (quiet ++ d :: rest) = .error .missingParent := by
  obtain ⟨ts, hrun, hbare⟩ := storeAll_quiet gl threadID hquiet htimes
  have hb' : Bare gl (d.dataStore ds) ts := by
    obtain ⟨rank, hw⟩ := hbare.wf
    exact ⟨⟨rank, Wf.dataStore hw rfl⟩, hbare.only, hbare.clean, hbare.attrNodeMap,
      hbare.attrNodeIdAlt, hbare.running⟩
  have hd' : Described (d.dataStore ds) := hds
  have hvalues' : (d.dataStore ds).numRecords ≤ d.now.values.length := hvalues
  have hfail : Delivery.store gl ds ts d = .error .missingParent := by
    rw [Delivery.store, hbatch]
    exact hb'.store_orphan hd' hr hvalues'
  rw [storeAll] at hrun ⊢
  rw [List.foldlM_append, hrun, ok_bind, List.foldlM_cons, hfail, error_bind]

theorem Delivers.at {drained quiet more : List Drained} {e : Drained} (h : Delivers drained deliveries)
    (he : drained = quiet ++ e :: more) :
    ∃ qs d rest, deliveries = qs ++ d :: rest ∧
      qs.map (fun d => (d.batch, d.now)) = quiet.map (fun d => (d.records, nowOf d.nowInfo)) ∧
      d.batch = e.records ∧ d.now = nowOf e.nowInfo := by
  have hb := h.buffers
  rw [he, List.map_append, List.map_cons, List.map_eq_append_iff] at hb
  obtain ⟨qs, more', hsplit, hqs, hmore⟩ := hb
  obtain ⟨d, rest, rfl, hd, -⟩ := List.map_eq_cons_iff.mp hmore
  rw [Prod.mk.injEq] at hd
  exact ⟨qs, d, rest, hsplit, hqs, hd⟩

theorem Logged.linkable {st : Session} (h : Logged st) (hlive : st.thread.serializedNodeInfoArray = [])
    (hdel : Delivers st.drained deliveries) (hattr : AttrLeaves gl ds deliveries) :
    Linkable gl (attrNamed ds deliveries) (logOf deliveries) := by
  have hlog : logOf deliveries = st.log := by rw [hdel.log, Session.log, hlive, List.append_nil]
  refine ⟨fun r hr => ?_, fun done r rest he => ?_, fun hon => (hattr hon).1, fun hon => (hattr hon).2⟩
  · have := (h.place r (hlog ▸ hr)).1
    exact Nat.ne_of_gt (by omega)
  · have hj : st.log[done.length]? = some r := by
      rw [← hlog, he, List.getElem?_append_right (le_refl _), Nat.sub_self]
      rfl
    have hpar := h.parent _ r hj
    rwa [← hlog, he, List.take_left'] at hpar
    rfl

theorem session_cut {threadID : Nat} {before after : List Event} {st : Session}
    (hcut : before = [] ∨ ∃ es reading, before = es ++ [.drain reading])
    (hcount : drainCount (before ++ after) < 2 ^ 32 - 1)
    (hrun : runEvents g (newSession g threadID) (before ++ after) = .ok st) :
    ∃ ti, Kept g ⟨ti, []⟩ ∧ Profiler.Context.Reached ti (Profiler.Context.pending (handlersOf before)) ∧
      ti.serializedNodeInfoArray = [] ∧ ti.generationNumber = 1 + drainCount before ∧
      runEvents g ⟨ti, []⟩ after = .ok ⟨st.thread, st.drained.drop (drainCount before)⟩ := by
  obtain ⟨st₁, hbefore, hafter⟩ := runEvents_append.mp hrun
  rw [drainCount_append] at hcount
  have hgen₀ : (newSession g threadID).thread.generationNumber = 1 := rfl
  have hr₀ : Profiler.Context.Reached (newSession g threadID).thread [] :=
    Profiler.Context.newThread_reached g threadID
  obtain ⟨hr, hgen⟩ := runEvents_reached hr₀ (by omega) hbefore
  obtain ⟨hk, -⟩ := runEvents_kept (newSession_kept g threadID) (by omega) hbefore
  obtain ⟨old, hold, hlen, -⟩ := runEvents_drained hbefore
  obtain ⟨new, hnew, -, hall⟩ := runEvents_drained hafter
  have hdrop : st.drained.drop (drainCount before) = new := by
    rw [hnew, hold, List.nil_append, List.drop_left' hlen]
  refine ⟨st₁.thread, ⟨hk.tree, hk.record, hk.now, fun d hd => absurd hd List.not_mem_nil⟩, hr, ?_, hgen, ?_⟩
  · rcases hcut with rfl | ⟨es, reading, rfl⟩
    · cases hbefore
      rfl
    · obtain ⟨t, -, hlast⟩ := runEvents_append.mp hbefore
      obtain ⟨t', hd, hnil⟩ := runEvents_cons.mp hlast
      obtain ⟨ti', d, hdrain, rfl⟩ := run_drain.mp hd
      cases hnil
      exact drain_live hdrain
  · rw [hdrop]
    exact hall []

/-- A fresh thread store that gets the drains from the `k`-th on misses a parent
exactly where the cut is not attachable. -/
theorem attach_finds_parents (g : RecordTable) (threadID : Nat) (gl : Settings)
    (ds : DataStore) (hds : Described ds) (hnum : ds.numRecords = g.activeRecords.length)
    (before after : List Event) (reading : Reading)
    (hcut : before = [] ∨ ∃ es reading, before = es ++ [.drain reading])
    (hcount : drainCount (before ++ (after ++ [.drain reading])) < 2 ^ 32 - 1) (st : Session)
    (hrun : runEvents g (newSession g threadID) (before ++ (after ++ [.drain reading])) = .ok st)
    (deliveries : List Delivery) (hdel : Delivers (st.drained.drop (drainCount before)) deliveries)
    (hattr : AttrLeaves gl ds deliveries) :
    (storeAll gl ds (newThreadStore gl ds threadID) deliveries ≠ .error .missingParent ↔
      Attachable before after) ∧
      storeAll gl ds (newThreadStore gl ds threadID) deliveries ≠ .error .outOfFuel := by
  obtain ⟨ti, hk, hr, hlive, hgen, hsuffix⟩ := session_cut hcut hcount hrun
  rw [drainCount_append] at hcount
  have hsmall : (⟨ti, []⟩ : Session).thread.generationNumber +
      drainCount (after ++ [.drain reading]) < 2 ^ 32 := by
    dsimp only
    omega
  by_cases ha : Attachable before after
  · have hready : Profiler.Cuts.Ready ⟨ti, []⟩ (after ++ [.drain reading]) := by
      have hsame : handlersOf (after ++ [.drain reading]) = handlersOf after := by
        rw [handlersOf_append]
        exact List.append_nil _
      have := attachable_ready hr ha
      rwa [Profiler.Cuts.Ready, ← hsame] at this
    have hl := Logged.run (cut_logged hk.tree hk.record hlive) hready hsmall hsuffix
    have hlast : st.thread.serializedNodeInfoArray = [] := by
      obtain ⟨t, -, hlast⟩ := runEvents_append.mp hsuffix
      obtain ⟨t', hd, hnil⟩ := runEvents_cons.mp hlast
      obtain ⟨ti', d, hdrain, rfl⟩ := run_drain.mp hd
      rw [runEvents, List.foldlM_nil, pure_eq_ok, Except.ok.injEq] at hnil
      rw [← congrArg Session.thread hnil]
      exact drain_live hdrain
    have havoids := storeAll_linked threadID (Logged.linkable hl hlast hdel hattr)
    exact ⟨⟨fun _ => ha, fun _ => havoids.no_fault trivial⟩, havoids.no_fault trivial⟩
  · obtain ⟨hw, hs, hne⟩ := not_attachable hr hlive ha
    obtain ⟨t, hmid, hlast⟩ := runEvents_append.mp hsuffix
    obtain ⟨t', hd, hnil⟩ := runEvents_cons.mp hlast
    obtain ⟨ti', d, hdrain, rfl⟩ := run_drain.mp hd
    rw [drainCount_append] at hsmall
    have ho := hw.run hk hs hne (by omega) hmid
    obtain ⟨hkt, -⟩ := runEvents_kept hk (by omega) hmid
    have hgent : t.thread.generationNumber + 1 < 2 ^ 32 := by
      have := (runEvents_reached hr (by omega) hmid).2
      have hone : drainCount [.drain reading] = 1 := rfl
      omega
    obtain ⟨-, -, -, -, -, hrecords⟩ := drain_keeps hkt.tree hkt.record hgent hdrain
    have hdrop : st.drained.drop (drainCount before) = t.drained ++ [d] := by
      rw [runEvents, List.foldlM_nil, pure_eq_ok, Except.ok.injEq] at hnil
      exact (congrArg Session.drained hnil).symm
    have hfull := (hkt.drain hgent hdrain).full
    obtain ⟨quiet, e, more, r, rest, hquiet, hsplit, he, hr'⟩ := ho.drain hrecords
    obtain ⟨qs, d', rest', rfl, hqs, hbatch, hnow⟩ := Delivers.at hdel (hdrop.trans hsplit)
    have hvalues {d : Drained} (hd : d ∈ quiet ++ e :: more) :
        ds.numRecords ≤ (nowOf d.nowInfo).values.length := by
      rw [nowOf, hnum]
      exact (hfull d (hsplit ▸ hd)).ge
    have hfail : storeAll gl ds (newThreadStore gl ds threadID) (qs ++ d' :: rest') =
        .error .missingParent := by
      refine storeAll_orphan hds ?_ ?_ (hbatch.trans he) hr' ?_
      · intro q hq
        have hmem := List.mem_map_of_mem (f := fun d : Delivery => (d.batch, d.now)) hq
        rw [hqs] at hmem
        obtain ⟨e', he', heq⟩ := List.mem_map.mp hmem
        rw [Prod.mk.injEq] at heq
        obtain ⟨hnil, hrunning⟩ := hquiet e' he'
        refine ⟨by rw [← heq.1, hnil], ?_, ?_⟩
        · rw [← heq.2, nowOf]
          exact hrunning
        · rw [← heq.2]
          exact hvalues (List.mem_append_left _ he')
      · have htimes := hdel.times
        rw [List.map_append, List.pairwise_append] at htimes
        exact htimes.1
      · rw [hnow]
        exact hvalues (by simp)
    rw [hfail]
    exact ⟨iff_of_false (fun h => h rfl) ha, fun h => by cases h⟩

theorem attach_misses_parent :
    ∃ st, runEvents oneCounter (newSession oneCounter 0)
        ([.handler (.call 1 (fun _ => 10)), .drain (fun _ => 15)] ++
          ([.handler (.call 2 (fun _ => 20)), .handler (.ret (fun _ => 35)), .handler (.ret (fun _ => 40))] ++
            [.drain (fun _ => 50)])) = .ok st ∧
      Delivers (st.drained.drop 1) ((Mirror.nestedDeliveries ∅).drop 1) ∧
      storeAll RunTotals.defaultMode Mirror.counterSlots
        (newThreadStore RunTotals.defaultMode Mirror.counterSlots 0)
        ((Mirror.nestedDeliveries ∅).drop 1) = .error .missingParent := by
  obtain ⟨st, hrun, hdrained⟩ := ok_of_any (x := runEvents oneCounter (newSession oneCounter 0)
      (Mirror.nestedCalls ++ [.drain (fun _ => 50)]))
    (p := fun st => st.drained = Mirror.nestedDrained) (by decide +kernel)
  refine ⟨st, hrun, ?_, ?_⟩
  · rw [of_decide_eq_true hdrained]
    exact ⟨rfl, by decide⟩
  · exact error_of_fault (by decide +kernel)

theorem attach_finds_parents_return :
    ∃ st, runEvents oneCounter (newSession oneCounter 0)
        ([.handler (.call 1 (fun _ => 10)), .drain (fun _ => 15)] ++
          ([.handler (.ret (fun _ => 35))] ++ [.drain (fun _ => 50)])) = .ok st ∧
      storeAll RunTotals.defaultMode Mirror.counterSlots
        (newThreadStore RunTotals.defaultMode Mirror.counterSlots 0)
        [{ time := 2, nameTable := ∅, batch := [⟨1, 2, 1, 0, [25, 0]⟩], now := ⟨1, [0, 50]⟩ }] ≠
          .error .missingParent := by
  obtain ⟨st, hrun, hdrained⟩ := ok_of_any (x := runEvents oneCounter (newSession oneCounter 0)
      ([.handler (.call 1 (fun _ => 10)), .drain (fun _ => 15)] ++
        ([.handler (.ret (fun _ => 35))] ++ [.drain (fun _ => 50)])))
    (p := fun st => st.drained.drop 1 = [⟨[⟨1, 2, 1, 0, [25, 0]⟩], ⟨1, [0, 50]⟩⟩]) (by decide +kernel)
  refine ⟨st, hrun, ((attach_finds_parents oneCounter 0 RunTotals.defaultMode Mirror.counterSlots rfl rfl
    [.handler (.call 1 (fun _ => 10)), .drain (fun _ => 15)] [.handler (.ret (fun _ => 35))] (fun _ => 50)
    (Or.inr ⟨[.handler (.call 1 (fun _ => 10))], (fun _ => 15), rfl⟩) (by decide) st hrun _ ?_ ?_).1).mpr ?_⟩
  · show Delivers (st.drained.drop 1) _
    rw [of_decide_eq_true hdrained]
    exact ⟨rfl, by simp⟩
  · intro hon
    cases hon
  · exact Or.inr (Or.inr ⟨⟨1, rfl⟩, _, [], rfl⟩)

end Llprof.Link.Attach
