import Llprof.Monitor.DiffAnswers
import Llprof.Monitor.StoreRule
import Llprof.Monitor.TickFrame

namespace Llprof.Monitor.IntegrationSlots

open Faulting hiding store
open Avoiding TreeMaps Nodes Store SlotLoops TreeShape FlushSpec Slices MergeSlices SliceFrame
  SliceContents SlicesKnown Ticks TickFrame FlushRule StoreRule

variable {gl : Settings} {ds srcDs : DataStore} {bad : Fault → Prop} {tree : Tree} {st : Integrating}

/-- What a thread is after a tick of the single-tree mode. -/
def Drained (p q : ThreadID × ThreadStore) : Prop := q.1 = p.1 ∧ ∃ start, q.2 = withSlices start [] p.2

structure TargetDrained (t t' : TargetStore) : Prop where
  ds : t'.ds = t.ds
  firstReceived : t'.firstReceived = t.firstReceived
  threads : List.Forall₂ Drained t.threads t'.threads

theorem integrateThread_drained (hmode : gl.singleTreeMode = true) (st : Integrating)
    (p : ThreadID × ThreadStore) : Avoids never (fun r => Drained p r.2) (integrateThread gl srcDs st p) := by
  rw [integrateThread]
  split
  next => exact fun h => h
  next ts i hget =>
    refine (avoids_any _).bind fun tss _ => (avoids_any _).bind fun st' _ => ⟨rfl, ts.startTimeNumber, ?_⟩
    obtain ⟨ts', r, hget', hlike, -⟩ := DiffAnswers.getTimeSlice_opened p.2 srcDs.currentTimeNumber
    rw [hget, Prod.mk.injEq] at hget'
    dsimp only
    rw [if_pos hmode, hget'.1, hlike.rest]
    rfl

theorem integrateAll_drained (hmode : gl.singleTreeMode = true) (g : GlobalThreadStore)
    (targets : List TargetStore) :
    Avoids never (fun r => List.Forall₂ TargetDrained targets r.2) (integrateAll gl ds g targets) := by
  have htarget (st : Integrating) (t : TargetStore) :
      Avoids never (fun r => TargetDrained t r.2) (integrateTarget gl st t) := by
    rw [integrateTarget]
    apply (avoids_sweep_each (P := fun _ => True) (S := fun _ => True) (R := Drained)
      (fun st' p _ _ => (integrateThread_drained hmode st' p).mono fun r hr => ⟨trivial, hr⟩)
        (fun _ _ => trivial) trivial).bind
    rintro r ⟨-, hr⟩
    exact ⟨rfl, rfl, hr⟩
  rw [integrateAll]
  split
  next => exact fun h => h
  next =>
    refine (avoids_any _).bind fun tss _ => ?_
    apply (avoids_sweep_each (P := fun _ => True) (S := fun _ => True) (R := TargetDrained)
      (fun st' t _ _ => (htarget st' t).mono fun r hr => ⟨trivial, hr⟩) (fun _ _ => trivial) trivial).bind
    rintro r ⟨-, hr⟩
    exact hr

structure FullNode (ds : DataStore) (n : RecordNode) : Prop where
  entry : (entryOf n.toRecordNodeBasic).Sized ds
  temps : n.tempValues.length = ds.numRecords

def FullNodes (ds : DataStore) (tree : Tree) : Prop :=
  ∀ (k : NodeID) (n : RecordNode), tree[k]? = some n → FullNode ds n

theorem FullNodes.insert (h : FullNodes ds tree) {k : NodeID} {n : RecordNode} (hn : FullNode ds n) :
    FullNodes ds (tree.insert k n) := by
  intro j m hj
  rw [getElem?_insert] at hj
  split at hj
  · cases hj
    exact hn
  · exact h j m hj

def Covers (ds srcDs : DataStore) : Prop :=
  ∀ (i : Nat) (md : RecordMetadata), ds.recordMetadata[i]? = some md →
    md.staticValueFlag = false → i < srcDs.numRecords

/-- What the loops of `Integrate` keep of the global thread. -/
structure Fed (ds : DataStore) (tree : Tree) (st : Integrating) : Prop where
  ok : IntegratingOk ds tree st
  full : FullNodes ds st.g.ts.currentTree

theorem addCurrentNode_full {ts : ThreadStore} (h : FullNodes ds ts.currentTree)
    (hn : srcDs.numRecords = ds.numRecords) (k p : NodeID)
    (x : NameID) : FullNodes ds (ts.addCurrentNode gl srcDs k p x false).currentTree := by
  refine h.insert ⟨⟨?_, ?_⟩, ?_⟩
  · exact (length_resize _ _).trans hn
  · exact (length_resize _ _).trans hn
  · exact (length_resize _ _).trans hn

theorem setGNID_full {ts : ThreadStore} (h : FullNodes ds ts.currentTree) (k gnid : NodeID) :
    FullNodes ds (setGNID ts k gnid).currentTree := by
  rw [setGNID]
  split
  next => exact h
  next n hn =>
    obtain ⟨hentry, htemps⟩ := h k n hn
    exact h.insert ⟨hentry, htemps⟩

theorem destNode_fed (h : Fed ds tree st) (srcTree : Tree) (n : RecordNode) :
    Fed ds tree (destNode gl srcDs srcTree st n).1 := by
  refine ⟨destNode_ok h.ok srcDs srcTree n, ?_⟩
  have hseq := gnidToSeq_ts st.g n.gnid
  have hpar := (parentSeq_ts srcTree (st.g.gnidToSeq n.gnid).1 n).trans hseq
  rw [destNode]
  dsimp only
  split
  · rw [hseq]
    exact h.full
  · apply setGNID_full
    apply addCurrentNode_full
    · rw [hpar]
      exact h.full
    · exact h.ok.numRecords

theorem integrateValues_full (hd : Described ds) {src dest : RecordNodeBasic} {cur : RecordNode}
    (hsrc : (entryOf src).Sized srcDs) (hc : Covers ds srcDs) (hdest : (entryOf dest).Sized ds)
    (hcur : FullNode ds cur) :
    Avoids bad (fun r => (entryOf r.1).Sized ds ∧ FullNode ds r.2) (integrateValues ds src dest cur) := by
  refine avoids_forRange_lt ds.numRecords (fun r i hi hr => ?_) ⟨hdest, hcur⟩
  apply (avoids_fetch_lt (by rw [hd]; exact hi)).bind
  intro md hmd
  split
  next => exact hr
  next hstatic =>
    have hlt : i < srcDs.numRecords := hc i md hmd (Bool.not_eq_true _ ▸ hstatic)
    obtain ⟨⟨hda, hdc⟩, ⟨hca, hcc⟩, htemps⟩ := hr
    refine (avoids_fetch_lt (hlt.trans_eq hsrc.1.symm)).bind fun all _ => ?_
    refine (avoids_fetch_lt (hlt.trans_eq hsrc.2.symm)).bind fun children _ => ?_
    refine (avoids_updateAt_lt (hi.trans_eq hda.symm) _).bind fun destAll hall => ?_
    refine (avoids_updateAt_lt (hi.trans_eq hdc.symm) _).bind fun destChildren hchildren => ?_
    refine (avoids_updateAt_lt (hi.trans_eq hca.symm) _).bind fun currentAll hall' => ?_
    refine (avoids_updateAt_lt (hi.trans_eq hcc.symm) _).bind fun currentChildren hchildren' => ?_
    exact ⟨⟨hall.trans hda, hchildren.trans hdc⟩, ⟨hall'.trans hca, hchildren'.trans hcc⟩, htemps⟩

theorem integrateValues_congr {ds' : DataStore} (hn : ds'.numRecords = ds.numRecords)
    (hm : ds'.recordMetadata = ds.recordMetadata) (src dest : RecordNodeBasic)
    (cur : RecordNode) : integrateValues ds' src dest cur = integrateValues ds src dest cur := by
  rw [integrateValues, hn, hm]
  rfl

theorem integrateNode_fed (hbad : ¬ bad .nullDeref) (hd : Described ds)
    (hc : Covers ds srcDs) {srcTree : Tree} {it : NodeID × RecordNodeBasic} (hit : (entryOf it.2).Sized srcDs)
    (hid : bad .assertion → it.2.id ∈ srcTree) (h : Fed ds tree st) : Avoids bad (Fed ds tree)
    (integrateNode gl srcDs srcTree st it) := by
  apply (and_never (P := fun st' => FullNodes ds st'.g.ts.currentTree) ?_ (integrateNode_ok h.ok srcDs srcTree it)).mono
    fun st' hst' => ⟨hst'.2, hst'.1⟩
  rw [integrateNode]
  split
  next hnone =>
    intro hb
    obtain ⟨n, hn⟩ := mem_iff_some.mp (hid hb)
    rw [hn] at hnone
    cases hnone
  next n _ =>
    have hdest : Fed ds tree (destNode gl srcDs srcTree st n).1 := destNode_fed h srcTree n
    generalize destNode gl srcDs srcTree st n = r at hdest
    obtain ⟨st₁, id⟩ := r
    dsimp only at hdest ⊢
    split
    next => exact hbad
    next cur hcur =>
      have hnode : (entryOf (sliceNode gl st₁.ds st₁.dest.tree id)).Sized ds := by
        have hsized : SizedSlice st₁.ds st₁.dest.tree := by
          intro k e he
          rw [Entry.Sized, hdest.ok.numRecords]
          exact hdest.ok.sized k e he
        have := @sliceNode_sized gl _ _ hsized id
        rwa [Entry.Sized, hdest.ok.numRecords] at this
      rw [integrateValues_congr hdest.ok.numRecords hdest.ok.metadata]
      apply (integrateValues_full hd hit hc hnode (hdest.full id cur hcur)).bind
      rintro ⟨dest, cur'⟩ ⟨-, hcur'⟩
      exact hdest.full.insert ⟨hcur'.entry, hcur'.temps⟩

def NamesNodes (ds : DataStore) (ts : ThreadStore) : Prop :=
  ∀ (k : NodeID) (e : RecordNodeBasic), (contentAt ts ds.currentTimeNumber).tree[k]? = some e →
    e.id ∈ ts.currentTree

theorem integrateThread_fed (hbad : ¬ bad .nullDeref) (hd : Described ds) {p : ThreadID × ThreadStore}
    (hp : SlicesOk srcDs p.2) (hid : bad .assertion → NamesNodes srcDs p.2)
    (hc : ∀ k ∈ (contentAt p.2 srcDs.currentTimeNumber).tree, Covers ds srcDs) (h : Fed ds tree st) :
    Avoids bad (fun r => Fed ds tree r.1) (integrateThread gl srcDs st p) := by
  by_cases hreach : Reaches p.2 srcDs.currentTimeNumber
  · obtain ⟨slices, tss, hget, htss, hcontent, -, -, -⟩ := getTimeSlice_reaches hreach
    have htree : tss.tree = (contentAt p.2 srcDs.currentTimeNumber).tree :=
      (congrArg TimeSliceStore.tree hcontent :)
    have hcopy : Fed ds tree (copyNowValues st tss) := by
      rw [copyNowValues]
      split
      · exact h
      · exact ⟨⟨h.ok.numRecords, h.ok.metadata, h.ok.time, h.ok.tree, h.ok.known, h.ok.sized⟩, h.full⟩
    rw [integrateThread, hget]
    dsimp only
    rw [fetch_eq_ok.mpr (show (withSlices _ slices p.2).timeSlice[_]? = some tss from htss), ok_bind, htree]
    have hsized := (slicesOk_iff.mp hp srcDs.currentTimeNumber).2
    refine Avoids.bind (P := Fed ds tree) ?_ fun st' h' => h'
    refine avoids_foldlM (fun _ => Fed ds tree) _ (fun done it rest st' he h' => ?_) hcopy
    have hit : (contentAt p.2 srcDs.currentTimeNumber).tree[it.1]? = some it.2 := getElem?_of_split he
    exact integrateNode_fed hbad hd (hc it.1 (mem_iff_some.mpr ⟨_, hit⟩)) (hsized it.1 it.2 hit)
      (fun hb => hid hb it.1 it.2 hit) h'
  · rw [integrateThread, getTimeSlice_not hreach]
    exact hbad

def Contributes (t : TargetStore) : Prop :=
  ∃ p ∈ t.threads, ∃ k, k ∈ (contentAt p.2 t.ds.currentTimeNumber).tree

theorem integrateTarget_fed (hbad : ¬ bad .nullDeref) (hd : Described ds) {t : TargetStore}
    (ht : ∀ p ∈ t.threads, SlicesOk t.ds p.2) (hid : bad .assertion → ∀ p ∈ t.threads, NamesNodes t.ds p.2)
    (hc : Contributes t → Covers ds t.ds) (h : Fed ds tree st) :
    Avoids bad (fun r => Fed ds tree r.1) (integrateTarget gl st t) := by
  rw [integrateTarget]
  apply (avoids_sweep_each (P := Fed ds tree) (S := fun p => p ∈ t.threads) (R := fun _ _ => True) (fun st' p h' hp => ?_)
    (fun _ hp => hp) h).bind
  · rintro r ⟨hr, -⟩
    exact hr
  · apply (integrateThread_fed hbad hd (ht p hp) (fun hb => hid hb p hp) (fun k hk => hc ⟨p, hp, k, hk⟩) h').mono
    exact fun r hr => ⟨hr, trivial⟩

/-- The global thread between ticks: every node has a value for every slot, and so
has every entry of its slices. -/
structure GlobalSlots (ds : DataStore) (ts : ThreadStore) : Prop where
  full : FullNodes ds ts.currentTree
  slices : SlicesOk ds ts

theorem GlobalSlots.congr {ds' : DataStore} {ts : ThreadStore} (h : GlobalSlots ds ts)
    (hn : ds'.numRecords = ds.numRecords) : GlobalSlots ds' ts := by
  refine ⟨fun k n hk => ?_, slicesOk_congr hn h.slices⟩
  obtain ⟨hentry, htemps⟩ := h.full k n hk
  refine ⟨?_, htemps.trans hn.symm⟩
  rw [Entry.Sized, hn]
  exact hentry

theorem integrateAll_fed (hbad : ¬ bad .nullDeref) (hd : Described ds) {g : GlobalThreadStore}
    (hg : GlobalSlots ds g.ts) {targets : List TargetStore}
    (ht : ∀ t ∈ targets, ∀ p ∈ t.threads, SlicesOk t.ds p.2)
    (hid : bad .assertion → ∀ t ∈ targets, ∀ p ∈ t.threads, NamesNodes t.ds p.2)
    (hc : ∀ t ∈ targets, Contributes t → Covers ds t.ds) :
    Avoids bad (fun r => r.1.ds.numRecords = ds.numRecords ∧ r.1.ds.recordMetadata = ds.recordMetadata ∧
      ∃ a, r.1.thread = some a ∧ GlobalSlots r.1.ds a.ts) (integrateAll gl ds g targets) := by
  by_cases hreach : Reaches g.ts ds.currentTimeNumber
  · obtain ⟨slices, tss, hget, htss, hcontent, hall, -, -⟩ := getTimeSlice_reaches hreach
    have hlen := (List.getElem?_eq_some_iff.mp htss).1
    have htree : tss.tree = (contentAt g.ts ds.currentTimeNumber).tree :=
      (congrArg TimeSliceStore.tree hcontent :)
    rw [integrateAll, hget]
    dsimp only
    rw [fetch_eq_ok.mpr (show (withSlices _ slices g.ts).timeSlice[_]? = some tss from htss), ok_bind]
    have hstart : Fed ds g.ts.currentTree ⟨ds, { g with
        ts := { withSlices (g.ts.startFor ds.currentTimeNumber) slices g.ts with startTimeNumber := 0, timeSlice := [] } },
        tss, false⟩ := by
      have hnow := slicesOk_iff.mp hg.slices ds.currentTimeNumber
      rw [← htree] at hnow
      exact ⟨⟨rfl, rfl, rfl, Knows.refl _, hnow.1, hnow.2⟩, hg.full⟩
    apply (avoids_sweep_each (P := Fed ds g.ts.currentTree) (S := fun t => t ∈ targets) (R := fun _ _ => True)
      (fun st' t h' htm => by
        apply (integrateTarget_fed hbad hd (ht t htm) (fun hb => hid hb t htm) (hc t htm) h').mono
        exact fun r hr => ⟨hr, trivial⟩)
      (fun _ htm => htm) hstart).bind
    rintro ⟨st', targets'⟩ ⟨hst, -⟩
    have hn := hst.ok.numRecords
    refine ⟨hn, hst.ok.metadata, _, rfl, GlobalSlots.congr ⟨hst.full, ?_⟩ hn⟩
    refine integrated_slicesOk (t := ds.currentTimeNumber) hg.slices hst.ok (Knows.refl _) fun u => ?_
    have hread := readAt_set hreach.startFor hlen st'.dest u
    refine hread.trans ?_
    split
    · rfl
    · exact hall u
  · rw [integrateAll, getTimeSlice_not hreach]
    exact hbad

end Llprof.Monitor.IntegrationSlots
