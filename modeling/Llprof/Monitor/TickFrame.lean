import Llprof.Monitor.SlicesKnown
import Llprof.Monitor.Ticks

namespace Llprof.Monitor.TickFrame

open Faulting hiding store
open Avoiding Lockstep TreeMaps Slots Nodes Store SlotLoops TreeShape FlushSpec Slices MergeSlices
  SliceFrame SliceContents SlicesKnown Ticks
open Profiler.CallTree (MethodNodeSerializedInfo)

variable {gl : Settings} {ds : DataStore} {ts ts' : ThreadStore}

structure Paired (ds : DataStore) (ts ts' : ThreadStore) : Prop where
  like : Like ts ts'
  start : ts'.startTimeNumber = ts.startTimeNumber
  reaches : Reaches ts ds.currentTimeNumber
  slices : ts.timeSlice ≠ []
  slices' : ts'.timeSlice ≠ []
  ok : SlicesOk ds ts

structure Reaching (ds : DataStore) (ts ts' : ThreadStore) : Prop where
  like : Like ts ts'
  reaches : Reaches ts ds.currentTimeNumber
  reaches' : Reaches ts' ds.currentTimeNumber

structure Cleared (ds : DataStore) (ts ts' : ThreadStore) : Prop extends Reaching ds ts ts' where
  blank : ∀ u, contentAt ts u = emptySlice

/-- Between ticks; `c` says that every tick clears the slices. -/
def AtRest (c : Bool) (ds : DataStore) (ts ts' : ThreadStore) : Prop :=
  if c then Cleared ds ts ts' else Paired ds ts ts'

def InTick (c : Bool) (ds : DataStore) (ts ts' : ThreadStore) : Prop :=
  if c then Reaching ds ts ts' else Paired ds ts ts'

theorem Paired.reaches_iff (h : Paired ds ts ts') (t : Int) : Reaches ts t ↔ Reaches ts' t := by
  rw [Reaches, Reaches, h.start]
  exact or_congr_left (iff_of_false h.slices h.slices')

theorem InTick.like {c : Bool} (h : InTick c ds ts ts') : Like ts ts' := by
  cases c with
  | false => exact (show Paired ds ts ts' from h).like
  | true => exact (show Reaching ds ts ts' from h).like

theorem InTick.reaches_iff {c : Bool} (h : InTick c ds ts ts') :
    Reaches ts ds.currentTimeNumber ↔ Reaches ts' ds.currentTimeNumber := by
  cases c with
  | false => exact (show Paired ds ts ts' from h).reaches_iff _
  | true =>
      have h : Reaching ds ts ts' := h
      exact iff_of_true h.reaches h.reaches'

theorem AtRest.like {c : Bool} (h : AtRest c ds ts ts') : Like ts ts' := by
  cases c with
  | false => exact (show Paired ds ts ts' from h).like
  | true => exact (show Cleared ds ts ts' from h).like

theorem AtRest.reaches' {c : Bool} (h : AtRest c ds ts ts') : Reaches ts' ds.currentTimeNumber := by
  cases c with
  | false =>
      have h : Paired ds ts ts' := h
      exact (h.reaches_iff _).mp h.reaches
  | true => exact (show Cleared ds ts ts' from h).reaches'

theorem AtRest.symm {c : Bool} (h : AtRest c ds ts ts') : AtRest c ds ts' ts := by
  have hlike := h.like
  cases c with
  | false =>
      have h : Paired ds ts ts' := h
      exact ⟨hlike.symm, h.start.symm, (h.reaches_iff _).mp h.reaches, h.slices', h.slices,
        SlicesOk.like h.ok hlike⟩
  | true =>
      have h : Cleared ds ts ts' := h
      exact ⟨⟨hlike.symm, h.reaches', h.reaches⟩, fun u => (hlike.content u).trans (h.blank u)⟩

theorem AtRest.slicesOk {c : Bool} (h : AtRest c ds ts ts') : SlicesOk ds ts := by
  cases c with
  | false => exact (show Paired ds ts ts' from h).ok
  | true =>
      have h : Cleared ds ts ts' := h
      apply slicesOk_iff.mpr
      intro u
      rw [h.blank u]
      exact ⟨fun k hk => absurd hk Std.TreeMap.not_mem_emptyc, sizedSlice_empty⟩

theorem slicesOk_congr {ds' : DataStore} (hn : ds'.numRecords = ds.numRecords) (h : SlicesOk ds ts) :
    SlicesOk ds' ts := by
  refine ⟨h.known, fun u k e he => ?_⟩
  rw [Entry.Sized, hn]
  exact h.sized u k e he

theorem AtRest.inTick {c : Bool} {ds' : DataStore} (hn : ds'.numRecords = ds.numRecords)
    (ht : ds.currentTimeNumber ≤ ds'.currentTimeNumber) (h : AtRest c ds ts ts') : InTick c ds' ts ts' := by
  cases c with
  | false =>
      have h : Paired ds ts ts' := h
      exact ⟨h.like, h.start, h.reaches.mono ht, h.slices, h.slices', slicesOk_congr hn h.ok⟩
  | true =>
      have h : Cleared ds ts ts' := h
      exact ⟨h.like, h.reaches.mono ht, h.reaches'.mono ht⟩

theorem opened_paired {a a' : ThreadStore} (hlike : Like a a') (h : Opened ds.currentTimeNumber ts a)
    (h' : Opened ds.currentTimeNumber ts' a')
    (hstart : ts'.startFor ds.currentTimeNumber = ts.startFor ds.currentTimeNumber)
    (hr : Reaches ts ds.currentTimeNumber) (hok : SlicesOk ds a) : Paired ds a a' := by
  refine ⟨hlike, by rw [h.start, h'.start, hstart], Or.inr ?_, h.slices, h'.slices, hok⟩
  rw [h.start]
  exact hr.startFor

theorem opened_reaching {a a' : ThreadStore} (hlike : Like a a') (h : Opened ds.currentTimeNumber ts a)
    (h' : Opened ds.currentTimeNumber ts' a') (hr : Reaches ts ds.currentTimeNumber)
    (hr' : Reaches ts' ds.currentTimeNumber) : Reaching ds a a' := by
  refine ⟨hlike, Or.inr ?_, Or.inr ?_⟩
  · rw [h.start]
    exact hr.startFor
  · rw [h'.start]
    exact hr'.startFor

theorem Paired.startFor (h : Paired ds ts ts') (t : Int) : ts'.startFor t = ts.startFor t := by
  rw [startFor_of_ne_nil h.slices', startFor_of_ne_nil h.slices, h.start]

theorem store_inTick {c : Bool} (h : InTick c ds ts ts')
    (batch : List MethodNodeSerializedInfo) (now : NowInfo) :
    Related (InTick c ds) (store gl ds ts batch now) (store gl ds ts' batch now) := by
  have hstore := @store_like gl ds ts ts' h.like h.reaches_iff batch now
  cases c with
  | false =>
      have h : Paired ds ts ts' := h
      apply (hstore.and_left (store_slicesOk h.ok batch now)).mono
      rintro a a' ⟨⟨hlike, ho, ho'⟩, hok⟩
      exact opened_paired hlike ho ho' (h.startFor _) h.reaches hok
  | true =>
      have h : Reaching ds ts ts' := h
      apply hstore.mono
      rintro a a' ⟨hlike, ho, ho'⟩
      exact opened_reaching hlike ho ho' h.reaches h.reaches'

theorem newThreadStore_slices (gl : Settings) (ds : DataStore) (id : ThreadID) :
    (newThreadStore gl ds id).timeSlice = [] := by
  unfold newThreadStore
  dsimp only
  split
  · rfl
  · rfl

theorem store_new {c : Bool} (id : ThreadID) (batch : List MethodNodeSerializedInfo) (now : NowInfo) :
    Related (InTick c ds) (store gl ds (newThreadStore gl ds id) batch now)
      (store gl ds (newThreadStore gl ds id) batch now) := by
  have hnil := newThreadStore_slices gl ds id
  apply ((store_like (Like.refl _) Iff.rfl batch now).and_left (store_slicesOk (slicesOk_nil hnil) batch now)).mono
  rintro a a' ⟨⟨hlike, ho, ho'⟩, hok⟩
  cases c with
  | false => exact opened_paired hlike ho ho' rfl (Or.inl hnil) hok
  | true => exact opened_reaching hlike ho ho' (Or.inl hnil) (Or.inl hnil)

def ThreadsLike (R : ThreadStore → ThreadStore → Prop) (threads threads' : Threads) : Prop :=
  List.Forall₂ (fun p q => q.1 = p.1 ∧ R p.2 q.2) threads threads'

theorem lookup_like {R : ThreadStore → ThreadStore → Prop} {threads threads' : Threads}
    (h : ThreadsLike R threads threads') (id : ThreadID) :
    (threads.lookup id = none ∧ threads'.lookup id = none) ∨
      ∃ a a', threads.lookup id = some a ∧ threads'.lookup id = some a' ∧ R a a' := by
  induction h with
  | nil => exact Or.inl ⟨rfl, rfl⟩
  | cons hpq _ ih =>
      rename_i p q _ _ _
      rw [List.lookup_cons, List.lookup_cons, hpq.1]
      cases id == p.1 with
      | true => exact Or.inr ⟨p.2, q.2, rfl, rfl, hpq.2⟩
      | false => exact ih

theorem putThread_like {R : ThreadStore → ThreadStore → Prop} {threads threads' : Threads}
    (h : ThreadsLike R threads threads') (id : ThreadID) {a a' : ThreadStore}
    (ha : R a a') : ThreadsLike R (putThread threads id a) (putThread threads' id a') := by
  induction h with
  | nil => exact List.Forall₂.cons ⟨rfl, ha⟩ List.Forall₂.nil
  | cons hpq hrest ih =>
      rename_i p q ps qs
      obtain ⟨k, t⟩ := p
      obtain ⟨k', t'⟩ := q
      obtain ⟨rfl, ht⟩ : k' = k ∧ R t t' := hpq
      rw [putThread, putThread]
      split
      · exact List.Forall₂.cons ⟨rfl, ha⟩ hrest
      · split
        · exact List.Forall₂.cons ⟨rfl, ha⟩ (List.Forall₂.cons ⟨rfl, ht⟩ hrest)
        · exact List.Forall₂.cons ⟨rfl, ht⟩ ih

theorem storeCall_like {c : Bool} {threads threads' : Threads}
    (h : ThreadsLike (InTick c ds) threads threads') (call : StoreCall) :
    Related (ThreadsLike (InTick c ds)) (storeCall gl ds threads call) (storeCall gl ds threads' call) := by
  have hstore : Related (InTick c ds) (store gl ds (threadOf gl ds threads call.thread) call.batch call.now)
      (store gl ds (threadOf gl ds threads' call.thread) call.batch call.now) := by
    rw [threadOf, threadOf]
    rcases lookup_like h call.thread with ⟨hnone, hnone'⟩ | ⟨a, a', ha, ha', haa⟩
    · rw [hnone, hnone']
      exact store_new call.thread call.batch call.now
    · rw [ha, ha']
      exact store_inTick haa call.batch call.now
  apply hstore.bind
  intro a a' haa
  exact putThread_like h call.thread haa

/-- The same data store, with threads that are related. A target that has reported no
metadata yet has no threads. -/
structure TargetLike (R : DataStore → ThreadStore → ThreadStore → Prop) (t t' : TargetStore) : Prop where
  ds : t'.ds = t.ds
  firstReceived : t'.firstReceived = t.firstReceived
  threads : ThreadsLike (R t.ds) t.threads t'.threads
  described : Described t.ds
  fresh : t.firstReceived = false → t.threads = []

theorem ThreadsLike.mono {R S : ThreadStore → ThreadStore → Prop} {threads threads' : Threads}
    (h : ThreadsLike R threads threads') (hRS : ∀ a a', R a a' → S a a') : ThreadsLike S threads threads' :=
  List.Forall₂.imp (fun _ _ hpq => ⟨hpq.1, hRS _ _ hpq.2⟩) h

theorem exchanged_like {c : Bool} {t t' : TargetStore} (h : TargetLike (AtRest c) t t')
    (metadata : List RecordMetadata) :
    TargetLike (AtRest c) (exchanged t metadata) (exchanged t' metadata) ∧
      (exchanged t metadata).firstReceived = true := by
  rw [exchanged, exchanged, h.firstReceived]
  cases hf : t.firstReceived with
  | true => exact ⟨h, hf⟩
  | false =>
      have hnil := h.fresh hf
      have hnil' : t'.threads = [] := by
        have hthreads := h.threads
        rw [hnil] at hthreads
        exact List.forall₂_nil_left_iff.mp hthreads
      refine ⟨⟨?_, rfl, ?_, rfl, fun h => ?_⟩, rfl⟩
      · simp only [h.ds, Bool.false_eq_true, if_false]
      · simp only [hnil, hnil', Bool.false_eq_true, if_false]
        exact List.Forall₂.nil
      · cases h

theorem receiveLoop_like {c : Bool} {t t' : TargetStore} (h : TargetLike (AtRest c) t t') (r : Reception) :
    Related (TargetLike (InTick c)) (receiveLoop gl t r) (receiveLoop gl t' r) := by
  cases r with
  | silent => exact ⟨h.ds, h.firstReceived, h.threads.mono fun a a' =>
    AtRest.inTick rfl (le_refl _), h.described, h.fresh⟩
  | drained metadata names calls =>
      obtain ⟨h, hfirst⟩ := exchanged_like h metadata
      rw [receiveLoop, receiveLoop]
      generalize exchanged t metadata = u at h hfirst
      generalize exchanged t' metadata = u' at h
      rw [h.ds]
      have hstart : ThreadsLike (InTick c (advanced u.ds names)) u.threads u'.threads :=
        h.threads.mono fun a a' => AtRest.inTick rfl (by simp [advanced])
      apply (related_foldlM (fun s t call hst => storeCall_like hst call) calls hstart).bind
      intro threads threads' hthreads
      refine ⟨rfl, h.firstReceived, hthreads, h.described, fun hf => ?_⟩
      rw [hfirst] at hf
      cases hf

theorem receiveAll_like {c : Bool} {targets targets' : List TargetStore}
    (h : List.Forall₂ (TargetLike (AtRest c)) targets targets') (receptions : List Reception) :
    Related (List.Forall₂ (TargetLike (InTick c))) (receiveAll gl targets receptions)
      (receiveAll gl targets' receptions) := by
  have hrest {t t' : TargetStore} (ht : TargetLike (AtRest c) t t') : TargetLike (InTick c) t t' :=
    ⟨ht.ds, ht.firstReceived, ht.threads.mono fun a a' =>
      AtRest.inTick rfl (le_refl _), ht.described, ht.fresh⟩
  induction h generalizing receptions with
  | nil => exact List.Forall₂.nil
  | cons ht hts ih =>
      cases receptions with
      | nil => exact List.Forall₂.cons (hrest ht) (List.Forall₂.imp (fun _ _ => hrest) hts)
      | cons r rs =>
          rw [receiveAll, receiveAll]
          apply (receiveLoop_like ht r).bind
          intro a a' ha
          apply (ih rs).bind
          intro as as' has
          exact List.Forall₂.cons ha has

theorem cleared_of_nil (hrest : ts' = withSlices ts'.startTimeNumber ts'.timeSlice ts) (h : ts.timeSlice = [])
    (h' : ts'.timeSlice = []) : Cleared ds ts ts' :=
  ⟨⟨⟨hrest, fun u => by rw [contentAt_nil h, contentAt_nil h']⟩, Or.inl h, Or.inl h'⟩, contentAt_nil h⟩

theorem copyNowValues_content (st : Integrating) {tss tss' : TimeSliceStore}
    (h : content tss' = content tss) : copyNowValues st tss' = copyNowValues st tss := by
  have hinj := TimeSliceStore.mk.inj h
  rw [copyNowValues, copyNowValues, hinj.2.2.1, hinj.2.2.2]

theorem integrateThread_like (hmode : gl.singleTreeMode = true)
    {p q : ThreadID × ThreadStore} (hid : q.1 = p.1) (h : Like p.2 q.2)
    (hr : Reaches p.2 ds.currentTimeNumber ↔ Reaches q.2 ds.currentTimeNumber) (st : Integrating) :
    Related (fun r r' => r.1 = r'.1 ∧ r'.2.1 = r.2.1 ∧ Cleared ds r.2.2 r'.2.2) (integrateThread gl ds st p)
      (integrateThread gl ds st q) := by
  by_cases hreach : Reaches p.2 ds.currentTimeNumber
  · obtain ⟨slices, tss, hget, htss, hcontent, -, -, -⟩ := getTimeSlice_reaches hreach
    obtain ⟨slices', tss', hget', htss', hcontent', -, -, -⟩ := getTimeSlice_reaches (hr.mp hreach)
    have hsame : content tss' = content tss := by rw [hcontent, hcontent', h.content]
    have htree : tss'.tree = tss.tree := (TimeSliceStore.mk.inj hsame).2.1
    have hcur : (withSlices (q.2.startFor ds.currentTimeNumber) slices' q.2).currentTree =
        (withSlices (p.2.startFor ds.currentTimeNumber) slices p.2).currentTree := h.currentTree
    rw [integrateThread, integrateThread, hget, hget']
    dsimp only
    rw [fetch_eq_ok.mpr (show (withSlices _ slices p.2).timeSlice[_]? = some tss from htss),
      fetch_eq_ok.mpr (show (withSlices _ slices' q.2).timeSlice[_]? = some tss' from htss'),
      ok_bind, ok_bind, htree, hcur,
      copyNowValues_content st hsame]
    apply related_same_bind
    intro st' _
    rw [hmode]
    refine ⟨rfl, hid, cleared_of_nil ?_ rfl rfl⟩
    dsimp only
    rw [if_pos rfl, if_pos rfl, h.rest]
    rfl
  · rw [integrateThread, integrateThread, getTimeSlice_not hreach,
      getTimeSlice_not (fun h' => hreach (hr.mpr h'))]
    rfl

theorem integrateTarget_like (hmode : gl.singleTreeMode = true) {c : Bool} {t t' : TargetStore}
    (h : TargetLike (InTick c) t t') (st : Integrating) :
    Related (fun r r' => r.1 = r'.1 ∧ TargetLike (AtRest true) r.2 r'.2) (integrateTarget gl st t)
      (integrateTarget gl st t') := by
  have hsweep : Related (fun r r' => r.1 = r'.1 ∧ ThreadsLike (Cleared t.ds) r.2 r'.2)
      (sweep (integrateThread gl t.ds) t.threads st) (sweep (integrateThread gl t.ds) t'.threads st) := by
    refine related_sweep ?_ h.threads rfl
    rintro s s' p q rfl ⟨hid, hpq⟩
    exact integrateThread_like hmode hid hpq.like hpq.reaches_iff s
  rw [integrateTarget, integrateTarget, h.ds]
  apply hsweep.bind_ok
  rintro ⟨s, threads⟩ ⟨s', threads'⟩ hrun - ⟨hs, hthreads⟩
  refine ⟨hs, rfl, h.firstReceived, hthreads, h.described, fun hf => ?_⟩
  rw [h.fresh hf, sweep, Except.ok.injEq, Prod.mk.injEq] at hrun
  exact hrun.2.symm

/-- Integrating puts into the global slice nothing but full nodes of the global tree. -/
structure IntegratingOk (ds : DataStore) (tree : Tree) (st : Integrating) : Prop where
  numRecords : st.ds.numRecords = ds.numRecords
  metadata : st.ds.recordMetadata = ds.recordMetadata
  time : st.ds.currentTimeNumber = ds.currentTimeNumber
  tree : Knows tree st.g.ts.currentTree
  known : ∀ k ∈ st.dest.tree, k ∈ st.g.ts.currentTree
  sized : SizedSlice ds st.dest.tree

theorem gnidToSeq_ts (g : GlobalThreadStore) (gnid : NodeID) : (g.gnidToSeq gnid).1.ts = g.ts := by
  unfold GlobalThreadStore.gnidToSeq
  split
  · rfl
  · split
    · rfl
    · rfl

theorem parentSeq_ts (srcTree : Tree) (g : GlobalThreadStore) (n : RecordNode) :
    (parentSeq srcTree g n).1.ts = g.ts := by
  unfold parentSeq
  split
  · exact gnidToSeq_ts g _
  · rfl

theorem setGNID_knows {tree : Tree} (h : Knows tree ts.currentTree) (id gnid : NodeID) :
    Knows tree (setGNID ts id gnid).currentTree := by
  unfold setGNID
  split
  · exact h
  · exact h.insert _ _

theorem destNode_ok {tree : Tree} {st : Integrating} (h : IntegratingOk ds tree st)
    (srcDs : DataStore) (srcTree : Tree) (n : RecordNode) :
    IntegratingOk ds tree (destNode gl srcDs srcTree st n).1 := by
  have hseq := gnidToSeq_ts st.g n.gnid
  unfold destNode
  dsimp only
  split
  · exact ⟨h.numRecords, h.metadata, h.time, by rw [hseq]; exact h.tree, by rw [hseq]; exact h.known, h.sized⟩
  · have hpar := (parentSeq_ts srcTree (st.g.gnidToSeq n.gnid).1 n).trans hseq
    have hknows : Knows st.g.ts.currentTree (setGNID ((parentSeq srcTree (st.g.gnidToSeq n.gnid).1 n).1.ts.addCurrentNode gl
        st.ds (st.g.gnidToSeq n.gnid).2 (parentSeq srcTree (st.g.gnidToSeq n.gnid).1 n).2
          (st.g.gnidToSeq n.gnid).2 false)
        (st.g.gnidToSeq n.gnid).2 n.gnid).currentTree := by
      apply setGNID_knows
      rw [hpar]
      exact (Knows.refl _).insert _ _
    exact ⟨h.numRecords, h.metadata, h.time, h.tree.trans hknows, fun k hk =>
      hknows k (h.known k hk), h.sized⟩

theorem integrateValues_sized {srcDs : DataStore} {dest : RecordNodeBasic}
    (h : (entryOf dest).Sized ds) (src : RecordNodeBasic)
    (cur : RecordNode) : Avoids never (fun st => (entryOf st.1).Sized ds)
    (integrateValues srcDs src dest cur) := by
  refine avoids_forRange _ (fun st i hst => ?_) h
  refine (avoids_any _).bind fun md _ => ?_
  split
  · exact hst
  · refine (avoids_any _).bind fun all _ => ?_
    refine (avoids_any _).bind fun children _ => ?_
    refine (avoids_updateAt_length id _ _ _).bind fun destAll hall => ?_
    refine (avoids_updateAt_length id _ _ _).bind fun destChildren hchildren => ?_
    refine (avoids_any _).bind fun currentAll _ => ?_
    exact (avoids_any _).bind fun currentChildren _ => ⟨hall.trans hst.1, hchildren.trans hst.2⟩

theorem integrateNode_ok {tree : Tree} {st : Integrating} (h : IntegratingOk ds tree st)
    (srcDs : DataStore) (srcTree : Tree) (it : NodeID × RecordNodeBasic) :
    Avoids never (IntegratingOk ds tree) (integrateNode gl srcDs srcTree st it) := by
  rw [integrateNode]
  split
  next => exact fun h => h
  next n _ =>
    have hdest := @destNode_ok gl _ _ _ h srcDs srcTree n
    generalize destNode gl srcDs srcTree st n = r at hdest
    obtain ⟨st₁, id⟩ := r
    dsimp only at hdest ⊢
    split
    next => exact fun h => h
    next cur hcur =>
      have hnode : (entryOf (sliceNode gl st₁.ds st₁.dest.tree id)).Sized ds := by
        have hsized : SizedSlice st₁.ds st₁.dest.tree := by
          intro k e he
          rw [Entry.Sized, hdest.numRecords]
          exact hdest.sized k e he
        have := @sliceNode_sized gl _ _ hsized id
        rwa [Entry.Sized, hdest.numRecords] at this
      refine (integrateValues_sized hnode it.2 cur).bind fun r hr => ?_
      refine ⟨hdest.numRecords, hdest.metadata, hdest.time, hdest.tree.insert _ _,
        fun k hk => ?_, fun k e he => ?_⟩
      · rcases Std.TreeMap.mem_insert.mp hk with hkj | hk
        · exact Std.TreeMap.mem_insert.mpr (Or.inl hkj)
        · exact Std.TreeMap.mem_insert.mpr (Or.inr (hdest.known k hk))
      · rw [getElem?_insert] at he
        split at he
        · cases he
          exact hr
        · exact hdest.sized k e he

theorem integrateThread_ok {tree : Tree} {st : Integrating} (h : IntegratingOk ds tree st) (srcDs : DataStore)
    (src : ThreadID × ThreadStore) :
    Avoids never (fun r => IntegratingOk ds tree r.1) (integrateThread gl srcDs st src) := by
  rw [integrateThread]
  split
  next => exact fun h => h
  next ts i _ =>
    refine (avoids_any _).bind fun tss _ => ?_
    have hcopy : IntegratingOk ds tree (copyNowValues st tss) := by
      unfold copyNowValues
      split
      · exact h
      · exact ⟨h.numRecords, h.metadata, h.time, h.tree, h.known, h.sized⟩
    refine (avoids_foldlM (fun _ => IntegratingOk ds tree) _ (fun _ it _ st' _ h' => integrateNode_ok h' srcDs _ it)
      hcopy).bind fun st' h' => h'

theorem integrateTarget_ok {tree : Tree} {st : Integrating} (h : IntegratingOk ds tree st) (t : TargetStore) :
    Avoids never (fun r => IntegratingOk ds tree r.1) (integrateTarget gl st t) := by
  rw [integrateTarget]
  refine Avoids.bind (avoids_sweep (fun st' src (h' : IntegratingOk ds tree st') =>
      integrateThread_ok h' t.ds src) t.threads h) ?_
  exact fun r hr => hr

structure GlobalLike (g g' : GlobalDataStore) : Prop where
  ds : g'.ds = g.ds
  described : Described g.ds
  thread : (g.thread = none ∧ g'.thread = none) ∨
    ∃ a ts', g.thread = some a ∧ g'.thread = some { a with ts := ts' } ∧ Paired g.ds a.ts ts'

theorem integrated_slicesOk {st : Integrating} {t : Int} (hok : SlicesOk ds ts)
    (hst : IntegratingOk ds ts.currentTree st) (hts : Knows st.g.ts.currentTree ts'.currentTree)
    (h : ∀ u, contentAt ts' u = if u = t then content st.dest else contentAt ts u) : SlicesOk ds ts' := by
  rw [slicesOk_iff] at hok ⊢
  intro u
  rw [h u]
  split
  · exact ⟨fun k hk => hts k (hst.known k hk), hst.sized⟩
  · exact ⟨fun k hk => hts k (hst.tree k ((hok u).1 k hk)), (hok u).2⟩

theorem integrateAll_like (hmode : gl.singleTreeMode = true) {c : Bool}
    (hd : Described ds) (g : GlobalThreadStore) (h : Like g.ts ts')
    (hfor : ts'.startFor ds.currentTimeNumber = g.ts.startFor ds.currentTimeNumber)
    (hr : Reaches g.ts ds.currentTimeNumber ↔ Reaches ts' ds.currentTimeNumber) (hok : SlicesOk ds g.ts)
    {targets targets' : List TargetStore} (ht : List.Forall₂ (TargetLike (InTick c)) targets targets') :
    Related (fun r r' => GlobalLike r.1 r'.1 ∧ r.1.ds.numRecords = ds.numRecords ∧
        List.Forall₂ (TargetLike (AtRest true)) r.2 r'.2)
      (integrateAll gl ds g targets) (integrateAll gl ds { g with ts := ts' } targets') := by
  by_cases hreach : Reaches g.ts ds.currentTimeNumber
  · obtain ⟨slices, tss, hget, htss, hcontent, hall, -, htime⟩ := getTimeSlice_reaches hreach
    obtain ⟨slices', tss', hget', htss', hcontent', hall', -, htime'⟩ := getTimeSlice_reaches (hr.mp hreach)
    have hsame : content tss' = content tss := by rw [hcontent, hcontent', h.content]
    obtain rfl : tss' = tss := eq_of_content hsame (htime'.trans htime.symm)
    have haside :
        ({ withSlices (ts'.startFor ds.currentTimeNumber) slices' ts' with
          startTimeNumber := 0, timeSlice := [] } : ThreadStore) =
        { withSlices (g.ts.startFor ds.currentTimeNumber) slices g.ts with
          startTimeNumber := 0, timeSlice := [] } := by
      rw [h.rest]
      rfl
    have hstart : IntegratingOk ds g.ts.currentTree
      ⟨ds, { g with ts := { withSlices (g.ts.startFor ds.currentTimeNumber)
        slices g.ts with startTimeNumber := 0, timeSlice := [] } }, tss', false⟩ := by
      have hnow := slicesOk_iff.mp hok ds.currentTimeNumber
      rw [← hcontent] at hnow
      exact ⟨rfl, rfl, rfl, Knows.refl _, hnow.1, hnow.2⟩
    have hsweep := (related_sweep (f := integrateTarget gl) (g := integrateTarget gl) (R := Eq)
      (fun s s' t t' hs htt => by subst hs; exact integrateTarget_like hmode htt s) ht rfl).and_left
      (avoids_sweep (fun st t (h' : IntegratingOk ds g.ts.currentTree st) => integrateTarget_ok h' t) targets hstart)
    rw [integrateAll, integrateAll]
    dsimp only
    rw [hget, hget']
    dsimp only
    rw [fetch_eq_ok.mpr (show (withSlices _ slices g.ts).timeSlice[_]? = some tss' from htss),
      fetch_eq_ok.mpr (show (withSlices _ slices' ts').timeSlice[_]? = some tss' from htss'),
      ok_bind, ok_bind, haside]
    apply hsweep.bind
    rintro ⟨st, us⟩ ⟨st', us'⟩ ⟨⟨hst, hus⟩, hstok⟩
    obtain rfl : st = st' := hst
    have hlen := (List.getElem?_eq_some_iff.mp htss).1
    have hlen' := (List.getElem?_eq_some_iff.mp htss').1
    have hread (u : Int) := readAt_set hreach.startFor hlen st.dest u
    have hread' (u : Int) := readAt_set (hr.mp hreach).startFor hlen' st.dest u
    refine ⟨⟨rfl, ?_, Or.inr ⟨_, _, rfl, rfl, ⟨⟨rfl, fun u => ?_⟩, hfor, Or.inr ?_, ?_, ?_, ?_⟩⟩⟩,
      hstok.numRecords, hus⟩
    · rw [Described, hstok.metadata, hstok.numRecords]
      exact hd
    · refine (hread' u).trans (Eq.trans ?_ (hread u).symm)
      split
      · rfl
      · exact (hall' u).trans ((h.content u).trans (hall u).symm)
    · rw [hstok.time]
      exact hreach.startFor
    · exact set_ne_nil htss _
    · exact set_ne_nil htss' _
    · exact slicesOk_congr hstok.numRecords (integrated_slicesOk hok hstok (Knows.refl _)
        fun u => (hread u).trans (if_congr Iff.rfl rfl (hall u)))
  · rw [integrateAll, integrateAll, getTimeSlice_not hreach, getTimeSlice_not (fun h' => hreach (hr.mpr h'))]
    rfl

theorem find_like {R : DataStore → ThreadStore → ThreadStore → Prop} {targets targets' : List TargetStore}
    (h : List.Forall₂ (TargetLike R) targets targets') :
    (targets'.find? (fun t => t.ds.numRecords ≠ 0)).map (fun t => t.ds) =
      (targets.find? (fun t => t.ds.numRecords ≠ 0)).map (fun t => t.ds) := by
  induction h with
  | nil => rfl
  | cons ht _ ih =>
      rename_i t t' _ _
      rw [List.find?_cons, List.find?_cons, ht.ds]
      split
      · rw [Option.map_some, Option.map_some, ht.ds]
      · exact ih

structure Startable (g g' : GlobalDataStore) : Prop where
  ds : g'.ds = g.ds
  described : Described g.ds
  thread : (g.thread = none ∧ g'.thread = none) ∨
    ∃ a ts', g.thread = some a ∧ g'.thread = some { a with ts := ts' } ∧ Like a.ts ts' ∧
      (∀ t, ts'.startFor t = a.ts.startFor t) ∧ (∀ t, Reaches a.ts t ↔ Reaches ts' t) ∧ SlicesOk g.ds a.ts

theorem GlobalLike.startable {g g' : GlobalDataStore} (h : GlobalLike g g') : Startable g g' := by
  refine ⟨h.ds, h.described, ?_⟩
  rcases h.thread with hnone | ⟨a, ts', ha, ha', hpair⟩
  · exact Or.inl hnone
  · exact Or.inr ⟨a, ts', ha, ha', hpair.like, hpair.startFor, hpair.reaches_iff, hpair.ok⟩

theorem all_described {R : DataStore → ThreadStore → ThreadStore → Prop} {targets targets' : List TargetStore}
    (h : List.Forall₂ (TargetLike R) targets targets') : ∀ t ∈ targets, Described t.ds := by
  induction h with
  | nil => exact fun t ht => nomatch ht
  | cons ht _ ih => exact List.forall_mem_cons.mpr ⟨ht.described, ih⟩

theorem described_like {R : DataStore → ThreadStore → ThreadStore → Prop}
    {g g' : GlobalDataStore} (h : GlobalLike g g') {targets targets' : List TargetStore}
    (ht : List.Forall₂ (TargetLike R) targets targets') :
    Startable (described gl g targets) (described gl g' targets') ∧
      ((described gl g targets).ds.numRecords = 0 →
        GlobalLike (described gl g targets) (described gl g' targets') ∧ g.ds.numRecords = 0) := by
  rw [described, described, h.ds]
  by_cases hzero : g.ds.numRecords = 0
  · rw [if_pos hzero, if_pos hzero]
    have hfind := find_like ht
    cases hf : targets.find? (fun t => t.ds.numRecords ≠ 0) with
    | none =>
        rw [hf, Option.map_none, Option.map_eq_none_iff] at hfind
        rw [hfind]
        exact ⟨h.startable, fun _ => ⟨h, hzero⟩⟩
    | some t =>
        rw [hf, Option.map_some, Option.map_eq_some_iff] at hfind
        obtain ⟨t', hf', hds⟩ := hfind
        have hsome : t.ds.numRecords ≠ 0 := by simpa using List.find?_some hf
        have hdesc := all_described ht t (List.mem_of_find?_eq_some hf)
        rw [hf']
        dsimp only
        rw [hds]
        refine ⟨⟨rfl, hdesc, Or.inr ⟨_, _, rfl, rfl, Like.refl _, fun _ => rfl, fun _ => Iff.rfl, ?_⟩⟩,
          fun h0 => absurd h0 hsome⟩
        exact slicesOk_nil (newThreadStore_slices gl _ 0)
  · rw [if_neg hzero, if_neg hzero]
    exact ⟨h.startable, fun h0 => absurd h0 hzero⟩

theorem integrate_like (hmode : gl.singleTreeMode = true) {g g' : GlobalDataStore} (h : GlobalLike g g')
    {targets targets' : List TargetStore}
    (ht : List.Forall₂ (TargetLike (InTick (decide (g.ds.numRecords ≠ 0)))) targets targets') :
    Related (fun r r' => GlobalLike r.1 r'.1 ∧
        List.Forall₂ (TargetLike (AtRest (decide (r.1.ds.numRecords ≠ 0)))) r.2 r'.2)
      (integrate gl g targets) (integrate gl g' targets') := by
  obtain ⟨hstart, hnone⟩ := @described_like gl _ _ _ h _ _ ht
  rw [integrate, integrate]
  generalize described gl g targets = u at hstart hnone
  generalize described gl g' targets' = u' at hstart hnone
  dsimp only
  rw [hstart.ds]
  by_cases hzero : u.ds.numRecords = 0
  · rw [if_pos hzero, if_pos hzero]
    obtain ⟨hu, hg⟩ := hnone hzero
    rw [hg] at ht
    refine ⟨hu, ?_⟩
    dsimp only
    rw [hzero]
    exact ht
  · rw [if_neg hzero, if_neg hzero]
    rcases hstart.thread with ⟨hn, hn'⟩ | ⟨a, ts', ha, ha', hlike, hfor, hreach, hok⟩
    · rw [hn, hn']
      rfl
    · rw [ha, ha']
      dsimp only
      generalize hnext : ({ u.ds with currentTimeNumber := u.ds.currentTimeNumber + 1 } : DataStore) = next
      have hdesc : Described next := hnext ▸ hstart.described
      have hnum : next.numRecords = u.ds.numRecords := hnext ▸ rfl
      apply (integrateAll_like hmode hdesc a hlike (hfor _) (hreach _) (slicesOk_congr hnum hok) ht).mono
      rintro r r' ⟨hr, hnum', hts⟩
      refine ⟨hr, ?_⟩
      rw [hnum', hnum, decide_eq_true hzero]
      exact hts

def clears (gl : Settings) (m : AllDataStore) : Bool :=
  gl.singleTreeMode && decide (m.global.ds.numRecords ≠ 0)

structure StoresLike (gl : Settings) (m m' : AllDataStore) : Prop where
  global : GlobalLike m.global m'.global
  targets : List.Forall₂ (TargetLike (AtRest (clears gl m))) m.targets m'.targets

theorem tick_like {m m' : AllDataStore} (h : StoresLike gl m m') (receptions : List Reception) :
    Related (StoresLike gl) (tick gl m receptions) (tick gl m' receptions) := by
  rw [tick, tick]
  apply (receiveAll_like h.targets receptions).bind
  intro targets targets' ht
  cases hmode : gl.singleTreeMode with
  | false =>
      rw [clears, hmode, Bool.false_and] at ht
      refine ⟨h.global, ?_⟩
      rw [clears, hmode, Bool.false_and]
      exact ht
  | true =>
      rw [clears, hmode, Bool.true_and] at ht
      apply (integrate_like hmode h.global ht).bind
      rintro ⟨g, us⟩ ⟨g', us'⟩ ⟨hg, hus⟩
      refine ⟨hg, ?_⟩
      rw [clears, hmode, Bool.true_and]
      exact hus

end Llprof.Monitor.TickFrame
