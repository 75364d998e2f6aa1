import Llprof.Monitor.IntegrationSlots
import Llprof.Monitor.OperationFrame
import Llprof.Monitor.Runs

namespace Llprof.Monitor.MixedStores

open Faulting hiding store
open Avoiding Lockstep TreeMaps Nodes Store SlotLoops MergeSlices SliceFrame SliceContents
  SlicesKnown Ticks Runs TickFrame FlushRule StoreRule IntegrationSlots Operations OperationFrame

variable {gl : Settings} {s s' : Stores} {t t' : TargetStore}

def slotsOf (s : Stores) : List RecordMetadata :=
  if s.global.ds.numRecords = 0 then ((firstDescribed s).map fun t => t.1.ds.recordMetadata).getD []
  else s.global.ds.recordMetadata

/-- A data store whose exchange is not complete is not the first that seems to have
slots, and every one that has nodes to add reports the records that were taken,
where these are added. -/
structure StoresFit (s : Stores) : Prop where
  exchanged : s.global.ds.numRecords = 0 → ∀ t, firstDescribed s = some t → t.1.firstReceived = true
  same : ∀ t ∈ s.targets, Contributes t → ∀ (i : Nat) (md : RecordMetadata), (slotsOf s)[i]? = some md →
    md.staticValueFlag = false → t.ds.recordMetadata[i]? = some md

structure StoresCovered (s : Stores) : Prop where
  exchanged : s.global.ds.numRecords = 0 → ∀ t ∈ firstDescribed s, t.1.firstReceived = true
  slots : ∀ t ∈ s.targets, Contributes t → ∀ md ∈ (slotsOf s).zipIdx, md.1.staticValueFlag = false →
    md.2 < t.ds.numRecords

instance (t : TargetStore) : Decidable (Contributes t) :=
  decidable_of_iff (∃ p ∈ t.threads, ∃ k ∈ (contentAt p.2 t.ds.currentTimeNumber).tree.keys, True)
    (by simp [Contributes, Std.TreeMap.mem_keys])

instance (s : Stores) : Decidable (StoresCovered s) :=
  decidable_of_iff (_ ∧ _) ⟨fun h => ⟨h.1, h.2⟩, fun h => ⟨h.exchanged, h.slots⟩⟩

def outside (e : Fault) : Prop := e = .outOfRange ∨ e = .lengthError

instance : DecidablePred outside := fun e => inferInstanceAs (Decidable (e = .outOfRange ∨ e = .lengthError))

def addedSlots (ds : DataStore) : List (RecordMetadata × Nat) :=
  ds.recordMetadata.zipIdx.filter fun md => !md.1.staticValueFlag

def addSlot (src : RecordNodeBasic) (st : RecordNodeBasic × RecordNode) (md : RecordMetadata × Nat) :
    Run (RecordNodeBasic × RecordNode) := do
  let all ← fetch src.allValues md.2
  let children ← fetch src.childrenValues md.2
  let destAll ← updateAt st.1.allValues md.2 (· + all)
  let destChildren ← updateAt st.1.childrenValues md.2 (· + children)
  let currentAll ← updateAt st.2.allValues md.2 (· + all)
  let currentChildren ← updateAt st.2.childrenValues md.2 (· + children)
  return ({ st.1 with allValues := destAll, childrenValues := destChildren },
    { st.2 with allValues := currentAll, childrenValues := currentChildren })

theorem integrateValues_addedSlots {ds : DataStore} (hd : Described ds)
    (src dest : RecordNodeBasic) (cur : RecordNode) :
    integrateValues ds src dest cur = (addedSlots ds).foldlM (addSlot src) (dest, cur) := by
  have hrange : List.range ds.numRecords = ds.recordMetadata.zipIdx.map Prod.snd := by
    rw [← hd, List.zipIdx_map_snd, List.range_eq_range']
  have hslots : ∀ md ∈ ds.recordMetadata.zipIdx, ds.recordMetadata[md.2]? = some md.1 :=
    fun md hmd => List.mem_zipIdx_iff_getElem?.mp hmd
  rw [integrateValues, forRange, hrange, List.foldlM_map, addedSlots, List.foldlM_filter]
  generalize (dest, cur) = st
  generalize ds.recordMetadata.zipIdx = mds at hslots
  induction mds generalizing st with
  | nil => rfl
  | cons md mds ih =>
      rw [List.forall_mem_cons] at hslots
      rw [List.foldlM_cons, List.foldlM_cons, fetch_eq_ok.mpr hslots.1, ok_bind]
      cases md.1.staticValueFlag with
      | true => exact ih st hslots.2
      | false => exact bind_congr fun st' => ih st' hslots.2

/-- The additions of a turn: for every node of a current slice and every slot that is
not static, the record of the slot that is read and that of the slot it is added to. -/
def additions (ds : DataStore) (s : Stores) : List (Option RecordMetadata × RecordMetadata) :=
  s.targets.flatMap fun t => t.threads.flatMap fun p =>
    (contentAt p.2 t.ds.currentTimeNumber).tree.toList.flatMap fun _ =>
    (addedSlots ds).map fun md => (t.ds.recordMetadata[md.2]?, md.1)

/-- What `Integrate` is to keep: the number of the records, no access to a slot that is
not there, and additions of the same record only. -/
structure IntegratesSafely (gl : Settings) (s : Stores) : Prop where
  counted : ∀ global, describe gl s = .ok global → global.ds.numRecords = global.ds.recordMetadata.length
  result : Avoids outside (fun s' => s'.global.ds.numRecords = s'.global.ds.recordMetadata.length)
    (integrateStores gl s)
  same : ∀ global, describe gl s = .ok global → ∀ a ∈ additions global.ds s, a.1 = some a.2

theorem mem_additions {ds : DataStore} {s : Stores} {a : Option RecordMetadata × RecordMetadata} :
    a ∈ additions ds s ↔
    ∃ t ∈ s.targets, Contributes t ∧ ∃ (i : Nat) (md : RecordMetadata), ds.recordMetadata[i]? = some md ∧
      md.staticValueFlag = false ∧ a = (t.ds.recordMetadata[i]?, md) := by
  simp only [additions, addedSlots, List.mem_flatMap, List.mem_map, List.mem_filter,
    List.mem_zipIdx_iff_getElem?, Bool.not_eq_true']
  constructor
  · rintro ⟨t, ht, p, hp, it, hit, md, ⟨hmd, hstatic⟩, rfl⟩
    have hk := Std.TreeMap.mem_toList_iff_getElem?_eq_some.mp hit
    exact ⟨t, ht, ⟨p, hp, it.1, mem_iff_some.mpr ⟨_, hk⟩⟩, md.2, md.1, hmd, hstatic, rfl⟩
  · rintro ⟨t, ht, ⟨p, hp, k, hk⟩, i, md, hmd, hstatic, rfl⟩
    obtain ⟨e, he⟩ := mem_iff_some.mp hk
    exact ⟨t, ht, p, hp, (k, e), Std.TreeMap.mem_toList_iff_getElem?_eq_some.mpr he,
      (md, i), ⟨hmd, hstatic⟩, rfl⟩

/-- The thread stores of a target know its slots; before the exchange there are none. -/
structure TargetSlots (t : TargetStore) : Prop where
  described : Described t.ds
  slices : ∀ p ∈ t.threads, SlicesOk t.ds p.2
  fresh : t.firstReceived = false → t.threads = [] ∧ t.ds.recordMetadata = []

structure StoresSlots (s : Stores) : Prop where
  targets : ∀ t ∈ s.targets, TargetSlots t
  described : Described s.global.ds
  global : ∀ g, s.global.thread = some g → GlobalSlots s.global.ds g.ts

theorem newDataStore_slots : TargetSlots newDataStore :=
  ⟨rfl, fun _ hp => absurd hp List.not_mem_nil, fun _ => ⟨rfl, rfl⟩⟩

theorem exchanged_slots (h : TargetSlots t) (metadata : List RecordMetadata) :
    TargetSlots (exchanged t metadata) ∧ (exchanged t metadata).firstReceived = true := by
  rw [exchanged]
  split
  next hf => exact ⟨h, hf⟩
  next hf =>
    obtain ⟨hnil, -⟩ := h.fresh (Bool.not_eq_true _ ▸ hf)
    refine ⟨⟨rfl, fun p hp => ?_, fun hf => by cases hf⟩, rfl⟩
    change p ∈ t.threads at hp
    rw [hnil] at hp
    exact absurd hp List.not_mem_nil

theorem receiveLoop_slots (h : TargetSlots t) (r : Reception) :
    Avoids never TargetSlots (receiveLoop gl t r) := by
  cases r with
  | silent => exact h
  | drained metadata names calls =>
      obtain ⟨hex, hfirst⟩ := exchanged_slots h metadata
      rw [receiveLoop]
      generalize exchanged t metadata = u at hex hfirst
      have hstart : ∀ p ∈ u.threads, SlicesOk (advanced u.ds names) p.2 :=
        fun p hp => slicesOk_congr (show (advanced u.ds names).numRecords = u.ds.numRecords from rfl)
          (hex.slices p hp)
      apply (storeCalls_each (fun id => slicesOk_nil (newThreadStore_slices gl _ id))
        (fun ts call _ h => store_slicesOk h call.batch call.now) hstart).bind
      intro threads hthreads
      refine ⟨hex.described, hthreads, fun hf => ?_⟩
      rw [hfirst] at hf
      cases hf

theorem TargetSlots.asked (h : TargetSlots t) (ha : TargetAsked t t') : TargetSlots t' := by
  refine ⟨by rw [ha.ds]; exact h.described, fun q hq => ?_, fun hf => ?_⟩
  · obtain ⟨p, hp, -, hl⟩ := mem_right_of_forall₂ ha.threads hq
    rw [ha.ds]
    exact SlicesOk.like (h.slices p hp) hl
  · rw [ha.firstReceived] at hf
    obtain ⟨hnil, hm⟩ := h.fresh hf
    have hthreads := ha.threads
    rw [hnil] at hthreads
    rw [ha.ds]
    exact ⟨List.forall₂_nil_left_iff.mp hthreads, hm⟩

theorem TargetSlots.drained (h : TargetSlots t) (hd : TargetDrained t t') : TargetSlots t' := by
  refine ⟨by rw [hd.ds]; exact h.described, fun q hq => ?_, fun hf => ?_⟩
  · obtain ⟨p, -, -, start, hq⟩ := mem_right_of_forall₂ hd.threads hq
    apply slicesOk_nil
    rw [hq]
    rfl
  · rw [hd.firstReceived] at hf
    obtain ⟨hnil, hm⟩ := h.fresh hf
    have hthreads := hd.threads
    rw [hnil] at hthreads
    rw [hd.ds]
    exact ⟨List.forall₂_nil_left_iff.mp hthreads, hm⟩

theorem StoresSlots.asked (h : StoresSlots s) (ha : StoresAsked s s') : StoresSlots s' := by
  refine ⟨fun t' ht' => ?_, by rw [ha.ds]; exact h.described, fun g' hg' => ?_⟩
  · obtain ⟨t, ht, htt⟩ := mem_right_of_forall₂ ha.targets ht'
    exact (h.targets t ht).asked htt
  · rcases ha.thread with ⟨-, hnone⟩ | ⟨g, ts', hg, hgl, hl⟩
    · rw [hnone] at hg'
      cases hg'
    · rw [hgl, Option.some.injEq] at hg'
      have hold := h.global g hg
      rw [← hg', ha.ds]
      refine ⟨?_, SlicesOk.like hold.slices hl⟩
      rw [hl.currentTree]
      exact hold.full

theorem newThreadStore_globalSlots (gl : Settings) (ds : DataStore) (id : ThreadID) :
    GlobalSlots ds (newThreadStore gl ds id) := by
  refine ⟨fun k n hn => ?_, slicesOk_nil (newThreadStore_slices gl ds id)⟩
  rw [newThreadStore_tree] at hn
  split at hn
  next =>
    cases hn
    exact ⟨⟨length_resize _ _, length_resize _ _⟩, length_resize _ _⟩
  next => cases hn

theorem firstDescribed_mem {t : TargetStore × Int} (h : firstDescribed s = some t) :
    t.1 ∈ s.targets ∧ numProfileValues t ≠ 0 := by
  refine ⟨(List.of_mem_zip (List.mem_of_find?_eq_some h)).1, ?_⟩
  have := List.find?_some h
  exact of_decide_eq_true this

variable (gl) in
theorem describe_fit (h : StoresSlots s)
    (hex : s.global.ds.numRecords = 0 → ∀ t, firstDescribed s = some t → t.1.firstReceived = true) :
    ∃ global, describe gl s = .ok global ∧ Described global.ds ∧ global.ds.recordMetadata = slotsOf s ∧
      ∀ g, global.thread = some g → GlobalSlots global.ds g.ts := by
  rw [describe, slotsOf]
  split
  next hzero =>
    cases hfirst : firstDescribed s with
    | none =>
        have hdesc := h.described
        rw [Described, hzero, List.length_eq_zero_iff] at hdesc
        exact ⟨s.global, rfl, h.described, hdesc, h.global⟩
    | some t =>
        have hnum : numProfileValues t = Int.ofNat t.1.ds.numRecords := by
          rw [numProfileValues, if_pos (hex hzero t hfirst)]
          rfl
        obtain ⟨hmem, -⟩ := firstDescribed_mem hfirst
        dsimp only
        rw [hnum]
        refine ⟨_, rfl, (h.targets t.1 hmem).described, rfl, fun g hg => ?_⟩
        cases hg
        exact newThreadStore_globalSlots gl _ _
  next => exact ⟨s.global, rfl, h.described, rfl, h.global⟩

variable (gl) in
theorem describe_unfit (h : StoresSlots s) (hzero : s.global.ds.numRecords = 0) {t : TargetStore × Int}
    (hfirst : firstDescribed s = some t) (hf : t.1.firstReceived = false) :
    describe gl s = .error .lengthError ∨
      ∃ global, describe gl s = .ok global ∧ global.ds.numRecords ≠ global.ds.recordMetadata.length := by
  obtain ⟨hmem, hne⟩ := firstDescribed_mem hfirst
  have hnil := ((h.targets t.1 hmem).fresh hf).2
  rw [describe, if_pos hzero, hfirst]
  dsimp only
  cases hnum : numProfileValues t with
  | negSucc n => exact Or.inl rfl
  | ofNat n =>
      refine Or.inr ⟨_, rfl, ?_⟩
      change n ≠ t.1.ds.recordMetadata.length
      rw [hnil]
      rintro rfl
      exact hne hnum

theorem StoresFit.covered (h : StoresFit s) (hs : StoresSlots s) : StoresCovered s := by
  refine ⟨h.exchanged, ?_⟩
  rintro t ht hc ⟨md, i⟩ hi hstatic
  rw [List.mem_zipIdx_iff_getElem?] at hi
  rw [← (hs.targets t ht).described]
  exact (List.getElem?_eq_some_iff.mp (h.same t ht hc i md hi hstatic)).1

theorem StoresCovered.covers (h : StoresCovered s) {ds : DataStore} (hm : ds.recordMetadata = slotsOf s) :
    ∀ t ∈ s.targets, Contributes t → Covers ds t.ds := by
  intro t ht hc i md hi hstatic
  rw [hm] at hi
  exact h.slots t ht hc (md, i) (List.mem_zipIdx_iff_getElem?.mpr hi) hstatic

/-- Where the slots are covered, `Integrate` does not leave the vectors that it adds up,
and finds every node that an entry names. -/
theorem integrateStores_covered {bad : Fault → Prop} (hbad : ¬ bad .nullDeref)
    (hs : StoresSlots s) (h : StoresCovered s)
    (hid : bad .assertion → ∀ t ∈ s.targets, ∀ p ∈ t.threads, NamesNodes t.ds p.2) :
    Avoids bad (fun s' => Described s'.global.ds ∧ ∀ g, s'.global.thread = some g →
      GlobalSlots s'.global.ds g.ts) (integrateStores gl s) := by
  obtain ⟨global, hrun, hdesc, hm, hglobal⟩ := describe_fit gl hs h.exchanged
  rw [integrateStores, hrun, ok_bind]
  split
  next => exact ⟨hdesc, hglobal⟩
  next =>
    split
    next => exact hbad
    next g hg =>
      have hdesc' : Described { global.ds with currentTimeNumber := global.ds.currentTimeNumber + 1 } := hdesc
      have hnow : GlobalSlots { global.ds with currentTimeNumber := global.ds.currentTimeNumber + 1 } g.ts :=
        (hglobal g hg).congr rfl
      apply (integrateAll_fed hbad hdesc' hnow (fun t ht => (hs.targets t ht).slices) hid (h.covers hm)).bind
      rintro ⟨global', targets'⟩ ⟨hn', hm', a, ha, hslots⟩
      refine ⟨?_, fun g' hg' => ?_⟩
      · change global'.ds.recordMetadata.length = global'.ds.numRecords
        rw [hn', hm']
        exact hdesc
      · change global'.thread = some g' at hg'
        rw [ha, Option.some.injEq] at hg'
        rw [← hg']
        exact hslots

theorem integrateStores_drained (hmode : gl.singleTreeMode = true) (s : Stores) :
    Avoids never (fun s' => ∀ t' ∈ s'.targets, t' ∈ s.targets ∨
      ∃ t ∈ s.targets, TargetDrained t t') (integrateStores gl s) := by
  rw [integrateStores]
  refine (avoids_any _).bind fun global _ => ?_
  split
  next => exact fun t ht => Or.inl ht
  next =>
    split
    next => exact fun h => h
    next g _ =>
      apply (integrateAll_drained hmode g s.targets).bind
      rintro ⟨global', targets'⟩ hdrained t' ht'
      exact Or.inr (mem_right_of_forall₂ hdrained ht')

theorem integratesSafely_iff (hs : StoresSlots s) : IntegratesSafely gl s ↔ StoresFit s := by
  constructor
  · intro h
    have hex : s.global.ds.numRecords = 0 → ∀ t, firstDescribed s = some t → t.1.firstReceived = true := by
      intro hzero t hfirst
      by_contra hf
      rcases describe_unfit gl hs hzero hfirst (Bool.not_eq_true _ ▸ hf) with herr | ⟨global, hrun, hne⟩
      · have hresult := h.result
        rw [integrateStores, herr] at hresult
        exact hresult (Or.inr rfl)
      · exact hne (h.counted global hrun)
    obtain ⟨global, hrun, -, hm, -⟩ := describe_fit gl hs hex
    refine ⟨hex, fun t ht hc i md hmd hstatic => ?_⟩
    rw [← hm] at hmd
    exact h.same global hrun _ (mem_additions.mpr ⟨t, ht, hc, i, md, hmd, hstatic, rfl⟩)
  · intro h
    obtain ⟨global, hrun, hdesc, hm, -⟩ := describe_fit gl hs h.exchanged
    have hglobal {global' : GlobalDataStore} (h' : describe gl s = .ok global') : global' = global := by
      rw [hrun, Except.ok.injEq] at h'
      exact h'.symm
    have hresult : Avoids outside _ (integrateStores gl s) :=
      integrateStores_covered (by decide) hs (h.covered hs) fun hb => absurd hb (by decide)
    refine ⟨fun global' h' => ?_, hresult.mono fun s' hs' => hs'.1.symm, fun global' h' a ha => ?_⟩
    · rw [hglobal h']
      exact hdesc.symm
    · rw [hglobal h'] at ha
      obtain ⟨t, ht, hc, i, md, hmd, hstatic, rfl⟩ := mem_additions.mp ha
      rw [hm] at hmd
      exact h.same t ht hc i md hmd hstatic

theorem step_slots {op : Operation} (hs : StoresSlots s) (hfit : op = .integrate → StoresCovered s) :
    Avoids never StoresSlots (step gl s op) := by
  cases op with
  | connect unset =>
      refine ⟨fun t ht => ?_, hs.described, hs.global⟩
      rcases List.mem_append.mp ht with ht | ht
      · exact hs.targets t ht
      · rw [List.mem_singleton.mp ht]
        exact newDataStore_slots
  | receive i r =>
      rw [step, receiveAt]
      split
      next => exact hs
      next t ht =>
        apply (receiveLoop_slots (hs.targets t (List.mem_of_getElem? ht)) r).bind
        intro t' ht'
        refine ⟨fun u hu => ?_, hs.described, hs.global⟩
        rcases List.mem_or_eq_of_mem_set hu with hu | rfl
        · exact hs.targets u hu
        · exact ht'
  | integrate =>
      rw [step]
      split
      next hmode =>
        have hglobal : Avoids never _ (integrateStores gl s) :=
          integrateStores_covered (fun h => h) hs (hfit rfl) fun h => h.elim
        apply (and_never hglobal (integrateStores_drained hmode s)).mono
        rintro s' ⟨⟨hdesc, hg⟩, htargets⟩
        refine ⟨fun t' ht' => ?_, hdesc, hg⟩
        rcases htargets t' ht' with ht | ⟨t, ht, hd⟩
        · exact hs.targets t' ht
        · exact (hs.targets t ht).drained hd
      next => exact hs
  | tree id flag p1 p2 =>
      rw [step]
      refine Avoids.mono (onThreads_asked fun u _ => ?_) fun s' ha => hs.asked ha
      exact (threadAnswer_like flag p1 p2).bind fun r hr => hr
  | check id =>
      rw [step]
      refine Avoids.mono (onThreads_asked fun u _ => ?_) fun s' ha => hs.asked ha
      exact checkThread_like.bind fun r hr => hr
  | dump => exact (avoids_any _).bind fun _ _ => hs

/-- `P` holds wherever `Integrate` is about to run. -/
def AtIntegrate (gl : Settings) (ops : List Operation) (P : Stores → Prop) : Prop :=
  ∀ done rest s, ops = done ++ .integrate :: rest → run gl done noStores = .ok s → P s

theorem noStores_slots : StoresSlots noStores :=
  ⟨fun _ ht => absurd ht List.not_mem_nil, rfl, fun _ hg => by cases hg⟩

theorem run_slots {ops : List Operation} (hfit : AtIntegrate gl ops StoresFit) :
    Avoids never StoresSlots (run gl ops noStores) := by
  rw [run]
  refine avoids_foldlM_reached (fun _ => StoresSlots) ops
    (fun done op rest s he hreach hs => ?_) noStores_slots
  refine step_slots hs fun hop => (hfit done rest s ?_ hreach).covered hs
  rw [he, hop]

def mergingMode : Settings := { leafNodeAccumulate := false, singleTreeMode := true, hashStrHard := fun _ => 7 }

def reporting (n : Nat) : Reception :=
  .drained (List.replicate
    n { fieldName := [], unit := [], flags := [], accumulatedValueFlag := false, staticValueFlag := false })
    [] [⟨1, [⟨1, 2, 1, 1, List.replicate n 5⟩], ⟨2, List.replicate n 5⟩⟩]

end Llprof.Monitor.MixedStores
