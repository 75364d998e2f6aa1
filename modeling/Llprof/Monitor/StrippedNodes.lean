import Llprof.Monitor.AnswerFrame
import Llprof.Monitor.MixedStores
import Llprof.Monitor.Printing
import Llprof.Monitor.Stripping

namespace Llprof.Monitor.StrippedNodes

open Faulting hiding store
open Avoiding Lockstep TreeMaps Nodes SlotLoops Slices MergeSlices SliceFrame SliceContents
  SlicesKnown Answers DiffAnswers AnswerFrame Ticks Runs TickFrame FlushRule StoreRule IntegrationSlots
  Operations OperationFrame Printing MixedStores Stripping

variable {gl : Settings} {s s' : Stores} {t t' : TargetStore} {ds : DataStore}
  {ts : ThreadStore} {bad : Fault → Prop}

def Whole (s : Stores) : Operation → Prop
  | .receive i (.drained metadata _ calls) => ∀ t ∈ s.targets[i]?, ∀ call ∈ calls, ∀ r ∈ call.batch,
      (exchanged t metadata).ds.numRecords ≤ r.profileValue.length
  | _ => True

def isIntegrate : Operation → Bool
  | .integrate => true
  | _ => false

/-- The faults of an access past the end of a vector or of a map. What is read past the
end of a message is none of a node. For an entry without a node, `Integrate` prints the
thread before its assertion. -/
def Stray (s : Stores) (op : Operation) (e : Fault) : Prop :=
  e = .endDeref ∨ e = .outOfRange ∧ Whole s op ∨ e = .assertion ∧ isIntegrate op = true

def Inside (gl : Settings) (s : Stores) (op : Operation) : Prop :=
  Avoids (Stray s op) (fun _ => True) (step gl s op)

def InSlices (ds : DataStore) (ts : ThreadStore) : Prop :=
  ∀ k ∈ ts.currentTree.keys, ∃ i < (ds.currentTimeNumber + 1).toNat, k ∈ (contentAt ts i).tree

def Unstripped (ds : DataStore) (ts : ThreadStore) : Prop :=
  ds.numRecords = 0 ∨ ∀ it ∈ ts.currentTree.toList, it.2.allValues ≠ [] ∧ it.2.childrenValues ≠ []

def Meets (s : Stores) : Operation → Prop
  | .integrate => StoresCovered s
  | .check id => ∀ u ∈ askedThreads s id, InSlices u.1 u.2 ∧ Unstripped u.1 u.2
  | .dump => ∀ u ∈ allThreads s, Unstripped u.1 u.2
  | _ => True

/-- `P` holds of every step of a run, in the state that it comes to. -/
def Throughout (gl : Settings) (P : Stores → Operation → Prop) : Stores → List Operation → Prop
  | _, [] => True
  | s, op :: ops => P s op ∧ ∀ s', step gl s op = .ok s' → Throughout gl P s' ops

instance (s : Stores) : DecidablePred (Whole s)
  | .receive i (.drained metadata _ calls) =>
    inferInstanceAs (Decidable (∀ t ∈ s.targets[i]?, ∀ call ∈ calls, ∀ r ∈ call.batch,
      (exchanged t metadata).ds.numRecords ≤ r.profileValue.length))
  | .receive _ .silent => isTrue trivial
  | .connect _ => isTrue trivial
  | .integrate => isTrue trivial
  | .tree _ _ _ _ => isTrue trivial
  | .check _ => isTrue trivial
  | .dump => isTrue trivial

instance (s : Stores) (op : Operation) : DecidablePred (Stray s op) := fun e =>
  inferInstanceAs (Decidable (e = .endDeref ∨ e = .outOfRange ∧ Whole s op ∨ e = .assertion ∧ isIntegrate op = true))

instance (gl : Settings) (s : Stores) (op : Operation) : Decidable (Inside gl s op) :=
  inferInstanceAs (Decidable (Avoids _ _ _))

instance (ds : DataStore) (ts : ThreadStore) : Decidable (InSlices ds ts) :=
  inferInstanceAs (Decidable (∀ k ∈ ts.currentTree.keys, ∃ i < (ds.currentTimeNumber + 1).toNat, k ∈ (contentAt ts i).tree))

instance (ds : DataStore) (ts : ThreadStore) : Decidable (Unstripped ds ts) :=
  inferInstanceAs (Decidable (ds.numRecords = 0 ∨ ∀ it ∈ ts.currentTree.toList, it.2.allValues ≠ [] ∧ it.2.childrenValues ≠ []))

instance (s : Stores) : DecidablePred (Meets s)
  | .integrate => inferInstanceAs (Decidable (StoresCovered s))
  | .check id => inferInstanceAs (Decidable (∀ u ∈ askedThreads s id, InSlices u.1 u.2 ∧ Unstripped u.1 u.2))
  | .dump => inferInstanceAs (Decidable (∀ u ∈ allThreads s, Unstripped u.1 u.2))
  | .connect _ => isTrue trivial
  | .receive _ _ => isTrue trivial
  | .tree _ _ _ _ => isTrue trivial

instance decidableThroughout (gl : Settings) (P : Stores → Operation → Prop) [∀ s op, Decidable (P s op)] :
    ∀ s ops, Decidable (Throughout gl P s ops)
  | _, [] => isTrue trivial
  | s, op :: ops =>
      match h : step gl s op with
      | .error _ => decidable_of_iff (P s op) ⟨fun hp =>
        ⟨hp, fun s' hs' => by rw [h] at hs'; cases hs'⟩, fun hp => hp.1⟩
      | .ok s' =>
          have := decidableThroughout gl P s' ops
          decidable_of_iff (P s op ∧ Throughout gl P s' ops)
            ⟨fun hp => ⟨hp.1, fun s'' hs'' => by rw [h] at hs''; cases hs''; exact hp.2⟩,
              fun hp => ⟨hp.1, hp.2 s' h⟩⟩

structure StoresSized (gl : Settings) (s : Stores) : Prop where
  slots : StoresSlots s
  threads : ∀ t ∈ s.targets, ∀ p ∈ t.threads, SizedThread gl t.ds p.2

theorem noStores_sized : StoresSized gl noStores := ⟨noStores_slots, fun _ ht => absurd ht List.not_mem_nil⟩

theorem StoresSized.slices (h : StoresSized gl s) {u : DataStore × ThreadStore} (hu : u ∈ allThreads s) :
    Described u.1 ∧ SlicesOk u.1 u.2 := by
  rcases mem_allThreads.mp hu with ⟨g, hg, rfl⟩ | ⟨t, ht, p, hp, rfl⟩
  · exact ⟨h.slots.described, (h.slots.global g hg).slices⟩
  · exact ⟨(h.slots.targets t ht).described, (h.slots.targets t ht).slices p hp⟩

theorem fullNodes_of_unstripped (h : SizedNodes gl ds ts.currentTree) (hu : Unstripped ds ts) :
    FullNodes ds ts.currentTree := by
  intro k n hk
  obtain ⟨hall, hchildren, htemps⟩ := h k n hk
  have hfull {values : List ProfileValue} (hv : Sized ds values) (hne : ds.numRecords = 0 ∨ values ≠ []) :
      values.length = ds.numRecords := by
    rcases hv with rfl | hv
    · exact (hne.resolve_right fun hne => hne rfl).symm
    · exact hv
  have hn := hu.imp_right fun hall => hall (k, n) (Std.TreeMap.mem_toList_iff_getElem?_eq_some.mpr hk)
  exact ⟨⟨hfull hall (hn.imp_right And.left), hfull hchildren (hn.imp_right And.right)⟩, htemps⟩

theorem StoresSized.full (h : StoresSized gl s) {u : DataStore × ThreadStore} (hu : u ∈ allThreads s)
    (hun : Unstripped u.1 u.2) : FullNodes u.1 u.2.currentTree := by
  rcases mem_allThreads.mp hu with ⟨g, hg, rfl⟩ | ⟨t, ht, p, hp, rfl⟩
  · exact (h.slots.global g hg).full
  · exact fullNodes_of_unstripped (h.threads t ht p hp).nodes hun

theorem StoresSized.asked (h : StoresSized gl s) (ha : StoresAsked s s') : StoresSized gl s' := by
  refine ⟨h.slots.asked ha, fun t' ht' q hq => ?_⟩
  obtain ⟨t, ht, htt⟩ := mem_right_of_forall₂ ha.targets ht'
  obtain ⟨p, hp, -, hl⟩ := mem_right_of_forall₂ htt.threads hq
  rw [htt.ds]
  exact (h.threads t ht p hp).like hl

theorem exchanged_sized (h : TargetSlots t) (hs : ∀ p ∈ t.threads, SizedThread gl t.ds p.2)
    (metadata : List RecordMetadata) :
    ∀ p ∈ (exchanged t metadata).threads, SizedThread gl (exchanged t metadata).ds p.2 := by
  rw [exchanged]
  split
  next => exact hs
  next hf =>
    intro p hp
    change p ∈ t.threads at hp
    rw [(h.fresh (Bool.not_eq_true _ ▸ hf)).1] at hp
    exact absurd hp List.not_mem_nil

theorem receiveLoop_inside (hbad : OfAccess bad) (h : TargetSlots t)
    (hs : ∀ p ∈ t.threads, SizedThread gl t.ds p.2) {metadata : List RecordMetadata}
    {names : List (NameID × LittleEndian.Bytes)} {calls : List StoreCall}
    (hwhole : bad .outOfRange → ∀ call ∈ calls, ∀ r ∈ call.batch,
      (exchanged t metadata).ds.numRecords ≤ r.profileValue.length) :
    Avoids bad (fun t' => ∀ p ∈ t'.threads, SizedThread gl t'.ds p.2)
      (receiveLoop gl t (.drained metadata names calls)) := by
  obtain ⟨hex, -⟩ := exchanged_slots h metadata
  have hsized := exchanged_sized h hs metadata
  rw [receiveLoop]
  generalize exchanged t metadata = u at hex hsized hwhole
  have hd : Described (advanced u.ds names) := hex.described
  have hn : (advanced u.ds names).numRecords = u.ds.numRecords := rfl
  have hstart : ∀ p ∈ u.threads, SlicesOk (advanced u.ds names) p.2 ∧ SizedThread gl (advanced u.ds names) p.2 :=
    fun p hp => ⟨slicesOk_congr hn (hex.slices p hp), (hsized p hp).congr hn⟩
  apply (storeCalls_each (P := fun ts => SlicesOk (advanced u.ds names) ts ∧
      SizedThread gl (advanced u.ds names) ts) ?_ ?_ hstart).bind
  · intro threads hthreads p hp
    exact (hthreads p hp).2
  · intro id
    exact ⟨slicesOk_nil (newThreadStore_slices gl _ id), newThreadStore_sized gl _ id⟩
  · rintro ts call hcall ⟨hok, hts⟩
    have hfits : ∀ r ∈ call.batch, bad .outOfRange →
        (advanced u.ds names).numRecords ≤ r.profileValue.length :=
      fun r hr hb => hwhole hb call hcall r hr
    apply (and_never (store_inside hbad hd hok hts hfits call.now) (store_slicesOk hok call.batch call.now)).mono
    exact fun ts' h' => ⟨h'.2, h'.1⟩

theorem threadAnswer_inside (hd : Described ds) (hok : SlicesOk ds ts) (flag : DumpFlag) (p1 p2 : Int) :
    Avoids bad (fun r => Like ts r.1) (threadAnswer gl ds flag p1 p2 ts) := by
  cases flag with
  | currentTree => exact Like.refl ts
  | diffTree =>
      obtain ⟨ts', hasked, hrun⟩ := diffAnswer_spec gl ds ts p1 p2
      obtain ⟨m, hm, -⟩ := merged_total gl hd hok p1 (stopOf ds p2 + 1 - p1).toNat
      rw [threadAnswer, hrun, hm]
      exact hasked.like

theorem checkThread_inside (hd : Described ds) (hok : SlicesOk ds ts) (hin : InSlices ds ts)
    (hfull : FullNodes ds ts.currentTree) : Avoids bad (fun r => Like ts r.1) (checkThread gl ds ts) := by
  apply checkThread_avoids
  obtain ⟨m, hm, hsized, hmem⟩ := merged_total gl hd hok 0 (ds.currentTimeNumber + 1).toNat
  rw [hm]
  refine ⟨fun _ k hk => ?_, fun _ => hfull, fun _ => hsized⟩
  obtain ⟨i, hi, hki⟩ := hin k (Std.TreeMap.mem_keys.mpr hk)
  rw [hmem]
  exact ⟨i, hi, by rwa [zero_add]⟩

theorem printable (hok : SlicesOk ds ts) (hfull : FullNodes ds ts.currentTree) : Printable ds ts := by
  refine ⟨hfull, fun tss htss => ?_⟩
  obtain ⟨i, hi⟩ := List.getElem?_of_mem htss
  have hcontent : contentAt ts (ts.startTimeNumber + i) = content tss :=
    contentAt_index (by omega) (by rw [show (ts.startTimeNumber + i - ts.startTimeNumber).toNat = i by omega]; exact hi)
  have hsized := (slicesOk_iff.mp hok (ts.startTimeNumber + i)).2
  rw [hcontent] at hsized
  exact hsized

theorem ofAccess_stray {op : Operation} (hop : isIntegrate op = false) : OfAccess (Stray s op) := by
  rintro e (he | ⟨he, -⟩ | ⟨-, he⟩)
  · exact Or.inr (Or.inl he)
  · exact Or.inl he
  · rw [hop] at he
    cases he

theorem integrate_inside (hmode : gl.singleTreeMode = true) (hs : StoresSized gl s) (h : StoresCovered s) :
    Avoids (Stray s .integrate) (StoresSized gl) (integrateStores gl s) := by
  have hnamed : ∀ t ∈ s.targets, ∀ p ∈ t.threads, NamesNodes t.ds p.2 := by
    intro t ht p hp k e he
    rw [(hs.threads t ht p hp).entries _ k e he]
    exact (slicesOk_iff.mp ((hs.slots.targets t ht).slices p hp) _).1 k (mem_iff_some.mpr ⟨e, he⟩)
  have hglobal : Avoids (Stray s .integrate) _ (integrateStores gl s) :=
    integrateStores_covered (by simp [Stray]) hs.slots h fun _ => hnamed
  apply (and_never hglobal (integrateStores_drained hmode s)).mono
  rintro s' ⟨⟨hdesc, hg⟩, htargets⟩
  refine ⟨⟨fun t' ht' => ?_, hdesc, hg⟩, fun t' ht' q hq => ?_⟩
  · rcases htargets t' ht' with ht | ⟨t, ht, hd⟩
    · exact hs.slots.targets t' ht
    · exact (hs.slots.targets t ht).drained hd
  · rcases htargets t' ht' with ht | ⟨t, ht, hd⟩
    · exact hs.threads t' ht q hq
    · obtain ⟨p, hp, -, start, hpq⟩ := mem_right_of_forall₂ hd.threads hq
      rw [hd.ds, hpq]
      exact (hs.threads t ht p hp).drained start

theorem step_inside (hmode : gl.singleTreeMode = true) {op : Operation}
    (hs : StoresSized gl s) (h : Meets s op) : Avoids (Stray s op) (StoresSized gl) (step gl s op) := by
  have hslots : Avoids never StoresSlots (step gl s op) :=
    step_slots hs.slots fun hop => by rw [hop] at h; exact h
  cases op with
  | connect unset =>
      refine ⟨hslots, fun t ht => ?_⟩
      rcases List.mem_append.mp ht with ht | ht
      · exact hs.threads t ht
      · rw [List.mem_singleton.mp ht]
        exact fun p hp => absurd hp List.not_mem_nil
  | receive i r =>
      have hthreads : Avoids (Stray s (.receive i r)) (fun s' =>
        ∀ t ∈ s'.targets, ∀ p ∈ t.threads, SizedThread gl t.ds p.2)
          (receiveAt gl s i r) := by
        rw [receiveAt]
        split
        next => exact hs.threads
        next t ht =>
          have htm := List.mem_of_getElem? ht
          have hreceive : Avoids (Stray s (.receive i r)) (fun t' => ∀ p ∈ t'.threads, SizedThread gl t'.ds p.2)
              (receiveLoop gl t r) := by
            cases r with
            | silent => exact hs.threads t htm
            | drained metadata names calls =>
                apply receiveLoop_inside (ofAccess_stray rfl)
                  (hs.slots.targets t htm) (hs.threads t htm)
                rintro (hb | ⟨-, hb⟩ | ⟨-, hb⟩)
                · cases hb
                · exact hb t ht
                · cases hb
          apply hreceive.bind
          intro t' ht' u hu
          rcases List.mem_or_eq_of_mem_set hu with hu | rfl
          · exact hs.threads u hu
          · exact ht'
      exact (and_never hthreads hslots).mono fun s' h' => ⟨h'.2, h'.1⟩
  | integrate =>
      rw [step, if_pos hmode]
      exact integrate_inside hmode hs h
  | tree id flag p1 p2 =>
      rw [step]
      refine Avoids.mono (onThreads_asked fun u hu => ?_) fun s' ha => hs.asked ha
      obtain ⟨hd, hok⟩ := hs.slices (mem_of_asked hu)
      exact (threadAnswer_inside hd hok flag p1 p2).bind fun r hr => hr
  | check id =>
      rw [step]
      refine Avoids.mono (onThreads_asked fun u hu => ?_) fun s' ha => hs.asked ha
      obtain ⟨hd, hok⟩ := hs.slices (mem_of_asked hu)
      obtain ⟨hin, hun⟩ := h u hu
      exact (checkThread_inside hd hok hin (hs.full (mem_of_asked hu) hun)).bind fun r hr => hr
  | dump =>
      refine (dumpStores_avoids fun u hu _ => ?_).bind fun _ _ => hs
      exact printable (hs.slices hu).2 (hs.full hu (h u hu))

theorem throughout_inside (hmode : gl.singleTreeMode = true) {ops : List Operation} (hs : StoresSized gl s)
    (h : Throughout gl Meets s ops) : Throughout gl (Inside gl) s ops := by
  induction ops generalizing s with
  | nil => trivial
  | cons op ops ih =>
      obtain ⟨hop, hops⟩ := h
      have hstep := step_inside hmode hs hop
      refine ⟨hstep.mono fun _ _ => trivial, fun s' hs' => ?_⟩
      rw [hs'] at hstep
      exact ih hstep (hops s' hs')

/-- In a run whose steps all meet the condition, no step leaves a vector of a node or a map. -/
theorem stripped_never_indexed (hmode : gl.singleTreeMode = true) {ops : List Operation}
    (h : Throughout gl Meets noStores ops) : Throughout gl (Inside gl) noStores ops :=
  throughout_inside hmode noStores_sized h

theorem stripped_never_indexed_checked : Throughout mergingMode (Inside mergingMode) noStores
    [.connect 0, .receive 0 (reporting 1), .tree 1 .diffTree 1 1, .integrate,
      .tree 0 .currentTree 0 0, .check 0] :=
  stripped_never_indexed rfl (by decide +kernel)

/-- A node of a target is stripped below the root. `dump` and the check print it, and
after a tick the check does not find it. -/
theorem stripped_indexed :
    ¬ Throughout mergingMode (Inside mergingMode) noStores [.connect 0, .receive 0 (reporting 1), .dump] ∧
      ¬ Throughout mergingMode (Inside mergingMode) noStores [.connect 0,
        .receive 0 (reporting 1), .check 1] ∧
      ¬ Throughout mergingMode (Inside mergingMode) noStores [.connect 0, .receive 0 (reporting 1),
        .integrate, .check 1] := by
  decide +kernel

end Llprof.Monitor.StrippedNodes
