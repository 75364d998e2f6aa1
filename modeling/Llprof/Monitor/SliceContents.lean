import Llprof.Monitor.SliceFrame

namespace Llprof.Monitor.SliceContents

open Faulting hiding store
open Lockstep Nodes Store Slices SliceFrame
open Profiler.CallTree (MethodNodeSerializedInfo)

def content (tss : TimeSliceStore) : TimeSliceStore := { tss with timeNumber := 0 }

def readAt (start : Int) (slices : List TimeSliceStore) (t : Int) : TimeSliceStore :=
  if t < start then emptySlice else ((slices[(t - start).toNat]?).map content).getD emptySlice

/-- What the slice of a time number holds. A time without a slice has an empty one. -/
def contentAt (ts : ThreadStore) (t : Int) : TimeSliceStore := readAt ts.startTimeNumber ts.timeSlice t

theorem eq_of_content {tss tss' : TimeSliceStore} (h : content tss' = content tss)
    (ht : tss'.timeNumber = tss.timeNumber) : tss' = tss := by
  obtain ⟨-, htree, hnow, hrunning⟩ := TimeSliceStore.mk.inj h
  cases tss
  cases tss'
  simp_all

def Reaches (ts : ThreadStore) (t : Int) : Prop := ts.timeSlice = [] ∨ ts.startTimeNumber ≤ t

variable {gl : Settings} {ds : DataStore} {ts : ThreadStore}

theorem contentAt_slices (start : Int) (slices : List TimeSliceStore) (ts : ThreadStore) (t : Int) :
    contentAt (withSlices start slices ts) t = readAt start slices t := rfl

theorem contentAt_tree (ts : ThreadStore) (t : Int) : (contentAt ts t).tree = sliceAt ts t := by
  unfold contentAt readAt sliceAt
  split
  · rfl
  · cases ts.timeSlice[(t - ts.startTimeNumber).toNat]? with
    | none => rfl
    | some tss => rfl

theorem contentAt_nil (h : ts.timeSlice = []) (t : Int) : contentAt ts t = emptySlice := by
  rw [contentAt, readAt, h]
  simp

theorem contentAt_index {t : Int} (h : ts.startTimeNumber ≤ t) {tss : TimeSliceStore}
    (hi : ts.timeSlice[(t - ts.startTimeNumber).toNat]? = some tss) : contentAt ts t = content tss := by
  rw [contentAt, readAt, if_neg (by omega), hi, Option.map_some, Option.getD_some]

theorem Reaches.mono {t u : Int} (h : Reaches ts t) (htu : t ≤ u) : Reaches ts u :=
  h.imp id fun hs => hs.trans htu

theorem startFor_of_ne_nil (h : ts.timeSlice ≠ []) (t : Int) : ts.startFor t = ts.startTimeNumber := by
  rw [ThreadStore.startFor, if_neg (by rwa [List.isEmpty_iff])]

theorem Reaches.startFor {t : Int} (h : Reaches ts t) : ts.startFor t ≤ t := by
  unfold ThreadStore.startFor
  split
  · exact le_refl t
  · rename_i hne
    rcases h with hnil | hle
    · exact absurd (List.isEmpty_iff.mpr hnil) hne
    · exact hle

theorem grown_content (slices : List TimeSliceStore) (n i j : Nat) (t : Int) :
    ((((slices ++ List.replicate n emptySlice).modify i (fun tss => { tss with timeNumber := t }))[j]?).map
      content).getD emptySlice = ((slices[j]?).map content).getD emptySlice :=
  grown_read (fun _ _ => rfl) slices n i j t

theorem getTimeSlice_reaches {t : Int} (h : Reaches ts t) :
    ∃ slices tss, ts.getTimeSlice t = (withSlices (ts.startFor t) slices ts, some (t - ts.startFor t).toNat) ∧
      slices[(t - ts.startFor t).toNat]? = some tss ∧ content tss = contentAt ts t ∧
      (∀ u, contentAt (withSlices (ts.startFor t) slices ts) u = contentAt ts u) ∧
      ts.timeSlice.length ≤ slices.length ∧ tss.timeNumber = t := by
  have hstart := h.startFor
  have hall (u : Int) : contentAt (withSlices (ts.startFor t) ((ts.timeSlice ++
      List.replicate ((t - ts.startFor t).toNat + 1 - ts.timeSlice.length) emptySlice).modify
        (t - ts.startFor t).toNat (fun tss => { tss with timeNumber := t })) ts) u = contentAt ts u := by
    rw [contentAt_slices, readAt, grown_content]
    by_cases he : ts.timeSlice = []
    · rw [contentAt_nil he, he]
      simp
    · rw [startFor_of_ne_nil he]
      rfl
  obtain ⟨old, hold⟩ : ∃ old, (ts.timeSlice ++
      List.replicate ((t - ts.startFor t).toNat + 1 - ts.timeSlice.length)
        emptySlice)[(t - ts.startFor t).toNat]? = some old := by
    refine ⟨_, List.getElem?_eq_getElem ?_⟩
    simp
    omega
  have htss : ((ts.timeSlice ++
      List.replicate ((t - ts.startFor t).toNat + 1 - ts.timeSlice.length) emptySlice).modify
        (t - ts.startFor t).toNat (fun tss => { tss with timeNumber := t }))[(t - ts.startFor t).toNat]? =
      some { old with timeNumber := t } := by
    rw [List.getElem?_modify, hold]
    simp
  refine ⟨_, _, ?_, htss, ?_, hall, by simp, rfl⟩
  · rw [ThreadStore.getTimeSlice]
    dsimp only
    rw [if_neg (by omega)]
    rfl
  · rw [← hall t]
    exact (contentAt_index hstart htss).symm

theorem getTimeSlice_not {t : Int} (h : ¬ Reaches ts t) : ts.getTimeSlice t = (ts, none) := by
  rw [Reaches, not_or, not_le] at h
  have hfor := startFor_of_ne_nil h.1 t
  rw [ThreadStore.getTimeSlice]
  simp only [hfor, if_pos h.2]

theorem Reaches.startFor_le {t u : Int} (h : Reaches ts t) (hu : u ≤ t) : ts.startFor u ≤ t := by
  by_cases hnil : ts.timeSlice = []
  · rw [ThreadStore.startFor, hnil]
    exact hu
  · rw [startFor_of_ne_nil hnil]
    exact h.resolve_left hnil

theorem set_ne_nil {slices : List TimeSliceStore} {i : Nat} {tss : TimeSliceStore} (h : slices[i]? = some tss)
    (x : TimeSliceStore) : slices.set i x ≠ [] := by
  intro hnil
  rw [List.set_eq_nil_iff] at hnil
  rw [hnil] at h
  cases h

theorem readAt_set {start t : Int} (hst : start ≤ t) {slices : List TimeSliceStore}
    (hlen : (t - start).toNat < slices.length) (x : TimeSliceStore) (u : Int) :
    readAt start (slices.set (t - start).toNat x) u = if u = t then content x else readAt start slices u := by
  by_cases hu : u < start
  · rw [if_neg (by omega), readAt, readAt, if_pos hu, if_pos hu]
  · rw [readAt, readAt, if_neg hu, if_neg hu, List.getElem?_set]
    by_cases hut : u = t
    · subst hut
      rw [if_pos rfl, if_pos rfl, if_pos hlen]
      rfl
    · rw [if_neg (by omega), if_neg hut]

structure Like (ts ts' : ThreadStore) : Prop where
  rest : ts' = withSlices ts'.startTimeNumber ts'.timeSlice ts
  content : ∀ u, contentAt ts' u = contentAt ts u

theorem Like.refl (ts : ThreadStore) : Like ts ts := ⟨rfl, fun _ => rfl⟩

theorem Like.symm (h : Like ts ts') : Like ts' ts := by
  refine ⟨?_, fun u => (h.content u).symm⟩
  rw [h.rest]
  rfl

theorem Like.currentTree {ts' : ThreadStore} (h : Like ts ts') : ts'.currentTree = ts.currentTree := by
  rw [h.rest]
  rfl

theorem Like.trans {ts₁ ts₂ ts₃ : ThreadStore} (h : Like ts₁ ts₂) (h' : Like ts₂ ts₃) : Like ts₁ ts₃ := by
  refine ⟨?_, fun u => (h'.content u).trans (h.content u)⟩
  rw [h'.rest, h.rest]
  rfl

theorem withSlices_self (ts : ThreadStore) : withSlices ts.startTimeNumber ts.timeSlice ts = ts := rfl

theorem receive_keeps {batch : List MethodNodeSerializedInfo} {now : NowInfo} {ts' : ThreadStore}
    (h : receive gl ds ts batch now = .ok ts') :
    ts'.startTimeNumber = ts.startTimeNumber ∧ ts'.timeSlice = ts.timeSlice := by
  have hself := @receive_slices gl ds ts.startTimeNumber ts.timeSlice ts batch now
  rw [withSlices_self] at hself
  obtain ⟨ts₁, h₁, hs⟩ := hself.ok h
  rw [h, Except.ok.injEq] at h₁
  subst h₁
  rw [Sliced] at hs
  rw [hs]
  exact ⟨rfl, rfl⟩

structure Opened (t : Int) (ts ts' : ThreadStore) : Prop where
  start : ts'.startTimeNumber = ts.startFor t
  slices : ts'.timeSlice ≠ []

theorem Opened.trans {t u : Int} {ts₁ ts₂ : ThreadStore} (h : Opened t ts ts₁) (h' : Opened u ts₁ ts₂) :
    Opened t ts ts₂ :=
  ⟨by rw [h'.start, startFor_of_ne_nil h.slices, h.start], h'.slices⟩

theorem flush_like {ts' : ThreadStore} (h : Like ts ts')
    (hr : Reaches ts ds.currentTimeNumber ↔ Reaches ts' ds.currentTimeNumber) :
    Related (fun a a' => Like a a' ∧ Opened ds.currentTimeNumber ts a ∧ Opened ds.currentTimeNumber ts' a')
      (flush gl ds ts) (flush gl ds ts') := by
  by_cases hreach : Reaches ts ds.currentTimeNumber
  · obtain ⟨slices, tss, hget, htss, hcontent, hall, -, -⟩ := getTimeSlice_reaches hreach
    obtain ⟨slices', tss', hget', htss', hcontent', hall', -, -⟩ := getTimeSlice_reaches (hr.mp hreach)
    have hsame : content tss' = content tss := by rw [hcontent, hcontent', h.content]
    have htree : tss'.tree = tss.tree := (TimeSliceStore.mk.inj hsame).2.1
    have hcur := h.currentTree
    have hattr : ts'.attrNodeMap = ts.attrNodeMap := by rw [h.rest]; rfl
    have hnow : ts'.nowValues = ts.nowValues := by rw [h.rest]; rfl
    have hrun : ts'.runningNode = ts.runningNode := by rw [h.rest]; rfl
    rw [flush, flush, hget, hget']
    dsimp only [withSlices]
    rw [fetch_eq_ok.mpr htss, fetch_eq_ok.mpr htss', ok_bind, ok_bind, hcur, hattr, htree, hnow, hrun]
    apply related_same_bind
    rintro ⟨s, b⟩ -
    refine ⟨⟨?_, fun u => ?_⟩, ⟨rfl, ?_⟩, ⟨rfl, ?_⟩⟩
    · rw [h.rest]
      rfl
    · change readAt _ (slices'.set _ _) u = readAt _ (slices.set _ _) u
      rw [readAt_set (hr.mp hreach).startFor (List.getElem?_eq_some_iff.mp htss').1,
        readAt_set hreach.startFor (List.getElem?_eq_some_iff.mp htss).1]
      split
      · rfl
      · exact (hall' u).trans ((h.content u).trans (hall u).symm)
    · exact set_ne_nil htss _
    · exact set_ne_nil htss' _
  · rw [flush, flush, getTimeSlice_not hreach, getTimeSlice_not (fun h' => hreach (hr.mpr h'))]
    rfl

theorem store_like {ts' : ThreadStore} (h : Like ts ts')
    (hr : Reaches ts ds.currentTimeNumber ↔ Reaches ts' ds.currentTimeNumber)
    (batch : List MethodNodeSerializedInfo) (now : NowInfo) :
    Related (fun a a' => Like a a' ∧ Opened ds.currentTimeNumber ts a ∧ Opened ds.currentTimeNumber ts' a')
      (store gl ds ts batch now) (store gl ds ts' batch now) := by
  have hrec := @receive_slices gl ds ts'.startTimeNumber ts'.timeSlice ts batch now
  rw [← h.rest] at hrec
  rw [store, store]
  apply hrec.bind_ok
  intro a a' ha ha' hs
  obtain ⟨hstart, hslices⟩ := receive_keeps ha
  obtain ⟨hstart', hslices'⟩ := receive_keeps ha'
  have hlike : Like a a' := by
    refine ⟨?_, fun u => ?_⟩
    · rw [hstart', hslices']
      exact hs
    · rw [contentAt, contentAt, hstart, hslices, hstart', hslices']
      exact h.content u
  have hreach : Reaches a ds.currentTimeNumber ↔ Reaches a' ds.currentTimeNumber := by
    rw [Reaches, Reaches, hstart, hslices, hstart', hslices']
    exact hr
  apply (flush_like hlike hreach).mono
  rintro b b' ⟨hb, ho, ho'⟩
  refine ⟨hb, ⟨?_, ho.slices⟩, ⟨?_, ho'.slices⟩⟩
  · rw [ho.start, ThreadStore.startFor, ThreadStore.startFor, hstart, hslices]
  · rw [ho'.start, ThreadStore.startFor, ThreadStore.startFor, hstart', hslices']

end Llprof.Monitor.SliceContents
