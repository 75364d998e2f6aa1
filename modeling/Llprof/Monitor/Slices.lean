import Llprof.Monitor.FlushSpec

namespace Llprof.Monitor.Slices

open Nodes FlushSpec

/-- The nodes of the slice of a time number. A time without a slice has none. -/
def sliceAt (ts : ThreadStore) (t : Int) : Slice :=
  if t < ts.startTimeNumber then ∅
  else ((ts.timeSlice[(t - ts.startTimeNumber).toNat]?).map (fun tss => tss.tree)).getD ∅

theorem sliceAt_nil {ts : ThreadStore} (h : ts.timeSlice = []) (t : Int) : sliceAt ts t = ∅ := by
  rw [sliceAt, h]
  simp

theorem sliceAt_index {ts : ThreadStore} {t : Int} (h : ¬ t < ts.startTimeNumber) {tss : TimeSliceStore}
    (hi : ts.timeSlice[(t - ts.startTimeNumber).toNat]? = some tss) : sliceAt ts t = tss.tree := by
  rw [sliceAt, if_neg h, hi, Option.map_some, Option.getD_some]

theorem grown_read {β : Type} {f : TimeSliceStore → β} (hf : ∀ tss t, f { tss with timeNumber := t } = f tss)
    (slices : List TimeSliceStore) (n i j : Nat) (t : Int) :
    ((((slices ++ List.replicate n emptySlice).modify i (fun tss => { tss with timeNumber := t }))[j]?).map
      f).getD (f emptySlice) = ((slices[j]?).map f).getD (f emptySlice) := by
  have hmod : (((slices ++ List.replicate n emptySlice).modify i (fun tss => { tss with timeNumber := t }))[j]?).map f =
      ((slices ++ List.replicate n emptySlice)[j]?).map f := by
    rw [List.getElem?_modify]
    cases (slices ++ List.replicate n emptySlice)[j]? with
    | none => rfl
    | some tss => by_cases h : i = j <;> simp [h, hf]
  rw [hmod, List.getElem?_append]
  by_cases h : j < slices.length
  · rw [if_pos h]
  · rw [if_neg h, List.getElem?_eq_none (Nat.le_of_not_lt h), List.getElem?_replicate]
    split <;> rfl

theorem grown_tree (slices : List TimeSliceStore) (n i j : Nat) (t : Int) :
    ((((slices ++ List.replicate n emptySlice).modify i (fun tss => { tss with timeNumber := t }))[j]?).map
      (fun tss => tss.tree)).getD ∅ = ((slices[j]?).map (fun tss => tss.tree)).getD ∅ :=
  grown_read (fun _ _ => rfl) slices n i j t

theorem getTimeSlice_sliceAt (ts : ThreadStore) (t u : Int) :
    sliceAt (ts.getTimeSlice t).1 u = sliceAt ts u := by
  rw [ThreadStore.getTimeSlice, ThreadStore.startFor]
  dsimp only
  cases he : ts.timeSlice.isEmpty with
  | true =>
      rw [List.isEmpty_iff] at he
      rw [sliceAt_nil he, if_pos rfl, if_neg (lt_irrefl t), sliceAt]
      dsimp only
      rw [grown_tree, he]
      split <;> rfl
  | false =>
      rw [if_neg Bool.false_ne_true]
      split
      · rfl
      · rw [sliceAt, sliceAt]
        dsimp only
        rw [grown_tree]

theorem getTimeSlice_some {ts : ThreadStore} {t : Int} (h : ts.timeSlice = [] ∨ ts.startTimeNumber ≤ t) :
    ∃ slices tss, ts.getTimeSlice t =
        ({ ts with startTimeNumber := ts.startFor t, timeSlice := slices }, some (t - ts.startFor t).toNat) ∧
      ts.startFor t ≤ t ∧ slices[(t - ts.startFor t).toNat]? = some tss ∧ tss.tree = sliceAt ts t ∧
      ∀ u, sliceAt { ts with startTimeNumber := ts.startFor t, timeSlice := slices } u = sliceAt ts u := by
  have hstart : ts.startFor t ≤ t := by
    unfold ThreadStore.startFor
    split
    · exact le_refl t
    next he =>
      obtain h | h := h
      · exact absurd (by rw [h]; rfl) he
      · exact h
  have hslice := getTimeSlice_sliceAt ts t
  have hrun : ts.getTimeSlice t = ({ ts with
      startTimeNumber := ts.startFor t
      timeSlice := (ts.timeSlice ++ List.replicate ((t - ts.startFor t).toNat + 1 - ts.timeSlice.length) emptySlice).modify
        (t - ts.startFor t).toNat (fun tss => { tss with timeNumber := t }) },
          some (t - ts.startFor t).toNat) := by
    rw [ThreadStore.getTimeSlice]
    dsimp only
    rw [if_neg (not_lt.mpr hstart)]
  rw [hrun] at hslice
  obtain ⟨tss, htss⟩ : ∃ tss, ((ts.timeSlice ++
      List.replicate ((t - ts.startFor t).toNat + 1 - ts.timeSlice.length) emptySlice).modify
        (t - ts.startFor t).toNat (fun tss => { tss with timeNumber := t }))[(t - ts.startFor t).toNat]? =
          some tss := by
    refine ⟨_, List.getElem?_eq_getElem ?_⟩
    simp
    omega
  refine ⟨_, tss, hrun, hstart, htss, ?_, hslice⟩
  rw [← hslice t]
  exact (sliceAt_index (not_lt.mpr hstart) htss).symm

end Llprof.Monitor.Slices
