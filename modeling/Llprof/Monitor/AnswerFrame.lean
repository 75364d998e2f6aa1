import Llprof.Monitor.DiffAnswers
import Llprof.Monitor.TickFrame

namespace Llprof.Monitor.AnswerFrame

open Faulting hiding store
open Lockstep Nodes SlotLoops FlushSpec Slices MergeSlices SliceFrame SliceContents SlicesKnown
  Answers DiffAnswers TickFrame

variable {gl : Settings} {ds : DataStore} {ts ts' ts'' : ThreadStore} {p1 stop : Int} {c : Bool}

/-- A range does not make a slice past the time `t` the first one. -/
def InReach (t p1 stop : Int) : Prop := stop + 1 < p1 ∨ min p1 stop ≤ t

/-- A range that asks for slices does not end before the time `t`. -/
def UpToDate (t p1 stop : Int) : Prop := stop < p1 ∨ t ≤ stop

instance (t p1 stop : Int) : Decidable (InReach t p1 stop) := inferInstanceAs (Decidable (_ ∨ _))

instance (t p1 stop : Int) : Decidable (UpToDate t p1 stop) := inferInstanceAs (Decidable (_ ∨ _))

theorem merged_like (h : Like ts ts') (p1 : Int) (n : Nat) :
    merged gl ds ts' p1 n = merged gl ds ts p1 n := by
  have hnode : mergeNode gl ds ts' = mergeNode gl ds ts := by
    rw [h.rest]
    rfl
  simp only [merged, hnode, h.content]

theorem mem_iff_deltaAt {slice : Slice} {k : NodeID} : k ∈ slice ↔ (deltaAt slice k).isSome = true := by
  rw [deltaAt, Option.isSome_map, Std.TreeMap.mem_iff_isSome_getElem?]

theorem merged_total (gl : Settings) (hd : Described ds) (hok : SlicesOk ds ts) (p1 : Int) (n : Nat) :
    ∃ m, merged gl ds ts p1 n = .ok m ∧ SizedSlice ds m ∧ ∀ k, k ∈ m ↔
      ∃ i < n, k ∈ (contentAt ts (p1 + (i : Nat))).tree := by
  apply forRange_total n
    (fun i integrated => SizedSlice ds integrated ∧ ∀ k, k ∈ integrated ↔
      ∃ j < i, k ∈ (contentAt ts (p1 + (j : Nat))).tree)
  · rintro i integrated - ⟨hsize, hmem⟩
    obtain ⟨next, hrun, hnext, hmerge⟩ :=
      mergeNodes_ok gl hd ts (sliceAt ts (p1 + i)) (hok.known _) hsize (hok.sized _)
    refine ⟨next, ?_, hnext, fun k => ?_⟩
    · rw [contentAt_tree]
      exact hrun
    · rw [mem_iff_deltaAt, hmerge, Option.isSome_merge, Bool.or_eq_true, ← mem_iff_deltaAt,
        ← mem_iff_deltaAt, hmem, Nat.exists_lt_succ_right, contentAt_tree]
  · refine ⟨sizedSlice_empty, fun k => ⟨fun hk => absurd hk Std.TreeMap.not_mem_emptyc, ?_⟩⟩
    rintro ⟨j, hj, -⟩
    exact absurd hj (Nat.not_lt_zero j)

theorem asked_reaches {t : Int} (h : Asked p1 stop ts ts') (hr : Reaches ts t) (hin : InReach t p1 stop) :
    Reaches ts' t := by
  rcases lt_trichotomy (stop + 1) p1 with hnothing | hbefore | hrange
  · rw [h.nothing hnothing]
    exact hr
  · right
    rw [(h.before hbefore.symm).start]
    exact hr.startFor_le (by rw [InReach] at hin; omega)
  · right
    rw [(h.range (by omega)).start]
    exact hr.startFor_le (by rw [InReach] at hin; omega)

theorem atRest_asked (h : AtRest c ds ts ts') (hask : Asked p1 stop ts' ts'')
    (hin : c = true → InReach ds.currentTimeNumber p1 stop) : AtRest c ds ts ts'' := by
  have hlike := h.like.trans hask.like
  cases c with
  | false =>
      have h : Paired ds ts ts' := h
      obtain ⟨hstart, hne⟩ := hask.keeps h.slices'
      exact ⟨hlike, hstart.trans h.start, h.reaches, h.slices, hne, h.ok⟩
  | true =>
      have h : Cleared ds ts ts' := h
      exact ⟨⟨hlike, h.reaches, asked_reaches hask h.reaches' (hin rfl)⟩, h.blank⟩

theorem lastOf_like (h : AtRest c ds ts ts') (hin : c = true → InReach ds.currentTimeNumber p1 stop)
    (hup : c = true → UpToDate ds.currentTimeNumber p1 stop) : lastOf ts' p1 stop = lastOf ts p1 stop := by
  have hlike := h.like
  cases c with
  | false =>
      have h : Paired ds ts ts' := h
      simp only [lastOf, h.startFor, hlike.content]
  | true =>
      have h : Cleared ds ts ts' := h
      have hin := hin rfl
      have hup := hup rfl
      rw [InReach] at hin
      rw [UpToDate] at hup
      by_cases hrange : p1 ≤ stop
      · have hfirst := h.reaches.startFor_le (show p1 ≤ _ by omega)
        have hfirst' := h.reaches'.startFor_le (show p1 ≤ _ by omega)
        rw [lastOf, lastOf, if_pos ⟨hrange, by omega⟩, if_pos ⟨hrange, by omega⟩]
        simp only [hlike.content, h.blank]
      · rw [lastOf, lastOf, if_neg (fun hr => hrange hr.1), if_neg (fun hr => hrange hr.1)]

theorem currentAnswer_like (h : Like ts ts') : currentAnswer ts' = currentAnswer ts := by
  rw [h.rest]
  rfl

theorem diffAnswer_like (h : AtRest c ds ts ts') (p2 : Int)
    (hin : c = true → InReach ds.currentTimeNumber p1 (stopOf ds p2))
    (hup : c = true → UpToDate ds.currentTimeNumber p1 (stopOf ds p2)) :
    Related (fun r r' => AtRest c ds r.1 r'.1 ∧ r'.2 = r.2) (diffAnswer gl ds ts p1 p2)
      (diffAnswer gl ds ts' p1 p2) := by
  obtain ⟨a, hask, hrun⟩ := diffAnswer_spec gl ds ts p1 p2
  obtain ⟨a', hask', hrun'⟩ := diffAnswer_spec gl ds ts' p1 p2
  have hid : ts'.threadId = ts.threadId := by
    rw [h.like.rest]
    rfl
  rw [hrun, hrun', merged_like h.like, lastOf_like h hin hup, hid]
  apply related_same_bind
  intro m _
  exact ⟨(atRest_asked (atRest_asked h hask' hin).symm hask hin).symm, rfl⟩

theorem diffAnswer_inserted (h : AtRest c ds ts ts') (hd : Described ds) (p2 : Int)
    (hin : c = true → InReach ds.currentTimeNumber p1 (stopOf ds p2)) :
    ∃ r, diffAnswer gl ds ts' p1 p2 = .ok r ∧ AtRest c ds ts r.1 := by
  obtain ⟨a, hask, hrun⟩ := diffAnswer_spec gl ds ts' p1 p2
  obtain ⟨m, hm, -⟩ := merged_total gl hd h.symm.slicesOk p1 (stopOf ds p2 + 1 - p1).toNat
  rw [hrun, hm]
  exact ⟨_, rfl, atRest_asked h hask hin⟩

end Llprof.Monitor.AnswerFrame
