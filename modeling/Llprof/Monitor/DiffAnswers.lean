import Llprof.Monitor.Answers
import Llprof.Monitor.SlicesKnown

namespace Llprof.Monitor.DiffAnswers

open Faulting hiding store
open Nodes Store SlotLoops FlushSpec Slices MergeSlices SliceFrame SliceContents SlicesKnown Answers

variable {gl : Settings} {ds : DataStore} {ts : ThreadStore}

def merged (gl : Settings) (ds : DataStore) (ts : ThreadStore) (p1 : Int) (n : Nat) : Run Slice :=
  forRange n (fun integrated i => (contentAt ts (p1 + i)).tree.toList.foldlM (mergeNode gl ds ts) integrated)
    ∅

def lastOf (ts : ThreadStore) (p1 stop : Int) : Option LastSlice :=
  if p1 ≤ stop ∧ ts.startFor p1 ≤ stop then
    some ⟨(contentAt ts stop).nowValues, some (contentAt ts (max (p1 - 1) (ts.startFor p1))).nowValues,
      (contentAt ts stop).runningNode⟩
  else
    none

theorem forRange_succ {σ : Type} (n : Nat) (f : σ → Nat → Run σ) (s : σ) :
    forRange (n + 1) f s = forRange n f s >>= fun s => f s n := by
  rw [forRange, List.range_succ, List.foldlM_append, forRange]
  congr 1
  funext t
  rw [List.foldlM_cons]
  cases f t n with
  | error e => rfl
  | ok u => rfl

theorem getTimeSlice_opened (ts : ThreadStore) (t : Int) :
    ∃ ts' r, ts.getTimeSlice t = (ts', r) ∧ Like ts ts' ∧ Opened t ts ts' ∧
      ts.timeSlice.length ≤ ts'.timeSlice.length ∧ ((ts.startFor t ≤ t ∧ r = some (t - ts.startFor t).toNat ∧
        ∃ tss, ts'.timeSlice[(t - ts.startFor t).toNat]? = some tss ∧ content tss = contentAt ts t) ∨
      (t < ts.startFor t ∧ r = none ∧ ts' = ts)) := by
  by_cases h : Reaches ts t
  · obtain ⟨slices, tss, hget, htss, hcontent, hall, hlen, -⟩ := getTimeSlice_reaches h
    refine ⟨_, _, hget, ⟨rfl, hall⟩, ⟨rfl, ?_⟩, hlen, Or.inl ⟨h.startFor, rfl, tss, htss, hcontent⟩⟩
    rintro hnil
    change slices = [] at hnil
    rw [hnil] at htss
    cases htss
  · have hnot := getTimeSlice_not h
    rw [Reaches, not_or, not_le] at h
    have hfor := startFor_of_ne_nil h.1 t
    exact ⟨ts, none, hnot, Like.refl ts, ⟨hfor.symm, h.1⟩, le_refl _,
      Or.inr ⟨by rw [hfor]; exact h.2, rfl, rfl⟩⟩

theorem startLoop_spec (n : Nat) (ts : ThreadStore) (t : Int) (hn : 0 < n) :
    ∃ ts' r, startLoop n ts t = (ts', r) ∧ Like ts ts' ∧ Opened t ts ts' ∧
      ts.timeSlice.length ≤ ts'.timeSlice.length ∧
      (ts.startFor t < t + n → ∃ i tss, r = some i ∧ ts'.timeSlice[i]? = some tss ∧
        content tss = contentAt ts (max t (ts.startFor t))) ∧
      (t + n ≤ ts.startFor t → r = none) := by
  induction n generalizing t with
  | zero => omega
  | succ n ih =>
      obtain ⟨ts', r, hget, hlike, hopen, hlen, ⟨hle, rfl, tss, htss, hcontent⟩ | ⟨hlt, rfl, rfl⟩⟩ :=
        getTimeSlice_opened ts t
      · refine ⟨ts', _, by rw [startLoop, hget], hlike, hopen, hlen, fun _ => ⟨_, tss, rfl, htss, ?_⟩, fun h => by omega⟩
        rw [hcontent, max_eq_left hle]
      · have hfor (u : Int) : ts'.startFor u = ts'.startTimeNumber := startFor_of_ne_nil hopen.slices u
        rw [hfor] at hlt
        by_cases hzero : n = 0
        · subst hzero
          refine ⟨ts', none, by rw [startLoop, hget]; rfl, hlike, hopen, hlen, fun h => ?_, fun _ => rfl⟩
          rw [hfor] at h
          omega
        · obtain ⟨ts'', r, hrun, hlike', hopen', hlen', hfound, hnone⟩ := ih (t + 1) (by omega)
          refine ⟨ts'', r, by rw [startLoop, hget]; exact hrun, hlike', ⟨?_, hopen'.slices⟩, hlen', fun h => ?_, fun h => ?_⟩
          · rw [hopen'.start, hfor, hfor]
          · rw [hfor] at h hfound ⊢
            rw [max_eq_right (by omega)] at hfound ⊢
            exact hfound (by omega)
          · rw [hfor] at h hnone
            exact hnone (by omega)

theorem getStartProfileValue_spec (ts : ThreadStore) {p1 stop : Int} (h : p1 ≤ stop + 1) :
    ∃ ts' v, getStartProfileValue ts p1 stop = .ok (ts', v) ∧ Like ts ts' ∧ Opened (p1 - 1) ts ts' ∧
      ts.timeSlice.length ≤ ts'.timeSlice.length ∧
      (ts.startFor (p1 - 1) ≤ stop → v = some (contentAt ts (max (p1 - 1) (ts.startFor (p1 - 1)))).nowValues) := by
  obtain ⟨ts', r, hloop, hlike, hopen, hlen, hfound, hnone⟩ :=
    startLoop_spec (stop + 2 - p1).toNat ts (p1 - 1) (by omega)
  rw [getStartProfileValue, hloop]
  by_cases hreach : ts.startFor (p1 - 1) ≤ stop
  · obtain ⟨i, tss, rfl, htss, hcontent⟩ := hfound (by omega)
    refine ⟨ts', some tss.nowValues, ?_, hlike, hopen, hlen, fun _ => ?_⟩
    · dsimp only
      rw [fetch_eq_ok.mpr htss]
      rfl
    · rw [← hcontent]
      rfl
  · obtain rfl := hnone (by omega)
    exact ⟨ts', none, rfl, hlike, hopen, hlen, fun h => absurd h hreach⟩

/-- The state of `MergeTimeSlice` after `n` times does not depend on what it merges. -/
theorem mergeTimes_spec (gl : Settings) (ds : DataStore) (ts : ThreadStore) (p1 : Int) (n : Nat) :
    ∃ ts' last, forRange n (fun st i => mergeTime gl ds st (p1 + i)) ⟨ts, ∅, none⟩ =
        (merged gl ds ts p1 n >>= fun m => .ok ⟨ts', m, last⟩) ∧ Like ts ts' ∧
      (n = 0 → ts' = ts ∧ last = none) ∧
      (0 < n → Opened p1 ts ts') ∧
      (ts.startFor p1 < p1 + n → 0 < n → last = some (p1 + n - 1 - ts.startFor p1).toNat ∧
        ∃ tss, ts'.timeSlice[(p1 + n - 1 - ts.startFor p1).toNat]? = some tss) ∧
      (p1 + n ≤ ts.startFor p1 → last = none) := by
  induction n with
  | zero => exact ⟨ts, none, rfl, Like.refl ts, fun _ => ⟨rfl, rfl⟩,
    fun h => by omega, fun _ h => by omega, fun _ => rfl⟩
  | succ n ih =>
      obtain ⟨ts₁, last, hrun, hlike, hzero, hopen, -, hlast⟩ := ih
      have hfor : ts₁.startFor (p1 + n) = ts.startFor p1 := by
        by_cases hn : n = 0
        · rw [(hzero hn).1, hn]
          simp
        · have hopen := hopen (by omega)
          rw [startFor_of_ne_nil hopen.slices, hopen.start]
      have hfirst {ts₂ : ThreadStore} (h : Opened (p1 + n) ts₁ ts₂) : Opened p1 ts ts₂ :=
        ⟨h.start.trans hfor, h.slices⟩
      have hmerge (ts₂ : ThreadStore) (h : Like ts₁ ts₂) : mergeNode gl ds ts₂ = mergeNode gl ds ts := by
        rw [(hlike.trans h).rest]
        rfl
      have hidx : p1 + (n + 1 : Nat) - 1 - ts.startFor p1 = p1 + n - ts.startFor p1 := by omega
      rw [hidx, forRange_succ, merged, forRange_succ, ← merged, hrun, bind_assoc]
      obtain ⟨ts₂, r, hget, hlike₂, hopen₂, -, ⟨hle, rfl, tss, htss, hcontent⟩ | ⟨hlt, rfl, rfl⟩⟩ :=
        getTimeSlice_opened ts₁ (p1 + n)
      · rw [hfor] at hle htss hget
        have htree : tss.tree = (contentAt ts (p1 + n)).tree := by
          rw [← hlike.content, ← hcontent]
          rfl
        refine ⟨ts₂, some (p1 + n - ts.startFor p1).toNat, ?_, hlike.trans hlike₂, fun h => by omega,
          fun _ => hfirst hopen₂, fun _ _ => ⟨rfl, tss, htss⟩, fun h => by omega⟩
        rw [bind_assoc]
        congr 1
        funext m
        rw [ok_bind, mergeTime, hget]
        dsimp only
        rw [fetch_eq_ok.mpr htss, ok_bind, htree, hmerge ts₂ hlike₂]
        rfl
      · rw [hfor] at hlt
        have hempty : (contentAt ts (p1 + n)).tree = ∅ := by
          rw [← hlike.content, contentAt, readAt, if_pos]
          · rfl
          · rw [hopen₂.start, hfor]
            exact hlt
        refine ⟨ts₂, last, ?_, hlike, fun h => by omega, fun _ => hfirst hopen₂, fun h => by omega, fun _ => hlast (by omega)⟩
        rw [bind_assoc]
        congr 1
        funext m
        rw [ok_bind, mergeTime, hget, hempty]
        rfl

/-- What a diff does to the slices: the first time it asks for may become the first one. -/
structure Asked (p1 stop : Int) (ts ts' : ThreadStore) : Prop where
  like : Like ts ts'
  range : p1 ≤ stop → Opened p1 ts ts'
  before : p1 = stop + 1 → Opened stop ts ts'
  nothing : stop + 1 < p1 → ts' = ts

theorem Asked.keeps (h : Asked p1 stop ts ts') (hne : ts.timeSlice ≠ []) :
    ts'.startTimeNumber = ts.startTimeNumber ∧ ts'.timeSlice ≠ [] := by
  rcases lt_trichotomy (stop + 1) p1 with hnothing | hbefore | hrange
  · rw [h.nothing hnothing]
    exact ⟨rfl, hne⟩
  · have ho := h.before hbefore.symm
    exact ⟨ho.start.trans (startFor_of_ne_nil hne _), ho.slices⟩
  · have ho := h.range (by omega)
    exact ⟨ho.start.trans (startFor_of_ne_nil hne _), ho.slices⟩

/-- The last time of a range; 0 stands for the current one. -/
def stopOf (ds : DataStore) (p2 : Int) : Int := if p2 = 0 then ds.currentTimeNumber else p2

/-- What a diff answers depends on what the slices hold, and beyond that on the time
of the first slice only. -/
theorem diffAnswer_spec (gl : Settings) (ds : DataStore) (ts : ThreadStore) (p1 p2 : Int) :
    ∃ ts', Asked p1 (stopOf ds p2) ts ts' ∧ diffAnswer gl ds ts p1 p2 =
      (merged gl ds ts p1 (stopOf ds p2 + 1 - p1).toNat >>= fun m =>
        .ok (ts', ⟨ts.threadId, .diff m.values (lastOf ts p1 (stopOf ds p2))⟩)) := by
  generalize hstop : stopOf ds p2 = stop
  obtain ⟨ts₁, last, hrun, hlike, hzero, hopen, hlast, hnone⟩ :=
    mergeTimes_spec gl ds ts p1 (stop + 1 - p1).toNat
  have hid : ts₁.threadId = ts.threadId := by
    rw [hlike.rest]
    rfl
  rw [diffAnswer, ← stopOf, hstop, mergeTimeSlice, hrun]
  simp only [bind_assoc, ok_bind]
  by_cases hnothing : stop + 1 < p1
  · have hn : (stop + 1 - p1).toNat = 0 := by omega
    obtain ⟨rfl, rfl⟩ := hzero hn
    have hstart : getStartProfileValue ts₁ p1 stop = .ok (ts₁, none) := by
      rw [getStartProfileValue, show (stop + 2 - p1).toNat = 0 by omega]
      rfl
    refine ⟨ts₁, ⟨Like.refl _, fun h => by omega, fun h => by omega, fun _ => rfl⟩, ?_⟩
    rw [hstart, lastOf, if_neg (by omega)]
    rfl
  · obtain ⟨ts₂, v, hstart, hlike₂, hopen₂, hlen, hv⟩ :=
      getStartProfileValue_spec ts₁ (show p1 ≤ stop + 1 by omega)
    have hid₂ : ts₂.threadId = ts.threadId := by
      rw [hlike₂.rest]
      exact hid
    have hend (hlastSlice : lastSlice ts₂ last v = .ok (lastOf ts p1 stop)) :
        (merged gl ds ts p1 (stop + 1 - p1).toNat >>= fun m => getStartProfileValue ts₁ p1 stop >>= fun r =>
          lastSlice r.1 last r.2 >>= fun l => pure (r.1, (⟨r.1.threadId, .diff m.values l⟩ : ThreadAnswer))) =
        (merged gl ds ts p1 (stop + 1 - p1).toNat >>= fun m =>
          .ok (ts₂, ⟨ts.threadId, .diff m.values (lastOf ts p1 stop)⟩)) := by
      simp only [hstart, ok_bind, hlastSlice, pure_eq_ok, hid₂]
    by_cases hrange : p1 ≤ stop
    · have hopen₁ := hopen (by omega)
      refine ⟨ts₂, ⟨hlike.trans hlike₂, fun _ => hopen₁.trans hopen₂, fun h => by omega, fun h => by omega⟩,
        hend ?_⟩
      have hfor : ts₁.startFor (p1 - 1) = ts.startFor p1 := by
        rw [startFor_of_ne_nil hopen₁.slices, hopen₁.start]
      rw [hfor] at hv
      by_cases hreach : ts.startFor p1 ≤ stop
      · obtain ⟨rfl, tss, htss⟩ := hlast (by omega) (by omega)
        have hidx : (p1 + ((stop + 1 - p1).toNat : Nat) - 1 - ts.startFor p1).toNat =
            (stop - ts.startFor p1).toNat := by
          omega
        rw [hidx] at htss ⊢
        obtain ⟨tss₂, htss₂⟩ : ∃ tss₂, ts₂.timeSlice[(stop - ts.startFor p1).toNat]? = some tss₂ :=
          ⟨_, List.getElem?_eq_getElem ((List.getElem?_eq_some_iff.mp htss).1.trans_le hlen)⟩
        have hcontent : content tss₂ = contentAt ts stop := by
          have hstart₂ : ts₂.startTimeNumber = ts.startFor p1 := hopen₂.start.trans hfor
          have hindex :=
            @contentAt_index ts₂ stop (by rw [hstart₂]; exact hreach) tss₂ (by rw [hstart₂]; exact htss₂)
          rw [← hindex, hlike₂.content, hlike.content]
        rw [lastSlice, fetch_eq_ok.mpr htss₂, ok_bind, lastOf, if_pos ⟨hrange, hreach⟩, hv hreach,
          hlike.content, ← hcontent]
        rfl
      · obtain rfl := hnone (by omega)
        rw [lastOf, if_neg (fun h => hreach h.2)]
        rfl
    · obtain ⟨rfl, rfl⟩ := hzero (by omega)
      refine ⟨ts₂, ⟨hlike₂, fun h => by omega, fun h => ?_, fun h => by omega⟩, hend ?_⟩
      · rw [h, show stop + 1 - 1 = stop by omega] at hopen₂
        exact hopen₂
      · rw [lastOf, if_neg (fun h => hrange h.1)]
        rfl

end Llprof.Monitor.DiffAnswers
