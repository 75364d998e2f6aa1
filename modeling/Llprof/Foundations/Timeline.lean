import Mathlib.Data.List.Basic
import Mathlib.Tactic.Common

namespace Llprof.Timeline

variable {δ M : Type} {time : δ → Int}

def through (time : δ → Int) (xs : List δ) (t : Int) : List δ := xs.filter (fun d => time d ≤ t)

theorem through_append_after {xs : List δ} (h : (xs.map time).Pairwise (· < ·)) (t : Int) :
    through time xs t ++ xs.filter (fun d => t < time d) = xs := by
  induction xs with
  | nil => rfl
  | cons x xs ih =>
      rw [List.map_cons, List.pairwise_cons] at h
      rw [through, List.filter_cons, List.filter_cons]
      by_cases hx : time x ≤ t
      · rw [if_pos (by simpa using hx), if_neg (by simpa using hx), List.cons_append]
        exact congrArg (x :: ·) (ih h.2)
      · have hnone : xs.filter (fun d => time d ≤ t) = [] := by
          rw [List.filter_eq_nil_iff]
          intro y hy
          have := h.1 _ (List.mem_map_of_mem hy)
          simp
          omega
        have hall : xs.filter (fun d => t < time d) = xs := by
          rw [List.filter_eq_self]
          intro y hy
          have := h.1 _ (List.mem_map_of_mem hy)
          simp
          omega
        rw [if_neg (by simpa using hx), hnone, if_pos (by simpa using hx), hall, List.nil_append]

theorem through_prefix {xs : List δ} (h : (xs.map time).Pairwise (· < ·)) (t : Int) :
    through time xs t <+: xs :=
  ⟨_, through_append_after h t⟩

theorem through_until {xs : List δ} {s t : Int} (h : s ≤ t) :
    through time (through time xs t) s = through time xs s := by
  rw [through, through, through, List.filter_filter]
  refine List.filter_congr fun x _ => ?_
  by_cases hx : time x ≤ s
  · have := Int.le_trans hx h
    simp [hx, this]
  · simp [hx]

theorem through_append {xs ys : List δ} {t : Int} (hxs : ∀ d ∈ xs, time d ≤ t) (hys : ∀ d ∈ ys, t < time d) :
    through time (xs ++ ys) t = xs := by
  have hall : xs.filter (fun d => time d ≤ t) = xs :=
    List.filter_eq_self.mpr fun d hd => decide_eq_true (hxs d hd)
  have hnone : ys.filter (fun d => time d ≤ t) = [] := by
    rw [List.filter_eq_nil_iff]
    intro d hd hle
    exact Int.not_lt.mpr (of_decide_eq_true hle) (hys d hd)
  rw [through, List.filter_append, hall, hnone, List.append_nil]

theorem through_succ {xs : List δ} (h : (xs.map time).Pairwise (· < ·)) (t : Int) :
    (through time xs (t + 1) = through time xs t ∧ ∀ d ∈ xs, time d ≠ t + 1) ∨
      ∃ d, time d = t + 1 ∧ through time xs (t + 1) = through time xs t ++ [d] := by
  have hsub : ((through time xs (t + 1)).map time).Pairwise (· < ·) := h.sublist (List.filter_sublist.map _)
  have hsplit := through_append_after hsub t
  rw [through_until (by omega)] at hsplit
  have hone (y : δ) (hy : y ∈ (through time xs (t + 1)).filter (fun d => t < time d)) : time y = t + 1 := by
    rw [List.mem_filter, through, List.mem_filter] at hy
    simp at hy
    omega
  cases hrest : (through time xs (t + 1)).filter (fun d => t < time d) with
  | nil =>
      left
      rw [hrest, List.append_nil] at hsplit
      refine ⟨hsplit.symm, fun d hd ht => ?_⟩
      have hmem : d ∈ (through time xs (t + 1)).filter (fun d => t < time d) := by
        rw [List.mem_filter, through, List.mem_filter, decide_eq_true_iff, decide_eq_true_iff, ht]
        exact ⟨⟨hd, Int.le_refl _⟩, by omega⟩
      rw [hrest] at hmem
      cases hmem
  | cons d rest =>
      right
      rw [hrest] at hsplit hone
      have hd := hone d List.mem_cons_self
      refine ⟨d, hd, ?_⟩
      cases rest with
      | nil => exact hsplit.symm
      | cons e rest =>
          have he := hone e (by simp)
          rw [← hsplit, List.map_append, List.pairwise_append] at hsub
          have := hsub.2.1
          rw [List.map_cons, List.map_cons, List.pairwise_cons] at this
          have := this.1 (time e) (by simp)
          omega

def gathered (f : M → M → M) (delta : Int → Option M) (b : Int) (n : Nat) : Option M :=
  (List.range n).foldl (fun acc (i : Nat) => Option.merge f acc (delta (b + 1 + i))) none

theorem gathered_succ (f : M → M → M) (delta : Int → Option M) (b : Int) (n : Nat) :
    gathered f delta b (n + 1) = Option.merge f (gathered f delta b n) (delta (b + 1 + n)) := by
  rw [gathered, List.range_succ, List.foldl_append]
  rfl

theorem gathered_isSome {f : M → M → M} {delta : Int → Option M} {b : Int} {n i : Nat} (hi : i < n)
    (h : (delta (b + 1 + i)).isSome = true) : (gathered f delta b n).isSome = true := by
  induction n with
  | zero => omega
  | succ n ih =>
      rw [gathered_succ]
      by_cases he : i = n
      · subst he
        cases hg : gathered f delta b i with
        | none => simpa using h
        | some a =>
            obtain ⟨d, hd⟩ := Option.isSome_iff_exists.mp h
            rw [hd]
            rfl
      · obtain ⟨a, ha⟩ := Option.isSome_iff_exists.mp (ih (by omega))
        rw [ha]
        cases delta (b + 1 + n) <;> rfl

theorem merge_assoc {f : M → M → M} (hf : ∀ a b c, f (f a b) c = f a (f b c)) (a b c : Option M) :
    Option.merge f (Option.merge f a b) c = Option.merge f a (Option.merge f b c) := by
  cases a <;> cases b <;> cases c <;> simp [hf]

/-- When every tick merges its change into a state, a stretch of ticks merges
what the changes add up to. -/
theorem telescope {f : M → M → M} (hf : ∀ a b c, f (f a b) c = f a (f b c)) (state : Int → Option M)
    {delta : Int → Option M}
    (hstep : ∀ t, state (t + 1) = Option.merge f (state t) (delta (t + 1))) (b : Int) (n : Nat) :
    state (b + n) = Option.merge f (state b) (gathered f delta b n) := by
  induction n with
  | zero => simp [gathered]
  | succ n ih =>
      rw [gathered_succ, ← merge_assoc hf, ← ih, show b + ((n + 1 : Nat) : Int) = b + n + 1 by omega, hstep,
        show b + 1 + (n : Int) = b + n + 1 by omega]

end Llprof.Timeline
