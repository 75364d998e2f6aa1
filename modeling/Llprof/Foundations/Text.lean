import Mathlib.Data.List.Basic
import Mathlib.Tactic.Common

namespace Llprof.Text

variable {α : Type} [DecidableEq α]

/-- `find_first_of` with a single character; `none` stands for `npos`. -/
def findFirstOf (c : α) (s : List α) (i : Nat) : Option Nat := ((s.drop i).idxOf? c).map (i + ·)

/-- `substr`, for a position that is not past the end. -/
def substr (s : List α) (i n : Nat) : List α := (s.drop i).take n

def find (pat : List α) : List α → Option Nat
  | [] => if pat = [] then some 0 else none
  | c :: s => if pat <+: c :: s then some 0 else (find pat s).map (· + 1)

theorem find_eq_some {pat s : List α} {i : Nat} (h : find pat s = some i) :
    i + pat.length ≤ s.length ∧ pat <+: s.drop i := by
  induction s generalizing i with
  | nil =>
      rw [find] at h
      split at h
      · rename_i hp
        cases h
        simp [hp]
      · cases h
  | cons c s ih =>
      rw [find] at h
      split at h
      · rename_i hp
        cases h
        exact ⟨by simpa using hp.length_le, hp⟩
      · obtain ⟨j, hj, rfl⟩ := Option.map_eq_some_iff.mp h
        obtain ⟨hlen, hp⟩ := ih hj
        rw [List.length_cons, List.drop_succ_cons]
        exact ⟨by omega, hp⟩

theorem find_at_start {pat s : List α} (h : pat <+: s) : find pat s = some 0 := by
  cases s with
  | nil => rw [find, if_pos (List.prefix_nil.mp h)]
  | cons c s => rw [find, if_pos h]

theorem find_cons {pat s : List α} {c : α} (h : ¬ pat <+: c :: s) :
    find pat (c :: s) = (find pat s).map (· + 1) := by
  rw [find, if_neg h]

theorem find_le {pat s : List α} {i j : Nat} (h : find pat s = some i) (hj : pat <+: s.drop j)
    (hlen : j ≤ s.length) : i ≤ j := by
  induction s generalizing i j with
  | nil =>
      rw [List.length_nil, Nat.le_zero] at hlen
      rw [List.drop_nil] at hj
      rw [find_at_start hj, Option.some.injEq] at h
      omega
  | cons c s ih =>
      by_cases hstart : pat <+: c :: s
      · rw [find_at_start hstart, Option.some.injEq] at h
        exact h ▸ Nat.zero_le j
      · rw [find_cons hstart] at h
        obtain ⟨i, hi, rfl⟩ := Option.map_eq_some_iff.mp h
        cases j with
        | zero => exact absurd hj hstart
        | succ j => exact Nat.succ_le_succ (ih hi hj (Nat.le_of_succ_le_succ hlen))

theorem find_eq_none {pat s : List α} : find pat s = none ↔ ¬ pat <:+: s := by
  induction s with
  | nil =>
      rw [find, List.infix_nil]
      split <;> simp_all
  | cons c s ih =>
      rw [List.infix_cons_iff, not_or, ← ih]
      by_cases h : pat <+: c :: s
      · simp [find_at_start h, h]
      · simp [find_cons h, h]

theorem find_append {pat w : List α} (s : List α) (h : ∀ u v, w = u ++ v → v ≠ [] → ¬ pat <+: v ++ s) :
    find pat (w ++ s) = (find pat s).map (· + w.length) := by
  induction w with
  | nil => simp
  | cons c w ih =>
      have hw := ih fun u v he hv => h (c :: u) v (by rw [he, List.cons_append]) hv
      have hc : ¬ pat <+: c :: (w ++ s) := h [] (c :: w) rfl (List.cons_ne_nil c w)
      rw [List.cons_append, find_cons hc, hw, Option.map_map]
      rfl

theorem findFirstOf_eq_none {c : α} {s : List α} {i : Nat} : findFirstOf c s i = none ↔ c ∉ s.drop i := by
  simp [findFirstOf]

theorem findFirstOf_eq_some {c : α} {s : List α} {i n : Nat} (h : findFirstOf c s i = some n) :
    i ≤ n ∧ n < s.length ∧ c ∉ substr s i (n - i) ∧ s.drop i = substr s i (n - i) ++ c :: s.drop (n + 1) := by
  simp only [findFirstOf, Option.map_eq_some_iff, List.idxOf?_eq_some_iff] at h
  obtain ⟨k, ⟨hk, hc, hne⟩, rfl⟩ := h
  have hlt : i + k < s.length := by
    rw [List.length_drop] at hk
    omega
  refine ⟨by omega, hlt, ?_, ?_⟩
  · intro hm
    obtain ⟨j, hj, he⟩ := List.getElem_of_mem hm
    simp only [substr, List.length_take, Nat.add_sub_cancel_left] at hj
    apply hne j (by omega)
    rw [← he]
    simp [substr]
  · have hd : s.drop (i + k) = c :: s.drop (i + k + 1) := by
      rw [List.drop_eq_getElem_cons hlt, ← hc]
      simp
    calc s.drop i = (s.drop i).take k ++ (s.drop i).drop k := (List.take_append_drop k _).symm
      _ = substr s i (i + k - i) ++ c :: s.drop (i + k + 1) := by
        rw [List.drop_drop, hd, substr, Nat.add_sub_cancel_left]

theorem find_singleton (c : α) (s : List α) : find [c] s = findFirstOf c s 0 := by
  induction s with
  | nil => rfl
  | cons d s ih =>
      rw [find, ih, findFirstOf, findFirstOf, List.drop_zero, List.drop_zero, List.idxOf?_cons]
      by_cases h : d = c
      · simp [h]
      · have hc : ¬ c = d := Ne.symm h
        simp [h, hc, Function.comp_def]

theorem findFirstOf_append_cons {c : α} {s : List α} (h : c ∉ s) (t : List α) :
    findFirstOf c (s ++ c :: t) 0 = some s.length := by
  rw [findFirstOf, List.drop_zero]
  induction s with
  | nil => simp [List.idxOf?_cons]
  | cons d s ih =>
      rw [List.mem_cons, not_or] at h
      have hd : (d == c) = false := beq_false_of_ne (Ne.symm h.1)
      have hs := ih h.2
      simp only [Nat.zero_add, Option.map_id'] at hs
      rw [List.cons_append, List.idxOf?_cons, hd, hs]
      simp

theorem splitOn_of_not_mem {c : α} {s : List α} (h : c ∉ s) : s.splitOn c = [s] := by
  rw [List.splitOn_eq_splitOnP]
  apply List.splitOnP_eq_singleton
  intro x hx
  exact beq_false_of_ne (ne_of_mem_of_not_mem hx h)

theorem splitOn_append_cons {c : α} {s : List α} (h : c ∉ s) (t : List α) :
    (s ++ c :: t).splitOn c = s :: t.splitOn c := by
  rw [List.splitOn_eq_splitOnP]
  apply List.splitOnP_append_cons_of_forall_mem
  · intro x hx
    exact beq_false_of_ne (ne_of_mem_of_not_mem hx h)
  · exact beq_self_eq_true c

theorem splitOn_drop_none {c : α} {s : List α} {i : Nat} (h : findFirstOf c s i = none) :
    (s.drop i).splitOn c = [s.drop i] :=
  splitOn_of_not_mem (findFirstOf_eq_none.mp h)

theorem splitOn_drop_some {c : α} {s : List α} {i n : Nat} (h : findFirstOf c s i = some n) :
    (s.drop i).splitOn c = substr s i (n - i) :: (s.drop (n + 1)).splitOn c := by
  obtain ⟨-, -, hc, he⟩ := findFirstOf_eq_some h
  rw [he]
  exact splitOn_append_cons hc _

end Llprof.Text
