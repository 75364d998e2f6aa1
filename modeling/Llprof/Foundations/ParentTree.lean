import Mathlib.Algebra.BigOperators.Group.Finset.Basic
import Mathlib.Logic.Relation
import Mathlib.Tactic.Abel
import Mathlib.Tactic.Common

namespace Llprof.ParentTree

variable {α : Type} {parent : α → Option α}

/-- The links from a node to its parent lead from `j` up to `k`. -/
def Below (parent : α → Option α) (k j : α) : Prop := Relation.ReflTransGen (fun c p => parent c = some p) j k

theorem Below.refl (k : α) : Below parent k k := Relation.ReflTransGen.refl

theorem Below.child {k c j : α} (hc : parent c = some k) (h : Below parent c j) : Below parent k j :=
  Relation.ReflTransGen.tail h hc

theorem Below.up {k p j : α} (hp : parent j = some p) (h : Below parent k p) : Below parent k j :=
  Relation.ReflTransGen.head hp h

theorem below_iff_child {k j : α} : Below parent k j ↔ j = k ∨ ∃ c, parent c = some k ∧ Below parent c j := by
  constructor
  · intro h
    obtain rfl | ⟨c, hc, hk⟩ := Relation.ReflTransGen.cases_tail h
    · exact Or.inl rfl
    · exact Or.inr ⟨c, hk, hc⟩
  · rintro (rfl | ⟨c, hc, h⟩)
    · exact Below.refl _
    · exact h.child hc

theorem below_iff_parent {k j : α} : Below parent k j ↔ j = k ∨
    ∃ p, parent j = some p ∧ Below parent k p := by
  constructor
  · intro h
    obtain rfl | ⟨p, hp, hk⟩ := Relation.ReflTransGen.cases_head h
    · exact Or.inl rfl
    · exact Or.inr ⟨p, hp, hk⟩
  · rintro (rfl | ⟨p, hp, h⟩)
    · exact Below.refl _
    · exact h.up hp

theorem Below.congr {parent' : α → Option α} {k j : α} (h : Below parent k j)
    (he : ∀ c p, parent c = some p → parent' c = some p) : Below parent' k j :=
  Relation.ReflTransGen.mono (fun c p hp => he c p hp) _ _ h

theorem below_congr_of_closed {parent' : α → Option α} {S : α → Prop} (he : ∀ y, S y → parent' y = parent y)
    (hS : ∀ y q, S y → parent y = some q → S q) {k x : α} (hx : S x) : Below parent' k x ↔
    Below parent k x := by
  constructor
  · intro h
    induction h using Relation.ReflTransGen.head_induction_on with
    | refl => exact Below.refl _
    | head hp _ ih =>
        rw [he _ hx] at hp
        exact (ih (hS _ _ hx hp)).up hp
  · intro h
    induction h using Relation.ReflTransGen.head_induction_on with
    | refl => exact Below.refl _
    | head hp _ ih => exact (ih (hS _ _ hx hp)).up ((he _ hx).trans hp)

theorem Below.closed {S : α → Prop} (hS : ∀ c p, parent c = some p → S c → S p)
    {k j : α} (h : Below parent k j) (hj : S j) : S k := by
  induction h with
  | refl => exact hj
  | tail _ hp ih => exact hS _ _ hp ih

def Ranked (parent : α → Option α) (rank : α → Nat) : Prop := ∀ c p, parent c = some p → rank c = rank p + 1

variable {rank : α → Nat}

theorem Below.rank_le (hr : Ranked parent rank) {k j : α} (h : Below parent k j) : rank k ≤ rank j := by
  induction h with
  | refl => exact Nat.le_refl _
  | tail _ hp ih =>
      have := hr _ _ hp
      omega

theorem below_unique (hr : Ranked parent rank) {k k' j : α} (h : Below parent k j) (h' : Below parent k' j)
    (he : rank k = rank k') : k = k' := by
  induction h using Relation.ReflTransGen.head_induction_on with
  | refl =>
      obtain rfl | ⟨p, hp, hk⟩ := below_iff_parent.mp h'
      · rfl
      · have := hr _ _ hp
        have := hk.rank_le hr
        omega
  | head hp hk ih =>
      obtain rfl | ⟨p', hp', hk'⟩ := below_iff_parent.mp h'
      · have := hr _ _ hp
        have := Below.rank_le hr hk
        omega
      · rw [hp] at hp'
        cases hp'
        exact ih hk'

theorem not_below_of_parent (hr : Ranked parent rank) {k c : α} (hc : parent c = some k) :
    ¬ Below parent c k := by
  intro h
  have := h.rank_le hr
  have := hr _ _ hc
  omega

theorem below_children_unique (hr : Ranked parent rank) {k c c' j : α} (hc : parent c = some k)
    (hc' : parent c' = some k) (h : Below parent c j) (h' : Below parent c' j) : c = c' :=
  below_unique hr h h' ((hr _ _ hc).trans (hr _ _ hc').symm)

open Classical in
noncomputable def sumAt {ι M : Type} [AddCommMonoid M] (site : ι → α) (weight : ι → M) (xs : List ι) (k : α) :
    M :=
  ((xs.filter (fun x => site x = k)).map weight).sum

open Classical in
noncomputable def sumBelow {ι M : Type} [AddCommMonoid M] (parent : α → Option α)
    (site : ι → α) (weight : ι → M) (xs : List ι) (k : α) : M :=
  ((xs.filter (fun x => Below parent k (site x))).map weight).sum

section Sums

variable {ι M : Type} [AddCommMonoid M] {site : ι → α} {weight : ι → M}

theorem sumBelow_append (xs ys : List ι) (k : α) :
    sumBelow parent site weight (xs ++ ys) k = sumBelow parent site weight xs k +
      sumBelow parent site weight ys k := by
  simp [sumBelow]

theorem sumAt_append (xs ys : List ι) (k : α) :
    sumAt site weight (xs ++ ys) k = sumAt site weight xs k + sumAt site weight ys k := by
  simp [sumAt]

theorem sumBelow_eq_zero {xs : List ι} {k : α} (h : ∀ x ∈ xs, ¬ Below parent k (site x)) :
    sumBelow parent site weight xs k = 0 := by
  rw [sumBelow, List.filter_eq_nil_iff.mpr (by simpa using h), List.map_nil, List.sum_nil]

theorem sumAt_eq_zero {xs : List ι} {k : α} (h : ∀ x ∈ xs, site x ≠ k) : sumAt site weight xs k = 0 := by
  rw [sumAt, List.filter_eq_nil_iff.mpr (by simpa using h), List.map_nil, List.sum_nil]

open Classical in
theorem sumBelow_singleton (x : ι) (k : α) :
    sumBelow parent site weight [x] k = if Below parent k (site x) then weight x else 0 := by
  by_cases h : Below parent k (site x) <;> simp [sumBelow, h]

open Classical in
theorem sumAt_singleton (x : ι) (k : α) : sumAt site weight [x] k = if site x = k then weight x else 0 := by
  by_cases h : site x = k <;> simp [sumAt, h]

open Classical in
theorem sumAt_set {xs : List ι} {j : Nat} {x x' : ι} (hx : xs[j]? = some x) (hs : site x' = site x) {gain : M}
    (hw : weight x' = weight x + gain) (k : α) :
    sumAt site weight (xs.set j x') k = sumAt site weight xs k + if site x = k then gain else 0 := by
  obtain ⟨hj, hx⟩ := List.getElem?_eq_some_iff.mp hx
  have hsplit : xs = xs.take j ++ [x] ++ xs.drop (j + 1) := by
    rw [List.append_assoc, List.singleton_append, ← hx, List.getElem_cons_drop, List.take_append_drop]
  rw [List.set_eq_take_append_cons_drop, if_pos hj, ← List.singleton_append, ← List.append_assoc]
  conv_rhs => rw [hsplit]
  simp only [sumAt_append, sumAt_singleton, hs, hw]
  split
  · abel
  · abel

theorem sumBelow_congr {parent' : α → Option α} {xs : List ι} {k : α}
    (h : ∀ x ∈ xs, (Below parent k (site x) ↔ Below parent' k (site x))) :
    sumBelow parent site weight xs k = sumBelow parent' site weight xs k := by
  rw [sumBelow, sumBelow]
  congr 2
  exact List.filter_congr (by simpa using h)

theorem sum_map_single [DecidableEq α] {cs : List α} (hn : cs.Nodup) {c : α} (hc : c ∈ cs) (f : α → M)
    (hf : ∀ d ∈ cs, d ≠ c → f d = 0) : (cs.map f).sum = f c := by
  induction cs with
  | nil => simp at hc
  | cons d cs ih =>
      rw [List.nodup_cons] at hn
      rw [List.map_cons, List.sum_cons]
      obtain rfl | hc := List.mem_cons.mp hc
      · have hz : cs.map f = cs.map (fun _ => (0 : M)) :=
          List.map_congr_left fun e he => hf e (List.mem_cons_of_mem _ he) (fun h => hn.1 (h ▸ he))
        rw [hz]
        simp
      · have hd : d ≠ c := fun h => hn.1 (h ▸ hc)
        rw [hf d List.mem_cons_self hd, zero_add, ih hn.2 hc (fun e he => hf e (List.mem_cons_of_mem _ he))]

theorem sum_map_subset [DecidableEq α] {cs ds : List α} (hc : cs.Nodup) (hd : ds.Nodup)
    (hs : ∀ c ∈ cs, c ∈ ds) (f : α → M) (hf : ∀ d ∈ ds, d ∉ cs → f d = 0) :
    (ds.map f).sum = (cs.map f).sum := by
  rw [← List.sum_toFinset f hd, ← List.sum_toFinset f hc]
  refine (Finset.sum_subset (fun c hc => ?_) fun d hd hn => ?_).symm
  · exact List.mem_toFinset.mpr (hs c (List.mem_toFinset.mp hc))
  · exact hf d (List.mem_toFinset.mp hd) fun hm => hn (List.mem_toFinset.mpr hm)

theorem sumBelow_eq (hr : Ranked parent rank) {k : α} {cs : List α} (hn : cs.Nodup)
    (hcs : ∀ c, c ∈ cs ↔ parent c = some k) (xs : List ι) :
    sumBelow parent site weight xs k =
      sumAt site weight xs k + (cs.map (sumBelow parent site weight xs)).sum := by
  classical
  induction xs with
  | nil =>
      have hz : cs.map (sumBelow parent site weight []) = cs.map (fun _ => (0 : M)) :=
        List.map_congr_left fun _ _ => rfl
      rw [hz]
      simp [sumBelow, sumAt]
  | cons x xs ih =>
      have hsplit (c : α) : sumBelow parent site weight (x :: xs) c =
          (if Below parent c (site x) then weight x else 0) + sumBelow parent site weight xs c := by
        rw [← List.singleton_append, sumBelow_append, sumBelow_singleton]
      have hone : (if Below parent k (site x) then weight x else 0) = (if site x = k then weight x else 0) +
          (cs.map (fun c => if Below parent c (site x) then weight x else 0)).sum := by
        by_cases hk : site x = k
        · have hz : cs.map (fun c => if Below parent c (site x) then weight x else 0) =
              cs.map (fun _ => (0 : M)) :=
            List.map_congr_left fun c hc => by
              rw [if_neg]
              rw [hk]
              exact not_below_of_parent hr ((hcs c).mp hc)
          rw [hz, if_pos hk, if_pos (hk ▸ Below.refl _)]
          simp
        · rw [if_neg hk, zero_add]
          by_cases hb : Below parent k (site x)
          · obtain he | ⟨c, hc, hbc⟩ := below_iff_child.mp hb
            · exact absurd he hk
            · rw [if_pos hb, sum_map_single hn ((hcs c).mpr hc), if_pos hbc]
              intro d hd hdc
              rw [if_neg]
              intro hbd
              exact hdc (below_children_unique hr ((hcs d).mp hd) hc hbd hbc)
          · have hz : cs.map (fun c => if Below parent c (site x) then weight x else 0) =
                cs.map (fun _ => (0 : M)) :=
              List.map_congr_left fun c hc => if_neg fun hbc => hb (hbc.child ((hcs c).mp hc))
            rw [hz, if_neg hb]
            simp
      have hat : sumAt site weight (x :: xs) k =
          (if site x = k then weight x else 0) + sumAt site weight xs k := by
        rw [← List.singleton_append, sumAt_append, sumAt_singleton]
      have hmap : cs.map (sumBelow parent site weight (x :: xs)) = cs.map (fun c =>
          (if Below parent c (site x) then weight x else 0) + sumBelow parent site weight xs c) :=
        List.map_congr_left fun c _ => hsplit c
      rw [hsplit, hone, ih, hat, hmap, List.sum_map_add]
      exact add_add_add_comm _ _ _ _

end Sums

end Llprof.ParentTree
