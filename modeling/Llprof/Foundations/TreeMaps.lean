import Mathlib.Data.List.Basic
import Std.Data.TreeMap.Lemmas
import Std.Data.TreeSet.Lemmas

namespace Llprof.TreeMaps

variable {β γ : Type} {t : Std.TreeMap Nat β}

theorem getElem?_insert (t : Std.TreeMap Nat β) (k j : Nat) (v : β) :
    (t.insert k v)[j]? = if j = k then some v else t[j]? := by
  rw [Std.TreeMap.getElem?_insert]
  simp only [Std.LawfulEqCmp.compare_eq_iff_eq, eq_comm (a := k)]

theorem getElem?_insert_self (t : Std.TreeMap Nat β) (k : Nat) (v : β) : (t.insert k v)[k]? = some v := by
  rw [getElem?_insert, if_pos rfl]

theorem getElem?_insert_ne (t : Std.TreeMap Nat β) {k j : Nat} (h : j ≠ k) (v : β) :
    (t.insert k v)[j]? = t[j]? := by
  rw [getElem?_insert, if_neg h]

theorem getElem?_insert_pair (t : Std.TreeMap (Nat × Nat) β lexOrd.compare) (k j : Nat × Nat) (v : β) :
    (t.insert k v)[j]? = if j = k then some v else t[j]? := by
  rw [Std.TreeMap.getElem?_insert]
  simp only [Std.LawfulEqCmp.compare_eq_iff_eq, eq_comm (a := k)]

theorem mem_insert_iff {k j : Nat} {v : β} : j ∈ t.insert k v ↔ j = k ∨ j ∈ t := by
  rw [Std.TreeMap.mem_insert, Std.LawfulEqCmp.compare_eq_iff_eq, eq_comm]

theorem mem_insert_self (t : Std.TreeMap Nat β) (k : Nat) (v : β) : k ∈ t.insert k v :=
  mem_insert_iff.mpr (Or.inl rfl)

theorem getElem?_of_split {done rest : List (Nat × β)} {it : Nat × β} (h : t.toList = done ++ it :: rest) :
    t[it.1]? = some it.2 := by
  rw [← Std.TreeMap.mem_toList_iff_getElem?_eq_some, h]
  exact List.mem_append_right _ List.mem_cons_self

theorem mem_iff_some {k : Nat} : k ∈ t ↔ ∃ v, t[k]? = some v := by
  rw [Std.TreeMap.mem_iff_isSome_getElem?, Option.isSome_iff_exists]

theorem contains_iff_some {k : Nat} : t.contains k = true ↔ ∃ v, t[k]? = some v := by
  rw [Std.TreeMap.contains_iff_mem, mem_iff_some]

theorem size_eq {t' : Std.TreeMap Nat γ} (h : ∀ k : Nat, (t'[k]?).isSome = (t[k]?).isSome) :
    t'.size = t.size := by
  rw [← Std.TreeMap.length_keys, ← Std.TreeMap.length_keys]
  refine ((List.perm_ext_iff_of_nodup Std.TreeMap.nodup_keys Std.TreeMap.nodup_keys).mpr fun k =>
    ?_).length_eq
  rw [Std.TreeMap.mem_keys, Std.TreeMap.mem_keys, Std.TreeMap.mem_iff_isSome_getElem?,
    Std.TreeMap.mem_iff_isSome_getElem?, h]

theorem size_insert_new {k : Nat} (h : t[k]? = none) (v : β) : (t.insert k v).size = t.size + 1 := by
  rw [Std.TreeMap.size_insert, if_neg]
  rw [contains_iff_some, h]
  simp

theorem toList_foldl_insert {ι : Type} (key : ι → Nat) (val : ι → β) (xs : List ι) (hn : (xs.map key).Nodup)
    (hnew : ∀ x ∈ xs, t[key x]? = none) :
    (xs.foldl (fun t x => t.insert (key x) (val x)) t).toList.Perm
      (xs.map (fun x => (key x, val x)) ++ t.toList) := by
  induction xs generalizing t with
  | nil => exact List.Perm.refl _
  | cons x xs ih =>
      rw [List.map_cons, List.nodup_cons] at hn
      rw [List.forall_mem_cons] at hnew
      rw [List.foldl_cons]
      refine (ih hn.2 fun y hy => ?_).trans ?_
      · have hne : key y ≠ key x := fun h => hn.1 (h ▸ List.mem_map_of_mem hy)
        rw [getElem?_insert_ne _ hne]
        exact hnew.2 y hy
      · have hold : t.toList.filter (fun e => ¬ (key x == e.1) = true) = t.toList := by
          rw [List.filter_eq_self]
          intro e he
          have hsome := Std.TreeMap.mem_toList_iff_getElem?_eq_some.mp he
          have hne : key x ≠ e.1 := by
            intro h
            rw [← h, hnew.1] at hsome
            cases hsome
          simp [hne]
        have hinsert := Std.TreeMap.toList_insert_perm (t := t) (k := key x) (v := val x)
        rw [hold] at hinsert
        refine (hinsert.append_left _).trans ?_
        rw [List.map_cons, List.cons_append]
        exact List.perm_middle

theorem toList_increasing {ι : Type} (key : ι → Nat) (val : ι → β) (xs : List ι)
    (h : (xs.map key).Pairwise (· < ·)) :
    (xs.foldl (fun t x => t.insert (key x) (val x)) (∅ : Std.TreeMap Nat β)).toList =
      xs.map (fun x => (key x, val x)) := by
  have hperm :=
    toList_foldl_insert (t := ∅) key val xs (h.imp Nat.ne_of_lt) (fun _ _ => Std.TreeMap.getElem?_emptyc)
  have hnil : (∅ : Std.TreeMap Nat β).toList = [] := rfl
  rw [hnil, List.append_nil] at hperm
  have hkeys := Std.TreeMap.ordered_keys_toList (t := xs.foldl (fun t x => t.insert (key x) (val x)) (∅ : Std.TreeMap Nat β))
  have hsorted : (xs.map (fun x => (key x, val x))).Pairwise (fun a b => a.1 < b.1) := by
    rw [List.pairwise_map] at h ⊢
    exact h
  exact hperm.eq_of_pairwise (fun a b _ _ hab hba => absurd hab (Nat.lt_asymm hba))
    (hkeys.imp fun h => Nat.compare_eq_lt.mp h) hsorted

theorem mem_toList_set {s : Std.TreeSet Nat} {k : Nat} : k ∈ s.toList ↔ k ∈ s := Std.TreeSet.mem_toList

theorem nodup_toList_set (s : Std.TreeSet Nat) : s.toList.Nodup := by
  refine List.Pairwise.imp ?_ s.distinct_toList
  intro a b h he
  exact h (Std.LawfulEqCmp.compare_eq_iff_eq.mpr he)

theorem mem_insert_set {s : Std.TreeSet Nat} {k j : Nat} : j ∈ s.insert k ↔ j = k ∨ j ∈ s := by
  rw [Std.TreeSet.mem_insert, Std.LawfulEqCmp.compare_eq_iff_eq, eq_comm]

end Llprof.TreeMaps
