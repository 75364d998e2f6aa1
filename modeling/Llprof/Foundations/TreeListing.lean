import Llprof.Foundations.TreeMaps

namespace Llprof.TreeListing

open TreeMaps

variable {α β ι : Type}

/-- Every element of a list that has a parent comes after it. -/
def ParentsFirst (id parent : α → ι) (nowhere : ι) (xs : List α) : Prop :=
  ∀ done x rest, xs = done ++ x :: rest → parent x ≠ nowhere → ∃ y ∈ done, id y = parent x

theorem ParentsFirst.map {id parent : β → ι} {nowhere : ι} {f : α → β} {xs : List α}
    (h : ParentsFirst (fun x => id (f x)) (fun x => parent (f x)) nowhere xs) :
    ParentsFirst id parent nowhere (xs.map f) := by
  intro done y rest he hy
  obtain ⟨done', rest', rfl, rfl, hr⟩ := List.map_eq_append_iff.mp he
  obtain ⟨x, rest'', rfl, rfl, -⟩ := List.map_eq_cons_iff.mp hr
  obtain ⟨z, hz, hid⟩ := h done' x rest'' rfl hy
  exact ⟨f z, List.mem_map_of_mem hz, hid⟩

theorem ParentsFirst.relabel {κ : Type} {id parent : α → ι} {nowhere : ι} {xs : List α}
    (h : ParentsFirst id parent nowhere xs) (g : ι → κ) : ParentsFirst (fun x => g (id x))
    (fun x => g (parent x)) (g nowhere) xs := by
  intro done x rest he hx
  obtain ⟨y, hy, hid⟩ := h done x rest he fun hn => hx (congrArg g hn)
  exact ⟨y, hy, congrArg g hid⟩

theorem visited_of_lt {t : Std.TreeMap Nat β} {done rest : List (Nat × β)} {k j : Nat} {v w : β}
    (he : t.toList = done ++ (k, v) :: rest) (hj : t[j]? = some w) (hlt : j < k) : (j, w) ∈ done := by
  have hmem : (j, w) ∈ t.toList := Std.TreeMap.mem_toList_iff_getElem?_eq_some.mpr hj
  have hsorted := Std.TreeMap.ordered_keys_toList (t := t)
  rw [he, List.pairwise_append] at hsorted
  rw [he, List.mem_append, List.mem_cons] at hmem
  rcases hmem with hdone | heq | hrest
  · exact hdone
  · cases heq
    exact absurd hlt (Nat.lt_irrefl _)
  · have hkj := List.rel_of_pairwise_cons hsorted.2.1 hrest
    rw [Nat.compare_eq_lt] at hkj
    exact absurd (Nat.lt_trans hlt hkj) (Nat.lt_irrefl _)

/-- A map whose members have their parents among them, under smaller keys, is listed
with the parents first. -/
theorem parentsFirst_toList {t : Std.TreeMap Nat β} {parent : β → Nat} {nowhere : Nat}
    (h : ∀ (k : Nat) (v : β), t[k]? = some v → parent v ≠ nowhere → parent v < k ∧ parent v ∈ t) :
    ParentsFirst Prod.fst (fun it => parent it.2) nowhere t.toList := by
  rintro done ⟨k, v⟩ rest he hv
  have hk : t[k]? = some v := getElem?_of_split he
  obtain ⟨hlt, hmem⟩ := h k v hk hv
  obtain ⟨w, hw⟩ := mem_iff_some.mp hmem
  exact ⟨(parent v, w), visited_of_lt he hw hlt, rfl⟩

theorem values_eq_map (t : Std.TreeMap Nat β) : t.values = t.toList.map Prod.snd := by
  have hfold : t.values = t.foldr (fun _ v vs => v :: vs) [] := rfl
  rw [hfold, Std.TreeMap.foldr_eq_foldr_toList]
  induction t.toList with
  | nil => rfl
  | cons it rest ih => rw [List.foldr_cons, ih, List.map_cons]

theorem parentsFirst_values {t : Std.TreeMap Nat β} {id parent : β → Nat} {nowhere : Nat}
    (hid : ∀ (k : Nat) (v : β), t[k]? = some v → id v = k)
    (h : ∀ (k : Nat) (v : β), t[k]? = some v → parent v ≠ nowhere → parent v < k ∧ parent v ∈ t) :
    ParentsFirst id parent nowhere t.values := by
  rw [values_eq_map]
  apply ParentsFirst.map
  intro done x rest he hx
  obtain ⟨⟨j, w⟩, hy, hj⟩ := parentsFirst_toList h done x rest he hx
  have hjw : t[j]? = some w := by
    rw [← Std.TreeMap.mem_toList_iff_getElem?_eq_some, he]
    exact List.mem_append_left _ hy
  exact ⟨(j, w), hy, (hid j w hjw).trans hj⟩

end Llprof.TreeListing
