import Llprof.Foundations.ParentTree

namespace Llprof.PathFlags

open ParentTree

variable {α : Type}

/-- The nodes of a tree, each with its parent and whether it is flagged. -/
abbrev Flags (α : Type) := α → Option (α × Bool)

def link (f : Flags α) (k : α) : Option α := (f k).map Prod.fst

open Classical in
noncomputable def flagPath (b : Bool) (j : α) (f : Flags α) : Flags α :=
  fun k => if Below (link f) k j then (f k).map (fun e => (e.1, b)) else f k

def add [DecidableEq α] (k p : α) (f : Flags α) : Flags α :=
  fun j => if j = k ∧ f k = none then some (p, false) else f j

def OnPath (f : Flags α) (r : α) : Prop := ∀ k p, f k = some (p, true) → Below (link f) k r

def Exact (f : Flags α) (r : α) : Prop := ∀ k p b, f k = some (p, b) → (b = true ↔ Below (link f) k r)

/-- What stands above the nodes is a node or `top`, which is none. -/
structure Closed (top : α) (f : Flags α) : Prop where
  outside : f top = none
  up : ∀ k p b, f k = some (p, b) → p = top ∨ f p ≠ none

def Extends (f f' : Flags α) : Prop := ∀ k, f' k = f k ∨ f k = none ∧ ∃ p, f' k = some (p, false)

variable {f f' : Flags α} {r j k p top : α} {b : Bool}

theorem link_eq_some : link f k = some p ↔ ∃ b, f k = some (p, b) := by
  simp [link, Option.map_eq_some_iff]

@[simp] theorem link_flagPath (b : Bool) (j : α) (f : Flags α) : link (flagPath b j f) = link f := by
  funext k
  rw [link, flagPath, link]
  split
  · rw [Option.map_map]
    rfl
  · rfl

theorem flagPath_up [DecidableEq α] {b' : Bool} (b : Bool) (h : f j = some (p, b')) :
    flagPath b p (Function.update f j (some (p, b))) = flagPath b j f := by
  have hlink : link (Function.update f j (some (p, b))) = link f := by
    funext k
    by_cases hk : k = j
    · rw [hk, link, link, Function.update_self, h]
      rfl
    · rw [link, link, Function.update_of_ne hk]
  have hp : link f j = some p := link_eq_some.mpr ⟨b', h⟩
  funext k
  rw [flagPath, flagPath, hlink]
  by_cases hk : k = j
  · rw [hk, Function.update_self, if_pos (Below.refl j), h]
    split <;> rfl
  · have hiff : Below (link f) k p ↔ Below (link f) k j := by
      rw [below_iff_parent (j := j)]
      constructor
      · intro hb
        exact Or.inr ⟨p, hp, hb⟩
      · rintro (he | ⟨q, hq, hb⟩)
        · exact absurd he.symm hk
        · rw [hp, Option.some.injEq] at hq
          rwa [hq]
    rw [Function.update_of_ne hk]
    by_cases hb : Below (link f) k p
    · rw [if_pos hb, if_pos (hiff.mp hb)]
    · rw [if_neg hb, if_neg (hiff.not.mp hb)]

theorem flagPath_of_none (b : Bool) (h : f j = none) : flagPath b j f = f := by
  funext k
  rw [flagPath]
  split
  next hk =>
    have hj : link f j = none := by rw [link, h]; rfl
    obtain rfl | ⟨q, hq, -⟩ := below_iff_parent.mp hk
    · rw [h]
      rfl
    · rw [hj] at hq
      cases hq
  next => rfl

theorem flagPath_eq_none : flagPath b j f k = none ↔ f k = none := by
  rw [flagPath]
  split
  · rw [Option.map_eq_none_iff]
  · exact Iff.rfl

theorem flagPath_false (h : OnPath f r) (hk : flagPath false r f k = some (p, b)) : b = false := by
  rw [flagPath] at hk
  split at hk
  next =>
    obtain ⟨e, -, he⟩ := Option.map_eq_some_iff.mp hk
    cases he
    rfl
  next hbelow =>
    cases b with
    | false => rfl
    | true => exact absurd (h k p hk) hbelow

theorem flagPath_true (h : ∀ k p b, f k = some (p, b) → b = false) (hk : flagPath true j f k = some (p, b)) :
    b = true ↔ Below (link f) k j := by
  rw [flagPath] at hk
  split at hk
  next hbelow =>
    obtain ⟨e, -, he⟩ := Option.map_eq_some_iff.mp hk
    cases he
    exact iff_of_true rfl hbelow
  next hbelow => exact iff_of_false (by rw [h k p b hk]; decide) hbelow

theorem Extends.refl (f : Flags α) : Extends f f := fun _ => Or.inl rfl

theorem Extends.trans {f'' : Flags α} (h : Extends f f') (h' : Extends f' f'') : Extends f f'' := by
  intro k
  rcases h' k with he' | ⟨hnone, hp⟩
  · rw [he']
    exact h k
  · rcases h k with he | ⟨hnone', -⟩
    · exact Or.inr ⟨he ▸ hnone, hp⟩
    · exact Or.inr ⟨hnone', hp⟩

theorem Extends.add [DecidableEq α] (k p : α) (f : Flags α) : Extends f (add k p f) := by
  intro j
  rw [PathFlags.add]
  split
  next h => exact Or.inr ⟨h.1 ▸ h.2, p, rfl⟩
  next => exact Or.inl rfl

theorem add_ne_none [DecidableEq α] {i : α} : add k p f i ≠ none ↔ i = k ∨ f i ≠ none := by
  rw [add]
  split
  next h => exact iff_of_true (by simp) (Or.inl h.1)
  next h =>
    constructor
    · exact Or.inr
    · rintro (rfl | hi)
      · exact fun hnone => h ⟨rfl, hnone⟩
      · exact hi

theorem Closed.add [DecidableEq α] (h : Closed top f) (hk : k ≠ top) (hp : p = top ∨ f p ≠ none) :
    Closed top (add k p f) := by
  refine ⟨?_, fun c q b hc => ?_⟩
  · rw [PathFlags.add, if_neg (fun ht => hk ht.1.symm)]
    exact h.outside
  · rw [PathFlags.add] at hc
    split at hc
    next =>
      cases hc
      exact hp.imp_right fun hq => add_ne_none.mpr (Or.inr hq)
    next => exact (h.up c q b hc).imp_right fun hq => add_ne_none.mpr (Or.inr hq)

theorem Closed.flagPath (h : Closed top f) (b : Bool) (j : α) : Closed top (flagPath b j f) := by
  refine ⟨flagPath_eq_none.mpr h.outside, fun c q b' hc => ?_⟩
  have hq : link (PathFlags.flagPath b j f) c = some q := link_eq_some.mpr ⟨b', hc⟩
  rw [link_flagPath] at hq
  obtain ⟨b'', hb⟩ := link_eq_some.mp hq
  exact (h.up c q b'' hb).imp_right fun hne => flagPath_eq_none.not.mpr hne

theorem Extends.of_some (h : Extends f f') {e : α × Bool} (hk : f k = some e) : f' k = some e := by
  rcases h k with he | ⟨hnone, -⟩
  · rw [he, hk]
  · rw [hk] at hnone
    cases hnone

theorem Extends.flagged (h : Extends f f') (hk : f' k = some (p, true)) : f k = some (p, true) := by
  rcases h k with he | ⟨-, q, hq⟩
  · rw [← he, hk]
  · rw [hk] at hq
    cases hq

theorem Extends.below (h : Extends f f') (hb : Below (link f) k j) : Below (link f') k j := by
  refine hb.congr fun c p hc => ?_
  obtain ⟨b, hcb⟩ := link_eq_some.mp hc
  exact link_eq_some.mpr ⟨b, h.of_some hcb⟩

theorem Extends.below_iff (h : Extends f f') (hc : Closed top f) (htop : f' top = none) (hj : f j ≠ none) :
    Below (link f') k j ↔ Below (link f) k j := by
  refine below_congr_of_closed (S := fun y => y = top ∨ f y ≠ none) (fun y hy => ?_)
    (fun y q hy hq => ?_) (Or.inr hj)
  · rcases hy with rfl | hy
    · rw [link, link, htop, hc.outside]
    · obtain ⟨e, he⟩ := Option.ne_none_iff_exists'.mp hy
      rw [link, link, h.of_some he, he]
  · obtain ⟨b, hb⟩ := link_eq_some.mp hq
    exact hc.up y q b hb

section Moved

variable (hpath : OnPath f r) (hext : Extends (flagPath true j (flagPath false r f)) f')

include hpath in
theorem moved_flag (hk : flagPath true j (flagPath false r f) k = some (p, b)) :
    b = true ↔ Below (link f) k j := by
  have h := flagPath_true (fun k p b => flagPath_false hpath) hk
  rwa [link_flagPath] at h

include hpath hext

/-- After the flags have moved from the path of one node to that of another, and nodes were
added, they are on the path of the other node. -/
theorem onPath_moved : OnPath f' j := by
  intro k p hk
  have hold := hext.flagged hk
  have hb := hext.below (by rw [link_flagPath, link_flagPath]; exact (moved_flag hpath hold).mp rfl)
  exact hb

theorem exact_moved_iff (hc : Closed top f) (htop : f' top = none) (hj : f' j ≠ none) :
    Exact f' j ↔ f j ≠ none := by
  have hlink : link (flagPath true j (flagPath false r f)) = link f := by rw [link_flagPath, link_flagPath]
  have hnone (k : α) : flagPath true j (flagPath false r f) k = none ↔ f k = none := by
    rw [flagPath_eq_none, flagPath_eq_none]
  have hclosed := (hc.flagPath false r).flagPath true j
  constructor
  · intro hexact hjn
    obtain ⟨⟨p, b⟩, hjb⟩ := Option.ne_none_iff_exists'.mp hj
    have hflag := (hexact j p b hjb).mpr (Below.refl j)
    rw [hflag] at hjb
    have hold := hext.flagged hjb
    rw [(hnone j).mpr hjn] at hold
    cases hold
  · intro hjn k p b hk
    rw [hext.below_iff hclosed htop ((hnone j).not.mpr hjn), hlink]
    rcases hext k with he | ⟨hnew, q, hq⟩
    · exact moved_flag hpath (he ▸ hk)
    · rw [hk] at hq
      cases hq
      refine iff_of_false (by decide) fun hb => ?_
      have hk' := hb.closed (S := fun y => y = top ∨ f y ≠ none) (fun c p hcp hc' => ?_) (Or.inr hjn)
      · rcases hk' with rfl | hk'
        · rw [htop] at hk
          cases hk
        · exact hk' ((hnone k).mp hnew)
      · obtain ⟨b', hb'⟩ := link_eq_some.mp hcp
        exact hc.up c p b' hb'

end Moved

end Llprof.PathFlags
