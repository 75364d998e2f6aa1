import Mathlib.Data.List.Nodup
import Mathlib.Data.List.Perm.Subperm
import Mathlib.Tactic.Common

namespace Llprof.LabelPaths

/-- Where a place of a tree leads: it is no node, a root, or a node with a label below
another place. -/
inductive Link (ι β : Type)
  | absent
  | root
  | below (label : β) (parent : ι)

variable {ι β : Type} {link : ι → Link ι β} {fuel fuel' : Nat} {k : ι} {p q : List β}

/-- The labels from a node up to the root, which has none, if so much fuel is enough. -/
def pathTo (link : ι → Link ι β) : Nat → ι → Option (List β)
  | 0, _ => none
  | fuel + 1, k =>
      match link k with
      | .absent => none
      | .root => some []
      | .below label parent => (pathTo link fuel parent).map (label :: ·)

theorem pathTo_mono (h : fuel ≤ fuel') (hp : pathTo link fuel k = some p) : pathTo link fuel' k = some p := by
  induction fuel generalizing fuel' k p with
  | zero => cases hp
  | succ fuel ih =>
      obtain ⟨more, rfl⟩ := Nat.exists_eq_add_of_le h
      rw [Nat.add_right_comm, pathTo]
      rw [pathTo] at hp
      cases hk : link k with
      | absent => rw [hk] at hp; cases hp
      | root => rw [hk] at hp; exact hp
      | below label parent =>
          rw [hk] at hp
          obtain ⟨q, hq, rfl⟩ := Option.map_eq_some_iff.mp hp
          exact Option.map_eq_some_iff.mpr ⟨q, ih (Nat.le_add_right _ _) hq, rfl⟩

def Leads (link : ι → Link ι β) (k : ι) (p : List β) : Prop := ∃ fuel, pathTo link fuel k = some p

theorem Leads.unique (h : Leads link k p) (h' : Leads link k q) : p = q := by
  obtain ⟨fuel, hp⟩ := h
  obtain ⟨fuel', hq⟩ := h'
  have hp := pathTo_mono (Nat.le_max_left fuel fuel') hp
  have hq := pathTo_mono (Nat.le_max_right fuel fuel') hq
  exact Option.some.inj (hp.symm.trans hq)

theorem leads_root (h : link k = .root) : Leads link k [] := ⟨1, by rw [pathTo, h]⟩

theorem Leads.child {label : β} {parent : ι} (h : link k = .below label parent) (hp : Leads link parent p) :
    Leads link k (label :: p) := by
  obtain ⟨fuel, hp⟩ := hp
  exact ⟨fuel + 1, by rw [pathTo, h]; exact Option.map_eq_some_iff.mpr ⟨p, hp, rfl⟩⟩

theorem Leads.cases (h : Leads link k p) :
    link k = .root ∧ p = [] ∨ ∃ label parent q, link k = .below label parent ∧ p = label :: q ∧
      Leads link parent q := by
  obtain ⟨fuel, hp⟩ := h
  cases fuel with
  | zero => cases hp
  | succ fuel =>
      rw [pathTo] at hp
      cases hk : link k with
      | absent => rw [hk] at hp; cases hp
      | root => rw [hk] at hp; exact Or.inl ⟨rfl, (Option.some.inj hp).symm⟩
      | below label parent =>
          rw [hk] at hp
          obtain ⟨q, hq, rfl⟩ := Option.map_eq_some_iff.mp hp
          exact Or.inr ⟨label, parent, q, rfl, rfl, fuel, hq⟩

theorem Leads.congr {link' : ι → Link ι β} (h : Leads link k p)
    (hl : ∀ j, link j ≠ .absent → link' j = link j) : Leads link' k p := by
  induction p generalizing k with
  | nil =>
      obtain ⟨hk, -⟩ | ⟨label, parent, q, -, he, -⟩ := h.cases
      · exact leads_root ((hl k (by simp [hk])).trans hk)
      · cases he
  | cons label p ih =>
      obtain ⟨-, he⟩ | ⟨label', parent, q, hk, he, hq⟩ := h.cases
      · cases he
      · cases he
        exact Leads.child ((hl k (by simp [hk])).trans hk) (ih hq)

theorem Leads.chain (h : Leads link k p) :
    ∃ chain : List ι, chain.length = p.length + 1 ∧ chain.Nodup ∧
      ∀ j ∈ chain, link j ≠ .absent ∧ ∃ q, Leads link j q ∧ q.length ≤ p.length := by
  induction p generalizing k with
  | nil =>
      obtain ⟨hk, -⟩ | ⟨label, parent, q, -, he, -⟩ := h.cases
      · refine ⟨[k], rfl, List.nodup_singleton k, fun j hj => ?_⟩
        rw [List.mem_singleton.mp hj]
        exact ⟨by simp [hk], [], h, Nat.le_refl _⟩
      · cases he
  | cons label p ih =>
      obtain ⟨-, he⟩ | ⟨label', parent, q, hk, he, hq⟩ := h.cases
      · cases he
      · cases he
        obtain ⟨chain, hlen, hnodup, hchain⟩ := ih hq
        refine ⟨k :: chain, by rw [List.length_cons, hlen, List.length_cons], List.nodup_cons.mpr ⟨fun hmem => ?_, hnodup⟩,
          fun j hj => ?_⟩
        · obtain ⟨-, q, hkq, hle⟩ := hchain k hmem
          rw [← h.unique hkq, List.length_cons] at hle
          exact Nat.not_succ_le_self _ hle
        · rcases List.mem_cons.mp hj with rfl | hj
          · exact ⟨by simp [hk], _, h, Nat.le_refl _⟩
          · obtain ⟨hne, q, hjq, hle⟩ := hchain j hj
            exact ⟨hne, q, hjq, Nat.le_succ_of_le hle⟩

theorem pathTo_length (h : Leads link k p) : pathTo link (p.length + 1) k = some p := by
  induction p generalizing k with
  | nil =>
      obtain ⟨hk, -⟩ | ⟨label, parent, q, -, he, -⟩ := h.cases
      · rw [pathTo, hk]
      · cases he
  | cons label p ih =>
      obtain ⟨-, he⟩ | ⟨label', parent, q, hk, he, hq⟩ := h.cases
      · cases he
      · cases he
        rw [List.length_cons, pathTo, hk]
        exact Option.map_eq_some_iff.mpr ⟨p, ih hq, rfl⟩

theorem pathTo_eq_some (nodes : List ι) (hn : ∀ j, link j ≠ .absent → j ∈ nodes) (hf : nodes.length ≤ fuel) :
    pathTo link fuel k = some p ↔ Leads link k p := by
  refine ⟨fun h => ⟨fuel, h⟩, fun h => ?_⟩
  obtain ⟨chain, hlen, hnodup, hchain⟩ := h.chain
  have hsub : chain.length ≤ nodes.length := (hnodup.subperm fun j hj => hn j (hchain j hj).1).length_le
  exact pathTo_mono (Nat.le_trans (hlen ▸ hsub) hf) (pathTo_length h)

end Llprof.LabelPaths
