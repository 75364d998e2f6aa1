import Llprof.Foundations.Decimal
import Llprof.Foundations.LabelPaths
import Llprof.Monitor.FlushRule
import Llprof.Monitor.FlushFrame
import Llprof.Monitor.NewLeaf

namespace Llprof.Monitor.NamePaths

open Faulting hiding store
open Avoiding LabelPaths LittleEndian TreeMaps Nodes Store TreeShape FlushSpec NewLeaf FlushFrame
  SliceFrame SliceContents FlushRule
open Profiler.CallTree (MethodNodeSerializedInfo)

variable {gl : Settings} {ds : DataStore} {rank : NodeID → Nat} {tree tree' : Tree}
  {ts : ThreadStore} {k : NodeID} {n : RecordNode}

abbrev NamePath := List Bytes

def nameLink (ds : DataStore) (tree : Tree) (k : NodeID) : Link NodeID Bytes :=
  match tree[k]? with
  | none => .absent
  | some n => if n.parentId = 0 then .root else .below (ds.getNameFromID n.nodeName) n.parentId

def pathOf (ds : DataStore) (tree : Tree) (k : NodeID) : Option NamePath :=
  pathTo (nameLink ds tree) tree.size k

theorem pathOf_eq_some {p : NamePath} : pathOf ds tree k = some p ↔ Leads (nameLink ds tree) k p := by
  refine pathTo_eq_some tree.keys (fun j hj => ?_) Std.TreeMap.length_keys.le
  rw [Std.TreeMap.mem_keys, mem_iff_some]
  cases hn : tree[j]? with
  | none => exact absurd (by rw [nameLink, hn]) hj
  | some n => exact ⟨n, rfl⟩

theorem mem_of_pathOf {p : NamePath} (h : pathOf ds tree k = some p) : k ∈ tree := by
  rw [mem_iff_some]
  cases hk : tree[k]? with
  | some n => exact ⟨n, rfl⟩
  | none =>
      have hlink : nameLink ds tree k = .absent := by rw [nameLink, hk]
      obtain ⟨hroot, -⟩ | ⟨name, parent, q, hbelow, -⟩ := (pathOf_eq_some.mp h).cases
      · rw [hlink] at hroot
        cases hroot
      · rw [hlink] at hbelow
        cases hbelow

theorem pathOf_parent {name : Bytes} {p : NamePath} (hk : tree[k]? = some n)
    (h : pathOf ds tree k = some (name :: p)) : pathOf ds tree n.parentId = some p := by
  obtain ⟨-, he⟩ | ⟨label, parent, q, hlink, he, hq⟩ := (pathOf_eq_some.mp h).cases
  · cases he
  · rw [nameLink, hk] at hlink
    dsimp only at hlink
    split at hlink
    next => cases hlink
    next =>
      cases hlink
      cases he
      exact pathOf_eq_some.mpr hq

def gnidOf (gl : Settings) : NamePath → NodeID
  | [] => 1
  | name :: p => gl.hashStrHard (gnidString (gnidOf gl p) name)

def hashed (gl : Settings) : NamePath → Option Bytes
  | [] => none
  | name :: p => some (gnidString (gnidOf gl p) name)

/-- The hash of these paths has no collisions, and is neither 0 nor 1. -/
def HashTells (gl : Settings) (src : List NamePath) : Prop :=
  ∀ x ∈ src.filterMap (hashed gl), 2 ≤ gl.hashStrHard x ∧
    ∀ y ∈ src.filterMap (hashed gl), gl.hashStrHard x = gl.hashStrHard y → x = y

instance (src : List NamePath) : Decidable (HashTells gl src) := by
  unfold HashTells
  infer_instance

structure Sources (gl : Settings) (src : List NamePath) : Prop where
  tells : HashTells gl src
  tails : ∀ name p, name :: p ∈ src → p ∈ src
  root : [] ∈ src

theorem ascii_toString (n : Nat) : ascii (toString n) = Decimal.decimal n := by
  rw [ascii, Decimal.decimal]
  exact congrArg _ Nat.toList_repr

theorem gnidString_inj {g g' : NodeID} {x x' : Bytes} (h : gnidString g x = gnidString g' x') :
    g = g' ∧ x = x' := by
  have hdigits (m : NodeID) (y : Bytes) : (gnidString m y).takeWhile Decimal.isDigit = Decimal.decimal m := by
    rw [gnidString, ascii_toString, List.append_assoc,
      List.takeWhile_append_of_pos fun b hb => Decimal.isDigit_of_mem_decimal hb]
    exact List.append_nil _
  have hdecimal : Decimal.decimal g = Decimal.decimal g' := by rw [← hdigits g x, ← hdigits g' x', h]
  have hg : g = g' := by rw [← Decimal.digitsValue_decimal g, hdecimal, Decimal.digitsValue_decimal]
  rw [hg] at h
  exact ⟨hg, List.append_cancel_left h⟩

section Sources

variable {src : List NamePath} (h : Sources gl src)

include h

theorem Sources.large {name : Bytes} {p : NamePath} (hp : name :: p ∈ src) : 2 ≤ gnidOf gl (name :: p) :=
  (h.tells _ (List.mem_filterMap.mpr ⟨_, hp, rfl⟩)).1

theorem Sources.gnidOf_inj {p q : NamePath} (hp : p ∈ src) (hq : q ∈ src) (he : gnidOf gl p = gnidOf gl q) :
    p = q := by
  induction p generalizing q with
  | nil =>
      cases q with
      | nil => rfl
      | cons name q => exact absurd he.symm (Nat.ne_of_gt (h.large hq))
  | cons name p ih =>
      cases q with
      | nil => exact absurd he (Nat.ne_of_gt (h.large hp))
      | cons name' q =>
          have hstring :=
            (h.tells _ (List.mem_filterMap.mpr ⟨_, hp, rfl⟩)).2 _ (List.mem_filterMap.mpr ⟨_, hq, rfl⟩) he
          obtain ⟨hgnid, rfl⟩ := gnidString_inj hstring
          rw [ih (h.tails _ _ hp) (h.tails _ _ hq) hgnid]

end Sources

def tag (n : RecordNode) : NodeID × NameID × NodeID := (n.parentId, n.nodeName, n.gnid)

def SameTags (tree tree' : Tree) : Prop := ∀ k : NodeID, (tree'[k]?).map tag = (tree[k]?).map tag

/-- Every node but the root has the GNID that its name and the one of its parent give. -/
structure Sealed (gl : Settings) (ds : DataStore) (tree : Tree) : Prop where
  root : ∃ n, tree[(1 : NodeID)]? = some n ∧ n.gnid = 1 ∧ n.parentId = 0
  nodes : ∀ (k : NodeID) (n : RecordNode), tree[k]? = some n → k ≠ 1 → ∃ pn, tree[n.parentId]? = some pn ∧
    n.gnid = gl.hashStrHard (gnidString pn.gnid (ds.getNameFromID n.nodeName))

theorem SameTags.refl (tree : Tree) : SameTags tree tree := fun _ => rfl

theorem SameTags.trans {t₁ t₂ t₃ : Tree} (h : SameTags t₁ t₂) (h' : SameTags t₂ t₃) : SameTags t₁ t₃ :=
  fun k => (h' k).trans (h k)

theorem SameTags.insert (h : SameTags tree tree') {n' : RecordNode}
    (hk : tree'[k]? = some n) (he : tag n' = tag n) : SameTags tree (tree'.insert k n') := by
  intro j
  rw [← h j, getElem?_insert]
  split
  next hj => rw [hj, hk, Option.map_some, Option.map_some, he]
  next => rfl

theorem SameTags.find (h : SameTags tree tree') (hk : tree[k]? = some n) :
    ∃ n', tree'[k]? = some n' ∧ tag n' = tag n := by
  have := h k
  rwa [hk, Option.map_some, Option.map_eq_some_iff] at this

theorem SameTags.symm (h : SameTags tree tree') : SameTags tree' tree := fun k => (h k).symm

theorem SameTags.parentOf (h : SameTags tree tree') : TreeShape.parentOf tree' = TreeShape.parentOf tree := by
  funext k
  have := congrArg (Option.map Prod.fst) (h k)
  rwa [Option.map_map, Option.map_map] at this

theorem Sealed.congr (h : Sealed gl ds tree) (ht : SameTags tree tree') : Sealed gl ds tree' := by
  obtain ⟨r, hr, hg, h0⟩ := h.root
  obtain ⟨r', hr', he⟩ := ht.find hr
  obtain ⟨hp', hrest⟩ := Prod.mk.inj he
  refine ⟨⟨r', hr', (Prod.mk.inj hrest).2.trans hg, hp'.trans h0⟩, fun k n' hk h1 => ?_⟩
  obtain ⟨n, hn, he⟩ := ht.symm.find hk
  obtain ⟨hp, hrest⟩ := Prod.mk.inj he
  obtain ⟨hx, hgn⟩ := Prod.mk.inj hrest
  obtain ⟨pn, hpn, hgnid⟩ := h.nodes k n hn h1
  obtain ⟨pn', hpn', he'⟩ := ht.find hpn
  refine ⟨pn', hp ▸ hpn', ?_⟩
  rw [← hgn, hgnid, hx, (Prod.mk.inj (Prod.mk.inj he').2).2]

theorem Sealed.path_cases (h : Sealed gl ds tree) (hr : Rooted tree rank) (hk : tree[k]? = some n) :
    k = 1 ∧ n.gnid = 1 ∧ nameLink ds tree k = .root ∨ ∃ pn, tree[n.parentId]? = some pn ∧ n.parentId ≠ 0 ∧
      nameLink ds tree k = .below (ds.getNameFromID n.nodeName) n.parentId ∧
      n.gnid = gl.hashStrHard (gnidString pn.gnid (ds.getNameFromID n.nodeName)) := by
  by_cases h1 : k = 1
  · obtain ⟨r, hr1, hg, h0⟩ := h.root
    rw [h1, hr1, Option.some.injEq] at hk
    rw [h1, ← hk]
    refine Or.inl ⟨rfl, hg, ?_⟩
    rw [nameLink, hr1]
    exact if_pos h0
  · obtain ⟨pn, hpn, hg⟩ := h.nodes k n hk h1
    have h0 : n.parentId ≠ 0 := hr.ne_zero hpn
    refine Or.inr ⟨pn, hpn, h0, ?_, hg⟩
    rw [nameLink, hk]
    exact if_neg h0

theorem Sealed.path (h : Sealed gl ds tree) (hr : Rooted tree rank) (hk : tree[k]? = some n) :
    ∃ p, Leads (nameLink ds tree) k p ∧ n.gnid = gnidOf gl p := by
  induction hm : rank k using Nat.strong_induction_on generalizing k n with
  | _ m ih =>
      rcases h.path_cases hr hk with ⟨-, hg, hlink⟩ | ⟨pn, hpn, -, hlink, hg⟩
      · exact ⟨[], leads_root hlink, hg⟩
      · have hrank := hr.rank_child (parentOf_eq_some.mpr ⟨n, hk, rfl⟩)
        obtain ⟨p, hp, hpg⟩ := ih (rank n.parentId) (by omega) hpn rfl
        exact ⟨_, hp.child hlink, by rw [hg, hpg]; rfl⟩

end Llprof.Monitor.NamePaths
