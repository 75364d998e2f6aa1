import Llprof.Monitor.FlushWalk

namespace Llprof.Monitor.Settling

open ParentTree Nodes SlotLoops TreeShape FlushSpec

def settleWithin (ds : DataStore) (attrNodeMap : AttrNodeMap) (tree : Tree) :
    Nat → NodeID → Nat → ProfileValue
  | 0, _, _ => 0
  | m + 1, k, i => tempAt tree k i +
    carried ds i (inflow ds attrNodeMap tree (settleWithin ds attrNodeMap tree m) k i)

def settledValues (ds : DataStore) (attrNodeMap : AttrNodeMap) (tree : Tree) (rank : NodeID → Nat)
    (k : NodeID) (i : Nat) : ProfileValue :=
  settleWithin ds attrNodeMap tree (tree.size + 1 - rank k) k i

variable {ds : DataStore} {attrNodeMap : AttrNodeMap} {tree : Tree} {slice : Slice} {rank : NodeID → Nat}
  {f g : NodeID → Nat → ProfileValue} {k : NodeID}

theorem inflow_congr (H : Ready ds attrNodeMap tree slice rank) {n : RecordNode}
    (hk : tree[k]? = some n) (i : Nat)
    (h : ∀ c, dirtyAt tree c = true → rank c = rank k + 1 → f c i = g c i) :
    inflow ds attrNodeMap tree f k i = inflow ds attrNodeMap tree g k i := by
  unfold inflow
  by_cases ha : attrAt ds tree k = true
  · rw [if_pos ha, if_pos ha, fromSiblings, fromSiblings]
    apply congrArg List.sum
    apply List.map_congr_left
    intro c hc
    have hpar : parentOf tree k = some n.parentId := parentOf_eq_some.mpr ⟨n, hk, rfl⟩
    rw [hpar, Option.getD_some] at hc
    have hcp : parentOf tree c = some n.parentId := by
      cases hp : tree[n.parentId]? with
      | none =>
          rw [childrenAt, hp] at hc
          cases hc
      | some p => exact (H.rooted.mem_childrenAt hp c).mp hc
    split
    · rfl
    · cases hm : attrNodeMap[(c, nameAt tree k)]? with
      | none => rfl
      | some a =>
          dsimp only
          rw [current, current]
          cases hd : dirtyAt tree a with
          | false => rfl
          | true =>
              have h₁ := H.rooted.rank_child (H.attrs c _ a hm)
              have h₂ := H.rooted.rank_child hcp
              have h₃ := H.rooted.rank_child hpar
              exact h a hd (by omega)
  · rw [if_neg ha, if_neg ha]
    congr 1
    rw [fromChildren, fromChildren]
    apply congrArg List.sum
    apply List.map_congr_left
    intro c hc
    have hcp := (H.rooted.mem_childrenAt hk c).mp hc
    cases hd : dirtyAt tree c with
    | false => simp
    | true => rw [h c hd (H.rooted.rank_child hcp)]

theorem settledValues_settles (H : Ready ds attrNodeMap tree slice rank) :
    Settles ds attrNodeMap tree (settledValues ds attrNodeMap tree rank) := by
  intro k i hd _
  obtain ⟨n, hn, -⟩ := dirtyAt_some hd
  have hbound := H.rooted.bound k n hn
  have hlevel : tree.size + 1 - rank k = tree.size - rank k + 1 := by omega
  rw [settledValues, hlevel, settleWithin]
  congr 2
  apply inflow_congr H hn
  intro c _ hc
  rw [settledValues, show tree.size + 1 - rank c = tree.size - rank k by omega]

end Llprof.Monitor.Settling
