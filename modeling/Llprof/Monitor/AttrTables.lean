import Llprof.Monitor.RunTotals

namespace Llprof.Monitor.AttrTables

open Faulting hiding store
open ParentTree TreeMaps Nodes Store SlotLoops TreeShape FlushSpec Marking NewLeaf Receive StoreSpec Runs
open Profiler.CallTree (MethodNodeSerializedInfo)

def linkAt (tree : Tree) (k : NodeID) : Option (NodeID × NameID) :=
  (tree[k]?).map (fun n => (n.parentId, n.nodeName))

def firstAttrNodeId : NodeID := 0xFF000000

/-- The tables of a thread store in attribute mode. The client's nodes are linked by
`link`; those whose names are in `hash` may go by the id of another node, and the
monitor adds attribute nodes of its own. -/
structure Tabled (hash : NameID → Prop) (link : Links) (ts : ThreadStore) : Prop where
  plain : ∀ k p x, ¬ hash x → (linkAt ts.currentTree k = some (p, x) ↔ link k = some (p, x))
  attrs : ∀ a p x, ts.attrNodeMap[(p, x)]? = some a ↔ hash x ∧ linkAt ts.currentTree a = some (p, x)
  known : ∀ k p x, hash x → link k = some (p, x) →
    linkAt ts.currentTree (ts.attrNodeIdAlt.getD k k) = some (p, x)
  alts : ∀ k a, ts.attrNodeIdAlt[k]? = some a → ∃ p x, hash x ∧ link k = some (p, x)
  inner : ∀ c p x, linkAt ts.currentTree c = some (p, x) → p = 0 ∨ ∃ q y, ¬ hash y ∧
    linkAt ts.currentTree p = some (q, y)
  small : ∀ a p x, hash x → linkAt ts.currentTree a = some (p, x) → a < firstAttrNodeId → link a = some (p, x)
  bound : firstAttrNodeId ≤ ts.currentAttrNodeIdIndex
  index : ∀ k l, linkAt ts.currentTree k = some l → k < ts.currentAttrNodeIdIndex
  root : ¬ hash 0 ∧ link 1 = some (0, 0)
  zero : link 0 = none

variable {gl : Settings} {ds : DataStore} {hash : NameID → Prop} {link : Links}
  {rank : NodeID → Nat} {tree tree' : Tree} {ts ts' : ThreadStore} {c p : NodeID} {x : NameID}

theorem linkAt_eq_some {k : NodeID} : linkAt tree k = some (p, x) ↔
    ∃ n, tree[k]? = some n ∧ n.parentId = p ∧ n.nodeName = x := by
  simp [linkAt, Option.map_eq_some_iff]

theorem linkAt_of_node {k : NodeID} {n : RecordNode} (h : tree[k]? = some n) :
    linkAt tree k = some (n.parentId, n.nodeName) := by rw [linkAt, h, Option.map_some]

theorem node_of_linkAt {k : NodeID} {l : NodeID × NameID} (h : linkAt tree k = some l) :
    ∃ n, tree[k]? = some n := by
  rw [linkAt, Option.map_eq_some_iff] at h
  obtain ⟨n, hn, -⟩ := h
  exact ⟨n, hn⟩

theorem linkAt_eq_none {k : NodeID} : linkAt tree k = none ↔ tree[k]? = none := by
  rw [linkAt, Option.map_eq_none_iff]

theorem parentOf_of_linkAt {k : NodeID} (h : linkAt tree k = some (p, x)) : parentOf tree k = some p := by
  obtain ⟨n, hn, hp, -⟩ := linkAt_eq_some.mp h
  exact parentOf_eq_some.mpr ⟨n, hn, hp⟩

theorem linkAt_of_parentOf {k : NodeID} (h : parentOf tree k = some p) :
    ∃ x, linkAt tree k = some (p, x) := by
  obtain ⟨n, hn, rfl⟩ := parentOf_eq_some.mp h
  exact ⟨n.nodeName, linkAt_of_node hn⟩

theorem linkAt_places (h : SamePlaces tree tree') (k : NodeID) : linkAt tree' k = linkAt tree k := by
  have := congrArg (Option.map (fun q : Place => (q.parentId, q.nodeName))) (h k)
  rwa [Option.map_map, Option.map_map] at this

theorem linkAt_grown (h : Grown gl ds tree c p x tree') (k : NodeID) :
    linkAt tree' k = if k = c then some (p, x) else linkAt tree k := by
  have := congrArg (Option.map (fun n : RecordNode => (n.parentId, n.nodeName))) (h.payload k)
  rw [Option.map_map, apply_ite (Option.map (fun n : RecordNode => (n.parentId, n.nodeName))),
    Option.map_map] at this
  exact this

theorem Tabled.congr (h : Tabled hash link ts) (hl : ∀ k, linkAt ts'.currentTree k = linkAt ts.currentTree k)
    (hm : ts'.attrNodeMap = ts.attrNodeMap) (ha : ts'.attrNodeIdAlt = ts.attrNodeIdAlt)
    (hi : ts'.currentAttrNodeIdIndex = ts.currentAttrNodeIdIndex) : Tabled hash link ts' := by
  obtain ⟨h1, h2, h3, h4, h5, h6, h7, h8, h9, h10⟩ := h
  simp only [← hl, ← hm, ← ha, ← hi] at h1 h2 h3 h4 h5 h6 h7 h8
  exact ⟨h1, h2, h3, h4, h5, h6, h7, h8, h9, h10⟩

theorem Tabled.index_new (h : Tabled hash link ts) :
    linkAt ts.currentTree ts.currentAttrNodeIdIndex = none := by
  rw [Option.eq_none_iff_forall_ne_some]
  intro l hl
  exact lt_irrefl _ (h.index _ l hl)

theorem ne_of_linkAt {k j : NodeID} {l : NodeID × NameID} (hk : linkAt tree k = some l)
    (hj : linkAt tree j = none) : k ≠ j := by
  rintro rfl
  rw [hj] at hk
  cases hk

theorem Tabled.leaf_auto (h : Tabled hash link ts) (hx : hash x) {q : NodeID} {y : NameID} (hy : ¬ hash y)
    (hp : linkAt ts.currentTree p = some (q, y)) (hm : ts.attrNodeMap[(p, x)]? = none)
    (hg : Grown gl ds ts.currentTree ts.currentAttrNodeIdIndex p x tree') :
    Tabled hash link { ts with
      currentTree := tree'
      currentAttrNodeIdIndex := ts.currentAttrNodeIdIndex + 1
      attrNodeMap := ts.attrNodeMap.insert (p, x) ts.currentAttrNodeIdIndex } := by
  have hnew := h.index_new
  have hlink := linkAt_grown hg
  have hold {k : NodeID} {l : NodeID × NameID} (hk : linkAt ts.currentTree k = some l) :
      linkAt tree' k = some l := by
    rw [hlink, if_neg (ne_of_linkAt hk hnew), hk]
  refine ⟨?_, ?_, ?_, h.alts, ?_, ?_, h.bound.trans (Nat.le_succ _), ?_, h.root, h.zero⟩
  · intro k p' z hz
    rw [← h.plain k p' z hz, hlink]
    split
    next hk =>
      rw [hk, hnew, Option.some.injEq, Prod.mk.injEq]
      exact iff_of_false (fun he => hz (he.2 ▸ hx)) (fun he => nomatch he)
    next => exact Iff.rfl
  · intro a p' z
    dsimp only
    rw [getElem?_insert_pair, hlink]
    by_cases hpz : (p', z) = (p, x)
    · rw [if_pos hpz, Option.some.injEq]
      obtain ⟨rfl, rfl⟩ := Prod.mk.inj hpz
      constructor
      · rintro rfl
        exact ⟨hx, if_pos rfl⟩
      · rintro ⟨-, ha⟩
        split at ha
        next hac => exact hac.symm
        next =>
          rw [(h.attrs a p' z).mpr ⟨hx, ha⟩] at hm
          cases hm
    · rw [if_neg hpz, h.attrs a p' z]
      apply and_congr_right
      intro hz
      split
      next hac =>
        rw [hac, hnew, Option.some.injEq]
        exact iff_of_false (fun he => nomatch he) (fun he => hpz he.symm)
      next => exact Iff.rfl
  · intro k p' z hz hk
    exact hold (h.known k p' z hz hk)
  · intro k p' z hk
    rw [hlink] at hk
    split at hk
    · rw [Option.some.injEq, Prod.mk.injEq] at hk
      exact Or.inr ⟨q, y, hy, hk.1 ▸ hold hp⟩
    · rcases h.inner k p' z hk with h0 | ⟨q', y', hy', hp'⟩
      · exact Or.inl h0
      · exact Or.inr ⟨q', y', hy', hold hp'⟩
  · intro a p' z hz ha hlt
    rw [hlink] at ha
    split at ha
    next hac =>
      rw [hac] at hlt
      exact absurd h.bound (not_le.mpr hlt)
    next => exact h.small a p' z hz ha hlt
  · intro k l hk
    rw [hlink] at hk
    split at hk
    next hkc =>
      rw [hkc]
      exact Nat.lt_succ_self _
    next => exact (h.index k l hk).trans (Nat.lt_succ_self _)

/-- The links after one more record. The first record of a node counts. -/
def linkWith (link : Links) (r : MethodNodeSerializedInfo) : Links :=
  fun k => (link k).or (if r.callNodeId = k then some (r.parentNodeId, r.nameid) else none)

theorem linkOf_append_record (log : List MethodNodeSerializedInfo) (r : MethodNodeSerializedInfo) :
    linkOf (log ++ [r]) = linkWith (linkOf log) r := by
  funext k
  rw [linkWith, linkOf, linkOf]
  by_cases h1 : k = 1
  · rw [if_pos h1, if_pos h1, Option.some_or]
  · rw [if_neg h1, if_neg h1, recordAt_append]
    cases recordAt log k with
    | some q => rfl
    | none =>
        rw [Option.none_or, Option.map_none, Option.none_or, apply_ite (Option.map _)]
        rfl

variable {r : MethodNodeSerializedInfo}

theorem linkWith_known {k : NodeID} {l : NodeID × NameID} (h : link k = some l)
    (r : MethodNodeSerializedInfo) : linkWith link r k = some l := by rw [linkWith, h, Option.some_or]

theorem linkWith_ne {k : NodeID} (h : k ≠ r.callNodeId) : linkWith link r k = link k := by
  rw [linkWith, if_neg (Ne.symm h), Option.or_none]

theorem linkWith_new (h : link r.callNodeId = none) :
    linkWith link r r.callNodeId = some (r.parentNodeId, r.nameid) := by
  rw [linkWith, h, if_pos rfl, Option.none_or]

theorem linkWith_old {l : NodeID × NameID} (h : link r.callNodeId = some l) : linkWith link r = link := by
  funext k
  by_cases hk : k = r.callNodeId
  · rw [hk, h, linkWith_known h]
  · exact linkWith_ne hk

theorem Tabled.leaf_record (h : Tabled hash link ts) (hr0 : r.callNodeId ≠ 0)
    (hnew : link r.callNodeId = none) (hc : linkAt ts.currentTree r.callNodeId = none)
    (hsmall : r.callNodeId < firstAttrNodeId) {q : NodeID} {y : NameID} (hy : ¬ hash y)
    (hp : linkAt ts.currentTree r.parentNodeId = some (q, y)) {attrNodeMap : AttrNodeMap}
    (hm : (hash r.nameid ∧ ts.attrNodeMap[(r.parentNodeId, r.nameid)]? = none ∧
        attrNodeMap = ts.attrNodeMap.insert (r.parentNodeId, r.nameid) r.callNodeId) ∨
      (¬ hash r.nameid ∧ attrNodeMap = ts.attrNodeMap))
    (hg : Grown gl ds ts.currentTree r.callNodeId r.parentNodeId r.nameid tree') :
    Tabled hash (linkWith link r) { ts with currentTree := tree', attrNodeMap } := by
  have hlink := linkAt_grown hg
  have hold {k : NodeID} {l : NodeID × NameID} (hk : linkAt ts.currentTree k = some l) :
      linkAt tree' k = some l := by
    rw [hlink, if_neg (ne_of_linkAt hk hc), hk]
  have halt : ts.attrNodeIdAlt.getD r.callNodeId r.callNodeId = r.callNodeId := by
    rw [Std.TreeMap.getD_eq_getD_getElem?]
    cases ha : ts.attrNodeIdAlt[r.callNodeId]? with
    | none => rfl
    | some a =>
        obtain ⟨p', z, -, hk⟩ := h.alts _ a ha
        rw [hnew] at hk
        cases hk
  refine ⟨?_, ?_, ?_, ?_, ?_, ?_, h.bound, ?_, ⟨h.root.1, linkWith_known h.root.2 r⟩, ?_⟩
  · intro k p' z hz
    dsimp only
    rw [hlink]
    by_cases hk : k = r.callNodeId
    · rw [if_pos hk, hk, linkWith_new hnew]
    · rw [if_neg hk, linkWith_ne hk]
      exact h.plain k p' z hz
  · intro a p' z
    dsimp only
    rw [hlink]
    rcases hm with ⟨hx, hnone, rfl⟩ | ⟨hx, rfl⟩
    · rw [getElem?_insert_pair]
      by_cases hpz : (p', z) = (r.parentNodeId, r.nameid)
      · rw [if_pos hpz, Option.some.injEq]
        obtain ⟨rfl, rfl⟩ := Prod.mk.inj hpz
        constructor
        · rintro rfl
          exact ⟨hx, if_pos rfl⟩
        · rintro ⟨-, ha⟩
          split at ha
          next hac => exact hac.symm
          next =>
            rw [(h.attrs a _ _).mpr ⟨hx, ha⟩] at hnone
            cases hnone
      · rw [if_neg hpz, h.attrs a p' z]
        apply and_congr_right
        intro hz
        split
        next hac =>
          rw [hac, hc, Option.some.injEq]
          exact iff_of_false (fun he => nomatch he) (fun he => hpz he.symm)
        next => exact Iff.rfl
    · rw [h.attrs a p' z]
      apply and_congr_right
      intro hz
      split
      next hac =>
        rw [hac, hc, Option.some.injEq, Prod.mk.injEq]
        exact iff_of_false (fun he => nomatch he) (fun he => hx (he.2 ▸ hz))
      next => exact Iff.rfl
  · intro k p' z hz hk
    dsimp only
    by_cases hkc : k = r.callNodeId
    · rw [hkc, linkWith_new hnew] at hk
      rw [hkc, halt, hlink, if_pos rfl, hk]
    · rw [linkWith_ne hkc] at hk
      exact hold (h.known k p' z hz hk)
  · intro k a ha
    obtain ⟨p', z, hz, hk⟩ := h.alts k a ha
    exact ⟨p', z, hz, linkWith_known hk r⟩
  · intro k p' z hk
    rw [hlink] at hk
    split at hk
    · rw [Option.some.injEq, Prod.mk.injEq] at hk
      exact Or.inr ⟨q, y, hy, hk.1 ▸ hold hp⟩
    · rcases h.inner k p' z hk with h0 | ⟨q', y', hy', hp'⟩
      · exact Or.inl h0
      · exact Or.inr ⟨q', y', hy', hold hp'⟩
  · intro a p' z hz ha hlt
    rw [hlink] at ha
    by_cases hac : a = r.callNodeId
    · rw [if_pos hac] at ha
      rw [hac, linkWith_new hnew, ha]
    · rw [if_neg hac] at ha
      rw [linkWith_ne hac]
      exact h.small a p' z hz ha hlt
  · intro k l hk
    rw [hlink] at hk
    split at hk
    next hkc =>
      rw [hkc]
      exact hsmall.trans_le h.bound
    next => exact h.index k l hk
  · rw [linkWith_ne hr0.symm]
    exact h.zero

theorem Tabled.alias (h : Tabled hash link ts) (hr0 : r.callNodeId ≠ 0) (hnew : link r.callNodeId = none)
    (hc : linkAt ts.currentTree r.callNodeId = none) (hx : hash r.nameid) {a : NodeID}
    (ha : linkAt ts.currentTree a = some (r.parentNodeId, r.nameid)) :
    Tabled hash (linkWith link r) { ts with attrNodeIdAlt := ts.attrNodeIdAlt.insert r.callNodeId a } := by
  refine ⟨?_, h.attrs, ?_, ?_, h.inner, ?_, h.bound, h.index, ⟨h.root.1, linkWith_known h.root.2 r⟩,
    (linkWith_ne hr0.symm).trans h.zero⟩
  · intro k p z hz
    by_cases hk : k = r.callNodeId
    · rw [hk, linkWith_new hnew, hc, Option.some.injEq, Prod.mk.injEq]
      exact iff_of_false (fun he => nomatch he) (fun he => hz (he.2 ▸ hx))
    · rw [linkWith_ne hk]
      exact h.plain k p z hz
  · intro k p z hz hk
    dsimp only
    rw [Std.TreeMap.getD_eq_getD_getElem?, getElem?_insert]
    by_cases hkc : k = r.callNodeId
    · rw [hkc, linkWith_new hnew] at hk
      rw [if_pos hkc, Option.getD_some, ha, hk]
    · rw [linkWith_ne hkc] at hk
      rw [if_neg hkc, ← Std.TreeMap.getD_eq_getD_getElem?]
      exact h.known k p z hz hk
  · intro k b hb
    dsimp only at hb
    rw [getElem?_insert] at hb
    by_cases hkc : k = r.callNodeId
    · exact ⟨_, _, hx, by rw [hkc, linkWith_new hnew]⟩
    · rw [if_neg hkc] at hb
      obtain ⟨p, z, hz, hk⟩ := h.alts k b hb
      exact ⟨p, z, hz, linkWith_known hk r⟩
  · intro b p z hz hb hlt
    exact linkWith_known (h.small b p z hz hb hlt) r

theorem Tabled.not_alias (h : Tabled hash link ts) {k : NodeID} (hk : ∀ p x, hash x → link k ≠ some (p, x)) :
    ts.attrNodeIdAlt.getD k k = k := by
  rw [Std.TreeMap.getD_eq_getD_getElem?]
  cases ha : ts.attrNodeIdAlt[k]? with
  | none => rfl
  | some a =>
      obtain ⟨p, x, hx, hl⟩ := h.alts k a ha
      exact absurd hl (hk p x hx)

theorem Tabled.unknown (h : Tabled hash link ts) {k : NodeID} (hk : link k = none)
    (hsmall : k < firstAttrNodeId) : linkAt ts.currentTree k = none := by
  rw [Option.eq_none_iff_forall_ne_some]
  rintro ⟨p, x⟩ hl
  by_cases hx : hash x
  · rw [h.small k p x hx hl hsmall] at hk
    cases hk
  · rw [(h.plain k p x hx).mp hl] at hk
    cases hk

structure Placeable (hash : NameID → Prop) (ds : DataStore) (link : Links) (r : MethodNodeSerializedInfo) :
    Prop where
  name : isAttrName (ds.getNameFromID r.nameid) = true ↔ hash r.nameid
  nonzero : r.callNodeId ≠ 0
  small : r.callNodeId < firstAttrNodeId
  parent : link r.callNodeId = none → ∃ q y, ¬ hash y ∧ link r.parentNodeId = some (q, y)

theorem locate_tabled (hon : gl.leafNodeAccumulate = true) (h : Tabled hash link ts)
    (hr : Rooted ts.currentTree rank) (hg : ∀ n, ts.currentTree[(1 : NodeID)]? = some n → n.gnid ≠ 0)
    (hp : Placeable hash ds link r) :
    ∃ ts' c, locate gl ds ts r = .ok (ts', c) ∧ Tabled hash (linkWith link r) ts' ∧
      linkAt ts'.currentTree c = linkWith link r r.callNodeId ∧
      (ts'.currentTree = ts.currentTree ∨ c ≠ 0 ∧ linkAt ts.currentTree c = none ∧
        (∃ n, ts.currentTree[r.parentNodeId]? = some n) ∧
        Grown gl ds ts.currentTree c r.parentNodeId r.nameid ts'.currentTree) := by
  rw [locate]
  simp only [hon, if_true, ThreadStore.getNodeFromID]
  cases hlink : link r.callNodeId with
  | some l =>
      obtain ⟨p, x⟩ := l
      have hfound : linkAt ts.currentTree (ts.attrNodeIdAlt.getD r.callNodeId r.callNodeId) =
          some (p, x) := by
        by_cases hx : hash x
        · exact h.known _ p x hx hlink
        · rw [h.not_alias, h.plain _ p x hx, hlink]
          intro p' z hz he
          rw [hlink, Option.some.injEq, Prod.mk.injEq] at he
          exact hx (he.2 ▸ hz)
      obtain ⟨n, hn⟩ := node_of_linkAt hfound
      rw [hn]
      exact ⟨ts, _, rfl, (linkWith_old hlink).symm ▸ h,
        hfound.trans (linkWith_known hlink r).symm, Or.inl rfl⟩
  | none =>
      obtain ⟨q, y, hy, hlp⟩ := hp.parent hlink
      have hpl := (h.plain _ q y hy).mpr hlp
      have hc := h.unknown hlink hp.small
      have halt := h.not_alias (k := r.callNodeId) (fun p x _ he => by rw [hlink] at he; cases he)
      rw [halt, linkAt_eq_none.mp hc]
      dsimp only
      cases hm : ts.attrNodeMap[(r.parentNodeId, r.nameid)]? with
      | some a =>
          obtain ⟨hx, ha⟩ := (h.attrs a _ _).mp hm
          refine ⟨_, a, rfl, h.alias hp.nonzero hlink hc hx ha, ?_, Or.inl rfl⟩
          rw [linkWith_new hlink]
          exact ha
      | none =>
          obtain ⟨tree', hrun, hgrown⟩ :=
            addRecordNode_grows gl ds ts hp.nonzero r hr hg (linkAt_eq_none.mp hc) (node_of_linkAt hpl)
          have hnoted : (hash r.nameid ∧ ts.attrNodeMap[(r.parentNodeId, r.nameid)]? = none ∧
              attrNoted gl ds ts.attrNodeMap r.callNodeId r =
                ts.attrNodeMap.insert (r.parentNodeId, r.nameid) r.callNodeId) ∨
              (¬ hash r.nameid ∧ attrNoted gl ds ts.attrNodeMap r.callNodeId r = ts.attrNodeMap) := by
            rw [attrNoted, hon, Bool.true_and]
            by_cases hx : hash r.nameid
            · exact Or.inl ⟨hx, hm, if_pos (hp.name.mpr hx)⟩
            · exact Or.inr ⟨hx, if_neg fun he => hx (hp.name.mp he)⟩
          refine ⟨_, r.callNodeId, ?_, h.leaf_record hp.nonzero hlink hc hp.small hy hpl hnoted hgrown, ?_,
            Or.inr ⟨hp.nonzero, hc, node_of_linkAt hpl, hgrown⟩⟩
          · dsimp only
            rw [hrun, ok_bind, pure_eq_ok]
          · dsimp only
            rw [linkAt_grown hgrown, if_pos rfl, linkWith_new hlink]

end Llprof.Monitor.AttrTables
