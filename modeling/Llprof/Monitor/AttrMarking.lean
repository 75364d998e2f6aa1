import Llprof.Monitor.AttrTables

namespace Llprof.Monitor.AttrMarking

open Faulting hiding store
open ParentTree TreeMaps Slots Nodes Store SlotLoops TreeShape FlushSpec FlushWalk Marking NewLeaf Receive
  StoreSpec RunTotals AttrTables

structure Attributed (ds : DataStore) (hash : NameID → Prop) (link : Links)
    (rank : NodeID → Nat) (ts : ThreadStore) : Prop where
  tabled : Tabled hash link ts
  rooted : Rooted ts.currentTree rank
  sized : ∀ (k : NodeID) (n : RecordNode), ts.currentTree[k]? = some n →
    n.allValues.length = ds.numRecords ∧ n.childrenValues.length = ds.numRecords ∧
      n.tempValues.length = ds.numRecords
  rootGnid : ∀ n, ts.currentTree[(1 : NodeID)]? = some n → n.gnid ≠ 0
  names : ∀ k p x, linkAt ts.currentTree k = some (p, x) → (isAttrName (ds.getNameFromID x) = true ↔ hash x)

/-- Above a dirty node its parent is dirty and, above an attribute node, the attribute
node of that name one level up. The nodes of `S` are exempt while they are marked. -/
def UpwardExcept (hash : NameID → Prop) (S : NodeID → Prop) (tree : Tree) : Prop :=
  ∀ c p x, linkAt tree c = some (p, x) → dirtyAt tree c = true → ¬ S c → p ≠ 0 →
    dirtyAt tree p = true ∧ (hash x → ∀ q y, linkAt tree p = some (q, y) → q ≠ 0 →
      ∃ a, linkAt tree a = some (q, x) ∧ dirtyAt tree a = true)

/-- What nodes keep until the flush: their places and settled values, and their
temporary values unless they are marked, which makes them 0. -/
structure Later (ds : DataStore) (tree tree' : Tree) : Prop where
  links : ∀ k l, linkAt tree k = some l → linkAt tree' k = some l
  all : ∀ k i, allAt tree' i k = allAt tree i k
  dirty : ∀ k, dirtyAt tree k = true → dirtyAt tree' k = true
  temps : ∀ k i, dirtyAt tree' k = dirtyAt tree k → tempAt tree' k i = tempAt tree k i
  marked : ∀ k i, dirtyAt tree k = false → dirtyAt tree' k = true →
    i < ds.numRecords → isStatic ds i = false → tempAt tree' k i = 0

/-- What the marking of a node does: new attribute nodes are dirty, and those that have
become dirty lie above the node. -/
structure Marked (ds : DataStore) (hash : NameID → Prop) (link : Links) (id : NodeID) (tree tree' : Tree) :
    Prop where
  later : Later ds tree tree'
  added : ∀ k l, linkAt tree' k = some l → linkAt tree k = some l ∨ dirtyAt tree' k = true
  traced : ∀ a p x, hash x → linkAt tree' a = some (p, x) → dirtyAt tree' a = true →
    dirtyAt tree a = true ∨ ∃ q, linkAt tree id = some (q, x) ∧ Below link.parent p q
  here : ∀ l, linkAt tree id = some l → dirtyAt tree' id = true

/-- The node `c` may have joined the tree, and nothing else has changed. -/
structure TakenIn (ds : DataStore) (hash : NameID → Prop) (c : NodeID) (tree tree' : Tree) : Prop where
  later : Later ds tree tree'
  dirty : ∀ k, dirtyAt tree' k = dirtyAt tree k
  links : ∀ k, k ≠ c → linkAt tree' k = linkAt tree k
  upward : ∀ S, UpwardExcept hash S tree → UpwardExcept hash S tree'

variable {gl : Settings} {ds : DataStore} {hash : NameID → Prop} {link : Links}
  {rank : NodeID → Nat} {S : NodeID → Prop} {tree tree' : Tree} {ts ts' : ThreadStore}
  {c id p q : NodeID} {x : NameID}

theorem linkAt_of_dirty (h : dirtyAt tree c = true) : ∃ p x, linkAt tree c = some (p, x) := by
  obtain ⟨n, hn, -⟩ := dirtyAt_some h
  exact ⟨_, _, linkAt_of_node hn⟩

theorem linkAt_old {l : NodeID × NameID} (hk : linkAt tree c = some l)
    (h : Later ds tree tree') {l' : NodeID × NameID} (hk' : linkAt tree' c = some l') : l' = l := by
  rw [h.links c l hk, Option.some.injEq] at hk'
  exact hk'.symm

theorem Later.refl (ds : DataStore) (tree : Tree) : Later ds tree tree :=
  ⟨fun _ _ h => h, fun _ _ => rfl, fun _ h => h, fun _ _ _ => rfl, fun k _ h h' => by rw [h] at h'; cases h'⟩

theorem Later.trans {t₁ t₂ t₃ : Tree} (h : Later ds t₁ t₂) (h' : Later ds t₂ t₃) : Later ds t₁ t₃ := by
  refine ⟨fun k l hk => h'.links k l (h.links k l hk), fun k i => (h'.all k i).trans (h.all k i),
    fun k hk => h'.dirty k (h.dirty k hk), fun k i he => ?_, fun k i hk hk' hi hs => ?_⟩
  · have h₂ : dirtyAt t₂ k = dirtyAt t₁ k := by
      cases hd : dirtyAt t₁ k with
      | true => exact h.dirty k hd
      | false =>
          rw [Bool.eq_false_iff]
          intro hd₂
          rw [h'.dirty k hd₂, hd] at he
          cases he
    rw [h'.temps k i (he.trans h₂.symm), h.temps k i h₂]
  · cases hd : dirtyAt t₂ k with
    | true => rw [h'.temps k i (hk'.trans hd.symm), h.marked k i hk hd hi hs]
    | false => exact h'.marked k i hd hk' hi hs

theorem Later.core (ds : DataStore) (h : SameCore tree tree') : Later ds tree tree' := by
  refine ⟨fun k l hk => (linkAt_places h.places k).trans hk, fun k i => ?_,
    fun k hk => (h.dirtyAt k).trans hk, fun k i _ => ?_, fun k i hk hk' => ?_⟩
  · have := congrArg (Option.map (fun n : RecordNode => value n.allValues i)) (h k)
    rw [Option.map_map, Option.map_map] at this
    exact congrArg (fun o : Option ProfileValue => o.getD 0) this
  · have := congrArg (Option.map (fun n : RecordNode => value n.tempValues i)) (h k)
    rw [Option.map_map, Option.map_map] at this
    exact congrArg (fun o : Option ProfileValue => o.getD 0) this
  · rw [h.dirtyAt, hk] at hk'
    cases hk'

theorem Later.grown (hsingle : gl.singleTreeMode = false) (h : Grown gl ds tree c p x tree')
    (hc : tree[c]? = none) : Later ds tree tree' := by
  have hread (f : RecordNode → ProfileValue) (hf : ∀ n, f (payload n) = f n)
    (h0 : f (freshNode gl ds c p x) = 0) (k : NodeID) :
      ((tree'[k]?).map f).getD 0 = ((tree[k]?).map f).getD 0 := by
    have := congrArg (Option.map f) (h.payload k)
    rw [Option.map_map, apply_ite (Option.map f), Option.map_map, show f ∘ payload = f from funext hf] at this
    rw [this]
    split
    next hk => rw [hk, hc, Option.map_some, Option.getD_some, hf, h0]; rfl
    next => rfl
  refine ⟨fun k l hk => ?_, fun k i => hread _ (fun _ => rfl) ?_ k, fun k hk => (h.dirtyAt hc k).trans hk,
    fun k i _ => hread _ (fun _ => rfl) ?_ k, fun k i hk hk' => ?_⟩
  · rw [linkAt_grown h, if_neg (ne_of_linkAt hk (linkAt_eq_none.mpr hc)), hk]
  · exact value_fresh gl ds i
  · have hslots : freshValues gl ds = slots ds.numRecords (fun _ => 0) := by
      rw [freshValues, hsingle, if_neg Bool.false_ne_true]
    have h0 := value_fresh gl ds i
    rwa [hslots] at h0
  · rw [h.dirtyAt hc, hk] at hk'
    cases hk'

theorem Later.marks {n : RecordNode} (hn : tree[id]? = some n) (hd : n.dirty = false) :
    Later ds tree (tree.insert id (markedNode gl ds n)) := by
  have hpl : SamePlaces tree (tree.insert id (markedNode gl ds n)) := SamePlaces.insert hn rfl
  have hself : dirtyAt (tree.insert id (markedNode gl ds n)) id = true := by
    rw [dirtyAt, getElem?_insert_self]
    rfl
  refine ⟨fun k l hk => (linkAt_places hpl k).trans hk, fun k i => ?_, fun k hk => ?_, fun k i hk => ?_,
    fun k i hk hk' hi hs => ?_⟩
  · rw [allAt, getElem?_insert, allAt]
    split
    next hk => rw [hk, hn]; rfl
    next => rfl
  · by_cases hki : k = id
    · rw [hki, hself]
    · rw [dirtyAt_insert_ne hki, hk]
  · have hki : k ≠ id := by
      rintro rfl
      rw [hself, dirtyAt_eq hn, hd] at hk
      cases hk
    rw [tempAt, getElem?_insert_ne _ hki, tempAt]
  · by_cases hki : k = id
    · subst hki
      rw [tempAt, getElem?_insert_self, Option.map_some, Option.getD_some, markedNode]
      dsimp only
      rw [value_slots _ hi, hs, Bool.false_and, if_neg Bool.false_ne_true]
    · rw [dirtyAt_insert_ne hki, hk] at hk'
      cases hk'

theorem UpwardExcept.congr (h : UpwardExcept hash S tree) (hl : ∀ k, linkAt tree' k = linkAt tree k)
    (hd : ∀ k, dirtyAt tree' k = dirtyAt tree k) : UpwardExcept hash S tree' := by
  unfold UpwardExcept at h ⊢
  simp only [hl, hd]
  exact h

theorem UpwardExcept.insert {n : RecordNode} (h : UpwardExcept hash S tree) (hn : tree[id]? = some n) :
    UpwardExcept hash (fun k => S k ∨ k = id) (tree.insert id (markedNode gl ds n)) := by
  have hpl : SamePlaces tree (tree.insert id (markedNode gl ds n)) := SamePlaces.insert hn rfl
  have hmono {k : NodeID} (hk : dirtyAt tree k = true) :
      dirtyAt (tree.insert id (markedNode gl ds n)) k = true := by
    rw [dirtyAt, getElem?_insert]
    split
    · rfl
    · exact hk
  intro c p x hc hdc hS hp0
  simp only [linkAt_places hpl] at hc ⊢
  rw [not_or] at hS
  rw [dirtyAt_insert_ne hS.2] at hdc
  obtain ⟨hdp, hattr⟩ := h c p x hc hdc hS.1 hp0
  refine ⟨hmono hdp, fun hx q y hq hq0 => ?_⟩
  obtain ⟨a, ha, hda⟩ := hattr hx q y hq hq0
  exact ⟨a, ha, hmono hda⟩

theorem UpwardExcept.grown (h : UpwardExcept hash S tree) (hc : tree[c]? = none)
    (hg : Grown gl ds tree c p x tree') : UpwardExcept hash S tree' := by
  have hlink {k : NodeID} (hk : dirtyAt tree k = true) : linkAt tree' k = linkAt tree k := by
    obtain ⟨_, _, hl⟩ := linkAt_of_dirty hk
    rw [linkAt_grown hg, if_neg (ne_of_linkAt hl (linkAt_eq_none.mpr hc))]
  intro k p' z hk hdk hS hp0
  simp only [hg.dirtyAt hc] at hdk ⊢
  rw [hlink hdk] at hk
  obtain ⟨hdp, hattr⟩ := h k p' z hk hdk hS hp0
  refine ⟨hdp, fun hz q y hq hq0 => ?_⟩
  rw [hlink hdp] at hq
  obtain ⟨a, ha, hda⟩ := hattr hz q y hq hq0
  exact ⟨a, (hlink hda).trans ha, hda⟩

theorem TakenIn.refl (ds : DataStore) (hash : NameID → Prop) (c : NodeID) (tree : Tree) :
    TakenIn ds hash c tree tree :=
  ⟨Later.refl ds tree, fun _ => rfl, fun _ _ => rfl, fun _ h => h⟩

theorem TakenIn.grown (hsingle : gl.singleTreeMode = false) (hc : tree[c]? = none)
    (h : Grown gl ds tree c p x tree') : TakenIn ds hash c tree tree' :=
  ⟨Later.grown hsingle h hc, h.dirtyAt hc, fun k hk => (linkAt_grown h k).trans (if_neg hk),
    fun _ hS => hS.grown hc h⟩

theorem Attributed.congr (h : Attributed ds hash link rank ts)
    (hpl : SamePlaces ts.currentTree ts'.currentTree) (hg : KeepsGnid ts.currentTree ts'.currentTree)
    (hs : ∀ (k : NodeID) (n : RecordNode), ts'.currentTree[k]? = some n →
      n.allValues.length = ds.numRecords ∧ n.childrenValues.length = ds.numRecords ∧
        n.tempValues.length = ds.numRecords)
    (hm : ts'.attrNodeMap = ts.attrNodeMap) (ha : ts'.attrNodeIdAlt = ts.attrNodeIdAlt)
    (hi : ts'.currentAttrNodeIdIndex = ts.currentAttrNodeIdIndex) : Attributed ds hash link rank ts' := by
  refine ⟨h.tabled.congr (linkAt_places hpl) hm ha hi, h.rooted.congr hpl, hs,
    fun n hn => ?_, fun k p x hk => ?_⟩
  · obtain ⟨r, hr, -⟩ := h.rooted.root
    obtain ⟨n', hn', he⟩ := hg 1 r hr (h.rootGnid r hr)
    rw [hn, Option.some.injEq] at hn'
    rw [hn', he]
    exact h.rootGnid r hr
  · rw [linkAt_places hpl] at hk
    exact h.names k p x hk

theorem Attributed.core (h : Attributed ds hash link rank ts) (hs : SameCore ts.currentTree tree')
    (hg : KeepsGnid ts.currentTree tree') :
    Attributed ds hash link rank { ts with currentTree := tree' } := by
  refine h.congr hs.places hg (fun k n hk => ?_) rfl rfl rfl
  obtain ⟨m, hm, he⟩ := hs.find hk
  have h1 := congrArg (fun n : RecordNode => n.allValues) he
  have h2 := congrArg (fun n : RecordNode => n.childrenValues) he
  have h3 := congrArg (fun n : RecordNode => n.tempValues) he
  have := h.sized k m hm
  dsimp only [Marking.core] at h1 h2 h3
  rwa [h1, h2, h3]

theorem Attributed.setNode (h : Attributed ds hash link rank ts) {n n' : RecordNode}
    (hn : ts.currentTree[id]? = some n) (hp : place n' = place n) (hg : n'.gnid = n.gnid)
    (hs : n'.allValues.length = ds.numRecords ∧ n'.childrenValues.length = ds.numRecords ∧
      n'.tempValues.length = ds.numRecords) :
    Attributed ds hash link rank (ts.setNode id n') := by
  refine h.congr (SamePlaces.insert hn hp) (KeepsGnid.insert hn hg) (fun k m hk => ?_) rfl rfl rfl
  change (ts.currentTree.insert id n')[k]? = some m at hk
  rw [getElem?_insert] at hk
  split at hk
  · cases hk
    exact hs
  · exact h.sized k m hk

theorem Attributed.sized_grown (h : Attributed ds hash link rank ts) (hsingle : gl.singleTreeMode = false)
    (hg : Grown gl ds ts.currentTree c p x tree') (k : NodeID) (n : RecordNode) (hk : tree'[k]? = some n) :
    n.allValues.length = ds.numRecords ∧ n.childrenValues.length = ds.numRecords ∧
      n.tempValues.length = ds.numRecords := by
  refine Grown.vectors hg (P := fun all children temps => all.length = ds.numRecords ∧
    children.length = ds.numRecords ∧ temps.length = ds.numRecords) ?_ h.sized k n hk
  obtain ⟨-, -, ht, hlen⟩ := sized_fresh gl ds
  exact ⟨(hlen hsingle).1, (hlen hsingle).2, ht⟩

theorem getAttrNode_attributed (h : Attributed ds hash link rank ts)
    (hsingle : gl.singleTreeMode = false) (hx : hash x) (hname : isAttrName (ds.getNameFromID x) = true)
    {y : NameID} (hy : ¬ hash y) (hp : linkAt ts.currentTree p = some (q, y)) :
    ∃ ts' a rank', getAttrNode gl ds ts p x = .ok (ts', a) ∧ Attributed ds hash link rank' ts' ∧
      linkAt ts'.currentTree a = some (p, x) ∧ (∀ k l, linkAt ts.currentTree k = some l → rank' k = rank k) ∧
      TakenIn ds hash a ts.currentTree ts'.currentTree := by
  cases hm : ts.attrNodeMap[(p, x)]? with
  | some a =>
      refine ⟨ts, a, rank, ?_, h, ((h.tabled.attrs a p x).mp hm).2, fun _ _ _ => rfl, TakenIn.refl _ _ _ _⟩
      rw [getAttrNode, hm]
  | none =>
      have hnew := h.tabled.index_new
      obtain ⟨pn, hpn⟩ := node_of_linkAt hp
      have hi0 : ts.currentAttrNodeIdIndex ≠ 0 := Nat.ne_of_gt (Nat.lt_of_lt_of_le (by decide) h.tabled.bound)
      obtain ⟨tree', hrun, hgrown⟩ :=
        getAttrNode_grows gl ds ts hi0 h.rooted h.rootGnid (linkAt_eq_none.mp hnew) ⟨pn, hpn⟩ hm
      have hlink := linkAt_grown hgrown
      refine ⟨_, _, _, hrun, ⟨h.tabled.leaf_auto hx hy hp hm hgrown, hgrown.rooted h.rooted hi0 (linkAt_eq_none.mp hnew) hpn,
        h.sized_grown hsingle hgrown, Grown.rootGnid hgrown h.rooted h.rootGnid, fun k p' z hk => ?_⟩, ?_,
          fun k l hk => ?_,
        TakenIn.grown hsingle (linkAt_eq_none.mp hnew) hgrown⟩
      · rw [hlink] at hk
        split at hk
        · cases hk
          exact iff_of_true hname hx
        · exact h.names k p' z hk
      · dsimp only
        rw [hlink, if_pos rfl]
      · exact if_neg (ne_of_linkAt hk hnew)

theorem UpwardExcept.restore (h : UpwardExcept hash (fun k => S k ∨ k = id) tree)
    (hid : linkAt tree id = some (p, x)) (hp : p ≠ 0 → dirtyAt tree p = true)
    (hattr : hash x → ∀ q y, linkAt tree p = some (q, y) → q ≠ 0 →
      ∃ a, linkAt tree a = some (q, x) ∧ dirtyAt tree a = true) :
    UpwardExcept hash S tree := by
  intro c p' z hc hdc hS hp0
  by_cases hcid : c = id
  · rw [hcid, hid, Option.some.injEq, Prod.mk.injEq] at hc
    obtain ⟨rfl, rfl⟩ := hc
    exact ⟨hp hp0, hattr⟩
  · exact h c p' z hc hdc (not_or.mpr ⟨hS, hcid⟩) hp0

theorem Marked.node {n : RecordNode} (hn : tree[id]? = some n) (hd : n.dirty = false)
    (hplain : ∀ q y, linkAt tree n.parentId = some (q, y) → ¬ hash y)
    (h : Marked ds hash link n.parentId (tree.insert id (markedNode gl ds n)) tree') :
    Marked ds hash link id tree tree' := by
  have hpl : SamePlaces tree (tree.insert id (markedNode gl ds n)) := SamePlaces.insert hn rfl
  have hlater : Later ds tree (tree.insert id (markedNode gl ds n)) := Later.marks hn hd
  have hself : dirtyAt (tree.insert id (markedNode gl ds n)) id = true := by
    rw [dirtyAt, getElem?_insert_self]
    rfl
  refine ⟨hlater.trans h.later, fun k l hk => ?_, fun a p x hx ha hda => ?_,
    fun _ _ => h.later.dirty id hself⟩
  · rw [← linkAt_places hpl]
    exact h.added k l hk
  · obtain hda₁ | ⟨q, hq, -⟩ := h.traced a p x hx ha hda
    · by_cases hai : a = id
      · subst hai
        have hl := linkAt_old (linkAt_of_node hn) (hlater.trans h.later) ha
        exact Or.inr ⟨p, by rw [linkAt_of_node hn, ← hl], Below.refl p⟩
      · rw [dirtyAt_insert_ne hai] at hda₁
        exact Or.inl hda₁
    · rw [linkAt_places hpl] at hq
      exact absurd hx (hplain q x hq)

theorem Marked.attr {tree₂ tree₃ : Tree} {a : NodeID} (h : Marked ds hash link id tree tree₂)
    (hid : linkAt tree id = some (p, x)) (hpar : link.parent p = some q) (hj : TakenIn ds hash a tree₂ tree₃)
    (ha : linkAt tree₃ a = some (q, x)) (h' : Marked ds hash link a tree₃ tree') :
    Marked ds hash link id tree tree' := by
  refine ⟨(h.later.trans hj.later).trans h'.later, fun k l hk => ?_, fun b p' z hz hb hdb => ?_,
    fun l hl => h'.later.dirty id (hj.later.dirty id (h.here l hl))⟩
  · by_cases hka : k = a
    · exact Or.inr (hka ▸ h'.here _ ha)
    · obtain hk₃ | hdk := h'.added k l hk
      · obtain hk₂ | hdk := h.added k l ((hj.links k hka).symm.trans hk₃)
        · exact Or.inl hk₂
        · exact Or.inr (h'.later.dirty k (hj.later.dirty k hdk))
      · exact Or.inr hdk
  · obtain hdb₃ | ⟨q', hq', hbelow⟩ := h'.traced b p' z hz hb hdb
    · have hdb₂ := (hj.dirty b).symm.trans hdb₃
      obtain ⟨p₂, z₂, hl₂⟩ := linkAt_of_dirty hdb₂
      have hl := linkAt_old hl₂ (hj.later.trans h'.later) hb
      exact h.traced b p' z hz (hl₂.trans (congrArg some hl.symm)) hdb₂
    · rw [ha, Option.some.injEq, Prod.mk.injEq] at hq'
      obtain ⟨rfl, rfl⟩ := hq'
      exact Or.inr ⟨p, hid, hbelow.up hpar⟩

/-- `MarkNodeDirty` in attribute mode. It adds the attribute nodes that are missing. -/
theorem markNodeDirty_attributed (hd : Described ds) (hon : gl.leafNodeAccumulate = true)
    (hsingle : gl.singleTreeMode = false) (fuel : Nat) (ts : ThreadStore) (id : NodeID)
    (rank : NodeID → Nat) (S : NodeID → Prop) (h : Attributed ds hash link rank ts)
    (hup : UpwardExcept hash S ts.currentTree) (hfuel : rank id < fuel) :
    ∃ ts' rank', markNodeDirty gl ds fuel ts id = .ok ts' ∧ Attributed ds hash link rank' ts' ∧
      UpwardExcept hash S ts'.currentTree ∧ Marked ds hash link id ts.currentTree ts'.currentTree ∧
      ∀ k l, linkAt ts.currentTree k = some l → rank' k = rank k := by
  induction fuel generalizing ts id rank S with
  | zero => omega
  | succ fuel ih =>
      rw [markNodeDirty, ThreadStore.getNodeFromID]
      cases hn : ts.currentTree[id]? with
      | none =>
          refine ⟨ts, rank, rfl, h, hup, ⟨Later.refl _ _, fun _ _ hk => Or.inl hk, fun _ _ _ _ _ hda => Or.inl hda, ?_⟩,
            fun _ _ _ => rfl⟩
          intro l hl
          rw [linkAt_eq_none.mpr hn] at hl
          cases hl
      | some n =>
          have hdn := dirtyAt_eq hn
          have hlink := linkAt_of_node hn
          cases hdirty : n.dirty with
          | true =>
              exact ⟨ts, rank, by simp only [hdirty, if_true], h, hup, ⟨Later.refl _ _, fun _ _ hk => Or.inl hk,
                fun _ _ _ _ _ hda => Or.inl hda, fun _ _ => hdn.trans hdirty⟩, fun _ _ _ => rfl⟩
          | false =>
              obtain ⟨hall, hch, ht⟩ := h.sized id n hn
              have hrank := h.rooted.rank_child (parentOf_of_linkAt hlink)
              have hplain : ∀ q y, linkAt ts.currentTree n.parentId = some (q, y) → ¬ hash y := by
                intro q y hq
                obtain h0 | ⟨q', y', hy', hq'⟩ := h.tabled.inner id _ _ hlink
                · rw [h0, linkAt_eq_none.mpr h.rooted.zero] at hq
                  cases hq
                · rw [hq, Option.some.injEq, Prod.mk.injEq] at hq'
                  exact hq'.2 ▸ hy'
              have h₁ : Attributed ds hash link rank (ts.setNode id (markedNode gl ds n)) :=
                h.setNode hn rfl rfl ⟨hall, hch, length_slots _ _⟩
              obtain ⟨ts₂, rank₂, hrun, h₂, hup₂, hmark, hrank₂⟩ :=
                ih (ts.setNode id (markedNode gl ds n)) n.parentId rank
                  (fun k => S k ∨ k = id) h₁ (hup.insert hn) (by omega)
              have hpl : SamePlaces ts.currentTree (ts.setNode id (markedNode gl ds n)).currentTree :=
                SamePlaces.insert hn rfl
              have hm₂ : Marked ds hash link id ts.currentTree ts₂.currentTree :=
                Marked.node hn hdirty hplain hmark
              have hid₂ := hm₂.later.links id _ hlink
              have hp₂ : n.parentId ≠ 0 → dirtyAt ts₂.currentTree n.parentId = true := by
                intro hp0
                obtain ⟨q, y, -, hq⟩ := (h.tabled.inner id _ _ hlink).resolve_left hp0
                exact hmark.here _ ((linkAt_places hpl _).trans hq)
              have hkept (k : NodeID) (l : NodeID × NameID) (hk : linkAt ts.currentTree k = some l) :
                  rank₂ k = rank k :=
                hrank₂ k l ((linkAt_places hpl k).trans hk)
              have hpid : (markedNode gl ds n).parentId = n.parentId := rfl
              have hnid : (markedNode gl ds n).nodeName = n.nodeName := rfl
              have hisattr : (markedNode gl ds n).isAttrNode ds = isAttrName (ds.getNameFromID n.nodeName) :=
                rfl
              simp only [hdirty, Bool.false_eq_true, if_false, defaultTemps_marked hd ht fun _ =>
                hall, ok_bind, hpid, hnid,
                hisattr, hrun, hon, Bool.true_and, ThreadStore.getNodeFromID, pure_eq_ok]
              by_cases hx : hash n.nodeName
              · rw [if_pos ((h.names id _ _ hlink).mpr hx)]
                cases hpn : ts₂.currentTree[n.parentId]? with
                | none =>
                    refine ⟨ts₂, rank₂, rfl, h₂, hup₂.restore hid₂ hp₂ fun _ q y hq => ?_, hm₂, hkept⟩
                    rw [linkAt_eq_none.mpr hpn] at hq
                    cases hq
                | some pnode =>
                    have hp0 := h₂.rooted.ne_zero hpn
                    obtain ⟨q, y, hy, hq⟩ := (h.tabled.inner id _ _ hlink).resolve_left hp0
                    have hq₂ := hm₂.later.links _ _ hq
                    have hpq : pnode.parentId = q := by
                      rw [linkAt_of_node hpn, Option.some.injEq, Prod.mk.injEq] at hq₂
                      exact hq₂.1
                    dsimp only
                    rw [hpq]
                    cases hqn : ts₂.currentTree[q]? with
                    | none =>
                        refine ⟨ts₂, rank₂, rfl, h₂, hup₂.restore hid₂ hp₂ fun _ q' y' hq' hq0 => ?_, hm₂,
                          hkept⟩
                        rw [hq₂, Option.some.injEq, Prod.mk.injEq] at hq'
                        obtain ⟨rfl, rfl⟩ := hq'
                        obtain ⟨_, _, -, hl⟩ := (h₂.tabled.inner _ _ _ hq₂).resolve_left hq0
                        rw [linkAt_eq_none.mpr hqn] at hl
                        cases hl
                    | some ppnode =>
                        have hq0 := h₂.rooted.ne_zero hqn
                        obtain ⟨q', y', hy', hqq⟩ := (h₂.tabled.inner _ _ _ hq₂).resolve_left hq0
                        dsimp only
                        rw [h₂.rooted.id q ppnode hqn]
                        obtain ⟨ts₃, a, rank₃, hget, h₃, ha, hrank₃, hj⟩ := getAttrNode_attributed h₂
                          hsingle hx ((h.names id _ _ hlink).mpr hx) hy' hqq
                        have hra := h₃.rooted.rank_child (parentOf_of_linkAt ha)
                        have hrq := h₂.rooted.rank_child (parentOf_of_linkAt hq₂)
                        have hrp := hkept _ _ hq
                        have hrq₃ := hrank₃ _ _ hqq
                        obtain ⟨ts₄, rank₄, hrun₄, h₄, hup₄, hm₄, hrank₄⟩ :=
                          ih ts₃ a rank₃ (fun k => S k ∨ k = id) h₃ (hj.upward _ hup₂) (by omega)
                        have hpar : link.parent n.parentId = some q := by
                          rw [Links.parent, (h.tabled.plain _ q y hy).mp hq, Option.map_some]
                        have hm : Marked ds hash link id ts.currentTree ts₄.currentTree :=
                          hm₂.attr hlink hpar hj ha hm₄
                        refine ⟨ts₄, rank₄, by rw [hget, ok_bind, hrun₄], h₄, ?_, hm, fun k l hk => ?_⟩
                        · refine hup₄.restore (hm.later.links id _ hlink)
                            (fun hp0 => hm₄.later.dirty _ (hj.later.dirty _ (hp₂ hp0))) fun _ q₁ y₁ hq₁ _ =>
                              ?_
                          obtain ⟨rfl, -⟩ := Prod.mk.inj (linkAt_old hq hm.later hq₁)
                          exact ⟨a, hm₄.later.links a _ ha, hm₄.here _ ha⟩
                        · have hk₂ := hm₂.later.links k l hk
                          rw [hrank₄ k l (hj.later.links k l hk₂), hrank₃ k l hk₂, hkept k l hk]
              · rw [if_neg fun he => hx ((h.names id _ _ hlink).mp he)]
                exact ⟨ts₂, rank₂, rfl, h₂, hup₂.restore hid₂ hp₂ fun hx' => absurd hx' hx, hm₂, hkept⟩

theorem mark_attributed (hd : Described ds) (hon : gl.leafNodeAccumulate = true)
    (hsingle : gl.singleTreeMode = false) (id : NodeID) (h : Attributed ds hash link rank ts)
    (hup : UpwardExcept hash (fun _ => False) ts.currentTree) :
    ∃ ts' rank', mark gl ds ts id = .ok ts' ∧ Attributed ds hash link rank' ts' ∧
      UpwardExcept hash (fun _ => False) ts'.currentTree ∧
        Marked ds hash link id ts.currentTree ts'.currentTree := by
  cases hn : ts.currentTree[id]? with
  | none =>
      refine ⟨ts, rank, ?_, h, hup, Later.refl _ _, fun _ _ hk => Or.inl hk, fun _ _ _ _ _ hda =>
        Or.inl hda, fun l hl => ?_⟩
      · rw [mark, markNodeDirty, ThreadStore.getNodeFromID, hn]
      · rw [linkAt_eq_none.mpr hn] at hl
        cases hl
  | some n =>
      have hbound := h.rooted.bound id n hn
      obtain ⟨ts', rank', hrun, h', hup', hm, -⟩ :=
        markNodeDirty_attributed hd hon hsingle (ts.currentTree.size + 1) ts id rank
          (fun _ => False) h hup (by omega)
      exact ⟨ts', rank', hrun, h', hup', hm⟩

end Llprof.Monitor.AttrMarking
