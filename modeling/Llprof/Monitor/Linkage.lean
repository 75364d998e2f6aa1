import Llprof.Monitor.FlushFrame
import Llprof.Monitor.Runs

namespace Llprof.Monitor.Linkage

open Faulting hiding store
open Avoiding ParentTree TreeMaps Nodes Store SlotWrites TreeShape FlushSpec Marking NewLeaf Runs FlushFrame
open Profiler.CallTree (MethodNodeSerializedInfo)

/-- What holds of a thread store whatever it has been given: its nodes hang below
the root, and its tables name nodes. The names of attribute nodes are among `hash`. -/
structure Standing (gl : Settings) (hash : NameID → Prop) (rank : NodeID → Nat) (ts : ThreadStore) :
    Prop where
  rooted : Rooted ts.currentTree rank
  rootGnid : ∀ n, ts.currentTree[(1 : NodeID)]? = some n → n.gnid ≠ 0
  index : gl.leafNodeAccumulate = true → ∀ (k : NodeID) (n : RecordNode), ts.currentTree[k]? = some n →
    k < ts.currentAttrNodeIdIndex
  attrs : gl.leafNodeAccumulate = true → ∀ (p : NodeID) (x : NameID) (a : NodeID),
    ts.attrNodeMap[(p, x)]? = some a → parentOf ts.currentTree a = some p ∧ hash x
  alts : ∀ (k a : NodeID), ts.attrNodeIdAlt[k]? = some a → ∃ n, ts.currentTree[a]? = some n

structure Extends (rank : NodeID → Nat) (ts : ThreadStore) (rank' : NodeID → Nat) (ts' : ThreadStore) :
    Prop where
  nodes : ∀ (k : NodeID) (n : RecordNode), ts.currentTree[k]? = some n → ∃ n', ts'.currentTree[k]? = some n' ∧
    n'.parentId = n.parentId ∧ rank' k = rank k
  alts : ts'.attrNodeIdAlt = ts.attrNodeIdAlt
  index : ts.currentAttrNodeIdIndex ≤ ts'.currentAttrNodeIdIndex

variable {gl : Settings} {ds : DataStore} {hash : NameID → Prop}
  {rank rank' : NodeID → Nat} {ts ts' : ThreadStore}

theorem Extends.trans {t₁ t₂ t₃ : ThreadStore} {r₁ r₂ r₃ : NodeID → Nat} (h : Extends r₁ t₁ r₂ t₂)
    (h' : Extends r₂ t₂ r₃ t₃) : Extends r₁ t₁ r₃ t₃ := by
  refine ⟨fun k n hk => ?_, h'.alts.trans h.alts, h.index.trans h'.index⟩
  obtain ⟨n₂, hn₂, hp₂, hr₂⟩ := h.nodes k n hk
  obtain ⟨n₃, hn₃, hp₃, hr₃⟩ := h'.nodes k n₂ hn₂
  exact ⟨n₃, hn₃, hp₃.trans hp₂, hr₃.trans hr₂⟩

theorem Standing.congr (h : Standing gl hash rank ts) (hp : SamePlaces ts.currentTree ts'.currentTree)
    (hg : KeepsGnid ts.currentTree ts'.currentTree) (hm : ts'.attrNodeMap = ts.attrNodeMap)
    (ha : ts'.attrNodeIdAlt = ts.attrNodeIdAlt)
    (hi : ts'.currentAttrNodeIdIndex = ts.currentAttrNodeIdIndex) :
    Standing gl hash rank ts' ∧ Extends rank ts rank ts' := by
  refine ⟨⟨h.rooted.congr hp, ?_, ?_, ?_, ?_⟩, ?_, ha, hi.ge⟩
  · intro n hn
    obtain ⟨m, hm, -⟩ := h.rooted.root
    obtain ⟨n', hn', he⟩ := hg 1 m hm (h.rootGnid m hm)
    rw [hn, Option.some.injEq] at hn'
    rw [hn', he]
    exact h.rootGnid m hm
  · intro hon k n hn
    obtain ⟨m, hm, -⟩ := hp.symm.find hn
    rw [hi]
    exact h.index hon k m hm
  · intro hon p x a hpx
    rw [hm] at hpx
    rw [hp.parentOf]
    exact h.attrs hon p x a hpx
  · intro k a hk
    rw [ha] at hk
    obtain ⟨n, hn⟩ := h.alts k a hk
    obtain ⟨n', hn', -⟩ := hp.find hn
    exact ⟨n', hn'⟩
  · intro k n hk
    obtain ⟨n', hn', he⟩ := hp.find hk
    exact ⟨n', hn', congrArg Place.parentId he, rfl⟩

theorem Standing.framed (h : Standing gl hash rank ts) {tree' : Tree} (hf : Framed ts.currentTree tree') :
    Standing gl hash rank { ts with currentTree := tree' } ∧
      Extends rank ts rank { ts with currentTree := tree' } :=
  h.congr hf.places hf.gnids rfl rfl rfl

theorem Standing.grown (h : Standing gl hash rank ts) (ts' : ThreadStore) {c p : NodeID}
    {x : NameID} (hc0 : c ≠ 0) (hc : ts.currentTree[c]? = none) (hp : ∃ n, ts.currentTree[p]? = some n)
    (hg : Grown gl ds ts.currentTree c p x ts'.currentTree)
    (hi : gl.leafNodeAccumulate = true → c < ts'.currentAttrNodeIdIndex)
    (hle : ts.currentAttrNodeIdIndex ≤ ts'.currentAttrNodeIdIndex)
    (hm : gl.leafNodeAccumulate = true → ts'.attrNodeMap = ts.attrNodeMap ∨
      ts'.attrNodeMap = ts.attrNodeMap.insert (p, x) c ∧ hash x)
    (ha : ts'.attrNodeIdAlt = ts.attrNodeIdAlt) :
    ∃ rank', Standing gl hash rank' ts' ∧ Extends rank ts rank' ts' := by
  obtain ⟨pn, hpn⟩ := hp
  have hold {k : NodeID} {n : RecordNode} (hk : ts.currentTree[k]? = some n) :
      k ≠ c ∧ ∃ n', ts'.currentTree[k]? = some n' ∧ payload n' = payload n := by
    have hkc : k ≠ c := by
      rintro rfl
      rw [hc] at hk
      cases hk
    have := hg.payload k
    rw [if_neg hkc, hk, Option.map_some, Option.map_eq_some_iff] at this
    exact ⟨hkc, this⟩
  refine ⟨_, ⟨hg.rooted h.rooted hc0 hc hpn, ?_, ?_, ?_, ?_⟩, ?_, ha, hle⟩
  · intro n hn
    obtain ⟨m, hm, -⟩ := h.rooted.root
    obtain ⟨n', hn', he⟩ := hg.gnids 1 m hm (h.rootGnid m hm)
    rw [hn, Option.some.injEq] at hn'
    rw [hn', he]
    exact h.rootGnid m hm
  · intro hon k n hn
    by_cases hkc : k = c
    · rw [hkc]
      exact hi hon
    · obtain ⟨m, hm, -⟩ := hg.find hn hkc
      exact (h.index hon k m hm).trans_le hle
  · intro hon q y a hqy
    have hkeep (he : ts.attrNodeMap[(q, y)]? = some a) : parentOf ts'.currentTree a = some q ∧ hash y := by
      obtain ⟨hpar, hy⟩ := h.attrs hon q y a he
      obtain ⟨n, hn, -⟩ := parentOf_eq_some.mp hpar
      rw [hg.parentOf, if_neg (hold hn).1]
      exact ⟨hpar, hy⟩
    rcases hm hon with he | ⟨he, hx⟩
    · rw [he] at hqy
      exact hkeep hqy
    · rw [he, getElem?_insert_pair] at hqy
      by_cases hqp : (q, y) = (p, x)
      · rw [if_pos hqp, Option.some.injEq] at hqy
        rw [Prod.mk.injEq] at hqp
        rw [hg.parentOf, if_pos hqy.symm, hqp.1, hqp.2]
        exact ⟨rfl, hx⟩
      · rw [if_neg hqp] at hqy
        exact hkeep hqy
  · intro k a hk
    rw [ha] at hk
    obtain ⟨n, hn⟩ := h.alts k a hk
    obtain ⟨-, n', hn', -⟩ := hold hn
    exact ⟨n', hn'⟩
  · intro k n hk
    obtain ⟨hkc, n', hn', he⟩ := hold hk
    have hpar := congrArg (fun n : RecordNode => n.parentId) he
    exact ⟨n', hn', hpar, if_neg hkc⟩

theorem Standing.index_free (h : Standing gl hash rank ts) (hon : gl.leafNodeAccumulate = true) :
    ts.currentAttrNodeIdIndex ≠ 0 ∧ ts.currentTree[ts.currentAttrNodeIdIndex]? = none := by
  obtain ⟨r, hr, -⟩ := h.rooted.root
  have h1 := h.index hon 1 r hr
  refine ⟨(Nat.zero_lt_of_lt h1).ne', ?_⟩
  rw [Option.eq_none_iff_forall_ne_some]
  intro n hn
  exact lt_irrefl _ (h.index hon _ n hn)

theorem getAttrNode_standing (ds : DataStore) (h : Standing gl hash rank ts)
    (hon : gl.leafNodeAccumulate = true) {p : NodeID} {x : NameID}
    (hp : ∃ n, ts.currentTree[p]? = some n) (hx : hash x) :
    ∃ ts' a rank', getAttrNode gl ds ts p x = .ok (ts', a) ∧ Standing gl hash rank' ts' ∧
      Extends rank ts rank' ts' ∧ parentOf ts'.currentTree a = some p := by
  cases hm : ts.attrNodeMap[(p, x)]? with
  | some a =>
      refine ⟨ts, a, rank, by rw [getAttrNode, hm], h, ⟨fun k n hk => ⟨n, hk, rfl, rfl⟩, rfl, le_refl _⟩, ?_⟩
      exact (h.attrs hon p x a hm).1
  | none =>
      obtain ⟨hi0, hi⟩ := h.index_free hon
      obtain ⟨tree', hrun, hg⟩ := getAttrNode_grows gl ds ts hi0 h.rooted h.rootGnid hi hp hm
      obtain ⟨rank', hs, he⟩ := h.grown { ts with
          currentTree := tree'
          currentAttrNodeIdIndex := ts.currentAttrNodeIdIndex + 1
          attrNodeMap := ts.attrNodeMap.insert (p, x) ts.currentAttrNodeIdIndex } hi0 hi hp hg
        (fun _ => Nat.lt_succ_self _) (Nat.le_succ _) (fun _ => Or.inr ⟨rfl, hx⟩) rfl
      refine ⟨_, _, rank', hrun, hs, he, ?_⟩
      exact (hg.parentOf _).trans (if_pos rfl)

theorem defaultTemps_frame (node : RecordNode) :
    Avoids lost (fun n => frame n = frame node) (defaultTemps gl ds node) :=
  defaultTemps_writes id (fun _ _ h => h) rfl

theorem markNodeDirty_standing (hhash : gl.leafNodeAccumulate = true →
      ∀ x, isAttrName (ds.getNameFromID x) = true → hash x)
    (fuel : Nat) (ts : ThreadStore) (rank : NodeID → Nat) (id : NodeID) (h : Standing gl hash rank ts)
    (hfuel : rank id < fuel) :
    Avoids lost (fun ts' => ∃ rank', Standing gl hash rank' ts' ∧ Extends rank ts rank' ts')
      (markNodeDirty gl ds fuel ts id) := by
  induction fuel generalizing ts rank id with
  | zero => omega
  | succ fuel ih =>
      have hsame : ∃ rank', Standing gl hash rank' ts ∧ Extends rank ts rank' ts :=
        ⟨rank, h, fun k n hk => ⟨n, hk, rfl, rfl⟩, rfl, le_refl _⟩
      rw [markNodeDirty, ThreadStore.getNodeFromID]
      split
      next => exact hsame
      next node hnode =>
        split
        next => exact hsame
        next =>
          refine (defaultTemps_frame _).bind fun n hn => ?_
          have hplace : place n = place node := congrArg Prod.fst hn
          have hpid : n.parentId = node.parentId := congrArg Place.parentId hplace
          have hrank := h.rooted.rank_child (parentOf_eq_some.mpr ⟨node, hnode, rfl⟩)
          obtain ⟨h₁, he₁⟩ := h.framed ((Framed.refl ts.currentTree).insert hnode hn)
          refine (ih (ts.setNode id n) rank n.parentId h₁ (by rw [hpid]; omega)).bind ?_
          rintro ts₂ ⟨rank₂, h₂, he₂⟩
          have he₂ := he₁.trans he₂
          have hdone : ∃ rank', Standing gl hash rank' ts₂ ∧ Extends rank ts rank' ts₂ := ⟨rank₂, h₂, he₂⟩
          split
          next hattr =>
            rw [Bool.and_eq_true] at hattr
            rw [ThreadStore.getNodeFromID]
            split
            next => exact hdone
            next pnode hpnode =>
              rw [ThreadStore.getNodeFromID]
              split
              next => exact hdone
              next ppnode hppnode =>
                have hpp := h₂.rooted.id _ ppnode hppnode
                obtain ⟨ts₃, a, rank₃, hrun, h₃, he₃, hpar⟩ := getAttrNode_standing ds h₂ hattr.1
                  ⟨ppnode, hpp ▸ hppnode⟩ (hhash hattr.1 _ hattr.2)
                rw [hrun, ok_bind]
                -- The attribute node hangs one level above `id`.
                obtain ⟨n₂, hn₂, hp₂, hr₂⟩ := he₂.nodes id node hnode
                obtain ⟨-, -, -, hr₃⟩ := he₃.nodes _ ppnode hppnode
                have hup := h₂.rooted.rank_child (parentOf_eq_some.mpr ⟨n₂, hn₂, hp₂.trans hpid.symm⟩)
                have hup' := h₂.rooted.rank_child (parentOf_eq_some.mpr ⟨pnode, hpnode, rfl⟩)
                have hra := h₃.rooted.rank_child hpar
                rw [hpp] at hra
                refine (ih ts₃ rank₃ a h₃ (by omega)).mono ?_
                rintro ts₄ ⟨rank₄, h₄, he₄⟩
                exact ⟨rank₄, h₄, he₂.trans (he₃.trans he₄)⟩
          next => exact hdone

theorem mark_standing (hhash : gl.leafNodeAccumulate = true →
      ∀ x, isAttrName (ds.getNameFromID x) = true → hash x)
    (h : Standing gl hash rank ts) (id : NodeID) :
    Avoids lost (fun ts' => ∃ rank', Standing gl hash rank' ts' ∧
      Extends rank ts rank' ts') (mark gl ds ts id) := by
  cases hn : ts.currentTree[id]? with
  | none =>
      rw [mark, markNodeDirty, ThreadStore.getNodeFromID, hn]
      exact ⟨rank, h, fun k n hk => ⟨n, hk, rfl, rfl⟩, rfl, le_refl _⟩
  | some n => exact markNodeDirty_standing hhash _ ts rank id h (Nat.lt_succ_of_le (h.rooted.bound id n hn))

theorem setRunning_standing (h : Standing gl hash rank ts) (running : Bool) (id : NodeID) :
    ∃ tree', setRunning running (ts.currentTree.size + 1) ts id = .ok { ts with currentTree := tree' } ∧
      Standing gl hash rank { ts with currentTree := tree' } ∧
        Extends rank ts rank { ts with currentTree := tree' } := by
  cases hn : ts.currentTree[id]? with
  | none =>
      refine ⟨ts.currentTree, ?_, h, fun k n hk => ⟨n, hk, rfl, rfl⟩, rfl, le_refl _⟩
      rw [setRunning, ThreadStore.getNodeFromID, hn]
  | some n =>
      obtain ⟨tree', hrun, hc, hg⟩ := setRunning_core running _ ts id h.rooted.ranked
        (Nat.lt_succ_of_le (h.rooted.bound id n hn))
      exact ⟨tree', hrun, h.congr hc.places hg rfl rfl rfl⟩

/-- The records that a thread store is to process: their parents come first, and
in attribute mode the attribute nodes are leaves and the ids are below those that
the monitor takes for its own nodes. -/
structure Linkable (gl : Settings) (hash : NameID → Prop) (log : List MethodNodeSerializedInfo) : Prop where
  nonzero : ∀ r ∈ log, r.callNodeId ≠ 0
  parents : ∀ done r rest, log = done ++ r :: rest → r.parentNodeId = 1 ∨
    ∃ q ∈ done, q.callNodeId = r.parentNodeId
  small : gl.leafNodeAccumulate = true → ∀ r ∈ log, r.callNodeId < 0xFF000000
  leaves : gl.leafNodeAccumulate = true → ∀ q ∈ log, hash q.nameid → ∀ r ∈ log, r.parentNodeId ≠ q.callNodeId

/-- A thread store that has processed the records `done` of the records `log`. -/
structure Processed (gl : Settings) (hash : NameID → Prop) (log done : List MethodNodeSerializedInfo)
    (rank : NodeID → Nat) (ts : ThreadStore) : Prop where
  standing : Standing gl hash rank ts
  bound : 0xFF000000 ≤ ts.currentAttrNodeIdIndex
  known : ∀ q ∈ done, (∃ r ∈ log, r.parentNodeId = q.callNodeId) → ∃ n, ts.currentTree[q.callNodeId]? = some n
  aliased : gl.leafNodeAccumulate = true → ∀ k a : NodeID, ts.attrNodeIdAlt[k]? = some a →
    ∃ q ∈ done, q.callNodeId = k ∧ hash q.nameid

theorem newThreadStore_processed (hash : NameID → Prop)
    (log : List MethodNodeSerializedInfo) (threadId : ThreadID) :
    ∃ rank, Processed gl hash log [] rank (newThreadStore gl ds threadId) := by
  obtain ⟨rank, hr⟩ := newThreadStore_reached gl ds threadId
  have hindex : (newThreadStore gl ds threadId).currentAttrNodeIdIndex = 0xFF000000 := rfl
  have halt : (newThreadStore gl ds threadId).attrNodeIdAlt = ∅ := rfl
  refine ⟨rank, ⟨hr.wf.rooted, hr.wf.rootGnid, ?_, ?_, ?_⟩, hindex.ge, ?_, ?_⟩
  · intro _ k n hn
    have hk := (hr.links.known k).mp ⟨n, hn⟩
    rcases hk with rfl | ⟨r, hr', -⟩
    · rw [hindex]
      decide
    · cases hr'
  · intro _ p x a hm
    rw [hr.attrNodeMap, Std.TreeMap.getElem?_emptyc] at hm
    cases hm
  · intro k a hk
    rw [halt, Std.TreeMap.getElem?_emptyc] at hk
    cases hk
  · intro q hq
    cases hq
  · intro _ k a hk
    rw [halt, Std.TreeMap.getElem?_emptyc] at hk
    cases hk

section Processed

variable {log done rest : List MethodNodeSerializedInfo} {r : MethodNodeSerializedInfo}

theorem Processed.extend (h : Processed gl hash log done rank ts) (hs : Standing gl hash rank' ts')
    (he : Extends rank ts rank' ts') : Processed gl hash log done rank' ts' := by
  refine ⟨hs, h.bound.trans he.index, fun q hq hin => ?_, fun hon k a hk => ?_⟩
  · obtain ⟨n, hn⟩ := h.known q hq hin
    obtain ⟨n', hn', -⟩ := he.nodes _ n hn
    exact ⟨n', hn'⟩
  · rw [he.alts] at hk
    exact h.aliased hon k a hk

theorem Processed.append (h : Processed gl hash log done rank ts)
    (hr : (∃ q ∈ log, q.parentNodeId = r.callNodeId) → ∃ n, ts.currentTree[r.callNodeId]? = some n) :
    Processed gl hash log (done ++ [r]) rank ts := by
  refine ⟨h.standing, h.bound, fun q hq hin => ?_, fun hon k a hk => ?_⟩
  · rcases List.mem_append.mp hq with hq | hq
    · exact h.known q hq hin
    · rw [List.mem_singleton.mp hq] at hin ⊢
      exact hr hin
  · obtain ⟨q, hq, he⟩ := h.aliased hon k a hk
    exact ⟨q, List.mem_append_left _ hq, he⟩

theorem Processed.not_aliased (hl : Linkable gl hash log) (hlog : log = done ++ r :: rest)
    (h : Processed gl hash log done rank ts) (hon : gl.leafNodeAccumulate = true)
    (hin : ∃ q ∈ log, q.parentNodeId = r.callNodeId) : ts.attrNodeIdAlt[r.callNodeId]? = none := by
  rw [Option.eq_none_iff_forall_ne_some]
  intro a ha
  obtain ⟨q, hq, he, hx⟩ := h.aliased hon _ a ha
  obtain ⟨q', hq', hp⟩ := hin
  exact hl.leaves hon q (by rw [hlog]; exact List.mem_append_left _ hq) hx q' hq' (hp.trans he.symm)

theorem Processed.parent (hl : Linkable gl hash log) (hlog : log = done ++ r :: rest)
    (h : Processed gl hash log done rank ts) : ∃ n, ts.currentTree[r.parentNodeId]? = some n := by
  rcases hl.parents done r rest hlog with h1 | ⟨q, hq, he⟩
  · obtain ⟨n, hn, -⟩ := h.standing.rooted.root
    exact ⟨n, h1 ▸ hn⟩
  · obtain ⟨n, hn⟩ := h.known q hq ⟨r, by rw [hlog]; simp, he.symm⟩
    exact ⟨n, he ▸ hn⟩

theorem addRecordNode_processed
    (hhash : gl.leafNodeAccumulate = true → ∀ x, isAttrName (ds.getNameFromID x) = true → hash x)
    (hl : Linkable gl hash log) (hlog : log = done ++ r :: rest) (h : Processed gl hash log done rank ts)
    (hc : ts.currentTree[r.callNodeId]? = none) :
    ∃ ts' rank', addRecordNode gl ds ts r.callNodeId r = .ok ts' ∧
      Processed gl hash log (done ++ [r]) rank' ts' := by
  have hmem : r ∈ log := by rw [hlog]; simp
  obtain ⟨tree', hrun, hg⟩ :=
    addRecordNode_grows gl ds ts (hl.nonzero r hmem) r h.standing.rooted h.standing.rootGnid hc
      (h.parent hl hlog)
  obtain ⟨rank', hs, he⟩ := h.standing.grown
    { ts with currentTree := tree', attrNodeMap := attrNoted gl ds ts.attrNodeMap r.callNodeId r }
    (hl.nonzero r hmem) hc (h.parent hl hlog) hg (fun hon =>
      (hl.small hon r hmem).trans_le h.bound) (le_refl _)
    (by
      intro hon
      dsimp only
      rw [attrNoted, hon, Bool.true_and]
      split
      next hx => exact Or.inr ⟨rfl, hhash hon _ hx⟩
      next => exact Or.inl rfl)
    rfl
  refine ⟨_, rank', hrun, (h.extend hs he).append fun _ => ?_⟩
  obtain ⟨n, hn, -⟩ := hg.find_new
  exact ⟨n, hn⟩

theorem locate_processed (hhash : gl.leafNodeAccumulate = true →
      ∀ x, isAttrName (ds.getNameFromID x) = true → hash x)
    (hl : Linkable gl hash log) (hlog : log = done ++ r :: rest) (h : Processed gl hash log done rank ts) :
    ∃ ts' cnid rank', locate gl ds ts r = .ok (ts', cnid) ∧
      Processed gl hash log (done ++ [r]) rank' ts' := by
  have hmem : r ∈ log := by rw [hlog]; simp
  rw [locate]
  cases hon : gl.leafNodeAccumulate with
  | false =>
      simp only [Bool.false_eq_true, if_false, ThreadStore.getNodeFromID]
      cases hc : ts.currentTree[r.callNodeId]? with
      | some n => exact ⟨ts, _, rank, rfl, h.append fun _ => ⟨n, hc⟩⟩
      | none =>
          obtain ⟨ts', rank', hrun, h'⟩ := addRecordNode_processed hhash hl hlog h hc
          exact ⟨ts', r.callNodeId, rank', by simp only [hrun, ok_bind, pure_eq_ok], h'⟩
  | true =>
      simp only [if_true, ThreadStore.getNodeFromID]
      cases hc : ts.currentTree[ts.attrNodeIdAlt.getD r.callNodeId r.callNodeId]? with
      | some n =>
          refine ⟨ts, _, rank, rfl, h.append fun hin => ⟨n, ?_⟩⟩
          rwa [Std.TreeMap.getD_eq_getD_getElem?, h.not_aliased hl hlog hon hin] at hc
      | none =>
          have halt : ts.attrNodeIdAlt[r.callNodeId]? = none := by
            rw [Option.eq_none_iff_forall_ne_some]
            intro a ha
            obtain ⟨n, hn⟩ := h.standing.alts _ a ha
            rw [Std.TreeMap.getD_eq_getD_getElem?, ha, Option.getD_some, hn] at hc
            cases hc
          rw [Std.TreeMap.getD_eq_getD_getElem?, halt, Option.getD_none] at hc ⊢
          cases hm : ts.attrNodeMap[(r.parentNodeId, r.nameid)]? with
          | some a =>
              obtain ⟨hpar, hx⟩ := h.standing.attrs hon _ _ a hm
              obtain ⟨n, hn, -⟩ := parentOf_eq_some.mp hpar
              refine ⟨_, _, rank, rfl, ⟨⟨h.standing.rooted, h.standing.rootGnid, h.standing.index, h.standing.attrs, ?_⟩,
                h.bound, ?_, ?_⟩⟩
              · intro k b hk
                rw [getElem?_insert] at hk
                split at hk
                · cases hk
                  exact ⟨n, hn⟩
                · exact h.standing.alts k b hk
              · intro q hq hin
                rcases List.mem_append.mp hq with hq | hq
                · exact h.known q hq hin
                · rw [List.mem_singleton.mp hq] at hin
                  obtain ⟨q', hq', hp⟩ := hin
                  exact absurd hp (hl.leaves hon r hmem hx q' hq')
              · intro _ k b hk
                rw [getElem?_insert] at hk
                by_cases hkr : k = r.callNodeId
                · exact ⟨r, by simp, hkr.symm, hx⟩
                · rw [if_neg hkr] at hk
                  obtain ⟨q, hq, he⟩ := h.aliased hon k b hk
                  exact ⟨q, List.mem_append_left _ hq, he⟩
          | none =>
              obtain ⟨ts', rank', hrun, h'⟩ := addRecordNode_processed hhash hl hlog h hc
              exact ⟨ts', r.callNodeId, rank', by simp only [hrun, ok_bind, pure_eq_ok], h'⟩

theorem storeRecord_located
    (hhash : gl.leafNodeAccumulate = true → ∀ x, isAttrName (ds.getNameFromID x) = true → hash x)
    {ts₁ : ThreadStore} {cnid : NodeID} (hrun : locate gl ds ts r = .ok (ts₁, cnid))
    (h₁ : Processed gl hash log done rank ts₁) :
    Avoids lost (fun ts' => ∃ rank', Processed gl hash log done rank' ts') (storeRecord gl ds ts r) := by
  rw [storeRecord, hrun, ok_bind]
  refine (avoids_require id).bind fun _ _ => (avoids_require id).bind fun _ _ => ?_
  refine (mark_standing hhash h₁.standing cnid).bind ?_
  rintro ts₂ ⟨rank₂, hs₂, he₂⟩
  have h₂ := h₁.extend hs₂ he₂
  split
  next => exact fun h => h
  next node hnode =>
    rw [RecordNode.setTempValues]
    refine Avoids.bind (P := fun n => frame n = frame node) ?_ fun n hn => ?_
    · exact (avoids_require id).bind fun _ _ => rfl
    · obtain ⟨hs₃, he₃⟩ := hs₂.framed ((Framed.refl ts₂.currentTree).insert hnode hn)
      exact ⟨rank₂, h₂.extend hs₃ he₃⟩

theorem storeRecord_processed
    (hhash : gl.leafNodeAccumulate = true → ∀ x, isAttrName (ds.getNameFromID x) = true → hash x)
    (hl : Linkable gl hash log) (hlog : log = done ++ r :: rest) (h : Processed gl hash log done rank ts) :
    Avoids lost (fun ts' => ∃ rank', Processed gl hash log (done ++ [r]) rank' ts')
      (storeRecord gl ds ts r) := by
  obtain ⟨ts₁, cnid, rank₁, hrun, h₁⟩ := locate_processed hhash hl hlog h
  exact storeRecord_located hhash hrun h₁

theorem storeRecord_root
    (hhash : gl.leafNodeAccumulate = true → ∀ x, isAttrName (ds.getNameFromID x) = true → hash x)
    (hr : r.callNodeId = 1) (hone : ∀ q ∈ done, q.callNodeId ≠ 1) (h : Processed gl hash log done rank ts) :
    Avoids lost (fun ts' => ∃ rank', Processed gl hash log done rank' ts') (storeRecord gl ds ts r) := by
  have hid : (if gl.leafNodeAccumulate = true then ts.attrNodeIdAlt.getD r.callNodeId r.callNodeId else r.callNodeId) = 1 := by
    split
    next hon =>
      rw [Std.TreeMap.getD_eq_getD_getElem?, hr]
      cases ha : ts.attrNodeIdAlt[(1 : NodeID)]? with
      | none => rfl
      | some a =>
          obtain ⟨q, hq, hq1, -⟩ := h.aliased hon 1 a ha
          exact absurd hq1 (hone q hq)
    next => exact hr
  obtain ⟨n, hn, -⟩ := h.standing.rooted.root
  have hrun : locate gl ds ts r = .ok (ts, 1) := by
    rw [locate, hid, ThreadStore.getNodeFromID, hn]
    rfl
  exact storeRecord_located hhash hrun h

end Processed

/-- `Store` up to the flush finds the parent of every node that it adds. Records that
are not among the log are about the root. -/
theorem receive_processed {log done rest batch : List MethodNodeSerializedInfo}
    {p : MethodNodeSerializedInfo → Bool}
    (hhash : gl.leafNodeAccumulate = true → ∀ x, isAttrName (ds.getNameFromID x) = true → hash x)
    (hl : Linkable gl hash log) (hlog : log = done ++ batch.filter p ++ rest)
    (hroot : ∀ r ∈ batch, p r = false → r.callNodeId = 1 ∧ ∀ q ∈ log, q.callNodeId ≠ 1)
    (h : Processed gl hash log done rank ts) (now : NowInfo) :
    Avoids lost (fun ts' => ∃ rank', Processed gl hash log (done ++ batch.filter p) rank' ts')
      (receive gl ds ts batch now) := by
  obtain ⟨tree₁, hrun, hs₁, he₁⟩ := setRunning_standing h.standing false ts.runningNode
  rw [receive, unmarkRunningNodes, hrun, ok_bind]
  have hu : Standing gl hash rank (updateNowValues ds { ts with currentTree := tree₁ } now) ∧
      Extends rank { ts with currentTree := tree₁ } rank
        (updateNowValues ds { ts with currentTree := tree₁ } now) :=
    hs₁.congr (SamePlaces.refl _) (KeepsGnid.refl _) rfl rfl rfl
  have h₁ := (h.extend hs₁ he₁).extend hu.1 hu.2
  refine (avoids_require id).bind fun _ _ => ?_
  rw [markRunningNodes]
  refine Avoids.bind (P := fun ts' => ∃ rank', Processed gl hash log done rank' ts') ?_ ?_
  · refine (mark_standing hhash h₁.standing _).bind ?_
    rintro ts₂ ⟨rank₂, hs₂, he₂⟩
    obtain ⟨tree₃, hrun₃, hs₃, he₃⟩ := setRunning_standing hs₂ true ts₂.runningNode
    rw [hrun₃]
    exact ⟨rank₂, (h₁.extend hs₂ he₂).extend hs₃ he₃⟩
  · rintro ts₂ ⟨rank₂, h₂⟩
    refine (avoids_foldlM (fun seen ts' => ∃ rank', Processed gl hash log (done ++ seen.filter p) rank' ts') batch ?_
      ⟨rank₂, by rwa [List.filter_nil, List.append_nil]⟩)
    rintro seen r more ts' he ⟨rank', h'⟩
    rw [List.filter_append, ← List.append_assoc]
    cases hr : p r with
    | true =>
        rw [List.filter_singleton, hr, Bool.cond_true]
        have hsplit : log = done ++ seen.filter p ++ r :: (more.filter p ++ rest) := by
          rw [hlog, he, List.filter_append, List.filter_cons_of_pos hr]
          simp only [List.append_assoc, List.cons_append]
        exact storeRecord_processed hhash hl hsplit h'
    | false =>
        rw [List.filter_singleton, hr, Bool.cond_false, List.append_nil]
        obtain ⟨h1, hone⟩ := hroot r (by rw [he]; simp) hr
        refine storeRecord_root hhash h1 (fun q hq => hone q ?_) h'
        rw [hlog, he, List.filter_append, ← List.append_assoc]
        exact List.mem_append_left _ (List.mem_append_left _ hq)

theorem store_processed {log done rest batch : List MethodNodeSerializedInfo}
    (hhash : gl.leafNodeAccumulate = true → ∀ x, isAttrName (ds.getNameFromID x) = true → hash x)
    (hl : Linkable gl hash log) (hlog : log = done ++ batch ++ rest) (h : Processed gl hash log done rank ts)
    (now : NowInfo) :
    Avoids lost (fun ts' => ∃ rank', Processed gl hash log (done ++ batch) rank' ts')
      (Store.store gl ds ts batch now) := by
  have hall : batch.filter (fun _ => true) = batch := List.filter_eq_self.mpr fun _ _ => rfl
  have hreceive := receive_processed (p := fun _ => true) hhash hl (by rw [hall]; exact hlog)
    (fun _ _ hr => by cases hr) h now
  rw [hall] at hreceive
  rw [Store.store]
  refine hreceive.bind ?_
  rintro ts₁ ⟨rank₁, h₁⟩
  refine (flush_framed h₁.standing.rooted).mono ?_
  rintro ts₂ ⟨hf, hm, ha, hi⟩
  obtain ⟨hs₂, he₂⟩ := h₁.standing.congr hf.places hf.gnids hm ha hi
  exact ⟨rank₁, h₁.extend hs₂ he₂⟩

end Llprof.Monitor.Linkage
