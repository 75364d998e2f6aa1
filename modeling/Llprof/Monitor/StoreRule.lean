import Llprof.Monitor.SlicesKnown

namespace Llprof.Monitor.StoreRule

open Faulting hiding store
open Avoiding TreeMaps Nodes Store TreeShape FlushSpec Slices SliceFrame SliceContents FlushRule SlicesKnown
open Profiler.CallTree (MethodNodeSerializedInfo)

variable {gl : Settings} {ds : DataStore} {bad : Fault → Prop} {ts : ThreadStore}

def unnumbered (n : RecordNode) : RecordNode := { n with gnid := 0 }

/-- What every step of `Store` before the flush keeps, for records that fit. -/
structure StoreInvariant (gl : Settings) (ds : DataStore) (bad : Fault → Prop)
    (fits : MethodNodeSerializedInfo → Prop) (I : ThreadStore → Prop) : Prop where
  marked : ∀ (ts : ThreadStore) (k : NodeID) (n : RecordNode), I ts → ts.currentTree[k]? = some n →
    Avoids bad (fun n' => I (ts.setNode k n')) (defaultTemps gl ds (RecordNode.clearTempValues { n with dirty := true }))
  running : ∀ (ts : ThreadStore) (k : NodeID) (n : RecordNode) (b : Bool), I ts →
    ts.currentTree[k]? = some n → I (ts.setNode k { n with running := b })
  numbered : ∀ (ts : ThreadStore) (k : NodeID) (n m : RecordNode) (g : NodeID), I ts → n.gnid = 0 →
    ts.currentTree[k]? = some m → unnumbered m = n → (k = 1 → ∃ ts₀, I ts₀ ∧ ts₀.currentTree[k]? = some n) →
    I (ts.setNode k { n with gnid := g })
  attr : ∀ (ts : ThreadStore) (k : NodeID) (n : RecordNode) (x : NameID), gl.leafNodeAccumulate = true →
    I ts → ts.currentTree[k]? = some n → I (({ ts with
      currentAttrNodeIdIndex := ts.currentAttrNodeIdIndex + 1
      attrNodeMap := ts.attrNodeMap.insert (n.id, x) ts.currentAttrNodeIdIndex } : ThreadStore).addCurrentNode
        gl ds ts.currentAttrNodeIdIndex n.id x true)
  child : ∀ ts p c, I ts → I (ts.addChildID p c)
  record : ∀ ts r, I ts → fits r → ts.currentTree[r.callNodeId]? = none →
    I (ts.addCurrentNode gl ds r.callNodeId r.parentNodeId r.nameid true)
  noted : ∀ (ts : ThreadStore) (q : NodeID × NameID) (c : NodeID), I ts → c ∈ ts.currentTree →
    I { ts with attrNodeMap := ts.attrNodeMap.insert q c }
  aliased : ∀ (ts : ThreadStore) (k a : NodeID), I ts → a ∈ ts.currentTree →
    I { ts with attrNodeIdAlt := ts.attrNodeIdAlt.insert k a }
  alts : ∀ ts, I ts → ∀ k a : NodeID, ts.attrNodeIdAlt[k]? = some a → a ∈ ts.currentTree
  attrs : ∀ ts, I ts → ∀ (q : NodeID × NameID) (a : NodeID), ts.attrNodeMap[q]? = some a → a ∈ ts.currentTree
  temps : ∀ (ts : ThreadStore) (k : NodeID) (n : RecordNode) (r : MethodNodeSerializedInfo), I ts →
    ts.currentTree[k]? = some n → fits r → Avoids bad (fun n' => I (ts.setNode k n'))
      (n.setTempValues (r.profileValue.take ds.numRecords) r.callCount)
  now : ∀ ts now, I ts → I (updateNowValues ds ts now)
  values : ∀ r, fits r → bad .outOfRange → ds.numRecords ≤ r.profileValue.length

variable {fits : MethodNodeSerializedInfo → Prop} {I : ThreadStore → Prop}

theorem touchGNID_rule (hbad : Spares bad) (h : StoreInvariant gl ds bad fits I) (fuel : Nat)
    (id : NodeID) (hi : I ts) :
    Avoids bad (fun r => I r.1 ∧ ∀ k : NodeID, (r.1.currentTree[k]?).map unnumbered = (ts.currentTree[k]?).map unnumbered)
      (touchGNID gl ds fuel ts id) := by
  induction fuel generalizing id with
  | zero => exact hbad.1
  | succ fuel ih =>
      rw [touchGNID]
      split
      next => exact hbad.2
      next node hnode =>
        split
        next => exact ⟨hi, fun _ => rfl⟩
        next hg =>
          apply (ih node.parentId).bind
          rintro ⟨ts', g⟩ ⟨hi', hsame⟩
          have hg : node.gnid = 0 := not_not.mp hg
          have hnode : ts.currentTree[id]? = some node := hnode
          obtain ⟨m, hm, hmn⟩ : ∃ m, ts'.currentTree[id]? = some m ∧ unnumbered m = unnumbered node := by
            have := hsame id
            rwa [hnode, Option.map_some, Option.map_eq_some_iff] at this
          have hnn : unnumbered node = node := by
            unfold unnumbered
            rw [← hg]
          refine ⟨h.numbered ts' id node m _ hi' hg hm (hmn.trans hnn) fun _ => ⟨ts, hi, hnode⟩, fun k => ?_⟩
          change ((ts'.currentTree.insert id _)[k]?).map unnumbered = _
          rw [getElem?_insert, ← hsame k]
          split
          next hk =>
            rw [hk, hm, Option.map_some, Option.map_some, hmn]
            rfl
          next => rfl

theorem touch_rule (hbad : Spares bad) (h : StoreInvariant gl ds bad fits I) (id : NodeID) (hi : I ts) :
    Avoids bad I (touch gl ds ts id) := by
  rw [touch]
  exact (touchGNID_rule hbad h _ id hi).bind fun r hr => hr.1

theorem getAttrNode_rule (hbad : Spares bad) (h : StoreInvariant gl ds bad fits I)
    (hon : gl.leafNodeAccumulate = true) {k : NodeID} {n : RecordNode} (hi : I ts)
    (hk : ts.currentTree[k]? = some n) (x : NameID) :
    Avoids bad (fun r => I r.1) (getAttrNode gl ds ts n.id x) := by
  rw [getAttrNode]
  split
  next => exact hi
  next =>
    apply (touch_rule hbad h _ (h.attr ts k n x hon hi hk)).bind
    intro ts' hi'
    exact h.child ts' _ _ hi'

theorem markNodeDirty_rule (hbad : Spares bad) (h : StoreInvariant gl ds bad fits I) (fuel : Nat)
    (id : NodeID) (hi : I ts) : Avoids bad I (markNodeDirty gl ds fuel ts id) := by
  induction fuel generalizing ts id with
  | zero => exact hbad.1
  | succ fuel ih =>
      rw [markNodeDirty]
      split
      next => exact hi
      next node hnode =>
        split
        next => exact hi
        next =>
          apply (h.marked ts id node hi hnode).bind
          intro node' hi₁
          apply (ih node'.parentId hi₁).bind
          intro ts₂ hi₂
          split
          next hattr =>
            split
            next => exact hi₂
            next pnode _ =>
              split
              next => exact hi₂
              next ppnode hppnode =>
                apply (getAttrNode_rule hbad h (Bool.and_eq_true_iff.mp hattr).1 hi₂ hppnode node'.nodeName).bind
                intro r hr
                exact ih r.2 hr
          next => exact hi₂

theorem setRunning_rule (hbad : Spares bad) (h : StoreInvariant gl ds bad fits I) (running : Bool)
    (fuel : Nat) (id : NodeID) (hi : I ts) : Avoids bad I (setRunning running fuel ts id) := by
  induction fuel generalizing ts id with
  | zero => exact hbad.1
  | succ fuel ih =>
      rw [setRunning]
      split
      next => exact hi
      next node hnode => exact ih node.parentId (h.running ts id node running hi hnode)

theorem addRecordNode_rule (hbad : Spares bad) (h : StoreInvariant gl ds bad fits I)
    {r : MethodNodeSerializedInfo} (hi : I ts) (hr : fits r) (hnew : ts.currentTree[r.callNodeId]? = none) :
    Avoids bad (fun ts' => I ts' ∧ r.callNodeId ∈ ts'.currentTree)
      (addRecordNode gl ds ts r.callNodeId r) := by
  have hadd := h.record ts r hi hr hnew
  have hthere : Knows ((∅ : Tree).insert r.callNodeId emptyNode)
      (ts.addCurrentNode gl ds r.callNodeId r.parentNodeId r.nameid true).currentTree := by
    intro k hk
    have hk := (Std.TreeMap.mem_insert.mp hk).resolve_right Std.TreeMap.not_mem_emptyc
    exact Std.TreeMap.mem_insert.mpr (Or.inl hk)
  rw [addRecordNode]
  apply (and_never (touch_rule hbad h r.callNodeId hadd) (touch_knows hthere r.callNodeId)).bind
  rintro ts' ⟨hi', hknows⟩
  have hchild := h.child ts' r.parentNodeId r.callNodeId hi'
  have hmem : r.callNodeId ∈ (ts'.addChildID r.parentNodeId r.callNodeId).currentTree :=
    addChildID_knows hknows _ _ _ (mem_insert_self _ _ _)
  dsimp only
  split
  · exact ⟨h.noted _ _ _ hchild hmem, hmem⟩
  · exact ⟨hchild, hmem⟩

theorem locate_rule (hbad : Spares bad) (h : StoreInvariant gl ds bad fits I)
    {r : MethodNodeSerializedInfo} (hi : I ts)
    (hr : fits r) : Avoids bad (fun p => I p.1 ∧ p.2 ∈ p.1.currentTree) (locate gl ds ts r) := by
  rw [locate]
  split
  next node hnode => exact ⟨hi, mem_iff_some.mpr ⟨node, hnode⟩⟩
  next hnone =>
    rw [ThreadStore.getNodeFromID] at hnone
    -- an alias leads to a node, so the record goes by its own id
    have hid : (if gl.leafNodeAccumulate = true then ts.attrNodeIdAlt.getD r.callNodeId r.callNodeId else r.callNodeId) =
        r.callNodeId := by
      by_cases hon : gl.leafNodeAccumulate = true
      · rw [if_pos hon] at hnone ⊢
        rw [Std.TreeMap.getD_eq_getD_getElem?] at hnone ⊢
        cases ha : ts.attrNodeIdAlt[r.callNodeId]? with
        | none => rfl
        | some a =>
            rw [ha, Option.getD_some] at hnone
            obtain ⟨n, hn⟩ := mem_iff_some.mp (h.alts ts hi _ a ha)
            rw [hn] at hnone
            cases hnone
      · rw [if_neg hon]
    rw [hid] at hnone ⊢
    split
    next a ha =>
      have hmem : a ∈ ts.currentTree := by
        split at ha
        · exact h.attrs ts hi _ a ha
        · cases ha
      exact ⟨h.aliased ts _ a hi hmem, hmem⟩
    next =>
      apply (addRecordNode_rule hbad h hi hr hnone).bind
      intro ts' hi'
      exact hi'

theorem storeRecord_rule (hbad : Spares bad) (h : StoreInvariant gl ds bad fits I)
    {r : MethodNodeSerializedInfo} (hi : I ts) (hr : fits r) : Avoids bad I (storeRecord gl ds ts r) := by
  rw [storeRecord]
  apply (locate_rule hbad h hi hr).bind
  rintro ⟨ts₁, cnid⟩ ⟨hi₁, hmem⟩
  dsimp only
  rw [require_of (Std.TreeMap.contains_iff_mem.mpr hmem), ok_bind]
  have hvalues : Avoids bad (fun _ => True) (require (ds.numRecords ≤ r.profileValue.length) .outOfRange) := by
    by_cases hle : ds.numRecords ≤ r.profileValue.length
    · rw [require_of hle]
      trivial
    · rw [require, if_neg hle]
      exact fun hb => hle (h.values r hr hb)
  apply hvalues.bind
  intro _ _
  apply (and_never (markNodeDirty_rule hbad h _ cnid hi₁) (markNodeDirty_knows _ cnid (Knows.refl _))).bind
  rintro ts₂ ⟨hi₂, hknows⟩
  obtain ⟨node, hnode⟩ := mem_iff_some.mp (hknows cnid hmem)
  rw [ThreadStore.getNodeFromID, hnode]
  apply (h.temps ts₂ cnid node r hi₂ hnode hr).bind
  intro node' hi'
  exact hi'

theorem receive_rule (hbad : OfAccess bad) (h : StoreInvariant gl ds bad fits I) (hi : I ts)
    {batch : List MethodNodeSerializedInfo} (hfits : ∀ r ∈ batch, fits r) (now : NowInfo) :
    Avoids bad I (receive gl ds ts batch now) := by
  rw [receive, unmarkRunningNodes]
  apply (setRunning_rule hbad.spares h false _ _ hi).bind
  intro ts₁ hi₁
  refine (avoids_require (hbad.spared (by decide))).bind fun _ _ => ?_
  rw [markRunningNodes]
  have hmark : Avoids bad I (mark gl ds (updateNowValues ds ts₁ now) (updateNowValues ds ts₁ now).runningNode >>= fun ts =>
      setRunning true (ts.currentTree.size + 1) ts ts.runningNode) := by
    apply (markNodeDirty_rule hbad.spares h _ _ (h.now ts₁ now hi₁)).bind
    intro ts₂ hi₂
    exact setRunning_rule hbad.spares h true _ _ hi₂
  apply hmark.bind
  intro ts₃ hi₃
  refine avoids_foldlM (fun _ => I) batch (fun done r rest ts' he hi' => ?_) hi₃
  exact storeRecord_rule hbad.spares h hi' (hfits r (by rw [he]; simp))

end Llprof.Monitor.StoreRule
