import Llprof.Profiler.CallTree

namespace Llprof.Profiler.HandlerCases

open Faulting Records CallTree

theorem getElem?_set_self {α : Type} {xs : List α} {i : Nat} {a b : α} (h : xs[i]? = some a) :
    (xs.set i b)[i]? = some b := by
  have hi : i < xs.length := (List.getElem?_eq_some_iff.mp h).1
  simp [hi]

theorem linkChild_eq_ok {ti ti' : ThreadInfo} {p x c : Nat} :
    ti.linkChild p x c = .ok ti' ↔ ∃ n, ti.nodeInfoArray[p]? = some n ∧
      ti' = { ti with nodeInfoArray := ti.nodeInfoArray.set p { n with children := n.children.insertIfNew x c } } := by
  simp only [ThreadInfo.linkChild, bind_eq_ok, fetch_eq_ok, store_eq_ok, pure_eq_ok, Except.ok.injEq]
  constructor
  · rintro ⟨n, hn, nodes, ⟨-, rfl⟩, rfl⟩
    exact ⟨n, hn, rfl⟩
  · rintro ⟨n, hn, rfl⟩
    exact ⟨n, hn, _, ⟨(List.getElem?_eq_some_iff.mp hn).1, rfl⟩, rfl⟩

theorem enterChild_cases {g : RecordTable} {ti ti' : ThreadInfo} {x : Nat} (hcur : 1 ≤ ti.currentCallNodeID)
    (h : enterChild g ti x = .ok ti') : ∃ p, ti.nodeInfoArray[ti.currentCallNodeID]? = some p ∧
      ((∃ c, p.children[x]? = some c ∧ ti' = { ti with stop := true, currentCallNodeID := c }) ∨
        (p.children[x]? = none ∧ ti' = { ti with
          stop := true
          currentCallNodeID := ti.nodeInfoArray.length
          nodeInfoArray := (ti.nodeInfoArray ++ [newNode g ti.currentCallNodeID x]).set ti.currentCallNodeID
            { p with children := p.children.insertIfNew x ti.nodeInfoArray.length } })) := by
  simp only [enterChild, bind_eq_ok, require_eq_ok, pure_eq_ok, Except.ok.injEq] at h
  obtain ⟨-, -, ⟨ti₁, id⟩, hget, rfl⟩ := h
  simp only [getChildNodeID, bind_eq_ok, fetch_eq_ok] at hget
  obtain ⟨p, hp, hget⟩ := hget
  have hlt : ti.currentCallNodeID < ti.nodeInfoArray.length := (List.getElem?_eq_some_iff.mp hp).1
  refine ⟨p, hp, ?_⟩
  cases hc : p.children[x]? with
  | some c =>
      simp only [hc, pure_eq_ok, Except.ok.injEq, Prod.mk.injEq] at hget
      obtain ⟨rfl, rfl⟩ := hget
      exact Or.inl ⟨c, rfl, rfl⟩
  | none =>
      right
      simp only [hc, addCallNode, ne_eq, Nat.ne_of_gt hcur, not_false_eq_true, if_true, bind_eq_ok,
        linkChild_eq_ok, ThreadInfo.pushNode, List.length_append, List.length_singleton,
        Nat.add_sub_cancel, pure_eq_ok, Except.ok.injEq, Prod.mk.injEq] at hget
      obtain ⟨ti₂, ⟨n, hn, rfl⟩, rfl, rfl⟩ := hget
      rw [List.getElem?_append_left hlt, hp, Option.some.injEq] at hn
      exact ⟨rfl, by rw [hn]⟩

/-- The record that `AddActualRecord` appends for a node. -/
def newRecord (g : RecordTable) (cnid : Nat) (n : MethodNodeInfo) : MethodNodeSerializedInfo :=
  { nameid := n.nameid, callNodeId := cnid, parentNodeId := n.parentNodeId, callCount := 0
    profileValue := zeroValues g }

theorem addActualRecord_eq_ok {g : RecordTable} {ti ti' : ThreadInfo} {cnid : Nat} :
    addActualRecord g ti cnid = .ok ti' ↔ ∃ n, ti.nodeInfoArray[cnid]? = some n ∧ ti' = { ti with
      serializedNodeInfoArray := ti.serializedNodeInfoArray ++ [newRecord g cnid n]
      nodeInfoArray := ti.nodeInfoArray.set cnid { n with
        serializedNodeIndex := ti.serializedNodeInfoArray.length
        generationNumber := ti.generationNumber } } := by
  simp only [addActualRecord, bind_eq_ok, fetch_eq_ok, store_eq_ok, pure_eq_ok, Except.ok.injEq,
    List.length_append, List.length_singleton, Nat.add_sub_cancel]
  constructor
  · rintro ⟨n, hn, nodes, ⟨-, rfl⟩, rfl⟩
    exact ⟨n, hn, rfl⟩
  · rintro ⟨n, hn, rfl⟩
    exact ⟨n, hn, _, ⟨(List.getElem?_eq_some_iff.mp hn).1, rfl⟩, rfl⟩

theorem getCurrentNodeInfoPair_cases {g : RecordTable} {ti ti' : ThreadInfo} {idx : Nat}
    (h : getCurrentNodeInfoPair g ti = .ok (ti', idx)) :
    ∃ n, ti.nodeInfoArray[ti.currentCallNodeID]? = some n ∧
      ((n.generationNumber = ti.generationNumber ∧ ti' = ti ∧ idx = n.serializedNodeIndex) ∨
        (n.generationNumber ≠ ti.generationNumber ∧ idx = ti.serializedNodeInfoArray.length ∧ ti' = { ti with
          serializedNodeInfoArray := ti.serializedNodeInfoArray ++ [newRecord g ti.currentCallNodeID n]
          nodeInfoArray := ti.nodeInfoArray.set ti.currentCallNodeID { n with
            serializedNodeIndex := ti.serializedNodeInfoArray.length
            generationNumber := ti.generationNumber } })) := by
  rw [getCurrentNodeInfoPair, bind_eq_ok] at h
  obtain ⟨n, hn, h⟩ := h
  rw [fetch_eq_ok] at hn
  refine ⟨n, hn, ?_⟩
  by_cases hgen : n.generationNumber = ti.generationNumber
  · simp only [hgen, ne_eq, not_true_eq_false, if_false, pure_eq_ok, ok_bind, bind_eq_ok, fetch_eq_ok,
      Except.ok.injEq, Prod.mk.injEq] at h
    obtain ⟨n', hn', rfl, rfl⟩ := h
    rw [hn, Option.some.injEq] at hn'
    exact Or.inl ⟨hgen, rfl, by rw [hn']⟩
  · simp only [hgen, ne_eq, not_false_eq_true, if_true, bind_eq_ok, addActualRecord_eq_ok, fetch_eq_ok,
      pure_eq_ok, Except.ok.injEq, Prod.mk.injEq] at h
    obtain ⟨ti₁, ⟨m, hm, rfl⟩, n', hn', rfl, rfl⟩ := h
    rw [hn, Option.some.injEq] at hm
    subst hm
    rw [getElem?_set_self hn, Option.some.injEq] at hn'
    exact Or.inr ⟨hgen, by rw [← hn'], rfl⟩

theorem callHandler_eq_ok {g : RecordTable} {reading : Reading} {x : Nat} {ti ti' : ThreadInfo} :
    callHandler g reading x ti = .ok ti' ↔ ∃ (ti₁ ti₂ : ThreadInfo) (idx : Nat)
      (r r' : MethodNodeSerializedInfo) (n : MethodNodeInfo), enterChild g ti x = .ok ti₁ ∧
      getCurrentNodeInfoPair g ti₁ = .ok (ti₂, idx) ∧ ti₂.serializedNodeInfoArray[idx]? = some r ∧
      startRecord g reading r = .ok r' ∧ ti₂.nodeInfoArray[ti₂.currentCallNodeID]? = some n ∧ ti' = { ti₂ with
        serializedNodeInfoArray := ti₂.serializedNodeInfoArray.set idx r'
        nodeInfoArray := ti₂.nodeInfoArray.set ti₂.currentCallNodeID { n with startValue := r'.profileValue }
        stop := false } := by
  simp only [callHandler, saveStart, bind_eq_ok, fetch_eq_ok, store_eq_ok, pure_eq_ok, Except.ok.injEq]
  constructor
  · rintro ⟨ti₁, h₁, ⟨ti₂, idx⟩, h₂, r, hr, r', hr', recs, ⟨-, rfl⟩, n, hn, nodes, ⟨-, rfl⟩, rfl⟩
    exact ⟨ti₁, ti₂, idx, r, r', n, h₁, h₂, hr, hr', hn, rfl⟩
  · rintro ⟨ti₁, ti₂, idx, r, r', n, h₁, h₂, hr, hr', hn, rfl⟩
    exact ⟨ti₁, h₁, ⟨ti₂, idx⟩, h₂, r, hr, r', hr', _, ⟨(List.getElem?_eq_some_iff.mp hr).1, rfl⟩, n, hn, _,
      ⟨(List.getElem?_eq_some_iff.mp hn).1, rfl⟩, rfl⟩

theorem returnHandler_eq_ok {g : RecordTable} {reading : Reading} {ti ti' : ThreadInfo}
    (hcur : ti.currentCallNodeID ≠ 1) :
    returnHandler g reading ti = .ok ti' ↔ ti.stop = false ∧ ∃ (ti₂ : ThreadInfo) (idx : Nat)
      (r r' : MethodNodeSerializedInfo), getCurrentNodeInfoPair g { ti with stop := true } = .ok (ti₂, idx) ∧
      ti₂.serializedNodeInfoArray[idx]? = some r ∧ endRecord g reading ti₂ r = .ok r' ∧ ti' = { ti₂ with
        serializedNodeInfoArray := ti₂.serializedNodeInfoArray.set idx r'
        currentCallNodeID := r'.parentNodeId
        stop := false } := by
  simp only [returnHandler, if_neg hcur, leaveTo, bind_eq_ok, fetch_eq_ok, store_eq_ok,
    require_eq_ok, pure_eq_ok, Except.ok.injEq]
  constructor
  · rintro ⟨-, hstop, ⟨ti₂, idx⟩, h₂, r, hr, r', hr', recs, ⟨-, rfl⟩, rfl⟩
    exact ⟨hstop, ti₂, idx, r, r', h₂, hr, hr', rfl⟩
  · rintro ⟨hstop, ti₂, idx, r, r', h₂, hr, hr', rfl⟩
    exact ⟨(), hstop, ⟨ti₂, idx⟩, h₂, r, hr, r', hr', _, ⟨(List.getElem?_eq_some_iff.mp hr).1, rfl⟩, rfl⟩

theorem startRecord_ids {g : RecordTable} {reading : Reading} {r r' : MethodNodeSerializedInfo}
    (h : startRecord g reading r = .ok r') : r'.nameid = r.nameid ∧ r'.callNodeId = r.callNodeId ∧
      r'.parentNodeId = r.parentNodeId ∧ r'.callCount = r.callCount + 1 := by
  simp only [startRecord, bind_eq_ok, pure_eq_ok, Except.ok.injEq] at h
  obtain ⟨v, -, rfl⟩ := h
  exact ⟨rfl, rfl, rfl, rfl⟩

theorem endRecord_ids {g : RecordTable} {reading : Reading} {ti : ThreadInfo}
    {r r' : MethodNodeSerializedInfo} (h : endRecord g reading ti r = .ok r') : r'.nameid = r.nameid ∧
    r'.callNodeId = r.callNodeId ∧
      r'.parentNodeId = r.parentNodeId ∧ r'.callCount = r.callCount := by
  simp only [endRecord, bind_eq_ok, pure_eq_ok, Except.ok.injEq] at h
  obtain ⟨n, -, v, -, rfl⟩ := h
  exact ⟨rfl, rfl, rfl, rfl⟩

end Llprof.Profiler.HandlerCases
