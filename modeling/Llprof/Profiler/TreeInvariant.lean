import Llprof.Profiler.HandlerCases

namespace Llprof.Profiler.TreeInvariant

open Faulting MachineIntegers Records CallTree HandlerCases

structure Shape where
  nameid : Nat
  parentNodeId : Nat
  children : Std.TreeMap Nat Nat

def shape (n : MethodNodeInfo) : Shape := ⟨n.nameid, n.parentNodeId, n.children⟩

def shapeAt (ti : ThreadInfo) (k : Nat) : Option Shape := (ti.nodeInfoArray[k]?).map shape

/-- The node array is a tree with root 1 whose children maps list exactly the
nodes below each node. -/
structure TreeInv (ti : ThreadInfo) : Prop where
  root : ∃ n, shapeAt ti 1 = some n ∧ n.parentNodeId = 0
  parent : ∀ c n, 2 ≤ c → shapeAt ti c = some n → 1 ≤ n.parentNodeId ∧ n.parentNodeId < c
  children : ∀ p n, 1 ≤ p → shapeAt ti p = some n → ∀ x c, n.children[x]? = some c ↔
    2 ≤ c ∧ ∃ m, shapeAt ti c = some m ∧ m.parentNodeId = p ∧ m.nameid = x
  current : 1 ≤ ti.currentCallNodeID ∧ ti.currentCallNodeID < ti.nodeInfoArray.length

/-- The records of the live buffer and the stamps in the node array point at
each other. -/
structure RecordInv (ti : ThreadInfo) : Prop where
  generation : 0 < ti.generationNumber
  stamp : ∀ (k : Nat) (n : MethodNodeInfo), ti.nodeInfoArray[k]? = some n →
    n.generationNumber ≤ ti.generationNumber
  recorded : ∀ (k : Nat) (n : MethodNodeInfo), 1 ≤ k → ti.nodeInfoArray[k]? = some n →
    n.generationNumber = ti.generationNumber →
    ∃ r : MethodNodeSerializedInfo, ti.serializedNodeInfoArray[n.serializedNodeIndex]? = some r ∧
      r.callNodeId = k
  record : ∀ (j : Nat) (r : MethodNodeSerializedInfo), ti.serializedNodeInfoArray[j]? = some r →
    1 ≤ r.callNodeId ∧ ∃ n : MethodNodeInfo, ti.nodeInfoArray[r.callNodeId]? = some n ∧
      n.generationNumber = ti.generationNumber ∧
      n.serializedNodeIndex = j ∧ r.parentNodeId = n.parentNodeId ∧ r.nameid = n.nameid

theorem shape_set {xs : List MethodNodeInfo} {i : Nat} {n n' : MethodNodeInfo} (h : xs[i]? = some n)
    (hs : shape n' = shape n) (k : Nat) : ((xs.set i n')[k]?).map shape = (xs[k]?).map shape := by
  by_cases hk : i = k
  · subst hk
    rw [getElem?_set_self h, h, Option.map_some, Option.map_some, hs]
  · rw [List.getElem?_set_ne hk]

theorem TreeInv.congr {ti ti' : ThreadInfo} (hT : TreeInv ti) (hs : ∀ k, shapeAt ti' k = shapeAt ti k)
    (hc : 1 ≤ ti'.currentCallNodeID ∧ ti'.currentCallNodeID < ti.nodeInfoArray.length)
    (hl : ti'.nodeInfoArray.length = ti.nodeInfoArray.length) : TreeInv ti' := by
  refine ⟨?_, ?_, ?_, ?_⟩
  · rw [hs]
    exact hT.root
  · intro c n hc hn
    exact hT.parent c n hc (hs c ▸ hn)
  · intro p n hp hn x c
    rw [hT.children p n hp (hs p ▸ hn) x c]
    simp only [hs]
  · rw [hl]
    exact hc

theorem shapeAt_eq_some {ti : ThreadInfo} {k : Nat} {n : Shape} :
    shapeAt ti k = some n ↔ ∃ m, ti.nodeInfoArray[k]? = some m ∧ shape m = n := by
  simp [shapeAt, Option.map_eq_some_iff]

theorem shapeAt_lt {ti : ThreadInfo} {k : Nat} {n : Shape} (h : shapeAt ti k = some n) :
    k < ti.nodeInfoArray.length := by
  obtain ⟨m, hm, -⟩ := shapeAt_eq_some.mp h
  exact (List.getElem?_eq_some_iff.mp hm).1

theorem TreeInv.parent_node {ti : ThreadInfo} (hT : TreeInv ti) {id : Nat} {n : Shape} (h2 : 2 ≤ id)
    (hn : shapeAt ti id = some n) : 1 ≤ n.parentNodeId ∧ n.parentNodeId < id ∧
    ∃ p, shapeAt ti n.parentNodeId = some p := by
  obtain ⟨h1, hlt⟩ := hT.parent id n h2 hn
  have hid := shapeAt_lt hn
  refine ⟨h1, hlt, ?_⟩
  rw [shapeAt, List.getElem?_eq_getElem (by omega)]
  exact ⟨_, rfl⟩

def Grows (ti ti' : ThreadInfo) : Prop :=
  ∀ k n, shapeAt ti k = some n →
    ∃ n', shapeAt ti' k = some n' ∧ n'.nameid = n.nameid ∧ n'.parentNodeId = n.parentNodeId

theorem Grows.refl (ti : ThreadInfo) : Grows ti ti := fun _ n h => ⟨n, h, rfl, rfl⟩

theorem Grows.trans {ti₁ ti₂ ti₃ : ThreadInfo} (h₁ : Grows ti₁ ti₂) (h₂ : Grows ti₂ ti₃) : Grows ti₁ ti₃ := by
  intro k n hn
  obtain ⟨n', hn', hx, hp⟩ := h₁ k n hn
  obtain ⟨n'', hn'', hx', hp'⟩ := h₂ k n' hn'
  exact ⟨n'', hn'', hx'.trans hx, hp'.trans hp⟩

theorem Grows.of_eq {ti ti' : ThreadInfo} (h : ∀ k, shapeAt ti' k = shapeAt ti k) : Grows ti ti' :=
  fun k n hn => ⟨n, (h k).trans hn, rfl, rfl⟩

theorem shapeAt_append {g : RecordTable} {ti : ThreadInfo} {p : MethodNodeInfo} {x : Nat}
    (hp : ti.nodeInfoArray[ti.currentCallNodeID]? = some p) (stop : Bool) (k : Nat) :
    shapeAt { ti with
      stop := stop
      currentCallNodeID := ti.nodeInfoArray.length
      nodeInfoArray := (ti.nodeInfoArray ++ [newNode g ti.currentCallNodeID x]).set ti.currentCallNodeID
        { p with children := p.children.insertIfNew x ti.nodeInfoArray.length } } k =
      if k = ti.currentCallNodeID then
        some ⟨p.nameid, p.parentNodeId, p.children.insertIfNew x ti.nodeInfoArray.length⟩
      else if k = ti.nodeInfoArray.length then some ⟨x, ti.currentCallNodeID, ∅⟩
      else shapeAt ti k := by
  have hlt : ti.currentCallNodeID < ti.nodeInfoArray.length := (List.getElem?_eq_some_iff.mp hp).1
  by_cases hk : k = ti.currentCallNodeID
  · subst hk
    rw [if_pos rfl, shapeAt]
    dsimp only
    rw [getElem?_set_self (by rw [List.getElem?_append_left hlt, hp])]
    rfl
  · rw [if_neg hk, shapeAt]
    dsimp only
    rw [List.getElem?_set_ne (Ne.symm hk)]
    by_cases hl : k = ti.nodeInfoArray.length
    · rw [if_pos hl, hl, List.getElem?_concat_length]
      rfl
    · rw [if_neg hl, shapeAt]
      by_cases hkl : k < ti.nodeInfoArray.length
      · rw [List.getElem?_append_left hkl]
      · rw [List.getElem?_eq_none (by simp; omega), List.getElem?_eq_none (by omega)]

theorem TreeInv.append {g : RecordTable} {ti : ThreadInfo} (hT : TreeInv ti) {p : MethodNodeInfo} {x : Nat}
    (hp : ti.nodeInfoArray[ti.currentCallNodeID]? = some p) (hx : p.children[x]? = none) (stop : Bool) :
    TreeInv { ti with
      stop := stop
      currentCallNodeID := ti.nodeInfoArray.length
      nodeInfoArray := (ti.nodeInfoArray ++ [newNode g ti.currentCallNodeID x]).set ti.currentCallNodeID
        { p with children := p.children.insertIfNew x ti.nodeInfoArray.length } } := by
  have hlt : ti.currentCallNodeID < ti.nodeInfoArray.length := (List.getElem?_eq_some_iff.mp hp).1
  have hcur := hT.current.1
  have hps : shapeAt ti ti.currentCallNodeID = some (shape p) := by rw [shapeAt, hp, Option.map_some]
  have hold (k : Nat) (n : Shape) (hn : shapeAt ti k = some n) : k ≠ ti.nodeInfoArray.length :=
    Nat.ne_of_lt (shapeAt_lt hn)
  refine ⟨?_, ?_, ?_, ?_⟩
  · obtain ⟨r, hr, hr0⟩ := hT.root
    rw [shapeAt_append hp]
    by_cases h1 : 1 = ti.currentCallNodeID
    · rw [← h1, hr, Option.some.injEq] at hps
      exact ⟨_, if_pos h1, by rw [hps] at hr0; exact hr0⟩
    · rw [if_neg h1, if_neg (hold 1 r hr)]
      exact ⟨r, hr, hr0⟩
  · intro c n hc hn
    rw [shapeAt_append hp] at hn
    by_cases h1 : c = ti.currentCallNodeID
    · rw [if_pos h1, Option.some.injEq] at hn
      subst hn
      exact hT.parent c (shape p) hc (h1 ▸ hps)
    · rw [if_neg h1] at hn
      by_cases h2 : c = ti.nodeInfoArray.length
      · rw [if_pos h2, Option.some.injEq] at hn
        subst hn
        exact ⟨hcur, h2 ▸ hlt⟩
      · rw [if_neg h2] at hn
        exact hT.parent c n hc hn
  · intro q n hq hn y c
    have hplace (k : Nat) : (∃ m, shapeAt { ti with
          stop := stop
          currentCallNodeID := ti.nodeInfoArray.length
          nodeInfoArray := (ti.nodeInfoArray ++ [newNode g ti.currentCallNodeID x]).set ti.currentCallNodeID
            { p with children := p.children.insertIfNew x ti.nodeInfoArray.length } } k = some m ∧
          m.parentNodeId = q ∧ m.nameid = y) ↔
        if k = ti.nodeInfoArray.length then ti.currentCallNodeID = q ∧ x = y
        else ∃ m, shapeAt ti k = some m ∧ m.parentNodeId = q ∧ m.nameid = y := by
      rw [shapeAt_append hp]
      by_cases h1 : k = ti.currentCallNodeID
      · rw [if_pos h1, if_neg (by omega), h1, hps]
        simp [shape]
      · rw [if_neg h1]
        by_cases h2 : k = ti.nodeInfoArray.length
        · simp [h2]
        · simp [h2]
    rw [hplace c]
    rw [shapeAt_append hp] at hn
    by_cases h1 : q = ti.currentCallNodeID
    · rw [if_pos h1, Option.some.injEq] at hn
      subst hn
      dsimp only
      have hch := hT.children q (shape p) hq (h1 ▸ hps) y c
      have hxp : x ∉ p.children := by
        rw [Std.TreeMap.mem_iff_isSome_getElem?, hx]
        simp
      rw [Std.TreeMap.getElem?_insertIfNew]
      by_cases hxy : x = y
      · subst hxy
        rw [if_pos ⟨by simp, hxp⟩, Option.some.injEq]
        by_cases h2 : c = ti.nodeInfoArray.length
        · rw [if_pos h2, h2]
          exact iff_of_true rfl ⟨by omega, h1.symm, rfl⟩
        · rw [if_neg h2]
          refine iff_of_false (Ne.symm h2) (fun h => ?_)
          have := hch.mpr h
          rw [show (shape p).children = p.children from rfl, hx] at this
          cases this
      · rw [if_neg (by rw [Std.compare_eq_iff_eq]; tauto)]
        refine hch.trans ?_
        by_cases h2 : c = ti.nodeInfoArray.length
        · rw [if_pos h2]
          refine iff_of_false ?_ (by tauto)
          rintro ⟨-, m, hm, -⟩
          exact hold c m hm h2
        · rw [if_neg h2]
    · rw [if_neg h1] at hn
      by_cases h2 : q = ti.nodeInfoArray.length
      · rw [if_pos h2, Option.some.injEq] at hn
        subst hn
        simp only [Std.TreeMap.getElem?_emptyc, reduceCtorEq, false_iff, not_and]
        intro hc hm
        by_cases h3 : c = ti.nodeInfoArray.length
        · rw [if_pos h3] at hm
          omega
        · rw [if_neg h3] at hm
          obtain ⟨m, hm, hmp, -⟩ := hm
          have := hT.parent c m hc hm
          have := shapeAt_lt hm
          omega
      · rw [if_neg h2] at hn
        refine (hT.children q n hq hn y c).trans ?_
        by_cases h3 : c = ti.nodeInfoArray.length
        · rw [if_pos h3]
          refine iff_of_false ?_ (by omega)
          rintro ⟨-, m, hm, -⟩
          exact hold c m hm h3
        · rw [if_neg h3]
  · dsimp only
    rw [List.length_set, List.length_append, List.length_singleton]
    omega

theorem TreeInv.enterChild {g : RecordTable} {ti ti' : ThreadInfo} {x : Nat} (hT : TreeInv ti)
    (h : enterChild g ti x = .ok ti') : TreeInv ti' ∧ Grows ti ti' ∧
      ∃ n, shapeAt ti' ti'.currentCallNodeID = some n ∧
        n.parentNodeId = ti.currentCallNodeID ∧ n.nameid = x := by
  have hlt := hT.current.2
  obtain ⟨p, hp, ⟨c, hc, rfl⟩ | ⟨hx, rfl⟩⟩ := enterChild_cases hT.current.1 h
  · have hps : shapeAt ti ti.currentCallNodeID = some (shape p) := by rw [shapeAt, hp, Option.map_some]
    obtain ⟨h2, m, hm, hmp, hmx⟩ := (hT.children _ _ hT.current.1 hps x c).mp hc
    exact ⟨hT.congr (fun _ => rfl) ⟨by dsimp only; omega, shapeAt_lt hm⟩ rfl, Grows.of_eq (fun _ => rfl),
      m, hm, hmp, hmx⟩
  · refine ⟨hT.append hp hx true, ?_, ?_⟩
    · intro k n hn
      rw [shapeAt_append hp]
      by_cases h1 : k = ti.currentCallNodeID
      · rw [h1, shapeAt, hp, Option.map_some, Option.some.injEq] at hn
        exact ⟨_, if_pos h1, by rw [← hn]; rfl, by rw [← hn]; rfl⟩
      · rw [if_neg h1, if_neg (Nat.ne_of_lt (shapeAt_lt hn))]
        exact ⟨n, hn, rfl, rfl⟩
    · rw [shapeAt_append hp]
      dsimp only
      rw [if_neg (by omega), if_pos rfl]
      exact ⟨_, rfl, rfl, rfl⟩

theorem RecordInv.enterChild {g : RecordTable} {ti ti' : ThreadInfo} {x : Nat} (hR : RecordInv ti)
    (hcur : 1 ≤ ti.currentCallNodeID) (h : enterChild g ti x = .ok ti') : RecordInv ti' := by
  obtain ⟨p, hp, ⟨c, -, rfl⟩ | ⟨-, rfl⟩⟩ := enterChild_cases hcur h
  · exact ⟨hR.generation, hR.stamp, hR.recorded, hR.record⟩
  · have hlt : ti.currentCallNodeID < ti.nodeInfoArray.length := (List.getElem?_eq_some_iff.mp hp).1
    have hstamp (k : Nat) (n : MethodNodeInfo) (hn : ((ti.nodeInfoArray ++ [newNode g ti.currentCallNodeID x]).set
        ti.currentCallNodeID { p with children := p.children.insertIfNew x ti.nodeInfoArray.length })[k]? =
          some n) :
        n.generationNumber = 0 ∨ ∃ m, ti.nodeInfoArray[k]? = some m ∧
          m.generationNumber = n.generationNumber ∧ m.serializedNodeIndex = n.serializedNodeIndex := by
      by_cases hk : k = ti.currentCallNodeID
      · subst hk
        rw [getElem?_set_self (by rw [List.getElem?_append_left hlt, hp]), Option.some.injEq] at hn
        exact Or.inr ⟨p, hp, by rw [← hn], by rw [← hn]⟩
      · rw [List.getElem?_set_ne (Ne.symm hk)] at hn
        by_cases hl : k < ti.nodeInfoArray.length
        · rw [List.getElem?_append_left hl] at hn
          exact Or.inr ⟨n, hn, rfl, rfl⟩
        · have hlast : k = ti.nodeInfoArray.length := by
            have := (List.getElem?_eq_some_iff.mp hn).1
            rw [List.length_append, List.length_singleton] at this
            omega
          rw [hlast, List.getElem?_concat_length, Option.some.injEq] at hn
          exact Or.inl (by rw [← hn]; rfl)
    refine ⟨hR.generation, ?_, ?_, ?_⟩
    · intro k n hn
      obtain h0 | ⟨m, hm, hg, -⟩ := hstamp k n hn
      · rw [h0]
        exact Nat.zero_le _
      · exact hg ▸ hR.stamp k m hm
    · intro k n hk hn hgen
      obtain h0 | ⟨m, hm, hg, hi⟩ := hstamp k n hn
      · have := hR.generation
        dsimp only at hgen
        omega
      · exact hi ▸ hR.recorded k m hk hm (hg.trans hgen)
    · intro j r hr
      obtain ⟨hk, n, hn, hg, hi, hpar, hname⟩ := hR.record j r hr
      refine ⟨hk, ?_⟩
      by_cases hkc : r.callNodeId = ti.currentCallNodeID
      · rw [hkc] at hn ⊢
        rw [hp, Option.some.injEq] at hn
        subst hn
        exact ⟨_, getElem?_set_self (by rw [List.getElem?_append_left hlt, hp]), hg, hi, hpar, hname⟩
      · refine ⟨n, ?_, hg, hi, hpar, hname⟩
        dsimp only
        rw [List.getElem?_set_ne (Ne.symm hkc),
          List.getElem?_append_left (List.getElem?_eq_some_iff.mp hn).1, hn]

theorem pair_spec {g : RecordTable} {ti ti' : ThreadInfo} {idx : Nat} (hR : RecordInv ti)
    (hcur : 1 ≤ ti.currentCallNodeID) (h : getCurrentNodeInfoPair g ti = .ok (ti', idx)) :
    RecordInv ti' ∧ (∀ k, shapeAt ti' k = shapeAt ti k) ∧
      ti'.nodeInfoArray.length = ti.nodeInfoArray.length ∧ ti'.currentCallNodeID = ti.currentCallNodeID ∧
      ∃ r, ti'.serializedNodeInfoArray[idx]? = some r ∧ r.callNodeId = ti.currentCallNodeID := by
  obtain ⟨n, hn, ⟨hgen, rfl, rfl⟩ | ⟨hgen, rfl, rfl⟩⟩ := getCurrentNodeInfoPair_cases h
  · exact ⟨hR, fun _ => rfl, rfl, rfl, hR.recorded _ n hcur hn hgen⟩
  · refine ⟨⟨hR.generation, ?_, ?_, ?_⟩, fun k => shape_set hn (by rfl) k, List.length_set, rfl,
      newRecord g _ n, ?_, rfl⟩
    · intro k m hm
      by_cases hk : k = ti.currentCallNodeID
      · rw [hk, getElem?_set_self hn, Option.some.injEq] at hm
        rw [← hm]
      · rw [List.getElem?_set_ne (Ne.symm hk)] at hm
        exact hR.stamp k m hm
    · intro k m hk hm hg
      dsimp only at hm hg ⊢
      by_cases hkc : k = ti.currentCallNodeID
      · subst hkc
        rw [getElem?_set_self hn, Option.some.injEq] at hm
        subst hm
        exact ⟨newRecord g _ n, List.getElem?_concat_length, rfl⟩
      · rw [List.getElem?_set_ne (Ne.symm hkc)] at hm
        obtain ⟨r, hr, hrk⟩ := hR.recorded k m hk hm hg
        exact ⟨r, by rw [List.getElem?_append_left (List.getElem?_eq_some_iff.mp hr).1, hr], hrk⟩
    · intro j r hr
      dsimp only at hr ⊢
      by_cases hj : j < ti.serializedNodeInfoArray.length
      · rw [List.getElem?_append_left hj] at hr
        obtain ⟨hk, m, hm, hg, hrest⟩ := hR.record j r hr
        have hkc : r.callNodeId ≠ ti.currentCallNodeID := by
          intro he
          rw [he, hn, Option.some.injEq] at hm
          exact hgen (hm ▸ hg)
        exact ⟨hk, m, by rw [List.getElem?_set_ne (Ne.symm hkc), hm], hg, hrest⟩
      · have hlast : j = ti.serializedNodeInfoArray.length := by
          have := (List.getElem?_eq_some_iff.mp hr).1
          rw [List.length_append, List.length_singleton] at this
          omega
        rw [hlast, List.getElem?_concat_length, Option.some.injEq] at hr
        subst hr
        exact ⟨hcur, _, getElem?_set_self hn, rfl, hlast.symm, rfl, rfl⟩
    · exact List.getElem?_concat_length

/-- Rewriting a record in place, and parts of its node that no stamp depends on,
keeps the records in order. -/
theorem RecordInv.update {ti ti' : ThreadInfo} (hR : RecordInv ti) {idx : Nat}
    {r r' : MethodNodeSerializedInfo} (hr : ti.serializedNodeInfoArray[idx]? = some r)
    (hids : r'.callNodeId = r.callNodeId ∧
      r'.parentNodeId = r.parentNodeId ∧ r'.nameid = r.nameid)
    (hser : ti'.serializedNodeInfoArray = ti.serializedNodeInfoArray.set idx r')
    (hgen : ti'.generationNumber = ti.generationNumber)
    (hnodes : ∀ k : Nat, (ti'.nodeInfoArray[k]?).map (fun n => { n with startValue := [] }) =
      (ti.nodeInfoArray[k]?).map (fun n => { n with startValue := [] })) : RecordInv ti' := by
  have hback (k : Nat) (n : MethodNodeInfo) (hn : ti'.nodeInfoArray[k]? = some n) :
      ∃ m, ti.nodeInfoArray[k]? = some m ∧
        ({ m with startValue := [] } : MethodNodeInfo) = { n with startValue := [] } := by
    have h := hnodes k
    rw [hn, Option.map_some, eq_comm, Option.map_eq_some_iff] at h
    exact h
  have hfwd (k : Nat) (m : MethodNodeInfo) (hm : ti.nodeInfoArray[k]? = some m) :
      ∃ n, ti'.nodeInfoArray[k]? = some n ∧
        ({ n with startValue := [] } : MethodNodeInfo) = { m with startValue := [] } := by
    have h := hnodes k
    rw [hm, Option.map_some, Option.map_eq_some_iff] at h
    exact h
  refine ⟨hgen ▸ hR.generation, ?_, ?_, ?_⟩
  · intro k n hn
    obtain ⟨m, hm, he⟩ := hback k n hn
    injection he with hi hg hx hch hpar
    rw [hgen, ← hg]
    exact hR.stamp k m hm
  · intro k n hk hn hng
    obtain ⟨m, hm, he⟩ := hback k n hn
    injection he with hi hg hx hch hpar
    obtain ⟨q, hq, hqk⟩ := hR.recorded k m hk hm (by rw [hg, hng, hgen])
    rw [hi] at hq
    rw [hser]
    by_cases hidx : idx = n.serializedNodeIndex
    · subst hidx
      rw [hr, Option.some.injEq] at hq
      exact ⟨r', getElem?_set_self hr, by rw [hids.1, hq, hqk]⟩
    · exact ⟨q, by rw [List.getElem?_set_ne hidx, hq], hqk⟩
  · intro j q hq
    rw [hser] at hq
    obtain ⟨q₀, hq₀, h1, h2, h3⟩ : ∃ q₀, ti.serializedNodeInfoArray[j]? = some q₀ ∧
      q.callNodeId = q₀.callNodeId ∧
        q.parentNodeId = q₀.parentNodeId ∧ q.nameid = q₀.nameid := by
      by_cases hidx : idx = j
      · subst hidx
        rw [getElem?_set_self hr, Option.some.injEq] at hq
        exact ⟨r, hr, hq ▸ hids⟩
      · rw [List.getElem?_set_ne hidx] at hq
        exact ⟨q, hq, rfl, rfl, rfl⟩
    obtain ⟨hk, m, hm, hg, hi, hp, hx⟩ := hR.record j q₀ hq₀
    obtain ⟨n, hn, he⟩ := hfwd _ m hm
    injection he with hi' hg' hx' hch' hpar'
    rw [h1]
    exact ⟨hk, n, hn, by rw [hg', hg, hgen], by rw [hi', hi], by rw [h2, hp, hpar'], by rw [h3, hx, hx']⟩

theorem forget_start_set {xs : List MethodNodeInfo} {i : Nat} {n : MethodNodeInfo} {v : List LongLong}
    (h : xs[i]? = some n) (k : Nat) :
    ((xs.set i { n with startValue := v })[k]?).map (fun n => { n with startValue := [] }) =
      (xs[k]?).map (fun n => { n with startValue := [] }) := by
  by_cases hk : i = k
  · subst hk
    rw [getElem?_set_self h, h, Option.map_some, Option.map_some]
  · rw [List.getElem?_set_ne hk]

theorem TreeInv.shape_current {ti : ThreadInfo} (hT : TreeInv ti) :
    ∃ n, shapeAt ti ti.currentCallNodeID = some n := by
  rw [shapeAt, List.getElem?_eq_getElem hT.current.2]
  exact ⟨_, rfl⟩

theorem callHandler_keeps {g : RecordTable} {reading : Reading} {x : Nat} {ti ti' : ThreadInfo}
    (hT : TreeInv ti) (hR : RecordInv ti) (h : callHandler g reading x ti = .ok ti') :
    TreeInv ti' ∧ RecordInv ti' ∧ Grows ti ti' ∧ 2 ≤ ti'.currentCallNodeID ∧
      ∃ n, shapeAt ti' ti'.currentCallNodeID = some n ∧
        n.parentNodeId = ti.currentCallNodeID ∧ n.nameid = x := by
  obtain ⟨ti₁, ti₂, idx, r, r', n, h₁, h₂, hr, hr', hn, rfl⟩ := callHandler_eq_ok.mp h
  obtain ⟨hT₁, hgrow, m, hm, hmp, hmx⟩ := hT.enterChild h₁
  obtain ⟨hR₂, hs, hl, hc, -⟩ := pair_spec (hR.enterChild hT.current.1 h₁) hT₁.current.1 h₂
  obtain ⟨hx, hk, hp, -⟩ := startRecord_ids hr'
  have hshape (k : Nat) : shapeAt { ti₂ with
      serializedNodeInfoArray := ti₂.serializedNodeInfoArray.set idx r'
      nodeInfoArray := ti₂.nodeInfoArray.set ti₂.currentCallNodeID { n with startValue := r'.profileValue }
      stop := false } k = shapeAt ti₁ k := by
    rw [← hs k]
    exact shape_set hn (by rfl) k
  have hne : 2 ≤ ti₁.currentCallNodeID := by
    obtain ⟨q, hq, hq0⟩ := hT₁.root
    have h1 := hT₁.current.1
    have h2 := hT.current.1
    by_contra hlt
    have he : ti₁.currentCallNodeID = 1 := by omega
    rw [he, hq, Option.some.injEq] at hm
    subst hm
    omega
  refine ⟨hT₁.congr hshape ?_ ?_, ?_, hgrow.trans (Grows.of_eq hshape), ?_, m, ?_, hmp, hmx⟩
  · dsimp only
    rw [hc]
    exact hT₁.current
  · dsimp only
    rw [List.length_set, hl]
  · exact hR₂.update hr ⟨hk, hp, hx⟩ rfl rfl (forget_start_set hn)
  · dsimp only
    rwa [hc]
  · dsimp only
    rw [hshape, hc, hm]

/-- A return moves to the parent of the current node, which it reads from the
record and not from the node. -/
theorem returnHandler_keeps {g : RecordTable} {reading : Reading} {ti ti' : ThreadInfo}
    (hT : TreeInv ti) (hR : RecordInv ti) (hcur : ti.currentCallNodeID ≠ 1)
    (h : returnHandler g reading ti = .ok ti') :
    TreeInv ti' ∧ RecordInv ti' ∧ (∀ k, shapeAt ti' k = shapeAt ti k) ∧
      ∃ n, shapeAt ti ti.currentCallNodeID = some n ∧ ti'.currentCallNodeID = n.parentNodeId := by
  obtain ⟨-, ti₂, idx, r, r', h₂, hr, hr', rfl⟩ := (returnHandler_eq_ok hcur).mp h
  have hR' : RecordInv { ti with stop := true } := ⟨hR.generation, hR.stamp, hR.recorded, hR.record⟩
  obtain ⟨hR₂, hs, hl, hc, q, hq, hqk⟩ := pair_spec hR' hT.current.1 h₂
  dsimp only at hl hc hqk
  obtain ⟨hx, hk, hp, -⟩ := endRecord_ids hr'
  obtain ⟨n, hn⟩ := hT.shape_current
  rw [hr, Option.some.injEq] at hq
  subst hq
  have hpar : r.parentNodeId = n.parentNodeId := by
    obtain ⟨-, m, hm, -, -, hmp, -⟩ := hR₂.record idx r hr
    have hm' : shapeAt ti₂ ti.currentCallNodeID = some (shape m) := by
      rw [← hqk, shapeAt, hm, Option.map_some]
    have hn' : shapeAt ti₂ ti.currentCallNodeID = some n := (hs _).trans hn
    rw [hn', Option.some.injEq] at hm'
    rw [hmp, hm']
    rfl
  have h2 : 2 ≤ ti.currentCallNodeID := by
    have := hT.current.1
    omega
  have hplace := hT.parent _ n h2 hn
  refine ⟨hT.congr hs ?_ hl, ?_, hs, n, hn, by dsimp only; rw [hp, hpar]⟩
  · dsimp only
    rw [hp, hpar]
    have := hT.current.2
    omega
  · exact hR₂.update hr ⟨hk, hp, hx⟩ rfl rfl (fun _ => rfl)

theorem newThread_tree (g : RecordTable) (threadID : Nat) : TreeInv (newThread g threadID) := by
  refine ⟨⟨_, rfl, rfl⟩, ?_, ?_, Nat.le_refl 1, Nat.lt_succ_self 1⟩
  · intro c n hc hn
    have := shapeAt_lt hn
    simp only [newThread, ThreadInfo.pushNode, List.length_append, List.length_singleton] at this
    omega
  · intro p n hp hn x c
    have hlt := shapeAt_lt hn
    simp only [newThread, ThreadInfo.pushNode, List.length_append, List.length_singleton] at hlt
    obtain rfl : p = 1 := by omega
    cases hn
    refine iff_of_false (by simp [newNode, shape]) ?_
    rintro ⟨hc, m, hm, -⟩
    have := shapeAt_lt hm
    simp only [newThread, ThreadInfo.pushNode, List.length_append, List.length_singleton] at this
    omega

theorem newThread_record (g : RecordTable) (threadID : Nat) : RecordInv (newThread g threadID) := by
  have hgen (k : Nat) (n : MethodNodeInfo) (hn : (newThread g threadID).nodeInfoArray[k]? = some n) :
      n.generationNumber = 0 := by
    have hm := List.mem_of_getElem? hn
    simp only [newThread, ThreadInfo.pushNode, List.singleton_append, List.mem_cons, List.not_mem_nil,
      or_false] at hm
    obtain rfl | rfl := hm <;> rfl
  refine ⟨Nat.one_pos, ?_, ?_, ?_⟩
  · intro k n hn
    rw [hgen k n hn]
    exact Nat.zero_le _
  · intro k n hk hn hg
    rw [hgen k n hn] at hg
    cases hg
  · intro j r hr
    simp [newThread, ThreadInfo.pushNode] at hr

theorem getSerializedBuffer_keeps {ti : ThreadInfo} (hT : TreeInv ti) (hR : RecordInv ti)
    (hgen : ti.generationNumber + 1 < 2 ^ 32) :
    TreeInv (getSerializedBuffer ti).1 ∧ RecordInv (getSerializedBuffer ti).1 := by
  have hmod : (getSerializedBuffer ti).1.generationNumber = ti.generationNumber + 1 := Nat.mod_eq_of_lt hgen
  refine ⟨hT.congr (fun _ => rfl) hT.current rfl, ?_, ?_, ?_, ?_⟩
  · omega
  · intro k n hn
    have := hR.stamp k n hn
    omega
  · intro k n hk hn hg
    have := hR.stamp k n hn
    omega
  · intro j r hr
    simp [getSerializedBuffer] at hr

theorem drain_keeps {g : RecordTable} {reading : Reading} {ti ti' : ThreadInfo} {d : Drained}
    (hT : TreeInv ti) (hR : RecordInv ti) (hgen : ti.generationNumber + 1 < 2 ^ 32)
    (h : drain g reading ti = .ok (ti', d)) :
    TreeInv ti' ∧ RecordInv ti' ∧ (∀ k, shapeAt ti' k = shapeAt ti k) ∧
      ti'.currentCallNodeID = ti.currentCallNodeID ∧ ti'.generationNumber = ti.generationNumber + 1 ∧
      d.records = ti.serializedNodeInfoArray := by
  obtain ⟨hT', hR'⟩ := getSerializedBuffer_keeps hT hR hgen
  simp only [drain, getNowInfo, bind_eq_ok, pure_eq_ok, Except.ok.injEq, Prod.mk.injEq] at h
  obtain ⟨⟨ti₁, now⟩, ⟨v, -, he⟩, rfl, rfl⟩ := h
  injection he with he
  subst he
  exact ⟨hT'.congr (fun _ => rfl) hT'.current rfl, ⟨hR'.generation, hR'.stamp, hR'.recorded, hR'.record⟩,
    fun _ => rfl, rfl, Nat.mod_eq_of_lt hgen, rfl⟩

end Llprof.Profiler.TreeInvariant
