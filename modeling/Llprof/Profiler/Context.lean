import Llprof.Profiler.TreeInvariant

namespace Llprof.Profiler.Context

open Faulting Records CallTree TreeInvariant

/-- The calls that have not returned yet, innermost first. A return without a
call is ignored. -/
def pendingStep (stack : List Nat) : Handler → List Nat
  | .call nameid _ => nameid :: stack
  | .ret _ => stack.tail

def pending (hs : List Handler) : List Nat := hs.foldl pendingStep []

def namesToRoot (ti : ThreadInfo) : Nat → Nat → List Nat
  | 0, _ => []
  | fuel + 1, id =>
      if id = 1 then []
      else match ti.nodeInfoArray[id]? with
        | none => []
        | some n => n.nameid :: namesToRoot ti fuel n.parentNodeId

/-- A path to the root has fewer links than there are nodes. -/
def currentNames (ti : ThreadInfo) : List Nat := namesToRoot ti ti.nodeInfoArray.length ti.currentCallNodeID

theorem namesToRoot_root (ti : ThreadInfo) (fuel : Nat) : namesToRoot ti fuel 1 = [] := by
  cases fuel <;> simp [namesToRoot]

theorem namesToRoot_child {ti : ThreadInfo} {fuel id : Nat} {n : Shape} (hid : id ≠ 1)
    (hn : shapeAt ti id = some n) :
    namesToRoot ti (fuel + 1) id = n.nameid :: namesToRoot ti fuel n.parentNodeId := by
  obtain ⟨m, hm, rfl⟩ := shapeAt_eq_some.mp hn
  rw [namesToRoot, if_neg hid, hm]
  rfl

/-- Parents have smaller ids, so any fuel from the id on reads the same path, and
a later state of the tree reads it too. -/
theorem namesToRoot_grows {ti ti' : ThreadInfo} (hT : TreeInv ti) (hgrow : Grows ti ti') (fuel fuel' id : Nat)
    (n : Shape) (hn : shapeAt ti id = some n) (hid : 1 ≤ id) (hf : id ≤ fuel) (hf' : id ≤ fuel') :
    namesToRoot ti' fuel' id = namesToRoot ti fuel id := by
  induction fuel generalizing fuel' id n with
  | zero => omega
  | succ fuel ih =>
      obtain ⟨fuel', rfl⟩ : ∃ f, fuel' = f + 1 := ⟨fuel' - 1, by omega⟩
      by_cases h1 : id = 1
      · rw [h1, namesToRoot_root, namesToRoot_root]
      · obtain ⟨n', hn', hx, hp⟩ := hgrow id n hn
        obtain ⟨hp1, hlt, q, hq⟩ := hT.parent_node (by omega) hn
        rw [namesToRoot_child h1 hn, namesToRoot_child h1 hn', hx, hp,
          ih fuel' n.parentNodeId q hq hp1 (by omega) (by omega)]

theorem namesToRoot_injective {ti : ThreadInfo} (hT : TreeInv ti) (fuel a b : Nat) (na nb : Shape)
    (ha : shapeAt ti a = some na) (hb : shapeAt ti b = some nb) (ha1 : 1 ≤ a) (hb1 : 1 ≤ b)
    (hfa : a ≤ fuel) (hfb : b ≤ fuel) (h : namesToRoot ti fuel a = namesToRoot ti fuel b) : a = b := by
  induction fuel generalizing a b na nb with
  | zero => omega
  | succ fuel ih =>
      by_cases ha' : a = 1
      · by_cases hb' : b = 1
        · rw [ha', hb']
        · rw [ha', namesToRoot_root, namesToRoot_child hb' hb] at h
          cases h
      · by_cases hb' : b = 1
        · rw [hb', namesToRoot_root, namesToRoot_child ha' ha] at h
          cases h
        · rw [namesToRoot_child ha' ha, namesToRoot_child hb' hb] at h
          injection h with hname hrest
          obtain ⟨hpa, hla, qa, hqa⟩ := hT.parent_node (by omega) ha
          obtain ⟨hpb, hlb, qb, hqb⟩ := hT.parent_node (by omega) hb
          have hpar : na.parentNodeId = nb.parentNodeId :=
            ih na.parentNodeId nb.parentNodeId qa qb hqa hqb hpa hpb (by omega) (by omega) hrest
          have hca := (hT.children _ qa hpa hqa na.nameid a).mpr ⟨by omega, na, ha, rfl, rfl⟩
          have hcb := (hT.children _ qa hpa hqa na.nameid b).mpr ⟨by omega, nb, hb, hpar.symm, hname.symm⟩
          rw [hca] at hcb
          exact Option.some.inj hcb

theorem currentNames_child {ti : ThreadInfo} {n : Shape} (hT : TreeInv ti)
    (h1 : ti.currentCallNodeID ≠ 1) (hn : shapeAt ti ti.currentCallNodeID = some n) :
    currentNames ti = n.nameid :: namesToRoot ti ti.nodeInfoArray.length n.parentNodeId := by
  have hc := hT.current
  obtain ⟨hp, hlt, q, hq⟩ := hT.parent_node (by omega) hn
  obtain ⟨l, hl⟩ : ∃ l, ti.nodeInfoArray.length = l + 1 := ⟨ti.nodeInfoArray.length - 1, by omega⟩
  rw [currentNames, hl, namesToRoot_child h1 hn,
    namesToRoot_grows hT (Grows.refl ti) l (l + 1) _ q hq hp (by omega) (by omega)]

/-- A thread after some handlers: the invariants, and the path of the current
node spells the pending calls. -/
structure Reached (ti : ThreadInfo) (stack : List Nat) : Prop where
  tree : TreeInv ti
  record : RecordInv ti
  names : currentNames ti = stack

theorem Reached.step {g : RecordTable} {ti ti' : ThreadInfo} {stack : List Nat} (hr : Reached ti stack)
    (h : Handler) (hrun : h.run g ti = .ok ti') : Reached ti' (pendingStep stack h) ∧ Grows ti ti' := by
  cases h with
  | call x reading =>
      obtain ⟨hT, hR, hgrow, h2, n, hn, hp, hx⟩ := callHandler_keeps hr.tree hr.record hrun
      refine ⟨⟨hT, hR, ?_⟩, hgrow⟩
      obtain ⟨q, hq⟩ := hr.tree.shape_current
      have hc := hr.tree.current
      have hlt := hT.current.2
      have hpl := (hT.parent _ n h2 hn).2
      rw [currentNames_child hT (by omega) hn, hx, hp, pendingStep, ← hr.names, currentNames,
        namesToRoot_grows hr.tree hgrow ti.nodeInfoArray.length _ _ q hq hc.1 (by omega) (by omega)]
  | ret reading =>
      by_cases hcur : ti.currentCallNodeID = 1
      · have he : ti' = ti := by
          rw [Handler.run, returnHandler, if_pos hcur] at hrun
          exact (Except.ok.inj hrun).symm
        subst he
        have hnil : stack = [] := by rw [← hr.names, currentNames, hcur, namesToRoot_root]
        exact ⟨⟨hr.tree, hr.record, by rw [hr.names, hnil]; rfl⟩, Grows.refl _⟩
      · obtain ⟨hT, hR, hs, n, hn, hc⟩ := returnHandler_keeps hr.tree hr.record hcur hrun
        have hgrow := Grows.of_eq hs
        refine ⟨⟨hT, hR, ?_⟩, hgrow⟩
        have hcc := hr.tree.current
        obtain ⟨hp, hlt, q, hq⟩ := hr.tree.parent_node (by omega) hn
        have hcl := hT.current.2
        rw [pendingStep, ← hr.names, currentNames_child hr.tree hcur hn, List.tail_cons, currentNames, hc,
          namesToRoot_grows hr.tree hgrow ti.nodeInfoArray.length _ _ q hq hp (by omega) (by omega)]

theorem Reached.run {g : RecordTable} {ti ti' : ThreadInfo} {stack : List Nat} (hr : Reached ti stack)
    (hs : List Handler) (hrun : runHandlers g ti hs = .ok ti') :
    Reached ti' (hs.foldl pendingStep stack) ∧ Grows ti ti' := by
  induction hs generalizing ti stack with
  | nil =>
      cases hrun
      exact ⟨hr, Grows.refl _⟩
  | cons h hs ih =>
      rw [runHandlers, List.foldlM_cons, bind_eq_ok] at hrun
      obtain ⟨t, ht, hrest⟩ := hrun
      obtain ⟨hr', hgrow⟩ := hr.step h ht
      obtain ⟨hr'', hgrow'⟩ := ih hr' hrest
      exact ⟨hr'', hgrow.trans hgrow'⟩

theorem newThread_reached (g : RecordTable) (threadID : Nat) : Reached (newThread g threadID) [] :=
  ⟨newThread_tree g threadID, newThread_record g threadID, namesToRoot_root _ _⟩

/-- The call tree is a faithful calling-context tree: in every state that a
fresh thread reaches, ids grow along the tree, the children maps list exactly
the nodes below, the path of the current node spells the pending calls, and the
current node determines and is determined by them over the whole run. -/
theorem callTree_contexts (g : RecordTable) (threadID : Nat) (hs : List Handler) (ti : ThreadInfo)
    (hrun : runHandlers g (newThread g threadID) hs = .ok ti) :
    (∀ (c : Nat) (n : MethodNodeInfo), 2 ≤ c → ti.nodeInfoArray[c]? = some n →
      1 ≤ n.parentNodeId ∧ n.parentNodeId < c) ∧
    (∀ (p : Nat) (n : MethodNodeInfo), 1 ≤ p → ti.nodeInfoArray[p]? = some n → ∀ x c : Nat,
      n.children[x]? = some c ↔ 2 ≤ c ∧ ∃ m : MethodNodeInfo, ti.nodeInfoArray[c]? = some m ∧
        m.parentNodeId = p ∧ m.nameid = x) ∧
    (∀ (c d : Nat) (m n : MethodNodeInfo), 2 ≤ c → 2 ≤ d → ti.nodeInfoArray[c]? = some m →
      ti.nodeInfoArray[d]? = some n → m.parentNodeId = n.parentNodeId → m.nameid = n.nameid → c = d) ∧
    currentNames ti = pending hs ∧
    ∀ (later : List Handler) (ti' : ThreadInfo), runHandlers g ti later = .ok ti' →
      (ti'.currentCallNodeID = ti.currentCallNodeID ↔ pending (hs ++ later) = pending hs) := by
  obtain ⟨hr, -⟩ := (newThread_reached g threadID).run hs hrun
  have hshape (k : Nat) (n : MethodNodeInfo) (hn : ti.nodeInfoArray[k]? = some n) :
      shapeAt ti k = some (shape n) := by rw [shapeAt, hn, Option.map_some]
  have hparent (c : Nat) (n : MethodNodeInfo) (hc : 2 ≤ c) (hn : ti.nodeInfoArray[c]? = some n) :
      1 ≤ n.parentNodeId ∧ n.parentNodeId < c := hr.tree.parent c _ hc (hshape c n hn)
  have hchildren (p : Nat) (n : MethodNodeInfo) (hp : 1 ≤ p)
    (hn : ti.nodeInfoArray[p]? = some n) (x c : Nat) :
      n.children[x]? = some c ↔ 2 ≤ c ∧ ∃ m : MethodNodeInfo, ti.nodeInfoArray[c]? = some m ∧
        m.parentNodeId = p ∧ m.nameid = x := by
    refine (hr.tree.children p _ hp (hshape p n hn) x c).trans (and_congr_right fun _ => ?_)
    constructor
    · rintro ⟨s, hs, h1, h2⟩
      obtain ⟨m, hm, rfl⟩ := shapeAt_eq_some.mp hs
      exact ⟨m, hm, h1, h2⟩
    · rintro ⟨m, hm, h1, h2⟩
      exact ⟨_, hshape c m hm, h1, h2⟩
  refine ⟨hparent, hchildren, ?_, hr.names, ?_⟩
  · intro c d m n hc hd hm hn hp hx
    obtain ⟨hp1, hlt⟩ := hparent c m hc hm
    have hcl := (List.getElem?_eq_some_iff.mp hm).1
    obtain ⟨q, hq⟩ : ∃ q, ti.nodeInfoArray[m.parentNodeId]? = some q :=
      ⟨_, List.getElem?_eq_getElem (by omega)⟩
    have h1 := (hchildren _ q hp1 hq m.nameid c).mpr ⟨hc, m, hm, rfl, rfl⟩
    have h2 := (hchildren _ q hp1 hq m.nameid d).mpr ⟨hd, n, hn, hp.symm, hx.symm⟩
    exact Option.some.inj (h1.symm.trans h2)
  · intro later ti' hlater
    obtain ⟨hr', hgrow⟩ := hr.run later hlater
    obtain ⟨n, hn⟩ := hr.tree.shape_current
    obtain ⟨n', hn'⟩ := hr'.tree.shape_current
    obtain ⟨m, hm, -, -⟩ := hgrow _ n hn
    have hc := hr.tree.current
    have hc' := hr'.tree.current
    have hpast : namesToRoot ti' ti'.nodeInfoArray.length ti.currentCallNodeID = pending hs := by
      rw [pending, ← hr.names]
      exact namesToRoot_grows hr.tree hgrow _ _ _ n hn hc.1 hc.2.le (shapeAt_lt hm).le
    have hnow : namesToRoot ti' ti'.nodeInfoArray.length ti'.currentCallNodeID = pending (hs ++ later) := by
      rw [pending, List.foldl_append]
      exact hr'.names
    rw [← hpast, ← hnow]
    constructor
    · intro he
      rw [he]
    · intro he
      exact namesToRoot_injective hr'.tree _ _ _ n' m hn' hm hc'.1 hc.1 hc'.2.le (shapeAt_lt hm).le he

/-- A recursive call, a return and a call of another function from the outer one. -/
theorem callTree_contexts_recursion :
    ∃ ti, runHandlers oneCounter (newThread oneCounter 0)
        [.call 5 (fun _ => 10), .call 5 (fun _ => 20), .ret (fun _ => 35), .call 7 (fun _ => 40)] = .ok ti ∧
      currentNames ti = [7, 5] ∧
      ∀ (later : List Handler) (ti' : ThreadInfo), runHandlers oneCounter ti later = .ok ti' →
        (ti'.currentCallNodeID = ti.currentCallNodeID ↔
          pending ([.call 5 (fun _ => 10), .call 5 (fun _ => 20), .ret (fun _ => 35), .call 7 (fun _ => 40)] ++ later) =
            [7, 5]) :=
  ⟨_, rfl, (callTree_contexts oneCounter 0
      [.call 5 (fun _ => 10), .call 5 (fun _ => 20), .ret (fun _ => 35),
        .call 7 (fun _ => 40)] _ rfl).2.2.2.1,
    (callTree_contexts oneCounter 0
      [.call 5 (fun _ => 10), .call 5 (fun _ => 20), .ret (fun _ => 35),
        .call 7 (fun _ => 40)] _ rfl).2.2.2.2⟩

end Llprof.Profiler.Context
