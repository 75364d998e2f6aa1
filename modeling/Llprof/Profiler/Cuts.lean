import Llprof.Profiler.Context
import Llprof.Profiler.Drains

namespace Llprof.Profiler.Cuts

open Faulting Records CallTree HandlerCases TreeInvariant Drains
open Context (Reached pending pendingStep currentNames namesToRoot)

def Event.handler? : Event → Option Handler
  | .handler h => some h
  | .drain _ => none

def handlersOf (es : List Event) : List Handler := es.filterMap Event.handler?

/-- From the cut on every record comes after one of its parent: the thread is at
its root, it does nothing more, or it is one call deep and returns from it first. -/
def Attachable (before after : List Event) : Prop :=
  pending (handlersOf before) = [] ∨ handlersOf after = [] ∨
    (∃ x, pending (handlersOf before) = [x]) ∧ ∃ reading rest, handlersOf after = .ret reading :: rest

variable {g : RecordTable} {ti ti' : ThreadInfo} {st st' : Session}
  {before after : List Event} {stack : List Nat}

theorem handlersOf_append (xs ys : List Event) : handlersOf (xs ++ ys) = handlersOf xs ++ handlersOf ys :=
  List.filterMap_append

theorem runEvents_cons {e : Event} {es : List Event} :
    runEvents g st (e :: es) = .ok st' ↔ ∃ t, Event.run g st e = .ok t ∧ runEvents g t es = .ok st' := by
  rw [runEvents, List.foldlM_cons, bind_eq_ok]
  rfl

theorem run_handler {h : Handler} :
    Event.run g st (.handler h) = .ok st' ↔ ∃ ti', h.run g st.thread = .ok ti' ∧
      st' = { st with thread := ti' } := by
  simp only [Event.run, bind_eq_ok, pure_eq_ok, Except.ok.injEq]
  exact exists_congr fun _ => and_congr_right fun _ => eq_comm

theorem run_drain {reading : Reading} :
    Event.run g st (.drain reading) = .ok st' ↔ ∃ ti' d, CallTree.drain g reading st.thread = .ok (ti', d) ∧
      st' = ⟨ti', st.drained ++ [d]⟩ := by
  simp only [Event.run, bind_eq_ok, pure_eq_ok, Except.ok.injEq, Prod.exists]
  exact exists_congr fun _ => exists_congr fun _ => and_congr_right fun _ => eq_comm

theorem runEvents_drained {es : List Event} {old : List Drained} (h : runEvents g ⟨ti, old⟩ es = .ok st) :
    ∃ new, st.drained = old ++ new ∧ new.length = drainCount es ∧
      ∀ old', runEvents g ⟨ti, old'⟩ es = .ok ⟨st.thread, old' ++ new⟩ := by
  induction es generalizing ti old with
  | nil =>
      cases h
      refine ⟨[], (List.append_nil old).symm, rfl, fun old' => ?_⟩
      rw [List.append_nil]
      rfl
  | cons e es ih =>
      obtain ⟨t, he, hrest⟩ := runEvents_cons.mp h
      cases e with
      | handler hd =>
          obtain ⟨ti₁, hrun, rfl⟩ := run_handler.mp he
          obtain ⟨new, hnew, hlen, hall⟩ := ih hrest
          refine ⟨new, hnew, hlen, fun old' => ?_⟩
          exact runEvents_cons.mpr ⟨_, run_handler.mpr ⟨ti₁, hrun, rfl⟩, hall old'⟩
      | drain reading =>
          obtain ⟨ti₁, d, hrun, rfl⟩ := run_drain.mp he
          obtain ⟨new, hnew, hlen, hall⟩ := ih hrest
          refine ⟨d :: new, ?_, ?_, fun old' => ?_⟩
          · rw [hnew, List.append_assoc, List.singleton_append]
          · rw [List.length_cons, hlen, ← List.singleton_append, drainCount_append, Nat.add_comm]
            rfl
          · refine runEvents_cons.mpr ⟨_, run_drain.mpr ⟨ti₁, d, hrun, rfl⟩, ?_⟩
            rw [hall (old' ++ [d]), List.append_assoc, List.singleton_append]

theorem runEvents_append {xs ys : List Event} :
    runEvents g st (xs ++ ys) = .ok st' ↔ ∃ t, runEvents g st xs = .ok t ∧ runEvents g t ys = .ok st' :=
  foldlM_append_ok (f := Event.run g)

theorem Reached.drain (hr : Reached ti stack) (hgen : ti.generationNumber + 1 < 2 ^ 32) {reading : Reading}
    {d : Drained} (hrun : CallTree.drain g reading ti = .ok (ti', d)) : Reached ti' stack := by
  obtain ⟨hT, hR, hs, hc, -⟩ := drain_keeps hr.tree hr.record hgen hrun
  refine ⟨hT, hR, ?_⟩
  obtain ⟨q, hq⟩ := hr.tree.shape_current
  have hcur := hr.tree.current
  have hcur' := hT.current
  rw [← hr.names, currentNames, currentNames, hc]
  exact Context.namesToRoot_grows hr.tree (Grows.of_eq hs) _ _ _ q hq hcur.1 hcur.2.le (by omega)

theorem handler_generation {h : Handler} (hr : Reached ti stack) (hrun : h.run g ti = .ok ti') :
    ti'.generationNumber = ti.generationNumber := by
  cases h with
  | call x reading =>
      obtain ⟨-, -, -, -, -, hres, -⟩ := callHandler_wrote hr.tree hr.record hrun
      exact hres.generation
  | ret reading =>
      by_cases hcur : ti.currentCallNodeID = 1
      · rw [Handler.run, returnHandler, if_pos hcur, Except.ok.injEq] at hrun
        rw [hrun]
      · obtain ⟨-, -, -, -, hres, -⟩ := returnHandler_wrote hr.tree hr.record hcur hrun
        exact hres.generation

theorem runEvents_reached {es : List Event} (hr : Reached st.thread stack)
    (hgen : st.thread.generationNumber + drainCount es < 2 ^ 32) (hrun : runEvents g st es = .ok st') :
    Reached st'.thread ((handlersOf es).foldl pendingStep stack) ∧
      st'.thread.generationNumber = st.thread.generationNumber + drainCount es := by
  induction es generalizing st stack with
  | nil =>
      cases hrun
      exact ⟨hr, rfl⟩
  | cons e es ih =>
      obtain ⟨t, he, hrest⟩ := runEvents_cons.mp hrun
      rw [← List.singleton_append, drainCount_append] at hgen ⊢
      cases e with
      | handler h =>
          obtain ⟨ti₁, hrun₁, rfl⟩ := run_handler.mp he
          have hgen₁ := handler_generation hr hrun₁
          have hzero : drainCount [.handler h] = 0 := rfl
          obtain ⟨hr', hgen'⟩ := ih (hr.step h hrun₁).1 (by dsimp only; omega) hrest
          refine ⟨hr', ?_⟩
          rw [hgen', hgen₁, hzero, Nat.zero_add]
      | drain reading =>
          obtain ⟨ti₁, d, hrun₁, rfl⟩ := run_drain.mp he
          have hone : drainCount [.drain reading] = 1 := rfl
          obtain ⟨-, -, -, -, hgen₁, -⟩ := drain_keeps hr.tree hr.record (by omega) hrun₁
          obtain ⟨hr', hgen'⟩ := ih (Reached.drain hr (by omega) hrun₁) (by dsimp only; omega) hrest
          refine ⟨hr', ?_⟩
          rw [hgen', hgen₁, hone, Nat.add_assoc]

theorem Reached.at_root (hr : Reached ti stack) : stack = [] ↔ ti.currentCallNodeID = 1 := by
  rw [← hr.names]
  by_cases h1 : ti.currentCallNodeID = 1
  · rw [currentNames, h1, Context.namesToRoot_root]
    simp
  · obtain ⟨n, hn⟩ := hr.tree.shape_current
    rw [Context.currentNames_child hr.tree h1 hn]
    simp [h1]

theorem Reached.below_root (hr : Reached ti stack) (h1 : ti.currentCallNodeID ≠ 1) {n : Shape}
    (hn : shapeAt ti ti.currentCallNodeID = some n) : (∃ x, stack = [x]) ↔ n.parentNodeId = 1 := by
  rw [← hr.names, Context.currentNames_child hr.tree h1 hn]
  have hcur := hr.tree.current
  have hlen : ti.nodeInfoArray.length = ti.nodeInfoArray.length - 1 + 1 := by omega
  by_cases hp : n.parentNodeId = 1
  · rw [hp, Context.namesToRoot_root]
    simp
  · obtain ⟨hp1, hlt, q, hq⟩ := hr.tree.parent_node (by omega) hn
    rw [hlen, Context.namesToRoot_child hp hq]
    simp [hp]

section Attach

theorem cut_logged (hT : TreeInv ti) (hR : RecordInv ti) (hlive : ti.serializedNodeInfoArray = []) :
    Logged ⟨ti, []⟩ := by
  have hlog : (⟨ti, []⟩ : Session).log = [] := by rw [Session.log, hlive]; rfl
  refine ⟨hT, hR, ?_, ?_, ?_⟩
  · rw [hlog]
    intro r hr
    cases hr
  · rw [hlog]
    intro j r hr
    cases hr
  · intro d hd
    cases hd

def Ready (st : Session) (es : List Event) : Prop :=
  st.Covered ∨ handlersOf es = [] ∨
    (st.thread.currentCallNodeID ≠ 1 ∧
      ∀ n, shapeAt st.thread st.thread.currentCallNodeID = some n → n.parentNodeId = 1) ∧
      ∃ reading rest, handlersOf es = .ret reading :: rest

theorem Logged.run {es : List Event} (hl : Logged st) (hready : Ready st es)
    (hgen : st.thread.generationNumber + drainCount es < 2 ^ 32)
    (hrun : runEvents g st es = .ok st') : Logged st' := by
  induction es generalizing st with
  | nil =>
      cases hrun
      exact hl
  | cons e es ih =>
      obtain ⟨t, he, hrest⟩ := runEvents_cons.mp hrun
      rw [← List.singleton_append, drainCount_append] at hgen
      cases e with
      | handler h =>
          have hzero : drainCount [.handler h] = 0 := rfl
          obtain ⟨ti₁, hrun₁, rfl⟩ := run_handler.mp he
          suffices hnext : Logged { st with thread := ti₁ } ∧ ({ st with thread := ti₁ } : Session).Covered ∧
              ti₁.generationNumber = st.thread.generationNumber by
            exact ih hnext.1 (Or.inl hnext.2.1) (by dsimp only; omega) hrest
          cases h with
          | call x reading =>
              obtain hcov | hnil | ⟨-, _, _, hcons⟩ := hready
              · obtain ⟨hl', hcov'⟩ := hl.call hcov hrun₁
                obtain ⟨-, -, -, -, -, hres, -⟩ := callHandler_wrote hl.tree hl.record hrun₁
                exact ⟨hl', hcov', hres.generation⟩
              · cases hnil
              · cases hcons
          | ret reading =>
              by_cases hcur : st.thread.currentCallNodeID = 1
              · have hsame : ti₁ = st.thread := by
                  rw [Handler.run, returnHandler, if_pos hcur, Except.ok.injEq] at hrun₁
                  exact hrun₁.symm
                subst hsame
                exact ⟨hl, Or.inl hcur, rfl⟩
              · have hcov (n : Shape) (hn : shapeAt st.thread st.thread.currentCallNodeID = some n) :
                    Recorded st.log n.parentNodeId := by
                  obtain hcov | hnil | ⟨⟨-, hone⟩, -⟩ := hready
                  · exact hl.parent_recorded hcov hcur hn
                  · cases hnil
                  · exact Or.inl (hone n hn)
                obtain ⟨hl', hcov'⟩ := hl.ret hcur hcov hrun₁
                obtain ⟨-, -, -, -, hres, -⟩ := returnHandler_wrote hl.tree hl.record hcur hrun₁
                exact ⟨hl', hcov', hres.generation⟩
      | drain reading =>
          have hone : drainCount [.drain reading] = 1 := rfl
          obtain ⟨ti₁, d, hrun₁, rfl⟩ := run_drain.mp he
          obtain ⟨hl', hlog, -⟩ := hl.drain (by omega) hrun₁
          obtain ⟨-, -, hs, hc, hgen₁, -⟩ := drain_keeps hl.tree hl.record (by omega) hrun₁
          refine ih hl' ?_ (by dsimp only; omega) hrest
          rw [Ready, Session.Covered, hlog]
          dsimp only
          rw [hc, hs]
          exact hready

theorem attachable_ready (hr : Reached ti (pending (handlersOf before))) (h : Attachable before after) :
    Ready ⟨ti, []⟩ after := by
  obtain hnil | hnone | ⟨hone, hret⟩ := h
  · exact Or.inl (Or.inl ((Reached.at_root hr).mp hnil))
  · exact Or.inr (Or.inl hnone)
  · have h1 : ti.currentCallNodeID ≠ 1 := by
      intro h1
      obtain ⟨x, hx⟩ := hone
      rw [(Reached.at_root hr).mpr h1] at hx
      cases hx
    exact Or.inr (Or.inr ⟨⟨h1, fun n hn => (Reached.below_root hr h1 hn).mp hone⟩, hret⟩)

end Attach

section Orphan

def FullNow (g : RecordTable) (nowInfo : NowBuffer) : Prop := nowInfo.values.length = g.activeRecords.length

theorem drain_now (h : FullNow g ti.nowInfo) {reading : Reading} {d : Drained}
    (hrun : CallTree.drain g reading ti = .ok (ti', d)) :
    FullNow g ti'.nowInfo ∧ FullNow g d.nowInfo ∧ d.nowInfo.node = ti.currentCallNodeID := by
  simp only [CallTree.drain, getSerializedBuffer, getNowInfo, bind_eq_ok, pure_eq_ok,
    Except.ok.injEq, Prod.mk.injEq] at hrun
  obtain ⟨⟨ti₁, now⟩, ⟨values, hvalues, he⟩, rfl, rfl⟩ := hrun
  rw [Prod.mk.injEq] at he
  obtain ⟨rfl, rfl⟩ := he
  have hl := (length_rtypeStartNode hvalues).trans h
  exact ⟨hl, hl, rfl⟩

theorem handler_now {h : Handler} (hT : TreeInv ti) (hR : RecordInv ti) (hrun : h.run g ti = .ok ti') :
    ti'.nowInfo = ti.nowInfo := by
  cases h with
  | call x reading =>
      obtain ⟨-, -, -, -, -, hres, -⟩ := callHandler_wrote hT hR hrun
      exact hres.nowInfo
  | ret reading =>
      by_cases hcur : ti.currentCallNodeID = 1
      · rw [Handler.run, returnHandler, if_pos hcur, Except.ok.injEq] at hrun
        rw [hrun]
      · obtain ⟨-, -, -, -, hres, -⟩ := returnHandler_wrote hT hR hcur hrun
        exact hres.nowInfo

structure Orphan (r : MethodNodeSerializedInfo) : Prop where
  node : 2 ≤ r.callNodeId
  below : r.parentNodeId < r.callNodeId
  deep : r.parentNodeId ≠ 1

def Quiet (d : Drained) : Prop := d.records = [] ∧ d.nowInfo.node ≠ 1

structure Waiting (st : Session) : Prop where
  quiet : ∀ d ∈ st.drained, Quiet d
  live : st.thread.serializedNodeInfoArray = []
  deep : st.thread.currentCallNodeID ≠ 1

def Orphaned (st : Session) : Prop :=
  ∃ (quiet : List Drained) (r : MethodNodeSerializedInfo) (rest : List MethodNodeSerializedInfo),
    (∀ d ∈ quiet, Quiet d) ∧ Orphan r ∧
      (st.drained = quiet ∧ st.thread.serializedNodeInfoArray = r :: rest ∨
        ∃ d more, st.drained = quiet ++ d :: more ∧ d.records = r :: rest)

theorem Written.first {r r' : MethodNodeSerializedInfo} {live' : List MethodNodeSerializedInfo}
    (h : Written g [] r r' live') : live' = [r'] := by
  obtain ⟨live₁, idx, rfl | ⟨rfl, -⟩, hr, rfl⟩ := h
  · rw [List.getElem?_nil] at hr
    cases hr
  · have hidx : idx = 0 := by
      have := (List.getElem?_eq_some_iff.mp hr).1
      rw [List.nil_append, List.length_singleton] at this
      omega
    rw [hidx]
    rfl

theorem Written.head {q r r' : MethodNodeSerializedInfo} {rest live' : List MethodNodeSerializedInfo}
    (h : Written g (q :: rest) r r' live') (hid : r'.callNodeId = r.callNodeId)
    (hpar : r'.parentNodeId = r.parentNodeId) :
    ∃ q' rest', live' = q' :: rest' ∧ q'.callNodeId = q.callNodeId ∧ q'.parentNodeId = q.parentNodeId := by
  have hhead : (live'.map (fun r => (r.callNodeId, r.parentNodeId))).head? =
      some (q.callNodeId, q.parentNodeId) := by
    rcases h.ids (fun r => (r.callNodeId, r.parentNodeId)) (by rw [hid, hpar]) with ⟨hmap, -⟩ | hmap
    · rw [hmap]
      rfl
    · rw [hmap]
      rfl
  cases live' with
  | nil => cases hhead
  | cons q' rest' =>
      rw [List.map_cons, List.head?_cons, Option.some.injEq, Prod.mk.injEq] at hhead
      exact ⟨q', rest', rfl, hhead⟩

theorem Waiting.orphaned (hT : TreeInv ti') (hw : Waiting st) {c : Nat} {n : Shape}
    {r r' : MethodNodeSerializedInfo} (hwrote : Wrote g st.thread ti' c n r r') (hc : 2 ≤ c)
    (hn : n.parentNodeId ≠ 1) : Orphaned { st with thread := ti' } := by
  have hwritten := hwrote.written
  rw [hw.live] at hwritten
  refine ⟨st.drained, r', [], hw.quiet, ⟨?_, ?_, ?_⟩, Or.inl ⟨rfl, Written.first hwritten⟩⟩
  · rw [hwrote.ids.1, hwrote.id]
    exact hc
  · rw [hwrote.ids.1, hwrote.ids.2.1, hwrote.id, hwrote.parent]
    exact (hT.parent c n hc hwrote.shape).2
  · rw [hwrote.ids.2.1, hwrote.parent]
    exact hn

theorem Orphaned.wrote (ho : Orphaned st) {c : Nat} {n : Shape} {r r' : MethodNodeSerializedInfo}
    (hwrote : Wrote g st.thread ti' c n r r') : Orphaned { st with thread := ti' } := by
  obtain ⟨quiet, q, rest, hquiet, hq, ⟨hd, hlive⟩ | hd⟩ := ho
  · have hwritten := hwrote.written
    rw [hlive] at hwritten
    obtain ⟨q', rest', hlive', hid, hpar⟩ := Written.head hwritten hwrote.ids.1 hwrote.ids.2.1
    exact ⟨quiet, q', rest', hquiet, ⟨hid ▸ hq.node, by rw [hid, hpar]; exact hq.below, hpar ▸ hq.deep⟩,
      Or.inl ⟨hd, hlive'⟩⟩
  · exact ⟨quiet, q, rest, hquiet, hq, Or.inr hd⟩

theorem Orphaned.handler (hT : TreeInv st.thread) (hR : RecordInv st.thread) (ho : Orphaned st) {h : Handler}
    (hrun : h.run g st.thread = .ok ti') : Orphaned { st with thread := ti' } := by
  cases h with
  | call x reading =>
      obtain ⟨n, r, r', hwrote, -⟩ := callHandler_wrote hT hR hrun
      exact ho.wrote hwrote
  | ret reading =>
      by_cases hcur : st.thread.currentCallNodeID = 1
      · rw [Handler.run, returnHandler, if_pos hcur, Except.ok.injEq] at hrun
        rw [← hrun]
        exact ho
      · obtain ⟨n, r, r', hwrote, -⟩ := returnHandler_wrote hT hR hcur hrun
        exact ho.wrote hwrote

theorem Orphaned.drain (ho : Orphaned st) {d : Drained} (hd : d.records = st.thread.serializedNodeInfoArray) :
    ∃ quiet e more r rest, (∀ d ∈ quiet, Quiet d) ∧ st.drained ++ [d] = quiet ++ e :: more ∧
      e.records = r :: rest ∧ Orphan r := by
  obtain ⟨quiet, r, rest, hquiet, hr, ⟨hq, hlive⟩ | ⟨e, more, hq, he⟩⟩ := ho
  · exact ⟨quiet, d, [], r, rest, hquiet, by rw [hq], hd.trans hlive, hr⟩
  · exact ⟨quiet, e, more ++ [d], r, rest, hquiet, by rw [hq, List.append_assoc, List.cons_append], he, hr⟩

structure Kept (g : RecordTable) (st : Session) : Prop where
  tree : TreeInv st.thread
  record : RecordInv st.thread
  now : FullNow g st.thread.nowInfo
  full : ∀ d ∈ st.drained, FullNow g d.nowInfo

theorem Kept.handler (h : Kept g st) {hd : Handler} (hrun : hd.run g st.thread = .ok ti') :
    Kept g { st with thread := ti' } ∧ ti'.generationNumber = st.thread.generationNumber := by
  have hnow : FullNow g ti'.nowInfo := handler_now h.tree h.record hrun ▸ h.now
  cases hd with
  | call x reading =>
      obtain ⟨hT, hR, -⟩ := callHandler_keeps h.tree h.record hrun
      obtain ⟨-, -, -, -, -, hres, -⟩ := callHandler_wrote h.tree h.record hrun
      exact ⟨⟨hT, hR, hnow, h.full⟩, hres.generation⟩
  | ret reading =>
      by_cases hcur : st.thread.currentCallNodeID = 1
      · rw [Handler.run, returnHandler, if_pos hcur, Except.ok.injEq] at hrun
        subst hrun
        exact ⟨h, rfl⟩
      · obtain ⟨hT, hR, -⟩ := returnHandler_keeps h.tree h.record hcur hrun
        obtain ⟨-, -, -, -, hres, -⟩ := returnHandler_wrote h.tree h.record hcur hrun
        exact ⟨⟨hT, hR, hnow, h.full⟩, hres.generation⟩

theorem Kept.drain (h : Kept g st) (hgen : st.thread.generationNumber + 1 < 2 ^ 32)
    {reading : Reading} {d : Drained} (hrun : CallTree.drain g reading st.thread = .ok (ti', d)) :
    Kept g ⟨ti', st.drained ++ [d]⟩ := by
  obtain ⟨hT, hR, -⟩ := drain_keeps h.tree h.record hgen hrun
  obtain ⟨hnow, hd, -⟩ := drain_now h.now hrun
  refine ⟨hT, hR, hnow, fun e he => ?_⟩
  rcases List.mem_append.mp he with he | he
  · exact h.full e he
  · rw [List.mem_singleton.mp he]
    exact hd

theorem newNowInfo_full (g : RecordTable) (threadID : Nat) : FullNow g (newNowInfo g threadID) := by
  rw [FullNow, newNowInfo, List.length_map, List.length_range]

theorem newSession_kept (g : RecordTable) (threadID : Nat) : Kept g (newSession g threadID) := by
  refine ⟨newThread_tree g threadID, newThread_record g threadID, newNowInfo_full g threadID, ?_⟩
  intro d hd
  cases hd

def Stranded (st : Session) (es : List Event) : Prop :=
  ∀ reading rest, handlersOf es = .ret reading :: rest →
    ∀ n, shapeAt st.thread st.thread.currentCallNodeID = some n → n.parentNodeId ≠ 1

theorem Waiting.handler (hk : Kept g st) (hw : Waiting st) {h : Handler} {es : List Event}
    (hs : Stranded st (.handler h :: es)) (hrun : h.run g st.thread = .ok ti') :
    Orphaned { st with thread := ti' } := by
  cases h with
  | call x reading =>
      obtain ⟨hT, -, -, h2, m, hm, hmp, -⟩ := callHandler_keeps hk.tree hk.record hrun
      obtain ⟨n, r, r', hwrote, -⟩ := callHandler_wrote hk.tree hk.record hrun
      have hn := hwrote.shape
      rw [hm, Option.some.injEq] at hn
      subst hn
      exact hw.orphaned hT hwrote h2 (by rw [hmp]; exact hw.deep)
  | ret reading =>
      obtain ⟨hT, -, hshape, m, hm, -⟩ := returnHandler_keeps hk.tree hk.record hw.deep hrun
      obtain ⟨n, r, r', hwrote, -⟩ := returnHandler_wrote hk.tree hk.record hw.deep hrun
      have hn := hwrote.shape
      rw [hshape, hm, Option.some.injEq] at hn
      subst hn
      have hcur := hk.tree.current.1
      have hdeep := hw.deep
      exact hw.orphaned hT hwrote (by omega) (hs reading _ rfl m hm)

theorem Waiting.drain (hk : Kept g st) (hw : Waiting st) (hgen : st.thread.generationNumber + 1 < 2 ^ 32)
    {reading : Reading} {d : Drained} (hrun : CallTree.drain g reading st.thread = .ok (ti', d)) :
    Waiting ⟨ti', st.drained ++ [d]⟩ := by
  obtain ⟨-, -, -, hc, -, hd⟩ := drain_keeps hk.tree hk.record hgen hrun
  obtain ⟨-, -, hrunning⟩ := drain_now hk.now hrun
  refine ⟨fun e he => ?_, drain_live hrun, by rw [hc]; exact hw.deep⟩
  rcases List.mem_append.mp he with he | he
  · exact hw.quiet e he
  · rw [List.mem_singleton.mp he]
    refine ⟨hd.trans hw.live, ?_⟩
    rw [hrunning]
    exact hw.deep

theorem runEvents_kept {es : List Event} (hk : Kept g st)
    (hgen : st.thread.generationNumber + drainCount es < 2 ^ 32)
    (hrun : runEvents g st es = .ok st') : Kept g st' ∧ (Orphaned st → Orphaned st') := by
  induction es generalizing st with
  | nil =>
      cases hrun
      exact ⟨hk, id⟩
  | cons e es ih =>
      obtain ⟨t, he, hrest⟩ := runEvents_cons.mp hrun
      rw [← List.singleton_append, drainCount_append] at hgen
      cases e with
      | handler h =>
          obtain ⟨ti₁, hrun₁, rfl⟩ := run_handler.mp he
          obtain ⟨hk₁, hgen₁⟩ := hk.handler hrun₁
          obtain ⟨hk', ho'⟩ := ih hk₁ (by dsimp only; omega) hrest
          exact ⟨hk', fun ho => ho' (ho.handler hk.tree hk.record hrun₁)⟩
      | drain reading =>
          have hone : drainCount [.drain reading] = 1 := rfl
          obtain ⟨ti₁, d, hrun₁, rfl⟩ := run_drain.mp he
          obtain ⟨-, -, -, -, hgen₁, hd⟩ := drain_keeps hk.tree hk.record (by omega) hrun₁
          obtain ⟨hk', ho'⟩ := ih (hk.drain (by omega) hrun₁) (by dsimp only; omega) hrest
          refine ⟨hk', fun ho => ho' ?_⟩
          obtain ⟨quiet, q, more, r, rest, hquiet, hsplit, hq, hr⟩ := ho.drain hd
          exact ⟨quiet, r, rest, hquiet, hr, Or.inr ⟨q, more, hsplit, hq⟩⟩

/-- A session that begins with a pending call: its first handler leaves an orphan,
unless it is a return to the root. -/
theorem Waiting.run {es : List Event} (hk : Kept g st) (hw : Waiting st) (hs : Stranded st es)
    (hne : handlersOf es ≠ []) (hgen : st.thread.generationNumber + drainCount es < 2 ^ 32)
    (hrun : runEvents g st es = .ok st') : Orphaned st' := by
  induction es generalizing st with
  | nil => exact absurd rfl hne
  | cons e es ih =>
      obtain ⟨t, he, hrest⟩ := runEvents_cons.mp hrun
      rw [← List.singleton_append, drainCount_append] at hgen
      cases e with
      | handler h =>
          obtain ⟨ti₁, hrun₁, rfl⟩ := run_handler.mp he
          obtain ⟨hk₁, hgen₁⟩ := hk.handler hrun₁
          exact (runEvents_kept hk₁ (by dsimp only; omega) hrest).2 (hw.handler hk hs hrun₁)
      | drain reading =>
          have hone : drainCount [.drain reading] = 1 := rfl
          obtain ⟨ti₁, d, hrun₁, rfl⟩ := run_drain.mp he
          obtain ⟨-, -, hs₁, hc, hgen₁, -⟩ := drain_keeps hk.tree hk.record (by omega) hrun₁
          refine ih (hk.drain (by omega) hrun₁) (hw.drain hk (by omega) hrun₁) ?_ hne
            (by dsimp only; omega) hrest
          intro reading' rest' he' n hn
          rw [hs₁, hc] at hn
          exact hs reading' rest' he' n hn

/-- A cut that is not attachable leaves a pending call, and the first handler
after it is no return to the root. -/
theorem not_attachable (hr : Reached ti (pending (handlersOf before)))
    (hlive : ti.serializedNodeInfoArray = []) (h : ¬ Attachable before after) : Waiting ⟨ti, []⟩ ∧
    Stranded ⟨ti, []⟩ after ∧ handlersOf after ≠ [] := by
  have h1 : ti.currentCallNodeID ≠ 1 := fun h1 => h (Or.inl ((Reached.at_root hr).mpr h1))
  refine ⟨⟨fun d hd => absurd hd List.not_mem_nil, hlive, h1⟩, ?_, fun hnil => h (Or.inr (Or.inl hnil))⟩
  intro reading rest hret n hn hp
  exact h (Or.inr (Or.inr ⟨(Reached.below_root hr h1 hn).mpr hp, reading, rest, hret⟩))

end Orphan

end Llprof.Profiler.Cuts
