import Llprof.Profiler.Threads

namespace Llprof.Profiler.TwoPhaseDrains

open Faulting Records CallTree HandlerCases Drains Threads

variable {g : RecordTable} {ti ti' : ThreadInfo} (id : Nat) (now : NowBuffer)

def tag (id : Nat) (now : NowBuffer) (ti : ThreadInfo) :
    ThreadInfo := { ti with threadID := id, nowInfo := now }

theorem linkChild_tag (ti : ThreadInfo) (p x c : Nat) :
    (tag id now ti).linkChild p x c = (ti.linkChild p x c).map (tag id now) := by
  simp only [ThreadInfo.linkChild, tag]
  cases fetch ti.nodeInfoArray p with
  | error e => rfl
  | ok n =>
      rw [ok_bind, ok_bind]
      cases store ti.nodeInfoArray p { n with children := n.children.insertIfNew x c } <;> rfl

theorem addCallNode_tag (ti : ThreadInfo) (p x : Nat) :
    addCallNode g (tag id now ti) p x = (addCallNode g ti p x).map
      (Prod.map (tag id now) (fun id => id)) := by
  have hlink := linkChild_tag id now (ti.pushNode g p x) p x ((ti.pushNode g p x).nodeInfoArray.length - 1)
  have hpush : (tag id now ti).pushNode g p x = tag id now (ti.pushNode g p x) := rfl
  by_cases hp : p = 0
  · simp only [addCallNode, hp, ne_eq, not_true_eq_false, if_false, pure_eq_ok, ok_bind]
    rfl
  · simp only [addCallNode, hpush, hp, ne_eq, not_false_eq_true, if_true]
    refine (congrArg (fun run => run >>= _) hlink).trans ?_
    cases (ti.pushNode g p x).linkChild p x ((ti.pushNode g p x).nodeInfoArray.length - 1) <;> rfl

theorem getChildNodeID_tag (ti : ThreadInfo) (x : Nat) :
    getChildNodeID g (tag id now ti) x = (getChildNodeID g ti x).map
      (Prod.map (tag id now) (fun id => id)) := by
  have hadd := addCallNode_tag (g := g) id now ti ti.currentCallNodeID x
  rw [getChildNodeID, getChildNodeID]
  change (fetch ti.nodeInfoArray ti.currentCallNodeID >>= _) = _
  cases fetch ti.nodeInfoArray ti.currentCallNodeID with
  | error e => rfl
  | ok n =>
      rw [ok_bind, ok_bind]
      cases n.children[x]? with
      | some c => rfl
      | none => exact hadd

theorem enterChild_tag (ti : ThreadInfo) (x : Nat) :
    enterChild g (tag id now ti) x = (enterChild g ti x).map (tag id now) := by
  have hchild := getChildNodeID_tag (g := g) id now { ti with stop := true } x
  rw [enterChild, enterChild]
  change (require (ti.stop = false) .assertion >>= _) = _
  cases require (ti.stop = false) .assertion with
  | error e => rfl
  | ok u =>
      rw [ok_bind, ok_bind]
      refine (congrArg (fun run => run >>= _) hchild).trans ?_
      cases getChildNodeID g { ti with stop := true } x <;> rfl

theorem getCurrentNodeInfoPair_tag (ti : ThreadInfo) :
    getCurrentNodeInfoPair g (tag id now ti) =
      (getCurrentNodeInfoPair g ti).map (Prod.map (tag id now) (fun id => id)) := by
  have hadd : addActualRecord g (tag id now ti) ti.currentCallNodeID =
      (addActualRecord g ti ti.currentCallNodeID).map (tag id now) := by
    rw [addActualRecord, addActualRecord]
    change (fetch ti.nodeInfoArray ti.currentCallNodeID >>= _) = _
    cases fetch ti.nodeInfoArray ti.currentCallNodeID with
    | error e => rfl
    | ok n =>
        rw [ok_bind, ok_bind]
        dsimp only [tag]
        cases store ti.nodeInfoArray ti.currentCallNodeID _ <;> rfl
  have hread (u : ThreadInfo) : (do
      let ninfo ← fetch (tag id now u).nodeInfoArray (tag id now u).currentCallNodeID
      return (tag id now u, ninfo.serializedNodeIndex)) =
        Except.map (Prod.map (tag id now) (fun id => id)) (do
      let ninfo ← fetch u.nodeInfoArray u.currentCallNodeID
      return (u, ninfo.serializedNodeIndex)) := by
    change (fetch u.nodeInfoArray u.currentCallNodeID >>= _) = _
    cases fetch u.nodeInfoArray u.currentCallNodeID <;> rfl
  rw [getCurrentNodeInfoPair, getCurrentNodeInfoPair]
  change (fetch ti.nodeInfoArray ti.currentCallNodeID >>= _) = _
  cases fetch ti.nodeInfoArray ti.currentCallNodeID with
  | error e => rfl
  | ok n =>
      have hgeneration : (tag id now ti).generationNumber = ti.generationNumber := rfl
      rw [ok_bind, ok_bind, hgeneration]
      by_cases hgen : n.generationNumber = ti.generationNumber
      · rw [if_neg (not_not_intro hgen), if_neg (not_not_intro hgen)]
        exact hread ti
      · rw [if_pos hgen, if_pos hgen]
        refine (congrArg (fun run => run >>= _) hadd).trans ?_
        cases addActualRecord g ti ti.currentCallNodeID with
        | error e => rfl
        | ok u => exact hread u

theorem run_tag {h : Handler} (hrun : h.run g ti = .ok ti') :
    h.run g (tag id now ti) = .ok (tag id now ti') := by
  cases h with
  | call x reading =>
      obtain ⟨ti₁, ti₂, idx, r, r', n, henter, hpair, hr, hstart, hn, rfl⟩ := callHandler_eq_ok.mp hrun
      apply callHandler_eq_ok.mpr
      refine ⟨tag id now ti₁, tag id now ti₂, idx, r, r', n, ?_, ?_, hr, hstart, hn, rfl⟩
      · rw [enterChild_tag, henter]
        rfl
      · rw [getCurrentNodeInfoPair_tag, hpair]
        rfl
  | ret reading =>
      by_cases hcur : ti.currentCallNodeID = 1
      · rw [Handler.run, returnHandler, if_pos hcur, Except.ok.injEq] at hrun
        rw [Handler.run, returnHandler, ← hrun]
        exact if_pos hcur
      · obtain ⟨hstop, ti₂, idx, r, r', hpair, hr, hend, rfl⟩ := (returnHandler_eq_ok hcur).mp hrun
        have htag := getCurrentNodeInfoPair_tag (g := g) id now { ti with stop := true }
        rw [hpair] at htag
        have hcur' : (tag id now ti).currentCallNodeID ≠ 1 := hcur
        exact (returnHandler_eq_ok hcur').mpr ⟨hstop, tag id now ti₂, idx, r, r', htag, hr, hend, rfl⟩

theorem run_keeps {h : Handler} (hrun : h.run g ti = .ok ti') :
    ti'.threadID = ti.threadID ∧ ti'.nowInfo = ti.nowInfo := by
  have hsame := run_tag ti.threadID ti.nowInfo hrun
  have heq : ti' = tag ti.threadID ti.nowInfo ti' := Except.ok.inj (hrun.symm.trans hsame)
  rw [heq]
  exact ⟨rfl, rfl⟩

def note (now : NowBuffer) (t : ProfiledThread) :
    ProfiledThread := { t with info := { t.info with nowInfo := now } }

theorem run_note {h : Handler} (hrun : h.run g ti = .ok ti') :
    h.run g { ti with nowInfo := now } = .ok { ti' with nowInfo := now } := by
  have htag := run_tag ti.threadID now hrun
  rw [tag, tag, ← (run_keeps hrun).1] at htag
  exact (run_keeps hrun).1 ▸ htag

inductive Step
  | spawn
  | handler (i : Nat) (h : Handler)

def Step.run (g : RecordTable) (w : World) : Step → Run World
  | spawn => .ok (w.spawn g)
  | handler i h => w.handler g i h

def runSteps (g : RecordTable) (w : World) (steps : List Step) : Run World := steps.foldlM (Step.run g) w

def Step.event : Step → WorldEvent
  | spawn => .spawn
  | handler i h => .thread i (.handler h)

def noted (i : Nat) (now : NowBuffer) (w : World) :
    World := { w with threads := w.threads.modify i (note now) }

variable {now} {w w' w'' : World} {i : Nat}

theorem getNowInfo_eq_ok {reading : Reading} : w.getNowInfo g reading i = .ok (w', now) ↔
    ∃ t values, w.threads[i]? = some t ∧
    rtypeStartNode g reading t.info.nowInfo.values = .ok values ∧ now = { t.info.nowInfo with values } ∧
      w' = noted i now w := by
  simp only [World.getNowInfo, CallTree.getNowInfo, bind_eq_ok, fetch_eq_ok, store_eq_ok, pure_eq_ok,
    Except.ok.injEq, Prod.exists, Prod.mk.injEq]
  have hset {t : ProfiledThread} (ht : w.threads[i]? = some t) (now : NowBuffer) :
      w.threads.set i { t with info := { t.info with nowInfo := now } } = w.threads.modify i (note now) := by
    rw [List.modify_eq_set_getElem?, ht]
    rfl
  constructor
  · rintro ⟨t, ht, info, now', ⟨values, hv, rfl, rfl⟩, _, ⟨-, rfl⟩, rfl, rfl⟩
    exact ⟨t, values, ht, hv, rfl, by rw [noted, ← hset ht]⟩
  · rintro ⟨t, values, ht, hv, rfl, rfl⟩
    exact ⟨t, ht, _, _, ⟨values, hv, rfl, rfl⟩, _,
      ⟨(List.getElem?_eq_some_iff.mp ht).1, rfl⟩, by rw [noted, ← hset ht], rfl⟩

theorem set_modify_self {α : Type} (xs : List α) (i : Nat) (f : α → α) (b : α) :
    (xs.modify i f).set i (f b) = (xs.set i b).modify i f := by
  ext1 j
  simp only [List.getElem?_set, List.getElem?_modify, List.length_modify]
  grind

theorem set_modify_ne {α : Type} (xs : List α) {i k : Nat} (h : i ≠ k) (f : α → α) (b : α) :
    (xs.modify i f).set k b = (xs.set k b).modify i f := by
  ext1 j
  simp only [List.getElem?_set, List.getElem?_modify, List.length_modify]
  grind

theorem modify_append_left {α : Type} {xs : List α} {i : Nat} (h : i < xs.length) (ys : List α) (f : α → α) :
    (xs ++ ys).modify i f = xs.modify i f ++ ys := by
  rw [List.modify_eq_set_getElem?, List.modify_eq_set_getElem?, List.getElem?_append_left h,
    List.getElem?_eq_getElem h]
  exact List.set_append_left i _ h

theorem step_noted {a : Step} (hi : i < w.threads.length) (hstep : a.run g w = .ok w') (now : NowBuffer) :
    a.run g (noted i now w) = .ok (noted i now w') := by
  cases a with
  | spawn =>
      rw [Step.run, Except.ok.injEq] at hstep
      subst hstep
      simp only [Step.run, noted, World.spawn, List.length_modify, modify_append_left hi]
  | handler k h =>
      obtain ⟨u, ti, ti', hu, hl, hrun, rfl⟩ := handler_eq_ok.mp hstep
      obtain ⟨records, hrec, rfl⟩ := load_eq_ok.mp hl
      by_cases hik : i = k
      · subst hik
        have hself : (noted i now w).threads[i]? = some (note now u) := by
          rw [noted, List.getElem?_modify_eq, hu]
          rfl
        have hload : (noted i now w).load (note now u) =
            .ok { u.info with serializedNodeInfoArray := records, nowInfo := now } :=
          load_eq_ok.mpr ⟨records, hrec, rfl⟩
        have hset := set_modify_self w.threads i (note now) { u with info := ti' }
        have hnoted := run_note now hrun
        refine handler_eq_ok.mpr ⟨note now u, _, _, hself, hload, hnoted, ?_⟩
        exact congrArg (fun threads => (⟨threads, w.heap.set u.buffer ti'.serializedNodeInfoArray, w.back⟩ : World)) hset.symm
      · have hother : (noted i now w).threads[k]? = some u := by
          rw [noted, List.getElem?_modify_ne _ _ hik, hu]
        have hload : (noted i now w).load u = .ok { u.info with serializedNodeInfoArray := records } :=
          load_eq_ok.mpr ⟨records, hrec, rfl⟩
        have hset := set_modify_ne w.threads hik (note now) { u with info := ti' }
        refine handler_eq_ok.mpr ⟨u, _, ti', hother, hload, hrun, ?_⟩
        exact congrArg (fun threads => (⟨threads, w.heap.set u.buffer ti'.serializedNodeInfoArray, w.back⟩ : World)) hset.symm

theorem step_keeps {a : Step} (hstep : a.run g w = .ok w') {t : ProfiledThread}
    (ht : w.threads[i]? = some t) :
    ∃ t', w'.threads[i]? = some t' ∧ t'.info.threadID = t.info.threadID ∧
      t'.info.nowInfo = t.info.nowInfo := by
  have hi := (List.getElem?_eq_some_iff.mp ht).1
  cases a with
  | spawn =>
      rw [Step.run, Except.ok.injEq] at hstep
      subst hstep
      exact ⟨t, (List.getElem?_append_left hi).trans ht, rfl, rfl⟩
  | handler k h =>
      obtain ⟨u, ti, ti', hu, hl, hrun, rfl⟩ := handler_eq_ok.mp hstep
      obtain ⟨records, hrec, rfl⟩ := load_eq_ok.mp hl
      by_cases hki : k = i
      · subst hki
        obtain rfl : t = u := Option.some.inj (ht.symm.trans hu)
        obtain ⟨hid, hnow⟩ := run_keeps hrun
        exact ⟨{ t with info := ti' }, List.getElem?_set_self hi, hid, hnow⟩
      · exact ⟨t, (List.getElem?_set_ne hki).trans ht, rfl, rfl⟩

theorem runSteps_cons {a : Step} {steps : List Step} :
    runSteps g w (a :: steps) = .ok w'' ↔ ∃ w', a.run g w = .ok w' ∧ runSteps g w' steps = .ok w'' := by
  rw [runSteps, List.foldlM_cons, bind_eq_ok]
  rfl

theorem runSteps_keeps {steps : List Step} (hrun : runSteps g w steps = .ok w') {t : ProfiledThread}
    (ht : w.threads[i]? = some t) :
    ∃ t', w'.threads[i]? = some t' ∧ t'.info.threadID = t.info.threadID ∧
      t'.info.nowInfo = t.info.nowInfo := by
  induction steps generalizing w t with
  | nil =>
      cases hrun
      exact ⟨t, ht, rfl, rfl⟩
  | cons a steps ih =>
      obtain ⟨v, hstep, hrest⟩ := runSteps_cons.mp hrun
      obtain ⟨u, hu, hid, hnow⟩ := step_keeps hstep ht
      obtain ⟨t', ht', hid', hnow'⟩ := ih hrest hu
      exact ⟨t', ht', hid'.trans hid, hnow'.trans hnow⟩

theorem runSteps_noted {steps : List Step} (hi : i < w.threads.length)
    (hrun : runSteps g w steps = .ok w') (now : NowBuffer) :
    runSteps g (noted i now w) steps = .ok (noted i now w') := by
  induction steps generalizing w with
  | nil =>
      cases hrun
      rfl
  | cons a steps ih =>
      obtain ⟨v, hstep, hrest⟩ := runSteps_cons.mp hrun
      obtain ⟨u, hu, -⟩ := step_keeps hstep (List.getElem?_eq_getElem hi)
      exact runSteps_cons.mpr ⟨_, step_noted hi hstep now, ih (List.getElem?_eq_some_iff.mp hu).1 hrest⟩

theorem runSteps_getNowInfo {steps : List Step} {reading : Reading} (hi : i < w.threads.length)
    (hrun : runSteps g w steps = .ok w') (hnow : w'.getNowInfo g reading i = .ok (w'', now)) :
    w.getNowInfo g reading i = .ok (noted i now w, now) ∧ runSteps g (noted i now w) steps = .ok w'' := by
  obtain ⟨t', values, ht', hvalues, hnew, rfl⟩ := getNowInfo_eq_ok.mp hnow
  obtain ⟨u, hu, -, hkept⟩ := runSteps_keeps hrun (List.getElem?_eq_getElem hi)
  obtain rfl : t' = u := Option.some.inj (ht'.symm.trans hu)
  rw [hkept] at hvalues hnew
  exact ⟨getNowInfo_eq_ok.mpr ⟨_, values, List.getElem?_eq_getElem hi, hvalues, hnew, rfl⟩,
    runSteps_noted hi hrun now⟩

structure Spared (w : World) (a : Nat) : Prop where
  lt : a < w.heap.length
  apart : ∀ (i : Nat) (t : ProfiledThread), w.threads[i]? = some t → t.buffer ≠ a

theorem step_spares {a : Nat} {e : Step} (h : Spared w a) (hstep : e.run g w = .ok w') :
    Spared w' a ∧ w'.heap[a]? = w.heap[a]? := by
  have hlt := h.lt
  cases e with
  | spawn =>
      rw [Step.run, Except.ok.injEq] at hstep
      subst hstep
      refine ⟨⟨?_, ?_⟩, List.getElem?_append_left hlt⟩
      · simp only [World.spawn, List.length_append]
        omega
      · intro k t ht
        rw [World.spawn, List.getElem?_append] at ht
        split at ht
        · exact h.apart k t ht
        · obtain rfl := List.mem_singleton.mp (List.mem_of_getElem? ht)
          exact hlt.ne'
  | handler k hd =>
      obtain ⟨u, ti, ti', hu, -, -, rfl⟩ := handler_eq_ok.mp hstep
      refine ⟨⟨by simpa using hlt, ?_⟩, List.getElem?_set_ne (h.apart k u hu)⟩
      intro m t ht
      rcases getElem?_set_cases ht with ⟨-, rfl⟩ | ⟨-, ht⟩
      · exact h.apart k u hu
      · exact h.apart m t ht

theorem runSteps_spares {a : Nat} {steps : List Step} (h : Spared w a) (hrun : runSteps g w steps = .ok w') :
    Spared w' a ∧ w'.heap[a]? = w.heap[a]? := by
  induction steps generalizing w with
  | nil =>
      cases hrun
      exact ⟨h, rfl⟩
  | cons e steps ih =>
      obtain ⟨v, hstep, hrest⟩ := runSteps_cons.mp hrun
      obtain ⟨hv, hheap⟩ := step_spares h hstep
      obtain ⟨hw', hheap'⟩ := ih hv hrest
      exact ⟨hw', hheap'.trans hheap⟩

theorem getSerializedBuffer_eq_ok {records : List MethodNodeSerializedInfo} :
    w.getSerializedBuffer i = .ok (w', records) ↔ ∃ t info, w.threads[i]? = some t ∧ w.back < w.heap.length ∧
      info = { t.info with
        generationNumber := (t.info.generationNumber + 1) % 2 ^ 32
        nowInfo := { t.info.nowInfo with node := t.info.currentCallNodeID } } ∧
      (w.heap.set w.back [])[t.buffer]? = some records ∧
      w' = { threads := w.threads.set i ⟨info, w.back⟩, heap := w.heap.set w.back [], back := t.buffer } := by
  simp only [World.getSerializedBuffer, bind_eq_ok, fetch_eq_ok, store_eq_ok, pure_eq_ok,
    Except.ok.injEq, Prod.mk.injEq]
  constructor
  · rintro ⟨t, ht, _, ⟨-, rfl⟩, _, ⟨hlt, rfl⟩, _, hout, rfl, rfl⟩
    exact ⟨t, _, ht, hlt, rfl, hout, rfl⟩
  · rintro ⟨t, _, ht, hlt, rfl, hout, rfl⟩
    exact ⟨t, ht, _, ⟨(List.getElem?_eq_some_iff.mp ht).1, rfl⟩, _, ⟨hlt, rfl⟩, records, hout, rfl, rfl⟩

theorem getSerializedBuffer_spares {evs : List WorldEvent} {s : System}
    {records : List MethodNodeSerializedInfo} (h : Tracked g evs s)
    (hbuf : s.world.getSerializedBuffer i = .ok (w', records)) :
    Spared w' w'.back ∧ w'.heap[w'.back]? = some records := by
  obtain ⟨t, info, ht, -, -, hrecords, rfl⟩ := getSerializedBuffer_eq_ok.mp hbuf
  refine ⟨⟨(List.getElem?_eq_some_iff.mp hrecords).1, fun k u hu he => ?_⟩, hrecords⟩
  rcases getElem?_set_cases hu with ⟨-, rfl⟩ | ⟨hne, hu⟩
  · exact h.apart i t ht he.symm
  · exact hne (h.distinct k i u t hu ht he)

end Llprof.Profiler.TwoPhaseDrains
