import Llprof.Foundations.ParentTree
import Llprof.Profiler.Drains

namespace Llprof.Profiler.Activations

open Faulting MachineIntegers ParentTree Records CallTree HandlerCases TreeInvariant Drains

/-- What a profile is about: the calls that have not returned yet, with the
counter at the call, the nodes that calls have entered, and the completed
activations with what the counter rose by. -/
structure Activity where
  pending : List (Nat × LongLong)
  entered : List Nat
  completed : List (Nat × Int)
  deriving DecidableEq, Repr

def Activity.observe (t : Nat) (a : Activity) (current : Nat) : Event → Activity
  | .handler (.call _ reading) =>
      { a with pending := (current, reading t) :: a.pending, entered := a.entered ++ [current] }
  | .handler (.ret reading) =>
      match a.pending with
      | [] => a
      | (c, start) :: rest => { a with pending := rest, completed := a.completed ++ [(c, (reading t).toInt - start.toInt)] }
  | .drain _ => a

def Event.observed (g : RecordTable) (t : Nat) (p : Session × Activity) (e : Event) :
    Run (Session × Activity) := do
  let st ← e.run g p.1
  return (st, p.2.observe t st.thread.currentCallNodeID e)

def observeEvents (g : RecordTable) (t threadID : Nat) (es : List Event) : Run (Session × Activity) :=
  es.foldlM (Event.observed g t) (newSession g threadID, ⟨[], [], []⟩)

/-- The pending activations lie on the path from a node to the root, each with
its start value. -/
def OnPath (ti : ThreadInfo) : Nat → List (Nat × LongLong) → Prop
  | id, [] => id = 1
  | id, (c, start) :: rest => id = c ∧ 2 ≤ c ∧ (∃ v, startAt ti c = some [v, start]) ∧
      ∃ n, shapeAt ti c = some n ∧ OnPath ti n.parentNodeId rest

def callsOf (r : MethodNodeSerializedInfo) : Nat := r.callCount

def timeOf (r : MethodNodeSerializedInfo) : LongLong := r.profileValue.getD 0 0

structure Accounted (st : Session) (a : Activity) : Prop where
  logged : Logged st
  covered : st.Covered
  stop : st.thread.stop = false
  path : OnPath st.thread st.thread.currentCallNodeID a.pending
  values : ∀ r ∈ st.log, ∃ v₀ v₁, r.profileValue = [v₀, v₁]
  entered : ∀ k, k ∈ a.entered ↔ ∃ r ∈ st.log, r.callNodeId = k
  calls : ∀ k, sumAt (fun r => r.callNodeId) callsOf st.log k = a.entered.count k
  times : ∀ k, sumAt (fun r => r.callNodeId) timeOf st.log k =
    ((sumAt Prod.fst Prod.snd a.completed k : Int) : LongLong)
  nowInfo : ∃ v₀ v₁, st.thread.nowInfo.values = [v₀, v₁]
  drained : ∀ d ∈ st.drained, ∃ v₀ v₁, d.nowInfo.values = [v₀, v₁]
  generation : st.thread.generationNumber = 1 + st.drained.length

variable {g : RecordTable} {t : Nat} {st : Session} {a : Activity}

theorem OnPath.keep {ti ti' : ThreadInfo} (hT : TreeInv ti) (hgrow : Grows ti ti')
    {pending : List (Nat × LongLong)} {id : Nat}
    (hstart : ∀ k v, k ≤ id → startAt ti k = some v → startAt ti' k = some v) (h : OnPath ti id pending) :
    OnPath ti' id pending := by
  induction pending generalizing id with
  | nil => exact h
  | cons e rest ih =>
      obtain ⟨c, start⟩ := e
      obtain ⟨rfl, h2, ⟨v, hv⟩, n, hn, hrest⟩ := h
      obtain ⟨n', hn', -, hp⟩ := hgrow id n hn
      have hlt := (hT.parent id n h2 hn).2
      refine ⟨rfl, h2, ⟨v, hstart id _ (le_refl _) hv⟩, n', hn', ?_⟩
      rw [hp]
      exact ih (fun k v hk => hstart k v (by omega)) hrest

theorem Written.values {live live' : List MethodNodeSerializedInfo} {r r' : MethodNodeSerializedInfo}
    (h : Written g live r r' live') (hc : SingleCounter g t)
    (hv : ∀ q ∈ live, ∃ v₀ v₁, q.profileValue = [v₀, v₁]) :
    ∃ v₀ v₁, r.profileValue = [v₀, v₁] := by
  obtain ⟨live₁, idx, rfl | ⟨-, -, hz⟩, hr, -⟩ := h
  · exact hv r (List.mem_of_getElem? hr)
  · exact ⟨0, 0, by rw [hz, zeroValues, hc.active]; rfl⟩

theorem Written.sum {M : Type} [AddCommMonoid M] (weight : MethodNodeSerializedInfo → M) (gain : M)
    (old : List MethodNodeSerializedInfo) {live live' : List MethodNodeSerializedInfo}
    {r r' : MethodNodeSerializedInfo} (h : Written g live r r' live')
    (hz : r.callCount = 0 → r.profileValue = zeroValues g → weight r = 0) (hid : r'.callNodeId = r.callNodeId)
    (hw : weight r' = weight r + gain) (k : Nat) :
    sumAt (fun r => r.callNodeId) weight (old ++ live') k =
      sumAt (fun r => r.callNodeId) weight (old ++ live) k + if r.callNodeId = k then gain else 0 := by
  obtain ⟨live₁, idx, hlive, hr, rfl⟩ := h
  have hsame : sumAt (fun r => r.callNodeId) weight live₁ k =
      sumAt (fun r => r.callNodeId) weight live k := by
    rcases hlive with rfl | ⟨rfl, hc, hv⟩
    · rfl
    · rw [sumAt_append, sumAt_singleton, hz hc hv, ite_self, add_zero]
  rw [sumAt_append, sumAt_append, sumAt_set hr hid hw, hsame, add_assoc]
  congr 2
  split <;> simp_all

theorem enterChild_total {ti : ThreadInfo} (hT : TreeInv ti) (hstop : ti.stop = false) (x : Nat) :
    ∃ ti', enterChild g ti x = .ok ti' := by
  have hlt := hT.current.2
  rw [enterChild, require_of hstop, ok_bind, getChildNodeID]
  dsimp only
  rw [fetch_eq_ok.mpr (List.getElem?_eq_getElem hlt), ok_bind]
  cases hx : ti.nodeInfoArray[ti.currentCallNodeID].children[x]? with
  | some c => exact ⟨_, rfl⟩
  | none =>
      have hlink : ∃ ti', ThreadInfo.linkChild (ThreadInfo.pushNode g { ti with stop := true } ti.currentCallNodeID x)
          ti.currentCallNodeID x ti.nodeInfoArray.length = .ok ti' := by
        refine ⟨_, linkChild_eq_ok.mpr ⟨ti.nodeInfoArray[ti.currentCallNodeID], ?_, rfl⟩⟩
        rw [ThreadInfo.pushNode, List.getElem?_append_left hlt, List.getElem?_eq_getElem hlt]
      obtain ⟨ti', hlink⟩ := hlink
      have hne : ti.currentCallNodeID ≠ 0 := by
        have := hT.current.1
        omega
      simp only [addCallNode, if_pos hne]
      simp only [ThreadInfo.pushNode, List.length_append, List.length_singleton,
        Nat.add_sub_cancel] at hlink ⊢
      rw [hlink]
      exact ⟨_, rfl⟩

theorem pair_total {ti : ThreadInfo} (hcur : ti.currentCallNodeID < ti.nodeInfoArray.length) :
    ∃ p, getCurrentNodeInfoPair g ti = .ok p := by
  have hn := List.getElem?_eq_getElem hcur
  rw [getCurrentNodeInfoPair, fetch_eq_ok.mpr hn, ok_bind]
  split
  · rw [addActualRecord_eq_ok.mpr ⟨_, hn, rfl⟩, ok_bind]
    dsimp only
    rw [fetch_eq_ok.mpr (getElem?_set_self hn), ok_bind]
    exact ⟨_, rfl⟩
  · simp only [pure_eq_ok, ok_bind, fetch_eq_ok.mpr hn]
    exact ⟨_, rfl⟩

theorem Accounted.call_total (hc : SingleCounter g t) (h : Accounted st a) (reading : Reading) (x : Nat) :
    ∃ ti', callHandler g reading x st.thread = .ok ti' := by
  obtain ⟨ti₁, h₁⟩ := enterChild_total (g := g) h.logged.tree h.stop x
  have hT₁ := (h.logged.tree.enterChild h₁).1
  have hR₁ := h.logged.record.enterChild h.logged.tree.current.1 h₁
  obtain ⟨⟨ti₂, idx⟩, h₂⟩ := pair_total (g := g) hT₁.current.2
  obtain ⟨-, hs, hl, hcur, -⟩ := pair_spec hR₁ hT₁.current.1 h₂
  obtain ⟨n, r, -, -, -, -, hr, hw⟩ := pair_written hR₁ hT₁.current.1 h₂
  obtain ⟨v₀, v₁, hv⟩ := Written.values (hw r) hc (by
    rw [(enterChild_kept h.logged.tree.current.1 h₁).1]
    exact fun q hq => h.values q (List.mem_append_right _ hq))
  have hstart : startRecord g reading r =
      .ok { r with callCount := r.callCount + 1, profileValue := [v₀, reading t] } := by
    rw [startRecord, hv, hc.startNode, ok_bind, pure_eq_ok]
  have hm : ti₂.nodeInfoArray[ti₂.currentCallNodeID]? = some _ := List.getElem?_eq_getElem (by
    rw [hcur, hl]
    exact hT₁.current.2)
  exact ⟨_, callHandler_eq_ok.mpr ⟨ti₁, ti₂, idx, r, _, _, h₁, h₂, hr, hstart, hm, rfl⟩⟩

theorem Accounted.pending_root (h : Accounted st a) (hcur : st.thread.currentCallNodeID = 1) :
    a.pending = [] := by
  have hpath := h.path
  rw [hcur] at hpath
  cases hp : a.pending with
  | nil => rfl
  | cons e rest =>
      rw [hp] at hpath
      obtain ⟨h1, h2, -⟩ := hpath
      omega

theorem Accounted.pending_cons (h : Accounted st a) (hcur : st.thread.currentCallNodeID ≠ 1) :
    ∃ start rest, a.pending = (st.thread.currentCallNodeID, start) :: rest ∧
      (∃ v, startAt st.thread st.thread.currentCallNodeID = some [v, start]) ∧
      ∃ n, shapeAt st.thread st.thread.currentCallNodeID = some n ∧ OnPath st.thread n.parentNodeId rest := by
  have hpath := h.path
  cases hp : a.pending with
  | nil =>
      rw [hp] at hpath
      exact absurd hpath hcur
  | cons e rest =>
      obtain ⟨c, start⟩ := e
      rw [hp] at hpath
      obtain ⟨hc, -, hv, hn⟩ := hpath
      subst hc
      exact ⟨start, rest, rfl, hv, hn⟩

theorem Accounted.ret_total (hc : SingleCounter g t) (h : Accounted st a) (reading : Reading) :
    ∃ ti', returnHandler g reading st.thread = .ok ti' := by
  by_cases hcur : st.thread.currentCallNodeID = 1
  · exact ⟨_, by rw [returnHandler, if_pos hcur]⟩
  · obtain ⟨start, rest, -, ⟨v, hstart⟩, -⟩ := h.pending_cons hcur
    have hT := h.logged.tree
    have hR : RecordInv { st.thread with stop := true } :=
      ⟨h.logged.record.generation, h.logged.record.stamp, h.logged.record.recorded, h.logged.record.record⟩
    obtain ⟨⟨ti₂, idx⟩, h₂⟩ : ∃ p, getCurrentNodeInfoPair g { st.thread with stop := true } = .ok p :=
      pair_total hT.current.2
    obtain ⟨-, hs, hl, hcc, -⟩ := pair_spec hR hT.current.1 h₂
    obtain ⟨n, r, -, -, -, -, hr, hw⟩ := pair_written hR hT.current.1 h₂
    obtain ⟨v₀, v₁, hv⟩ := Written.values (hw r) hc (fun q hq => h.values q (List.mem_append_right _ hq))
    have hstart₂ : startAt ti₂ ti₂.currentCallNodeID = some [v, start] := by
      rw [(pair_kept h₂).2.2, hcc]
      exact hstart
    obtain ⟨m, hm, hms⟩ := Option.map_eq_some_iff.mp hstart₂
    have hend : endRecord g reading ti₂ r =
        .ok { r with profileValue := [v₀ + (reading t - start), v₁] } := by
      rw [endRecord, fetch_eq_ok.mpr hm, ok_bind, hms, hv, hc.endNode, ok_bind, pure_eq_ok]
    exact ⟨_, (returnHandler_eq_ok hcur).mpr ⟨h.stop, ti₂, idx, r, _, h₂, hr, hend, rfl⟩⟩

theorem Accounted.drain_total (hc : SingleCounter g t) (h : Accounted st a) (reading : Reading) :
    ∃ v₀ v₁ ti', drain g reading st.thread =
        .ok (ti', ⟨st.thread.serializedNodeInfoArray, ⟨st.thread.currentCallNodeID, [v₀, v₁]⟩⟩) ∧
      ti'.nowInfo = ⟨st.thread.currentCallNodeID, [v₀, v₁]⟩ ∧ ti'.stop = false ∧
        ∀ k, startAt ti' k = startAt st.thread k := by
  obtain ⟨v₀, v₁, hnow⟩ := h.nowInfo
  refine ⟨v₀, reading t, { (getSerializedBuffer st.thread).1 with
    nowInfo := ⟨st.thread.currentCallNodeID, [v₀, reading t]⟩ }, ?_, rfl, h.stop, fun _ => rfl⟩
  simp only [drain, getSerializedBuffer, getNowInfo, hnow, hc.startNode, ok_bind, pure_eq_ok]

theorem Accounted.call (hc : SingleCounter g t) (h : Accounted st a) {reading : Reading}
    {x : Nat} {ti' : ThreadInfo} (hrun : callHandler g reading x st.thread = .ok ti') :
    Accounted { st with thread := ti' } (a.observe t ti'.currentCallNodeID (.handler (.call x reading))) := by
  obtain ⟨hl', hcov'⟩ := h.logged.call h.covered hrun
  obtain ⟨hT', hR', hgrow, h2, m, hm, hmp, -⟩ := callHandler_keeps h.logged.tree h.logged.record hrun
  obtain ⟨n, r, r', hw, hr', hres, hstart, hkeep⟩ := callHandler_wrote h.logged.tree h.logged.record hrun
  obtain ⟨v₀, v₁, hv⟩ := Written.values hw.written hc (fun q hq => h.values q (List.mem_append_right _ hq))
  have hr'' : r' = { r with callCount := r.callCount + 1, profileValue := [v₀, reading t] } := by
    rw [startRecord, hv, hc.startNode, ok_bind, pure_eq_ok, Except.ok.injEq] at hr'
    exact hr'.symm
  have hrecorded (k : Nat) : Recorded ({ st with thread := ti' } : Session).log k ↔
      Recorded st.log k ∨ ti'.currentCallNodeID = k := by
    rw [← hw.id]
    exact hw.written.recorded hw.ids.1 k
  refine ⟨hl', hcov', hres.stop, ?_, ?_, ?_, ?_, ?_, ?_, h.drained, ?_⟩
  · refine ⟨rfl, h2, ⟨v₀, ?_⟩, m, hm, ?_⟩
    · rw [hstart, hr'']
    · rw [hmp]
      have hlt := (hT'.parent _ m h2 hm).2
      apply OnPath.keep h.logged.tree hgrow _ h.path
      intro k v hk
      exact hkeep k v (by omega)
  · intro q hq
    rcases List.mem_append.mp hq with hq | hq
    · exact h.values q (List.mem_append_left _ hq)
    · rcases hw.written.mem hq with hq | rfl | rfl
      · exact h.values q (List.mem_append_right _ hq)
      · exact ⟨v₀, v₁, hv⟩
      · exact ⟨v₀, reading t, by rw [hr'']⟩
  · intro k
    rw [hl'.has_record, hrecorded, Activity.observe]
    simp only [List.mem_append, List.mem_singleton, h.entered, h.logged.has_record]
    constructor
    · rintro (⟨h1, hk⟩ | rfl)
      · exact ⟨h1, Or.inl hk⟩
      · exact ⟨by omega, Or.inr rfl⟩
    · rintro ⟨h1, hk | rfl⟩
      · exact Or.inl ⟨h1, hk⟩
      · exact Or.inr rfl
  · intro k
    have hsum :=
      Written.sum callsOf 1 (recordsOf st.drained) hw.written (fun hz _ => hz) hw.ids.1 (by rw [hr'']; rfl) k
    refine hsum.trans ?_
    rw [show sumAt _ callsOf (recordsOf st.drained ++ st.thread.serializedNodeInfoArray) k = a.entered.count k from h.calls k,
      Activity.observe, List.count_append, hw.id]
    congr 1
    rw [List.count_singleton]
    simp only [beq_iff_eq]
  · intro k
    have hsum := Written.sum timeOf 0 (recordsOf st.drained) hw.written
      (fun _ hz => by rw [timeOf, hz, zeroValues, hc.active]; rfl) hw.ids.1
      (by rw [hr'', timeOf, timeOf, hv]; simp) k
    refine hsum.trans ?_
    rw [ite_self, add_zero]
    exact h.times k
  · rw [hres.nowInfo]
    exact h.nowInfo
  · exact hres.generation.trans h.generation

theorem Accounted.ret (hc : SingleCounter g t) (h : Accounted st a) {reading : Reading} {ti' : ThreadInfo}
    (hrun : returnHandler g reading st.thread = .ok ti') :
    Accounted { st with thread := ti' } (a.observe t ti'.currentCallNodeID (.handler (.ret reading))) := by
  by_cases hcur : st.thread.currentCallNodeID = 1
  · rw [returnHandler, if_pos hcur, Except.ok.injEq] at hrun
    subst hrun
    rw [Activity.observe, h.pending_root hcur]
    exact h
  obtain ⟨start, rest, hpending, ⟨v, hstart⟩, m, hm, hpath⟩ := h.pending_cons hcur
  have h2 : 2 ≤ st.thread.currentCallNodeID := by
    have := h.logged.tree.current.1
    omega
  obtain ⟨hl', hcov'⟩ := h.logged.ret hcur
    (fun n hn => h.logged.parent_recorded h.covered hcur hn) hrun
  obtain ⟨hT', hR', hs, m', hm', hmc⟩ := returnHandler_keeps h.logged.tree h.logged.record hcur hrun
  obtain ⟨n, r, r', hw, hres, ⟨start', v', hstart', hend, hr'⟩, hkeep⟩ :=
    returnHandler_wrote h.logged.tree h.logged.record hcur hrun
  rw [hm, Option.some.injEq] at hm'
  subst hm'
  rw [hstart, Option.some.injEq] at hstart'
  subst hstart'
  obtain ⟨v₀, v₁, hv⟩ := Written.values hw.written hc (fun q hq => h.values q (List.mem_append_right _ hq))
  rw [hv, hc.endNode, Except.ok.injEq] at hend
  subst hend
  have hrecorded (k : Nat) : Recorded ({ st with thread := ti' } : Session).log k ↔
      Recorded st.log k ∨ st.thread.currentCallNodeID = k := by
    rw [← hw.id]
    exact hw.written.recorded hw.ids.1 k
  rw [Activity.observe, hpending]
  refine ⟨hl', hcov', hres.stop, ?_, ?_, ?_, ?_, ?_, ?_, h.drained, ?_⟩
  · dsimp only
    rw [hmc]
    exact OnPath.keep h.logged.tree (Grows.of_eq hs) (fun k v _ hk => (hkeep k).trans hk) hpath
  · intro q hq
    rcases List.mem_append.mp hq with hq | hq
    · exact h.values q (List.mem_append_left _ hq)
    · rcases hw.written.mem hq with hq | rfl | rfl
      · exact h.values q (List.mem_append_right _ hq)
      · exact ⟨v₀, v₁, hv⟩
      · exact ⟨_, _, by rw [hr']⟩
  · intro k
    rw [hl'.has_record, hrecorded, h.entered, h.logged.has_record]
    constructor
    · rintro ⟨h1, hk⟩
      exact ⟨h1, Or.inl hk⟩
    · rintro ⟨h1, hk | rfl⟩
      · exact ⟨h1, hk⟩
      · exact ⟨h1, h.covered⟩
  · intro k
    have hsum :=
      Written.sum callsOf 0 (recordsOf st.drained) hw.written (fun hz _ => hz) hw.ids.1 (by rw [hr']; rfl) k
    refine hsum.trans ?_
    rw [ite_self, add_zero]
    exact h.calls k
  · intro k
    have hsum := Written.sum timeOf (reading t - start) (recordsOf st.drained) hw.written
      (fun _ hz => by rw [timeOf, hz, zeroValues, hc.active]; rfl) hw.ids.1
      (by rw [hr', timeOf, timeOf, hv]; rfl) k
    refine hsum.trans ?_
    dsimp only
    rw [show sumAt _ timeOf (recordsOf st.drained ++ st.thread.serializedNodeInfoArray) k = _ from h.times k,
      sumAt_append, sumAt_singleton, hw.id, Int.cast_add]
    congr 1
    split
    · rw [Int.cast_sub, cast_toInt, cast_toInt]
    · rw [Int.cast_zero]
  · rw [hres.nowInfo]
    exact h.nowInfo
  · exact hres.generation.trans h.generation

theorem Accounted.drain (hc : SingleCounter g t) (h : Accounted st a) (hgen : st.drained.length + 2 < 2 ^ 32)
    (reading : Reading) :
    ∃ ti' d, CallTree.drain g reading st.thread = .ok (ti', d) ∧ ti'.serializedNodeInfoArray = [] ∧
      (⟨ti', st.drained ++ [d]⟩ : Session).log = st.log ∧ Accounted ⟨ti', st.drained ++ [d]⟩ a := by
  obtain ⟨v₀, v₁, ti', hrun, hnow, hstop, hstart⟩ := h.drain_total hc reading
  have hgen' : st.thread.generationNumber + 1 < 2 ^ 32 := by
    rw [h.generation]
    omega
  obtain ⟨hT, hR, hs, hcur, hg, -⟩ := drain_keeps h.logged.tree h.logged.record hgen' hrun
  obtain ⟨hl', hlog, hlive⟩ := h.logged.drain hgen' hrun
  refine ⟨ti', _, hrun, hlive, hlog, hl', ?_, hstop, ?_, ?_, ?_, ?_, ?_,
    ⟨v₀, v₁, congrArg NowBuffer.values hnow⟩, ?_, ?_⟩
  · rw [Session.Covered, hlog, hcur]
    exact h.covered
  · dsimp only
    rw [hcur]
    exact OnPath.keep h.logged.tree (Grows.of_eq hs) (fun k v _ hk => (hstart k).trans hk) h.path
  · rw [hlog]
    exact h.values
  · rw [hlog]
    exact h.entered
  · rw [hlog]
    exact h.calls
  · rw [hlog]
    exact h.times
  · intro d hd
    rcases List.mem_append.mp hd with hd | hd
    · exact h.drained d hd
    · rw [List.mem_singleton.mp hd]
      exact ⟨v₀, v₁, rfl⟩
  · dsimp only
    rw [hg, h.generation, List.length_append, List.length_singleton]
    omega

theorem newSession_accounted (hc : SingleCounter g t) (threadID : Nat) :
    Accounted (newSession g threadID) ⟨[], [], []⟩ := by
  have hl := newSession_logged g threadID
  refine ⟨hl, Or.inl rfl, rfl, rfl, ?_, ?_, ?_, ?_, ?_, ?_, rfl⟩
  · intro r hr
    cases hr
  · intro k
    exact iff_of_false (by simp) (by rintro ⟨r, hr, -⟩; cases hr)
  · intro k
    rfl
  · intro k
    rfl
  · exact ⟨g.unset threadID 1,
      g.unset threadID 2, by
        simp [newSession, newThread, newNowInfo, ThreadInfo.pushNode, hc.active, List.range_succ]⟩
  · intro d hd
    cases hd

theorem Accounted.step (hc : SingleCounter g t) (h : Accounted st a) (e : Event)
    (hgen : st.drained.length + drainCount [e] + 1 < 2 ^ 32) :
    ∃ st', Event.observed g t (st, a) e = .ok (st', a.observe t st'.thread.currentCallNodeID e) ∧
      Accounted st' (a.observe t st'.thread.currentCallNodeID e) ∧
      st'.drained.length = st.drained.length + drainCount [e] := by
  cases e with
  | handler hd =>
      cases hd with
      | call x reading =>
          obtain ⟨ti', hrun⟩ := h.call_total hc reading x
          refine ⟨{ st with thread := ti' }, ?_, h.call hc hrun, rfl⟩
          rw [Event.observed, Event.run, Handler.run, hrun]
          rfl
      | ret reading =>
          obtain ⟨ti', hrun⟩ := h.ret_total hc reading
          refine ⟨{ st with thread := ti' }, ?_, h.ret hc hrun, rfl⟩
          rw [Event.observed, Event.run, Handler.run, hrun]
          rfl
  | drain reading =>
      obtain ⟨ti', d, hrun, -, -, ha⟩ := h.drain hc hgen reading
      refine ⟨⟨ti', st.drained ++ [d]⟩, ?_, ha, by rw [List.length_append]; rfl⟩
      rw [Event.observed, Event.run, hrun]
      rfl

/-- The handlers and drains of a run with one counter go through, and the records
account for the activity. -/
theorem observeEvents_accounted (hc : SingleCounter g t) (threadID : Nat) (es : List Event)
    (hgen : drainCount es < 2 ^ 32 - 1) :
    ∃ st a, observeEvents g t threadID es = .ok (st, a) ∧ Accounted st a ∧
      st.drained.length = drainCount es := by
  obtain ⟨⟨st, a⟩, hrun, ha, hlen⟩ := foldlM_total (f := Event.observed g t)
    (fun done (p : Session × Activity) => Accounted p.1 p.2 ∧ p.1.drained.length = drainCount done) es
    (by
      rintro done e rest ⟨st, a⟩ he ⟨ha, hlen⟩
      have hcount : drainCount es = drainCount done + drainCount [e] + drainCount rest := by
        rw [he, ← List.singleton_append, ← List.append_assoc, drainCount_append, drainCount_append]
      have hlen : st.drained.length = drainCount done := hlen
      have hsmall : st.drained.length + drainCount [e] + 1 < 2 ^ 32 := by omega
      obtain ⟨st', hrun, ha', hlen'⟩ := Accounted.step hc ha e hsmall
      exact ⟨_, hrun, ha', by rw [hlen', hlen, drainCount_append]⟩)
    (s := (newSession g threadID, ⟨[], [], []⟩)) ⟨newSession_accounted hc threadID, rfl⟩
  exact ⟨st, a, hrun, ha, hlen⟩

end Llprof.Profiler.Activations
