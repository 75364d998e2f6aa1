import Llprof.Profiler.TreeInvariant
import Mathlib.Data.List.Nodup

namespace Llprof.Profiler.Drains

open Faulting MachineIntegers Records CallTree HandlerCases TreeInvariant

/-- What happens to a profiled thread, with the handlers atomic: it reports an
event, or the server drains it. -/
inductive Event
  | handler (h : Handler)
  | drain (reading : Reading)

/-- A thread and what has been drained from it, in order. -/
structure Session where
  thread : ThreadInfo
  drained : List Drained

def Event.run (g : RecordTable) (st : Session) : Event → Run Session
  | handler h => do
      let thread ← h.run g st.thread
      return { st with thread }
  | drain reading => do
      let (thread, d) ← CallTree.drain g reading st.thread
      return { thread, drained := st.drained ++ [d] }

def runEvents (g : RecordTable) (st : Session) (es : List Event) : Run Session :=
  es.foldlM (Event.run g) st

def drainCount (es : List Event) : Nat := es.countP (fun e => match e with
  | .drain _ => true
  | .handler _ => false)

def newSession (g : RecordTable) (threadID : Nat) : Session := ⟨newThread g threadID, []⟩

def recordsOf (ds : List Drained) : List MethodNodeSerializedInfo := ds.flatMap (fun d => d.records)

def Session.log (st : Session) : List MethodNodeSerializedInfo :=
  recordsOf st.drained ++ st.thread.serializedNodeInfoArray

def Recorded (log : List MethodNodeSerializedInfo) (k : Nat) : Prop := k = 1 ∨ ∃ r ∈ log, r.callNodeId = k

/-- A record of the current node is in the buffer, where it may have been added
just now, and is rewritten in place. -/
def Written (g : RecordTable) (live : List MethodNodeSerializedInfo) (r r' : MethodNodeSerializedInfo)
    (live' : List MethodNodeSerializedInfo) : Prop :=
  ∃ live₁ idx, (live₁ = live ∨ live₁ = live ++ [r] ∧ r.callCount = 0 ∧ r.profileValue = zeroValues g) ∧
    live₁[idx]? = some r ∧ live' = live₁.set idx r'

def Parented (log : List MethodNodeSerializedInfo) : Prop :=
  ∀ (j : Nat) (r : MethodNodeSerializedInfo), log[j]? = some r → Recorded (log.take j) r.parentNodeId

/-- The records of a session say where their nodes are in the tree, and come
after the records of their parents. -/
structure Logged (st : Session) : Prop where
  tree : TreeInv st.thread
  record : RecordInv st.thread
  place : ∀ r ∈ st.log, 2 ≤ r.callNodeId ∧ ∃ n, shapeAt st.thread r.callNodeId = some n ∧
    n.parentNodeId = r.parentNodeId ∧ n.nameid = r.nameid
  parent : Parented st.log
  ids : ∀ d ∈ st.drained, (d.records.map (fun r => r.callNodeId)).Nodup

variable {g : RecordTable} {st st' : Session}

theorem drainCount_append (xs ys : List Event) : drainCount (xs ++ ys) = drainCount xs + drainCount ys :=
  List.countP_append

theorem recordsOf_append (xs ys : List Drained) : recordsOf (xs ++ ys) = recordsOf xs ++ recordsOf ys :=
  List.flatMap_append

theorem recordsOf_singleton (d : Drained) : recordsOf [d] = d.records := by simp [recordsOf]

theorem Recorded.append {log : List MethodNodeSerializedInfo} {k : Nat} (h : Recorded log k)
    (more : List MethodNodeSerializedInfo) : Recorded (log ++ more) k := by
  rcases h with h | ⟨r, hr, he⟩
  · exact Or.inl h
  · exact Or.inr ⟨r, List.mem_append_left _ hr, he⟩

theorem recorded_congr {log log' : List MethodNodeSerializedInfo}
    (h : log'.map (fun r => r.callNodeId) = log.map (fun r => r.callNodeId)) (k : Nat) :
    Recorded log' k ↔ Recorded log k := by
  have hmem (xs : List MethodNodeSerializedInfo) : (∃ r ∈ xs, r.callNodeId = k) ↔
      k ∈ xs.map (fun r => r.callNodeId) :=
    List.mem_map.symm
  rw [Recorded, Recorded, hmem, hmem, h]

theorem pair_written {ti ti' : ThreadInfo} {idx : Nat} (hR : RecordInv ti) (hcur : 1 ≤ ti.currentCallNodeID)
    (h : getCurrentNodeInfoPair g ti = .ok (ti', idx)) :
    ∃ n r, shapeAt ti ti.currentCallNodeID = some n ∧ r.callNodeId = ti.currentCallNodeID ∧
      r.parentNodeId = n.parentNodeId ∧ r.nameid = n.nameid ∧ ti'.serializedNodeInfoArray[idx]? = some r ∧
      ∀ r', Written g ti.serializedNodeInfoArray r r' (ti'.serializedNodeInfoArray.set idx r') := by
  obtain ⟨n, hn, ⟨hgen, rfl, rfl⟩ | ⟨-, rfl, rfl⟩⟩ := getCurrentNodeInfoPair_cases h
  · obtain ⟨r, hr, hrk⟩ := hR.recorded _ n hcur hn hgen
    obtain ⟨-, m, hm, -, -, hp, hx⟩ := hR.record _ r hr
    rw [hrk, hn, Option.some.injEq] at hm
    subst hm
    exact ⟨shape n, r, shapeAt_eq_some.mpr ⟨n, hn, rfl⟩, hrk, hp, hx, hr, fun r' =>
      ⟨_, _, Or.inl rfl, hr, rfl⟩⟩
  · refine ⟨shape n, newRecord g _ n, shapeAt_eq_some.mpr ⟨n, hn, rfl⟩, rfl, rfl, rfl,
      List.getElem?_concat_length, ?_⟩
    intro r'
    exact ⟨_, _, Or.inr ⟨rfl, rfl, rfl⟩, List.getElem?_concat_length, rfl⟩

def startAt (ti : ThreadInfo) (k : Nat) : Option (List LongLong) :=
  (ti.nodeInfoArray[k]?).map (fun n => n.startValue)

/-- What a handler makes of the buffer: the record of one node is rewritten. -/
structure Wrote (g : RecordTable) (ti ti' : ThreadInfo) (c : Nat) (n : Shape)
    (r r' : MethodNodeSerializedInfo) : Prop where
  shape : shapeAt ti' c = some n
  id : r.callNodeId = c
  parent : r.parentNodeId = n.parentNodeId
  name : r.nameid = n.nameid
  ids : r'.callNodeId = r.callNodeId ∧ r'.parentNodeId = r.parentNodeId ∧ r'.nameid = r.nameid
  written : Written g ti.serializedNodeInfoArray r r' ti'.serializedNodeInfoArray

structure Resumed (ti ti' : ThreadInfo) : Prop where
  stop : ti'.stop = false
  nowInfo : ti'.nowInfo = ti.nowInfo
  generation : ti'.generationNumber = ti.generationNumber

theorem startAt_set {xs : List MethodNodeInfo} {i : Nat} {n n' : MethodNodeInfo} (h : xs[i]? = some n)
    (hs : n'.startValue = n.startValue) (k : Nat) :
    ((xs.set i n')[k]?).map (fun n => n.startValue) = (xs[k]?).map (fun n => n.startValue) := by
  by_cases hk : i = k
  · subst hk
    rw [getElem?_set_self h, h, Option.map_some, Option.map_some, hs]
  · rw [List.getElem?_set_ne hk]

theorem enterChild_kept {ti ti' : ThreadInfo} {x : Nat} (hcur : 1 ≤ ti.currentCallNodeID)
    (h : enterChild g ti x = .ok ti') : ti'.serializedNodeInfoArray = ti.serializedNodeInfoArray ∧
      ti'.generationNumber = ti.generationNumber ∧ ti'.nowInfo = ti.nowInfo ∧
      ∀ k v, startAt ti k = some v → startAt ti' k = some v := by
  obtain ⟨p, hp, ⟨c, -, rfl⟩ | ⟨-, rfl⟩⟩ := enterChild_cases hcur h
  · exact ⟨rfl, rfl, rfl, fun _ _ hk => hk⟩
  · refine ⟨rfl, rfl, rfl, fun k v hk => ?_⟩
    have hlt : ti.currentCallNodeID < ti.nodeInfoArray.length := (List.getElem?_eq_some_iff.mp hp).1
    have hkl : k < ti.nodeInfoArray.length := by
      obtain ⟨n, hn, -⟩ := Option.map_eq_some_iff.mp hk
      exact (List.getElem?_eq_some_iff.mp hn).1
    refine (startAt_set (n := p) (by rw [List.getElem?_append_left hlt, hp]) (by rfl) k).trans ?_
    rw [List.getElem?_append_left hkl]
    exact hk

theorem pair_kept {ti ti' : ThreadInfo} {idx : Nat} (h : getCurrentNodeInfoPair g ti = .ok (ti', idx)) :
    ti'.generationNumber = ti.generationNumber ∧ ti'.nowInfo = ti.nowInfo ∧
      ∀ k, startAt ti' k = startAt ti k := by
  obtain ⟨n, hn, ⟨-, rfl, -⟩ | ⟨-, -, rfl⟩⟩ := getCurrentNodeInfoPair_cases h
  · exact ⟨rfl, rfl, fun _ => rfl⟩
  · exact ⟨rfl, rfl, fun k => startAt_set hn (by rfl) k⟩

theorem callHandler_wrote {reading : Reading} {x : Nat} {ti ti' : ThreadInfo}
    (hT : TreeInv ti) (hR : RecordInv ti) (h : callHandler g reading x ti = .ok ti') :
    ∃ n r r', Wrote g ti ti' ti'.currentCallNodeID n r r' ∧
      startRecord g reading r = .ok r' ∧ Resumed ti ti' ∧
      startAt ti' ti'.currentCallNodeID = some r'.profileValue ∧
      ∀ k v, k ≠ ti'.currentCallNodeID → startAt ti k = some v → startAt ti' k = some v := by
  obtain ⟨ti₁, ti₂, idx, r, r', m, h₁, h₂, hr, hr', hm, rfl⟩ := callHandler_eq_ok.mp h
  obtain ⟨hlive, hgen, hnow, hstart⟩ := enterChild_kept hT.current.1 h₁
  obtain ⟨hgen₂, hnow₂, hstart₂⟩ := pair_kept h₂
  have hcur := (hT.enterChild h₁).1.current.1
  obtain ⟨-, hs, -, hc, -⟩ := pair_spec (hR.enterChild hT.current.1 h₁) hcur h₂
  obtain ⟨n, q, hn, hqk, hqp, hqx, hq, hw⟩ := pair_written (hR.enterChild hT.current.1 h₁) hcur h₂
  rw [hr, Option.some.injEq] at hq
  subst hq
  obtain ⟨hx, hk, hp, -⟩ := startRecord_ids hr'
  refine ⟨n, r, r', ⟨?_, hqk.trans hc.symm, hqp, hqx, ⟨hk, hp, hx⟩, ?_⟩, hr',
    ⟨rfl, hnow₂.trans hnow, hgen₂.trans hgen⟩, ?_, ?_⟩
  · exact (shape_set hm (by rfl) _).trans ((hs _).trans (hc ▸ hn))
  · rw [← hlive]
    exact hw r'
  · rw [startAt]
    dsimp only
    rw [getElem?_set_self hm, Option.map_some]
  · intro k v hk hv
    rw [startAt]
    dsimp only at hk ⊢
    rw [List.getElem?_set_ne (Ne.symm hk)]
    exact (hstart₂ k).trans (hstart k v hv)

theorem returnHandler_wrote {reading : Reading} {ti ti' : ThreadInfo} (hT : TreeInv ti) (hR : RecordInv ti)
    (hcur : ti.currentCallNodeID ≠ 1) (h : returnHandler g reading ti = .ok ti') :
    ∃ n r r', Wrote g ti ti' ti.currentCallNodeID n r r' ∧ Resumed ti ti' ∧
      (∃ start v, startAt ti ti.currentCallNodeID = some start ∧
        rtypeEndNode g reading start r.profileValue = .ok v ∧
        r' = { r with profileValue := v }) ∧ ∀ k, startAt ti' k = startAt ti k := by
  obtain ⟨-, ti₂, idx, r, r', h₂, hr, hr', rfl⟩ := (returnHandler_eq_ok hcur).mp h
  have hR' : RecordInv { ti with stop := true } := ⟨hR.generation, hR.stamp, hR.recorded, hR.record⟩
  obtain ⟨hgen₂, hnow₂, hstart₂⟩ := pair_kept h₂
  obtain ⟨-, hs, -, hc, -⟩ := pair_spec hR' hT.current.1 h₂
  obtain ⟨n, q, hn, hqk, hqp, hqx, hq, hw⟩ := pair_written hR' hT.current.1 h₂
  rw [hr, Option.some.injEq] at hq
  subst hq
  obtain ⟨hx, hk, hp, -⟩ := endRecord_ids hr'
  refine ⟨n, r, r', ⟨(hs _).trans hn, hqk, hqp, hqx, ⟨hk, hp, hx⟩, hw r'⟩, ⟨rfl, hnow₂, hgen₂⟩, ?_, hstart₂⟩
  simp only [endRecord, bind_eq_ok, fetch_eq_ok, pure_eq_ok, Except.ok.injEq] at hr'
  obtain ⟨m, hm, v, hv, rfl⟩ := hr'
  refine ⟨m.startValue, v, ?_, hv, rfl⟩
  rw [hc] at hm
  exact (hstart₂ _).symm.trans (by rw [startAt, hm, Option.map_some])

theorem Written.mem {live live' : List MethodNodeSerializedInfo} {r r' q : MethodNodeSerializedInfo}
    (h : Written g live r r' live') (hq : q ∈ live') : q ∈ live ∨ q = r ∨ q = r' := by
  obtain ⟨live₁, idx, hlive, hr, rfl⟩ := h
  rcases List.mem_or_eq_of_mem_set hq with hq | hq
  · rcases hlive with rfl | ⟨rfl, -⟩
    · exact Or.inl hq
    · rcases List.mem_append.mp hq with hq | hq
      · exact Or.inl hq
      · exact Or.inr (Or.inl (List.mem_singleton.mp hq))
  · exact Or.inr (Or.inr hq)

theorem map_set_same {α β : Type} {xs : List α} {idx : Nat} {r r' : α} (f : α → β) (hr : xs[idx]? = some r)
    (hf : f r' = f r) : (xs.set idx r').map f = xs.map f := by
  apply List.ext_getElem?
  intro j
  rw [List.getElem?_map, List.getElem?_map]
  by_cases hj : idx = j
  · subst hj
    rw [getElem?_set_self hr, hr, Option.map_some, Option.map_some, hf]
  · rw [List.getElem?_set_ne hj]

theorem Written.ids {live live' : List MethodNodeSerializedInfo} {r r' : MethodNodeSerializedInfo} {β : Type}
    (f : MethodNodeSerializedInfo → β) (hf : f r' = f r) (h : Written g live r r' live') :
    (live'.map f = live.map f ∧ r ∈ live) ∨ live'.map f = (live ++ [r]).map f := by
  obtain ⟨live₁, idx, rfl | ⟨rfl, -⟩, hr, rfl⟩ := h
  · exact Or.inl ⟨map_set_same f hr hf, List.mem_of_getElem? hr⟩
  · exact Or.inr (map_set_same f hr hf)

theorem Written.recorded {old live live' : List MethodNodeSerializedInfo} {r r' : MethodNodeSerializedInfo}
    (h : Written g live r r' live') (hid : r'.callNodeId = r.callNodeId) (k : Nat) :
    Recorded (old ++ live') k ↔ Recorded (old ++ live) k ∨ r.callNodeId = k := by
  have hsplit (log : List MethodNodeSerializedInfo) : Recorded (log ++ [r]) k ↔
      Recorded log k ∨ r.callNodeId = k := by
    simp only [Recorded, List.mem_append, List.mem_singleton, or_and_right, exists_or, exists_eq_left]
    exact or_assoc.symm
  rcases h.ids (fun r => r.callNodeId) hid with ⟨hmap, hmem⟩ | hmap
  · rw [recorded_congr (show (old ++ live').map _ = (old ++ live).map _ by rw [List.map_append, hmap, List.map_append])]
    refine ⟨Or.inl, ?_⟩
    rintro (hk | hk)
    · exact hk
    · exact Or.inr ⟨r, List.mem_append_right _ hmem, hk⟩
  · rw [recorded_congr (show (old ++ live').map _ = (old ++ (live ++ [r])).map _ by
      rw [List.map_append, hmap, ← List.map_append]), ← List.append_assoc]
    exact hsplit (old ++ live)

theorem parented_congr {log log' : List MethodNodeSerializedInfo}
    (h : log'.map (fun r => (r.callNodeId, r.parentNodeId)) = log.map (fun r => (r.callNodeId, r.parentNodeId)))
    (hp : Parented log) : Parented log' := by
  intro j r hr
  have hj := congrArg (fun l => l[j]?) h
  simp only [List.getElem?_map, hr, Option.map_some] at hj
  obtain ⟨q, hq, he⟩ := Option.map_eq_some_iff.mp hj.symm
  rw [Prod.mk.injEq] at he
  have htake := congrArg (fun l : List (Nat × Nat) => (l.take j).map Prod.fst) h
  simp only [← List.map_take, List.map_map] at htake
  rw [← he.2]
  exact (recorded_congr htake _).mpr (hp j q hq)

theorem parented_concat {log : List MethodNodeSerializedInfo}
    {r : MethodNodeSerializedInfo} (hp : Parented log)
    (hr : Recorded log r.parentNodeId) : Parented (log ++ [r]) := by
  intro j q hq
  by_cases hj : j < log.length
  · rw [List.getElem?_append_left hj] at hq
    rw [List.take_append_of_le_length hj.le]
    exact hp j q hq
  · have hlast : j = log.length := by
      have := (List.getElem?_eq_some_iff.mp hq).1
      rw [List.length_append, List.length_singleton] at this
      omega
    subst hlast
    rw [List.getElem?_concat_length, Option.some.injEq] at hq
    subst hq
    rw [List.take_left']
    · exact hr
    · rfl

theorem Written.parented {old live live' : List MethodNodeSerializedInfo} {r r' : MethodNodeSerializedInfo}
    (h : Written g live r r' live') (hid : r'.callNodeId = r.callNodeId)
    (hpar : r'.parentNodeId = r.parentNodeId) (hp : Parented (old ++ live))
    (hr : Recorded (old ++ live) r.parentNodeId) : Parented (old ++ live') := by
  rcases h.ids (fun r => (r.callNodeId, r.parentNodeId)) (by rw [hid, hpar]) with ⟨hmap, -⟩ | hmap
  · apply parented_congr _ hp
    rw [List.map_append, hmap, List.map_append]
  · apply parented_congr _ (parented_concat hp hr)
    rw [List.map_append, hmap, List.append_assoc, ← List.map_append]

theorem RecordInv.nodup {ti : ThreadInfo} (hR : RecordInv ti) :
    (ti.serializedNodeInfoArray.map (fun r => r.callNodeId)).Nodup := by
  rw [List.nodup_iff_injective_getElem]
  intro a b hab
  apply Fin.ext
  have ha := a.2
  have hb := b.2
  simp only [List.length_map] at ha hb
  simp only [List.getElem_map] at hab
  obtain ⟨-, m, hm, -, hi, -⟩ := hR.record a _ (List.getElem?_eq_getElem ha)
  obtain ⟨-, n, hn, -, hj, -⟩ := hR.record b _ (List.getElem?_eq_getElem hb)
  rw [hab, hn, Option.some.injEq] at hm
  rw [← hi, ← hj, hm]

theorem Logged.write (h : Logged st) {ti' : ThreadInfo} {c : Nat} {n : Shape}
    {r r' : MethodNodeSerializedInfo} (hT : TreeInv ti') (hR : RecordInv ti') (hgrow : Grows st.thread ti')
    (hw : Wrote g st.thread ti' c n r r') (hc : 2 ≤ c) (hp : Recorded st.log n.parentNodeId) :
    Logged { st with thread := ti' } ∧ ∀ k, Recorded ({ st with thread := ti' } : Session).log k ↔
      Recorded st.log k ∨ c = k := by
  refine ⟨⟨hT, hR, ?_, ?_, h.ids⟩, ?_⟩
  · intro q hq
    have hold (q : MethodNodeSerializedInfo) (hq : q ∈ st.log) : 2 ≤ q.callNodeId ∧
        ∃ n, shapeAt ti' q.callNodeId = some n ∧ n.parentNodeId = q.parentNodeId ∧ n.nameid = q.nameid := by
      obtain ⟨h2, m, hm, hmp, hmx⟩ := h.place q hq
      obtain ⟨m', hm', hx, hp'⟩ := hgrow _ m hm
      exact ⟨h2, m', hm', hp'.trans hmp, hx.trans hmx⟩
    have hnew : 2 ≤ r.callNodeId ∧
        ∃ n, shapeAt ti' r.callNodeId = some n ∧ n.parentNodeId = r.parentNodeId ∧ n.nameid = r.nameid := by
      rw [hw.id]
      exact ⟨hc, n, hw.shape, hw.parent.symm, hw.name.symm⟩
    rcases List.mem_append.mp hq with hq | hq
    · exact hold q (List.mem_append_left _ hq)
    · rcases hw.written.mem hq with hq | rfl | rfl
      · exact hold q (List.mem_append_right _ hq)
      · exact hnew
      · rw [hw.ids.1, hw.ids.2.1, hw.ids.2.2]
        exact hnew
  · exact hw.written.parented hw.ids.1 hw.ids.2.1 h.parent (hw.parent ▸ hp)
  · intro k
    rw [← hw.id]
    exact hw.written.recorded hw.ids.1 k

theorem Logged.has_record (h : Logged st) (k : Nat) :
    (∃ r ∈ st.log, r.callNodeId = k) ↔ k ≠ 1 ∧ Recorded st.log k := by
  constructor
  · rintro ⟨r, hr, rfl⟩
    have := (h.place r hr).1
    exact ⟨by omega, Or.inr ⟨r, hr, rfl⟩⟩
  · rintro ⟨h1, hk | hk⟩
    · exact absurd hk h1
    · exact hk

def Session.Covered (st : Session) : Prop := Recorded st.log st.thread.currentCallNodeID

theorem Logged.parent_recorded (h : Logged st) {k : Nat} {n : Shape} (hk : Recorded st.log k) (h1 : k ≠ 1)
    (hn : shapeAt st.thread k = some n) : Recorded st.log n.parentNodeId := by
  rcases hk with hk | ⟨r, hr, rfl⟩
  · exact absurd hk h1
  · obtain ⟨-, m, hm, hmp, -⟩ := h.place r hr
    rw [hn, Option.some.injEq] at hm
    subst hm
    obtain ⟨j, hj⟩ := List.getElem?_of_mem hr
    rw [hmp]
    rcases h.parent j r hj with h1 | ⟨q, hq, he⟩
    · exact Or.inl h1
    · exact Or.inr ⟨q, List.mem_of_mem_take hq, he⟩

theorem Logged.call (h : Logged st) (hcov : st.Covered) {x : Nat} {reading : Reading} {ti' : ThreadInfo}
    (hrun : callHandler g reading x st.thread = .ok ti') :
    Logged { st with thread := ti' } ∧ ({ st with thread := ti' } : Session).Covered := by
  obtain ⟨hT, hR, hgrow, h2, m, hm, hmp, -⟩ := callHandler_keeps h.tree h.record hrun
  obtain ⟨n, r, r', hw, -⟩ := callHandler_wrote h.tree h.record hrun
  have hn := hw.shape
  rw [hm, Option.some.injEq] at hn
  subst hn
  obtain ⟨hl, hrec⟩ := h.write hT hR hgrow hw h2 (by rw [hmp]; exact hcov)
  exact ⟨hl, (hrec _).mpr (Or.inr rfl)⟩

theorem Logged.ret (h : Logged st) (hcur : st.thread.currentCallNodeID ≠ 1)
    (hcov : ∀ n, shapeAt st.thread st.thread.currentCallNodeID = some n → Recorded st.log n.parentNodeId)
    {reading : Reading} {ti' : ThreadInfo} (hrun : returnHandler g reading st.thread = .ok ti') :
    Logged { st with thread := ti' } ∧ ({ st with thread := ti' } : Session).Covered := by
  obtain ⟨hT, hR, hs, m, hm, hmc⟩ := returnHandler_keeps h.tree h.record hcur hrun
  obtain ⟨n, r, r', hw, -⟩ := returnHandler_wrote h.tree h.record hcur hrun
  have hn := (hs _).symm.trans hw.shape
  rw [hm, Option.some.injEq] at hn
  subst hn
  have h2 : 2 ≤ st.thread.currentCallNodeID := by
    have := h.tree.current.1
    omega
  obtain ⟨hl, hrec⟩ := h.write hT hR (Grows.of_eq hs) hw h2 (hcov m hm)
  refine ⟨hl, (hrec _).mpr (Or.inl ?_)⟩
  dsimp only
  rw [hmc]
  exact hcov m hm

theorem drain_live {ti ti' : ThreadInfo} {reading : Reading} {d : Drained}
    (hrun : CallTree.drain g reading ti = .ok (ti', d)) : ti'.serializedNodeInfoArray = [] := by
  simp only [CallTree.drain, getNowInfo, bind_eq_ok, pure_eq_ok, Except.ok.injEq, Prod.mk.injEq] at hrun
  obtain ⟨⟨ti₁, now⟩, ⟨v, -, he⟩, rfl, -⟩ := hrun
  rw [Prod.mk.injEq] at he
  rw [← he.1]
  rfl

theorem Logged.drain (h : Logged st) {reading : Reading} {ti' : ThreadInfo} {d : Drained}
    (hgen : st.thread.generationNumber + 1 < 2 ^ 32)
    (hrun : CallTree.drain g reading st.thread = .ok (ti', d)) :
    Logged ⟨ti', st.drained ++ [d]⟩ ∧ (⟨ti', st.drained ++ [d]⟩ : Session).log = st.log ∧
      ti'.serializedNodeInfoArray = [] := by
  obtain ⟨hT, hR, hs, hc, -, hd⟩ := drain_keeps h.tree h.record hgen hrun
  have hlive := drain_live hrun
  have hlog : (⟨ti', st.drained ++ [d]⟩ : Session).log = st.log := by
    rw [Session.log, Session.log, recordsOf_append, recordsOf_singleton, hlive, List.append_nil, hd]
  refine ⟨⟨hT, hR, ?_, ?_, ?_⟩, hlog, hlive⟩
  · rw [hlog]
    intro r hr
    simp only [hs]
    exact h.place r hr
  · rw [hlog]
    exact h.parent
  · intro e he
    rcases List.mem_append.mp he with he | he
    · exact h.ids e he
    · rw [List.mem_singleton.mp he, hd]
      exact RecordInv.nodup h.record

theorem newSession_logged (g : RecordTable) (threadID : Nat) : Logged (newSession g threadID) := by
  refine ⟨newThread_tree g threadID, newThread_record g threadID, ?_, ?_, ?_⟩
  · intro r hr
    cases hr
  · intro j r hr
    cases hr
  · intro d hd
    cases hd

end Llprof.Profiler.Drains
