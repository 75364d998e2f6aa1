import Llprof.Profiler.Cuts
import Llprof.Profiler.Interleaving

namespace Llprof.Profiler.Threads

open Faulting Records CallTree HandlerCases TreeInvariant Drains Cuts

/-- A profiled thread. Its records are in the buffer object that it points to,
not in the list that `info` has for them. -/
structure ProfiledThread where
  info : ThreadInfo
  buffer : Nat

/-- The list of threads, the buffer objects by address and the pointer
`gBackBuffer_SerializedNodeInfoArray`. -/
structure World where
  threads : List ProfiledThread
  heap : List (List MethodNodeSerializedInfo)
  back : Nat

def World.load (w : World) (t : ProfiledThread) : Run ThreadInfo := do
  let records ← fetch w.heap t.buffer
  return { t.info with serializedNodeInfoArray := records }

/-- `get_current_thread` in a thread that is not known yet. -/
def World.spawn (g : RecordTable) (w : World) : World :=
  { w with
    threads := w.threads ++ [⟨newThread g w.threads.length, w.heap.length⟩]
    heap := w.heap ++ [[]] }

/-- `llprof_calltree_init`. -/
def initialWorld (g : RecordTable) : World := World.spawn g ⟨[], [[]], 0⟩

def World.handler (g : RecordTable) (w : World) (i : Nat) (h : Handler) : Run World := do
  let t ← fetch w.threads i
  let ti ← w.load t
  let ti ← h.run g ti
  let heap ← store w.heap t.buffer ti.serializedNodeInfoArray
  let threads ← store w.threads i { t with info := ti }
  return { w with threads, heap }

/-- `CallTree_GetSerializedBuffer`. The thread gets the back buffer, emptied, and
its own becomes the back buffer, from which it is sent. -/
def World.getSerializedBuffer (w : World) (i : Nat) : Run (World × List MethodNodeSerializedInfo) := do
  let t ← fetch w.threads i
  let info := { t.info with
    generationNumber := (t.info.generationNumber + 1) % 2 ^ 32
    nowInfo := { t.info.nowInfo with node := t.info.currentCallNodeID } }
  let threads ← store w.threads i ⟨info, w.back⟩
  let heap ← store w.heap w.back []
  let records ← fetch heap t.buffer
  return ({ threads, heap, back := t.buffer }, records)

def World.getNowInfo (g : RecordTable) (reading : Reading) (w : World) (i : Nat) :
    Run (World × NowBuffer) := do
  let t ← fetch w.threads i
  let (info, nowInfo) ← CallTree.getNowInfo g reading t.info
  let threads ← store w.threads i { t with info }
  return ({ w with threads }, nowInfo)

def World.drain (g : RecordTable) (reading : Reading) (w : World) (i : Nat) : Run (World × Drained) := do
  let (w, records) ← w.getSerializedBuffer i
  let (w, nowInfo) ← w.getNowInfo g reading i
  return (w, ⟨records, nowInfo⟩)

/-- What happens in the profiled program: a thread appears, it reports an event,
or the server drains it. -/
inductive WorldEvent
  | spawn
  | thread (i : Nat) (e : Event)

/-- The node for which `get_current_node_info_pair` adds a record. -/
def stale (ti : ThreadInfo) : List Nat :=
  ((ti.nodeInfoArray[ti.currentCallNodeID]?).elim []
    (fun n => if n.generationNumber ≠ ti.generationNumber then [ti.currentCallNodeID] else []))

def creates (g : RecordTable) (ti : ThreadInfo) : Handler → List Nat
  | .call nameid _ => (enterChild g ti nameid).toOption.elim [] stale
  | .ret _ => if ti.currentCallNodeID = 1 then [] else stale ti

/-- One drain, with the records that its thread has created since the one before. -/
structure Delivery where
  thread : Nat
  drained : Drained
  created : List Nat

/-- The world, what each thread has created since it was drained, and all
deliveries. Only the first is a state of the program. -/
structure System where
  world : World
  created : List (List Nat)
  sent : List Delivery

def WorldEvent.run (g : RecordTable) (s : System) : WorldEvent → Run System
  | spawn => .ok { s with world := s.world.spawn g, created := s.created ++ [[]] }
  | thread i (.handler h) => do
      let t ← fetch s.world.threads i
      let ti ← s.world.load t
      let world ← s.world.handler g i h
      let created ← updateAt s.created i (· ++ creates g ti h)
      return { s with world, created }
  | thread i (.drain reading) => do
      let (world, drained) ← s.world.drain g reading i
      let ids ← fetch s.created i
      let created ← store s.created i []
      return { world, created, sent := s.sent ++ [⟨i, drained, ids⟩] }

def initialSystem (g : RecordTable) : System := ⟨initialWorld g, [[]], []⟩

def runWorld (g : RecordTable) (evs : List WorldEvent) : Run System :=
  evs.foldlM (WorldEvent.run g) (initialSystem g)

def WorldEvent.of? (i : Nat) : WorldEvent → Option Event
  | spawn => none
  | thread j e => if j = i then some e else none

def eventsOf (i : Nat) (evs : List WorldEvent) : List Event := evs.filterMap (WorldEvent.of? i)

def drainedOf (i : Nat) (sent : List Delivery) : List Drained :=
  (sent.filter (fun d => d.thread = i)).map (fun d => d.drained)

variable {g : RecordTable} {w w' : World} {s s' : System} {t : ProfiledThread} {ti ti' : ThreadInfo} {i : Nat}

theorem pair_creates {idx : Nat} (h : getCurrentNodeInfoPair g ti = .ok (ti', idx)) :
    ti'.serializedNodeInfoArray.map (fun r => r.callNodeId) =
      ti.serializedNodeInfoArray.map (fun r => r.callNodeId) ++ stale ti := by
  obtain ⟨n, hn, ⟨hgen, rfl, -⟩ | ⟨hgen, -, rfl⟩⟩ := getCurrentNodeInfoPair_cases h
  · simp [stale, hn, hgen]
  · simp [stale, hn, hgen, newRecord]

theorem handler_creates {h : Handler} (hrun : h.run g ti = .ok ti') :
    ti'.serializedNodeInfoArray.map (fun r => r.callNodeId) =
      ti.serializedNodeInfoArray.map (fun r => r.callNodeId) ++ creates g ti h := by
  cases h with
  | call x reading =>
      obtain ⟨ti₁, ti₂, idx, r, r', n, henter, hpair, hr, hstart, -, rfl⟩ := callHandler_eq_ok.mp hrun
      have hid : r'.callNodeId = r.callNodeId := (startRecord_ids hstart).2.1
      rw [creates, henter, Except.toOption, Option.elim_some,
        ← Interleaving.enterChild_records henter, ← pair_creates hpair]
      exact map_set_same _ hr hid
  | ret reading =>
      by_cases hcur : ti.currentCallNodeID = 1
      · rw [Handler.run, returnHandler, if_pos hcur, Except.ok.injEq] at hrun
        rw [creates, if_pos hcur, List.append_nil, hrun]
      · obtain ⟨-, ti₂, idx, r, r', hpair, hr, hend, rfl⟩ := (returnHandler_eq_ok hcur).mp hrun
        have hid : r'.callNodeId = r.callNodeId := (endRecord_ids hend).2.1
        have hpend := pair_creates hpair
        rw [creates, if_neg hcur]
        exact (map_set_same _ hr hid).trans hpend

theorem load_eq_ok : w.load t = .ok ti ↔
    ∃ records, w.heap[t.buffer]? = some records ∧
      ti = { t.info with serializedNodeInfoArray := records } := by
  simp only [World.load, bind_eq_ok, fetch_eq_ok, pure_eq_ok, Except.ok.injEq]
  exact exists_congr fun _ => and_congr_right fun _ => eq_comm

theorem handler_eq_ok {h : Handler} : w.handler g i h = .ok w' ↔ ∃ t ti ti', w.threads[i]? = some t ∧
    w.load t = .ok ti ∧ h.run g ti = .ok ti' ∧
    w' = { w with threads := w.threads.set i { t with info := ti' }
                  heap := w.heap.set t.buffer ti'.serializedNodeInfoArray } := by
  simp only [World.handler, bind_eq_ok, fetch_eq_ok, store_eq_ok, pure_eq_ok, Except.ok.injEq]
  constructor
  · rintro ⟨t, ht, ti, hl, ti', hrun, heap, ⟨-, rfl⟩, threads, ⟨-, rfl⟩, rfl⟩
    exact ⟨t, ti, ti', ht, hl, hrun, rfl⟩
  · rintro ⟨t, ti, ti', ht, hl, hrun, rfl⟩
    obtain ⟨records, hrec, -⟩ := load_eq_ok.mp hl
    exact ⟨t, ht, ti, hl, ti', hrun, _, ⟨(List.getElem?_eq_some_iff.mp hrec).1, rfl⟩, _,
      ⟨(List.getElem?_eq_some_iff.mp ht).1, rfl⟩, rfl⟩

/-- The drain of a thread is that of the thread with its own buffer, as long as
its buffer is not the back buffer. -/
theorem drain_world {reading : Reading} {d : Drained} (ht : w.threads[i]? = some t) (hl : w.load t = .ok ti)
    (hback : t.buffer ≠ w.back) (hrun : w.drain g reading i = .ok (w', d)) :
    ∃ ti' info, CallTree.drain g reading ti = .ok (ti', d) ∧
      w' = { threads := w.threads.set i ⟨info, w.back⟩, heap := w.heap.set w.back [], back := t.buffer } ∧
      w'.load ⟨info, w.back⟩ = .ok ti' := by
  obtain ⟨records, hrec, rfl⟩ := load_eq_ok.mp hl
  have hi : i < w.threads.length := (List.getElem?_eq_some_iff.mp ht).1
  simp only [World.drain, World.getSerializedBuffer, World.getNowInfo, CallTree.getNowInfo,
    bind_eq_ok, fetch_eq_ok,
    store_eq_ok, pure_eq_ok, Except.ok.injEq, Prod.exists, Prod.mk.injEq, ht, Option.some.injEq] at hrun
  obtain ⟨w₁, records', ⟨u, rfl, _, ⟨-, rfl⟩, _, ⟨hlt, rfl⟩, out, hout, rfl, rfl⟩, w₂, now,
    ⟨u', hu', info, now', ⟨values, hvalues, rfl, rfl⟩, _, ⟨-, rfl⟩, rfl, rfl⟩, rfl, rfl⟩ := hrun
  rw [List.getElem?_set_self hi, Option.some.injEq] at hu'
  subst hu'
  rw [List.getElem?_set_ne hback.symm, hrec, Option.some.injEq] at hout
  subst hout
  let info : ThreadInfo := { t.info with
    generationNumber := (t.info.generationNumber + 1) % 2 ^ 32
    nowInfo := { node := t.info.currentCallNodeID, values } }
  refine ⟨{ info with serializedNodeInfoArray := [] }, info, ?_, ?_, ?_⟩
  · simp only [CallTree.drain, CallTree.getSerializedBuffer, CallTree.getNowInfo, bind_eq_ok, pure_eq_ok,
      Except.ok.injEq, Prod.exists, Prod.mk.injEq]
    exact ⟨_, _, ⟨values, hvalues, rfl, rfl⟩, rfl, rfl⟩
  · rw [List.set_set]
  · exact load_eq_ok.mpr ⟨[], List.getElem?_set_self hlt, rfl⟩

structure Alone (g : RecordTable) (s : System) (i : Nat) (t : ProfiledThread) (st : Session) : Prop where
  load : s.world.load t = .ok st.thread
  drained : st.drained = drainedOf i s.sent
  created : s.created[i]? = some (st.thread.serializedNodeInfoArray.map (fun r => r.callNodeId))

structure Tracked (g : RecordTable) (evs : List WorldEvent) (s : System) : Prop where
  back : s.world.back < s.world.heap.length
  apart : ∀ (i : Nat) (t : ProfiledThread), s.world.threads[i]? = some t → t.buffer ≠ s.world.back
  distinct : ∀ (i j : Nat) (t u : ProfiledThread), s.world.threads[i]? = some t →
    s.world.threads[j]? = some u → t.buffer = u.buffer → i = j
  alone : ∀ (i : Nat) (t : ProfiledThread), s.world.threads[i]? = some t →
    ∃ st, runEvents g (newSession g i) (eventsOf i evs) = .ok st ∧ Alone g s i t st
  absent : ∀ i, s.world.threads.length ≤ i → eventsOf i evs = [] ∧ drainedOf i s.sent = []
  counted : s.created.length = s.world.threads.length
  own : ∀ d ∈ s.sent, d.drained.records.map (fun r => r.callNodeId) = d.created

theorem eventsOf_append (i : Nat) (xs ys : List WorldEvent) :
    eventsOf i (xs ++ ys) = eventsOf i xs ++ eventsOf i ys :=
  List.filterMap_append

theorem eventsOf_self (i : Nat) (e : Event) : eventsOf i [.thread i e] = [e] := by
  simp [eventsOf, WorldEvent.of?]

theorem eventsOf_other {i j : Nat} (h : j ≠ i) (e : Event) : eventsOf i [.thread j e] = [] := by
  simp [eventsOf, WorldEvent.of?, h]

theorem drainedOf_append (i : Nat) (xs ys : List Delivery) :
    drainedOf i (xs ++ ys) = drainedOf i xs ++ drainedOf i ys := by
  simp [drainedOf]

theorem Tracked.spawn {evs : List WorldEvent} (h : Tracked g evs s) :
    Tracked g (evs ++ [.spawn]) { s with world := s.world.spawn g, created := s.created ++ [[]] } := by
  have hev (i : Nat) : eventsOf i (evs ++ [.spawn]) = eventsOf i evs := by
    rw [eventsOf_append]
    exact List.append_nil _
  have hold : ∀ (i : Nat) (t : ProfiledThread), (s.world.spawn g).threads[i]? = some t →
      s.world.threads[i]? = some t ∧ t.buffer < s.world.heap.length ∨
        i = s.world.threads.length ∧ t = ⟨newThread g i, s.world.heap.length⟩ := by
    intro i t ht
    rw [World.spawn, List.getElem?_append] at ht
    split at ht
    · obtain ⟨st, -, ha⟩ := h.alone i t ht
      obtain ⟨records, hrec, -⟩ := load_eq_ok.mp ha.load
      exact Or.inl ⟨ht, (List.getElem?_eq_some_iff.mp hrec).1⟩
    · rename_i hi
      have hz : i - s.world.threads.length = 0 := by
        have := (List.getElem?_eq_some_iff.mp ht).1
        rw [List.length_singleton] at this
        omega
      rw [hz, List.getElem?_cons_zero, Option.some.injEq] at ht
      obtain rfl : i = s.world.threads.length := by omega
      exact Or.inr ⟨rfl, ht.symm⟩
  refine ⟨?_, ?_, ?_, ?_, ?_, ?_, h.own⟩
  · have := h.back
    simp only [World.spawn, List.length_append, List.length_singleton]
    omega
  · intro i t ht
    have := h.back
    rcases hold i t ht with ⟨ht, -⟩ | ⟨-, rfl⟩
    · exact h.apart i t ht
    · simp only [World.spawn]
      omega
  · intro i j t u ht hu he
    rcases hold i t ht with ⟨ht, hlt⟩ | ⟨hi, rfl⟩
    · rcases hold j u hu with ⟨hu, -⟩ | ⟨-, rfl⟩
      · exact h.distinct i j t u ht hu he
      · simp only at he
        omega
    · rcases hold j u hu with ⟨hu, hlt⟩ | ⟨hj, -⟩
      · simp only at he
        omega
      · rw [hi, hj]
  · intro i t ht
    rcases hold i t ht with ⟨ht, hlt⟩ | ⟨hi, rfl⟩
    · obtain ⟨st, hrun, ha⟩ := h.alone i t ht
      obtain ⟨records, hrec, hst⟩ := load_eq_ok.mp ha.load
      refine ⟨st, by rw [hev, hrun], ?_, ha.drained, ?_⟩
      · exact load_eq_ok.mpr ⟨records, by simp only [World.spawn]; rw [List.getElem?_append_left hlt, hrec], hst⟩
      · have hi : i < s.created.length := (List.getElem?_eq_some_iff.mp ha.created).1
        simp only
        rw [List.getElem?_append_left hi, ha.created]
    · obtain ⟨he, hd⟩ := h.absent i hi.ge
      refine ⟨newSession g i, by rw [hev, he]; rfl, ?_, hd.symm, ?_⟩
      · refine load_eq_ok.mpr ⟨[], ?_, rfl⟩
        simp only [World.spawn]
        exact List.getElem?_concat_length
      · simp only
        rw [hi, ← h.counted]
        exact List.getElem?_concat_length
  · intro i hi
    simp only [World.spawn, List.length_append, List.length_singleton] at hi
    rw [hev]
    exact h.absent i (by omega)
  · simp [World.spawn, h.counted]

theorem getElem?_set_cases {α : Type} {xs : List α} {i j : Nat} {a b : α} (h : (xs.set i a)[j]? = some b) :
    j = i ∧ b = a ∨ j ≠ i ∧ xs[j]? = some b := by
  by_cases hij : i = j
  · subst hij
    have hlt : i < xs.length := by
      have := (List.getElem?_eq_some_iff.mp h).1
      rwa [List.length_set] at this
    rw [List.getElem?_set_self hlt, Option.some.injEq] at h
    exact Or.inl ⟨rfl, h.symm⟩
  · rw [List.getElem?_set_ne hij] at h
    exact Or.inr ⟨Ne.symm hij, h⟩

theorem Alone.frame {j : Nat} {u : ProfiledThread} {st : Session}
    (h : Alone g s j u st) {sent : List Delivery} (hheap : w'.heap[u.buffer]? = s.world.heap[u.buffer]?)
    (hsent : drainedOf j sent = drainedOf j s.sent) {created : List (List Nat)}
    (hcreated : created[j]? = s.created[j]?) : Alone g ⟨w', created, sent⟩ j u st := by
  obtain ⟨records, hrec, hst⟩ := load_eq_ok.mp h.load
  exact ⟨load_eq_ok.mpr ⟨records, hheap.trans hrec, hst⟩, h.drained.trans hsent.symm,
    hcreated.trans h.created⟩

theorem Tracked.handler {evs : List WorldEvent} (h : Tracked g evs s) {hd : Handler}
    (hrun : WorldEvent.run g s (.thread i (.handler hd)) = .ok s') :
    Tracked g (evs ++ [.thread i (.handler hd)]) s' := by
  simp only [WorldEvent.run, updateAt, bind_eq_ok, fetch_eq_ok, store_eq_ok, pure_eq_ok,
    Except.ok.injEq] at hrun
  obtain ⟨t, ht, ti, hl, w', hw, created, ⟨ids, hids, hic, rfl⟩, rfl⟩ := hrun
  obtain ⟨t₁, ti₁, ti', ht₁, hl₁, hh, rfl⟩ := handler_eq_ok.mp hw
  rw [ht, Option.some.injEq] at ht₁
  subst ht₁
  rw [hl, Except.ok.injEq] at hl₁
  subst hl₁
  obtain ⟨st, hst, ha⟩ := h.alone i t ht
  rw [ha.load, Except.ok.injEq] at hl
  subst hl
  have hptr : ∀ (j : Nat) (u : ProfiledThread), (s.world.threads.set i { t with info := ti' })[j]? = some u →
      ∃ v, s.world.threads[j]? = some v ∧ v.buffer = u.buffer := by
    intro j u hu
    rcases getElem?_set_cases hu with ⟨rfl, rfl⟩ | ⟨-, hu⟩
    · exact ⟨t, ht, rfl⟩
    · exact ⟨u, hu, rfl⟩
  refine ⟨?_, ?_, ?_, ?_, ?_, ?_, h.own⟩
  · simpa using h.back
  · intro j u hu
    obtain ⟨v, hv, he⟩ := hptr j u hu
    exact he ▸ h.apart j v hv
  · intro j k u v hu hv he
    obtain ⟨u₁, hu₁, heu⟩ := hptr j u hu
    obtain ⟨v₁, hv₁, hev⟩ := hptr k v hv
    exact h.distinct j k u₁ v₁ hu₁ hv₁ (by rw [heu, hev, he])
  · intro j u hu
    rw [eventsOf_append]
    rcases getElem?_set_cases hu with ⟨rfl, rfl⟩ | ⟨hne, hu⟩
    · obtain ⟨records, hrec, -⟩ := load_eq_ok.mp ha.load
      have hlt : t.buffer < s.world.heap.length := (List.getElem?_eq_some_iff.mp hrec).1
      refine ⟨{ st with thread := ti' }, ?_, ?_, ha.drained, ?_⟩
      · rw [eventsOf_self]
        exact runEvents_append.mpr ⟨st, hst, runEvents_cons.mpr ⟨_, run_handler.mpr ⟨ti', hh, rfl⟩, rfl⟩⟩
      · exact load_eq_ok.mpr ⟨_, List.getElem?_set_self hlt, rfl⟩
      · rw [ha.created, Option.some.injEq] at hids
        rw [List.getElem?_set_self hic, handler_creates hh, hids]
    · obtain ⟨su, hsu, hau⟩ := h.alone j u hu
      rw [eventsOf_other hne.symm, List.append_nil]
      refine ⟨su, hsu, hau.frame ?_ rfl (List.getElem?_set_ne hne.symm)⟩
      apply List.getElem?_set_ne
      intro he
      exact hne (h.distinct j i u t hu ht he.symm)
  · intro j hj
    simp only [List.length_set] at hj
    obtain ⟨he, hd⟩ := h.absent j hj
    have hne : i ≠ j := by
      have := (List.getElem?_eq_some_iff.mp ht).1
      omega
    rw [eventsOf_append, he, eventsOf_other hne]
    exact ⟨rfl, hd⟩
  · simpa using h.counted

theorem Tracked.drain {evs : List WorldEvent} (h : Tracked g evs s) {reading : Reading}
    (hrun : WorldEvent.run g s (.thread i (.drain reading)) = .ok s') :
    Tracked g (evs ++ [.thread i (.drain reading)]) s' := by
  simp only [WorldEvent.run, bind_eq_ok, fetch_eq_ok, store_eq_ok, pure_eq_ok,
    Except.ok.injEq, Prod.exists] at hrun
  obtain ⟨w', d, hw, ids, hids, created, ⟨hic, rfl⟩, rfl⟩ := hrun
  obtain ⟨t, ht⟩ : ∃ t, s.world.threads[i]? = some t := by
    have hi : i < s.world.threads.length := h.counted ▸ hic
    exact ⟨_, List.getElem?_eq_getElem hi⟩
  obtain ⟨st, hst, ha⟩ := h.alone i t ht
  obtain ⟨ti', info, hdrain, rfl, hload⟩ := drain_world ht ha.load (h.apart i t ht) hw
  have hptr : ∀ (j : Nat) (u : ProfiledThread), (s.world.threads.set i ⟨info, s.world.back⟩)[j]? = some u →
      j = i ∧ u = ⟨info, s.world.back⟩ ∨ j ≠ i ∧ s.world.threads[j]? = some u :=
    fun j u hu => getElem?_set_cases hu
  have hrecords : d.records = st.thread.serializedNodeInfoArray := by
    simp only [CallTree.drain, CallTree.getSerializedBuffer, CallTree.getNowInfo, bind_eq_ok, pure_eq_ok,
      Except.ok.injEq, Prod.exists, Prod.mk.injEq] at hdrain
    obtain ⟨_, _, -, -, rfl⟩ := hdrain
    rfl
  have hids' : ids = st.thread.serializedNodeInfoArray.map (fun r => r.callNodeId) := by
    rw [ha.created, Option.some.injEq] at hids
    exact hids.symm
  refine ⟨?_, ?_, ?_, ?_, ?_, ?_, ?_⟩
  · obtain ⟨records, hrec, -⟩ := load_eq_ok.mp ha.load
    simpa using (List.getElem?_eq_some_iff.mp hrec).1
  · intro j u hu
    rcases hptr j u hu with ⟨-, rfl⟩ | ⟨hne, hu⟩
    · exact (h.apart i t ht).symm
    · intro he
      exact hne (h.distinct j i u t hu ht he)
  · intro j k u v hu hv he
    rcases hptr j u hu with ⟨hj, rfl⟩ | ⟨-, hu₁⟩
    · rcases hptr k v hv with ⟨hk, -⟩ | ⟨-, hv₁⟩
      · rw [hj, hk]
      · exact absurd he.symm (h.apart k v hv₁)
    · rcases hptr k v hv with ⟨-, rfl⟩ | ⟨-, hv₁⟩
      · exact absurd he (h.apart j u hu₁)
      · exact h.distinct j k u v hu₁ hv₁ he
  · intro j u hu
    rw [eventsOf_append]
    rcases hptr j u hu with ⟨rfl, rfl⟩ | ⟨hne, hu⟩
    · refine ⟨⟨ti', st.drained ++ [d]⟩, ?_, hload, ?_, ?_⟩
      · rw [eventsOf_self]
        exact runEvents_append.mpr ⟨st, hst, runEvents_cons.mpr ⟨_, run_drain.mpr ⟨ti', d, hdrain, rfl⟩, rfl⟩⟩
      · rw [drainedOf_append, ha.drained]
        simp [drainedOf]
      · simp only
        rw [List.getElem?_set_self hic, drain_live hdrain]
        rfl
    · obtain ⟨su, hsu, hau⟩ := h.alone j u hu
      rw [eventsOf_other hne.symm, List.append_nil]
      refine ⟨su, hsu, hau.frame ?_ ?_ (List.getElem?_set_ne hne.symm)⟩
      · exact List.getElem?_set_ne (h.apart j u hu).symm
      · rw [drainedOf_append]
        simp [drainedOf, hne.symm]
  · intro j hj
    simp only [List.length_set] at hj
    obtain ⟨he, hd⟩ := h.absent j hj
    have hne : i ≠ j := by
      have := (List.getElem?_eq_some_iff.mp ht).1
      omega
    rw [eventsOf_append, he, eventsOf_other hne, drainedOf_append, hd]
    simp [drainedOf, hne]
  · simpa using h.counted
  · intro e he
    rcases List.mem_append.mp he with he | he
    · exact h.own e he
    · rw [List.mem_singleton.mp he, hids', hrecords]

theorem initialSystem_tracked (g : RecordTable) : Tracked g [] (initialSystem g) := by
  have hone : ∀ (i : Nat) (t : ProfiledThread), (initialWorld g).threads[i]? = some t →
      i = 0 ∧ t = ⟨newThread g 0, 1⟩ := by
    intro i t ht
    obtain rfl : i = 0 := Nat.lt_one_iff.mp (List.getElem?_eq_some_iff.mp ht).1
    exact ⟨rfl, (Option.some.inj ht).symm⟩
  refine ⟨Nat.zero_lt_succ 1, ?_, ?_, ?_, ?_, rfl, ?_⟩
  · intro i t ht
    rw [(hone i t ht).2]
    exact Nat.one_ne_zero
  · intro i j t u ht hu _
    rw [(hone i t ht).1, (hone j u hu).1]
  · intro i t ht
    obtain ⟨rfl, rfl⟩ := hone i t ht
    exact ⟨newSession g 0, rfl, rfl, rfl, rfl⟩
  · intro i _
    exact ⟨rfl, rfl⟩
  · intro d hd
    cases hd

theorem runWorld_tracked {evs : List WorldEvent} (hrun : runWorld g evs = .ok s) : Tracked g evs s := by
  suffices h : ∀ (done : List WorldEvent) (s₀ : System), Tracked g done s₀ →
      evs.foldlM (WorldEvent.run g) s₀ = .ok s → Tracked g (done ++ evs) s from
    h [] _ (initialSystem_tracked g) hrun
  clear hrun
  induction evs with
  | nil =>
      intro done s₀ h hrun
      cases hrun
      rwa [List.append_nil]
  | cons ev evs ih =>
      intro done s₀ h hrun
      rw [List.foldlM_cons, bind_eq_ok] at hrun
      obtain ⟨s₁, hev, hrest⟩ := hrun
      have hnext : Tracked g (done ++ [ev]) s₁ := by
        cases ev with
        | spawn =>
            cases hev
            exact h.spawn
        | thread i e =>
            cases e with
            | handler hd => exact h.handler hev
            | drain reading => exact h.drain hev
      have := ih (done ++ [ev]) s₁ hnext hrest
      rwa [List.append_assoc, List.singleton_append] at this

end Llprof.Profiler.Threads
