import Llprof.Link.ProfileRequest
import Llprof.Link.WireTick
import Llprof.Profiler.TwoPhaseDrains

namespace Llprof.Link.InterleavedRequest

open Faulting LittleEndian Profiler.Records Profiler.CallTree Profiler.Drains Profiler.Cuts
  Profiler.Threads Profiler.TwoPhaseDrains Wire.Framing Wire.ProfileData Wire.DrainMessages
  Wire.RecordBytes ProfileRequest WireTick

/-- What goes on before `NextBuffer`, before `GetBuffer` and before the buffer has been
sent in one turn, and the counters as they are in it. -/
structure Meanwhile where
  before : List Step
  between : List Step
  sending : List Step
  reading : Reading

/-- The ids of the threads from `gFirstThread` on. -/
def threadIds (w : World) : List Nat := w.threads.map (fun t => t.info.threadID)

/-- What `*buf` and `*size` stand for: the first records of a buffer object, or the
NOWINFO of a thread. -/
inductive BufferPointer
  | records (address size : Nat)
  | nowInfo (i : Nat)

inductive Buffer
  | records (records : List MethodNodeSerializedInfo)
  | nowInfo (values : NowBuffer)

def Buffer.bytes : Buffer → Bytes
  | .records batch => (batch.map recordBytes).flatten
  | .nowInfo values => nowInfoBytes values

def BufferPointer.contents (w : World) : BufferPointer → Run Buffer
  | records address size => do
      let records ← fetch w.heap address
      return .records (records.take size)
  | nowInfo i => do
      let t ← fetch w.threads i
      return .nowInfo t.info.nowInfo

/-- `BufferIteration_GetBuffer`. -/
def getBuffer (g : RecordTable) (reading : Reading) (w : World) (iter : ThreadIterator) :
    Run (World × BufferPointer × ThreadIterator) := do
  require (iter.gotFlag = false) .assertion
  let iter := { iter with gotFlag := true }
  match iter.currentThread with
  | none => if iter.phase = 1 ∨ iter.phase = 2 then throw .nullDeref else throw .assertion
  | some i =>
      if iter.phase = 1 then
        let (w, records) ← w.getSerializedBuffer i
        return (w, .records w.back records.length, iter)
      else if iter.phase = 2 then
        let (w, _) ← w.getNowInfo g reading i
        return (w, .nowInfo i, iter)
      else
        throw .assertion

/-- The arguments of `SendMessage2`. -/
structure Sending where
  msgType : UInt32
  threadId : Nat
  buffer : Buffer

def Sending.message (x : Sending) : Outgoing := .message2 x.msgType (toBytes 8 x.threadId) x.buffer.bytes

/-- The loop of the case MSG_REQ_PROFILE_DATA of `msg_handler`, which ends before
`schedule` does. -/
def sendLoop (g : RecordTable) : List Meanwhile → World → ThreadIterator → Run (List Sending × World)
  | [], _, _ => .error .outOfFuel
  | a :: schedule, w, iter => do
      let w ← runSteps g w a.before
      let (more, iter) ← nextBuffer (threadIds w) iter
      if more then
        let w ← runSteps g w a.between
        let (w, buf, iter) ← getBuffer g a.reading w iter
        let bufferType ← getBufferType iter
        let msgType : UInt32 :=
          if bufferType = BT_PERFORMANCE then MSG_PROFILE_DATA
          else if bufferType = BT_STACK then MSG_STACK_DATA
          else if bufferType = BT_NOWINFO then MSG_NOWINFO
          else 0
        let threadId ← getThreadID (threadIds w) iter
        let w ← runSteps g w a.sending
        let buffer ← buf.contents w
        let (rest, w) ← sendLoop g schedule w iter
        return (⟨msgType, threadId, buffer⟩ :: rest, w)
      else
        return ([], w)

def request (g : RecordTable) (schedule : List Meanwhile) (w : World) : Run (List Sending × World) :=
  sendLoop g schedule w (bufferIterationInitialize (threadIds w))

def replyTo (sendings : List Sending) : List Outgoing :=
  sendings.map Sending.message ++ [.message MSG_COMMAND_SUCCEED []]

def eventsOfSteps (steps : List Step) : List WorldEvent := steps.map Step.event

/-- The turns of `m` threads from thread `i` on, and the last one. Each drain stands where the
buffers are swapped, but reads the counters as the later turn with `MSG_NOWINFO` does. -/
def linear : Nat → Nat → List Meanwhile → List WorldEvent
  | i, m + 1, a :: b :: schedule =>
      eventsOfSteps (a.before ++ a.between) ++ .thread i (.drain b.reading) ::
        (eventsOfSteps (a.sending ++ b.before ++ b.between ++ b.sending) ++ linear (i + 1) m schedule)
  | _, _, a :: _ => eventsOfSteps a.before
  | _, _, [] => []

def sweepOf (sent : List Delivery) : Sweep := sent.map (fun d => (d.thread, d.drained))

def sendingsOf (sweep : Sweep) : List Sending :=
  sweep.flatMap (fun e => [⟨MSG_PROFILE_DATA, e.1, .records e.2.records⟩, ⟨MSG_NOWINFO, e.1, .nowInfo e.2.nowInfo⟩])

variable {g : RecordTable} {done evs : List WorldEvent} {s : System} {w w' : World} {i j : Nat}

theorem run_threadID {st st' : Session} {e : Event} (h : e.run g st = .ok st') :
    st'.thread.threadID = st.thread.threadID := by
  cases e with
  | handler hd =>
      obtain ⟨ti', hrun, rfl⟩ := run_handler.mp h
      exact (run_keeps hrun).1
  | drain reading =>
      obtain ⟨ti', d, hdrain, rfl⟩ := run_drain.mp h
      simp only [Profiler.CallTree.drain, Profiler.CallTree.getNowInfo, bind_eq_ok, pure_eq_ok,
        Except.ok.injEq, Prod.mk.injEq] at hdrain
      obtain ⟨⟨ti₁, now⟩, ⟨v, -, he⟩, rfl, -⟩ := hdrain
      rw [Prod.mk.injEq] at he
      rw [← he.1]
      rfl

theorem runEvents_threadID {es : List Event} {st st' : Session} (h : runEvents g st es = .ok st') :
    st'.thread.threadID = st.thread.threadID := by
  induction es generalizing st with
  | nil =>
      cases h
      rfl
  | cons e es ih =>
      obtain ⟨st₁, he, hrest⟩ := runEvents_cons.mp h
      rw [ih hrest, run_threadID he]

theorem threadIds_tracked (h : Tracked g done s) : threadIds s.world = List.range s.world.threads.length := by
  apply List.ext_getElem?
  intro i
  rw [threadIds, List.getElem?_map]
  cases ht : s.world.threads[i]? with
  | none =>
      have hlen := List.getElem?_eq_none_iff.mp ht
      rw [List.getElem?_eq_none (by rw [List.length_range]; exact hlen)]
      rfl
  | some t =>
      obtain ⟨st, hst, ha⟩ := h.alone i t ht
      obtain ⟨records, -, he⟩ := load_eq_ok.mp ha.load
      have hid := runEvents_threadID hst
      rw [he] at hid
      rw [List.getElem?_range (List.getElem?_eq_some_iff.mp ht).1]
      exact congrArg some hid

theorem runSteps_events {steps : List Step} (hrun : runWorld g done = .ok s)
    (h : runSteps g s.world steps = .ok w') :
    ∃ s', runWorld g (done ++ eventsOfSteps steps) = .ok s' ∧ s'.world = w' ∧ s'.sent = s.sent := by
  induction steps generalizing done s with
  | nil =>
      cases h
      exact ⟨s, by rw [eventsOfSteps, List.map_nil, List.append_nil, hrun], rfl, rfl⟩
  | cons a steps ih =>
      obtain ⟨v, hstep, hrest⟩ := runSteps_cons.mp h
      have hevent : ∃ s₁, a.event.run g s = .ok s₁ ∧ s₁.world = v ∧ s₁.sent = s.sent := by
        cases a with
        | spawn =>
            rw [Step.run, Except.ok.injEq] at hstep
            exact ⟨_, rfl, hstep, rfl⟩
        | handler k hd =>
            obtain ⟨t, ti, ti', ht, hl, -⟩ := handler_eq_ok.mp hstep
            have hlt : k < s.created.length := by
              rw [(runWorld_tracked hrun).counted]
              exact (List.getElem?_eq_some_iff.mp ht).1
            refine ⟨⟨v, s.created.set k (s.created[k] ++ creates g ti hd), s.sent⟩, ?_, rfl, rfl⟩
            rw [Step.run] at hstep
            simp only [Step.event, WorldEvent.run, fetch_eq_ok.mpr ht, ok_bind, hl, hstep, updateAt,
              fetch_eq_ok.mpr (List.getElem?_eq_getElem hlt), store_eq_ok.mpr ⟨hlt, rfl⟩, pure_eq_ok]
      obtain ⟨s₁, hs₁, rfl, hsent⟩ := hevent
      have hrun₁ : runWorld g (done ++ [a.event]) = .ok s₁ := by
        rw [runWorld, foldlM_append_ok]
        exact ⟨s, hrun, by rw [List.foldlM_cons, hs₁]; rfl⟩
      obtain ⟨s', hs', hw, hsent'⟩ := ih hrun₁ hrest
      refine ⟨s', ?_, hw, hsent'.trans hsent⟩
      rw [List.append_assoc] at hs'
      exact hs'

theorem drain_event {reading : Reading} {d : Drained} (hrun : runWorld g done = .ok s)
    (h : s.world.drain g reading i = .ok (w', d)) :
    ∃ s', runWorld g (done ++ [.thread i (.drain reading)]) = .ok s' ∧ s'.world = w' ∧
      sweepOf s'.sent = sweepOf s.sent ++ [(i, d)] := by
  have hlt : i < s.created.length := by
    rw [(runWorld_tracked hrun).counted]
    have hbuf := h
    rw [World.drain, bind_eq_ok] at hbuf
    obtain ⟨r, hbuf, -⟩ := hbuf
    rw [World.getSerializedBuffer, bind_eq_ok] at hbuf
    obtain ⟨t, ht, -⟩ := hbuf
    exact (List.getElem?_eq_some_iff.mp (fetch_eq_ok.mp ht)).1
  refine ⟨⟨w', s.created.set i [], s.sent ++ [⟨i, d, s.created[i]⟩]⟩, ?_, rfl, ?_⟩
  · rw [runWorld, foldlM_append_ok]
    refine ⟨s, hrun, ?_⟩
    simp only [List.foldlM_cons, List.foldlM_nil, WorldEvent.run, h, ok_bind,
      fetch_eq_ok.mpr (List.getElem?_eq_getElem hlt), store_eq_ok.mpr ⟨hlt, rfl⟩, pure_eq_ok]
  · rw [sweepOf, List.map_append]
    rfl

/-- The iterator is about to visit the `j`th thread. -/
def Next (iter : ThreadIterator) (j : Nat) : Prop := ∀ threads : List Nat, threads ≠ [] → ∃ iter',
  nextBuffer threads iter = .ok (decide (j < threads.length), iter') ∧
    (j < threads.length → iter' = ⟨some j, 1, false⟩)

theorem next_initialize {threads : List Nat} (h : threads ≠ []) :
    Next (bufferIterationInitialize threads) 0 := by
  intro threads' h'
  have hpos := List.length_pos_iff.mpr h'
  exact ⟨⟨some 0, 1, false⟩, by simp [bufferIterationInitialize, nextBuffer, h, hpos], fun _ => rfl⟩

theorem next_visited (j : Nat) : Next ⟨some j, 2, true⟩ (j + 1) := by
  intro threads _
  refine ⟨⟨nextOf threads j, 1, false⟩, ?_, fun hj => by rw [nextOf, if_pos hj]⟩
  by_cases hj : j + 1 < threads.length <;> simp [nextBuffer, nextOf, hj]

variable {a : Meanwhile} {schedule : List Meanwhile} {iter : ThreadIterator} {sendings : List Sending}

theorem length_threadIds (w : World) : (threadIds w).length = w.threads.length := List.length_map _

theorem runSteps_append {xs ys : List Step} :
    runSteps g w (xs ++ ys) = .ok w' ↔ ∃ v, runSteps g w xs = .ok v ∧
      runSteps g v ys = .ok w' := foldlM_append_ok

theorem runSteps_length {steps : List Step} (h : runSteps g w steps = .ok w') :
    w.threads.length ≤ w'.threads.length := by
  by_contra hlt
  rw [Nat.not_le] at hlt
  obtain ⟨t, ht, -⟩ := runSteps_keeps h (List.getElem?_eq_getElem hlt)
  exact Nat.lt_irrefl _ (List.getElem?_eq_some_iff.mp ht).1

theorem contents_records {address size : Nat} {buffer : Buffer} :
    (BufferPointer.records address size).contents w = .ok buffer ↔
      ∃ records, w.heap[address]? = some records ∧ buffer = .records (records.take size) := by
  simp only [BufferPointer.contents, bind_eq_ok, fetch_eq_ok, pure_eq_ok, Except.ok.injEq]
  exact exists_congr fun _ => and_congr_right fun _ => eq_comm

theorem contents_nowInfo {buffer : Buffer} :
    (BufferPointer.nowInfo i).contents w = .ok buffer ↔ ∃ t, w.threads[i]? = some t ∧
      buffer = .nowInfo t.info.nowInfo := by
  simp only [BufferPointer.contents, bind_eq_ok, fetch_eq_ok, pure_eq_ok, Except.ok.injEq]
  exact exists_congr fun _ => and_congr_right fun _ => eq_comm

theorem sendLoop_records (hnext : Next iter j) (hw : 0 < w.threads.length)
    (h : sendLoop g (a :: schedule) w iter = .ok (sendings, w')) : ∃ w₁, runSteps g w a.before = .ok w₁ ∧
      (w₁.threads.length ≤ j ∧ sendings = [] ∧ w' = w₁ ∨
        j < w₁.threads.length ∧ ∃ w₂ w₃ w₄ records id buffer rest, runSteps g w₁ a.between = .ok w₂ ∧
          w₂.getSerializedBuffer j = .ok (w₃, records) ∧ (threadIds w₃)[j]? = some id ∧
            runSteps g w₃ a.sending = .ok w₄ ∧
          (BufferPointer.records w₃.back records.length).contents w₄ = .ok buffer ∧
          sendLoop g schedule w₄ ⟨some j, 1, true⟩ = .ok (rest, w') ∧
          sendings = ⟨MSG_PROFILE_DATA, id, buffer⟩ :: rest) := by
  rw [sendLoop, bind_eq_ok] at h
  obtain ⟨w₁, hbefore, h⟩ := h
  have hpos : threadIds w₁ ≠ [] := by
    rw [← List.length_pos_iff, length_threadIds]
    exact hw.trans_le (runSteps_length hbefore)
  obtain ⟨iter', hbuf, hiter⟩ := hnext (threadIds w₁) hpos
  rw [length_threadIds] at hbuf hiter
  refine ⟨w₁, hbefore, ?_⟩
  rw [hbuf, ok_bind] at h
  by_cases hj : j < w₁.threads.length
  · obtain rfl := hiter hj
    simp only [hj, decide_true, if_true, getBuffer, getBufferType, getThreadID, require_of,
      ok_bind, pure_eq_ok, bind_eq_ok, Except.ok.injEq, Prod.exists, Prod.mk.injEq] at h
    obtain ⟨w₂, hbetween, w₃, buf, iter', ⟨_, records, hrecords, rfl, rfl, rfl⟩, bufferType,
      htype, id, hid, w₄, hsending, buffer, hbuffer, rest, w₅, hrest, rfl, rfl⟩ := h
    obtain rfl : BT_PERFORMANCE = bufferType := Except.ok.inj htype
    exact Or.inr ⟨hj, w₂, _, w₄, records, id, buffer, rest, hbetween, hrecords, fetch_eq_ok.mp hid,
      hsending, hbuffer, hrest, rfl⟩
  · simp only [hj, decide_false, Bool.false_eq_true, if_false, pure_eq_ok,
      Except.ok.injEq, Prod.mk.injEq] at h
    exact Or.inl ⟨Nat.not_lt.mp hj, h.1.symm, h.2.symm⟩

theorem sendLoop_nowInfo (h : sendLoop g (a :: schedule) w ⟨some j, 1, true⟩ = .ok (sendings, w')) :
    ∃ w₁ w₂ w₃ now id buffer rest, runSteps g w (a.before ++ a.between) = .ok w₁ ∧
      w₁.getNowInfo g a.reading j = .ok (w₂, now) ∧ (threadIds w₂)[j]? = some id ∧
        runSteps g w₂ a.sending = .ok w₃ ∧
      (BufferPointer.nowInfo j).contents w₃ = .ok buffer ∧
        sendLoop g schedule w₃ ⟨some j, 2, true⟩ = .ok (rest, w') ∧
      sendings = ⟨MSG_NOWINFO, id, buffer⟩ :: rest := by
  rw [sendLoop, bind_eq_ok] at h
  obtain ⟨w₁, hbefore, h⟩ := h
  have hbuf (threads : List Nat) : nextBuffer threads ⟨some j, 1, true⟩ = .ok (true, ⟨some j, 2, false⟩) :=
    rfl
  simp only [hbuf, if_true, getBuffer, getBufferType, getThreadID, require_of,
    ok_bind, pure_eq_ok, bind_eq_ok,
    Except.ok.injEq, Prod.exists, Prod.mk.injEq, OfNat.ofNat_ne_one, if_false] at h
  obtain ⟨w₂, hbetween, w₃, buf, iter', ⟨_, now, hnow, rfl, rfl, rfl⟩, bufferType, htype, id,
    hid, w₄, hsending, buffer, hbuffer, rest, w₅, hrest, rfl, rfl⟩ := h
  obtain rfl : BT_NOWINFO = bufferType := Except.ok.inj htype
  exact ⟨w₂, _, w₄, now, id, buffer, rest, runSteps_append.mpr ⟨w₁, hbefore, hbetween⟩, hnow,
    fetch_eq_ok.mp hid, hsending, hbuffer, hrest, rfl⟩

theorem getSerializedBuffer_ids {records : List MethodNodeSerializedInfo}
    (h : w.getSerializedBuffer i = .ok (w', records)) : threadIds w' = threadIds w := by
  obtain ⟨t, info, ht, -, rfl, -, rfl⟩ := getSerializedBuffer_eq_ok.mp h
  exact map_set_same (fun t : ProfiledThread => t.info.threadID) ht rfl

theorem noted_ids (i : Nat) (now : NowBuffer) (w : World) : threadIds (noted i now w) = threadIds w := by
  ext1 k
  simp only [threadIds, noted, List.getElem?_map, List.getElem?_modify]
  cases w.threads[k]? with
  | none => rfl
  | some t =>
      by_cases hik : i = k
      · simp [hik, note]
      · simp [hik]

theorem runSteps_ids {steps : List Step} (hrun : runSteps g w steps = .ok w') {id : Nat}
    (h : (threadIds w)[i]? = some id) : (threadIds w')[i]? = some id := by
  rw [threadIds, List.getElem?_map, Option.map_eq_some_iff] at h ⊢
  obtain ⟨t, ht, rfl⟩ := h
  obtain ⟨t', ht', hid, -⟩ := runSteps_keeps hrun ht
  exact ⟨t', ht', hid⟩

theorem sent_nowInfo {steps : List Step} {reading : Reading} {now : NowBuffer}
    {buffer : Buffer} {w₁ w₂ : World} (hnow : w.getNowInfo g reading i = .ok (w₁, now))
    (hrun : runSteps g w₁ steps = .ok w₂) (hbuffer : (BufferPointer.nowInfo i).contents w₂ = .ok buffer) :
    buffer = .nowInfo now := by
  obtain ⟨t, values, ht, -, -, rfl⟩ := getNowInfo_eq_ok.mp hnow
  have hself : (noted i now w).threads[i]? = some (note now t) := by
    rw [noted, List.getElem?_modify_eq, ht]
    rfl
  obtain ⟨u, hu, -, hkept⟩ := runSteps_keeps hrun hself
  obtain ⟨v, hv, rfl⟩ := contents_nowInfo.mp hbuffer
  rw [hu, Option.some.injEq] at hv
  rw [← hv, hkept]
  rfl

theorem sent_records {steps : List Step} {records : List MethodNodeSerializedInfo}
    {buffer : Buffer} {w₁ w₂ : World} (h : Tracked g done s)
    (hbuf : s.world.getSerializedBuffer i = .ok (w₁, records)) (hrun : runSteps g w₁ steps = .ok w₂)
    (hbuffer : (BufferPointer.records w₁.back records.length).contents w₂ = .ok buffer) :
    buffer = .records records := by
  obtain ⟨hspared, hrecords⟩ := getSerializedBuffer_spares h hbuf
  obtain ⟨-, hheap⟩ := runSteps_spares hspared hrun
  obtain ⟨records', hrecords', rfl⟩ := contents_records.mp hbuffer
  rw [hheap, hrecords, Option.some.injEq] at hrecords'
  rw [← hrecords', List.take_length]

/-- Taking a buffer and reading the counters later is a drain in one piece, with all
that has gone on since after it. -/
theorem drain_moved {steps : List Step} {reading : Reading}
    {records : List MethodNodeSerializedInfo} {now : NowBuffer} {w₁ w₂ w₃ : World} (hi : i < w.threads.length)
    (hbuf : w.getSerializedBuffer i = .ok (w₁, records)) (hrun : runSteps g w₁ steps = .ok w₂)
    (hnow : w₂.getNowInfo g reading i = .ok (w₃, now)) :
    ∃ v, w.drain g reading i = .ok (v, ⟨records, now⟩) ∧ runSteps g v steps = .ok w₃ := by
  have hlen : w₁.threads.length = w.threads.length := by
    rw [← length_threadIds, getSerializedBuffer_ids hbuf, length_threadIds]
  obtain ⟨hnow₁, hmoved⟩ := runSteps_getNowInfo (hlen ▸ hi) hrun hnow
  refine ⟨noted i now w₁, ?_, hmoved⟩
  rw [World.drain, hbuf, ok_bind]
  dsimp only
  rw [hnow₁]
  rfl

theorem sendLoop_visit {b : Meanwhile} {records : List MethodNodeSerializedInfo} {buffer : Buffer} {id : Nat}
    {rest : List Sending} {w₁ w₂ : World} (hrun : runWorld g done = .ok s) (hj : j < s.world.threads.length)
    (hbuf : s.world.getSerializedBuffer j = .ok (w₁, records)) (hid : (threadIds w₁)[j]? = some id)
    (hsending : runSteps g w₁ a.sending = .ok w₂)
    (hbuffer : (BufferPointer.records w₁.back records.length).contents w₂ = .ok buffer)
    (hrest : sendLoop g (b :: schedule) w₂ ⟨some j, 1, true⟩ = .ok (rest, w')) :
    ∃ s' d rest', runWorld g (done ++ .thread j (.drain b.reading) ::
        eventsOfSteps (a.sending ++ b.before ++ b.between ++ b.sending)) = .ok s' ∧
      sweepOf s'.sent = sweepOf s.sent ++ [(j, d)] ∧ s.world.threads.length ≤ s'.world.threads.length ∧
      sendLoop g schedule s'.world ⟨some j, 2, true⟩ = .ok (rest', w') ∧
      ⟨MSG_PROFILE_DATA, id, buffer⟩ :: rest = sendingsOf [(j, d)] ++ rest' := by
  have htracked := runWorld_tracked hrun
  obtain ⟨w₃, w₄, w₅, now, id', buffer', rest', hmeanwhile, hnow, hid', hsending', hbuffer', hrest', rfl⟩ :=
    sendLoop_nowInfo hrest
  have hsteps := runSteps_append.mpr ⟨w₂, hsending, hmeanwhile⟩
  have hplace : (threadIds w₁)[j]? = some j := by
    rw [getSerializedBuffer_ids hbuf, threadIds_tracked htracked, List.getElem?_range hj]
  have hplace' : (threadIds w₄)[j]? = some j := by
    obtain ⟨_, _, -, -, -, rfl⟩ := getNowInfo_eq_ok.mp hnow
    rw [noted_ids]
    exact runSteps_ids hsteps hplace
  obtain rfl := Option.some.inj (hplace.symm.trans hid)
  obtain rfl := Option.some.inj (hplace'.symm.trans hid')
  obtain rfl := sent_records htracked hbuf hsending hbuffer
  obtain rfl := sent_nowInfo hnow hsending' hbuffer'
  obtain ⟨v, hdrain, hmoved⟩ := drain_moved hj hbuf hsteps hnow
  obtain ⟨s₁, hs₁, rfl, hsent₁⟩ := drain_event hrun hdrain
  obtain ⟨s₂, hs₂, rfl, hsent₂⟩ := runSteps_events hs₁ (runSteps_append.mpr ⟨w₄, hmoved, hsending'⟩)
  refine ⟨s₂, ⟨records, now⟩, rest', ?_, ?_, ?_, hrest', rfl⟩
  · simpa only [List.append_assoc, List.cons_append, List.nil_append] using hs₂
  · rw [sweepOf, hsent₂, ← sweepOf, hsent₁]
  · have hkept := runSteps_length hsteps
    have hsame : s.world.threads.length = w₁.threads.length := by
      rw [← length_threadIds, ← getSerializedBuffer_ids hbuf, length_threadIds]
    have hlast := runSteps_length hsending'
    have hmid : w₄.threads.length = w₃.threads.length := by
      obtain ⟨_, _, -, -, -, rfl⟩ := getNowInfo_eq_ok.mp hnow
      rw [← length_threadIds, noted_ids, length_threadIds]
    omega

theorem sendLoop_linear (hrun : runWorld g done = .ok s)
    (hw : 0 < s.world.threads.length) (hnext : Next iter j)
    (h : sendLoop g schedule s.world iter = .ok (sendings, w')) :
    ∃ m s' sweep, runWorld g (done ++ linear j m schedule) = .ok s' ∧ s'.world = w' ∧
      sweepOf s'.sent = sweepOf s.sent ++ sweep ∧ sweep.map Prod.fst = List.range' j m ∧
      s.world.threads.length ≤ w'.threads.length ∧ w'.threads.length ≤ j + m ∧
        (0 < m → j + m ≤ w'.threads.length) ∧
      sendings = sendingsOf sweep := by
  induction schedule using List.twoStepInduction generalizing done s iter j sendings with
  | nil => cases h
  | singleton a =>
      obtain ⟨w₁, hbefore, ⟨hlen, rfl, rfl⟩ | ⟨-, w₂, w₃, w₄, records, id, buffer, rest, -, -, -, -, -, hrest, -⟩⟩ :=
        sendLoop_records hnext hw h
      · obtain ⟨s', hs', rfl, hsent⟩ := runSteps_events hrun hbefore
        exact ⟨0, s', [], hs', rfl, by rw [sweepOf, hsent, List.append_nil, sweepOf], rfl, runSteps_length hbefore, hlen,
          fun h0 => absurd h0 (Nat.lt_irrefl 0), rfl⟩
      · cases hrest
  | cons_cons a b schedule ih _ =>
      obtain ⟨w₁, hbefore, ⟨hlen, rfl, rfl⟩ | ⟨hj, w₂, w₃, w₄, records, id, buffer, rest, hbetween, hrecords, hid, hsending,
        hbuffer, hrest, rfl⟩⟩ := sendLoop_records hnext hw h
      · obtain ⟨s', hs', rfl, hsent⟩ := runSteps_events hrun hbefore
        exact ⟨0, s', [], hs', rfl, by rw [sweepOf, hsent, List.append_nil, sweepOf], rfl, runSteps_length hbefore, hlen,
          fun h0 => absurd h0 (Nat.lt_irrefl 0), rfl⟩
      · obtain ⟨s₁, hs₁, rfl, hsent₁⟩ := runSteps_events hrun (runSteps_append.mpr ⟨w₁, hbefore, hbetween⟩)
        have hfirst := (runSteps_length hbefore).trans (runSteps_length hbetween)
        have hj₁ := hj.trans_le (runSteps_length hbetween)
        obtain ⟨s₂, d, rest', hs₂, hsent₂, hgrown, hrest', hvisit⟩ :=
          sendLoop_visit hs₁ hj₁ hrecords hid hsending hbuffer hrest
        obtain ⟨m, s', sweep, hs', hw', hsent', hsweep, hkept, hend, hreach, rfl⟩ :=
          ih hs₂ (by omega) (next_visited j) hrest'
        refine ⟨m + 1, s', (j, d) :: sweep, ?_, hw', ?_, ?_, by omega, by omega, by omega, hvisit⟩
        · rw [linear]
          simpa only [List.append_assoc, List.cons_append, List.nil_append] using hs'
        · rw [hsent', hsent₂, sweepOf, hsent₁, sweepOf, List.append_assoc, List.singleton_append]
        · rw [List.map_cons, hsweep]
          rfl

theorem drain_ids {reading : Reading} {d : Drained} (h : w.drain g reading i = .ok (w', d)) :
    threadIds w' = threadIds w := by
  simp only [World.drain, bind_eq_ok, pure_eq_ok, Except.ok.injEq, Prod.exists, Prod.mk.injEq] at h
  obtain ⟨w₁, records, hbuf, w₂, now, hnow, rfl, -⟩ := h
  obtain ⟨_, _, -, -, -, rfl⟩ := getNowInfo_eq_ok.mp hnow
  rw [noted_ids, getSerializedBuffer_ids hbuf]

theorem run_threads {ev : WorldEvent} {s' : System} (h : ev.run g s = .ok s') :
    s.world.threads.length ≤ s'.world.threads.length := by
  cases ev with
  | spawn =>
      cases h
      simp [World.spawn]
  | thread k e =>
      cases e with
      | handler hd =>
          simp only [WorldEvent.run, bind_eq_ok, pure_eq_ok, Except.ok.injEq] at h
          obtain ⟨t, -, ti, -, v, hv, created, -, rfl⟩ := h
          obtain ⟨_, _, _, -, -, -, rfl⟩ := handler_eq_ok.mp hv
          simp
      | drain reading =>
          simp only [WorldEvent.run, bind_eq_ok, pure_eq_ok, Except.ok.injEq, Prod.exists] at h
          obtain ⟨v, d, hv, ids, -, created, -, rfl⟩ := h
          rw [← length_threadIds, ← drain_ids hv, length_threadIds]

theorem runWorld_threads (h : runWorld g done = .ok s) : 0 < s.world.threads.length := by
  induction done using List.reverseRecOn generalizing s with
  | nil =>
      cases h
      exact Nat.one_pos
  | append_singleton done ev ih =>
      rw [runWorld, foldlM_append_ok] at h
      obtain ⟨s₁, hs₁, hev⟩ := h
      rw [List.foldlM_cons, bind_eq_ok] at hev
      obtain ⟨s₂, hs₂, hend⟩ := hev
      cases hend
      exact (ih hs₁).trans_le (run_threads hs₂)

/-- A request sends, in the order of the threads and once for each that there is at its end, the
records and the running node of the swap with the counters of the later turn, whatever
handlers run while buffers are taken, read and sent. -/
theorem request_atomic (g : RecordTable) (done : List WorldEvent) (s : System) (schedule : List Meanwhile)
    (sendings : List Sending) (w' : World) (hrun : runWorld g done = .ok s)
    (h : request g schedule s.world = .ok (sendings, w')) :
    ∃ s' sweep, runWorld g (done ++ linear 0 w'.threads.length schedule) = .ok s' ∧ s'.world = w' ∧
      sweepOf s'.sent = sweepOf s.sent ++ sweep ∧ sweep.map Prod.fst = List.range w'.threads.length ∧
      sendings = sendingsOf sweep := by
  have hpos := runWorld_threads hrun
  have hne : threadIds s.world ≠ [] := by
    rw [← List.length_pos_iff, length_threadIds]
    exact hpos
  obtain ⟨m, s', sweep, hs', hw', hsent, hids, hkept, hend, hreach, hsendings⟩ :=
    sendLoop_linear hrun hpos ( next_initialize hne) h
  have hm : m = w'.threads.length := by omega
  subst hm
  rw [← List.range_eq_range'] at hids
  exact ⟨s', sweep, hs', hw', hsent, hids, hsendings⟩

/-- A thread that calls and returns while its buffer is sent, and another one that
appears meanwhile. -/
def busySchedule : List Meanwhile :=
  [⟨[.handler 0 (.call 5 (fun _ => 10))], [], [.handler 0 (.ret (fun _ => 20)), .spawn], fun _ => 15⟩,
   ⟨[.handler 1 (.call 6 (fun _ => 25))], [.handler 0 (.call 7 (fun _ => 30))], [], fun _ => 40⟩,
   ⟨[], [], [.handler 1 (.ret (fun _ => 45))], fun _ => 40⟩, ⟨[], [], [], fun _ => 50⟩,
     ⟨[], [], [], fun _ => 0⟩]

theorem request_atomic_busy :
    ∃ s sendings w', runWorld oneCounter [] = .ok s ∧
      request oneCounter busySchedule s.world = .ok (sendings, w') ∧
      ∃ s' sweep, runWorld oneCounter ([] ++ linear 0 w'.threads.length busySchedule) = .ok s' ∧
        s'.world = w' ∧
        sweepOf s'.sent = sweepOf s.sent ++ sweep ∧ sweep.map Prod.fst = List.range w'.threads.length ∧
        sendings = sendingsOf sweep :=
  ⟨_, _, _, rfl, rfl, request_atomic oneCounter [] _ busySchedule _ _ rfl rfl⟩

end Llprof.Link.InterleavedRequest
