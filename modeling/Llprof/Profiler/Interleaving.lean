import Llprof.Profiler.HandlerCases

namespace Llprof.Profiler.Interleaving

open Faulting Records CallTree HandlerCases

/-- A record vector: its elements and what its allocation still holds behind
them. `resize(0)` frees nothing, so pointers into it stay readable. -/
structure Buffer where
  records : List MethodNodeSerializedInfo
  beyond : List MethodNodeSerializedInfo
  deriving DecidableEq, Repr

def Buffer.read (b : Buffer) (idx : Nat) : Option MethodNodeSerializedInfo := (b.records ++ b.beyond)[idx]?

def Buffer.write (b : Buffer) (idx : Nat) (r : MethodNodeSerializedInfo) : Buffer :=
  if idx < b.records.length then { b with records := b.records.set idx r }
  else { b with beyond := b.beyond.set (idx - b.records.length) r }

/-- The pointer `sinfo`: one of the two vectors and a position in it. -/
structure Handle where
  buffer : Bool
  idx : Nat
  deriving DecidableEq, Repr

/-- Where the profiled thread stands: between handlers, or in one of them before
or after its locked section. -/
inductive Phase
  | idle
  | called
  | counting (h : Handle)
  | returning
  | ending (h : Handle)
  deriving DecidableEq, Repr

/-- The profiled thread and the server thread. `live` names the vector that
`SerializedNodeInfoArray` points to; its elements are those of `thread`. The
server is `draining` from the swap until the drained buffer has been sent.
`entered` records the nodes whose `call_count` has been incremented. -/
structure Process where
  thread : ThreadInfo
  beyond : List MethodNodeSerializedInfo
  back : Buffer
  live : Bool
  phase : Phase
  draining : Bool
  sent : List (List MethodNodeSerializedInfo)
  entered : List Nat

def Process.liveBuffer (s : Process) : Buffer := ⟨s.thread.serializedNodeInfoArray, s.beyond⟩

def Process.read (s : Process) (h : Handle) : Option MethodNodeSerializedInfo :=
  if h.buffer = s.live then s.liveBuffer.read h.idx else s.back.read h.idx

def Process.write (s : Process) (h : Handle) (r : MethodNodeSerializedInfo) : Process :=
  if h.buffer = s.live then
    let b := s.liveBuffer.write h.idx r
    { s with thread := { s.thread with serializedNodeInfoArray := b.records }, beyond := b.beyond }
  else
    { s with back := s.back.write h.idx r }

inductive Action
  | enter (nameid : Nat)
  | lock
  | increment (reading : Reading)
  | beginReturn
  | leave (reading : Reading)
  | drain
  | send

def toOption {α : Type} : Run α → Option α
  | .ok a => some a
  | .error _ => none

/-- Appending a record reallocates the vector to its new size, which drops
whatever lay behind the elements. -/
def lockedSection (g : RecordTable) (s : Process) (next : Handle → Phase) : Option Process := do
  let (thread, idx) ← toOption (getCurrentNodeInfoPair g s.thread)
  let grown := s.thread.serializedNodeInfoArray.length < thread.serializedNodeInfoArray.length
  return { s with thread, beyond := if grown then [] else s.beyond, phase := next ⟨s.live, idx⟩ }

/-- One atomic step of either party; `none` where the party is not at that point
of its code. -/
def step (g : RecordTable) (s : Process) : Action → Option Process
  | .enter nameid =>
      match s.phase with
      | .idle => do
          let thread ← toOption (enterChild g s.thread nameid)
          return { s with thread, phase := .called }
      | _ => none
  | .lock =>
      match s.phase with
      | .called => lockedSection g s .counting
      | .returning => lockedSection g s .ending
      | _ => none
  | .increment reading =>
      match s.phase with
      | .counting h => do
          let sinfo ← s.read h
          let sinfo ← toOption (startRecord g reading sinfo)
          let s := s.write h sinfo
          let thread ← toOption (saveStart s.thread sinfo.profileValue)
          return { s with thread, phase := .idle, entered := s.entered ++ [s.thread.currentCallNodeID] }
      | _ => none
  | .beginReturn =>
      match s.phase with
      | .idle =>
          if s.thread.currentCallNodeID = 1 then some s
          else if s.thread.stop = false then
            some { s with thread := { s.thread with stop := true }, phase := .returning }
          else none
      | _ => none
  | .leave reading =>
      match s.phase with
      | .ending h => do
          let sinfo ← s.read h
          let sinfo ← toOption (endRecord g reading s.thread sinfo)
          let s := s.write h sinfo
          return { s with thread := leaveTo s.thread sinfo.parentNodeId, phase := .idle }
      | _ => none
  | .drain =>
      if s.draining then none
      else
        let (thread, records) := getSerializedBuffer s.thread
        some { s with
          thread
          beyond := s.back.records ++ s.back.beyond
          back := ⟨records, s.beyond⟩
          live := !s.live
          draining := true }
  | .send =>
      if s.draining then some { s with sent := s.sent ++ [s.back.records], draining := false } else none

def newProcess (g : RecordTable) (threadID : Nat) : Process :=
  { thread := newThread g threadID, beyond := [], back := ⟨[], []⟩, live := true, phase := .idle
    draining := false, sent := [], entered := [] }

def callsOf (k : Nat) (records : List MethodNodeSerializedInfo) : Nat :=
  ((records.filter (fun r => r.callNodeId = k)).map (fun r => r.callCount)).sum

/-- The calls of a node over all sent buffers, a drained buffer that is still to
be sent and the live buffer. -/
def Process.recordedCalls (s : Process) (k : Nat) : Nat :=
  callsOf k s.sent.flatten + (if s.draining then callsOf k s.back.records else 0) +
    callsOf k s.thread.serializedNodeInfoArray

def Conserved (s : Process) : Prop := ∀ k, s.entered.count k = s.recordedCalls k

/-- The pointer still designates a record of the current node that is yet to be
sent: its buffer is live, or drained and waiting. -/
def StillCounts (s : Process) (h : Handle) : Prop :=
  ∃ r : MethodNodeSerializedInfo, r.callNodeId = s.thread.currentCallNodeID ∧
    (h.buffer = s.live ∧ s.thread.serializedNodeInfoArray[h.idx]? = some r ∨
      h.buffer ≠ s.live ∧ s.draining = true ∧ s.back.records[h.idx]? = some r)

def AlwaysConserved (g : RecordTable) : Process → List Action → Prop
  | s, [] => Conserved s
  | s, a :: as => Conserved s ∧ ∀ s', step g s a = some s' → AlwaysConserved g s' as

def Counts (s : Process) (a : Action) : Prop :=
  ∀ reading h, a = .increment reading → s.phase = .counting h → StillCounts s h

def AlwaysCounts (g : RecordTable) : Process → List Action → Prop
  | _, [] => True
  | s, a :: as => ∀ s', step g s a = some s' → Counts s a ∧ AlwaysCounts g s' as

theorem toOption_eq_some {α : Type} {x : Run α} {a : α} : toOption x = some a ↔ x = .ok a := by
  cases x <;> simp [toOption]

theorem callsOf_append (k : Nat) (xs ys : List MethodNodeSerializedInfo) :
    callsOf k (xs ++ ys) = callsOf k xs + callsOf k ys := by
  simp [callsOf]

theorem callsOf_singleton (k : Nat) (r : MethodNodeSerializedInfo) :
    callsOf k [r] = if r.callNodeId = k then r.callCount else 0 := by
  by_cases h : r.callNodeId = k <;> simp [callsOf, h]

theorem callsOf_cons (k : Nat) (r : MethodNodeSerializedInfo) (xs : List MethodNodeSerializedInfo) :
    callsOf k (r :: xs) = (if r.callNodeId = k then r.callCount else 0) + callsOf k xs := by
  rw [← List.singleton_append, callsOf_append, callsOf_singleton]

/-- Overwriting a record with one of the same node moves that node's calls by
the difference of the two counts. -/
theorem callsOf_set {xs : List MethodNodeSerializedInfo} {idx : Nat} {r r' : MethodNodeSerializedInfo}
    (h : xs[idx]? = some r) (hid : r'.callNodeId = r.callNodeId) {d : Nat}
    (hc : r'.callCount = r.callCount + d) (k : Nat) :
    callsOf k (xs.set idx r') = callsOf k xs + if r.callNodeId = k then d else 0 := by
  induction xs generalizing idx with
  | nil => simp at h
  | cons x xs ih =>
      cases idx with
      | zero =>
          simp only [List.getElem?_cons_zero, Option.some.injEq] at h
          subst h
          rw [List.set_cons_zero, callsOf_cons, callsOf_cons, hid, hc]
          split <;> omega
      | succ idx =>
          rw [List.getElem?_cons_succ] at h
          rw [List.set_cons_succ, callsOf_cons, callsOf_cons, ih h, Nat.add_assoc]

theorem enterChild_records {g : RecordTable} {ti ti' : ThreadInfo} {x : Nat}
    (h : enterChild g ti x = .ok ti') : ti'.serializedNodeInfoArray = ti.serializedNodeInfoArray := by
  simp only [enterChild, getChildNodeID, bind_eq_ok, pure_eq_ok, Except.ok.injEq] at h
  obtain ⟨-, -, ⟨ti₁, id⟩, ⟨n, -, hget⟩, rfl⟩ := h
  split at hget
  · by_cases h0 : ti.currentCallNodeID = 0
    · simp only [addCallNode, h0, ne_eq, not_true_eq_false, if_false, pure_eq_ok, ok_bind, Except.ok.injEq,
        Prod.mk.injEq] at hget
      obtain ⟨rfl, -⟩ := hget
      rfl
    · simp only [addCallNode, h0, ne_eq, not_false_eq_true, if_true, bind_eq_ok, linkChild_eq_ok, pure_eq_ok,
        Except.ok.injEq, Prod.mk.injEq] at hget
      obtain ⟨ti₂, ⟨p, -, rfl⟩, rfl, -⟩ := hget
      rfl
  · cases hget
    rfl

theorem lockedSection_counts {g : RecordTable} {s s' : Process} {next : Handle → Phase}
    (h : lockedSection g s next = some s') : s'.entered = s.entered ∧
    ∀ k, s'.recordedCalls k = s.recordedCalls k := by
  simp only [lockedSection, Option.bind_eq_bind, Option.bind_eq_some_iff, toOption_eq_some, Option.pure_def,
    Option.some.injEq] at h
  obtain ⟨⟨ti, idx⟩, hpair, rfl⟩ := h
  obtain ⟨n, -, ⟨-, rfl, -⟩ | ⟨-, -, rfl⟩⟩ := getCurrentNodeInfoPair_cases hpair
  · exact ⟨rfl, fun _ => rfl⟩
  · refine ⟨rfl, fun k => ?_⟩
    have h0 : (newRecord g s.thread.currentCallNodeID n).callCount = 0 := rfl
    simp only [Process.recordedCalls, callsOf_append, callsOf_singleton, h0, ite_self, Nat.add_zero]

/-- A record lies where its increments are counted: in the live buffer, or in
the drained one while that waits to be sent. -/
def Counted (s : Process) (h : Handle) (r : MethodNodeSerializedInfo) : Prop :=
  h.buffer = s.live ∧ s.thread.serializedNodeInfoArray[h.idx]? = some r ∨
    h.buffer ≠ s.live ∧ s.draining = true ∧ s.back.records[h.idx]? = some r

@[simp] theorem Buffer.write_records (b : Buffer) (idx : Nat) (r : MethodNodeSerializedInfo) :
    (b.write idx r).records = b.records.set idx r := by
  by_cases h : idx < b.records.length
  · rw [Buffer.write, if_pos h]
  · rw [Buffer.write, if_neg h, List.set_eq_of_length_le (Nat.le_of_not_lt h)]

theorem read_of_counted {s : Process} {h : Handle} {r : MethodNodeSerializedInfo} (hc : Counted s h r) :
    s.read h = some r := by
  have hleft {xs ys : List MethodNodeSerializedInfo} (hx : xs[h.idx]? = some r) :
      (xs ++ ys)[h.idx]? = some r := by
    rw [List.getElem?_append_left (List.getElem?_eq_some_iff.mp hx).1, hx]
  obtain ⟨hb, hx⟩ | ⟨hb, -, hx⟩ := hc
  · rw [Process.read, if_pos hb]
    exact hleft hx
  · rw [Process.read, if_neg hb]
    exact hleft hx

/-- Writing through the pointer changes the recorded calls of its node by the
change of the record's count where the record is counted, and nothing where the
pointer is stale. -/
theorem write_counts {s : Process} {h : Handle} {r r' : MethodNodeSerializedInfo} (hr : s.read h = some r)
    (hid : r'.callNodeId = r.callNodeId) {d : Nat} (hcount : r'.callCount = r.callCount + d) :
    (Counted s h r ∧ ∀ k, (s.write h r').recordedCalls k = s.recordedCalls k + if r.callNodeId = k then d else 0) ∨
      (¬ Counted s h r ∧ ∀ k, (s.write h r').recordedCalls k = s.recordedCalls k) := by
  by_cases hb : h.buffer = s.live
  · by_cases hlt : h.idx < s.thread.serializedNodeInfoArray.length
    · have hrec : s.thread.serializedNodeInfoArray[h.idx]? = some r := by
        rw [Process.read, if_pos hb, Buffer.read, Process.liveBuffer, List.getElem?_append_left hlt] at hr
        exact hr
      refine Or.inl ⟨Or.inl ⟨hb, hrec⟩, fun k => ?_⟩
      simp only [Process.recordedCalls, Process.write, if_pos hb, Buffer.write_records, Process.liveBuffer,
        callsOf_set hrec hid hcount]
      omega
    · refine Or.inr ⟨?_, fun k => ?_⟩
      · rintro (⟨-, hrec⟩ | ⟨hne, -⟩)
        · exact hlt (List.getElem?_eq_some_iff.mp hrec).1
        · exact hne hb
      · simp only [Process.recordedCalls, Process.write, if_pos hb, Buffer.write_records, Process.liveBuffer,
          List.set_eq_of_length_le (Nat.le_of_not_lt hlt)]
  · by_cases hlt : h.idx < s.back.records.length
    · have hrec : s.back.records[h.idx]? = some r := by
        rw [Process.read, if_neg hb, Buffer.read, List.getElem?_append_left hlt] at hr
        exact hr
      cases hd : s.draining with
      | true =>
          refine Or.inl ⟨Or.inr ⟨hb, hd, hrec⟩, fun k => ?_⟩
          simp only [Process.recordedCalls, Process.write, if_neg hb, Buffer.write_records, hd, if_true,
            callsOf_set hrec hid hcount]
          omega
      | false =>
          refine Or.inr ⟨?_, fun k => ?_⟩
          · rintro (⟨he, -⟩ | ⟨-, hd', -⟩)
            · exact hb he
            · rw [hd] at hd'
              cases hd'
          · simp [Process.recordedCalls, Process.write, if_neg hb, hd]
    · refine Or.inr ⟨?_, fun k => ?_⟩
      · rintro (⟨he, -⟩ | ⟨-, -, hrec⟩)
        · exact hb he
        · exact hlt (List.getElem?_eq_some_iff.mp hrec).1
      · simp only [Process.recordedCalls, Process.write, if_neg hb, Buffer.write_records,
          List.set_eq_of_length_le (Nat.le_of_not_lt hlt)]

theorem write_thread (s : Process) (h : Handle) (r : MethodNodeSerializedInfo) :
    (s.write h r).thread.currentCallNodeID = s.thread.currentCallNodeID ∧
      (s.write h r).entered = s.entered := by
  unfold Process.write
  split <;> exact ⟨rfl, rfl⟩

theorem increment_conserved {g : RecordTable} {s s' : Process} {reading : Reading}
    (hs : Conserved s) (h : step g s (.increment reading) = some s') :
    Conserved s' ↔ Counts s (.increment reading) := by
  simp only [step] at h
  split at h
  next hd hphase =>
    simp only [Option.bind_eq_bind, Option.bind_eq_some_iff, toOption_eq_some,
      Option.pure_def, Option.some.injEq] at h
    obtain ⟨r, hr, r', hr', ti, hti, rfl⟩ := h
    obtain ⟨-, hid, -, hcount⟩ := startRecord_ids hr'
    simp only [saveStart, bind_eq_ok, pure_eq_ok, Except.ok.injEq] at hti
    obtain ⟨n, -, nodes, -, rfl⟩ := hti
    obtain ⟨hcur, hent⟩ := write_thread s hd r'
    have hconserved : Conserved s ∧ (∀ k, (s.entered ++ [s.thread.currentCallNodeID]).count k =
        (s.write hd r').recordedCalls k) ↔ StillCounts s hd := by
      have hold (k : Nat) := hs k
      obtain ⟨hc, hw⟩ | ⟨hc, hw⟩ := write_counts hr hid hcount
      · constructor
        · rintro ⟨-, hall⟩
          refine ⟨r, ?_, hc⟩
          have hk := hall s.thread.currentCallNodeID
          rw [hw, ← hold, List.count_append, List.count_singleton_self, Nat.add_left_cancel_iff] at hk
          by_contra hne
          rw [if_neg hne] at hk
          cases hk
        · rintro ⟨q, hq, hcq⟩
          have hqr : q = r := Option.some.inj ((read_of_counted hcq).symm.trans hr)
          subst hqr
          refine ⟨hs, fun k => ?_⟩
          rw [hw, ← hold, List.count_append, List.count_singleton, hq]
          simp only [beq_iff_eq]
      · constructor
        · rintro ⟨-, hall⟩
          have hk := hall s.thread.currentCallNodeID
          rw [hw, ← hold, List.count_append, List.count_singleton_self] at hk
          omega
        · rintro ⟨q, -, hcq⟩
          have hqr : q = r := Option.some.inj ((read_of_counted hcq).symm.trans hr)
          exact absurd (hqr ▸ hcq) hc
    have hcounts : Counts s (.increment reading) ↔ StillCounts s hd := by
      constructor
      · intro hc
        exact hc reading hd rfl hphase
      · rintro hc _ hd' - hphase'
        rw [hphase] at hphase'
        cases hphase'
        exact hc
    rw [hcounts, ← hconserved, and_iff_right hs, ← hcur, ← hent]
    rfl
  next => cases h

/-- A step other than the increment neither adds nor loses a call, and an
increment keeps the balance exactly if its pointer still counts. -/
theorem step_conserved {g : RecordTable} {s s' : Process} {a : Action} (hs : Conserved s)
    (h : step g s a = some s') : Conserved s' ↔ Counts s a := by
  have hkeep (he : s'.entered = s.entered) (hk : ∀ k, s'.recordedCalls k = s.recordedCalls k)
      (ha : ∀ reading, a ≠ .increment reading) : Conserved s' ↔ Counts s a := by
    refine iff_of_true (fun k => by rw [he, hk, hs k]) ?_
    intro reading _ hi
    exact absurd hi (ha reading)
  cases a with
  | enter x =>
      simp only [step] at h
      split at h
      · simp only [Option.bind_eq_bind, Option.bind_eq_some_iff, toOption_eq_some, Option.pure_def,
          Option.some.injEq] at h
        obtain ⟨ti, hti, rfl⟩ := h
        exact hkeep rfl (fun k => by simp only [Process.recordedCalls, enterChild_records hti]) (by simp)
      · cases h
  | lock =>
      simp only [step] at h
      split at h
      · exact hkeep (lockedSection_counts h).1 (lockedSection_counts h).2 (by simp)
      · exact hkeep (lockedSection_counts h).1 (lockedSection_counts h).2 (by simp)
      · cases h
  | increment reading => exact increment_conserved hs h
  | beginReturn =>
      simp only [step] at h
      split at h
      · split at h
        · cases h
          exact hkeep rfl (fun _ => rfl) (by simp)
        · split at h
          · cases h
            exact hkeep rfl (fun _ => rfl) (by simp)
          · cases h
      · cases h
  | leave reading =>
      simp only [step] at h
      split at h
      · simp only [Option.bind_eq_bind, Option.bind_eq_some_iff, toOption_eq_some, Option.pure_def,
          Option.some.injEq] at h
        obtain ⟨r, hr, r', hr', rfl⟩ := h
        obtain ⟨-, hid, -, hcount⟩ := endRecord_ids hr'
        refine hkeep (write_thread s _ r').2 (fun k => ?_) (by simp)
        obtain ⟨-, hw⟩ | ⟨-, hw⟩ := write_counts hr hid (d := 0) hcount
        · exact (hw k).trans (by simp)
        · exact hw k
      · cases h
  | drain =>
      simp only [step] at h
      split at h
      · cases h
      next hd =>
        cases h
        rw [Bool.not_eq_true] at hd
        refine hkeep rfl (fun k => ?_) (by simp)
        simp [Process.recordedCalls, getSerializedBuffer, hd, callsOf]
  | send =>
      simp only [step] at h
      split at h
      next hd =>
        cases h
        refine hkeep rfl (fun k => ?_) (by simp)
        simp only [Process.recordedCalls, hd, if_true, List.flatten_append,
          List.flatten_singleton, callsOf_append]
        simp
      · cases h

theorem newProcess_conserved (g : RecordTable) (threadID : Nat) : Conserved (newProcess g threadID) := by
  intro k
  simp [newProcess, newThread, ThreadInfo.pushNode, Process.recordedCalls, callsOf]

theorem AlwaysConserved.head {g : RecordTable} {s : Process} {as : List Action} (h : AlwaysConserved g s as) :
    Conserved s := by
  cases as with
  | nil => exact h
  | cons a as => exact h.1

/-- Over every interleaving the calls are conserved in every state exactly if at
every increment the pointer still designates the record of the current node in a
buffer that is live or waits to be sent. -/
theorem conserved_iff_counts (g : RecordTable) (threadID : Nat) (as : List Action) :
    AlwaysConserved g (newProcess g threadID) as ↔ AlwaysCounts g (newProcess g threadID) as := by
  suffices h : ∀ s, Conserved s → (AlwaysConserved g s as ↔ AlwaysCounts g s as) from
    h _ (newProcess_conserved g threadID)
  induction as with
  | nil =>
      intro s hs
      exact iff_of_true hs trivial
  | cons a as ih =>
      intro s hs
      constructor
      · rintro ⟨-, hall⟩ s' hs'
        have hnext := (hall s' hs').head
        exact ⟨(step_conserved hs hs').mp hnext, (ih s' hnext).mp (hall s' hs')⟩
      · intro hall
        refine ⟨hs, fun s' hs' => ?_⟩
        obtain ⟨hc, hrest⟩ := hall s' hs'
        exact (ih s' ((step_conserved hs hs').mpr hc)).mpr hrest

/-- A drain and its send between the two halves of one call handler: the call is
counted in a buffer that has already been sent. -/
theorem conserved_fails_when_sent_between :
    ¬ AlwaysConserved oneCounter (newProcess oneCounter 0)
      [.enter 5, .lock, .drain, .send, .increment (fun _ => 10)] := by
  rintro ⟨-, h⟩
  obtain ⟨-, h⟩ := h _ rfl
  obtain ⟨-, h⟩ := h _ rfl
  obtain ⟨-, h⟩ := h _ rfl
  obtain ⟨-, h⟩ := h _ rfl
  have hlost := h _ rfl 2
  revert hlost
  decide

end Llprof.Profiler.Interleaving
