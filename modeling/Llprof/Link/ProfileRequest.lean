import Llprof.Foundations.TreeMaps
import Llprof.Wire.DrainMessages

namespace Llprof.Link.ProfileRequest

open Faulting LittleEndian Wire.Network Wire.Framing Wire.NameQuery Wire.ProfileData Wire.DrainMessages

def BT_PERFORMANCE : Nat := 1
def BT_NOWINFO : Nat := 2
def BT_STACK : Nat := 3

/-- The current thread is given by its place in the list. -/
structure ThreadIterator where
  currentThread : Option Nat
  phase : Nat
  gotFlag : Bool
  deriving DecidableEq, Repr

/-- `BufferIteration_Initialize`, where `threads` are the ids from `gFirstThread` on. -/
def bufferIterationInitialize (threads : List Nat) : ThreadIterator :=
  ⟨if threads.isEmpty then none else some 0, 0, false⟩

def nextOf (threads : List Nat) (c : Nat) : Option Nat :=
  if c + 1 < threads.length then some (c + 1) else none

def nextBuffer (threads : List Nat) (iter : ThreadIterator) : Run (Bool × ThreadIterator) :=
  let iter := { iter with gotFlag := false }
  match iter.currentThread with
  | none => .ok (false, iter)
  | some c =>
      if iter.phase = 0 then .ok (true, { iter with phase := 1 })
      else if iter.phase = 1 then .ok (true, { iter with phase := 2 })
      else if iter.phase = 2 then
        let iter := { iter with phase := 1, currentThread := nextOf threads c }
        .ok (iter.currentThread.isSome, iter)
      else .error .assertion

/-- What `CallTree_GetSerializedBuffer` and `CallTree_GetNowInfo` hand out in the
`k`th turn: records of one size, or a NOWINFO buffer. -/
structure Buffers where
  records : Nat → List Bytes
  nowInfo : Nat → Bytes

def getBuffer (b : Buffers) (k : Nat) (iter : ThreadIterator) : Run (Bytes × ThreadIterator) := do
  require (iter.gotFlag = false) .assertion
  let iter := { iter with gotFlag := true }
  if iter.phase = 1 then
    require (iter.currentThread ≠ none) .nullDeref
    return ((b.records k).flatten, iter)
  else if iter.phase = 2 then
    require (iter.currentThread ≠ none) .nullDeref
    return (b.nowInfo k, iter)
  else
    throw .assertion

def getThreadID (threads : List Nat) (iter : ThreadIterator) : Run Nat :=
  match iter.currentThread with
  | none => .error .nullDeref
  | some c => fetch threads c

def getBufferType (iter : ThreadIterator) : Run Nat :=
  if iter.phase = 1 then .ok BT_PERFORMANCE
  else if iter.phase = 2 then .ok BT_NOWINFO
  else if iter.phase = 3 then .ok BT_STACK
  else .error .assertion

/-- The case MSG_REQ_PROFILE_DATA of `msg_handler`. Threads are appended while it
runs: the `k`th turn sees the list `threads (k + 1)`. -/
def sendLoop (threads : Nat → List Nat) (b : Buffers) : Nat → Nat → ThreadIterator → Run (List Outgoing)
  | 0, _, _ => .error .outOfFuel
  | fuel + 1, k, iter => do
      let (more, iter) ← nextBuffer (threads (k + 1)) iter
      if more then
        let (buf, iter) ← getBuffer b k iter
        let bufferType ← getBufferType iter
        let msgType : UInt32 :=
          if bufferType = BT_PERFORMANCE then MSG_PROFILE_DATA
          else if bufferType = BT_STACK then MSG_STACK_DATA
          else if bufferType = BT_NOWINFO then MSG_NOWINFO
          else 0
        let threadId ← getThreadID (threads (k + 1)) iter
        let rest ← sendLoop threads b fuel (k + 1) iter
        return .message2 msgType (toBytes 8 threadId) buf :: rest
      else
        return [.message MSG_COMMAND_SUCCEED []]

def requestProfileData (threads : Nat → List Nat) (b : Buffers) (fuel : Nat) : Run (List Outgoing) :=
  sendLoop threads b fuel 0 (bufferIterationInitialize (threads 0))

def profileMessage (b : Buffers) (j id : Nat) : Outgoing :=
  .message2 MSG_PROFILE_DATA (toBytes 8 id) (b.records (2 * j)).flatten

def nowInfoMessage (b : Buffers) (j id : Nat) : Outgoing :=
  .message2 MSG_NOWINFO (toBytes 8 id) (b.nowInfo (2 * j + 1))

def replies (b : Buffers) : Nat → List Nat → List Outgoing
  | _, [] => [.message MSG_COMMAND_SUCCEED []]
  | j, id :: ids => profileMessage b j id :: nowInfoMessage b j id :: replies b (j + 1) ids

/-- The list grows at its end up to turn `last`. -/
structure Growing (threads : Nat → List Nat) (last : Nat) : Prop where
  grow : ∀ k, threads k <+: threads (k + 1)
  stop : ∀ k, last ≤ k → threads k = threads last

variable {threads : Nat → List Nat} {last : Nat} {b : Buffers}

theorem Growing.mono (h : Growing threads last) {i k : Nat} (hik : i ≤ k) : threads i <+: threads k := by
  induction k, hik using Nat.le_induction with
  | base => exact List.prefix_refl _
  | succ k _ ih => exact ih.trans (h.grow k)

theorem Growing.le_last (h : Growing threads last) (k : Nat) : threads k <+: threads last := by
  rcases Nat.le_total k last with hk | hk
  · exact h.mono hk
  · rw [h.stop k hk]

theorem Growing.fetch (h : Growing threads last) {j k : Nat} (hj : j < (threads k).length) :
    ∃ id, fetch (threads k) j = .ok id ∧ (threads last)[j]? = some id := by
  obtain ⟨more, hm⟩ := h.le_last k
  refine ⟨(threads k)[j], fetch_eq_ok.mpr (List.getElem?_eq_getElem hj), ?_⟩
  rw [← hm, List.getElem?_append_left hj, List.getElem?_eq_getElem hj]

theorem sendLoop_visit (h : Growing threads last) {iter : ThreadIterator} {fuel j k id : Nat} (hk : k = 2 * j)
    (hnext : nextBuffer (threads (k + 1)) iter = .ok (true, ⟨some j, 1, false⟩))
    (hj : j < (threads (k + 1)).length) (hid : (threads last)[j]? = some id) :
    sendLoop threads b (fuel + 2) k iter = (do
      let rest ← sendLoop threads b fuel (2 * (j + 1)) ⟨some j, 2, true⟩
      return profileMessage b j id :: nowInfoMessage b j id :: rest) := by
  subst hk
  have hj' : j < (threads (2 * j + 1 + 1)).length := hj.trans_le (h.grow _).length_le
  obtain ⟨id₁, hf₁, he₁⟩ := h.fetch hj
  obtain ⟨id₂, hf₂, he₂⟩ := h.fetch hj'
  rw [hid, Option.some.injEq] at he₁ he₂
  subst he₁ he₂
  have hnow : nextBuffer (threads (2 * j + 1 + 1)) ⟨some j, 1, true⟩ = .ok (true, ⟨some j, 2, false⟩) := rfl
  simp only [sendLoop, hnext, hnow, ok_bind, if_true, getBuffer, getBufferType,
    getThreadID, require_of, pure_eq_ok,
    hf₁, hf₂, ne_eq, reduceCtorEq, not_false_eq_true, Nat.reduceEqDiff, if_false, OfNat.ofNat_ne_one]
  cases sendLoop threads b fuel (2 * j + 1 + 1) ⟨some j, 2, true⟩ with
  | error e => rfl
  | ok rest => rfl

/-- From the end of the pair of a thread the loop visits the threads after it that
it sees, and it stops where the list stops at that moment. -/
theorem sendLoop_rest (h : Growing threads last) (fuel : Nat) {j : Nat} (hj : j + 1 ≤ (threads last).length)
    (hf : 2 * ((threads last).length - (j + 1)) + 1 ≤ fuel) :
    ∃ m, j + 1 ≤ m ∧ (threads 0).length ≤ m ∧ m ≤ (threads last).length ∧
      sendLoop threads b fuel (2 * (j + 1)) ⟨some j, 2, true⟩ =
        .ok (replies b (j + 1) (((threads last).take m).drop (j + 1))) := by
  induction hn : (threads last).length - (j + 1) generalizing j fuel with
  | zero =>
      have hlen : (threads (2 * (j + 1) + 1)).length ≤ j + 1 := by
        have := (h.le_last (2 * (j + 1) + 1)).length_le
        omega
      obtain ⟨fuel, rfl⟩ : ∃ f, fuel = f + 1 := ⟨fuel - 1, by omega⟩
      refine ⟨j + 1, le_refl _, ((h.mono (Nat.zero_le _)).length_le).trans hlen, hj, ?_⟩
      rw [List.drop_of_length_le (List.length_take_le _ _)]
      simp [sendLoop, nextBuffer, nextOf, Nat.not_lt.mpr hlen, replies]
  | succ n ih =>
      obtain ⟨fuel, rfl⟩ : ∃ f, fuel = f + 2 := ⟨fuel - 2, by omega⟩
      by_cases hsee : j + 1 < (threads (2 * (j + 1) + 1)).length
      · obtain ⟨id, -, hid⟩ := h.fetch hsee
        have hlt : j + 1 < (threads last).length := (List.getElem?_eq_some_iff.mp hid).1
        have hnext : nextBuffer (threads (2 * (j + 1) + 1)) ⟨some j, 2, true⟩ =
            .ok (true, ⟨some (j + 1), 1, false⟩) := by
          simp [nextBuffer, nextOf, hsee]
        obtain ⟨m, hm, hm₀, hml, hrun⟩ := ih fuel (j := j + 1) hlt (by omega) (by omega)
        refine ⟨m, by omega, hm₀, hml, ?_⟩
        have htake : ((threads last).take m)[j + 1]? = some id := by
          rw [List.getElem?_take_of_lt (by omega), hid]
        obtain ⟨hlt', he⟩ := List.getElem?_eq_some_iff.mp htake
        rw [sendLoop_visit h rfl hnext hsee hid, hrun, List.drop_eq_getElem_cons hlt', he]
        rfl
      · have hlen : (threads (2 * (j + 1) + 1)).length ≤ j + 1 := Nat.not_lt.mp hsee
        refine ⟨j + 1, le_refl _, ((h.mono (Nat.zero_le _)).length_le).trans hlen, hj, ?_⟩
        rw [List.drop_of_length_le (List.length_take_le _ _)]
        simp [sendLoop, nextBuffer, nextOf, hsee, replies]

theorem requestProfileData_replies (h : Growing threads last) {fuel : Nat}
    (hf : 2 * (threads last).length + 1 ≤ fuel) :
    ∃ visited, requestProfileData threads b fuel = .ok (replies b 0 visited) ∧
      threads 0 <+: visited ∧ visited <+: threads last := by
  by_cases hempty : threads 0 = []
  · obtain ⟨fuel, rfl⟩ : ∃ f, fuel = f + 1 := ⟨fuel - 1, by omega⟩
    refine ⟨[], ?_, hempty ▸ List.nil_prefix, List.nil_prefix⟩
    simp [requestProfileData, bufferIterationInitialize, hempty, sendLoop, nextBuffer, replies]
  · have hpos : 0 < (threads 0).length := List.length_pos_iff.mpr hempty
    have hsee : 0 < (threads (2 * 0 + 1)).length := hpos.trans_le (h.grow 0).length_le
    obtain ⟨id, -, hid⟩ := h.fetch hsee
    have hlt : 0 < (threads last).length := (List.getElem?_eq_some_iff.mp hid).1
    obtain ⟨fuel, rfl⟩ : ∃ f, fuel = f + 2 := ⟨fuel - 2, by omega⟩
    have hnext : nextBuffer (threads (2 * 0 + 1)) ⟨some 0, 0, false⟩ = .ok (true, ⟨some 0, 1, false⟩) := rfl
    obtain ⟨m, hm, hm₀, hml, hrun⟩ := sendLoop_rest (b := b) h fuel hlt (by omega)
    have hinit : bufferIterationInitialize (threads 0) = ⟨some 0, 0, false⟩ := by
      simp [bufferIterationInitialize, hempty]
    have htake : ((threads last).take m)[0]? = some id := by
      rw [List.getElem?_take_of_lt (by omega), hid]
    obtain ⟨hlt', he⟩ := List.getElem?_eq_some_iff.mp htake
    refine ⟨(threads last).take m, ?_, ?_, List.take_prefix _ _⟩
    · rw [requestProfileData, hinit, sendLoop_visit h rfl hnext hsee hid, hrun]
      have hcons := List.drop_eq_getElem_cons hlt'
      rw [List.drop_zero, he] at hcons
      rw [hcons]
      rfl
    · rw [List.prefix_take_iff]
      exact ⟨h.le_last 0, hm₀⟩

/-- Each turn hands out records of the size that the receiver knows. -/
def WholeRecords (o : Offsets) (b : Buffers) : Prop := ∀ k, ∀ r ∈ b.records k, r.length = o.recordSize

/-- The maps hold the two messages of each thread, under its id. -/
structure Matched (b : Buffers) (j : Nat) (ids : List Nat) (r : Receiving) : Prop where
  profile : ∀ i id, ids[i]? = some id →
    ∃ buf, r.bufForThreads[id]? = some buf ∧ buf.buf = (received (profileMessage b (j + i) id)).buf
  nowInfo : ∀ i id, ids[i]? = some id →
    ∃ buf, r.nowinfoBufForThreads[id]? = some buf ∧ buf.buf = (received (nowInfoMessage b (j + i) id)).buf

/-- The messages of the threads from the `j`th on. -/
def pairs (b : Buffers) : Nat → List Nat → List Part
  | _, [] => []
  | j, id :: ids => .profile id (b.records (2 * j)) :: .nowInfo id
    (b.nowInfo (2 * j + 1)) :: pairs b (j + 1) ids

theorem replies_pairs (b : Buffers) (j : Nat) (ids : List Nat) :
    replies b j ids = (pairs b j ids).map Part.message ++ [.message MSG_COMMAND_SUCCEED []] := by
  induction ids generalizing j with
  | nil => rfl
  | cons id ids ih =>
      rw [replies, ih, pairs]
      rfl

theorem pairs_wellFormed {o : Offsets} (hb : WholeRecords o b) (ids : List Nat)
    (h64 : ∀ id ∈ ids, id < 2 ^ 64) (j : Nat) : ∀ p ∈ pairs b j ids, p.WellFormed o := by
  induction ids generalizing j with
  | nil => simp [pairs]
  | cons id ids ih =>
      rw [List.forall_mem_cons] at h64
      rw [pairs, List.forall_mem_cons, List.forall_mem_cons]
      exact ⟨⟨h64.1, hb (2 * j)⟩, h64.1, ih h64.2 (j + 1)⟩

theorem receive_pairs (o : Offsets) (ids : List Nat) (hids : ids.Nodup) (j : Nat) (r : Receiving) :
    Matched b j ids ((pairs b j ids).foldl (Part.receive o) r) ∧
      ∀ id, id ∉ ids → ((pairs b j ids).foldl (Part.receive o) r).bufForThreads[id]? = r.bufForThreads[id]? ∧
        ((pairs b j ids).foldl (Part.receive o) r).nowinfoBufForThreads[id]? =
          r.nowinfoBufForThreads[id]? := by
  induction ids generalizing j r with
  | nil => exact ⟨⟨by simp, by simp⟩, fun id _ => ⟨rfl, rfl⟩⟩
  | cons id ids ih =>
      rw [List.nodup_cons] at hids
      rw [pairs, List.foldl_cons, List.foldl_cons]
      obtain ⟨hmatched, hframe⟩ := ih hids.2 (j + 1)
        (((Part.nowInfo id (b.nowInfo (2 * j + 1))).receive o ((Part.profile id (b.records (2 * j))).receive o r)))
      obtain ⟨hbuf, hnow⟩ := hframe id hids.1
      simp only [Part.receive, TreeMaps.getElem?_insert_self] at hbuf hnow
      refine ⟨⟨?_, ?_⟩, ?_⟩
      · intro i id' h
        rcases i with _ | i
        · obtain rfl : id = id' := Option.some.inj h
          exact ⟨_, hbuf, rfl⟩
        · rw [Nat.add_comm i 1, ← Nat.add_assoc]
          exact hmatched.profile i id' h
      · intro i id' h
        rcases i with _ | i
        · obtain rfl : id = id' := Option.some.inj h
          exact ⟨_, hnow, rfl⟩
        · rw [Nat.add_comm i 1, ← Nat.add_assoc]
          exact hmatched.nowInfo i id' h
      · intro id' h
        rw [List.mem_cons, not_or] at h
        obtain ⟨hbuf, hnow⟩ := hframe id' h.2
        simp only [Part.receive, TreeMaps.getElem?_insert_ne _ h.1] at hbuf hnow
        exact ⟨hbuf, hnow⟩

theorem recvLoop_replies {o : Offsets} (hname : o.nameid + 8 ≤ o.recordSize)
    (hb : WholeRecords o b) (ids : List Nat) (h64 : ∀ id ∈ ids, id < 2 ^ 64) (j : Nat)
    (rest : List MessageBuf) (r : Receiving) : recvLoop o ((replies b j ids).map received ++ rest) r =
      .ok (.finished ((pairs b j ids).foldl (Part.receive o) r) rest) := by
  rw [replies_pairs, List.map_append, List.map_map, List.append_assoc]
  exact (recvLoop_parts hname (pairs b j ids) (pairs_wellFormed hb ids h64 j) _ r).trans
    (recvLoop_succeed o [] rest _)

theorem storeCalls_matched {ids : List Nat} {r : Receiving} (h : Matched b 0 ids r)
    (hnone : ∀ id, id ∉ ids → r.bufForThreads[id]? = none) {c : StoreCall} (hc : c ∈ storeCalls r) :
    ∃ j nowinfo, ids[j]? = some c.thread ∧ c.nowinfo = some nowinfo ∧
      c.buf.buf = (received (profileMessage b j c.thread)).buf ∧
      nowinfo.buf = (received (nowInfoMessage b j c.thread)).buf := by
  obtain ⟨⟨id, buf⟩, hmem, rfl⟩ := List.mem_map.mp hc
  rw [Std.TreeMap.mem_toList_iff_getElem?_eq_some] at hmem
  have hid : id ∈ ids := by
    by_contra hid
    rw [hnone id hid] at hmem
    cases hmem
  obtain ⟨j, hj⟩ := List.mem_iff_getElem?.mp hid
  obtain ⟨buf', hbuf, heq⟩ := h.profile j id hj
  obtain ⟨now, hnow, hnow'⟩ := h.nowInfo j id hj
  rw [hmem, Option.some.injEq] at hbuf
  rw [Nat.zero_add] at heq hnow'
  exact ⟨j, now, hj, hnow, hbuf ▸ heq, hnow'⟩

theorem getProfileData_stores {o : Offsets} {names : NameTable}
    {incoming rest : List MessageBuf} {r : Receiving} {out : Outcome}
    (hrecv : recvLoop o incoming (noBuffers names) = .ok (.finished r rest))
    (hout : getProfileData o names incoming = .ok out) : out.stores = storeCalls r := by
  rw [getProfileData, hrecv, ok_bind] at hout
  by_cases hasked : r.asked.queryNames = []
  · simp only [hasked, if_true, pure_eq_ok, Except.ok.injEq] at hout
    rw [← hout]
  · simp only [hasked, if_false] at hout
    rcases rest with _ | ⟨reply, rest⟩
    · cases hout
    · cases htext : asString reply with
      | error e => simp [htext] at hout
      | ok text =>
          simp only [htext, ok_bind, pure_eq_ok, Except.ok.injEq] at hout
          rw [← hout]

/-- One profile request yields a matched pair of messages for each thread that it
visits, whatever threads are appended meanwhile; the receiver keeps them all and
stores each batch with its NOWINFO buffer. -/
theorem profile_request_pairs (o : Offsets) (names : NameTable) (threads : Nat → List Nat)
    (last : Nat) (b : Buffers) (fuel : Nat) (h : Growing threads last) (hids : (threads last).Nodup)
    (h64 : ∀ id ∈ threads last, id < 2 ^ 64) (hname : o.nameid + 8 ≤ o.recordSize) (hb : WholeRecords o b)
    (hf : 2 * (threads last).length + 1 ≤ fuel) :
    ∃ visited, threads 0 <+: visited ∧ visited <+: threads last ∧ visited.Nodup ∧
      requestProfileData threads b fuel = .ok (replies b 0 visited) ∧
      ∀ rest, ∃ r, recvLoop o ((replies b 0 visited).map received ++ rest) (noBuffers names) =
        .ok (.finished r rest) ∧ Matched b 0 visited r ∧ ((storeCalls r).map StoreCall.thread).Perm visited ∧
        ∀ out, getProfileData o names ((replies b 0 visited).map received ++ rest) = .ok out →
          out.stores = storeCalls r ∧ ∀ c ∈ out.stores, c.nowinfo ≠ none := by
  obtain ⟨visited, hrun, hfirst, hlast⟩ := requestProfileData_replies (b := b) h hf
  have hnodup : visited.Nodup := hids.sublist hlast.sublist
  refine ⟨visited, hfirst, hlast, hnodup, hrun, ?_⟩
  intro rest
  have hrecv :=
    recvLoop_replies hname hb visited (fun id hid => h64 id (hlast.subset hid)) 0 rest (noBuffers names)
  obtain ⟨hmatched, hframe⟩ := receive_pairs (b := b) o visited hnodup 0 (noBuffers names)
  generalize (pairs b 0 visited).foldl (Part.receive o) (noBuffers names) = r at hrecv hmatched hframe
  have hnone : ∀ id, id ∉ visited → r.bufForThreads[id]? = none := by
    intro id hid
    rw [(hframe id hid).1]
    simp [noBuffers]
  refine ⟨r, hrecv, hmatched, ?_, ?_⟩
  · have hkeys : (storeCalls r).map StoreCall.thread = r.bufForThreads.keys := by
      rw [storeCalls, List.map_map, ← Std.TreeMap.map_fst_toList_eq_keys]
      rfl
    rw [hkeys, List.perm_ext_iff_of_nodup Std.TreeMap.nodup_keys hnodup]
    intro id
    rw [Std.TreeMap.mem_keys, TreeMaps.mem_iff_some]
    constructor
    · rintro ⟨buf, hbuf⟩
      by_contra hid
      rw [hnone id hid] at hbuf
      cases hbuf
    · intro hid
      obtain ⟨j, hj⟩ := List.mem_iff_getElem?.mp hid
      obtain ⟨buf, hbuf, -⟩ := hmatched.profile j id hj
      exact ⟨buf, hbuf⟩
  · intro out hout
    have hstores := getProfileData_stores hrecv hout
    refine ⟨hstores, fun c hc => ?_⟩
    obtain ⟨j, now, -, hnow, -⟩ := storeCalls_matched hmatched hnone (hstores ▸ hc)
    rw [hnow]
    exact Option.some_ne_none now

def spawning (k : Nat) : List Nat := if k = 0 then [7] else [7, 9]

theorem profile_request_pairs_spawning :
    ∃ visited, [7] <+: visited ∧ visited <+: [7, 9] ∧ visited.Nodup ∧
      requestProfileData spawning ⟨fun _ => [List.replicate 8 5], fun _ => []⟩ 5 =
        .ok (replies ⟨fun _ => [List.replicate 8 5], fun _ => []⟩ 0 visited) ∧
      ∀ rest, ∃ r, recvLoop ⟨0, 8⟩
          ((replies ⟨fun _ => [List.replicate 8 5], fun _ => []⟩ 0 visited).map received ++ rest)
            (noBuffers ∅) = .ok (.finished r rest) ∧
        Matched ⟨fun _ => [List.replicate 8 5], fun _ => []⟩ 0 visited r ∧
        ((storeCalls r).map StoreCall.thread).Perm visited ∧
        ∀ out, getProfileData ⟨0, 8⟩ ∅
            ((replies ⟨fun _ => [List.replicate 8 5], fun _ => []⟩ 0 visited).map received ++ rest) =
              .ok out →
          out.stores = storeCalls r ∧ ∀ c ∈ out.stores, c.nowinfo ≠ none := by
  have hgrow : Growing spawning 1 := by
    constructor
    · intro k
      cases k with
      | zero => exact ⟨[9], rfl⟩
      | succ k => exact List.prefix_refl _
    · intro k hk
      obtain ⟨k, rfl⟩ : ∃ n, k = n + 1 := ⟨k - 1, by omega⟩
      rfl
  refine profile_request_pairs ⟨0, 8⟩ ∅ spawning 1 ⟨fun _ => [List.replicate 8 5], fun _ =>
    []⟩ 5 hgrow (by decide) ?_ (by decide) ?_ (by decide)
  · intro id hid
    have hle : id ∈ [7, 9] := hid
    rcases List.mem_pair.mp hle with rfl | rfl <;> omega
  · intro k r hr
    rw [List.mem_singleton.mp hr]
    rfl

end Llprof.Link.ProfileRequest
