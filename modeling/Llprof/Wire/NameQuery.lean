import Llprof.Wire.Framing
import Mathlib.Data.Finset.Card
import Mathlib.Data.Finset.Dedup
import Std.Data.TreeMap.Lemmas

namespace Llprof.Wire.NameQuery

open Faulting LittleEndian Network Framing

abbrev NameTable := Std.TreeMap Nat Bytes

def MSG_QUERY_NAMES : UInt32 := 7
def MSG_NAMES : UInt32 := 8
def MSG_ERROR : UInt32 := 101
def QUERY_NAMES : Int := 1

def msgBufSize : Nat := 65536
def nameBufSize : Nat := 1000 * 256

structure Asked where
  names : NameTable
  queryNames : List Nat

/-- The first slot of `query_names` is kept free for the subsection header. -/
def askName (a : Asked) (nameid : Nat) : Asked :=
  if a.names.contains nameid then a
  else
    { names := a.names.insert nameid (ascii "<Asking>")
      queryNames := (if a.queryNames = [] then [0] else a.queryNames) ++ [nameid] }

/-- One list of nameids for each MSG_PROFILE_DATA message of the drain. -/
def askNames (names : NameTable) (drain : List (List Nat)) : Asked :=
  drain.foldl (fun a nameids => nameids.foldl askName a) ⟨names, []⟩

def queryBytes (queryNames : List Nat) : Bytes :=
  toBytes 4 1 ++ toBytes 4 (queryNames.length - 1) ++ queryNames.tail.flatMap (toBytes 8)

def requestNames (k : Kernel) (queryNames : List Nat) (s : Sender) : Run (Bool × Sender) :=
  sendProfMessage k MSG_QUERY_NAMES (queryBytes queryNames) (toInt32 (queryNames.length * 8)) s

def NameTable.get (t : NameTable) (entry : Nat) : Bytes := t[entry]?.getD (ascii "(ERR)")

structure Answer where
  subsecRem : Int
  subsecType : Int
  nameBuf : Bytes
  deriving DecidableEq, Repr

/-- The separator is written without a check of the buffer's size. -/
def putSeparator (a : Answer) : Run Answer :=
  if a.nameBuf.length < nameBufSize then
    .ok { a with nameBuf := a.nameBuf ++ [10], subsecRem := a.subsecRem - 1 }
  else
    .error .outOfRange

def answerLoop (t : NameTable) (msgbuf : Bytes) : Nat → Nat → Answer → Run Outgoing
  | 0, _, a => .ok (.message MSG_NAMES a.nameBuf)
  | n + 1, i, a =>
      if a.subsecRem = 0 then
        answerLoop t msgbuf n (i + 1)
          { a with subsecType := toInt32 (word 4 (8 * i) msgbuf), subsecRem := toInt32 (word 4 (8 * i + 4) msgbuf) }
      else if a.subsecType = QUERY_NAMES then
        let name := NameTable.get t (word 8 (8 * i) msgbuf)
        if nameBufSize ≤ name.length + a.nameBuf.length then
          .ok (.message MSG_ERROR [])
        else do
          let a ← putSeparator { a with nameBuf := a.nameBuf ++ name }
          answerLoop t msgbuf n (i + 1) a
      else do
        let a ← putSeparator a
        answerLoop t msgbuf n (i + 1) a

def answerNames (t : NameTable) (size : Nat) (msgbuf : Bytes) : Run Outgoing :=
  answerLoop t msgbuf (size / 8) 0 ⟨0, 0, []⟩

/-- `msg_handler`; `other` stands for the remaining cases of its switch. -/
def msgHandler (t : NameTable) (other : Int → Int → Bytes → Run (List Outgoing))
    (msgId size : Int) (msgbuf : Bytes) : Run (List Outgoing) :=
  if msgId = MSG_QUERY_NAMES.toNat then do
    let reply ← answerNames t size.toNat msgbuf
    return [reply]
  else
    other msgId size msgbuf

/-- One turn of the loop of `llprof_message_dispatch`; `none` when the
connection was closed. The size is compared as a `size_t`. -/
def messageDispatch (k : Kernel) (handler : Int → Int → Bytes → Run (List Outgoing)) (r : Receiver)
    (s : Sender) : Run (Option (Receiver × Sender)) := do
  let (status, msg, r) ← recvFull k (List.replicate 8 none) 8 r
  if status ≠ 0 then
    return none
  let header := msg.map (fun c => c.getD 0)
  let msgId := toInt32 (word 4 0 header)
  let msgSz := toInt32 (word 4 4 header)
  if msgBufSize ≤ toSize msgSz then
    throw .aborted
  let (status, msgBuf, r) ←
    if 0 < msgSz then recvFull k (List.replicate msgBufSize (some 255)) msgSz r
    else pure (0, List.replicate msgBufSize (some 255), r)
  if status ≠ 0 then
    return none
  let replies ← handler msgId msgSz (msgBuf.map (fun c => c.getD 0))
  let s ← sendMessages k replies s
  return some (r, s)

def exchange (k : Kernel) (t : NameTable) (other : Int → Int → Bytes → Run (List Outgoing))
    (queryNames : List Nat) : Run (Option (Receiver × Sender)) := do
  let (_, s) ← requestNames k queryNames ⟨[], 0⟩
  messageDispatch k (msgHandler t other) ⟨s.out, 0⟩ ⟨[], 0⟩

/-- The profiled process survives the request and answers it. -/
def Accepted (k : Kernel) (t : NameTable) (other : Int → Int → Bytes → Run (List Outgoing))
    (queryNames : List Nat) : Prop :=
  ∃ (r : Receiver) (s : Sender) (reply : Outgoing), exchange k t other queryNames = .ok (some (r, s)) ∧
    (reply.msgId = MSG_NAMES ∨ reply.msgId = MSG_ERROR) ∧ s.out = reply.frame

/-- The nameids of a drain that the name table does not hold yet. -/
def newNames (names : NameTable) (drain : List (List Nat)) : Finset Nat :=
  drain.flatten.toFinset.filter (fun x => ¬ names.contains x)

theorem askNames_flatten (names : NameTable) (drain : List (List Nat)) :
    askNames names drain = drain.flatten.foldl askName ⟨names, []⟩ := by
  rw [List.foldl_flatten, askNames]

theorem askName_fold (names : NameTable) (ids : List Nat) :
    (∀ x, (ids.foldl askName ⟨names, []⟩).names.contains x ↔ names.contains x ∨ x ∈ ids) ∧
    ∃ l : List Nat, l.Nodup ∧ (∀ x, x ∈ l ↔ x ∈ ids ∧ ¬ names.contains x) ∧
      (ids.foldl askName ⟨names, []⟩).queryNames = if l = [] then [] else 0 :: l := by
  induction ids using List.reverseRecOn with
  | nil => exact ⟨by simp, [], by simp⟩
  | append_singleton ids x ih =>
      obtain ⟨hc, l, hn, hm, hq⟩ := ih
      rw [List.foldl_append, List.foldl_cons, List.foldl_nil]
      by_cases hx : (ids.foldl askName ⟨names, []⟩).names.contains x
      · rw [askName, if_pos hx]
        have hx' := (hc x).mp hx
        refine ⟨fun y => ?_, l, hn, fun y => ?_, hq⟩
        · rw [hc y, List.mem_append, List.mem_singleton]
          constructor
          · tauto
          · rintro (h | h | rfl) <;> tauto
        · rw [hm y, List.mem_append, List.mem_singleton]
          constructor
          · tauto
          · rintro ⟨h | rfl, hy⟩ <;> tauto
      · have hnew : x ∉ ids ∧ ¬ names.contains x := by
          have h := mt (hc x).mpr hx
          tauto
        rw [askName, if_neg hx]
        refine ⟨fun y => ?_, l ++ [x], ?_, fun y => ?_, ?_⟩
        · rw [Std.TreeMap.contains_insert, Bool.or_eq_true, hc y, List.mem_append, List.mem_singleton,
            beq_iff_eq, Std.compare_eq_iff_eq]
          constructor
          · rintro (rfl | h | h) <;> tauto
          · rintro (h | h | rfl) <;> tauto
        · refine List.nodup_append.mpr ⟨hn, List.nodup_singleton x, ?_⟩
          intro a ha b hb hab
          rw [List.mem_singleton] at hb
          exact hnew.1 ((hm x).mp (hb ▸ hab ▸ ha)).1
        · rw [List.mem_append, List.mem_append, List.mem_singleton, hm y]
          constructor
          · rintro (h | rfl) <;> tauto
          · rintro ⟨h | rfl, hy⟩ <;> tauto
        · by_cases hl : l = [] <;> simp [hq, hl]

theorem askNames_length (names : NameTable) (drain : List (List Nat)) :
    (askNames names drain).queryNames.length =
      if (newNames names drain).card = 0 then 0 else (newNames names drain).card + 1 := by
  obtain ⟨-, l, hn, hm, hq⟩ := askName_fold names drain.flatten
  have hl : l.length = (newNames names drain).card := by
    rw [← List.toFinset_card_of_nodup hn]
    congr 1
    ext x
    rw [List.mem_toFinset, hm x, newNames, Finset.mem_filter, List.mem_toFinset]
  rw [askNames_flatten, hq, ← hl]
  by_cases hnil : l = [] <;> simp [hnil]

theorem length_flatMap_toBytes (w : Nat) (ids : List Nat) :
    (ids.flatMap (toBytes w)).length = w * ids.length := by
  induction ids with
  | nil => rfl
  | cons x ids ih =>
      rw [List.flatMap_cons, List.length_append, length_toBytes, ih, List.length_cons]
      ring

theorem length_queryBytes {q : List Nat} (hq : q ≠ []) : (queryBytes q).length = 8 * q.length := by
  have hpos : 0 < q.length := List.length_pos_iff.mpr hq
  rw [queryBytes, List.length_append, List.length_append, length_toBytes, length_toBytes,
    length_flatMap_toBytes, List.length_tail]
  omega

/-- Inside one subsection of names every entry is answered or the reply is an
error; the separator always fits behind a name that fitted. -/
theorem answerLoop_answers (t : NameTable) (msgbuf : Bytes) (n i : Nat) (a : Answer)
    (htype : a.subsecType = QUERY_NAMES) (hrem : a.subsecRem < 0 ∨ (n : Int) ≤ a.subsecRem)
    (hbuf : a.nameBuf.length ≤ nameBufSize) :
    ∃ reply, answerLoop t msgbuf n i a = .ok reply ∧
      (reply.msgId = MSG_NAMES ∨ reply.msgId = MSG_ERROR) ∧ reply.payload.length ≤ nameBufSize := by
  induction n generalizing i a with
  | zero => exact ⟨_, rfl, Or.inl rfl, hbuf⟩
  | succ n ih =>
      rw [answerLoop, if_neg (by omega), if_pos htype]
      dsimp only
      by_cases hfull : nameBufSize ≤ (NameTable.get t (word 8 (8 * i) msgbuf)).length + a.nameBuf.length
      · rw [if_pos hfull]
        exact ⟨_, rfl, Or.inr rfl, Nat.zero_le _⟩
      · rw [if_neg hfull, putSeparator, if_pos (by simp; omega), ok_bind]
        exact ih (i + 1) _ htype (by dsimp only; omega) (by simp; omega)

/-- A request with its own header in the first slot is answered, however many of
its slots the size field of the message covers. -/
theorem answerNames_answers (t : NameTable) (q : List Nat) (slots : Nat) (post : Bytes)
    (hslots : q.length % 2 ^ 29 = slots) (hq : q ≠ []) :
    ∃ reply, answerNames t (8 * slots) ((queryBytes q).take (8 * slots) ++ post) = .ok reply ∧
      (reply.msgId = MSG_NAMES ∨ reply.msgId = MSG_ERROR) ∧ reply.payload.length ≤ nameBufSize := by
  rw [answerNames, Nat.mul_div_cancel_left _ (by omega)]
  cases slots with
  | zero => exact ⟨_, rfl, Or.inl rfl, Nat.zero_le _⟩
  | succ n =>
      have hpos : 0 < q.length := List.length_pos_iff.mpr hq
      have hhead : ∃ tail, (queryBytes q).take (8 * (n + 1)) ++ post =
          toBytes 4 1 ++ toBytes 4 (q.length - 1) ++ tail := by
        refine ⟨(q.tail.flatMap (toBytes 8)).take (8 * n) ++ post, ?_⟩
        rw [queryBytes, List.take_append, List.take_of_length_le (by simp)]
        simp [Nat.mul_succ]
      obtain ⟨tail, ht⟩ := hhead
      have htype : word 4 0 ((queryBytes q).take (8 * (n + 1)) ++ post) = 1 := by
        rw [ht, List.append_assoc]
        exact word_append_toBytes [] _ 4 1
      have hcount : word 4 4 ((queryBytes q).take (8 * (n + 1)) ++ post) = (q.length - 1) % 2 ^ 32 := by
        rw [ht]
        exact word_append_toBytes (toBytes 4 1) tail 4 (q.length - 1)
      rw [answerLoop, if_pos rfl]
      refine answerLoop_answers t _ n 1 _ ?_ ?_ (Nat.zero_le _)
      · rw [htype]
        rfl
      · rw [hcount, toInt32]
        split <;> dsimp only <;> omega

theorem toSize_toInt32 {n : Nat} (h : n % 2 ^ 32 < 2 ^ 31) : toSize (toInt32 n) = n % 2 ^ 32 := by
  rw [toInt32, if_pos h, toSize_of_nonneg (by omega) (by omega), Int.toNat_natCast]

section Dispatch

variable {k : Kernel} (hk : k.Partial) (handler : Int → Int → Bytes → Run (List Outgoing))
include hk

theorem recvHeader (msgId : UInt32) (size : Nat) (rest : Bytes) (calls : Nat) :
    ∃ calls', recvFull k (List.replicate 8 none) 8 ⟨messageHeader msgId size ++ rest, calls⟩ =
      .ok (0, (messageHeader msgId size).map some, ⟨rest, calls'⟩) := by
  obtain ⟨c, h⟩ := recvFull_receives hk (messageHeader msgId size) rest (List.replicate 8 none) [] calls
    (messageHeader_ne_nil _ _) (by simp) (by simp)
  simp only [List.append_nil, length_messageHeader] at h
  exact ⟨c, h⟩

theorem messageDispatch_aborts (msgId : UInt32) (size : Nat) (rest : Bytes) (s : Sender)
    (hsize : size < 2 ^ 32) (hbig : msgBufSize ≤ toSize (toInt32 size)) :
    messageDispatch k handler ⟨messageHeader msgId size ++ rest, 0⟩ s = .error .aborted := by
  obtain ⟨c, h⟩ := recvHeader hk msgId size rest 0
  have hw : word 4 4 (messageHeader msgId size) = size := by
    simpa using word_messageHeader_size msgId size [] hsize
  have hid (bs : Bytes) : (bs.map some).map (fun c => c.getD (0 : UInt8)) = bs := by simp
  rw [messageDispatch, h]
  simp only [ok_bind, ne_eq, not_true_eq_false, if_false, hid, hw, if_pos hbig]
  rfl

/-- A message that passes the size check reaches the handler with its payload in
front of the untouched rest of the receive buffer. -/
theorem messageDispatch_handles (msgId : UInt32) (body : Bytes) (s : Sender)
    (hid : msgId.toNat < 2 ^ 31) (hsize : body.length < msgBufSize) :
    ∃ calls, messageDispatch k handler ⟨messageHeader msgId body.length ++ body, 0⟩ s = (do
      let replies ← handler msgId.toNat body.length
        (body ++ List.replicate (msgBufSize - body.length) 255)
      let s ← sendMessages k replies s
      return some (⟨[], calls⟩, s)) := by
  have hsize' : body.length < 65536 := hsize
  obtain ⟨c, h⟩ := recvHeader hk msgId body.length body 0
  have hw : word 4 4 (messageHeader msgId body.length) = body.length := by
    simpa using word_messageHeader_size msgId body.length [] (by omega)
  have ht : word 4 0 (messageHeader msgId body.length) = msgId.toNat := by
    simpa using word_messageHeader_type msgId body.length []
  have hget (bs : Bytes) : (bs.map some).map (fun c => c.getD (0 : UInt8)) = bs := by simp
  have hfits : ¬ msgBufSize ≤ toSize (body.length : Int) := by
    rw [toSize_of_nonneg (by omega) (by omega), Int.toNat_natCast]
    omega
  simp only [messageDispatch, h, ok_bind, ne_eq, not_true_eq_false, if_false, hget, hw, ht,
    toInt32_of_lt hid, toInt32_of_lt (show body.length < 2 ^ 31 by omega), hfits]
  by_cases hnil : body = []
  · subst hnil
    exact ⟨c, by simp⟩
  · have hpos : 0 < body.length := List.length_pos_iff.mpr hnil
    obtain ⟨c', h'⟩ := recvFull_receives hk body [] (List.replicate body.length (some 255))
      (List.replicate (msgBufSize - body.length) (some 255)) c hnil (by omega) (by simp)
    rw [← List.replicate_add, Nat.add_sub_of_le hsize.le, List.append_nil] at h'
    refine ⟨c', ?_⟩
    rw [if_pos (by omega), h']
    simp [Function.comp_def]

end Dispatch

theorem exchange_aborts {k : Kernel} (hk : k.Partial) (t : NameTable)
    (other : Int → Int → Bytes → Run (List Outgoing)) (q : List Nat)
    (hbig : msgBufSize ≤ 8 * q.length % 2 ^ 32) (hint : 8 * q.length % 2 ^ 32 < 2 ^ 31) :
    exchange k t other q = .error .aborted := by
  obtain ⟨size, hsize⟩ : ∃ size, 8 * q.length % 2 ^ 32 = size := ⟨_, rfl⟩
  rw [hsize] at hbig hint
  have harg : toInt32 (q.length * 8) = size := by
    rw [Nat.mul_comm, toInt32, hsize, if_pos hint]
  obtain ⟨c, hsend⟩ := sendProfMessage_sends hk MSG_QUERY_NAMES (queryBytes q) size ⟨[], 0⟩ hint
  simp only [exchange, requestNames, harg, hsend, ok_bind, List.nil_append]
  exact messageDispatch_aborts hk (msgHandler t other) MSG_QUERY_NAMES size _ ⟨[], 0⟩ (by omega)
    (by rw [toSize_toInt32 (by omega)]; omega)

/-- A request whose size field is below the receive buffer is answered from the
slots that the size field covers. -/
theorem exchange_answers {k : Kernel} (hk : k.Partial) (t : NameTable)
    (other : Int → Int → Bytes → Run (List Outgoing)) {q : List Nat} (hq : q ≠ [])
    (hfits : 8 * q.length % 2 ^ 32 < msgBufSize) :
    ∃ reply calls calls', answerNames t (8 * (q.length % 2 ^ 29))
        ((queryBytes q).take (8 * (q.length % 2 ^ 29)) ++
          List.replicate (msgBufSize - 8 * (q.length % 2 ^ 29)) 255) = .ok reply ∧
      (reply.msgId = MSG_NAMES ∨ reply.msgId = MSG_ERROR) ∧
      exchange k t other q = .ok (some (⟨[], calls⟩, ⟨reply.frame, calls'⟩)) := by
  obtain ⟨slots, hslots⟩ : ∃ slots, q.length % 2 ^ 29 = slots := ⟨_, rfl⟩
  have hsize : 8 * q.length % 2 ^ 32 = 8 * slots := by omega
  rw [hsize] at hfits
  rw [hslots]
  have hsmall : 8 * slots < 65536 := hfits
  have hint : toInt32 (q.length * 8) = (8 * slots : Nat) := by
    rw [Nat.mul_comm, toInt32, hsize, if_pos (by omega)]
  obtain ⟨c, hsend⟩ := sendProfMessage_sends hk MSG_QUERY_NAMES (queryBytes q) (8 * slots) ⟨[], 0⟩ (by omega)
  have hbody : ((queryBytes q).take (8 * slots)).length = 8 * slots := by
    rw [List.length_take, length_queryBytes hq]
    omega
  obtain ⟨reply, hr, htype, hlen⟩ := answerNames_answers t q slots
    (List.replicate (msgBufSize - 8 * slots) 255) hslots hq
  obtain ⟨calls, hd⟩ := messageDispatch_handles hk (msgHandler t other) MSG_QUERY_NAMES
    ((queryBytes q).take (8 * slots)) ⟨[], 0⟩ (by decide) (by rwa [hbody])
  obtain ⟨c', hs⟩ := sendMessages_frames hk [reply]
    (by simp only [List.mem_singleton, forall_eq]; exact lt_of_le_of_lt hlen (by decide)) ⟨[], 0⟩
  refine ⟨reply, calls, c', hr, htype, ?_⟩
  rw [hbody] at hd
  simp only [List.nil_append, List.flatMap_cons, List.flatMap_nil, List.append_nil] at hs hsend
  simp only [exchange, requestNames, hint, hsend, ok_bind, hd, msgHandler, if_true, Int.toNat_natCast]
  rw [hr]
  simp [hs]

theorem exchange_fails {k : Kernel} (hk : k.Partial) (t : NameTable)
    (other : Int → Int → Bytes → Run (List Outgoing)) (q : List Nat)
    (hbig : msgBufSize ≤ 8 * q.length % 2 ^ 32) : ∃ e, exchange k t other q = .error e := by
  obtain ⟨size, hsize⟩ : ∃ size, 8 * q.length % 2 ^ 32 = size := ⟨_, rfl⟩
  by_cases hneg : size < 2 ^ 31
  · exact ⟨_, exchange_aborts hk t other q hbig (by omega)⟩
  · have hint : toInt32 (q.length * 8) = (size : Int) - 2 ^ 32 := by
      rw [Nat.mul_comm, toInt32, hsize, if_neg hneg]
    obtain ⟨c, hhead⟩ := sendHeader_sends hk MSG_QUERY_NAMES
      (((size : Int) - 2 ^ 32) % 2 ^ 32).toNat ⟨[], 0⟩
    have hne : ((size : Int) - 2 ^ 32) ≠ 0 := by omega
    rw [exchange, requestNames, hint]
    simp only [sendProfMessage, hhead, ok_bind, ne_eq, not_true_eq_false, if_false, hne, not_false_eq_true,
      if_true, sendFull_negative hk (queryBytes q) ((size : Int) - 2 ^ 32) _ (by omega) (by omega),
      error_bind]
    exact ⟨_, rfl⟩

theorem accepted_iff {k : Kernel} (hk : k.Partial) (t : NameTable)
    (other : Int → Int → Bytes → Run (List Outgoing)) {q : List Nat} (hq : q ≠ []) :
    Accepted k t other q ↔ 8 * q.length % 2 ^ 32 < msgBufSize := by
  constructor
  · rintro ⟨r, s, reply, h, -⟩
    by_contra hbig
    obtain ⟨e, he⟩ := exchange_fails hk t other q (Nat.not_lt.mp hbig)
    rw [he] at h
    cases h
  · intro hfits
    obtain ⟨reply, calls, calls', -, htype, h⟩ := exchange_answers hk t other hq hfits
    exact ⟨_, _, reply, h, htype, rfl⟩

/-- The name query of a drain is accepted exactly if its size, in the 32 bits of
the message header, is below the receive buffer. With fewer than 2 ^ 29 slots
this means at most 8190 new nameids, over all threads of the drain. -/
theorem nameQuery_accepted_iff (k : Kernel) (hk : k.Partial) (t names : NameTable)
    (other : Int → Int → Bytes → Run (List Outgoing)) (drain : List (List Nat)) :
    ((askNames names drain).queryNames ≠ [] → Accepted k t other (askNames names drain).queryNames) ↔
      8 * ((newNames names drain).card + 1) % 2 ^ 32 < 65536 := by
  have hlen := askNames_length names drain
  by_cases hz : (newNames names drain).card = 0
  · rw [if_pos hz, List.length_eq_zero_iff] at hlen
    exact iff_of_true (fun h => absurd hlen h) (by rw [hz]; omega)
  · rw [if_neg hz] at hlen
    have hne : (askNames names drain).queryNames ≠ [] := by
      rw [ne_eq, ← List.length_eq_zero_iff, hlen]
      omega
    rw [accepted_iff hk t other hne, hlen]
    exact ⟨fun h => h hne, fun h _ => h⟩

def bytewise : Kernel := ⟨fun _ _ => 1, fun _ _ => 1⟩

theorem bytewise_partial : bytewise.Partial :=
  ⟨fun _ n hn => ⟨Int.one_pos, show (1 : Int) ≤ n by omega⟩,
    fun _ n hn => ⟨Int.one_pos, show (1 : Int) ≤ n by omega⟩⟩

theorem newNames_range (n : Nat) : (newNames ∅ [List.range n]).card = n := by
  have h : newNames ∅ [List.range n] = Finset.range n := by
    ext x
    simp [newNames]
  rw [h, Finset.card_range]

theorem nameQuery_accepted_two :
    ((askNames ∅ [[5, 6], [5]]).queryNames ≠ [] →
      Accepted bytewise ∅ (fun _ _ _ => .ok []) (askNames ∅ [[5, 6], [5]]).queryNames) ↔
      8 * ((newNames ∅ [[5, 6], [5]]).card + 1) % 2 ^ 32 < 65536 :=
  nameQuery_accepted_iff bytewise bytewise_partial ∅ ∅ (fun _ _ _ => .ok []) [[5, 6], [5]]

theorem nameQuery_aborts_8191 :
    (askNames ∅ [List.range 8191]).queryNames ≠ [] ∧
      exchange bytewise ∅ (fun _ _ _ => .ok []) (askNames ∅ [List.range 8191]).queryNames = .error .aborted ∧
      ¬ Accepted bytewise ∅ (fun _ _ _ => .ok []) (askNames ∅ [List.range 8191]).queryNames := by
  have hlen := askNames_length ∅ [List.range 8191]
  rw [newNames_range, if_neg (by omega)] at hlen
  have hne : (askNames ∅ [List.range 8191]).queryNames ≠ [] := by
    rw [ne_eq, ← List.length_eq_zero_iff, hlen]
    omega
  have hsize : 8 * (askNames ∅ [List.range 8191]).queryNames.length % 2 ^ 32 = 65536 := by omega
  refine ⟨hne, exchange_aborts bytewise_partial ∅ _ _ (by rw [hsize]; decide) (by rw [hsize]; decide), ?_⟩
  rw [accepted_iff bytewise_partial ∅ _ hne, hsize]
  decide

end Llprof.Wire.NameQuery
