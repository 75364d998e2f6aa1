import Llprof.Wire.Network

namespace Llprof.Wire.Framing

open Faulting LittleEndian Network

structure MessageBuf where
  buf : List Cell
  ptr : Int
  deriving DecidableEq, Repr

namespace MessageBuf

def empty : MessageBuf := ⟨[], 0⟩

def bytes (b : MessageBuf) : Bytes := b.buf.map (fun c => c.getD 0)

def getMessageType (b : MessageBuf) : Nat := word 4 0 b.bytes

def getMessageSize (b : MessageBuf) : Nat := word 4 4 b.bytes

def getBody (b : MessageBuf) : List Cell := b.buf.drop 8

/-- A fresh allocation that takes over the old contents. The old length is
copied whatever the new one is. -/
def resize (b : MessageBuf) (sz : Int) : Run MessageBuf :=
  if sz < 0 then .error .badAlloc
  else if b.buf.length ≤ sz.toNat then
    .ok { b with buf := b.buf ++ List.replicate (sz.toNat - b.buf.length) none }
  else .error .outOfRange

/-- The sum is taken in `unsigned int` and converted to `int`. -/
def fitSize (b : MessageBuf) : Run MessageBuf := b.resize (toInt32 ((b.getMessageSize + 8) % 2 ^ 32))

def readFrom (k : Kernel) (b : MessageBuf) (offset : Nat) (sz : Int) (r : Receiver) :
    Run (Int × MessageBuf × Receiver) := do
  let (status, tail, r) ← recvFull k (b.buf.drop offset) sz r
  return (status, { b with buf := b.buf.take offset ++ tail }, r)

end MessageBuf

def recvMessage (k : Kernel) (r : Receiver) : Run (Option MessageBuf × Receiver) := do
  let buf ← MessageBuf.empty.resize 8
  let (status, buf, r) ← buf.readFrom k 0 8 r
  if status ≠ 0 then
    return (none, r)
  if buf.getMessageSize = 0 then
    return (some buf, r)
  let buf ← buf.fitSize
  let (_, buf, r) ← buf.readFrom k 8 (toInt32 buf.getMessageSize) r
  return (some buf, r)

def recvMessages (k : Kernel) : Nat → Receiver → Run (List (Option MessageBuf) × Receiver)
  | 0, r => .ok ([], r)
  | n + 1, r => do
      let (m, r) ← recvMessage k r
      let (ms, r) ← recvMessages k n r
      return (m :: ms, r)

def messageHeader (msgId : UInt32) (size : Nat) : Bytes := toBytes 4 msgId.toNat ++ toBytes 4 size

/-- An empty piece is not handed to `SendFull`, which would take it for an error. -/
def sendPiece (k : Kernel) (buf : Bytes) (s : Sender) : Run Sender :=
  if buf.length ≠ 0 then do
    let (_, s) ← sendFull k buf buf.length s
    return s
  else
    return s

def sendMessage2 (k : Kernel) (msgId : UInt32) (buf1 buf2 : Bytes) (s : Sender) : Run Sender := do
  let (_, s) ← sendFull k (messageHeader msgId (buf1.length + buf2.length)) 8 s
  let s ← sendPiece k buf1 s
  sendPiece k buf2 s

def sendMessage (k : Kernel) (msgId : UInt32) (buf : Bytes) (s : Sender) : Run Sender :=
  sendMessage2 k msgId buf [] s

/-- The header carries the 32 bits of `bufSz`. -/
def sendProfMessage (k : Kernel) (msgId : UInt32) (buf : Bytes) (bufSz : Int) (s : Sender) :
    Run (Bool × Sender) := do
  let (status, s) ← sendFull k (messageHeader msgId (bufSz % 2 ^ 32).toNat) 8 s
  if status ≠ 0 then
    return (false, s)
  if bufSz ≠ 0 then
    let (status, s) ← sendFull k buf bufSz s
    return (status = 0, s)
  else
    return (true, s)

/-- A message together with the function its sender uses. -/
inductive Outgoing
  | message2 (msgId : UInt32) (buf1 buf2 : Bytes)
  | message (msgId : UInt32) (buf : Bytes)
  | profMessage (msgId : UInt32) (buf : Bytes)
  deriving DecidableEq, Repr

namespace Outgoing

def msgId : Outgoing → UInt32
  | message2 i _ _ | message i _ | profMessage i _ => i

def payload : Outgoing → Bytes
  | message2 _ b c => b ++ c
  | message _ b | profMessage _ b => b

def frame (m : Outgoing) : Bytes := messageHeader m.msgId m.payload.length ++ m.payload

def send (k : Kernel) (s : Sender) : Outgoing → Run Sender
  | message2 i b c => sendMessage2 k i b c s
  | message i b => sendMessage k i b s
  | profMessage i b => do
      let (_, s) ← sendProfMessage k i b b.length s
      return s

end Outgoing

def sendMessages (k : Kernel) (ms : List Outgoing) (s : Sender) : Run Sender :=
  ms.foldlM (fun s m => m.send k s) s

@[simp] theorem length_messageHeader (msgId : UInt32) (size : Nat) :
    (messageHeader msgId size).length = 8 := by simp [messageHeader]

theorem messageHeader_ne_nil (msgId : UInt32) (size : Nat) : messageHeader msgId size ≠ [] := by
  rw [ne_eq, ← List.length_eq_zero_iff, length_messageHeader]
  omega

theorem word_messageHeader_type (msgId : UInt32) (size : Nat) (post : Bytes) :
    word 4 0 (messageHeader msgId size ++ post) = msgId.toNat := by
  have h := word_append_toBytes [] (toBytes 4 size ++ post) 4 msgId.toNat
  have hlt : msgId.toNat < 256 ^ 4 := msgId.toNat_lt
  rwa [Nat.mod_eq_of_lt hlt, List.nil_append, ← List.append_assoc] at h

theorem word_messageHeader_size (msgId : UInt32) (size : Nat) (post : Bytes) (hsize : size < 2 ^ 32) :
    word 4 4 (messageHeader msgId size ++ post) = size := by
  have h := word_append_toBytes (toBytes 4 msgId.toNat) post 4 size
  rwa [length_toBytes, Nat.mod_eq_of_lt (show size < 256 ^ 4 from hsize)] at h

theorem sendHeader_sends {k : Kernel} (hk : k.Partial) (msgId : UInt32) (size : Nat) (s : Sender) :
    ∃ calls, sendFull k (messageHeader msgId size) 8 s =
      .ok (0, ⟨s.out ++ messageHeader msgId size, calls⟩) := by
  obtain ⟨calls, h⟩ := sendFull_sends hk (messageHeader msgId size) 8 s (by omega) (by omega)
  rw [List.take_of_length_le (by simp)] at h
  exact ⟨calls, h⟩

theorem sendPiece_sends {k : Kernel} (hk : k.Partial) (buf : Bytes) (s : Sender)
    (hbuf : buf.length < 2 ^ 31) : ∃ calls, sendPiece k buf s = .ok ⟨s.out ++ buf, calls⟩ := by
  by_cases hne : buf = []
  · exact ⟨s.calls, by simp [sendPiece, hne]⟩
  · obtain ⟨calls, h⟩ := sendFull_sends hk buf buf.length s (List.length_pos_iff.mpr hne) hbuf
    exact ⟨calls, by simp [sendPiece, h, hne]⟩

theorem sendMessage2_sends {k : Kernel} (hk : k.Partial) (msgId : UInt32) (buf1 buf2 : Bytes) (s : Sender)
    (hbuf : buf1.length + buf2.length < 2 ^ 31) :
    ∃ calls, sendMessage2 k msgId buf1 buf2 s =
      .ok ⟨s.out ++ (messageHeader msgId (buf1.length + buf2.length) ++ (buf1 ++ buf2)), calls⟩ := by
  obtain ⟨c₁, h₁⟩ := sendHeader_sends hk msgId (buf1.length + buf2.length) s
  obtain ⟨c₂, h₂⟩ := sendPiece_sends hk buf1
    ⟨s.out ++ messageHeader msgId (buf1.length + buf2.length), c₁⟩ (by omega)
  obtain ⟨c₃, h₃⟩ := sendPiece_sends hk buf2
    ⟨(s.out ++ messageHeader msgId (buf1.length + buf2.length)) ++ buf1, c₂⟩ (by omega)
  refine ⟨c₃, ?_⟩
  simp only [sendMessage2, h₁, ok_bind, h₂, h₃]
  simp only [List.append_assoc]

theorem sendProfMessage_sends {k : Kernel} (hk : k.Partial) (msgId : UInt32) (buf : Bytes) (bufSz : Nat)
    (s : Sender) (hsz : bufSz < 2 ^ 31) :
    ∃ calls, sendProfMessage k msgId buf bufSz s =
      .ok (true, ⟨s.out ++ (messageHeader msgId bufSz ++ buf.take bufSz), calls⟩) := by
  have hhead : ((bufSz : Int) % 2 ^ 32).toNat = bufSz := by omega
  obtain ⟨c₁, h₁⟩ := sendHeader_sends hk msgId bufSz s
  by_cases hz : bufSz = 0
  · subst hz
    exact ⟨c₁, by simp [sendProfMessage, h₁]⟩
  · obtain ⟨c₂, h₂⟩ := sendFull_sends hk buf bufSz ⟨s.out ++ messageHeader msgId bufSz, c₁⟩ (by omega) hsz
    refine ⟨c₂, ?_⟩
    have hne : (bufSz : Int) ≠ 0 := by omega
    simp only [sendProfMessage, hhead, h₁, ok_bind, ne_eq, not_true_eq_false, if_false, hne,
      not_false_eq_true, if_true, h₂, List.append_assoc, pure_eq_ok, decide_true]

theorem send_frame {k : Kernel} (hk : k.Partial) (m : Outgoing) (s : Sender)
    (hm : m.payload.length < 2 ^ 31) : ∃ calls, m.send k s = .ok ⟨s.out ++ m.frame, calls⟩ := by
  cases m with
  | message2 i b c =>
      obtain ⟨calls, h⟩ := sendMessage2_sends hk i b c s (by simpa [Outgoing.payload] using hm)
      exact ⟨calls, by simpa only [Outgoing.send, Outgoing.frame, Outgoing.msgId, Outgoing.payload,
        List.length_append] using h⟩
  | message i b =>
      obtain ⟨calls, h⟩ := sendMessage2_sends hk i b [] s hm
      exact ⟨calls, by simpa only [Outgoing.send, sendMessage, Outgoing.frame, Outgoing.msgId,
        Outgoing.payload, List.length_nil, Nat.add_zero, List.append_nil] using h⟩
  | profMessage i b =>
      obtain ⟨calls, h⟩ := sendProfMessage_sends hk i b b.length s hm
      rw [List.take_length] at h
      exact ⟨calls, by simp only [Outgoing.send, h, ok_bind, pure_eq_ok, Outgoing.frame, Outgoing.msgId,
        Outgoing.payload]⟩

theorem sendMessages_frames {k : Kernel} (hk : k.Partial) (ms : List Outgoing)
    (hms : ∀ m ∈ ms, m.payload.length < 2 ^ 31) (s : Sender) :
    ∃ calls, sendMessages k ms s = .ok ⟨s.out ++ ms.flatMap Outgoing.frame, calls⟩ := by
  induction ms generalizing s with
  | nil => exact ⟨s.calls, by simp [sendMessages]⟩
  | cons m ms ih =>
      obtain ⟨c, h⟩ := send_frame hk m s (hms m (by simp))
      obtain ⟨calls, hs⟩ := ih (fun m' hm' => hms m' (by simp [hm'])) ⟨s.out ++ m.frame, c⟩
      refine ⟨calls, ?_⟩
      rw [sendMessages, List.foldlM_cons, h, ok_bind]
      simpa [sendMessages] using hs

def received (m : Outgoing) : MessageBuf := ⟨m.frame.map some, 0⟩

theorem bytes_map_some (bs : Bytes) (post : List Cell) (p : Int) :
    (⟨bs.map some ++ post, p⟩ : MessageBuf).bytes = bs ++ post.map (fun c => c.getD 0) := by
  simp [MessageBuf.bytes, Function.comp_def]

theorem received_type (m : Outgoing) : (received m).getMessageType = m.msgId.toNat := by
  have h := bytes_map_some m.frame [] 0
  rw [List.append_nil] at h
  rw [MessageBuf.getMessageType, received, h, List.map_nil, List.append_nil, Outgoing.frame,
    word_messageHeader_type]

theorem received_body (m : Outgoing) : (received m).getBody = m.payload.map some := by
  rw [MessageBuf.getBody, received, Outgoing.frame, List.map_append]
  exact List.drop_left' (by simp)

theorem header_size (msgId : UInt32) {size : Nat} (hsize : size < 2 ^ 32) (post : List Cell) (p : Int) :
    (⟨(messageHeader msgId size).map some ++ post, p⟩ : MessageBuf).getMessageSize = size := by
  rw [MessageBuf.getMessageSize, bytes_map_some]
  exact word_messageHeader_size _ _ _ hsize

theorem recvMessage_header {k : Kernel} (hk : k.Partial) (msgId : UInt32) {size : Nat}
    (hsize : size < 2 ^ 32) (rest : Bytes) (calls : Nat) :
    ∃ calls', recvMessage k ⟨messageHeader msgId size ++ rest, calls⟩ =
      if size = 0 then .ok (some ⟨(messageHeader msgId size).map some, 0⟩, ⟨rest, calls'⟩)
      else do
        let buf ← (⟨(messageHeader msgId size).map some, 0⟩ : MessageBuf).fitSize
        let (_, buf, r) ← buf.readFrom k 8 (toInt32 buf.getMessageSize) ⟨rest, calls'⟩
        return (some buf, r) := by
  obtain ⟨c, h⟩ := recvFull_receives hk (messageHeader msgId size) rest (List.replicate 8 none) [] calls
    (messageHeader_ne_nil _ _) (by simp) (by simp)
  have hread : (⟨List.replicate 8 none, 0⟩ : MessageBuf).readFrom k 0 8
    ⟨messageHeader msgId size ++ rest, calls⟩ =
      .ok (0, ⟨(messageHeader msgId size).map some, 0⟩, ⟨rest, c⟩) := by
    simp only [List.append_nil, length_messageHeader] at h
    simp only [MessageBuf.readFrom, List.drop_zero]
    rw [show ((8 : Int) = (8 : Nat)) from rfl, h]
    simp
  have hhead : (⟨(messageHeader msgId size).map some, 0⟩ : MessageBuf).getMessageSize = size := by
    have := header_size msgId hsize [] 0
    rwa [List.append_nil] at this
  have halloc : MessageBuf.empty.resize 8 = .ok ⟨List.replicate 8 none, 0⟩ := by
    simp [MessageBuf.resize, MessageBuf.empty]
  refine ⟨c, ?_⟩
  simp only [recvMessage, halloc, ok_bind, hread, ne_eq, not_true_eq_false, if_false, hhead]
  by_cases hz : size = 0
  · rw [if_pos hz, if_pos hz, pure_eq_ok]
  · rw [if_neg hz, if_neg hz]

theorem fitSize_header (msgId : UInt32) {size : Nat} (hsize : size < 2 ^ 31 - 8) :
    (⟨(messageHeader msgId size).map some, 0⟩ : MessageBuf).fitSize =
      .ok ⟨(messageHeader msgId size).map some ++ List.replicate size none, 0⟩ := by
  have hhead := header_size msgId (show size < 2 ^ 32 by omega) [] 0
  rw [List.append_nil] at hhead
  rw [MessageBuf.fitSize, hhead, Nat.mod_eq_of_lt (by omega), toInt32_of_lt (by omega), MessageBuf.resize]
  simp only [List.length_map, length_messageHeader]
  rw [if_neg (by omega), if_pos (by omega), show ((size + 8 : Nat) : Int).toNat - 8 = size by omega]

theorem readFrom_body {k : Kernel} {status : Int} {r r' : Receiver} {tail : List Cell}
    (msgId : UInt32) {size : Nat}
    (h : recvFull k (List.replicate size none) size r = .ok (status, tail, r')) :
    (⟨(messageHeader msgId size).map some ++ List.replicate size none, 0⟩ : MessageBuf).readFrom k 8 size r =
      .ok (status, ⟨(messageHeader msgId size).map some ++ tail, 0⟩, r') := by
  have hdrop : ((messageHeader msgId size).map some ++ List.replicate size none : List Cell).drop 8 =
      List.replicate size none := List.drop_left' (by simp)
  have htake : ((messageHeader msgId size).map some ++ List.replicate size none : List Cell).take 8 =
      (messageHeader msgId size).map some := List.take_left' (by simp)
  simp only [MessageBuf.readFrom, hdrop, htake, h, ok_bind, pure_eq_ok]

theorem recvMessage_frame {k : Kernel} (hk : k.Partial) (m : Outgoing) (hm : m.payload.length < 2 ^ 31 - 8)
    (rest : Bytes) (calls : Nat) :
    ∃ calls', recvMessage k ⟨m.frame ++ rest, calls⟩ = .ok (some (received m), ⟨rest, calls'⟩) := by
  obtain ⟨c₁, h₁⟩ :=
    recvMessage_header hk m.msgId (show m.payload.length < 2 ^ 32 by omega) (m.payload ++ rest) calls
  rw [Outgoing.frame, List.append_assoc, h₁]
  by_cases hz : m.payload.length = 0
  · have hnil : m.payload = [] := List.length_eq_zero_iff.mp hz
    exact ⟨c₁, by simp [hnil, received, Outgoing.frame]⟩
  · obtain ⟨c₂, h₂⟩ := recvFull_receives hk m.payload rest (List.replicate m.payload.length none) [] c₁
      (by simpa using hz) (by omega) (by simp)
    rw [List.append_nil, List.append_nil] at h₂
    rw [if_neg hz, fitSize_header _ hm, ok_bind, header_size _ (by omega),
      toInt32_of_lt (by omega), readFrom_body _ h₂]
    exact ⟨c₂, by simp [received, Outgoing.frame]⟩

theorem recvMessages_frames {k : Kernel} (hk : k.Partial) (ms : List Outgoing)
    (hms : ∀ m ∈ ms, m.payload.length < 2 ^ 31 - 8) (rest : Bytes) (calls : Nat) :
    ∃ calls', recvMessages k ms.length ⟨ms.flatMap Outgoing.frame ++ rest, calls⟩ =
      .ok (ms.map (fun m => some (received m)), ⟨rest, calls'⟩) := by
  induction ms generalizing calls with
  | nil => exact ⟨calls, rfl⟩
  | cons m ms ih =>
      obtain ⟨c, h⟩ := recvMessage_frame hk m (hms m (by simp)) (ms.flatMap Outgoing.frame ++ rest) calls
      obtain ⟨calls', hr⟩ := ih (fun m' hm' => hms m' (by simp [hm'])) c
      refine ⟨calls', ?_⟩
      rw [List.flatMap_cons, List.append_assoc, List.length_cons, recvMessages, h, ok_bind]
      simp [hr]

theorem recvMessage_closed (k : Kernel) (calls : Nat) :
    recvMessage k ⟨[], calls⟩ = .ok (none, ⟨[], calls + 1⟩) := by
  simp [recvMessage, MessageBuf.resize, MessageBuf.empty, MessageBuf.readFrom, recvFull_closed]

/-- Message framing round-trips. Under every chunking of both directions the
receiver gets the messages that were sent, in order, with their types and
payloads, and after the last one finds the stream exhausted. -/
theorem messages_roundTrip (k : Kernel) (hk : k.Partial) (ms : List Outgoing)
    (hms : ∀ m ∈ ms, m.payload.length < 2 ^ 31 - 8) :
    ∃ (s : Sender) (bufs : List MessageBuf) (r : Receiver), sendMessages k ms ⟨[], 0⟩ = .ok s ∧
      recvMessages k ms.length ⟨s.out, 0⟩ = .ok (bufs.map some, r) ∧
      bufs.map (fun b => (b.getMessageType, b.getBody)) =
        ms.map (fun m => (m.msgId.toNat, m.payload.map some)) ∧
      recvMessage k r = .ok (none, { r with calls := r.calls + 1 }) := by
  obtain ⟨c, hs⟩ := sendMessages_frames hk ms (fun m hm => by have := hms m hm; omega) ⟨[], 0⟩
  obtain ⟨c', hr⟩ := recvMessages_frames hk ms hms [] 0
  refine ⟨_, ms.map received, ⟨[], c'⟩, hs, ?_, ?_, recvMessage_closed k c'⟩
  · simpa [List.map_map, Function.comp_def] using hr
  · rw [List.map_map]
    exact List.map_congr_left (fun m _ => by simp [received_type, received_body])

/-- A kernel that moves one byte in each call, and an empty message between two
others. -/
theorem messages_roundTrip_bytewise :
    ∃ (s : Sender) (bufs : List MessageBuf) (r : Receiver), sendMessages ⟨fun _ _ => 1, fun _ _ => 1⟩
        [.message2 6 [1, 2] [3], .message 100 [], .profMessage 7 [4]] ⟨[], 0⟩ = .ok s ∧
      recvMessages ⟨fun _ _ => 1, fun _ _ => 1⟩ 3 ⟨s.out, 0⟩ = .ok (bufs.map some, r) ∧
      bufs.map (fun b => (b.getMessageType, b.getBody)) =
        [(6, [some 1, some 2, some 3]), (100, []), (7, [some 4])] ∧
      recvMessage ⟨fun _ _ => 1, fun _ _ => 1⟩ r = .ok (none, { r with calls := r.calls + 1 }) :=
  messages_roundTrip ⟨fun _ _ => 1, fun _ _ => 1⟩
    ⟨fun _ n hn => ⟨Int.one_pos, show (1 : Int) ≤ n by omega⟩,
      fun _ n hn => ⟨Int.one_pos, show (1 : Int) ≤ n by omega⟩⟩
    [.message2 6 [1, 2] [3], .message 100 [], .profMessage 7 [4]] (by decide)

end Llprof.Wire.Framing
