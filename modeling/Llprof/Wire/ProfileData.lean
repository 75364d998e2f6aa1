import Llprof.Foundations.Streams
import Llprof.Wire.NameQuery

namespace Llprof.Wire.ProfileData

open Faulting LittleEndian Streams Network Framing NameQuery

def MSG_PROFILE_DATA : UInt32 := 6
def MSG_STACK_DATA : UInt32 := 9
def MSG_NOWINFO : UInt32 := 12
def MSG_COMMAND_SUCCEED : UInt32 := 100

/-- The object of `w` bytes at an offset of an allocation. -/
def cellWord (w off : Nat) (cells : List Cell) : Run Nat :=
  let obj := (cells.drop off).take w
  if obj.length < w then .error .outOfRange
  else if obj.all Option.isSome then .ok (ofBytes (obj.map (fun c => c.getD 0)))
  else .error .indeterminate

def seek (b : MessageBuf) (offset : Nat) : Run MessageBuf := do
  require (b.ptr + offset ≤ b.buf.length) .assertion
  return { b with ptr := b.ptr + offset }

/-- `Get<uint64_t>`. -/
def getU64 (b : MessageBuf) : Run (Nat × MessageBuf) := do
  require (8 + b.ptr ≤ b.buf.length) .assertion
  let v ← cellWord 8 (b.ptr.toNat + 8) b.buf
  let b ← seek b 8
  return (v, b)

def isEOF (b : MessageBuf) : Bool := (b.buf.length : Int) - b.ptr - 8 ≤ 0

def asString (b : MessageBuf) : Run Bytes :=
  if b.getBody.all Option.isSome then .ok (b.getBody.map (fun c => c.getD 0)) else .error .indeterminate

/-- `member_offset_info_` of the two members that are used here. -/
structure Offsets where
  nameid : Nat
  recordSize : Nat

def askRecords (o : Offsets) : Nat → MessageBuf → Asked → Run (MessageBuf × Asked)
  | 0, _, _ => .error .outOfFuel
  | fuel + 1, res, a =>
      if isEOF res then
        .ok (res, a)
      else do
        let nameid ← cellWord 8 (res.ptr.toNat + 8 + o.nameid) res.buf
        let res ← seek res o.recordSize
        askRecords o fuel res (askName a nameid)

structure Receiving where
  asked : Asked
  bufForThreads : Std.TreeMap Nat MessageBuf
  nowinfoBufForThreads : Std.TreeMap Nat MessageBuf

/-- The loop ends with MSG_COMMAND_SUCCEED, before the messages that are left,
or the function returns false. -/
inductive LoopEnd
  | failed (r : Receiving)
  | finished (r : Receiving) (rest : List MessageBuf)

/-- The messages are those that `RecvMessage` returns; after them the connection
is closed. -/
def recvLoop (o : Offsets) : List MessageBuf → Receiving → Run LoopEnd
  | [], r => .ok (.failed r)
  | res :: rest, r =>
      if res.getMessageType = MSG_COMMAND_SUCCEED.toNat then
        .ok (.finished r rest)
      else if res.getMessageType = MSG_ERROR.toNat then
        .ok (.failed r)
      else if res.getMessageType = MSG_PROFILE_DATA.toNat then do
        let (threadId, res) ← getU64 res
        let (res, asked) ← askRecords o (res.buf.length + 1) { res with ptr := 8 } r.asked
        recvLoop o rest { r with asked, bufForThreads := r.bufForThreads.insert threadId res }
      else if res.getMessageType = MSG_NOWINFO.toNat then do
        let (threadId, res) ← getU64 res
        recvLoop o rest { r with nowinfoBufForThreads := r.nowinfoBufForThreads.insert threadId res }
      else
        recvLoop o rest r

/-- The loop over the lines of the reply. -/
def setNames : List Nat → Stream → NameTable → NameTable
  | [], _, names => names
  | nameid :: nameids, strm, names =>
      let (s, strm) := getline strm
      setNames nameids strm (names.insert nameid s)

/-- A call of `ThreadStore::Store`; a missing NOWINFO buffer is a null pointer. -/
structure StoreCall where
  thread : Nat
  buf : MessageBuf
  nowinfo : Option MessageBuf

def storeCalls (r : Receiving) : List StoreCall :=
  r.bufForThreads.toList.map (fun p => ⟨p.1, p.2, r.nowinfoBufForThreads[p.1]?⟩)

structure Outcome where
  success : Bool
  names : NameTable
  stores : List StoreCall

def noBuffers (names : NameTable) : Receiving := ⟨⟨names, []⟩, ∅, ∅⟩

/-- The type of the reply to the name query is not looked at. -/
def getProfileData (o : Offsets) (names : NameTable) (incoming : List MessageBuf) : Run Outcome := do
  match ← recvLoop o incoming (noBuffers names) with
  | .failed r => return ⟨false, r.asked.names, []⟩
  | .finished r rest =>
      if r.asked.queryNames = [] then
        return ⟨true, r.asked.names, storeCalls r⟩
      else
        match rest with
        | [] => throw .nullDeref
        | reply :: _ => do
            let text ← asString reply
            return ⟨true, setNames r.asked.queryNames.tail (ofText text) r.asked.names, storeCalls r⟩

end Llprof.Wire.ProfileData
