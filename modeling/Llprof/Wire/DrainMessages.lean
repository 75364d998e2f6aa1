import Llprof.Wire.ProfileData

namespace Llprof.Wire.DrainMessages

open Faulting LittleEndian Network Framing NameQuery ProfileData

theorem cellWord_written (bytes : Bytes) {w : Nat} (off : Nat) (h : off + w ≤ bytes.length) :
    cellWord w off (bytes.map some) = .ok (word w off bytes) := by
  have hobj : ((bytes.map (some : UInt8 → Cell)).drop off).take w = ((bytes.drop off).take w).map some := by
    rw [← List.map_drop, ← List.map_take]
  have hall : (((bytes.drop off).take w).map (some : UInt8 → Cell)).all Option.isSome = true := by
    rw [List.all_map]
    exact List.all_eq_true.mpr (fun _ _ => rfl)
  have hlen : ¬ (((bytes.drop off).take w).map (some : UInt8 → Cell)).length < w := by
    rw [List.length_map, List.length_take, List.length_drop]
    omega
  have hget : (((bytes.drop off).take w).map (some : UInt8 → Cell)).map (fun c => c.getD 0) =
      (bytes.drop off).take w := by
    simp [Function.comp_def]
  rw [cellWord, hobj, if_neg hlen, if_pos hall, hget, word]

theorem word_append_right (pre r : Bytes) (off : Nat) :
    word 8 (pre.length + off) (pre ++ r) = word 8 off r := by
  rw [word, word, ← List.drop_drop, List.drop_left]

theorem word_append_left {off : Nat} {r post : Bytes} (h : off + 8 ≤ r.length) :
    word 8 off (r ++ post) = word 8 off r := by
  rw [word, word, List.drop_append_of_le_length (by omega),
    List.take_append_of_le_length (by rw [List.length_drop]; omega)]

theorem received_thread_buf (i : UInt32) (thread : Nat) (body : Bytes) :
    ∃ head, head.length = 8 ∧
      (received (.message2 i (toBytes 8 thread) body)).buf = (head ++ toBytes 8 thread ++ body).map some := by
  refine ⟨messageHeader i (toBytes 8 thread ++ body).length, length_messageHeader _ _, ?_⟩
  rw [List.append_assoc]
  rfl

theorem length_received_thread (i : UInt32) (thread : Nat) (body : Bytes) :
    (received (.message2 i (toBytes 8 thread) body)).buf.length = 16 + body.length := by
  obtain ⟨head, hhead, hbuf⟩ := received_thread_buf i thread body
  rw [hbuf, List.length_map, List.length_append, List.length_append, hhead, length_toBytes]

theorem getU64_thread {i : UInt32} {thread : Nat} {body : Bytes} (h : thread < 2 ^ 64) :
    getU64 (received (.message2 i (toBytes 8 thread) body)) =
      .ok (thread, { received (.message2 i (toBytes 8 thread) body) with ptr := 8 }) := by
  obtain ⟨head, hhead, hbuf⟩ := received_thread_buf i thread body
  have hlen := length_received_thread i thread body
  have hmod : thread % 256 ^ 8 = thread := Nat.mod_eq_of_lt h
  have hword : cellWord 8 8 (received (.message2 i (toBytes 8 thread) body)).buf = .ok thread := by
    have hat := word_append_toBytes head body 8 thread
    rw [hhead, hmod] at hat
    have hfit : 8 + 8 ≤ (head ++ toBytes 8 thread ++ body).length := by
      rw [List.length_append, List.length_append, hhead, length_toBytes]
      exact Nat.le_add_right _ _
    rw [hbuf, cellWord_written _ 8 hfit, hat]
  have hptr : (received (.message2 i (toBytes 8 thread) body)).ptr = 0 := rfl
  have hle : (8 : Int) ≤ (received (.message2 i (toBytes 8 thread) body)).buf.length := by omega
  simp [getU64, seek, hptr, hword, hle]

theorem asString_received (m : Outgoing) : asString (received m) = .ok m.payload := by
  rw [asString, received_body, if_pos]
  · simp [Function.comp_def]
  · rw [List.all_map]
    exact List.all_eq_true.mpr (fun _ _ => rfl)

theorem askRecords_records {o : Offsets} (hname : o.nameid + 8 ≤ o.recordSize) (records : List Bytes)
    (hrec : ∀ r ∈ records, r.length = o.recordSize) (pre : Bytes) (hpre : 8 ≤ pre.length) (fuel : Nat)
    (hf : records.length < fuel) (a : Asked) :
    askRecords o fuel ⟨(pre ++ records.flatten).map some, (pre.length : Int) - 8⟩ a =
      .ok (⟨(pre ++ records.flatten).map some, ((pre ++ records.flatten).length : Int) - 8⟩,
        (records.map (word 8 o.nameid)).foldl askName a) := by
  induction records generalizing pre fuel a with
  | nil =>
      obtain ⟨fuel, rfl⟩ : ∃ f, fuel = f + 1 := ⟨fuel - 1, by omega⟩
      have heof : isEOF ⟨(pre ++ [].flatten).map some, (pre.length : Int) - 8⟩ = true := by
        simp [isEOF]
      rw [askRecords, if_pos heof]
      simp
  | cons r records ih =>
      obtain ⟨fuel, rfl⟩ : ∃ f, fuel = f + 1 := ⟨fuel - 1, by omega⟩
      rw [List.forall_mem_cons] at hrec
      obtain ⟨hr, hrest⟩ := hrec
      rw [List.length_cons] at hf
      have hlen : (pre ++ (r :: records).flatten).length = pre.length + o.recordSize +
          records.flatten.length := by
        rw [List.length_append, List.flatten_cons, List.length_append, hr, Nat.add_assoc]
      have heof : isEOF ⟨(pre ++ (r :: records).flatten).map some, (pre.length : Int) - 8⟩ = false := by
        simp only [isEOF, decide_eq_false_iff_not, List.length_map, hlen]
        omega
      have hread : cellWord 8 (((pre.length : Int) - 8).toNat + 8 + o.nameid)
          ((pre ++ (r :: records).flatten).map some) = .ok (word 8 o.nameid r) := by
        have hoff : ((pre.length : Int) - 8).toNat + 8 + o.nameid = pre.length + o.nameid := by omega
        rw [hoff, cellWord_written _ _ (by omega), word_append_right, List.flatten_cons,
          word_append_left (by omega)]
      have hseek : seek ⟨(pre ++ (r :: records).flatten).map some, (pre.length : Int) - 8⟩ o.recordSize =
          .ok ⟨(pre ++ (r :: records).flatten).map some, ((pre ++ r).length : Int) - 8⟩ := by
        have hptr : (pre.length : Int) - 8 + o.recordSize = ((pre ++ r).length : Int) - 8 := by
          rw [List.length_append, hr]
          omega
        have hle : (pre.length : Int) - 8 + o.recordSize ≤
            ((pre ++ (r :: records).flatten).map (some : UInt8 → Cell)).length := by
          rw [List.length_map, hlen]
          omega
        rw [seek, require_of hle, ok_bind, hptr]
        rfl
      have hrun := ih hrest (pre ++ r) (by rw [List.length_append]; omega) fuel (by omega)
        (askName a (word 8 o.nameid r))
      rw [List.append_assoc] at hrun
      rw [askRecords, heof]
      simp only [Bool.false_eq_true, if_false, hread, hseek, ok_bind]
      exact hrun

/-- A message that the profiled program sends before the end of a drain. -/
inductive Part
  | profile (thread : Nat) (records : List Bytes)
  | nowInfo (thread : Nat) (info : Bytes)
  | other (msgId : UInt32) (body : Bytes)

namespace Part

def message : Part → Outgoing
  | profile thread records => .message2 MSG_PROFILE_DATA (toBytes 8 thread) records.flatten
  | nowInfo thread info => .message2 MSG_NOWINFO (toBytes 8 thread) info
  | other msgId body => .message msgId body

def WellFormed (o : Offsets) : Part → Prop
  | profile thread records => thread < 2 ^ 64 ∧ ∀ r ∈ records, r.length = o.recordSize
  | nowInfo thread _ => thread < 2 ^ 64
  | other msgId _ => msgId ≠ MSG_COMMAND_SUCCEED ∧ msgId ≠ MSG_ERROR ∧
    msgId ≠ MSG_PROFILE_DATA ∧ msgId ≠ MSG_NOWINFO

def nameids (o : Offsets) : Part → List Nat
  | profile _ records => records.map (word 8 o.nameid)
  | nowInfo _ _ => []
  | other _ _ => []

/-- What the receiver keeps of a message. -/
def receive (o : Offsets) (r : Receiving) (p : Part) : Receiving :=
  match p with
  | profile thread records =>
      { r with
        asked := (p.nameids o).foldl askName r.asked
        bufForThreads := r.bufForThreads.insert thread
          { received p.message with ptr := 8 + (records.flatten.length : Int) } }
  | nowInfo thread _ =>
      { r with nowinfoBufForThreads := r.nowinfoBufForThreads.insert thread { received p.message with ptr := 8 } }
  | other _ _ => r

end Part

theorem length_le_flatten (rs : List Bytes) (h : ∀ r ∈ rs, 0 < r.length) : rs.length ≤ rs.flatten.length := by
  induction rs with
  | nil => exact le_refl _
  | cons r rs ih =>
      rw [List.forall_mem_cons] at h
      have := ih h.2
      rw [List.flatten_cons, List.length_append, List.length_cons]
      omega

theorem recvLoop_profile {o : Offsets} (hname : o.nameid + 8 ≤ o.recordSize)
    {thread : Nat} {records : List Bytes} (hp : (Part.profile thread records).WellFormed o)
    (rest : List MessageBuf) (r : Receiving) :
    recvLoop o (received (Part.profile thread records).message :: rest) r =
      recvLoop o rest ((Part.profile thread records).receive o r) := by
  obtain ⟨head, hhead, hbuf⟩ := received_thread_buf MSG_PROFILE_DATA thread records.flatten
  have htype : (received (Part.profile thread records).message).getMessageType = MSG_PROFILE_DATA.toNat :=
    received_type _
  have hthread : getU64 (received (Part.profile thread records).message) =
      .ok (thread, { received (Part.profile thread records).message with ptr := 8 }) := getU64_thread hp.1
  have hlen : (head ++ toBytes 8 thread).length = 16 := by rw [List.length_append, hhead, length_toBytes]
  have hfuel : records.length < (received (Part.profile thread records).message).buf.length + 1 := by
    have hle := length_le_flatten records (fun r hr => by rw [hp.2 r hr]; omega)
    have h16 : (received (Part.profile thread records).message).buf.length = 16 + records.flatten.length :=
      length_received_thread _ _ _
    omega
  have hask := askRecords_records hname records hp.2 (head ++ toBytes 8 thread) (by omega) _ hfuel r.asked
  have hfull : ((head ++ toBytes 8 thread ++ records.flatten).length : Int) - 8 = 8 +
      (records.flatten.length : Int) := by
    rw [List.length_append, hlen]
    omega
  rw [← hbuf, hfull, hlen, show ((16 : Nat) : Int) - 8 = 8 from rfl] at hask
  rw [recvLoop, htype, if_neg (by decide), if_neg (by decide), if_pos rfl, hthread, ok_bind]
  simp only [Part.message] at hask ⊢
  rw [hask]
  rfl

theorem recvLoop_nowInfo {o : Offsets} {thread : Nat} (h : thread < 2 ^ 64) (info : Bytes)
    (rest : List MessageBuf) (r : Receiving) :
    recvLoop o (received (Part.nowInfo thread info).message :: rest) r =
      recvLoop o rest ((Part.nowInfo thread info).receive o r) := by
  have htype : (received (Part.nowInfo thread info).message).getMessageType = MSG_NOWINFO.toNat :=
    received_type _
  have hthread : getU64 (received (Part.nowInfo thread info).message) =
      .ok (thread, { received (Part.nowInfo thread info).message with ptr := 8 }) := getU64_thread h
  rw [recvLoop, htype, if_neg (by decide), if_neg (by decide), if_neg (by decide),
    if_pos rfl, hthread, ok_bind]
  rfl

theorem recvLoop_other {o : Offsets} {msgId : UInt32} {body : Bytes}
    (h : (Part.other msgId body).WellFormed o) (rest : List MessageBuf) (r : Receiving) :
    recvLoop o (received (Part.other msgId body).message :: rest) r = recvLoop o rest r := by
  have htype : (received (Part.other msgId body).message).getMessageType = msgId.toNat := received_type _
  obtain ⟨hsucceed, herror, hprofile, hnow⟩ := h
  rw [recvLoop, htype]
  simp only [UInt32.toNat_inj, hsucceed, herror, hprofile, hnow, if_false]

theorem recvLoop_part {o : Offsets} (hname : o.nameid + 8 ≤ o.recordSize) {p : Part} (hp : p.WellFormed o)
    (rest : List MessageBuf) (r : Receiving) :
    recvLoop o (received p.message :: rest) r = recvLoop o rest (p.receive o r) := by
  cases p with
  | profile thread records => exact recvLoop_profile hname hp rest r
  | nowInfo thread info => exact recvLoop_nowInfo hp info rest r
  | other msgId body => exact recvLoop_other hp rest r

theorem recvLoop_parts {o : Offsets} (hname : o.nameid + 8 ≤ o.recordSize) (drain : List Part)
    (hd : ∀ p ∈ drain, p.WellFormed o) (rest : List MessageBuf) (r : Receiving) :
    recvLoop o (drain.map (fun p => received p.message) ++ rest) r =
      recvLoop o rest (drain.foldl (Part.receive o) r) := by
  induction drain generalizing r with
  | nil => rfl
  | cons p drain ih =>
      rw [List.forall_mem_cons] at hd
      rw [List.map_cons, List.cons_append, recvLoop_part hname hd.1, ih hd.2, List.foldl_cons]

theorem recvLoop_succeed (o : Offsets) (body : Bytes) (rest : List MessageBuf) (r : Receiving) :
    recvLoop o (received (.message MSG_COMMAND_SUCCEED body) :: rest) r = .ok (.finished r rest) := by
  have htype : (received (.message MSG_COMMAND_SUCCEED body)).getMessageType = MSG_COMMAND_SUCCEED.toNat :=
    received_type _
  rw [recvLoop, if_pos htype]

theorem recvLoop_error (o : Offsets) (body : Bytes) (rest : List MessageBuf) (r : Receiving) :
    recvLoop o (received (.message MSG_ERROR body) :: rest) r = .ok (.failed r) := by
  have htype : (received (.message MSG_ERROR body)).getMessageType = MSG_ERROR.toNat := received_type _
  rw [recvLoop, htype, if_neg (by decide), if_pos rfl]

theorem receive_asked (o : Offsets) (drain : List Part) (r : Receiving) :
    (drain.foldl (Part.receive o) r).asked = (drain.map (Part.nameids o)).foldl (fun a ids =>
      ids.foldl askName a) r.asked := by
  induction drain generalizing r with
  | nil => rfl
  | cons p drain ih =>
      rw [List.foldl_cons, ih, List.map_cons, List.foldl_cons]
      cases p <;> rfl

end Llprof.Wire.DrainMessages
