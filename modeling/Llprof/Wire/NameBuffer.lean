import Llprof.Wire.DrainMessages

namespace Llprof.Wire.NameBuffer

open Faulting LittleEndian Network Framing NameQuery DrainMessages

/-- The entries of the `n` slots from the `i`th on, when `rem` entries are left of a
subsection of type `type`. An entry asks for a name only in a subsection of names. -/
def slotEntries (msgbuf : Bytes) : Nat → Nat → Int → Int → List (Option Nat)
  | 0, _, _, _ => []
  | n + 1, i, rem, type =>
      if rem = 0 then
        slotEntries msgbuf n (i + 1) (toInt32 (word 4 (8 * i + 4) msgbuf)) (toInt32 (word 4 (8 * i) msgbuf))
      else
        (if type = QUERY_NAMES then some (word 8 (8 * i) msgbuf) else none) :: slotEntries msgbuf
          n (i + 1) (rem - 1) type

def requestEntries (body : Bytes) : List (Option Nat) := slotEntries body (body.length / 8) 0 0 0

def entryText (t : NameTable) (entry : Option Nat) : Bytes := (entry.map (NameTable.get t)).getD [] ++ [10]

def entriesText (t : NameTable) (entries : List (Option Nat)) : Bytes := entries.flatMap (entryText t)

/-- No entry without a name finds the buffer full. -/
def LeavesRoom (t : NameTable) (start : Nat) (entries : List (Option Nat)) : Prop :=
  ∀ done entry rest, entries = done ++ entry :: rest → entry = none →
    start + (entriesText t done).length ≠ nameBufSize

variable {t : NameTable}

theorem leavesRoom_nil (start : Nat) : LeavesRoom t start [] := forall_split_nil

theorem leavesRoom_cons {start : Nat} {entry : Option Nat} {entries : List (Option Nat)} :
    LeavesRoom t start (entry :: entries) ↔
      (entry = none → start ≠ nameBufSize) ∧ LeavesRoom t (start + (entryText t entry).length) entries := by
  have hlen (done : List (Option Nat)) : start + (entriesText t (entry :: done)).length =
      start + (entryText t entry).length + (entriesText t done).length := by
    rw [entriesText, List.flatMap_cons, List.length_append, Nat.add_assoc, entriesText]
  rw [LeavesRoom, forall_split_cons]
  simp only [hlen]
  exact Iff.rfl

theorem leavesRoom_of_lt {start : Nat} (h : nameBufSize < start) (entries : List (Option Nat)) :
    LeavesRoom t start entries := by
  intro done entry rest _ _
  omega

theorem length_entryText_name (id : Nat) :
    (entryText t (some id)).length = (NameTable.get t id).length + 1 := by
  rw [entryText, Option.map_some, Option.getD_some, List.length_append, List.length_singleton]

theorem slotEntries_append (n i : Nat) (rem type : Int) {body : Bytes}
    (h : 8 * (i + n) ≤ body.length) (post : Bytes) :
    slotEntries (body ++ post) n i rem type = slotEntries body n i rem type := by
  induction n generalizing i rem type with
  | zero => rfl
  | succ n ih =>
      have hword (off w : Nat) (hoff : off + w ≤ body.length) :
          word w off (body ++ post) = word w off body := by
        rw [word, word, List.drop_append_of_le_length (by omega),
          List.take_append_of_le_length (by rw [List.length_drop]; omega)]
      rw [slotEntries, slotEntries, hword _ 4 (by omega), hword _ 4 (by omega), hword _ 8 (by omega)]
      rw [ih (i + 1) _ _ (by omega), ih (i + 1) _ _ (by omega)]

/-- From a buffer that is not overfull, the handler stays inside it and answers, or its
entries do not leave room. -/
theorem answerLoop_inside (t : NameTable) (msgbuf : Bytes) (n i : Nat) (a : Answer)
    (hbuf : a.nameBuf.length ≤ nameBufSize) :
    (LeavesRoom t a.nameBuf.length (slotEntries msgbuf n i a.subsecRem a.subsecType) ∧
      ∃ reply, answerLoop t msgbuf n i a = .ok reply ∧ (reply.msgId = MSG_NAMES ∨ reply.msgId = MSG_ERROR) ∧
        reply.payload.length ≤ nameBufSize) ∨
    (¬ LeavesRoom t a.nameBuf.length (slotEntries msgbuf n i a.subsecRem a.subsecType) ∧
      answerLoop t msgbuf n i a = .error .outOfRange) := by
  induction n generalizing i a with
  | zero => exact Or.inl ⟨leavesRoom_nil _, _, rfl, Or.inl rfl, hbuf⟩
  | succ n ih =>
      rw [answerLoop, slotEntries]
      by_cases hrem : a.subsecRem = 0
      · rw [if_pos hrem, if_pos hrem]
        exact ih (i + 1) { a with
          subsecType := toInt32 (word 4 (8 * i) msgbuf)
          subsecRem := toInt32 (word 4 (8 * i + 4) msgbuf) } hbuf
      · rw [if_neg hrem, if_neg hrem, leavesRoom_cons]
        by_cases htype : a.subsecType = QUERY_NAMES
        · rw [if_pos htype, if_pos htype, length_entryText_name, and_iff_right (fun h => by cases h)]
          dsimp only
          by_cases hfull : nameBufSize ≤ (NameTable.get t (word 8 (8 * i) msgbuf)).length + a.nameBuf.length
          · rw [if_pos hfull]
            exact Or.inl ⟨leavesRoom_of_lt (by omega) _, _, rfl, Or.inr rfl, Nat.zero_le _⟩
          · rw [if_neg hfull, putSeparator, if_pos (by rw [List.length_append]; omega), ok_bind]
            have hlen : (a.nameBuf ++ NameTable.get t (word 8 (8 * i) msgbuf) ++ [10]).length =
                a.nameBuf.length + ((NameTable.get t (word 8 (8 * i) msgbuf)).length + 1) := by
              simp only [List.length_append, List.length_singleton, Nat.add_assoc]
            rw [← hlen]
            exact ih (i + 1) { a with
              nameBuf := a.nameBuf ++ NameTable.get t (word 8 (8 * i) msgbuf) ++ [10]
              subsecRem := a.subsecRem - 1 } (by dsimp only; omega)
        · rw [if_neg htype, if_neg htype]
          have hlen : (a.nameBuf ++ [10]).length = a.nameBuf.length + (entryText t none).length := by
            simp [entryText]
          by_cases hroom : a.nameBuf.length < nameBufSize
          · rw [putSeparator, if_pos hroom, ok_bind, and_iff_right (fun _ => hroom.ne), ← hlen]
            exact ih (i + 1) { a with
              nameBuf := a.nameBuf ++ [10]
              subsecRem := a.subsecRem - 1 } (by simp only [List.length_append, List.length_singleton]; omega)
          · rw [putSeparator, if_neg hroom, error_bind]
            exact Or.inr ⟨fun h => h.1 rfl (by omega), rfl⟩

/-- What the dispatcher makes of one MSG_QUERY_NAMES request: the handler stays inside
its buffer and its answer is sent. -/
def Answered (k : Kernel) (t : NameTable) (other : Int → Int → Bytes → Run (List Outgoing)) (body : Bytes) :
    Prop :=
  ∃ (r : Receiver) (s : Sender) (reply : Outgoing),
    messageDispatch k (msgHandler t other) ⟨messageHeader MSG_QUERY_NAMES body.length ++ body, 0⟩ ⟨[], 0⟩ =
      .ok (some (r, s)) ∧ (reply.msgId = MSG_NAMES ∨ reply.msgId = MSG_ERROR) ∧ s.out = reply.frame

theorem messageDispatch_names (k : Kernel) (hk : k.Partial) (t : NameTable)
    (other : Int → Int → Bytes → Run (List Outgoing)) (body : Bytes) (hsize : body.length < msgBufSize) :
    (LeavesRoom t 0 (requestEntries body) ∧ Answered k t other body) ∨
    (¬ LeavesRoom t 0 (requestEntries body) ∧
      messageDispatch k (msgHandler t other) ⟨messageHeader MSG_QUERY_NAMES body.length ++ body, 0⟩ ⟨[], 0⟩ =
        .error .outOfRange) := by
  obtain ⟨calls, hd⟩ :=
    messageDispatch_handles hk (msgHandler t other) MSG_QUERY_NAMES body ⟨[], 0⟩ (by decide) hsize
  have hloop :=
    answerLoop_inside t (body ++ List.replicate (msgBufSize - body.length) 255) (body.length / 8) 0 ⟨0, 0, []⟩
      (Nat.zero_le _)
  dsimp only at hloop
  rw [slotEntries_append _ _ _ _ (by omega)] at hloop
  simp only [msgHandler, if_true, Int.toNat_natCast, answerNames] at hd
  rw [requestEntries, Answered, hd]
  rcases hloop with ⟨hroom, reply, hanswer, htype, hlen⟩ | ⟨hfull, hanswer⟩
  · obtain ⟨c', hs⟩ := sendMessages_frames hk [reply]
      (by simp only [List.mem_singleton, forall_eq]; exact lt_of_le_of_lt hlen (by decide)) ⟨[], 0⟩
    simp only [List.nil_append, List.flatMap_cons, List.flatMap_nil, List.append_nil] at hs
    refine Or.inl ⟨hroom, ⟨[], calls⟩, ⟨reply.frame, c'⟩, reply, ?_, htype, rfl⟩
    rw [hanswer, ok_bind, pure_eq_ok, ok_bind, hs, ok_bind, pure_eq_ok]
  · refine Or.inr ⟨hfull, ?_⟩
    rw [hanswer]
    rfl

theorem Answered.no_error {k : Kernel} {other : Int → Int → Bytes → Run (List Outgoing)}
    {body : Bytes} {e : Fault}
    (h : messageDispatch k (msgHandler t other) ⟨messageHeader MSG_QUERY_NAMES body.length ++ body, 0⟩ ⟨[], 0⟩ = .error e) :
    ¬ Answered k t other body := by
  rintro ⟨r, s, reply, hrun, -⟩
  rw [h] at hrun
  cases hrun

/-- A request that the dispatcher accepts is answered within the buffer exactly if no
entry of a subsection of another type comes when the buffer is full to the last byte. -/
theorem name_reply_inside_iff (k : Kernel) (hk : k.Partial) (t : NameTable)
    (other : Int → Int → Bytes → Run (List Outgoing)) (body : Bytes) (hsize : body.length < msgBufSize) :
    Answered k t other body ↔ LeavesRoom t 0 (requestEntries body) := by
  rcases messageDispatch_names k hk t other body hsize with ⟨hroom, ha⟩ | ⟨hfull, he⟩
  · exact iff_of_true ha hroom
  · exact iff_of_false (Answered.no_error he) hfull

def mixedRequest : Bytes :=
  toBytes 4 1 ++ toBytes 4 1 ++ toBytes 8 7 ++ toBytes 4 2 ++ toBytes 4 1 ++ toBytes 8 0

theorem mixedRequest_entries : requestEntries mixedRequest = [some 7, none] := by decide

def oneName (name : Bytes) : NameTable := (∅ : NameTable).insert 7 name

theorem mixedRequest_room (name : Bytes) : LeavesRoom (oneName name) 0 (requestEntries mixedRequest) ↔
    name.length + 1 ≠ nameBufSize := by
  have hname : NameTable.get (oneName name) 7 = name := by
    simp [NameTable.get, oneName]
  rw [mixedRequest_entries, leavesRoom_cons, leavesRoom_cons, length_entryText_name, hname]
  simp [leavesRoom_nil]

theorem name_reply_inside_mixed :
    Answered bytewise (oneName (ascii "f")) (fun _ _ _ => .ok []) mixedRequest ↔
      LeavesRoom (oneName (ascii "f")) 0 (requestEntries mixedRequest) :=
  name_reply_inside_iff bytewise bytewise_partial (oneName (ascii "f")) (fun _ _ _ => .ok [])
    mixedRequest (by decide)

/-- A name of 255999 bytes fills the buffer, and the separator of the next entry lies behind it. -/
theorem separator_outside :
    mixedRequest.length < msgBufSize ∧
      messageDispatch bytewise (msgHandler (oneName (List.replicate 255999 102)) (fun _ _ _ => .ok []))
          ⟨messageHeader MSG_QUERY_NAMES mixedRequest.length ++ mixedRequest, 0⟩ ⟨[], 0⟩ =
            .error .outOfRange ∧
      ¬ Answered bytewise (oneName (List.replicate 255999 102)) (fun _ _ _ => .ok []) mixedRequest := by
  have hsize : mixedRequest.length < msgBufSize := by decide
  rcases messageDispatch_names bytewise bytewise_partial
    (oneName (List.replicate 255999 102)) (fun _ _ _ => .ok []) mixedRequest hsize with ⟨hroom, -⟩ | ⟨-, he⟩
  · rw [mixedRequest_room, List.length_replicate] at hroom
    exact absurd rfl hroom
  · exact ⟨hsize, he, Answered.no_error he⟩

end Llprof.Wire.NameBuffer
