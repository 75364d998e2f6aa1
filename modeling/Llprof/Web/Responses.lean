import Llprof.Foundations.Faulting
import Llprof.Foundations.HeadedMessages
import Llprof.Web.BlankLine
import Llprof.Wire.Network

namespace Llprof.Web.Responses

open Faulting LittleEndian Decimal HeadedMessages BlankLine Wire.Network

/-- The map of the fields of a response, in the order of their names. -/
abbrev Fields := List (Bytes × Bytes)

/-- `header[key] = value`. -/
def setField (key value : Bytes) : Fields → Fields
  | [] => [(key, value)]
  | field :: header =>
      if key = field.1 then (key, value) :: header
      else if key < field.1 then (key, value) :: field :: header
      else field :: setField key value header

def buildRepsonce (firstLine : Bytes) (header : Fields) (body : Bytes) : Bytes :=
  let resp := firstLine ++ crlf
  let resp := header.foldl (fun resp iter => resp ++ iter.1 ++ ascii ": " ++ iter.2 ++ crlf) resp
  let resp := resp ++ ascii "Content-Length: " ++ decimal body.length ++ crlf
  resp ++ crlf ++ body

def setDefaultRespHeader (header : Fields) : Fields :=
  let header := setField (ascii "Server") (ascii "llprof web server") header
  let header := setField (ascii "Connection") (ascii "close") header
  setField (ascii "Content-Type") (ascii "text/plain") header

def buildResp200 (contentType body : Bytes) : Bytes :=
  buildRepsonce (ascii "HTTP/1.1 200 OK") (setField (ascii "Content-Type") contentType (setDefaultRespHeader [])) body

def buildResp404 : Bytes :=
  buildRepsonce (ascii "HTTP/1.1 404 Not Found") (setDefaultRespHeader []) (ascii "404 Error")

def sendStringLoop (k : Kernel) (msg : Bytes) : Nat → Nat → Sender → Run (Bool × Sender)
  | 0, _, _ => .error .outOfFuel
  | fuel + 1, sent, s =>
      if sent < msg.length then
        let n := k.send s.calls (msg.length - sent)
        if n ≤ 0 then
          .ok (false, { s with calls := s.calls + 1 })
        else
          sendStringLoop k msg fuel (sent + n.toNat) ⟨s.out ++ (msg.drop sent).take n.toNat, s.calls + 1⟩
      else
        .ok (true, s)

/-- Every turn of the loop sends something or is its last one. -/
def sendString (k : Kernel) (msg : Bytes) (s : Sender) : Run (Bool × Sender) :=
  sendStringLoop k msg (msg.length + 1) 0 s

def Bounded (k : Kernel) : Prop := ∀ i n, 0 < n → k.send i n ≤ n

variable {k : Kernel} {msg : Bytes}

theorem sendStringLoop_sends (hk : Bounded k) {sent : Nat} (hsent : sent ≤ msg.length) {fuel : Nat}
    (hf : msg.length - sent < fuel) (calls : Nat) :
    ∃ ok n calls', sendStringLoop k msg fuel sent ⟨msg.take sent, calls⟩ = .ok (ok, ⟨msg.take n, calls'⟩) ∧
      n ≤ msg.length ∧ (ok = true ↔ n = msg.length) ∧ (k.Partial → ok = true) := by
  induction fuel generalizing sent calls with
  | zero => omega
  | succ fuel ih =>
      rw [sendStringLoop]
      by_cases hend : sent < msg.length
      · rw [if_pos hend]
        dsimp only
        by_cases hn : k.send calls (msg.length - sent) ≤ 0
        · rw [if_pos hn]
          refine ⟨false, sent, calls + 1, rfl, hsent, by simp [Nat.ne_of_lt hend], fun hp => ?_⟩
          exact absurd (hp.send calls (msg.length - sent) (by omega)).1 (not_lt.mpr hn)
        · have hle := hk calls (msg.length - sent) (by omega)
          have hpiece : msg.take sent ++ (msg.drop sent).take (k.send calls (msg.length - sent)).toNat =
              msg.take (sent + (k.send calls (msg.length - sent)).toNat) := List.take_add.symm
          rw [if_neg hn, hpiece]
          apply ih <;> omega
      · rw [if_neg hend]
        obtain rfl : sent = msg.length := by omega
        exact ⟨true, msg.length, calls, rfl, le_rfl, iff_of_true rfl rfl, fun _ => rfl⟩

theorem sendString_sends (hk : Bounded k) (msg : Bytes) :
    ∃ ok n calls, sendString k msg ⟨[], 0⟩ = .ok (ok, ⟨msg.take n, calls⟩) ∧ n ≤ msg.length ∧
      (ok = true ↔ n = msg.length) ∧ (k.Partial → ok = true) :=
  sendStringLoop_sends hk (Nat.zero_le _) (Nat.lt_succ_self _) 0

inductive Response
  | found (contentType body : Bytes)
  | notFound
  deriving DecidableEq, Repr

def Response.text : Response → Bytes
  | .found contentType body => buildResp200 contentType body
  | .notFound => buildResp404

def Response.message : Response → Message
  | .found contentType body =>
    ⟨ascii "HTTP/1.1 200 OK", [(ascii "Connection", ascii "close"), (ascii "Content-Type", contentType),
      (ascii "Server", ascii "llprof web server")], body⟩
  | .notFound => ⟨ascii "HTTP/1.1 404 Not Found",
    [(ascii "Connection", ascii "close"), (ascii "Content-Type", ascii "text/plain"),
      (ascii "Server", ascii "llprof web server")], ascii "404 Error"⟩

theorem foldl_fields (header : Fields) (resp : Bytes) :
    header.foldl (fun resp iter => resp ++ iter.1 ++ ascii ": " ++ iter.2 ++ crlf) resp =
      resp ++ writeLines (header.map fieldText) := by
  induction header generalizing resp with
  | nil => exact (List.append_nil resp).symm
  | cons f header ih =>
      have hline : resp ++ f.1 ++ ascii ": " ++ f.2 ++ crlf = resp ++ (fieldText f ++ lineEnd) := by
        rw [List.append_assoc, List.append_assoc, List.append_assoc]
        exact congrArg (resp ++ ·) (List.append_assoc f.1 (58 :: 32 :: f.2) lineEnd).symm
      rw [List.foldl_cons, hline, ih, List.map_cons, writeLines_cons, List.append_assoc]

theorem writeLines_append (lines lines' : List Bytes) :
    writeLines (lines ++ lines') = writeLines lines ++ writeLines lines' :=
  List.flatMap_append

theorem buildRepsonce_eq (firstLine : Bytes) (header : Fields) (body : Bytes) :
    buildRepsonce firstLine header body = writeMessage ⟨firstLine, header, body⟩ := by
  have hlength : fieldText (lengthName, decimal body.length) = ascii "Content-Length: " ++
    decimal body.length := rfl
  have hcrlf : lineEnd = crlf := rfl
  rw [buildRepsonce, foldl_fields, writeMessage, writeLines_cons, List.map_append, writeLines_append,
    List.map_singleton, writeLines, writeLines, List.flatMap_singleton, hlength, hcrlf]
  simp only [List.append_assoc]

theorem text_eq (r : Response) : r.text = writeMessage r.message := by
  cases r with
  | found contentType body => exact buildRepsonce_eq _ _ _
  | notFound => exact buildRepsonce_eq _ _ _

def IsValue (value : Bytes) : Prop := 13 ∉ value ∧ value.head? ≠ some 32

instance (value : Bytes) : Decidable (IsValue value) :=
  inferInstanceAs (Decidable (13 ∉ value ∧ value.head? ≠ some 32))

def Response.Clean : Response → Prop
  | .found contentType _ => IsValue contentType
  | .notFound => True

theorem message_clean {r : Response} (h : r.Clean) : HeadedMessages.Clean r.message := by
  have hfields {value : Bytes} (hv : IsValue value) :
    ∀ f ∈ [(ascii "Connection", ascii "close"), (ascii "Content-Type", value),
      (ascii "Server", ascii "llprof web server")], (13 ∉ f.1 ∧ 58 ∉ f.1 ∧ f.1 ≠ lengthName) ∧
        IsValue f.2 := by
    simp only [List.forall_mem_cons]
    exact ⟨⟨by decide, by decide⟩, ⟨by decide, hv⟩, ⟨by decide, by decide⟩, List.forall_mem_nil _⟩
  cases r with
  | found contentType body =>
      have hfirst : ascii "HTTP/1.1 200 OK" ≠ [] ∧ 13 ∉ ascii "HTTP/1.1 200 OK" := by decide
      exact ⟨hfirst, fun f hf => (hfields h f hf).1, fun f hf => (hfields h f hf).2⟩
  | notFound => exact ⟨by decide, fun f hf => (hfields (by decide) f hf).1, fun f hf => (hfields (by decide) f hf).2⟩

/-- Whatever the system takes of a response at a time: the other side reads it if all of
it has been sent, and knows that it is cut off otherwise. -/
theorem sendString_reads (r : Response) (hr : r.Clean) (hk : Bounded k) :
    ∃ ok s, sendString k r.text ⟨[], 0⟩ = .ok (ok, s) ∧ (k.Partial → ok = true) ∧
      (ok = true → s.out = r.text ∧ readMessage s.out = some (declared r.message, [])) ∧
      (ok = false → s.out <+: r.text ∧ readMessage s.out = none) := by
  obtain ⟨ok, n, calls, hrun, hn, hok, hp⟩ := sendString_sends hk r.text
  have hclean := message_clean hr
  refine ⟨ok, _, hrun, hp, fun hall => ?_, fun hcut => ⟨List.take_prefix n r.text, ?_⟩⟩
  · have hread := readMessage_writeMessage hclean []
    rw [List.append_nil, ← text_eq] at hread
    rw [hok.mp hall, List.take_length]
    exact ⟨rfl, hread⟩
  · have hne : n ≠ r.text.length := fun he => Bool.noConfusion (hcut.symm.trans (hok.mpr he))
    rw [text_eq] at hn hne ⊢
    exact readMessage_cut hclean (by omega)

end Llprof.Web.Responses
