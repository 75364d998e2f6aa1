import Llprof.Foundations.Faulting
import Llprof.Foundations.JsonText

namespace Llprof.Web.JsonWriter

open Faulting LittleEndian Decimal JsonText

def writeJsonInt (value : Int) (strm : Bytes) : Run Bytes :=
  .ok (strm ++ if value < 0 then 45 :: decimal value.natAbs else decimal value.natAbs)

def escapeChar (c : UInt8) : Bytes :=
  if c = 9 then ascii "\\t"
  else if c = 13 then ascii "\\r"
  else if c = 10 then ascii "\\n"
  else if c = 34 then ascii "\\\""
  else [c]

def writeJsonString (value : Bytes) (strm : Bytes) : Run Bytes :=
  .ok (strm ++ 34 :: (value.flatMap escapeChar ++ [34]))

def writeJsonStream (json : Bytes) (strm : Bytes) : Run Bytes := .ok (strm ++ json)

structure Writer where
  strm : Bytes
  closed : Bool
  first : Bool
  deriving DecidableEq, Repr

namespace Writer

def on (strm : Bytes) : Writer := ⟨strm, false, true⟩

/-- The stream, as long as the writer is not closed. -/
def writer (w : Writer) : Run Bytes := do
  require (w.closed = false) .assertion
  return w.strm

end Writer

/-- `JsonDict::add`; `write` is the `write_json` of the value's type. -/
def dictAdd (w : Writer) (name : Bytes) (write : Bytes → Run Bytes) : Run Writer := do
  let strm ← w.writer
  let strm := if w.first then strm ++ ascii "\x7b" else strm ++ ascii ", "
  let strm ← writeJsonString name strm
  let strm ← write (strm ++ ascii ": ")
  return { w with strm, first := false }

def listAdd (w : Writer) (write : Bytes → Run Bytes) : Run Writer := do
  let strm ← w.writer
  let strm := if w.first then strm ++ ascii "[" else strm ++ ascii ", "
  let strm ← write strm
  return { w with strm, first := false }

/-- `close`, which the destructor calls too. -/
def dictClose (w : Writer) : Run Writer :=
  if w.closed then .ok w
  else do
    let strm ← w.writer
    let strm := if w.first then strm ++ ascii "\x7b" else strm
    return { w with strm := strm ++ ascii "\x7d", closed := true }

def listClose (w : Writer) : Run Writer :=
  if w.closed then .ok w
  else do
    let strm ← w.writer
    let strm := if w.first then strm ++ ascii "[" else strm
    return { w with strm := strm ++ ascii "]", closed := true }

inductive Value
  | int (n : Int)
  | str (s : Bytes)
  | list (items : List Value)
  | dict (members : List (Bytes × Value))

def quoted (s : Bytes) : Bytes := 34 :: (s.flatMap escapeChar ++ [34])

mutual

def Value.render : Value → Bytes
  | .int n => lexeme n
  | .str s => quoted s
  | .list items => 91 :: (renderItems items ++ [93])
  | .dict members => 123 :: (renderMembers members ++ [125])

def renderItems : List Value → Bytes
  | [] => []
  | v :: vs => v.render ++ renderMoreItems vs

def renderMoreItems : List Value → Bytes
  | [] => []
  | v :: vs => 44 :: 32 :: (v.render ++ renderMoreItems vs)

def renderMembers : List (Bytes × Value) → Bytes
  | [] => []
  | (name, v) :: ms => quoted name ++ 58 :: 32 :: (v.render ++ renderMoreMembers ms)

def renderMoreMembers : List (Bytes × Value) → Bytes
  | [] => []
  | (name, v) :: ms => 44 :: 32 :: (quoted name ++ 58 :: 32 :: (v.render ++ renderMoreMembers ms))

end

def Renders (write : Bytes → Run Bytes) (v : Value) : Prop := ∀ strm, write strm = .ok (strm ++ v.render)

theorem renders_int (n : Int) : Renders (writeJsonInt n) (.int n) := fun _ => rfl

theorem renders_str (s : Bytes) : Renders (writeJsonString s) (.str s) := fun _ => rfl

theorem renders_stream {write : Bytes → Run Bytes} {v : Value} (h : Renders write v) {json : Bytes}
    (hj : write [] = .ok json) : Renders (writeJsonStream json) v := by
  intro strm
  rw [h [], List.nil_append, Except.ok.injEq] at hj
  rw [writeJsonStream, hj]

theorem renderMoreItems_append (vs : List Value) (v : Value) :
    renderMoreItems (vs ++ [v]) = renderMoreItems vs ++ 44 :: 32 :: v.render := by
  induction vs with
  | nil => simp [renderMoreItems]
  | cons u vs ih => simp [renderMoreItems, ih]

theorem renderMoreMembers_append (ms : List (Bytes × Value)) (name : Bytes) (v : Value) :
    renderMoreMembers (ms ++ [(name, v)]) = renderMoreMembers ms ++
      44 :: 32 :: (quoted name ++ 58 :: 32 :: v.render) := by
  induction ms with
  | nil => simp [renderMoreMembers]
  | cons m ms ih => simp [renderMoreMembers, ih]

/-- A list writer on `strm` that has got these items. -/
def listWriter (strm : Bytes) (items : List Value) : Writer :=
  ⟨strm ++ (if items = [] then [] else 91 :: renderItems items), false, items.isEmpty⟩

def dictWriter (strm : Bytes) (members : List (Bytes × Value)) : Writer :=
  ⟨strm ++ (if members = [] then [] else 123 :: renderMembers members), false, members.isEmpty⟩

theorem listAdd_writer (strm : Bytes) (items : List Value) {write : Bytes → Run Bytes}
    {v : Value} (h : Renders write v) :
    listAdd (listWriter strm items) write = .ok (listWriter strm (items ++ [v])) := by
  rcases items with _ | ⟨u, items⟩
  · simp [listAdd, listWriter, Writer.writer, require_of, h _, renderItems, renderMoreItems, ascii]
  · simp [listAdd, listWriter, Writer.writer, require_of, h _, renderItems, renderMoreItems_append, ascii]

theorem dictAdd_writer (strm : Bytes) (members : List (Bytes × Value)) (name : Bytes)
    {write : Bytes → Run Bytes} {v : Value} (h : Renders write v) :
    dictAdd (dictWriter strm members) name write = .ok (dictWriter strm (members ++ [(name, v)])) := by
  rcases members with _ | ⟨⟨n, u⟩, members⟩
  · simp [dictAdd, dictWriter, Writer.writer, require_of, h _, writeJsonString, renderMembers,
      renderMoreMembers, quoted, ascii]
  · simp [dictAdd, dictWriter, Writer.writer, require_of, h _, writeJsonString, renderMembers,
      renderMoreMembers_append, quoted, ascii]

theorem listClose_writer (strm : Bytes) (items : List Value) :
    ∃ w, listClose (listWriter strm items) = .ok w ∧ w.strm = strm ++ (Value.list items).render := by
  refine ⟨⟨strm ++ (Value.list items).render, true, items.isEmpty⟩, ?_, rfl⟩
  rcases items with _ | ⟨u, items⟩
  · simp [listClose, listWriter, Writer.writer, require_of, Value.render, renderItems, ascii]
  · simp [listClose, listWriter, Writer.writer, require_of, Value.render, ascii]

theorem dictClose_writer (strm : Bytes) (members : List (Bytes × Value)) :
    ∃ w, dictClose (dictWriter strm members) = .ok w ∧ w.strm = strm ++ (Value.dict members).render := by
  refine ⟨⟨strm ++ (Value.dict members).render, true, members.isEmpty⟩, ?_, rfl⟩
  rcases members with _ | ⟨u, members⟩
  · simp [dictClose, dictWriter, Writer.writer, require_of, Value.render, renderMembers, ascii]
  · simp [dictClose, dictWriter, Writer.writer, require_of, Value.render, ascii]

end Llprof.Web.JsonWriter
