import Llprof.Foundations.Decimal
import Llprof.Foundations.Text

namespace Llprof.HeadedMessages

open LittleEndian Decimal Text

/-- A field is a line with a name and a value. One of them declares the length of the body. -/
structure Message where
  first : Bytes
  fields : List (Bytes × Bytes)
  body : Bytes
  deriving DecidableEq, Repr

def lineEnd : Bytes := [13, 10]

def lengthName : Bytes := ascii "Content-Length"

def fieldText (field : Bytes × Bytes) : Bytes := field.1 ++ 58 :: 32 :: field.2

def writeLines (lines : List Bytes) : Bytes := lines.flatMap (· ++ lineEnd)

def writeMessage (m : Message) : Bytes :=
  writeLines (m.first :: (m.fields ++ [(lengthName, decimal m.body.length)]).map fieldText) ++ lineEnd ++
    m.body

def cutLine (s : Bytes) : Option (Bytes × Bytes) := (find lineEnd s).map (fun i => (s.take i, s.drop (i + 2)))

def cutHead : Nat → Bytes → Option (List Bytes × Bytes)
  | 0, _ => none
  | fuel + 1, s =>
      match cutLine s with
      | none => none
      | some (line, rest) => if line = [] then some ([], rest) else (cutHead fuel rest).map
        (fun r => (line :: r.1, r.2))

def readField (line : Bytes) : Option (Bytes × Bytes) :=
  (find [58] line).map (fun i => (line.take i, (line.drop (i + 1)).dropWhile (· = 32)))

def readNumber (digits : Bytes) : Option Nat :=
  if digits ≠ [] ∧ digits.all isDigit then some (digitsValue digits) else none

/-- The first message of what has come, once it is there as a whole, and what comes after it. -/
def readMessage (s : Bytes) : Option (Message × Bytes) :=
  match cutHead (s.length + 1) s with
  | some (first :: lines, rest) => do
      let fields ← lines.mapM readField
      let length ← (fields.lookup lengthName).bind readNumber
      if length ≤ rest.length then some (⟨first, fields, rest.take length⟩, rest.drop length) else none
  | _ => none

/-- What is needed of the lines of a message. -/
structure Clean (m : Message) : Prop where
  first : m.first ≠ [] ∧ 13 ∉ m.first
  name : ∀ f ∈ m.fields, 13 ∉ f.1 ∧ 58 ∉ f.1 ∧ f.1 ≠ lengthName
  value : ∀ f ∈ m.fields, 13 ∉ f.2 ∧ f.2.head? ≠ some 32

def declared (m : Message) : Message := { m with fields := m.fields ++ [(lengthName, decimal m.body.length)] }

variable {line s : Bytes} {lines : List Bytes}

theorem not_lineEnd_prefix {v : Bytes} (hv : v ≠ []) (h : 13 ∉ v) (s : Bytes) : ¬ lineEnd <+: v ++ s := by
  cases v with
  | nil => exact absurd rfl hv
  | cons c v =>
      intro hp
      rw [lineEnd, List.cons_append, List.cons_prefix_cons] at hp
      exact h (hp.1 ▸ List.mem_cons_self)

theorem find_lineEnd (h : 13 ∉ line) (s : Bytes) :
    find lineEnd (line ++ s) = (find lineEnd s).map (· + line.length) := by
  apply find_append
  intro u v hw hv
  apply not_lineEnd_prefix hv
  intro hm
  exact h (hw ▸ List.mem_append_right u hm)

theorem cutLine_line (h : 13 ∉ line) (s : Bytes) : cutLine (line ++ lineEnd ++ s) = some (line, s) := by
  have hstart : find lineEnd (lineEnd ++ s) = some 0 := find_at_start (List.prefix_append _ _)
  rw [cutLine, List.append_assoc, find_lineEnd h, hstart]
  simp [lineEnd]

theorem cutLine_cut (h : 13 ∉ line) {n : Nat} (hn : n < line.length + 2) (s : Bytes) :
    cutLine ((line ++ lineEnd ++ s).take n) = none := by
  have hshort : (line ++ lineEnd ++ s).take n = line.take n ++ [13].take (n - line.length) := by
    have hsplit : line ++ lineEnd ++ s = line ++ [13] ++ (10 :: s) := by simp [lineEnd]
    rw [hsplit, List.take_append_of_le_length (by rw [List.length_append, List.length_singleton]; omega),
      List.take_append]
  have hline : 13 ∉ line.take n := fun hm => h (List.mem_of_mem_take hm)
  have hend : find lineEnd ([13].take (n - line.length)) = none := by
    rw [find_eq_none]
    intro hi
    have hlen := hi.length_le
    rw [lineEnd, List.length_take] at hlen
    simp at hlen
  rw [cutLine, hshort, find_lineEnd hline, hend]
  rfl

theorem writeLines_cons (line : Bytes) (lines : List Bytes) :
    writeLines (line :: lines) = line ++ lineEnd ++ writeLines lines := by
  rw [writeLines, List.flatMap_cons]
  rfl

theorem cutHead_lines (h : ∀ l ∈ lines, l ≠ [] ∧ 13 ∉ l) (rest : Bytes) {fuel : Nat}
    (hf : lines.length < fuel) : cutHead fuel (writeLines lines ++ lineEnd ++ rest) = some (lines, rest) := by
  induction lines generalizing fuel with
  | nil =>
      obtain ⟨fuel, rfl⟩ := Nat.exists_eq_add_of_lt hf
      have hcut := cutLine_line (List.not_mem_nil (a := (13 : UInt8))) rest
      rw [List.nil_append] at hcut
      rw [writeLines, List.flatMap_nil, List.nil_append, cutHead, hcut]
      rfl
  | cons line lines ih =>
      obtain ⟨fuel, rfl⟩ := Nat.exists_eq_add_of_lt hf
      rw [List.forall_mem_cons] at h
      have hcut := cutLine_line h.1.2 (writeLines lines ++ lineEnd ++ rest)
      rw [writeLines_cons, List.append_assoc, List.append_assoc,
        ← List.append_assoc (writeLines lines), cutHead, hcut]
      dsimp only
      rw [if_neg h.1.1, ih h.2 (by rw [List.length_cons] at *; omega)]
      rfl

theorem cutHead_cut (h : ∀ l ∈ lines, l ≠ [] ∧ 13 ∉ l) {n : Nat}
    (hn : n < (writeLines lines).length + 2) (rest : Bytes)
    (fuel : Nat) : cutHead fuel ((writeLines lines ++ lineEnd ++ rest).take n) = none := by
  induction lines generalizing fuel n with
  | nil =>
      have hcut := cutLine_cut (List.not_mem_nil (a := (13 : UInt8))) hn rest
      rw [List.nil_append] at hcut
      cases fuel with
      | zero => rfl
      | succ fuel => rw [writeLines, List.flatMap_nil, List.nil_append, cutHead, hcut]
  | cons line lines ih =>
      rw [List.forall_mem_cons] at h
      have hlen : (line ++ lineEnd).length = line.length + 2 := by rw [List.length_append]; rfl
      rw [writeLines_cons, List.append_assoc, List.append_assoc, ← List.append_assoc (writeLines lines)]
      rw [writeLines_cons, List.length_append, hlen] at hn
      cases fuel with
      | zero => rfl
      | succ fuel =>
          rw [cutHead]
          by_cases hshort : n < line.length + 2
          · rw [cutLine_cut h.1.2 hshort]
          · have hlong : (line ++ lineEnd ++ (writeLines lines ++ lineEnd ++ rest)).take n =
                line ++ lineEnd ++ (writeLines lines ++ lineEnd ++ rest).take (n - (line.length + 2)) := by
              rw [List.take_append, hlen, List.take_of_length_le (by rw [hlen]; omega)]
            rw [hlong, cutLine_line h.1.2]
            dsimp only
            rw [if_neg h.1.1, ih h.2 (by omega)]
            rfl

theorem readField_text {field : Bytes × Bytes} (hname : 58 ∉ field.1) (hvalue : field.2.head? ≠ some 32) :
    readField (fieldText field) = some field := by
  have hfind : find [58] (fieldText field) = some field.1.length := by
    rw [find_singleton]
    exact findFirstOf_append_cons hname _
  have hdrop : (fieldText field).drop (field.1.length + 1) = 32 :: field.2 := by simp [fieldText]
  have hskip : (32 :: field.2).dropWhile (· = 32) = field.2 := by
    rw [List.dropWhile_cons_of_pos (by decide)]
    cases hv : field.2 with
    | nil => rfl
    | cons c cs =>
        rw [hv, List.head?_cons, ne_eq, Option.some.injEq] at hvalue
        exact List.dropWhile_cons_of_neg (by simpa using hvalue)
  rw [readField, hfind, Option.map_some, hdrop, hskip, fieldText, List.take_left]

theorem readFields_text {fields : List (Bytes × Bytes)} (h : ∀ f ∈ fields, 58 ∉ f.1 ∧ f.2.head? ≠ some 32) :
    (fields.map fieldText).mapM readField = some fields := by
  induction fields with
  | nil => rfl
  | cons f fields ih =>
      rw [List.forall_mem_cons] at h
      rw [List.map_cons, List.mapM_cons, readField_text h.1.1 h.1.2, ih h.2]
      rfl

theorem readNumber_decimal (n : Nat) : readNumber (decimal n) = some n := by
  have hall : (decimal n).all isDigit = true := List.all_eq_true.mpr fun b hb => isDigit_of_mem_decimal hb
  rw [readNumber, if_pos ⟨decimal_ne_nil n, hall⟩, digitsValue_decimal]

theorem lookup_declared {fields : List (Bytes × Bytes)} (h : ∀ f ∈ fields, f.1 ≠ lengthName) (value : Bytes) :
    (fields ++ [(lengthName, value)]).lookup lengthName = some value := by
  rw [List.lookup_append, List.lookup_eq_none_iff.mpr (fun f hf => by simpa using (h f hf).symm),
    Option.none_or]
  simp

variable {m : Message}

def headLines (m : Message) : List Bytes :=
  m.first :: (m.fields ++ [(lengthName, decimal m.body.length)]).map fieldText

theorem headLines_clean (h : Clean m) : ∀ l ∈ headLines m, l ≠ [] ∧ 13 ∉ l := by
  have hfield (f : Bytes × Bytes) (hf : 13 ∉ f.1 ∧ 13 ∉ f.2) : fieldText f ≠ [] ∧ 13 ∉ fieldText f := by
    refine ⟨by simp [fieldText], ?_⟩
    simp [fieldText, hf.1, hf.2]
  rw [headLines, List.forall_mem_cons]
  refine ⟨h.first, fun l hl => ?_⟩
  obtain ⟨f, hf, rfl⟩ := List.mem_map.mp hl
  rcases List.mem_append.mp hf with hf | hf
  · exact hfield f ⟨(h.name f hf).1, (h.value f hf).1⟩
  · obtain rfl := List.mem_singleton.mp hf
    have hname : 13 ∉ lengthName := by decide
    exact hfield _ ⟨hname, fun hm => absurd (isDigit_of_mem_decimal hm) (by decide)⟩

theorem readFields_declared (h : Clean m) :
    ((declared m).fields.map fieldText).mapM readField = some (declared m).fields := by
  apply readFields_text
  intro f hf
  rcases List.mem_append.mp hf with hf | hf
  · exact ⟨(h.name f hf).2.1, (h.value f hf).2⟩
  · obtain rfl := List.mem_singleton.mp hf
    have hname : 58 ∉ lengthName := by decide
    exact ⟨hname, fun hm => absurd (isDigit_of_mem_decimal (List.mem_of_mem_head? hm)) (by decide)⟩

theorem readNumber_declared (h : Clean m) :
    ((declared m).fields.lookup lengthName).bind readNumber = some m.body.length := by
  rw [declared, lookup_declared (fun f hf => (h.name f hf).2.2), Option.bind_some, readNumber_decimal]

theorem writeMessage_head (m : Message) (rest : Bytes) :
    writeMessage m ++ rest = writeLines (headLines m) ++ lineEnd ++
      (m.body ++ rest) := List.append_assoc _ _ _

theorem length_headLines (lines : List Bytes) : lines.length ≤ (writeLines lines).length := by
  induction lines with
  | nil => exact Nat.zero_le _
  | cons line lines ih =>
      rw [writeLines_cons, List.length_append, List.length_append, List.length_cons]
      have hend : lineEnd.length = 2 := rfl
      omega

theorem readMessage_writeMessage (h : Clean m) (rest : Bytes) :
    readMessage (writeMessage m ++ rest) = some (declared m, rest) := by
  have hlines := length_headLines (headLines m)
  have hfuel : (headLines m).length < (writeMessage m ++ rest).length + 1 := by
    rw [writeMessage_head, List.length_append, List.length_append]
    omega
  have hhead := cutHead_lines (headLines_clean h) (m.body ++ rest) hfuel
  rw [readMessage, writeMessage_head]
  rw [writeMessage_head] at hhead
  rw [hhead, headLines]
  dsimp only
  have hfields := readFields_declared h
  rw [declared] at hfields ⊢
  rw [hfields]
  have hlength := readNumber_declared h
  rw [declared] at hlength
  simp only [Option.bind_eq_bind, Option.bind_some, hlength, List.length_append, Nat.le_add_right,
    if_true, List.take_left, List.drop_left]

theorem readMessage_cut (h : Clean m) {n : Nat} (hn : n < (writeMessage m).length) :
    readMessage ((writeMessage m).take n) = none := by
  have hwhole : writeMessage m = writeLines (headLines m) ++ lineEnd ++ m.body := rfl
  rw [readMessage]
  by_cases hshort : n < (writeLines (headLines m)).length + 2
  · rw [hwhole, cutHead_cut (headLines_clean h) hshort]
  · have hlen : (writeLines (headLines m) ++ lineEnd).length = (writeLines (headLines m)).length + 2 := by
      rw [List.length_append]
      rfl
    rw [hwhole, List.length_append, hlen] at hn
    obtain ⟨k, hk, hbody⟩ : ∃ k, n = (writeLines (headLines m) ++ lineEnd).length + k ∧ k < m.body.length :=
      ⟨n - (writeLines (headLines m) ++ lineEnd).length, by omega, by omega⟩
    have hlines := length_headLines (headLines m)
    have hfuel : (headLines m).length < (writeLines (headLines m) ++ lineEnd ++ m.body.take k).length +
        1 := by
      rw [List.length_append, hlen]
      omega
    have hfields := readFields_declared h
    have hlength := readNumber_declared h
    rw [declared] at hfields hlength
    rw [hwhole, hk, List.take_length_add_append, cutHead_lines (headLines_clean h) _ hfuel, headLines]
    dsimp only
    rw [hfields]
    simp only [Option.bind_eq_bind, Option.bind_some, hlength]
    rw [if_neg (by rw [List.length_take]; omega)]

end Llprof.HeadedMessages
