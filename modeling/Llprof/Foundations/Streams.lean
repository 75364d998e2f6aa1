import Llprof.Foundations.Decimal

namespace Llprof.Streams

open LittleEndian Decimal

def isSpace (b : UInt8) : Bool := b == 32 || (9 ≤ b && b ≤ 13)

theorem not_space_of_all {w : Bytes} (h : w.all (fun b => !isSpace b) = true) :
    ∀ b ∈ w, isSpace b = false := by
  intro b hb
  simpa using List.all_eq_true.mp h b hb

/-- The characters that a `stringstream` has left, and its `eofbit` and
`failbit`. -/
structure Stream where
  rest : Bytes
  eof : Bool
  fail : Bool
  deriving DecidableEq, Repr

def ofText (text : Bytes) : Stream := ⟨text, false, false⟩

/-- The manipulator, which does nothing to a stream that has ended or failed. -/
def ws (s : Stream) : Stream :=
  if s.eof || s.fail then { s with fail := true }
  else
    let rest := s.rest.dropWhile isSpace
    { s with rest, eof := rest.isEmpty }

/-- What precedes each extraction: blanks are skipped, and a stream without
anything else left fails. -/
def sentry (s : Stream) : Stream :=
  if s.eof || s.fail then { s with fail := true }
  else
    let s := ws s
    if s.eof then { s with fail := true } else s

def takeChars (p : UInt8 → Bool) (s : Stream) : Bytes × Stream :=
  let rest := s.rest.dropWhile p
  (s.rest.takeWhile p, { s with rest, eof := rest.isEmpty })

def readWord (old : Bytes) (s : Stream) : Bytes × Stream :=
  let s := sentry s
  if s.fail then (old, s) else takeChars (fun b => !isSpace b) s

def readSign (s : Stream) : Bool × Stream :=
  match s.rest with
  | 45 :: rest => (true, { s with rest })
  | 43 :: rest => (false, { s with rest })
  | _ => (false, s)

def readInt (old : Int) (s : Stream) : Int × Stream :=
  let s := sentry s
  if s.fail then (old, s)
  else
    let (negative, s) := readSign s
    let (digits, s) := takeChars isDigit s
    if digits = [] then (0, { s with fail := true })
    else (if negative then -(digitsValue digits : Int) else digitsValue digits, s)

/-- `>>` into an `int`: of a number that is none the nearest `int` is stored. -/
def readInt32 (old : Int) (s : Stream) : Int × Stream :=
  let (value, s) := readInt old s
  if value < -2 ^ 31 then (-2 ^ 31, { s with fail := true })
  else if 2 ^ 31 ≤ value then (2 ^ 31 - 1, { s with fail := true })
  else (value, s)

def getline (s : Stream) : Bytes × Stream :=
  if s.eof || s.fail then ([], { s with fail := true })
  else
    let line := s.rest.takeWhile (fun b => b != 10)
    match s.rest.dropWhile (fun b => b != 10) with
    | [] => (line, { rest := [], eof := true, fail := line.isEmpty })
    | _ :: rest => (line, { s with rest })

theorem takeWhile_dropWhile_append {p : UInt8 → Bool} {w : Bytes} (rest : Bytes) (hw : ∀ b ∈ w, p b = true)
    {c : UInt8} (hc : p c = false) :
    (w ++ c :: rest).takeWhile p = w ∧ (w ++ c :: rest).dropWhile p = c :: rest := by
  rw [List.takeWhile_append_of_pos hw, List.dropWhile_append_of_pos hw]
  simp [hc]

theorem sentry_blank {blank : Bytes} (text : Bytes) {c : UInt8} (hb : ∀ b ∈ blank, isSpace b = true)
    (hc : isSpace c = false) : sentry (ofText (blank ++ c :: text)) = ofText (c :: text) := by
  obtain ⟨-, hd⟩ := takeWhile_dropWhile_append text hb hc
  simp [sentry, ws, ofText, hd]

theorem ws_blank {blank : Bytes} (text : Bytes) {c : UInt8} (hb : ∀ b ∈ blank, isSpace b = true)
    (hc : isSpace c = false) : ws (ofText (blank ++ c :: text)) = ofText (c :: text) := by
  obtain ⟨-, hd⟩ := takeWhile_dropWhile_append text hb hc
  simp [ws, ofText, hd]

theorem readWord_ofText (old : Bytes) {blank w : Bytes} (text : Bytes) {c : UInt8}
    (hb : ∀ b ∈ blank, isSpace b = true) (hne : w ≠ []) (hw : ∀ b ∈ w, isSpace b = false)
    (hc : isSpace c = true) :
    readWord old (ofText (blank ++ (w ++ c :: text))) = (w, ofText (c :: text)) := by
  obtain ⟨d, w, rfl⟩ := List.exists_cons_of_ne_nil hne
  have hs := sentry_blank (w ++ c :: text) hb (hw d List.mem_cons_self)
  obtain ⟨ht, hd⟩ := takeWhile_dropWhile_append (p := fun b => !isSpace b) text
    (w := d :: w) (by simpa using hw) (c := c) (by simp [hc])
  rw [List.cons_append] at ht hd ⊢
  rw [readWord, hs]
  simp only [ofText, Bool.false_eq_true, if_false, takeChars, ht, hd]
  rfl

theorem isDigit_not_space {d : UInt8} (h : isDigit d = true) : isSpace d = false ∧ d ≠ 45 ∧ d ≠ 43 := by
  have hd : 48 ≤ d.toNat ∧ d.toNat ≤ 57 := by simpa [isDigit, UInt8.le_iff_toNat_le] using h
  have hne : ∀ c : UInt8, c.toNat < 48 → d ≠ c := by
    rintro c hc rfl
    omega
  refine ⟨?_, hne 45 (by decide), hne 43 (by decide)⟩
  have h13 : ¬ d ≤ 13 := by
    rw [UInt8.le_iff_toNat_le]
    exact Nat.not_le.mpr (Nat.lt_of_lt_of_le (by decide) hd.1)
  simp [isSpace, hne 32 (by decide), h13]

theorem readSign_digit {d : UInt8} (h : isDigit d = true) (rest : Bytes) :
    readSign (ofText (d :: rest)) = (false, ofText (d :: rest)) := by
  obtain ⟨-, h₁, h₂⟩ := isDigit_not_space h
  unfold readSign ofText
  split
  · rename_i he
    exact absurd (List.cons.inj he).1 h₁
  · rename_i he
    exact absurd (List.cons.inj he).1 h₂
  · rfl

theorem readInt_ofText (old : Int) {blank : Bytes} (text : Bytes) (n : Nat) {c : UInt8}
    (hb : ∀ b ∈ blank, isSpace b = true) (hc : isDigit c = false) :
    readInt old (ofText (blank ++ (decimal n ++ c :: text))) = ((n : Int), ofText (c :: text)) := by
  have hall : ∀ b ∈ decimal n, isDigit b = true := fun b hm => isDigit_of_mem_decimal hm
  obtain ⟨ht, hdr⟩ := takeWhile_dropWhile_append text hall hc
  have hv := digitsValue_decimal n
  rcases hn : decimal n with - | ⟨d, ds⟩
  · exact absurd hn (decimal_ne_nil n)
  · rw [hn] at hall ht hdr hv
    have hd := hall d List.mem_cons_self
    have hs := sentry_blank (ds ++ c :: text) hb (isDigit_not_space hd).1
    rw [List.cons_append] at ht hdr ⊢
    have htake : takeChars isDigit (ofText (d :: (ds ++ c :: text))) = (d :: ds, ofText (c :: text)) := by
      simp [takeChars, ofText, ht, hdr]
    have hfail : (ofText (d :: (ds ++ c :: text))).fail = false := rfl
    rw [readInt, hs]
    simp only [hfail, Bool.false_eq_true, if_false, readSign_digit hd, htake, hv]
    rfl

theorem readInt32_eq {old : Int} {s : Stream} (h₀ : -2 ^ 31 ≤ (readInt old s).1)
    (h₁ : (readInt old s).1 < 2 ^ 31) : readInt32 old s = readInt old s := by
  rw [readInt32]
  simp only [if_neg (not_lt.mpr h₀), if_neg (not_le.mpr h₁)]

theorem readInt32_ofText (old : Int) {blank : Bytes} (text : Bytes) {n : Nat} (hn : n < 2 ^ 31) {c : UInt8}
    (hb : ∀ b ∈ blank, isSpace b = true) (hc : isDigit c = false) :
    readInt32 old (ofText (blank ++ (decimal n ++ c :: text))) = ((n : Int), ofText (c :: text)) := by
  have h := readInt_ofText old text n hb hc
  rw [readInt32_eq (by rw [h]; dsimp only; omega) (by rw [h]; dsimp only; omega), h]

end Llprof.Streams
