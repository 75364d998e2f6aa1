import Llprof.Foundations.Streams
import Mathlib.Data.List.DropRight

namespace Llprof.Extraction

open LittleEndian Decimal Streams

def dropBlanks (t : Bytes) : Bytes := t.dropWhile isSpace

def afterWord (t : Bytes) : Bytes := (dropBlanks t).dropWhile (fun b => !isSpace b)

/-- A number at the beginning of a text: the `int` that is stored, whether it is the
number itself, and what follows. -/
structure Number where
  stored : Int
  fits : Bool
  rest : Bytes
  deriving DecidableEq, Repr

def digitsAt (t : Bytes) : Bytes := (readSign (ofText t)).2.rest

def valueAt (t : Bytes) : Int :=
  let value : Int := digitsValue ((digitsAt t).takeWhile isDigit)
  if (readSign (ofText t)).1 then -value else value

def number (t : Bytes) : Number where
  stored := if valueAt t < -2 ^ 31 then -2 ^ 31 else if 2 ^ 31 ≤ valueAt t then 2 ^ 31 - 1 else valueAt t
  fits := (digitsAt t).takeWhile isDigit ≠ [] ∧ -2 ^ 31 ≤ valueAt t ∧ valueAt t < 2 ^ 31
  rest := (digitsAt t).dropWhile isDigit

def Number.stream (n : Number) : Stream := ⟨n.rest, n.rest.isEmpty, !n.fits⟩

/-- The stream has `t` before it, and has failed only where nothing is left. -/
inductive At : Stream → Bytes → Prop
  | good (t : Bytes) : At (ofText t) t
  | ended {s : Stream} {t : Bytes} (heof : s.eof = true) (ht : dropBlanks t = []) : At s t

variable {s : Stream} {t : Bytes}

theorem ws_bad (h : (s.eof || s.fail) = true) : ws s = { s with fail := true } := if_pos h

theorem sentry_bad (h : (s.eof || s.fail) = true) : sentry s = { s with fail := true } := if_pos h

theorem readWord_bad (old : Bytes) (h : (s.eof || s.fail) = true) :
    readWord old s = (old, { s with fail := true }) := by
  simp [readWord, sentry_bad h]

theorem readInt32_bad {old : Int} (hold : -2 ^ 31 ≤ old ∧ old < 2 ^ 31) (h : (s.eof || s.fail) = true) :
    readInt32 old s = (old, { s with fail := true }) := by
  have hread : readInt old s = (old, { s with fail := true }) := by simp [readInt, sentry_bad h]
  rw [readInt32, hread]
  simp only [if_neg (not_lt.mpr hold.1), if_neg (not_le.mpr hold.2)]

theorem ws_good (t : Bytes) : ws (ofText t) = ⟨dropBlanks t, (dropBlanks t).isEmpty, false⟩ := rfl

theorem sentry_good (h : dropBlanks t ≠ []) : sentry (ofText t) = ofText (dropBlanks t) := by
  have hne : (dropBlanks t).isEmpty = false := List.isEmpty_eq_false_iff.mpr h
  rw [sentry, ws_good]
  simp only [ofText, Bool.or_false, Bool.false_eq_true, if_false, hne]

theorem sentry_end (h : dropBlanks t = []) : sentry (ofText t) = ⟨[], true, true⟩ := by
  rw [sentry, ws_good, h]
  rfl

theorem dropBlanks_idem (t : Bytes) : dropBlanks (dropBlanks t) = dropBlanks t :=
  List.dropWhile_idempotent isSpace t

theorem readWord_good (old : Bytes) (h : dropBlanks t ≠ []) :
    (readWord old (ofText t)).2 = ⟨afterWord t, (afterWord t).isEmpty, false⟩ := by
  rw [readWord, sentry_good h]
  rfl

theorem readSign_good (t : Bytes) : (readSign (ofText t)).2 = ofText (digitsAt t) := by
  unfold digitsAt readSign ofText
  split <;> rfl

theorem readInt_good (old : Int) (h : dropBlanks t ≠ []) :
    readInt old (ofText t) =
      if (digitsAt (dropBlanks t)).takeWhile isDigit = [] then
        (0, ⟨(number (dropBlanks t)).rest, (number (dropBlanks t)).rest.isEmpty, true⟩)
      else
        (valueAt (dropBlanks t), ⟨(number (dropBlanks t)).rest, (number (dropBlanks t)).rest.isEmpty, false⟩) := by
  have hok : (ofText (dropBlanks t)).fail = false := rfl
  rw [readInt, sentry_good h]
  simp only [hok, Bool.false_eq_true, if_false, readSign_good]
  rfl

theorem readInt32_good (old : Int) (h : dropBlanks t ≠ []) :
    readInt32 old (ofText t) = ((number (dropBlanks t)).stored, (number (dropBlanks t)).stream) := by
  rw [readInt32, readInt_good old h, Number.stream]
  by_cases hdigits : (digitsAt (dropBlanks t)).takeWhile isDigit = []
  · have hvalue : valueAt (dropBlanks t) = 0 := by
      rw [valueAt, hdigits]
      exact ite_self _
    have hfits : (number (dropBlanks t)).fits = false := decide_eq_false (fun hf => hf.1 hdigits)
    have hstored : (number (dropBlanks t)).stored = 0 := by rw [number, hvalue]; rfl
    rw [if_pos hdigits, hfits, hstored]
    rfl
  · simp only [if_neg hdigits]
    by_cases hlow : valueAt (dropBlanks t) < -2 ^ 31
    · have hfits : (number (dropBlanks t)).fits = false :=
        decide_eq_false (fun hf => absurd hf.2.1 (not_le.mpr hlow))
      have hstored : (number (dropBlanks t)).stored = -2 ^ 31 := if_pos hlow
      rw [if_pos hlow, hfits, hstored]
      rfl
    · by_cases hhigh : 2 ^ 31 ≤ valueAt (dropBlanks t)
      · have hfits : (number (dropBlanks t)).fits = false :=
          decide_eq_false (fun hf => absurd hf.2.2 (not_lt.mpr hhigh))
        have hstored : (number (dropBlanks t)).stored = 2 ^ 31 - 1 := by
          rw [number, if_neg hlow, if_pos hhigh]
        rw [if_neg hlow, if_pos hhigh, hfits, hstored]
        rfl
      · have hfits : (number (dropBlanks t)).fits = true :=
          decide_eq_true ⟨hdigits, not_lt.mp hlow, not_le.mp hhigh⟩
        have hstored : (number (dropBlanks t)).stored = valueAt (dropBlanks t) := by
          rw [number, if_neg hlow, if_neg hhigh]
        rw [if_neg hlow, if_neg hhigh, hfits, hstored]
        rfl

theorem readInt32_blank (old : Int) (h : dropBlanks t = []) :
    (readInt32 old (ofText t)).2 = ⟨[], true, true⟩ := by
  have hread : readInt old (ofText t) = (old, ⟨[], true, true⟩) := by simp [readInt, sentry_end h]
  rw [readInt32, hread]
  dsimp only
  split
  · rfl
  · split <;> rfl

theorem afterWord_blank (h : dropBlanks t = []) : afterWord t = [] := by rw [afterWord, h, List.dropWhile_nil]

theorem at_stream {n : Number} (h : n.rest = [] ∨ n.fits = true) : At n.stream n.rest := by
  by_cases hrest : n.rest = []
  · exact .ended (by simp [Number.stream, hrest]) (by rw [hrest]; rfl)
  · have hstream : n.stream = ofText n.rest := by
      simp [Number.stream, ofText, h.resolve_left hrest, hrest]
    rw [hstream]
    exact .good n.rest

theorem At.word (old : Bytes) (h : At s t) : At (readWord old s).2 (afterWord t) := by
  cases h with
  | ended heof ht =>
      rw [readWord_bad old (by simp [heof]), afterWord_blank ht]
      exact .ended heof rfl
  | good =>
      by_cases ht : dropBlanks t = []
      · rw [readWord, sentry_end ht, afterWord_blank ht]
        exact .ended rfl rfl
      · rw [readWord_good old ht]
        by_cases hrest : afterWord t = []
        · exact .ended (by simp [hrest]) (by rw [hrest]; rfl)
        · have hstream : (⟨afterWord t, (afterWord t).isEmpty, false⟩ : Stream) = ofText (afterWord t) := by
            simp [ofText, hrest]
          rw [hstream]
          exact .good _

theorem At.int {old : Int} (hold : -2 ^ 31 ≤ old ∧ old < 2 ^ 31) (h : At s t)
    (hn : (number (dropBlanks t)).rest = [] ∨ (number (dropBlanks t)).fits = true) :
    At (readInt32 old s).2 (number (dropBlanks t)).rest := by
  cases h with
  | ended heof ht =>
      rw [readInt32_bad hold (by simp [heof]), ht]
      exact .ended heof rfl
  | good =>
      by_cases ht : dropBlanks t = []
      · rw [readInt32_blank old ht, ht]
        exact .ended rfl rfl
      · rw [readInt32_good old ht]
        exact at_stream hn

structure Stuck (s : Stream) : Prop where
  eof : s.eof = false
  fail : s.fail = true

namespace Stuck

theorem bad (h : Stuck s) : (s.eof || s.fail) = true := by rw [h.fail, Bool.or_true]

theorem blanks (h : Stuck s) : Stuck (ws s) := by
  rw [ws_bad h.bad]
  exact ⟨h.eof, rfl⟩

theorem word (old : Bytes) (h : Stuck s) : Stuck (readWord old s).2 := by
  rw [readWord_bad old h.bad]
  exact ⟨h.eof, rfl⟩

theorem int {old : Int} (hold : -2 ^ 31 ≤ old ∧ old < 2 ^ 31) (h : Stuck s) : Stuck (readInt32 old s).2 := by
  rw [readInt32_bad hold h.bad]
  exact ⟨h.eof, rfl⟩

end Stuck

theorem At.stuck (old : Int) (h : At s t)
    (hn : ¬ ((number (dropBlanks t)).rest = [] ∨ (number (dropBlanks t)).fits = true)) :
    Stuck (readInt32 old s).2 := by
  have ht : dropBlanks t ≠ [] := fun ht => hn (Or.inl (by rw [ht]; rfl))
  rw [not_or, Bool.not_eq_true] at hn
  cases h with
  | ended heof hend => exact absurd hend ht
  | good =>
      rw [readInt32_good old ht]
      exact ⟨List.isEmpty_eq_false_iff.mpr hn.1, by rw [Number.stream, hn.2]; rfl⟩

theorem At.blanks (h : At s t) (ht : dropBlanks t ≠ []) : ws s = ofText (dropBlanks t) := by
  cases h with
  | ended _ hend => exact absurd hend ht
  | good => rw [ws_good, List.isEmpty_eq_false_iff.mpr ht, ofText]

theorem At.end_blanks (h : At s t) (ht : dropBlanks t = []) : (ws s).eof = true := by
  cases h with
  | ended heof _ =>
      rw [ws_bad (by rw [heof, Bool.true_or])]
      exact heof
  | good =>
      rw [ws_good, ht]
      rfl

theorem afterWord_dropBlanks (t : Bytes) : afterWord (dropBlanks t) = afterWord t := by
  rw [afterWord, dropBlanks_idem, afterWord]

end Llprof.Extraction
