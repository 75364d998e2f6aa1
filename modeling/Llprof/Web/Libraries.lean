import Llprof.Foundations.Streams
import Llprof.Foundations.Text

namespace Llprof.Web.Libraries

open LittleEndian Decimal Streams Text

def IsInt (n : Int) : Prop := -2 ^ 31 ≤ n ∧ n < 2 ^ 31

instance (n : Int) : Decidable (IsInt n) := inferInstanceAs (Decidable (-2 ^ 31 ≤ n ∧ n < 2 ^ 31))

/-- What the handlers use of Boost, and what they rely on: `lexical_cast` to `int`, where
`none` is the exception, `split` at each character of a class, and `join`. -/
structure Boost where
  lexicalCastInt : Bytes → Option Int
  split : (UInt8 → Bool) → Bytes → List Bytes
  join : List Bytes → Bytes → Bytes
  cast_isInt {text : Bytes} {value : Int} (h : lexicalCastInt text = some value) : IsInt value
  cast_lexeme {n : Int} (h : IsInt n) : lexicalCastInt (lexeme n) = some n
  split_word {p : UInt8 → Bool} {word : Bytes} (h : ∀ c ∈ word, p c = false) : split p word = [word]
  split_cons {p : UInt8 → Bool} {word : Bytes} (h : ∀ c ∈ word, p c = false) {c : UInt8} (hc : p c = true)
    (rest : Bytes) : split p (word ++ c :: rest) = word :: split p rest

namespace Boost

/-- `split` at one character. -/
def splitAt (boost : Boost) (c : UInt8) (text : Bytes) : List Bytes := boost.split (· == c) text

variable (boost : Boost)

theorem splitAt_eq (c : UInt8) (text : Bytes) : boost.splitAt c text = text.splitOn c := by
  have hword {word : Bytes} (h : c ∉ word) : ∀ d ∈ word, (d == c) = false :=
    fun d hd => beq_eq_false_iff_ne.mpr (fun he => h (he ▸ hd))
  induction hn : text.length using Nat.strong_induction_on generalizing text with
  | h n ih =>
      by_cases hc : c ∈ text
      · obtain ⟨word, rest, rfl, hnot⟩ := List.eq_append_cons_of_mem hc
        have hrest := ih rest.length (by rw [← hn, List.length_append, List.length_cons]; omega) rest rfl
        rw [splitOn_append_cons hnot, ← hrest]
        exact boost.split_cons (hword hnot) (beq_self_eq_true c) rest
      · rw [splitOn_of_not_mem hc]
        exact boost.split_word (hword hc)

end Boost

def lexicalCastInt (text : Bytes) : Option Int :=
  let (negative, digits) :=
    match text with
    | 45 :: digits => (true, digits)
    | 43 :: digits => (false, digits)
    | digits => (false, digits)
  if digits ≠ [] ∧ digits.all isDigit then
    let value : Int := if negative then -(digitsValue digits : Int) else digitsValue digits
    if IsInt value then some value else none
  else
    none

theorem lexicalCastInt_isInt {text : Bytes} {value : Int} (h : lexicalCastInt text = some value) :
    IsInt value := by
  unfold lexicalCastInt at h
  grind

theorem lexicalCastInt_lexeme {n : Int} (h : IsInt n) : lexicalCastInt (lexeme n) = some n := by
  have hall : (decimal n.natAbs).all isDigit = true :=
    List.all_eq_true.mpr fun b hb => isDigit_of_mem_decimal hb
  have hdigits : decimal n.natAbs ≠ [] ∧ (decimal n.natAbs).all isDigit = true := ⟨decimal_ne_nil _, hall⟩
  by_cases hneg : n < 0
  · have hval : (-(digitsValue (decimal n.natAbs)) : Int) = n := by
      rw [digitsValue_decimal]
      omega
    simp only [lexicalCastInt, lexeme, if_pos hneg, if_pos hdigits, if_true, hval]
    rw [if_pos h]
  · obtain ⟨d, ds, hd⟩ := List.exists_cons_of_ne_nil (decimal_ne_nil n.natAbs)
    have hdigit : isDigit d = true := isDigit_of_mem_decimal (hd ▸ List.mem_cons_self)
    have hsigns : d ≠ 45 ∧ d ≠ 43 := (isDigit_not_space hdigit).2
    have hval : ((digitsValue (decimal n.natAbs) : Nat) : Int) = n := by
      rw [digitsValue_decimal]
      omega
    rw [hd] at hdigits hval
    rw [lexeme, if_neg hneg, hd, lexicalCastInt]
    · simp only [if_pos hdigits, Bool.false_eq_true, if_false, hval]
      rw [if_pos h]
    · exact fun _ he => hsigns.1 (List.cons.inj he).1
    · exact fun _ he => hsigns.2 (List.cons.inj he).1

def plainBoost : Boost where
  lexicalCastInt := lexicalCastInt
  split p text := text.splitOnP p
  join words separator := separator.intercalate words
  cast_isInt := lexicalCastInt_isInt
  cast_lexeme := lexicalCastInt_lexeme
  split_word := List.splitOnP_eq_singleton
  split_cons h _ hc rest := List.splitOnP_append_cons_of_forall_mem h _ hc rest

end Llprof.Web.Libraries
