import Llprof.Foundations.LittleEndian

namespace Llprof.Decimal

open LittleEndian

def decimal (n : Nat) : Bytes := (Nat.toDigits 10 n).map (fun c => UInt8.ofNat c.toNat)

def lexeme (n : Int) : Bytes := if n < 0 then 45 :: decimal n.natAbs else decimal n.natAbs

def isDigit (b : UInt8) : Bool := 48 ≤ b && b ≤ 57

def digitsValue (ds : Bytes) : Nat := ds.foldl (fun v d => 10 * v + (d.toNat - 48)) 0

theorem toNat_digit {c : Char} (h : c.isDigit = true) : (UInt8.ofNat c.toNat).toNat = c.toNat ∧
    48 ≤ c.toNat ∧ c.toNat ≤ 57 := by
  obtain ⟨hlo, hhi⟩ : 48 ≤ c.toNat ∧ c.toNat ≤ 57 := by
    simpa [Char.isDigit, UInt32.le_iff_toNat_le] using h
  exact ⟨by rw [UInt8.toNat_ofNat']; omega, hlo, hhi⟩

theorem isDigit_of_mem_decimal {n : Nat} {b : UInt8} (h : b ∈ decimal n) : isDigit b = true := by
  obtain ⟨c, hc, rfl⟩ := List.mem_map.mp h
  obtain ⟨he, hlo, hhi⟩ := toNat_digit (Nat.isDigit_of_mem_toDigits (by decide) (by decide) hc)
  simp only [isDigit, Bool.and_eq_true, decide_eq_true_eq, UInt8.le_iff_toNat_le, he]
  exact ⟨hlo, hhi⟩

theorem decimal_ne_nil (n : Nat) : decimal n ≠ [] := by
  simp [decimal, Nat.toDigits_ne_nil]

theorem digitsValue_decimal (n : Nat) : digitsValue (decimal n) = n := by
  have h : ∀ (cs : List Char) (v : Nat), (∀ c ∈ cs, c.isDigit = true) →
      (cs.map (fun c => UInt8.ofNat c.toNat)).foldl (fun v d => 10 * v + (d.toNat - 48)) v =
        Nat.ofDigitChars 10 cs v := by
    intro cs
    induction cs with
    | nil => intro v _; simp [Nat.ofDigitChars]
    | cons c cs ih =>
        intro v hd
        rw [List.forall_mem_cons] at hd
        rw [List.map_cons, List.foldl_cons, ih _ hd.2, Nat.ofDigitChars_cons, (toNat_digit hd.1).1]
        rfl
  rw [digitsValue, decimal, h _ _ fun c hc => Nat.isDigit_of_mem_toDigits (by decide) (by decide) hc]
  exact Nat.ofDigitChars_ten_toDigits

theorem decimal_of_le {n : Nat} (h : 10 ≤ n) : decimal n = decimal (n / 10) ++ decimal (n % 10) := by
  rw [decimal, Nat.toDigits_of_base_le (by decide) h, List.map_append, decimal, decimal,
    Nat.toDigits_of_lt_base (Nat.mod_lt n (by decide))]

theorem decimal_head_ne {n : Nat} (h : 0 < n) : (decimal n).head? ≠ some 48 := by
  induction n using Nat.strongRecOn with
  | ind n ih =>
      by_cases hn : n < 10
      · have hdigits : ∀ k < 10, 0 < k → (decimal k).head? ≠ some 48 := by decide
        exact hdigits n hn h
      · have hrest := ih (n / 10) (by omega) (by omega)
        rw [decimal_of_le (by omega), List.head?_append]
        obtain ⟨d, ds, hd⟩ := List.exists_cons_of_ne_nil (decimal_ne_nil (n / 10))
        rw [hd] at hrest ⊢
        exact hrest

end Llprof.Decimal
