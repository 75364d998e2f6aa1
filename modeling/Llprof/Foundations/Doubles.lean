import Mathlib.Algebra.Order.Ring.Int
import Mathlib.Algebra.Order.Ring.Nat
import Mathlib.Tactic.Ring

namespace Llprof.Doubles

/-- A natural number rounded to 53 bits, to the even one of two neighbours that are
equally near. -/
def round (n : Nat) : Nat :=
  let k := n.log2 - 52
  let q := n / 2 ^ k
  let r := n % 2 ^ k
  (if 2 * r < 2 ^ k ∨ 2 * r = 2 ^ k ∧ q % 2 = 0 then q else q + 1) * 2 ^ k

inductive Double
  | nan
  | infinite (negative : Bool)
  | finite (v : Int)
  deriving DecidableEq, Repr

namespace Double

def ofInt (v : Int) : Double :=
  if (round v.natAbs).log2 < 1024 then .finite
    (if v < 0 then -round v.natAbs else round v.natAbs) else .infinite (decide (v < 0))

protected def add : Double → Double → Double
  | .finite a, .finite b => ofInt (a + b)
  | .finite _, .infinite b => .infinite b
  | .infinite a, .finite _ => .infinite a
  | .infinite a, .infinite b => if a = b then .infinite a else .nan
  | _, _ => .nan

protected def neg : Double → Double
  | .finite a => .finite (-a)
  | .infinite a => .infinite (!a)
  | .nan => .nan

/-- A comparison with a number that is none is false. -/
protected def less : Double → Double → Bool
  | .finite a, .finite b => a < b
  | .finite _, .infinite b => !b
  | .infinite a, .finite _ => a
  | .infinite a, .infinite b => a && !b
  | _, _ => false

instance : Zero Double := ⟨.finite 0⟩
instance : Add Double := ⟨Double.add⟩
instance : Neg Double := ⟨Double.neg⟩
instance : Sub Double := ⟨fun a b => a + -b⟩
instance : LT Double := ⟨fun a b => Double.less a b = true⟩
instance : LE Double := ⟨fun a b => a < b ∨ a = b ∧ a ≠ .nan⟩
instance (a b : Double) : Decidable (a < b) := inferInstanceAs (Decidable (_ = true))
instance (a b : Double) : Decidable (a ≤ b) := inferInstanceAs (Decidable (_ ∨ _))

end Double

variable {n m : Nat} {v w : Int} {a b : Double}

theorem round_of_le (h : n ≤ 2 ^ 53) : round n = n := by
  by_cases htop : n = 2 ^ 53
  · rw [htop]
    decide
  · have hk : n.log2 - 52 = 0 := by
      by_cases h0 : n = 0
      · rw [h0]
        decide
      · have := (Nat.log2_lt h0).mpr (show n < 2 ^ 53 by omega)
        omega
    simp [round, hk, Nat.mod_one]

theorem round_le_next (h : 53 ≤ n.log2) : round n ≤ 2 ^ (n.log2 + 1) := by
  have h0 : n ≠ 0 := by
    rintro rfl
    simp at h
  have hbound : n < 2 ^ 53 * 2 ^ (n.log2 - 52) := by
    rw [← pow_add]
    exact (Nat.log2_lt h0).mp (by omega)
  have hq : n / 2 ^ (n.log2 - 52) < 2 ^ 53 := (Nat.div_lt_iff_lt_mul (Nat.two_pow_pos _)).mpr hbound
  calc round n ≤ 2 ^ 53 * 2 ^ (n.log2 - 52) := by
        rw [round]
        apply Nat.mul_le_mul_right
        split <;> omega
    _ = 2 ^ (n.log2 + 1) := by
        rw [← pow_add]
        congr 1
        omega

/-- Beside a power of two, what is less than half of its last place is dropped. -/
theorem round_beside (hm : 53 ≤ m) (hlow : 2 ^ m ≤ n) (h : n < 2 ^ m + 2 ^ (m - 53)) : round n = 2 ^ m := by
  have h0 : n ≠ 0 := (Nat.lt_of_lt_of_le (Nat.two_pow_pos m) hlow).ne'
  have hlt : 2 ^ (m - 53) < 2 ^ m := Nat.pow_lt_pow_right (by decide) (by omega)
  have hlog : n.log2 = m := by
    have h₁ : m ≤ n.log2 := (Nat.le_log2 h0).mpr hlow
    have h₂ : n.log2 < m + 1 := (Nat.log2_lt h0).mpr (by rw [pow_succ]; omega)
    omega
  have hpow : 2 ^ m = 2 ^ 52 * 2 ^ (m - 52) := by
    rw [← pow_add]
    congr 1
    omega
  have hhalf : 2 ^ (m - 52) = 2 * 2 ^ (m - 53) := by
    rw [← pow_succ']
    congr 1
    omega
  have hn : n = 2 ^ 52 * 2 ^ (m - 52) + (n - 2 ^ m) := by omega
  have hr : n - 2 ^ m < 2 ^ (m - 52) := by omega
  have hq : n / 2 ^ (m - 52) = 2 ^ 52 := by
    rw [hn, Nat.mul_comm, Nat.mul_add_div (Nat.two_pow_pos _), Nat.div_eq_of_lt hr, Nat.add_zero]
  have hmod : n % 2 ^ (m - 52) = n - 2 ^ m := by
    rw [hn, Nat.mul_comm, Nat.mul_add_mod, Nat.mod_eq_of_lt hr]
    omega
  rw [round, hlog, hq, hmod, if_pos (Or.inl (by omega)), hpow]

theorem round_le (hm : 53 ≤ m) (h : n < 2 ^ m + 2 ^ (m - 53)) : round n ≤ 2 ^ m := by
  by_cases hsmall : n ≤ 2 ^ 53
  · rw [round_of_le hsmall]
    exact hsmall.trans (Nat.pow_le_pow_right (by decide) hm)
  have h0 : n ≠ 0 := by omega
  by_cases hlow : n < 2 ^ m
  · have hm' : n.log2 < m := (Nat.log2_lt h0).mpr hlow
    have hlog : 53 ≤ n.log2 := (Nat.le_log2 h0).mpr (by omega)
    exact (round_le_next hlog).trans (Nat.pow_le_pow_right (by decide) hm')
  · exact (round_beside hm (Nat.not_lt.mp hlow) h).le

theorem round_pos (h : 0 < n) : 0 < round n := by
  by_cases hsmall : n ≤ 2 ^ 53
  · rwa [round_of_le hsmall]
  have h0 : n ≠ 0 := by omega
  have hle : 2 ^ (n.log2 - 52) ≤ n := (Nat.le_log2 h0).mp (Nat.sub_le _ _)
  have hq : 0 < n / 2 ^ (n.log2 - 52) := Nat.div_pos hle (Nat.two_pow_pos _)
  rw [round]
  apply Nat.mul_pos _ (Nat.two_pow_pos _)
  split <;> omega

theorem log2_lt_of_le {k : Nat} (h : n ≤ 2 ^ m) (hm : m < k) : n.log2 < k := by
  by_cases h0 : n = 0
  · rw [h0]
    exact Nat.lt_of_le_of_lt (Nat.zero_le m) hm
  · exact (Nat.log2_lt h0).mpr (h.trans_lt (Nat.pow_lt_pow_right (by decide) hm))

namespace Double

@[simp] theorem finite_lt : finite v < finite w ↔ v < w := decide_eq_true_iff

@[simp] theorem finite_le : finite v ≤ finite w ↔ v ≤ w := by
  constructor
  · rintro (h | ⟨h, -⟩)
    · exact (finite_lt.mp h).le
    · exact (finite.inj h).le
  · intro h
    rcases h.lt_or_eq with h | h
    · exact Or.inl (finite_lt.mpr h)
    · exact Or.inr ⟨congrArg finite h, by simp⟩

@[simp] theorem nan_le : ¬ nan ≤ a := by
  rintro (h | ⟨-, h⟩)
  · cases h
  · exact h rfl

theorem zero_def : (0 : Double) = finite 0 := rfl

theorem finite_add : finite v + finite w = ofInt (v + w) := by
  change Double.add (finite v) (finite w) = _
  rw [Double.add]

theorem finite_sub : finite v - finite w = ofInt (v - w) := by
  rw [Int.sub_eq_add_neg, ← finite_add]
  rfl

theorem ofInt_of_le (h : v.natAbs ≤ 2 ^ 53) : ofInt v = finite v := by
  rw [ofInt, round_of_le h, if_pos (log2_lt_of_le h (by decide))]
  congr 1
  split <;> omega

def Within (m : Nat) (a : Double) : Prop := ∃ v, a = finite v ∧ v.natAbs ≤ 2 ^ m

@[simp] theorem within_finite : (finite v).Within m ↔ v.natAbs ≤ 2 ^ m :=
  ⟨fun ⟨_, hw, h⟩ => finite.inj hw ▸ h, fun h => ⟨v, rfl, h⟩⟩

@[simp] theorem within_zero : (0 : Double).Within m := ⟨0, rfl, Nat.zero_le _⟩

theorem ofInt_within (hm : 53 ≤ m) (hm' : m < 1024) (h : v.natAbs < 2 ^ m + 2 ^ (m - 53)) :
    ∃ w : Int, ofInt v = finite w ∧ w.natAbs ≤ 2 ^ m ∧ (w < 0 ↔ v < 0) := by
  have hround := round_le hm h
  refine ⟨_, by rw [ofInt, if_pos (log2_lt_of_le hround hm')], ?_, ?_⟩
  · split <;> omega
  · by_cases hv : v = 0
    · rw [hv]
      decide
    · have := round_pos (show 0 < v.natAbs by omega)
      split <;> omega

theorem Within.mono (h : Within n a) (hnm : n ≤ m) : Within m a := by
  obtain ⟨v, rfl, hv⟩ := h
  exact ⟨v, rfl, hv.trans (Nat.pow_le_pow_right (by decide) hnm)⟩

theorem Within.add (ha : Within m a) (hb : Within n b) (hm : 53 ≤ m) (hm' : m < 1024) (hn : n < m - 53) :
    Within m (a + b) := by
  obtain ⟨v, rfl, hv⟩ := ha
  obtain ⟨w, rfl, hw⟩ := hb
  have hlt : 2 ^ n < 2 ^ (m - 53) := Nat.pow_lt_pow_right (by decide) hn
  obtain ⟨u, hu, hle, -⟩ := ofInt_within hm hm' (show (v + w).natAbs < 2 ^ m + 2 ^ (m - 53) by omega)
  exact ⟨u, hu, hle⟩

theorem Within.add_same (ha : Within m a) (hb : Within m b) (hm : 52 ≤ m) (hm' : m + 1 < 1024) :
    Within (m + 1) (a + b) := by
  obtain ⟨v, rfl, hv⟩ := ha
  obtain ⟨w, rfl, hw⟩ := hb
  have hpos := Nat.two_pow_pos (m + 1 - 53)
  obtain ⟨u, hu, hle, -⟩ :=
    ofInt_within (by omega) hm' (show (v + w).natAbs < 2 ^ (m + 1) + 2 ^ (m + 1 - 53) by
      rw [pow_succ]
      omega)
  exact ⟨u, by rw [finite_add, hu], hle⟩

theorem natAbs_sub_lt (hv : v.natAbs ≤ 2 ^ m) (hw : w.natAbs ≤ 2 ^ m) :
    (v - w).natAbs < 2 ^ (m + 1) + 2 ^ (m + 1 - 53) := by
  have hpos := Nat.two_pow_pos (m + 1 - 53)
  rw [pow_succ]
  omega

theorem Within.sub (ha : Within m a) (hb : Within m b) (hm : 52 ≤ m) (hm' : m + 1 < 1024) :
    Within (m + 1) (a - b) := by
  obtain ⟨v, rfl, hv⟩ := ha
  obtain ⟨w, rfl, hw⟩ := hb
  obtain ⟨u, hu, hle, -⟩ := ofInt_within (by omega) hm' (natAbs_sub_lt hv hw)
  exact ⟨u, hu, hle⟩

theorem Within.neg_sub_pos (ha : Within m a) (hb : Within m b) (hm : 52 ≤ m) (hm' : m + 1 < 1024) :
    0 < -(a - b) ↔ a < b := by
  obtain ⟨v, rfl, hv⟩ := ha
  obtain ⟨w, rfl, hw⟩ := hb
  obtain ⟨u, hu, -, hsign⟩ := ofInt_within (by omega) hm' (natAbs_sub_lt hv hw)
  have hneg : -finite u = finite (-u) := rfl
  rw [finite_sub, hu, hneg, zero_def, finite_lt, finite_lt, Int.neg_pos, hsign]
  omega

end Double

end Llprof.Doubles
