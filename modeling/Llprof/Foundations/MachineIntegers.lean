import Llprof.Foundations.ParentTree
import Mathlib.Data.BitVec

namespace Llprof.MachineIntegers

open ParentTree

/-- A 64-bit integer, whose sums wrap. A `signed long long` is read by `toInt`,
an unsigned one by `toNat`. -/
abbrev LongLong := BitVec 64

/-- The range of a `signed long long`. -/
def Fits64 (n : Int) : Prop := -2 ^ 63 ≤ n ∧ n < 2 ^ 63

instance (n : Int) : Decidable (Fits64 n) := inferInstanceAs (Decidable (_ ∧ _))

theorem fits64_toInt (v : LongLong) : Fits64 v.toInt :=
  ⟨BitVec.le_toInt v, BitVec.toInt_lt⟩

theorem toInt_cast {n : Int} (h : Fits64 n) : (n : LongLong).toInt = n := by
  obtain ⟨hlow, hhigh⟩ := h
  rw [BitVec.toInt_intCast]
  exact Int.bmod_eq_of_le_mul_two (by omega) (by omega)

@[simp] theorem cast_toInt (v : LongLong) : (v.toInt : LongLong) = v :=
  BitVec.eq_of_toInt_eq (toInt_cast (fits64_toInt v))

/-- The value holds the number `n` as far as 64 bits can. -/
structure Counts (v : LongLong) (n : Int) : Prop where
  wrapped : v = (n : LongLong)
  exact : v.toInt = n ↔ Fits64 n

theorem counts_iff {v : LongLong} {n : Int} : Counts v n ↔ v = (n : LongLong) := by
  refine ⟨fun h => h.wrapped, ?_⟩
  rintro rfl
  exact ⟨rfl, fun h => h ▸ fits64_toInt _, toInt_cast⟩

theorem counts_toInt (v : LongLong) : Counts v v.toInt := counts_iff.mpr (cast_toInt v).symm

/-- An unsigned value holds the number `n` as far as 64 bits can. -/
structure Numbers (v : LongLong) (n : Nat) : Prop where
  wrapped : v = (n : LongLong)
  exact : v.toNat = n ↔ n < 2 ^ 64

theorem toNat_cast {n : Nat} (h : n < 2 ^ 64) : (n : LongLong).toNat = n := by
  rw [BitVec.natCast_eq_ofNat, BitVec.toNat_ofNat, Nat.mod_eq_of_lt h]

theorem numbers_iff {v : LongLong} {n : Nat} : Numbers v n ↔ v = (n : LongLong) := by
  refine ⟨fun h => h.wrapped, ?_⟩
  rintro rfl
  exact ⟨rfl, fun h => h ▸ BitVec.isLt _, toNat_cast⟩

theorem numbers_toNat (v : LongLong) : Numbers v v.toNat :=
  numbers_iff.mpr (BitVec.eq_of_toNat_eq (toNat_cast (BitVec.isLt v)).symm)

section Sums

variable {ι α : Type} {weight : ι → LongLong}

theorem counts_sum {number : ι → Int} {xs : List ι} (h : ∀ x ∈ xs, Counts (weight x) (number x)) :
    Counts (xs.map weight).sum (xs.map number).sum := by
  rw [counts_iff]
  induction xs with
  | nil => rfl
  | cons x xs ih =>
      rw [List.forall_mem_cons] at h
      rw [List.map_cons, List.sum_cons, List.map_cons, List.sum_cons, Int.cast_add, h.1.wrapped, ih h.2]

theorem numbers_sum {number : ι → Nat} {xs : List ι} (h : ∀ x ∈ xs, Numbers (weight x) (number x)) :
    Numbers (xs.map weight).sum (xs.map number).sum := by
  rw [numbers_iff]
  induction xs with
  | nil => rfl
  | cons x xs ih =>
      rw [List.forall_mem_cons] at h
      rw [List.map_cons, List.sum_cons, List.map_cons, List.sum_cons, Nat.cast_add, h.1.wrapped, ih h.2]

theorem counts_sumAt {number : ι → Int} {xs : List ι} (h : ∀ x ∈ xs, Counts (weight x) (number x))
    (site : ι → α) (k : α) : Counts (sumAt site weight xs k) (sumAt site number xs k) :=
  counts_sum fun x hx => h x (List.mem_of_mem_filter hx)

theorem numbers_sumAt {number : ι → Nat} {xs : List ι} (h : ∀ x ∈ xs, Numbers (weight x) (number x))
    (site : ι → α) (k : α) : Numbers (sumAt site weight xs k) (sumAt site number xs k) :=
  numbers_sum fun x hx => h x (List.mem_of_mem_filter hx)

theorem counts_sumBelow {number : ι → Int} {xs : List ι} (h : ∀ x ∈ xs, Counts (weight x) (number x))
    (parent : α → Option α) (site : ι → α) (k : α) :
    Counts (sumBelow parent site weight xs k) (sumBelow parent site number xs k) :=
  counts_sum fun x hx => h x (List.mem_of_mem_filter hx)

end Sums

end Llprof.MachineIntegers
