import Mathlib.Data.Nat.Basic
import Mathlib.Tactic.Ring
import Mathlib.Tactic.Common

namespace Llprof.LittleEndian

abbrev Bytes := List UInt8

/-- The `w` bytes of a word, least significant first. Higher bits are cut off,
as a store to a `w`-byte object does. -/
def toBytes : Nat → Nat → Bytes
  | 0, _ => []
  | w + 1, n => UInt8.ofNat n :: toBytes w (n / 256)

def ofBytes : Bytes → Nat
  | [] => 0
  | b :: bs => b.toNat + 256 * ofBytes bs

@[simp] theorem length_toBytes (w n : Nat) : (toBytes w n).length = w := by
  induction w generalizing n with
  | zero => rfl
  | succ w ih => simp [toBytes, ih]

theorem ofBytes_toBytes (w n : Nat) : ofBytes (toBytes w n) = n % 256 ^ w := by
  induction w generalizing n with
  | zero => simp [toBytes, ofBytes, Nat.mod_one]
  | succ w ih =>
      have h : n % 256 ^ (w + 1) = n % 256 + 256 * (n / 256 % 256 ^ w) := by rw [pow_succ', Nat.mod_mul]
      rw [toBytes, ofBytes, ih, UInt8.toNat_ofNat', h]

theorem toBytes_ofBytes (bs : Bytes) : toBytes bs.length (ofBytes bs) = bs := by
  induction bs with
  | nil => rfl
  | cons b bs ih =>
      have hb : b.toNat < 256 := b.toNat_lt
      have hlow : UInt8.ofNat (b.toNat + 256 * ofBytes bs) = b := by
        rw [← UInt8.toNat_inj, UInt8.toNat_ofNat']
        omega
      have hhigh : (b.toNat + 256 * ofBytes bs) / 256 = ofBytes bs := by omega
      rw [List.length_cons, ofBytes, toBytes, hlow, hhigh, ih]

theorem ofBytes_lt (bs : Bytes) : ofBytes bs < 256 ^ bs.length := by
  induction bs with
  | nil => simp [ofBytes]
  | cons b bs ih =>
      have hb : b.toNat < 256 := b.toNat_lt
      rw [ofBytes, List.length_cons, pow_succ]
      omega

/-- The value of an object of `w` bytes at offset `off` of a buffer. -/
def word (w off : Nat) (bs : Bytes) : Nat := ofBytes ((bs.drop off).take w)

theorem word_lt (w off : Nat) (bs : Bytes) : word w off bs < 256 ^ w := by
  refine lt_of_lt_of_le (ofBytes_lt _) (Nat.pow_le_pow_right (by omega) ?_)
  exact (List.length_take_le _ _)

theorem word_append_toBytes (pre post : Bytes) (w n : Nat) :
    word w pre.length (pre ++ toBytes w n ++ post) = n % 256 ^ w := by
  rw [word, List.append_assoc, List.drop_left, List.take_left' (length_toBytes w n), ofBytes_toBytes]

/-- Conversion of a 32-bit pattern to `int`. -/
def toInt32 (n : Nat) : Int := if n % 2 ^ 32 < 2 ^ 31 then (n % 2 ^ 32 : Nat) else (n % 2 ^ 32 : Nat) - 2 ^ 32

/-- Conversion of an `int` to a 64-bit `size_t`. -/
def toSize (i : Int) : Nat := (i % 2 ^ 64).toNat

theorem toInt32_of_lt {n : Nat} (h : n < 2 ^ 31) : toInt32 n = n := by
  rw [toInt32, if_pos (by omega)]
  congr 1
  omega

theorem toSize_of_nonneg {i : Int} (h₀ : 0 ≤ i) (h : i < 2 ^ 64) : toSize i = i.toNat := by
  rw [toSize, Int.emod_eq_of_lt h₀ h]

/-- The characters of an ASCII literal as the bytes of a C string. -/
def ascii (s : String) : Bytes := s.toList.map (fun c => UInt8.ofNat c.toNat)

end Llprof.LittleEndian
