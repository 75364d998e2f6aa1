import Llprof.Foundations.LittleEndian

namespace Llprof.Utf8

open LittleEndian

/-- Between two characters, or before `more + 1` further bytes of one, the next of
which has its low bits between two bounds. -/
inductive Pending
  | boundary
  | tails (more low high : Nat)
  deriving DecidableEq, Repr

def after : Nat → Pending
  | 0 => .boundary
  | more + 1 => .tails more 0 63

/-- The first byte of a character. Overlong forms, surrogates and code points from
0x110000 on are excluded with the bounds of the second byte. -/
def lead (b : UInt8) : Option Pending :=
  let n := b.toNat
  if n < 0x80 then some .boundary
  else if n < 0xC2 then none
  else if n < 0xE0 then some (.tails 0 0 63)
  else if n = 0xE0 then some (.tails 1 32 63)
  else if n = 0xED then some (.tails 1 0 31)
  else if n < 0xF0 then some (.tails 1 0 63)
  else if n = 0xF0 then some (.tails 2 16 63)
  else if n < 0xF4 then some (.tails 2 0 63)
  else if n = 0xF4 then some (.tails 2 0 15)
  else none

def next : Pending → UInt8 → Option Pending
  | .boundary, b => lead b
  | .tails more low high, b =>
      if 0x80 + low ≤ b.toNat ∧ b.toNat ≤ 0x80 + high then some (after more) else none

def scan (p : Pending) : Bytes → Option Pending
  | [] => some p
  | b :: bs => (next p b).bind (fun p => scan p bs)

def valid (bs : Bytes) : Bool := scan .boundary bs = some .boundary

def encode (n : Nat) : Bytes :=
  if n < 0x80 then [UInt8.ofNat n]
  else if n < 0x800 then [UInt8.ofNat (0xC0 + n / 64), UInt8.ofNat (0x80 + n % 64)]
  else if n < 0x10000 then
    [UInt8.ofNat (0xE0 + n / 4096), UInt8.ofNat (0x80 + n / 64 % 64), UInt8.ofNat (0x80 + n % 64)]
  else
    [UInt8.ofNat (0xF0 + n / 262144), UInt8.ofNat (0x80 + n / 4096 % 64), UInt8.ofNat (0x80 + n / 64 % 64),
      UInt8.ofNat (0x80 + n % 64)]

theorem length_encode_le (n : Nat) : (encode n).length ≤ 4 ∧ (n < 0x10000 → (encode n).length ≤ 3) := by
  unfold encode
  split
  · simp
  · split
    · simp
    · split <;> simp_all

theorem encode_ne_nil (n : Nat) : encode n ≠ [] := by
  unfold encode
  split
  · simp
  · split
    · simp
    · split <;> simp

theorem scan_append (p : Pending) (as bs : Bytes) :
    scan p (as ++ bs) = (scan p as).bind (fun p => scan p bs) := by
  induction as generalizing p with
  | nil => rfl
  | cons a as ih =>
      rw [List.cons_append, scan, scan, Option.bind_assoc]
      congr 1
      funext p
      exact ih p

theorem next_ascii {c : UInt8} (h : c.toNat < 0x80) (p : Pending) :
    next p c = if p = .boundary then some .boundary else none := by
  cases p with
  | boundary => simp [next, lead, h]
  | tails more low high =>
      rw [next, if_neg (by omega), if_neg (by simp)]

theorem valid_append_cons {c : UInt8} (h : c.toNat < 0x80) (as bs : Bytes) :
    valid (as ++ c :: bs) = (valid as && valid bs) := by
  unfold valid
  rw [scan_append]
  cases ha : scan .boundary as with
  | none => simp
  | some p =>
      rw [Option.bind_some, scan, next_ascii h]
      by_cases hp : p = .boundary <;> simp [hp]

theorem valid_ascii_append {as : Bytes} (h : ∀ c ∈ as, c.toNat < 0x80) (bs : Bytes) :
    valid (as ++ bs) = valid bs := by
  induction as with
  | nil => rfl
  | cons a as ih =>
      rw [List.forall_mem_cons] at h
      rw [List.cons_append]
      have hcons := valid_append_cons h.1 [] (as ++ bs)
      rw [List.nil_append] at hcons
      rw [hcons, ih h.2]
      rfl

end Llprof.Utf8
