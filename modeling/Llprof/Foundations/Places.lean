import Llprof.Foundations.Faulting
import Llprof.Foundations.LittleEndian
import Mathlib.Data.List.Induction

namespace Llprof.Places

open Faulting LittleEndian

variable {α β : Type} {xs piece front back : List α} {p q : Nat}

/-- The list has these elements from place `p` on. -/
def PlacedAt (xs : List α) (p : Nat) (piece : List α) : Prop := piece <+: xs.drop p

theorem placedAt_append (pre piece post : List α) : PlacedAt (pre ++ (piece ++ post)) pre.length piece := by
  rw [PlacedAt, List.drop_left]
  exact List.prefix_append piece post

namespace PlacedAt

theorem length_le (h : PlacedAt xs p piece) : piece.length ≤ xs.length - p := by
  have hle := List.IsPrefix.length_le h
  rwa [List.length_drop] at hle

theorem take (h : PlacedAt xs p piece) : (xs.drop p).take piece.length = piece :=
  (List.prefix_iff_eq_take.mp h).symm

theorem left (h : PlacedAt xs p (front ++ back)) : PlacedAt xs p front :=
  (List.prefix_append front back).trans h

theorem right (h : PlacedAt xs p (front ++ back)) (hq : q = p + front.length) : PlacedAt xs q back := by
  obtain ⟨post, hpost⟩ := h
  refine ⟨post, ?_⟩
  rw [hq, ← List.drop_drop, ← hpost, List.append_assoc, List.drop_left]

theorem get {f : β → List α} {s : Nat} (hs : ∀ y, (f y).length = s) {ys : List β}
    (h : PlacedAt xs p (ys.flatMap f)) {i : Nat} {y : β}
    (hi : ys[i]? = some y) : PlacedAt xs (p + s * i) (f y) := by
  induction ys generalizing p i with
  | nil => cases hi
  | cons z ys ih =>
      rw [List.flatMap_cons] at h
      cases i with
      | zero =>
          obtain rfl : z = y := Option.some.inj hi
          exact h.left
      | succ i =>
          have hrest := ih (h.right rfl) hi
          rwa [hs, Nat.add_assoc, Nat.add_comm s, ← Nat.mul_succ] at hrest

end PlacedAt

theorem word_placed {bytes : Bytes} {w n : Nat} (h : PlacedAt bytes p (toBytes w n)) :
    word w p bytes = n % 256 ^ w := by
  have htake := h.take
  rw [length_toBytes] at htake
  rw [word, htake, ofBytes_toBytes]

theorem toBytes_add (v w n : Nat) : toBytes (v + w) n = toBytes v n ++ toBytes w (n / 256 ^ v) := by
  induction v generalizing n with
  | zero => simp [toBytes]
  | succ v ih =>
      rw [Nat.succ_add, toBytes, toBytes, ih, List.cons_append, Nat.div_div_eq_div_mul, pow_succ']

theorem mapM_range {f : Nat → Run α} (h : ∀ i x, xs[i]? = some x → f i = .ok x) :
    (List.range xs.length).mapM f = .ok xs := by
  induction xs using List.reverseRecOn with
  | nil => rfl
  | append_singleton xs x ih =>
      have hfront :=
        ih (fun i y hy => h i y (by rw [List.getElem?_append_left (List.getElem?_eq_some_iff.mp hy).1, hy]))
      rw [List.length_append, List.length_singleton, List.range_succ, List.mapM_append, hfront,
        ok_bind, List.mapM_cons, h _ x List.getElem?_concat_length]
      rfl

end Llprof.Places
