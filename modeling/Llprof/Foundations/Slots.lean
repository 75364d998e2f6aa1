import Llprof.Foundations.Faulting
import Mathlib.Logic.Function.Basic

namespace Llprof.Slots

open Faulting

variable {α : Type}

def slots (n : Nat) (f : Nat → α) : List α := (List.range n).map f

@[simp] theorem length_slots (n : Nat) (f : Nat → α) : (slots n f).length = n := by simp [slots]

theorem slots_get {n i : Nat} (f : Nat → α) (h : i < n) : (slots n f)[i]? = some (f i) := by
  simp [slots, h]

@[simp] theorem fetch_slots {n i : Nat} (f : Nat → α) (h : i < n) : fetch (slots n f) i = .ok (f i) :=
  fetch_eq_ok.mpr (slots_get f h)

theorem slots_congr {n : Nat} {f g : Nat → α} (h : ∀ i, i < n → f i = g i) : slots n f = slots n g :=
  List.map_congr_left fun i hi => h i (List.mem_range.mp hi)

theorem eq_slots (d : α) {n : Nat} {xs : List α} (h : xs.length = n) :
    xs = slots n (fun i => xs.getD i d) := by
  apply List.ext_getElem
  · rw [h, length_slots]
  · intro i hi _
    simp [slots, hi]

theorem getD_slots (d : α) {n i : Nat} (f : Nat → α) (h : i < n) : (slots n f).getD i d = f i := by
  simp [List.getD_eq_getElem?_getD, slots_get f h]

theorem isEmpty_slots {n : Nat} (f : Nat → α) : (slots n f).isEmpty = decide (n = 0) := by
  cases n <;> simp [slots]

theorem replicate_eq_slots (n : Nat) (d : α) : List.replicate n d = slots n (fun _ => d) := by
  simp [slots]

/-- A loop over the slots has replaced the contents of the first `i`. -/
def upTo (i : Nat) (new old : Nat → α) (j : Nat) : α := if j < i then new j else old j

theorem upTo_zero (new old : Nat → α) : upTo 0 new old = old := by
  funext j
  simp [upTo]

theorem upTo_self (new old : Nat → α) (i : Nat) : upTo i new old i = old i := by simp [upTo]

theorem slots_upTo (n : Nat) (new old : Nat → α) : slots n (upTo n new old) = slots n new :=
  slots_congr fun _ hi => if_pos hi

theorem updateAt_upTo {n i : Nat} (h : i < n) {new old : Nat → α} {f : α → α} (hf : f (old i) = new i) :
    updateAt (slots n (upTo i new old)) i f = .ok (slots n (upTo (i + 1) new old)) := by
  rw [updateAt, fetch_slots _ h, ok_bind, store_eq_ok, upTo_self, hf]
  refine ⟨by rwa [length_slots], ?_⟩
  apply List.ext_getElem
  · simp
  · intro j hj hj'
    have hjn : j < n := by simpa using hj
    rw [List.getElem_set]
    by_cases hij : i = j
    · subst hij
      simp [slots, upTo]
    · have h1 : (j < i + 1) ↔ (j < i) := by omega
      simp [slots, upTo, hij, h1]

theorem slots_upTo_succ (n : Nat) {i : Nat} (new old : Nat → α) (h : new i = old i) :
    slots n (upTo i new old) = slots n (upTo (i + 1) new old) := by
  refine slots_congr fun j _ => ?_
  by_cases hij : j = i
  · subst hij
    simp [upTo, h]
  · have h1 : (j < i + 1) ↔ (j < i) := by omega
    simp only [upTo, h1]

end Llprof.Slots
