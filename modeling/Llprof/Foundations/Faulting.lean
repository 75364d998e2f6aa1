import Mathlib.Data.List.Basic
import Mathlib.Tactic.Common

namespace Llprof.Faulting

/-- The ways an execution can leave the behaviour its source defines. A
computation that ends in one of them has no state afterwards. -/
inductive Fault
  | assertion
  | nullDeref
  | missingParent
  | outOfRange
  | endDeref
  | indeterminate
  | badAlloc
  | lengthError
  | overflow
  | aborted
  | outOfFuel
  deriving DecidableEq, Repr

abbrev Run (α : Type) := Except Fault α

variable {α β σ : Type}

def require (p : Prop) [Decidable p] (e : Fault) : Run Unit := if p then .ok () else .error e

@[simp] theorem ok_bind (a : α) (f : α → Run β) : (Except.ok a >>= f) = f a := rfl

@[simp] theorem error_bind (e : Fault) (f : α → Run β) : ((Except.error e : Run α) >>= f) = .error e := rfl

@[simp] theorem pure_eq_ok (a : α) : (pure a : Run α) = .ok a := rfl

@[simp] theorem require_of {p : Prop} [Decidable p] (h : p) (e : Fault) : require p e = .ok () := if_pos h

theorem bind_eq_ok {x : Run α} {f : α → Run β} {b : β} :
    (x >>= f) = .ok b ↔ ∃ a, x = .ok a ∧ f a = .ok b := by
  cases x with
  | error e => simp
  | ok a => simp

theorem ok_of_any {x : Run α} {p : α → Bool} (h : x.toOption.any p = true) : ∃ a, x = .ok a ∧ p a = true := by
  cases x with
  | error e => cases h
  | ok a => exact ⟨a, rfl, h⟩

def faultOf : Run α → Option Fault
  | .ok _ => none
  | .error e => some e

theorem error_of_fault {x : Run α} {e : Fault} (h : faultOf x = some e) : x = .error e := by
  cases x with
  | error e' => exact congrArg Except.error (Option.some.inj h)
  | ok a => cases h

theorem require_eq_ok {p : Prop} [Decidable p] {e : Fault} {u : Unit} :
    require p e = .ok u ↔ p := by
  by_cases h : p <;> simp [require, h]

/-- Element access through `operator[]`. -/
def fetch (xs : List α) (i : Nat) : Run α :=
  match xs[i]? with
  | some x => .ok x
  | none => .error .outOfRange

def store (xs : List α) (i : Nat) (x : α) : Run (List α) :=
  if i < xs.length then .ok (xs.set i x) else .error .outOfRange

/-- `xs[i] = f(xs[i])`. -/
def updateAt (xs : List α) (i : Nat) (f : α → α) : Run (List α) := do
  let x ← fetch xs i
  store xs i (f x)

theorem fetch_eq_ok {xs : List α} {i : Nat} {x : α} : fetch xs i = .ok x ↔ xs[i]? = some x := by
  cases h : xs[i]? <;> simp [fetch, h]

theorem store_eq_ok {xs ys : List α} {i : Nat} {x : α} :
    store xs i x = .ok ys ↔ i < xs.length ∧ ys = xs.set i x := by
  by_cases h : i < xs.length <;> simp [store, h, eq_comm]

/-- Total rule for a loop over a list: the assertion is indexed by the part of
the list that has been visited, and every step from it succeeds. -/
theorem foldlM_total {f : σ → α → Run σ} (P : List α → σ → Prop) (xs : List α)
    (hstep : ∀ done a rest s, xs = done ++ a :: rest → P done s →
      ∃ s', f s a = .ok s' ∧ P (done ++ [a]) s')
    {s : σ} (hs : P [] s) : ∃ s', xs.foldlM f s = .ok s' ∧ P xs s' := by
  suffices h : ∀ rest done s, xs = done ++ rest → P done s →
      ∃ s', rest.foldlM f s = .ok s' ∧ P xs s' from h xs [] s rfl hs
  intro rest
  induction rest with
  | nil =>
      intro done s he hd
      rw [List.append_nil] at he
      exact ⟨s, rfl, he ▸ hd⟩
  | cons a rest ih =>
      intro done s he hd
      obtain ⟨t, ht, hp⟩ := hstep done a rest s he hd
      obtain ⟨u, hu, hq⟩ := ih (done ++ [a]) t (by simp [he]) hp
      exact ⟨u, by rw [List.foldlM_cons, ht, ok_bind, hu], hq⟩

theorem foldlM_append_ok {f : σ → α → Run σ} {xs ys : List α} {s u : σ} :
    (xs ++ ys).foldlM f s = .ok u ↔ ∃ t, xs.foldlM f s = .ok t ∧ ys.foldlM f t = .ok u := by
  rw [List.foldlM_append, bind_eq_ok]

theorem forall_split_cons {P : List α → α → List α → Prop} {x : α} {xs : List α} :
    (∀ done a rest, x :: xs = done ++ a :: rest → P done a rest) ↔
      P [] x xs ∧ ∀ done a rest, xs = done ++ a :: rest → P (x :: done) a rest := by
  constructor
  · intro h
    exact ⟨h [] x xs rfl, fun done a rest he => h (x :: done) a rest (by rw [he, List.cons_append])⟩
  · rintro ⟨hx, h⟩ done a rest he
    cases done with
    | nil =>
        rw [List.nil_append, List.cons.injEq] at he
        rw [← he.1, ← he.2]
        exact hx
    | cons y done =>
        rw [List.cons_append, List.cons.injEq] at he
        rw [← he.1]
        exact h done a rest he.2

theorem forall_split_nil {P : List α → α → List α → Prop} :
    ∀ done a rest, [] = done ++ a :: rest → P done a rest := by
  intro done a rest he
  simp at he

/-- A loop that works on a state and on each element it visits. -/
def sweep {ι κ : Type} (f : σ → ι → Run (σ × κ)) : List ι → σ → Run (σ × List κ)
  | [], s => .ok (s, [])
  | x :: xs, s => do
      let (s, y) ← f s x
      let (s, ys) ← sweep f xs s
      return (s, y :: ys)

theorem sweep_total {ι κ : Type} {f : σ → ι → Run (σ × κ)} (P : List ι → σ → Prop)
    (R : ι → κ → Prop) (xs : List ι) (hstep : ∀ done x rest s, xs = done ++ x :: rest → P done s →
      ∃ s' y, f s x = .ok (s', y) ∧ P (done ++ [x]) s' ∧ R x y)
    {s : σ} (hs : P [] s) : ∃ s' ys, sweep f xs s = .ok (s', ys) ∧ P xs s' ∧ List.Forall₂ R xs ys := by
  suffices h : ∀ rest done s, xs = done ++ rest → P done s →
      ∃ s' ys, sweep f rest s = .ok (s', ys) ∧ P xs s' ∧ List.Forall₂ R rest ys from h xs [] s rfl hs
  intro rest
  induction rest with
  | nil =>
      intro done s he hd
      rw [List.append_nil] at he
      exact ⟨s, [], rfl, he ▸ hd, List.Forall₂.nil⟩
  | cons x rest ih =>
      intro done s he hd
      obtain ⟨t, y, ht, hp, hr⟩ := hstep done x rest s he hd
      obtain ⟨u, ys, hu, hq, hrs⟩ := ih (done ++ [x]) t (by simp [he]) hp
      refine ⟨u, y :: ys, ?_, hq, List.Forall₂.cons hr hrs⟩
      rw [sweep, ht, ok_bind]
      dsimp only
      rw [hu, ok_bind, pure_eq_ok]

/-- The counting loop `for(int i = 0; i < n; i++)`. -/
def forRange (n : Nat) (f : σ → Nat → Run σ) (s : σ) : Run σ := (List.range n).foldlM f s

theorem forRange_total {f : σ → Nat → Run σ} (n : Nat) (P : Nat → σ → Prop)
    (hstep : ∀ i s, i < n → P i s → ∃ s', f s i = .ok s' ∧ P (i + 1) s')
    {s : σ} (hs : P 0 s) : ∃ s', forRange n f s = .ok s' ∧ P n s' := by
  obtain ⟨s', h, hp⟩ := foldlM_total (f := f) (fun done s => P done.length s) (List.range n)
    (by
      intro done i rest s he hd
      have hi : i = done.length := by
        have h := congrArg (fun l => l[done.length]?) he
        have hlt : done.length < n := by
          have := congrArg List.length he
          simp at this
          omega
        simpa [hlt, eq_comm] using h
      have hlt : i < n := by
        have hm : i ∈ List.range n := by rw [he]; simp
        exact List.mem_range.mp hm
      obtain ⟨s', hs', hp⟩ := hstep i s hlt (hi ▸ hd)
      exact ⟨s', hs', by simpa [hi] using hp⟩)
    (s := s) hs
  exact ⟨s', h, by simpa using hp⟩

end Llprof.Faulting
