import Llprof.Foundations.Faulting

namespace Llprof.Avoiding

open Faulting

variable {α β σ : Type} {bad : Fault → Prop}

/-- The run ends in none of the faults `bad`, and its result, if it has one, is in `Q`. -/
def Avoids (bad : Fault → Prop) (Q : α → Prop) : Run α → Prop
  | .ok a => Q a
  | .error e => ¬ bad e

@[simp] theorem avoids_ok {Q : α → Prop} {a : α} : Avoids bad Q (.ok a) ↔ Q a := Iff.rfl

@[simp] theorem avoids_error {Q : α → Prop} {e : Fault} : Avoids bad Q (.error e : Run α) ↔ ¬ bad e := Iff.rfl

instance {Q : α → Prop} [DecidablePred bad] [DecidablePred Q] (x : Run α) : Decidable (Avoids bad Q x) :=
  match x with
  | .ok a => inferInstanceAs (Decidable (Q a))
  | .error e => inferInstanceAs (Decidable (¬ bad e))

theorem Avoids.mono {P Q : α → Prop} {x : Run α} (h : Avoids bad P x) (hPQ : ∀ a, P a → Q a) :
    Avoids bad Q x := by
  cases x with
  | error e => exact h
  | ok a => exact hPQ a h

theorem Avoids.bind {P : α → Prop} {Q : β → Prop} {x : Run α} {f : α → Run β} (h : Avoids bad P x)
    (hf : ∀ a, P a → Avoids bad Q (f a)) : Avoids bad Q (x >>= f) := by
  cases x with
  | error e => exact h
  | ok a => exact hf a h

theorem Avoids.weaken {bad' : Fault → Prop} {Q : α → Prop} {x : Run α} (h : Avoids bad Q x)
    (hb : ∀ e, bad' e → bad e) : Avoids bad' Q x := by
  cases x with
  | error e => exact fun he => h (hb e he)
  | ok a => exact h

theorem Avoids.no_fault {Q : α → Prop} {x : Run α} {e : Fault} (h : Avoids bad Q x) (he : bad e) :
    x ≠ .error e := by
  rintro rfl
  exact h he

theorem avoids_require {p : Prop} [Decidable p] {e : Fault} (he : ¬ bad e) :
    Avoids bad (fun _ => p) (require p e) := by
  by_cases h : p <;> simp [require, h, he]

theorem avoids_fetch_if {xs : List α} {i : Nat} (h : bad .outOfRange → i < xs.length) :
    Avoids bad (fun x => xs[i]? = some x) (fetch xs i) := by
  by_cases hi : i < xs.length
  · rw [fetch, List.getElem?_eq_getElem hi]
    exact rfl
  · rw [fetch, List.getElem?_eq_none (Nat.not_lt.mp hi)]
    exact fun hb => hi (h hb)

theorem avoids_fetch (hr : ¬ bad .outOfRange) (xs : List α) (i : Nat) :
    Avoids bad (fun x => xs[i]? = some x) (fetch xs i) :=
  avoids_fetch_if fun hb => absurd hb hr

theorem avoids_updateAt (hr : ¬ bad .outOfRange) (xs : List α) (i : Nat) (f : α → α) :
    Avoids bad (fun _ => True) (updateAt xs i f) := by
  refine (avoids_fetch hr xs i).bind fun x _ => ?_
  by_cases h : i < xs.length <;> simp [Faulting.store, h, hr]

theorem avoids_fetch_lt {xs : List α} {i : Nat} (h : i < xs.length) :
    Avoids bad (fun x => xs[i]? = some x) (fetch xs i) :=
  avoids_fetch_if fun _ => h

theorem avoids_updateAt_lt {xs : List α} {i : Nat} (h : i < xs.length) (f : α → α) :
    Avoids bad (fun ys => ys.length = xs.length) (updateAt xs i f) := by
  refine (avoids_fetch_lt h).bind fun x _ => ?_
  rw [Faulting.store, if_pos h]
  exact List.length_set

theorem avoids_updateAt_length (hr : ¬ bad .outOfRange) (xs : List α) (i : Nat) (f : α → α) :
    Avoids bad (fun ys => ys.length = xs.length) (updateAt xs i f) := by
  refine (avoids_fetch hr xs i).bind fun x _ => ?_
  by_cases h : i < xs.length <;> simp [Faulting.store, h, hr]

def never : Fault → Prop := fun _ => False

theorem avoids_never_iff {Q : α → Prop} {x : Run α} : Avoids never Q x ↔ ∀ a, x = .ok a → Q a := by
  cases x with
  | error e => simp [never]
  | ok a => simp

theorem avoids_any (x : Run α) : Avoids never (fun a => x = .ok a) x := avoids_never_iff.mpr fun _ h => h

theorem and_never {P Q : α → Prop} {x : Run α} (h : Avoids bad P x) (h' : Avoids never Q x) :
    Avoids bad (fun a => P a ∧ Q a) x := by
  cases x with
  | error e => exact h
  | ok a => exact ⟨h, h'⟩

theorem avoids_foldlM {f : σ → α → Run σ} (P : List α → σ → Prop) (xs : List α)
    (hstep : ∀ done a rest s, xs = done ++ a :: rest → P done s → Avoids bad (P (done ++ [a])) (f s a))
    {s : σ} (hs : P [] s) : Avoids bad (P xs) (xs.foldlM f s) := by
  suffices h : ∀ rest done s, xs = done ++ rest → P done s →
    Avoids bad (P xs) (rest.foldlM f s) from h xs [] s rfl hs
  intro rest
  induction rest with
  | nil =>
      intro done s he hd
      rw [List.append_nil] at he
      rw [List.foldlM_nil, pure_eq_ok, avoids_ok, he]
      exact hd
  | cons a rest ih =>
      intro done s he hd
      rw [List.foldlM_cons]
      refine (hstep done a rest s he hd).bind fun t ht => ?_
      exact ih (done ++ [a]) t (by rw [he, List.append_assoc, List.singleton_append]) ht

theorem avoids_foldlM_reached {f : σ → α → Run σ} (P : List α → σ → Prop) (xs : List α) {s₀ : σ}
    (hstep : ∀ done a rest s, xs = done ++ a :: rest → done.foldlM f s₀ = .ok s → P done s →
      Avoids bad (P (done ++ [a])) (f s a))
    (hs : P [] s₀) : Avoids bad (P xs) (xs.foldlM f s₀) := by
  have hrun : Avoids bad (fun s => P xs s ∧ xs.foldlM f s₀ = .ok s) (xs.foldlM f s₀) :=
    avoids_foldlM (fun done s => P done s ∧ done.foldlM f s₀ = .ok s) xs (by
      rintro done a rest s he ⟨hp, hreach⟩
      have hnext := hstep done a rest s he hreach hp
      cases hfs : f s a with
      | error e =>
          rw [hfs] at hnext
          exact hnext
      | ok s' =>
          rw [hfs] at hnext
          refine ⟨hnext, ?_⟩
          rw [foldlM_append_ok]
          exact ⟨s, hreach, by rw [List.foldlM_cons, hfs]; rfl⟩) ⟨hs, rfl⟩
  exact hrun.mono fun s h => h.1

theorem avoids_forRange_lt {f : σ → Nat → Run σ} {P : σ → Prop} (n : Nat)
    (hstep : ∀ s i, i < n → P s → Avoids bad P (f s i)) {s : σ}
    (hs : P s) : Avoids bad P (forRange n f s) := by
  refine avoids_foldlM (fun _ => P) _ (fun done i rest s he h => hstep s i ?_ h) hs
  have hmem : i ∈ List.range n := by rw [he]; simp
  exact List.mem_range.mp hmem

theorem avoids_forRange {f : σ → Nat → Run σ} {P : σ → Prop} (n : Nat)
    (hstep : ∀ s i, P s → Avoids bad P (f s i)) {s : σ} (hs : P s) : Avoids bad P (forRange n f s) :=
  avoids_foldlM (fun _ => P) _ (fun _ i _ s _ h => hstep s i h) hs

theorem avoids_sweep {ι κ : Type} {f : σ → ι → Run (σ × κ)} {P : σ → Prop}
    (hstep : ∀ s x, P s → Avoids bad (fun r => P r.1) (f s x)) (xs : List ι) {s : σ} (hs : P s) :
    Avoids bad (fun r => P r.1) (sweep f xs s) := by
  induction xs generalizing s with
  | nil => exact hs
  | cons x xs ih =>
      rw [sweep]
      refine (hstep s x hs).bind fun r hr => ?_
      exact (ih hr).bind fun r' hr' => hr'

theorem avoids_sweep_each {ι κ : Type} {f : σ → ι → Run (σ × κ)} {P : σ → Prop}
    {S : ι → Prop} {R : ι → κ → Prop}
    (hstep : ∀ s x, P s → S x → Avoids bad (fun r => P r.1 ∧ R x r.2) (f s x)) {xs : List ι}
    (hxs : ∀ x ∈ xs, S x) {s : σ} (hs : P s) : Avoids bad (fun r => P r.1 ∧ List.Forall₂ R xs r.2)
    (sweep f xs s) := by
  induction xs generalizing s with
  | nil => exact ⟨hs, List.Forall₂.nil⟩
  | cons x xs ih =>
      rw [List.forall_mem_cons] at hxs
      rw [sweep]
      apply (hstep s x hs hxs.1).bind
      intro r hr
      apply (ih hxs.2 hr.1).bind
      intro r' hr'
      exact ⟨hr'.1, List.Forall₂.cons hr.2 hr'.2⟩

end Llprof.Avoiding
