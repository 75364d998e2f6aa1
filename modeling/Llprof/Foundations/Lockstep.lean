import Llprof.Foundations.Avoiding
import Mathlib.Data.List.Forall2

namespace Llprof.Lockstep

open Faulting Avoiding

variable {α β γ δ σ τ ι : Type}

def Related (R : α → β → Prop) : Run α → Run β → Prop
  | .ok a, .ok b => R a b
  | .error e, .error e' => e = e'
  | _, _ => False

@[simp] theorem related_ok {R : α → β → Prop} {a : α} {b : β} : Related R (.ok a) (.ok b) ↔ R a b := Iff.rfl

theorem Related.mono {R S : α → β → Prop} {x : Run α} {y : Run β} (h : Related R x y)
    (hRS : ∀ a b, R a b → S a b) : Related S x y := by
  cases x with
  | error e =>
      cases y with
      | error e' => exact h
      | ok b => exact h
  | ok a =>
      cases y with
      | error e => exact h
      | ok b => exact hRS a b h

theorem Related.and_left {R : α → β → Prop} {Q : α → Prop} {x : Run α} {y : Run β} (h : Related R x y)
    (hx : Avoids never Q x) : Related (fun a b => R a b ∧ Q a) x y := by
  cases x with
  | error e =>
      cases y with
      | error e' => exact h
      | ok b => cases h
  | ok a =>
      cases y with
      | error e => cases h
      | ok b => exact ⟨h, hx⟩

theorem Related.bind_ok {R : α → β → Prop} {S : γ → δ → Prop} {x : Run α} {y : Run β} (h : Related R x y)
    {f : α → Run γ} {g : β → Run δ} (hfg : ∀ a b, x = .ok a → y = .ok b → R a b → Related S (f a) (g b)) :
    Related S (x >>= f) (y >>= g) := by
  cases x with
  | error e =>
      cases y with
      | error e' => exact h
      | ok b => cases h
  | ok a =>
      cases y with
      | error e => cases h
      | ok b => exact hfg a b rfl rfl h

theorem Related.bind {R : α → β → Prop} {S : γ → δ → Prop} {x : Run α} {y : Run β} (h : Related R x y)
    {f : α → Run γ} {g : β → Run δ} (hfg : ∀ a b, R a b → Related S (f a) (g b)) : Related S (x >>= f)
    (y >>= g) :=
  h.bind_ok fun a b _ _ => hfg a b

theorem related_same_bind {S : γ → δ → Prop} (x : Run α) {f : α → Run γ} {g : α → Run δ}
    (h : ∀ a, x = .ok a → Related S (f a) (g a)) : Related S (x >>= f) (x >>= g) := by
  cases x with
  | error e => rfl
  | ok a => exact h a rfl

theorem related_foldlM {R : σ → τ → Prop} {f : σ → ι → Run σ} {g : τ → ι → Run τ}
    (hstep : ∀ s t i, R s t → Related R (f s i) (g t i)) (xs : List ι) {s : σ} {t : τ} (h : R s t) :
    Related R (xs.foldlM f s) (xs.foldlM g t) := by
  induction xs generalizing s t with
  | nil => exact h
  | cons i xs ih =>
      rw [List.foldlM_cons, List.foldlM_cons]
      exact (hstep s t i h).bind fun _ _ h' => ih h'

theorem related_sweep {κ κ' ι' : Type} {R : σ → τ → Prop} {S : ι → ι' → Prop} {S' : κ → κ' → Prop}
    {f : σ → ι → Run (σ × κ)} {g : τ → ι' → Run (τ × κ')}
    (hstep : ∀ s t x y, R s t → S x y → Related (fun p q => R p.1 q.1 ∧ S' p.2 q.2) (f s x) (g t y))
    {xs : List ι} {ys : List ι'} (h : List.Forall₂ S xs ys) {s : σ} {t : τ} (hst : R s t) :
    Related (fun p q => R p.1 q.1 ∧ List.Forall₂ S' p.2 q.2) (sweep f xs s) (sweep g ys t) := by
  induction h generalizing s t with
  | nil => exact ⟨hst, List.Forall₂.nil⟩
  | cons hxy _ ih =>
      apply (hstep s t _ _ hst hxy).bind
      rintro ⟨s', x'⟩ ⟨t', y'⟩ ⟨hs, hx⟩
      apply (ih hs).bind
      rintro ⟨s'', xs'⟩ ⟨t'', ys'⟩ ⟨hs', hxs⟩
      exact ⟨hs', List.Forall₂.cons hx hxs⟩

theorem Related.ok {R : α → β → Prop} {x : Run α} {y : Run β} (h : Related R x y) {a : α} (hx : x = .ok a) :
    ∃ b, y = .ok b ∧ R a b := by
  subst hx
  cases y with
  | error e => cases h
  | ok b => exact ⟨b, rfl, h⟩

theorem related_map_eq {f : α → γ} {g : β → γ} {x : Run α} {y : Run β}
    (h : Related (fun a b => f a = g b) x y) : x.map f = y.map g := by
  cases x with
  | error e =>
      cases y with
      | error e' => exact congrArg Except.error h
      | ok b => cases h
  | ok a =>
      cases y with
      | error e => cases h
      | ok b => exact congrArg Except.ok h

theorem forall₂_getElem? {R : α → β → Prop} {xs : List α} {ys : List β} (h : List.Forall₂ R xs ys) (i : Nat) :
    (xs[i]? = none ∧ ys[i]? = none) ∨ ∃ x y, xs[i]? = some x ∧ ys[i]? = some y ∧ R x y := by
  induction h generalizing i with
  | nil => exact Or.inl ⟨rfl, rfl⟩
  | cons hxy _ ih =>
      cases i with
      | zero => exact Or.inr ⟨_, _, rfl, rfl, hxy⟩
      | succ i => exact ih i

theorem forall₂_set {R : α → β → Prop} {xs : List α} {ys : List β} (h : List.Forall₂ R xs ys)
    (i : Nat) {x : α} {y : β} (hxy : R x y) : List.Forall₂ R (xs.set i x) (ys.set i y) := by
  induction h generalizing i with
  | nil => exact List.Forall₂.nil
  | cons hab hrest ih =>
      cases i with
      | zero => exact List.Forall₂.cons hxy hrest
      | succ i => exact List.Forall₂.cons hab (ih i)

theorem forall₂_set_right {R : α → β → Prop} {xs : List α} {ys : List β} (h : List.Forall₂ R xs ys)
    {i : Nat} {x : α} {y : β} (hx : xs[i]? = some x) (hxy : R x y) : List.Forall₂ R xs (ys.set i y) := by
  have hset := forall₂_set h i hxy
  obtain ⟨hlt, rfl⟩ := List.getElem?_eq_some_iff.mp hx
  rwa [List.set_getElem_self hlt] at hset

theorem mem_right_of_forall₂ {R : α → β → Prop} {xs : List α} {ys : List β}
    (h : List.Forall₂ R xs ys) {y : β} (hy : y ∈ ys) : ∃ x ∈ xs, R x y := by
  obtain ⟨i, hi⟩ := List.getElem?_of_mem hy
  rcases forall₂_getElem? h i with ⟨-, hnone⟩ | ⟨x, y', hx, hy', hxy⟩
  · rw [hnone] at hi
    cases hi
  · rw [hy'] at hi
    cases hi
    exact ⟨x, List.mem_of_getElem? hx, hxy⟩

theorem mem_left_of_forall₂ {R : α → β → Prop} {xs : List α} {ys : List β} (h : List.Forall₂ R xs ys) {x : α}
    (hx : x ∈ xs) : ∃ y ∈ ys, R x y := mem_right_of_forall₂ (R := fun y x => R x y) h.flip hx

theorem forall₂_trans {R : α → β → Prop} {S : β → γ → Prop} {T : α → γ → Prop} {xs : List α} {ys : List β}
    {zs : List γ} (h : List.Forall₂ R xs ys) (h' : List.Forall₂ S ys zs)
    (hT : ∀ x y z, R x y → S y z → T x z) :
    List.Forall₂ T xs zs := by
  induction h generalizing zs with
  | nil => rw [List.forall₂_nil_left_iff.mp h']; exact List.Forall₂.nil
  | cons hxy _ ih =>
      cases h' with
      | cons hyz hrest => exact List.Forall₂.cons (hT _ _ _ hxy hyz) (ih hrest)

theorem forall₂_replicate {R : α → β → Prop} {x : α} {y : β} (h : R x y) (n : Nat) :
    List.Forall₂ R (List.replicate n x) (List.replicate n y) := by
  induction n with
  | zero => exact List.Forall₂.nil
  | succ n ih => exact List.Forall₂.cons h ih

end Llprof.Lockstep
