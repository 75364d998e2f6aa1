import Llprof.Foundations.Faulting
import Mathlib.Data.List.Induction

namespace Llprof.Stepwise

open Faulting

variable {σ α : Type} {step : σ → α → Run σ} {P Q : List α → σ → α → Prop} {s s' : σ} {xs : List α}

/-- What holds of every step that a run gets to, of the steps before it and of the state
that it finds. -/
def Throughout (step : σ → α → Run σ) (P : List α → σ → α → Prop) (s : σ) (xs : List α) : Prop :=
  ∀ done a rest s', xs = done ++ a :: rest → done.foldlM step s = .ok s' → P done s' a

theorem throughout_cons {P : List α → σ → α → Prop} {s : σ} {a : α} {xs : List α} :
    Throughout step P s (a :: xs) ↔
      P [] s a ∧ ∀ s', step s a = .ok s' → Throughout step (fun done => P (a :: done)) s' xs := by
  simp only [Throughout]
  constructor
  · intro h
    refine ⟨h [] a xs s rfl rfl, fun s' hs' done b rest t hxs ht =>
      h (a :: done) b rest t (by rw [hxs]; rfl) ?_⟩
    rw [List.foldlM_cons, hs', ok_bind, ht]
  · rintro ⟨hfirst, hrest⟩ done b rest t hxs ht
    cases done with
    | nil =>
        cases hxs
        cases ht
        exact hfirst
    | cons c done =>
        obtain ⟨rfl, rfl⟩ := List.cons.inj hxs
        obtain ⟨s', hs', ht⟩ := bind_eq_ok.mp ht
        exact hrest s' hs' done b rest t rfl ht

instance decidableThroughout (P : List α → σ → α → Prop) [∀ done s a, Decidable (P done s a)] (s : σ) :
    (xs : List α) → Decidable (Throughout step P s xs)
  | [] => .isTrue (fun done a rest _ h => by simp at h)
  | a :: xs =>
      match h : step s a with
      | .error _ => decidable_of_iff (P [] s a) (throughout_cons.trans (and_iff_left (by simp [h]))).symm
      | .ok s' =>
          have := decidableThroughout (fun done => P (a :: done)) s' xs
          decidable_of_iff (P [] s a ∧ Throughout step (fun done => P (a :: done)) s' xs)
            (throughout_cons.trans (and_congr_right fun _ => by simp [h])).symm

theorem foldlM_snoc {done : List α} {a : α} :
    (done ++ [a]).foldlM step s = .ok s' ↔ ∃ t, done.foldlM step s = .ok t ∧ step t a = .ok s' := by
  simp only [foldlM_append_ok, List.foldlM_cons, List.foldlM_nil, pure_eq_ok, bind_eq_ok,
    Except.ok.injEq, exists_eq_right]

section Rule

variable {I : List α → σ → Prop}

theorem invariant_of_throughout (hinit : I [] s)
    (hstep : ∀ done t a t', a ∈ xs → I done t → Q done t a → step t a = .ok t' → I (done ++ [a]) t')
    (hQ : Throughout step Q s xs) {done rest : List α} (hxs : xs = done ++ rest)
    (hrun : done.foldlM step s = .ok s') :
    I done s' := by
  induction done using List.reverseRecOn generalizing rest s' with
  | nil =>
      cases hrun
      exact hinit
  | append_singleton done a ih =>
      obtain ⟨t, ht, hat⟩ := foldlM_snoc.mp hrun
      rw [List.append_assoc, List.singleton_append] at hxs
      refine hstep done t a s' ?_ (ih hxs ht) (hQ done a rest t hxs ht) hat
      rw [hxs]
      exact List.mem_append_right _ List.mem_cons_self

theorem invariant_of_run (hinit : I [] s)
    (hstep : ∀ done t a t', a ∈ xs → I done t → Q done t a → step t a = .ok t' → I (done ++ [a]) t')
    (hQ : Throughout step Q s xs) (hrun : xs.foldlM step s = .ok s') : I xs s' :=
  invariant_of_throughout hinit hstep hQ (List.append_nil xs).symm hrun

/-- Two properties of a run agree if they agree wherever the invariant holds, and the
steps with the second keep the invariant. -/
theorem throughout_iff (hinit : I [] s)
    (hstep : ∀ done t a t', a ∈ xs → I done t → Q done t a → step t a = .ok t' → I (done ++ [a]) t')
    (hiff : ∀ done t a, a ∈ xs → I done t → (P done t a ↔ Q done t a)) : Throughout step P s xs ↔
    Throughout step Q s xs := by
  have hmem {done rest : List α} {a : α} (hxs : xs = done ++ a :: rest) : a ∈ xs := by
    rw [hxs]
    exact List.mem_append_right _ List.mem_cons_self
  constructor
  · intro hP done a rest t hxs hrun
    -- `Q` is shown for the steps before this one together with the invariant
    have hI : I done t := by
      refine invariant_of_throughout (Q := P) hinit (fun done t a t' ha hI hP hat => ?_) hP hxs hrun
      exact hstep done t a t' ha hI ((hiff done t a ha hI).mp hP) hat
    exact (hiff done t a (hmem hxs) hI).mp (hP done a rest t hxs hrun)
  · intro hQ done a rest t hxs hrun
    exact (hiff done t a (hmem hxs) (invariant_of_throughout hinit hstep hQ hxs hrun)).mpr
      (hQ done a rest t hxs hrun)

theorem throughout_iff_of_ok {R : List α → α → Prop} (hrun : xs.foldlM step s = .ok s') (hinit : I [] s)
    (hstep : ∀ done t a t', I done t → R done a → step t a = .ok t' → I (done ++ [a]) t')
    (hiff : ∀ done t a t', I done t → step t a = .ok t' → (P done t a ↔ R done a)) :
    Throughout step P s xs ↔ ∀ done a rest, xs = done ++ a :: rest → R done a := by
  have hsteps (done : List α) (a : α) (rest : List α) (hxs : xs = done ++ a :: rest) :
      ∃ t t', done.foldlM step s = .ok t ∧ step t a = .ok t' := by
    rw [hxs, foldlM_append_ok] at hrun
    obtain ⟨t, ht, hrest⟩ := hrun
    rw [List.foldlM_cons, bind_eq_ok] at hrest
    obtain ⟨t', hat, -⟩ := hrest
    exact ⟨t, t', ht, hat⟩
  have hrule : Throughout step (fun done t a => (∃ t', step t a = .ok t') → P done t a) s xs ↔
      Throughout step (fun done t a => (∃ t', step t a = .ok t') → R done a) s xs :=
    throughout_iff hinit (fun done t a t' _ hI hR hat => hstep done t a t' hI (hR ⟨t', hat⟩) hat)
      (fun done t a _ hI => forall_congr' fun ⟨t', hat⟩ => hiff done t a t' hI hat)
  constructor
  · intro hP done a rest hxs
    obtain ⟨t, t', ht, hat⟩ := hsteps done a rest hxs
    exact hrule.mp (fun done a rest t hxs ht _ => hP done a rest t hxs ht) done a rest t hxs ht ⟨t', hat⟩
  · intro hR done a rest t hxs ht
    obtain ⟨_, t', ht₂, hat⟩ := hsteps done a rest hxs
    cases ht.symm.trans ht₂
    exact hrule.mpr (fun done a rest _ hxs _ _ => hR done a rest hxs) done a rest t hxs ht ⟨t', hat⟩

end Rule

end Llprof.Stepwise
