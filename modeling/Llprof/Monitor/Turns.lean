import Llprof.Foundations.Avoiding
import Llprof.Monitor.Operations

namespace Llprof.Monitor.Turns

open Faulting hiding store
open Avoiding Nodes MergeSlices Ticks Operations
open LittleEndian (Bytes)

variable {gl : Settings} {ds : DataStore}

def zeroed (m : AllDataStore) : Stores := ⟨m.targets, List.replicate m.targets.length 0, m.global⟩

/-- The receptions of the targets from the `i`th on. -/
def receptions (i : Nat) : List Reception → List Operation
  | [] => []
  | r :: rs => .receive i r :: receptions (i + 1) rs

def Counted (t : TargetStore) : Prop := t.firstReceived = false → t.ds.numRecords = 0

theorem run_cons (op : Operation) (ops : List Operation) (s : Stores) :
    run gl (op :: ops) s = step gl s op >>= fun s' => run gl ops s' := List.foldlM_cons

theorem receptions_past {s : Stores} (rs : List Reception) {i : Nat} (h : s.targets.length ≤ i) :
    run gl (receptions i rs) s = .ok s := by
  induction rs generalizing i with
  | nil => rfl
  | cons r rs ih =>
      rw [receptions, run_cons, step, receiveAt, List.getElem?_eq_none h]
      exact ih (h.trans (Nat.le_succ i))

theorem receptions_eq (rs : List Reception) (done targets : List TargetStore) (unset : List Int)
    (global : GlobalDataStore) : run gl (receptions done.length rs) ⟨done ++ targets, unset, global⟩ =
      receiveAll gl targets rs >>= fun targets' => .ok ⟨done ++ targets', unset, global⟩ := by
  induction rs generalizing done targets with
  | nil => cases targets <;> rfl
  | cons r rs ih =>
      cases targets with
      | nil => exact receptions_past (r :: rs) (by simp)
      | cons t targets =>
          have ht : (done ++ t :: targets)[done.length]? = some t := by simp
          rw [receptions, run_cons, step, receiveAt, ht, receiveAll, bind_assoc, bind_assoc]
          congr 1
          funext t'
          have hset : (done ++ t :: targets).set done.length t' = (done ++ [t']) ++ targets := by simp
          have hnext := ih (done ++ [t']) targets
          rw [List.length_append, List.length_singleton] at hnext
          rw [pure_eq_ok, ok_bind, hset, hnext, bind_assoc]
          simp

theorem receiveLoop_counted {t : TargetStore} (h : Counted t) (r : Reception) :
    Avoids never Counted (receiveLoop gl t r) := by
  cases r with
  | silent => exact h
  | drained metadata names calls =>
      have hex : Counted (exchanged t metadata) := by
        rw [exchanged]
        split
        next => exact h
        next => exact fun hf => by cases hf
      rw [receiveLoop]
      exact (avoids_any _).bind fun threads _ => hex

theorem receiveAll_counted {targets : List TargetStore} (h : ∀ t ∈ targets, Counted t) (rs : List Reception) :
    Avoids never (fun targets' => (∀ t ∈ targets', Counted t) ∧
      targets'.length = targets.length) (receiveAll gl targets rs) := by
  induction targets generalizing rs with
  | nil => exact ⟨h, rfl⟩
  | cons t targets ih =>
      cases rs with
      | nil => exact ⟨h, rfl⟩
      | cons r rs =>
          rw [List.forall_mem_cons] at h
          rw [receiveAll]
          apply (receiveLoop_counted h.1 r).bind
          intro t' ht'
          apply (ih h.2 rs).bind
          rintro targets' ⟨hall, hlen⟩
          exact ⟨List.forall_mem_cons.mpr ⟨ht', hall⟩, by rw [List.length_cons, List.length_cons, hlen]⟩

theorem numProfileValues_zero {t : TargetStore} (h : Counted t) :
    numProfileValues (t, 0) = t.ds.numRecords := by
  rw [numProfileValues]
  split
  next => rfl
  next hf => rw [h (Bool.not_eq_true _ ▸ hf)]; rfl

theorem find_zeroed {targets : List TargetStore} (h : ∀ t ∈ targets, Counted t) :
    (targets.zip (List.replicate targets.length 0)).find? (fun t => decide (numProfileValues t ≠ 0)) =
      (targets.find? fun t => decide (t.ds.numRecords ≠ 0)).map fun t => (t, 0) := by
  induction targets with
  | nil => rfl
  | cons t targets ih =>
      rw [List.forall_mem_cons] at h
      rw [List.length_cons, List.replicate_succ, List.zip_cons_cons, List.find?_cons, List.find?_cons,
        numProfileValues_zero h.1, ih h.2]
      by_cases hn : t.ds.numRecords = 0 <;> simp [hn]

theorem describe_zeroed {targets : List TargetStore} (h : ∀ t ∈ targets, Counted t)
    (global : GlobalDataStore) :
    describe gl ⟨targets, List.replicate targets.length 0, global⟩ = .ok (described gl global targets) := by
  rw [describe, described]
  split
  next =>
    rw [firstDescribed, find_zeroed h]
    cases hfind : targets.find? fun t => decide (t.ds.numRecords ≠ 0) with
    | none => rfl
    | some t =>
        have hnum := numProfileValues_zero (h t (List.mem_of_find?_eq_some hfind))
        dsimp only [Option.map_some]
        rw [hnum]
  next => rfl

theorem integrateStores_zeroed {targets : List TargetStore} (h : ∀ t ∈ targets, Counted t)
    (global : GlobalDataStore) : integrateStores gl ⟨targets, List.replicate targets.length 0, global⟩ =
      integrate gl global targets >>= fun r => .ok ⟨r.2, List.replicate targets.length 0, r.1⟩ := by
  rw [integrateStores, describe_zeroed h, ok_bind, integrate]
  dsimp only
  split
  next => rfl
  next =>
    cases (described gl global targets).thread with
    | none => rfl
    | some g => rfl

theorem tick_eq_run {m : AllDataStore} (h : ∀ t ∈ m.targets, Counted t) (rs : List Reception) :
    run gl (receptions 0 rs ++ [.integrate]) (zeroed m) =
      tick gl m rs >>= fun m' => .ok { zeroed m with targets := m'.targets, global := m'.global } := by
  have hrun : run gl (receptions 0 rs) (zeroed m) =
      receiveAll gl m.targets rs >>= fun targets =>
        .ok { zeroed m with targets } := receptions_eq rs [] m.targets _ _
  have hcounted : ∀ targets', receiveAll gl m.targets rs = .ok targets' →
      (∀ t ∈ targets', Counted t) ∧
        targets'.length = m.targets.length := avoids_never_iff.mp (receiveAll_counted h rs)
  rw [run, List.foldlM_append, ← run, hrun, tick, bind_assoc, bind_assoc]
  cases hall : receiveAll gl m.targets rs with
  | error e => rfl
  | ok targets =>
      obtain ⟨htargets, hlen⟩ := hcounted targets hall
      have hzero : ({ zeroed m with targets } : Stores) =
          ⟨targets, List.replicate targets.length 0, m.global⟩ := by
        rw [hlen]
        rfl
      simp only [ok_bind]
      rw [List.foldlM_cons, step, hzero]
      by_cases hmode : gl.singleTreeMode = true
      · simp only [hmode, if_true]
        rw [integrateStores_zeroed htargets, hlen, bind_assoc, bind_assoc]
        rfl
      · simp only [hmode, hlen]
        rfl

end Llprof.Monitor.Turns
