import Llprof.Monitor.NamePaths
import Llprof.Monitor.Runs

namespace Llprof.Monitor.LogPaths

open LabelPaths LittleEndian TreeMaps Nodes TreeShape Receive Runs NamePaths
open Profiler.CallTree (MethodNodeSerializedInfo)

variable {ds ds' : DataStore} {log more : List MethodNodeSerializedInfo} {tree : Tree}
  {k : NodeID} {p : NamePath}

def logLink (ds : DataStore) (log : List MethodNodeSerializedInfo) (k : NodeID) : Link NodeID Bytes :=
  if k = 1 then .root
  else match recordAt log k with
    | none => .absent
    | some r => .below (ds.getNameFromID r.nameid) r.parentNodeId

def logPaths (ds : DataStore) (log : List MethodNodeSerializedInfo) : List NamePath :=
  log.filterMap fun r => pathTo (logLink ds log) (log.length + 1) r.callNodeId

theorem logLink_root (ds : DataStore) (log : List MethodNodeSerializedInfo) : logLink ds log 1 = .root :=
  if_pos rfl

theorem logLink_record {r : MethodNodeSerializedInfo} (h1 : k ≠ 1) (hr : recordAt log k = some r) :
    logLink ds log k = .below (ds.getNameFromID r.nameid) r.parentNodeId := by
  rw [logLink, if_neg h1, hr]

theorem recordAt_mem {r : MethodNodeSerializedInfo} (h : recordAt log k = some r) :
    r ∈ log ∧ r.callNodeId = k :=
  ⟨List.mem_of_find?_eq_some h, by simpa using List.find?_some h⟩

theorem logLink_below {name : Bytes} {parent : NodeID} (h : logLink ds log k = .below name parent) :
    k ≠ 1 ∧ ∃ r, recordAt log k = some r ∧ name = ds.getNameFromID r.nameid ∧ parent = r.parentNodeId := by
  rw [logLink] at h
  split at h
  next => cases h
  next h1 =>
    cases hr : recordAt log k with
    | none =>
        rw [hr] at h
        cases h
    | some r =>
        rw [hr] at h
        cases h
        exact ⟨h1, r, rfl, rfl, rfl⟩

theorem mem_logPaths : p ∈ logPaths ds log ↔ ∃ r ∈ log, Leads (logLink ds log) r.callNodeId p := by
  rw [logPaths, List.mem_filterMap]
  have hpath (k : NodeID) : pathTo (logLink ds log) (log.length + 1) k = some p ↔
      Leads (logLink ds log) k p := by
    refine pathTo_eq_some (1 :: log.map fun r => r.callNodeId) (fun j hj => ?_) (by simp)
    by_cases h1 : j = 1
    · rw [h1]
      exact List.mem_cons_self
    · cases hr : recordAt log j with
      | none => exact absurd (by rw [logLink, if_neg h1, hr]) hj
      | some r =>
          obtain ⟨hmem, hid⟩ := recordAt_mem hr
          exact List.mem_cons_of_mem _ (List.mem_map.mpr ⟨r, hmem, hid⟩)
  simp only [hpath]

theorem leads_cases (h : Leads (logLink ds log) k p) : p = [] ∨ p ∈ logPaths ds log := by
  obtain ⟨-, he⟩ | ⟨name, parent, q, hlink, -, -⟩ := h.cases
  · exact Or.inl he
  · obtain ⟨-, r, hr, -, -⟩ := logLink_below hlink
    obtain ⟨hmem, hid⟩ := recordAt_mem hr
    exact Or.inr (mem_logPaths.mpr ⟨r, hmem, hid.symm ▸ h⟩)

theorem logPaths_tail {name : Bytes} (h : name :: p ∈ logPaths ds log) : p = [] ∨ p ∈ logPaths ds log := by
  obtain ⟨r, -, hlead⟩ := mem_logPaths.mp h
  obtain ⟨-, he⟩ | ⟨label, parent, q, -, he, hq⟩ := hlead.cases
  · cases he
  · cases he
    exact leads_cases hq

theorem leads_more (hnames : ∀ r ∈ log, ds'.getNameFromID r.nameid = ds.getNameFromID r.nameid)
    (h : Leads (logLink ds log) k p) : Leads (logLink ds' (log ++ more)) k p := by
  refine h.congr fun j hj => ?_
  by_cases h1 : j = 1
  · rw [h1, logLink_root, logLink_root]
  · cases hr : recordAt log j with
    | none => exact absurd (by rw [logLink, if_neg h1, hr]) hj
    | some r =>
        rw [logLink_record h1 hr, logLink_record (r := r) h1 (by rw [recordAt_or, hr]; rfl),
          hnames r (recordAt_mem hr).1]

theorem logPaths_more (hnames : ∀ r ∈ log, ds'.getNameFromID r.nameid = ds.getNameFromID r.nameid)
    (h : p ∈ logPaths ds log) : p ∈ logPaths ds' (log ++ more) := by
  obtain ⟨r, hr, hlead⟩ := mem_logPaths.mp h
  exact mem_logPaths.mpr ⟨r, List.mem_append_left _ hr, leads_more hnames hlead⟩

theorem nameLink_eq {rank : NodeID → Nat} (h : Linked tree log) (hr : Rooted tree rank) :
    nameLink ds tree = logLink ds log := by
  funext k
  have hk := h k
  rw [linkOf] at hk
  by_cases h1 : k = 1
  · rw [if_pos h1] at hk
    obtain ⟨n, hn, he⟩ := Option.map_eq_some_iff.mp hk
    rw [nameLink, hn, h1, logLink_root]
    exact if_pos (Prod.mk.inj he).1
  · rw [if_neg h1] at hk
    cases hrec : recordAt log k with
    | none =>
        rw [hrec] at hk
        rw [nameLink, Option.map_eq_none_iff.mp hk, logLink, if_neg h1, hrec]
    | some r =>
        rw [hrec] at hk
        obtain ⟨n, hn, he⟩ := Option.map_eq_some_iff.mp hk
        obtain ⟨hp, hx⟩ := Prod.mk.inj he
        have h0 : n.parentId ≠ 0 := fun h0 => h1 (hr.root_unique (parentOf_eq_some.mpr ⟨n, hn, h0⟩))
        rw [nameLink, hn, logLink_record h1 hrec, ← hp, ← hx]
        exact if_neg h0

end Llprof.Monitor.LogPaths
