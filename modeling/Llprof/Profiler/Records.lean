import Llprof.Foundations.Faulting
import Llprof.Foundations.LittleEndian
import Llprof.Foundations.MachineIntegers

namespace Llprof.Profiler.Records

open Faulting LittleEndian MachineIntegers

/-- `pvtype_t`. Of the counter function only its presence is kept: its values
are read from the environment. -/
structure PvType where
  recordTypeId : Bytes
  recordTypeName : Bytes
  counterFunc : Bool
  recordIndex : Int
  deriving DecidableEq, Repr

/-- The vectors `g_records` and `g_active_records`, and what the allocator leaves
in the places of each new thread's `NowInfo`, which no constructor sets. -/
structure RecordTable where
  records : List PvType
  activeRecords : List Nat
  unset : Nat → Nat → LongLong := fun _ _ => 0

/-- What the counter functions return while one handler runs, by record. -/
abbrev Reading := Nat → LongLong

def RecordTable.active (g : RecordTable) (i : Nat) : Run PvType := do
  let a ← fetch g.activeRecords i
  fetch g.records a

/-- The two increments of the body and the one of the loop head are kept apart
as in the source. -/
def rtypeStartNodeLoop (g : RecordTable) (reading : Reading) : Nat → Nat → List LongLong → Run (List LongLong)
  | 0, _, _ => .error .outOfFuel
  | fuel + 1, i, value =>
      if i < g.activeRecords.length then do
        let r ← g.active i
        if r.counterFunc then
          let i := i + 1
          let a ← fetch g.activeRecords i
          let r ← fetch g.records a
          require (r.counterFunc = true) .nullDeref
          let value ← store value i (reading a)
          rtypeStartNodeLoop g reading fuel (i + 1 + 1) value
        else
          rtypeStartNodeLoop g reading fuel (i + 1 + 1) value
      else
        .ok value

def rtypeStartNode (g : RecordTable) (reading : Reading) (value : List LongLong) : Run (List LongLong) :=
  rtypeStartNodeLoop g reading (g.activeRecords.length + 1) 0 value

def rtypeEndNodeLoop (g : RecordTable) (reading : Reading) (startValue : List LongLong) :
    Nat → Nat → List LongLong → Run (List LongLong)
  | 0, _, _ => .error .outOfFuel
  | fuel + 1, i, value =>
      if i < g.activeRecords.length then do
        let r ← g.active i
        if r.counterFunc then
          let a ← fetch g.activeRecords i
          let v ← fetch value 0
          let start ← fetch startValue (i + 1)
          let value ← store value 0 (v + (reading a - start))
          rtypeEndNodeLoop g reading startValue fuel (i + 1 + 1 + 1) value
        else
          rtypeEndNodeLoop g reading startValue fuel (i + 1 + 1) value
      else
        .ok value

def rtypeEndNode (g : RecordTable) (reading : Reading) (startValue value : List LongLong) :
    Run (List LongLong) :=
  rtypeEndNodeLoop g reading startValue (g.activeRecords.length + 1) 0 value

/-- The flag that `llprof_get_record_info` prints for a slot. -/
def recordFlag (g : RecordTable) (i : Nat) : Run Bytes := do
  if 0 < i then
    let prev ← fetch g.activeRecords (i - 1)
    let cur ← fetch g.activeRecords i
    if prev = cur then
      return ascii "S"
  let r ← g.active i
  return if r.counterFunc then ascii "A" else []

/-- The usual configuration: one counter in its two slots and nothing else. -/
structure SingleCounter (g : RecordTable) (t : Nat) : Prop where
  active : g.activeRecords = [t, t]
  counter : ∃ r, g.records[t]? = some r ∧ r.counterFunc = true

def oneCounter : RecordTable := { records := [⟨[], [], true, 0⟩], activeRecords := [0, 0] }

variable {g : RecordTable} {t : Nat}

theorem SingleCounter.active_eq (h : SingleCounter g t) {i : Nat} (hi : i < 2) :
    ∃ r, g.active i = .ok r ∧ r.counterFunc = true ∧ fetch g.activeRecords i = .ok t ∧
      fetch g.records t = .ok r := by
  obtain ⟨r, hr, hc⟩ := h.counter
  have ha : fetch g.activeRecords i = .ok t := by
    rw [fetch_eq_ok, h.active]
    obtain rfl | rfl : i = 0 ∨ i = 1 := by omega
    · rfl
    · rfl
  have hf : fetch g.records t = .ok r := fetch_eq_ok.mpr hr
  exact ⟨r, by rw [RecordTable.active, ha, ok_bind, hf], hc, ha, hf⟩

theorem SingleCounter.startNode (h : SingleCounter g t) (reading : Reading) (v₀ v₁ : LongLong) :
    rtypeStartNode g reading [v₀, v₁] = .ok [v₀, reading t] := by
  obtain ⟨r, ha, hc, -, -⟩ := h.active_eq (i := 0) (by omega)
  obtain ⟨r', -, hc', ha', hf'⟩ := h.active_eq (i := 1) (by omega)
  have hlen : g.activeRecords.length = 2 := by rw [h.active]; rfl
  simp [rtypeStartNode, rtypeStartNodeLoop, hlen, ha, hc, ha', hf', hc', store]

theorem SingleCounter.endNode (h : SingleCounter g t) (reading : Reading) (s₀ s₁ v₀ v₁ : LongLong) :
    rtypeEndNode g reading [s₀, s₁] [v₀, v₁] = .ok [v₀ + (reading t - s₁), v₁] := by
  obtain ⟨r, ha, hc, hf, -⟩ := h.active_eq (i := 0) (by omega)
  have hlen : g.activeRecords.length = 2 := by rw [h.active]; rfl
  have hf₀ : fetch [v₀, v₁] 0 = .ok v₀ := rfl
  have hf₁ : fetch [s₀, s₁] 1 = .ok s₁ := rfl
  simp [rtypeEndNode, rtypeEndNodeLoop, hlen, ha, hc, hf, hf₀, hf₁, store]

theorem length_rtypeStartNodeLoop {reading : Reading} {fuel i : Nat} {value value' : List LongLong}
    (h : rtypeStartNodeLoop g reading fuel i value = .ok value') : value'.length = value.length := by
  induction fuel generalizing i value with
  | zero => cases h
  | succ fuel ih =>
      rw [rtypeStartNodeLoop] at h
      split at h
      · simp only [bind_eq_ok] at h
        obtain ⟨r, -, h⟩ := h
        split at h
        · simp only [bind_eq_ok, store_eq_ok] at h
          obtain ⟨a, -, r', -, -, -, v, ⟨-, rfl⟩, h⟩ := h
          rw [ih h, List.length_set]
        · exact ih h
      · cases h
        rfl

theorem length_rtypeStartNode {reading : Reading} {value value' : List LongLong}
    (h : rtypeStartNode g reading value = .ok value') : value'.length = value.length :=
  length_rtypeStartNodeLoop h

theorem SingleCounter.flags (h : SingleCounter g t) :
    recordFlag g 0 = .ok (ascii "A") ∧ recordFlag g 1 = .ok (ascii "S") := by
  obtain ⟨r, ha, hc, hf, -⟩ := h.active_eq (i := 0) (by omega)
  obtain ⟨-, -, -, hf', -⟩ := h.active_eq (i := 1) (by omega)
  exact ⟨by simp [recordFlag, ha, hc], by simp [recordFlag, hf, hf']⟩

end Llprof.Profiler.Records
