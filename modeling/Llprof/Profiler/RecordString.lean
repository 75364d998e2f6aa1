import Llprof.Foundations.Text
import Llprof.Profiler.Layout
import Llprof.Profiler.CallTree

namespace Llprof.Profiler.RecordString

open Faulting LittleEndian MachineIntegers Text Records CallTree Layout

def addCounterPv (g : RecordTable) (recordId recordName : Bytes) : RecordTable × Nat :=
  ({ g with records := g.records ++
      [{ recordTypeId := recordId, recordTypeName := recordName, counterFunc := true, recordIndex := -1 }] },
    g.records.length)

def addEventPv (g : RecordTable) (recordId recordName : Bytes) : RecordTable × Nat :=
  ({ g with records := g.records ++
      [{ recordTypeId := recordId, recordTypeName := recordName, counterFunc := false, recordIndex := -1 }] },
    g.records.length)

/-- `llprof_get_pvt_index_from_name`; `none` stands for -1. -/
def getPvtIndexFromName (g : RecordTable) (pvtId : Bytes) : Option Nat :=
  g.records.findIdx? (fun r => r.recordTypeId == pvtId)

def isPvtEnabled (g : RecordTable) (pvt : Nat) : Run Bool := do
  let r ← fetch g.records pvt
  return r.recordIndex != -1

/-- The second component is what the function returns. -/
def addActiveRecord (g : RecordTable) (pvtId : Bytes) : Run (RecordTable × Int) :=
  match getPvtIndexFromName g pvtId with
  | none => .ok (g, -1)
  | some i => do
      let r ← fetch g.records i
      if r.recordIndex ≠ -1 then
        return (g, -1)
      else if r.counterFunc then
        let g := { g with activeRecords := g.activeRecords ++ [i, i] }
        return (g, g.activeRecords.length - 2)
      else
        let g := { g with activeRecords := g.activeRecords ++ [i] }
        return (g, g.activeRecords.length - 1)

def setRecordStringLoop (rstr : Bytes) : Nat → Nat → RecordTable → Run RecordTable
  | 0, _, _ => .error .outOfFuel
  | fuel + 1, i, g =>
      if i ≤ rstr.length then do
        let n := (findFirstOf 32 rstr i).getD rstr.length
        let (g, _) ← addActiveRecord g (substr rstr i (n - i))
        setRecordStringLoop rstr fuel (n + 1) g
      else
        .ok g

/-- `llprof_set_record_string`; the environment variable may be missing. -/
def setRecordString (recordString : Option Bytes) (g : RecordTable) : Run RecordTable :=
  match recordString with
  | none => .ok g
  | some rstr => setRecordStringLoop rstr (rstr.length + 2) 0 g

def iclProfileValue (g : RecordTable) (recordTypeIndex : Nat) (value : LongLong) (ti : ThreadInfo) :
    Run ThreadInfo := do
  let pvr ← fetch g.records recordTypeIndex
  if pvr.recordIndex ≠ -1 then
    require (0 ≤ pvr.recordIndex) .outOfRange
    let (ti, idx) ← getCurrentNodeInfoPair g ti
    let sinfo ← fetch ti.serializedNodeInfoArray idx
    let values ← updateAt sinfo.profileValue pvr.recordIndex.toNat (· + value)
    let records ← store ti.serializedNodeInfoArray idx { sinfo with profileValue := values }
    return { ti with serializedNodeInfoArray := records }
  else
    return ti

/-- A call of `llprof_add_counter_pv` or `llprof_add_event_pv`. -/
structure Registration where
  recordId : Bytes
  recordName : Bytes
  counter : Bool
  deriving DecidableEq, Repr

def Registration.run (r : Registration) (g : RecordTable) : RecordTable :=
  if r.counter then (addCounterPv g r.recordId r.recordName).1 else (addEventPv g r.recordId r.recordName).1

def register (regs : List Registration) : RecordTable :=
  regs.foldl (fun g r => r.run g) { records := [], activeRecords := [] }

/-- What stands between the spaces; a run of spaces has empty pieces. -/
def pieces (recordString : Option Bytes) : List Bytes := recordString.elim [] (List.splitOn 32)

def tokens (recordString : Option Bytes) : List Bytes :=
  (pieces recordString).filter (fun piece => piece ≠ [])

def entryNamed (regs : List Registration) (name : Bytes) : Option Entry := do
  let i ← regs.findIdx? (fun r => r.recordId == name)
  let r ← regs[i]?
  return if r.counter then .counter i else .event i

def enabledEntries (regs : List Registration) (recordString : Option Bytes) : List Entry :=
  (tokens recordString).eraseDups.filterMap (entryNamed regs)

/-- The table enables the records that the string names and no others, and the
slot of an enabled event is the one its values are added to. -/
structure EnablesNamed (regs : List Registration) (recordString : Option Bytes) (g : RecordTable) : Prop where
  enabled : ∀ i r, regs[i]? = some r → isPvtEnabled g i = .ok (decide (r.recordId ∈ tokens recordString))
  slots : g.activeRecords = (enabledEntries regs recordString).flatMap Entry.slots
  index : ∀ i r, regs[i]? = some r → r.recordId ∈ tokens recordString →
    ∃ p, g.records[i]? = some p ∧ p.recordIndex = (g.activeRecords.idxOf i : Int)
  adds : ∀ i r, regs[i]? = some r → r.recordId ∈ tokens recordString → r.counter = false →
    ∀ ti value ti' idx sinfo, getCurrentNodeInfoPair g ti = .ok (ti', idx) →
      ti'.serializedNodeInfoArray[idx]? = some sinfo →
      sinfo.profileValue.length = g.activeRecords.length →
      iclProfileValue g i value ti = .ok
        { ti' with
          serializedNodeInfoArray := ti'.serializedNodeInfoArray.set idx
            { sinfo with profileValue := sinfo.profileValue.modify (g.activeRecords.idxOf i) (· + value) } }
  ignores : ∀ i r, regs[i]? = some r → r.recordId ∉ tokens recordString →
    ∀ ti value, iclProfileValue g i value ti = .ok ti

variable {regs : List Registration} {g g' : RecordTable}

def Registration.pvType (r : Registration) : PvType :=
  { recordTypeId := r.recordId, recordTypeName := r.recordName, counterFunc := r.counter, recordIndex := -1 }

theorem Registration.run_records (r : Registration) (g : RecordTable) :
    (r.run g).records = g.records ++ [r.pvType] ∧ (r.run g).activeRecords = g.activeRecords := by
  cases hc : r.counter <;> simp [Registration.run, Registration.pvType, addCounterPv, addEventPv, hc]

theorem register_from (regs : List Registration) (g : RecordTable) :
    (regs.foldl (fun g r => r.run g) g).records = g.records ++ regs.map Registration.pvType ∧
      (regs.foldl (fun g r => r.run g) g).activeRecords = g.activeRecords := by
  induction regs generalizing g with
  | nil => simp
  | cons r regs ih =>
      obtain ⟨hr, ha⟩ := r.run_records g
      obtain ⟨hr', ha'⟩ := ih (r.run g)
      refine ⟨?_, by rw [List.foldl_cons, ha', ha]⟩
      rw [List.foldl_cons, hr', hr, List.map_cons, List.append_assoc, List.singleton_append]

theorem register_records (regs : List Registration) :
    (register regs).records = regs.map Registration.pvType := by
  simpa [register] using (register_from regs { records := [], activeRecords := [] }).1

theorem register_active (regs : List Registration) : (register regs).activeRecords = [] :=
  (register_from regs { records := [], activeRecords := [] }).2

theorem getPvtIndexFromName_eq (h : g.records = regs.map Registration.pvType) (name : Bytes) :
    getPvtIndexFromName g name = regs.findIdx? (fun r => r.recordId == name) := by
  rw [getPvtIndexFromName, h, List.findIdx?_map]
  rfl

def slotsOf (regs : List Registration) (name : Bytes) : List Nat := (entryNamed regs name).elim [] Entry.slots

theorem addActiveRecord_eq (h : g.records = regs.map Registration.pvType) (name : Bytes) :
    ∃ slot, addActiveRecord g name =
      .ok ({ g with activeRecords := g.activeRecords ++ slotsOf regs name }, slot) := by
  rw [addActiveRecord, getPvtIndexFromName_eq h]
  cases hi : regs.findIdx? (fun r => r.recordId == name) with
  | none => exact ⟨-1, by simp [slotsOf, entryNamed, hi]⟩
  | some i =>
      have hlt : i < regs.length := (List.findIdx?_eq_some_iff_getElem.mp hi).1
      have hr : g.records[i]? = some regs[i].pvType := by
        rw [h, List.getElem?_map, List.getElem?_eq_getElem hlt]; rfl
      simp only [fetch_eq_ok.mpr hr, ok_bind]
      cases hc : regs[i].counter <;>
        simp [Registration.pvType, slotsOf, entryNamed, hi, List.getElem?_eq_getElem hlt, hc, Entry.slots]

theorem setRecordStringLoop_eq (rstr : Bytes) {fuel i : Nat} (hi : i ≤ rstr.length)
    (hf : rstr.length < i + fuel) (h : g.records = regs.map Registration.pvType) :
    setRecordStringLoop rstr (fuel + 1) i g =
      .ok { g with activeRecords := g.activeRecords ++ ((rstr.drop i).splitOn 32).flatMap (slotsOf regs) } := by
  induction fuel generalizing i g with
  | zero => omega
  | succ fuel ih =>
      rw [setRecordStringLoop, if_pos hi]
      cases hn : findFirstOf 32 rstr i with
      | none =>
          obtain ⟨slot, ha⟩ := addActiveRecord_eq h (substr rstr i (rstr.length - i))
          have hs : substr rstr i (rstr.length - i) = rstr.drop i := by
            rw [substr, ← List.length_drop, List.take_length]
          rw [hs] at ha
          simp only [Option.getD_none, hs, ha, ok_bind]
          rw [setRecordStringLoop, if_neg (by omega), splitOn_drop_none hn, List.flatMap_singleton]
      | some n =>
          obtain ⟨hin, hlt, -, -⟩ := findFirstOf_eq_some hn
          obtain ⟨slot, ha⟩ := addActiveRecord_eq h (substr rstr i (n - i))
          have hrest :=
            ih (g := { g with activeRecords := g.activeRecords ++ slotsOf regs (substr rstr i (n - i)) })
              (i := n + 1) (by omega) (by omega) h
          simp only [Option.getD_some, ha, ok_bind]
          rw [hrest, splitOn_drop_some hn, List.flatMap_cons, List.append_assoc]

theorem setRecordString_eq (h : g.records = regs.map Registration.pvType) (recordString : Option Bytes) :
    setRecordString recordString g =
      .ok { g with activeRecords := g.activeRecords ++ (pieces recordString).flatMap (slotsOf regs) } := by
  cases recordString with
  | none => simp [setRecordString, pieces]
  | some rstr =>
      rw [setRecordString, setRecordStringLoop_eq rstr (Nat.zero_le _) (by omega) h]
      rfl

theorem isPvtEnabled_eq (h : g.records = regs.map Registration.pvType) {i : Nat} {r : Registration}
    (hr : regs[i]? = some r) : isPvtEnabled g i = .ok false := by
  have hp : g.records[i]? = some r.pvType := by rw [h, List.getElem?_map, hr]; rfl
  rw [isPvtEnabled, fetch_eq_ok.mpr hp]
  rfl

theorem iclProfileValue_eq (h : g.records = regs.map Registration.pvType) {i : Nat} {r : Registration}
    (hr : regs[i]? = some r) (value : LongLong)
    (ti : ThreadInfo) : iclProfileValue g i value ti = .ok ti := by
  have hp : g.records[i]? = some r.pvType := by rw [h, List.getElem?_map, hr]; rfl
  rw [iclProfileValue, fetch_eq_ok.mpr hp]
  rfl

theorem entryNamed_record {name : Bytes} {e : Entry} (h : entryNamed regs name = some e) :
    ∃ r, regs[e.record]? = some r ∧ r.recordId = name := by
  simp only [entryNamed, Option.bind_eq_bind, Option.bind_eq_some_iff] at h
  obtain ⟨i, hi, r, hr, he⟩ := h
  have hid : r.recordId = name := by
    obtain ⟨hlt, hb, -⟩ := List.findIdx?_eq_some_iff_getElem.mp hi
    rw [List.getElem?_eq_getElem hlt, Option.some.injEq] at hr
    rw [← hr]
    exact eq_of_beq hb
  refine ⟨r, ?_, hid⟩
  cases hc : r.counter <;> simp [hc] at he <;> rw [← he] <;> exact hr

theorem entryNamed_isSome {r : Registration} (hr : r ∈ regs) : ∃ e, entryNamed regs r.recordId = some e := by
  obtain ⟨i, hi⟩ : ∃ i, regs.findIdx? (fun r' => r'.recordId == r.recordId) = some i := by
    rw [← Option.isSome_iff_exists, List.findIdx?_isSome, List.any_eq_true]
    exact ⟨r, hr, beq_self_eq_true _⟩
  have hlt : i < regs.length := (List.findIdx?_eq_some_iff_getElem.mp hi).1
  simp [entryNamed, hi, List.getElem?_eq_getElem hlt]

theorem entryNamed_none {name : Bytes} (h : ∀ r ∈ regs, r.recordId ≠ name) : entryNamed regs name = none := by
  have hi : regs.findIdx? (fun r => r.recordId == name) = none :=
    List.findIdx?_eq_none_iff.mpr fun r hr => beq_false_of_ne (h r hr)
  simp [entryNamed, hi]

theorem EnablesNamed.not_named {recordString : Option Bytes} (hr : g.records = regs.map Registration.pvType)
    (ha : g.activeRecords = (pieces recordString).flatMap (slotsOf regs))
    (h : EnablesNamed regs recordString g) : ∀ r ∈ regs, r.recordId ∉ pieces recordString := by
  intro r hreg hp
  by_cases hne : r.recordId = []
  · obtain ⟨e, he⟩ := entryNamed_isSome hreg
    have hm : e.record ∈ g.activeRecords := by
      rw [ha]
      apply List.mem_flatMap.mpr
      exact ⟨r.recordId, hp, by rw [slotsOf, he]; exact Entry.mem_slots.mpr rfl⟩
    rw [h.slots] at hm
    obtain ⟨e', he', hs⟩ := List.mem_flatMap.mp hm
    obtain ⟨name, hname, hent⟩ := List.mem_filterMap.mp he'
    obtain ⟨r₁, hr₁, hid₁⟩ := entryNamed_record he
    obtain ⟨r₂, hr₂, hid₂⟩ := entryNamed_record hent
    rw [← Entry.mem_slots.mp hs, hr₁, Option.some.injEq] at hr₂
    have htok : name ∈ tokens recordString := List.mem_eraseDups.mp hname
    have hempty : name = [] := by rw [← hid₂, ← hr₂, hid₁, hne]
    simp [tokens, hempty] at htok
  · obtain ⟨i, hi⟩ := List.getElem?_of_mem hreg
    have hon := h.enabled i r hi
    have htok : r.recordId ∈ tokens recordString := by simp [tokens, hp, hne]
    rw [isPvtEnabled_eq hr hi, decide_eq_true htok] at hon
    cases hon

theorem enablesNamed_of_none_named {recordString : Option Bytes}
    (hr : g.records = regs.map Registration.pvType) (ha : g.activeRecords = [])
    (h : ∀ r ∈ regs, r.recordId ∉ pieces recordString) : EnablesNamed regs recordString g := by
  have htok : ∀ (i : Nat) (r : Registration), regs[i]? = some r → r.recordId ∉ tokens recordString := by
    intro i r hi hm
    exact h r (List.mem_of_getElem? hi) (List.mem_of_mem_filter hm)
  refine ⟨?_, ?_, ?_, ?_, ?_⟩
  · intro i r hi
    rw [isPvtEnabled_eq hr hi, decide_eq_false (htok i r hi)]
  · have hnone : enabledEntries regs recordString = [] := by
      apply List.filterMap_eq_nil_iff.mpr
      intro name hname
      apply entryNamed_none
      intro r hreg he
      have hm : name ∈ tokens recordString := List.mem_eraseDups.mp hname
      exact h r hreg (he ▸ List.mem_of_mem_filter hm)
    rw [ha, hnone, List.flatMap_nil]
  · intro i r hi hm
    exact absurd hm (htok i r hi)
  · intro i r hi hm
    exact absurd hm (htok i r hi)
  · intro i r hi _ ti value
    exact iclProfileValue_eq hr hi value ti

/-- A record string has the effect that it describes only when it names no
registered record. -/
theorem set_record_string_enables_iff (regs : List Registration) (recordString : Option Bytes) :
    (∃ g, setRecordString recordString (register regs) = .ok g ∧ EnablesNamed regs recordString g) ↔
      ∀ r ∈ regs, r.recordId ∉ pieces recordString := by
  have hreg := register_records regs
  have heq := setRecordString_eq hreg recordString
  rw [register_active, List.nil_append] at heq
  rw [heq]
  constructor
  · rintro ⟨g, hg, h⟩
    cases hg
    refine EnablesNamed.not_named ?_ ?_ h
    · exact hreg
    · rfl
  · intro h
    refine ⟨_, rfl, enablesNamed_of_none_named hreg ?_ h⟩
    apply List.flatMap_eq_nil_iff.mpr
    intro name hname
    rw [slotsOf, entryNamed_none fun r hr he => h r hr (he ▸ hname)]
    rfl

theorem named_counter_not_enabled :
    ¬ ∀ (regs : List Registration) (recordString : Option Bytes), (regs.map Registration.recordId).Nodup →
      ∃ g, setRecordString recordString (register regs) = .ok g ∧ EnablesNamed regs recordString g := by
  intro h
  let time : Registration := ⟨ascii "time", ascii "Time:ns", true⟩
  obtain ⟨g, hg, hen⟩ := h [time] (some (ascii "time")) (by simp)
  have hreg := register_records [time]
  have hr : g.records = [time].map Registration.pvType := by
    rw [setRecordString_eq hreg, Except.ok.injEq] at hg
    rw [← hg]
    exact hreg
  have hon := hen.enabled 0 time rfl
  rw [isPvtEnabled_eq hr (i := 0) rfl, decide_eq_true (by decide)] at hon
  cases hon

end Llprof.Profiler.RecordString
