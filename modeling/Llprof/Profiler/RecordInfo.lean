import Llprof.Foundations.Decimal
import Llprof.Profiler.Layout

namespace Llprof.Profiler.RecordInfo

open Faulting LittleEndian Decimal Records Layout

def repeatsSlot (g : RecordTable) (i : Nat) : Run Bool :=
  if 0 < i then do
    let prev ← fetch g.activeRecords (i - 1)
    let cur ← fetch g.activeRecords i
    return prev == cur
  else
    return false

def lineText (i : Nat) (name flag : Bytes) : Bytes :=
  decimal i ++ ascii " " ++ name ++ ascii " U f" ++ flag ++ [10]

def recordInfoLine (g : RecordTable) (i : Nat) : Run Bytes := do
  let r ← g.active i
  let repeated ← repeatsSlot g i
  let name := if repeated then r.recordTypeName ++ ascii "(sv)" else r.recordTypeName
  let flag ← recordFlag g i
  return lineText i name flag

/-- `llprof_get_record_info`. -/
def getRecordInfo (g : RecordTable) : Run Bytes :=
  forRange g.activeRecords.length
    (fun result i => do
      let line ← recordInfoLine g i
      return result ++ line)
    (decimal g.activeRecords.length ++ [10])

def nameOf (g : RecordTable) (t : Nat) : Bytes := (g.records[t]?).elim [] PvType.recordTypeName

/-- The name and the flag of each slot of an entry. -/
def lines (g : RecordTable) : Entry → List (Bytes × Bytes)
  | .counter t => [(nameOf g t, ascii "A"), (nameOf g t ++ ascii "(sv)", ascii "S")]
  | .event t => [(nameOf g t, [])]

def tableText : Nat → List (Bytes × Bytes) → Bytes
  | _, [] => []
  | n, (name, flag) :: rows => lineText n name flag ++ tableText (n + 1) rows

variable {α : Type} {g : RecordTable} {es : List Entry}

theorem length_lines (e : Entry) : (lines g e).length = e.slots.length := by
  cases e <;> rfl

theorem length_flatMap_lines (es : List Entry) :
    (es.flatMap (lines g)).length = (es.flatMap Entry.slots).length := by
  simp only [List.length_flatMap, length_lines]

theorem recordFlag_eq (g : RecordTable) (i : Nat) :
    recordFlag g i = (do
      let repeated ← repeatsSlot g i
      if repeated then return ascii "S" else
        let r ← g.active i
        return if r.counterFunc then ascii "A" else []) := by
  by_cases hi : 0 < i
  · cases hp : fetch g.activeRecords (i - 1) with
    | error e => simp [recordFlag, repeatsSlot, hi, hp]
    | ok prev =>
        cases hc : fetch g.activeRecords i with
        | error e => simp [recordFlag, repeatsSlot, hi, hp, hc]
        | ok cur => by_cases hpc : prev = cur <;> simp [recordFlag, repeatsSlot, hi, hp, hc, hpc]
  · simp [recordFlag, repeatsSlot, hi]

theorem exists_entry {i : Nat} (h : i < (es.flatMap Entry.slots).length) :
    ∃ pre e post k, es = pre ++ e :: post ∧ k < e.slots.length ∧
      i = (pre.flatMap Entry.slots).length + k := by
  induction es generalizing i with
  | nil => simp at h
  | cons e es ih =>
      by_cases hi : i < e.slots.length
      · exact ⟨[], e, es, i, rfl, hi, by simp⟩
      · rw [List.flatMap_cons, List.length_append] at h
        obtain ⟨pre, e', post, k, rfl, hk, he⟩ := ih (i := i - e.slots.length) (by omega)
        refine ⟨e :: pre, e', post, k, rfl, hk, ?_⟩
        rw [List.flatMap_cons, List.length_append]
        omega

theorem flatMap_split (f : Entry → List α) (pre post : List Entry) (e : Entry) {k : Nat} {x : α}
    (hk : (f e)[k]? = some x) : ((pre ++ e :: post).flatMap f)[(pre.flatMap f).length + k]? = some x := by
  have hlt : k < (f e).length := (List.getElem?_eq_some_iff.mp hk).1
  rw [List.flatMap_append, List.getElem?_append_right (Nat.le_add_right _ _), Nat.add_sub_cancel_left,
    List.flatMap_cons, List.getElem?_append_left hlt, hk]

theorem slots_pos (e : Entry) : 0 < e.slots.length := by
  cases e with
  | counter t => exact Nat.zero_lt_succ 1
  | event t => exact Nat.zero_lt_one

theorem slots_get (e : Entry) {k : Nat} (hk : k < e.slots.length) : e.slots[k]? = some e.record := by
  rw [List.getElem?_eq_getElem hk, Option.some.injEq]
  exact Entry.mem_slots.mp (List.getElem_mem hk)

variable {pre post : List Entry} {e : Entry}

theorem slot_get (h : LaidOut g (pre ++ e :: post)) {k : Nat} (hk : k < e.slots.length) :
    g.activeRecords[(pre.flatMap Entry.slots).length + k]? = some e.record := by
  rw [h.active]
  exact flatMap_split Entry.slots pre post e (slots_get e hk)

theorem repeatsSlot_first (h : LaidOut g (pre ++ e :: post))
    (hd : ((pre ++ e :: post).map Entry.record).Nodup) :
    repeatsSlot g (pre.flatMap Entry.slots).length = .ok false := by
  by_cases hi : 0 < (pre.flatMap Entry.slots).length
  · obtain ⟨pre', e', post', k, rfl, hk, hlast⟩ :=
      exists_entry (show (pre.flatMap Entry.slots).length - 1 < (pre.flatMap Entry.slots).length by omega)
    have hprev : g.activeRecords[((pre' ++ e' :: post').flatMap Entry.slots).length - 1]? =
        some e'.record := by
      rw [hlast]
      rw [List.append_assoc, List.cons_append] at h
      exact slot_get h hk
    have hcur : g.activeRecords[((pre' ++ e' :: post').flatMap Entry.slots).length]? = some e.record :=
      slot_get h (slots_pos e)
    have hne : e'.record ≠ e.record := by
      rw [List.map_append, List.map_cons] at hd
      refine (List.nodup_append.mp hd).2.2 _ ?_ _ List.mem_cons_self
      exact List.mem_map.mpr ⟨e', by simp, rfl⟩
    rw [repeatsSlot, if_pos hi, fetch_eq_ok.mpr hprev, ok_bind, fetch_eq_ok.mpr hcur, ok_bind, pure_eq_ok,
      beq_false_of_ne hne]
  · rw [repeatsSlot, if_neg hi]
    rfl

theorem repeatsSlot_second {t : Nat} (h : LaidOut g (pre ++ .counter t :: post)) :
    repeatsSlot g ((pre.flatMap Entry.slots).length + 1) = .ok true := by
  have h₀ : g.activeRecords[(pre.flatMap Entry.slots).length]? = some t := slot_get h (Nat.zero_lt_succ 1)
  have h₁ := slot_get h (k := 1) (Nat.lt_succ_self 1)
  rw [repeatsSlot, if_pos (Nat.succ_pos _), Nat.add_sub_cancel, fetch_eq_ok.mpr h₀, ok_bind,
    fetch_eq_ok.mpr h₁, ok_bind, pure_eq_ok, Entry.record, beq_self_eq_true]

theorem recordInfoLine_eq (h : LaidOut g (pre ++ e :: post))
    (hd : ((pre ++ e :: post).map Entry.record).Nodup) {k : Nat} {name flag : Bytes}
    (hk : (lines g e)[k]? = some (name, flag)) :
    recordInfoLine g ((pre.flatMap Entry.slots).length + k) =
      .ok (lineText ((pre.flatMap Entry.slots).length + k) name flag) := by
  have hlt : k < e.slots.length := by
    rw [← length_lines]
    exact (List.getElem?_eq_some_iff.mp hk).1
  obtain ⟨r, hr, -, hrec, hc⟩ := h.active_eq (by simp) (slot_get h hlt)
  have hname : nameOf g e.record = r.recordTypeName := by rw [nameOf, fetch_eq_ok.mp hrec]; rfl
  have hfirst := repeatsSlot_first h hd
  have hsecond : k = 1 → repeatsSlot g ((pre.flatMap Entry.slots).length + 1) = .ok true := by
    rintro rfl
    cases e with
    | event t => exact absurd hlt (Nat.lt_irrefl 1)
    | counter t => exact repeatsSlot_second h
  rw [recordInfoLine, hr, ok_bind, recordFlag_eq, hr]
  generalize (pre.flatMap Entry.slots).length = n at hfirst hsecond ⊢
  cases e with
  | event t =>
      obtain rfl : k = 0 := Nat.lt_one_iff.mp hlt
      cases hk
      simp [hfirst, hc, Entry.isCounter, ← hname, Entry.record]
  | counter t =>
      obtain rfl | rfl : k = 0 ∨ k = 1 := by
        have : k < 2 := hlt
        omega
      · cases hk
        simp [hfirst, hc, Entry.isCounter, ← hname, Entry.record]
      · cases hk
        simp [hsecond rfl, ← hname, Entry.record]

theorem recordInfoLine_slot (h : LaidOut g es) (hd : (es.map Entry.record).Nodup)
    {i : Nat} {name flag : Bytes} (hi : (es.flatMap (lines g))[i]? = some (name, flag)) :
    recordInfoLine g i = .ok (lineText i name flag) := by
  have hlt : i < (es.flatMap Entry.slots).length := by
    rw [← length_flatMap_lines (g := g)]
    exact (List.getElem?_eq_some_iff.mp hi).1
  obtain ⟨pre, e, post, k, rfl, hk, rfl⟩ := exists_entry hlt
  have hrow : (lines g e)[k]? = some (name, flag) := by
    rw [← length_lines (g := g)] at hk
    obtain ⟨row, hrow⟩ : ∃ row, (lines g e)[k]? = some row := ⟨_, List.getElem?_eq_getElem hk⟩
    rw [← length_flatMap_lines (g := g), flatMap_split _ pre post e hrow] at hi
    rw [hrow, hi]
  exact recordInfoLine_eq h hd hrow

theorem tableText_append (n : Nat) (rows : List (Bytes × Bytes)) (name flag : Bytes) :
    tableText n (rows ++ [(name, flag)]) = tableText n rows ++ lineText (n + rows.length) name flag := by
  induction rows generalizing n with
  | nil => simp [tableText]
  | cons row rows ih =>
      rw [List.cons_append, tableText, ih, tableText, List.append_assoc, List.length_cons]
      congr 3
      omega

theorem getRecordInfo_eq (h : LaidOut g es) (hd : (es.map Entry.record).Nodup) :
    getRecordInfo g = .ok (decimal g.activeRecords.length ++ [10] ++ tableText 0 (es.flatMap (lines g))) := by
  have hlen : (es.flatMap (lines g)).length = g.activeRecords.length := by
    rw [length_flatMap_lines, h.active]
  obtain ⟨text, ht, he⟩ := forRange_total g.activeRecords.length
    (fun i result => result = decimal g.activeRecords.length ++ [10] ++
      tableText 0 ((es.flatMap (lines g)).take i))
    (f := fun result i => do
      let line ← recordInfoLine g i
      return result ++ line)
    (by
      rintro i _ hi rfl
      have hlt : i < (es.flatMap (lines g)).length := hlen ▸ hi
      have hrow : (es.flatMap (lines g))[i]? = some (es.flatMap (lines g))[i] := List.getElem?_eq_getElem hlt
      refine ⟨_, by rw [recordInfoLine_slot h hd hrow]; rfl, ?_⟩
      rw [List.take_add_one, hrow, Option.toList_some, tableText_append, List.length_take_of_le hlt.le,
        Nat.zero_add, List.append_assoc]
      rfl)
    (s := decimal g.activeRecords.length ++ [10]) (by simp [tableText])
  rw [getRecordInfo, ht, he, ← hlen, List.take_length]

end Llprof.Profiler.RecordInfo
