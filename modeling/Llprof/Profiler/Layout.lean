import Llprof.Profiler.Records

namespace Llprof.Profiler.Layout

open Faulting LittleEndian MachineIntegers Records

/-- A record as it is activated: a counter takes a slot for the accumulated
value and one for its value at the call, an event takes one slot. -/
inductive Entry
  | counter (t : Nat)
  | event (t : Nat)
  deriving DecidableEq, Repr

def Entry.record : Entry → Nat
  | counter t => t
  | event t => t

def Entry.isCounter : Entry → Bool
  | counter _ => true
  | event _ => false

def Entry.slots : Entry → List Nat
  | counter t => [t, t]
  | event t => [t]

/-- The active records are the slots of the entries, one entry after the other. -/
structure LaidOut (g : RecordTable) (es : List Entry) : Prop where
  active : g.activeRecords = es.flatMap Entry.slots
  kind : ∀ e ∈ es, ∃ r, g.records[e.record]? = some r ∧ r.counterFunc = e.isCounter

def started (reading : Reading) : List Entry → List LongLong → List LongLong
  | .counter t :: es, a :: _ :: value => a :: reading t :: started reading es value
  | .event _ :: es, a :: value => a :: started reading es value
  | _, value => value

/-- The integers that the slots should hold after a return: each counter's growth
is added to its first slot. -/
def ended (call ret : Reading) : List Entry → List LongLong → List Int
  | .counter t :: es, a :: s :: value =>
      (a.toInt + ((ret t).toInt - (call t).toInt)) :: s.toInt :: ended call ret es value
  | .event _ :: es, a :: value => a.toInt :: ended call ret es value
  | _, value => value.map BitVec.toInt

/-- Every counter is measured in its own slots, at a call and at the return on
the values that the call saved. -/
def MeasuresOwn (g : RecordTable) (es : List Entry) (call ret : Reading) (value acc : List LongLong) : Prop :=
  rtypeStartNode g call value = .ok (started call es value) ∧
    ∃ acc', rtypeEndNode g ret (started call es value) acc = .ok acc' ∧
      acc'.map BitVec.toInt = ended call ret es acc

/-- The slots have room for what they should hold. -/
def Room (es : List Entry) (call ret : Reading) (acc : List LongLong) : Prop :=
  ∀ n ∈ ended call ret es acc, Fits64 n

instance (es : List Entry) (call ret : Reading) (acc : List LongLong) : Decidable (Room es call ret acc) :=
  inferInstanceAs (Decidable (∀ n ∈ ended call ret es acc, Fits64 n))

variable {g : RecordTable} {es : List Entry} {call ret : Reading}

def EventsFrom (g : RecordTable) (i : Nat) : Prop :=
  ∀ j, i ≤ j → j < g.activeRecords.length → ∃ r, g.active j = .ok r ∧ r.counterFunc = false

theorem EventsFrom.later {i j : Nat} (h : EventsFrom g i) (hij : i ≤ j) : EventsFrom g j :=
  fun k hk => h k (hij.trans hk)

theorem EventsFrom.startNodeLoop {fuel i : Nat} (h : EventsFrom g i)
    (hf : g.activeRecords.length ≤ i + fuel) (value : List LongLong) :
    rtypeStartNodeLoop g call (fuel + 1) i value = .ok value := by
  induction fuel generalizing i with
  | zero => rw [rtypeStartNodeLoop, if_neg (by omega)]
  | succ fuel ih =>
      rw [rtypeStartNodeLoop]
      split
      · rename_i hi
        obtain ⟨r, hr, hc⟩ := h i (le_refl i) hi
        simp only [hr, ok_bind, hc, Bool.false_eq_true, if_false]
        exact ih (h.later (by omega)) (by omega)
      · rfl

theorem EventsFrom.endNodeLoop {fuel i : Nat} (h : EventsFrom g i)
    (hf : g.activeRecords.length ≤ i + fuel) (start value : List LongLong) :
    rtypeEndNodeLoop g ret start (fuel + 1) i value = .ok value := by
  induction fuel generalizing i with
  | zero => rw [rtypeEndNodeLoop, if_neg (by omega)]
  | succ fuel ih =>
      rw [rtypeEndNodeLoop]
      split
      · rename_i hi
        obtain ⟨r, hr, hc⟩ := h i (le_refl i) hi
        simp only [hr, ok_bind, hc, Bool.false_eq_true, if_false]
        exact ih (h.later (by omega)) (by omega)
      · rfl

theorem started_events (h : ∀ e ∈ es, e.isCounter = false) (value : List LongLong) :
    started call es value = value := by
  fun_induction started call es value with
  | case1 t es a s value ih => exact absurd (h (.counter t) List.mem_cons_self) (by simp [Entry.isCounter])
  | case2 t es a value ih => rw [ih fun e he => h e (List.mem_cons_of_mem _ he)]
  | case3 => rfl

theorem ended_events (h : ∀ e ∈ es, e.isCounter = false) (value : List LongLong) :
    ended call ret es value = value.map BitVec.toInt := by
  fun_induction ended call ret es value with
  | case1 t es a s value ih => exact absurd (h (.counter t) List.mem_cons_self) (by simp [Entry.isCounter])
  | case2 t es a value ih => rw [ih fun e he => h e (List.mem_cons_of_mem _ he), List.map_cons]
  | case3 => rfl

theorem Entry.mem_slots {e : Entry} {a : Nat} : a ∈ e.slots ↔ a = e.record := by
  cases e <;> simp [Entry.slots, Entry.record]

theorem LaidOut.active_eq (h : LaidOut g es) {e : Entry} (he : e ∈ es) {i : Nat}
    (hi : g.activeRecords[i]? = some e.record) :
    ∃ r, g.active i = .ok r ∧ fetch g.activeRecords i = .ok e.record ∧
      fetch g.records e.record = .ok r ∧ r.counterFunc = e.isCounter := by
  obtain ⟨r, hr, hc⟩ := h.kind e he
  have hf : fetch g.activeRecords i = .ok e.record := fetch_eq_ok.mpr hi
  have hg : fetch g.records e.record = .ok r := fetch_eq_ok.mpr hr
  exact ⟨r, by rw [RecordTable.active, hf, ok_bind, hg], hf, hg, hc⟩

theorem LaidOut.eventsFrom (pre : List Entry) {rest : List Entry} (h : LaidOut g (pre ++ rest))
    (hr : ∀ e ∈ rest, e.isCounter = false) : EventsFrom g (pre.flatMap Entry.slots).length := by
  intro j hj hlt
  have ha : g.activeRecords[j]? = some g.activeRecords[j] := List.getElem?_eq_getElem hlt
  have hrest : (rest.flatMap Entry.slots)[j - (pre.flatMap Entry.slots).length]? =
      some g.activeRecords[j] := by
    rw [← List.getElem?_append_right hj, ← List.flatMap_append, ← h.active, ha]
  obtain ⟨e, he, hae⟩ := List.mem_flatMap.mp (List.mem_of_getElem? hrest)
  rw [Entry.mem_slots.mp hae] at ha
  obtain ⟨r, hact, -, -, hc⟩ := h.active_eq (List.mem_append_right pre he) ha
  exact ⟨r, hact, by rw [hc, hr e he]⟩

theorem LaidOut.startNode_counter {t : Nat} (h : LaidOut g (.counter t :: es))
    (hes : ∀ e ∈ es, e.isCounter = false) (a s : LongLong) (value : List LongLong) :
    rtypeStartNode g call (a :: s :: value) = .ok (a :: call t :: value) := by
  obtain ⟨fuel, hlen⟩ : ∃ fuel, g.activeRecords.length = fuel + 2 := by
    rw [h.active]
    exact ⟨_, rfl⟩
  have hev := (LaidOut.eventsFrom [.counter t] h hes).later (j := 3) (Nat.le_succ 2)
  obtain ⟨r, hact, hf, hg, hc⟩ := h.active_eq List.mem_cons_self (i := 0) (by rw [h.active]; rfl)
  obtain ⟨r', -, hf', hg', hc'⟩ := h.active_eq List.mem_cons_self (i := 1) (by rw [h.active]; rfl)
  rw [rtypeStartNode, hlen, rtypeStartNodeLoop, if_pos (by omega)]
  simp only [hact, ok_bind, hc, Entry.isCounter, if_true, hf', hg', hc', require_of, Nat.zero_add]
  have hs : store (a :: s :: value) 1 (call (Entry.counter t).record) = .ok (a :: call t :: value) :=
    store_eq_ok.mpr ⟨by simp, rfl⟩
  rw [hs, ok_bind]
  exact hev.startNodeLoop (by omega) _

theorem LaidOut.endNode_counter {t : Nat} (h : LaidOut g (.counter t :: es))
    (hes : ∀ e ∈ es, e.isCounter = false) (a s b : LongLong) (start value : List LongLong) :
    rtypeEndNode g ret (a :: s :: start) (b :: value) = .ok ((b + (ret t - s)) :: value) := by
  obtain ⟨fuel, hlen⟩ : ∃ fuel, g.activeRecords.length = fuel + 2 := by
    rw [h.active]
    exact ⟨_, rfl⟩
  have hev := (LaidOut.eventsFrom [.counter t] h hes).later (j := 3) (Nat.le_succ 2)
  obtain ⟨r, hact, hf, hg, hc⟩ := h.active_eq List.mem_cons_self (i := 0) (by rw [h.active]; rfl)
  rw [rtypeEndNode, hlen, rtypeEndNodeLoop, if_pos (by omega)]
  have hv : fetch (b :: value) 0 = .ok b := rfl
  have hs : fetch (a :: s :: start) (0 + 1) = .ok s := rfl
  have hst : store (b :: value) 0 (b + (ret (Entry.counter t).record - s)) =
      .ok ((b + (ret t - s)) :: value) :=
    store_eq_ok.mpr ⟨by simp, rfl⟩
  simp only [hact, ok_bind, hc, Entry.isCounter, if_true, hf, hv, hs, hst]
  exact hev.endNodeLoop (by omega) _ _

theorem exists_two {value : List LongLong} (h : 2 ≤ value.length) : ∃ a s rest, value = a :: s :: rest := by
  rcases value with - | ⟨a, - | ⟨s, rest⟩⟩
  · simp at h
  · simp at h
  · exact ⟨a, s, rest, rfl⟩

theorem room_values (acc : List LongLong) : ∀ n ∈ acc.map BitVec.toInt, Fits64 n := by
  intro n hn
  obtain ⟨v, -, rfl⟩ := List.mem_map.mp hn
  exact fits64_toInt v

theorem LaidOut.measures_iff (h : LaidOut g es) (hes : ∀ e ∈ es.tail, e.isCounter = false)
    {value acc : List LongLong} (hv : value.length = g.activeRecords.length)
    (ha : acc.length = g.activeRecords.length) :
    MeasuresOwn g es call ret value acc ↔ Room es call ret acc := by
  rw [MeasuresOwn, Room]
  by_cases hall : ∀ e ∈ es, e.isCounter = false
  · have hev : EventsFrom g 0 := LaidOut.eventsFrom [] h hall
    rw [started_events hall, ended_events hall]
    exact iff_of_true ⟨hev.startNodeLoop (by omega) _, acc,
      hev.endNodeLoop (by omega) _ _, rfl⟩ (room_values acc)
  · rcases es with - | ⟨e, es⟩
    · exact absurd (fun e he => absurd he List.not_mem_nil) hall
    · rw [List.tail_cons] at hes
      cases e with
      | event t =>
          refine absurd (fun e he => ?_) hall
          rcases List.mem_cons.mp he with rfl | he
          · rfl
          · exact hes e he
      | counter t =>
          have hlen : 2 ≤ g.activeRecords.length := by
            rw [h.active]
            simp [Entry.slots]
          obtain ⟨a, s, value, rfl⟩ := exists_two (hlen.trans_eq hv.symm)
          obtain ⟨b, b', acc, rfl⟩ := exists_two (hlen.trans_eq ha.symm)
          have hsum : Counts (b + (ret t - call t)) (b.toInt + ((ret t).toInt - (call t).toInt)) :=
            counts_iff.mpr (by push_cast; simp only [cast_toInt])
          rw [started, ended, started_events hes, ended_events hes,
            h.endNode_counter hes a (call t) b value (b' :: acc)]
          constructor
          · rintro ⟨-, acc', hend, hexact⟩
            cases hend
            rw [List.map_cons, List.cons.injEq, hsum.exact] at hexact
            exact List.forall_mem_cons.mpr ⟨hexact.1, room_values (b' :: acc)⟩
          · intro hroom
            refine ⟨h.startNode_counter hes a s value, _, rfl, ?_⟩
            rw [List.map_cons, hsum.exact.mpr (hroom _ List.mem_cons_self), List.map_cons]

theorem tail_endNodeLoop {start value value' : List LongLong} {fuel i : Nat}
    (h : rtypeEndNodeLoop g ret start fuel i value = .ok value') : value'.tail = value.tail := by
  induction fuel generalizing i value with
  | zero => cases h
  | succ fuel ih =>
      rw [rtypeEndNodeLoop] at h
      split at h
      · simp only [bind_eq_ok] at h
        obtain ⟨r, -, h⟩ := h
        split at h
        · simp only [bind_eq_ok, store_eq_ok] at h
          obtain ⟨a, -, v, -, s, -, w, ⟨-, rfl⟩, h⟩ := h
          rw [ih h]
          cases value <;> rfl
        · exact ih h
      · cases h
        rfl

theorem one_mem_ended {t : Nat} (h : .counter t ∈ es) :
    (1 : Int) ∈ ended (fun _ => 0) (fun _ => 1) es (List.replicate (es.flatMap Entry.slots).length 0) := by
  induction es with
  | nil => cases h
  | cons e es ih =>
      cases e with
      | counter u => exact List.mem_cons_self
      | event u =>
          rcases List.mem_cons.mp h with h | h
          · cases h
          · exact List.mem_cons_of_mem _ (ih h)

theorem fits64_one : Fits64 ((0 : LongLong).toInt + ((1 : LongLong).toInt - (0 : LongLong).toInt)) := by
  decide

theorem room_one : Room es (fun _ => 0) (fun _ => 1) (List.replicate (es.flatMap Entry.slots).length 0) := by
  induction es with
  | nil => exact List.forall_mem_nil _
  | cons e es ih =>
      cases e with
      | counter u => exact List.forall_mem_cons.mpr ⟨fits64_one,
        List.forall_mem_cons.mpr ⟨fits64_toInt 0, ih⟩⟩
      | event u => exact List.forall_mem_cons.mpr ⟨fits64_toInt 0, ih⟩

theorem LaidOut.no_later_counter (h : LaidOut g es)
    (hm : MeasuresOwn g es (fun _ => 0) (fun _ => 1) (List.replicate (es.flatMap Entry.slots).length 0)
      (List.replicate (es.flatMap Entry.slots).length 0)) :
    ∀ e ∈ es.tail, e.isCounter = false := by
  intro e he
  by_contra hc
  obtain ⟨t, rfl⟩ : ∃ t, e = .counter t := by cases e <;> simp_all [Entry.isCounter]
  obtain ⟨-, acc', hend, hexact⟩ := hm
  have hone : (1 : Int) ∈ (ended (fun _ => 0) (fun _ => 1) es (List.replicate (es.flatMap Entry.slots).length 0)).tail := by
    rcases es with - | ⟨e', es⟩
    · cases he
    · cases e' with
      | counter u => exact List.mem_cons_of_mem _ (one_mem_ended he)
      | event u => exact one_mem_ended he
  rw [← hexact, ← List.map_tail, tail_endNodeLoop hend] at hone
  obtain ⟨v, hv, hv1⟩ := List.mem_map.mp hone
  rw [List.eq_of_mem_replicate (List.mem_of_mem_tail hv)] at hv1
  cases hv1

/-- A call and its return measure every record in its own slots on exactly those
readings whose sums have room, if no counter comes after another record, and for
no other layout. -/
theorem measures_own_iff (g : RecordTable) (es : List Entry) (h : LaidOut g es) :
    (∀ (call ret : Reading) (value acc : List LongLong),
        value.length = g.activeRecords.length → acc.length = g.activeRecords.length →
          (MeasuresOwn g es call ret value acc ↔ Room es call ret acc)) ↔
      ∀ e ∈ es.tail, e.isCounter = false := by
  refine ⟨fun hm => h.no_later_counter ?_, fun hes _ _ _ _ hv ha => h.measures_iff hes hv ha⟩
  rw [hm _ _ _ _ (by rw [List.length_replicate, h.active]) (by rw [List.length_replicate, h.active])]
  exact room_one

def pvType (id : String) (counterFunc : Bool) : PvType :=
  { recordTypeId := ascii id, recordTypeName := ascii id, counterFunc, recordIndex := -1 }

def timeAndMemory (activeRecords : List Nat) : RecordTable :=
  { records := [pvType "time" true, pvType "memory" false], activeRecords }

theorem measures_own_iff_time_first :
    LaidOut (timeAndMemory [0, 0, 1]) [.counter 0, .event 1] ∧
      Room [.counter 0, .event 1] (fun _ => 3) (fun _ => 10) [4, 0, 0] ∧
      MeasuresOwn (timeAndMemory [0, 0, 1]) [.counter 0, .event 1] (fun _ => 3) (fun _ => 10)
        [0, 0, 0] [4, 0, 0] := by
  have hl : LaidOut (timeAndMemory [0, 0, 1]) [.counter 0, .event 1] := ⟨rfl, by decide⟩
  have hroom : Room [.counter 0, .event 1] (fun _ => 3) (fun _ => 10) [4, 0, 0] := by decide
  exact ⟨hl, hroom, ((measures_own_iff _ _ hl).mpr (by decide) _ _ _ _ rfl rfl).mpr hroom⟩

theorem event_then_counter_not_measured :
    ∃ (g : RecordTable) (es : List Entry) (call ret : Reading) (value acc : List LongLong), LaidOut g es ∧
      value.length = g.activeRecords.length ∧ acc.length = g.activeRecords.length ∧ Room es call ret acc ∧
      rtypeStartNode g call value = .error .outOfRange ∧ ¬ MeasuresOwn g es call ret value acc := by
  have hl : LaidOut (timeAndMemory [1, 0, 0]) [.event 1, .counter 0] := ⟨rfl, by decide⟩
  have he : rtypeStartNode (timeAndMemory [1, 0, 0]) (fun _ => 5) [0, 0, 0] = .error .outOfRange :=
    error_of_fault (by decide +kernel)
  refine ⟨timeAndMemory [1, 0, 0], [.event 1, .counter 0], fun _ => 5, fun _ => 5, [0, 0, 0],
    [0, 0, 0], hl, rfl, rfl, by decide, he, fun hm => ?_⟩
  have h := hm.1
  rw [he] at h
  cases h

end Llprof.Profiler.Layout
