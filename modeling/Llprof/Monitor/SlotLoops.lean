import Llprof.Foundations.Slots
import Llprof.Monitor.Store

namespace Llprof.Monitor.SlotLoops

open Faulting hiding store
open Slots Nodes Store

def isStatic (ds : DataStore) (i : Nat) : Bool := (ds.recordMetadata[i]?).any (fun md => md.staticValueFlag)

def isAccumulated (ds : DataStore) (i : Nat) : Bool :=
  (ds.recordMetadata[i]?).any (fun md => md.accumulatedValueFlag)

/-- The metadata exchange leaves one entry for each record slot. -/
def Described (ds : DataStore) : Prop := ds.recordMetadata.length = ds.numRecords

def value (values : List ProfileValue) (i : Nat) : ProfileValue := values.getD i 0

/-- A vector of values: empty where the node was stripped, and otherwise with
one value for each slot. -/
def Sized (ds : DataStore) (values : List ProfileValue) : Prop := values = [] ∨ values.length = ds.numRecords

def refill (ds : DataStore) (values : List ProfileValue) (f : Nat → ProfileValue) : List ProfileValue :=
  if values.isEmpty then values else slots ds.numRecords f

variable {ds : DataStore}

theorem metadata_eq (hd : Described ds) {i : Nat} (hi : i < ds.numRecords) :
    ∃ md, fetch ds.recordMetadata i = .ok md ∧ md.staticValueFlag = isStatic ds i ∧
      md.accumulatedValueFlag = isAccumulated ds i := by
  have hlt : i < ds.recordMetadata.length := hd.symm ▸ hi
  refine ⟨ds.recordMetadata[i], fetch_eq_ok.mpr (List.getElem?_eq_getElem hlt), ?_, ?_⟩
  · simp [isStatic, hlt]
  · simp [isAccumulated, hlt]

theorem slots_value {values : List ProfileValue} (h : values.length = ds.numRecords) :
    slots ds.numRecords (value values) = values := (eq_slots 0 h).symm

theorem value_slots {n i : Nat} (f : Nat → ProfileValue) (h : i < n) : value (slots n f) i = f i :=
  getD_slots 0 f h

theorem refill_value {values : List ProfileValue} (h : Sized ds values) :
    refill ds values (value values) = values := by
  obtain rfl | h := h
  · rfl
  · rw [refill, slots_value h, ite_self]

theorem refill_congr {values : List ProfileValue} {f g : Nat → ProfileValue}
    (h : ∀ i, i < ds.numRecords → f i = g i) : refill ds values f = refill ds values g := by
  rw [refill, refill, slots_congr h]

theorem sized_slots (f : Nat → ProfileValue) : Sized ds (slots ds.numRecords f) := Or.inr (length_slots _ _)

theorem sized_refill {values : List ProfileValue} (h : Sized ds values) (f : Nat → ProfileValue) :
    Sized ds (refill ds values f) := by
  rw [refill]
  split
  · exact h
  · exact sized_slots f

theorem length_refill {values : List ProfileValue} (h : values.length = ds.numRecords)
    (f : Nat → ProfileValue) : (refill ds values f).length = ds.numRecords := by
  rw [refill]
  split
  · exact h
  · exact length_slots _ _

theorem isEmpty_refill {values : List ProfileValue} (h : Sized ds values) (f : Nat → ProfileValue) :
    (refill ds values f).isEmpty = values.isEmpty := by
  rw [refill]
  split
  next he => exact rfl
  next he =>
    obtain rfl | h := h
    · exact absurd rfl he
    · rw [isEmpty_slots, ← h]
      cases values with
      | nil => exact absurd rfl he
      | cons v vs => simp

theorem refill_refill {values : List ProfileValue} (h : Sized ds values) (f g : Nat → ProfileValue) :
    refill ds (refill ds values f) g = refill ds values g := by
  rw [refill, isEmpty_refill h, refill]
  split
  next he => rw [refill, if_pos he]
  next he => rw [refill, if_neg he]

theorem value_refill {values : List ProfileValue} (h : values.length = ds.numRecords)
    (f : Nat → ProfileValue) {i : Nat} (hi : i < ds.numRecords) : value (refill ds values f) i = f i := by
  have hne : ¬ values.isEmpty = true := by
    intro he
    rw [List.isEmpty_iff] at he
    rw [he] at h
    have : ds.numRecords = 0 := h.symm
    omega
  rw [refill, if_neg hne, value_slots f hi]

theorem refill_add {values : List ProfileValue} (h : Sized ds values) (f g : Nat → ProfileValue) :
    refill ds (refill ds values f) (fun i => value (refill ds values f) i + g i) =
      refill ds values (fun i => f i + g i) := by
  rw [refill_refill h]
  obtain rfl | h := h
  · rfl
  · exact refill_congr fun i hi => by rw [value_refill h f hi]

theorem length_resize (values : List ProfileValue) (n : Nat) : (resize values n).length = n := by
  rw [resize, List.length_take, List.length_append, List.length_replicate,
    Nat.min_eq_left (Nat.le_add_left _ _)]

theorem resize_nil (n : Nat) : resize [] n = slots n (fun _ => 0) := by
  simp [resize, slots, List.map_const']

theorem clear_eq_slots {values : List ProfileValue} (h : values.length = ds.numRecords) :
    values.map (fun _ => (0 : ProfileValue)) = slots ds.numRecords (fun _ => 0) := by
  rw [← h, List.map_const', replicate_eq_slots]

theorem updateUnless_refill {values : List ProfileValue} {i : Nat} (hi : i < ds.numRecords)
    {new old : Nat → ProfileValue} {f : ProfileValue → ProfileValue}
    (hf : f (old i) = new i) (h : Sized ds values) :
    updateUnless (refill ds values (upTo i new old)).isEmpty (refill ds values (upTo i new old)) i f =
      .ok (refill ds values (upTo (i + 1) new old)) := by
  rw [updateUnless, isEmpty_refill h]
  by_cases he : values.isEmpty
  · simp only [refill, he, if_true]
  · simp only [refill, he, if_false, Bool.false_eq_true]
    exact updateAt_upTo hi hf

theorem updateUnless_upTo {n i : Nat} (hi : i < n) {skip : Bool} {new old : Nat → ProfileValue}
    {f : ProfileValue → ProfileValue} (hf : (if skip then old i else f (old i)) = new i) :
    updateUnless skip (slots n (upTo i new old)) i f = .ok (slots n (upTo (i + 1) new old)) := by
  cases skip with
  | true => rw [updateUnless, if_pos rfl, slots_upTo_succ n new old (by simpa using hf.symm)]
  | false => exact updateAt_upTo hi (by simpa using hf)

theorem refill_upTo_succ (values : List ProfileValue) {i : Nat}
    {new old : Nat → ProfileValue} (h : new i = old i) :
    refill ds values (upTo i new old) = refill ds values (upTo (i + 1) new old) := by
  rw [refill, refill, slots_upTo_succ _ new old h]

theorem accumulate_eq (hd : Described ds) {node rhs : RecordNodeBasic} {a c ra rc : Nat → ProfileValue}
    (ha : node.allValues = slots ds.numRecords a) (hc : node.childrenValues = slots ds.numRecords c)
    (hra : rhs.allValues = slots ds.numRecords ra) (hrc : rhs.childrenValues = slots ds.numRecords rc) :
    node.accumulate ds rhs = .ok { node with
      allValues := slots ds.numRecords (fun i => if isStatic ds i then ra i else a i + ra i)
      childrenValues := slots ds.numRecords (fun i => if isStatic ds i then rc i else c i + rc i)
      callCount := node.callCount + rhs.callCount } := by
  obtain ⟨node', hrun, rfl⟩ := forRange_total ds.numRecords
    (fun i node' => node' = { node with
      allValues := slots ds.numRecords (upTo i (fun i => if isStatic ds i then ra i else a i + ra i) a)
      childrenValues := slots ds.numRecords (upTo i (fun i => if isStatic ds i then rc i else c i + rc i) c) })
    (f := fun (node : RecordNodeBasic) i => do
      let md ← fetch ds.recordMetadata i
      let all ← fetch rhs.allValues i
      let children ← fetch rhs.childrenValues i
      if md.staticValueFlag then
        let allValues ← updateAt node.allValues i (fun _ => all)
        let childrenValues ← updateAt node.childrenValues i (fun _ => children)
        return { node with allValues, childrenValues }
      else
        let allValues ← updateAt node.allValues i (· + all)
        let childrenValues ← updateAt node.childrenValues i (· + children)
        return { node with allValues, childrenValues })
    (by
      rintro i _ hi rfl
      obtain ⟨md, hmd, hs, -⟩ := metadata_eq hd hi
      refine ⟨_, ?_, rfl⟩
      simp only [hmd, ok_bind, hra, hrc, fetch_slots _ hi]
      cases hst : isStatic ds i with
      | true =>
          simp only [hs, hst, if_true]
          rw [updateAt_upTo hi (by simp only [hst, if_true]), ok_bind,
            updateAt_upTo hi (by simp only [hst, if_true]), ok_bind, pure_eq_ok]
      | false =>
          simp only [hs, hst, Bool.false_eq_true, if_false]
          rw [updateAt_upTo hi (by simp only [hst, Bool.false_eq_true, if_false]), ok_bind,
            updateAt_upTo hi (by simp only [hst, Bool.false_eq_true, if_false]), ok_bind, pure_eq_ok])
    (s := node) (by simp only [upTo_zero, ← ha, ← hc])
  rw [RecordNodeBasic.accumulate, hrun, ok_bind, pure_eq_ok]
  simp only [slots_upTo]

/-- What `AddTempToChildren` adds to the temporary value of its destination. -/
def carried (ds : DataStore) (i : Nat) (v : ProfileValue) : ProfileValue :=
  if isStatic ds i || isAccumulated ds i then 0 else v

def counted (ds : DataStore) (i : Nat) (v : ProfileValue) : ProfileValue := if isStatic ds i then 0 else v

theorem addTempToChildren_eq (hd : Described ds) {tssNode : RecordNodeBasic} {destNode srcNode : RecordNode}
    {tc t v : Nat → ProfileValue} (htc : tssNode.childrenValues = slots ds.numRecords tc)
    (hdc : Sized ds destNode.childrenValues) (ht : destNode.tempValues = slots ds.numRecords t)
    (hv : srcNode.tempValues = slots ds.numRecords v) :
    addTempToChildren ds tssNode destNode srcNode = .ok
      ({ tssNode with childrenValues := slots ds.numRecords (fun i => tc i + counted ds i (v i)) },
       { destNode with
          childrenValues := refill ds destNode.childrenValues
            (fun i => value destNode.childrenValues i + counted ds i (v i))
          tempValues := slots ds.numRecords (fun i => t i + carried ds i (v i)) }) := by
  obtain ⟨st, hrun, rfl⟩ := forRange_total ds.numRecords
    (fun i st => st =
      (({ tssNode with
          childrenValues := slots ds.numRecords (upTo i (fun i => tc i + counted ds i (v i)) tc) } :
            RecordNodeBasic),
       ({ destNode with
          childrenValues := refill ds destNode.childrenValues
            (upTo i (fun i => value destNode.childrenValues i + counted ds i (v i)) (value destNode.childrenValues))
          tempValues := slots ds.numRecords (upTo i (fun i => t i + carried ds i (v i)) t) } : RecordNode)))
    (f := fun (st : RecordNodeBasic × RecordNode) i => do
      let md ← fetch ds.recordMetadata i
      if md.staticValueFlag then
        return st
      else
        let v ← fetch srcNode.tempValues i
        let destChildren ← updateUnless st.2.childrenValues.isEmpty st.2.childrenValues i (· + v)
        let tssChildren ← updateAt st.1.childrenValues i (· + v)
        let temp ← updateUnless md.accumulatedValueFlag st.2.tempValues i (· + v)
        return ({ st.1 with childrenValues := tssChildren },
          { st.2 with childrenValues := destChildren, tempValues := temp }))
    (by
      rintro i _ hi rfl
      obtain ⟨md, hmd, hs, ha⟩ := metadata_eq hd hi
      refine ⟨_, ?_, rfl⟩
      simp only [hmd, ok_bind, hv, fetch_slots _ hi, hs, ha]
      cases hst : isStatic ds i with
      | true =>
          have hc : counted ds i (v i) = 0 := by simp [counted, hst]
          have hcar : carried ds i (v i) = 0 := by simp [carried, hst]
          rw [if_pos rfl, pure_eq_ok, slots_upTo_succ _ (fun i => tc i + counted ds i (v i)) tc (by simp [hc]),
            slots_upTo_succ _ (fun i => t i + carried ds i (v i)) t (by simp [hcar]),
            refill_upTo_succ _ (by simp [hc])]
      | false =>
          have hc : counted ds i (v i) = v i := by simp [counted, hst]
          rw [if_neg Bool.false_ne_true, updateUnless_refill hi (by rw [hc]) hdc, ok_bind,
            updateAt_upTo hi (by rw [hc]), ok_bind, updateUnless_upTo hi, ok_bind, pure_eq_ok]
          cases hac : isAccumulated ds i <;> simp [carried, hst, hac])
    (s := (tssNode, destNode)) (by simp only [upTo_zero, ← htc, ← ht, refill_value hdc])
  rw [addTempToChildren, hrun]
  simp only [slots_upTo, refill]

theorem addAllValues_eq (hd : Described ds) {tssNode : RecordNodeBasic} {node : RecordNode}
    {t : Nat → ProfileValue} (hta : tssNode.allValues = slots ds.numRecords (fun _ => 0))
    (ha : Sized ds node.allValues) (ht : node.tempValues = slots ds.numRecords t) :
    addAllValues ds tssNode node = .ok
      ({ tssNode with allValues := slots ds.numRecords t },
       { node with
          allValues := refill ds node.allValues
            (fun i => if isStatic ds i then t i else value node.allValues i + t i) }) := by
  obtain ⟨st, hrun, rfl⟩ := forRange_total ds.numRecords
    (fun i st => st =
      (({ tssNode with allValues := slots ds.numRecords (upTo i t (fun _ => 0)) } : RecordNodeBasic),
       ({ node with
          allValues := refill ds node.allValues
            (upTo i (fun i => if isStatic ds i then t i else value node.allValues i + t i)
              (value node.allValues)) } : RecordNode)))
    (f := fun (st : RecordNodeBasic × RecordNode) i => do
      let all ← fetch st.1.allValues i
      require (all = 0) .assertion
      let md ← fetch ds.recordMetadata i
      let v ← fetch st.2.tempValues i
      let f : ProfileValue → ProfileValue := if md.staticValueFlag then fun _ => v else (· + v)
      let nodeAll ← updateUnless st.2.allValues.isEmpty st.2.allValues i f
      let tssAll ← updateAt st.1.allValues i f
      return ({ st.1 with allValues := tssAll }, { st.2 with allValues := nodeAll }))
    (by
      rintro i _ hi rfl
      obtain ⟨md, hmd, hs, -⟩ := metadata_eq hd hi
      refine ⟨_, ?_, rfl⟩
      simp only [fetch_slots _ hi, ok_bind, upTo_self, require_of, hmd, ht, hs]
      cases hst : isStatic ds i with
      | true =>
          simp only [if_true]
          rw [updateUnless_refill hi (by simp only [hst, if_true]) ha, ok_bind,
            updateAt_upTo hi rfl, ok_bind, pure_eq_ok]
      | false =>
          simp only [Bool.false_eq_true, if_false]
          rw [updateUnless_refill hi (by simp only [hst, Bool.false_eq_true, if_false]) ha, ok_bind,
            updateAt_upTo hi (by simp only [zero_add]), ok_bind, pure_eq_ok])
    (s := (tssNode, node)) (by simp only [upTo_zero, ← hta, refill_value ha])
  rw [addAllValues, hrun]
  simp only [slots_upTo, refill]

theorem defaultTemps_eq (hd : Described ds) (gl : Settings) (node : RecordNode) {t a : Nat → ProfileValue}
    (ht : node.tempValues = slots ds.numRecords t)
    (ha : gl.singleTreeMode = false → node.allValues = slots ds.numRecords a) :
    defaultTemps gl ds node = .ok { node with
      tempValues := slots ds.numRecords (fun i => if isStatic ds i && !gl.singleTreeMode then a i else t i) } := by
  obtain ⟨node', hrun, rfl⟩ := forRange_total ds.numRecords
    (fun i node' => node' = { node with
      tempValues := slots ds.numRecords
        (upTo i (fun i => if isStatic ds i && !gl.singleTreeMode then a i else t i) t) })
    (f := fun (node : RecordNode) i => do
      let md ← fetch ds.recordMetadata i
      if md.staticValueFlag && !gl.singleTreeMode then
        let v ← fetch node.allValues i
        let tempValues ← updateAt node.tempValues i (fun _ => v)
        return { node with tempValues }
      else
        return node)
    (by
      rintro i _ hi rfl
      obtain ⟨md, hmd, hs, -⟩ := metadata_eq hd hi
      refine ⟨_, ?_, rfl⟩
      simp only [hmd, ok_bind, hs]
      cases hst : (isStatic ds i && !gl.singleTreeMode) with
      | true =>
          have hgl : gl.singleTreeMode = false := by simpa using (Bool.and_eq_true_iff.mp hst).2
          simp only [if_true, ha hgl, fetch_slots _ hi, ok_bind]
          rw [updateAt_upTo hi (by simp only [hst, if_true]), ok_bind, pure_eq_ok]
      | false =>
          simp only [Bool.false_eq_true, if_false, pure_eq_ok]
          rw [slots_upTo_succ _ (fun i => if isStatic ds i && !gl.singleTreeMode then a i else t i) t (by simp [hst])])
    (s := node) (by simp only [upTo_zero, ← ht])
  rw [defaultTemps, hrun]
  simp only [slots_upTo]

end Llprof.Monitor.SlotLoops
