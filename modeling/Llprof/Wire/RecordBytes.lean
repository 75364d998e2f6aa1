import Llprof.Foundations.Places
import Llprof.Wire.RecordWalk

namespace Llprof.Wire.RecordBytes

open Faulting LittleEndian MachineIntegers Places Network Framing NameQuery ProfileData DrainMessages
  RecordWalk Profiler.CallTree

/-- `CallTree_GetSlide`. -/
def getSlide (numRecords : Nat) : List (Bytes × Nat) :=
  [(ascii "pdata.nameid", 0), (ascii "pdata.value", 24), (ascii "pdata.call_count", 16),
    (ascii "pdata.call_node_id", 8),
    (ascii "pdata.parent_node_id", 12), (ascii "pdata.record_size", 24 + 8 * numRecords)]

def valueBytes (value : LongLong) : Bytes := toBytes 8 value.toNat

/-- A `MethodNodeSerializedInfo` in the buffer that is sent. -/
def recordBytes (r : MethodNodeSerializedInfo) : Bytes :=
  toBytes 8 r.nameid ++ (toBytes 4 r.callNodeId ++ (toBytes 4 r.parentNodeId ++ (toBytes 8 r.callCount ++
    r.profileValue.flatMap valueBytes)))

def nowInfoBytes (nowInfo : NowBuffer) : Bytes := toBytes 8 nowInfo.node ++ nowInfo.values.flatMap valueBytes

/-- The numbers of a record are those of its fields. -/
structure Fits (numRecords : Nat) (r : MethodNodeSerializedInfo) : Prop where
  nameid : r.nameid < 2 ^ 64
  callNodeId : r.callNodeId < 2 ^ 32
  parentNodeId : r.parentNodeId < 2 ^ 32
  callCount : r.callCount < 2 ^ 64
  count : r.profileValue.length = numRecords

/-- The current node of the thread, and its counters. -/
structure NowFits (numRecords : Nat) (nowInfo : NowBuffer) : Prop where
  node : nowInfo.node < 2 ^ 32
  count : nowInfo.values.length = numRecords

theorem length_valueBytes (value : LongLong) : (valueBytes value).length = 8 := length_toBytes 8 _

theorem length_values (values : List LongLong) : (values.flatMap valueBytes).length = 8 * values.length := by
  induction values with
  | nil => rfl
  | cons v values ih =>
      rw [List.flatMap_cons, List.length_append, length_valueBytes, ih, List.length_cons]
      omega

theorem length_recordBytes (r : MethodNodeSerializedInfo) :
    (recordBytes r).length = 24 + 8 * r.profileValue.length := by
  simp only [recordBytes, List.length_append, length_toBytes, length_values]
  omega

theorem length_records {numRecords : Nat} {batch : List MethodNodeSerializedInfo}
    (h : ∀ r ∈ batch, Fits numRecords r) :
    (batch.flatMap recordBytes).length = (24 + 8 * numRecords) * batch.length := by
  induction batch with
  | nil => rfl
  | cons r batch ih =>
      rw [List.forall_mem_cons] at h
      rw [List.flatMap_cons, List.length_append, ih h.2, length_recordBytes, h.1.count, List.length_cons]
      ring

/-- A table of offsets for records of `numRecords` values. -/
structure Laid (info : MemberOffsets) (numRecords : Nat) : Prop where
  nameid : getMemberOffsetOf info "pdata.nameid" = 0
  callNodeId : getMemberOffsetOf info "pdata.call_node_id" = 8
  parentNodeId : getMemberOffsetOf info "pdata.parent_node_id" = 12
  callCount : getMemberOffsetOf info "pdata.call_count" = 16
  value : getMemberOffsetOf info "pdata.value" = 24
  recordSize : getMemberOffsetOf info "pdata.record_size" = 24 + 8 * numRecords

theorem getSlide_laid {numRecords : Nat} (h : 24 + 8 * numRecords < 2 ^ 31) :
    Laid ((getSlide numRecords).map (fun e => (e.1, Int32.ofInt e.2))) numRecords := by
  have hsize : (Int32.ofInt ((24 + 8 * numRecords : Nat) : Int)).toInt = 24 + 8 * numRecords := by
    rw [Int32.toInt_ofInt_of_le (by omega) (by omega)]
    omega
  refine ⟨rfl, rfl, rfl, rfl, rfl, ?_⟩
  rw [← hsize]
  rfl

theorem object_placed {bytes : Bytes} {w n q : Nat} {p : Int} (h : PlacedAt bytes q (toBytes w n))
    (hw : 0 < w) (hp : p = q) : object w (bytes.map some) p = .ok (n % 256 ^ w) := by
  have hle := h.length_le
  rw [length_toBytes] at hle
  rw [object, if_neg (by omega), cellWord_written _ _ (by omega), hp, Int.toNat_natCast, word_placed h]

theorem ofNat_toNat (value : LongLong) : BitVec.ofNat 64 (value.toNat % 256 ^ 8) = value := by
  have hlt : value.toNat < 256 ^ 8 := value.isLt
  rw [Nat.mod_eq_of_lt hlt, BitVec.ofNat_toNat, BitVec.setWidth_eq]

theorem valueAt_placed {bytes : Bytes} {values : List LongLong} {q : Nat}
    (h : PlacedAt bytes q (values.flatMap valueBytes)) {p : Int} (hp : p = q) {i : Nat} {v : LongLong}
    (hi : values[i]? = some v) : valueAt (bytes.map some) p i = .ok v := by
  rw [valueAt, object_placed (h.get length_valueBytes hi) (by omega) (by omega), ok_bind,
    ofNat_toNat, pure_eq_ok]

theorem values_placed {bytes : Bytes} {values : List LongLong} {q : Nat}
    (h : PlacedAt bytes q (values.flatMap valueBytes)) {p : Int} (hp : p = q) {n : Nat}
    (hn : values.length = n) : (List.range n).mapM (valueAt (bytes.map some) p) = .ok values := by
  subst hn
  exact mapM_range fun i v hi => valueAt_placed h hp hi

theorem object_fits {bytes : Bytes} {w n q : Nat} {p : Int} (h : PlacedAt bytes q (toBytes w n))
    (hw : 0 < w) (hp : p = q) (hn : n < 256 ^ w) : object w (bytes.map some) p = .ok n := by
  rw [object_placed h hw hp, Nat.mod_eq_of_lt hn]

variable {info : MemberOffsets} {numRecords : Nat}

theorem readRecord_placed (hi : Laid info numRecords) {r : MethodNodeSerializedInfo} (hr : Fits numRecords r)
    {bytes : Bytes} {q : Nat} (h : PlacedAt bytes q (recordBytes r)) :
    readRecord info numRecords (bytes.map some) q = .ok r := by
  have hname := h.left
  have h₁ := h.right rfl
  have hnode := h₁.left
  have h₂ := h₁.right rfl
  have hparent := h₂.left
  have h₃ := h₂.right rfl
  have hcount := h₃.left
  have hvalues := h₃.right rfl
  simp only [length_toBytes] at hnode hparent hcount hvalues
  have hid := object_fits hnode (by omega) (p := q + 8) (by omega) hr.callNodeId
  have hpar := object_fits hparent (by omega) (p := q + 12) (by omega) hr.parentNodeId
  have hnam := object_fits hname (by omega) (p := q + 0) (by omega) hr.nameid
  have hcnt := object_fits hcount (by omega) (p := q + 16) (by omega) hr.callCount
  have hval := values_placed hvalues (p := q + 24) (by omega) hr.count
  rw [readRecord, hi.callNodeId, hi.parentNodeId, hi.nameid, hi.callCount, hi.value, hid, ok_bind,
    hpar, ok_bind, hnam, ok_bind, hcnt, ok_bind, hval, ok_bind, pure_eq_ok]

theorem recordLoop_pieces {σ ρ : Type} {turn : σ → Int → Run σ} {f : σ → ρ → σ} {piece : ρ → Bytes}
    {s : Nat} {bytes : Bytes} (pieces : List ρ) (hlen : ∀ r ∈ pieces, (piece r).length = s) (hs : 0 < s)
    (hturn : ∀ r ∈ pieces, ∀ st (q : Nat), PlacedAt bytes q (piece r) → turn st q = .ok (f st r))
    (hsz : bytes.length < 2 ^ 31) {pre : Bytes} (hpre : 8 ≤ pre.length)
    (hbytes : bytes = pre ++ pieces.flatMap piece) {fuel : Nat} (hf : pieces.length < fuel)
    (st : σ) : ∃ ptr, recordLoop turn s bytes.length fuel st (pre.length - 8) =
    .ok (pieces.foldl f st, ptr) := by
  induction pieces generalizing pre fuel st with
  | nil =>
      obtain ⟨fuel, rfl⟩ := Nat.exists_eq_add_of_lt hf
      have hend : bytes.length = pre.length := by rw [hbytes, List.flatMap_nil, List.append_nil]
      refine ⟨pre.length - 8, ?_⟩
      rw [recordLoop, getRemainSize_eq hsz (by omega) (by omega), ok_bind, if_pos (by omega), pure_eq_ok]
      rfl
  | cons r pieces ih =>
      obtain ⟨fuel, rfl⟩ := Nat.exists_eq_add_of_lt hf
      rw [List.forall_mem_cons] at hlen hturn
      have hplaced : PlacedAt bytes pre.length (piece r) := by
        rw [hbytes, List.flatMap_cons]
        exact placedAt_append pre (piece r) _
      have hle := hplaced.length_le
      rw [hlen.1] at hle
      have hnext : bytes = (pre ++ piece r) ++ pieces.flatMap piece := by
        rw [hbytes, List.flatMap_cons, List.append_assoc]
      have hptr : (pre.length : Int) - 8 + s = ((pre ++ piece r).length : Int) - 8 := by
        rw [List.length_append, hlen.1]
        omega
      have hseek : seekBy bytes.length ((pre.length : Int) - 8) s =
          .ok (((pre ++ piece r).length : Int) - 8) := by
        rw [seekBy, int, if_pos (by omega), ok_bind, require_of (by omega), ok_bind, pure_eq_ok, hptr]
      have hplace : (pre.length : Int) - 8 + 8 = (pre.length : Nat) := by omega
      have hpre' : 8 ≤ (pre ++ piece r).length := by
        rw [List.length_append]
        omega
      have hf' : pieces.length < pieces.length + 1 + fuel := by omega
      obtain ⟨ptr, hrest⟩ := ih hlen.2 hturn.2 hpre' hnext hf' (f st r)
      refine ⟨ptr, ?_⟩
      rw [recordLoop, getRemainSize_eq hsz (by omega) (by omega), ok_bind, if_neg (by omega), hplace,
        hturn.1 st pre.length hplaced, ok_bind, hseek, ok_bind, List.length_cons, hrest]
      rfl

theorem foldl_snoc {ρ : Type} (rs front : List ρ) :
    rs.foldl (fun done r => done ++ [r]) front = front ++ rs := by
  induction rs generalizing front with
  | nil => exact (List.append_nil front).symm
  | cons r rs ih => rw [List.foldl_cons, ih, List.append_assoc, List.singleton_append]

theorem storeLoop_records (hi : Laid info numRecords) {batch : List MethodNodeSerializedInfo}
    (hb : ∀ r ∈ batch, Fits numRecords r) {head : Bytes} (hhead : head.length = 16)
    (hsz : (head ++ batch.flatMap recordBytes).length < 2 ^ 31) {fuel : Nat} (hf : batch.length < fuel) :
    ∃ ptr, storeLoop info numRecords ((head ++ batch.flatMap recordBytes).map some) fuel [] 8 =
      .ok (batch, ptr) := by
  have hturn (r : MethodNodeSerializedInfo) (hr : r ∈ batch) (done : List MethodNodeSerializedInfo) (q : Nat)
      (hq : PlacedAt (head ++ batch.flatMap recordBytes) q (recordBytes r)) :
      storeTurn info numRecords ((head ++ batch.flatMap recordBytes).map some) done q =
        .ok (done ++ [r]) := by
    rw [storeTurn, readRecord_placed hi (hb r hr) hq, ok_bind, pure_eq_ok]
  have hlen (r : MethodNodeSerializedInfo) (hr : r ∈ batch) :
      (recordBytes r).length = 24 + 8 * numRecords := by
    rw [length_recordBytes, (hb r hr).count]
  obtain ⟨ptr, hrun⟩ := recordLoop_pieces batch hlen (by omega) hturn hsz (by omega) rfl hf []
  refine ⟨ptr, ?_⟩
  rw [foldl_snoc, List.nil_append, hhead] at hrun
  rw [storeLoop, List.length_map, hi.recordSize]
  exact_mod_cast hrun

end Llprof.Wire.RecordBytes
