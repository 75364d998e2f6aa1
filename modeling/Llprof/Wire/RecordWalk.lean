import Llprof.Foundations.Avoiding
import Llprof.Profiler.CallTree
import Llprof.Wire.DrainMessages

namespace Llprof.Wire.RecordWalk

open Faulting Avoiding LittleEndian MachineIntegers Network NameQuery ProfileData DrainMessages Profiler.CallTree

/-- `member_offset_info_`; of two entries of one name the first is kept. -/
abbrev MemberOffsets := List (Bytes × Int32)

def getMemberOffsetOf (info : MemberOffsets) (name : String) : Int :=
  ((info.lookup (ascii name)).getD 0).toInt

/-- A sum or difference of `int` has to be one. -/
def int (i : Int) : Run Int := if -2 ^ 31 ≤ i ∧ i < 2 ^ 31 then .ok i else .error .overflow

def getRemainSize (sz : Nat) (ptr : Int) : Run Int := do
  let room ← int (sz - ptr)
  int (room - 8)

/-- `Seek`, with the new position as its result. -/
def seekBy (sz : Nat) (ptr offset : Int) : Run Int := do
  let next ← int (ptr + offset)
  require (next ≤ sz) .assertion
  return next

/-- The object of `w` bytes that a pointer into the buffer points to. -/
def object (w : Nat) (buf : List Cell) (p : Int) : Run Nat :=
  if p < 0 then .error .outOfRange else cellWord w p.toNat buf

variable {σ α β : Type}

/-- The loops over the records of a message. A turn gets the place where its record
begins, which is read before `Seek` looks at the length. -/
def recordLoop (turn : σ → Int → Run σ) (recordSize : Int) (sz : Nat) : Nat → σ → Int → Run (σ × Int)
  | 0, _, _ => .error .outOfFuel
  | fuel + 1, st, ptr => do
      let remain ← getRemainSize sz ptr
      if remain ≤ 0 then
        return (st, ptr)
      else
        let st ← turn st (ptr + 8)
        let ptr ← seekBy sz ptr recordSize
        recordLoop turn recordSize sz fuel st ptr

/-- A turn in `GetProfileData`. -/
def askTurn (info : MemberOffsets) (buf : List Cell) (a : Asked) (p : Int) : Run Asked := do
  let nameid ← object 8 buf (p + getMemberOffsetOf info "pdata.nameid")
  return askName a nameid

def askLoop (info : MemberOffsets) (buf : List Cell) (fuel : Nat) (a : Asked) (ptr : Int) :
    Run (Asked × Int) :=
  recordLoop (askTurn info buf) (getMemberOffsetOf info "pdata.record_size") buf.length fuel a ptr

def valueAt (buf : List Cell) (p : Int) (i : Nat) : Run LongLong := do
  let value ← object 8 buf (p + 8 * i)
  return BitVec.ofNat 64 value

def readRecord (info : MemberOffsets) (numRecords : Nat) (buf : List Cell) (p : Int) :
    Run MethodNodeSerializedInfo := do
  let callNodeId ← object 4 buf (p + getMemberOffsetOf info "pdata.call_node_id")
  let parentNodeId ← object 4 buf (p + getMemberOffsetOf info "pdata.parent_node_id")
  let nameid ← object 8 buf (p + getMemberOffsetOf info "pdata.nameid")
  let callCount ← object 8 buf (p + getMemberOffsetOf info "pdata.call_count")
  let profileValue ← (List.range numRecords).mapM (valueAt buf (p + getMemberOffsetOf info "pdata.value"))
  return { nameid, callNodeId, parentNodeId, callCount, profileValue }

/-- A turn in `ThreadStore::Store`, as far as it reads the message. -/
def storeTurn (info : MemberOffsets) (numRecords : Nat) (buf : List Cell)
    (batch : List MethodNodeSerializedInfo) (p : Int) : Run (List MethodNodeSerializedInfo) := do
  let r ← readRecord info numRecords buf p
  return batch ++ [r]

def storeLoop (info : MemberOffsets) (numRecords : Nat) (buf : List Cell) (fuel : Nat)
    (batch : List MethodNodeSerializedInfo) (ptr : Int) : Run (List MethodNodeSerializedInfo × Int) :=
  recordLoop (storeTurn info numRecords buf) (getMemberOffsetOf info "pdata.record_size")
    buf.length fuel batch ptr

/-- A run that ends, if only at an assertion. -/
def Stops (run : Run α) : Prop := (∃ a, run = .ok a) ∨ run = .error .assertion

theorem not_stops {e : Fault} (h : e ≠ .assertion) : ¬ Stops (.error e : Run α) := by
  rintro (⟨a, ha⟩ | ha)
  · cases ha
  · exact h (Except.error.inj ha)

/-- Reads that succeed where `P` holds and lie outside of the buffer elsewhere. -/
structure Reads (run : Run α) (P : Prop) : Prop where
  inside : P → ∃ a, run = .ok a
  outside : ¬ P → run = .error .outOfRange

namespace Reads

variable {run : Run α} {next : α → Run β} {P Q : Prop}

theorem mono (h : Reads run P) (hpq : P ↔ Q) : Reads run Q :=
  ⟨fun hq => h.inside (hpq.mpr hq), fun hq => h.outside (mt hpq.mp hq)⟩

theorem bind (h : Reads run P) (hnext : ∀ a, Reads (next a) Q) : Reads (run >>= next) (P ∧ Q) := by
  by_cases hp : P
  · obtain ⟨a, ha⟩ := h.inside hp
    rw [ha, ok_bind]
    exact (hnext a).mono (by simp [hp])
  · rw [h.outside hp, error_bind]
    exact ⟨fun hpq => absurd hpq.1 hp, fun _ => rfl⟩

theorem map (h : Reads run P) (f : α → β) : Reads (run >>= fun a => pure (f a)) P :=
  (h.bind (Q := True) (fun _ => ⟨fun _ => ⟨_, rfl⟩, fun hf => absurd trivial hf⟩)).mono (by rw [and_true])

theorem mapM {f : α → Run β} {P : α → Prop} (h : ∀ a, Reads (f a) (P a)) (xs : List α) :
    Reads (xs.mapM f) (∀ x ∈ xs, P x) := by
  induction xs with
  | nil => exact ⟨fun _ => ⟨[], rfl⟩, fun hf => absurd (List.forall_mem_nil P) hf⟩
  | cons x xs ih =>
      rw [List.mapM_cons]
      have hall : (∀ y ∈ x :: xs, P y) ↔ P x ∧ ∀ y ∈ xs, P y := List.forall_mem_cons
      exact ((h x).bind (fun b => ih.map (b :: ·))).mono hall.symm

end Reads

/-- An object of the record at `p` lies in the buffer, unless it is empty. -/
def Inside (sz : Nat) (p : Int) (field : Int × Nat) : Prop :=
  field.2 = 0 ∨ 0 ≤ p + field.1 ∧ p + field.1 + field.2 ≤ sz

instance (sz : Nat) (p : Int) (field : Int × Nat) : Decidable (Inside sz p field) :=
  inferInstanceAs (Decidable (_ ∨ _))

/-- What the loops read of each record: its offset and its length. -/
def fields (info : MemberOffsets) (numRecords : Nat) : List (Int × Nat) :=
  [(getMemberOffsetOf info "pdata.call_node_id", 4), (getMemberOffsetOf info "pdata.parent_node_id", 4),
    (getMemberOffsetOf info "pdata.nameid", 8), (getMemberOffsetOf info "pdata.call_count", 8),
    (getMemberOffsetOf info "pdata.value", 8 * numRecords)]

theorem object_reads (buf : Bytes) {w : Nat} (hw : 0 < w) (p off : Int) :
    Reads (object w (buf.map some) (p + off)) (Inside buf.length p (off, w)) := by
  constructor
  · rintro (h | ⟨h₀, h₁⟩)
    · exact absurd h (Nat.ne_of_gt hw)
    · dsimp only at h₀ h₁
      rw [object, if_neg (by omega), cellWord_written _ _ (by omega)]
      exact ⟨_, rfl⟩
  · intro h
    simp only [Inside, not_or, not_and] at h
    by_cases hneg : p + off < 0
    · rw [object, if_pos hneg]
    · have hlen : (((buf.map (some : UInt8 → Cell)).drop (p + off).toNat).take w).length < w := by
        have := h.2 (by omega)
        simp only [List.length_take, List.length_drop, List.length_map]
        omega
      rw [object, if_neg hneg, cellWord, if_pos hlen]

theorem values_reads (buf : Bytes) (numRecords : Nat) (p off : Int) :
    Reads ((List.range numRecords).mapM (valueAt (buf.map some) (p + off)))
      (Inside buf.length p (off, 8 * numRecords)) := by
  have hvalue (i : Nat) : Reads (valueAt (buf.map some) (p + off) i)
      (Inside buf.length (p + off) (8 * (i : Int), 8)) :=
    (object_reads buf (by omega) (p + off) (8 * i)).map (BitVec.ofNat 64)
  refine (Reads.mapM hvalue (List.range numRecords)).mono ?_
  simp only [List.mem_range, Inside]
  constructor
  · intro h
    by_cases hz : numRecords = 0
    · left
      omega
    · right
      have h₀ := h 0 (by omega)
      have h₁ := h (numRecords - 1) (by omega)
      omega
  · intro h i hi
    omega

theorem askTurn_reads (info : MemberOffsets) (buf : Bytes) (a : Asked) (p : Int) :
    Reads (askTurn info (buf.map some) a p) (Inside buf.length p (getMemberOffsetOf info "pdata.nameid", 8)) :=
  (object_reads buf (by omega) p _).map (askName a)

theorem readRecord_reads (info : MemberOffsets) (numRecords : Nat) (buf : Bytes) (p : Int) :
    Reads (readRecord info numRecords (buf.map some) p) (∀ f ∈ fields info numRecords, Inside buf.length p f) := by
  have hrecord : Reads (readRecord info numRecords (buf.map some) p) _ :=
    (object_reads buf (by omega) p _).bind fun callNodeId =>
      (object_reads buf (by omega) p _).bind fun parentNodeId =>
      (object_reads buf (by omega) p _).bind fun nameid =>
        (object_reads buf (by omega) p _).bind fun callCount =>
        (values_reads buf numRecords p _).map fun profileValue =>
          { nameid, callNodeId, parentNodeId, callCount, profileValue : MethodNodeSerializedInfo }
  exact hrecord.mono
    (by simp only [fields, List.forall_mem_cons, List.not_mem_nil, false_imp_iff, implies_true, and_true])

theorem length_mapM {f : α → Run β} {xs : List α} {ys : List β} (h : xs.mapM f = .ok ys) :
    ys.length = xs.length := by
  induction xs generalizing ys with
  | nil =>
      cases h
      rfl
  | cons x xs ih =>
      rw [List.mapM_cons] at h
      obtain ⟨y, -, h⟩ := bind_eq_ok.mp h
      obtain ⟨zs, hzs, h⟩ := bind_eq_ok.mp h
      cases h
      rw [List.length_cons, List.length_cons, ih hzs]

theorem readRecord_length {info : MemberOffsets} {numRecords : Nat} {buf : List Cell} {p : Int}
    {r : MethodNodeSerializedInfo} (h : readRecord info numRecords buf p = .ok r) :
    r.profileValue.length = numRecords := by
  rw [readRecord] at h
  obtain ⟨_, -, h⟩ := bind_eq_ok.mp h
  obtain ⟨_, -, h⟩ := bind_eq_ok.mp h
  obtain ⟨_, -, h⟩ := bind_eq_ok.mp h
  obtain ⟨_, -, h⟩ := bind_eq_ok.mp h
  obtain ⟨values, hvalues, h⟩ := bind_eq_ok.mp h
  cases h
  exact (length_mapM hvalues).trans List.length_range

section Loop

variable {turn : σ → Int → Run σ} {Good : Int → Prop} {s : Int} {sz : Nat}

/-- Every record that begins before the end is good, and the position behind it is an `int`. -/
def Fitting (Good : Int → Prop) (s : Int) (sz : Nat) (ptr : Int) : Prop :=
  ∀ k : Nat, ptr + 8 + k * s < sz → Good (ptr + 8 + k * s) ∧ ptr + (k + 1) * s < 2 ^ 31

theorem fitting_end (hs : 0 < s) {ptr : Int} (h : sz ≤ ptr + 8) : Fitting Good s sz ptr := by
  intro k hk
  have : 0 ≤ (k : Int) * s := Int.mul_nonneg (Int.natCast_nonneg k) hs.le
  omega

theorem fitting_step {ptr : Int} (h : ptr + 8 < sz) :
    Fitting Good s sz ptr ↔ (Good (ptr + 8) ∧ ptr + s < 2 ^ 31) ∧ Fitting Good s sz (ptr + s) := by
  have hshift (k : Nat) : ptr + s + 8 + k * s = ptr + 8 + (k + 1 : Nat) * s ∧
      ptr + s + (k + 1) * s = ptr + ((k + 1 : Nat) + 1) * s := by
    push_cast
    exact ⟨by ring, by ring⟩
  constructor
  · intro hf
    refine ⟨by simpa using hf 0 (by simpa using h), fun k hk => ?_⟩
    rw [(hshift k).1] at hk ⊢
    rw [(hshift k).2]
    exact hf (k + 1) hk
  · rintro ⟨hfirst, hf⟩ k hk
    cases k with
    | zero => simpa using hfirst
    | succ k =>
        rw [← (hshift k).1] at hk ⊢
        rw [← (hshift k).2]
        exact hf k hk

theorem getRemainSize_eq {ptr : Int} (hsz : sz < 2 ^ 31) (h₀ : 0 ≤ ptr) (h₁ : ptr ≤ sz) :
    getRemainSize sz ptr = .ok (sz - ptr - 8) := by
  rw [getRemainSize, int, if_pos (by omega), ok_bind, int, if_pos (by omega)]

theorem recordLoop_never (hturn : ∀ st p, Reads (turn st p) (Good p)) (hs : s ≤ 0)
    (hsz : 16 < sz) (fuel : Nat) (st : σ) {ptr : Int}
    (hptr : ptr ≤ 8) : ¬ Stops (recordLoop turn s sz fuel st ptr) := by
  induction fuel generalizing st ptr with
  | zero => exact not_stops (by decide)
  | succ fuel ih =>
      rw [recordLoop]
      by_cases hroom : -2 ^ 31 ≤ sz - ptr ∧ sz - ptr < 2 ^ 31
      · have hremain : getRemainSize sz ptr = .ok (sz - ptr - 8) := by
          rw [getRemainSize, int, if_pos hroom, ok_bind, int, if_pos (by omega)]
        rw [hremain, ok_bind, if_neg (by omega)]
        by_cases hgood : Good (ptr + 8)
        · obtain ⟨st', hst⟩ := (hturn st (ptr + 8)).inside hgood
          rw [hst, ok_bind]
          by_cases hnext : -2 ^ 31 ≤ ptr + s ∧ ptr + s < 2 ^ 31
          · have hseek : seekBy sz ptr s = .ok (ptr + s) := by
              rw [seekBy, int, if_pos hnext, ok_bind, require_of (by omega), ok_bind, pure_eq_ok]
            rw [hseek, ok_bind]
            exact ih st' (by omega)
          · have hseek : seekBy sz ptr s = .error .overflow := by rw [seekBy, int, if_neg hnext, error_bind]
            rw [hseek, error_bind]
            exact not_stops (by decide)
        · rw [(hturn st (ptr + 8)).outside hgood, error_bind]
          exact not_stops (by decide)
      · have hremain : getRemainSize sz ptr = .error .overflow := by
          rw [getRemainSize, int, if_neg hroom, error_bind]
        rw [hremain, error_bind]
        exact not_stops (by decide)

theorem recordLoop_unroll {turn : σ → Int → Run σ} (hsz : sz < 2 ^ 31) (st : σ) {ptr : Int} (h₀ : 0 ≤ ptr)
    (h₁ : ptr + 8 < sz) :
    (∃ fuel, Stops (recordLoop turn s sz fuel st ptr)) ↔ ∃ fuel, Stops (do
      let st ← turn st (ptr + 8)
      let ptr ← seekBy sz ptr s
      recordLoop turn s sz fuel st ptr) := by
  have hloop (fuel : Nat) : recordLoop turn s sz (fuel + 1) st ptr = (do
      let st ← turn st (ptr + 8)
      let ptr ← seekBy sz ptr s
      recordLoop turn s sz fuel st ptr) := by
    rw [recordLoop, getRemainSize_eq hsz h₀ (by omega), ok_bind, if_neg (by omega)]
  constructor
  · rintro ⟨fuel, h⟩
    cases fuel with
    | zero => exact absurd h (not_stops (by decide))
    | succ fuel => exact ⟨fuel, hloop fuel ▸ h⟩
  · rintro ⟨fuel, h⟩
    exact ⟨fuel + 1, (hloop fuel).symm ▸ h⟩

theorem recordLoop_fitting (hturn : ∀ st p, Reads (turn st p) (Good p)) (hs : 0 < s)
    (hsz : sz < 2 ^ 31) (st : σ) {ptr : Int} (h₀ : 0 ≤ ptr) (h₁ : ptr ≤ sz) :
    (∃ fuel, Stops (recordLoop turn s sz fuel st ptr)) ↔ Fitting Good s sz ptr := by
  by_cases hend : sz ≤ ptr + 8
  · refine iff_of_true ⟨1, Or.inl ⟨(st, ptr), ?_⟩⟩ (fitting_end hs hend)
    rw [recordLoop, getRemainSize_eq hsz h₀ h₁, ok_bind, if_pos (by omega), pure_eq_ok]
  rw [recordLoop_unroll hsz st h₀ (by omega), fitting_step (by omega)]
  by_cases hgood : Good (ptr + 8)
  · obtain ⟨st', hst⟩ := (hturn st (ptr + 8)).inside hgood
    simp only [hst, ok_bind, hgood, true_and]
    by_cases hnext : ptr + s < 2 ^ 31
    · have hint : int (ptr + s) = .ok (ptr + s) := by rw [int, if_pos (by omega)]
      by_cases hle : ptr + s ≤ sz
      · have hseek : seekBy sz ptr s = .ok (ptr + s) := by
          rw [seekBy, hint, ok_bind, require_of hle, ok_bind, pure_eq_ok]
        simp only [hseek, ok_bind, hnext, true_and]
        exact recordLoop_fitting hturn hs hsz st' (by omega) hle
      · have hseek : seekBy sz ptr s = .error .assertion := by
          rw [seekBy, hint, ok_bind, require, if_neg hle, error_bind]
        simp only [hseek, error_bind]
        exact iff_of_true ⟨0, Or.inr rfl⟩ ⟨hnext, fitting_end hs (by omega)⟩
    · have hseek : seekBy sz ptr s = .error .overflow := by rw [seekBy, int, if_neg (by omega), error_bind]
      simp only [hseek, error_bind, hnext, false_and, iff_false]
      rintro ⟨_, h⟩
      exact not_stops (by decide) h
  · simp only [(hturn st (ptr + 8)).outside hgood, error_bind, hgood, false_and, iff_false]
    rintro ⟨_, h⟩
    exact not_stops (by decide) h
termination_by (sz - ptr).toNat

/-- The last record ends behind the end, further than `Seek` allows. -/
def Overruns (s : Int) (sz : Nat) (ptr : Int) : Prop :=
  ∃ k : Nat, ptr + 8 + k * s < sz ∧ sz < ptr + (k + 1) * s

theorem overruns_step {ptr : Int} (h : ptr + 8 < sz) :
    Overruns s sz ptr ↔ sz < ptr + s ∨ Overruns s sz (ptr + s) := by
  have hshift (k : Nat) : ptr + s + 8 + k * s = ptr + 8 + (k + 1 : Nat) * s ∧
      ptr + s + (k + 1) * s = ptr + ((k + 1 : Nat) + 1) * s := by
    push_cast
    exact ⟨by ring, by ring⟩
  constructor
  · rintro ⟨k, hk, hend⟩
    cases k with
    | zero => exact Or.inl (by simpa using hend)
    | succ k => exact Or.inr ⟨k, (hshift k).1 ▸ hk, (hshift k).2 ▸ hend⟩
  · rintro (hend | ⟨k, hk, hend⟩)
    · exact ⟨0, by simpa using h, by simpa using hend⟩
    · exact ⟨k + 1, (hshift k).1 ▸ hk, (hshift k).2 ▸ hend⟩

theorem recordLoop_asserts_iff (hturn : ∀ st p, Reads (turn st p) (Good p)) (hs : 0 < s)
    (hsz : sz < 2 ^ 31) (st : σ) {ptr : Int} (h₀ : 0 ≤ ptr) (h₁ : ptr ≤ sz) (hf : Fitting Good s sz ptr) :
    (∃ fuel, recordLoop turn s sz fuel st ptr = .error .assertion) ↔ Overruns s sz ptr := by
  by_cases hend : sz ≤ ptr + 8
  · refine iff_of_false ?_ ?_
    · rintro ⟨fuel, h⟩
      cases fuel with
      | zero => cases h
      | succ fuel =>
          rw [recordLoop, getRemainSize_eq hsz h₀ h₁, ok_bind, if_pos (by omega)] at h
          cases h
    · rintro ⟨k, hk, -⟩
      have : 0 ≤ (k : Int) * s := Int.mul_nonneg (Int.natCast_nonneg k) hs.le
      omega
  · obtain ⟨⟨hgood, hnext⟩, hrest⟩ := (fitting_step (by omega)).mp hf
    obtain ⟨st', hst⟩ := (hturn st (ptr + 8)).inside hgood
    have hint : int (ptr + s) = .ok (ptr + s) := by rw [int, if_pos (by omega)]
    have hloop (fuel : Nat) : recordLoop turn s sz (fuel + 1) st ptr =
        (seekBy sz ptr s >>= fun ptr => recordLoop turn s sz fuel st' ptr) := by
      rw [recordLoop, getRemainSize_eq hsz h₀ h₁, ok_bind, if_neg (by omega), hst, ok_bind]
    rw [overruns_step (by omega)]
    by_cases hle : ptr + s ≤ sz
    · have hseek : seekBy sz ptr s = .ok (ptr + s) := by
        rw [seekBy, hint, ok_bind, require_of hle, ok_bind, pure_eq_ok]
      have ih := recordLoop_asserts_iff hturn hs hsz st' (by omega) hle hrest
      rw [or_iff_right (by omega), ← ih]
      constructor
      · rintro ⟨fuel, h⟩
        cases fuel with
        | zero => cases h
        | succ fuel => exact ⟨fuel, by rw [← h, hloop, hseek, ok_bind]⟩
      · rintro ⟨fuel, h⟩
        exact ⟨fuel + 1, by rw [hloop, hseek, ok_bind, h]⟩
    · have hseek : seekBy sz ptr s = .error .assertion := by
        rw [seekBy, hint, ok_bind, require, if_neg hle, error_bind]
      exact iff_of_true ⟨1, by rw [hloop, hseek, error_bind]⟩ (Or.inl (by omega))
termination_by (sz - ptr).toNat

/-- A loop stops exactly if there is nothing behind the thread id, or the step is positive
and every record that begins in the message fits. -/
theorem recordLoop_stops_iff (hturn : ∀ st p, Reads (turn st p) (Good p)) (h16 : 16 ≤ sz)
    (hsz : sz < 2 ^ 31) (st : σ) :
    (∃ fuel, Stops (recordLoop turn s sz fuel st 8)) ↔ sz = 16 ∨ 0 < s ∧ Fitting Good s sz 8 := by
  by_cases hempty : sz = 16
  · refine iff_of_true ⟨1, Or.inl ⟨(st, 8), ?_⟩⟩ (Or.inl hempty)
    rw [recordLoop, getRemainSize_eq hsz (by omega) (by omega), ok_bind, if_pos (by omega), pure_eq_ok]
  · by_cases hs : 0 < s
    · rw [recordLoop_fitting hturn hs hsz st (by omega) (by omega)]
      simp [hempty, hs]
    · refine iff_of_false ?_ (by simp [hempty, hs])
      rintro ⟨fuel, h⟩
      exact recordLoop_never hturn (by omega) (by omega) fuel st (le_refl 8) h

/-- Where the records lie that begin before the end. -/
def starts (s : Int) (sz : Nat) (ptr : Int) : List Int :=
  (List.range ((sz - ptr - 8 + s - 1) / s).toNat).map (fun k : Nat => ptr + 8 + k * s)

theorem mem_starts (hs : 0 < s) {ptr p : Int} :
    p ∈ starts s sz ptr ↔ ∃ k : Nat, ptr + 8 + k * s < sz ∧ ptr + 8 + k * s = p := by
  have hcount (k : Nat) : k < ((sz - ptr - 8 + s - 1) / s).toNat ↔ ptr + 8 + k * s < sz := by
    rw [Int.lt_toNat, ← Int.add_one_le_iff, Int.le_ediv_iff_mul_le hs, Int.add_mul]
    omega
  simp only [starts, List.mem_map, List.mem_range, hcount]

theorem starts_end (hs : 0 < s) {ptr : Int} (h : sz ≤ ptr + 8) : starts s sz ptr = [] := by
  rw [List.eq_nil_iff_forall_not_mem]
  intro p hp
  obtain ⟨k, hk, -⟩ := (mem_starts hs).mp hp
  have : 0 ≤ (k : Int) * s := Int.mul_nonneg (Int.natCast_nonneg k) hs.le
  omega

theorem starts_step (hs : 0 < s) {ptr : Int} (h : ptr + 8 < sz) :
    starts s sz ptr = (ptr + 8) :: starts s sz (ptr + s) := by
  have hcount : ((sz - ptr - 8 + s - 1) / s).toNat = ((sz - (ptr + s) - 8 + s - 1) / s).toNat + 1 := by
    have hsplit : (sz : Int) - ptr - 8 + s - 1 = (sz - (ptr + s) - 8 + s - 1) + 1 * s := by ring
    have hpos : 0 ≤ (sz - (ptr + s) - 8 + s - 1) / s := Int.ediv_nonneg (by omega) hs.le
    rw [hsplit, Int.add_mul_ediv_right _ _ hs.ne', Int.toNat_add hpos (by decide)]
    rfl
  rw [starts, hcount, List.range_succ_eq_map, List.map_cons, List.map_map, starts]
  congr 1
  · simp
  · refine List.map_congr_left fun k _ => ?_
    simp only [Function.comp_apply, Nat.cast_succ]
    ring

/-- A loop whose turns read a record and then work with it, which is never stopped by an
assertion: the records are worked with one after the other. -/
theorem recordLoop_steps_iff {ρ : Type} {read : Int → Run ρ} {step : σ → ρ → Run σ} {I : σ → Prop}
    {fits : ρ → Prop} (hread : ∀ p, Reads (read p) (Good p)) (hfits : ∀ p r, read p = .ok r → fits r)
    (hstep : ∀ st r, I st → fits r → Avoids (· = .assertion) I (step st r)) (hs : 0 < s) (hsz : sz < 2 ^ 31)
    {st : σ} (hst : I st) {ptr : Int} (h₀ : 0 ≤ ptr) (h₁ : ptr ≤ sz) (hno : ¬ Overruns s sz ptr) :
    (∃ fuel, Stops (recordLoop (fun st p => read p >>= step st) s sz fuel st ptr)) ↔
      (∀ p ∈ starts s sz ptr, Good p) ∧
        ∃ st', ((starts s sz ptr).filterMap fun p => (read p).toOption).foldlM step st = .ok st' := by
  by_cases hend : sz ≤ ptr + 8
  · rw [starts_end hs hend]
    refine iff_of_true ⟨1, Or.inl ⟨(st, ptr), ?_⟩⟩ ⟨fun p hp => absurd hp List.not_mem_nil, st, rfl⟩
    rw [recordLoop, getRemainSize_eq hsz h₀ h₁, ok_bind, if_pos (by omega), pure_eq_ok]
  · rw [overruns_step (by omega), not_or] at hno
    have hseek : seekBy sz ptr s = .ok (ptr + s) := by
      rw [seekBy, int, if_pos (by omega), ok_bind, require_of (by omega), ok_bind, pure_eq_ok]
    rw [recordLoop_unroll hsz st h₀ (by omega), starts_step hs (by omega), List.forall_mem_cons]
    by_cases hgood : Good (ptr + 8)
    · obtain ⟨r, hr⟩ := (hread (ptr + 8)).inside hgood
      have hnext := hstep st r hst (hfits _ r hr)
      rw [List.filterMap_cons_some (b := r) (by rw [hr]; rfl), List.foldlM_cons]
      simp only [hr, ok_bind, hseek, hgood, true_and]
      cases hrun : step st r with
      | error e =>
          rw [hrun] at hnext
          simp only [error_bind]
          refine iff_of_false ?_ ?_
          · rintro ⟨_, h⟩
            exact not_stops hnext h
          · rintro ⟨-, _, h⟩
            cases h
      | ok st' =>
          rw [hrun] at hnext
          simp only [ok_bind]
          exact recordLoop_steps_iff hread hfits hstep hs hsz hnext (by omega) (by omega) hno.2
    · simp only [(hread (ptr + 8)).outside hgood, error_bind, hgood, false_and, iff_false]
      rintro ⟨_, h⟩
      exact not_stops (by decide) h
termination_by (sz - ptr).toNat

theorem recordLoop_mono {fuel fuel' : Nat} (hle : fuel ≤ fuel') {st : σ} {ptr : Int}
    (h : recordLoop turn s sz fuel st ptr ≠ .error .outOfFuel) :
    recordLoop turn s sz fuel' st ptr = recordLoop turn s sz fuel st ptr := by
  induction fuel generalizing fuel' st ptr with
  | zero => exact absurd rfl h
  | succ fuel ih =>
      obtain ⟨fuel', rfl⟩ := Nat.exists_eq_succ_of_ne_zero (show fuel' ≠ 0 by omega)
      rw [recordLoop] at h ⊢
      rw [recordLoop]
      cases hremain : getRemainSize sz ptr with
      | error e => rfl
      | ok remain =>
          rw [hremain, ok_bind] at h
          rw [ok_bind, ok_bind]
          by_cases hend : remain ≤ 0
          · rw [if_pos hend, if_pos hend]
          · rw [if_neg hend] at h
            rw [if_neg hend, if_neg hend]
            cases hst : turn st (ptr + 8) with
            | error e => rfl
            | ok st' =>
                rw [hst, ok_bind] at h
                rw [ok_bind, ok_bind]
                cases hseek : seekBy sz ptr s with
                | error e => rfl
                | ok next =>
                    rw [hseek, ok_bind] at h
                    exact ih (Nat.le_of_succ_le_succ hle) h

end Loop

/-- Where the positions are `int` the loop of `GetProfileData` is that of a table without
negative offsets. -/
theorem askLoop_eq {info : MemberOffsets} {o : Offsets}
    (hname : getMemberOffsetOf info "pdata.nameid" = o.nameid)
    (hsize : getMemberOffsetOf info "pdata.record_size" = o.recordSize) (fuel : Nat)
    (b : Framing.MessageBuf) (a : Asked) (h₀ : 0 ≤ b.ptr) (h₁ : b.ptr ≤ b.buf.length)
    (hfit : b.buf.length + o.recordSize < 2 ^ 31) :
    askLoop info b.buf fuel a b.ptr = (askRecords o fuel b a).map (fun r => (r.2, r.1.ptr)) := by
  induction fuel generalizing b a with
  | zero => rfl
  | succ fuel ih =>
      have hremain := getRemainSize_eq (show b.buf.length < 2 ^ 31 by omega) h₀ h₁
      rw [askLoop, recordLoop, hremain, ok_bind, askRecords]
      by_cases hend : (b.buf.length : Int) - b.ptr - 8 ≤ 0
      · have heof : isEOF b = true := decide_eq_true hend
        rw [if_pos hend, if_pos heof]
        rfl
      · have heof : isEOF b = false := decide_eq_false hend
        rw [if_neg hend, if_neg (by rw [heof]; decide)]
        have hobject : object 8 b.buf (b.ptr + 8 + getMemberOffsetOf info "pdata.nameid") =
            cellWord 8 (b.ptr.toNat + 8 + o.nameid) b.buf := by
          rw [hname, object, if_neg (by omega)]
          congr 1
          omega
        simp only [askTurn, hobject]
        cases hread : cellWord 8 (b.ptr.toNat + 8 + o.nameid) b.buf with
        | error e => rfl
        | ok nameid =>
            simp only [ok_bind, pure_eq_ok, seekBy, seek, hsize]
            rw [int, if_pos (by omega), ok_bind]
            by_cases hle : b.ptr + o.recordSize ≤ b.buf.length
            · simp only [require_of hle, ok_bind]
              have hrest :=
                ih { b with ptr := b.ptr + o.recordSize } (askName a nameid) (by dsimp only; omega) hle hfit
              rw [askLoop, hsize] at hrest
              exact hrest
            · simp only [require, if_neg hle, error_bind]
              rfl

end Llprof.Wire.RecordWalk
