import Llprof.Foundations.Stepwise
import Llprof.Wire.Framing
import Mathlib.Tactic.Linarith

namespace Llprof.Profiler.RecordVector

open Faulting LittleEndian Stepwise Wire.Network

def ALLOCATE_FACTOR : Int := 2

/-- The result of a product of two `int`s, which has to be one. -/
def times (a b : Int) : Run Int := if -2 ^ 31 ≤ a * b ∧ a * b < 2 ^ 31 then .ok (a * b) else .error .overflow

/-- `realloc` that succeeds: the old bytes as far as they fit, and bytes that were never
written. -/
def realloc (buffer : List Cell) (bytes : Nat) : List Cell :=
  buffer.take bytes ++ List.replicate (bytes - buffer.length) none

/-- `buffer_` is empty where the source has `NULL`. `allocations` is not in the source:
the numbers of elements that `buffer_` was allocated for, the last one first. -/
structure FreeStrideVector where
  stride : Int
  buffer : List Cell
  capacity : Int
  size : Int
  allocations : List Int
  deriving DecidableEq, Repr

namespace FreeStrideVector

def new : FreeStrideVector := ⟨0, [], 0, 0, []⟩

def reallocate (v : FreeStrideVector) (size : Int) : Run FreeStrideVector := do
  require (0 < v.stride) .assertion
  let bytes ← times size v.stride
  if bytes < 0 then .error .badAlloc
  else return { v with buffer := realloc v.buffer bytes.toNat, allocations := size :: v.allocations }

def setStride (v : FreeStrideVector) (stride : Int) : Run FreeStrideVector := do
  let v := { v with stride }
  require (0 < v.stride) .assertion
  require (v.allocations = []) .assertion
  return v

/-- `sizeof(T)` is added as a `size_t`, the sum is passed as an `int`. -/
def setExtraStride (sizeofT : Nat) (v : FreeStrideVector) (extraStride : Int) : Run FreeStrideVector :=
  v.setStride (toInt32 ((extraStride + sizeofT) % 2 ^ 32).toNat)

def resize (v : FreeStrideVector) (n : Int) : Run FreeStrideVector := do
  let v ← (if v.capacity < n then do
      let grown ← times v.capacity ALLOCATE_FACTOR
      if n ≤ grown then v.reallocate grown else v.reallocate n
    else .ok v)
  return { v with size := n }

def reserve (v : FreeStrideVector) (n : Int) : Run FreeStrideVector :=
  if v.capacity < n then v.reallocate n else .ok v

/-- A write of some of the bytes of `(*this)[index]`. -/
def write (v : FreeStrideVector) (index : Int) (offset : Nat) (bytes : Bytes) : Run FreeStrideVector := do
  let start ← times index v.stride
  require (0 ≤ start ∧ start + offset + bytes.length ≤ v.buffer.length) .outOfRange
  let pos := start.toNat + offset
  return { v with buffer := v.buffer.take pos ++ bytes.map some ++ v.buffer.drop (pos + bytes.length) }

/-- The bytes of an element, as far as there is memory for them. -/
def element (v : FreeStrideVector) (index : Nat) : List Cell :=
  (v.buffer.drop (index * v.stride.toNat)).take v.stride.toNat

/-- The number of elements that `buffer_` was last allocated for. -/
def allocated (v : FreeStrideVector) : Int := v.allocations.head?.getD 0

end FreeStrideVector

open FreeStrideVector

/-- The part of `new_tail_elem` that changes the vector. -/
def newTailElem (v : FreeStrideVector) : Run FreeStrideVector := v.resize (v.size + 1)

def newTailElems : Nat → FreeStrideVector → Run FreeStrideVector
  | 0, v => .ok v
  | n + 1, v => do
      let v ← newTailElem v
      newTailElems n v

inductive Op
  | reserve (n : Int)
  | resize (n : Int)
  | write (index : Int) (offset : Nat) (bytes : Bytes)
  deriving DecidableEq, Repr

namespace Op

def run (v : FreeStrideVector) : Op → Run FreeStrideVector
  | reserve n => v.reserve n
  | resize n => v.resize n
  | write index offset bytes => v.write index offset bytes

def count : Op → Int
  | reserve n | resize n => n
  | write _ _ _ => 0

def Fits (stride : Int) (op : Op) : Prop := op.count * stride < 2 ^ 31

end Op

def KnowsCapacity (done : List Op) (v : FreeStrideVector) (op : Op) : Prop :=
  ∀ v', op.run v = .ok v' →
    v'.capacity = v'.allocated ∧ v'.size ≤ v'.capacity ∧ ∀ n, Op.reserve n ∈ done ++ [op] → n ≤ v'.capacity

def StaysInPlace (_ : List Op) (v : FreeStrideVector) (op : Op) : Prop :=
  ∀ n v', op = .resize n → n ≤ v.allocated → op.run v = .ok v' → v'.allocations = v.allocations

def Doubles (_ : List Op) (v : FreeStrideVector) (op : Op) : Prop :=
  ∀ v', op = .resize (v.allocated + 1) → op.run v = .ok v' → 2 * v.allocated ≤ v'.allocated

def KeepsContents (_ : List Op) (v : FreeStrideVector) (op : Op) : Prop :=
  ∀ n v', op = .reserve n ∨ op = .resize n → op.run v = .ok v' →
    ∀ i : Nat, i < min v.size v'.size → v'.element i = v.element i

def HonoursCapacity (done : List Op) (v : FreeStrideVector) (op : Op) : Prop :=
  KnowsCapacity done v op ∧ StaysInPlace done v op ∧ Doubles done v op ∧ KeepsContents done v op

/-- `capacity_` is still zero, and the memory is that of the last allocation. -/
structure Unset (v : FreeStrideVector) : Prop where
  capacity : v.capacity = 0
  stride : 0 < v.stride
  allocated : 0 ≤ v.allocated
  length : (v.buffer.length : Int) = v.allocated * v.stride

/-- The vector after an allocation for `n` elements. -/
def grown (v : FreeStrideVector) (n : Int) : FreeStrideVector :=
  { v with buffer := realloc v.buffer (n * v.stride).toNat, allocations := n :: v.allocations }

/-- The vector after a step that asks for `n` elements. -/
def asked (v : FreeStrideVector) (n : Int) : FreeStrideVector := if 0 < n then grown v n else v

@[simp] theorem allocated_grown (v : FreeStrideVector) (n : Int) : (grown v n).allocated = n := rfl

variable {v v' : FreeStrideVector} {n : Int} {op : Op}

theorem reallocate_eq (hv : Unset v) (h₀ : 0 < n) (hfits : n * v.stride < 2 ^ 31) :
    v.reallocate n = .ok (grown v n) := by
  have hbytes : 0 < n * v.stride := Int.mul_pos h₀ hv.stride
  rw [reallocate, require_of hv.stride, ok_bind, times, if_pos (by omega), ok_bind, if_neg (by omega)]
  rfl

theorem reserve_eq (hv : Unset v) (hfits : n * v.stride < 2 ^ 31) :
    v.reserve n = .ok (asked v n) := by
  rw [reserve, hv.capacity, asked]
  split
  · next h₀ => exact reallocate_eq hv h₀ hfits
  · rfl

theorem resize_eq (hv : Unset v) (hfits : n * v.stride < 2 ^ 31) :
    v.resize n = .ok { asked v n with size := n } := by
  rw [resize, hv.capacity, asked]
  split
  · next h₀ =>
      rw [times, if_pos (by decide), ok_bind, if_neg (by omega), reallocate_eq hv h₀ hfits]
      rfl
  · rfl

theorem write_frame {index : Int} {offset : Nat} {bytes : Bytes} (h : v.write index offset bytes = .ok v') :
    ∃ buffer, v' = { v with buffer } ∧ buffer.length = v.buffer.length := by
  obtain ⟨start, -, h⟩ := bind_eq_ok.mp h
  obtain ⟨_, hin, h⟩ := bind_eq_ok.mp h
  obtain ⟨h₀, h₁⟩ := require_eq_ok.mp hin
  cases h
  refine ⟨_, rfl, ?_⟩
  simp only [List.length_append, List.length_take, List.length_drop, List.length_map]
  omega

theorem length_realloc (buffer : List Cell) (bytes : Nat) : (realloc buffer bytes).length = bytes := by
  simp only [realloc, List.length_append, List.length_take, List.length_replicate]
  omega

theorem Unset.grown (hv : Unset v) (h₀ : 0 < n) : Unset (grown v n) := by
  refine ⟨hv.capacity, hv.stride, h₀.le, ?_⟩
  have hbytes : 0 < n * v.stride := Int.mul_pos h₀ hv.stride
  simp only [RecordVector.grown, length_realloc, FreeStrideVector.allocated,
    List.head?_cons, Option.getD_some]
  omega

theorem run_cases (hv : Unset v) (hfits : op.Fits v.stride) (h : op.run v = .ok v') :
    (∃ n, op = .reserve n ∧ v' = asked v n) ∨
      (∃ n, op = .resize n ∧ v' = { asked v n with size := n }) ∨
      (∃ index offset bytes buffer, op = .write index offset bytes ∧ v' = { v with buffer } ∧
        buffer.length = v.buffer.length) := by
  cases op with
  | reserve n =>
      rw [Op.run, reserve_eq (n := n) hv hfits] at h
      cases h
      exact Or.inl ⟨n, rfl, rfl⟩
  | resize n =>
      rw [Op.run, resize_eq (n := n) hv hfits] at h
      cases h
      exact Or.inr (Or.inl ⟨n, rfl, rfl⟩)
  | write index offset bytes =>
      obtain ⟨buffer, hbuffer⟩ := write_frame h
      exact Or.inr (Or.inr ⟨index, offset, bytes, buffer, rfl, hbuffer⟩)

theorem Unset.asked (hv : Unset v) (n : Int) : Unset (asked v n) ∧ (asked v n).stride = v.stride := by
  rw [RecordVector.asked]
  split
  · next h₀ => exact ⟨hv.grown h₀, rfl⟩
  · exact ⟨hv, rfl⟩

theorem Unset.run (hv : Unset v) (hfits : op.Fits v.stride) (h : op.run v = .ok v') :
    Unset v' ∧ v'.stride = v.stride := by
  obtain ⟨n, -, rfl⟩ | ⟨n, -, rfl⟩ | ⟨_, _, _, buffer, -, rfl, hlen⟩ := run_cases hv hfits h
  · exact hv.asked n
  · obtain ⟨ha, hs⟩ := hv.asked n
    exact ⟨⟨ha.capacity, ha.stride, ha.allocated, ha.length⟩, hs⟩
  · exact ⟨⟨hv.capacity, hv.stride, hv.allocated, by rw [hlen]; exact hv.length⟩, rfl⟩

theorem drop_take_realloc {buffer : List Cell} {bytes i w : Nat}
    (h₀ : i + w ≤ buffer.length) (h₁ : i + w ≤ bytes) :
    ((realloc buffer bytes).drop i).take w = (buffer.drop i).take w := by
  rw [realloc, List.drop_append_of_le_length (by rw [List.length_take]; omega), List.take_append_of_le_length
    (by rw [List.length_drop, List.length_take]; omega), List.drop_take, List.take_take]
  congr 1
  omega

theorem element_end {i : Nat} {k : Int} (hv : Unset v) (h : i < k) :
    ((i * v.stride.toNat + v.stride.toNat : Nat) : Int) ≤ k * v.stride := by
  have hs := hv.stride
  have hle : ((i : Int) + 1) * v.stride ≤ k * v.stride := Int.mul_le_mul_of_nonneg_right (by omega) hs.le
  push_cast
  rw [Int.toNat_of_nonneg hs.le]
  linarith

theorem element_grown (hv : Unset v) {i : Nat} (h₀ : i < v.allocated) (h₁ : i < n) :
    (grown v n).element i = v.element i := by
  have hold := element_end hv h₀
  have hnew := element_end hv h₁
  rw [← hv.length] at hold
  rw [FreeStrideVector.element, FreeStrideVector.element, show (grown v n).stride = v.stride from rfl]
  exact drop_take_realloc (by omega) (by omega)

theorem element_lost (hv : Unset v) (h₀ : 0 < n) (h₁ : n < v.allocated) :
    (grown v n).element n.toNat ≠ v.element n.toNat := by
  have hs := hv.stride
  have hend := element_end (i := n.toNat) hv (k := v.allocated) (by omega)
  rw [← hv.length] at hend
  have hstart : (n * v.stride).toNat = n.toNat * v.stride.toNat := Int.toNat_mul h₀.le hs.le
  intro he
  have hlen := congrArg List.length he
  simp only [FreeStrideVector.element, grown, List.length_take, List.length_drop,
    length_realloc, hstart] at hlen
  omega

theorem asked_of_pos (h : 0 < n) : asked v n = grown v n := if_pos h

theorem asked_of_nonpos (h : n ≤ 0) : asked v n = v := if_neg (Int.not_lt.mpr h)

def NothingAsked (_ : List Op) (_ : FreeStrideVector) (op : Op) : Prop := op.count ≤ 0

def ResizesPast (_ : List Op) (v : FreeStrideVector) (op : Op) : Prop :=
  ∀ n, op = .resize n → n ≤ 0 ∨ v.allocated < n

def GrowsFromOne (_ : List Op) (v : FreeStrideVector) (op : Op) : Prop :=
  op = .resize (v.allocated + 1) → v.allocated ≤ 1

def ReservesRoom (_ : List Op) (v : FreeStrideVector) (op : Op) : Prop :=
  ∀ n, op = .reserve n → n ≤ 0 ∨ v.size ≤ n

structure Empty (done : List Op) (v : FreeStrideVector) : Prop where
  fresh : v.allocations = []
  size : v.size ≤ 0
  reserved : ∀ n, Op.reserve n ∈ done → n ≤ 0

variable {done : List Op}

theorem Empty.run (he : Empty done v) (hv : Unset v) (hfits : op.Fits v.stride) (hop : op.count ≤ 0)
    (h : op.run v = .ok v') : Empty (done ++ [op]) v' := by
  have hreserved (n : Int) (hn : Op.reserve n ∈ done ++ [op]) : n ≤ 0 := by
    rcases List.mem_append.mp hn with hn | hn
    · exact he.reserved n hn
    · cases List.mem_singleton.mp hn
      exact hop
  obtain ⟨n, rfl, rfl⟩ | ⟨n, rfl, rfl⟩ | ⟨_, _, _, buffer, -, rfl, -⟩ := run_cases hv hfits h
  · rw [asked_of_nonpos (n := n) hop]
    exact ⟨he.fresh, he.size, hreserved⟩
  · rw [asked_of_nonpos (n := n) hop]
    exact ⟨he.fresh, hop, hreserved⟩
  · exact ⟨he.fresh, he.size, hreserved⟩

theorem staysInPlace_iff (hv : Unset v) (hfits : op.Fits v.stride) :
    StaysInPlace done v op ↔ ResizesPast done v op := by
  constructor
  · rintro h n rfl
    by_contra hn
    rw [not_or, Int.not_le, Int.not_lt] at hn
    have := h n _ rfl hn.2 (resize_eq hv hfits)
    rw [asked_of_pos hn.1] at this
    exact absurd this (List.cons_ne_self n v.allocations)
  · rintro h n v' rfl hle hrun
    have hn : n ≤ 0 := (h n rfl).resolve_right (Int.not_lt.mpr hle)
    rw [Op.run, resize_eq (n := n) hv hfits, asked_of_nonpos hn] at hrun
    cases hrun
    rfl

theorem doubles_iff (hv : Unset v) (hfits : op.Fits v.stride) :
    Doubles done v op ↔ GrowsFromOne done v op := by
  have h₀ := hv.allocated
  constructor
  · rintro h rfl
    have := h _ rfl (resize_eq hv hfits)
    rw [asked_of_pos (by omega)] at this
    change 2 * v.allocated ≤ v.allocated + 1 at this
    omega
  · rintro h v' rfl hrun
    have hle := h rfl
    rw [Op.run, resize_eq (n := v.allocated + 1) hv hfits, asked_of_pos (by omega)] at hrun
    cases hrun
    change 2 * v.allocated ≤ v.allocated + 1
    omega

theorem keepsContents_iff (hv : Unset v) (hsize : v.size ≤ v.allocated) (hfits : op.Fits v.stride) :
    KeepsContents done v op ↔ ReservesRoom done v op := by
  constructor
  · rintro h n rfl
    by_contra hn
    rw [not_or, Int.not_le, Int.not_le] at hn
    have hkept := h n _ (Or.inl rfl) (reserve_eq hv hfits) n.toNat
    rw [asked_of_pos hn.1, show (grown v n).size = v.size from rfl, min_self] at hkept
    exact element_lost hv hn.1 (by omega) (hkept (by omega))
  · rintro h n v' (rfl | rfl) hrun i hi
    · rw [Op.run, reserve_eq (n := n) hv hfits] at hrun
      cases hrun
      rcases le_or_gt n 0 with hn | hn
      · rw [asked_of_nonpos hn]
      · rw [asked_of_pos hn, show (grown v n).size = v.size from rfl, min_self] at *
        have hroom := (h n rfl).resolve_left (by omega)
        exact element_grown hv (by omega) (by omega)
    · rw [Op.run, resize_eq (n := n) hv hfits] at hrun
      cases hrun
      change (i : Int) < min v.size n at hi
      rw [lt_min_iff] at hi
      rw [asked_of_pos (by omega)]
      exact element_grown hv (by omega) hi.2

/-- A step that asks for elements finds out that `capacity_` does not know of them. -/
theorem honoursCapacity_iff (hv : Unset v) (he : Empty done v) (hfits : op.Fits v.stride) :
    HonoursCapacity done v op ↔ NothingAsked done v op := by
  have halloc : v.allocated = 0 := by rw [FreeStrideVector.allocated, he.fresh]; rfl
  constructor
  · rintro ⟨h, -⟩
    by_contra hop
    rw [NothingAsked, Int.not_le] at hop
    have hgrown (v' : FreeStrideVector) (hrun : op.run v = .ok v') : v'.allocated = 0 := by
      rw [← (h v' hrun).1]
      exact (hv.run hfits hrun).1.capacity
    cases op with
    | reserve n =>
        have := hgrown _ (reserve_eq hv hfits)
        rw [asked_of_pos (n := n) hop, allocated_grown] at this
        exact hop.ne' this
    | resize n =>
        have := hgrown _ (resize_eq hv hfits)
        rw [asked_of_pos (n := n) hop] at this
        exact hop.ne' this
    | write index offset bytes => exact absurd hop (lt_irrefl 0)
  · intro hop
    refine ⟨fun v' hrun => ?_, (staysInPlace_iff hv hfits).mpr ?_, (doubles_iff hv hfits).mpr ?_,
      (keepsContents_iff hv (by rw [halloc]; exact he.size) hfits).mpr ?_⟩
    · have he' := he.run hv hfits hop hrun
      have hcap := (hv.run hfits hrun).1.capacity
      rw [hcap, FreeStrideVector.allocated, he'.fresh]
      exact ⟨rfl, he'.size, he'.reserved⟩
    · rintro n rfl
      exact Or.inl hop
    · intro _
      omega
    · rintro n rfl
      exact Or.inl hop

theorem unset_new {sizeofT : Nat} {extraStride : Int} (h : new.setExtraStride sizeofT extraStride = .ok v) :
    Unset v ∧ v.allocations = [] ∧ v.size = 0 := by
  obtain ⟨_, hstride, h⟩ := bind_eq_ok.mp h
  obtain ⟨_, -, h⟩ := bind_eq_ok.mp h
  cases h
  exact ⟨⟨rfl, require_eq_ok.mp hstride, le_refl 0, (Int.zero_mul _).symm⟩, rfl, rfl⟩

theorem size_le_allocated (hv : Unset v) (hsize : v.size ≤ v.allocated) (hfits : op.Fits v.stride)
    (hop : ReservesRoom done v op) (h : op.run v = .ok v') : v'.size ≤ v'.allocated := by
  obtain ⟨n, rfl, rfl⟩ | ⟨n, -, rfl⟩ | ⟨_, _, _, buffer, -, rfl, -⟩ := run_cases hv hfits h
  · rcases le_or_gt n 0 with hn | hn
    · rw [asked_of_nonpos hn]
      exact hsize
    · rw [asked_of_pos hn]
      exact (hop n rfl).resolve_left (Int.not_le.mpr hn)
  · rcases le_or_gt n 0 with hn | hn
    · rw [asked_of_nonpos hn]
      exact hn.trans hv.allocated
    · rw [asked_of_pos hn]
      exact le_refl n
  · exact hsize

theorem newTailElems_allocate (k : Nat) (hv : Unset v) (h₀ : 0 ≤ v.size)
    (hfits : (v.size + k) * v.stride < 2 ^ 31) :
    ∃ v', newTailElems k v = .ok v' ∧ v'.size = v.size + k ∧
      v'.allocations.length = v.allocations.length + k := by
  induction k generalizing v with
  | zero => exact ⟨v, rfl, (Int.add_zero _).symm, rfl⟩
  | succ k ih =>
      have hs := hv.stride
      have hone : (v.size + 1) * v.stride ≤ (v.size + (k + 1 : Nat)) * v.stride :=
        Int.mul_le_mul_of_nonneg_right (by omega) hs.le
      have hstep : newTailElem v = .ok { asked v (v.size + 1) with size := v.size + 1 } :=
        resize_eq hv (by omega)
      obtain ⟨ha, has⟩ := hv.asked (v.size + 1)
      have hroom : (v.size + 1 + k) * (asked v (v.size + 1)).stride < 2 ^ 31 := by
        rw [has]
        push_cast at hfits
        linarith
      obtain ⟨v', hrun, hsize, hlen⟩ := ih (v := { asked v (v.size + 1) with size := v.size + 1 })
        ⟨ha.capacity, ha.stride, ha.allocated, ha.length⟩ (by dsimp only; omega) hroom
      refine ⟨v', by rw [newTailElems, hstep, ok_bind, hrun], ?_, ?_⟩
      · dsimp only at hsize
        push_cast
        omega
      · rw [hlen, asked_of_pos (by omega), show (grown v (v.size + 1)).allocations.length = v.allocations.length + 1 from rfl]
        omega

/-- The vector honours its capacity exactly as long as nothing is asked for. The three
other parts hold longer: nothing moves exactly if every growth leads past the memory, one
element more doubles a memory of at most one element, and the contents are kept exactly if
no `reserve` asks for fewer elements than there are. -/
theorem honours_capacity_iff (sizeofT : Nat) (extraStride : Int) (v : FreeStrideVector)
    (h : new.setExtraStride sizeofT extraStride = .ok v) (ops : List Op)
    (hfits : ∀ op ∈ ops, op.Fits v.stride) :
    (Throughout Op.run HonoursCapacity v ops ↔ Throughout Op.run NothingAsked v ops) ∧
      (Throughout Op.run StaysInPlace v ops ↔ Throughout Op.run ResizesPast v ops) ∧
      (Throughout Op.run Doubles v ops ↔ Throughout Op.run GrowsFromOne v ops) ∧
      (Throughout Op.run KeepsContents v ops ↔ Throughout Op.run ReservesRoom v ops) := by
  obtain ⟨hv, hfresh, hsize⟩ := unset_new h
  have hnext {u u' : FreeStrideVector} {op : Op} (hmem : op ∈ ops) (hu : Unset u ∧ u.stride = v.stride)
      (hrun : op.run u = .ok u') : Unset u' ∧ u'.stride = v.stride := by
    obtain ⟨hu', hs⟩ := hu.1.run (hu.2 ▸ hfits op hmem) hrun
    exact ⟨hu', hs.trans hu.2⟩
  refine ⟨?_, ?_, ?_, ?_⟩
  · refine throughout_iff (I := fun done u => (Unset u ∧ u.stride = v.stride) ∧ Empty done u)
      ⟨⟨hv, rfl⟩, hfresh, hsize.le, fun _ hn => absurd hn List.not_mem_nil⟩ ?_ ?_
    · rintro done u op u' hmem ⟨hu, he⟩ hop hrun
      exact ⟨hnext hmem hu hrun, he.run hu.1 (hu.2 ▸ hfits op hmem) hop hrun⟩
    · rintro done u op hmem ⟨hu, he⟩
      exact honoursCapacity_iff hu.1 he (hu.2 ▸ hfits op hmem)
  · exact throughout_iff (I := fun _ u => Unset u ∧ u.stride = v.stride) ⟨hv, rfl⟩
      (fun _ _ _ _ hmem hu _ hrun => hnext hmem hu hrun) (fun _ _ op hmem hu =>
        staysInPlace_iff hu.1 (hu.2 ▸ hfits op hmem))
  · exact throughout_iff (I := fun _ u => Unset u ∧ u.stride = v.stride) ⟨hv, rfl⟩
      (fun _ _ _ _ hmem hu _ hrun => hnext hmem hu hrun) (fun _ _ op hmem hu =>
        doubles_iff hu.1 (hu.2 ▸ hfits op hmem))
  · refine throughout_iff (I := fun _ u => (Unset u ∧ u.stride = v.stride) ∧ u.size ≤ u.allocated)
      ⟨⟨hv, rfl⟩, by rw [hsize, FreeStrideVector.allocated, hfresh]; rfl⟩ ?_ ?_
    · rintro done u op u' hmem ⟨hu, hle⟩ hop hrun
      exact ⟨hnext hmem hu hrun, size_le_allocated hu.1 hle (hu.2 ▸ hfits op hmem) hop hrun⟩
    · rintro done u op hmem ⟨hu, hle⟩
      exact keepsContents_iff hu.1 hle (hu.2 ▸ hfits op hmem)

instance (done : List Op) (v : FreeStrideVector) : (op : Op) → Decidable (ResizesPast done v op)
  | .resize n => decidable_of_iff (n ≤ 0 ∨ v.allocated < n) ⟨fun h _ he =>
    Op.resize.inj he ▸ h, fun h => h n rfl⟩
  | .reserve _ | .write .. => .isTrue (fun _ he => by cases he)

instance (done : List Op) (v : FreeStrideVector) (op : Op) : Decidable (GrowsFromOne done v op) :=
  inferInstanceAs (Decidable (_ → _))

instance (done : List Op) (v : FreeStrideVector) : (op : Op) → Decidable (ReservesRoom done v op)
  | .reserve n => decidable_of_iff (n ≤ 0 ∨ v.size ≤ n) ⟨fun h _ he =>
    Op.reserve.inj he ▸ h, fun h => h n rfl⟩
  | .resize _ | .write .. => .isTrue (fun _ he => by cases he)

def emptiedOps : List Op := [.resize 1, .write 0 0 [7], .resize 2, .write 1 15 [8], .resize 0, .reserve 3]
def shrunkOps : List Op := [.reserve 2, .resize 4, .write 2 0 [7, 8], .resize 1, .write 0 8 [9], .reserve 2]

theorem honours_capacity_parts :
    (Throughout Op.run StaysInPlace ⟨16, [], 0, 0, []⟩ emptiedOps ∧
      Throughout Op.run Doubles ⟨16, [], 0, 0, []⟩ emptiedOps ∧
      Throughout Op.run KeepsContents ⟨16, [], 0, 0, []⟩ emptiedOps) ∧
    (¬ Throughout Op.run HonoursCapacity ⟨16, [], 0, 0, []⟩ shrunkOps ∧
      ¬ Throughout Op.run StaysInPlace ⟨16, [], 0, 0, []⟩ shrunkOps ∧
        Throughout Op.run Doubles ⟨16, [], 0, 0, []⟩ shrunkOps ∧
      Throughout Op.run KeepsContents ⟨16, [], 0, 0, []⟩ shrunkOps) := by
  obtain ⟨-, hstays, hdoubles, hkeeps⟩ := honours_capacity_iff 8 8 ⟨16, [], 0, 0, []⟩ rfl emptiedOps
    (by simp [emptiedOps, Op.Fits, Op.count])
  obtain ⟨hhonours', hstays', hdoubles', hkeeps'⟩ := honours_capacity_iff 8 8 ⟨16, [], 0, 0, []⟩ rfl shrunkOps
    (by simp [shrunkOps, Op.Fits, Op.count])
  refine ⟨⟨hstays.mpr (by decide +kernel), hdoubles.mpr (by decide +kernel), hkeeps.mpr (by decide +kernel)⟩,
    ?_, mt hstays'.mp (by decide +kernel), hdoubles'.mpr (by decide +kernel), hkeeps'.mpr (by decide +kernel)⟩
  intro h
  exact absurd (hhonours'.mp h [] _ _ _ rfl rfl) (show ¬ (2 : Int) ≤ 0 by decide)

/-- The constructor of a thread: a table of 1024 records of 16 bytes is reserved and then
replaced by one of a single record. -/
theorem reserve_forgotten :
    new.setExtraStride 8 8 = .ok ⟨16, [], 0, 0, []⟩ ∧
      (∀ op ∈ [Op.reserve 1024, Op.resize 1], op.Fits 16) ∧
      ¬ Throughout Op.run HonoursCapacity ⟨16, [], 0, 0, []⟩ [.reserve 1024, .resize 1] ∧
      ([Op.reserve 1024, Op.resize 1].foldlM Op.run ⟨16, [], 0, 0, []⟩).toOption.any
        (fun v => v.capacity = 0 ∧ v.allocations = [1, 1024] ∧ v.buffer.length = 16) = true := by
  refine ⟨rfl, by simp [Op.Fits, Op.count], fun h => ?_, by decide +kernel⟩
  have hrun : Op.run ⟨16, [], 0, 0, []⟩ (.reserve 1024) = .ok (grown ⟨16, [], 0, 0, []⟩ 1024) :=
    reserve_eq ⟨rfl, by decide, by decide, by decide⟩ (by decide)
  have hknows := (h [] (.reserve 1024) [.resize 1] _ rfl rfl).1 _ hrun
  exact absurd hknows.1 (by decide)

end Llprof.Profiler.RecordVector
