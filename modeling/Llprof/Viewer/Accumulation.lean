import Llprof.Foundations.Doubles
import Mathlib.Data.List.Basic

namespace Llprof.Viewer.Accumulation

open Doubles

/-- An entry of `g_metadata`. -/
structure Metadata where
  flags : String
  deriving DecidableEq, Repr

def Metadata.isStatic (md : Metadata) : Bool := md.flags.toList.contains 'S'

/-- What the functions read of a thread. A property that it lacks is `undefined`. -/
structure Thread where
  id : Option Nat
  nowValues : Option (List Double)
  startValues : Option (List Double)
  deriving DecidableEq, Repr

structure ProfiledNode where
  id : Nat
  pid : Nat
  name : String
  all : List Double
  cld : List Double
  running : Bool
  deriving DecidableEq, Repr

/-- An element as a number, which `undefined` is not. -/
def element (xs : List Double) (i : Nat) : Double := xs.getD i .nan

/-- An assignment to an element, also behind the last one. -/
def assign (xs : List Double) (i : Nat) (v : Double) : List Double :=
  if i < xs.length then xs.set i v else xs ++ List.replicate (i - xs.length) .nan ++ [v]

section Values

variable (realTime : Bool) (thread : Option Thread)

/-- The start of a running node, which a selected time may cut off. Here and below `none` is
an exception: a property of `undefined` is read. -/
def startTime (time : Double) : Option Double :=
  if realTime then some time
  else thread.map fun thread =>
    match thread.startValues with
    | some start => if time < element start 1 then element start 1 else time
    | none => time

/-- The last statement of `get_profile_value_all`. -/
def withinSlice (val : Double) : Option Double :=
  if realTime then some val
  else thread.map fun thread =>
    match thread.startValues, thread.nowValues with
    | some start, some now => if element now 1 - element start 1 <
      val then element now 1 - element start 1 else val
    | _, _ => val

def getProfileValueAll (node : ProfiledNode) (index : Nat) : Option Double :=
  if index ≠ 0 then some (element node.all index)
  else if node.running then
    if element node.all 1 = 0 then some (element node.all 0)
    else do
      let start ← startTime realTime thread (element node.all 1)
      let now ← thread.bind Thread.nowValues
      withinSlice realTime thread (element node.all 0 + (element now 1 - start))
  else withinSlice realTime thread (element node.all 0)

end Values

def getProfileValueCld (node : ProfiledNode) (index : Nat) : Double := element node.cld index

structure Totals where
  all : List Double
  cld : List Double
  deriving DecidableEq, Repr

def accumurateSlot (metadata : List Metadata) (realTime : Bool) (thread : Option Thread)
    (src : ProfiledNode) (dest : Totals) (i : Nat) : Option Totals := do
  let md ← metadata[i]?
  let all ← getProfileValueAll realTime thread src i
  let cld := getProfileValueCld src i
  if md.isStatic then return ⟨assign dest.all i all, assign dest.cld i cld⟩
  else return ⟨assign dest.all i (element dest.all i + all), assign dest.cld i (element dest.cld i + cld)⟩

/-- A loop that an exception leaves: what it has written, and whether it was left. -/
def loop {σ : Type} (body : σ → Nat → Option σ) : List Nat → σ → σ × Bool
  | [], s => (s, false)
  | i :: is, s =>
      match body s i with
      | some s => loop body is s
      | none => (s, true)

def accumurate (metadata : List Metadata) (realTime : Bool) (dest : Totals) (src : ProfiledNode)
    (thread : Option Thread) : Totals × Bool :=
  loop (accumurateSlot metadata realTime thread src) (List.range src.all.length) dest

def Totals.zero (metadata : List Metadata) : Totals :=
  ⟨List.replicate metadata.length 0, List.replicate metadata.length 0⟩

structure Totals.Sized (metadata : List Metadata) (t : Totals) : Prop where
  all : t.all.length = metadata.length
  cld : t.cld.length = metadata.length

theorem Totals.sized_zero (metadata : List Metadata) : (zero metadata).Sized metadata :=
  ⟨List.length_replicate, List.length_replicate⟩

theorem Totals.element_zero {metadata : List Metadata} {i : Nat} (h : i < metadata.length) :
    element (zero metadata).all i = 0 := by
  rw [element, zero, List.getD_eq_getElem?_getD, List.getElem?_replicate, if_pos h, Option.getD_some]

variable {metadata : List Metadata} {realTime : Bool} {thread : Option Thread}
  {src : ProfiledNode} {dest dest' : Totals} {xs : List Double} {i : Nat} {v : Double}

theorem length_assign (h : i < xs.length) (v : Double) : (assign xs i v).length = xs.length := by
  rw [assign, if_pos h, List.length_set]

theorem element_assign (h : i < xs.length) (v : Double) (j : Nat) :
    element (assign xs i v) j = if j = i then v else element xs j := by
  rw [assign, if_pos h, element, element, List.getD_eq_getElem?_getD,
    List.getD_eq_getElem?_getD, List.getElem?_set]
  by_cases hj : j = i
  · subst hj
    rw [if_pos rfl, if_pos rfl, if_pos h, Option.getD_some]
  · rw [if_neg hj, if_neg (Ne.symm hj)]

section Loop

variable {σ : Type} {body : σ → Nat → Option σ} {s : σ} {P : σ → Prop}

theorem loop_keeps {is : List Nat} (hs : P s) (hbody : ∀ i ∈ is, ∀ s s', P s → body s i = some s' → P s') :
    P (loop body is s).1 := by
  induction is generalizing s with
  | nil => exact hs
  | cons i is ih =>
      rw [List.forall_mem_cons] at hbody
      rw [loop]
      cases hi : body s i with
      | none => exact hs
      | some s' => exact ih (hbody.1 s s' hs hi) hbody.2

theorem loop_total (body : σ → Nat → Option σ) (P : Nat → σ → Prop) (n : Nat) (hs : P 0 s)
    (hbody : ∀ i s, i < n → P i s → ∃ s', body s i = some s' ∧ P (i + 1) s') :
    ∃ s', loop body (List.range n) s = (s', false) ∧ P n s' := by
  have hfrom (k m : Nat) (s : σ) (hkm : k + m ≤ n) (hk : P k s) : ∃ s',
      loop body (List.range' k m) s = (s', false) ∧ P (k + m) s' := by
    induction m generalizing k s with
    | zero => exact ⟨s, rfl, hk⟩
    | succ m ih =>
        obtain ⟨s₁, h₁, hk₁⟩ := hbody k s (by omega) hk
        obtain ⟨s', h', hm⟩ := ih (k + 1) s₁ (by omega) hk₁
        refine ⟨s', ?_, ?_⟩
        · rw [List.range'_succ, loop, h₁]
          exact h'
        · rwa [Nat.add_right_comm, Nat.add_assoc] at hm
  obtain ⟨s', h', hn⟩ := hfrom 0 n s (by omega) hs
  rw [List.range_eq_range']
  exact ⟨s', h', by rwa [Nat.zero_add] at hn⟩

end Loop

theorem accumurateSlot_some (h : accumurateSlot metadata realTime thread src dest i = some dest') :
    ∃ md all, metadata[i]? = some md ∧ getProfileValueAll realTime thread src i = some all ∧
      dest' = ⟨assign dest.all i (if md.isStatic then all else element dest.all i + all),
        assign dest.cld i (if md.isStatic then getProfileValueCld src i else element dest.cld i +
          getProfileValueCld src i)⟩ := by
  obtain ⟨md, hmd, h⟩ := Option.bind_eq_some_iff.mp h
  obtain ⟨all, hall, h⟩ := Option.bind_eq_some_iff.mp h
  refine ⟨md, all, hmd, hall, ?_⟩
  dsimp only at h
  split at h
  next hs =>
    rw [if_pos hs, if_pos hs]
    exact (Option.some.inj h).symm
  next hs =>
    rw [if_neg hs, if_neg hs]
    exact (Option.some.inj h).symm

theorem accumurate_sized (hd : dest.Sized metadata) :
    (accumurate metadata realTime dest src thread).1.Sized metadata := by
  refine loop_keeps hd fun i _ dest dest' hd h => ?_
  obtain ⟨md, all, hmd, -, rfl⟩ := accumurateSlot_some h
  have hlt : i < metadata.length := (List.getElem?_eq_some_iff.mp hmd).1
  exact ⟨by rw [length_assign (hd.all.symm ▸ hlt), hd.all], by rw [length_assign (hd.cld.symm ▸ hlt), hd.cld]⟩

/-- The numbers of an update are those of 64-bit integers, and the times of a running node
are there. -/
structure Timed (thread : Thread) (node : ProfiledNode) : Prop where
  all : ∀ v ∈ node.all, v.Within 63
  now : ∀ now, thread.nowValues = some now → ∀ v ∈ now, v.Within 63
  start : ∀ start, thread.startValues = some start → ∀ v ∈ start, v.Within 63
  times : node.running = true → 0 < node.all.length →
    2 ≤ node.all.length ∧ ∀ now, thread.nowValues = some now → element node.all 1 = 0 ∨ 2 ≤ now.length

theorem element_of_lt (h : i < xs.length) : element xs i = xs[i] := by
  rw [element, List.getD_eq_getElem?_getD, List.getElem?_eq_getElem h, Option.getD_some]

theorem element_of_ne_nan (h : element xs i ≠ .nan) : i < xs.length := by
  by_contra hi
  rw [element, List.getD_eq_getElem?_getD, List.getElem?_eq_none (Nat.not_lt.mp hi)] at h
  exact h rfl

theorem within_element (hxs : ∀ v ∈ xs, v.Within 63) (h : i < xs.length) : (element xs i).Within 63 := by
  rw [element_of_lt h]
  exact hxs _ (List.getElem_mem h)

theorem ne_nan_of_lt {a b : Double} (h : a < b) : a ≠ .nan ∧ b ≠ .nan := by
  constructor
  · rintro rfl
    cases h
  · rintro rfl
    cases a <;> cases h

theorem withinSlice_within {thread : Thread} {node : ProfiledNode} (ht : Timed thread node)
    (hv : v.Within 65) {val : Double}
    (h : withinSlice realTime (some thread) v = some val) : val.Within 65 := by
  rw [withinSlice] at h
  split at h
  · exact Option.some.inj h ▸ hv
  · rw [Option.map_some, Option.some.injEq] at h
    subst h
    split
    next start now hstart hnow =>
      split
      next hless =>
        have hne := (ne_nan_of_lt hless).1
        have hnow1 : 1 < now.length := by
          refine element_of_ne_nan fun he => hne ?_
          rw [he]
          rfl
        have hstart1 : 1 < start.length := by
          refine element_of_ne_nan fun he => hne ?_
          rw [he]
          cases element now 1 <;> rfl
        exact ((within_element (ht.now now hnow) hnow1).sub (within_element (ht.start start hstart) hstart1)
          (by decide) (by decide)).mono (by decide)
      next => exact hv
    next => exact hv

theorem startTime_within {thread : Thread} {node : ProfiledNode} (ht : Timed thread node)
    (hv : v.Within 63) {start : Double}
    (h : startTime realTime (some thread) v = some start) : start.Within 63 := by
  rw [startTime] at h
  split at h
  · exact Option.some.inj h ▸ hv
  · rw [Option.map_some, Option.some.injEq] at h
    subst h
    split
    next start hstart =>
      split
      next hless => exact within_element (ht.start start hstart) (element_of_ne_nan (ne_nan_of_lt hless).2)
      next => exact hv
    next => exact hv

theorem getProfileValueAll_within {thread : Thread} {node : ProfiledNode} (ht : Timed thread node)
    (h₀ : 0 < node.all.length) {val : Double}
    (h : getProfileValueAll realTime (some thread) node 0 = some val) : val.Within 65 := by
  have hall := within_element ht.all h₀
  rw [getProfileValueAll, if_neg (not_not_intro rfl)] at h
  split at h
  next hr =>
    obtain ⟨hlen, hnow⟩ := ht.times hr h₀
    have htime := within_element ht.all (show 1 < node.all.length by omega)
    split at h
    next => exact Option.some.inj h ▸ hall.mono (by decide)
    next hzero =>
      obtain ⟨start, hstart, h⟩ := Option.bind_eq_some_iff.mp h
      obtain ⟨now, hnows, h⟩ := Option.bind_eq_some_iff.mp h
      rw [Option.bind_some] at hnows
      have hnow1 := within_element (ht.now now hnows) ((hnow now hnows).resolve_left hzero)
      have hran := hnow1.sub (startTime_within ht htime hstart) (by decide) (by decide)
      exact withinSlice_within ht ((hall.mono (by decide)).add_same hran (by decide) (by decide)) h
  next => exact withinSlice_within ht (hall.mono (by decide)) h

def Counted (t : Totals) : Prop := 0 < t.all.length ∧ (element t.all 0).Within 119

theorem counted_zero (h : metadata ≠ []) : Counted (Totals.zero metadata) := by
  have hpos := List.length_pos_iff.mpr h
  refine ⟨by rwa [(Totals.sized_zero metadata).all], ?_⟩
  rw [Totals.element_zero hpos]
  exact ⟨0, rfl, Nat.zero_le _⟩

theorem element_assign_ne {j : Nat} (h : j < xs.length) (hj : j ≠ i) (v : Double) :
    element (assign xs i v) j = element xs j := by
  by_cases hi : i < xs.length
  · rw [element_assign hi, if_neg hj]
  · rw [assign, if_neg hi, List.append_assoc, element, element, List.getD_eq_getElem?_getD,
      List.getElem?_append_left h, List.getD_eq_getElem?_getD]

theorem length_le_assign (xs : List Double) (i : Nat) (v : Double) : xs.length ≤ (assign xs i v).length := by
  by_cases hi : i < xs.length
  · rw [length_assign hi]
  · rw [assign, if_neg hi, List.append_assoc, List.length_append]
    exact Nat.le_add_right _ _

theorem accumurate_counted {thread : Thread} {node : ProfiledNode}
    (ht : Timed thread node) (hd : Counted dest) :
    Counted (accumurate metadata realTime dest node (some thread)).1 := by
  refine loop_keeps hd fun i hi dest dest' ⟨hpos, hd⟩ h => ?_
  obtain ⟨md, all, -, hall, rfl⟩ := accumurateSlot_some h
  refine ⟨hpos.trans_le (length_le_assign _ _ _), ?_⟩
  by_cases h₀ : i = 0
  · subst h₀
    have hval := getProfileValueAll_within ht (List.mem_range.mp hi) hall
    rw [element_assign hpos, if_pos rfl]
    split
    · exact hval.mono (by decide)
    · exact hd.add hval (by decide) (by decide) (by decide)
  · rw [element_assign_ne hpos (Ne.symm h₀)]
    exact hd

theorem getProfileValueAll_realTime (thread : Option Thread) (hr : src.running = false) (i : Nat) :
    getProfileValueAll true thread src i = some (element src.all i) := by
  rw [getProfileValueAll]
  by_cases h₀ : i = 0
  · subst h₀
    rw [if_neg (not_not_intro rfl), if_neg (by rw [hr]; decide)]
    rfl
  · rw [if_pos h₀]

theorem accumurate_adds (src : ProfiledNode) (thread : Option Thread) (hd : dest.Sized metadata)
    (hall : src.all.length = metadata.length) (hr : src.running = false) :
    ∃ t, accumurate metadata true dest src thread = (t, false) ∧ t.Sized metadata ∧
      ∀ i md, metadata[i]? = some md → md.isStatic = false →
        element t.all i = element dest.all i + element src.all i := by
  obtain ⟨t, ht, hsized, hadds⟩ := loop_total (accumurateSlot metadata true thread src) (s := dest)
    (fun n t => t.Sized metadata ∧ ∀ i md, metadata[i]? = some md → md.isStatic = false →
      element t.all i = if i < n then element dest.all i + element src.all i else element dest.all i)
        src.all.length
    ⟨hd, fun i md _ _ => (if_neg (Nat.not_lt_zero i)).symm⟩
    (by
      rintro i t hi ⟨hsized, hadds⟩
      have hlt : i < metadata.length := hall ▸ hi
      have hmd : metadata[i]? = some metadata[i] := List.getElem?_eq_getElem hlt
      have hslot : ∃ t', accumurateSlot metadata true thread src t i = some t' := by
        rw [accumurateSlot, hmd, getProfileValueAll_realTime thread hr]
        dsimp only [Option.bind_eq_bind, Option.bind_some]
        split <;> exact ⟨_, rfl⟩
      obtain ⟨t', ht'⟩ := hslot
      obtain ⟨md, all, hmd', hval, rfl⟩ := accumurateSlot_some ht'
      rw [getProfileValueAll_realTime thread hr, Option.some.injEq] at hval
      subst hval
      refine ⟨_, ht', ⟨by rw [length_assign (hsized.all.symm ▸ hlt), hsized.all],
        by rw [length_assign (hsized.cld.symm ▸ hlt), hsized.cld]⟩, fun j md' hj hm => ?_⟩
      have hold := hadds j md' hj hm
      rw [element_assign (hsized.all.symm ▸ hlt)]
      by_cases hji : j = i
      · subst hji
        rw [hmd', Option.some.injEq] at hj
        rw [if_neg (Nat.lt_irrefl j)] at hold
        rw [if_pos rfl, if_pos (Nat.lt_succ_self j), hj, hm, if_neg Bool.false_ne_true, hold]
      · rw [if_neg hji, hold]
        by_cases hlt' : j < i
        · rw [if_pos hlt', if_pos (by omega)]
        · rw [if_neg hlt', if_neg (by omega)])
  refine ⟨t, ht, hsized, fun i md hi hm => ?_⟩
  have hlt : i < metadata.length := (List.getElem?_eq_some_iff.mp hi).1
  rw [hadds i md hi hm, if_pos (hall.symm ▸ hlt)]

end Llprof.Viewer.Accumulation
