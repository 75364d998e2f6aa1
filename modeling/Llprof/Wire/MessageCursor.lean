import Llprof.Foundations.Stepwise
import Llprof.Wire.RecordWalk
import Llprof.Wire.WholeMessages

namespace Llprof.Wire.MessageCursor

open Faulting LittleEndian Stepwise Network Framing ProfileData RecordWalk WholeMessages

/-- The `w` bytes that a pointer into the buffer points to. -/
def bytesAt (w : Nat) (buf : List Cell) (p : Int) : Run (List Cell) :=
  if 0 ≤ p ∧ p + w ≤ buf.length then .ok ((buf.drop p.toNat).take w) else .error .outOfRange

def setCurrentPtr (b : MessageBuf) (val : Int) : MessageBuf := { b with ptr := val }

/-- The pointer that the read uses counts from the body, `sz_` from the header. -/
def getCurrentBufPtr (b : MessageBuf) : Int := b.ptr + 8

def seek (b : MessageBuf) (offset : Int) : Run MessageBuf := do
  let ptr ← seekBy b.buf.length b.ptr offset
  return { b with ptr }

/-- `Get<T>` for a type of `w` bytes. Its assertion is a comparison of unsigned numbers. -/
def get (w : Nat) (b : MessageBuf) : Run (List Cell × MessageBuf) := do
  require ((w + b.ptr) % 2 ^ 64 ≤ b.buf.length) .assertion
  let result ← bytesAt w b.buf (getCurrentBufPtr b)
  let b ← seek b w
  return (result, b)

inductive Call
  | setCurrentPtr (val : Int)
  | seek (offset : Int)
  | get (w : Nat)
  deriving DecidableEq, Repr

namespace Call

/-- An `int` that is not negative, or a type of four or eight bytes. -/
def Admissible : Call → Prop
  | setCurrentPtr n | seek n => 0 ≤ n ∧ n < 2 ^ 31
  | get w => w = 4 ∨ w = 8

def run (b : MessageBuf) : Call → Run MessageBuf
  | setCurrentPtr val => .ok (MessageCursor.setCurrentPtr b val)
  | seek offset => MessageCursor.seek b offset
  | get w => do
      let (_, b) ← MessageCursor.get w b
      return b

end Call

def InBody (b : MessageBuf) : Prop :=
  b.ptr ≤ b.getBody.length ∧ ∃ room, getRemainSize b.buf.length b.ptr = .ok room ∧ 0 ≤ room

/-- A check that passes keeps the read below `sz_` and the cursor in the body. -/
def ChecksRange (_ : List Call) (b : MessageBuf) : Call → Prop
  | .setCurrentPtr _ => True
  | .seek offset => ∀ b', seek b offset = .ok b' → InBody b'
  | .get w => get w b ≠ .error .outOfRange ∧ ∀ result b', get w b = .ok (result, b') → InBody b'

/-- The step does not end in the eight bytes behind the body that `sz_` still counts. -/
def ClearOfEnd (_ : List Call) (b : MessageBuf) : Call → Prop
  | .setCurrentPtr _ => True
  | .seek offset => ¬ (b.buf.length - 8 < b.ptr + offset ∧ b.ptr + offset ≤ b.buf.length)
  | .get w => ¬ (b.buf.length - 8 < b.ptr + w ∧ b.ptr + w ≤ b.buf.length)

/-- The header and an `int` of bytes, with the cursor in the `int`s that are not negative. -/
structure Sized (b : MessageBuf) : Prop where
  header : 8 ≤ b.buf.length
  fits : b.buf.length < 2 ^ 31
  cursor : 0 ≤ b.ptr ∧ b.ptr < 2 ^ 31

variable {b b' : MessageBuf} {call : Call}

theorem seek_eq_ok (hb : Sized b) {offset : Int} (h₀ : 0 ≤ offset) :
    seek b offset = .ok b' ↔ b.ptr + offset ≤ b.buf.length ∧ b' = { b with ptr := b.ptr + offset } := by
  have hptr := hb.cursor.1
  have hfits := hb.fits
  rw [seek, seekBy, int]
  by_cases hint : -2 ^ 31 ≤ b.ptr + offset ∧ b.ptr + offset < 2 ^ 31
  · rw [if_pos hint, ok_bind, require]
    by_cases hle : b.ptr + offset ≤ b.buf.length
    · rw [if_pos hle, ok_bind, pure_eq_ok, ok_bind, pure_eq_ok, Except.ok.injEq]
      simp only [hle, true_and, eq_comm]
    · rw [if_neg hle]
      exact iff_of_false (by rintro ⟨⟩) (fun h => hle h.1)
  · rw [if_neg hint]
    exact iff_of_false (by rintro ⟨⟩) (fun h => hint (by omega))

theorem get_asserts {w : Nat} (hb : Sized b) (hw : w = 4 ∨ w = 8) :
    (w + b.ptr) % 2 ^ 64 ≤ b.buf.length ↔ b.ptr + w ≤ b.buf.length := by
  have hptr := hb.cursor
  omega

theorem get_eq {w : Nat} (hb : Sized b) (hw : w = 4 ∨ w = 8) :
    get w b = if b.buf.length < b.ptr + w then .error .assertion
      else if b.buf.length - 8 < b.ptr + w then .error .outOfRange
      else .ok ((b.buf.drop (b.ptr + 8).toNat).take w, { b with ptr := b.ptr + w }) := by
  have hptr := hb.cursor.1
  rw [get]
  by_cases hle : b.ptr + w ≤ b.buf.length
  · rw [require_of ((get_asserts hb hw).mpr hle), ok_bind, if_neg (by omega), bytesAt, getCurrentBufPtr]
    by_cases hin : b.buf.length - 8 < b.ptr + w
    · rw [if_neg (by omega), if_pos hin, error_bind]
    · rw [if_pos (by omega), if_neg hin, ok_bind, (seek_eq_ok hb (by omega)).mpr ⟨hle, rfl⟩]
      rfl
  · rw [require, if_neg (mt (get_asserts hb hw).mp hle), error_bind, if_pos (by omega)]

theorem inBody_iff (hb : Sized b) (h : b.ptr ≤ b.buf.length) : InBody b ↔ b.ptr ≤ b.buf.length - 8 := by
  have hheader := hb.header
  have hlen : b.getBody.length = b.buf.length - 8 := by rw [MessageBuf.getBody, List.length_drop]
  rw [InBody, hlen, getRemainSize_eq hb.fits hb.cursor.1 h]
  constructor
  · rintro ⟨hptr, -⟩
    omega
  · intro hptr
    exact ⟨by omega, _, rfl, by omega⟩

theorem Sized.move (hb : Sized b) {ptr : Int} (h₀ : 0 ≤ ptr) (h₁ : ptr < 2 ^ 31) : Sized { b with ptr } :=
  ⟨hb.header, hb.fits, h₀, h₁⟩

theorem Sized.run (hb : Sized b) (hc : call.Admissible) (h : call.run b = .ok b') : Sized b' := by
  have hptr := hb.cursor.1
  have hfits := hb.fits
  cases call with
  | setCurrentPtr val =>
      cases h
      exact hb.move hc.1 hc.2
  | seek offset =>
      obtain ⟨hle, rfl⟩ := (seek_eq_ok hb hc.1).mp h
      have h₀ := hc.1
      exact hb.move (by omega) (by omega)
  | get w =>
      obtain ⟨⟨result, b''⟩, hget, hret⟩ := bind_eq_ok.mp h
      cases hret
      rw [get_eq hb hc] at hget
      split at hget
      · cases hget
      · split at hget
        · cases hget
        · cases hget
          exact hb.move (by omega) (by omega)

theorem checksRange_iff (done : List Call) (hb : Sized b) (hc : call.Admissible) :
    ChecksRange done b call ↔ ClearOfEnd done b call := by
  have hptr := hb.cursor.1
  have hfits := hb.fits
  cases call with
  | setCurrentPtr val => exact Iff.rfl
  | seek offset =>
      have h₀ := hc.1
      have hmove (hle : b.ptr + offset ≤ b.buf.length) :=
        inBody_iff (show Sized { b with ptr := b.ptr + offset } from hb.move (by omega) (by omega)) hle
      simp only [ChecksRange, ClearOfEnd, seek_eq_ok hb hc.1]
      constructor
      · rintro h ⟨hlow, hle⟩
        have := (hmove hle).mp (h _ ⟨hle, rfl⟩)
        dsimp only at this
        omega
      · rintro h _ ⟨hle, rfl⟩
        exact (hmove hle).mpr (by dsimp only; omega)
  | get w =>
      simp only [ChecksRange, ClearOfEnd, get_eq hb hc]
      by_cases hle : b.buf.length < b.ptr + w
      · simp only [if_pos hle]
        exact iff_of_true ⟨by decide, fun _ _ h => by cases h⟩ (by omega)
      · simp only [if_neg hle]
        by_cases hin : b.buf.length - 8 < b.ptr + w
        · simp only [if_pos hin]
          exact iff_of_false (fun h => h.1 rfl) (fun h => h ⟨hin, by omega⟩)
        · simp only [if_neg hin]
          refine iff_of_true ⟨by rintro ⟨⟩, ?_⟩ (fun h => hin h.1)
          rintro _ _ ⟨⟩
          exact (inBody_iff (hb.move (by omega) (by omega)) (by dsimp only; omega)).mpr (by dsimp only; omega)

theorem received_sized {k : Kernel} (hk : k.Partial) {incoming : Bytes} {calls : Nat} {r : Receiver}
    (h : recvMessage k ⟨incoming, calls⟩ = .ok (some b, r)) : Sized b ∧ b.ptr = 0 := by
  by_cases hshort : incoming.length < 8
  · obtain ⟨r', hr⟩ := recvMessage_short hk hshort calls
    rw [hr] at h
    cases h
  obtain ⟨msgId, hhead⟩ := eq_messageHeader (show 8 ≤ incoming.length by omega)
  have hsize := declaredSize_lt incoming
  rw [hhead] at h
  by_cases hlong : 2 ^ 31 ≤ declaredSize incoming + 8
  · obtain ⟨f, hf⟩ := recvMessage_long hk msgId (incoming.drop 8) hsize hlong calls
    rw [hf] at h
    cases h
  by_cases hcut : (incoming.drop 8).length < declaredSize incoming
  · obtain ⟨r', hr⟩ := recvMessage_cut hk msgId (show declaredSize incoming + 8 < 2 ^ 31 by omega) hcut calls
    rw [hr] at h
    cases h
    refine ⟨⟨?_, ?_, le_refl _, show (0 : Int) < 2 ^ 31 by decide⟩, rfl⟩ <;>
      simp only [List.length_append, List.length_map, List.length_replicate, length_messageHeader] <;> omega
  · obtain ⟨r', hr⟩ := recvMessage_whole hk msgId (show declaredSize incoming + 8 < 2 ^ 31 by omega)
      (Nat.le_of_not_lt hcut) calls
    rw [hr] at h
    cases h
    refine ⟨⟨?_, ?_, le_refl _, show (0 : Int) < 2 ^ 31 by decide⟩, rfl⟩ <;>
      simp only [List.length_append, List.length_map, List.length_take, length_messageHeader] <;> omega

/-- Every call of `recv` gives all that was asked for. -/
def atOnce : Kernel := ⟨fun _ n => n, fun _ n => n⟩

end Llprof.Wire.MessageCursor
