import Llprof.Foundations.Faulting
import Llprof.Foundations.LittleEndian

namespace Llprof.Wire.Network

open Faulting LittleEndian

/-- A byte of an allocation; `none` until it is written for the first time. -/
abbrev Cell := Option UInt8

/-- The choices of the operating system. The `i`-th call of `send`, offered `n`
bytes, and the `i`-th call of `recv`, with `n` bytes requested and available,
return these values. -/
structure Kernel where
  send : Nat → Nat → Int
  recv : Nat → Nat → Int

/-- Every call transfers some positive part of what it may transfer. -/
structure Kernel.Partial (k : Kernel) : Prop where
  send : ∀ i n, 0 < n → 0 < k.send i n ∧ k.send i n ≤ n
  recv : ∀ i n, 0 < n → 0 < k.recv i n ∧ k.recv i n ≤ n

structure Sender where
  out : Bytes
  calls : Nat
  deriving DecidableEq, Repr

structure Receiver where
  incoming : Bytes
  calls : Nat
  deriving DecidableEq, Repr

/-- `pbuf` is the memory behind the pointer and `sz` the length it is said to have. -/
def sendFullLoop (k : Kernel) (pbuf : Bytes) (sz : Int) : Nat → Nat → Sender → Run (Int × Sender)
  | 0, _, _ => .error .outOfFuel
  | fuel + 1, offset, s =>
      let wroteSz := k.send s.calls (toSize (sz - offset))
      if wroteSz ≤ 0 then
        .ok (1, { s with calls := s.calls + 1 })
      else
        let s := ⟨s.out ++ (pbuf.drop offset).take wroteSz.toNat, s.calls + 1⟩
        let offset := offset + wroteSz.toNat
        if (offset : Int) = sz then
          .ok (0, s)
        else if (offset : Int) < sz then
          sendFullLoop k pbuf sz fuel offset s
        else
          .error .assertion

/-- Every iteration that does not return moves the offset, so the fuel is never
used up. -/
def sendFull (k : Kernel) (pbuf : Bytes) (sz : Int) (s : Sender) : Run (Int × Sender) :=
  sendFullLoop k pbuf sz (sz.toNat + 1) 0 s

/-- The bytes that arrive are written through the pointer, so they have to lie
in the allocation behind it. -/
def write (dst : List Cell) (offset : Nat) (data : Bytes) : Run (List Cell) :=
  if offset + data.length ≤ dst.length then
    .ok (dst.take offset ++ data.map some ++ dst.drop (offset + data.length))
  else
    .error .outOfRange

/-- The value of one `recv` call: 0 when nothing is requested or the peer has
closed the connection with nothing left to read. -/
def recv (k : Kernel) (r : Receiver) (want : Nat) : Int :=
  if min want r.incoming.length = 0 then 0 else k.recv r.calls (min want r.incoming.length)

def recvFullLoop (k : Kernel) (sz : Int) : Nat → Nat → List Cell → Receiver → Run (Int × List Cell × Receiver)
  | 0, _, _, _ => .error .outOfFuel
  | fuel + 1, offset, pbuf, r =>
      let readSz := recv k r (toSize (sz - offset))
      if readSz ≤ 0 then
        .ok (1, pbuf, { r with calls := r.calls + 1 })
      else do
        let pbuf ← write pbuf offset (r.incoming.take readSz.toNat)
        let r := ⟨r.incoming.drop readSz.toNat, r.calls + 1⟩
        let offset := offset + readSz.toNat
        if (offset : Int) = sz then
          .ok (0, pbuf, r)
        else if (offset : Int) < sz then
          recvFullLoop k sz fuel offset pbuf r
        else
          .error .assertion

def recvFull (k : Kernel) (pbuf : List Cell) (sz : Int) (r : Receiver) : Run (Int × List Cell × Receiver) :=
  recvFullLoop k sz (r.incoming.length + 1) 0 pbuf r

theorem sendFullLoop_sends {k : Kernel} (hk : k.Partial) (pbuf : Bytes) (sz : Nat) (hsz : sz < 2 ^ 31)
    (fuel offset : Nat) (s : Sender) (hoffset : offset < sz)
    (hfuel : sz - offset < fuel) :
    ∃ calls, sendFullLoop k pbuf sz fuel offset s =
      .ok (0, ⟨s.out ++ (pbuf.take sz).drop offset, calls⟩) := by
  induction fuel generalizing offset s with
  | zero => omega
  | succ fuel ih =>
      have hoffer : toSize ((sz : Int) - offset) = sz - offset := by
        rw [toSize_of_nonneg (by omega) (by omega)]
        omega
      obtain ⟨hpos, hw⟩ := hk.send s.calls (sz - offset) (by omega)
      obtain ⟨w, he⟩ : ∃ w : Nat, k.send s.calls (sz - offset) = w :=
        ⟨_, (Int.toNat_of_nonneg hpos.le).symm⟩
      rw [he] at hpos hw
      have hpiece : (pbuf.drop offset).take w = ((pbuf.take sz).drop offset).take w := by
        rw [List.drop_take, List.take_take]
        congr 1
        omega
      have hsplit : ((pbuf.take sz).drop offset).take w ++ (pbuf.take sz).drop (offset + w) =
          (pbuf.take sz).drop offset := by
        rw [← List.drop_drop, List.take_append_drop]
      simp only [sendFullLoop, hoffer, he, Int.toNat_natCast, if_neg (not_le.mpr hpos), hpiece]
      by_cases hend : offset + w = sz
      · have hall : ((pbuf.take sz).drop offset).take w = (pbuf.take sz).drop offset :=
          List.take_of_length_le (by simp; omega)
        exact ⟨s.calls + 1, by rw [if_pos (by omega), hall]⟩
      · rw [if_neg (by omega), if_pos (by omega)]
        obtain ⟨calls, h⟩ := ih (offset + w) ⟨s.out ++ ((pbuf.take sz).drop offset).take w, s.calls + 1⟩
          (by omega) (by omega)
        exact ⟨calls, by rw [h, List.append_assoc, hsplit]⟩

theorem sendFull_sends {k : Kernel} (hk : k.Partial) (pbuf : Bytes) (sz : Nat) (s : Sender)
    (hpos : 0 < sz) (hsz : sz < 2 ^ 31) :
    ∃ calls, sendFull k pbuf sz s = .ok (0, ⟨s.out ++ pbuf.take sz, calls⟩) := by
  simpa [sendFull] using sendFullLoop_sends hk pbuf sz hsz (sz + 1) 0 s hpos (by omega)

theorem sendFull_negative {k : Kernel} (hk : k.Partial) (pbuf : Bytes) (sz : Int) (s : Sender)
    (hneg : sz < 0) (hsz : -2 ^ 31 ≤ sz) : sendFull k pbuf sz s = .error .assertion := by
  have hoffer : 0 < toSize (sz - (0 : Nat)) := by
    rw [toSize]
    omega
  obtain ⟨hpos, -⟩ := hk.send s.calls _ hoffer
  have hzero : sz.toNat = 0 := by omega
  simp only [sendFull, hzero, sendFullLoop, if_neg (not_le.mpr hpos)]
  rw [if_neg (by omega), if_neg (by omega)]

theorem write_ok (pre : List Cell) {mid : List Cell} (post : List Cell) {data : Bytes}
    (hlen : mid.length = data.length) :
    write (pre ++ mid ++ post) pre.length data = .ok (pre ++ data.map some ++ post) := by
  have hpre : (pre ++ mid ++ post).take pre.length = pre := by rw [List.append_assoc, List.take_left]
  have hpost : (pre ++ mid ++ post).drop (pre.length + data.length) = post := by
    rw [← hlen, ← List.length_append, List.drop_left]
  rw [write, if_pos (by simp; omega), hpre, hpost]

/-- One turn of `RecvFull` while there is something to read: some part of it goes behind
what has been received. -/
theorem recvFullLoop_turn {k : Kernel} (hk : k.Partial) {sz : Nat} (hsz : sz < 2 ^ 31)
    (fuel : Nat) {got data : Bytes} (room : List Cell) (calls : Nat) (hgot : got.length < sz)
    (hne : data ≠ []) (hroom : sz ≤ got.length + room.length) :
    ∃ w, 0 < w ∧ w ≤ data.length ∧ got.length + w ≤ sz ∧
      recvFullLoop k sz (fuel + 1) got.length (got.map some ++ room) ⟨data, calls⟩ =
        if got.length + w = sz then
          .ok (0, (got ++ data.take w).map some ++ room.drop w, ⟨data.drop w, calls + 1⟩)
        else
          recvFullLoop k sz fuel (got ++ data.take w).length ((got ++ data.take w).map some ++ room.drop w)
            ⟨data.drop w, calls + 1⟩ := by
  have hpos : 0 < data.length := List.length_pos_iff.mpr hne
  have hwant : toSize ((sz : Int) - got.length) = sz - got.length := by
    rw [toSize_of_nonneg (by omega) (by omega)]
    omega
  have havail : 0 < min (sz - got.length) data.length := by omega
  obtain ⟨hp, hle⟩ := hk.recv calls _ havail
  obtain ⟨w, hw⟩ : ∃ w : Nat, k.recv calls (min (sz - got.length) data.length) = w :=
    ⟨_, (Int.toNat_of_nonneg hp.le).symm⟩
  rw [hw] at hp hle
  have hwl : w ≤ data.length := by omega
  have hws : got.length + w ≤ sz := by omega
  have hread : recv k ⟨data, calls⟩ (toSize ((sz : Int) - got.length)) = w := by
    rw [recv, hwant, if_neg (show ¬ min (sz - got.length) data.length = 0 by omega)]
    exact hw
  have hwrite : write (got.map some ++ room) got.length (data.take w) =
      .ok ((got ++ data.take w).map some ++ room.drop w) := by
    have hmid : (room.take w).length = (data.take w).length := by
      simp only [List.length_take]
      omega
    have h := write_ok (got.map some) (room.drop w) hmid
    rwa [List.length_map, List.append_assoc, List.take_append_drop, ← List.map_append] at h
  have hlen : (got ++ data.take w).length = got.length + w := by
    rw [List.length_append, List.length_take]
    omega
  refine ⟨w, by omega, hwl, hws, ?_⟩
  simp only [recvFullLoop, hread, Int.toNat_natCast, if_neg (not_le.mpr hp), hwrite, ok_bind, hlen]
  by_cases hend : got.length + w = sz
  · rw [if_pos hend, if_pos (by omega)]
  · rw [if_neg hend, if_neg (by omega), if_pos (by omega)]

/-- `RecvFull` delivers the next `sz` bytes of the stream and leaves the rest,
however the stream is cut. -/
theorem recvFullLoop_receives {k : Kernel} (hk : k.Partial) (sz : Nat) (hsz : sz < 2 ^ 31)
    (fuel : Nat) (got data rest : Bytes) (room post : List Cell) (calls : Nat)
    (hdata : got.length + data.length = sz) (hne : data ≠ []) (hroom : room.length = data.length)
    (hfuel : data.length < fuel) :
    ∃ calls', recvFullLoop k sz fuel got.length (got.map some ++ room ++ post) ⟨data ++ rest, calls⟩ =
      .ok (0, (got ++ data).map some ++ post, ⟨rest, calls'⟩) := by
  induction fuel generalizing got data room calls with
  | zero => omega
  | succ fuel ih =>
      have hpos : 0 < data.length := List.length_pos_iff.mpr hne
      obtain ⟨w, hw, -, hws, hturn⟩ := recvFullLoop_turn hk hsz fuel (room ++ post) calls
        (show got.length < sz by omega) (List.append_ne_nil_of_left_ne_nil hne rest)
        (by rw [List.length_append]; omega)
      have hwl : w ≤ data.length := by omega
      rw [List.append_assoc, hturn, List.take_append_of_le_length hwl, List.drop_append_of_le_length hwl,
        List.drop_append_of_le_length (hroom ▸ hwl)]
      by_cases hend : got.length + w = sz
      · have hall : w = data.length := by omega
        refine ⟨calls + 1, ?_⟩
        rw [if_pos hend, hall, List.take_length, List.drop_length, ← hroom, List.drop_length, List.nil_append,
          List.nil_append]
      · have hlen : (got ++ data.take w).length + (data.drop w).length = sz := by simp; omega
        have hmore : data.drop w ≠ [] := by
          rw [ne_eq, List.drop_eq_nil_iff]
          omega
        obtain ⟨calls', h⟩ := ih (got ++ data.take w) (data.drop w) (room.drop w) (calls + 1) hlen hmore
          (by simp; omega) (by simp; omega)
        refine ⟨calls', ?_⟩
        rw [if_neg hend, ← List.append_assoc, h, List.append_assoc got, List.take_append_drop]

theorem recvFullLoop_ends {k : Kernel} (hk : k.Partial) (sz : Nat) (hsz : sz < 2 ^ 31)
    (fuel : Nat) (got data : Bytes) (room : List Cell) (calls : Nat) (hdata : got.length + data.length < sz)
    (hroom : sz ≤ got.length + room.length) (hfuel : data.length < fuel) :
    ∃ calls', recvFullLoop k sz fuel got.length (got.map some ++ room) ⟨data, calls⟩ =
      .ok (1, (got ++ data).map some ++ room.drop data.length, ⟨[], calls'⟩) := by
  induction fuel generalizing got data room calls with
  | zero => omega
  | succ fuel ih =>
      by_cases hnil : data = []
      · subst hnil
        exact ⟨calls + 1, by simp [recvFullLoop, recv]⟩
      · obtain ⟨w, hw, hwl, -, hturn⟩ :=
          recvFullLoop_turn hk hsz fuel room calls (show got.length < sz by omega) hnil hroom
        have hlen : (got ++ data.take w).length + (data.drop w).length = got.length + data.length := by
          simp; omega
        have hspace : sz ≤ (got ++ data.take w).length + (room.drop w).length := by simp; omega
        obtain ⟨calls', h⟩ :=
          ih (got ++ data.take w) (data.drop w) (room.drop w) (calls + 1) (by omega) hspace (by simp; omega)
        refine ⟨calls', ?_⟩
        have hrest : w + (data.drop w).length = data.length := by simp; omega
        rw [hturn, if_neg (by omega), h, List.append_assoc got, List.take_append_drop, List.drop_drop, hrest]

theorem recvFull_ends {k : Kernel} (hk : k.Partial) (sz : Nat) (hsz : sz < 2 ^ 31)
    (data : Bytes) (room : List Cell) (calls : Nat) (hdata : data.length < sz) (hroom : sz ≤ room.length) :
    ∃ calls', recvFull k room sz ⟨data, calls⟩ =
      .ok (1, data.map some ++ room.drop data.length, ⟨[], calls'⟩) := by
  simpa [recvFull] using recvFullLoop_ends hk sz hsz (data.length + 1) [] data room
    calls (by simpa using hdata) (by simpa using hroom) (by omega)

theorem recvFull_receives {k : Kernel} (hk : k.Partial) (data rest : Bytes) (room post : List Cell)
    (calls : Nat) (hne : data ≠ []) (hsz : data.length < 2 ^ 31) (hroom : room.length = data.length) :
    ∃ calls', recvFull k (room ++ post) data.length ⟨data ++ rest, calls⟩ =
      .ok (0, data.map some ++ post, ⟨rest, calls'⟩) := by
  simpa [recvFull] using recvFullLoop_receives hk data.length hsz ((data ++ rest).length + 1) [] data rest
    room post calls (by simp) hne hroom (by rw [List.length_append]; omega)

theorem recvFull_closed {k : Kernel} (pbuf : List Cell) (sz : Int) (calls : Nat) :
    recvFull k pbuf sz ⟨[], calls⟩ = .ok (1, pbuf, ⟨[], calls + 1⟩) := by
  simp [recvFull, recvFullLoop, recv]

end Llprof.Wire.Network
