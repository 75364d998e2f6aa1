import Llprof.Wire.Framing

namespace Llprof.Wire.WholeMessages

open Faulting LittleEndian Network Framing

def declaredSize (incoming : Bytes) : Nat := word 4 4 incoming

/-- A null pointer, or the header with all the bytes it declares, as the stream has them. -/
def AllOrNothing (k : Kernel) (r : Receiver) : Prop :=
  ∃ m r', recvMessage k r = .ok (m, r') ∧
    ∀ b ∈ m, b.buf.length = 8 + declaredSize r.incoming ∧
      b.buf = (r.incoming.take (8 + declaredSize r.incoming)).map some

variable {k : Kernel}

theorem declaredSize_lt (incoming : Bytes) : declaredSize incoming < 2 ^ 32 := word_lt 4 4 incoming

theorem eq_messageHeader {incoming : Bytes} (h : 8 ≤ incoming.length) :
    ∃ msgId : UInt32, incoming = messageHeader msgId (declaredSize incoming) ++ incoming.drop 8 := by
  have htype : ofBytes (incoming.take 4) < 2 ^ 32 := by
    have hlen : (incoming.take 4).length = 4 := by simp; omega
    have h := ofBytes_lt (incoming.take 4)
    rwa [hlen] at h
  have hword (bs : Bytes) (hbs : bs.length = 4) : toBytes 4 (ofBytes bs) = bs := hbs ▸ toBytes_ofBytes bs
  refine ⟨UInt32.ofNat (ofBytes (incoming.take 4)), ?_⟩
  rw [messageHeader, UInt32.toNat_ofNat', Nat.mod_eq_of_lt htype,
    hword _ (by simp; omega), declaredSize, word,
    hword _ (by simp; omega), ← List.take_add, List.take_append_drop]

theorem recvMessage_short (hk : k.Partial) {incoming : Bytes} (h : incoming.length < 8) (calls : Nat) :
    ∃ r, recvMessage k ⟨incoming, calls⟩ = .ok (none, r) := by
  obtain ⟨c, hread⟩ := recvFull_ends hk 8 (by omega) incoming (List.replicate 8 none) calls h (by simp)
  refine ⟨⟨[], c⟩, ?_⟩
  have halloc : MessageBuf.empty.resize 8 = .ok ⟨List.replicate 8 none, 0⟩ := by
    simp [MessageBuf.resize, MessageBuf.empty]
  have hbuf : (⟨List.replicate 8 none, 0⟩ : MessageBuf).readFrom k 0 8 ⟨incoming, calls⟩ =
      .ok (1, ⟨incoming.map some ++ (List.replicate 8 none).drop incoming.length, 0⟩, ⟨[], c⟩) := by
    simp only [MessageBuf.readFrom, List.drop_zero]
    rw [show ((8 : Int) = (8 : Nat)) from rfl, hread]
    simp
  simp only [recvMessage, halloc, ok_bind, hbuf]
  rfl

/-- A size that does not fit an `int` is asked for as a negative length, or as one shorter than
the header that is copied. -/
theorem fitSize_long (msgId : UInt32) {size : Nat} (hsize : size < 2 ^ 32) (hlong : 2 ^ 31 ≤ size + 8) :
    ∃ f, (⟨(messageHeader msgId size).map some, 0⟩ : MessageBuf).fitSize = .error f := by
  have hhead := header_size msgId hsize [] 0
  rw [List.append_nil] at hhead
  rw [MessageBuf.fitSize, hhead, MessageBuf.resize]
  by_cases hwrap : size + 8 < 2 ^ 32
  · have hneg : toInt32 ((size + 8) % 2 ^ 32) < 0 := by
      rw [toInt32, if_neg (by omega)]
      omega
    exact ⟨.badAlloc, if_pos hneg⟩
  · have hsmall : toInt32 ((size + 8) % 2 ^ 32) = (size + 8 - 2 ^ 32 : Nat) := by
      rw [toInt32, if_pos (by omega)]
      omega
    rw [hsmall, if_neg (by omega), List.length_map, length_messageHeader, if_neg (by omega)]
    exact ⟨.outOfRange, rfl⟩

variable {size : Nat}

theorem recvMessage_long (hk : k.Partial) (msgId : UInt32) (rest : Bytes) (hsize : size < 2 ^ 32)
    (hlong : 2 ^ 31 ≤ size + 8) (calls : Nat) :
    ∃ f, recvMessage k ⟨messageHeader msgId size ++ rest, calls⟩ = .error f := by
  obtain ⟨c, h⟩ := recvMessage_header hk msgId hsize rest calls
  obtain ⟨f, hfit⟩ := fitSize_long msgId hsize hlong
  exact ⟨f, by rw [h, if_neg (by omega), hfit, error_bind]⟩

theorem recvMessage_whole (hk : k.Partial) (msgId : UInt32) {rest : Bytes} (hsize : size + 8 < 2 ^ 31)
    (hrest : size ≤ rest.length) (calls : Nat) :
    ∃ r, recvMessage k ⟨messageHeader msgId size ++ rest, calls⟩ =
      .ok (some ⟨(messageHeader msgId size ++ rest.take size).map some, 0⟩, r) := by
  have hlen : (Outgoing.message msgId (rest.take size)).payload.length = size := by
    rw [Outgoing.payload, List.length_take, Nat.min_eq_left hrest]
  have hframe : (Outgoing.message msgId (rest.take size)).frame =
      messageHeader msgId size ++ rest.take size := by
    rw [Outgoing.frame, hlen]
    rfl
  obtain ⟨c, h⟩ := recvMessage_frame hk (.message msgId (rest.take size)) (by omega) (rest.drop size) calls
  rw [received, hframe, List.append_assoc, List.take_append_drop] at h
  exact ⟨_, h⟩

/-- The status of the second read is not looked at, so what never arrived stays in the
buffer as the allocation had it. -/
theorem recvMessage_cut (hk : k.Partial) (msgId : UInt32) {rest : Bytes} (hsize : size + 8 < 2 ^ 31)
    (hrest : rest.length < size) (calls : Nat) :
    ∃ r, recvMessage k ⟨messageHeader msgId size ++ rest, calls⟩ =
      .ok (some ⟨(messageHeader msgId size ++ rest).map some ++ List.replicate (size - rest.length) none, 0⟩,
        r) := by
  obtain ⟨c₁, h₁⟩ := recvMessage_header hk msgId (show size < 2 ^ 32 by omega) rest calls
  obtain ⟨c₂, h₂⟩ := recvFull_ends hk size (by omega) rest (List.replicate size none) c₁ hrest (by simp)
  rw [List.drop_replicate] at h₂
  refine ⟨⟨[], c₂⟩, ?_⟩
  rw [h₁, if_neg (by omega), fitSize_header msgId (by omega), ok_bind, header_size _ (by omega),
    toInt32_of_lt (by omega), readFrom_body _ h₂, List.map_append, List.append_assoc]
  rfl

/-- `RecvMessage` is all or nothing exactly if the stream ends within the header, or the
declared size with its header fits an `int` and the stream has as many bytes. -/
theorem recvMessage_allOrNothing_iff (k : Kernel) (hk : k.Partial) (incoming : Bytes) (calls : Nat) :
    AllOrNothing k ⟨incoming, calls⟩ ↔
      (8 ≤ incoming.length →
        8 + declaredSize incoming < 2 ^ 31 ∧ 8 + declaredSize incoming ≤ incoming.length) := by
  by_cases hshort : incoming.length < 8
  · obtain ⟨r, h⟩ := recvMessage_short hk hshort calls
    exact iff_of_true ⟨none, r, h, by simp⟩ (fun h => absurd h (by omega))
  obtain ⟨msgId, hhead⟩ := eq_messageHeader (show 8 ≤ incoming.length by omega)
  have hsize := declaredSize_lt incoming
  by_cases hlong : 2 ^ 31 ≤ declaredSize incoming + 8
  · obtain ⟨f, h⟩ := recvMessage_long hk msgId (incoming.drop 8) hsize hlong calls
    rw [← hhead] at h
    refine iff_of_false ?_ (fun hfit => by have := hfit (by omega); omega)
    rintro ⟨m, r, hr, -⟩
    rw [h] at hr
    cases hr
  by_cases hcut : (incoming.drop 8).length < declaredSize incoming
  · obtain ⟨r, h⟩ := recvMessage_cut hk msgId (show declaredSize incoming + 8 < 2 ^ 31 by omega) hcut calls
    rw [← hhead] at h
    rw [List.length_drop] at hcut
    refine iff_of_false ?_ (fun hfit => by have := hfit (by omega); omega)
    rintro ⟨m, r', hr, hm⟩
    rw [h, Except.ok.injEq, Prod.mk.injEq] at hr
    have hb := (hm _ hr.1.symm).2
    dsimp only at hb
    -- a cell that was never written is not a byte of the stream
    have hnone : (none : Cell) ∈ incoming.map some ++
        List.replicate (declaredSize incoming - (incoming.drop 8).length) none := by
      rw [List.mem_append, List.mem_replicate, List.length_drop]
      exact Or.inr ⟨by omega, rfl⟩
    rw [hb, List.mem_map] at hnone
    obtain ⟨c, -, hc⟩ := hnone
    cases hc
  · obtain ⟨r, h⟩ := recvMessage_whole hk msgId (show declaredSize incoming + 8 < 2 ^ 31 by omega)
      (Nat.le_of_not_lt hcut) calls
    rw [List.length_drop] at hcut
    have htake : messageHeader msgId (declaredSize incoming) ++
      (incoming.drop 8).take (declaredSize incoming) =
        incoming.take (8 + declaredSize incoming) := by
      rw [List.take_add]
      have h := congrArg (List.take 8) hhead
      rw [List.take_left' (by simp)] at h
      rw [h]
    rw [htake, ← hhead] at h
    refine iff_of_true ⟨_, r, h, ?_⟩ (fun _ => by omega)
    rintro b ⟨⟩
    exact ⟨by simp; omega, rfl⟩

theorem recvMessage_allOrNothing_halves :
    AllOrNothing ⟨fun _ n => n, fun _ n => if n < 2 then n else (n / 2 : Nat)⟩
      ⟨messageHeader 7 2 ++ [1, 2, 3], 0⟩ ↔ (8 ≤ (messageHeader 7 2 ++ [1, 2, 3]).length →
        8 + declaredSize (messageHeader 7 2 ++ [1, 2, 3]) < 2 ^ 31 ∧
          8 + declaredSize (messageHeader 7 2 ++ [1, 2, 3]) ≤ (messageHeader 7 2 ++ [1, 2, 3]).length) :=
  recvMessage_allOrNothing_iff ⟨fun _ n => n, fun _ n => if n < 2 then n else (n / 2 : Nat)⟩
    ⟨fun _ n hn => ⟨Int.natCast_pos.mpr hn, le_refl _⟩, fun _ n hn => by dsimp only; split <;> omega⟩
      (messageHeader 7 2 ++ [1, 2, 3]) 0

/-- The connection is lost in the body: the last two of the four declared bytes are whatever
the allocation held. And a size near 2 ^ 32 leaves no room for the header. -/
theorem cut_body_returned :
    let k : Kernel := ⟨fun _ n => n, fun _ n => n⟩
    k.Partial ∧ ¬ AllOrNothing k ⟨messageHeader 7 4 ++ [1, 2], 0⟩ ∧
      recvMessage k ⟨messageHeader 7 4 ++ [1, 2], 0⟩ =
        .ok (some ⟨(messageHeader 7 4 ++ [1, 2]).map some ++ [none, none], 0⟩, ⟨[], 3⟩) ∧
      recvMessage k ⟨messageHeader 7 (2 ^ 32 - 1) ++ [1, 2], 0⟩ = .error .outOfRange := by
  have hrun : recvMessage ⟨fun _ n => n, fun _ n => n⟩ ⟨messageHeader 7 4 ++ [1, 2], 0⟩ =
      .ok (some ⟨(messageHeader 7 4 ++ [1, 2]).map some ++ [none, none], 0⟩, ⟨[], 3⟩) := by decide
  refine ⟨⟨fun _ n hn => ⟨Int.natCast_pos.mpr hn, le_refl _⟩, fun _ n hn => ⟨Int.natCast_pos.mpr hn, le_refl _⟩⟩, ?_,
    hrun, by decide⟩
  rintro ⟨m, r, hr, hm⟩
  rw [hrun, Except.ok.injEq, Prod.mk.injEq] at hr
  have hb := (hm _ hr.1.symm).2
  revert hb
  decide

end Llprof.Wire.WholeMessages
