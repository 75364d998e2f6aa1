import Llprof.Monitor.AnyRecords
import Llprof.Monitor.RunTotals
import Llprof.Wire.RecordWalk

namespace Llprof.Link.RecordLoops

open Faulting hiding store
open Avoiding LittleEndian Wire.Network Wire.NameQuery Wire.ProfileData Wire.DrainMessages Wire.RecordWalk
  Monitor.Nodes Monitor.Store Monitor.SlotLoops Monitor.Stripping Monitor.Runs Monitor.AnyRecords Monitor.RunTotals
open Profiler.CallTree (MethodNodeSerializedInfo)

/-- A turn in `ThreadStore::Store`: the record goes into the tree before `Seek`. -/
def storeAt (gl : Settings) (ds : DataStore) (info : MemberOffsets) (buf : List Cell) (ts : ThreadStore)
    (p : Int) : Run ThreadStore := do
  let r ← readRecord info ds.numRecords buf p
  storeRecord gl ds ts r

def storeFrom (gl : Settings) (ds : DataStore) (info : MemberOffsets) (buf : List Cell) (fuel : Nat)
    (ts : ThreadStore) (ptr : Int) : Run (ThreadStore × Int) :=
  recordLoop (storeAt gl ds info buf) (getMemberOffsetOf info "pdata.record_size") buf.length fuel ts ptr

/-- What is done with a message: `Store` gets it when `GetProfileData` has come through. -/
def recordLoops (gl : Settings) (ds : DataStore) (info : MemberOffsets) (buf : List Cell) (fuel : Nat)
    (a : Asked) (ts : ThreadStore) : Run (Asked × ThreadStore) := do
  let asked ← askLoop info buf fuel a 8
  let stored ← storeFrom gl ds info buf fuel ts 8
  return (asked.1, stored.1)

/-- The records that begin in the message. -/
def recordsIn (info : MemberOffsets) (numRecords : Nat) (buf : List Cell) : List MethodNodeSerializedInfo :=
  (starts (getMemberOffsetOf info "pdata.record_size") buf.length 8).filterMap
    (fun p => (readRecord info numRecords buf p).toOption)

/-- The tree takes the records: each has a node or a parent to hang it under. In attribute
mode, where nodes stand for others, all that `Store` does with them comes through. -/
def Takes (gl : Settings) (ds : DataStore) (ts : ThreadStore) (batch : List MethodNodeSerializedInfo) : Prop :=
  if gl.leafNodeAccumulate then ∃ ts', batch.foldlM (storeRecord gl ds) ts = .ok ts'
  else AllPlaced (· ∈ ts.currentTree) batch

variable {gl : Settings} {ds : DataStore} {ts : ThreadStore}

theorem takes_iff (hd : Described ds) (hs : SizedThread gl ds ts)
    (hung : gl.leafNodeAccumulate = false → ∃ rank, Hung ts.currentTree rank)
    {batch : List MethodNodeSerializedInfo} (hfits : ∀ r ∈ batch, ds.numRecords ≤ r.profileValue.length) :
    (∃ ts', batch.foldlM (storeRecord gl ds) ts = .ok ts') ↔ Takes gl ds ts batch := by
  rw [Takes]
  cases hmode : gl.leafNodeAccumulate with
  | true => rw [if_pos rfl]
  | false =>
      rw [if_neg Bool.false_ne_true]
      obtain ⟨rank, h⟩ := hung hmode
      exact storeRecords_iff hd hmode hs h hfits

/-- `Store`'s loop runs where that of `GetProfileData` does not stop at the assertion. -/
theorem recordLoops_stop_iff (info : MemberOffsets) (buf : List Cell) (a : Asked) :
    (∃ fuel, Stops (recordLoops gl ds info buf fuel a ts)) ↔ (∃ fuel, Stops (askLoop info buf fuel a 8)) ∧
      ((∃ fuel, askLoop info buf fuel a 8 = .error .assertion) ∨
        ∃ fuel, Stops (storeFrom gl ds info buf fuel ts 8)) := by
  constructor
  · rintro ⟨fuel, h⟩
    rw [recordLoops] at h
    cases hask : askLoop info buf fuel a 8 with
    | error e =>
        rw [hask, error_bind] at h
        obtain rfl : e = .assertion := by
          by_contra he
          exact not_stops he h
        exact ⟨⟨fuel, hask ▸ Or.inr rfl⟩, Or.inl ⟨fuel, hask⟩⟩
    | ok asked =>
        rw [hask, ok_bind] at h
        refine ⟨⟨fuel, hask ▸ Or.inl ⟨asked, rfl⟩⟩, Or.inr ⟨fuel, ?_⟩⟩
        cases hstore : storeFrom gl ds info buf fuel ts 8 with
        | error e =>
            rw [hstore, error_bind] at h
            exact Or.inr (congrArg _ (by_contra fun he => not_stops he h))
        | ok stored => exact Or.inl ⟨stored, rfl⟩
  · rintro ⟨⟨fuel, h⟩, ⟨fuel', h'⟩ | ⟨fuel', h'⟩⟩
    · exact ⟨fuel', Or.inr (by rw [recordLoops, h', error_bind])⟩
    · have hfuel {α : Type} {run : Run α} (h : Stops run) : run ≠ .error .outOfFuel := by
        rintro rfl
        exact not_stops (by decide) h
      refine ⟨max fuel fuel', ?_⟩
      rw [recordLoops, askLoop, recordLoop_mono (Nat.le_max_left fuel fuel') (hfuel h)]
      rcases h with ⟨asked, hask⟩ | hask
      · rw [askLoop] at hask
        rw [hask, ok_bind, storeFrom, recordLoop_mono (Nat.le_max_right fuel fuel') (hfuel h')]
        rcases h' with ⟨stored, hstore⟩ | hstore
        · rw [storeFrom] at hstore
          exact Or.inl ⟨_, by rw [hstore, ok_bind, pure_eq_ok]⟩
        · rw [storeFrom] at hstore
          exact Or.inr (by rw [hstore, error_bind])
      · rw [askLoop] at hask
        exact Or.inr (by rw [hask, error_bind])

theorem recordsIn_fits (info : MemberOffsets) (numRecords : Nat) (buf : List Cell) :
    ∀ r ∈ recordsIn info numRecords buf, numRecords ≤ r.profileValue.length := by
  intro r hr
  obtain ⟨p, -, hp⟩ := List.mem_filterMap.mp hr
  cases hread : readRecord info numRecords buf p with
  | error e =>
      rw [hread] at hp
      cases hp
  | ok r' =>
      rw [hread] at hp
      cases hp
      exact (readRecord_length hread).ge

theorem storeFrom_stops_iff (hd : Described ds) (hs : SizedThread gl ds ts)
    (hung : gl.leafNodeAccumulate = false → ∃ rank, Hung ts.currentTree rank) (info : MemberOffsets)
    (buf : Bytes) (hpos : 0 < getMemberOffsetOf info "pdata.record_size") (h16 : 16 ≤ buf.length)
    (hint : buf.length < 2 ^ 31)
    (hno : ¬ Overruns (getMemberOffsetOf info "pdata.record_size") buf.length 8) :
    (∃ fuel, Stops (storeFrom gl ds info (buf.map some) fuel ts 8)) ↔
      (∀ k : Nat, 16 + k * getMemberOffsetOf info "pdata.record_size" < buf.length →
        ∀ f ∈ fields info ds.numRecords,
          Inside buf.length (16 + k * getMemberOffsetOf info "pdata.record_size") f) ∧
        Takes gl ds ts (recordsIn info ds.numRecords (buf.map some)) := by
  have hfits (p : Int) (r : MethodNodeSerializedInfo)
      (h : readRecord info ds.numRecords (buf.map some) p = .ok r) : ds.numRecords ≤ r.profileValue.length :=
    (readRecord_length h).ge
  have hsteps := recordLoop_steps_iff (readRecord_reads info ds.numRecords buf) hfits
    (fun ts r hts hr => storeRecord_asserts hd hts hr) hpos hint hs (show (0 : Int) ≤ 8 by omega)
    (by omega) hno
  simp only [storeFrom, List.length_map]
  rw [← takes_iff hd hs hung (recordsIn_fits _ _ _), recordsIn, List.length_map]
  refine hsteps.trans (and_congr_left fun _ => ?_)
  constructor
  · intro h k hk
    exact h _ ((mem_starts hpos).mpr ⟨k, hk, rfl⟩)
  · intro h p hp
    obtain ⟨k, hk, rfl⟩ := (mem_starts hpos).mp hp
    exact h k hk

def oneRecord : MemberOffsets :=
  [(ascii "pdata.nameid", 0), (ascii "pdata.value", 32), (ascii "pdata.call_count", 8),
    (ascii "pdata.call_node_id", 16), (ascii "pdata.parent_node_id", 20), (ascii "pdata.record_size", 40)]

/-- A message with one record of the node. -/
def message (node parent : UInt8) : Bytes :=
  List.replicate 32 0 ++ [node, 0, 0, 0, parent, 0, 0, 0] ++ List.replicate 16 0

end Llprof.Link.RecordLoops
