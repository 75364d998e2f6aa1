import Llprof.Foundations.Streams
import Llprof.Monitor.Nodes
import Llprof.Profiler.RecordInfo

namespace Llprof.Link.Metadata

open Faulting hiding store
open LittleEndian Decimal Streams Profiler.Records Profiler.Layout Profiler.RecordInfo Monitor.Nodes

def emptyMetadata : RecordMetadata :=
  { fieldName := [], unit := [], flags := [], accumulatedValueFlag := false, staticValueFlag := false }

def readMetadata (md : RecordMetadata) (strm : Stream) : RecordMetadata × Stream :=
  let (fieldName, strm) := readWord md.fieldName strm
  let (unit, strm) := readWord md.unit strm
  let (flags, strm) := readWord md.flags strm
  (RecordMetadata.updateFlag { md with fieldName, unit, flags }, strm)

def metainfoLoop : Nat → Stream → List RecordMetadata → Run (List RecordMetadata)
  | 0, _, _ => .error .outOfFuel
  | fuel + 1, strm, recordMetadata =>
      let strm := ws strm
      if strm.eof then
        .ok recordMetadata
      else do
        let (idx, strm) := readInt32 0 strm
        require (0 ≤ idx) .outOfRange
        let md ← fetch recordMetadata idx.toNat
        let (md, strm) := readMetadata md strm
        let recordMetadata ← Faulting.store recordMetadata idx.toNat md
        metainfoLoop fuel strm recordMetadata

/-- The result is `num_records_` with `record_metadata_`; `numRecords` is what the member holds
before. Where the stream has failed the loop never ends. -/
def receiveMetainfo (fuel : Nat) (numRecords : Int) (text : Bytes) : Run (Int × List RecordMetadata) := do
  let (numRecords, strm) := readInt32 numRecords (ofText text)
  require (0 ≤ numRecords) .lengthError
  let recordMetadata ← metainfoLoop fuel strm (List.replicate numRecords.toNat emptyMetadata)
  return (numRecords, recordMetadata)

def IsWord (w : Bytes) : Prop := w ≠ [] ∧ ∀ b ∈ w, isSpace b = false

def rowMetadata (row : Bytes × Bytes) : RecordMetadata :=
  RecordMetadata.updateFlag { emptyMetadata with fieldName := row.1, unit := ascii "U", flags := ascii "f" ++ row.2 }

theorem readMetadata_line (text : Bytes) {name flag : Bytes} (hn : IsWord name)
    (hf : ∀ b ∈ flag, isSpace b = false) :
    readMetadata emptyMetadata (ofText (32 :: (name ++ 32 :: 85 :: 32 :: 102 :: (flag ++ 10 :: text)))) =
      (rowMetadata (name, flag), ofText (10 :: text)) := by
  have hb : ∀ b ∈ ([32] : Bytes), isSpace b = true := List.forall_mem_singleton.mpr rfl
  have hname := readWord_ofText [] (85 :: 32 :: 102 :: (flag ++ 10 :: text)) hb hn.1 hn.2
    (c := 32) rfl
  have hunit := readWord_ofText [] (102 :: (flag ++ 10 :: text)) hb (w := [85])
    (by simp) (List.forall_mem_singleton.mpr rfl) (c := 32) rfl
  have hflags := readWord_ofText [] text hb (w := 102 :: flag) (by simp)
    (List.forall_mem_cons.mpr ⟨rfl, hf⟩) (c := 10) rfl
  simp only [List.cons_append, List.nil_append] at hname hunit hflags
  simp only [readMetadata, emptyMetadata, hname, hunit, hflags]
  rfl

theorem lineText_eq (i : Nat) (name flag text : Bytes) :
    lineText i name flag ++ text =
      decimal i ++ 32 :: (name ++ 32 :: 85 :: 32 :: 102 :: (flag ++ 10 :: text)) := by
  have h₁ : ascii " " = [32] := by decide
  have h₂ : ascii " U f" = [32, 85, 32, 102] := by decide
  simp [lineText, h₁, h₂]

/-- The loop stands at the end of a line with the slots before `done.length`
filled in. -/
theorem metainfoLoop_table (rows : List (Bytes × Bytes)) (done : List RecordMetadata) (fuel : Nat)
    (hf : rows.length < fuel) (hlen : done.length + rows.length < 2 ^ 31)
    (hrows : ∀ row ∈ rows, IsWord row.1 ∧ ∀ b ∈ row.2, isSpace b = false) :
    metainfoLoop fuel (ofText (10 :: tableText done.length rows))
        (done ++ List.replicate rows.length emptyMetadata) = .ok (done ++ rows.map rowMetadata) := by
  induction rows generalizing done fuel with
  | nil =>
      obtain ⟨fuel, rfl⟩ := Nat.exists_eq_add_of_lt hf
      have hend : (ws (ofText [10])).eof = true := by decide
      rw [tableText, metainfoLoop, if_pos hend]
      simp
  | cons row rows ih =>
      obtain ⟨fuel, rfl⟩ := Nat.exists_eq_add_of_lt hf
      rw [List.forall_mem_cons] at hrows
      obtain ⟨⟨hname, hflag⟩, hrows⟩ := hrows
      have hb : ∀ b ∈ ([10] : Bytes), isSpace b = true := List.forall_mem_singleton.mpr rfl
      let tail := row.1 ++ 32 :: 85 :: 32 :: 102 :: (row.2 ++ 10 :: tableText (done.length + 1) rows)
      have htext : tableText done.length (row :: rows) = decimal done.length ++ 32 :: tail :=
        lineText_eq done.length row.1 row.2 _
      have hws : ws (ofText (10 :: tableText done.length (row :: rows))) =
          ofText (decimal done.length ++ 32 :: tail) := by
        rw [htext]
        obtain ⟨d, ds, hd⟩ := List.exists_cons_of_ne_nil (decimal_ne_nil done.length)
        rw [hd]
        exact ws_blank _ hb (isDigit_not_space (isDigit_of_mem_decimal (hd ▸ List.mem_cons_self))).1
      rw [List.length_cons] at hlen
      have hint := readInt32_ofText 0 tail (n := done.length) (by omega) (List.forall_mem_nil _) (c := 32) rfl
      have hread := readMetadata_line (tableText (done.length + 1) rows) hname hflag
      have hfetch : fetch (done ++ List.replicate (row :: rows).length emptyMetadata) done.length =
          .ok emptyMetadata := by
        simp [fetch_eq_ok, List.replicate_succ]
      have hstore : Faulting.store (done ++ List.replicate (row :: rows).length emptyMetadata) done.length
          (rowMetadata row) = .ok ((done ++ [rowMetadata row]) ++ List.replicate rows.length emptyMetadata) := by
        rw [store_eq_ok]
        constructor
        · simp
        · simp [List.replicate_succ, List.set_append_right]
      have hrest := ih (done ++ [rowMetadata row]) (rows.length + 1 + fuel) (by omega)
        (by rw [List.length_append, List.length_singleton]; omega) hrows
      rw [List.length_append, List.length_singleton] at hrest
      have heof : (ofText (decimal done.length ++ 32 :: tail)).eof = false := rfl
      rw [metainfoLoop, hws, if_neg (by rw [heof]; decide)]
      rw [List.nil_append] at hint
      simp only [hint, Int.natCast_nonneg, require_of, ok_bind, Int.toNat_natCast, hfetch]
      rw [hread]
      simp only [hstore, ok_bind]
      rw [List.length_cons, hrest]
      simp

theorem length_le_tableText (n : Nat) (rows : List (Bytes × Bytes)) :
    rows.length ≤ (tableText n rows).length := by
  induction rows generalizing n with
  | nil => exact Nat.zero_le _
  | cons row rows ih =>
      have := ih (n + 1)
      rw [tableText, List.length_append, List.length_cons, lineText,
        List.length_append, List.length_singleton]
      omega

theorem receiveMetainfo_table {rows : List (Bytes × Bytes)} (old : Int) (hlen : rows.length < 2 ^ 31)
    (hrows : ∀ row ∈ rows, IsWord row.1 ∧ ∀ b ∈ row.2, isSpace b = false) :
    receiveMetainfo ((decimal rows.length ++ [10] ++ tableText 0 rows).length + 1) old
        (decimal rows.length ++ [10] ++ tableText 0 rows) =
      .ok ((rows.length : Int), rows.map rowMetadata) := by
  have hint := readInt32_ofText old (tableText 0 rows) hlen (List.forall_mem_nil _) (c := 10) rfl
  have hloop := metainfoLoop_table rows [] ((decimal rows.length ++ [10] ++ tableText 0 rows).length + 1)
    (by
      have := length_le_tableText 0 rows
      simp only [List.length_append]
      omega)
    (by rwa [List.length_nil, Nat.zero_add])
    hrows
  rw [List.nil_append] at hint hloop
  rw [receiveMetainfo]
  rw [List.append_assoc, List.singleton_append] at hloop ⊢
  rw [hint]
  simp only [Int.natCast_nonneg, require_of, ok_bind, Int.toNat_natCast]
  rw [List.length_nil] at hloop
  rw [hloop]
  simp

/-- What the monitor should know of the slots of an entry. -/
def slotMetadata (g : RecordTable) : Entry → List RecordMetadata
  | .counter t =>
      [{ fieldName := nameOf g t, unit := ascii "U", flags := ascii "fA"
         accumulatedValueFlag := true, staticValueFlag := false },
        { fieldName := nameOf g t ++ ascii "(sv)", unit := ascii "U", flags := ascii "fS"
          accumulatedValueFlag := false, staticValueFlag := true }]
  | .event t =>
      [{ fieldName := nameOf g t, unit := ascii "U", flags := ascii "f"
         accumulatedValueFlag := false, staticValueFlag := false }]

variable {g : RecordTable} {es : List Entry}

theorem flag_words : (∀ b ∈ ascii "A", isSpace b = false) ∧ (∀ b ∈ ascii "S", isSpace b = false) ∧
    ∀ b ∈ ascii "(sv)", isSpace b = false :=
  ⟨not_space_of_all rfl, not_space_of_all rfl, not_space_of_all rfl⟩

theorem IsWord.sv {w : Bytes} (h : IsWord w) : IsWord (w ++ ascii "(sv)") := by
  refine ⟨by simp [h.1], fun b hb => ?_⟩
  rcases List.mem_append.mp hb with hb | hb
  · exact h.2 b hb
  · exact flag_words.2.2 b hb

theorem lines_words {e : Entry} (h : IsWord (nameOf g e.record)) :
    ∀ row ∈ lines g e, IsWord row.1 ∧ ∀ b ∈ row.2, isSpace b = false := by
  cases e with
  | counter t =>
      intro row hrow
      rcases List.mem_pair.mp hrow with rfl | rfl
      · exact ⟨h, flag_words.1⟩
      · exact ⟨h.sv, flag_words.2.1⟩
  | event t =>
      intro row hrow
      rw [List.mem_singleton.mp hrow]
      exact ⟨h, by simp⟩

theorem map_rowMetadata_lines (e : Entry) : (lines g e).map rowMetadata = slotMetadata g e := by
  cases e <;> rfl

/-- The monitor reads the metadata of exactly the slots that are active, with
the flags of the two slots of a counter. -/
theorem metadata_round_trip (g : RecordTable) (es : List Entry) (numRecords : Int) (hl : LaidOut g es)
    (hd : (es.map Entry.record).Nodup) (hn : ∀ e ∈ es, IsWord (nameOf g e.record))
    (hfew : g.activeRecords.length < 2 ^ 31) :
    ∃ text, getRecordInfo g = .ok text ∧
      receiveMetainfo (text.length + 1) numRecords text =
        .ok ((g.activeRecords.length : Int), es.flatMap (slotMetadata g)) := by
  have hlen : g.activeRecords.length = (es.flatMap (lines g)).length := by
    rw [length_flatMap_lines, hl.active]
  have hrows : ∀ row ∈ es.flatMap (lines g), IsWord row.1 ∧ ∀ b ∈ row.2, isSpace b = false := by
    intro row hrow
    obtain ⟨e, he, hrow⟩ := List.mem_flatMap.mp hrow
    exact lines_words (hn e he) row hrow
  have hmap : (es.flatMap (lines g)).map rowMetadata = es.flatMap (slotMetadata g) := by
    rw [List.map_flatMap]
    exact congrArg (es.flatMap ·) (funext map_rowMetadata_lines)
  refine ⟨_, getRecordInfo_eq hl hd, ?_⟩
  rw [hlen, receiveMetainfo_table numRecords (hlen ▸ hfew) hrows, hmap]

theorem metadata_round_trip_time_memory :
    ∃ text, getRecordInfo (timeAndMemory [0, 0, 1]) = .ok text ∧
      receiveMetainfo (text.length + 1) 0 text =
        .ok (3, [Entry.counter 0, .event 1].flatMap (slotMetadata (timeAndMemory [0, 0, 1]))) :=
  metadata_round_trip (timeAndMemory [0, 0, 1]) [.counter 0, .event 1] 0 ⟨rfl, by decide⟩ (by decide)
    (by
      intro e he
      rcases List.mem_pair.mp he with rfl | rfl
      · exact ⟨List.cons_ne_nil _ _, not_space_of_all rfl⟩
      · exact ⟨List.cons_ne_nil _ _, not_space_of_all rfl⟩)
    (by decide)

end Llprof.Link.Metadata
