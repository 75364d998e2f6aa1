import Llprof.Foundations.Avoiding
import Llprof.Foundations.Extraction
import Llprof.Link.Metadata
import Llprof.Wire.RecordWalk

namespace Llprof.Link.ReplyTexts

open Faulting hiding store
open LittleEndian Streams Avoiding Extraction Monitor.Nodes Metadata Wire.RecordWalk

def slideInfoLoop : Nat → Stream → MemberOffsets → Run MemberOffsets
  | 0, _, _ => .error .outOfFuel
  | fuel + 1, strm, info =>
      let strm := ws strm
      if strm.eof then
        .ok info
      else
        let (name, strm) := readWord [] strm
        let (offset, strm) := readInt32 0 strm
        slideInfoLoop fuel strm (info ++ [(name, Int32.ofInt offset)])

/-- The loop ends, or is not come to, since `resize` throws. -/
def Finishes {α : Type} (run : Nat → Run α) : Prop :=
  ∃ fuel, (∃ a, run fuel = .ok a) ∨ run fuel = .error .lengthError

def entryNumber (t : Bytes) : Number := number (dropBlanks (afterWord t))

/-- Names and numbers in turn. A number that is none, or no `int`, is the last thing of the text. -/
inductive SlideText : Bytes → Prop
  | blank {t : Bytes} (h : dropBlanks t = []) : SlideText t
  | entry {t : Bytes} (h : (entryNumber t).rest = [] ∨ (entryNumber t).fits = true)
      (rest : SlideText (entryNumber t).rest) : SlideText t

def afterWords (t : Bytes) : Bytes := afterWord (afterWord (afterWord t))

/-- Rows of an index and three words, where the indices are below `n`. -/
inductive Rows (n : Int) : Bytes → Prop
  | blank {t : Bytes} (h : dropBlanks t = []) : Rows n t
  | row {t : Bytes} (hidx : 0 ≤ (number (dropBlanks t)).stored ∧ (number (dropBlanks t)).stored < n)
      (h : (number (dropBlanks t)).rest = [] ∨ (number (dropBlanks t)).fits = true)
      (rest : Rows n (afterWords (number (dropBlanks t)).rest)) : Rows n t

/-- A number of rows and the rows, unless the number is negative. -/
def MetainfoText (t : Bytes) : Prop :=
  dropBlanks t = [] ∨ (number (dropBlanks t)).stored < 0 ∨
    ((number (dropBlanks t)).rest = [] ∨ (number (dropBlanks t)).fits = true) ∧
      Rows (number (dropBlanks t)).stored (number (dropBlanks t)).rest

variable {s : Stream} {t : Bytes}

theorem zero_int : -2 ^ 31 ≤ (0 : Int) ∧ (0 : Int) < 2 ^ 31 := by decide

theorem slideInfoLoop_end (h : At s t) (ht : dropBlanks t = []) (fuel : Nat) (info : MemberOffsets) :
    slideInfoLoop (fuel + 1) s info = .ok info := by
  rw [slideInfoLoop]
  exact if_pos (h.end_blanks ht)

theorem slideInfoLoop_entry (h : At s t) (ht : dropBlanks t ≠ []) (info : MemberOffsets) :
    ∃ s' info', At s' (afterWord t) ∧
      ∀ fuel, slideInfoLoop (fuel + 1) s info = slideInfoLoop fuel (readInt32 0 s').2 info' := by
  have hword := (At.good (dropBlanks t)).word []
  rw [afterWord_dropBlanks] at hword
  let entry := readWord [] (ofText (dropBlanks t))
  refine ⟨entry.2, info ++ [(entry.1, Int32.ofInt (readInt32 0 entry.2).1)], hword, fun fuel => ?_⟩
  rw [slideInfoLoop, h.blanks ht]
  rfl

theorem slideInfoLoop_stuck (h : Stuck s) (fuel : Nat) (info a : MemberOffsets) :
    slideInfoLoop fuel s info ≠ .ok a := by
  induction fuel generalizing s info with
  | zero => exact fun h => by cases h
  | succ fuel ih =>
      rw [slideInfoLoop, if_neg (by rw [h.blanks.eof]; decide)]
      exact ih ((h.blanks.word []).int zero_int) _

theorem slideInfoLoop_text (fuel : Nat) (h : At s t) {info a : MemberOffsets}
    (hrun : slideInfoLoop fuel s info = .ok a) : SlideText t := by
  induction fuel generalizing s t info with
  | zero => cases hrun
  | succ fuel ih =>
      by_cases ht : dropBlanks t = []
      · exact .blank ht
      · obtain ⟨s', info', hs', hturn⟩ := slideInfoLoop_entry h ht info
        rw [hturn] at hrun
        by_cases hn : (entryNumber t).rest = [] ∨ (entryNumber t).fits = true
        · exact .entry hn (ih (hs'.int zero_int hn) hrun)
        · exact absurd hrun (slideInfoLoop_stuck (hs'.stuck 0 hn) fuel _ _)

theorem SlideText.read (ht : SlideText t) (h : At s t) (info : MemberOffsets) :
    ∃ fuel a, slideInfoLoop fuel s info = .ok a := by
  induction ht generalizing s info with
  | blank ht => exact ⟨1, info, slideInfoLoop_end h ht 0 info⟩
  | @entry t hn _ ih =>
      by_cases ht : dropBlanks t = []
      · exact ⟨1, info, slideInfoLoop_end h ht 0 info⟩
      · obtain ⟨s', info', hs', hturn⟩ := slideInfoLoop_entry h ht info
        obtain ⟨fuel, a, hrun⟩ := ih (hs'.int zero_int hn) info'
        exact ⟨fuel + 1, a, (hturn fuel).trans hrun⟩

theorem metadata_at (h : At s t) (md : RecordMetadata) : At (readMetadata md s).2 (afterWords t) :=
  ((h.word _).word _).word _

theorem metadata_stuck (h : Stuck s) (md : RecordMetadata) : Stuck (readMetadata md s).2 :=
  ((h.word _).word _).word _

theorem metainfoLoop_end (h : At s t) (ht : dropBlanks t = []) (fuel : Nat) (table : List RecordMetadata) :
    metainfoLoop (fuel + 1) s table = .ok table := by
  rw [metainfoLoop]
  exact if_pos (h.end_blanks ht)

theorem metainfoLoop_row (h : At s t) (ht : dropBlanks t ≠ []) {table : List RecordMetadata}
    (hidx : 0 ≤ (number (dropBlanks t)).stored ∧ (number (dropBlanks t)).stored < table.length) :
    ∃ md table', table'.length = table.length ∧ ∀ fuel, metainfoLoop (fuel + 1) s table =
      metainfoLoop fuel (readMetadata md (readInt32 0 (ofText (dropBlanks t))).2).2 table' := by
  have hlt : (number (dropBlanks t)).stored.toNat < table.length := by omega
  have hread := readInt32_good 0 (t := dropBlanks t) (by rwa [dropBlanks_idem])
  rw [dropBlanks_idem] at hread
  let md := table[(number (dropBlanks t)).stored.toNat]
  refine ⟨md, table.set (number (dropBlanks t)).stored.toNat (readMetadata md (number (dropBlanks t)).stream).1,
    List.length_set, fun fuel => ?_⟩
  have hok : (ofText (dropBlanks t)).eof = false := rfl
  have hfetch : fetch table (number (dropBlanks t)).stored.toNat = .ok md :=
    fetch_eq_ok.mpr (List.getElem?_eq_getElem hlt)
  rw [metainfoLoop, h.blanks ht, if_neg (by rw [hok]; decide)]
  simp only [hread, require_of hidx.1, ok_bind, hfetch, Faulting.store, if_pos hlt]

theorem metainfoLoop_outside (h : At s t) (ht : dropBlanks t ≠ []) {table a : List RecordMetadata}
    (hidx : ¬ (0 ≤ (number (dropBlanks t)).stored ∧ (number (dropBlanks t)).stored < table.length))
    (fuel : Nat) :
    metainfoLoop (fuel + 1) s table ≠ .ok a := by
  have hread := readInt32_good 0 (t := dropBlanks t) (by rwa [dropBlanks_idem])
  rw [dropBlanks_idem] at hread
  have hok : (ofText (dropBlanks t)).eof = false := rfl
  rw [metainfoLoop, h.blanks ht, if_neg (by rw [hok]; decide)]
  simp only [hread]
  intro hrun
  obtain ⟨_, hpos, hrun⟩ := bind_eq_ok.mp hrun
  obtain ⟨md, hmd, -⟩ := bind_eq_ok.mp hrun
  have hpos := require_eq_ok.mp hpos
  have hlt := (List.getElem?_eq_some_iff.mp (fetch_eq_ok.mp hmd)).1
  exact hidx ⟨hpos, by omega⟩

theorem metainfoLoop_stuck (h : Stuck s) (fuel : Nat) (table a : List RecordMetadata) :
    metainfoLoop fuel s table ≠ .ok a := by
  induction fuel generalizing s table with
  | zero => exact fun h => by cases h
  | succ fuel ih =>
      rw [metainfoLoop, if_neg (by rw [h.blanks.eof]; decide)]
      intro hrun
      obtain ⟨_, -, hrun⟩ := bind_eq_ok.mp hrun
      obtain ⟨md, -, hrun⟩ := bind_eq_ok.mp hrun
      obtain ⟨table', -, hrun⟩ := bind_eq_ok.mp hrun
      exact ih (metadata_stuck (h.blanks.int zero_int) md) table' hrun

theorem metainfoLoop_text (fuel : Nat) (h : At s t) {table a : List RecordMetadata}
    (hrun : metainfoLoop fuel s table = .ok a) : Rows table.length t := by
  induction fuel generalizing s t table with
  | zero => cases hrun
  | succ fuel ih =>
      by_cases ht : dropBlanks t = []
      · exact .blank ht
      by_cases hidx : 0 ≤ (number (dropBlanks t)).stored ∧ (number (dropBlanks t)).stored < table.length
      · obtain ⟨md, table', hlen, hturn⟩ := metainfoLoop_row h ht hidx
        have hat := At.good (dropBlanks t)
        rw [hturn] at hrun
        by_cases hn : (number (dropBlanks t)).rest = [] ∨ (number (dropBlanks t)).fits = true
        · have hint := hat.int zero_int (by rwa [dropBlanks_idem])
          rw [dropBlanks_idem] at hint
          have hrows := ih (metadata_at hint md) hrun
          rw [hlen] at hrows
          exact .row hidx hn hrows
        · exact absurd hrun (metainfoLoop_stuck (metadata_stuck (hat.stuck 0 (by rwa [dropBlanks_idem])) md) fuel _ _)
      · exact absurd hrun (metainfoLoop_outside h ht hidx fuel)

theorem Rows.read {n : Int} (ht : Rows n t) (h : At s t) {table : List RecordMetadata}
    (hlen : (table.length : Int) = n) : ∃ fuel a, metainfoLoop fuel s table = .ok a := by
  induction ht generalizing s table with
  | blank ht => exact ⟨1, table, metainfoLoop_end h ht 0 table⟩
  | @row t hidx hn _ ih =>
      by_cases ht : dropBlanks t = []
      · exact ⟨1, table, metainfoLoop_end h ht 0 table⟩
      · obtain ⟨md, table', hlen', hturn⟩ := metainfoLoop_row h ht (hlen ▸ hidx)
        have hint := (At.good (dropBlanks t)).int zero_int (by rwa [dropBlanks_idem])
        rw [dropBlanks_idem] at hint
        obtain ⟨fuel, a, hrun⟩ := ih (metadata_at hint md) (hlen' ▸ hlen)
        exact ⟨fuel + 1, a, (hturn fuel).trans hrun⟩

theorem slideInfo_finishes_iff (info : MemberOffsets) (text : Bytes) :
    (∃ fuel a, slideInfoLoop fuel (ofText text) info = .ok a) ↔ SlideText text := by
  constructor
  · rintro ⟨fuel, a, hrun⟩
    exact slideInfoLoop_text fuel (.good text) hrun
  · intro h
    exact h.read (.good text) info

theorem metainfoLoop_finishes_iff (h : At s t) (table : List RecordMetadata) :
    (∃ fuel a, metainfoLoop fuel s table = .ok a) ↔ Rows table.length t := by
  constructor
  · rintro ⟨fuel, a, hrun⟩
    exact metainfoLoop_text fuel h hrun
  · intro hrows
    exact hrows.read h rfl

theorem metainfoLoop_throws (fuel : Nat) (s : Stream) (table : List RecordMetadata) :
    metainfoLoop fuel s table ≠ .error .lengthError := by
  have havoids : Avoids (· = .lengthError) (fun _ => True) (metainfoLoop fuel s table) := by
    induction fuel generalizing s table with
    | zero => exact Fault.noConfusion
    | succ fuel ih =>
        rw [metainfoLoop]
        dsimp only
        split
        · trivial
        · refine (avoids_require Fault.noConfusion).bind fun _ _ => ?_
          refine (avoids_fetch Fault.noConfusion _ _).bind fun md _ => ?_
          refine Avoids.bind (P := fun _ => True) ?_ fun table' _ => ih _ table'
          by_cases hlt : (readInt32 0 (ws s)).1.toNat < table.length <;> simp [Faulting.store, hlt]
  exact havoids.no_fault rfl

theorem receiveMetainfo_negative {numRecords : Int} {text : Bytes}
    (h : (readInt32 numRecords (ofText text)).1 < 0) :
    Finishes (fun fuel => receiveMetainfo fuel numRecords text) := by
  refine ⟨0, Or.inr ?_⟩
  simp only [receiveMetainfo, require, if_neg (not_le.mpr h), error_bind]

theorem receiveMetainfo_loop {numRecords : Int} {text : Bytes}
    (h : 0 ≤ (readInt32 numRecords (ofText text)).1) :
    Finishes (fun fuel => receiveMetainfo fuel numRecords text) ↔
      ∃ fuel a, metainfoLoop fuel (readInt32 numRecords (ofText text)).2
        (List.replicate (readInt32 numRecords (ofText text)).1.toNat emptyMetadata) = .ok a := by
  simp only [Finishes, receiveMetainfo, require_of h, ok_bind]
  refine exists_congr fun fuel => ?_
  cases hrun : metainfoLoop fuel (readInt32 numRecords (ofText text)).2
    (List.replicate (readInt32 numRecords (ofText text)).1.toNat emptyMetadata) with
  | ok a => simp
  | error e =>
      have hne : e ≠ .lengthError := by
        rintro rfl
        exact metainfoLoop_throws _ _ _ hrun
      simp [hne]

theorem metainfo_finishes_iff (numRecords : Int) (text : Bytes) :
    Finishes (fun fuel => receiveMetainfo fuel numRecords text) ↔ MetainfoText text := by
  by_cases hneg : (readInt32 numRecords (ofText text)).1 < 0
  · refine iff_of_true (receiveMetainfo_negative hneg) ?_
    by_cases ht : dropBlanks text = []
    · exact Or.inl ht
    · rw [readInt32_good _ ht] at hneg
      exact Or.inr (Or.inl hneg)
  rw [receiveMetainfo_loop (not_lt.mp hneg)]
  by_cases ht : dropBlanks text = []
  · refine iff_of_true ⟨1, _, metainfoLoop_end (t := text) ?_ ht 0 _⟩ (Or.inl ht)
    rw [readInt32_blank numRecords ht]
    exact .ended rfl ht
  rw [readInt32_good numRecords ht] at hneg ⊢
  rw [MetainfoText, or_iff_right ht, or_iff_right hneg]
  by_cases hn : (number (dropBlanks text)).rest = [] ∨ (number (dropBlanks text)).fits = true
  · have hrows := metainfoLoop_finishes_iff (at_stream hn)
      (List.replicate (number (dropBlanks text)).stored.toNat emptyMetadata)
    rw [List.length_replicate, Int.toNat_of_nonneg (not_lt.mp hneg)] at hrows
    rw [hrows, and_iff_right hn]
  · have hstuck := (At.good text).stuck numRecords hn
    rw [readInt32_good numRecords ht] at hstuck
    refine iff_of_false ?_ (fun h => hn h.1)
    rintro ⟨fuel, a, hrun⟩
    exact metainfoLoop_stuck hstuck fuel _ _ hrun

/-- The two loops end on the replies, without an index outside of the table, exactly if
both are texts that are read to their end. -/
theorem replies_parsed_iff (info : MemberOffsets) (slide : Bytes) (numRecords : Int) (metainfo : Bytes) :
    ((∃ fuel a, slideInfoLoop fuel (ofText slide) info = .ok a) ∧
        Finishes (fun fuel => receiveMetainfo fuel numRecords metainfo)) ↔
      SlideText slide ∧ MetainfoText metainfo :=
  and_congr (slideInfo_finishes_iff info slide) (metainfo_finishes_iff numRecords metainfo)

/-- A word where an offset belongs, and an index of a row that the table does not have. -/
theorem reply_loop_fails :
    (∀ fuel a, slideInfoLoop fuel (ofText (ascii "pdata.nameid x 0")) [] ≠ .ok a) ∧
      receiveMetainfo 2 0 (ascii "1 1 T U f") = .error .outOfRange := by
  refine ⟨fun fuel a hrun => ?_, by decide⟩
  have hbad : ¬ ((entryNumber (ascii "pdata.nameid x 0")).rest = [] ∨
      (entryNumber (ascii "pdata.nameid x 0")).fits = true) := by
    decide
  cases slideInfoLoop_text fuel (.good _) hrun with
  | blank h => exact absurd h (by decide)
  | entry h _ => exact hbad h

end Llprof.Link.ReplyTexts
