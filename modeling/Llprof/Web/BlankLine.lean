import Llprof.Web.Chunking

namespace Llprof.Web.BlankLine

open LittleEndian Text Request Chunking

def crlf : Bytes := [13, 10]

/-- A request line or a header line, without its line end. -/
def IsLine (line : Bytes) : Prop := line ≠ [] ∧ 10 ∉ line

instance (line : Bytes) : Decidable (IsLine line) := inferInstanceAs (Decidable (line ≠ [] ∧ 10 ∉ line))

/-- The lines before the blank line, the last of them without its line end. -/
def headerText : List Bytes → Bytes
  | [] => []
  | [line] => line
  | line :: lines => line ++ crlf ++ headerText lines

def request (lines : List Bytes) (body : Bytes) : Bytes := headerText lines ++ crlf ++ crlf ++ body

variable {buf : Bytes} {lines : List Bytes}

theorem headerLoop_piece (before : Bytes) (hlen : buf.length ≤ 1024) {pos skip : Nat}
    (h : findBlank buf = some (pos, skip)) (pieces : List Bytes) :
    headerLoop before (buf :: pieces) = .ok (before ++ buf.take pos, buf.drop (pos + skip), pieces) := by
  have hne : buf ≠ [] := by
    rintro rfl
    cases h
  have hlong : ¬ (1024 : Int) < buf.length := by omega
  rw [headerLoop, recvString, if_neg hne, if_neg hlong]
  simp only [h]

/-- A piece is cut at its first CRLF CRLF exactly if it has no two line feeds in a row,
which are looked for first. -/
theorem headerLoop_crlf_iff (hlen : buf.length ≤ 1024) {n : Nat}
    (h : find [13, 10, 13, 10] buf = some n) (pieces : List Bytes) :
    headerLoop [] (buf :: pieces) = .ok (buf.take n, buf.drop (n + 4), pieces) ↔ ¬ [10, 10] <:+: buf := by
  rw [← find_eq_none]
  cases hlf : find [10, 10] buf with
  | none =>
      have hblank : findBlank buf = some (n, 4) := by simp only [findBlank, hlf, h, Option.map_some]
      exact iff_of_true (headerLoop_piece [] hlen hblank pieces) rfl
  | some p =>
      have hblank : findBlank buf = some (p, 2) := by simp only [findBlank, hlf]
      refine iff_of_false (fun he => ?_) (by simp)
      rw [headerLoop_piece [] hlen hblank, Except.ok.injEq, Prod.mk.injEq, Prod.mk.injEq] at he
      obtain ⟨hhead, hbody, -⟩ := he
      have hp := (find_eq_some hlf).1
      have hn := (find_eq_some h).1
      have h₁ := congrArg List.length hhead
      have h₂ := congrArg List.length hbody
      simp only [List.nil_append, List.length_take, List.length_drop, List.length_cons,
        List.length_nil] at h₁ h₂ hp hn
      omega

theorem not_prefix_of_line {pat line s : Bytes} {c : UInt8} (hline : 10 ∉ line)
    (hpat : c :: 10 :: pat <+: line ++ s) : line.length ≤ 1 := by
  rcases line with _ | ⟨a, _ | ⟨b, line⟩⟩
  · exact Nat.zero_le 1
  · exact Nat.le_refl 1
  · obtain ⟨t, ht⟩ := hpat
    simp only [List.cons_append, List.cons.injEq] at ht
    exact absurd (by simp [← ht.2.1]) hline

theorem not_crlf_prefix {line s : Bytes} (hline : IsLine line) : ¬ crlf <+: line ++ 13 :: s := by
  intro h
  have hlen := not_prefix_of_line hline.2 h
  obtain ⟨c, hc⟩ := List.length_eq_one_iff.mp (Nat.le_antisymm hlen (List.length_pos_iff.mpr hline.1))
  rw [hc] at h
  obtain ⟨t, ht⟩ := h
  cases ht

theorem find_crlf_line {line s : Bytes} (hline : 10 ∉ line) :
    find [13, 10, 13, 10] (line ++ crlf ++ s) =
      (find [13, 10, 13, 10] (crlf ++ s)).map (· + line.length) := by
  rw [List.append_assoc]
  apply find_append
  intro u v he hv hp
  have hv10 : 10 ∉ v := fun h => hline (by rw [he]; exact List.mem_append_right u h)
  have hlen := not_prefix_of_line hv10 hp
  obtain ⟨c, rfl⟩ := List.length_eq_one_iff.mp (Nat.le_antisymm hlen (List.length_pos_iff.mpr hv))
  obtain ⟨t, ht⟩ := hp
  cases ht

theorem headerText_cons {line : Bytes} (h : lines ≠ []) :
    headerText (line :: lines) = line ++ crlf ++ headerText lines := by
  obtain ⟨l, ls, rfl⟩ := List.exists_cons_of_ne_nil h
  rfl

theorem find_crlf_request (hne : lines ≠ []) (hlines : ∀ l ∈ lines, IsLine l) (body : Bytes) :
    find [13, 10, 13, 10] (request lines body) = some (headerText lines).length := by
  induction lines with
  | nil => exact absurd rfl hne
  | cons line lines ih =>
      rw [List.forall_mem_cons] at hlines
      obtain ⟨hline, hlines⟩ := hlines
      cases lines with
      | nil =>
          have hend : [13, 10, 13, 10] <+: crlf ++ (crlf ++ body) := ⟨body, rfl⟩
          rw [request, headerText, List.append_assoc (line ++ crlf),
            find_crlf_line hline.2, find_at_start hend]
          simp
      | cons next lines =>
          have ih := ih (List.cons_ne_nil _ _) hlines
          have hnext : ¬ crlf <+: request (next :: lines) body := by
            have hsplit : ∃ s, request (next :: lines) body = next ++ 13 :: s := by
              cases lines with
              | nil => exact ⟨10 :: (crlf ++ body), by simp [request, headerText, crlf]⟩
              | cons l ls =>
                  refine ⟨10 :: (headerText (l :: ls) ++ crlf ++ crlf ++ body), ?_⟩
                  rw [request, headerText_cons (List.cons_ne_nil _ _)]
                  simp [crlf]
            obtain ⟨s, hs⟩ := hsplit
            rw [hs]
            exact not_crlf_prefix (hlines next List.mem_cons_self)
          have hstep : find [13, 10, 13, 10] (crlf ++ request (next :: lines) body) =
              (find [13, 10, 13, 10] (request (next :: lines) body)).map (· + crlf.length) := by
            apply find_append
            intro u v he hv hp
            rcases u with _ | ⟨a, _ | ⟨b, u⟩⟩
            · subst he
              exact hnext ((List.prefix_append_right_inj crlf).mp hp)
            · obtain rfl : [10] = v := (List.cons.inj he).2
              obtain ⟨t, ht⟩ := hp
              cases ht
            · have := congrArg List.length he
              have hpos := List.length_pos_iff.mpr hv
              simp only [crlf, List.length_append, List.length_cons, List.length_nil] at this
              omega
          have hsplit : request (line :: next :: lines) body = line ++ crlf ++
              request (next :: lines) body := by
            rw [request, headerText_cons (List.cons_ne_nil _ _), request]
            simp only [List.append_assoc]
          rw [hsplit, find_crlf_line hline.2, hstep, ih, headerText_cons (List.cons_ne_nil _ _)]
          simp [Nat.add_comm]

theorem find_lf_line {line s : Bytes} (hline : 10 ∉ line) :
    find [10, 10] (line ++ s) = none ↔ find [10, 10] s = none := by
  rw [find_append s, Option.map_eq_none_iff]
  intro u v he hv hp
  obtain ⟨c, v, rfl⟩ := List.exists_cons_of_ne_nil hv
  obtain ⟨t, ht⟩ := hp
  simp only [List.cons_append, List.cons.injEq] at ht
  exact hline (by rw [he, ← ht.1]; simp)

theorem find_lf_crlf {c : UInt8} (hc : c ≠ 10) (s : Bytes) :
    find [10, 10] (crlf ++ c :: s) = none ↔ find [10, 10] (c :: s) = none := by
  have hcr : ¬ [10, 10] <+: 13 :: (10 :: c :: s) := by
    rintro ⟨t, ht⟩
    cases ht
  have hlf : ¬ [10, 10] <+: 10 :: c :: s := by
    rintro ⟨t, ht⟩
    rw [List.cons_append, List.cons_append, List.cons.injEq, List.cons.injEq] at ht
    exact hc ht.2.1.symm
  change find [10, 10] (13 :: (10 :: c :: s)) = none ↔ _
  rw [find_cons hcr, find_cons hlf, Option.map_eq_none_iff, Option.map_eq_none_iff]

/-- The header has no two line feeds in a row, and the line feed before the body may
make two with its first character. -/
theorem lf_infix_request (hlines : ∀ l ∈ lines, IsLine l) (body : Bytes) :
    [10, 10] <:+: request lines body ↔ [10, 10] <:+: 10 :: body := by
  rw [← not_iff_not, ← find_eq_none, ← find_eq_none]
  have hend : find [10, 10] (crlf ++ crlf ++ body) = none ↔ find [10, 10] (10 :: body) = none := by
    have h13 : ¬ [10, 10] <+: 13 :: (10 :: body) := by
      rintro ⟨t, ht⟩
      cases ht
    have h := find_lf_crlf (c := 13) (by decide) (10 :: body)
    rw [find_cons h13, Option.map_eq_none_iff] at h
    rw [List.append_assoc]
    exact h
  induction lines with
  | nil => exact hend
  | cons line lines ih =>
      rw [List.forall_mem_cons] at hlines
      obtain ⟨hline, hlines⟩ := hlines
      cases lines with
      | nil =>
          rw [request, headerText, List.append_assoc line, List.append_assoc line, find_lf_line hline.2]
          exact hend
      | cons next lines =>
          have hsplit : request (line :: next :: lines) body = line ++
              (crlf ++ request (next :: lines) body) := by
            rw [request, headerText_cons (List.cons_ne_nil _ _), request]
            simp only [List.append_assoc]
          have hnext := hlines next List.mem_cons_self
          obtain ⟨c, s, hs⟩ : ∃ c s, request (next :: lines) body = c :: s ∧ c ≠ 10 := by
            obtain ⟨c, rest, hc⟩ := List.exists_cons_of_ne_nil hnext.1
            have hc10 : c ≠ 10 := fun he => hnext.2 (by rw [hc, he]; simp)
            cases lines with
            | nil => exact ⟨c, _, by rw [request, headerText, hc]; rfl, hc10⟩
            | cons l ls =>
              exact ⟨c, _, by rw [request, headerText_cons (List.cons_ne_nil _ _), hc]; rfl, hc10⟩
          have hrest := ih hlines
          rw [hs.1] at hrest
          rw [hsplit, find_lf_line hline.2, hs.1, find_lf_crlf hs.2]
          exact hrest

/-- A request in one piece is cut at its blank line exactly if its body neither begins
with a line feed nor has two of them in a row. -/
theorem header_ends_at_blank_line_iff (lines : List Bytes) (hne : lines ≠ [])
    (hlines : ∀ l ∈ lines, IsLine l) (body : Bytes) (hpiece : (request lines body).length ≤ 1024)
    (pieces : List Bytes) :
    headerLoop [] (request lines body :: pieces) = .ok (headerText lines, body, pieces) ↔
      ¬ [10, 10] <:+: 10 :: body := by
  have hcut := headerLoop_crlf_iff hpiece (find_crlf_request hne hlines body) pieces
  have htake : (request lines body).take (headerText lines).length = headerText lines := by
    rw [request, List.append_assoc, List.append_assoc, List.take_left]
  have hdrop : (request lines body).drop ((headerText lines).length + 4) = body := by
    have hlen : (headerText lines ++ crlf ++ crlf).length = (headerText lines).length + 4 := by simp [crlf]
    rw [request, ← hlen, List.drop_left]
  rwa [htake, hdrop, lf_infix_request hlines] at hcut

def postLines : List Bytes := [ascii "POST /ds HTTP/1.1", ascii "Content-Length: 4"]

theorem header_ends_at_blank_line_post :
    headerLoop [] [request postLines (ascii "a=\r\n")] = .ok (headerText postLines, ascii "a=\r\n", []) ↔
      ¬ [10, 10] <:+: 10 :: ascii "a=\r\n" :=
  header_ends_at_blank_line_iff postLines (by decide) (by decide) (ascii "a=\r\n") (by decide) []

theorem body_taken_for_header :
    (∀ l ∈ postLines, IsLine l) ∧ (request postLines (ascii "a\n\nb")).length ≤ 1024 ∧
      headerLoop [] [request postLines (ascii "a\n\nb")] =
        .ok (headerText postLines ++ crlf ++ crlf ++ ascii "a", ascii "b", []) ∧
      headerLoop [] [request postLines (ascii "a\n\nb")] ≠
        .ok (headerText postLines, ascii "a\n\nb", []) := by
  decide

end Llprof.Web.BlankLine
