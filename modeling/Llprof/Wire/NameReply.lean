import Llprof.Foundations.TreeMaps
import Llprof.Wire.DrainMessages

namespace Llprof.Wire.NameReply

open Faulting LittleEndian Streams Network Framing NameQuery ProfileData DrainMessages

def unknownNameids (names : NameTable) (ids : List Nat) : List Nat :=
  (ids.filter (fun x => !names.contains x)).eraseDups

theorem mem_unknownNameids {names : NameTable} {ids : List Nat} {x : Nat} :
    x ∈ unknownNameids names ids ↔ x ∈ ids ∧ names.contains x = false := by
  rw [unknownNameids, List.mem_eraseDups, List.mem_filter, Bool.not_eq_true']

theorem unknownNameids_append (names : NameTable) (ids : List Nat) (x : Nat) :
    unknownNameids names (ids ++ [x]) =
      if names.contains x = true ∨ x ∈ ids then unknownNameids names ids else unknownNameids names ids ++
        [x] := by
  have hsplit : unknownNameids names (ids ++ [x]) = unknownNameids names ids ++
      (([x].filter (fun x => !names.contains x)).removeAll (ids.filter (fun x => !names.contains x))).eraseDups := by
    rw [unknownNameids, List.filter_append, List.eraseDups_append, unknownNameids]
  rw [hsplit]
  by_cases hx : names.contains x = true
  · simp [hx, List.removeAll]
  · by_cases hm : x ∈ ids
    · simp [hx, hm, List.removeAll]
    · simp [hx, hm, List.removeAll, List.eraseDups_cons]

theorem askName_unknown (names : NameTable) (ids : List Nat) :
    (ids.foldl askName ⟨names, []⟩).queryNames =
      (if unknownNameids names ids = [] then [] else 0 :: unknownNameids names ids) ∧
    ∀ x : Nat, (ids.foldl askName ⟨names, []⟩).names[x]? =
      if x ∈ unknownNameids names ids then some (ascii "<Asking>") else names[x]? := by
  induction ids using List.reverseRecOn with
  | nil => exact ⟨rfl, fun x => rfl⟩
  | append_singleton ids x ih =>
      obtain ⟨hq, hn⟩ := ih
      have hcontains : (ids.foldl askName ⟨names, []⟩).names.contains x = true ↔
          names.contains x = true ∨ x ∈ ids := by
        rw [TreeMaps.contains_iff_some, hn x, TreeMaps.contains_iff_some]
        by_cases hx : x ∈ unknownNameids names ids
        · rw [if_pos hx]
          exact iff_of_true ⟨_, rfl⟩ (Or.inr (mem_unknownNameids.mp hx).1)
        · rw [if_neg hx]
          refine ⟨Or.inl, ?_⟩
          rintro (h | h)
          · exact h
          · rw [mem_unknownNameids, not_and, Bool.not_eq_false] at hx
            exact TreeMaps.contains_iff_some.mp (hx h)
      rw [List.foldl_append, List.foldl_cons, List.foldl_nil, unknownNameids_append, askName]
      by_cases hold : names.contains x = true ∨ x ∈ ids
      · rw [if_pos (hcontains.mpr hold), if_pos hold]
        exact ⟨hq, hn⟩
      · rw [if_neg (mt hcontains.mp hold), if_neg hold]
        constructor
        · rw [hq]
          by_cases hnil : unknownNameids names ids = [] <;> simp [hnil]
        · intro y
          rw [TreeMaps.getElem?_insert, hn y]
          by_cases hy : y = x <;> simp [hy]

theorem unknownNameids_nodup (names : NameTable) (ids : List Nat) : (unknownNameids names ids).Nodup := by
  obtain ⟨-, l, hn, -, hl⟩ := askName_fold names ids
  rw [(askName_unknown names ids).1] at hl
  by_cases hnil : unknownNameids names ids = []
  · rw [hnil]
    exact List.nodup_nil
  · by_cases hl' : l = []
    · simp [hnil, hl'] at hl
    · rw [if_neg hnil, if_neg hl', List.cons.injEq] at hl
      rw [hl.2]
      exact hn

def lines (t : NameTable) (ids : List Nat) : Bytes := ids.flatMap (fun x => NameTable.get t x ++ [10])

theorem lines_cons (t : NameTable) (x : Nat) (ids : List Nat) :
    lines t (x :: ids) = NameTable.get t x ++ 10 :: lines t ids := by
  simp [lines]

theorem length_lines_of_empty {t : NameTable} {ids : List Nat} (h : ∀ x ∈ ids, NameTable.get t x = []) :
    (lines t ids).length = ids.length := by
  induction ids with
  | nil => rfl
  | cons x ids ih =>
      rw [List.forall_mem_cons] at h
      rw [lines_cons, h.1, List.nil_append, List.length_cons, List.length_cons, ih h.2]

theorem answerLoop_lines (t : NameTable) (msgbuf : Bytes) (ids : List Nat) (i : Nat) (a : Answer)
    (hword : ∀ j x, ids[j]? = some x → word 8 (8 * (i + j)) msgbuf = x) (htype : a.subsecType = QUERY_NAMES)
    (hrem : a.subsecRem < 0 ∨ (ids.length : Int) ≤ a.subsecRem) (hbuf : a.nameBuf.length ≤ nameBufSize) :
    answerLoop t msgbuf ids.length i a = .ok (.message MSG_NAMES (a.nameBuf ++ lines t ids)) ∨
      answerLoop t msgbuf ids.length i a = .ok (.message MSG_ERROR []) ∧
        nameBufSize < (a.nameBuf ++ lines t ids).length := by
  induction ids generalizing i a with
  | nil =>
      left
      rw [List.length_nil, answerLoop]
      simp [lines]
  | cons x ids ih =>
      rw [List.length_cons] at hrem ⊢
      have hx : word 8 (8 * i) msgbuf = x := hword 0 x rfl
      rw [answerLoop, if_neg (by omega), if_pos htype, hx]
      dsimp only
      by_cases hfull : nameBufSize ≤ (NameTable.get t x).length + a.nameBuf.length
      · rw [if_pos hfull]
        refine Or.inr ⟨rfl, ?_⟩
        rw [lines_cons, List.length_append, List.length_append, List.length_cons]
        omega
      · have hfits : (a.nameBuf ++ NameTable.get t x).length < nameBufSize := by
          rw [List.length_append]
          omega
        rw [if_neg hfull, putSeparator, if_pos hfits, ok_bind]
        have happend : a.nameBuf ++ lines t (x :: ids) = a.nameBuf ++ NameTable.get t x ++
            [10] ++ lines t ids := by
          rw [lines_cons]
          simp
        rw [happend]
        apply ih (i + 1)
        · intro j y hy
          have := hword (j + 1) y hy
          rwa [Nat.add_comm j 1, ← Nat.add_assoc] at this
        · exact htype
        · dsimp only
          omega
        · simp only [List.length_append, List.length_singleton] at hfits ⊢
          omega

theorem word_flatMap {ids : List Nat} (h64 : ∀ x ∈ ids, x < 2 ^ 64) (post : Bytes) {j x : Nat}
    (hj : ids[j]? = some x) : word 8 (8 * j) (ids.flatMap (toBytes 8) ++ post) = x := by
  induction ids generalizing j with
  | nil => cases hj
  | cons y ids ih =>
      rw [List.forall_mem_cons] at h64
      rw [List.flatMap_cons, List.append_assoc]
      rcases j with _ | j
      · obtain rfl : y = x := Option.some.inj hj
        have hw := word_append_toBytes [] (ids.flatMap (toBytes 8) ++ post) 8 y
        exact hw.trans (Nat.mod_eq_of_lt h64.1)
      · have hoff : 8 * (j + 1) = (toBytes 8 y).length + 8 * j := by
          rw [length_toBytes]
          omega
        rw [hoff, word_append_right, ih h64.2 hj]

theorem answerNames_lines (t : NameTable) {ids : List Nat} (h64 : ∀ x ∈ ids, x < 2 ^ 64) (slots : Nat)
    (hslots : (ids.length + 1) % 2 ^ 29 = slots) (post : Bytes) :
    answerNames t (8 * slots) ((queryBytes (0 :: ids)).take (8 * slots) ++ post) =
        .ok (.message MSG_NAMES (lines t (ids.take (slots - 1)))) ∨
      answerNames t (8 * slots) ((queryBytes (0 :: ids)).take (8 * slots) ++ post) =
        .ok (.message MSG_ERROR []) ∧ nameBufSize < (lines t (ids.take (slots - 1))).length := by
  rw [answerNames, Nat.mul_div_cancel_left _ (by omega)]
  rcases slots with _ | n
  · left
    rw [answerLoop]
    rfl
  · have hlen : (ids.take n).length = n := by
      rw [List.length_take]
      omega
    have hbuf : (queryBytes (0 :: ids)).take (8 * (n + 1)) ++ post =
        toBytes 4 1 ++ toBytes 4 ids.length ++ ((ids.take n).flatMap (toBytes 8) ++ post) := by
      have hids : (ids.flatMap (toBytes 8)).take (8 * n) = (ids.take n).flatMap (toBytes 8) := by
        have hsplit := congrArg (List.flatMap (toBytes 8)) (List.take_append_drop n ids)
        rw [List.flatMap_append] at hsplit
        rw [← hsplit, List.take_left' (by rw [length_flatMap_toBytes, hlen])]
      have hhead : (toBytes 4 1 ++ toBytes 4 ids.length).length = 8 := by simp
      have height : 8 * (n + 1) = 8 + 8 * n := by omega
      have hq : queryBytes (0 :: ids) = toBytes 4 1 ++ toBytes 4 ids.length ++ ids.flatMap (toBytes 8) := rfl
      rw [hq, height, List.take_append, List.take_of_length_le (by omega), hhead,
        Nat.add_sub_cancel_left, hids, List.append_assoc]
    have htype : word 4 0 (toBytes 4 1 ++ toBytes 4 ids.length ++ ((ids.take n).flatMap (toBytes 8) ++ post)) = 1 := by
      rw [List.append_assoc]
      exact word_append_toBytes [] _ 4 1
    have hcount : word 4 4 (toBytes 4 1 ++ toBytes 4 ids.length ++ ((ids.take n).flatMap (toBytes 8) ++ post)) =
        ids.length % 2 ^ 32 := word_append_toBytes (toBytes 4 1) _ 4 ids.length
    rw [hbuf, answerLoop, if_pos rfl]
    have hloop :=
      answerLoop_lines t (toBytes 4 1 ++ toBytes 4 ids.length ++ ((ids.take n).flatMap (toBytes 8) ++ post))
        (ids.take n) 1 ⟨toInt32 (word 4 (8 * 0 + 4) (toBytes 4 1 ++ toBytes 4 ids.length ++
          ((ids.take n).flatMap (toBytes 8) ++ post))),
            toInt32 (word 4 (8 * 0) (toBytes 4 1 ++ toBytes 4 ids.length ++
          ((ids.take n).flatMap (toBytes 8) ++ post))), []⟩ ?_ ?_ ?_ (Nat.zero_le _)
    · rw [hlen] at hloop
      exact hloop
    · intro j x hx
      have hoff : 8 * (1 + j) = (toBytes 4 1 ++ toBytes 4 ids.length).length + 8 * j := by
        rw [List.length_append, length_toBytes, length_toBytes]
        omega
      rw [hoff, word_append_right]
      exact word_flatMap (fun y hy => h64 y (List.mem_of_mem_take hy)) post hx
    · dsimp only
      rw [Nat.mul_zero, htype]
      rfl
    · dsimp only
      rw [Nat.mul_zero, Nat.zero_add, hcount, hlen, toInt32]
      split <;> omega

def nthLine : Nat → Stream → Bytes
  | 0, strm => (getline strm).1
  | n + 1, strm => nthLine n (getline strm).2

theorem getline_line {w : Bytes} (hw : (10 : UInt8) ∉ w) (rest : Bytes) :
    getline (ofText (w ++ 10 :: rest)) = (w, ofText rest) := by
  have hall : ∀ b ∈ w, (b != 10) = true := by
    intro b hb
    rw [bne_iff_ne]
    exact ne_of_mem_of_not_mem hb hw
  obtain ⟨ht, hd⟩ := takeWhile_dropWhile_append (p := fun b => b != 10) rest hall (c := 10) rfl
  simp [getline, ofText, ht, hd]

theorem nthLine_failed {strm : Stream} (h : strm.eof = true ∨ strm.fail = true) (n : Nat) :
    nthLine n strm = [] := by
  have hg : getline strm = ([], { strm with fail := true }) := by
    rw [getline, if_pos]
    rcases h with h | h <;> simp [h]
  induction n generalizing strm with
  | zero => rw [nthLine, hg]
  | succ n ih =>
      rw [nthLine, hg]
      apply ih
      · exact Or.inr rfl
      · rw [getline, if_pos]
        simp

theorem nthLine_nil (n : Nat) : nthLine n (ofText []) = [] := by
  rcases n with _ | n
  · rfl
  · exact nthLine_failed (Or.inl rfl) n

theorem newline_not_mem_getline (strm : Stream) : (10 : UInt8) ∉ (getline strm).1 := by
  have hline : (10 : UInt8) ∉ strm.rest.takeWhile (fun b => b != 10) := by
    intro h
    have := List.all_eq_true.mp List.all_takeWhile 10 h
    simp at this
  unfold getline
  split
  · exact List.not_mem_nil
  · dsimp only
    split <;> exact hline

theorem newline_not_mem_nthLine (n : Nat) (strm : Stream) : (10 : UInt8) ∉ nthLine n strm := by
  induction n generalizing strm with
  | zero => exact newline_not_mem_getline strm
  | succ n ih => exact ih _

theorem nthLine_lines {t : NameTable} {ids : List Nat}
    (h : ∀ x ∈ ids, (10 : UInt8) ∉ NameTable.get t x) (n : Nat) :
    nthLine n (ofText (lines t ids)) = ((ids.map (NameTable.get t))[n]?).getD [] := by
  induction ids generalizing n with
  | nil => exact nthLine_nil n
  | cons x ids ih =>
      rw [List.forall_mem_cons] at h
      have hline := getline_line h.1 (lines t ids)
      rw [lines_cons, List.map_cons]
      rcases n with _ | n
      · rw [nthLine, hline]
        rfl
      · rw [nthLine, hline, ih h.2]
        rfl

theorem setNames_of_not_mem {ids : List Nat} {x : Nat} (h : x ∉ ids) (strm : Stream) (names : NameTable) :
    (setNames ids strm names)[x]? = names[x]? := by
  induction ids generalizing strm names with
  | nil => rfl
  | cons y ids ih =>
      rw [List.mem_cons, not_or] at h
      rw [setNames, ih h.2, TreeMaps.getElem?_insert_ne _ h.1]

theorem setNames_of_getElem? {ids : List Nat} (hn : ids.Nodup) {n x : Nat}
    (hx : ids[n]? = some x) (strm : Stream) (names : NameTable) :
    (setNames ids strm names)[x]? = some (nthLine n strm) := by
  induction ids generalizing n strm names with
  | nil => cases hx
  | cons y ids ih =>
      rw [List.nodup_cons] at hn
      rw [setNames]
      rcases n with _ | n
      · obtain rfl : y = x := Option.some.inj hx
        rw [setNames_of_not_mem hn.1, TreeMaps.getElem?_insert_self]
        rfl
      · exact ih hn.2 hx _ _

/-- The lines of the first `m` nameids are read back as the names of all exactly
if these have no newline and the rest is empty. -/
theorem setNames_lines_iff (t : NameTable) {ids : List Nat} (hn : ids.Nodup) (m : Nat) (names : NameTable) :
    (∀ x ∈ ids, (setNames ids (ofText (lines t (ids.take m))) names)[x]? = some (NameTable.get t x)) ↔
      (∀ x ∈ ids, (10 : UInt8) ∉ NameTable.get t x) ∧ ∀ x ∈ ids.drop m, NameTable.get t x = [] := by
  constructor
  · intro h
    have hclean : ∀ x ∈ ids, (10 : UInt8) ∉ NameTable.get t x := by
      intro x hx
      obtain ⟨n, hn'⟩ := List.mem_iff_getElem?.mp hx
      have hline := h x hx
      rw [setNames_of_getElem? hn hn', Option.some.injEq] at hline
      rw [← hline]
      exact newline_not_mem_nthLine n _
    refine ⟨hclean, fun x hx => ?_⟩
    obtain ⟨n, hn'⟩ := List.mem_iff_getElem?.mp hx
    rw [List.getElem?_drop] at hn'
    have hline := h x (List.mem_of_mem_drop hx)
    rw [setNames_of_getElem? hn hn', Option.some.injEq,
      nthLine_lines (fun y hy => hclean y (List.mem_of_mem_take hy)), List.getElem?_eq_none] at hline
    · exact hline.symm
    · rw [List.length_map, List.length_take]
      omega
  · rintro ⟨hclean, hempty⟩ x hx
    obtain ⟨n, hn'⟩ := List.mem_iff_getElem?.mp hx
    rw [setNames_of_getElem? hn hn', nthLine_lines (fun y hy => hclean y (List.mem_of_mem_take hy)),
      List.getElem?_map, Option.some.injEq]
    by_cases hm : n < m
    · rw [List.getElem?_take_of_lt hm, hn']
      rfl
    · have hdrop : x ∈ ids.drop m := by
        apply List.mem_of_getElem? (i := n - m)
        rw [List.getElem?_drop, Nat.add_sub_cancel' (Nat.not_lt.mp hm), hn']
      rw [hempty x hdrop, List.getElem?_eq_none (by rw [List.length_take]; omega)]
      rfl

end Llprof.Wire.NameReply
