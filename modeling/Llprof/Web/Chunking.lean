import Llprof.Web.Request

namespace Llprof.Web.Chunking

open LittleEndian Text Libraries Request

/-- The offset of a blank line in the request, the length of its line ends and the
offset at which its piece ends. -/
structure HeaderEnd where
  offset : Nat
  skip : Nat
  pieceEnd : Nat
  deriving DecidableEq, Repr

/-- The first piece that holds a whole blank line, when `start` bytes precede. -/
def firstBlank (start : Nat) : List Bytes → Option HeaderEnd
  | [] => none
  | buf :: pieces =>
      match findBlank buf with
      | some (rrpos, nrskip) => some ⟨start + rrpos, nrskip, start + buf.length⟩
      | none => firstBlank (start + buf.length) pieces

theorem firstBlank_found {start : Nat} {buf : Bytes} {pieces : List Bytes} {pos skip : Nat}
    (h : findBlank buf = some (pos, skip)) :
    firstBlank start (buf :: pieces) = some ⟨start + pos, skip, start + buf.length⟩ := by
  rw [firstBlank, h]

theorem firstBlank_next {start : Nat} {buf : Bytes} {pieces : List Bytes} (h : findBlank buf = none) :
    firstBlank start (buf :: pieces) = firstBlank (start + buf.length) pieces := by
  rw [firstBlank, h]

def BlankAt (s : Bytes) (skip : Nat) : Prop :=
  skip = 2 ∧ [10, 10] <+: s ∨ skip = 4 ∧ [13, 10, 13, 10] <+: s

theorem BlankAt.skip_eq {s : Bytes} {skip skip' : Nat} (h : BlankAt s skip) (h' : BlankAt s skip') :
    skip = skip' := by
  have hne : ¬ ([10, 10] <+: s ∧ [13, 10, 13, 10] <+: s) := by
    rintro ⟨⟨r, rfl⟩, r', hr'⟩
    cases hr'
  rcases h with ⟨rfl, hp⟩ | ⟨rfl, hp⟩ <;> rcases h' with ⟨rfl, hp'⟩ | ⟨rfl, hp'⟩
  · rfl
  · exact absurd ⟨hp, hp'⟩ hne
  · exact absurd ⟨hp', hp⟩ hne
  · rfl

theorem findBlank_eq_some {buf : Bytes} {pos skip : Nat} (h : findBlank buf = some (pos, skip)) :
    pos + skip ≤ buf.length ∧ BlankAt (buf.drop pos) skip := by
  cases hlf : find [10, 10] buf with
  | some p =>
      simp only [findBlank, hlf, Option.some.injEq, Prod.mk.injEq] at h
      obtain ⟨rfl, rfl⟩ := h
      obtain ⟨hlen, hp⟩ := find_eq_some hlf
      exact ⟨hlen, Or.inl ⟨rfl, hp⟩⟩
  | none =>
      simp only [findBlank, hlf, Option.map_eq_some_iff, Prod.mk.injEq] at h
      obtain ⟨p, hcr, rfl, rfl⟩ := h
      obtain ⟨hlen, hp⟩ := find_eq_some hcr
      exact ⟨hlen, Or.inr ⟨rfl, hp⟩⟩

theorem BlankAt.append {s : Bytes} {skip : Nat} (h : BlankAt s skip) (t : Bytes) : BlankAt (s ++ t) skip := by
  rcases h with ⟨rfl, hp⟩ | ⟨rfl, hp⟩
  · exact Or.inl ⟨rfl, hp.trans (List.prefix_append s t)⟩
  · exact Or.inr ⟨rfl, hp.trans (List.prefix_append s t)⟩

theorem firstBlank_eq_some {pieces : List Bytes} (before : Bytes) {e : HeaderEnd}
    (h : firstBlank before.length pieces = some e) :
    e.offset + e.skip ≤ e.pieceEnd ∧ e.pieceEnd ≤ (before ++ pieces.flatten).length ∧
      BlankAt ((before ++ pieces.flatten).drop e.offset) e.skip := by
  induction pieces generalizing before with
  | nil => cases h
  | cons buf pieces ih =>
      rw [List.flatten_cons]
      cases hb : findBlank buf with
      | none =>
          rw [firstBlank_next hb, ← List.length_append] at h
          rw [← List.append_assoc]
          exact ih _ h
      | some found =>
          obtain ⟨pos, skip⟩ := found
          obtain ⟨hlen, hblank⟩ := findBlank_eq_some hb
          rw [firstBlank_found hb, Option.some.injEq] at h
          subst h
          refine ⟨?_, ?_, ?_⟩
          · dsimp only
            omega
          · simp only [List.length_append]
            omega
          · dsimp only
            rw [← List.drop_drop, List.drop_left, List.drop_append_of_le_length (by omega)]
            exact hblank.append _

theorem headerLoop_some {pieces : List Bytes} (before : Bytes) {e : HeaderEnd}
    (h : firstBlank before.length pieces = some e) (hfail : headerLoop before pieces ≠ .error .undeliverable)
    (hne : ∀ p ∈ pieces, p ≠ []) :
    ∃ rest, headerLoop before pieces = .ok ((before ++ pieces.flatten).take e.offset,
        ((before ++ pieces.flatten).take e.pieceEnd).drop (e.offset + e.skip), rest) ∧
      rest.flatten = (before ++ pieces.flatten).drop e.pieceEnd ∧ ∀ p ∈ rest, p ≠ [] := by
  induction pieces generalizing before with
  | nil => cases h
  | cons buf pieces ih =>
      rw [List.forall_mem_cons] at hne
      have hrecv : recvString 1024 (buf :: pieces) = .ok (buf, pieces) := by
        by_cases hlong : (1024 : Int) < buf.length
        · exfalso
          apply hfail
          rw [headerLoop, recvString, if_neg hne.1, if_pos hlong]
        · rw [recvString, if_neg hne.1, if_neg hlong]
      rw [List.flatten_cons]
      cases hb : findBlank buf with
      | none =>
          have hstep : headerLoop before (buf :: pieces) = headerLoop (before ++ buf) pieces := by
            rw [headerLoop, hrecv]
            simp only [hb]
          rw [firstBlank_next hb, ← List.length_append] at h
          rw [hstep] at hfail ⊢
          rw [← List.append_assoc]
          exact ih _ h hfail hne.2
      | some found =>
          obtain ⟨pos, skip⟩ := found
          obtain ⟨hlen, -⟩ := findBlank_eq_some hb
          rw [firstBlank_found hb, Option.some.injEq] at h
          subst h
          refine ⟨pieces, ?_, ?_, hne.2⟩
          · have hhead : (before ++ (buf ++ pieces.flatten)).take (before.length + pos) =
                before ++ buf.take pos := by
              rw [List.take_length_add_append, List.take_append_of_le_length (by omega)]
            have hbody : ((before ++ (buf ++ pieces.flatten)).take (before.length + buf.length)).drop
                (before.length + pos + skip) = buf.drop (pos + skip) := by
              rw [List.take_length_add_append, List.take_left, Nat.add_assoc,
                ← List.drop_drop, List.drop_left]
            rw [headerLoop, hrecv]
            simp only [hb, hhead, hbody]
          · dsimp only
            rw [← List.drop_drop, List.drop_left, List.drop_left]

theorem headerLoop_none {pieces : List Bytes} (before : Bytes) (h : firstBlank before.length pieces = none) :
    ∃ e, headerLoop before pieces = .error e := by
  induction pieces generalizing before with
  | nil => exact ⟨_, rfl⟩
  | cons buf pieces ih =>
      cases hb : findBlank buf with
      | some found =>
          rw [firstBlank_found hb] at h
          cases h
      | none =>
          rw [firstBlank_next hb, ← List.length_append] at h
          cases hrecv : recvString 1024 (buf :: pieces) with
          | error e => exact ⟨e, by rw [headerLoop, hrecv]⟩
          | ok got =>
              obtain ⟨e, he⟩ := ih _ h
              refine ⟨e, ?_⟩
              rw [headerLoop, hrecv]
              simp only [hb, he]

theorem subLength_eq {lenRem : Int} {length : Nat} (h : 0 ≤ lenRem - length) (h' : lenRem < 2 ^ 31) :
    subLength lenRem length = lenRem - length := by
  rw [subLength, Int.emod_eq_of_lt h (by omega), toInt32_of_lt (by omega)]
  omega

theorem bodyLoop_eq (pieces : List Bytes) (hne : ∀ p ∈ pieces, p ≠ []) (lenRem : Int) (hint : lenRem < 2 ^ 31)
    (body : Bytes) (hfail : bodyLoop lenRem body pieces ≠ .error .undeliverable) :
    bodyLoop lenRem body pieces =
      if lenRem ≤ pieces.flatten.length then .ok (body ++ pieces.flatten.take lenRem.toNat) else .error
        .closed := by
  induction pieces generalizing lenRem body with
  | nil =>
      by_cases hpos : 0 < lenRem
      · rw [bodyLoop, if_pos hpos, if_neg (by simp; omega)]
      · rw [bodyLoop, if_neg hpos, if_pos (by simp; omega)]
        simp
  | cons buf pieces ih =>
      rw [List.forall_mem_cons] at hne
      by_cases hpos : 0 < lenRem
      · by_cases hlong : lenRem < buf.length
        · exfalso
          apply hfail
          rw [bodyLoop, if_pos hpos, recvString, if_neg hne.1, if_pos hlong]
        · have hsub : subLength lenRem buf.length = lenRem - buf.length := subLength_eq (by omega) hint
          have hstep : bodyLoop lenRem body (buf :: pieces) =
              bodyLoop (lenRem - buf.length) (body ++ buf) pieces := by
            rw [bodyLoop, if_pos hpos, recvString, if_neg hne.1, if_neg hlong, hsub]
          rw [hstep] at hfail ⊢
          rw [ih hne.2 _ (by omega) _ hfail, List.flatten_cons, List.length_append]
          have htake : (buf ++ pieces.flatten).take lenRem.toNat =
              buf ++ pieces.flatten.take (lenRem - buf.length).toNat := by
            have hn : lenRem.toNat = buf.length + (lenRem - buf.length).toNat := by omega
            rw [hn, List.take_length_add_append]
          rw [htake, List.append_assoc]
          by_cases hle : lenRem - buf.length ≤ pieces.flatten.length
          · rw [if_pos hle, if_pos (by omega)]
          · rw [if_neg hle, if_neg (by omega)]
      · rw [bodyLoop, if_neg hpos, if_pos (by omega), show lenRem.toNat = 0 by omega]
        simp

theorem toInt32_lt (n : Nat) : toInt32 n < 2 ^ 31 := by
  rw [toInt32]
  split <;> omega

def isPost (header : Header) : Bool := header.getm (ascii "!method") [] = ascii "POST"

/-- The offset at which a body of the announced length stops, seen from the end of
the piece with the blank line. -/
def bodyEnd (length : Int) (e : HeaderEnd) : Nat :=
  e.pieceEnd + (subLength length (e.pieceEnd - (e.offset + e.skip))).toNat

def bodyStop (boost : Boost) (header : Header) (e : HeaderEnd) : Option Nat :=
  if isPost header then
    (boost.lexicalCastInt (header.getm (ascii "Content-Length") (ascii "0"))).map
      (fun length => bodyEnd length e)
  else
    some e.pieceEnd

variable {boost : Boost}

/-- The body, when the piece with the blank line stops at `e.pieceEnd` and the
pieces behind it are `rest`. -/
theorem readBody_ok_iff {s : Bytes} {e : HeaderEnd} {rest : List Bytes}
    (hskip : e.offset + e.skip ≤ e.pieceEnd) (hend : e.pieceEnd ≤ s.length)
    (hflat : rest.flatten = s.drop e.pieceEnd) (hne : ∀ p ∈ rest, p ≠ []) (h b : Bytes)
    (hfail : readBody boost (s.take e.offset) ((s.take e.pieceEnd).drop (e.offset + e.skip)) rest ≠ .error .undeliverable) :
    readBody boost (s.take e.offset) ((s.take e.pieceEnd).drop (e.offset + e.skip)) rest = .ok (h, b) ↔
      ∃ header stop, parseHttpRequestHeader boost (s.take e.offset) = some header ∧
        bodyStop boost header e = some stop ∧
        stop ≤ s.length ∧ h = s.take e.offset ∧ b = (s.take stop).drop (e.offset + e.skip) := by
  have hgot : ((s.take e.pieceEnd).drop (e.offset + e.skip)).length = e.pieceEnd - (e.offset + e.skip) := by
    rw [List.length_drop, List.length_take, Nat.min_eq_left hend]
  cases hparse : parseHttpRequestHeader boost (s.take e.offset) with
  | none => simp [readBody, hparse]
  | some header =>
      by_cases hpost : header.getm (ascii "!method") [] = ascii "POST"
      · cases hcast : boost.lexicalCastInt (header.getm (ascii "Content-Length") (ascii "0")) with
        | none => simp [readBody, hparse, hpost, hcast, bodyStop, isPost]
        | some length =>
            have hstop : bodyStop boost header e = some (bodyEnd length e) := by
              simp [bodyStop, isPost, hpost, hcast]
            have hbody : readBody boost (s.take e.offset)
                ((s.take e.pieceEnd).drop (e.offset + e.skip)) rest = (do
                let body ← bodyLoop (subLength length (e.pieceEnd - (e.offset + e.skip)))
                  ((s.take e.pieceEnd).drop (e.offset + e.skip)) rest
                return (s.take e.offset, body)) := by
              rw [readBody, hparse]
              simp only [hpost, if_true, hcast, hgot]
            rw [hbody] at hfail ⊢
            have hloop :=
              bodyLoop_eq rest hne (subLength length (e.pieceEnd - (e.offset + e.skip))) (toInt32_lt _)
                ((s.take e.pieceEnd).drop (e.offset + e.skip)) (fun hl => hfail (by rw [hl]; rfl))
            have htake : (s.take e.pieceEnd).drop (e.offset + e.skip) ++
                rest.flatten.take (subLength length (e.pieceEnd - (e.offset + e.skip))).toNat =
                (s.take (bodyEnd length e)).drop (e.offset + e.skip) := by
              have hsplit : s.take (bodyEnd length e) = s.take e.pieceEnd ++
                  (s.drop e.pieceEnd).take (subLength length (e.pieceEnd - (e.offset + e.skip))).toNat := by
                rw [bodyEnd, List.take_add]
              rw [hsplit, hflat, List.drop_append_of_le_length]
              rw [List.length_take, Nat.min_eq_left hend]
              exact hskip
            rw [htake, hflat, List.length_drop] at hloop
            have hfits : subLength length (e.pieceEnd - (e.offset + e.skip)) ≤
              ((s.length - e.pieceEnd : Nat) : Int) ↔
                bodyEnd length e ≤ s.length := by
              rw [bodyEnd]
              omega
            rw [hloop]
            by_cases hle : bodyEnd length e ≤ s.length
            · rw [if_pos (hfits.mpr hle)]
              constructor
              · intro hok
                obtain ⟨rfl, rfl⟩ := Prod.mk.inj (Except.ok.inj hok)
                exact ⟨header, _, rfl, hstop, hle, rfl, rfl⟩
              · rintro ⟨header', stop, hheader, hstop', -, rfl, rfl⟩
                obtain rfl := Option.some.inj hheader
                rw [hstop, Option.some.injEq] at hstop'
                rw [hstop']
                rfl
            · rw [if_neg (mt hfits.mp hle)]
              refine iff_of_false (by intro hok; cases hok) ?_
              rintro ⟨header', stop, hheader, hstop', hle', -⟩
              obtain rfl := Option.some.inj hheader
              rw [hstop, Option.some.injEq] at hstop'
              exact hle (hstop' ▸ hle')
      · have hstop : bodyStop boost header e = some e.pieceEnd := by
          simp [bodyStop, isPost, hpost]
        rw [readBody, hparse]
        simp only [hpost, if_false, Except.ok.injEq, Prod.mk.injEq]
        constructor
        · rintro ⟨rfl, rfl⟩
          exact ⟨header, _, rfl, hstop, hend, rfl, rfl⟩
        · rintro ⟨header', stop, hheader, hstop', -, rfl, rfl⟩
          obtain rfl := Option.some.inj hheader
          rw [hstop, Option.some.injEq] at hstop'
          exact ⟨rfl, by rw [hstop']⟩

theorem readRequest_ok_iff {pieces : List Bytes} (hne : ∀ p ∈ pieces, p ≠ [])
    (hfail : readRequest boost pieces ≠ .error .undeliverable) (h b : Bytes) :
    readRequest boost pieces = .ok (h, b) ↔ ∃ e header stop, firstBlank 0 pieces = some e ∧
      parseHttpRequestHeader boost (pieces.flatten.take e.offset) = some header ∧
        bodyStop boost header e = some stop ∧
      stop ≤ pieces.flatten.length ∧ h = pieces.flatten.take e.offset ∧
      b = (pieces.flatten.take stop).drop (e.offset + e.skip) := by
  cases hb : firstBlank 0 pieces with
  | none =>
      obtain ⟨err, herr⟩ := headerLoop_none [] hb
      rw [readRequest, herr]
      simp [bind, Except.bind]
  | some e =>
      have hloop : headerLoop [] pieces ≠ .error .undeliverable := by
        intro hl
        apply hfail
        rw [readRequest, hl]
        rfl
      obtain ⟨rest, hrun, hflat, hrest⟩ := headerLoop_some [] hb hloop hne
      obtain ⟨hskip, hend, -⟩ := firstBlank_eq_some [] hb
      rw [List.nil_append] at hrun hflat hend
      have hread : readRequest boost pieces = readBody boost (pieces.flatten.take e.offset)
          ((pieces.flatten.take e.pieceEnd).drop (e.offset + e.skip)) rest := by
        rw [readRequest, hrun]
        rfl
      rw [hread] at hfail ⊢
      rw [readBody_ok_iff hskip hend hflat hrest h b hfail]
      simp

/-- Both splittings show the same blank line first and let the body stop at the
same offset of the request. -/
def SameStops (boost : Boost) (request : Bytes) (pieces pieces' : List Bytes) : Prop :=
  ∃ e e' header stop, firstBlank 0 pieces = some e ∧ firstBlank 0 pieces' = some e' ∧ e'.offset = e.offset ∧
    parseHttpRequestHeader boost (request.take e.offset) = some header ∧ bodyStop boost header e = some stop ∧
    bodyStop boost header e' = some stop ∧ stop ≤ request.length

theorem le_bodyStop {header : Header} {e : HeaderEnd} {stop : Nat} (h : bodyStop boost header e = some stop) :
    e.pieceEnd ≤ stop := by
  rw [bodyStop] at h
  split at h
  · obtain ⟨length, -, rfl⟩ := Option.map_eq_some_iff.mp h
    exact Nat.le_add_right _ _
  · cases h
    exact le_refl _

/-- Two splittings of one request are read alike exactly if they show the same
blank line first, in one piece, and let the body stop at the same place. -/
theorem reads_alike_iff (boost : Boost) (request : Bytes) (pieces pieces' : List Bytes)
    (hp : pieces.flatten = request) (hp' : pieces'.flatten = request) (hne : ∀ p ∈ pieces, p ≠ [])
    (hne' : ∀ p ∈ pieces', p ≠ []) (hfits : readRequest boost pieces ≠ .error .undeliverable)
    (hfits' : readRequest boost pieces' ≠ .error .undeliverable) :
    (∃ header body, readRequest boost pieces = .ok (header, body) ∧
      readRequest boost pieces' = .ok (header, body)) ↔ SameStops boost request pieces pieces' := by
  constructor
  · rintro ⟨h, b, hread, hread'⟩
    obtain ⟨e, header, stop, hfirst, hparse, hstop, hle, hh, hb⟩ :=
      (readRequest_ok_iff hne hfits h b).mp hread
    obtain ⟨e', header', stop', hfirst', hparse', hstop', hle', hh', hb'⟩ :=
      (readRequest_ok_iff hne' hfits' h b).mp hread'
    obtain ⟨hskip, hend, hblank⟩ := firstBlank_eq_some [] hfirst
    obtain ⟨hskip', hend', hblank'⟩ := firstBlank_eq_some [] hfirst'
    rw [List.nil_append, hp] at hend hblank
    rw [List.nil_append, hp'] at hend' hblank'
    rw [hp] at hparse hle hh hb
    rw [hp'] at hparse' hle' hh' hb'
    -- the header strings have the lengths of the offsets, the body strings those up to the stops
    have hoffset : e'.offset = e.offset := by
      have hlen := congrArg List.length (hh'.symm.trans hh)
      rw [List.length_take, List.length_take] at hlen
      omega
    rw [hoffset] at hblank' hparse'
    obtain rfl := Option.some.inj (hparse.symm.trans hparse')
    have hskips : e'.skip = e.skip := hblank'.skip_eq hblank
    have hstops : stop' = stop := by
      have hlen := congrArg List.length (hb'.symm.trans hb)
      rw [List.length_drop, List.length_drop, List.length_take, List.length_take] at hlen
      have := le_bodyStop hstop
      have := le_bodyStop hstop'
      omega
    exact ⟨e, e', header, stop, hfirst, hfirst', hoffset, hparse, hstop, hstops ▸ hstop', hle⟩
  · rintro ⟨e, e', header, stop, hfirst, hfirst', hoffset, hparse, hstop, hstop', hle⟩
    obtain ⟨-, -, hblank⟩ := firstBlank_eq_some [] hfirst
    obtain ⟨-, -, hblank'⟩ := firstBlank_eq_some [] hfirst'
    rw [List.nil_append, hp] at hblank
    rw [List.nil_append, hp', hoffset] at hblank'
    have hskips : e'.skip = e.skip := hblank'.skip_eq hblank
    refine ⟨request.take e.offset, (request.take stop).drop (e.offset + e.skip), ?_, ?_⟩
    · rw [readRequest_ok_iff hne hfits, hp]
      exact ⟨e, header, stop, hfirst, hparse, hstop, hle, rfl, rfl⟩
    · rw [readRequest_ok_iff hne' hfits', hp']
      refine ⟨e', header, stop, hfirst', ?_, hstop', hle, ?_, ?_⟩
      · rw [hoffset, hparse]
      · rw [hoffset]
      · rw [hoffset, hskips]

/-- A header block, a blank line and a body of the announced length. -/
structure CompletePost (boost : Boost) (head blank body : Bytes) (header : Header) : Prop where
  blank : blank = [10, 10] ∨ blank = [13, 10, 13, 10]
  parsed : parseHttpRequestHeader boost head = some header
  post : isPost header = true
  length : boost.lexicalCastInt (header.getm (ascii "Content-Length") (ascii "0")) = some (body.length : Int)

/-- A complete request is read as it is exactly if no piece before shows a blank
line, and its own one lies within a piece. -/
theorem completePost_read {head blank body : Bytes} {header : Header}
    (h : CompletePost boost head blank body header) {pieces : List Bytes}
    (hp : pieces.flatten = head ++ blank ++ body) (hne : ∀ p ∈ pieces, p ≠ [])
    (hfits : readRequest boost pieces ≠ .error .undeliverable) :
    readRequest boost pieces = .ok (head, body) ↔ ∃ e, firstBlank 0 pieces = some e ∧
      e.offset = head.length := by
  have hhead : (head ++ blank ++ body).take head.length = head := by
    rw [List.append_assoc, List.take_left]
  rw [readRequest_ok_iff hne hfits, hp]
  constructor
  · rintro ⟨e, header', stop, hfirst, -, -, -, hh, -⟩
    obtain ⟨hskip, hend, -⟩ := firstBlank_eq_some [] hfirst
    rw [List.nil_append, hp] at hend
    have hlen := congrArg List.length hh
    rw [List.length_take] at hlen
    exact ⟨e, hfirst, by omega⟩
  · rintro ⟨e, hfirst, hoffset⟩
    obtain ⟨hskip, hend, hblank⟩ := firstBlank_eq_some [] hfirst
    rw [List.nil_append, hp, hoffset, List.append_assoc, List.drop_left] at hblank
    rw [List.nil_append, hp, List.length_append, List.length_append] at hend
    have hown : BlankAt (blank ++ body) blank.length := by
      rcases h.blank with rfl | rfl
      · exact Or.inl ⟨rfl, List.prefix_append _ _⟩
      · exact Or.inr ⟨rfl, List.prefix_append _ _⟩
    have hskips : e.skip = blank.length := hblank.skip_eq hown
    have hint := (boost.cast_isInt h.length).2
    have hstop : bodyStop boost header e = some (head ++ blank ++ body).length := by
      rw [bodyStop, if_pos h.post, h.length, Option.map_some, bodyEnd, subLength_eq (by omega) hint,
        List.length_append, List.length_append]
      congr 1
      omega
    refine ⟨e, header, _, hfirst, ?_, hstop, le_refl _, ?_, ?_⟩
    · rw [hoffset, hhead, h.parsed]
    · rw [hoffset, hhead]
    · rw [List.take_length, hoffset, hskips, ← List.length_append, List.drop_left]

def exampleHead : Bytes := ascii "POST /ds HTTP/1.1\r\nContent-Length: 2"

def exampleHeader : Header :=
  [(ascii "Content-Length", ascii "2"), (ascii "!version", ascii "HTTP/1.1"), (ascii "!qs", []),
    (ascii "!path", ascii "/ds"), (ascii "!method", ascii "POST")]

theorem example_complete : CompletePost plainBoost exampleHead [13, 10, 13, 10]
    (ascii "ab") exampleHeader where
  blank := Or.inr rfl
  parsed := by decide +kernel
  post := by decide +kernel
  length := by decide +kernel

theorem reads_alike_iff_example :
    (∃ header body, readRequest plainBoost [exampleHead ++ [13, 10, 13, 10] ++ ascii "ab"] = .ok (header, body) ∧
      readRequest plainBoost [exampleHead ++ [13, 10, 13, 10] ++ ascii "a", ascii "b"] = .ok (header, body)) ↔
    SameStops plainBoost (exampleHead ++ [13, 10, 13, 10] ++ ascii "ab")
      [exampleHead ++ [13, 10, 13, 10] ++ ascii "ab"]
      [exampleHead ++ [13, 10, 13, 10] ++ ascii "a", ascii "b"] :=
  reads_alike_iff plainBoost (exampleHead ++ [13, 10, 13, 10] ++ ascii "ab")
    [exampleHead ++ [13, 10, 13, 10] ++ ascii "ab"]
    [exampleHead ++ [13, 10, 13, 10] ++ ascii "a", ascii "b"] (by decide +kernel) (by decide +kernel)
    (by decide +kernel) (by decide +kernel) (by decide +kernel) (by decide +kernel)

theorem cut_in_blank_line : CompletePost plainBoost exampleHead [13, 10, 13, 10] (ascii "ab") exampleHeader ∧
    readRequest plainBoost [exampleHead ++ [13, 10, 13, 10] ++ ascii "ab"] = .ok (exampleHead, ascii "ab") ∧
    readRequest plainBoost [exampleHead ++ [13, 10], [13, 10] ++ ascii "ab"] = .error .closed := by
  refine ⟨example_complete, ?_, ?_⟩
  · rfl
  · rfl

end Llprof.Web.Chunking
