import Llprof.Foundations.Faulting
import Llprof.Web.Request

namespace Llprof.Web.FormDecoding

open Faulting LittleEndian Decimal Text Request

/-- What a call of `scanf` with a format and two pointers does: what it stores through the
pointers and what is left of the standard input. -/
structure Scanned where
  first : Option Int
  second : Option Int
  stdin : Bytes

abbrev Scanf := Bytes → Bytes → Scanned

/-- The conversions of a format take the pointers in their order, unless they are numbered
with `$`, and what is left of the input is its end. -/
structure Documented (scanf : Scanf) : Prop where
  inOrder : ∀ format stdin, 36 ∉ format → (scanf format stdin).second.isSome →
    (scanf format stdin).first.isSome
  rest : ∀ format stdin, (scanf format stdin).stdin <:+ stdin

def charOf (val : Int) : UInt8 := UInt8.ofNat (val % 256).toNat

/-- `scanf` gets the escape for its format. Its first pointer is the literal `"%x"`, which
cannot be written, its second one is that of `val`, which nothing else sets. -/
def urlDecodeLoop (scanf : Scanf) : Nat → Bytes → Bytes → Bytes → Run (Bytes × Bytes)
  | 0, _, _, _ => .error .outOfFuel
  | fuel + 1, result, src, stdin =>
      match find (ascii "%") src with
      | none => .ok (result ++ src, stdin)
      | some pp =>
          let result := result ++ substr src 0 pp
          let byte := substr src (pp + 1) (pp + 3)
          let scanned := scanf (byte.takeWhile (· ≠ 0)) stdin
          match scanned.first, scanned.second with
          | some _, _ => .error .aborted
          | none, none => .error .indeterminate
          | none, some val => do
              let result := result ++ [charOf val]
              require (pp + 3 ≤ src.length) .outOfRange
              urlDecodeLoop scanf fuel result (src.drop (pp + 3)) scanned.stdin

/-- The result, and what is left of the standard input. -/
def urlDecode (scanf : Scanf) (src stdin : Bytes) : Run (Bytes × Bytes) :=
  urlDecodeLoop scanf (src.length + 1) [] src stdin

/-- The component up to the next `&`, and the string after it. -/
def nextTarget (queryString : Bytes) : Bytes × Bytes :=
  match find (ascii "&") queryString with
  | none => (queryString, [])
  | some ampPos => (queryString.take ampPos, queryString.drop (ampPos + 1))

def parseLoop (scanf : Scanf) : Nat → Header → Bytes → Bytes → Run (Bool × Header × Bytes)
  | 0, _, _, _ => .error .outOfFuel
  | fuel + 1, result, queryString, stdin =>
      if queryString = [] then
        .ok (true, result, stdin)
      else
        let (target, queryString) := nextTarget queryString
        match find (ascii "=") target with
        | none => .ok (false, result, stdin)
        | some eqPos => do
            let (key, stdin) ← urlDecode scanf (target.take eqPos) stdin
            let (value, stdin) ← urlDecode scanf (target.drop (eqPos + 1)) stdin
            parseLoop scanf fuel (result.set key value) queryString stdin

/-- The result, the map and what is left of the standard input. -/
def parseQueryString (scanf : Scanf) (queryString stdin : Bytes) : Run (Bool × Header × Bytes) :=
  parseLoop scanf (queryString.length + 1) [] queryString stdin

def isAlnum (b : UInt8) : Bool := isDigit b || (65 ≤ b && b ≤ 90) || (97 ≤ b && b ≤ 122)

def hexDigit (n : Nat) : UInt8 := UInt8.ofNat (if n < 10 then 48 + n else 55 + n)

def escape (b : UInt8) : Bytes :=
  if isAlnum b then [b] else [37, hexDigit (b.toNat / 16), hexDigit (b.toNat % 16)]

def urlEncode (s : Bytes) : Bytes := s.flatMap escape

def formPair (p : Bytes × Bytes) : Bytes := urlEncode p.1 ++ 61 :: urlEncode p.2

def formEncode (m : List (Bytes × Bytes)) : Bytes := [38].intercalate (m.map formPair)

def plain (p : Bytes × Bytes) : Bool := p.1.all isAlnum && p.2.all isAlnum

def RoundTrips (scanf : Scanf) (m : List (Bytes × Bytes)) : Prop :=
  ∀ stdin, ∃ result, parseQueryString scanf (formEncode m) stdin = .ok (true, result, stdin) ∧
    ∀ key, result.lookup key = m.lookup key

/-- An escape that `url_decode` comes to: the format that `scanf` gets, and whether the string
goes on as far as `substr` needs it. -/
structure Escape where
  format : Bytes
  whole : Bool

def escapesLoop : Nat → Bytes → List Escape
  | 0, _ => []
  | fuel + 1, src =>
      match find (ascii "%") src with
      | none => []
      | some pp =>
          ⟨(substr src (pp + 1) (pp + 3)).takeWhile (· ≠ 0), pp + 3 ≤ src.length⟩ :: escapesLoop
            fuel (src.drop (pp + 3))

def escapes (src : Bytes) : List Escape := escapesLoop (src.length + 1) src

/-- A numbered conversion that gives one byte through the second pointer, whatever the
standard input has, and reads nothing of it. -/
def Numbered (scanf : Scanf) (e : Escape) : Prop :=
  e.whole = true ∧ 36 ∈ e.format ∧ ∃ c, ∀ stdin, ∃ val, scanf e.format stdin = ⟨none, some val, stdin⟩ ∧
    charOf val = c

/-- The pairs that are decoded: those before the first component without `=`. -/
def decodedTargets (queryString : Bytes) : List Bytes :=
  (queryString.splitOn 38).takeWhile (fun target => 61 ∈ target)

def decoded (queryString : Bytes) : List Bytes :=
  (decodedTargets queryString).flatMap fun target =>
    [target.takeWhile (· ≠ 61), (target.dropWhile (· ≠ 61)).tail]

variable {scanf : Scanf} {fuel : Nat} {result : Header} {q s out stdin target rest key value : Bytes}

theorem ascii_single : ascii "%" = [37] ∧ ascii "&" = [38] ∧ ascii "=" = [61] := by decide

theorem find_percent : find (ascii "%") s = none ↔ 37 ∉ s := by
  rw [ascii_single.1, find_singleton, findFirstOf_eq_none, List.drop_zero]

theorem urlDecodeLoop_plain (h : 37 ∉ s) :
    urlDecodeLoop scanf (fuel + 1) out s stdin = .ok (out ++ s, stdin) := by
  rw [urlDecodeLoop, find_percent.mpr h]

theorem urlDecodeLoop_step {pp : Nat} (hf : find (ascii "%") s = some pp) {r : Bytes × Bytes} :
    urlDecodeLoop scanf (fuel + 1) out s stdin = .ok r ↔ ∃ val stdin',
      scanf ((substr s (pp + 1) (pp + 3)).takeWhile (· ≠ 0)) stdin = ⟨none, some val, stdin'⟩ ∧
        pp + 3 ≤ s.length ∧
        urlDecodeLoop scanf fuel (out ++ substr s 0 pp ++ [charOf val]) (s.drop (pp + 3)) stdin' = .ok r := by
  rw [urlDecodeLoop, hf]
  dsimp only
  rcases scanf ((substr s (pp + 1) (pp + 3)).takeWhile (· ≠ 0)) stdin with ⟨_ | a, _ | val, stdin'⟩
  · simp
  · by_cases hlen : pp + 3 ≤ s.length
    · simp [hlen]
    · simp [require, hlen]
  · simp
  · simp

theorem escapes_eq_nil : escapes s = [] ↔ 37 ∉ s := by
  rw [escapes, escapesLoop, ← find_percent]
  cases find (ascii "%") s <;> simp

theorem mem_of_mem_format {e : Escape} (he : e ∈ escapesLoop fuel s) {c : UInt8} (hc : c ∈ e.format) :
    c ∈ s := by
  induction fuel generalizing s with
  | zero => cases he
  | succ fuel ih =>
      rw [escapesLoop] at he
      cases hf : find (ascii "%") s with
      | none =>
          rw [hf] at he
          cases he
      | some pp =>
          rw [hf] at he
          rcases List.mem_cons.mp he with rfl | he
          · exact List.mem_of_mem_drop (List.mem_of_mem_take ((List.takeWhile_prefix _).subset hc))
          · exact List.mem_of_mem_drop (ih he)

theorem urlDecodeLoop_sound (hs : Documented scanf) {r : Bytes × Bytes}
    (h : urlDecodeLoop scanf fuel out s stdin = .ok r) :
    r.2 <:+ stdin ∧ out <+: r.1 ∧ ∀ e ∈ escapesLoop fuel s, e.whole = true ∧ 36 ∈ e.format := by
  induction fuel generalizing out s stdin with
  | zero => cases h
  | succ fuel ih =>
      rw [escapesLoop]
      cases hf : find (ascii "%") s with
      | none =>
          rw [urlDecodeLoop_plain (find_percent.mp hf), Except.ok.injEq] at h
          subst h
          exact ⟨List.suffix_refl _, List.prefix_append _ _, List.forall_mem_nil _⟩
      | some pp =>
          obtain ⟨val, stdin', hscan, hlen, hrest⟩ := (urlDecodeLoop_step hf).mp h
          obtain ⟨hin, hout, hescapes⟩ := ih hrest
          have hnum : 36 ∈ (substr s (pp + 1) (pp + 3)).takeWhile (· ≠ 0) := by
            by_contra hno
            have := hs.inOrder _ stdin hno (by rw [hscan]; rfl)
            rw [hscan] at this
            cases this
          have hleft := hs.rest ((substr s (pp + 1) (pp + 3)).takeWhile (· ≠ 0)) stdin
          rw [hscan] at hleft
          refine ⟨hin.trans hleft, ?_, List.forall_mem_cons.mpr ⟨⟨decide_eq_true hlen, hnum⟩, hescapes⟩⟩
          rw [List.append_assoc] at hout
          exact (List.prefix_append _ _).trans hout

theorem urlDecodeLoop_reads_iff (hs : Documented scanf) (hf : s.length < fuel) :
    (∃ t, ∀ stdin, urlDecodeLoop scanf fuel out s stdin = .ok (t, stdin)) ↔
      ∀ e ∈ escapesLoop fuel s, Numbered scanf e := by
  induction fuel generalizing out s with
  | zero => exact absurd hf (Nat.not_lt_zero _)
  | succ fuel ih =>
      rw [escapesLoop]
      cases hfind : find (ascii "%") s with
      | none => exact iff_of_true ⟨out ++ s, fun stdin =>
        urlDecodeLoop_plain (find_percent.mp hfind)⟩ (List.forall_mem_nil _)
      | some pp =>
          have hdrop (hlen : pp + 3 ≤ s.length) : (s.drop (pp + 3)).length < fuel := by
            rw [List.length_drop]
            omega
          rw [List.forall_mem_cons]
          constructor
          · rintro ⟨t, h⟩
            -- no turn reads anything, since the input is all left at the end
            have hturn (stdin : Bytes) : ∃ val, scanf ((substr s (pp + 1) (pp + 3)).takeWhile (· ≠ 0)) stdin =
                ⟨none, some val, stdin⟩ ∧ charOf val = t.getD (out ++ substr s 0 pp).length 0 ∧
                urlDecodeLoop scanf fuel (out ++ substr s 0 pp ++ [charOf val]) (s.drop (pp + 3)) stdin =
                  .ok (t, stdin) := by
              obtain ⟨val, stdin', hscan, -, hrest⟩ := (urlDecodeLoop_step hfind).mp (h stdin)
              obtain ⟨hin, hout, -⟩ := urlDecodeLoop_sound hs hrest
              have hleft := hs.rest ((substr s (pp + 1) (pp + 3)).takeWhile (· ≠ 0)) stdin
              rw [hscan] at hleft
              obtain rfl : stdin' = stdin := hleft.eq_of_length_le hin.length_le
              refine ⟨val, hscan, ?_, hrest⟩
              obtain ⟨more, rfl⟩ := hout
              simp [List.getD_eq_getElem?_getD]
            obtain ⟨-, -, hescapes⟩ := urlDecodeLoop_sound hs (h [])
            rw [escapesLoop, hfind, List.forall_mem_cons] at hescapes
            obtain ⟨⟨hwhole, hnum⟩, -⟩ := hescapes
            have hrest (stdin : Bytes) : urlDecodeLoop scanf fuel
                (out ++ substr s 0 pp ++ [t.getD (out ++ substr s 0 pp).length 0]) (s.drop (pp + 3)) stdin =
                  .ok (t, stdin) := by
              obtain ⟨val, -, hval, hrest⟩ := hturn stdin
              rwa [hval] at hrest
            refine ⟨⟨hwhole, hnum, t.getD (out ++ substr s 0 pp).length 0, fun stdin => ?_⟩,
              (ih (hdrop (of_decide_eq_true hwhole))).mp ⟨t, hrest⟩⟩
            obtain ⟨val, hscan, hval, -⟩ := hturn stdin
            exact ⟨val, hscan, hval⟩
          · rintro ⟨⟨hwhole, -, c, hscan⟩, hescapes⟩
            have hlen : pp + 3 ≤ s.length := of_decide_eq_true hwhole
            obtain ⟨t, ht⟩ := (@ih _ (out ++ substr s 0 pp ++ [c]) (hdrop hlen)).mpr hescapes
            refine ⟨t, fun stdin => ?_⟩
            obtain ⟨val, hval, hc⟩ := hscan stdin
            exact (urlDecodeLoop_step hfind).mpr ⟨val, stdin, hval, hlen, by rw [hc]; exact ht stdin⟩

theorem urlDecode_plain_of_ok (hs : Documented scanf) (hd : 36 ∉ s) {r : Bytes × Bytes}
    (h : urlDecode scanf s stdin = .ok r) : 37 ∉ s := by
  obtain ⟨-, -, hescapes⟩ := urlDecodeLoop_sound hs h
  rw [← escapes_eq_nil, List.eq_nil_iff_forall_not_mem]
  exact fun e he => hd (mem_of_mem_format he (hescapes e he).2)

theorem nextTarget_cases (q : Bytes) : 38 ∉ q ∧ nextTarget q = (q, []) ∧ q.splitOn 38 = [q] ∨
    ∃ target rest, q = target ++ 38 :: rest ∧ nextTarget q = (target, rest) ∧
      q.splitOn 38 = target :: rest.splitOn 38 := by
  rw [nextTarget, ascii_single.2.1, find_singleton]
  cases hf : findFirstOf 38 q 0 with
  | none =>
      have hno : 38 ∉ q := by simpa using findFirstOf_eq_none.mp hf
      exact Or.inl ⟨hno, rfl, splitOn_of_not_mem hno⟩
  | some n =>
      obtain ⟨-, -, hno, he⟩ := findFirstOf_eq_some hf
      rw [List.drop_zero] at he
      refine Or.inr ⟨q.take n, q.drop (n + 1), he, rfl, ?_⟩
      have := splitOn_append_cons hno (q.drop (n + 1))
      rwa [← he] at this

theorem parseLoop_stops (hq : q ≠ []) (hn : nextTarget q = (target, rest)) (ht : 61 ∉ target) :
    parseLoop scanf (fuel + 1) result q stdin = .ok (false, result, stdin) := by
  have hf : findFirstOf 61 target 0 = none := findFirstOf_eq_none.mpr ht
  rw [parseLoop, if_neg hq, hn]
  dsimp only
  rw [ascii_single.2.2, find_singleton, hf]

theorem parseLoop_pair (hq : q ≠ []) (hn : nextTarget q = (key ++ 61 :: value, rest)) (hk : 61 ∉ key)
    {r : Bool × Header × Bytes} :
    parseLoop scanf (fuel + 1) result q stdin = .ok r ↔ ∃ k v, urlDecode scanf key stdin = .ok k ∧
      urlDecode scanf value k.2 = .ok v ∧ parseLoop scanf fuel (result.set k.1 v.1) rest v.2 = .ok r := by
  have hfind := findFirstOf_append_cons hk value
  have hdrop : (key ++ 61 :: value).drop (key.length + 1) = value := by simp
  rw [parseLoop, if_neg hq, hn]
  dsimp only
  rw [ascii_single.2.2, find_singleton, hfind]
  dsimp only
  rw [List.take_left, hdrop]
  simp only [bind_eq_ok, exists_and_left]

theorem exists_pair (h : 61 ∈ target) : ∃ key value, target = key ++ 61 :: value ∧ 61 ∉ key := by
  obtain ⟨n, hn⟩ :=
    Option.ne_none_iff_exists'.mp fun hnone => findFirstOf_eq_none.mp hnone (by rwa [List.drop_zero])
  obtain ⟨-, -, hk, he⟩ := findFirstOf_eq_some hn
  rw [List.drop_zero] at he
  exact ⟨_, _, he, hk⟩

/-- The components of a string that is not empty: the first one, and those of the rest
unless the first one ends the loop. -/
theorem decodedTargets_next (hn : nextTarget q = (target, rest)) :
    decodedTargets q = if 61 ∈ target then target :: decodedTargets rest else [] := by
  rcases nextTarget_cases q with ⟨-, hnext, hsplit⟩ | ⟨t, r, -, hnext, hsplit⟩
  · rw [hn] at hnext
    cases hnext
    rw [decodedTargets, hsplit]
    by_cases h : 61 ∈ q <;> simp [h, decodedTargets]
  · rw [hn] at hnext
    cases hnext
    rw [decodedTargets, hsplit, List.takeWhile_cons]
    by_cases h : 61 ∈ target <;> simp [h, decodedTargets]

theorem decoded_stops (hn : nextTarget q = (target, rest)) (ht : 61 ∉ target) : decoded q = [] := by
  rw [decoded, decodedTargets_next hn, if_neg ht, List.flatMap_nil]

theorem decoded_pair (hn : nextTarget q = (key ++ 61 :: value, rest)) (hk : 61 ∉ key) :
    decoded q = key :: value :: decoded rest := by
  have hkey : ∀ c ∈ key, decide (c ≠ 61) = true := fun c hc => decide_eq_true fun h => hk (h ▸ hc)
  have htake : (key ++ 61 :: value).takeWhile (· ≠ 61) = key := by
    rw [List.takeWhile_append_of_pos hkey, List.takeWhile_cons_of_neg (by decide), List.append_nil]
  have hdrop : ((key ++ 61 :: value).dropWhile (· ≠ 61)).tail = value := by
    rw [List.dropWhile_append_of_pos hkey, List.dropWhile_cons_of_neg (by decide), List.tail_cons]
  rw [decoded, decodedTargets_next hn, if_pos (by simp), List.flatMap_cons, htake, hdrop]
  rfl

theorem length_nextTarget (hq : q ≠ []) (hn : nextTarget q = (target, rest)) : rest.length < q.length := by
  rcases nextTarget_cases q with ⟨-, hnext, -⟩ | ⟨t, r, he, hnext, -⟩
  · rw [hn] at hnext
    cases hnext
    exact List.length_pos_iff.mpr hq
  · rw [hn] at hnext
    cases hnext
    rw [he, List.length_append, List.length_cons]
    omega

theorem parseLoop_sound (hs : Documented scanf) {r : Bool × Header × Bytes}
    (h : parseLoop scanf fuel result q stdin = .ok r) :
    r.2.2 <:+ stdin ∧ result <:+ r.2.1 ∧ ∀ c ∈ decoded q, ∃ input d, urlDecode scanf c input = .ok d := by
  induction fuel generalizing result q stdin with
  | zero => cases h
  | succ fuel ih =>
      by_cases hq : q = []
      · rw [parseLoop, if_pos hq, Except.ok.injEq] at h
        rw [← h, hq]
        exact ⟨List.suffix_refl _, List.suffix_refl _, by simp [decoded, decodedTargets]⟩
      · rcases hn : nextTarget q with ⟨target, rest⟩
        by_cases ht : 61 ∈ target
        · obtain ⟨key, value, rfl, hk⟩ := exists_pair ht
          obtain ⟨k, v, hkey, hvalue, hrest⟩ := (parseLoop_pair hq hn hk).mp h
          obtain ⟨hin, hmap, hdecoded⟩ := ih hrest
          rw [decoded_pair hn hk, List.forall_mem_cons, List.forall_mem_cons]
          exact ⟨(hin.trans (urlDecodeLoop_sound hs hvalue).1).trans (urlDecodeLoop_sound hs hkey).1,
            (List.suffix_cons _ _).trans hmap, ⟨_, _, hkey⟩, ⟨_, _, hvalue⟩, hdecoded⟩
        · rw [parseLoop_stops hq hn ht, Except.ok.injEq] at h
          rw [← h, decoded_stops hn ht]
          exact ⟨List.suffix_refl _, List.suffix_refl _, List.forall_mem_nil _⟩

theorem parseLoop_reads_iff (hs : Documented scanf) (hf : q.length < fuel) :
    (∃ b m, ∀ stdin, parseLoop scanf fuel result q stdin = .ok (b, m, stdin)) ↔
      ∀ c ∈ decoded q, ∃ t, ∀ stdin, urlDecode scanf c stdin = .ok (t, stdin) := by
  induction fuel generalizing result q with
  | zero => exact absurd hf (Nat.not_lt_zero _)
  | succ fuel ih =>
      by_cases hq : q = []
      · refine iff_of_true ⟨true, result, fun stdin => by rw [parseLoop, if_pos hq]⟩ ?_
        simp [hq, decoded, decodedTargets]
      · rcases hn : nextTarget q with ⟨target, rest⟩
        have hlen := length_nextTarget hq hn
        by_cases ht : 61 ∈ target
        · obtain ⟨key, value, rfl, hk⟩ := exists_pair ht
          rw [decoded_pair hn hk, List.forall_mem_cons, List.forall_mem_cons]
          constructor
          · rintro ⟨b, m, h⟩
            have hpair (stdin : Bytes) : ∃ k v, urlDecode scanf key stdin = .ok (k, stdin) ∧
                urlDecode scanf value stdin = .ok (v, stdin) ∧ (k, v) :: result <:+ m ∧
                parseLoop scanf fuel (result.set k v) rest stdin = .ok (b, m, stdin) := by
              obtain ⟨⟨k, stdin₁⟩, ⟨v, stdin₂⟩, hkey, hvalue, hrest⟩ := (parseLoop_pair hq hn hk).mp (h stdin)
              obtain ⟨hin, hmap, -⟩ := parseLoop_sound hs hrest
              have h₁ : stdin₁ <:+ stdin := (urlDecodeLoop_sound hs hkey).1
              have h₂ : stdin₂ <:+ stdin₁ := (urlDecodeLoop_sound hs hvalue).1
              obtain rfl : stdin₂ = stdin := (h₂.trans h₁).eq_of_length_le hin.length_le
              obtain rfl : stdin₁ = stdin₂ := h₁.eq_of_length_le h₂.length_le
              exact ⟨k, v, hkey, hvalue, hmap, hrest⟩
            obtain ⟨k, v, -, -, hmap, -⟩ := hpair []
            have hone (stdin : Bytes) : urlDecode scanf key stdin = .ok (k, stdin) ∧
                urlDecode scanf value stdin = .ok (v, stdin) ∧
                parseLoop scanf fuel (result.set k v) rest stdin = .ok (b, m, stdin) := by
              obtain ⟨k', v', hkey, hvalue, hmap', hrest⟩ := hpair stdin
              have he : (k', v') :: result = (k, v) :: result :=
                (List.suffix_of_suffix_length_le hmap' hmap (by simp)).eq_of_length (by simp)
              rw [List.cons.injEq, Prod.mk.injEq] at he
              obtain ⟨⟨rfl, rfl⟩, -⟩ := he
              exact ⟨hkey, hvalue, hrest⟩
            exact ⟨⟨k, fun stdin => (hone stdin).1⟩, ⟨v, fun stdin => (hone stdin).2.1⟩,
              (ih (by omega)).mp ⟨b, m, fun stdin => (hone stdin).2.2⟩⟩
          · rintro ⟨⟨k, hkey⟩, ⟨v, hvalue⟩, hdecoded⟩
            obtain ⟨b, m, hrest⟩ := (@ih (result.set k v) _ (show rest.length < fuel by omega)).mpr hdecoded
            exact ⟨b, m, fun stdin => (parseLoop_pair hq hn hk).mpr ⟨_, _, hkey stdin, hvalue stdin, hrest stdin⟩⟩
        · rw [decoded_stops hn ht]
          exact iff_of_true ⟨false, result, fun stdin => parseLoop_stops hq hn ht⟩ (List.forall_mem_nil _)

theorem isAlnum_hexDigit : ∀ n < 16, isAlnum (hexDigit n) = true := by decide

theorem mem_escape {b c : UInt8} (h : c ∈ escape b) : isAlnum c = true ∨ c = 37 := by
  have hb : b.toNat < 256 := b.toNat_lt
  rw [escape] at h
  split at h
  next ha => exact Or.inl (List.mem_singleton.mp h ▸ ha)
  next =>
    simp only [List.mem_cons, List.not_mem_nil, or_false] at h
    rcases h with rfl | rfl | rfl
    · exact Or.inr rfl
    · exact Or.inl (isAlnum_hexDigit _ (by omega))
    · exact Or.inl (isAlnum_hexDigit _ (by omega))

theorem not_mem_urlEncode {c : UInt8} (hc : isAlnum c = false) (h37 : c ≠ 37) (s : Bytes) :
    c ∉ urlEncode s := by
  intro h
  obtain ⟨b, -, hb⟩ := List.mem_flatMap.mp h
  rcases mem_escape hb with ha | he
  · rw [hc] at ha
    cases ha
  · exact h37 he

theorem urlEncode_plain (h : s.all isAlnum) : urlEncode s = s := by
  induction s with
  | nil => rfl
  | cons b s ih =>
      rw [List.all_cons, Bool.and_eq_true] at h
      have := ih h.2
      rw [urlEncode] at this
      rw [urlEncode, List.flatMap_cons, escape, if_pos h.1, this]
      rfl

theorem escape_mem_iff (s : Bytes) : 37 ∉ urlEncode s ↔ s.all isAlnum := by
  constructor
  · intro h
    rw [List.all_eq_true]
    intro b hb
    by_contra ha
    refine h (List.mem_flatMap.mpr ⟨b, hb, ?_⟩)
    rw [escape, if_neg ha]
    exact List.mem_cons_self
  · intro h hm
    rw [urlEncode_plain h] at hm
    have := List.all_eq_true.mp h 37 hm
    exact absurd this (by decide)

theorem formPair_ne (p : Bytes × Bytes) : 38 ∉ formPair p ∧ 61 ∈ formPair p := by
  constructor
  · intro h
    rcases List.mem_append.mp h with h | h
    · exact not_mem_urlEncode (by decide) (by decide) _ h
    · rcases List.mem_cons.mp h with h | h
      · exact absurd h (by decide)
      · exact not_mem_urlEncode (by decide) (by decide) _ h
  · exact List.mem_append_right _ List.mem_cons_self

theorem nextTarget_formEncode (p : Bytes × Bytes) (m : List (Bytes × Bytes)) :
    nextTarget (formEncode (p :: m)) = (formPair p, formEncode m) := by
  have hno := (formPair_ne p).1
  cases m with
  | nil =>
      rw [formEncode, List.map_singleton, List.intercalate_singleton, nextTarget,
        ascii_single.2.1, find_singleton]
      rw [findFirstOf_eq_none.mpr (by simpa using hno)]
      rfl
  | cons q m =>
      rw [formEncode, List.map_cons, List.map_cons, List.intercalate_cons_cons,
        List.append_assoc, List.singleton_append,
        nextTarget, ascii_single.2.1, find_singleton, findFirstOf_append_cons hno]
      simp [formEncode]

theorem formEncode_ne_nil (p : Bytes × Bytes) (m : List (Bytes × Bytes)) : formEncode (p :: m) ≠ [] := by
  intro h
  have := nextTarget_formEncode p m
  rw [h] at this
  have hnil : formPair p = [] := (congrArg Prod.fst this).symm
  have := (formPair_ne p).2
  rw [hnil] at this
  cases this

theorem decoded_formEncode (m : List (Bytes × Bytes)) :
    decoded (formEncode m) = m.flatMap fun p => [urlEncode p.1, urlEncode p.2] := by
  induction m with
  | nil => simp [decoded, decodedTargets, formEncode]
  | cons p m ih =>
      rw [decoded_pair (nextTarget_formEncode p m) (not_mem_urlEncode (by decide) (by decide) _), ih]
      rfl

theorem parseLoop_formEncode {m : List (Bytes × Bytes)} (hf : m.length < fuel) (hm : ∀ p ∈ m, plain p = true)
    (stdin : Bytes) : parseLoop scanf fuel result (formEncode m) stdin =
    .ok (true, m.reverse ++ result, stdin) := by
  induction m generalizing fuel result with
  | nil =>
      obtain ⟨fuel, rfl⟩ := Nat.exists_eq_succ_of_ne_zero (Nat.ne_of_gt hf)
      rfl
  | cons p m ih =>
      obtain ⟨fuel, rfl⟩ := Nat.exists_eq_succ_of_ne_zero (Nat.ne_zero_of_lt hf)
      rw [List.forall_mem_cons, plain, Bool.and_eq_true] at hm
      have hdecode {x : Bytes} (hx : x.all isAlnum = true) :
          urlDecode scanf (urlEncode x) stdin = .ok (x, stdin) := by
        rw [urlDecode, urlDecodeLoop_plain ((escape_mem_iff x).mpr hx), urlEncode_plain hx, List.nil_append]
      refine (parseLoop_pair (formEncode_ne_nil p m) (nextTarget_formEncode p m)
        (not_mem_urlEncode (by decide) (by decide) _)).mpr ⟨_, _, hdecode hm.1.1, hdecode hm.1.2, ?_⟩
      rw [List.reverse_cons, List.append_assoc]
      exact ih (Nat.lt_of_succ_lt_succ hf) hm.2

theorem length_formEncode (m : List (Bytes × Bytes)) : m.length ≤ (formEncode m).length := by
  induction m with
  | nil => exact Nat.zero_le _
  | cons p m ih =>
      have := length_nextTarget (formEncode_ne_nil p m) (nextTarget_formEncode p m)
      rw [List.length_cons]
      omega

theorem lookup_reverse {m : List (Bytes × Bytes)} (h : (m.map Prod.fst).Nodup) (key : Bytes) :
    m.reverse.lookup key = m.lookup key := by
  induction m with
  | nil => rfl
  | cons p m ih =>
      rw [List.map_cons, List.nodup_cons] at h
      rw [List.reverse_cons, List.lookup_append, ih h.2, List.lookup_cons, List.lookup_cons, List.lookup_nil]
      by_cases hk : key = p.1
      · have hnone : m.lookup key = none := by
          rw [List.lookup_eq_none_iff]
          intro q hq
          rw [bne_iff_ne]
          rintro rfl
          exact h.1 (hk ▸ List.mem_map_of_mem hq)
        rw [hnone, beq_iff_eq.mpr hk]
        rfl
      · rw [beq_false_of_ne hk]
        exact Option.or_none

theorem roundTrips_iff (hs : Documented scanf) {m : List (Bytes × Bytes)} (h : (m.map Prod.fst).Nodup) :
    RoundTrips scanf m ↔ ∀ p ∈ m, plain p = true := by
  constructor
  · intro hr p hp
    obtain ⟨result, hrun, -⟩ := hr []
    obtain ⟨-, -, hdecoded⟩ := parseLoop_sound hs hrun
    rw [decoded_formEncode] at hdecoded
    have hplain (x : Bytes) (hx : x ∈ [urlEncode p.1, urlEncode p.2]) : 37 ∉ x := by
      obtain ⟨input, d, hd⟩ := hdecoded x (List.mem_flatMap.mpr ⟨p, hp, hx⟩)
      refine urlDecode_plain_of_ok hs ?_ hd
      rcases List.mem_pair.mp hx with rfl | rfl <;> exact not_mem_urlEncode (by decide) (by decide) _
    rw [plain, Bool.and_eq_true, ← escape_mem_iff, ← escape_mem_iff]
    exact ⟨hplain _ List.mem_cons_self, hplain _ (List.mem_cons_of_mem _ List.mem_cons_self)⟩
  · intro hm stdin
    have hlen := length_formEncode m
    refine ⟨m.reverse ++ [], parseLoop_formEncode (Nat.lt_succ_of_le hlen) hm stdin, fun key => ?_⟩
    rw [List.append_nil, lookup_reverse h]

/-- Exactly the maps of letters and digits come back, and exactly the strings whose escapes
are numbered conversions are decoded without anything else being read; without `$` these
are the strings without an escape. -/
theorem form_decodes_iff (scanf : Scanf) (hs : Documented scanf) :
    (∀ m : List (Bytes × Bytes), (m.map Prod.fst).Nodup → (∀ p ∈ m, p.1 ≠ []) →
      (RoundTrips scanf m ↔ ∀ p ∈ m, p.1.all isAlnum ∧ p.2.all isAlnum)) ∧
    (∀ s, (∃ t, ∀ stdin, urlDecode scanf s stdin = .ok (t, stdin)) ↔ ∀ e ∈ escapes s, Numbered scanf e) ∧
    (∀ s, (∃ b m, ∀ stdin, parseQueryString scanf s stdin = .ok (b, m, stdin)) ↔
      ∀ c ∈ decoded s, ∀ e ∈ escapes c, Numbered scanf e) ∧
    ∀ s, 36 ∉ s → ((∀ e ∈ escapes s, Numbered scanf e) ↔ 37 ∉ s) := by
  have hdecode (s : Bytes) : (∃ t, ∀ stdin, urlDecode scanf s stdin = .ok (t, stdin)) ↔
      ∀ e ∈ escapes s, Numbered scanf e :=
    urlDecodeLoop_reads_iff hs (Nat.lt_succ_self _)
  refine ⟨fun m hm _ => ?_, hdecode, fun s => ?_, fun s hd => ?_⟩
  · rw [roundTrips_iff hs hm]
    simp only [plain, Bool.and_eq_true]
  · simp only [← hdecode]
    exact parseLoop_reads_iff hs (Nat.lt_succ_self _)
  · rw [← escapes_eq_nil, List.eq_nil_iff_forall_not_mem]
    exact ⟨fun h e he => hd (mem_of_mem_format he (h e he).2.1), fun h e he => absurd he (h e)⟩

/-- The end of the standard input. The conversion `%n` counts what has been read. -/
def atEnd : Scanf := fun format stdin => ⟨none, if format = ascii "%2$n" then some 0 else none, stdin⟩

theorem atEnd_documented : Documented atEnd := by
  refine ⟨fun format stdin hd h => ?_, fun _ _ => List.suffix_refl _⟩
  have hne : format ≠ ascii "%2$n" := by
    rintro rfl
    exact hd (by decide)
  simp [atEnd, hne] at h

theorem form_decodes_host :
    RoundTrips atEnd [(ascii "host", ascii "a1")] ∧ ¬ RoundTrips atEnd [(ascii "host", ascii "a:1")] ∧
      ∃ t, ∀ stdin, urlDecode atEnd (ascii "aa%%2$n") stdin = .ok (t, stdin) := by
  obtain ⟨hmaps, hstrings, -⟩ := form_decodes_iff atEnd atEnd_documented
  refine ⟨(hmaps _ (by decide) (by decide)).mpr (by decide), fun h =>
    absurd ((hmaps _ (by decide) (by decide)).mp h) (by decide), ?_⟩
  refine (hstrings (ascii "aa%%2$n")).mpr (List.forall_mem_singleton.mpr ⟨by decide, by decide, 0, fun stdin => ⟨0, rfl, rfl⟩⟩)

theorem host_port_fails :
    formEncode [(ascii "host", ascii "a:1")] = ascii "host=a%3A1" ∧
      parseQueryString atEnd (ascii "host=a%3A1") [] = .error .indeterminate := by
  decide

end Llprof.Web.FormDecoding
