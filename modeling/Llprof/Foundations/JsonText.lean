import Llprof.Foundations.Decimal
import Llprof.Foundations.Utf8

namespace Llprof.JsonText

open LittleEndian Decimal

/-- Numbers keep their text. -/
inductive Json
  | null
  | bool (b : Bool)
  | number (lexeme : Bytes)
  | string (s : Bytes)
  | array (items : List Json)
  | object (members : List (Bytes × Json))

def isWs (b : UInt8) : Bool := b == 32 || b == 9 || b == 10 || b == 13

def skipWs (t : Bytes) : Bytes := t.dropWhile isWs

def hexDigit (b : UInt8) : Option Nat :=
  if isDigit b then some (b.toNat - 48)
  else if 65 ≤ b ∧ b ≤ 70 then some (b.toNat - 55)
  else if 97 ≤ b ∧ b ≤ 102 then some (b.toNat - 87)
  else none

def hex4 : Bytes → Option (Nat × Bytes)
  | a :: b :: c :: d :: t => do
      let a ← hexDigit a
      let b ← hexDigit b
      let c ← hexDigit c
      let d ← hexDigit d
      return (4096 * a + 256 * b + 16 * c + d, t)
  | _ => none

def lowSurrogate : Bytes → Option (Nat × Bytes)
  | 92 :: 117 :: t => do
      let (v, t) ← hex4 t
      if 0xDC00 ≤ v ∧ v < 0xE000 then some (v - 0xDC00, t) else none
  | _ => none

def unicodeEscape (t : Bytes) : Option (Bytes × Bytes) := do
  let (u, t) ← hex4 t
  if 0xD800 ≤ u ∧ u < 0xDC00 then
    let (v, t) ← lowSurrogate t
    return (Utf8.encode (0x10000 + 0x400 * (u - 0xD800) + v), t)
  else if 0xDC00 ≤ u ∧ u < 0xE000 then
    none
  else
    return (Utf8.encode u, t)

def simpleEscape (c : UInt8) : Option UInt8 :=
  if c = 34 ∨ c = 92 ∨ c = 47 then some c
  else if c = 98 then some 8
  else if c = 102 then some 12
  else if c = 110 then some 10
  else if c = 114 then some 13
  else if c = 116 then some 9
  else none

def escape : Bytes → Option (Bytes × Bytes)
  | [] => none
  | c :: t => if c = 117 then unicodeEscape t else (simpleEscape c).map (fun d => ([d], t))

def parseString : Nat → Bytes → Option (Bytes × Bytes)
  | 0, _ => none
  | _ + 1, [] => none
  | fuel + 1, c :: t =>
      if c = 34 then some ([], t)
      else if c = 92 then do
        let (u, t) ← escape t
        let (s, t) ← parseString fuel t
        return (u ++ s, t)
      else if c < 32 then none
      else do
        let (s, t) ← parseString fuel t
        return (c :: s, t)

def parseDigits (t : Bytes) : Option (Bytes × Bytes) :=
  if t.takeWhile isDigit = [] then none else some (t.takeWhile isDigit, t.dropWhile isDigit)

def parseInt : Bytes → Option (Bytes × Bytes)
  | 48 :: t => some ([48], t)
  | t => parseDigits t

def parseFrac : Bytes → Option (Bytes × Bytes)
  | 46 :: t => do
      let (ds, t) ← parseDigits t
      return (46 :: ds, t)
  | t => some ([], t)

def parseExp : Bytes → Option (Bytes × Bytes)
  | e :: t =>
      if e = 101 ∨ e = 69 then
        match t with
        | sign :: t' =>
            if sign = 43 ∨ sign = 45 then do
              let (ds, t') ← parseDigits t'
              return (e :: sign :: ds, t')
            else do
              let (ds, t) ← parseDigits t
              return (e :: ds, t)
        | [] => none
      else
        some ([], e :: t)
  | [] => some ([], [])

def parseUnsigned (t : Bytes) : Option (Bytes × Bytes) := do
  let (int, t) ← parseInt t
  let (frac, t) ← parseFrac t
  let (exp, t) ← parseExp t
  return (int ++ frac ++ exp, t)

def parseNumber : Bytes → Option (Bytes × Bytes)
  | 45 :: t => do
      let (n, t) ← parseUnsigned t
      return (45 :: n, t)
  | t => parseUnsigned t

def parseLiteral (t : Bytes) : Option (Json × Bytes) :=
  if ascii "null" <+: t then some (.null, t.drop 4)
  else if ascii "true" <+: t then some (.bool true, t.drop 4)
  else if ascii "false" <+: t then some (.bool false, t.drop 5)
  else (parseNumber t).map (fun p => (.number p.1, p.2))

def parseName : Bytes → Option (Bytes × Bytes)
  | [] => none
  | c :: t =>
      if c = 34 then do
        let (name, t) ← parseString (t.length + 1) t
        match skipWs t with
        | [] => none
        | d :: t => if d = 58 then return (name, t) else none
      else none

mutual

def parseValue : Nat → Bytes → Option (Json × Bytes)
  | 0, _ => none
  | fuel + 1, t =>
      match t with
      | [] => none
      | c :: t' =>
          if c = 34 then (parseString (t'.length + 1) t').map (fun p => (.string p.1, p.2))
          else if c = 91 then
            match skipWs t' with
            | [] => none
            | d :: t'' =>
                if d = 93 then some (.array [], t'')
                else (parseElements fuel (d :: t'')).map (fun p => (.array p.1, p.2))
          else if c = 123 then
            match skipWs t' with
            | [] => none
            | d :: t'' =>
                if d = 125 then some (.object [], t'')
                else (parseMembers fuel (d :: t'')).map (fun p => (.object p.1, p.2))
          else parseLiteral t

def parseElements : Nat → Bytes → Option (List Json × Bytes)
  | 0, _ => none
  | fuel + 1, t => do
      let (v, t) ← parseValue fuel (skipWs t)
      let (vs, t) ← parseMoreElements fuel t
      return (v :: vs, t)

def parseMoreElements : Nat → Bytes → Option (List Json × Bytes)
  | 0, _ => none
  | fuel + 1, t =>
      match skipWs t with
      | [] => none
      | d :: t => if d = 93 then some ([], t) else if d = 44 then parseElements fuel t else none

def parseMembers : Nat → Bytes → Option (List (Bytes × Json) × Bytes)
  | 0, _ => none
  | fuel + 1, t => do
      let (name, t) ← parseName (skipWs t)
      let (v, t) ← parseValue fuel (skipWs t)
      let (ms, t) ← parseMoreMembers fuel t
      return ((name, v) :: ms, t)

def parseMoreMembers : Nat → Bytes → Option (List (Bytes × Json) × Bytes)
  | 0, _ => none
  | fuel + 1, t =>
      match skipWs t with
      | [] => none
      | d :: t => if d = 125 then some ([], t) else if d = 44 then parseMembers fuel t else none

end

def decode (text : Bytes) : Option Json :=
  if Utf8.valid text then
    match parseValue (2 * text.length + 2) (skipWs text) with
    | some (v, t) => if skipWs t = [] then some v else none
    | none => none
  else
    none

theorem parseElements_cons {fuel : Nat} {t t' : Bytes} {v : Json} {vs : List Json} :
    parseElements (fuel + 1) t = some (v :: vs, t') ↔
      ∃ u, parseValue fuel (skipWs t) = some (v, u) ∧ parseMoreElements fuel u = some (vs, t') := by
  simp only [parseElements, Option.bind_eq_bind, Option.bind_eq_some_iff, Option.pure_def,
    Option.some.injEq, Prod.mk.injEq]
  constructor
  · rintro ⟨⟨v', u⟩, hv, ⟨vs', t''⟩, hvs, hcons, ht⟩
    obtain ⟨rfl, rfl⟩ := List.cons.inj hcons
    subst ht
    exact ⟨u, hv, hvs⟩
  · rintro ⟨u, hv, hvs⟩
    exact ⟨(v, u), hv, (vs, t'), hvs, rfl, rfl⟩

theorem parseMembers_cons {fuel : Nat} {t t' name : Bytes} {v : Json} {ms : List (Bytes × Json)} :
    parseMembers (fuel + 1) t = some ((name, v) :: ms, t') ↔
      ∃ u w, parseName (skipWs t) = some (name, u) ∧ parseValue fuel (skipWs u) = some (v, w) ∧
        parseMoreMembers fuel w = some (ms, t') := by
  simp only [parseMembers, Option.bind_eq_bind, Option.bind_eq_some_iff, Option.pure_def,
    Option.some.injEq, Prod.mk.injEq]
  constructor
  · rintro ⟨⟨name', u⟩, hname, ⟨v', w⟩, hv, ⟨ms', t''⟩, hms, hcons, ht⟩
    obtain ⟨hm, rfl⟩ := List.cons.inj hcons
    obtain ⟨rfl, rfl⟩ := Prod.mk.inj hm
    subst ht
    exact ⟨u, w, hname, hv, hms⟩
  · rintro ⟨u, w, hname, hv, hms⟩
    exact ⟨(name, u), hname, (v, w), hv, (ms, t'), hms, rfl, rfl⟩

theorem skipWs_of_head {c : UInt8} (h : isWs c = false) (t : Bytes) : skipWs (c :: t) = c :: t := by
  rw [skipWs, List.dropWhile_cons, h]
  rfl

theorem skipWs_space (t : Bytes) : skipWs (32 :: t) = skipWs t := rfl

theorem parseElements_space (fuel : Nat) (t : Bytes) :
    parseElements fuel (32 :: t) = parseElements fuel t := by
  cases fuel with
  | zero => rfl
  | succ fuel => rw [parseElements, parseElements, skipWs_space]

theorem parseMembers_space (fuel : Nat) (t : Bytes) : parseMembers fuel (32 :: t) = parseMembers fuel t := by
  cases fuel with
  | zero => rfl
  | succ fuel => rw [parseMembers, parseMembers, skipWs_space]

def byteCost (b : UInt8) : Nat := if b < 32 ∨ b = 34 ∨ b = 92 then 2 else 1

def cost (s : Bytes) : Nat := (s.map byteCost).sum

theorem cost_append (s t : Bytes) : cost (s ++ t) = cost s + cost t := by
  simp [cost]

theorem cost_cons (b : UInt8) (s : Bytes) : cost (b :: s) = byteCost b + cost s := by
  simp [cost]

theorem byteCost_le (b : UInt8) : 1 ≤ byteCost b ∧ byteCost b ≤ 2 := by
  unfold byteCost
  split <;> omega

theorem cost_le (s : Bytes) : cost s ≤ 2 * s.length := by
  induction s with
  | nil => exact le_refl _
  | cons b s ih =>
      have := byteCost_le b
      rw [cost_cons, List.length_cons]
      omega

theorem hex4_length {t t' : Bytes} {n : Nat} (h : hex4 t = some (n, t')) :
    t.length = t'.length + 4 ∧ n < 0x10000 := by
  have hdigit : ∀ (b : UInt8) (v : Nat), hexDigit b = some v → v < 16 := by
    intro b v hv
    unfold hexDigit isDigit at hv
    have hb := b.toNat_lt
    simp only [UInt8.le_iff_toNat_le, Bool.and_eq_true, decide_eq_true_eq] at hv
    split at hv
    · cases hv
      rename_i hd
      have : b.toNat ≤ 57 := hd.2
      omega
    · split at hv
      · cases hv
        rename_i hd
        have : b.toNat ≤ 70 := hd.2
        omega
      · split at hv
        · cases hv
          rename_i hd
          have : b.toNat ≤ 102 := hd.2
          omega
        · cases hv
  rcases t with _ | ⟨a, _ | ⟨b, _ | ⟨c, _ | ⟨d, t⟩⟩⟩⟩
  · cases h
  · cases h
  · cases h
  · cases h
  · simp only [hex4, Option.bind_eq_bind, Option.bind_eq_some_iff, Option.pure_def,
      Option.some.injEq, Prod.mk.injEq] at h
    obtain ⟨a', ha, b', hb, c', hc, d', hd, rfl, rfl⟩ := h
    have := hdigit a a' ha
    have := hdigit b b' hb
    have := hdigit c c' hc
    have := hdigit d d' hd
    exact ⟨by simp, by omega⟩

theorem lowSurrogate_length {t t' : Bytes} {n : Nat} (h : lowSurrogate t = some (n, t')) :
    t.length = t'.length + 6 := by
  unfold lowSurrogate at h
  split at h
  · rename_i u
    simp only [Option.bind_eq_bind, Option.bind_eq_some_iff, Option.ite_none_right_eq_some, Option.some.injEq,
      Prod.mk.injEq] at h
    obtain ⟨⟨v, u'⟩, hv, -, -, rfl⟩ := h
    have := (hex4_length hv).1
    simp only [List.length_cons]
    omega
  · cases h

theorem unicodeEscape_cost {t t' w : Bytes} (h : unicodeEscape t = some (w, t')) :
    cost w + t'.length ≤ t.length + 2 ∧ t'.length ≤ t.length ∧ w ≠ [] := by
  simp only [unicodeEscape, Option.bind_eq_bind, Option.bind_eq_some_iff, Option.pure_def] at h
  obtain ⟨⟨u, t₁⟩, hu, h⟩ := h
  obtain ⟨hlen, hlt⟩ := hex4_length hu
  dsimp only at h
  split at h
  · obtain ⟨⟨v, t₂⟩, hv, h⟩ := Option.bind_eq_some_iff.mp h
    obtain ⟨rfl, rfl⟩ := Prod.mk.inj (Option.some.inj h)
    have hlow := lowSurrogate_length hv
    have hcost := cost_le (Utf8.encode (0x10000 + 0x400 * (u - 0xD800) + v))
    have henc := (Utf8.length_encode_le (0x10000 + 0x400 * (u - 0xD800) + v)).1
    dsimp only
    exact ⟨by omega, by omega, Utf8.encode_ne_nil _⟩
  · split at h
    · cases h
    · obtain ⟨rfl, rfl⟩ := Prod.mk.inj (Option.some.inj h)
      have hcost := cost_le (Utf8.encode u)
      have henc := (Utf8.length_encode_le u).2 hlt
      exact ⟨by omega, by omega, Utf8.encode_ne_nil _⟩

theorem escape_cost {t t' w : Bytes} (h : escape t = some (w, t')) :
    cost w + t'.length ≤ t.length + 1 ∧ t'.length < t.length ∧ w ≠ [] := by
  rcases t with _ | ⟨c, t⟩
  · cases h
  · rw [escape] at h
    rw [List.length_cons]
    split at h
    · obtain ⟨hcost, hle, hne⟩ := unicodeEscape_cost h
      exact ⟨by omega, by omega, hne⟩
    · obtain ⟨d, -, hd⟩ := Option.map_eq_some_iff.mp h
      obtain ⟨rfl, rfl⟩ := Prod.mk.inj hd
      have := byteCost_le d
      rw [cost_cons]
      exact ⟨by simp [cost]; omega, Nat.lt_succ_self _, by simp⟩

theorem parseString_cost {fuel : Nat} {t t' s : Bytes} (h : parseString fuel t = some (s, t')) :
    cost s + t'.length + 1 ≤ t.length := by
  induction fuel generalizing t s with
  | zero => cases h
  | succ fuel ih =>
      rcases t with _ | ⟨c, t⟩
      · cases h
      · rw [parseString] at h
        rw [List.length_cons]
        split at h
        · obtain ⟨rfl, rfl⟩ := Prod.mk.inj (Option.some.inj h)
          simp [cost]
        · split at h
          · simp only [Option.bind_eq_bind, Option.bind_eq_some_iff, Option.pure_def,
              Option.some.injEq, Prod.mk.injEq] at h
            obtain ⟨⟨w, t₁⟩, hw, ⟨s', t₂⟩, hs, rfl, rfl⟩ := h
            obtain ⟨hcost, -, -⟩ := escape_cost hw
            have := ih hs
            rw [cost_append]
            dsimp only at *
            omega
          · split at h
            · cases h
            · rename_i hquote hback hctrl
              simp only [Option.bind_eq_bind, Option.bind_eq_some_iff, Option.pure_def,
                Option.some.injEq, Prod.mk.injEq] at h
              obtain ⟨⟨s', t₁⟩, hs, rfl, rfl⟩ := h
              have := ih hs
              rw [cost_cons, byteCost, if_neg (by simp [hquote, hback, hctrl])]
              dsimp only at *
              omega

def NoBackslash (t : Bytes) : Prop := (92 : UInt8) ∉ t.takeWhile (fun b => b != 34)

theorem noBackslash_quote (t : Bytes) : NoBackslash (34 :: t) := by
  simp [NoBackslash]

theorem noBackslash_cons {c : UInt8} (h : c ≠ 92) {t : Bytes} (ht : NoBackslash t) :
    NoBackslash (c :: t) := by
  unfold NoBackslash at *
  rw [List.takeWhile_cons]
  split
  · rw [List.mem_cons, not_or]
    exact ⟨h.symm, ht⟩
  · exact List.not_mem_nil

theorem noBackslash_append {w : Bytes} (h : (92 : UInt8) ∉ w) {t : Bytes} (ht : NoBackslash t) :
    NoBackslash (w ++ t) := by
  induction w with
  | nil => exact ht
  | cons c w ih =>
      rw [List.mem_cons, not_or] at h
      exact noBackslash_cons (Ne.symm h.1) (ih h.2)

theorem parseString_noBackslash {fuel : Nat} {t t' s : Bytes} (h : parseString fuel t = some (s, t'))
    (ht : NoBackslash t) : (92 : UInt8) ∉ s := by
  induction fuel generalizing t s with
  | zero => cases h
  | succ fuel ih =>
      rcases t with _ | ⟨c, t⟩
      · cases h
      · rw [parseString] at h
        split at h
        · obtain ⟨rfl, -⟩ := Prod.mk.inj (Option.some.inj h)
          exact List.not_mem_nil
        · rename_i hquote
          rw [NoBackslash, List.takeWhile_cons, if_pos (by simpa using hquote), List.mem_cons, not_or] at ht
          rw [if_neg (Ne.symm ht.1)] at h
          split at h
          · cases h
          · simp only [Option.bind_eq_bind, Option.bind_eq_some_iff, Option.pure_def,
              Option.some.injEq, Prod.mk.injEq] at h
            obtain ⟨⟨s', t₁⟩, hs, rfl, rfl⟩ := h
            rw [List.mem_cons, not_or]
            exact ⟨ht.1, ih hs ht.2⟩

theorem hexDigit_quote : hexDigit 34 = none := by decide

theorem hex4_before_quote {x rest t : Bytes} {n : Nat} (h : hex4 (x ++ 34 :: rest) = some (n, t)) :
    ∃ y, t = y ++ 34 :: rest ∧ y <:+ x := by
  rcases x with _ | ⟨a, _ | ⟨b, _ | ⟨c, _ | ⟨d, x⟩⟩⟩⟩
  · rcases rest with _ | ⟨r, _ | ⟨r', _ | ⟨r'', rest⟩⟩⟩ <;> simp [hex4, hexDigit_quote] at h
  · rcases rest with _ | ⟨r, _ | ⟨r', rest⟩⟩ <;> simp [hex4, hexDigit_quote] at h
  · rcases rest with _ | ⟨r, rest⟩ <;> simp [hex4, hexDigit_quote] at h
  · simp [hex4, hexDigit_quote] at h
  · simp only [List.cons_append, hex4, Option.bind_eq_bind, Option.bind_eq_some_iff,
      Option.pure_def, Option.some.injEq, Prod.mk.injEq] at h
    obtain ⟨a', -, b', -, c', -, d', -, -, rfl⟩ := h
    exact ⟨x, rfl, [a, b, c, d], rfl⟩

theorem lowSurrogate_before_quote {x rest t : Bytes} {n : Nat}
    (h : lowSurrogate (x ++ 34 :: rest) = some (n, t)) : ∃ y, t = y ++ 34 :: rest ∧ y <:+ x := by
  unfold lowSurrogate at h
  split at h
  · rename_i u he
    rcases x with _ | ⟨a, _ | ⟨b, x⟩⟩
    · cases he
    · cases he
    · obtain ⟨rfl, rfl, rfl⟩ : a = 92 ∧ b = 117 ∧ x ++ 34 :: rest = u := by simpa using he
      simp only [Option.bind_eq_bind, Option.bind_eq_some_iff,
        Option.ite_none_right_eq_some, Option.some.injEq, Prod.mk.injEq] at h
      obtain ⟨⟨v, u'⟩, hv, -, -, rfl⟩ := h
      obtain ⟨y, rfl, hy⟩ := hex4_before_quote hv
      exact ⟨y, rfl, hy.trans ⟨[92, 117], rfl⟩⟩
  · cases h

theorem escape_before_quote {x rest t w : Bytes} (hx : x ≠ []) (h : escape (x ++ 34 :: rest) = some (w, t)) :
    ∃ y, t = y ++ 34 :: rest ∧ y <:+ x := by
  obtain ⟨c, x, rfl⟩ := List.exists_cons_of_ne_nil hx
  rw [List.cons_append, escape] at h
  split at h
  · simp only [unicodeEscape, Option.bind_eq_bind, Option.bind_eq_some_iff, Option.pure_def] at h
    obtain ⟨⟨u, t₁⟩, hu, h⟩ := h
    obtain ⟨y, rfl, hy⟩ := hex4_before_quote hu
    dsimp only at h
    split at h
    · obtain ⟨⟨v, t₂⟩, hv, h⟩ := Option.bind_eq_some_iff.mp h
      obtain ⟨rfl, rfl⟩ := Prod.mk.inj (Option.some.inj h)
      obtain ⟨z, rfl, hz⟩ := lowSurrogate_before_quote hv
      exact ⟨z, rfl, (hz.trans hy).trans (List.suffix_cons c x)⟩
    · split at h
      · cases h
      · obtain ⟨rfl, rfl⟩ := Prod.mk.inj (Option.some.inj h)
        exact ⟨y, rfl, hy.trans (List.suffix_cons c x)⟩
  · obtain ⟨d, -, hd⟩ := Option.map_eq_some_iff.mp h
    obtain ⟨rfl, rfl⟩ := Prod.mk.inj hd
    exact ⟨x, rfl, List.suffix_cons c x⟩

theorem getLast?_append_some {s s' : Bytes} {l : UInt8} (h : s'.getLast? = some l) :
    (s ++ s').getLast? = some l := by
  rw [List.getLast?_append, h]
  rfl

theorem getLast?_suffix {x y : Bytes} {l : UInt8} (hy : y <:+ x) (h : y.getLast? = some l) :
    x.getLast? = some l := by
  obtain ⟨pre, rfl⟩ := hy
  exact getLast?_append_some h

/-- A string ends at a given quote or before it, unless a backslash takes the quote
away; then its last byte comes from the text behind. -/
theorem parseString_quote {fuel : Nat} {x rest t s : Bytes} (hrest : NoBackslash rest)
    (h : parseString fuel (x ++ 34 :: rest) = some (s, t)) :
    rest.length ≤ t.length ∨ x.getLast? = some 92 ∧ ∃ l, s.getLast? = some l ∧ l ≠ 92 := by
  induction fuel generalizing x s with
  | zero => cases h
  | succ fuel ih =>
      rcases x with _ | ⟨c, x⟩
      · rw [List.nil_append, parseString, if_pos rfl] at h
        obtain ⟨-, rfl⟩ := Prod.mk.inj (Option.some.inj h)
        exact Or.inl (le_refl _)
      · rw [List.cons_append, parseString] at h
        split at h
        · obtain ⟨-, rfl⟩ := Prod.mk.inj (Option.some.inj h)
          left
          rw [List.length_append, List.length_cons]
          omega
        · split at h
          · rename_i hback
            simp only [Option.bind_eq_bind, Option.bind_eq_some_iff, Option.pure_def,
              Option.some.injEq, Prod.mk.injEq] at h
            obtain ⟨⟨w, t₁⟩, hw, ⟨s', t₂⟩, hs, rfl, rfl⟩ := h
            by_cases hx : x = []
            · subst hx
              obtain ⟨rfl, rfl⟩ : [34] = w ∧ rest = t₁ := by simpa [escape, simpleEscape] using hw
              have hnot : (92 : UInt8) ∉ 34 :: s' := by
                rw [List.mem_cons, not_or]
                exact ⟨by decide, parseString_noBackslash hs hrest⟩
              refine Or.inr ⟨by rw [hback]; rfl, _, List.getLast?_eq_some_getLast (List.cons_ne_nil 34 s'), ?_⟩
              exact ne_of_mem_of_not_mem (List.getLast_mem _) hnot
            · obtain ⟨y, rfl, hy⟩ := escape_before_quote hx hw
              rcases ih hs with hle | ⟨hy', l, hl, hne⟩
              · exact Or.inl hle
              · exact Or.inr ⟨getLast?_suffix (hy.trans (List.suffix_cons c x)) hy', l,
                  getLast?_append_some hl, hne⟩
          · split at h
            · cases h
            · simp only [Option.bind_eq_bind, Option.bind_eq_some_iff, Option.pure_def,
                Option.some.injEq, Prod.mk.injEq] at h
              obtain ⟨⟨s', t₁⟩, hs, rfl, rfl⟩ := h
              rcases ih hs with hle | ⟨hx', l, hl, hne⟩
              · exact Or.inl hle
              · exact Or.inr ⟨getLast?_suffix (List.suffix_cons c x) hx', l,
                  getLast?_append_some (s := [c]) hl, hne⟩

end Llprof.JsonText
