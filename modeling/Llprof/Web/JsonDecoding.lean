import Llprof.Web.JsonWriter
import Mathlib.Data.List.Induction

namespace Llprof.Web.JsonDecoding

open LittleEndian Decimal JsonText JsonWriter

def escaped (s : Bytes) : Bytes := s.flatMap escapeChar

def cleanChar (c : UInt8) : Bool := c ≠ 92 ∧ (32 ≤ c ∨ c = 9 ∨ c = 10 ∨ c = 13)

theorem escaped_cons (c : UInt8) (s : Bytes) : escaped (c :: s) = escapeChar c ++ escaped s := by
  rw [escaped, List.flatMap_cons, escaped]

theorem escapeChar_plain {c : UInt8} (h : 32 ≤ c) (hq : c ≠ 34) : escapeChar c = [c] := by
  have hne : ∀ d : UInt8, d < 32 → c ≠ d := by
    rintro d hd rfl
    exact UInt8.not_lt.mpr h hd
  rw [escapeChar, if_neg (hne 9 (by decide)), if_neg (hne 13 (by decide)),
    if_neg (hne 10 (by decide)), if_neg hq]

theorem escapeChar_cost (c : UInt8) :
    (escapeChar c).length ≤ byteCost c ∧ (byteCost c ≤ (escapeChar c).length → cleanChar c = true) := by
  by_cases h9 : c = 9
  · subst h9
    decide
  by_cases h10 : c = 10
  · subst h10
    decide
  by_cases h13 : c = 13
  · subst h13
    decide
  by_cases h34 : c = 34
  · subst h34
    decide
  have hone : escapeChar c = [c] := by
    rw [escapeChar, if_neg h9, if_neg h13, if_neg h10, if_neg h34]
  have hcost := byteCost_le c
  rw [hone, List.length_singleton]
  refine ⟨hcost.1, fun hle => ?_⟩
  unfold byteCost at hle
  split at hle
  · omega
  · rename_i hnot
    rw [not_or, not_or] at hnot
    simp [cleanChar, hnot.2.2, UInt8.not_lt.mp hnot.1]

theorem escaped_cost (s : Bytes) :
    (escaped s).length ≤ cost s ∧ (cost s ≤ (escaped s).length → ∀ c ∈ s, cleanChar c = true) := by
  induction s with
  | nil => exact ⟨le_refl _, fun _ c hc => nomatch hc⟩
  | cons c s ih =>
      obtain ⟨hle, hclean⟩ := escapeChar_cost c
      rw [escaped_cons, cost_cons, List.length_append, List.forall_mem_cons]
      exact ⟨by omega, fun h => ⟨hclean (by omega), ih.2 (by omega)⟩⟩

theorem escapeChar_getLast {c : UInt8} (h : (escapeChar c).getLast? = some 92) : c = 92 := by
  unfold escapeChar at h
  split at h
  · exact absurd h (by decide)
  · split at h
    · exact absurd h (by decide)
    · split at h
      · exact absurd h (by decide)
      · split at h
        · exact absurd h (by decide)
        · exact Option.some.inj h

theorem escapeChar_ne_nil (c : UInt8) : escapeChar c ≠ [] := by
  unfold escapeChar
  split
  · decide
  · split
    · decide
    · split
      · decide
      · split
        · decide
        · exact List.cons_ne_nil c []

theorem escaped_getLast {s : Bytes} (h : (escaped s).getLast? = some 92) : s.getLast? = some 92 := by
  induction s using List.reverseRecOn with
  | nil => cases h
  | append_singleton s c ih =>
      have hsplit : escaped (s ++ [c]) = escaped s ++ escapeChar c := by
        simp [escaped]
      obtain ⟨l, hl⟩ := Option.isSome_iff_exists.mp (List.getLast?_isSome.mpr (escapeChar_ne_nil c))
      rw [hsplit, getLast?_append_some hl, Option.some.injEq] at h
      subst h
      rw [List.getLast?_append, escapeChar_getLast hl]
      rfl

theorem parseString_escaped {s : Bytes} (h : ∀ c ∈ s, cleanChar c = true) (rest : Bytes) {fuel : Nat}
    (hf : s.length < fuel) : parseString fuel (escaped s ++ 34 :: rest) = some (s, rest) := by
  induction s generalizing fuel with
  | nil =>
      obtain ⟨fuel, rfl⟩ : ∃ f, fuel = f + 1 := ⟨fuel - 1, by omega⟩
      rfl
  | cons c s ih =>
      rw [List.length_cons] at hf
      obtain ⟨fuel, rfl⟩ : ∃ f, fuel = f + 1 := ⟨fuel - 1, by omega⟩
      rw [List.forall_mem_cons] at h
      have hrest := @ih h.2 fuel (by omega)
      have hspecial {d : UInt8} (hd : escape (d :: (escaped s ++ 34 :: rest)) = some ([c], escaped s ++ 34 :: rest)) :
          parseString (fuel + 1) (92 :: d :: (escaped s ++ 34 :: rest)) = some (c :: s, rest) := by
        rw [parseString, if_neg (by decide), if_pos rfl, hd]
        simp only [Option.bind_eq_bind, Option.bind_some, hrest]
        rfl
      rw [escaped_cons]
      by_cases h9 : c = 9
      · subst h9
        exact hspecial rfl
      by_cases h10 : c = 10
      · subst h10
        exact hspecial rfl
      by_cases h13 : c = 13
      · subst h13
        exact hspecial rfl
      by_cases h34 : c = 34
      · subst h34
        exact hspecial rfl
      have hc : c ≠ 92 ∧ 32 ≤ c := by simpa [cleanChar, h9, h10, h13] using h.1
      rw [escapeChar_plain hc.2 h34, List.singleton_append, List.cons_append, parseString,
        if_neg h34, if_neg hc.1, if_neg (UInt8.not_lt.mpr hc.2)]
      simp only [Option.bind_eq_bind, hrest, Option.bind_some]
      rfl

theorem parseString_escaped_iff (s : Bytes) {rest : Bytes} (hrest : NoBackslash rest)
    (fuel : Nat) (hf : s.length < fuel) (t : Bytes) :
    parseString fuel (escaped s ++ 34 :: rest) = some (s, t) ↔ (∀ c ∈ s, cleanChar c = true) ∧ t = rest := by
  constructor
  · intro h
    have hclean : ∀ c ∈ s, cleanChar c = true := by
      rcases parseString_quote hrest h with hle | ⟨hback, l, hl, hne⟩
      · have hcost := parseString_cost h
        rw [List.length_append, List.length_cons] at hcost
        exact (escaped_cost s).2 (by omega)
      · rw [escaped_getLast hback, Option.some.injEq] at hl
        exact absurd hl.symm hne
    have hread := parseString_escaped hclean rest hf
    rw [h, Option.some.injEq, Prod.mk.injEq] at hread
    exact ⟨hclean, hread.2⟩
  · rintro ⟨hclean, rfl⟩
    exact parseString_escaped hclean t hf

def Delimited (rest : Bytes) : Prop :=
  ∀ c, rest.head? = some c → isDigit c = false ∧ c ≠ 46 ∧ c ≠ 101 ∧ c ≠ 69

theorem delimited_cons {c : UInt8} (h : isDigit c = false ∧ c ≠ 46 ∧ c ≠ 101 ∧ c ≠ 69) (t : Bytes) :
    Delimited (c :: t) := by
  intro d hd
  cases hd
  exact h

theorem lexeme_head (n : Int) : ∃ d ds, lexeme n = d :: ds ∧ (d = 45 ∨ isDigit d = true) := by
  unfold lexeme
  split
  · exact ⟨45, _, rfl, Or.inl rfl⟩
  · obtain ⟨d, ds, hd⟩ := List.exists_cons_of_ne_nil (decimal_ne_nil n.natAbs)
    exact ⟨d, ds, hd, Or.inr (isDigit_of_mem_decimal (by rw [hd]; exact List.mem_cons_self))⟩

theorem parseDigits_delimited {ds rest : Bytes} (hne : ds ≠ []) (hd : ∀ d ∈ ds, isDigit d = true)
    (hrest : Delimited rest) : parseDigits (ds ++ rest) = some (ds, rest) := by
  have hstop : rest.takeWhile isDigit = [] ∧ rest.dropWhile isDigit = rest := by
    rcases rest with _ | ⟨c, rest⟩
    · exact ⟨rfl, rfl⟩
    · have hc := (hrest c rfl).1
      simp [hc]
  have htake : (ds ++ rest).takeWhile isDigit = ds := by
    rw [List.takeWhile_append_of_pos hd, hstop.1, List.append_nil]
  have hdrop : (ds ++ rest).dropWhile isDigit = rest := by
    rw [List.dropWhile_append_of_pos hd, hstop.2]
  rw [parseDigits, htake, hdrop, if_neg hne]

theorem parseInt_decimal (n : Nat) {rest : Bytes} (hrest : Delimited rest) :
    parseInt (decimal n ++ rest) = some (decimal n, rest) := by
  by_cases hn : n = 0
  · subst hn
    rfl
  · have hdigits := parseDigits_delimited (decimal_ne_nil n) (fun d => isDigit_of_mem_decimal) hrest
    have hhead := decimal_head_ne (Nat.pos_of_ne_zero hn)
    obtain ⟨d, ds, hd⟩ := List.exists_cons_of_ne_nil (decimal_ne_nil n)
    rw [hd] at hdigits hhead ⊢
    have hd48 : d ≠ 48 := fun h => hhead (by rw [h]; rfl)
    rw [← hdigits, List.cons_append, parseInt]
    intro t ht
    exact hd48 (List.cons.inj ht).1

theorem parseUnsigned_decimal (n : Nat) {rest : Bytes} (hrest : Delimited rest) :
    parseUnsigned (decimal n ++ rest) = some (decimal n, rest) := by
  have hfrac : parseFrac rest = some ([], rest) := by
    rcases rest with _ | ⟨c, rest⟩
    · rfl
    · rw [parseFrac]
      intro t ht
      exact (hrest c rfl).2.1 (List.cons.inj ht).1
  have hexp : parseExp rest = some ([], rest) := by
    rcases rest with _ | ⟨c, rest⟩
    · rfl
    · have hc := hrest c rfl
      unfold parseExp
      exact if_neg (not_or.mpr hc.2.2)
  simp [parseUnsigned, parseInt_decimal n hrest, hfrac, hexp]

theorem parseLiteral_lexeme (n : Int) {rest : Bytes} (hrest : Delimited rest) :
    parseLiteral (lexeme n ++ rest) = some (.number (lexeme n), rest) := by
  have hnumber : parseNumber (lexeme n ++ rest) = some (lexeme n, rest) := by
    unfold lexeme
    split
    · rw [List.cons_append, parseNumber, parseUnsigned_decimal _ hrest]
      rfl
    · obtain ⟨d, ds, hd⟩ := List.exists_cons_of_ne_nil (decimal_ne_nil n.natAbs)
      have hdigit : isDigit d = true := isDigit_of_mem_decimal (by rw [hd]; exact List.mem_cons_self)
      rw [← parseUnsigned_decimal n.natAbs hrest, hd, List.cons_append, parseNumber]
      intro t ht
      rw [(List.cons.inj ht).1] at hdigit
      exact absurd hdigit (by decide)
  obtain ⟨d, ds, hd, hhead⟩ := lexeme_head n
  have hword {w : Bytes} {c : UInt8} (hw : w.head? = some c) (hc : c ≠ 45 ∧ isDigit c = false) :
      ¬ w <+: lexeme n ++ rest := by
    intro hpre
    obtain ⟨w, rfl⟩ := List.head?_eq_some_iff.mp hw
    rw [hd, List.cons_append, List.cons_prefix_cons] at hpre
    rcases hhead with h45 | hdigit
    · exact hc.1 (hpre.1.trans h45)
    · rw [← hpre.1, hc.2] at hdigit
      cases hdigit
  rw [parseLiteral, if_neg (hword (c := 110) rfl (by decide)), if_neg (hword (c := 116) rfl (by decide)),
    if_neg (hword (c := 102) rfl (by decide)), hnumber]
  rfl

mutual

def toJson : Value → Json
  | .int n => .number (lexeme n)
  | .str s => .string s
  | .list items => .array (itemsToJson items)
  | .dict members => .object (membersToJson members)

def itemsToJson : List Value → List Json
  | [] => []
  | v :: vs => toJson v :: itemsToJson vs

def membersToJson : List (Bytes × Value) → List (Bytes × Json)
  | [] => []
  | (name, v) :: ms => (name, toJson v) :: membersToJson ms

end

mutual

def strings : Value → List Bytes
  | .int _ => []
  | .str s => [s]
  | .list items => itemStrings items
  | .dict members => memberStrings members

def itemStrings : List Value → List Bytes
  | [] => []
  | v :: vs => strings v ++ itemStrings vs

def memberStrings : List (Bytes × Value) → List Bytes
  | [] => []
  | (name, v) :: ms => name :: (strings v ++ memberStrings ms)

end

theorem lexeme_injective {m n : Int} (h : lexeme m = lexeme n) : m = n := by
  have hdigits {a b : Nat} (hab : decimal a = decimal b) : a = b := by
    rw [← digitsValue_decimal a, hab, digitsValue_decimal]
  have hsign {a b : Nat} : 45 :: decimal a ≠ decimal b := fun hab =>
    absurd (isDigit_of_mem_decimal (hab ▸ List.mem_cons_self)) (by decide)
  unfold lexeme at h
  split at h <;> split at h
  · have := hdigits (List.cons.inj h).2
    omega
  · exact absurd h hsign
  · exact absurd h.symm hsign
  · have := hdigits h
    omega

mutual

theorem toJson_injective (v w : Value) (h : toJson v = toJson w) : v = w := by
  cases v with
  | int m =>
      cases w with
      | int n => rw [lexeme_injective (Json.number.inj h)]
      | str s => cases h
      | list items => cases h
      | dict members => cases h
  | str s =>
      cases w with
      | str t => rw [Json.string.inj h]
      | int n => cases h
      | list items => cases h
      | dict members => cases h
  | list items =>
      cases w with
      | list items' => rw [itemsToJson_injective items items' (Json.array.inj h)]
      | int n => cases h
      | str s => cases h
      | dict members => cases h
  | dict members =>
      cases w with
      | dict members' => rw [membersToJson_injective members members' (Json.object.inj h)]
      | int n => cases h
      | str s => cases h
      | list items => cases h

theorem itemsToJson_injective (vs ws : List Value) (h : itemsToJson vs = itemsToJson ws) : vs = ws := by
  cases vs with
  | nil =>
      cases ws with
      | nil => rfl
      | cons w ws => cases h
  | cons v vs =>
      cases ws with
      | nil => cases h
      | cons w ws =>
          obtain ⟨hv, hvs⟩ := List.cons.inj h
          rw [toJson_injective v w hv, itemsToJson_injective vs ws hvs]

theorem membersToJson_injective (ms ns : List (Bytes × Value)) (h : membersToJson ms = membersToJson ns) :
    ms = ns := by
  cases ms with
  | nil =>
      cases ns with
      | nil => rfl
      | cons n ns => cases h
  | cons m ms =>
      obtain ⟨name, v⟩ := m
      cases ns with
      | nil => cases h
      | cons n ns =>
          obtain ⟨name', w⟩ := n
          obtain ⟨hm, hms⟩ := List.cons.inj h
          obtain ⟨hname, hv⟩ := Prod.mk.inj hm
          rw [hname, toJson_injective v w hv, membersToJson_injective ms ns hms]

end

def CleanStrings (ss : List Bytes) : Prop := ∀ s ∈ ss, ∀ c ∈ s, cleanChar c = true

theorem cleanStrings_nil : CleanStrings [] := fun _ hs => nomatch hs

theorem cleanStrings_cons {s : Bytes} {ss : List Bytes} :
    CleanStrings (s :: ss) ↔ (∀ c ∈ s, cleanChar c = true) ∧ CleanStrings ss := List.forall_mem_cons

theorem cleanStrings_append {ss ss' : List Bytes} :
    CleanStrings (ss ++ ss') ↔ CleanStrings ss ∧ CleanStrings ss' := List.forall_mem_append

theorem renderMoreItems_cons (v : Value) (vs : List Value) :
    renderMoreItems (v :: vs) = 44 :: 32 :: renderItems (v :: vs) := by
  rw [renderMoreItems, renderItems]

theorem renderMoreMembers_cons (m : Bytes × Value) (ms : List (Bytes × Value)) :
    renderMoreMembers (m :: ms) = 44 :: 32 :: renderMembers (m :: ms) := by
  rw [renderMoreMembers, renderMembers]

theorem render_head (v : Value) : ∃ d ds, v.render = d :: ds ∧ d ≠ 93 ∧ isWs d = false := by
  cases v with
  | int n =>
      obtain ⟨d, ds, hd, hhead⟩ := lexeme_head n
      refine ⟨d, ds, by rw [Value.render, hd], ?_⟩
      rcases hhead with rfl | hdigit
      · decide
      · simp only [isDigit, Bool.and_eq_true, decide_eq_true_eq, UInt8.le_iff_toNat_le] at hdigit
        obtain ⟨hlo, hhi⟩ : 48 ≤ d.toNat ∧ d.toNat ≤ 57 := hdigit
        have hne {c : UInt8} (hc : c.toNat < 48 ∨ 57 < c.toNat) : d ≠ c := by
          rintro rfl
          omega
        have h93 := hne (c := 93) (by decide)
        have h32 := hne (c := 32) (by decide)
        have h9 := hne (c := 9) (by decide)
        have h10 := hne (c := 10) (by decide)
        have h13 := hne (c := 13) (by decide)
        simp [isWs, h93, h32, h9, h10, h13]
  | str s => exact ⟨34, _, by rw [Value.render, quoted], by decide⟩
  | list items => exact ⟨91, _, by rw [Value.render], by decide⟩
  | dict members => exact ⟨123, _, by rw [Value.render], by decide⟩

mutual

theorem render_noBackslash (v : Value) {rest : Bytes} (h : NoBackslash rest) :
    NoBackslash (v.render ++ rest) := by
  cases v with
  | int n =>
      rw [Value.render]
      refine noBackslash_append (fun hmem => ?_) h
      have hdigits : (92 : UInt8) ∉ decimal n.natAbs :=
        fun hd => absurd (isDigit_of_mem_decimal hd) (by decide)
      unfold lexeme at hmem
      split at hmem
      · rcases List.mem_cons.mp hmem with h45 | hd
        · exact absurd h45 (by decide)
        · exact hdigits hd
      · exact hdigits hmem
  | str s =>
      rw [Value.render]
      exact noBackslash_quote _
  | list items =>
      rw [Value.render, List.cons_append, List.append_assoc]
      exact noBackslash_cons (by decide) (renderItems_noBackslash items (noBackslash_cons (by decide) h))
  | dict members =>
      rw [Value.render, List.cons_append, List.append_assoc]
      exact noBackslash_cons (by decide) (renderMembers_noBackslash members (noBackslash_cons (by decide) h))

theorem renderItems_noBackslash (vs : List Value) {rest : Bytes} (h : NoBackslash rest) :
    NoBackslash (renderItems vs ++ rest) := by
  cases vs with
  | nil => exact h
  | cons v vs =>
      rw [renderItems, List.append_assoc]
      exact render_noBackslash v (renderMoreItems_noBackslash vs h)

theorem renderMoreItems_noBackslash (vs : List Value) {rest : Bytes} (h : NoBackslash rest) :
    NoBackslash (renderMoreItems vs ++ rest) := by
  cases vs with
  | nil => exact h
  | cons v vs =>
      rw [renderMoreItems, List.cons_append, List.cons_append, List.append_assoc]
      exact noBackslash_cons (by decide) (noBackslash_cons (by decide)
        (render_noBackslash v (renderMoreItems_noBackslash vs h)))

theorem renderMembers_noBackslash (ms : List (Bytes × Value)) {rest : Bytes} (h : NoBackslash rest) :
    NoBackslash (renderMembers ms ++ rest) := by
  cases ms with
  | nil => exact h
  | cons m ms =>
      rw [renderMembers]
      exact noBackslash_quote _

end

theorem delimited_items (vs : List Value) (rest : Bytes) : Delimited (renderMoreItems vs ++ 93 :: rest) := by
  cases vs with
  | nil => exact delimited_cons (by decide) rest
  | cons v vs =>
      rw [renderMoreItems_cons]
      exact delimited_cons (by decide) _

theorem delimited_members (ms : List (Bytes × Value)) (rest : Bytes) :
    Delimited (renderMoreMembers ms ++ 125 :: rest) := by
  cases ms with
  | nil => exact delimited_cons (by decide) rest
  | cons m ms =>
      rw [renderMoreMembers_cons]
      exact delimited_cons (by decide) _

theorem render_ne_nil (v : Value) : 0 < v.render.length := by
  obtain ⟨d, ds, hd, -⟩ := render_head v
  rw [hd]
  exact Nat.succ_pos _

theorem skipWs_render (v : Value) (rest : Bytes) : skipWs (v.render ++ rest) = v.render ++ rest := by
  obtain ⟨d, ds, hd, -, hws⟩ := render_head v
  rw [hd, List.cons_append, skipWs_of_head hws]

theorem fuel_succ {fuel k : Nat} (h : k < fuel) : ∃ f, fuel = f + 1 ∧ k ≤ f := ⟨fuel - 1, by omega, by omega⟩

theorem length_le_escaped (s : Bytes) : s.length ≤ (escaped s).length := by
  induction s with
  | nil => exact le_refl _
  | cons c s ih =>
      have := List.length_pos_iff.mpr (escapeChar_ne_nil c)
      rw [escaped_cons, List.length_append, List.length_cons]
      omega

theorem skipWs_quoted (name rest : Bytes) : skipWs (quoted name ++ rest) = quoted name ++ rest := by
  rw [quoted, List.cons_append, skipWs_of_head (by decide)]

theorem parseName_quoted (name : Bytes) {rest : Bytes} (hrest : NoBackslash rest) (t : Bytes) :
    parseName (quoted name ++ 58 :: rest) = some (name, t) ↔ (∀ c ∈ name, cleanChar c = true) ∧ t = rest := by
  have hcolon : NoBackslash (58 :: rest) := noBackslash_cons (by decide) hrest
  have htext : quoted name ++ 58 :: rest = 34 :: (escaped name ++ 34 :: 58 :: rest) := by
    simp [quoted, escaped]
  have hstring := parseString_escaped_iff name hcolon ((escaped name ++ 34 :: 58 :: rest).length + 1)
    (by have := length_le_escaped name; rw [List.length_append]; omega)
  rw [htext, parseName, if_pos rfl]
  simp only [Option.bind_eq_bind, Option.bind_eq_some_iff]
  constructor
  · rintro ⟨⟨name', u⟩, hs, h⟩
    have hname : name' = name := by
      dsimp only at h
      split at h
      · cases h
      · split at h
        · exact (Prod.mk.inj (Option.some.inj h)).1
        · cases h
    subst hname
    obtain ⟨hclean, rfl⟩ := (hstring u).mp hs
    rw [skipWs_of_head (by decide)] at h
    exact ⟨hclean, (Prod.mk.inj (Option.some.inj h)).2.symm⟩
  · rintro ⟨hclean, rfl⟩
    refine ⟨(name, 58 :: t), (hstring _).mpr ⟨hclean, rfl⟩, ?_⟩
    dsimp only
    rw [skipWs_of_head (by decide)]
    rfl

mutual

theorem parseValue_render (v : Value) (fuel : Nat) (hf : v.render.length ≤ fuel)
    {rest : Bytes} (hd : Delimited rest) (hn : NoBackslash rest) (t : Bytes) :
    parseValue fuel (v.render ++ rest) = some (toJson v, t) ↔ CleanStrings (strings v) ∧ t = rest := by
  cases v with
  | int n =>
      obtain ⟨f, rfl, -⟩ := fuel_succ (lt_of_lt_of_le (render_ne_nil (.int n)) hf)
      have hread := parseLiteral_lexeme n hd
      obtain ⟨d, ds, hlex, hhead⟩ := lexeme_head n
      have hne {c : UInt8} (hc : c ≠ 45 ∧ isDigit c = false) : d ≠ c := by
        rintro rfl
        rcases hhead with h45 | hdigit
        · exact hc.1 h45
        · rw [hc.2] at hdigit
          cases hdigit
      rw [Value.render, toJson, strings]
      rw [hlex] at hread ⊢
      rw [List.cons_append] at hread ⊢
      rw [parseValue, if_neg (hne (by decide)), if_neg (hne (by decide)), if_neg (hne (by decide)),
        hread, Option.some.injEq, Prod.mk.injEq]
      exact ⟨fun h => ⟨cleanStrings_nil, h.2.symm⟩, fun h => ⟨rfl, h.2.symm⟩⟩
  | str s =>
      obtain ⟨f, rfl, -⟩ := fuel_succ (lt_of_lt_of_le (render_ne_nil (.str s)) hf)
      have htext : (Value.str s).render ++ rest = 34 :: (escaped s ++ 34 :: rest) := by
        simp [Value.render, quoted, escaped]
      have hstring := parseString_escaped_iff s hn ((escaped s ++ 34 :: rest).length + 1)
        (by have := length_le_escaped s; rw [List.length_append]; omega) t
      rw [htext, toJson, strings, parseValue, if_pos rfl, cleanStrings_cons,
        and_iff_left cleanStrings_nil, ← hstring, Option.map_eq_some_iff]
      constructor
      · rintro ⟨⟨s', u⟩, hs, h⟩
        obtain ⟨hj, rfl⟩ := Prod.mk.inj h
        cases hj
        exact hs
      · exact fun h => ⟨(s, t), h, rfl⟩
  | list items =>
      have hlen : (Value.list items).render.length = (renderItems items).length + 2 := by
        simp [Value.render]
      obtain ⟨f, rfl, hf⟩ := fuel_succ (show (renderItems items).length + 1 < fuel by omega)
      rw [Value.render, toJson, strings, List.cons_append, List.append_assoc,
        List.singleton_append, parseValue, if_neg (by decide), if_pos rfl]
      cases items with
      | nil =>
          rw [renderItems, List.nil_append, skipWs_of_head (by decide), itemsToJson, itemStrings]
          dsimp only
          rw [if_pos rfl, Option.some.injEq, Prod.mk.injEq]
          exact ⟨fun h => ⟨cleanStrings_nil, h.2.symm⟩, fun h => ⟨rfl, h.2.symm⟩⟩
      | cons v vs =>
          have hread := parseElements_render (v :: vs) (List.cons_ne_nil v vs) f (by omega) hn t
          obtain ⟨d, ds, hhead, h93, hws⟩ := render_head v
          have htext : renderItems (v :: vs) ++ 93 :: rest =
              d :: (ds ++ (renderMoreItems vs ++ 93 :: rest)) := by
            rw [renderItems, hhead, List.append_assoc, List.cons_append]
          rw [← hread, htext, skipWs_of_head hws]
          dsimp only
          rw [if_neg h93, Option.map_eq_some_iff]
          constructor
          · rintro ⟨⟨js, u⟩, hs, h⟩
            obtain ⟨hj, rfl⟩ := Prod.mk.inj h
            cases hj
            exact hs
          · exact fun h => ⟨(itemsToJson (v :: vs), t), h, rfl⟩
  | dict members =>
      have hlen : (Value.dict members).render.length = (renderMembers members).length + 2 := by
        simp [Value.render]
      obtain ⟨f, rfl, hf⟩ := fuel_succ (show (renderMembers members).length + 1 < fuel by omega)
      rw [Value.render, toJson, strings, List.cons_append, List.append_assoc,
        List.singleton_append, parseValue, if_neg (by decide), if_neg (by decide), if_pos rfl]
      cases members with
      | nil =>
          rw [renderMembers, List.nil_append, skipWs_of_head (by decide), membersToJson, memberStrings]
          dsimp only
          rw [if_pos rfl, Option.some.injEq, Prod.mk.injEq]
          exact ⟨fun h => ⟨cleanStrings_nil, h.2.symm⟩, fun h => ⟨rfl, h.2.symm⟩⟩
      | cons m ms =>
          have hread := parseMembers_render (m :: ms) (List.cons_ne_nil m ms) f (by omega) hn t
          obtain ⟨ds, htext⟩ : ∃ ds, renderMembers (m :: ms) ++ 125 :: rest = 34 :: ds :=
            ⟨_, by rw [renderMembers, quoted]; rfl⟩
          rw [← hread, htext, skipWs_of_head (by decide)]
          dsimp only
          rw [if_neg (by decide), Option.map_eq_some_iff]
          constructor
          · rintro ⟨⟨js, u⟩, hs, h⟩
            obtain ⟨hj, rfl⟩ := Prod.mk.inj h
            cases hj
            exact hs
          · exact fun h => ⟨(membersToJson (m :: ms), t), h, rfl⟩

theorem parseElements_render (vs : List Value) (hne : vs ≠ []) (fuel : Nat)
    (hf : (renderItems vs).length < fuel) {rest : Bytes} (hn : NoBackslash rest) (t : Bytes) :
    parseElements fuel (renderItems vs ++ 93 :: rest) = some (itemsToJson vs, t) ↔
      CleanStrings (itemStrings vs) ∧ t = rest := by
  cases vs with
  | nil => exact absurd rfl hne
  | cons v vs =>
      have hpos := render_ne_nil v
      rw [renderItems, List.length_append] at hf
      obtain ⟨f, rfl, hf⟩ := fuel_succ hf
      obtain ⟨f, rfl, hf'⟩ := fuel_succ (show (renderMoreItems vs).length < f by omega)
      have hend : NoBackslash (93 :: rest) := noBackslash_cons (by decide) hn
      have hfirst :=
        parseValue_render v (f + 1) (by omega) (delimited_items vs rest) (renderMoreItems_noBackslash vs hend)
      have hmore : parseMoreElements (f + 1) (renderMoreItems vs ++ 93 :: rest) = some (itemsToJson vs, t) ↔
          CleanStrings (itemStrings vs) ∧ t = rest := by
        cases vs with
        | nil =>
            rw [renderMoreItems, List.nil_append, parseMoreElements, skipWs_of_head (by decide),
              itemsToJson, itemStrings]
            dsimp only
            rw [if_pos rfl, Option.some.injEq, Prod.mk.injEq]
            exact ⟨fun h => ⟨cleanStrings_nil, h.2.symm⟩, fun h => ⟨rfl, h.2.symm⟩⟩
        | cons u us =>
            rw [renderMoreItems_cons, List.length_cons, List.length_cons] at hf'
            have hread := parseElements_render (u :: us) (List.cons_ne_nil u us) f (by omega) hn t
            rw [renderMoreItems_cons, List.cons_append, List.cons_append, parseMoreElements,
              skipWs_of_head (by decide)]
            dsimp only
            rw [if_neg (by decide), if_pos rfl, ← hread, parseElements_space]
      rw [renderItems, itemsToJson, itemStrings, List.append_assoc, parseElements_cons,
        skipWs_render, cleanStrings_append, and_assoc, ← hmore]
      constructor
      · rintro ⟨u, hv, hvs⟩
        obtain ⟨hclean, rfl⟩ := (hfirst u).mp hv
        exact ⟨hclean, hvs⟩
      · rintro ⟨hclean, hvs⟩
        exact ⟨_, (hfirst _).mpr ⟨hclean, rfl⟩, hvs⟩

theorem parseMembers_render (ms : List (Bytes × Value)) (hne : ms ≠ []) (fuel : Nat)
    (hf : (renderMembers ms).length < fuel) {rest : Bytes} (hn : NoBackslash rest) (t : Bytes) :
    parseMembers fuel (renderMembers ms ++ 125 :: rest) = some (membersToJson ms, t) ↔
      CleanStrings (memberStrings ms) ∧ t = rest := by
  cases ms with
  | nil => exact absurd rfl hne
  | cons m ms =>
      obtain ⟨name, v⟩ := m
      have hpos := render_ne_nil v
      rw [renderMembers, List.length_append, List.length_cons, List.length_cons, List.length_append] at hf
      obtain ⟨f, rfl, hf⟩ := fuel_succ hf
      obtain ⟨f, rfl, hf'⟩ := fuel_succ (show (renderMoreMembers ms).length < f by omega)
      have hend : NoBackslash (renderMoreMembers ms ++ 125 :: rest) := by
        cases ms with
        | nil => exact noBackslash_cons (by decide) hn
        | cons m ms =>
            rw [renderMoreMembers_cons]
            exact noBackslash_cons (by decide) (noBackslash_cons (by decide)
              (renderMembers_noBackslash (m :: ms) (noBackslash_cons (by decide) hn)))
      have hname := parseName_quoted name (noBackslash_cons (by decide) (render_noBackslash v hend) (c := 32))
      have hfirst := parseValue_render v (f + 1) (by omega) (delimited_members ms rest) hend
      have hmore : parseMoreMembers (f + 1) (renderMoreMembers ms ++ 125 :: rest) =
        some (membersToJson ms, t) ↔
          CleanStrings (memberStrings ms) ∧ t = rest := by
        cases ms with
        | nil =>
            rw [renderMoreMembers, List.nil_append, parseMoreMembers, skipWs_of_head (by decide),
              membersToJson, memberStrings]
            dsimp only
            rw [if_pos rfl, Option.some.injEq, Prod.mk.injEq]
            exact ⟨fun h => ⟨cleanStrings_nil, h.2.symm⟩, fun h => ⟨rfl, h.2.symm⟩⟩
        | cons u us =>
            rw [renderMoreMembers_cons, List.length_cons, List.length_cons] at hf'
            have hread := parseMembers_render (u :: us) (List.cons_ne_nil u us) f (by omega) hn t
            rw [renderMoreMembers_cons, List.cons_append, List.cons_append, parseMoreMembers,
              skipWs_of_head (by decide)]
            dsimp only
            rw [if_neg (by decide), if_pos rfl, ← hread, parseMembers_space]
      have htext : renderMembers ((name, v) :: ms) ++ 125 :: rest =
          quoted name ++ 58 :: 32 :: (v.render ++ (renderMoreMembers ms ++ 125 :: rest)) := by
        simp [renderMembers]
      rw [htext, membersToJson, memberStrings, parseMembers_cons, skipWs_quoted,
        cleanStrings_cons, cleanStrings_append, and_assoc, and_assoc, ← hmore]
      constructor
      · rintro ⟨u, w, hu, hv, hms⟩
        obtain ⟨hcleanName, rfl⟩ := (hname u).mp hu
        rw [skipWs_space, skipWs_render] at hv
        obtain ⟨hclean, rfl⟩ := (hfirst w).mp hv
        exact ⟨hcleanName, hclean, hms⟩
      · rintro ⟨hcleanName, hclean, hms⟩
        refine ⟨_, _, (hname _).mpr ⟨hcleanName, rfl⟩, ?_, hms⟩
        rw [skipWs_space, skipWs_render]
        exact (hfirst _).mpr ⟨hclean, rfl⟩

end

theorem scan_escapeChar (c : UInt8) (p : Utf8.Pending) (bs : Bytes) :
    Utf8.scan p (escapeChar c ++ bs) = Utf8.scan p (c :: bs) := by
  have htwo {d e : UInt8} (hd : d.toNat < 0x80) (he : e.toNat < 0x80) (hc : c.toNat < 0x80) :
      Utf8.scan p (d :: e :: bs) = Utf8.scan p (c :: bs) := by
    rw [Utf8.scan, Utf8.scan, Utf8.next_ascii hd, Utf8.next_ascii hc]
    split
    · rw [Option.bind_some, Option.bind_some, Utf8.scan, Utf8.next_ascii he, if_pos rfl, Option.bind_some]
    · rfl
  unfold escapeChar
  split
  · rename_i h
    exact htwo (by decide) (by decide) (by rw [h]; decide)
  · split
    · rename_i h
      exact htwo (by decide) (by decide) (by rw [h]; decide)
    · split
      · rename_i h
        exact htwo (by decide) (by decide) (by rw [h]; decide)
      · split
        · rename_i h
          exact htwo (by decide) (by decide) (by rw [h]; decide)
        · rfl

theorem scan_escaped (s : Bytes) (p : Utf8.Pending) : Utf8.scan p (escaped s) = Utf8.scan p s := by
  induction s generalizing p with
  | nil => rfl
  | cons c s ih =>
      rw [escaped_cons, scan_escapeChar, Utf8.scan, Utf8.scan]
      congr 1
      funext p
      exact ih p

theorem valid_quoted (s : Bytes) : Utf8.valid (quoted s) = Utf8.valid s := by
  have hopen := Utf8.valid_append_cons (c := 34) (by decide) [] (escaped s ++ [34])
  have hclose := Utf8.valid_append_cons (c := 34) (by decide) (escaped s) []
  rw [List.nil_append, hclose] at hopen
  have hs : Utf8.valid (escaped s) = Utf8.valid s := by
    rw [Utf8.valid, scan_escaped, Utf8.valid]
  rw [hs] at hopen
  exact hopen.trans (by simp [Utf8.valid, Utf8.scan])

def validStrings (ss : List Bytes) : Bool := ss.all Utf8.valid

theorem valid_ascii_cons {c : UInt8} (h : c.toNat < 0x80) (bs : Bytes) :
    Utf8.valid (c :: bs) = Utf8.valid bs := by
  have hcons := Utf8.valid_append_cons h [] bs
  exact hcons.trans (Bool.true_and _)

mutual

theorem valid_render (v : Value) : Utf8.valid v.render = validStrings (strings v) := by
  cases v with
  | int n =>
      have hascii : ∀ c ∈ lexeme n, c.toNat < 0x80 := by
        intro c hc
        have hdigit {d : UInt8} (hd : d ∈ decimal n.natAbs) : d.toNat < 0x80 := by
          have := isDigit_of_mem_decimal hd
          simp only [isDigit, Bool.and_eq_true, decide_eq_true_eq, UInt8.le_iff_toNat_le] at this
          have : d.toNat ≤ 57 := this.2
          omega
        unfold lexeme at hc
        split at hc
        · rcases List.mem_cons.mp hc with rfl | hd
          · decide
          · exact hdigit hd
        · exact hdigit hc
      have hvalid := Utf8.valid_ascii_append hascii []
      rw [List.append_nil] at hvalid
      exact hvalid
  | str s =>
      rw [Value.render, valid_quoted, strings]
      simp [validStrings]
  | list items =>
      rw [Value.render, valid_ascii_cons (by decide), Utf8.valid_append_cons (by decide),
        valid_renderItems items, strings]
      exact Bool.and_true _
  | dict members =>
      rw [Value.render, valid_ascii_cons (by decide), Utf8.valid_append_cons (by decide),
        valid_renderMembers members, strings]
      exact Bool.and_true _

theorem valid_renderItems (vs : List Value) :
    Utf8.valid (renderItems vs) = validStrings (itemStrings vs) := by
  cases vs with
  | nil => rfl
  | cons v vs =>
      have hv := valid_render v
      have hvs := valid_renderItems vs
      rw [renderItems, itemStrings, validStrings, List.all_append, ← validStrings,
        ← validStrings, ← hv, ← hvs]
      cases vs with
      | nil =>
          rw [renderMoreItems, renderItems, List.append_nil]
          exact (Bool.and_true _).symm
      | cons u us =>
          rw [renderMoreItems_cons, Utf8.valid_append_cons (by decide), valid_ascii_cons (by decide)]

theorem valid_renderMembers (ms : List (Bytes × Value)) :
    Utf8.valid (renderMembers ms) = validStrings (memberStrings ms) := by
  cases ms with
  | nil => rfl
  | cons m ms =>
      obtain ⟨name, v⟩ := m
      have hv := valid_render v
      have hms := valid_renderMembers ms
      rw [renderMembers, memberStrings, Utf8.valid_append_cons (by decide),
        valid_ascii_cons (by decide), valid_quoted,
        validStrings, List.all_cons, List.all_append, ← validStrings, ← validStrings, ← hv, ← hms]
      congr 1
      cases ms with
      | nil =>
          rw [renderMoreMembers, renderMembers, List.append_nil]
          exact (Bool.and_true _).symm
      | cons u us =>
          rw [renderMoreMembers_cons, Utf8.valid_append_cons (by decide), valid_ascii_cons (by decide)]

end

/-- A string survives: it is in UTF-8, without a backslash or another control character
than tab, carriage return and newline. -/
def Clean (s : Bytes) : Prop := (∀ c ∈ s, cleanChar c = true) ∧ Utf8.valid s = true

instance (s : Bytes) : Decidable (Clean s) := inferInstanceAs (Decidable (_ ∧ _))

theorem decode_render (v : Value) : decode v.render = some (toJson v) ↔ ∀ s ∈ strings v, Clean s := by
  have hvalid : Utf8.valid v.render = true ↔ ∀ s ∈ strings v, Utf8.valid s = true := by
    rw [valid_render, validStrings, List.all_eq_true]
  have hread :=
    @parseValue_render v (2 * v.render.length + 2) (by omega) [] (fun c hc =>
      nomatch hc) (by simp [NoBackslash])
  have hskip := skipWs_render v []
  rw [List.append_nil] at hread hskip
  have hsplit : (∀ s ∈ strings v, Clean s) ↔ CleanStrings (strings v) ∧ Utf8.valid v.render = true := by
    rw [hvalid]
    exact ⟨fun h => ⟨fun s hs => (h s hs).1, fun s hs => (h s hs).2⟩, fun h s hs => ⟨h.1 s hs, h.2 s hs⟩⟩
  rw [hsplit, decode, hskip]
  constructor
  · intro h
    split at h
    · rename_i hutf
      split at h
      · rename_i w u hw
        split at h
        · cases h
          exact ⟨((hread u).mp hw).1, hutf⟩
        · cases h
      · cases h
    · cases h
  · rintro ⟨hclean, hutf⟩
    rw [if_pos hutf, (hread []).mpr ⟨hclean, rfl⟩]
    rfl

end Llprof.Web.JsonDecoding
