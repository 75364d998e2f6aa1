import Llprof.Web.BlankLine

namespace Llprof.Web.RequestHeaders

open LittleEndian Streams Text Libraries Request BlankLine

def IsToken (word : Bytes) : Prop := word ≠ [] ∧ ∀ c ∈ word, isSpace c = false

instance (word : Bytes) : Decidable (IsToken word) :=
  inferInstanceAs (Decidable (word ≠ [] ∧ ∀ c ∈ word, isSpace c = false))

def requestLine (method target version : Bytes) : Bytes := method ++ 32 :: (target ++ 32 :: version)

def fieldLine (field : Bytes × Bytes) : Bytes := field.1 ++ 58 :: 32 :: field.2

structure IsField (field : Bytes × Bytes) : Prop where
  name_ne : field.1 ≠ []
  separator : ¬ [58, 32] <:+: field.1
  name_lf : 10 ∉ field.1
  name_cr : 13 ∉ field.1
  value_lf : 10 ∉ field.2
  value_cr : 13 ∉ field.2

def requestFields (method target version : Bytes) : Header :=
  let (path, qs) :=
    match find (ascii "?") target with
    | some qpos => (target.take qpos, target.drop (qpos + 1))
    | none => (target, [])
  [(ascii "!version", version), (ascii "!qs", qs), (ascii "!path", path), (ascii "!method", method)]

def lastField (fields : List (Bytes × Bytes)) (name : Bytes) : Option Bytes := fields.reverse.lookup name

/-- The map has what the request line determines and the last value of each header line,
and no other keys. -/
structure Undisturbed (request : Header) (fields : List (Bytes × Bytes)) (result : Header) : Prop where
  ofRequest : ∀ key value, request.lookup key = some value → result.lookup key = some value
  ofLines : ∀ name value, lastField fields name = some value → result.lookup name = some value
  noOther : ∀ key value, result.lookup key = some value → (request.lookup key).isSome ∨
    (lastField fields key).isSome

variable {boost : Boost} {method target version : Bytes} {fields : List (Bytes × Bytes)}
  {field : Bytes × Bytes} {lines : List Bytes}

theorem splitOn_headerText (hne : lines ≠ []) (h : ∀ l ∈ lines, 10 ∉ l) :
    (headerText lines).splitOn 10 = lines.dropLast.map (· ++ [13]) ++ lines.getLast?.toList := by
  induction lines with
  | nil => exact absurd rfl hne
  | cons line lines ih =>
      rw [List.forall_mem_cons] at h
      cases lines with
      | nil => exact splitOn_of_not_mem h.1
      | cons next lines =>
          have hline : 10 ∉ line ++ [13] := by simp [h.1]
          have hsplit : headerText (line :: next :: lines) = (line ++ [13]) ++
              10 :: headerText (next :: lines) := by
            rw [headerText_cons (List.cons_ne_nil _ _)]
            simp [crlf]
          rw [hsplit, splitOn_append_cons hline, ih (List.cons_ne_nil _ _) h.2]
          rfl

theorem textLines_headerText (hne : lines ≠ []) (h : ∀ l ∈ lines, IsLine l) :
    textLines (headerText lines) = lines.dropLast.map (· ++ [13]) ++ lines.getLast?.toList := by
  obtain ⟨last, hlast⟩ := Option.ne_none_iff_exists'.mp (mt List.getLast?_eq_none_iff.mp hne)
  have hend : last ≠ [] := (h last (List.mem_of_getLast? hlast)).1
  have hsplit := splitOn_headerText hne fun l hl => (h l hl).2
  have hlast' : ((headerText lines).splitOn 10).getLast? = some last := by
    rw [hsplit, hlast]
    simp
  rw [textLines, if_neg (by rw [hlast']; simpa using hend), hsplit]

theorem find_separator (h : IsField field) : find (ascii ": ") (fieldLine field) = some field.1.length := by
  have hsep : ascii ": " = [58, 32] := by decide
  have hstart : [58, 32] <+: 58 :: 32 :: field.2 := ⟨field.2, rfl⟩
  rw [hsep, fieldLine, find_append, find_at_start hstart]
  · simp
  · intro u v he hv hp
    rcases v with _ | ⟨a, _ | ⟨b, v⟩⟩
    · exact hv rfl
    · obtain ⟨t, ht⟩ := hp
      simp at ht
    · obtain ⟨t, ht⟩ := hp
      simp only [List.cons_append, List.nil_append, List.cons.injEq] at ht
      refine h.separator ⟨u, v, ?_⟩
      rw [he, ← ht.1, ← ht.2.1]
      simp

theorem fieldLine_isLine (h : IsField field) : IsLine (fieldLine field) := by
  refine ⟨by simp [fieldLine], fun hm => ?_⟩
  rcases List.mem_append.mp hm with hm | hm
  · exact h.name_lf hm
  · simp only [List.mem_cons] at hm
    rcases hm with hm | hm | hm
    · exact absurd hm (by decide)
    · exact absurd hm (by decide)
    · exact h.value_lf hm

theorem fieldLine_getLast (h : IsField field) : (fieldLine field).getLast? ≠ some 13 := by
  intro hlast
  rcases List.mem_append.mp (List.mem_of_getLast? hlast) with hm | hm
  · exact h.name_cr hm
  · simp only [List.mem_cons] at hm
    rcases hm with hm | hm | hm
    · exact absurd hm (by decide)
    · exact absurd hm (by decide)
    · exact h.value_cr hm

theorem addFields_line (h : IsField field) {line : Bytes}
    (hline : line = fieldLine field ∨ line = fieldLine field ++ [13]) (rest : List Bytes)
    (result : Header) : addFields (line :: rest) result = addFields rest (result.set field.1 field.2) := by
  have hne : line ≠ [] := by rcases hline with rfl | rfl <;> simp [fieldLine]
  have hcut : (if line.getLast? = some 13 then line.dropLast else line) = fieldLine field := by
    rcases hline with rfl | rfl
    · rw [if_neg (fieldLine_getLast h)]
    · simp
  have htake : (fieldLine field).take field.1.length = field.1 := List.take_left
  have hdrop : (fieldLine field).drop (field.1.length + 2) = field.2 := by simp [fieldLine]
  rw [addFields, if_neg hne, hcut]
  dsimp only
  rw [find_separator h]
  dsimp only
  rw [htake, hdrop]

theorem addFields_lines (h : ∀ f ∈ fields, IsField f) (result : Header) :
    addFields ((fields.map fieldLine).dropLast.map (· ++ [13]) ++ (fields.map fieldLine).getLast?.toList)
      result = some (fields.reverse ++ result) := by
  induction fields generalizing result with
  | nil => rfl
  | cons field fields ih =>
      rw [List.forall_mem_cons] at h
      have ih := ih h.2 (result.set field.1 field.2)
      have hrev : (field :: fields).reverse ++ result = fields.reverse ++ result.set field.1 field.2 := by
        rw [List.reverse_cons, List.append_assoc]
        rfl
      rw [hrev, ← ih]
      cases fields with
      | nil => exact addFields_line h.1 (Or.inl rfl) [] result
      | cons next fields => exact addFields_line h.1 (Or.inr rfl) _ result

theorem words_requestLine (hm : IsToken method) (ht : IsToken target) (hv : IsToken version) {line : Bytes}
    (hline : line = requestLine method target version ∨ line = requestLine method target version ++ [13]) :
    ∃ more, boost.split isSpace line = method :: target :: version :: more := by
  have hspace : isSpace 32 = true := by decide
  have hreturn : isSpace 13 = true := by decide
  rcases hline with rfl | rfl
  · refine ⟨[], ?_⟩
    rw [requestLine, boost.split_cons hm.2 hspace, boost.split_cons ht.2 hspace, boost.split_word hv.2]
  · refine ⟨[[]], ?_⟩
    have hsplit : requestLine method target version ++ [13] = method ++
        32 :: (target ++ 32 :: (version ++ 13 :: [])) := by
      simp [requestLine]
    rw [hsplit, boost.split_cons hm.2 hspace, boost.split_cons ht.2 hspace, boost.split_cons hv.2 hreturn,
      boost.split_word (List.forall_mem_nil _)]

theorem requestLine_isLine (hm : IsToken method) (ht : IsToken target) (hv : IsToken version) :
    IsLine (requestLine method target version) := by
  have hno {word : Bytes} (h : IsToken word) : 10 ∉ word := fun hmem => absurd (h.2 10 hmem) (by decide)
  refine ⟨by simp [requestLine], ?_⟩
  simp [requestLine, hno hm, hno ht, hno hv]

/-- What is made of a header: the fields of the request line, and over them those of the
header lines in their order. -/
theorem parseHttpRequestHeader_eq (hm : IsToken method) (ht : IsToken target) (hv : IsToken version)
    (h : ∀ f ∈ fields, IsField f) :
    parseHttpRequestHeader boost (headerText (requestLine method target version :: fields.map fieldLine)) =
      some (fields.reverse ++ requestFields method target version) := by
  have hlines : ∀ l ∈ requestLine method target version :: fields.map fieldLine, IsLine l := by
    rw [List.forall_mem_cons]
    refine ⟨requestLine_isLine hm ht hv, fun l hl => ?_⟩
    obtain ⟨f, hf, rfl⟩ := List.mem_map.mp hl
    exact fieldLine_isLine (h f hf)
  obtain ⟨first, hfirst, htext⟩ : ∃ first, (first = requestLine method target version ∨
      first = requestLine method target version ++ [13]) ∧
      textLines (headerText (requestLine method target version :: fields.map fieldLine)) =
        first :: ((fields.map fieldLine).dropLast.map (· ++ [13]) ++ (fields.map fieldLine).getLast?.toList) := by
    rw [textLines_headerText (List.cons_ne_nil _ _) hlines]
    cases fields with
    | nil => exact ⟨_, Or.inl rfl, rfl⟩
    | cons f fields => exact ⟨_, Or.inr rfl, rfl⟩
  obtain ⟨more, hwords⟩ := words_requestLine hm ht hv hfirst
  rw [parseHttpRequestHeader, htext]
  dsimp only [List.headD_cons, List.tail_cons]
  rw [hwords]
  dsimp only
  rw [requestFields, ← addFields_lines h]
  cases find (ascii "?") target with
  | none => rfl
  | some qpos => rfl

theorem lookup_layers (request : Header) (fields : List (Bytes × Bytes)) (key : Bytes) :
    (fields.reverse ++ request).lookup key =
      (lastField fields key).or (request.lookup key) := List.lookup_append

/-- A request header is read, and the request line is undisturbed exactly if no name of
its own map has another value in the last header line of that name. -/
theorem requestHeader_undisturbed_iff (boost : Boost) (method target version : Bytes)
    (fields : List (Bytes × Bytes)) (hm : IsToken method) (ht : IsToken target) (hv : IsToken version)
    (h : ∀ f ∈ fields, IsField f) :
    ∃ result, parseHttpRequestHeader boost
      (headerText (requestLine method target version :: fields.map fieldLine)) = some result ∧
      (Undisturbed (requestFields method target version) fields result ↔
        ∀ key value last, (requestFields method target version).lookup key = some value →
          lastField fields key = some last → last = value) := by
  refine ⟨_, parseHttpRequestHeader_eq hm ht hv h, fun hu key value last hvalue hlast => ?_,
    fun hsame => ⟨?_, ?_, ?_⟩⟩
  · have h₁ := hu.ofRequest key value hvalue
    rw [hu.ofLines key last hlast] at h₁
    exact Option.some.inj h₁
  · intro key value hvalue
    rw [lookup_layers]
    cases hlast : lastField fields key with
    | none => exact hvalue
    | some last => rw [hsame key value last hvalue hlast, Option.some_or]
  · intro name value hlast
    rw [lookup_layers, hlast, Option.some_or]
  · intro key value hkey
    rw [lookup_layers] at hkey
    cases hlast : lastField fields key with
    | none =>
        rw [hlast, Option.none_or] at hkey
        exact Or.inl (by rw [hkey]; rfl)
    | some last => exact Or.inr rfl

theorem mem_of_lookup {m : Header} {key value : Bytes} (h : m.lookup key = some value) :
    (key, value) ∈ m := by
  obtain ⟨l₁, l₂, rfl, -⟩ := List.lookup_eq_some_iff.mp h
  simp

/-- The first value of `Host` is lost, and the one of `!method` is that of the request line. -/
theorem requestHeader_undisturbed_host :
    ∃ result, parseHttpRequestHeader plainBoost (headerText (requestLine (ascii "GET") (ascii "/a?b") (ascii "HTTP/1.1") ::
        [(ascii "Host", ascii "x"), (ascii "!method", ascii "GET"), (ascii "Host", ascii "y: z")].map
          fieldLine)) = some result ∧
      Undisturbed (requestFields (ascii "GET") (ascii "/a?b") (ascii "HTTP/1.1"))
        [(ascii "Host", ascii "x"), (ascii "!method", ascii "GET"), (ascii "Host", ascii "y: z")] result := by
  have hfields : ∀ f ∈ [(ascii "Host", ascii "x"), (ascii "!method", ascii "GET"),
      (ascii "Host", ascii "y: z")], IsField f := by
    simp only [List.forall_mem_cons]
    refine ⟨?_, ?_, ?_, List.forall_mem_nil _⟩
    all_goals constructor <;> decide +kernel
  have hsame : ∀ p ∈ requestFields (ascii "GET") (ascii "/a?b") (ascii "HTTP/1.1"),
      ∀ q ∈ [(ascii "Host", ascii "x"), (ascii "!method", ascii "GET"), (ascii "Host", ascii "y: z")].reverse,
        p.1 = q.1 → q.2 = p.2 := by decide +kernel
  obtain ⟨result, hrun, hiff⟩ :=
    requestHeader_undisturbed_iff plainBoost (ascii "GET") (ascii "/a?b") (ascii "HTTP/1.1") _
      (by decide +kernel) (by decide +kernel) (by decide +kernel) hfields
  exact ⟨result, hrun, hiff.mpr fun key value last hvalue hlast =>
    hsame _ (mem_of_lookup hvalue) _ (mem_of_lookup hlast) rfl⟩

theorem header_disturbs_path :
    headerText [requestLine (ascii "GET") (ascii "/") (ascii "HTTP/1.1"),
      fieldLine (ascii "!path", ascii "/ds/dump")] =
        ascii "GET / HTTP/1.1\r\n!path: /ds/dump" ∧
      (parseHttpRequestHeader plainBoost (ascii "GET / HTTP/1.1\r\n!path: /ds/dump")).bind
        (List.lookup (ascii "!path")) = some (ascii "/ds/dump") ∧
      (requestFields (ascii "GET") (ascii "/") (ascii "HTTP/1.1")).lookup (ascii "!path") =
        some (ascii "/") := by
  decide +kernel

end Llprof.Web.RequestHeaders
