import Llprof.Web.Chunking
import Llprof.Web.ClientHandler
import Llprof.Web.RequestHeaders
import Llprof.Wire.NameQuery

namespace Llprof.Web.PageRequests

open Faulting LittleEndian Decimal Streams Text HeadedMessages Libraries Request RequestPaths FormDecoding
  JsonWriter BlankLine RequestHeaders Chunking Responses ClientHandler Wire.Network Wire.NameQuery

inductive Asked
  | list
  | current (id : Int)
  | range (id first last : Int)
  deriving DecidableEq, Repr

def Asked.path : Asked → List Bytes
  | .list => [ascii "list"]
  | .current id => [ascii "tree", lexeme id, ascii "current"]
  | .range id first last => [ascii "tree", lexeme id, ascii "diff", lexeme first, lexeme last]

def Asked.url (r : Asked) : Bytes := 47 :: List.intercalate [47] (ascii "ds" :: r.path)

def Asked.action (dataStores : List Int) : Asked → Action
  | .list => .list
  | .current id => if id ∈ dataStores then .current id else .noDataStore
  | .range id first last => if id ∈ dataStores then .diff id first last else .noDataStore

def Asked.Fits : Asked → Prop
  | .list => True
  | .current id => IsInt id
  | .range id first last => IsInt id ∧ IsInt first ∧ IsInt last

def lines (r : Asked) (fields : List (Bytes × Bytes)) : List Bytes :=
  requestLine (ascii "POST") r.url (ascii "HTTP/1.1") :: fields.map fieldLine

def ownNames : List Bytes := [ascii "!version", ascii "!qs", ascii "!path", ascii "!method"]

/-- The header lines that a browser sends with a request without a body. -/
structure Browser (fields : List (Bytes × Bytes)) : Prop where
  field : ∀ f ∈ fields, IsField f
  own : ∀ f ∈ fields, f.1 ∉ ownNames
  length : (lastField fields (ascii "Content-Length")).getD (ascii "0") = ascii "0"

theorem mem_lexeme {n : Int} {c : UInt8} (h : c ∈ lexeme n) : c = 45 ∨ isDigit c = true := by
  rw [lexeme] at h
  split at h
  · exact (List.mem_cons.mp h).imp_right isDigit_of_mem_decimal
  · exact Or.inr (isDigit_of_mem_decimal h)

def IsWord (word : Bytes) : Prop := ∀ c ∈ word, c ≠ 47 ∧ c ≠ 63 ∧ isSpace c = false

instance (word : Bytes) : Decidable (IsWord word) := List.decidableBAll _ word

theorem lexeme_word (n : Int) : IsWord (lexeme n) := by
  intro c hc
  rcases mem_lexeme hc with rfl | hd
  · decide
  · refine ⟨?_, ?_, (isDigit_not_space hd).1⟩
    · rintro rfl
      exact absurd hd (by decide)
    · rintro rfl
      exact absurd hd (by decide)

theorem path_words (r : Asked) : ∀ word ∈ ascii "ds" :: r.path, IsWord word := by
  have htree (id : Int) (rest : List Bytes) (h : ∀ word ∈ rest, IsWord word) :
      ∀ word ∈ ascii "ds" :: ascii "tree" :: lexeme id :: rest, IsWord word := by
    simp only [List.forall_mem_cons]
    exact ⟨by decide, by decide, lexeme_word id, h⟩
  cases r with
  | list => exact (by decide : ∀ word ∈ [ascii "ds", ascii "list"], IsWord word)
  | current id => exact htree id _ (List.forall_mem_singleton.mpr (by decide))
  | range id first last =>
      apply htree
      simp only [List.forall_mem_cons]
      exact ⟨by decide, lexeme_word first, lexeme_word last, List.forall_mem_nil _⟩

theorem route_url (boost : Boost) (r : Asked) : route boost r.url = .dataStore r.path := by
  have hsplit : boost.splitAt 47 r.url = [] :: ascii "ds" :: r.path := by
    have hstart :=
      splitOn_append_cons (List.not_mem_nil (a := (47 : UInt8)))
        (List.intercalate [47] (ascii "ds" :: r.path))
    have hwords : ∀ word ∈ ascii "ds" :: r.path, (47 : UInt8) ∉ word :=
      fun word hw hm => (path_words r word hw 47 hm).1 rfl
    rw [List.nil_append, List.splitOn_intercalate 47 hwords (List.cons_ne_nil _ _)] at hstart
    rw [boost.splitAt_eq]
    exact hstart
  have hds : ascii "ds" ≠ [] ∧ ascii "ds" ≠ ascii "index.html" ∧ ascii "ds" ≠ ascii "files" ∧
      ascii "ds" ≠ ascii "test_time" := by
    decide
  rw [route, hsplit, List.tail_cons]
  dsimp only
  rw [if_neg (not_or.mpr ⟨hds.1, hds.2.1⟩), if_neg (fun h => hds.2.2.1 h.2), if_neg hds.2.2.2, if_pos rfl]

theorem dataStoreRequest_asked (boost : Boost) {r : Asked} (hr : r.Fits)
    (dataStores : List Int) (data : FormData) :
    dataStoreRequest boost dataStores r.path data =
      .ok (some (ascii "text/javascript", r.action dataStores)) := by
  have hwords : ascii "list" ≠ ascii "new" ∧ ascii "tree" ≠ ascii "new" ∧ ascii "tree" ≠ ascii "list" ∧
      ascii "diff" ≠ ascii "current" := by decide
  cases r with
  | list => simp [dataStoreRequest, componentIs, fetch, Asked.path, Asked.action, hwords]
  | current id =>
      have hid := boost.cast_lexeme hr
      by_cases hmem : id ∈ dataStores <;>
        simp [dataStoreRequest, treeRequest, componentIs, fetch, Asked.path, Asked.action, hwords, hid, hmem]
  | range id first last =>
      obtain ⟨hid, hfirst, hlast⟩ := hr
      have hid := boost.cast_lexeme hid
      have hfirst := boost.cast_lexeme hfirst
      have hlast := boost.cast_lexeme hlast
      by_cases hmem : id ∈ dataStores <;>
        simp [dataStoreRequest, treeRequest, diffRequest, componentIs, fetch, lexicalCast, Asked.path,
          Asked.action, hwords, hid, hfirst, hlast, hmem]

variable {boost : Boost} {r : Asked} {fields : List (Bytes × Bytes)}

theorem mem_intercalate {c : UInt8} {sep : Bytes} {words : List Bytes} (h : c ∈ sep.intercalate words) :
    c ∈ sep ∨ ∃ word ∈ words, c ∈ word := by
  induction words with
  | nil => cases h
  | cons word words ih =>
      cases words with
      | nil =>
          rw [List.intercalate_singleton] at h
          exact Or.inr ⟨word, List.mem_cons_self, h⟩
      | cons next words =>
          rw [List.intercalate_cons_cons, List.mem_append, List.mem_append] at h
          rcases h with (h | h) | h
          · exact Or.inr ⟨word, List.mem_cons_self, h⟩
          · exact Or.inl h
          · rcases ih h with h | ⟨w, hw, h⟩
            · exact Or.inl h
            · exact Or.inr ⟨w, List.mem_cons_of_mem _ hw, h⟩

theorem mem_url {c : UInt8} (h : c ∈ r.url) : c ≠ 63 ∧ isSpace c = false := by
  have hslash : (47 : UInt8) ≠ 63 ∧ isSpace 47 = false := by decide
  rcases List.mem_cons.mp h with rfl | h
  · exact hslash
  · rcases mem_intercalate h with h | ⟨word, hword, h⟩
    · exact List.mem_singleton.mp h ▸ hslash
    · exact (path_words r word hword c h).2

/-- What is made of the header of a request of the page. -/
def header (r : Asked) (fields : List (Bytes × Bytes)) : Header :=
  fields.reverse ++ requestFields (ascii "POST") r.url (ascii "HTTP/1.1")

theorem post_isToken : IsToken (ascii "POST") := ⟨List.cons_ne_nil _ _, not_space_of_all rfl⟩

theorem version_isToken : IsToken (ascii "HTTP/1.1") := ⟨List.cons_ne_nil _ _, not_space_of_all rfl⟩

theorem header_parsed (hb : Browser fields) :
    parseHttpRequestHeader boost (headerText (lines r fields)) = some (header r fields) := by
  have htoken : IsToken r.url := ⟨List.cons_ne_nil _ _, fun c hc => (mem_url hc).2⟩
  exact parseHttpRequestHeader_eq post_isToken htoken version_isToken hb.field

theorem requestFields_url (r : Asked) : requestFields (ascii "POST") r.url (ascii "HTTP/1.1") =
    [(ascii "!version", ascii "HTTP/1.1"), (ascii "!qs", []), (ascii "!path", r.url),
      (ascii "!method", ascii "POST")] := by
  have hquery : find (ascii "?") r.url = none := by
    have hchar : ascii "?" = [63] := by decide
    rw [hchar, find_singleton, findFirstOf_eq_none, List.drop_zero]
    exact fun h => (mem_url h).1 rfl
  rw [requestFields, hquery]

theorem header_own (hb : Browser fields) {key : Bytes} (hkey : key ∈ ownNames) (default : Bytes) :
    (header r fields).getm key default =
      ((requestFields (ascii "POST") r.url (ascii "HTTP/1.1")).lookup key).getD default := by
  have hnone : lastField fields key = none := by
    rw [lastField, List.lookup_eq_none_iff]
    intro f hf
    rw [bne_iff_ne]
    rintro rfl
    exact hb.own f (List.mem_reverse.mp hf) hkey
  rw [Header.getm, header, lookup_layers, hnone, Option.none_or]

theorem header_path (hb : Browser fields) : (header r fields).getm (ascii "!path") [] = r.url := by
  rw [header_own hb (by decide), requestFields_url]
  rfl

theorem request_complete (hb : Browser fields) :
    CompletePost boost (headerText (lines r fields)) [13, 10, 13, 10] [] (header r fields) := by
  refine ⟨Or.inr rfl, header_parsed hb, ?_, ?_⟩
  · rw [isPost, decide_eq_true_eq, header_own hb (by decide), requestFields_url]
    rfl
  · have hnone : (requestFields (ascii "POST") r.url (ascii "HTTP/1.1")).lookup (ascii "Content-Length") =
        none := by
      rw [requestFields_url]
      rfl
    have hzero : ascii "0" = lexeme 0 := by decide
    rw [Header.getm, header, lookup_layers, hnone, Option.or_none, hb.length, hzero]
    exact boost.cast_lexeme (by decide)

theorem lines_isLine (hb : Browser fields) : ∀ l ∈ lines r fields, IsLine l := by
  have htoken : IsToken r.url := ⟨List.cons_ne_nil _ _, fun c hc => (mem_url hc).2⟩
  rw [lines, List.forall_mem_cons]
  refine ⟨requestLine_isLine post_isToken htoken version_isToken, fun l hl => ?_⟩
  obtain ⟨f, hf, rfl⟩ := List.mem_map.mp hl
  exact fieldLine_isLine (hb.field f hf)

theorem firstBlank_request (hb : Browser fields) {pieces : List Bytes}
    (hp : pieces.flatten = request (lines r fields) []) {e : HeaderEnd}
    (he : firstBlank 0 pieces = some e) : e.offset = (headerText (lines r fields)).length := by
  obtain ⟨hskip, hend, hblank⟩ := firstBlank_eq_some [] he
  rw [List.nil_append, hp] at hend hblank
  have hlen : (request (lines r fields) []).length = (headerText (lines r fields)).length + 4 := by
    simp [request, crlf]
  rcases hblank with ⟨-, hlf⟩ | ⟨hfour, hcr⟩
  · have hinfix :=
      (lf_infix_request (lines_isLine hb) []).mp (hlf.isInfix.trans (List.drop_suffix _ _).isInfix)
    exact absurd hinfix (by decide)
  · have hfind : find [13, 10, 13, 10] (request (lines r fields) []) =
        some (headerText (lines r fields)).length :=
      find_crlf_request (List.cons_ne_nil _ _) (lines_isLine hb) []
    have hfirst := find_le hfind hcr (by omega)
    omega

theorem readRequest_asked (hb : Browser fields) {pieces : List Bytes}
    (hp : pieces.flatten = request (lines r fields) []) (hne : ∀ p ∈ pieces, p ≠ [])
    (hfits : readRequest boost pieces ≠ .error .undeliverable) (hblank : firstBlank 0 pieces ≠ none) :
    readRequest boost pieces = .ok (headerText (lines r fields), []) := by
  obtain ⟨e, he⟩ := Option.ne_none_iff_exists'.mp hblank
  have hsplit : pieces.flatten = headerText (lines r fields) ++ [13, 10, 13, 10] ++ [] := by
    rw [hp, request, List.append_assoc (headerText (lines r fields))]
    rfl
  exact (completePost_read (request_complete hb) hsplit hne hfits).mpr ⟨e, he, firstBlank_request hb hp he⟩

variable {σ : Type}

/-- The operation that the page means is carried out on the data stores, and the page reads
exactly what it writes. -/
theorem page_request_answered (site : Site σ) (boost : Boost) (scanf : Scanf) (k : Kernel) (hk : k.Partial)
    (w : Server σ) (r : Asked) (hr : r.Fits) (fields : List (Bytes × Bytes))
    (hb : Browser fields) (pieces : List Bytes) (hp : pieces.flatten = request (lines r fields) [])
    (hne : ∀ p ∈ pieces, p ≠ []) (hfits : readRequest boost pieces ≠ .error .undeliverable)
    (hblank : firstBlank 0 pieces ≠ none) (stores : σ) (text : Bytes)
    (hperform : site.perform w.stores (r.action (site.dataStores w.stores)) = .ok (stores, text)) :
    ∃ out, clientHandler site boost scanf k w pieces = .ok (some out, { w with stores }) ∧
      readMessage out = some (declared (Response.found (ascii "text/javascript") text).message, []) := by
  have hread := readRequest_asked hb hp hne hfits hblank
  have hform : parseQueryString scanf [] w.stdin = .ok (true, [], w.stdin) := rfl
  have hrespond : respond site boost scanf w r.url [] =
      .ok (.found (ascii "text/javascript") text, { w with stores }) := by
    rw [respond, route_url]
    dsimp only
    rw [hform, ok_bind]
    dsimp only
    rw [dataStoreRequest_asked boost hr, ok_bind]
    dsimp only
    rw [hperform, ok_bind]
    rfl
  have hbounded : Bounded k := fun i n hn => (hk.send i n hn).2
  obtain ⟨ok, s, hsend, hall, hwhole, -⟩ := sendString_reads _ (respond_clean hrespond) hbounded
  refine ⟨s.out, ?_, (hwhole (hall hk)).2⟩
  rw [clientHandler, hread]
  dsimp only
  rw [header_parsed hb]
  dsimp only
  rw [header_path hb, hrespond, ok_bind]
  dsimp only
  rw [hsend, ok_bind]
  rfl

def hostFields : List (Bytes × Bytes) :=
  [(ascii "Host", ascii "localhost:8020"), (ascii "Content-Length", ascii "0")]

theorem hostFields_browser : Browser hostFields := by
  refine ⟨?_, by decide, by decide⟩
  simp only [hostFields, List.forall_mem_cons]
  refine ⟨?_, ?_, List.forall_mem_nil _⟩
  all_goals constructor <;> decide

theorem page_request_answered_range :
    ∃ out,
      clientHandler { plainSite with dataStores := fun _ => [1], perform := fun s _ => .ok (s, ascii "done") }
        plainBoost noInput bytewise
        ⟨(), 0, []⟩ [(request (lines (.range 1 2 5) hostFields) []).take 30,
          (request (lines (.range 1 2 5) hostFields) []).drop 30] = .ok (some out, ⟨(), 0, []⟩) ∧
      readMessage out = some (declared (Response.found (ascii "text/javascript") (ascii "done")).message,
        []) := by
  refine page_request_answered _ plainBoost noInput bytewise bytewise_partial ⟨(), 0, []⟩ (.range 1 2 5)
    ⟨by decide, by decide, by decide⟩ hostFields hostFields_browser _ ?_ ?_ ?_ ?_ () (ascii "done") rfl
  · rw [List.flatten_cons, List.flatten_singleton, List.take_append_drop]
  · decide +kernel
  · decide +kernel
  · decide +kernel

end Llprof.Web.PageRequests
