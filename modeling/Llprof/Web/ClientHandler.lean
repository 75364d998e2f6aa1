import Llprof.Foundations.FilePaths
import Llprof.Web.FormDecoding
import Llprof.Web.JsonWriter
import Llprof.Web.RequestPaths
import Llprof.Web.Responses

namespace Llprof.Web.ClientHandler

open Faulting LittleEndian Text FilePaths HeadedMessages Libraries Request RequestPaths FormDecoding
  JsonWriter Responses Wire.Network

/-- The text up to the first NUL, as `c_str` gives it away. -/
def cStr (s : Bytes) : Bytes := s.takeWhile (· ≠ 0)

def mimeTypes : List (Bytes × Bytes) :=
  [(ascii "txt", ascii "text/plain"), (ascii "tml", ascii "text/html"), (ascii "htm", ascii "text/html"),
    (ascii "css", ascii "text/css"), (ascii ".js", ascii "text/javascript")]

def mimeOf (ext : Bytes) : Bytes := (mimeTypes.lookup ext).getD (ascii "application/octet-stream")

/-- `files` is what a stream reads that is opened with a name. The size is an `int`. -/
def buildRespFile (files : Bytes → Option Bytes) (fileName : Bytes) : Run Response :=
  match files (cStr fileName) with
  | none => .ok .notFound
  | some contents => do
      require (3 ≤ fileName.length) .aborted
      let mime := mimeOf (fileName.drop (fileName.length - 3))
      let sz := toInt32 contents.length
      require (0 ≤ sz) .aborted
      return .found mime (contents.take sz.toNat)

inductive Route
  | file (fileName : Bytes)
  | testTime
  | dataStore (path : List Bytes)
  | notFound
  deriving DecidableEq, Repr

def indexName : Bytes := ascii "./files/index.html"

def route (boost : Boost) (path : Bytes) : Route :=
  match (boost.splitAt 47 path).tail with
  | [] => .file indexName
  | word :: rest =>
      if word = [] ∨ word = ascii "index.html" then
        .file indexName
      else if rest ≠ [] ∧ word = ascii "files" then
        let targetFilePath := boost.join rest [47]
        if (find (ascii "..") targetFilePath).isSome then .notFound else .file
          (ascii "./files/" ++ targetFilePath)
      else if word = ascii "test_time" then .testTime
      else if word = ascii "ds" then .dataStore rest
      else .notFound

/-- What the handler works on: the files, the ids of the data stores, and what the
operations do to them and write. -/
structure Site (σ : Type) where
  files : Bytes → Option Bytes
  dataStores : σ → List Int
  perform : σ → Action → Run (σ × Bytes)

/-- What is kept between the requests: the data stores, the counter of `test_time` and the
standard input. -/
structure Server (σ : Type) where
  stores : σ
  counter : Int
  stdin : Bytes

def writeJsonChars (value : Bytes) (strm : Bytes) : Run Bytes := .ok (strm ++ 34 :: (value ++ [34]))

def testTime (counter : Int) : Run Bytes := do
  let list ← dictAdd (Writer.on []) (ascii "va") (writeJsonChars (ascii "abasb"))
  let list ← dictAdd list (ascii "counter") (writeJsonInt counter)
  let list ← dictAdd list (ascii "vc") (writeJsonInt 0)
  let list ← dictClose list
  return list.strm

variable {σ : Type}

def respond (site : Site σ) (boost : Boost) (scanf : Scanf) (w : Server σ) (path reqBodyStr : Bytes) :
    Run (Response × Server σ) :=
  match route boost path with
  | .file fileName => do
      let resp ← buildRespFile site.files fileName
      return (resp, w)
  | .testTime => do
      let text ← testTime w.counter
      return (.found (ascii "text/javascript") text, { w with counter := w.counter + 1 })
  | .dataStore path => do
      let (_, data, stdin) ← parseQueryString scanf reqBodyStr w.stdin
      match ← dataStoreRequest boost (site.dataStores w.stores) path data with
      | none => return (.notFound, { w with stdin })
      | some (mime, action) => do
          let (stores, text) ← site.perform w.stores action
          return (.found mime text, { w with stores, stdin })
  | .notFound => return (.notFound, w)

/-- What the handler makes of the pieces that arrive: what it sends, unless it gives up. -/
def clientHandler (site : Site σ) (boost : Boost) (scanf : Scanf) (k : Kernel) (w : Server σ)
    (pieces : List Bytes) : Run (Option Bytes × Server σ) :=
  match readRequest boost pieces with
  | .error .badLexicalCast => .error .aborted
  | .error _ => .ok (none, w)
  | .ok (reqHeaderStr, reqBodyStr) =>
      match parseHttpRequestHeader boost reqHeaderStr with
      | none => .ok (none, w)
      | some reqHeader => do
          let (resp, w) ← respond site boost scanf w (reqHeader.getm (ascii "!path") []) reqBodyStr
          let (_, s) ← sendString k resp.text ⟨[], 0⟩
          return (some s.out, w)

/-- From wherever the server runs, the name stands for something in its directory `files`. -/
def Inside (name : Bytes) : Prop := ∀ dir, dir ++ [ascii "files"] <+: resolve dir name

theorem cStr_files (rest : Bytes) : cStr (ascii "./files/" ++ rest) = ascii "./files/" ++ cStr rest := by
  have hall : (ascii "./files/").all (· ≠ 0) = true := rfl
  exact List.takeWhile_append_of_pos (List.all_eq_true.mp hall)

theorem inside_of_no_points {rest : Bytes} (h : find (ascii "..") rest = none) :
    Inside (cStr (ascii "./files/" ++ rest)) := by
  have hpoints : ¬ [46, 46] <:+: ascii "files" ++ 47 :: cStr rest := by
    have hrest : ¬ [46, 46] <:+: cStr rest :=
      fun hi => find_eq_none.mp h (hi.trans (List.takeWhile_prefix _).isInfix)
    have hnone : find [46, 46] (ascii "files/" ++ cStr rest) = none := by
      rw [find_append]
      · rw [find_eq_none.mpr hrest]
        rfl
      · intro u v hw hv hp
        obtain ⟨c, v, rfl⟩ := List.exists_cons_of_ne_nil hv
        rw [List.cons_append, List.cons_prefix_cons] at hp
        have hc : (46 : UInt8) ∈ ascii "files/" := by
          rw [hw, hp.1]
          exact List.mem_append_right u List.mem_cons_self
        exact absurd hc (by decide)
    exact find_eq_none.mp hnone
  rw [cStr_files]
  intro dir
  exact resolve_below (by decide) (by decide) hpoints dir

theorem route_inside {boost : Boost} {path fileName : Bytes} (h : route boost path = .file fileName) :
    Inside (cStr fileName) := by
  have hnone : find (ascii "..") (ascii "index.html") = none := by decide
  have hindex : Inside (cStr indexName) := inside_of_no_points hnone
  rw [route] at h
  split at h
  · cases h
    exact hindex
  · split at h
    · cases h
      exact hindex
    · split at h
      · dsimp only at h
        split at h
        · cases h
        next hsome =>
          cases h
          exact inside_of_no_points (Option.not_isSome_iff_eq_none.mp hsome)
      · split at h
        · cases h
        · split at h <;> cases h

/-- What is answered depends on no file outside the directory `files`. -/
theorem files_stay_inside (site : Site σ) (files : Bytes → Option Bytes)
    (hfiles : ∀ name, Inside name → files name = site.files name) (boost : Boost) (scanf : Scanf) (k : Kernel)
    (w : Server σ) (pieces : List Bytes) :
    clientHandler { site with files } boost scanf k w pieces = clientHandler site boost scanf k w pieces := by
  have hrespond (path body : Bytes) : respond { site with files } boost scanf w path body =
      respond site boost scanf w path body := by
    rw [respond, respond]
    cases hroute : route boost path with
    | file fileName =>
        dsimp only
        rw [buildRespFile, buildRespFile, hfiles _ (route_inside hroute)]
    | testTime => rfl
    | dataStore path => rfl
    | notFound => rfl
  rw [clientHandler, clientHandler]
  simp only [hrespond]

def plainSite : Site Unit :=
  ⟨fun name => if name = ascii "./files/a.txt" then some (ascii "hello") else none, fun _ =>
    [], fun s _ => .ok (s, [])⟩

def noInput : Scanf := fun _ stdin => ⟨none, none, stdin⟩

def dropping : Kernel := ⟨fun i _ => if i < 30 then 1 else -1, fun _ _ => 1⟩

theorem dropping_bounded : Bounded dropping := by
  intro i n hn
  rw [dropping]
  dsimp only
  split <;> omega

theorem files_stay_inside_passwd :
    clientHandler
        { plainSite with
          files := fun name => if name = ascii "/etc/passwd" then some (ascii "root") else plainSite.files name }
        plainBoost noInput dropping ⟨(), 0, []⟩ [ascii "GET /files//etc/passwd HTTP/1.1\r\n\r\n"] =
      clientHandler plainSite plainBoost noInput dropping ⟨(), 0, []⟩
        [ascii "GET /files//etc/passwd HTTP/1.1\r\n\r\n"] := by
  apply files_stay_inside
  intro name hname
  by_cases he : name = ascii "/etc/passwd"
  · subst he
    exact absurd (hname []) (by decide)
  · rw [if_neg he]

theorem mimeOf_value (ext : Bytes) : IsValue (mimeOf ext) := by
  have hall : ∀ e ∈ mimeTypes, IsValue e.2 := by decide
  rw [mimeOf]
  cases hmime : mimeTypes.lookup ext with
  | none => decide
  | some mime =>
      obtain ⟨front, back, hsplit, -⟩ := List.lookup_eq_some_iff.mp hmime
      exact hall (ext, mime) (hsplit ▸ List.mem_append_right front List.mem_cons_self)

theorem buildRespFile_clean {files : Bytes → Option Bytes} {fileName : Bytes} {r : Response}
    (h : buildRespFile files fileName = .ok r) : r.Clean := by
  rw [buildRespFile] at h
  split at h
  · cases h
    trivial
  · simp only [bind_eq_ok, pure_eq_ok, Except.ok.injEq] at h
    obtain ⟨-, -, -, -, rfl⟩ := h
    exact mimeOf_value _

theorem treeRequest_mime {boost : Boost} {path : List Bytes} {id : Int} {answer : Bytes × Action}
    (h : treeRequest boost path id = .ok answer) :
    answer.1 = ascii "text/javascript" ∨ answer.1 = ascii "text/plain" := by
  obtain ⟨current, -, h⟩ := bind_eq_ok.mp h
  split at h
  · cases h
    exact Or.inl rfl
  · obtain ⟨diff, -, h⟩ := bind_eq_ok.mp h
    split at h
    · obtain ⟨action, -, h⟩ := bind_eq_ok.mp h
      cases h
      exact Or.inl rfl
    · obtain ⟨check, -, h⟩ := bind_eq_ok.mp h
      split at h <;> cases h
      · exact Or.inr rfl
      · exact Or.inl rfl

theorem dataStoreRequest_mime {boost : Boost} {dataStores : List Int} {path : List Bytes} {data : FormData}
    {mime : Bytes} {action : Action}
    (h : dataStoreRequest boost dataStores path data = .ok (some (mime, action))) :
    mime = ascii "text/javascript" ∨ mime = ascii "text/plain" := by
  obtain ⟨new, -, h⟩ := bind_eq_ok.mp h
  split at h
  · obtain ⟨action, -, h⟩ := bind_eq_ok.mp h
    cases h
    exact Or.inl rfl
  obtain ⟨list, -, h⟩ := bind_eq_ok.mp h
  split at h
  · cases h
    exact Or.inl rfl
  obtain ⟨tree, -, h⟩ := bind_eq_ok.mp h
  split at h
  · obtain ⟨component, -, h⟩ := bind_eq_ok.mp h
    split at h
    · cases h
      exact Or.inl rfl
    · split at h
      · cases h
        exact Or.inl rfl
      · obtain ⟨answer, hanswer, h⟩ := bind_eq_ok.mp h
        cases h
        exact treeRequest_mime hanswer
  · obtain ⟨dump, -, h⟩ := bind_eq_ok.mp h
    split at h <;> cases h
    exact Or.inl rfl

theorem respond_clean {site : Site σ} {boost : Boost} {scanf : Scanf} {w w' : Server σ}
    {path body : Bytes} {r : Response}
    (h : respond site boost scanf w path body = .ok (r, w')) : r.Clean := by
  have hscript : IsValue (ascii "text/javascript") := by decide
  have hplain : IsValue (ascii "text/plain") := by decide
  rw [respond] at h
  split at h
  · obtain ⟨resp, hresp, h⟩ := bind_eq_ok.mp h
    cases h
    exact buildRespFile_clean hresp
  · obtain ⟨text, -, h⟩ := bind_eq_ok.mp h
    cases h
    exact hscript
  · obtain ⟨parsed, -, h⟩ := bind_eq_ok.mp h
    obtain ⟨answer, hanswer, h⟩ := bind_eq_ok.mp h
    cases answer with
    | none =>
        cases h
        trivial
    | some answer =>
        obtain ⟨done, -, h⟩ := bind_eq_ok.mp h
        cases h
        rcases dataStoreRequest_mime hanswer with hmime | hmime
        · exact hmime ▸ hscript
        · exact hmime ▸ hplain
  · cases h
    trivial

/-- Whatever is asked, and whatever the system takes of the response at a time: the client
reads exactly the response if all of it has been sent, and knows that it is cut off
otherwise. -/
theorem response_whole_or_cut (site : Site σ) (boost : Boost) (scanf : Scanf) (k : Kernel) (hk : Bounded k)
    (w w' : Server σ) (pieces : List Bytes) (out : Bytes)
    (h : clientHandler site boost scanf k w pieces = .ok (some out, w')) :
    ∃ header body fields r, readRequest boost pieces = .ok (header, body) ∧
      parseHttpRequestHeader boost header = some fields ∧
      respond site boost scanf w (fields.getm (ascii "!path") []) body = .ok (r, w') ∧
      (out = r.text ∧ readMessage out = some (declared r.message, []) ∨
        ¬ k.Partial ∧ out <+: r.text ∧ readMessage out = none) := by
  rw [clientHandler] at h
  split at h
  · cases h
  · cases h
  next header body hread =>
    split at h
    · cases h
    next fields hparse =>
      obtain ⟨⟨r, w₁⟩, hr, h⟩ := bind_eq_ok.mp h
      obtain ⟨ok, s, hsend, hsends, hall, hcut⟩ := sendString_reads r (respond_clean hr) hk
      dsimp only at h
      rw [hsend, ok_bind] at h
      cases h
      refine ⟨header, body, fields, r, hread, hparse, hr, ?_⟩
      cases ok with
      | true => exact Or.inl (hall rfl)
      | false => exact Or.inr ⟨fun hp => Bool.noConfusion (hsends hp), hcut rfl⟩

theorem response_whole_or_cut_file :
    ∃ out header body fields r, readRequest plainBoost [ascii "GET /files/a.txt HTTP/1.1\r\n\r\n"] =
      .ok (header, body) ∧ parseHttpRequestHeader plainBoost header = some fields ∧
      respond plainSite plainBoost noInput ⟨(), 0, []⟩ (fields.getm (ascii "!path") []) body =
        .ok (r, ⟨(), 0, []⟩) ∧
      (out = r.text ∧ readMessage out = some (declared r.message, []) ∨
        ¬ dropping.Partial ∧ out <+: r.text ∧ readMessage out = none) := by
  obtain ⟨out, hrun⟩ : ∃ out, clientHandler plainSite plainBoost noInput dropping ⟨(), 0, []⟩
    [ascii "GET /files/a.txt HTTP/1.1\r\n\r\n"] =
      .ok (some out, ⟨(), 0, []⟩) := ⟨_, rfl⟩
  exact ⟨out, response_whole_or_cut plainSite plainBoost noInput dropping dropping_bounded _ _ _ out hrun⟩

end Llprof.Web.ClientHandler
