import Llprof.Link.EndToEnd
import Llprof.Web.PageRequests
import Llprof.Web.ReadOnlyQueries

namespace Llprof.Link.PageView

open Faulting hiding store
open LittleEndian Decimal JsonText HeadedMessages Profiler.Records Profiler.CallTree
  Profiler.Drains Profiler.Activations Profiler.RecordInfo Profiler.Threads Wire.Network Wire.NameQuery
  Monitor.Nodes Monitor.Store Monitor.Answers Monitor.Ticks Web.Libraries Web.Request Web.RequestPaths
  Web.FormDecoding Web.JsonWriter Web.JsonDecoding Web.Documents Web.TreeRequests Web.ReadOnlyQueries
  Web.BlankLine Web.Chunking Web.Responses Web.ClientHandler Web.PageRequests Metadata
  Mirror ReceiveLoop WireTick InterleavedRequest Connection EndToEnd

def AllClean (v : Value) : Prop := ∀ s ∈ strings v, Clean s

variable {ds : DataStore} {vs : List Value} {ms : List (Bytes × Value)}

theorem allClean_int (n : Int) : AllClean (.int n) := List.forall_mem_nil _

theorem allClean_str {s : Bytes} (h : Clean s) : AllClean (.str s) := List.forall_mem_singleton.mpr h

theorem allClean_list (h : ∀ v ∈ vs, AllClean v) : AllClean (.list vs) := by
  rw [AllClean, strings]
  induction vs with
  | nil => exact List.forall_mem_nil _
  | cons v vs ih =>
      rw [List.forall_mem_cons] at h
      rw [itemStrings, List.forall_mem_append]
      exact ⟨h.1, ih h.2⟩

theorem allClean_dict (h : ∀ m ∈ ms, Clean m.1 ∧ AllClean m.2) : AllClean (.dict ms) := by
  rw [AllClean, strings]
  induction ms with
  | nil => exact List.forall_mem_nil _
  | cons m ms ih =>
      rw [List.forall_mem_cons] at h
      rw [memberStrings, List.forall_mem_cons, List.forall_mem_append]
      exact ⟨h.1.1, h.1.2, ih h.2⟩

theorem allClean_values (vec : List ProfileValue) : AllClean (valuesValue vec) := by
  apply allClean_list
  intro v hv
  obtain ⟨n, -, rfl⟩ := List.mem_map.mp hv
  exact allClean_int n.toInt

def Plain (s : Bytes) : Prop := ∀ c ∈ s, 32 ≤ c.toNat ∧ c.toNat < 127 ∧ c ≠ 92

instance (s : Bytes) : Decidable (Plain s) := List.decidableBAll _ s

theorem clean_of_plain {s : Bytes} (h : Plain s) : Clean s := by
  refine ⟨fun c hc => ?_, ?_⟩
  · have hc32 : 32 ≤ c := UInt8.le_iff_toNat_le.mpr (h c hc).1
    simp [cleanChar, (h c hc).2.2, hc32]
  · have hascii := Utf8.valid_ascii_append (fun c hc => (h c hc).2.1.trans (by omega)) []
    rw [List.append_nil] at hascii
    exact hascii

theorem plain_decimal (n : Nat) : Plain (decimal n) := by
  intro c hc
  have hdigit := isDigit_of_mem_decimal hc
  rw [isDigit, Bool.and_eq_true, decide_eq_true_eq, decide_eq_true_eq] at hdigit
  obtain ⟨hlow, hhigh⟩ := hdigit
  rw [UInt8.le_iff_toNat_le] at hlow hhigh
  refine ⟨?_, ?_, ?_⟩
  · exact le_trans (by decide) hlow
  · exact lt_of_le_of_lt hhigh (by decide)
  · rintro rfl
    exact absurd hhigh (by decide)

def NoBackslashes (ds : DataStore) : Prop := ∀ y, (92 : UInt8) ∉ ds.getNameFromID y

theorem allClean_node (h : NoBackslashes ds) (node : RecordNodeBasic) : AllClean (nodeValue ds node) := by
  have hname : AllClean (.str (printable (ds.getNameFromID node.nodeName))) :=
    allClean_str ((clean_printable _).mpr (h _))
  apply allClean_dict
  simp only [List.forall_mem_cons]
  exact ⟨⟨clean_of_plain (by decide), allClean_int _⟩, ⟨clean_of_plain (by decide), allClean_int _⟩,
    ⟨clean_of_plain (by decide), hname⟩, ⟨clean_of_plain (by decide), allClean_values _⟩,
    ⟨clean_of_plain (by decide), allClean_values _⟩, ⟨clean_of_plain (by decide), allClean_int _⟩,
      List.forall_mem_nil _⟩

theorem allClean_nodes (h : NoBackslashes ds) (nodes : List RecordNodeBasic) :
    AllClean (.list (nodes.map (nodeValue ds))) := by
  apply allClean_list
  intro v hv
  obtain ⟨node, -, rfl⟩ := List.mem_map.mp hv
  exact allClean_node h node

theorem clean_lastMembers (last : Option LastSlice) : ∀ m ∈ lastMembers last, Clean m.1 ∧ AllClean m.2 := by
  cases last with
  | none => exact List.forall_mem_nil _
  | some last =>
      obtain ⟨nowValues, startValues, runningNode⟩ := last
      rw [lastMembers]
      simp only [List.forall_mem_cons, List.forall_mem_append]
      refine ⟨⟨clean_of_plain (by decide), allClean_values _⟩, ?_,
        ⟨clean_of_plain (by decide), allClean_int _⟩, List.forall_mem_nil _⟩
      cases startValues with
      | none => exact List.forall_mem_nil _
      | some startValues =>
          have hstart : Clean (ascii "start_values") := clean_of_plain (by decide)
          exact List.forall_mem_singleton.mpr ⟨hstart, allClean_values startValues⟩

theorem allClean_thread (h : NoBackslashes ds) (answer : ThreadAnswer) :
    AllClean (threadValue ds answer) := by
  obtain ⟨id, tree⟩ := answer
  apply allClean_dict
  cases tree with
  | current nodes nowValues runningNode =>
      rw [treeMembers]
      simp only [List.forall_mem_cons]
      exact ⟨⟨clean_of_plain (by decide), allClean_int _⟩,
        ⟨clean_of_plain (by decide), allClean_nodes h nodes⟩,
        ⟨clean_of_plain (by decide), allClean_values _⟩,
          ⟨clean_of_plain (by decide), allClean_int _⟩, List.forall_mem_nil _⟩
  | diff nodes last =>
      rw [treeMembers]
      simp only [List.forall_mem_cons]
      exact ⟨⟨clean_of_plain (by decide), allClean_int _⟩,
        ⟨clean_of_plain (by decide), allClean_nodes h nodes⟩, clean_lastMembers last⟩

def MetadataClean (ds : DataStore) : Prop :=
  ∀ md ∈ ds.recordMetadata, Clean md.fieldName ∧ Clean md.unit ∧ Clean md.flags

theorem allClean_dataStore (h : NoBackslashes ds) (hmeta : MetadataClean ds) (answers : List ThreadAnswer) :
    AllClean (dataStoreValue ds answers) := by
  have hthreads : AllClean (.list (answers.map (threadValue ds))) := by
    apply allClean_list
    intro v hv
    obtain ⟨answer, -, rfl⟩ := List.mem_map.mp hv
    exact allClean_thread h answer
  have hmetadata : AllClean (.dict (ds.recordMetadata.zipIdx.map (fun md => (decimal md.2, metadataValue md.1)))) := by
    apply allClean_dict
    intro m hm
    obtain ⟨md, hmd, rfl⟩ := List.mem_map.mp hm
    obtain ⟨hname, hunit, hflags⟩ := hmeta md.1 (List.fst_mem_of_mem_zipIdx hmd)
    refine ⟨clean_of_plain (plain_decimal _), allClean_dict ?_⟩
    simp only [List.forall_mem_cons]
    exact ⟨⟨clean_of_plain (by decide), allClean_str hname⟩, ⟨clean_of_plain (by decide), allClean_str hunit⟩,
      ⟨clean_of_plain (by decide), allClean_str hflags⟩, List.forall_mem_nil _⟩
  apply allClean_dict
  simp only [List.forall_mem_cons]
  exact ⟨⟨clean_of_plain (by decide), allClean_int _⟩, ⟨clean_of_plain (by decide), hthreads⟩,
    ⟨clean_of_plain (by decide), allClean_int _⟩, ⟨clean_of_plain (by decide), hmetadata⟩,
      List.forall_mem_nil _⟩

/-- The server of a monitor. Its tree requests are those of the data stores. -/
def siteOf (gl : Settings) (files : Bytes → Option Bytes)
    (others : AllDataStore → Action → Run (AllDataStore × Bytes)) : Site AllDataStore where
  files
  dataStores m := (if gl.singleTreeMode then [0] else []) ++
    (List.range m.targets.length).map (fun (i : Nat) => (i : Int) + 1)
  perform m action :=
    match action with
    | .current id => Web.TreeRequests.dataStoreRequest gl m (.current id)
    | .diff id p1 p2 => Web.TreeRequests.dataStoreRequest gl m (.diff id p1 p2)
    | action => others m action

variable {gl : Settings} {m : AllDataStore} {target : TargetStore} {i : Nat}

def currentValue (target : TargetStore) : Value :=
  dataStoreValue target.ds (target.threads.map (fun t => currentAnswer t.2))

theorem sweep_current (gl : Settings) (ds : DataStore) (id : Int) (threads : Threads)
    (answers : List ThreadAnswer) :
    sweep (askNext gl ds (.current id)) threads answers =
      .ok (answers ++ threads.map (fun t => currentAnswer t.2), threads) := by
  induction threads generalizing answers with
  | nil => rw [sweep, List.map_nil, List.append_nil]
  | cons t threads ih =>
      have hask : askNext gl ds (.current id) answers t = .ok (answers ++ [currentAnswer t.2], t) := rfl
      rw [sweep, hask, ok_bind]
      dsimp only
      rw [ih, ok_bind, List.append_assoc]
      rfl

theorem target_answered (hi : m.targets[i]? = some target) {r : Web.TreeRequests.Request}
    (hid : r.id = i + 1) {threads : Threads} {answers : List ThreadAnswer}
    (hask : sweep (askNext gl target.ds r) target.threads [] = .ok (answers, threads)) :
    Web.TreeRequests.dataStoreRequest gl m r =
      .ok ({ m with targets := m.targets.set i { target with threads } },
        (dataStoreValue target.ds answers).render) := by
  have hglobal : ¬ (r.id = 0 ∧ gl.singleTreeMode = true) := by omega
  have hindex : (r.id - 1).toNat = i := by omega
  have hat : targetAt m r.id = some target := by rw [targetAt, if_pos (by omega), hindex, hi]
  have hanswer : askTarget gl target r = .ok ({ target with threads },
      (dataStoreValue target.ds answers).render) := by
    rw [askTarget, dumpJSON, hask, ok_bind]
    dsimp only
    rw [dumpDataStore_text, ok_bind]
    rfl
  rw [Web.TreeRequests.dataStoreRequest, if_neg hglobal, hat]
  dsimp only
  rw [hanswer, ok_bind]
  dsimp only
  rw [hindex]
  rfl

theorem answer_read (hi : m.targets[i]? = some target) (hnames : NoBackslashes target.ds)
    (hmeta : MetadataClean target.ds) {q : Web.PageRequests.Asked} (hfit : q.Fits)
    {r : Web.TreeRequests.Request} (hid : r.id = i + 1) {threads : Threads} {answers : List ThreadAnswer}
    (hask : sweep (askNext gl target.ds r) target.threads [] = .ok (answers, threads))
    (files : Bytes → Option Bytes) (others : AllDataStore → Action → Run (AllDataStore × Bytes))
    (hperform : (siteOf gl files others).perform m (q.action ((siteOf gl files others).dataStores m)) =
      Web.TreeRequests.dataStoreRequest gl m r)
    (boost : Boost) (scanf : Scanf) {k : Kernel} (hk : k.Partial) (counter : Int) (stdin : Bytes)
      {fields : List (Bytes × Bytes)} (hb : Browser fields)
    {pieces : List Bytes} (hp : pieces.flatten = request (lines q fields) []) (hne : ∀ p ∈ pieces, p ≠ [])
    (hfits : readRequest boost pieces ≠ .error .undeliverable) (hblank : firstBlank 0 pieces ≠ none) :
    ∃ out text, clientHandler (siteOf gl files others) boost scanf k ⟨m, counter, stdin⟩ pieces =
        .ok (some out, ⟨{ m with targets := m.targets.set i { target with threads } }, counter, stdin⟩) ∧
      readMessage out = some (declared (Response.found (ascii "text/javascript") text).message, []) ∧
      decode text = some (toJson (dataStoreValue target.ds answers)) := by
  rw [target_answered hi hid hask] at hperform
  obtain ⟨out, hrun, hread⟩ :=
    page_request_answered (siteOf gl files others) boost scanf k hk ⟨m, counter, stdin⟩ q hfit fields
      hb pieces hp hne hfits hblank _ _ hperform
  exact ⟨out, _, hrun, hread, (decode_render _).mpr (allClean_dataStore hnames hmeta answers)⟩

theorem mem_dataStores (hi : m.targets[i]? = some target) (gl : Settings) (files : Bytes → Option Bytes)
    (others : AllDataStore → Action → Run (AllDataStore × Bytes)) : (i : Int) +
    1 ∈ (siteOf gl files others).dataStores m := by
  obtain ⟨hlt, -⟩ := List.getElem?_eq_some_iff.mp hi
  exact List.mem_append_right _ (List.mem_map.mpr ⟨i, List.mem_range.mpr hlt, rfl⟩)

theorem tree_read (hi : m.targets[i]? = some target) (hint : IsInt (i + 1)) (hnames : NoBackslashes target.ds)
    (hmeta : MetadataClean target.ds) (files : Bytes → Option Bytes)
    (others : AllDataStore → Action → Run (AllDataStore × Bytes)) (boost : Boost) (scanf : Scanf) {k : Kernel}
    (hk : k.Partial) (counter : Int) (stdin : Bytes) {fields : List (Bytes × Bytes)} (hb : Browser fields)
    {pieces : List Bytes} (hp : pieces.flatten = request (lines (.current (i + 1)) fields) [])
    (hne : ∀ p ∈ pieces, p ≠ []) (hfits : readRequest boost pieces ≠ .error .undeliverable)
    (hblank : firstBlank 0 pieces ≠ none) :
    ∃ out text, clientHandler (siteOf gl files others) boost scanf k ⟨m, counter, stdin⟩ pieces =
      .ok (some out, ⟨m, counter, stdin⟩) ∧
      readMessage out = some (declared (Response.found (ascii "text/javascript") text).message, []) ∧
      decode text = some (toJson (currentValue target)) := by
  have hmem := mem_dataStores hi gl files others
  have hsame : { m with targets := m.targets.set i { target with threads := target.threads } } = m := by
    obtain ⟨hlt, rfl⟩ := List.getElem?_eq_some_iff.mp hi
    exact congrArg (fun targets => { m with targets }) (List.set_getElem_self hlt)
  have hanswer := answer_read hi hnames hmeta (q := .current (i + 1)) hint (r := .current (i + 1)) rfl
    (sweep_current gl target.ds (i + 1) target.threads []) files others
      (by rw [Web.PageRequests.Asked.action, if_pos hmem]; rfl) boost scanf hk counter stdin
    hb hp hne hfits hblank
  rwa [hsame] at hanswer

variable {x : Setup} {t : Nat} {P : NameID → Bytes → Prop} {drains : Sweep} {seen : List Nat}
  {given : Nat → List Monitor.Runs.Delivery}

theorem plain_append {a b : Bytes} (ha : Plain a) (hb : Plain b) : Plain (a ++ b) := by
  rw [Plain, List.forall_mem_append]
  exact ⟨ha, hb⟩

theorem metadata_clean {last : Target} (hf : Follows x t P drains seen given last)
    (hname : Plain (nameOf x.g t)) : MetadataClean last.store.ds := by
  intro md hmd
  cases hfirst : last.store.firstReceived with
  | false =>
      rw [hf.unset hfirst] at hmd
      cases hmd
  | true =>
      rw [(hf.slots hfirst).2] at hmd
      obtain ⟨row, hrow, rfl⟩ := List.mem_map.mp hmd
      have hflags : Plain (ascii "fA") ∧ Plain (ascii "fS") := by decide
      have hunit : Plain (ascii "U") := by decide
      have hplain : Plain row.1 ∧ Plain (ascii "f" ++ row.2) := by
        rcases List.mem_cons.mp hrow with rfl | hrow
        · exact ⟨hname, hflags.1⟩
        · obtain rfl := List.mem_singleton.mp hrow
          exact ⟨plain_append hname (by decide), hflags.2⟩
      exact ⟨clean_of_plain hplain.1, clean_of_plain hunit, clean_of_plain hplain.2⟩

def Readable (_ : NameID) (name : Bytes) : Prop := isAttrName name = false ∧ (92 : UInt8) ∉ name

theorem noBackslashes_of_follows {last : Target} (hf : Follows x t Readable drains seen given last) :
    NoBackslashes last.store.ds := by
  intro y
  rw [DataStore.getNameFromID, Std.TreeMap.getD_eq_getD_getElem?]
  cases hy : last.store.ds.nameTable[y]? with
  | none => decide
  | some name => exact (hf.good y name hy).2

def firstTree : Bytes := request (lines (.current 1) hostFields) []

end Llprof.Link.PageView
