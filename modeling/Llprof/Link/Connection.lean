import Llprof.Link.InterleavedRequest
import Llprof.Link.MirroredThreads
import Mathlib.Data.List.ReduceOption

namespace Llprof.Link.Connection

open Faulting hiding store
open LittleEndian Decimal Streams TreeMaps Profiler.Records Profiler.Layout Profiler.RecordInfo
  Profiler.CallTree Profiler.Drains Profiler.Activations Profiler.Threads Wire.Network Wire.Framing
  Wire.NameQuery Wire.ProfileData Wire.DrainMessages Wire.NameReply Wire.RecordBytes Monitor.Nodes
  Monitor.Store Metadata NameTables ReplyTexts ReceiveLoop Mirror WireTick InterleavedRequest MirroredThreads
open Monitor.Ticks (exchanged advanced newDataStore)
open Monitor.OperationFrame (SortedThreads)

/-- What stays the same: the record types and the name of the program, the settings and
the socket of the monitor. -/
structure Setup where
  g : RecordTable
  targetName : Bytes
  other : Int → Int → Bytes → Run (List Outgoing)
  gl : Settings
  socket : Int

/-- What goes on during one call of `ReceiveLoop`: the steps of the threads, the pieces in
which the bytes come and the names that the program has when it is asked for them. -/
structure Call where
  schedule : List Meanwhile
  kernel : Kernel
  names : NameTable

structure Ends where
  world : World
  target : Target

def infoMessages (x : Setup) (firstReceived : Bool) : Run (List Outgoing) :=
  if firstReceived then .ok []
  else do
    let text ← getRecordInfo x.g
    return [.message MSG_SLIDE_INFO (slideInfoToStr (getSlide x.g.activeRecords.length)),
      .message MSG_RECORD_METAINFO text, .message MSG_PROFILE_TARGET x.targetName]

def queryOf (t : Target) (incoming : List MessageBuf) : Run (List Nat) := do
  let (t, incoming) ←
    if t.store.firstReceived then pure (t, incoming)
    else match incoming with
      | [] => throw .nullDeref
      | res :: incoming => exchangeInfo t.start res incoming
  match ← recvLoop (offsetsOf t.memberOffsetInfo) incoming (noBuffers t.store.ds.nameTable) with
  | .failed _ => return []
  | .finished r _ => return r.asked.queryNames

def answerQuery (x : Setup) (a : Call) (q : List Nat) : Run (List MessageBuf) :=
  if q = [] then .ok []
  else do
    match ← exchange a.kernel a.names x.other q with
    | none => return []
    | some (_, s) => do
        let (bufs, _) ← recvMessages a.kernel 1 ⟨s.out, 0⟩
        return bufs.reduceOption

/-- One call of `ReceiveLoop`, with the part of the profiled program in it. -/
def Call.run (x : Setup) (c : Ends) (a : Call) : Run Ends := do
  let (sendings, world) ← request x.g a.schedule c.world
  let info ← infoMessages x c.target.store.firstReceived
  let sent ← sendMessages a.kernel (info ++ replyTo sendings) ⟨[], 0⟩
  let (bufs, _) ← recvMessages a.kernel (info ++ replyTo sendings).length ⟨sent.out, 0⟩
  let q ← queryOf c.target bufs.reduceOption
  let names ← answerQuery x a q
  let (_, target) ← receiveLoop x.gl x.socket c.target (bufs.reduceOption ++ names)
  return ⟨world, target⟩

def initialEnds (x : Setup) : Ends := ⟨initialWorld x.g, ⟨true, [], [], newDataStore⟩⟩

/-- The numbers of a message fit their fields, and its length an `int`. -/
def Fitting (numRecords : Nat) (m : Sending) : Prop :=
  m.threadId < 2 ^ 64 ∧ match m.buffer with
    | .records batch => (∀ r ∈ batch, Fits numRecords r) ∧ 16 + (24 + 8 * numRecords) * batch.length < 2 ^ 31
    | .nowInfo values => NowFits numRecords values

def nameidsIn (m : Sending) : List Nat :=
  match m.buffer with
  | .records batch => batch.map (fun r => r.nameid)
  | .nowInfo _ => []

def nameidsOf (sendings : List Sending) : List Nat := sendings.flatMap nameidsIn

/-- No name of the program has a newline in it or starts like that of an attribute. -/
def CleanNames (names : NameTable) : Prop :=
  ∀ x, (10 : UInt8) ∉ NameTable.get names x ∧ isAttrName (NameTable.get names x) = false

theorem cleanNames_empty : CleanNames ∅ := by
  intro y
  have herr : NameTable.get ∅ y = ascii "(ERR)" := by simp [NameTable.get]
  rw [herr]
  decide

theorem cleanNames_insert {names : NameTable} (h : CleanNames names) {y : NameID} {name : Bytes}
    (hline : (10 : UInt8) ∉ name) (hplain : isAttrName name = false) : CleanNames (names.insert y name) := by
  intro z
  rw [NameTable.get, getElem?_insert]
  split
  · exact ⟨hline, hplain⟩
  · exact h z

def replyOf (x : Setup) (t : Nat) (sweep : Sweep) (names : Outgoing) : Reply :=
  ⟨Profiler.RecordInfo.lines x.g (.counter t), x.targetName, sweep, names⟩

variable {x : Setup} {a : Call} {t numRecords : Nat} {sweep : Sweep}

theorem replyTo_sweep (sweep : Sweep) :
    replyTo (sendingsOf sweep) = (partsOf sweep).map Part.message ++ [.message MSG_COMMAND_SUCCEED []] := by
  rw [replyTo, sendingsOf, partsOf, List.map_flatMap, List.map_flatMap]
  rfl

theorem nameidsOf_sweep (sweep : Sweep) :
    nameidsOf (sendingsOf sweep) = sweep.flatMap (fun e => e.2.records.map (fun r => r.nameid)) := by
  rw [nameidsOf, sendingsOf, List.flatMap_assoc]
  apply List.flatMap_congr
  intro e _
  simp [nameidsIn]

theorem mem_sendingsOf {e : Nat × Drained} (he : e ∈ sweep) :
    (⟨MSG_PROFILE_DATA, e.1, .records e.2.records⟩ : Sending) ∈ sendingsOf sweep ∧
      (⟨MSG_NOWINFO, e.1, .nowInfo e.2.nowInfo⟩ : Sending) ∈ sendingsOf sweep :=
  ⟨List.mem_flatMap.mpr ⟨e, he, List.mem_cons_self⟩,
    List.mem_flatMap.mpr ⟨e, he, List.mem_cons_of_mem _ List.mem_cons_self⟩⟩

theorem sent_of_fitting (h : ∀ m ∈ sendingsOf sweep, Fitting numRecords m) {k : Nat}
    (hids : sweep.map Prod.fst = List.range k) : Sent numRecords sweep := by
  have hfit (e : Nat × Drained) (he : e ∈ sweep) := h _ (mem_sendingsOf he).1
  constructor
  · rw [hids]
    exact List.pairwise_lt_range
  · exact fun e he => (hfit e he).1
  · exact fun e he => (hfit e he).2.1
  · exact fun e he => (hfit e he).2.2
  · exact fun e he => (h _ (mem_sendingsOf he).2).2

theorem infoMessages_eq (hc : SingleCounter x.g t) (sweep : Sweep) (names : Outgoing) (first : Bool) :
    infoMessages x first = .ok (if first then [] else (replyOf x t sweep names).exchange) := by
  have hactive : x.g.activeRecords = [Entry.counter t].flatMap Entry.slots := hc.active
  have hlaid : LaidOut x.g [.counter t] := ⟨hactive, List.forall_mem_singleton.mpr hc.counter⟩
  cases first with
  | true => rfl
  | false =>
      rw [infoMessages, if_neg Bool.false_ne_true, if_neg Bool.false_ne_true,
        getRecordInfo_eq hlaid (List.nodup_singleton _), ok_bind, pure_eq_ok, hactive]
      rfl

theorem rows_words (hword : IsWord (nameOf x.g t)) (sweep : Sweep) (names : Outgoing) :
    ∀ row ∈ (replyOf x t sweep names).rows, IsWord row.1 ∧ ∀ b ∈ row.2, isSpace b = false :=
  lines_words (e := .counter t) hword

theorem queryOf_reply {target : Target} {r : Reply} (h : Genuine target r) :
    queryOf target (((if target.store.firstReceived then [] else r.exchange) ++ replyTo (sendingsOf r.sweep)).map received) =
      .ok (if r.asked target.store.ds.nameTable = [] then [] else 0 :: r.asked target.store.ds.nameTable) := by
  have hloop := recvLoop_sent h.few h.sent target.store.ds.nameTable []
  have hquery := queryNames_sent h.few h.sent target.store.ds.nameTable
  have hmessages : (replyTo (sendingsOf r.sweep)).map received =
      (partsOf r.sweep).map (fun p => received p.message) ++
        [received (.message MSG_COMMAND_SUCCEED [])] := by
    rw [replyTo_sweep, List.map_append, List.map_map]
    rfl
  have hknown := h.known
  rw [queryOf.eq_def]
  cases hfirst : target.store.firstReceived with
  | true =>
      rw [hfirst, if_pos rfl] at hknown
      rw [if_pos rfl, if_pos rfl, List.nil_append, hmessages, pure_eq_ok, ok_bind]
      dsimp only
      rw [hknown, hloop, ok_bind]
      exact congrArg Except.ok hquery
  | false =>
      rw [hfirst, if_neg Bool.false_ne_true] at hknown
      have hexchange := exchangeInfo_reply (t := target.start) h.rows h.few hknown
        ((partsOf r.sweep).map (fun p => received p.message) ++ [received (.message MSG_COMMAND_SUCCEED [])])
      rw [if_neg Bool.false_ne_true, if_neg Bool.false_ne_true, List.map_append, hmessages, Reply.exchange]
      simp only [List.map_cons, List.map_nil, List.cons_append, List.nil_append, hexchange, ok_bind]
      have hsame : target.start.store.ds.nameTable = target.store.ds.nameTable := rfl
      rw [hsame, hloop, ok_bind]
      exact congrArg Except.ok hquery

theorem reduceOption_some (bufs : List MessageBuf) : (bufs.map some).reduceOption = bufs := by
  induction bufs with
  | nil => rfl
  | cons buf bufs ih => rw [List.map_cons, List.reduceOption_cons_of_some, ih]

/-- An answer to a request for names: a line for each of them, or nothing if these are too
long together. -/
def AnswerTo (table : NameTable) (ids : List Nat) (payload : Bytes) : Prop :=
  payload = Wire.NameReply.lines table ids ∨ payload = [] ∧
    nameBufSize < (Wire.NameReply.lines table ids).length

theorem answerQuery_names (hk : a.kernel.Partial) {ids : List Nat} (h64 : ∀ i ∈ ids, i < 2 ^ 64)
    (hfew : ids.length < 8191) :
    ∃ reply, answerQuery x a (if ids = [] then [] else 0 :: ids) =
      .ok (if ids = [] then [] else [received reply]) ∧ AnswerTo a.names ids reply.payload := by
  by_cases hnil : ids = []
  · subst hnil
    exact ⟨.message MSG_NAMES [], rfl, Or.inl rfl⟩
  have hlen : (0 :: ids).length % 2 ^ 29 = ids.length + 1 := by
    rw [List.length_cons]
    omega
  have hfits : 8 * (0 :: ids).length % 2 ^ 32 < msgBufSize := by
    rw [List.length_cons, msgBufSize]
    omega
  obtain ⟨reply, calls, calls', hr, -, hx⟩ :=
    exchange_answers hk a.names x.other (List.cons_ne_nil 0 ids) hfits
  obtain ⟨reply', hr', -, hshort⟩ := answerNames_answers a.names (0 :: ids) _
    (List.replicate (msgBufSize - 8 * ((0 :: ids).length % 2 ^ 29)) 255) rfl (List.cons_ne_nil 0 ids)
  obtain rfl := Except.ok.inj (hr.symm.trans hr')
  have hanswer : AnswerTo a.names ids reply.payload := by
    have hlines :=
      answerNames_lines a.names h64 (ids.length + 1) hlen
        (List.replicate (msgBufSize - 8 * (ids.length + 1)) 255)
    rw [Nat.add_sub_cancel, List.take_length] at hlines
    rw [hlen] at hr
    rcases hlines with hn | ⟨he, hfull⟩
    · obtain rfl := Except.ok.inj (hr.symm.trans hn)
      exact Or.inl rfl
    · obtain rfl := Except.ok.inj (hr.symm.trans he)
      exact Or.inr ⟨rfl, hfull⟩
  obtain ⟨calls₂, hrecv⟩ := recvMessages_frames hk [reply]
    (List.forall_mem_singleton.mpr (hshort.trans_lt (by rw [nameBufSize]; omega))) [] 0
  refine ⟨reply, ?_, hanswer⟩
  rw [if_neg hnil, if_neg hnil, answerQuery, if_neg (List.cons_ne_nil 0 ids), hx, ok_bind]
  simp only [List.flatMap_cons, List.flatMap_nil, List.append_nil, List.length_singleton] at hrecv
  dsimp only
  rw [hrecv]
  rfl

variable {table : NameTable} {names : List (NameID × Bytes)}

theorem getElem?_namesGiven (table : NameTable) {ids : List Nat} (hids : ids.Nodup)
    (strm : Stream) (y : NameID) :
    (∃ n, ids[n]? = some y ∧ (insertNames table (asking ids ++ linesRead ids strm))[y]? = some (nthLine n strm)) ∨
      y ∉ ids ∧ (insertNames table (asking ids ++ linesRead ids strm))[y]? = table[y]? := by
  have hsplit : insertNames table (asking ids ++ linesRead ids strm) =
      setNames ids strm (insertNames table (asking ids)) := by
    rw [setNames_eq]
    exact List.foldl_append
  rw [hsplit]
  by_cases hy : y ∈ ids
  · obtain ⟨n, hn⟩ := List.mem_iff_getElem?.mp hy
    exact Or.inl ⟨n, hn, setNames_of_getElem? hids hn strm _⟩
  · refine Or.inr ⟨hy, ?_⟩
    rw [setNames_of_not_mem hy]
    induction ids generalizing table with
    | nil => rfl
    | cons z ids ih =>
        rw [List.nodup_cons] at hids
        rw [List.mem_cons, not_or] at hy
        refine (ih (table.insert z (ascii "<Asking>")) hids.2 ?_ hy.2).trans (getElem?_insert_ne _ hy.1 _)
        rw [setNames_eq]
        exact List.foldl_append

def Takes (P : NameID → Bytes → Prop) (table : NameTable) (ids : List Nat) : Prop :=
  ∀ payload, AnswerTo table ids payload → ∀ n y, ids[n]? = some y → P y (nthLine n (ofText payload))

theorem takes_clean {P : NameID → Bytes → Prop} (h : ∀ y, (10 : UInt8) ∉ NameTable.get table y)
    (hP : ∀ y, P y (NameTable.get table y)) (hnil : ∀ y, P y []) (ids : List Nat) : Takes P table ids := by
  rintro payload (rfl | ⟨rfl, -⟩) n y hn
  · rw [nthLine_lines (fun z _ => h z), List.getElem?_map, hn]
    exact hP y
  · rw [nthLine_nil]
    exact hnil y

theorem takes_names (h : CleanNames table) {ids : List Nat}
    (hfit : (Wire.NameReply.lines table ids).length ≤ nameBufSize) :
    Takes (fun y name => name = NameTable.get table y) table ids := by
  rintro payload (rfl | ⟨-, hfull⟩) n y hn
  · rw [nthLine_lines (fun z _ => (h z).1), List.getElem?_map, hn]
    rfl
  · exact absurd hfit (Nat.not_le.mpr hfull)

def baseOf (x : Setup) (t : Nat) : DataStore :=
  { currentTimeNumber := 0
    recordMetadata := (Profiler.RecordInfo.lines x.g (.counter t)).map rowMetadata
    numRecords := 2
    nameTable := ∅ }

theorem baseOf_slots (x : Setup) (t : Nat) : CounterSlots (baseOf x t) := ⟨rfl, rfl, rfl, rfl⟩

structure Follows (x : Setup) (t : Nat) (P : NameID → Bytes → Prop) (sent : Sweep) (seen : List Nat)
    (given : Nat → List Monitor.Runs.Delivery) (target : Target) : Prop where
  recv : target.recv = true
  known : target.memberOffsetInfo =
    if target.store.firstReceived then (getSlide 2).map (fun e => (e.1, Int32.ofInt e.2)) else []
  slots : target.store.firstReceived = true →
    target.store.ds.numRecords = 2 ∧ target.store.ds.recordMetadata = (baseOf x t).recordMetadata
  unset : target.store.firstReceived = false → target.store.ds.recordMetadata = []
  names : ∀ y : NameID, (∃ name, target.store.ds.nameTable[y]? = some name) ↔ y ∈ seen
  good : ∀ (y : NameID) name, target.store.ds.nameTable[y]? = some name → P y name
  sorted : SortedThreads target.store.threads
  holds : ∀ i, Holds x.gl (baseOf x t) (target.store.ds.currentTimeNumber + 1) i (drainsIn i sent)
    (given i) target.store.threads

theorem initial_follows (x : Setup) (t : Nat) (P : NameID → Bytes → Prop) :
    Follows x t P [] [] (fun _ => []) (initialEnds x).target := by
  refine ⟨rfl, rfl, fun h => Bool.noConfusion h, fun _ => rfl, fun y => ?_, fun y name h => ?_,
    List.Pairwise.nil, fun i => ?_⟩
  · simp [initialEnds, newDataStore]
  · simp [initialEnds, newDataStore] at h
  · exact ⟨iff_of_true rfl rfl, ⟨rfl, List.Pairwise.nil⟩, List.forall_mem_nil _, rfl⟩

variable {P : NameID → Bytes → Prop} {sent : Sweep} {seen : List Nat}
  {given : Nat → List Monitor.Runs.Delivery} {target : Target} {reply : Outgoing}

theorem Follows.genuine (h : Follows x t P sent seen given target) (hword : IsWord (nameOf x.g t))
    (hsent : Sent 2 sweep) : Genuine target (replyOf x t sweep reply) :=
  ⟨rows_words hword sweep reply, by rw [show (replyOf x t sweep reply).rows.length = 2 from rfl]; omega, hsent, h.known,
    fun hfirst => (h.slots hfirst).1⟩

def newNameids (seen : List Nat) (sendings : List Sending) : List Nat :=
  ((nameidsOf sendings).filter (fun y => y ∉ seen)).eraseDups

theorem Follows.asked (h : Follows x t P sent seen given target) (reply : Outgoing) :
    (replyOf x t sweep reply).asked target.store.ds.nameTable = newNameids seen (sendingsOf sweep) := by
  rw [newNameids, nameidsOf_sweep, Reply.asked, unknownNameids]
  congr 1
  apply List.filter_congr
  intro y _
  rw [Bool.eq_iff_iff, Bool.not_eq_true', decide_eq_true_eq, ← h.names y,
    ← contains_iff_some, Bool.not_eq_true]

theorem mem_newNameids {sendings : List Sending} {y : Nat} :
    y ∈ newNameids seen sendings ↔ y ∈ nameidsOf sendings ∧ y ∉ seen := by
  rw [newNameids, List.mem_eraseDups, List.mem_filter, decide_eq_true_eq]

theorem Follows.receive (h : Follows x t P sent seen given target)
    (hP : ∀ y name, P y name → isAttrName name = false) (hoff : x.gl.leafNodeAccumulate = false)
    (hsingle : x.gl.singleTreeMode = false) (hids : (sweep.map Prod.fst).Nodup)
    (hdrawn : ∀ e ∈ sweep, Drawn (drainsIn e.1 sent ++ [e.2]))
    (hnames : ∀ n y, (newNameids seen (sendingsOf sweep))[n]? = some y →
      P y (nthLine n (ofText reply.payload))) :
    ∃ store table, Monitor.Ticks.receiveLoop x.gl target.store
      ((replyOf x t sweep reply).reception target.store.ds.nameTable) =
        .ok store ∧ store.ds.currentTimeNumber = target.store.ds.currentTimeNumber + 1 ∧
          store.firstReceived = true ∧
      Follows x t P (sent ++ sweep) (seen ++ nameidsOf (sendingsOf sweep))
        (fun i => given i ++ (drainsIn i sweep).map (deliveryOf (target.store.ds.currentTimeNumber + 1) table))
        ((replyOf x t sweep reply).connected target store) := by
  let r := replyOf x t sweep reply
  let table := insertNames target.store.ds.nameTable (r.namesGiven target.store.ds.nameTable)
  let time := target.store.ds.currentTimeNumber + 1
  have hasked : r.asked target.store.ds.nameTable = newNameids seen (sendingsOf sweep) := h.asked reply
  have hnodup : (newNameids seen (sendingsOf sweep)).Nodup := hasked ▸ unknownNameids_nodup _ _
  have hgiven : table = insertNames target.store.ds.nameTable (asking (newNameids seen (sendingsOf sweep)) ++
      linesRead (newNameids seen (sendingsOf sweep)) (ofText reply.payload)) := by
    rw [← hasked]
    rfl
  have hget (y : NameID) :=
    hgiven ▸ getElem?_namesGiven target.store.ds.nameTable hnodup (ofText reply.payload) y
  have hgood (y : NameID) (name : Bytes) (hy : table[y]? = some name) : P y name := by
    rcases hget y with ⟨n, hn, hline⟩ | ⟨-, hold⟩
    · obtain rfl := Option.some.inj (hline.symm.trans hy)
      exact hnames n y hn
    · exact h.good y name (hold.symm.trans hy)
  have hplain : PlainNames table := fun y name hy => hP y name (hgood y name hy)
  have hnow : ∀ e ∈ sweep, Holds x.gl (baseOf x t) time e.1 (drainsIn e.1 sent)
      (given e.1) target.store.threads :=
    fun e _ => h.holds e.1
  obtain ⟨threads, hrun, hsorted, hholds⟩ := storeCalls_hold (baseOf_slots x t) hoff hsingle hplain sweep hids
    (fun i => drainsIn i sent) given hdrawn hnow (fun i => (h.holds i).later (Int.le_add_one le_rfl)) h.sorted
  have hds : advanced (exchanged target.store (r.rows.map rowMetadata)).ds
    (r.namesGiven target.store.ds.nameTable) =
      { baseOf x t with currentTimeNumber := time, nameTable := table } := by
    cases hfirst : target.store.firstReceived with
    | true =>
        obtain ⟨hnum, hmeta⟩ := h.slots hfirst
        rw [exchanged, if_pos hfirst, advanced, hnum, hmeta]
        rfl
    | false =>
        rw [exchanged, if_neg (by rw [hfirst]; exact Bool.false_ne_true)]
        rfl
  have hthreads : (exchanged target.store (r.rows.map rowMetadata)).threads = target.store.threads := by
    rw [exchanged]
    split <;> rfl
  have hfirst : (exchanged target.store (r.rows.map rowMetadata)).firstReceived = true := by
    rw [exchanged]
    split
    · assumption
    · rfl
  refine ⟨{ exchanged target.store (r.rows.map rowMetadata) with
    ds := { baseOf x t with currentTimeNumber := time, nameTable := table }, threads },
      table, ?_, rfl, hfirst, ?_⟩
  · rw [Reply.reception, Monitor.Ticks.receiveLoop]
    dsimp only
    rw [hds, hthreads]
    exact congrArg (fun run : Run Monitor.Ticks.Threads => run >>= _) hrun
  · refine ⟨h.recv, ?_, fun _ => ⟨rfl, rfl⟩, fun hnone => ?_, fun y => ?_, hgood, hsorted, fun i => ?_⟩
    · rw [Reply.connected]
      dsimp only
      rw [hfirst, if_pos rfl]
      rfl
    · exact Bool.noConfusion (hfirst.symm.trans hnone)
    · rw [List.mem_append]
      rcases hget y with ⟨n, hn, hline⟩ | ⟨hn, hold⟩
      · exact iff_of_true ⟨_, hline⟩ (Or.inr (mem_newNameids.mp (List.mem_of_getElem? hn)).1)
      · rw [mem_newNameids, not_and, not_not] at hn
        rw [or_iff_left_of_imp hn, ← h.names y]
        have hsame (name : Bytes) : table[y]? = some name ↔ target.store.ds.nameTable[y]? = some name := by
          rw [hold]
        exact exists_congr hsame
    · have hi := hholds i
      rw [← drainsIn_append] at hi
      exact hi

end Llprof.Link.Connection
