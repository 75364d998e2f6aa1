import Llprof.Link.NameTables
import Llprof.Link.ReplyTexts
import Llprof.Monitor.Ticks

namespace Llprof.Link.ReceiveLoop

open Faulting hiding store
open LittleEndian Decimal Streams Profiler.RecordInfo Wire.Framing Wire.NameQuery
  Wire.ProfileData Wire.DrainMessages Wire.RecordWalk Monitor.Nodes Monitor.Store Monitor.Ticks
  Metadata NameTables ReplyTexts

def MSG_SLIDE_INFO : UInt32 := 5
def MSG_PROFILE_TARGET : UInt32 := 10
def MSG_RECORD_METAINFO : UInt32 := 11

/-- A data store as the receiving thread sees it. -/
structure Target where
  recv : Bool
  memberOffsetInfo : MemberOffsets
  targetName : Bytes
  store : TargetStore

/-- The text of a reply that is used without a look at the pointer. -/
def replyText : List MessageBuf → Run (Bytes × List MessageBuf)
  | [] => .error .nullDeref
  | res :: incoming => do
      let text ← asString res
      return (text, incoming)

/-- The exchange that is made once. `incoming` is what `RecvMessage` returns before the
connection is closed. -/
def exchangeInfo (t : Target) (res : MessageBuf) (incoming : List MessageBuf) :
    Run (Target × List MessageBuf) := do
  let text ← asString res
  let memberOffsetInfo ← slideInfoLoop (text.length + 1) (ofText text) t.memberOffsetInfo
  let (text, incoming) ← replyText incoming
  let (numRecords, recordMetadata) ← receiveMetainfo (text.length + 1) t.store.ds.numRecords text
  let (targetName, incoming) ← replyText incoming
  let ds := { t.store.ds with numRecords := numRecords.toNat, recordMetadata }
  return ({ t with memberOffsetInfo, targetName, store := { t.store with ds } }, incoming)

/-- The members that `GetProfileData` itself uses. -/
def offsetsOf (info : MemberOffsets) : Offsets :=
  ⟨(getMemberOffsetOf info "pdata.nameid").toNat, (getMemberOffsetOf info "pdata.record_size").toNat⟩

/-- The remaining size is compared as a `size_t`. -/
def readNowInfo (numRecords : Nat) (nibuf : MessageBuf) : Run NowInfo := do
  require (4 + 8 ≤ nibuf.buf.length) .assertion
  let runningNode ← object 4 nibuf.buf 16
  require (8 * numRecords ≤ toSize (nibuf.buf.length - 16 - 8)) .assertion
  let values ← (List.range numRecords).mapM (valueAt nibuf.buf 24)
  return ⟨runningNode, values⟩

def storeThread (gl : Settings) (info : MemberOffsets) (ds : DataStore) (threads : Threads)
    (call : Wire.ProfileData.StoreCall) : Run Threads :=
  match call.nowinfo with
  | none => .error .nullDeref
  | some nibuf => do
      let now ← readNowInfo ds.numRecords nibuf
      let (batch, _) ← storeLoop info ds.numRecords call.buf.buf (call.buf.buf.length + 1) [] 8
      storeCall gl ds threads ⟨call.thread, batch, now⟩

/-- `DataStore::GetProfileData` with the buffers stored. -/
def receiveProfileData (gl : Settings) (t : Target) (incoming : List MessageBuf) : Run (Bool × Target) := do
  let out ← getProfileData (offsetsOf t.memberOffsetInfo) t.store.ds.nameTable incoming
  let ds := { t.store.ds with currentTimeNumber := t.store.ds.currentTimeNumber + 1, nameTable := out.names }
  let threads ← out.stores.foldlM (storeThread gl t.memberOffsetInfo ds) t.store.threads
  return (out.success, { t with store := { t.store with ds, threads } })

def Target.stop (t : Target) : Target := { t with recv := false }

def profileStep (gl : Settings) (t : Target) (incoming : List MessageBuf) : Run (Bool × Target) := do
  let (success, t) ← receiveProfileData gl t incoming
  if success then
    return (true, t)
  else
    return (false, t.stop)

def Target.start (t : Target) : Target := { t with store := { t.store with firstReceived := true } }

/-- `socket` is what `SocketConnectTo` returns. -/
def receiveLoop (gl : Settings) (socket : Int) (t : Target) (incoming : List MessageBuf) :
    Run (Bool × Target) :=
  if t.recv = false then
    .ok (false, t)
  else if t.store.firstReceived then
    profileStep gl t incoming
  else if socket ≤ 0 then
    .ok (false, t.start.stop)
  else
    match incoming with
    | [] => .ok (false, t.start.stop)
    | res :: incoming => do
        let (t, incoming) ← exchangeInfo t.start res incoming
        profileStep gl t incoming

/-- `slide_info_to_str`. -/
def slideInfoToStr (records : List (Bytes × Nat)) : Bytes :=
  records.flatMap (fun r => r.1 ++ 32 :: (decimal r.2 ++ [10]))

structure Replies where
  offsets : List (Bytes × Nat)
  rows : List (Bytes × Bytes)
  targetName : Bytes
  drain : List Part
  names : Bytes

namespace Replies

def info (x : Replies) : MemberOffsets := x.offsets.map (fun e => (e.1, Int32.ofInt e.2))

def exchange (x : Replies) : List Outgoing :=
  [.message MSG_SLIDE_INFO (slideInfoToStr x.offsets),
    .message MSG_RECORD_METAINFO (decimal x.rows.length ++ [10] ++ tableText 0 x.rows),
    .message MSG_PROFILE_TARGET x.targetName]

/-- The end of a drain, with the names that were asked for in it. -/
def ending (x : Replies) (names : NameTable) : List Outgoing :=
  .message MSG_COMMAND_SUCCEED [] ::
    if asked (offsetsOf x.info) names x.drain = [] then [] else [.message MSG_NAMES x.names]

/-- All that is sent to one call of `ReceiveLoop`. -/
def all (x : Replies) (t : Target) : List Outgoing :=
  (if t.store.firstReceived then [] else x.exchange) ++
    (x.drain.map Part.message ++ x.ending t.store.ds.nameTable)

end Replies

/-- The replies that are used only when the pointer is not null. -/
def Checked (m : Outgoing) : Prop :=
  m.msgId ≠ MSG_RECORD_METAINFO ∧ m.msgId ≠ MSG_PROFILE_TARGET ∧ m.msgId ≠ MSG_NAMES

instance (m : Outgoing) : Decidable (Checked m) := inferInstanceAs (Decidable (_ ∧ _ ∧ _))

structure Correct (t : Target) (x : Replies) : Prop where
  offsets : ∀ e ∈ x.offsets, IsWord e.1 ∧ e.2 < 2 ^ 31
  rows : ∀ row ∈ x.rows, IsWord row.1 ∧ ∀ b ∈ row.2, isSpace b = false
  few : x.rows.length < 2 ^ 31
  whole : (offsetsOf x.info).nameid + 8 ≤ (offsetsOf x.info).recordSize
  drain : ∀ p ∈ x.drain, p.WellFormed (offsetsOf x.info) ∧ Checked p.message
  known : t.memberOffsetInfo = if t.store.firstReceived then x.info else []

/-- What has to come of a connection that is closed. -/
def Handled (gl : Settings) (socket : Int) (t : Target) (before : List Outgoing) : Prop :=
  ∃ t', receiveLoop gl socket t (before.map received) = .ok (false, t') ∧ t'.recv = false ∧
    t'.store.threads = t.store.threads

theorem readInt32_ofText (old : Int) {blank : Bytes} (text : Bytes) {n : Nat} (hn : n < 2 ^ 31) {c : UInt8}
    (hb : ∀ b ∈ blank, isSpace b = true) (hc : isDigit c = false) :
    readInt32 old (ofText (blank ++ (decimal n ++ c :: text))) = ((n : Int), ofText (c :: text)) := by
  rw [readInt32, readInt_ofText old text n hb hc]
  dsimp only
  rw [if_neg (by omega), if_neg (by omega)]

theorem slideInfoToStr_cons (r : Bytes × Nat) (records : List (Bytes × Nat)) :
    slideInfoToStr (r :: records) = r.1 ++ 32 :: (decimal r.2 ++ 10 :: slideInfoToStr records) := by
  simp [slideInfoToStr]

theorem slideInfoLoop_records {records : List (Bytes × Nat)}
    (hrec : ∀ e ∈ records, IsWord e.1 ∧ e.2 < 2 ^ 31) {blank : Bytes} (hb : ∀ b ∈ blank, isSpace b = true)
    {fuel : Nat} (hf : records.length < fuel) (info : MemberOffsets) :
    slideInfoLoop fuel (ofText (blank ++ slideInfoToStr records)) info =
      .ok (info ++ records.map (fun e => (e.1, Int32.ofInt e.2))) := by
  induction records generalizing blank fuel info with
  | nil =>
      obtain ⟨fuel, rfl⟩ := Nat.exists_eq_add_of_lt hf
      have hend : (ws (ofText (blank ++ slideInfoToStr []))).eof = true := by
        have hdrop : blank.dropWhile isSpace = [] := List.dropWhile_eq_nil_iff.mpr hb
        simp [slideInfoToStr, ws, ofText, hdrop]
      rw [slideInfoLoop]
      simp [hend]
  | cons r records ih =>
      obtain ⟨fuel, rfl⟩ := Nat.exists_eq_add_of_lt hf
      rw [List.forall_mem_cons] at hrec
      obtain ⟨⟨hword, hvalue⟩, hrec⟩ := hrec
      have hnil : ∀ b ∈ ([] : Bytes), isSpace b = true := List.forall_mem_nil _
      have hlf : ∀ b ∈ ([10] : Bytes), isSpace b = true := List.forall_mem_singleton.mpr rfl
      have hsp : ∀ b ∈ ([32] : Bytes), isSpace b = true := List.forall_mem_singleton.mpr rfl
      have hws : ws (ofText (blank ++ slideInfoToStr (r :: records))) =
          ofText (slideInfoToStr (r :: records)) := by
        obtain ⟨d, ds, hd⟩ := List.exists_cons_of_ne_nil hword.1
        rw [slideInfoToStr_cons, hd]
        exact ws_blank _ hb (hword.2 d (hd ▸ List.mem_cons_self))
      have hname :=
        readWord_ofText [] (decimal r.2 ++ 10 :: slideInfoToStr records) hnil hword.1 hword.2 (c := 32) rfl
      have hint := readInt32_ofText 0 (slideInfoToStr records) hvalue hsp (c := 10) rfl
      have hok : (ofText (slideInfoToStr (r :: records))).eof = false := rfl
      rw [List.nil_append] at hname
      rw [List.singleton_append] at hint
      rw [slideInfoLoop, hws, if_neg (by rw [hok]; decide), slideInfoToStr_cons, hname]
      dsimp only
      rw [hint]
      have hlt : records.length < records.length + 1 + fuel := by omega
      have hrest := ih hrec hlf hlt (info ++ [(r.1, Int32.ofInt r.2)])
      rw [List.singleton_append] at hrest
      dsimp only
      rw [List.length_cons, hrest, List.append_assoc]
      rfl

variable {t : Target} {x : Replies} {before rest : List Outgoing} {m : Outgoing}

theorem readSlideInfo {records : List (Bytes × Nat)} (hrec : ∀ e ∈ records, IsWord e.1 ∧ e.2 < 2 ^ 31)
    (info : MemberOffsets) :
    slideInfoLoop ((slideInfoToStr records).length + 1) (ofText (slideInfoToStr records)) info =
      .ok (info ++ records.map (fun e => (e.1, Int32.ofInt e.2))) := by
  have hlen : records.length ≤ (slideInfoToStr records).length := by
    induction records with
    | nil => exact Nat.zero_le _
    | cons r records ih =>
        have := ih (List.forall_mem_cons.mp hrec).2
        rw [slideInfoToStr_cons]
        simp only [List.length_append, List.length_cons]
        omega
  exact slideInfoLoop_records hrec (List.forall_mem_nil _) (by omega) info

/-- The exchange puts the offsets of the target in their place and lets the threads be,
if it is not cut. -/
theorem exchangeInfo_correct (hoffsets : ∀ e ∈ x.offsets, IsWord e.1 ∧ e.2 < 2 ^ 31)
    (hrows : ∀ row ∈ x.rows, IsWord row.1 ∧ ∀ b ∈ row.2, isSpace b = false) (hfew : x.rows.length < 2 ^ 31)
    (hinfo : t.memberOffsetInfo = []) {slide metainfo target : Outgoing}
    (hx : x.exchange = [slide, metainfo, target]) :
    exchangeInfo t (received slide) [] = .error .nullDeref ∧
      exchangeInfo t (received slide) [received metainfo] = .error .nullDeref ∧
      ∃ t', (∀ incoming, exchangeInfo t (received slide) (received metainfo :: received target :: incoming) =
          .ok (t', incoming)) ∧
        t'.memberOffsetInfo = x.info ∧ t'.store.threads = t.store.threads ∧
        t'.store.ds.nameTable = t.store.ds.nameTable := by
  have hslide := readSlideInfo hoffsets t.memberOffsetInfo
  have htable := receiveMetainfo_table (t.store.ds.numRecords : Int) (by omega) hrows
  rw [hinfo, List.nil_append] at hslide
  simp only [Replies.exchange, List.cons.injEq, and_true] at hx
  obtain ⟨rfl, rfl, rfl⟩ := hx
  refine ⟨?_, ?_, ?_⟩
  · simp only [exchangeInfo, replyText, asString_received, Outgoing.payload, ok_bind,
      hinfo, hslide, error_bind]
  · simp only [exchangeInfo, replyText, asString_received, Outgoing.payload, ok_bind,
      pure_eq_ok, hinfo, hslide, htable, error_bind]
  · let ds := { t.store.ds with numRecords := x.rows.length, recordMetadata := x.rows.map rowMetadata }
    refine ⟨{ t with memberOffsetInfo := x.info, targetName := x.targetName, store := { t.store with ds } },
      fun incoming => ?_, rfl, rfl, rfl⟩
    simp only [exchangeInfo, replyText, asString_received, Outgoing.payload, ok_bind,
      pure_eq_ok, hinfo, hslide, htable]
    rfl

theorem profileStep_failed {gl : Settings} {incoming : List MessageBuf} {names : NameTable}
    (h : getProfileData (offsetsOf t.memberOffsetInfo) t.store.ds.nameTable incoming = .ok ⟨false, names, []⟩) :
    ∃ t', profileStep gl t incoming = .ok (false, t') ∧ t'.recv = false ∧
      t'.store.threads = t.store.threads := by
  let ds := { t.store.ds with currentTimeNumber := t.store.ds.currentTimeNumber + 1, nameTable := names }
  refine ⟨Target.stop { t with store := { t.store with ds } }, ?_, rfl, rfl⟩
  rw [profileStep, receiveProfileData, h, ok_bind]
  rfl

theorem profileStep_error {gl : Settings} {incoming : List MessageBuf} {e : Fault}
    (h : getProfileData (offsetsOf t.memberOffsetInfo) t.store.ds.nameTable incoming = .error e) :
    profileStep gl t incoming = .error e := by
  rw [profileStep, receiveProfileData, h]
  rfl

/-- A connection that is closed before the end of a drain is noticed, but not one that is
closed before the names. -/
theorem getProfileData_closed {o : Offsets} {names : NameTable} (hwhole : o.nameid + 8 ≤ o.recordSize)
    (hdrain : ∀ p ∈ x.drain, p.WellFormed o ∧ Checked p.message) (ho : offsetsOf x.info = o)
    (h : x.drain.map Part.message ++ x.ending names = before ++ m :: rest) :
    (∃ names', getProfileData o names (before.map received) = .ok ⟨false, names', []⟩ ∧ Checked m) ∨
      getProfileData o names (before.map received) = .error .nullDeref ∧ ¬ Checked m := by
  subst ho
  have hparts (d : List Part) (hd : ∀ p ∈ d, p ∈ x.drain) :
      ∃ names', getProfileData (offsetsOf x.info) names ((d.map Part.message).map received) =
        .ok ⟨false, names', []⟩ := by
    obtain ⟨r, hrun, -, -⟩ := recvLoop_drain names hwhole (fun p hp => (hdrain p (hd p hp)).1)
    have hend := hrun []
    rw [List.append_nil] at hend
    rw [List.map_map]
    exact ⟨r.asked.names, getProfileData_failed (hend.trans rfl)⟩
  rcases List.append_eq_append_iff.mp h with ⟨after, hbefore, hending⟩ | ⟨after, hdrained, hrest⟩
  · cases after with
    | nil =>
        rw [List.append_nil] at hbefore
        obtain ⟨names', hclosed⟩ := hparts x.drain (fun _ hp => hp)
        rw [List.nil_append, Replies.ending, List.cons.injEq] at hending
        exact Or.inl ⟨names', hbefore ▸ hclosed, hending.1 ▸ by decide⟩
    | cons succeed after =>
        rw [Replies.ending, List.cons_append, List.cons.injEq] at hending
        obtain ⟨rfl, hnames⟩ := hending
        by_cases hasked : asked (offsetsOf x.info) names x.drain = []
        · rw [if_pos hasked] at hnames
          exact absurd hnames.symm (by simp)
        · rw [if_neg hasked] at hnames
          obtain ⟨rfl, hm⟩ : after = [] ∧ Outgoing.message MSG_NAMES x.names = m := by
            cases after with
            | nil => exact ⟨rfl, (List.cons.inj hnames).1⟩
            | cons a after => exact absurd (List.cons.inj hnames).2 (by simp)
          obtain ⟨r, hrun, hquery, -⟩ := recvLoop_drain names hwhole (fun p hp => (hdrain p hp).1)
          refine Or.inr ⟨?_, hm ▸ fun hc => hc.2.2 rfl⟩
          rw [hbefore, List.map_append, List.map_map]
          refine getProfileData_unanswered ((hrun _).trans (recvLoop_succeed _ [] [] r)) ?_
          rw [hquery, if_neg hasked]
          exact List.cons_ne_nil _ _
  · obtain ⟨d, d', hd, rfl, hd'⟩ := List.map_eq_append_iff.mp hdrained
    obtain ⟨names', hclosed⟩ := hparts d (fun p hp => by rw [hd]; exact List.mem_append_left d' hp)
    refine Or.inl ⟨names', hclosed, ?_⟩
    cases after with
    | nil =>
        rw [List.nil_append, Replies.ending, List.cons.injEq] at hrest
        exact hrest.1 ▸ by decide
    | cons a after =>
        obtain ⟨p, hp, hpm⟩ :=
          List.mem_map.mp (show a ∈ d'.map Part.message by rw [hd']; exact List.mem_cons_self)
        rw [List.cons_append, List.cons.injEq] at hrest
        rw [hrest.1, ← hpm]
        exact (hdrain p (by rw [hd]; exact List.mem_append_right d hp)).2

theorem checked_message (i : UInt32) (body : Bytes) :
    Checked (.message i body) ↔ i ≠ MSG_RECORD_METAINFO ∧ i ≠ MSG_PROFILE_TARGET ∧ i ≠ MSG_NAMES := Iff.rfl

theorem profileStep_closed (gl : Settings)
    (hwhole : (offsetsOf x.info).nameid + 8 ≤ (offsetsOf x.info).recordSize)
    (hdrain : ∀ p ∈ x.drain, p.WellFormed (offsetsOf x.info) ∧ Checked p.message)
    (hinfo : t.memberOffsetInfo = x.info)
    (h : x.drain.map Part.message ++ x.ending t.store.ds.nameTable = before ++ m :: rest) :
    (∃ t', profileStep gl t (before.map received) = .ok (false, t') ∧ t'.recv = false ∧
      t'.store.threads = t.store.threads) ↔ Checked m := by
  rcases getProfileData_closed hwhole hdrain rfl h with ⟨names, hrun, hm⟩ | ⟨hrun, hm⟩
  · rw [← hinfo] at hrun
    exact iff_of_true (profileStep_failed hrun) hm
  · rw [← hinfo] at hrun
    refine iff_of_false ?_ hm
    rintro ⟨t', hstep, -⟩
    rw [profileStep_error hrun] at hstep
    cases hstep

/-- Where the connection of a correct target is closed before some message, `ReceiveLoop`
returns false and leaves the threads as they were exactly if the message is not one of
the replies that nobody checks. -/
theorem disconnect_handled_iff (gl : Settings) (socket : Int) (hsocket : 0 < socket)
    (t : Target) (hrecv : t.recv = true) (x : Replies) (hx : Correct t x) (before rest : List Outgoing)
    (m : Outgoing) (h : x.all t = before ++ m :: rest) : Handled gl socket t before ↔ Checked m := by
  have hknown := hx.known
  rw [Replies.all] at h
  cases hfirst : t.store.firstReceived with
  | true =>
      rw [hfirst] at hknown h
      rw [← profileStep_closed gl hx.whole hx.drain hknown h]
      simp only [Handled, receiveLoop, hrecv, hfirst, Bool.true_eq_false, if_false, if_true]
  | false =>
      rw [hfirst] at hknown h
      have hopen : ¬ socket ≤ 0 := by omega
      obtain ⟨slide, metainfo, target, hexchange⟩ : ∃ slide metainfo target,
          x.exchange = [slide, metainfo, target] :=
        ⟨_, _, _, rfl⟩
      have hids := hexchange
      simp only [Replies.exchange, List.cons.injEq, and_true] at hids
      obtain ⟨hslide, hmetainfo, htarget⟩ := hids
      obtain ⟨hfirstCut, hsecondCut, t', hrun, hinfo, hthreads, hnames⟩ :=
        exchangeInfo_correct (t := t.start) hx.offsets hx.rows hx.few hknown hexchange
      rw [if_neg (by decide), hexchange] at h
      simp only [Handled, receiveLoop, hrecv, hfirst, Bool.true_eq_false, Bool.false_eq_true, if_false, hopen]
      rcases before with _ | ⟨a, _ | ⟨b, _ | ⟨c, before⟩⟩⟩
      · obtain rfl := (List.cons.inj h).1
        refine iff_of_true ⟨_, rfl, rfl, rfl⟩ ?_
        rw [← hslide, checked_message]
        decide
      · simp only [List.cons_append, List.nil_append, List.cons.injEq] at h
        obtain ⟨rfl, rfl, -⟩ := h
        have hm : ¬ Checked metainfo := by
          rw [← hmetainfo, checked_message]
          decide
        refine iff_of_false ?_ hm
        rintro ⟨t', hstep, -⟩
        simp only [List.map_cons, List.map_nil, hfirstCut, error_bind] at hstep
        cases hstep
      · simp only [List.cons_append, List.nil_append, List.cons.injEq] at h
        obtain ⟨rfl, rfl, rfl, -⟩ := h
        have hm : ¬ Checked target := by
          rw [← htarget, checked_message]
          decide
        refine iff_of_false ?_ hm
        rintro ⟨t', hstep, -⟩
        simp only [List.map_cons, List.map_nil, hsecondCut, error_bind] at hstep
        cases hstep
      · simp only [List.cons_append, List.nil_append, List.cons.injEq] at h
        obtain ⟨rfl, rfl, rfl, h⟩ := h
        have hsame : t'.store.threads = t.store.threads := hthreads
        have htable : t'.store.ds.nameTable = t.store.ds.nameTable := hnames
        rw [← htable] at h
        rw [← profileStep_closed gl hx.whole hx.drain hinfo h, ← hsame]
        simp only [List.map_cons, hrun, ok_bind]

def connecting : Target := ⟨true, [], [], newDataStore⟩

def oneThread : Replies where
  offsets := [(ascii "pdata.nameid", 0), (ascii "pdata.record_size", 24)]
  rows := []
  targetName := ascii "main"
  drain := [.profile 7 [List.replicate 24 0], .nowInfo 7 (toBytes 8 1)]
  names := ascii "f\n"

theorem oneThread_correct : Correct connecting oneThread where
  offsets := by
    intro e he
    rcases List.mem_pair.mp he with rfl | rfl
    · exact ⟨⟨List.cons_ne_nil _ _, not_space_of_all rfl⟩, by decide⟩
    · exact ⟨⟨List.cons_ne_nil _ _, not_space_of_all rfl⟩, by decide⟩
  rows := List.forall_mem_nil _
  few := by decide
  whole := by decide
  drain := by
    intro p hp
    rcases List.mem_pair.mp hp with rfl | rfl
    · exact ⟨⟨by decide, by decide⟩, by decide⟩
    · exact ⟨by rw [Part.WellFormed]; decide, by decide⟩
  known := rfl

theorem disconnect_handled_thread :
    Handled ⟨false, false, fun _ => 0⟩ 3 connecting
      (oneThread.exchange ++ [(Part.profile 7 [List.replicate 24 0]).message]) ↔
      Checked (Part.nowInfo 7 (toBytes 8 1)).message :=
  disconnect_handled_iff ⟨false, false, fun _ => 0⟩ 3 (by decide) connecting rfl oneThread oneThread_correct
    (oneThread.exchange ++ [(Part.profile 7 [List.replicate 24 0]).message]) (oneThread.ending ∅)
    (Part.nowInfo 7 (toBytes 8 1)).message rfl

/-- The connection is closed after the first reply, and the pointer of the second one is followed. -/
theorem metainfo_missing : Correct connecting oneThread ∧
    (∃ slide rest, oneThread.all connecting = slide :: rest ∧
      ¬ Handled ⟨false, false, fun _ => 0⟩ 3 connecting [slide] ∧
      receiveLoop ⟨false, false, fun _ => 0⟩ 3 connecting [received slide] = .error .nullDeref) := by
  obtain ⟨hcut, -⟩ := exchangeInfo_correct (t := connecting.start) (x := oneThread) oneThread_correct.offsets
    oneThread_correct.rows oneThread_correct.few rfl rfl
  have hrun : receiveLoop ⟨false, false, fun _ => 0⟩ 3 connecting
      [received (.message MSG_SLIDE_INFO (slideInfoToStr oneThread.offsets))] = .error .nullDeref := by
    rw [receiveLoop, if_neg (by decide), if_neg (by decide), if_neg (by decide)]
    dsimp only
    rw [hcut, error_bind]
  refine ⟨oneThread_correct, _, _, rfl, ?_, hrun⟩
  rintro ⟨t', hstep, -⟩
  rw [List.map_cons, List.map_nil, hrun] at hstep
  cases hstep

end Llprof.Link.ReceiveLoop
