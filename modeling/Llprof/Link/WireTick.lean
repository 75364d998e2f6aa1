import Llprof.Link.Mirror
import Llprof.Link.ReceiveLoop
import Llprof.Wire.RecordBytes

namespace Llprof.Link.WireTick

open Faulting hiding store
open LittleEndian Decimal Streams TreeMaps Places Profiler.CallTree Profiler.RecordInfo
  Wire.Network Wire.Framing Wire.NameQuery Wire.ProfileData Wire.DrainMessages Wire.NameReply Wire.RecordWalk
  Wire.RecordBytes Monitor.Nodes Monitor.Store Metadata NameTables ReplyTexts ReceiveLoop Mirror
open Monitor.Ticks (storeCall)
open Monitor.RunTotals (defaultMode)

abbrev Sweep := List (Nat × Drained)

def profilePart (e : Nat × Drained) : Part := .profile e.1 (e.2.records.map recordBytes)

def nowInfoPart (e : Nat × Drained) : Part := .nowInfo e.1 (nowInfoBytes e.2.nowInfo)

def partsOf (sweep : Sweep) : List Part := sweep.flatMap (fun e => [profilePart e, nowInfoPart e])

structure Sent (numRecords : Nat) (sweep : Sweep) : Prop where
  increasing : (sweep.map Prod.fst).Pairwise (· < ·)
  ids : ∀ e ∈ sweep, e.1 < 2 ^ 64
  records : ∀ e ∈ sweep, ∀ r ∈ e.2.records, Fits numRecords r
  short : ∀ e ∈ sweep, 16 + (24 + 8 * numRecords) * e.2.records.length < 2 ^ 31
  nowInfo : ∀ e ∈ sweep, NowFits numRecords e.2.nowInfo

def profileBuf (e : Nat × Drained) : MessageBuf :=
  { received (profilePart e).message with ptr := 8 + ((e.2.records.map recordBytes).flatten.length : Int) }

def nowInfoBuf (e : Nat × Drained) : MessageBuf := { received (nowInfoPart e).message with ptr := 8 }

def callOf (e : Nat × Drained) : Monitor.Ticks.StoreCall := ⟨e.1, e.2.records, nowOf e.2.nowInfo⟩

variable {numRecords : Nat} {sweep : Sweep} {e : Nat × Drained}

theorem foldl_receive (o : Offsets) (sweep : Sweep) (r : Receiving) :
    ((partsOf sweep).foldl (Part.receive o) r).bufForThreads =
        sweep.foldl (fun bufs e => bufs.insert e.1 (profileBuf e)) r.bufForThreads ∧
      ((partsOf sweep).foldl (Part.receive o) r).nowinfoBufForThreads =
        sweep.foldl (fun bufs e => bufs.insert e.1 (nowInfoBuf e)) r.nowinfoBufForThreads := by
  induction sweep generalizing r with
  | nil => exact ⟨rfl, rfl⟩
  | cons e sweep ih => exact ih _

theorem storeCalls_parts (o : Offsets) (names : NameTable) (h : (sweep.map Prod.fst).Pairwise (· < ·)) :
    storeCalls ((partsOf sweep).foldl (Part.receive o) (noBuffers names)) =
      sweep.map (fun e => ⟨e.1, profileBuf e, some (nowInfoBuf e)⟩) := by
  obtain ⟨hbufs, hnows⟩ := foldl_receive o sweep (noBuffers names)
  have hlist := toList_increasing Prod.fst profileBuf sweep h
  have hnow (e : Nat × Drained) (he : e ∈ sweep) :
      ((partsOf sweep).foldl (Part.receive o) (noBuffers names)).nowinfoBufForThreads[e.1]? =
        some (nowInfoBuf e) := by
    rw [hnows, ← Std.TreeMap.mem_toList_iff_getElem?_eq_some]
    exact (toList_increasing Prod.fst nowInfoBuf sweep h).symm ▸ List.mem_map_of_mem he
  rw [storeCalls, hbufs]
  simp only [noBuffers, hlist, List.map_map]
  exact List.map_congr_left fun e he =>
    congrArg (Wire.ProfileData.StoreCall.mk e.1 (profileBuf e)) (hnow e he)

theorem getSlide_words (h : 24 + 8 * numRecords < 2 ^ 31) :
    ∀ e ∈ getSlide numRecords, IsWord e.1 ∧ e.2 < 2 ^ 31 := by
  have hword (s : String) (hs : ascii s ≠ [] ∧ (ascii s).all (fun b => !isSpace b) = true) :
      IsWord (ascii s) :=
    ⟨hs.1, not_space_of_all hs.2⟩
  simp only [getSlide, List.forall_mem_cons, List.not_mem_nil, false_imp_iff, implies_true, and_true]
  exact ⟨⟨hword _ (by decide), by omega⟩, ⟨hword _ (by decide), by omega⟩, ⟨hword _ (by decide), by omega⟩,
    ⟨hword _ (by decide), by omega⟩, ⟨hword _ (by decide), by omega⟩, ⟨hword _ (by decide), h⟩⟩

theorem frame_thread (i : UInt32) (thread : Nat) (body : Bytes) :
    ∃ head : Bytes, head.length = 16 ∧
      (received (.message2 i (toBytes 8 thread) body)).buf = (head ++ body).map some := by
  obtain ⟨head, hhead, hbuf⟩ := received_thread_buf i thread body
  refine ⟨head ++ toBytes 8 thread, ?_, hbuf⟩
  rw [List.length_append, hhead, length_toBytes]

theorem readNowInfo_sent (h : NowFits numRecords e.2.nowInfo) (hn : 24 + 8 * numRecords < 2 ^ 31) :
    readNowInfo numRecords (nowInfoBuf e) = .ok (nowOf e.2.nowInfo) := by
  obtain ⟨head, hhead, hbuf⟩ := frame_thread MSG_NOWINFO e.1 (nowInfoBytes e.2.nowInfo)
  set node := e.2.nowInfo.node with hnode
  set values := e.2.nowInfo.values with hvalues
  have hcount : values.length = numRecords := h.count
  have hbytes : (nowInfoBuf e).buf = (head ++ (toBytes 8 node ++ values.flatMap valueBytes)).map some := hbuf
  have hlen : (nowInfoBuf e).buf.length = 24 + 8 * numRecords := by
    rw [hbytes, List.length_map, List.length_append, List.length_append, hhead,
      length_toBytes, length_values, hcount]
    omega
  have hplaced : PlacedAt (head ++ (toBytes 8 node ++ values.flatMap valueBytes)) 16
      (toBytes 8 node ++ values.flatMap valueBytes) := by
    have hat := placedAt_append head (toBytes 8 node ++ values.flatMap valueBytes) []
    rwa [List.append_nil, hhead] at hat
  have hlow : PlacedAt (head ++ (toBytes 8 node ++ values.flatMap valueBytes)) 16 (toBytes 4 node) := by
    refine PlacedAt.left (?_ : PlacedAt _ 16 (toBytes 4 node ++ toBytes 4 (node / 256 ^ 4)))
    rw [← toBytes_add]
    exact hplaced.left
  have hrunning : object 4 (nowInfoBuf e).buf 16 = .ok node := by
    rw [hbytes]
    exact object_fits hlow (by omega) rfl h.node
  have hread : (List.range numRecords).mapM (valueAt (nowInfoBuf e).buf 24) = .ok values := by
    rw [hbytes]
    exact values_placed (hplaced.right (q := 24) (by rw [length_toBytes])) rfl hcount
  rw [readNowInfo, require_of (by omega), ok_bind, hrunning, ok_bind, require_of, ok_bind, hread,
    ok_bind, pure_eq_ok, nowOf]
  rw [toSize_of_nonneg (by omega) (by omega)]
  omega

theorem storeLoop_sent {info : MemberOffsets} (hi : Laid info numRecords)
    (hrec : ∀ r ∈ e.2.records, Fits numRecords r)
    (hshort : 16 + (24 + 8 * numRecords) * e.2.records.length < 2 ^ 31) :
    ∃ ptr, storeLoop info numRecords (profileBuf e).buf ((profileBuf e).buf.length + 1) [] 8 =
      .ok (e.2.records, ptr) := by
  obtain ⟨head, hhead, hbuf⟩ := frame_thread MSG_PROFILE_DATA e.1 (e.2.records.map recordBytes).flatten
  rw [← List.flatMap_def] at hbuf
  have hbytes : (profileBuf e).buf = (head ++ e.2.records.flatMap recordBytes).map some := hbuf
  have hlen : (head ++ e.2.records.flatMap recordBytes).length = 16 + (24 + 8 * numRecords) *
      e.2.records.length := by
    rw [List.length_append, hhead, length_records hrec]
  have hfuel : e.2.records.length < (profileBuf e).buf.length + 1 := by
    have := Nat.le_mul_of_pos_left e.2.records.length (show 0 < 24 + 8 * numRecords by omega)
    rw [hbytes, List.length_map, hlen]
    omega
  rw [hbytes] at hfuel ⊢
  exact storeLoop_records hi hrec hhead (by omega) hfuel

theorem storeThread_sent (gl : Settings) (ds : DataStore) (threads : Monitor.Ticks.Threads)
    {info : MemberOffsets} (hi : Laid info numRecords) (hn : ds.numRecords = numRecords)
    (hsize : 24 + 8 * numRecords < 2 ^ 31) (h : Sent numRecords sweep) (he : e ∈ sweep) :
    storeThread gl info ds threads ⟨e.1, profileBuf e, some (nowInfoBuf e)⟩ =
      storeCall gl ds threads (callOf e) := by
  obtain ⟨ptr, hloop⟩ := storeLoop_sent hi (h.records e he) (h.short e he)
  simp only [storeThread, hn, readNowInfo_sent (h.nowInfo e he) hsize, ok_bind, hloop]
  rfl

theorem foldlM_storeThread (gl : Settings) (ds : DataStore) (threads : Monitor.Ticks.Threads)
    {info : MemberOffsets} (hi : Laid info numRecords) (hn : ds.numRecords = numRecords)
    (hsize : 24 + 8 * numRecords < 2 ^ 31) (h : Sent numRecords sweep) :
    (sweep.map (fun e => (⟨e.1, profileBuf e, some (nowInfoBuf e)⟩ : Wire.ProfileData.StoreCall))).foldlM
      (storeThread gl info ds)
        threads = (sweep.map callOf).foldlM (storeCall gl ds) threads := by
  rw [List.foldlM_map, List.foldlM_map]
  suffices hall : ∀ (rest : Sweep), (∀ e ∈ rest, e ∈ sweep) → ∀ threads,
      rest.foldlM (fun threads e => storeThread gl info ds threads ⟨e.1, profileBuf e, some (nowInfoBuf e)⟩)
        threads =
        rest.foldlM (fun threads e => storeCall gl ds threads (callOf e)) threads from hall sweep
          (fun _ he => he) threads
  intro rest
  induction rest with
  | nil => exact fun _ _ => rfl
  | cons e rest ih =>
      intro hmem threads
      rw [List.forall_mem_cons] at hmem
      rw [List.foldlM_cons, List.foldlM_cons, storeThread_sent gl ds threads hi hn hsize h hmem.1]
      exact bind_congr fun threads => ih hmem.2 threads

/-- The records and the NOWINFO that a thread sends are read back as they were, by the
offsets that the target reports as text. -/
theorem thread_data_round_trip (numRecords : Nat) (few : 24 + 8 * numRecords < 2 ^ 31) (e : Nat × Drained)
    (hrec : ∀ r ∈ e.2.records, Fits numRecords r)
    (hshort : 16 + (24 + 8 * numRecords) * e.2.records.length < 2 ^ 31)
    (hnow : NowFits numRecords e.2.nowInfo) :
    ∃ info ptr, slideInfoLoop ((slideInfoToStr (getSlide numRecords)).length + 1)
        (ofText (slideInfoToStr (getSlide numRecords))) [] = .ok info ∧
      storeLoop info numRecords (received (profilePart e).message).buf
        ((received (profilePart e).message).buf.length + 1) [] 8 = .ok (e.2.records, ptr) ∧
      readNowInfo numRecords (received (nowInfoPart e).message) = .ok (nowOf e.2.nowInfo) := by
  have hslide := readSlideInfo (getSlide_words few) []
  rw [List.nil_append] at hslide
  obtain ⟨ptr, hloop⟩ := storeLoop_sent (getSlide_laid few) hrec hshort
  exact ⟨_, ptr, hslide, hloop, readNowInfo_sent hnow few⟩

theorem thread_data_round_trip_two :
    ∃ info ptr, slideInfoLoop ((slideInfoToStr (getSlide 2)).length + 1)
      (ofText (slideInfoToStr (getSlide 2))) [] = .ok info ∧
      storeLoop info 2 (received (profilePart (3, ⟨[⟨7, 2, 1, 1, [0, -5]⟩, ⟨8, 3, 2, 4, [9, 1]⟩], ⟨3, [0, -1]⟩⟩)).message).buf
          ((received (profilePart (3, ⟨[⟨7, 2, 1, 1, [0, -5]⟩, ⟨8, 3, 2, 4, [9, 1]⟩], ⟨3, [0, -1]⟩⟩)).message).buf.length + 1)
          [] 8 = .ok ([⟨7, 2, 1, 1, [0, -5]⟩, ⟨8, 3, 2, 4, [9, 1]⟩], ptr) ∧
      readNowInfo 2 (received (nowInfoPart (3, ⟨[⟨7, 2, 1, 1, [0, -5]⟩, ⟨8, 3, 2, 4, [9, 1]⟩], ⟨3, [0, -1]⟩⟩)).message) =
        .ok (nowOf ⟨3, [0, -1]⟩) :=
  thread_data_round_trip 2 (by decide) (3, ⟨[⟨7, 2, 1, 1, [0, -5]⟩, ⟨8, 3, 2, 4, [9, 1]⟩], ⟨3, [0, -1]⟩⟩)
    (List.forall_mem_cons.mpr ⟨⟨by decide, by decide, by decide, by decide, rfl⟩,
      List.forall_mem_singleton.mpr ⟨by decide, by decide, by decide, by decide, rfl⟩⟩)
    (by decide) ⟨by decide, rfl⟩

def linesRead : List Nat → Stream → List (NameID × Bytes)
  | [], _ => []
  | nameid :: nameids, strm => (nameid, (getline strm).1) :: linesRead nameids (getline strm).2

def insertNames (table : NameTable) (names : List (NameID × Bytes)) : NameTable :=
  names.foldl (fun table name => table.insert name.1 name.2) table

theorem setNames_eq (ids : List Nat) (strm : Stream) (names : NameTable) :
    setNames ids strm names = insertNames names (linesRead ids strm) := by
  induction ids generalizing strm names with
  | nil => rfl
  | cons x ids ih => exact ih _ _

def asking (ids : List Nat) : List (NameID × Bytes) := ids.map (fun x => (x, ascii "<Asking>"))

theorem askName_names (names : NameTable) (ids : List Nat) :
    (ids.foldl askName ⟨names, []⟩).names = insertNames names (asking (unknownNameids names ids)) := by
  induction ids using List.reverseRecOn with
  | nil => rfl
  | append_singleton ids x ih =>
      have hcontains : (ids.foldl askName ⟨names, []⟩).names.contains x = true ↔
          names.contains x = true ∨ x ∈ ids := by
        rw [contains_iff_some, (askName_unknown names ids).2 x, contains_iff_some]
        by_cases hx : x ∈ unknownNameids names ids
        · simp [hx, (mem_unknownNameids.mp hx).1]
        · rw [if_neg hx, or_iff_left_of_imp]
          intro hmem
          rw [mem_unknownNameids, not_and, Bool.not_eq_false] at hx
          exact contains_iff_some.mp (hx hmem)
      rw [List.foldl_append, List.foldl_cons, List.foldl_nil, unknownNameids_append, askName]
      by_cases hold : names.contains x = true ∨ x ∈ ids
      · rw [if_pos (hcontains.mpr hold), if_pos hold, ih]
      · rw [if_neg (mt hcontains.mp hold), if_neg hold, ih, asking, asking, insertNames,
          insertNames, List.map_append, List.foldl_append]
        rfl

/-- What the profiled program answers in one call of `ReceiveLoop`. -/
structure Reply where
  rows : List (Bytes × Bytes)
  targetName : Bytes
  sweep : Sweep
  names : Outgoing

namespace Reply

def info (x : Reply) : MemberOffsets := (getSlide x.rows.length).map (fun e => (e.1, Int32.ofInt e.2))

def asked (x : Reply) (names : NameTable) : List Nat :=
  unknownNameids names (x.sweep.flatMap (fun e => e.2.records.map (fun r => r.nameid)))

def exchange (x : Reply) : List Outgoing :=
  [.message MSG_SLIDE_INFO (slideInfoToStr (getSlide x.rows.length)),
    .message MSG_RECORD_METAINFO (decimal x.rows.length ++ [10] ++ tableText 0 x.rows),
    .message MSG_PROFILE_TARGET x.targetName]

/-- A request is answered with the drained buffers, and the query of names if there is one. -/
def request (x : Reply) (names : NameTable) : List Outgoing :=
  (partsOf x.sweep).map Part.message ++
    .message MSG_COMMAND_SUCCEED [] :: if x.asked names = [] then [] else [x.names]

def messages (x : Reply) (t : Target) : List Outgoing :=
  (if t.store.firstReceived then [] else x.exchange) ++ x.request t.store.ds.nameTable

def namesGiven (x : Reply) (names : NameTable) : List (NameID × Bytes) :=
  asking (x.asked names) ++ linesRead (x.asked names) (ofText x.names.payload)

def reception (x : Reply) (names : NameTable) : Monitor.Ticks.Reception :=
  .drained (x.rows.map rowMetadata) (x.namesGiven names) (x.sweep.map callOf)

end Reply

/-- The replies of a program with these record slots, which the monitor knows if it is
connected. -/
structure Genuine (t : Target) (x : Reply) : Prop where
  rows : ∀ row ∈ x.rows, IsWord row.1 ∧ ∀ b ∈ row.2, isSpace b = false
  few : 24 + 8 * x.rows.length < 2 ^ 31
  sent : Sent x.rows.length x.sweep
  known : t.memberOffsetInfo = if t.store.firstReceived then x.info else []
  slots : t.store.firstReceived = true → t.store.ds.numRecords = x.rows.length

variable {x : Reply} {t : Target} {names : NameTable}

theorem offsetsOf_info (few : 24 + 8 * x.rows.length < 2 ^ 31) :
    offsetsOf x.info = ⟨0, 24 + 8 * x.rows.length⟩ := by
  have hlaid := getSlide_laid few
  rw [offsetsOf, Reply.info, hlaid.nameid, hlaid.recordSize]
  congr 1

theorem nameid_recordBytes {r : MethodNodeSerializedInfo} (h : Fits numRecords r) :
    word 8 0 (recordBytes r) = r.nameid := by
  have hplaced := placedAt_append [] (recordBytes r) []
  rw [List.append_nil, List.nil_append] at hplaced
  exact (word_placed hplaced.left).trans (Nat.mod_eq_of_lt h.nameid)

theorem nameids_parts (h : Sent numRecords sweep) (size : Nat) :
    ((partsOf sweep).map (Part.nameids ⟨0, size⟩)).flatten =
      sweep.flatMap (fun e => e.2.records.map (fun r => r.nameid)) := by
  rw [← List.flatMap_def, partsOf, List.flatMap_assoc]
  apply List.flatMap_congr
  intro e he
  have hrecords : (e.2.records.map recordBytes).map (word 8 0) = e.2.records.map (fun r => r.nameid) := by
    rw [List.map_map]
    exact List.map_congr_left fun r hr => nameid_recordBytes (h.records e he r hr)
  simp [profilePart, nowInfoPart, Part.nameids, hrecords]

theorem parts_wellFormed (h : Sent numRecords sweep) :
    ∀ p ∈ partsOf sweep, p.WellFormed ⟨0, 24 + 8 * numRecords⟩ := by
  intro p hp
  obtain ⟨e, he, hpe⟩ := List.mem_flatMap.mp hp
  rcases List.mem_pair.mp hpe with rfl | rfl
  · refine ⟨h.ids e he, fun r hr => ?_⟩
    obtain ⟨q, hq, rfl⟩ := List.mem_map.mp hr
    rw [length_recordBytes, (h.records e he q hq).count]
  · exact h.ids e he

theorem recvLoop_sent (few : 24 + 8 * x.rows.length < 2 ^ 31)
    (h : Sent x.rows.length x.sweep) (names : NameTable) (rest : List MessageBuf) :
    recvLoop (offsetsOf x.info)
        ((partsOf x.sweep).map (fun p => received p.message) ++ received (.message MSG_COMMAND_SUCCEED []) :: rest)
        (noBuffers names) =
      .ok (.finished ((partsOf x.sweep).foldl (Part.receive (offsetsOf x.info)) (noBuffers names)) rest) := by
  rw [offsetsOf_info few]
  exact (recvLoop_parts (by dsimp only; omega) (partsOf x.sweep) (parts_wellFormed h) _ _).trans
    (recvLoop_succeed _ [] rest _)

theorem asked_sent (few : 24 + 8 * x.rows.length < 2 ^ 31)
    (h : Sent x.rows.length x.sweep) (names : NameTable) :
    ((partsOf x.sweep).foldl (Part.receive (offsetsOf x.info)) (noBuffers names)).asked =
      (x.sweep.flatMap (fun e => e.2.records.map (fun r => r.nameid))).foldl askName ⟨names, []⟩ := by
  rw [offsetsOf_info few, receive_asked, ← List.foldl_flatten, nameids_parts h]
  rfl

theorem queryNames_sent (few : 24 + 8 * x.rows.length < 2 ^ 31)
    (h : Sent x.rows.length x.sweep) (names : NameTable) :
    ((partsOf x.sweep).foldl (Part.receive (offsetsOf x.info)) (noBuffers names)).asked.queryNames =
      if x.asked names = [] then [] else 0 :: x.asked names := by
  rw [asked_sent few h]
  exact (askName_unknown names _).1

theorem getProfileData_request (few : 24 + 8 * x.rows.length < 2 ^ 31)
    (h : Sent x.rows.length x.sweep) (names : NameTable) :
    getProfileData (offsetsOf x.info) names ((x.request names).map received) =
      .ok ⟨true, insertNames names (x.namesGiven names),
        x.sweep.map (fun e => ⟨e.1, profileBuf e, some (nowInfoBuf e)⟩)⟩ := by
  have hloop := recvLoop_sent few h names
  have hquery := queryNames_sent few h names
  have hnames : ((partsOf x.sweep).foldl (Part.receive (offsetsOf x.info)) (noBuffers names)).asked.names =
      insertNames names (asking (x.asked names)) := by
    rw [asked_sent few h]
    exact askName_names names _
  have hstores := storeCalls_parts (offsetsOf x.info) names h.increasing
  rw [Reply.request, List.map_append, List.map_map, List.map_cons, Reply.namesGiven]
  by_cases hnil : x.asked names = []
  · rw [if_pos hnil] at hquery ⊢
    have hrun := getProfileData_nothing (hloop []) hquery
    rw [hnames, hstores] at hrun
    rw [hnil] at hrun ⊢
    exact hrun
  · rw [if_neg hnil] at hquery ⊢
    have hrun := getProfileData_answered (hloop [received x.names]) hquery
    rw [hnames, hstores, setNames_eq, insertNames, insertNames, ← List.foldl_append] at hrun
    exact hrun

theorem map_of_bind {α β γ : Type} (run : Run α) {f : α → γ} {k : α → β} {g : β → γ}
    (h : ∀ a, f a = g (k a)) : run.map f = (run >>= fun a => pure (k a)).map g := by
  cases run with
  | error e => rfl
  | ok a => exact congrArg Except.ok (h a)

theorem profileStep_request (gl : Settings) (few : 24 + 8 * x.rows.length < 2 ^ 31)
    (h : Sent x.rows.length x.sweep) (hinfo : t.memberOffsetInfo = x.info)
    (hn : t.store.ds.numRecords = x.rows.length) :
    profileStep gl t ((x.request t.store.ds.nameTable).map received) =
      ((x.sweep.map callOf).foldlM (storeCall gl (Monitor.Ticks.advanced t.store.ds (x.namesGiven t.store.ds.nameTable)))
        t.store.threads).map (fun threads => (true, { t with store := { t.store with
          ds := Monitor.Ticks.advanced t.store.ds (x.namesGiven t.store.ds.nameTable), threads } })) := by
  have hlaid : Laid x.info x.rows.length := getSlide_laid few
  have hstores :=
    foldlM_storeThread gl (Monitor.Ticks.advanced t.store.ds (x.namesGiven t.store.ds.nameTable))
        t.store.threads
      hlaid hn few h
  have hds : ({ t.store.ds with
      currentTimeNumber := t.store.ds.currentTimeNumber + 1
      nameTable := insertNames t.store.ds.nameTable (x.namesGiven t.store.ds.nameTable) } : DataStore) =
      Monitor.Ticks.advanced t.store.ds (x.namesGiven t.store.ds.nameTable) := rfl
  rw [profileStep, receiveProfileData, hinfo, getProfileData_request few h, ok_bind]
  dsimp only
  rw [hds, hstores]
  cases (x.sweep.map callOf).foldlM (storeCall gl _) t.store.threads with
  | error e => rfl
  | ok threads =>
      rw [Except.map, ← hinfo]
      rfl

theorem exchangeInfo_reply (hrows : ∀ row ∈ x.rows, IsWord row.1 ∧ ∀ b ∈ row.2, isSpace b = false)
    (hfew : 24 + 8 * x.rows.length < 2 ^ 31) (hinfo : t.memberOffsetInfo = []) (incoming : List MessageBuf) :
    exchangeInfo t (received (.message MSG_SLIDE_INFO (slideInfoToStr (getSlide x.rows.length))))
        (received (.message MSG_RECORD_METAINFO (decimal x.rows.length ++ [10] ++ tableText 0 x.rows)) ::
          received (.message MSG_PROFILE_TARGET x.targetName) :: incoming) =
      .ok ({ t with
        memberOffsetInfo := x.info
        targetName := x.targetName
        store := { t.store with ds := { t.store.ds with
          numRecords := x.rows.length
          recordMetadata := x.rows.map rowMetadata } } }, incoming) := by
  have hslide := readSlideInfo (getSlide_words hfew) []
  have htable := receiveMetainfo_table (t.store.ds.numRecords : Int) (by omega) hrows
  rw [List.nil_append] at hslide
  simp only [exchangeInfo, replyText, asString_received, Outgoing.payload, ok_bind,
    pure_eq_ok, hinfo, hslide, htable]
  rfl

/-- The target after a call that has been answered. -/
def Reply.connected (x : Reply) (t : Target) (store : Monitor.Ticks.TargetStore) : Target :=
  { t with
    memberOffsetInfo := x.info
    targetName := if t.store.firstReceived then t.targetName else x.targetName
    store }

theorem receiveLoop_reply (gl : Settings) {socket : Int} (hsocket : 0 < socket)
    (hrecv : t.recv = true) (h : Genuine t x) : receiveLoop gl socket t ((x.messages t).map received) =
      (Monitor.Ticks.receiveLoop gl t.store (x.reception t.store.ds.nameTable)).map (fun store =>
        (true, x.connected t store)) := by
  have hknown := h.known
  rw [receiveLoop.eq_def, if_neg (by rw [hrecv]; decide), Reply.messages]
  cases hfirst : t.store.firstReceived with
  | true =>
      rw [hfirst, if_pos rfl] at hknown
      have hexchanged : Monitor.Ticks.exchanged t.store (x.rows.map rowMetadata) = t.store := if_pos hfirst
      rw [if_pos rfl, if_pos rfl, List.nil_append,
        profileStep_request gl h.few h.sent hknown (h.slots hfirst), Reply.reception,
        Monitor.Ticks.receiveLoop]
      dsimp only
      rw [hexchanged]
      apply map_of_bind
      intro threads
      rw [Reply.connected, hfirst, if_pos rfl, ← hknown]
  | false =>
      rw [hfirst, if_neg Bool.false_ne_true] at hknown
      have hexchanged : Monitor.Ticks.exchanged t.store (x.rows.map rowMetadata) = { t.start.store with
          ds := { t.start.store.ds with numRecords := x.rows.length, recordMetadata := x.rows.map rowMetadata } } := by
        rw [Monitor.Ticks.exchanged, if_neg (by rw [hfirst]; decide), List.length_map]
        rfl
      rw [if_neg Bool.false_ne_true, if_neg (by omega), if_neg Bool.false_ne_true, Reply.exchange]
      simp only [List.cons_append, List.nil_append, List.map_cons]
      rw [exchangeInfo_reply (t := t.start) h.rows h.few hknown, ok_bind]
      refine (profileStep_request (t := { t.start with
        memberOffsetInfo := x.info
        targetName := x.targetName
        store := { t.start.store with ds := { t.start.store.ds with
          numRecords := x.rows.length
          recordMetadata := x.rows.map rowMetadata } } }) gl h.few h.sent rfl rfl).trans ?_
      rw [Reply.reception, Monitor.Ticks.receiveLoop]
      dsimp only
      rw [hexchanged]
      apply map_of_bind
      intro threads
      rw [Reply.connected, hfirst, if_neg Bool.false_ne_true]
      rfl

theorem messages_carried {k : Kernel} (hk : k.Partial) {ms : List Outgoing}
    (hms : ∀ m ∈ ms, m.payload.length < 2 ^ 31 - 8) :
    ∃ s r, sendMessages k ms ⟨[], 0⟩ = .ok s ∧
      recvMessages k ms.length ⟨s.out, 0⟩ = .ok ((ms.map received).map some, r) := by
  obtain ⟨calls, hsend⟩ := sendMessages_frames hk ms (fun m hm => by have := hms m hm; omega) ⟨[], 0⟩
  obtain ⟨calls', hrecv⟩ := recvMessages_frames hk ms hms [] 0
  rw [List.append_nil] at hrecv
  refine ⟨_, ⟨[], calls'⟩, hsend, ?_⟩
  rw [List.map_map]
  exact hrecv

/-- So does one whose messages come in whatever pieces. -/
theorem receiveLoop_carried (gl : Settings) (socket : Int) (hsocket : 0 < socket) (t : Target)
    (hrecv : t.recv = true) (x : Reply) (h : Genuine t x) (k : Kernel) (hk : k.Partial)
    (hshort : ∀ m ∈ x.messages t, m.payload.length < 2 ^ 31 - 8) :
    ∃ s bufs r, sendMessages k (x.messages t) ⟨[], 0⟩ = .ok s ∧
      recvMessages k (x.messages t).length ⟨s.out, 0⟩ = .ok (bufs.map some, r) ∧
      receiveLoop gl socket t bufs =
        (Monitor.Ticks.receiveLoop gl t.store (x.reception t.store.ds.nameTable)).map
        (fun store => (true, x.connected t store)) := by
  obtain ⟨s, r, hsend, hrecvs⟩ := messages_carried hk hshort
  exact ⟨s, (x.messages t).map received, r, hsend, hrecvs, receiveLoop_reply gl hsocket hrecv h⟩

def firstTarget : Target := ⟨true, [], [], Monitor.Ticks.newDataStore⟩

def firstReply : Reply :=
  { rows := [(ascii "AF", ascii "time"), (ascii "SF", ascii "start")]
    targetName := ascii "ruby"
    sweep := [(0, ⟨[⟨7, 2, 1, 1, [0, -5]⟩], ⟨2, [0, -1]⟩⟩)]
    names := .message MSG_NAMES (ascii "main\n") }

theorem firstReply_genuine : Genuine firstTarget firstReply := by
  have hword (s : String) (hs : (ascii s).all (fun b => !isSpace b) = true) :
      ∀ b ∈ ascii s, isSpace b = false :=
    not_space_of_all hs
  refine ⟨List.forall_mem_cons.mpr ⟨⟨⟨by decide, hword "AF" (by decide)⟩, hword "time" (by decide)⟩,
    List.forall_mem_singleton.mpr ⟨⟨by decide, hword "SF" (by decide)⟩,
      hword "start" (by decide)⟩⟩, by decide, ?_, rfl,
    fun hfirst => Bool.noConfusion hfirst⟩
  exact ⟨by decide, List.forall_mem_singleton.mpr (by decide), List.forall_mem_singleton.mpr (List.forall_mem_singleton.mpr
    ⟨by decide, by decide, by decide, by decide, rfl⟩), List.forall_mem_singleton.mpr (by decide),
    List.forall_mem_singleton.mpr ⟨by decide, rfl⟩⟩

theorem receiveLoop_carried_first :
    ∃ s bufs r, sendMessages bytewise (firstReply.messages firstTarget) ⟨[], 0⟩ = .ok s ∧
      recvMessages bytewise (firstReply.messages firstTarget).length ⟨s.out, 0⟩ = .ok (bufs.map some, r) ∧
      receiveLoop defaultMode 3 firstTarget bufs =
        (Monitor.Ticks.receiveLoop defaultMode firstTarget.store (firstReply.reception firstTarget.store.ds.nameTable)).map
          (fun store => (true, firstReply.connected firstTarget store)) :=
  receiveLoop_carried defaultMode 3 (by decide) firstTarget rfl firstReply firstReply_genuine
    bytewise bytewise_partial (by decide +kernel)

end Llprof.Link.WireTick
