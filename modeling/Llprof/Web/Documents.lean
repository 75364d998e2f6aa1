import Llprof.Monitor.Answers
import Llprof.Web.JsonDecoding

namespace Llprof.Web.Documents

open Faulting LittleEndian Decimal JsonText JsonWriter JsonDecoding Monitor.Nodes Monitor.Answers

def writeList {α : Type} (write : α → Bytes → Run Bytes) (items : List α) (strm : Bytes) : Run Bytes := do
  let list ← items.foldlM (fun w item => listAdd w (write item)) (Writer.on strm)
  let list ← listClose list
  return list.strm

def writeJsonValue (v : ProfileValue) : Bytes → Run Bytes := writeJsonInt v.toInt

def profileValuesToStream (vec : List ProfileValue) : Bytes → Run Bytes := writeList writeJsonValue vec

def isprint (c : UInt8) : Bool := 32 ≤ c && c ≤ 126

def printable (name : Bytes) : Bytes := name.map (fun c => if isprint c then c else 88)

def unsignedInt (n : Nat) : Int := (n % 2 ^ 32 : Nat)

def writeJsonNode (ds : DataStore) (node : RecordNodeBasic) (strm : Bytes) : Run Bytes := do
  let out ← dictAdd (Writer.on strm) (ascii "id") (writeJsonInt (unsignedInt node.id))
  let out ← dictAdd out (ascii "pid") (writeJsonInt (unsignedInt node.parentId))
  let out ← dictAdd out (ascii "name") (writeJsonString (printable (ds.getNameFromID node.nodeName)))
  let s ← profileValuesToStream node.allValues []
  let out ← dictAdd out (ascii "all") (writeJsonStream s)
  let s ← profileValuesToStream node.childrenValues []
  let out ← dictAdd out (ascii "cld") (writeJsonStream s)
  let out ← dictAdd out (ascii "cc") (writeJsonInt node.callCount.toNat)
  let out ← dictClose out
  return out.strm

def dumpLast (last : LastSlice) (store : Writer) : Run Writer := do
  let tmp ← profileValuesToStream last.nowValues []
  let store ← dictAdd store (ascii "now_values") (writeJsonStream tmp)
  let store ← match last.startValues with
    | none => pure store
    | some startValues => do
        let tmp ← profileValuesToStream startValues []
        dictAdd store (ascii "start_values") (writeJsonStream tmp)
  dictAdd store (ascii "running_node") (writeJsonInt (unsignedInt last.runningNode))

def dumpTree (ds : DataStore) (tree : ThreadTree) (store : Writer) : Run Writer :=
  match tree with
  | .current nodes nowValues runningNode => do
      let nodes ← writeList (writeJsonNode ds) nodes []
      let store ← dictAdd store (ascii "nodes") (writeJsonStream nodes)
      let tmp ← profileValuesToStream nowValues []
      let store ← dictAdd store (ascii "now_values") (writeJsonStream tmp)
      dictAdd store (ascii "running_node") (writeJsonInt (unsignedInt runningNode))
  | .diff nodes last => do
      let nodes ← writeList (writeJsonNode ds) nodes []
      let store ← dictAdd store (ascii "nodes") (writeJsonStream nodes)
      match last with
      | none => pure store
      | some last => dumpLast last store

/-- `ThreadStore::DumpJSON`, from the data it reads. -/
def dumpThread (ds : DataStore) (answer : ThreadAnswer) (strm : Bytes) : Run Bytes := do
  let store ← dictAdd (Writer.on strm) (ascii "id") (writeJsonInt answer.threadId)
  let store ← dumpTree ds answer.tree store
  let store ← dictClose store
  return store.strm

def writeMetadata (md : RecordMetadata) (strm : Bytes) : Run Bytes := do
  let dmd ← dictAdd (Writer.on strm) (ascii "field_name") (writeJsonString md.fieldName)
  let dmd ← dictAdd dmd (ascii "unit") (writeJsonString md.unit)
  let dmd ← dictAdd dmd (ascii "flags") (writeJsonString md.flags)
  let dmd ← dictClose dmd
  return dmd.strm

def metadataDict (metadata : List RecordMetadata) (strm : Bytes) : Run Bytes := do
  let dict ← metadata.zipIdx.foldlM (fun (dict : Writer) md => do
    let dmd ← writeMetadata md.1 []
    dictAdd dict (decimal md.2) (writeJsonStream dmd)) (Writer.on strm)
  let dict ← dictClose dict
  return dict.strm

def pasteThread (ds : DataStore) (answer : ThreadAnswer) (strm : Bytes) : Run Bytes := do
  let item ← dumpThread ds answer []
  writeJsonStream item strm

/-- `DataStore::DumpJSON`, from the answers of the threads in the order of their ids. -/
def dumpDataStore (ds : DataStore) (answers : List ThreadAnswer) (strm : Bytes) : Run Bytes := do
  let data ← dictAdd (Writer.on strm) (ascii "timenum") (writeJsonInt ds.currentTimeNumber)
  let threads ← writeList (pasteThread ds) answers []
  let data ← dictAdd data (ascii "threads") (writeJsonStream threads)
  let metadata ← metadataDict ds.recordMetadata []
  let data ← dictAdd data (ascii "numrecords") (writeJsonInt ds.recordMetadata.length)
  let data ← dictAdd data (ascii "metadata") (writeJsonStream metadata)
  let data ← dictClose data
  return data.strm

structure Listed where
  id : Int
  targetName : Bytes
  targetHost : Bytes
  deriving DecidableEq, Repr

def writeListed (listed : Listed) (strm : Bytes) : Run Bytes := do
  let d ← dictAdd (Writer.on []) (ascii "id") (writeJsonInt listed.id)
  let d ← dictAdd d (ascii "name") (writeJsonString listed.targetName)
  let d ← dictAdd d (ascii "host") (writeJsonString listed.targetHost)
  let d ← dictClose d
  writeJsonStream d.strm strm

/-- What is given to an `add`. A nested writer writes on the same stream or on one of
its own, which is pasted. -/
inductive Piece
  | int (n : Int)
  | str (s : Bytes)
  | list (pasted : Bool) (items : List Piece)
  | dict (pasted : Bool) (members : List (Bytes × Piece))

def paste (write : Bytes → Run Bytes) (strm : Bytes) : Run Bytes := do
  let json ← write []
  writeJsonStream json strm

def placed (pasted : Bool) (write : Bytes → Run Bytes) : Bytes → Run Bytes :=
  if pasted then paste write else write

mutual

def writePiece : Piece → Bytes → Run Bytes
  | .int n => writeJsonInt n
  | .str s => writeJsonString s
  | .list pasted items => placed pasted (fun strm => do
      let w ← addItems items (Writer.on strm)
      let w ← listClose w
      return w.strm)
  | .dict pasted members => placed pasted (fun strm => do
      let w ← addMembers members (Writer.on strm)
      let w ← dictClose w
      return w.strm)

def addItems : List Piece → Writer → Run Writer
  | [], w => .ok w
  | p :: ps, w => do
      let w ← listAdd w (writePiece p)
      addItems ps w

def addMembers : List (Bytes × Piece) → Writer → Run Writer
  | [], w => .ok w
  | (name, p) :: ms, w => do
      let w ← dictAdd w name (writePiece p)
      addMembers ms w

end

inductive Document
  | tree (ds : DataStore) (answers : List ThreadAnswer)
  | list (stores : List Listed)
  | nest (p : Piece)

def Document.write : Document → Bytes → Run Bytes
  | .tree ds answers => dumpDataStore ds answers
  | .list stores => writeList writeListed stores
  | .nest p => writePiece p

def valuesValue (vec : List ProfileValue) : Value := .list (vec.map (fun v => Value.int v.toInt))

def nodeValue (ds : DataStore) (node : RecordNodeBasic) : Value :=
  .dict [(ascii "id", .int (unsignedInt node.id)), (ascii "pid", .int (unsignedInt node.parentId)),
    (ascii "name", .str (printable (ds.getNameFromID node.nodeName))),
      (ascii "all", valuesValue node.allValues),
    (ascii "cld", valuesValue node.childrenValues), (ascii "cc", .int node.callCount.toNat)]

def startMember : Option (List ProfileValue) → List (Bytes × Value)
  | none => []
  | some startValues => [(ascii "start_values", valuesValue startValues)]

def lastMembers : Option LastSlice → List (Bytes × Value)
  | none => []
  | some last => (ascii "now_values", valuesValue last.nowValues) ::
      (startMember last.startValues ++ [(ascii "running_node", .int (unsignedInt last.runningNode))])

def treeMembers (ds : DataStore) : ThreadTree → List (Bytes × Value)
  | .current nodes nowValues runningNode => [(ascii "nodes", .list (nodes.map (nodeValue ds))),
      (ascii "now_values", valuesValue nowValues), (ascii "running_node", .int (unsignedInt runningNode))]
  | .diff nodes last => (ascii "nodes", .list (nodes.map (nodeValue ds))) :: lastMembers last

def threadValue (ds : DataStore) (answer : ThreadAnswer) : Value :=
  .dict ((ascii "id", .int answer.threadId) :: treeMembers ds answer.tree)

def metadataValue (md : RecordMetadata) : Value :=
  .dict [(ascii "field_name", .str md.fieldName), (ascii "unit", .str md.unit),
    (ascii "flags", .str md.flags)]

def dataStoreValue (ds : DataStore) (answers : List ThreadAnswer) : Value :=
  .dict [(ascii "timenum", .int ds.currentTimeNumber),
    (ascii "threads", .list (answers.map (threadValue ds))),
    (ascii "numrecords", .int ds.recordMetadata.length),
    (ascii "metadata", .dict (ds.recordMetadata.zipIdx.map (fun md => (decimal md.2, metadataValue md.1))))]

def listedValue (listed : Listed) : Value :=
  .dict [(ascii "id", .int listed.id), (ascii "name", .str listed.targetName),
    (ascii "host", .str listed.targetHost)]

mutual

def pieceValue : Piece → Value
  | .int n => .int n
  | .str s => .str s
  | .list _ items => .list (itemValues items)
  | .dict _ members => .dict (memberValues members)

def itemValues : List Piece → List Value
  | [] => []
  | p :: ps => pieceValue p :: itemValues ps

def memberValues : List (Bytes × Piece) → List (Bytes × Value)
  | [] => []
  | (name, p) :: ms => (name, pieceValue p) :: memberValues ms

end

def Document.value : Document → Value
  | .tree ds answers => dataStoreValue ds answers
  | .list stores => .list (stores.map listedValue)
  | .nest p => pieceValue p

theorem on_listWriter (strm : Bytes) : Writer.on strm = listWriter strm [] := by
  simp [Writer.on, listWriter]

theorem on_dictWriter (strm : Bytes) : Writer.on strm = dictWriter strm [] := by
  simp [Writer.on, dictWriter]

theorem dictClose_text (strm : Bytes) (members : List (Bytes × Value)) :
    (dictClose (dictWriter strm members) >>= fun w => pure w.strm) =
      .ok (strm ++ (Value.dict members).render) := by
  obtain ⟨w, hclose, hw⟩ := dictClose_writer strm members
  rw [hclose, ok_bind, pure_eq_ok, hw]

theorem listClose_text (strm : Bytes) (items : List Value) :
    (listClose (listWriter strm items) >>= fun w => pure w.strm) =
      .ok (strm ++ (Value.list items).render) := by
  obtain ⟨w, hclose, hw⟩ := listClose_writer strm items
  rw [hclose, ok_bind, pure_eq_ok, hw]

theorem renders_list {α : Type} {write : α → Bytes → Run Bytes} {value : α → Value}
    (h : ∀ x, Renders (write x) (value x)) (items : List α) : Renders (writeList write items)
    (.list (items.map value)) := by
  intro strm
  have hadds : ∀ (items : List α) (done : List Value),
      items.foldlM (fun w item => listAdd w (write item)) (listWriter strm done) =
        .ok (listWriter strm (done ++ items.map value)) := by
    intro items
    induction items with
    | nil =>
        intro done
        rw [List.map_nil, List.append_nil]
        rfl
    | cons x items ih =>
        intro done
        rw [List.foldlM_cons, listAdd_writer strm done (h x), ok_bind, ih, List.map_cons, List.append_assoc]
        rfl
  rw [writeList, on_listWriter, hadds items [], ok_bind, List.nil_append, listClose_text]

theorem renders_values (vec : List ProfileValue) : Renders (profileValuesToStream vec) (valuesValue vec) := by
  have hvalue (v : ProfileValue) : Renders (writeJsonValue v) (Value.int v.toInt) := renders_int v.toInt
  exact renders_list hvalue vec

theorem renders_nil {write : Bytes → Run Bytes} {v : Value} (h : Renders write v) : write [] = .ok v.render :=
  h []

theorem renders_paste {write : Bytes → Run Bytes} {v : Value} (h : Renders write v) :
    Renders (paste write) v := by
  intro strm
  rw [paste, renders_nil h, ok_bind]
  rfl

theorem renders_pasted {write : Bytes → Run Bytes} {v : Value} (h : Renders write v) :
    Renders (writeJsonStream v.render) v := renders_stream h (renders_nil h)

theorem renders_node (ds : DataStore) (node : RecordNodeBasic) :
    Renders (writeJsonNode ds node) (nodeValue ds node) := by
  intro strm
  rw [writeJsonNode, on_dictWriter, dictAdd_writer strm _ _ (renders_int _), ok_bind,
    dictAdd_writer strm _ _ (renders_int _), ok_bind, dictAdd_writer strm _ _ (renders_str _), ok_bind,
    renders_nil (renders_values _), ok_bind, dictAdd_writer strm _ _ (renders_pasted (renders_values _)),
    ok_bind,
    renders_nil (renders_values _), ok_bind, dictAdd_writer strm _ _ (renders_pasted (renders_values _)),
    ok_bind,
    dictAdd_writer strm _ _ (renders_int _), ok_bind, dictClose_text]
  rfl

theorem dumpTree_adds (ds : DataStore) (tree : ThreadTree) (strm : Bytes) (members : List (Bytes × Value)) :
    dumpTree ds tree (dictWriter strm members) = .ok (dictWriter strm (members ++ treeMembers ds tree)) := by
  have hnodes := renders_list (renders_node ds)
  cases tree with
  | current nodes nowValues runningNode =>
      rw [dumpTree, renders_nil (hnodes nodes), ok_bind,
        dictAdd_writer strm _ _ (renders_pasted (hnodes nodes)), ok_bind,
        renders_nil (renders_values _), ok_bind, dictAdd_writer strm _ _ (renders_pasted (renders_values _)),
        ok_bind,
        dictAdd_writer strm _ _ (renders_int _)]
      simp [treeMembers]
  | diff nodes last =>
      rw [dumpTree, renders_nil (hnodes nodes), ok_bind,
        dictAdd_writer strm _ _ (renders_pasted (hnodes nodes)), ok_bind]
      cases last with
      | none => rfl
      | some last =>
          obtain ⟨nowValues, startValues, runningNode⟩ := last
          dsimp only
          rw [dumpLast, renders_nil (renders_values _), ok_bind,
            dictAdd_writer strm _ _ (renders_pasted (renders_values _)), ok_bind]
          cases startValues with
          | none =>
              dsimp only
              rw [pure_eq_ok, ok_bind, dictAdd_writer strm _ _ (renders_int _)]
              simp [treeMembers, lastMembers, startMember]
          | some startValues =>
              dsimp only
              rw [renders_nil (renders_values _), ok_bind,
                dictAdd_writer strm _ _ (renders_pasted (renders_values _)), ok_bind,
                dictAdd_writer strm _ _ (renders_int _)]
              simp [treeMembers, lastMembers, startMember]

theorem renders_thread (ds : DataStore) (answer : ThreadAnswer) :
    Renders (dumpThread ds answer) (threadValue ds answer) := by
  intro strm
  rw [dumpThread, on_dictWriter, dictAdd_writer strm _ _ (renders_int _), ok_bind, dumpTree_adds,
    ok_bind, List.nil_append, List.singleton_append, dictClose_text]
  rfl

theorem renders_metadata (md : RecordMetadata) : Renders (writeMetadata md) (metadataValue md) := by
  intro strm
  rw [writeMetadata, on_dictWriter, dictAdd_writer strm _ _ (renders_str _), ok_bind,
    dictAdd_writer strm _ _ (renders_str _), ok_bind, dictAdd_writer strm _ _ (renders_str _),
    ok_bind, dictClose_text]
  rfl

theorem renders_metadataDict (metadata : List RecordMetadata) : Renders (metadataDict metadata)
    (.dict (metadata.zipIdx.map (fun md => (decimal md.2, metadataValue md.1)))) := by
  intro strm
  have hadds : ∀ (mds : List (RecordMetadata × Nat)) (done : List (Bytes × Value)),
      mds.foldlM (fun (dict : Writer) md => do
        let dmd ← writeMetadata md.1 []
        dictAdd dict (decimal md.2) (writeJsonStream dmd)) (dictWriter strm done) =
        .ok (dictWriter strm (done ++ mds.map (fun md => (decimal md.2, metadataValue md.1)))) := by
    intro mds
    induction mds with
    | nil =>
        intro done
        rw [List.map_nil, List.append_nil]
        rfl
    | cons md mds ih =>
        intro done
        rw [List.foldlM_cons, renders_nil (renders_metadata md.1), ok_bind,
          dictAdd_writer strm done _ (renders_pasted (renders_metadata md.1)), ok_bind, ih,
          List.map_cons, List.append_assoc]
        rfl
  rw [metadataDict, on_dictWriter, hadds _ [], ok_bind, List.nil_append, dictClose_text]

theorem renders_dataStore (ds : DataStore) (answers : List ThreadAnswer) :
    Renders (dumpDataStore ds answers) (dataStoreValue ds answers) := by
  intro strm
  have hthreads : Renders (writeList (pasteThread ds) answers) (.list (answers.map (threadValue ds))) :=
    renders_list (fun answer => renders_paste (renders_thread ds answer)) answers
  have hmetadata := renders_metadataDict ds.recordMetadata
  rw [dumpDataStore, on_dictWriter, dictAdd_writer strm _ _ (renders_int _), ok_bind,
    renders_nil hthreads, ok_bind,
    dictAdd_writer strm _ _ (renders_pasted hthreads), ok_bind, renders_nil hmetadata, ok_bind,
    dictAdd_writer strm _ _ (renders_int _), ok_bind, dictAdd_writer strm _ _ (renders_pasted hmetadata),
    ok_bind, dictClose_text]
  rfl

theorem renders_listed (listed : Listed) : Renders (writeListed listed) (listedValue listed) := by
  intro strm
  obtain ⟨w, hclose, hw⟩ :=
    dictClose_writer [] [(ascii "id", .int listed.id), (ascii "name", .str listed.targetName),
      (ascii "host", .str listed.targetHost)]
  rw [writeListed, on_dictWriter, dictAdd_writer [] _ _ (renders_int _), ok_bind,
    dictAdd_writer [] _ _ (renders_str _), ok_bind, dictAdd_writer [] _ _ (renders_str _), ok_bind]
  simp only [List.nil_append, List.cons_append]
  rw [hclose, ok_bind, hw]
  rfl

theorem renders_placed {write : Bytes → Run Bytes} {v : Value} (h : Renders write v) (pasted : Bool) :
    Renders (placed pasted write) v := by
  unfold placed
  split
  · exact renders_paste h
  · exact h

mutual

theorem renders_piece (p : Piece) : Renders (writePiece p) (pieceValue p) := by
  cases p with
  | int n => exact renders_int n
  | str s => exact renders_str s
  | list pasted items =>
      rw [writePiece, pieceValue]
      refine renders_placed (fun strm => ?_) pasted
      rw [on_listWriter, addItems_writer items strm [], ok_bind, List.nil_append, listClose_text]
  | dict pasted members =>
      rw [writePiece, pieceValue]
      refine renders_placed (fun strm => ?_) pasted
      rw [on_dictWriter, addMembers_writer members strm [], ok_bind, List.nil_append, dictClose_text]

theorem addItems_writer (ps : List Piece) (strm : Bytes) (done : List Value) :
    addItems ps (listWriter strm done) = .ok (listWriter strm (done ++ itemValues ps)) := by
  cases ps with
  | nil => rw [addItems, itemValues, List.append_nil]
  | cons p ps =>
      rw [addItems, listAdd_writer strm done (renders_piece p), ok_bind, addItems_writer ps,
        itemValues, List.append_assoc]
      rfl

theorem addMembers_writer (ms : List (Bytes × Piece)) (strm : Bytes) (done : List (Bytes × Value)) :
    addMembers ms (dictWriter strm done) = .ok (dictWriter strm (done ++ memberValues ms)) := by
  cases ms with
  | nil => rw [addMembers, memberValues, List.append_nil]
  | cons m ms =>
      obtain ⟨name, p⟩ := m
      rw [addMembers, dictAdd_writer strm done name (renders_piece p), ok_bind,
        addMembers_writer ms, memberValues, List.append_assoc]
      rfl

end

theorem renders_document (d : Document) : Renders d.write d.value := by
  cases d with
  | tree ds answers => exact renders_dataStore ds answers
  | list stores => exact renders_list renders_listed stores
  | nest p => exact renders_piece p

theorem clean_printable (name : Bytes) : Clean (printable name) ↔ (92 : UInt8) ∉ name := by
  have hrange : ∀ c ∈ printable name, 32 ≤ c.toNat ∧ c.toNat ≤ 126 := by
    intro c hc
    obtain ⟨d, -, rfl⟩ := List.mem_map.mp hc
    split
    · rename_i hd
      simpa [isprint, UInt8.le_iff_toNat_le] using hd
    · decide
  have hback : (92 : UInt8) ∈ printable name ↔ (92 : UInt8) ∈ name := by
    constructor
    · intro h
      obtain ⟨d, hd, he⟩ := List.mem_map.mp h
      split at he
      · rwa [← he]
      · exact absurd he (by decide)
    · intro h
      exact List.mem_map.mpr ⟨92, h, by decide⟩
  have hvalid : Utf8.valid (printable name) = true := by
    have hlow : ∀ c ∈ printable name, c.toNat < 0x80 := fun c hc => by have := hrange c hc; omega
    have hascii := Utf8.valid_ascii_append hlow []
    rw [List.append_nil] at hascii
    exact hascii
  rw [Clean, and_iff_left hvalid, ← hback]
  constructor
  · intro h hmem
    exact absurd (h 92 hmem) (by decide)
  · intro h c hc
    have hc92 : c ≠ 92 := fun he => h (he ▸ hc)
    have hc32 : 32 ≤ c := UInt8.le_iff_toNat_le.mpr (hrange c hc).1
    simp [cleanChar, hc92, hc32]

/-- A document is valid and read back as what it was built from exactly if none of its
strings holds a backslash, a control character without an escape of its own, or bytes
that are not UTF-8. -/
theorem documents_read_back_iff (d : Document) :
    (∃ text, d.write [] = .ok text ∧ decode text = some (toJson d.value)) ↔
      ∀ s ∈ strings d.value, Clean s := by
  rw [← decode_render, renders_nil (renders_document d)]
  constructor
  · rintro ⟨text, htext, hread⟩
    cases htext
    exact hread
  · exact fun hread => ⟨_, rfl, hread⟩

def pathDocument : Document := .list [⟨0, ascii "C:\\php\\index.php", ascii "localhost"⟩]

theorem path_not_read_back :
    ¬ ∃ text, pathDocument.write [] = .ok text ∧ decode text = some (toJson pathDocument.value) := by
  rintro ⟨text, htext, hread⟩
  rw [renders_nil (renders_document pathDocument), Except.ok.injEq] at htext
  rw [← htext, decode_render] at hread
  have hclean := hread (ascii "C:\\php\\index.php") (by decide)
  exact absurd hclean.1 (by decide)

end Llprof.Web.Documents
