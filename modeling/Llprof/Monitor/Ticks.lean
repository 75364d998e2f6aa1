import Llprof.Monitor.Store

namespace Llprof.Monitor.Ticks

open Faulting hiding store
open LittleEndian Nodes Store
open Profiler.CallTree (MethodNodeSerializedInfo)

abbrev Threads := List (ThreadID × ThreadStore)

structure TargetStore where
  ds : DataStore
  firstReceived : Bool
  threads : Threads

def newDataStore : TargetStore :=
  ⟨{ currentTimeNumber := 0, recordMetadata := [], numRecords := 0, nameTable := ∅ }, false, []⟩

def threadOf (gl : Settings) (ds : DataStore) (threads : Threads) (id : ThreadID) : ThreadStore :=
  (threads.lookup id).getD (newThreadStore gl ds id)

def putThread : Threads → ThreadID → ThreadStore → Threads
  | [], id, ts => [(id, ts)]
  | (k, t) :: rest, id, ts =>
      if id = k then (k, ts) :: rest
      else if id < k then (id, ts) :: (k, t) :: rest
      else (k, t) :: putThread rest id ts

structure StoreCall where
  thread : ThreadID
  batch : List MethodNodeSerializedInfo
  now : NowInfo

def storeCall (gl : Settings) (ds : DataStore) (threads : Threads) (call : StoreCall) : Run Threads := do
  let ts ← store gl ds (threadOf gl ds threads call.thread) call.batch call.now
  return putThread threads call.thread ts

/-- What a data store gets from its target in one turn: nothing, where it does not
come to ask for data, or the names and buffers of a drain, which a failed one leaves
out in part. The metadata are those that the target reports when it is asked first. -/
inductive Reception
  | silent
  | drained (metadata : List RecordMetadata) (names : List (NameID × Bytes)) (calls : List StoreCall)

/-- The exchange of metadata, which is made once. -/
def exchanged (t : TargetStore) (metadata : List RecordMetadata) : TargetStore :=
  if t.firstReceived then t
  else { t with
    firstReceived := true
    ds := { t.ds with recordMetadata := metadata, numRecords := metadata.length } }

/-- The fields that `GetProfileData` sets before the buffers are stored. -/
def advanced (ds : DataStore) (names : List (NameID × Bytes)) : DataStore :=
  { ds with
    currentTimeNumber := ds.currentTimeNumber + 1
    nameTable := names.foldl (fun table name => table.insert name.1 name.2) ds.nameTable }

def receiveLoop (gl : Settings) (t : TargetStore) : Reception → Run TargetStore
  | .silent => .ok t
  | .drained metadata names calls => do
      let t := exchanged t metadata
      let ds := advanced t.ds names
      let threads ← calls.foldlM (storeCall gl ds) t.threads
      return { t with ds, threads }

structure GlobalThreadStore where
  ts : ThreadStore
  seqNum : NodeID
  gnidToSeqMap : Std.TreeMap NodeID NodeID

/-- The store that the single-tree mode integrates into. It has one thread, from when
it knows the record slots. -/
structure GlobalDataStore where
  ds : DataStore
  thread : Option GlobalThreadStore

def newGlobalDataStore : GlobalDataStore :=
  ⟨{ currentTimeNumber := 0, recordMetadata := [], numRecords := 0, nameTable := ∅ }, none⟩

def GlobalThreadStore.gnidToSeq (g : GlobalThreadStore) (gnid : NodeID) : GlobalThreadStore × NodeID :=
  if gnid < 2 then (g, gnid)
  else match g.gnidToSeqMap[gnid]? with
    | some seq => (g, seq)
    | none => ({ g with seqNum := g.seqNum + 1, gnidToSeqMap := g.gnidToSeqMap.insert gnid (g.seqNum + 1) },
      g.seqNum + 1)

/-- The state of the loops of `Integrate`: `dest` is the current slice of the global
thread, whose other slices are put aside. -/
structure Integrating where
  ds : DataStore
  g : GlobalThreadStore
  dest : TimeSliceStore
  nowvalueCopied : Bool

def integrateValues (ds : DataStore) (src dest : RecordNodeBasic) (destCurrent : RecordNode) :
    Run (RecordNodeBasic × RecordNode) :=
  forRange ds.numRecords (fun (st : RecordNodeBasic × RecordNode) i => do
    let md ← fetch ds.recordMetadata i
    if md.staticValueFlag then
      return st
    else
      let all ← fetch src.allValues i
      let children ← fetch src.childrenValues i
      let destAll ← updateAt st.1.allValues i (· + all)
      let destChildren ← updateAt st.1.childrenValues i (· + children)
      let currentAll ← updateAt st.2.allValues i (· + all)
      let currentChildren ← updateAt st.2.childrenValues i (· + children)
      return ({ st.1 with allValues := destAll, childrenValues := destChildren },
        { st.2 with allValues := currentAll, childrenValues := currentChildren })) (dest, destCurrent)

def parentSeq (srcTree : Std.TreeMap NodeID RecordNode) (g : GlobalThreadStore) (srcCurrent : RecordNode) :
    GlobalThreadStore × NodeID :=
  match srcTree[srcCurrent.parentId]? with
  | some srcCurrentParent => g.gnidToSeq srcCurrentParent.gnid
  | none => (g, 0)

def setGNID (ts : ThreadStore) (id gnid : NodeID) : ThreadStore :=
  match ts.getNodeFromID id with
  | none => ts
  | some node => ts.setNode id { node with gnid }

/-- The node of the global tree for a node of a target, which is added when it is new. -/
def destNode (gl : Settings) (srcDs : DataStore) (srcTree : Std.TreeMap NodeID RecordNode) (st : Integrating)
    (srcCurrent : RecordNode) : Integrating × NodeID :=
  let (g, destNodeId) := st.g.gnidToSeq srcCurrent.gnid
  match g.ts.getNodeFromID destNodeId with
  | some _ => ({ st with g }, destNodeId)
  | none =>
      let (g, destParentId) := parentSeq srcTree g srcCurrent
      let ts := g.ts.addCurrentNode gl st.ds destNodeId destParentId destNodeId false
      let name := srcDs.getNameFromID srcCurrent.nodeName
      ({ st with
        g := { g with ts := setGNID ts destNodeId srcCurrent.gnid }
        ds := { st.ds with nameTable := st.ds.nameTable.insert destNodeId name } }, destNodeId)

def integrateNode (gl : Settings) (srcDs : DataStore)
    (srcTree : Std.TreeMap NodeID RecordNode) (st : Integrating)
    (it : NodeID × RecordNodeBasic) : Run Integrating :=
  match srcTree[it.2.id]? with
  | none => .error .assertion
  | some srcCurrent =>
      let (st, destNodeId) := destNode gl srcDs srcTree st srcCurrent
      match st.g.ts.getNodeFromID destNodeId with
      | none => .error .nullDeref
      | some destCurrent => do
          let (dest, destCurrent) ←
            integrateValues st.ds it.2 (sliceNode gl st.ds st.dest.tree destNodeId) destCurrent
          return { st with
            dest := { st.dest with
              tree := st.dest.tree.insert destNodeId { dest with callCount := dest.callCount + it.2.callCount } }
            g := { st.g with
              ts := st.g.ts.setNode destNodeId { destCurrent with callCount := destCurrent.callCount + it.2.callCount } } }

/-- The counters of the first thread are taken over. -/
def copyNowValues (st : Integrating) (tss : TimeSliceStore) : Integrating :=
  if st.nowvalueCopied then st
  else { st with
    nowvalueCopied := true
    g := { st.g with ts := { st.g.ts with runningNode := tss.runningNode, nowValues := tss.nowValues } }
    dest := { st.dest with runningNode := tss.runningNode, nowValues := tss.nowValues } }

def integrateThread (gl : Settings) (srcDs : DataStore) (st : Integrating) (src : ThreadID × ThreadStore) :
    Run (Integrating × (ThreadID × ThreadStore)) :=
  match src.2.getTimeSlice srcDs.currentTimeNumber with
  | (_, none) => .error .nullDeref
  | (ts, some i) => do
      let tss ← fetch ts.timeSlice i
      let st ← tss.tree.toList.foldlM (integrateNode gl srcDs ts.currentTree) (copyNowValues st tss)
      return (st, (src.1, if gl.singleTreeMode then { ts with timeSlice := [] } else ts))

def integrateTarget (gl : Settings) (st : Integrating) (t : TargetStore) :
    Run (Integrating × TargetStore) := do
  let (st, threads) ← sweep (integrateThread gl t.ds) t.threads st
  return (st, { t with threads })

/-- `GlobalThreadStore::Integrate`. -/
def integrateAll (gl : Settings) (ds : DataStore) (g : GlobalThreadStore) (targets : List TargetStore) :
    Run (GlobalDataStore × List TargetStore) :=
  match g.ts.getTimeSlice ds.currentTimeNumber with
  | (_, none) => .error .nullDeref
  | (ts, some i) => do
      let tss ← fetch ts.timeSlice i
      let aside : ThreadStore := { ts with startTimeNumber := 0, timeSlice := [] }
      let (st, targets) ← sweep (integrateTarget gl) targets ⟨ds, { g with ts := aside }, tss, false⟩
      let ts : ThreadStore := { st.g.ts with
        startTimeNumber := ts.startTimeNumber
        timeSlice := ts.timeSlice.set i st.dest }
      return (⟨st.ds, some { st.g with ts }⟩, targets)

def described (gl : Settings) (global : GlobalDataStore) (targets : List TargetStore) : GlobalDataStore :=
  if global.ds.numRecords = 0 then
    match targets.find? (fun t => t.ds.numRecords ≠ 0) with
    | none => global
    | some t =>
        let ds := { global.ds with numRecords := t.ds.numRecords, recordMetadata := t.ds.recordMetadata }
        ⟨ds, some ⟨newThreadStore gl ds 0, 1, ∅⟩⟩
  else
    global

/-- `GlobalDataStore::Integrate`. -/
def integrate (gl : Settings) (global : GlobalDataStore) (targets : List TargetStore) :
    Run (GlobalDataStore × List TargetStore) :=
  let global := described gl global targets
  if global.ds.numRecords = 0 then .ok (global, targets)
  else match global.thread with
    | none => .error .nullDeref
    | some g => integrateAll gl { global.ds with currentTimeNumber := global.ds.currentTimeNumber + 1 } g
      targets

/-- All data stores: the targets in the order of their ids, which count from 1, and
the global one, whose id is 0 and which only the single-tree mode has. -/
structure AllDataStore where
  targets : List TargetStore
  global : GlobalDataStore

def initDataStore : AllDataStore := ⟨[], newGlobalDataStore⟩

def receiveAll (gl : Settings) : List TargetStore → List Reception → Run (List TargetStore)
  | t :: ts, r :: rs => do
      let t ← receiveLoop gl t r
      let ts ← receiveAll gl ts rs
      return t :: ts
  | ts, _ => .ok ts

/-- One turn of the loop of the receiving thread. -/
def tick (gl : Settings) (m : AllDataStore) (receptions : List Reception) : Run AllDataStore := do
  let targets ← receiveAll gl m.targets receptions
  if gl.singleTreeMode then
    let (global, targets) ← integrate gl m.global targets
    return { targets, global }
  else
    return { m with targets }

end Llprof.Monitor.Ticks
