import Llprof.Profiler.Records
import Std.Data.TreeMap.Lemmas

namespace Llprof.Profiler.CallTree

open Faulting MachineIntegers Records

structure MethodNodeInfo where
  serializedNodeIndex : Nat
  generationNumber : Nat
  nameid : Nat
  children : Std.TreeMap Nat Nat
  parentNodeId : Nat
  startValue : List LongLong

structure MethodNodeSerializedInfo where
  nameid : Nat
  callNodeId : Nat
  parentNodeId : Nat
  callCount : Nat
  profileValue : List LongLong
  deriving DecidableEq, Repr

/-- The array `NowInfo`, of which place 0 is for a node id and the others are for values. -/
structure NowBuffer where
  node : Nat
  values : List LongLong
  deriving DecidableEq, Repr

structure ThreadInfo where
  threadID : Nat
  nodeInfoArray : List MethodNodeInfo
  serializedNodeInfoArray : List MethodNodeSerializedInfo
  currentCallNodeID : Nat
  generationNumber : Nat
  stop : Bool
  nowInfo : NowBuffer

def zeroValues (g : RecordTable) : List LongLong := List.replicate g.activeRecords.length 0

def newNode (g : RecordTable) (parentNodeId nameid : Nat) : MethodNodeInfo :=
  { serializedNodeIndex := 0, generationNumber := 0, nameid, children := ∅, parentNodeId
    startValue := zeroValues g }

def ThreadInfo.pushNode (g : RecordTable) (ti : ThreadInfo) (parentNodeId nameid : Nat) : ThreadInfo :=
  { ti with nodeInfoArray := ti.nodeInfoArray ++ [newNode g parentNodeId nameid] }

/-- `children->insert`, which leaves an entry that is already there. -/
def ThreadInfo.linkChild (ti : ThreadInfo) (parentNodeId nameid child : Nat) : Run ThreadInfo := do
  let p ← fetch ti.nodeInfoArray parentNodeId
  let nodes ← store ti.nodeInfoArray parentNodeId { p with children := p.children.insertIfNew nameid child }
  return { ti with nodeInfoArray := nodes }

def addCallNode (g : RecordTable) (ti : ThreadInfo) (parentNodeId nameid : Nat) : Run (ThreadInfo × Nat) := do
  let ti := ti.pushNode g parentNodeId nameid
  let id := ti.nodeInfoArray.length - 1
  let ti ← if parentNodeId ≠ 0 then ti.linkChild parentNodeId nameid id else pure ti
  return (ti, id)

/-- `new profile_value_t[n + 1]`. -/
def newNowInfo (g : RecordTable) (threadID : Nat) : NowBuffer :=
  ⟨(g.unset threadID 0).toNat, (List.range g.activeRecords.length).map (fun i => g.unset threadID (i + 1))⟩

/-- The constructor of `ThreadInfo`. Slot 0 of the node array is never set; node
1 is added with parent 0 and linked to nothing. -/
def newThread (g : RecordTable) (threadID : Nat) : ThreadInfo :=
  let ti : ThreadInfo :=
    { threadID, nodeInfoArray := [newNode g 0 0], serializedNodeInfoArray := [], currentCallNodeID := 0
      generationNumber := 1, stop := false, nowInfo := newNowInfo g threadID }
  let ti := ti.pushNode g 0 0
  { ti with currentCallNodeID := ti.nodeInfoArray.length - 1 }

def getChildNodeID (g : RecordTable) (ti : ThreadInfo) (nameid : Nat) : Run (ThreadInfo × Nat) := do
  let nodeInfo ← fetch ti.nodeInfoArray ti.currentCallNodeID
  match nodeInfo.children[nameid]? with
  | none => addCallNode g ti ti.currentCallNodeID nameid
  | some c => return (ti, c)

def addActualRecord (g : RecordTable) (ti : ThreadInfo) (cnid : Nat) : Run ThreadInfo := do
  let callNode ← fetch ti.nodeInfoArray cnid
  let sinfo : MethodNodeSerializedInfo :=
    { nameid := callNode.nameid, callNodeId := cnid, parentNodeId := callNode.parentNodeId
      callCount := 0, profileValue := zeroValues g }
  let records := ti.serializedNodeInfoArray ++ [sinfo]
  let nodes ← store ti.nodeInfoArray cnid
    { callNode with serializedNodeIndex := records.length - 1, generationNumber := ti.generationNumber }
  return { ti with serializedNodeInfoArray := records, nodeInfoArray := nodes }

/-- `get_current_node_info_pair`. The result is the index of the current node's
record in the live buffer, the pointer `sinfo` of the source. -/
def getCurrentNodeInfoPair (g : RecordTable) (ti : ThreadInfo) : Run (ThreadInfo × Nat) := do
  let ninfo ← fetch ti.nodeInfoArray ti.currentCallNodeID
  let ti ← if ninfo.generationNumber ≠ ti.generationNumber then addActualRecord g ti ti.currentCallNodeID
    else pure ti
  let ninfo ← fetch ti.nodeInfoArray ti.currentCallNodeID
  return (ti, ninfo.serializedNodeIndex)

/-- The part of the call handler before the locked section. -/
def enterChild (g : RecordTable) (ti : ThreadInfo) (nameid : Nat) : Run ThreadInfo := do
  require (ti.stop = false) .assertion
  let (ti, id) ← getChildNodeID g { ti with stop := true } nameid
  return { ti with currentCallNodeID := id }

/-- What the call handler does to its record through `sinfo`. -/
def startRecord (g : RecordTable) (reading : Reading) (sinfo : MethodNodeSerializedInfo) :
    Run MethodNodeSerializedInfo := do
  let value ← rtypeStartNode g reading sinfo.profileValue
  return { sinfo with callCount := sinfo.callCount + 1, profileValue := value }

/-- The `memcpy` into `start_value` and the end of the call handler. -/
def saveStart (ti : ThreadInfo) (value : List LongLong) : Run ThreadInfo := do
  let ninfo ← fetch ti.nodeInfoArray ti.currentCallNodeID
  let nodes ← store ti.nodeInfoArray ti.currentCallNodeID { ninfo with startValue := value }
  return { ti with nodeInfoArray := nodes, stop := false }

def callHandler (g : RecordTable) (reading : Reading) (nameid : Nat) (ti : ThreadInfo) : Run ThreadInfo := do
  let ti ← enterChild g ti nameid
  let (ti, idx) ← getCurrentNodeInfoPair g ti
  let sinfo ← fetch ti.serializedNodeInfoArray idx
  let sinfo ← startRecord g reading sinfo
  let records ← store ti.serializedNodeInfoArray idx sinfo
  saveStart { ti with serializedNodeInfoArray := records } sinfo.profileValue

/-- What the return handler does to its record through `sinfo`. -/
def endRecord (g : RecordTable) (reading : Reading) (ti : ThreadInfo) (sinfo : MethodNodeSerializedInfo) :
    Run MethodNodeSerializedInfo := do
  let ninfo ← fetch ti.nodeInfoArray ti.currentCallNodeID
  let value ← rtypeEndNode g reading ninfo.startValue sinfo.profileValue
  return { sinfo with profileValue := value }

def leaveTo (ti : ThreadInfo) (parentNodeId : Nat) : ThreadInfo :=
  { ti with currentCallNodeID := parentNodeId, stop := false }

def returnHandler (g : RecordTable) (reading : Reading) (ti : ThreadInfo) : Run ThreadInfo :=
  if ti.currentCallNodeID = 1 then
    .ok ti
  else do
    require (ti.stop = false) .assertion
    let (ti, idx) ← getCurrentNodeInfoPair g { ti with stop := true }
    let sinfo ← fetch ti.serializedNodeInfoArray idx
    let sinfo ← endRecord g reading ti sinfo
    let records ← store ti.serializedNodeInfoArray idx sinfo
    return leaveTo { ti with serializedNodeInfoArray := records } sinfo.parentNodeId

/-- `CallTree_GetSerializedBuffer`. The live records become the back buffer and
the thread goes on with an empty one in the next generation. -/
def getSerializedBuffer (ti : ThreadInfo) : ThreadInfo × List MethodNodeSerializedInfo :=
  ({ ti with
      serializedNodeInfoArray := []
      generationNumber := (ti.generationNumber + 1) % 2 ^ 32
      nowInfo := { ti.nowInfo with node := ti.currentCallNodeID } },
    ti.serializedNodeInfoArray)

def getNowInfo (g : RecordTable) (reading : Reading) (ti : ThreadInfo) : Run (ThreadInfo × NowBuffer) := do
  let values ← rtypeStartNode g reading ti.nowInfo.values
  let nowInfo := { ti.nowInfo with values }
  return ({ ti with nowInfo }, nowInfo)

/-- What one drain of a thread sends: its records and its NOWINFO buffer. -/
structure Drained where
  records : List MethodNodeSerializedInfo
  nowInfo : NowBuffer
  deriving DecidableEq, Repr

def drain (g : RecordTable) (reading : Reading) (ti : ThreadInfo) : Run (ThreadInfo × Drained) := do
  let (ti, records) := getSerializedBuffer ti
  let (ti, nowInfo) ← getNowInfo g reading ti
  return (ti, ⟨records, nowInfo⟩)

/-- The events that a profiled program reports, with the counters' values. -/
inductive Handler
  | call (nameid : Nat) (reading : Reading)
  | ret (reading : Reading)

def Handler.run (g : RecordTable) (ti : ThreadInfo) : Handler → Run ThreadInfo
  | call nameid reading => callHandler g reading nameid ti
  | ret reading => returnHandler g reading ti

def runHandlers (g : RecordTable) (ti : ThreadInfo) (hs : List Handler) : Run ThreadInfo :=
  hs.foldlM (fun ti h => h.run g ti) ti

end Llprof.Profiler.CallTree
