import Llprof.Foundations.Faulting
import Llprof.Foundations.LittleEndian
import Llprof.Foundations.MachineIntegers
import Std.Data.TreeMap.Lemmas
import Std.Data.TreeSet.Lemmas

namespace Llprof.Monitor.Nodes

open Faulting LittleEndian MachineIntegers

abbrev NodeID := Nat

abbrev NameID := Nat

abbrev ThreadID := Nat

abbrev ProfileValue := LongLong

structure RecordMetadata where
  fieldName : Bytes
  unit : Bytes
  flags : Bytes
  accumulatedValueFlag : Bool
  staticValueFlag : Bool
  deriving DecidableEq, Repr

def RecordMetadata.assocFlag (md : RecordMetadata) (c : Char) : Bool := md.flags.contains c.toUInt8

def RecordMetadata.updateFlag (md : RecordMetadata) : RecordMetadata :=
  { md with accumulatedValueFlag := md.assocFlag 'A', staticValueFlag := md.assocFlag 'S' }

/-- The global switches of the monitor, and the hash over the strings that name
nodes across threads, which an external library computes. -/
structure Settings where
  leafNodeAccumulate : Bool
  singleTreeMode : Bool
  hashStrHard : Bytes → NodeID

/-- What the thread stores of a data store read from it. -/
structure DataStore where
  currentTimeNumber : Int
  recordMetadata : List RecordMetadata
  numRecords : Nat
  nameTable : Std.TreeMap NameID Bytes

def DataStore.getNameFromID (ds : DataStore) (id : NameID) : Bytes := ds.nameTable.getD id (ascii "<Unknown>")

structure RecordNodeBasic where
  id : NodeID
  parentId : NodeID
  nodeName : NameID
  allValues : List ProfileValue
  childrenValues : List ProfileValue
  callCount : LongLong
  running : Bool
  deriving DecidableEq, Repr

structure RecordNode extends RecordNodeBasic where
  tempValues : List ProfileValue
  tempCallCount : LongLong
  dirty : Bool
  childrenId : Std.TreeSet NodeID
  gnid : NodeID

structure TimeSliceStore where
  timeNumber : Int
  tree : Std.TreeMap NodeID RecordNodeBasic
  nowValues : List ProfileValue
  runningNode : NodeID

abbrev AttrNodeMap := Std.TreeMap (NodeID × NameID) NodeID lexOrd.compare

structure ThreadStore where
  currentTree : Std.TreeMap NodeID RecordNode
  startTimeNumber : Int
  timeSlice : List TimeSliceStore
  nowValues : List ProfileValue
  runningNode : NodeID
  threadId : ThreadID
  attrNodeIdAlt : Std.TreeMap NodeID NodeID
  attrNodeMap : AttrNodeMap
  currentAttrNodeIdIndex : NodeID

/-- `resize` of a vector of values. -/
def resize (values : List ProfileValue) (n : Nat) : List ProfileValue :=
  (values ++ List.replicate n 0).take n

def isAttrName (name : Bytes) : Bool := name.head? == some (Char.toUInt8 '#')

def RecordNodeBasic.isAttrNode (ds : DataStore) (node : RecordNodeBasic) : Bool :=
  isAttrName (ds.getNameFromID node.nodeName)

/-- A default-constructed basic node. The members that its constructor leaves
unset are 0. -/
def emptyBasic : RecordNodeBasic :=
  { id := 0, parentId := 0, nodeName := 0, allValues := [], childrenValues := [], callCount := 0, running := false }

def emptyNode : RecordNode :=
  { emptyBasic with tempValues := [], tempCallCount := 0, dirty := false, childrenId := ∅, gnid := 0 }

def RecordNodeBasic.setDataStore (gl : Settings) (ds : DataStore)
    (node : RecordNodeBasic) (strippable : Bool) : RecordNodeBasic :=
  if !strippable || !gl.singleTreeMode then
    { node with
      allValues := resize node.allValues ds.numRecords
      childrenValues := resize node.childrenValues ds.numRecords }
  else node

def RecordNode.setDataStore (gl : Settings) (ds : DataStore) (node : RecordNode) (strippable : Bool) :
    RecordNode :=
  { node with
    toRecordNodeBasic := node.toRecordNodeBasic.setDataStore gl ds strippable
    tempValues := resize node.tempValues ds.numRecords }

def RecordNode.clearTempValues (node : RecordNode) : RecordNode :=
  { node with tempValues := node.tempValues.map (fun _ => 0), tempCallCount := 0 }

def RecordNode.setTempValues (node : RecordNode) (values : List ProfileValue) (callCount : LongLong) :
    Run RecordNode := do
  require (node.tempValues.length = values.length) .assertion
  return { node with tempValues := values, tempCallCount := callCount }

def RecordNodeBasic.accumulate (ds : DataStore) (node rhs : RecordNodeBasic) : Run RecordNodeBasic := do
  let node ← forRange ds.numRecords (fun (node : RecordNodeBasic) i => do
    let md ← fetch ds.recordMetadata i
    let all ← fetch rhs.allValues i
    let children ← fetch rhs.childrenValues i
    if md.staticValueFlag then
      let allValues ← updateAt node.allValues i (fun _ => all)
      let childrenValues ← updateAt node.childrenValues i (fun _ => children)
      return { node with allValues, childrenValues }
    else
      let allValues ← updateAt node.allValues i (· + all)
      let childrenValues ← updateAt node.childrenValues i (· + children)
      return { node with allValues, childrenValues }) node
  return { node with callCount := node.callCount + rhs.callCount }

def RecordNodeBasic.valuesEquals (node rhs : RecordNodeBasic) : Bool :=
  node.allValues = rhs.allValues && node.childrenValues = rhs.childrenValues

def ThreadStore.getNodeFromID (ts : ThreadStore) (nid : NodeID) : Option RecordNode := ts.currentTree[nid]?

def ThreadStore.setNode (ts : ThreadStore) (nid : NodeID) (node : RecordNode) : ThreadStore :=
  { ts with currentTree := ts.currentTree.insert nid node }

def ThreadStore.addCurrentNode (gl : Settings) (ds : DataStore) (ts : ThreadStore) (cnid parentCnid : NodeID)
    (nameid : NameID) (strippable : Bool) : ThreadStore :=
  let node := (ts.currentTree[cnid]?).getD emptyNode
  let node := node.setDataStore gl ds strippable
  ts.setNode cnid { node with id := cnid, parentId := parentCnid, nodeName := nameid }

def ThreadStore.addChildID (ts : ThreadStore) (parent child : NodeID) : ThreadStore :=
  match ts.getNodeFromID parent with
  | none => ts
  | some node => ts.setNode parent { node with childrenId := node.childrenId.insert child }

def newThreadStore (gl : Settings) (ds : DataStore) (threadId : ThreadID) : ThreadStore :=
  let ts : ThreadStore :=
    { currentTree := ∅, startTimeNumber := 0, timeSlice := [], nowValues := [], runningNode := 0, threadId
      attrNodeIdAlt := ∅, attrNodeMap := ∅, currentAttrNodeIdIndex := 0xFF000000 }
  let ts := ts.addCurrentNode gl ds 1 0 0 false
  match ts.getNodeFromID 1 with
  | none => ts
  | some node => ts.setNode 1 { node with gnid := 1 }

def emptySlice : TimeSliceStore := { timeNumber := 0, tree := ∅, nowValues := [], runningNode := 0 }

/-- An empty vector of slices starts at the time that is asked for. -/
def ThreadStore.startFor (ts : ThreadStore) (t : Int) : Int :=
  if ts.timeSlice.isEmpty then t else ts.startTimeNumber

/-- The slice of a time number, as its position in `timeSlice`, which grows up to it. -/
def ThreadStore.getTimeSlice (ts : ThreadStore) (t : Int) : ThreadStore × Option Nat :=
  let start := ts.startFor t
  if t < start then ({ ts with startTimeNumber := start }, none)
  else
    let i := (t - start).toNat
    let grown := ts.timeSlice ++ List.replicate (i + 1 - ts.timeSlice.length) emptySlice
    ({ ts with startTimeNumber := start, timeSlice := grown.modify i (fun tss => { tss with timeNumber := t }) },
      some i)

/-- `TimeSliceStore::GetNodeFromID` with `add`. -/
def sliceNode (gl : Settings) (ds : DataStore) (slice : Std.TreeMap NodeID RecordNodeBasic) (id : NodeID) :
    RecordNodeBasic :=
  match slice[id]? with
  | some node => node
  | none => { emptyBasic.setDataStore gl ds false with id := id, parentId := 0 }

end Llprof.Monitor.Nodes
