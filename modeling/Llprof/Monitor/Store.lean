import Llprof.Monitor.Nodes
import Llprof.Profiler.CallTree

namespace Llprof.Monitor.Store

open Faulting hiding store
open LittleEndian MachineIntegers Nodes
open Profiler.CallTree (MethodNodeSerializedInfo)

/-- The running node and the counters of a NOWINFO message. -/
structure NowInfo where
  runningNode : NodeID
  values : List ProfileValue
  deriving DecidableEq, Repr

/-- The string that is hashed for a node. -/
def gnidString (parentGnid : NodeID) (name : Bytes) : Bytes :=
  ascii (toString parentGnid) ++ ascii "/" ++ name

/-- `TouchGNID`. The parent is passed on without a check. -/
def touchGNID (gl : Settings) (ds : DataStore) : Nat → ThreadStore → NodeID → Run (ThreadStore × NodeID)
  | 0, _, _ => .error .outOfFuel
  | fuel + 1, ts, id =>
      match ts.getNodeFromID id with
      | none => .error .missingParent
      | some node =>
          if node.gnid ≠ 0 then .ok (ts, node.gnid)
          else do
            let (ts, parentGnid) ← touchGNID gl ds fuel ts node.parentId
            let result := gl.hashStrHard (gnidString parentGnid (ds.getNameFromID node.nodeName))
            return (ts.setNode id { node with gnid := result }, result)

/-- No chain of parents is longer than the tree. -/
def touch (gl : Settings) (ds : DataStore) (ts : ThreadStore) (id : NodeID) : Run ThreadStore := do
  let (ts, _) ← touchGNID gl ds (ts.currentTree.size + 1) ts id
  return ts

def getAttrNode (gl : Settings) (ds : DataStore) (ts : ThreadStore) (cnid : NodeID) (attrName : NameID) :
    Run (ThreadStore × NodeID) :=
  match ts.attrNodeMap[(cnid, attrName)]? with
  | some a => .ok (ts, a)
  | none => do
      let newNodeId := ts.currentAttrNodeIdIndex
      let ts := { ts with
        currentAttrNodeIdIndex := newNodeId + 1
        attrNodeMap := ts.attrNodeMap.insert (cnid, attrName) newNodeId }
      let ts := ts.addCurrentNode gl ds newNodeId cnid attrName true
      let ts ← touch gl ds ts newNodeId
      return (ts.addChildID cnid newNodeId, newNodeId)

/-- A static value is the previous one until a record says otherwise. -/
def defaultTemps (gl : Settings) (ds : DataStore) (node : RecordNode) : Run RecordNode :=
  forRange ds.numRecords (fun (node : RecordNode) i => do
    let md ← fetch ds.recordMetadata i
    if md.staticValueFlag && !gl.singleTreeMode then
      let v ← fetch node.allValues i
      let tempValues ← updateAt node.tempValues i (fun _ => v)
      return { node with tempValues }
    else
      return node) node

def markNodeDirty (gl : Settings) (ds : DataStore) : Nat → ThreadStore → NodeID → Run ThreadStore
  | 0, _, _ => .error .outOfFuel
  | fuel + 1, ts, id =>
      match ts.getNodeFromID id with
      | none => .ok ts
      | some node =>
          if node.dirty then .ok ts
          else do
            let node ← defaultTemps gl ds (RecordNode.clearTempValues { node with dirty := true })
            let ts ← markNodeDirty gl ds fuel (ts.setNode id node) node.parentId
            if gl.leafNodeAccumulate && node.isAttrNode ds then
              match ts.getNodeFromID node.parentId with
              | none => return ts
              | some pnode =>
                  match ts.getNodeFromID pnode.parentId with
                  | none => return ts
                  | some ppnode =>
                      let (ts, a) ← getAttrNode gl ds ts ppnode.id node.nodeName
                      markNodeDirty gl ds fuel ts a
            else
              return ts

def mark (gl : Settings) (ds : DataStore) (ts : ThreadStore) (id : NodeID) : Run ThreadStore :=
  markNodeDirty gl ds (ts.currentTree.size + 1) ts id

/-- The loop of `MarkRunningNodes` and `UnmarkRunningNodes`. -/
def setRunning (running : Bool) : Nat → ThreadStore → NodeID → Run ThreadStore
  | 0, _, _ => .error .outOfFuel
  | fuel + 1, ts, id =>
      match ts.getNodeFromID id with
      | none => .ok ts
      | some node => setRunning running fuel (ts.setNode id { node with running }) node.parentId

def unmarkRunningNodes (ts : ThreadStore) : Run ThreadStore :=
  setRunning false (ts.currentTree.size + 1) ts ts.runningNode

def markRunningNodes (gl : Settings) (ds : DataStore) (ts : ThreadStore) : Run ThreadStore := do
  let ts ← mark gl ds ts ts.runningNode
  setRunning true (ts.currentTree.size + 1) ts ts.runningNode

def updateNowValues (ds : DataStore) (ts : ThreadStore) (now : NowInfo) : ThreadStore :=
  let nowValues := if ts.nowValues.isEmpty then resize ts.nowValues ds.numRecords else ts.nowValues
  { ts with
    runningNode := now.runningNode
    nowValues := now.values.take ds.numRecords ++ nowValues.drop ds.numRecords }

def addRecordNode (gl : Settings) (ds : DataStore) (ts : ThreadStore) (cnid : NodeID)
    (r : MethodNodeSerializedInfo) : Run ThreadStore := do
  let ts ← touch gl ds (ts.addCurrentNode gl ds cnid r.parentNodeId r.nameid true) cnid
  let ts := ts.addChildID r.parentNodeId cnid
  if gl.leafNodeAccumulate && isAttrName (ds.getNameFromID r.nameid) then
    return { ts with attrNodeMap := ts.attrNodeMap.insert (r.parentNodeId, r.nameid) cnid }
  else
    return ts

def locate (gl : Settings) (ds : DataStore) (ts : ThreadStore) (r : MethodNodeSerializedInfo) :
    Run (ThreadStore × NodeID) := do
  let cnid := if gl.leafNodeAccumulate then ts.attrNodeIdAlt.getD r.callNodeId r.callNodeId else r.callNodeId
  match ts.getNodeFromID cnid with
  | some _ => return (ts, cnid)
  | none =>
      match if gl.leafNodeAccumulate then ts.attrNodeMap[(r.parentNodeId, r.nameid)]? else none with
      | some a => return ({ ts with attrNodeIdAlt := ts.attrNodeIdAlt.insert cnid a }, a)
      | none =>
          let ts ← addRecordNode gl ds ts cnid r
          return (ts, cnid)

/-- One turn of the loop over the records of a buffer. -/
def storeRecord (gl : Settings) (ds : DataStore) (ts : ThreadStore) (r : MethodNodeSerializedInfo) :
    Run ThreadStore := do
  let (ts, cnid) ← locate gl ds ts r
  require (ts.currentTree.contains cnid = true) .endDeref
  require (ds.numRecords ≤ r.profileValue.length) .outOfRange
  let ts ← mark gl ds ts cnid
  match ts.getNodeFromID cnid with
  | none => .error .endDeref
  | some node =>
      let node ← node.setTempValues (r.profileValue.take ds.numRecords) (r.callCount : LongLong)
      return ts.setNode cnid node

/-- The part of `Store` before the flush. -/
def receive (gl : Settings) (ds : DataStore) (ts : ThreadStore) (batch : List MethodNodeSerializedInfo)
    (now : NowInfo) : Run ThreadStore := do
  let ts ← unmarkRunningNodes ts
  require (ds.numRecords ≤ now.values.length) .assertion
  let ts ← markRunningNodes gl ds (updateNowValues ds ts now)
  batch.foldlM (storeRecord gl ds) ts

structure Flush where
  tree : Std.TreeMap NodeID RecordNode
  slice : Std.TreeMap NodeID RecordNodeBasic

/-- Vectors that a stripped node leaves empty are passed over. -/
def updateUnless (skip : Bool) (values : List ProfileValue) (i : Nat) (f : ProfileValue → ProfileValue) :
    Run (List ProfileValue) :=
  if skip then .ok values else updateAt values i f

def addTempToChildren (ds : DataStore) (tssNode : RecordNodeBasic) (destNode srcNode : RecordNode) :
    Run (RecordNodeBasic × RecordNode) :=
  forRange ds.numRecords (fun (st : RecordNodeBasic × RecordNode) i => do
    let md ← fetch ds.recordMetadata i
    if md.staticValueFlag then
      return st
    else
      let v ← fetch srcNode.tempValues i
      let destChildren ← updateUnless st.2.childrenValues.isEmpty st.2.childrenValues i (· + v)
      let tssChildren ← updateAt st.1.childrenValues i (· + v)
      let temp ← updateUnless md.accumulatedValueFlag st.2.tempValues i (· + v)
      return ({ st.1 with childrenValues := tssChildren },
        { st.2 with childrenValues := destChildren, tempValues := temp })) (tssNode, destNode)

/-- `AddTempToChildren(tss_node, node, src)` on the maps. -/
def Flush.addTemp (gl : Settings) (ds : DataStore) (s : Flush) (id src : NodeID) : Run Flush :=
  match s.tree[id]?, s.tree[src]? with
  | some node, some srcNode => do
      let (tssNode, node) ← addTempToChildren ds (sliceNode gl ds s.slice id) node srcNode
      return { tree := s.tree.insert id node, slice := s.slice.insert id tssNode }
  | _, _ => .error .nullDeref

/-- The branch of an attribute node: it collects from the attribute nodes of its
name below its siblings. -/
def pullAttr (gl : Settings) (ds : DataStore) (attrNodeMap : AttrNodeMap) (id : NodeID) (node : RecordNode)
    (s : Flush) : Run Flush :=
  match s.tree[node.parentId]? with
  | none => .error .nullDeref
  | some pnode =>
      pnode.childrenId.toList.foldlM (fun (s : Flush) c =>
        match s.tree[c]? with
        | none => .error .nullDeref
        | some child =>
            if child.isAttrNode ds then .ok s
            else match attrNodeMap[(child.id, node.nodeName)]? with
              | none => .ok s
              | some a => s.addTemp gl ds id a) s

/-- One turn of the first loop over the children of any other node: the attribute
nodes are put off. -/
def clearChild (gl : Settings) (ds : DataStore) (clear : Flush → NodeID → Run (Flush × Bool)) (id : NodeID)
    (st : Flush × List NodeID) (c : NodeID) : Run (Flush × List NodeID) :=
  match st.1.tree[c]? with
  | none => .error .nullDeref
  | some child =>
      if child.isAttrNode ds then .ok (st.1, st.2 ++ [c])
      else do
        let (s, cleared) ← clear st.1 c
        if cleared then
          let s ← s.addTemp gl ds id c
          return (s, st.2)
        else
          return (s, st.2)

def clearChildren (gl : Settings) (ds : DataStore) (clear : Flush → NodeID → Run (Flush × Bool)) (id : NodeID)
    (children : List NodeID) (s : Flush) : Run (Flush × List NodeID) :=
  children.foldlM (clearChild gl ds clear id) (s, [])

def clearAttrs (gl : Settings) (ds : DataStore) (clear : Flush → NodeID → Run (Flush × Bool)) (id : NodeID)
    (attrNodes : List NodeID) (s : Flush) : Run Flush :=
  attrNodes.foldlM (fun (s : Flush) c =>
    match s.tree[c]? with
    | none => .error .nullDeref
    | some child =>
        if child.dirty then do
          let s ← s.addTemp gl ds id c
          let (s, _) ← clear s c
          return s
        else
          return s) s

/-- The last loop of `ClearDirtyNode`. -/
def addAllValues (ds : DataStore) (tssNode : RecordNodeBasic) (node : RecordNode) :
    Run (RecordNodeBasic × RecordNode) :=
  forRange ds.numRecords (fun (st : RecordNodeBasic × RecordNode) i => do
    let all ← fetch st.1.allValues i
    require (all = 0) .assertion
    let md ← fetch ds.recordMetadata i
    let v ← fetch st.2.tempValues i
    let f : ProfileValue → ProfileValue := if md.staticValueFlag then fun _ => v else (· + v)
    let nodeAll ← updateUnless st.2.allValues.isEmpty st.2.allValues i f
    let tssAll ← updateAt st.1.allValues i f
    return ({ st.1 with allValues := tssAll }, { st.2 with allValues := nodeAll })) (tssNode, node)

def settle (gl : Settings) (ds : DataStore) (s : Flush) (id : NodeID) : Run Flush :=
  match s.tree[id]? with
  | none => .error .nullDeref
  | some node => do
      let (tssNode, node) ← addAllValues ds (sliceNode gl ds s.slice id) node
      return {
        tree := s.tree.insert id
          { node with callCount := node.tempCallCount + node.callCount, dirty := false }
        slice := s.slice.insert id { tssNode with callCount := node.tempCallCount } }

def clearDirtyNode (gl : Settings) (ds : DataStore) (attrNodeMap : AttrNodeMap) :
    Nat → Flush → NodeID → Run (Flush × Bool)
  | 0, _, _ => .error .outOfFuel
  | fuel + 1, s, id =>
      match s.tree[id]? with
      | none => .ok (s, false)
      | some node =>
          if node.dirty then do
            let s := { s with slice := s.slice.insert id (sliceNode gl ds s.slice id) }
            let s ←
              if node.isAttrNode ds then pullAttr gl ds attrNodeMap id node s
              else do
                let clear := clearDirtyNode gl ds attrNodeMap fuel
                let (s, attrNodes) ← clearChildren gl ds clear id node.childrenId.toList s
                clearAttrs gl ds clear id attrNodes s
            let s ← settle gl ds s id
            return (s, true)
          else
            .ok (s, false)

/-- The end of `Store`: the root is flushed into the current slice. -/
def flush (gl : Settings) (ds : DataStore) (ts : ThreadStore) : Run ThreadStore := do
  match ts.getTimeSlice ds.currentTimeNumber with
  | (_, none) => .error .assertion
  | (ts, some i) =>
      let tss ← fetch ts.timeSlice i
      let (s, _) ← clearDirtyNode gl ds ts.attrNodeMap (ts.currentTree.size + 1) ⟨ts.currentTree, tss.tree⟩ 1
      return { ts with
        currentTree := s.tree
        timeSlice := ts.timeSlice.set i
          { tss with tree := s.slice, nowValues := ts.nowValues, runningNode := ts.runningNode } }

def store (gl : Settings) (ds : DataStore) (ts : ThreadStore) (batch : List MethodNodeSerializedInfo)
    (now : NowInfo) : Run ThreadStore := do
  let ts ← receive gl ds ts batch now
  flush gl ds ts

end Llprof.Monitor.Store
