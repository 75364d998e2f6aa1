import Llprof.Monitor.Answers
import Llprof.Monitor.Ticks

namespace Llprof.Monitor.Operations

open Faulting hiding store
open LittleEndian Nodes Store MergeSlices Answers Ticks

def printValues (ds : DataStore) (values : Nat → Run (List ProfileValue)) (out : Bytes) : Run Bytes :=
  forRange ds.numRecords (fun out i => do
    let row ← values i
    return out ++ ascii s!"({i})" ++ ascii (":".intercalate (row.map toString))) out

def heading (ds : DataStore) (node : RecordNodeBasic) : Bytes :=
  ascii s!" p:{node.parentId} " ++ ds.getNameFromID node.nodeName ++ ascii s!"[{node.nodeName}] "

/-- `RecordNodeBasic::PrintToStream`. -/
def printBasic (ds : DataStore) (node : RecordNodeBasic) : Run Bytes := do
  let out ← printValues ds (fun i => do
    let all ← fetch node.allValues i
    let children ← fetch node.childrenValues i
    return [all, children]) (ascii s!"B ID:{node.id}" ++ heading ds node)
  return if node.running then out ++ ascii "[Run]" else out

/-- `RecordNode::PrintToStream`. -/
def printNode (ds : DataStore) (node : RecordNode) : Run Bytes := do
  let out ← printValues ds (fun i => do
    let all ← fetch node.allValues i
    let children ← fetch node.childrenValues i
    let temp ← fetch node.tempValues i
    return [all, children, temp]) (ascii s!"R ID:{node.id} GNID:{node.gnid}" ++
      heading ds node.toRecordNodeBasic)
  let out := if node.running then out ++ ascii "[Run]" else out
  return if node.dirty then out ++ ascii "[Dirty]" else out

def printSlice (ds : DataStore) (out : Bytes) (tss : TimeSliceStore) : Run Bytes := do
  let out ← tss.tree.toList.foldlM (fun out (it : NodeID × RecordNodeBasic) => do
    let node ← printBasic ds it.2
    return out ++ ascii s!"  Node {it.1} " ++ node ++ ascii "\n")
      (out ++ ascii s!"\n<TimeSlice [{tss.timeNumber}]>\n")
  return out

/-- `ThreadStore::DumpText`. -/
def dumpText (ds : DataStore) (out : Bytes) (ts : ThreadStore) : Run Bytes := do
  let out ← ts.currentTree.toList.foldlM (fun out (it : NodeID × RecordNode) => do
    let node ← printNode ds it.2
    return out ++ ascii "  Node:" ++ node ++ ascii "\n") (out ++ ascii "<ThreadStore>\n")
  ts.timeSlice.foldlM (printSlice ds) (out ++ ascii "\n")

/-- One turn of the loop of the check. A node whose values differ is printed. -/
def printDifference (ds : DataStore) (integrated : Std.TreeMap NodeID RecordNodeBasic) (out : Bytes)
    (it : NodeID × RecordNode) : Run Bytes :=
  match integrated[it.1]? with
  | none => .error .endDeref
  | some node =>
      if it.2.toRecordNodeBasic.valuesEquals node then .ok out
      else do
        let current ← printNode ds it.2
        let node ← printBasic ds node
        return out ++ ascii "Error: \n  Current:    " ++ current ++
          ascii "\n  Integrated: " ++ node ++ ascii "\n"

/-- `ThreadStore::CheckAllTimeSlice`, with what it prints. -/
def checkThread (gl : Settings) (ds : DataStore) (ts : ThreadStore) : Run (ThreadStore × Bytes) := do
  let st ← mergeTimeSlice gl ds ts ∅ 0 ds.currentTimeNumber
  let out ← st.ts.currentTree.toList.foldlM (printDifference ds st.integrated)
    (ascii s!"[Slice error check]\n  Integrated size: {st.integrated.size}\n  Current Tree: {st.ts.currentTree.size}\n")
  return (st.ts, out ++ ascii "Check Done.\n")

/-- The data stores, and for each target what its constructor has left in `num_records_`. -/
structure Stores where
  targets : List TargetStore
  unset : List Int
  global : GlobalDataStore

def noStores : Stores := ⟨[], [], newGlobalDataStore⟩

/-- `GetNumProfileValues` of a target, which the exchange of metadata sets. -/
def numProfileValues (t : TargetStore × Int) : Int := if t.1.firstReceived then t.1.ds.numRecords else t.2

def firstDescribed (s : Stores) : Option (TargetStore × Int) :=
  (s.targets.zip s.unset).find? (fun t => numProfileValues t ≠ 0)

/-- The first loop of `GlobalDataStore::Integrate`. The vectors of the new thread
cannot be made as long as a negative number says. -/
def describe (gl : Settings) (s : Stores) : Run GlobalDataStore :=
  if s.global.ds.numRecords = 0 then
    match firstDescribed s with
    | none => .ok s.global
    | some t =>
        match numProfileValues t with
        | .negSucc _ => .error .lengthError
        | .ofNat n =>
            let ds := { s.global.ds with numRecords := n, recordMetadata := t.1.ds.recordMetadata }
            .ok ⟨ds, some ⟨newThreadStore gl ds 0, 1, ∅⟩⟩
  else
    .ok s.global

/-- `GlobalDataStore::Integrate`, of any data stores. -/
def integrateStores (gl : Settings) (s : Stores) : Run Stores := do
  let global ← describe gl s
  if global.ds.numRecords = 0 then
    return { s with global }
  else
    match global.thread with
    | none => .error .nullDeref
    | some g => do
        let (global, targets) ←
          integrateAll gl { global.ds with currentTimeNumber := global.ds.currentTimeNumber + 1 } g s.targets
        return { s with targets, global }

def receiveAt (gl : Settings) (s : Stores) (i : Nat) (r : Reception) : Run Stores :=
  match s.targets[i]? with
  | none => .ok s
  | some t => do
      let t ← receiveLoop gl t r
      return { s with targets := s.targets.set i t }

/-- A request goes through the threads of the data store that it names; 0 is the global one. -/
def onThreads (s : Stores) (id : Nat) (f : DataStore → ThreadStore → Run ThreadStore) : Run Stores :=
  match id with
  | 0 =>
      match s.global.thread with
      | none => .ok s
      | some g => do
          let ts ← f s.global.ds g.ts
          return { s with global := { s.global with thread := some { g with ts } } }
  | i + 1 =>
      match s.targets[i]? with
      | none => .ok s
      | some t => do
          let (_, threads) ← sweep (fun u (p : ThreadID × ThreadStore) => do
            let ts ← f t.ds p.2
            return (u, (p.1, ts))) t.threads ()
          return { s with targets := s.targets.set i { t with threads } }

def dumpStores (s : Stores) : Run Bytes := do
  let out ← match s.global.thread with
    | none => pure []
    | some g => dumpText s.global.ds [] g.ts
  s.targets.foldlM (fun out t => t.threads.foldlM (fun out (p : ThreadID × ThreadStore) => dumpText t.ds out p.2) out) out

inductive Operation
  | connect (unset : Int)
  | receive (i : Nat) (r : Reception)
  | integrate
  | tree (id : Nat) (flag : DumpFlag) (p1 p2 : Int)
  | check (id : Nat)
  | dump

def step (gl : Settings) (s : Stores) : Operation → Run Stores
  | .connect unset => .ok { s with targets := s.targets ++ [newDataStore], unset := s.unset ++ [unset] }
  | .receive i r => receiveAt gl s i r
  | .integrate => if gl.singleTreeMode then integrateStores gl s else .ok s
  | .tree id flag p1 p2 => onThreads s id (fun ds ts => do
      let (ts, _) ← threadAnswer gl ds flag p1 p2 ts
      return ts)
  | .check id => onThreads s id (fun ds ts => do
      let (ts, _) ← checkThread gl ds ts
      return ts)
  | .dump => do
      let _ ← dumpStores s
      return s

def run (gl : Settings) (ops : List Operation) (s : Stores) : Run Stores := ops.foldlM (step gl) s

end Llprof.Monitor.Operations
