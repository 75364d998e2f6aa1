import Llprof.Monitor.MergeSlices

namespace Llprof.Monitor.Answers

open Faulting hiding store
open LittleEndian Nodes MergeSlices

/-- `DF_CURRENT_TREE` and `DF_DIFF_TREE`. -/
inductive DumpFlag
  | currentTree
  | diffTree
  deriving DecidableEq, Repr

structure LastSlice where
  nowValues : List ProfileValue
  startValues : Option (List ProfileValue)
  runningNode : NodeID
  deriving DecidableEq, Repr

inductive ThreadTree
  | current (nodes : List RecordNodeBasic) (nowValues : List ProfileValue) (runningNode : NodeID)
  | diff (nodes : List RecordNodeBasic) (last : Option LastSlice)
  deriving DecidableEq, Repr

structure ThreadAnswer where
  threadId : ThreadID
  tree : ThreadTree
  deriving DecidableEq, Repr

/-- The loop of `GetStartProfileValue`, which ends at the first slice it gets. -/
def startLoop : Nat → ThreadStore → Int → ThreadStore × Option Nat
  | 0, ts, _ => (ts, none)
  | n + 1, ts, t =>
      match ts.getTimeSlice t with
      | (ts, some i) => (ts, some i)
      | (ts, none) => startLoop n ts (t + 1)

def getStartProfileValue (ts : ThreadStore) (start stop : Int) :
    Run (ThreadStore × Option (List ProfileValue)) :=
  match startLoop (stop + 2 - start).toNat ts (start - 1) with
  | (ts, none) => .ok (ts, none)
  | (ts, some i) => do
      let tss ← fetch ts.timeSlice i
      return (ts, some tss.nowValues)

def currentAnswer (ts : ThreadStore) : ThreadAnswer :=
  ⟨ts.threadId, .current (ts.currentTree.values.map RecordNode.toRecordNodeBasic) ts.nowValues ts.runningNode⟩

/-- The last slice is looked at after the start of the range has been looked for. -/
def lastSlice (ts : ThreadStore) (lastTss : Option Nat) (startValues : Option (List ProfileValue)) :
    Run (Option LastSlice) :=
  match lastTss with
  | none => .ok none
  | some i => do
      let tss ← fetch ts.timeSlice i
      return some ⟨tss.nowValues, startValues, tss.runningNode⟩

def diffAnswer (gl : Settings) (ds : DataStore) (ts : ThreadStore) (p1 p2 : Int) :
    Run (ThreadStore × ThreadAnswer) := do
  let p2 := if p2 = 0 then ds.currentTimeNumber else p2
  let st ← mergeTimeSlice gl ds ts ∅ p1 p2
  let (ts, startValues) ← getStartProfileValue st.ts p1 p2
  let last ← lastSlice ts st.lastTss startValues
  return (ts, ⟨ts.threadId, .diff st.integrated.values last⟩)

/-- The data of `ThreadStore::DumpJSON`. -/
def threadAnswer (gl : Settings) (ds : DataStore) (flag : DumpFlag) (p1 p2 : Int) (ts : ThreadStore) :
    Run (ThreadStore × ThreadAnswer) :=
  match flag with
  | .currentTree => .ok (ts, currentAnswer ts)
  | .diffTree => diffAnswer gl ds ts p1 p2

end Llprof.Monitor.Answers
