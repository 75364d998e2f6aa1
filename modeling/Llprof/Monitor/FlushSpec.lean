import Llprof.Monitor.TreeShape

namespace Llprof.Monitor.FlushSpec

open Faulting hiding store
open ParentTree TreeMaps Slots Nodes Store SlotLoops TreeShape

abbrev Slice := Std.TreeMap NodeID RecordNodeBasic

def dirtyAt (tree : Tree) (k : NodeID) : Bool := (tree[k]?).any (fun n => n.dirty)

def attrAt (ds : DataStore) (tree : Tree) (k : NodeID) : Bool := (tree[k]?).any (fun n => n.isAttrNode ds)

def tempAt (tree : Tree) (k : NodeID) (i : Nat) : ProfileValue :=
  ((tree[k]?).map (fun n => value n.tempValues i)).getD 0

def nameAt (tree : Tree) (k : NodeID) : NameID := ((tree[k]?).map (fun n => n.nodeName)).getD 0

section Flow

variable (ds : DataStore) (attrNodeMap : AttrNodeMap) (tree : Tree) (f : NodeID → Nat → ProfileValue)

/-- The temporary value that is read of a node when the dirty nodes have been
flushed with the values `f`: the others still hold what an earlier flush left. -/
def current (a : NodeID) (i : Nat) : ProfileValue := if dirtyAt tree a then f a i else tempAt tree a i

def fromChildren (cs : List NodeID) (i : Nat) : ProfileValue :=
  (cs.map (fun c => if !attrAt ds tree c && dirtyAt tree c then f c i else 0)).sum

def fromAttrs (cs : List NodeID) (i : Nat) : ProfileValue :=
  (cs.map (fun c => if dirtyAt tree c then tempAt tree c i else 0)).sum

def fromSiblings (name : NameID) (cs : List NodeID) (i : Nat) : ProfileValue :=
  (cs.map (fun c => if attrAt ds tree c then 0 else
    match attrNodeMap[(c, name)]? with
    | none => 0
    | some a => current tree f a i)).sum

def inflow (k : NodeID) (i : Nat) : ProfileValue :=
  if attrAt ds tree k then
    fromSiblings ds attrNodeMap tree f (nameAt tree k) (childrenAt tree ((parentOf tree k).getD 0)) i
  else
    fromChildren ds tree f (childrenAt tree k) i +
      fromAttrs tree ((childrenAt tree k).filter (fun c => attrAt ds tree c)) i

/-- The values `f` are what the temporary values of the dirty nodes come to. -/
def Settles : Prop :=
  ∀ k i, dirtyAt tree k = true → i < ds.numRecords →
    f k i = tempAt tree k i + carried ds i (inflow ds attrNodeMap tree f k i)

end Flow

/-- A node whose children have brought `F` so far, and its entry in the slice. -/
def partialNode (ds : DataStore) (n : RecordNode) (F : Nat → ProfileValue) : RecordNode :=
  { n with
    childrenValues := refill ds n.childrenValues (fun i => value n.childrenValues i + counted ds i (F i))
    tempValues := slots ds.numRecords (fun i => value n.tempValues i + carried ds i (F i)) }

def partialEntry (ds : DataStore) (k : NodeID) (F : Nat → ProfileValue) : RecordNodeBasic :=
  { emptyBasic with
    id := k
    allValues := slots ds.numRecords (fun _ => 0)
    childrenValues := slots ds.numRecords (fun i => counted ds i (F i)) }

def flushedNode (ds : DataStore) (n : RecordNode) (F : Nat → ProfileValue) : RecordNode :=
  { n with
    allValues := refill ds n.allValues (fun i =>
      if isStatic ds i then value n.tempValues i + carried ds i (F i)
      else value n.allValues i + (value n.tempValues i + carried ds i (F i)))
    childrenValues := refill ds n.childrenValues (fun i => value n.childrenValues i + counted ds i (F i))
    tempValues := slots ds.numRecords (fun i => value n.tempValues i + carried ds i (F i))
    callCount := n.tempCallCount + n.callCount
    dirty := false }

def flushedEntry (ds : DataStore) (k : NodeID) (n : RecordNode) (F : Nat → ProfileValue) : RecordNodeBasic :=
  { emptyBasic with
    id := k
    allValues := slots ds.numRecords (fun i => value n.tempValues i + carried ds i (F i))
    childrenValues := slots ds.numRecords (fun i => counted ds i (F i))
    callCount := n.tempCallCount }

/-- The state of a thread store in which a flush goes through: whatever lies
above a dirty node is dirty, the flush reaches every dirty node since no dirty
attribute node has dirty children, and the slice is new to the dirty nodes. -/
structure Ready (ds : DataStore) (attrNodeMap : AttrNodeMap) (tree : Tree)
    (slice : Slice) (rank : NodeID → Nat) : Prop where
  described : Described ds
  rooted : Rooted tree rank
  sized : ∀ (k : NodeID) (n : RecordNode), tree[k]? = some n →
    Sized ds n.allValues ∧ Sized ds n.childrenValues ∧ n.tempValues.length = ds.numRecords
  upward : ∀ c p, parentOf tree c = some p → dirtyAt tree c = true → p ≠ 0 → dirtyAt tree p = true
  inner : ∀ k, dirtyAt tree k = true → attrAt ds tree k = true →
    k ≠ 1 ∧ ∀ c, parentOf tree c = some k → dirtyAt tree c = false
  attrs : ∀ (p : NodeID) (x : NameID) (a : NodeID), attrNodeMap[(p, x)]? = some a → parentOf tree a = some p
  fresh : ∀ k, dirtyAt tree k = true → slice[k]? = none

variable {ds : DataStore} {attrNodeMap : AttrNodeMap} {tree : Tree} {slice : Slice} {rank : NodeID → Nat}
  {f : NodeID → Nat → ProfileValue} {gl : Settings}

theorem dirtyAt_eq {k : NodeID} {n : RecordNode} (h : tree[k]? = some n) : dirtyAt tree k = n.dirty := by
  simp [dirtyAt, h]

theorem dirtyAt_some {k : NodeID} (h : dirtyAt tree k = true) : ∃ n, tree[k]? = some n ∧ n.dirty = true := by
  simpa [dirtyAt, Option.any_eq_true] using h

theorem attrAt_eq {k : NodeID} {n : RecordNode} (h : tree[k]? = some n) :
    attrAt ds tree k = n.isAttrNode ds := by
  simp [attrAt, h]

theorem attrAt_congr {tree' : Tree} (h : SamePlaces tree tree') (k : NodeID) :
    attrAt ds tree' k = attrAt ds tree k := by
  have hk := congrArg (Option.any (fun p => isAttrName (ds.getNameFromID p.nodeName))) (h k)
  rwa [Option.any_map, Option.any_map] at hk

theorem carried_add (i : Nat) (a b : ProfileValue) :
    carried ds i (a + b) = carried ds i a + carried ds i b := by
  unfold carried
  split <;> simp

theorem counted_add (i : Nat) (a b : ProfileValue) :
    counted ds i (a + b) = counted ds i a + counted ds i b := by
  unfold counted
  split <;> simp

theorem carried_zero (i : Nat) : carried ds i 0 = 0 := by simp [carried]

theorem counted_zero (i : Nat) : counted ds i 0 = 0 := by simp [counted]

theorem partialNode_zero {n : RecordNode} (hc : Sized ds n.childrenValues)
    (ht : n.tempValues.length = ds.numRecords) : partialNode ds n (fun _ => 0) = n := by
  simp only [partialNode, carried_zero, counted_zero, add_zero]
  rw [show (fun i => value n.childrenValues i) = value n.childrenValues from rfl, refill_value hc,
    show (fun i => value n.tempValues i) = value n.tempValues from rfl, slots_value ht]

theorem sliceNode_new {k : NodeID} (h : slice[k]? = none) :
    sliceNode gl ds slice k = partialEntry ds k (fun _ => 0) := by
  simp only [sliceNode, h, partialEntry, counted_zero]
  simp [RecordNodeBasic.setDataStore, emptyBasic, resize_nil]

theorem sliceNode_old {k : NodeID} {e : RecordNodeBasic} (h : slice[k]? = some e) :
    sliceNode gl ds slice k = e := by
  simp only [sliceNode, h]

theorem addTemp_partial (hd : Described ds) {s : Flush} {k src : NodeID} {n m : RecordNode}
    {F v : Nat → ProfileValue} (hc : Sized ds n.childrenValues)
    (hnode : s.tree[k]? = some (partialNode ds n F)) (hentry : s.slice[k]? = some (partialEntry ds k F))
    (hsrc : s.tree[src]? = some m) (hv : m.tempValues = slots ds.numRecords v) :
    s.addTemp gl ds k src = .ok {
      tree := s.tree.insert k (partialNode ds n (fun i => F i + v i))
      slice := s.slice.insert k (partialEntry ds k (fun i => F i + v i)) } := by
  have hadd : addTempToChildren ds (partialEntry ds k F) (partialNode ds n F) m = _ :=
    addTempToChildren_eq hd rfl (sized_refill hc _) rfl hv
  have hentry' : { partialEntry ds k F with
      childrenValues := slots ds.numRecords (fun i => counted ds i (F i) + counted ds i (v i)) } =
      partialEntry ds k (fun i => F i + v i) := by
    simp only [partialEntry, counted_add]
  have hnode' : { partialNode ds n F with
      childrenValues := refill ds (partialNode ds n F).childrenValues
        (fun i => value (partialNode ds n F).childrenValues i + counted ds i (v i))
      tempValues := slots ds.numRecords
        (fun i => value n.tempValues i + carried ds i (F i) + carried ds i (v i)) } =
      partialNode ds n (fun i => F i + v i) := by
    simp only [partialNode, refill_add hc, counted_add, carried_add, add_assoc]
  rw [Flush.addTemp, hnode, hsrc]
  simp only [sliceNode_old hentry, hadd, ok_bind, pure_eq_ok, hentry', hnode']

theorem settle_partial (hd : Described ds) {s : Flush} {k : NodeID} {n : RecordNode} {F : Nat → ProfileValue}
    (ha : Sized ds n.allValues) (hnode : s.tree[k]? = some (partialNode ds n F))
    (hentry : s.slice[k]? = some (partialEntry ds k F)) :
    settle gl ds s k = .ok {
      tree := s.tree.insert k (flushedNode ds n F)
      slice := s.slice.insert k (flushedEntry ds k n F) } := by
  have hall : addAllValues ds (partialEntry ds k F) (partialNode ds n F) = _ := addAllValues_eq hd rfl ha rfl
  rw [settle, hnode]
  simp only [sliceNode_old hentry, hall, ok_bind, pure_eq_ok]
  rfl

end Llprof.Monitor.FlushSpec
