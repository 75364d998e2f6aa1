import Llprof.Monitor.OrderedStores
import Llprof.Web.Documents

namespace Llprof.Web.ParentsBeforeChildren

open Faulting Avoiding TreeMaps TreeListing LittleEndian JsonWriter Documents
open Monitor.Nodes Monitor.Answers Monitor.FlushFrame Monitor.Ticks Monitor.Operations Monitor.OperationFrame
  Monitor.OrderedThreads Monitor.AnswerOrder Monitor.OrderedStores

def memberOf (name : Bytes) : Value → Option Value
  | .dict members => members.lookup name
  | _ => none

def intOf : Option Value → Int
  | some (.int n) => n
  | _ => 0

def idOf (node : Value) : Int := intOf (memberOf (ascii "id") node)

def pidOf (node : Value) : Int := intOf (memberOf (ascii "pid") node)

def nodesIn (thread : Value) : List Value :=
  match memberOf (ascii "nodes") thread with
  | some (.list nodes) => nodes
  | _ => []

def threadNodeId : Int := 0

structure NodeStock where
  id : Int
  pid : Int
  cid : Std.TreeSet Int

abbrev Stock := Std.TreeMap Int NodeStock

/-- One turn of the loop over the nodes of a thread. A node that is known is
accumulated, and a new one is entered with its parent. -/
def updateNode (stock : Stock) (node : Value) : Run Stock :=
  match stock[idOf node]? with
  | some _ => .ok stock
  | none =>
      let stock := stock.insert (idOf node) ⟨idOf node, pidOf node, ∅⟩
      if pidOf node ≠ threadNodeId then
        match stock[pidOf node]? with
        | none => .error .nullDeref
        | some parent => .ok (stock.insert (pidOf node) { parent with cid := parent.cid.insert (idOf node) })
      else
        .ok stock

def updateNodes (stock : Stock) (nodes : List Value) : Run Stock := nodes.foldlM updateNode stock

theorem mem_insert {t : Stock} {k j : Int} {v : NodeStock} : j ∈ t.insert k v ↔ j = k ∨ j ∈ t := by
  rw [Std.TreeMap.mem_insert, Std.LawfulEqCmp.compare_eq_iff_eq, eq_comm]

theorem updateNode_total {stock : Stock} {node : Value} (h : pidOf node ≠ threadNodeId → pidOf node ∈ stock) :
    ∃ stock', updateNode stock node = .ok stock' ∧ idOf node ∈ stock' ∧ ∀ k ∈ stock, k ∈ stock' := by
  rw [updateNode]
  split
  next s hs =>
    refine ⟨stock, rfl, ?_, fun _ hk => hk⟩
    rw [Std.TreeMap.mem_iff_isSome_getElem?, hs]
    rfl
  next =>
    dsimp only
    split
    next hp =>
      have hparent : pidOf node ∈ stock.insert (idOf node) ⟨idOf node, pidOf node, ∅⟩ :=
        mem_insert.mpr (Or.inr (h hp))
      rw [Std.TreeMap.mem_iff_isSome_getElem?, Option.isSome_iff_exists] at hparent
      obtain ⟨parent, hparent⟩ := hparent
      rw [hparent]
      refine ⟨_, rfl, mem_insert.mpr (Or.inr (mem_insert.mpr (Or.inl rfl))), fun k hk => ?_⟩
      exact mem_insert.mpr (Or.inr (mem_insert.mpr (Or.inr hk)))
    next => exact ⟨_, rfl, mem_insert.mpr (Or.inl rfl), fun k hk => mem_insert.mpr (Or.inr hk)⟩

theorem updateNodes_total (stock : Stock) {nodes : List Value}
    (h : ParentsFirst idOf pidOf threadNodeId nodes) : ∃ stock', updateNodes stock nodes = .ok stock' := by
  obtain ⟨stock', hrun, -⟩ :=
    foldlM_total (f := updateNode) (fun done s => ∀ node ∈ done, idOf node ∈ s) nodes (by
        intro done node rest s he hdone
        have hparent : pidOf node ≠ threadNodeId → pidOf node ∈ s := by
          intro hp
          obtain ⟨y, hy, hyp⟩ := h done node rest he hp
          rw [← hyp]
          exact hdone y hy
        obtain ⟨s', hrun, hid, hkeep⟩ := updateNode_total hparent
        refine ⟨s', hrun, fun x hx => ?_⟩
        rcases List.mem_append.mp hx with hx | hx
        · exact hkeep _ (hdone x hx)
        · rw [List.mem_singleton.mp hx]
          exact hid)
      (s := stock) fun node hn => absurd hn List.not_mem_nil
  exact ⟨stock', hrun⟩

theorem nodesIn_thread (ds : DataStore) (answer : ThreadAnswer) :
    nodesIn (threadValue ds answer) = (nodesOf answer.tree).map (nodeValue ds) := by
  obtain ⟨id, tree⟩ := answer
  cases tree with
  | current nodes nowValues runningNode => rfl
  | diff nodes last => rfl

theorem nodes_parentsFirst {ds : DataStore} {answer : ThreadAnswer}
    (h : ParentsFirst (fun n => n.id) (fun n : RecordNodeBasic => n.parentId) 0 (nodesOf answer.tree)) :
    ParentsFirst idOf pidOf threadNodeId (nodesIn (threadValue ds answer)) := by
  rw [nodesIn_thread]
  apply ParentsFirst.map
  exact h.relabel unsignedInt

/-- For well-formed batches, and GNIDs that tell those of the parents, every answer
about every thread lists the parents first, and the page finds them. -/
theorem parents_before_children (gl : Settings) (up : NodeID → NodeID) (ops : List Operation)
    (hwf : WellFormed gl ops)
    (htell : gl.singleTreeMode = true → ∀ done rest s, ops = done ++ .integrate :: rest →
      run gl done noStores = .ok s → GnidsTell up s) :
    Avoids lost (fun s => ∀ u ∈ allThreads s, ∀ flag p1 p2, Avoids unplaced (fun r =>
        ParentsFirst idOf pidOf threadNodeId (nodesIn (threadValue u.1 r.2)) ∧
        ∀ stock, ∃ stock', updateNodes stock (nodesIn (threadValue u.1 r.2)) = .ok stock')
      (threadAnswer gl u.1 flag p1 p2 u.2)) (run gl ops noStores) := by
  apply (run_inOrder hwf htell).mono
  intro s hs u hu flag p1 p2
  apply (threadAnswer_parentsFirst (hs.answerable ⟨[], (List.append_nil ops).symm⟩ hu) flag p1 p2).mono
  rintro r ⟨-, hfirst⟩
  have hnodes : ParentsFirst idOf pidOf threadNodeId (nodesIn (threadValue u.1 r.2)) :=
    nodes_parentsFirst hfirst
  exact ⟨hnodes, fun stock => updateNodes_total stock hnodes⟩

def sumOfBytes (s : Bytes) : NodeID := s.foldl (fun h c => 257 * h + c.toNat) 2

def mergedMode : Settings := { leafNodeAccumulate := false, singleTreeMode := true, hashStrHard := sumOfBytes }

def nestedCalls : Reception :=
  .drained [{ fieldName := [], unit := [], flags := [], accumulatedValueFlag := false, staticValueFlag := false }]
    [(7, ascii "f"), (8, ascii "g")] [⟨1, [⟨7, 2, 1, 1, [5]⟩, ⟨8, 3, 2, 1, [4]⟩], ⟨3, [5]⟩⟩]

def twoTargets : List Operation :=
  [.connect 0, .connect 0, .receive 0 nestedCalls, .receive 1 nestedCalls, .integrate]

def gnidOfF : NodeID := sumOfBytes (ascii "1/f")

def tells (up : NodeID → NodeID) (tree : Std.TreeMap NodeID RecordNode) : Bool :=
  tree.toList.all fun it => (tree[it.2.parentId]?).all fun pn => up it.2.gnid = pn.gnid && 2 ≤ it.2.gnid

theorem tells_of_test {up : NodeID → NodeID} {tree : Std.TreeMap NodeID RecordNode}
    (h : tells up tree = true) : Monitor.IntegrationOrder.Tells up tree := by
  intro k n pn hn hpn
  have hk := List.all_eq_true.mp h (k, n) (Std.TreeMap.mem_toList_iff_getElem?_eq_some.mpr hn)
  rw [hpn, Option.all_some, Bool.and_eq_true, decide_eq_true_iff, decide_eq_true_iff] at hk
  exact hk

theorem nestedCalls_descends (id : ThreadID) :
    Descends mergedMode (attrNamed [nestedCalls]) (logOf id [nestedCalls]) := by
  have hlog : logOf id [nestedCalls] = if 1 = id then [⟨7, 2, 1, 1, [5]⟩, ⟨8, 3, 2, 1, [4]⟩] else [] := by
    rw [logOf, List.flatMap_singleton]
    exact batchesOf_singleton id _
  rw [hlog]
  split
  · refine ⟨?_, ?_, fun hon => by cases hon⟩
    · simp [Monitor.ParentOrder.Grows, mergedMode]
    · simp [forall_split_cons]
  · exact ⟨fun r hr => absurd hr List.not_mem_nil, forall_split_nil, fun hon => by cases hon⟩

theorem parents_before_children_merged :
    Avoids lost (fun s => ∀ u ∈ allThreads s, ∀ flag p1 p2, Avoids unplaced (fun r =>
        ParentsFirst idOf pidOf threadNodeId (nodesIn (threadValue u.1 r.2)) ∧
        ∀ stock, ∃ stock', updateNodes stock (nodesIn (threadValue u.1 r.2)) = .ok stock')
      (threadAnswer mergedMode u.1 flag p1 p2 u.2)) (run mergedMode twoTargets noStores) ∧
    ((run mergedMode twoTargets noStores).toOption.any fun s =>
      (allThreads s).map (fun u => u.2.currentTree.size) = [3, 3, 3]) = true := by
  refine ⟨parents_before_children mergedMode (fun g => if g = gnidOfF then 1 else gnidOfF) twoTargets ?_ ?_, by decide +kernel⟩
  · intro rs hrs id
    have hgiven : received twoTargets = [[nestedCalls], [nestedCalls]] := rfl
    rw [hgiven] at hrs
    obtain rfl : rs = [nestedCalls] := by simpa using hrs
    exact nestedCalls_descends id
  · intro _ done rest s he hrun t ht p hp
    have hat : twoTargets[done.length]? = some .integrate := by rw [he]; simp
    have hdone : done = twoTargets.take done.length := by rw [he]; simp
    have hlen : done.length = 4 := by
      generalize done.length = n at hat
      rcases n with _ | _ | _ | _ | _ | n
      · cases hat
      · cases hat
      · cases hat
      · cases hat
      · rfl
      · cases hat
    rw [hlen] at hdone
    have htest : ((run mergedMode (twoTargets.take 4) noStores).toOption.all fun s =>
        s.targets.all fun t => t.threads.all fun p =>
          tells (fun g => if g = gnidOfF then 1 else gnidOfF) p.2.currentTree) =
        true := by decide +kernel
    rw [← hdone, hrun] at htest
    exact tells_of_test (List.all_eq_true.mp (List.all_eq_true.mp htest t ht) p hp)

end Llprof.Web.ParentsBeforeChildren
