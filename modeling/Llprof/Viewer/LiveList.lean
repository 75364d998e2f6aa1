import Llprof.Foundations.TreeMaps
import Llprof.Viewer.MethodList
import Mathlib.Algebra.BigOperators.Group.List.Basic
import Mathlib.Algebra.Ring.Int.Defs

namespace Llprof.Viewer.LiveList

open Faulting Doubles TreeMaps Accumulation MethodList

def THREAD_NODE_ID : Nat := 0

inductive Request
  | current
  | diff (start : Int) (stop : Option Int)
  deriving DecidableEq, Repr

/-- A node as the server prints it. -/
structure TreeNode where
  id : Nat
  pid : Nat
  name : String
  all : List Int
  cld : List Int
  deriving DecidableEq, Repr

/-- What the page reads, with doubles for numbers. Nodes of an answer have no `running`, which
is taken for `false`. -/
def TreeNode.parsed (node : TreeNode) : ProfiledNode :=
  ⟨node.id, node.pid, node.name, node.all.map .ofInt, node.cld.map .ofInt, false⟩

structure AnswerThread where
  id : Nat
  nodes : List TreeNode
  nowValues : Option (List Int)
  startValues : Option (List Int)
  runningNode : Nat
  deriving DecidableEq, Repr

structure Answer where
  timenum : Int
  metadata : List Metadata
  threads : List AnswerThread
  deriving DecidableEq, Repr

structure StoredThread where
  nodes : Std.TreeMap Nat ProfiledNode
  nowValues : Option (List Double)
  startValues : Option (List Double)
  runningNode : Option Nat

/-- The globals of the page, with the list as the active panel. -/
structure Page where
  targetCct : Std.TreeMap Nat StoredThread
  clearCct : Bool
  metadata : List Metadata
  realTime : Bool
  selectTime : Int
  selectWidth : Int
  maxTime : Int
  panel : ListPanel

/-- What `update_nav` reads of the navigator. -/
structure Navigator where
  checked : Bool
  pos : Int
  width : Int

def storedNodes (cct : Std.TreeMap Nat StoredThread) : List (Thread × ProfiledNode) :=
  cct.toList.flatMap fun t => t.2.nodes.toList.map fun n => (⟨some t.1, t.2.nowValues, t.2.startValues⟩, n.2)

/-- The flags of the page follow the navigator unless the reload has thrown. -/
def updateNav (nav : Navigator) (v : Page) : Run Page := do
  let (panel, threw) ← treeReload v.metadata v.realTime (storedNodes v.targetCct)
  let v := { v with panel }
  if threw then return v
  else return { v with
    realTime := nav.checked, selectTime := nav.pos, selectWidth := nav.width
    clearCct := if !v.realTime || !nav.checked then true else v.clearCct }

def showTarget (nav : Navigator) (v : Page) : Run Page :=
  updateNav nav { v with clearCct := true, maxTime := 0 }

/-- The request of `update_ui_target_list`. The flag itself is not reset. -/
def sendRequest (v : Page) : Request × Page :=
  if v.realTime then
    if v.clearCct then (.current, { v with targetCct := ∅ })
    else (.diff (v.maxTime + 1) none, v)
  else
    let start := v.selectTime + 1
    (.diff start (some (start + v.selectWidth - 1)), v)

/-- The loop of `set_running_node`, which has an end within as many turns as there are nodes,
or none. -/
def markRunning (flag : Bool) (nodes : Std.TreeMap Nat ProfiledNode) (id : Nat) :
    Nat → Run (Std.TreeMap Nat ProfiledNode)
  | 0 => if nodes.contains id then .error .outOfFuel else .ok nodes
  | fuel + 1 =>
      match nodes[id]? with
      | some node => markRunning flag (nodes.insert id { node with running := flag }) node.pid fuel
      | none => .ok nodes

def setRunningNode (flag : Bool) (runningNode : Option Nat) (nodes : Std.TreeMap Nat ProfiledNode) :
    Run (Std.TreeMap Nat ProfiledNode) :=
  match runningNode with
  | some id => markRunning flag nodes id nodes.size
  | none => .ok nodes

section Update

variable (metadata : List Metadata) (realTime : Bool)

def storeNode (nodes : Std.TreeMap Nat ProfiledNode) (node : ProfiledNode) :
    Run (Std.TreeMap Nat ProfiledNode) :=
  match nodes[node.id]? with
  | none => do
      let nodes := nodes.insert node.id { node with running := false }
      require (node.pid = THREAD_NODE_ID ∨ nodes.contains node.pid) .nullDeref
      return nodes
  | some nodeStock => do
      -- this call has no thread
      let (totals, threw) := accumurate metadata realTime ⟨nodeStock.all, nodeStock.cld⟩ node none
      require (threw = false) .nullDeref
      return nodes.insert node.id { nodeStock with all := totals.all, cld := totals.cld }

/-- Values that were sent replace the old ones. -/
def sentValues (sent : Option (List Int)) (old : Option (List Double)) : Option (List Double) :=
  match sent with
  | some (v :: vs) => some ((v :: vs).map .ofInt)
  | _ => old

def storeThread (cct : Std.TreeMap Nat StoredThread) (thread : AnswerThread) :
    Run (Std.TreeMap Nat StoredThread) := do
  let stored := (cct[thread.id]?).getD ⟨∅, none, none, none⟩
  let nodes ← setRunningNode false stored.runningNode stored.nodes
  let runningNode := if thread.runningNode ≠ 0 then some thread.runningNode else stored.runningNode
  let nodes ← (thread.nodes.map TreeNode.parsed).foldlM (storeNode metadata realTime) nodes
  let nodes ← setRunningNode true runningNode nodes
  return cct.insert thread.id
    ⟨nodes, sentValues thread.nowValues stored.nowValues,
      sentValues thread.startValues stored.startValues, runningNode⟩

/-- `update` of the list panel. The threads of an update have no `id`, and no values. -/
def updatePanel (p : ListPanel) (updated : Std.TreeMap Nat (List ProfiledNode)) : Run ListPanel := do
  let (p, threw) ← updateView metadata realTime ((updated.toList.flatMap Prod.snd).map fun node =>
    (⟨none, none, none⟩, node)) p
  require (threw = false) .nullDeref
  return p

end Update

def updateUiData (v : Page) (data : Answer) : Run Page := do
  let v := if v.realTime then { v with maxTime := data.timenum } else { v with targetCct := ∅ }
  let v := { v with metadata := data.metadata }
  let _ ← present ((data.threads.head?).elim (some []) AnswerThread.nowValues)
  let targetCct ← data.threads.foldlM (storeThread v.metadata v.realTime) v.targetCct
  let v := { v with targetCct }
  if v.realTime then do
    let updated := data.threads.foldl (fun u t => u.insert t.id (t.nodes.map TreeNode.parsed)) ∅
    let panel ← updatePanel v.metadata v.realTime v.panel updated
    return { v with panel }
  else do
    let (panel, threw) ← treeReload v.metadata v.realTime (storedNodes v.targetCct)
    require (threw = false) .nullDeref
    return { v with panel }

/-- A refresh, with what the server would answer to any request. -/
def refresh (v : Page) (server : Request → Answer) : Run Page :=
  let (request, v) := sendRequest v
  updateUiData v (server request)

def valuesOf (name : String) (i : Nat) (nodes : List TreeNode) : List Int :=
  (nodes.filter (fun n => n.name = name)).map (fun n => n.all.getD i 0)

def sumOf (name : String) (i : Nat) (nodes : List TreeNode) : Int := (valuesOf name i nodes).sum

def magnitude (name : String) (i : Nat) (nodes : List TreeNode) : Nat :=
  ((valuesOf name i nodes).map Int.natAbs).sum

def Answer.nodes (a : Answer) : List TreeNode := a.threads.flatMap AnswerThread.nodes

/-- The nodes of the threads that are not the thread `id`. -/
def Answer.otherNodes (a : Answer) (id : Nat) : List TreeNode :=
  (a.threads.filter (fun t => t.id ≠ id)).flatMap AnswerThread.nodes

/-- Updates go to a row without an `id`, and a reload has left one with it if the thread was
stored. Every row of the two shows the value. -/
def Shows (v : Page) (id : Nat) (name : String) (i : Nat) (value : Int) : Prop :=
  (∃ s, v.panel.list (itemId none name) = some s) ∧
    ∀ key ∈ [itemId none name, itemId (some id) name], ∀ s, v.panel.list key = some s →
      element s.totals.all i = .finite value

/-- A tree as the server prints it: the nodes of each thread have their own ids and come
behind their parents, and there is a value for each record. -/
structure WellFormed (metadata : List Metadata) (a : Answer) : Prop where
  metadata_eq : a.metadata = metadata
  distinct : (a.threads.map AnswerThread.id).Nodup
  times : ∀ t ∈ a.threads, ∃ now, t.nowValues = some now
  ids : ∀ t ∈ a.threads, (t.nodes.map TreeNode.id).Nodup
  nonzero : ∀ t ∈ a.threads, ∀ n ∈ t.nodes, n.id ≠ THREAD_NODE_ID
  parents : ∀ t ∈ a.threads, ∀ done n rest, t.nodes = done ++ n :: rest →
    n.pid = THREAD_NODE_ID ∨ ∃ m ∈ done, m.id = n.pid
  sized : ∀ t ∈ a.threads, ∀ n ∈ t.nodes, n.all.length = metadata.length

theorem itemId_inj {name name' : String} : itemId none name = itemId none name' ↔ name = name' :=
  String.append_right_inj _

theorem itemId_ne (id : Nat) (name name' : String) : itemId none name ≠ itemId (some id) name' := by
  intro h
  have hchars := congrArg String.toList h
  simp only [itemId, idText, String.toList_append, List.append_assoc] at hchars
  have htail := List.append_cancel_left hchars
  obtain ⟨c, cs, hc⟩ := List.exists_cons_of_ne_nil (Nat.toDigits_ne_nil (b := 10) (n := id))
  have hdigits : (toString id).toList = c :: cs := by
    rw [← hc]
    exact String.toList_ofList
  have hdigit : c.isDigit = true :=
    Nat.isDigit_of_mem_toDigits (by decide) (by decide) (hc ▸ List.mem_cons_self)
  rw [hdigits] at htail
  have hu : 'u' = c := (List.cons.inj htail).1
  rw [← hu] at hdigit
  exact absurd hdigit (by decide)

section Sums

variable {name : String} {i : Nat} {xs ys : List TreeNode}

theorem valuesOf_append (name : String) (i : Nat) (xs ys : List TreeNode) :
    valuesOf name i (xs ++ ys) = valuesOf name i xs ++ valuesOf name i ys := by
  rw [valuesOf, List.filter_append, List.map_append]
  rfl

theorem sumOf_append (name : String) (i : Nat) (xs ys : List TreeNode) :
    sumOf name i (xs ++ ys) = sumOf name i xs + sumOf name i ys := by
  rw [sumOf, valuesOf_append, List.sum_append]
  rfl

theorem magnitude_append (name : String) (i : Nat) (xs ys : List TreeNode) :
    magnitude name i (xs ++ ys) = magnitude name i xs + magnitude name i ys := by
  rw [magnitude, valuesOf_append, List.map_append, List.sum_append]
  rfl

theorem valuesOf_perm (h : xs.Perm ys) : (valuesOf name i xs).Perm (valuesOf name i ys) := (h.filter _).map _

theorem sumOf_perm (h : xs.Perm ys) : sumOf name i xs = sumOf name i ys := (valuesOf_perm h).sum_eq

theorem magnitude_perm (h : xs.Perm ys) : magnitude name i xs = magnitude name i ys :=
  ((valuesOf_perm h).map _).sum_eq

theorem natAbs_sum_le (vs : List Int) : vs.sum.natAbs ≤ (vs.map Int.natAbs).sum := by
  induction vs with
  | nil => exact Nat.le_refl 0
  | cons v vs ih =>
      rw [List.sum_cons, List.map_cons, List.sum_cons]
      omega

theorem natAbs_sumOf_le (name : String) (i : Nat) (xs : List TreeNode) :
    (sumOf name i xs).natAbs ≤ magnitude name i xs :=
  natAbs_sum_le _

end Sums

section Panel

variable {metadata : List Metadata} {p : ListPanel}

def total (p : ListPanel) (key : String) (i : Nat) : Double :=
  ((p.list key).map (fun s => element s.totals.all i)).getD 0

theorem total_eq {i : Nat} (hi : i < metadata.length) (p : ListPanel) (key : String) :
    total p key i = element (((p.list key).map Stock.totals).getD (Totals.zero metadata)).all i := by
  rw [total]
  cases p.list key with
  | none => exact (Totals.element_zero hi).symm
  | some s => rfl

theorem total_congr {p p' : ListPanel} {key : String}
    (h : (p'.list key).map Stock.totals = (p.list key).map Stock.totals) (i : Nat) :
    total p' key i = total p key i := by
  have htotal (p : ListPanel) : total p key i =
      (((p.list key).map Stock.totals).map fun t => element t.all i).getD 0 := by
    rw [Option.map_map]
    rfl
  rw [htotal, htotal, h]

def RowsSized (metadata : List Metadata) (key : String) (t : Totals) : Prop :=
  (∃ name, key = itemId none name) → t.Sized metadata

theorem rowsSized_iff (metadata : List Metadata) (name : String) (t : Totals) :
    RowsSized metadata (itemId none name) t ↔ t.Sized metadata :=
  ⟨fun h => h ⟨name, rfl⟩, fun h _ => h⟩

/-- Rows that were there stay, as they are if they are not of updates. As long as a sum has 53
bits `total` grows by it in the slots that are not static. -/
structure Grows (metadata : List Metadata) (p : ListPanel) (nodes : List TreeNode) (p' : ListPanel) :
    Prop where
  kept : Kept (RowsSized metadata) p'
  stays : ∀ key, (∃ s, p.list key = some s) → ∃ s, p'.list key = some s
  others : ∀ key, (∀ name, key ≠ itemId none name) →
    (p'.list key).map Stock.totals = (p.list key).map Stock.totals
  appears : ∀ n ∈ nodes, ∃ s, p'.list (itemId none n.name) = some s
  adds : ∀ name i md, metadata[i]? = some md → md.isStatic = false →
    ∀ s, total p (itemId none name) i = .finite s →
    s.natAbs + magnitude name i nodes ≤ 2 ^ 53 →
      total p' (itemId none name) i = .finite (s + sumOf name i nodes)

theorem Grows.refl (h : Kept (RowsSized metadata) p) : Grows metadata p [] p :=
  ⟨h, fun _ hk => hk, fun _ _ => rfl, fun _ hn => absurd hn List.not_mem_nil, fun _ _ _ _ _ s hs _ =>
    hs.trans (by rw [sumOf]; simp [valuesOf])⟩

theorem Grows.trans {p' p'' : ListPanel} {xs ys : List TreeNode} (h : Grows metadata p xs p')
    (h' : Grows metadata p' ys p'') : Grows metadata p (xs ++ ys) p'' where
  kept := h'.kept
  stays key hk := h'.stays key (h.stays key hk)
  others key hk := (h'.others key hk).trans (h.others key hk)
  appears n hn := (List.mem_append.mp hn).elim (fun hx => h'.stays _ (h.appears n hx)) (h'.appears n)
  adds name i md hi hm s hs hle := by
    rw [magnitude_append] at hle
    have hsum := natAbs_sumOf_le name i xs
    have hmid := h.adds name i md hi hm s hs (by omega)
    rw [h'.adds name i md hi hm _ hmid (by omega), sumOf_append, Int.add_assoc]

theorem updateItem_grows (h : Kept (RowsSized metadata) p) {node : TreeNode}
    (hall : node.all.length = metadata.length) :
    ∃ p', updateItem metadata true p ⟨none, none, none⟩ node.parsed = .ok (p', false) ∧
      Grows metadata p [node] p' := by
  have hsizes := rowsSized_iff metadata node.name
  obtain ⟨⟨p', threw⟩, hrun, hk, hframe, s, t, hs, ht, hacc⟩ :=
    updateItem_ok metadata true ⟨none, none, none⟩ node.parsed h ((hsizes _).mpr (Totals.sized_zero metadata))
      fun t ht => (hsizes _).mpr (accumurate_sized ((hsizes t).mp ht))
  change ∀ k, k ≠ itemId none node.name → p'.list k = p.list k at hframe
  change p'.list (itemId none node.name) = some s at hs
  change t = ((p.list (itemId none node.name)).map Stock.totals).getD (Totals.zero metadata) at ht
  have hsized : t.Sized metadata := by
    rw [ht]
    cases hold : p.list (itemId none node.name) with
    | none => exact Totals.sized_zero metadata
    | some s => exact (hsizes _).mp (h.totals _ s hold)
  obtain ⟨u, hu, -, hadds⟩ := accumurate_adds node.parsed (some ⟨none, none, none⟩) hsized
    (by rw [TreeNode.parsed, List.length_map, hall]) rfl
  rw [hu, Prod.mk.injEq] at hacc
  obtain ⟨rfl, rfl⟩ := hacc
  refine ⟨p', hrun, hk, ?_, fun key hkey => ?_, fun n hn => ?_, fun name i md hi hm v hv hle => ?_⟩
  · rintro key ⟨s', hs'⟩
    by_cases hne : key = itemId none node.name
    · exact ⟨s, hne ▸ hs⟩
    · exact ⟨s', (hframe key hne).trans hs'⟩
  · rw [hframe key (hkey node.name)]
  · rw [List.mem_singleton] at hn
    exact ⟨s, hn ▸ hs⟩
  · by_cases hname : node.name = name
    · subst hname
      have hlt : i < metadata.length := (List.getElem?_eq_some_iff.mp hi).1
      have hvalues : valuesOf node.name i [node] = [node.all.getD i 0] := by simp [valuesOf]
      rw [magnitude, hvalues, List.map_singleton, List.sum_singleton] at hle
      rw [total_eq hlt, ← ht] at hv
      have hval : element node.parsed.all i = .finite (node.all.getD i 0) := by
        have hi' : i < node.all.length := hall.symm ▸ hlt
        rw [element, TreeNode.parsed, List.getD_eq_getElem?_getD, List.getElem?_map,
          List.getElem?_eq_getElem hi', Option.map_some, Option.getD_some]
        rw [List.getD_eq_getElem?_getD, List.getElem?_eq_getElem hi', Option.getD_some] at hle ⊢
        exact Double.ofInt_of_le (by omega)
      rw [total, hs, Option.map_some, Option.getD_some, hadds i md hi hm, hv, hval, Double.finite_add,
        Double.ofInt_of_le (by omega), sumOf, hvalues, List.sum_singleton]
    · have hvalues : valuesOf name i [node] = [] := by simp [valuesOf, hname]
      have hne : itemId none name ≠ itemId none node.name := fun he => hname (itemId_inj.mp he).symm
      rw [total_congr (congrArg _ (hframe _ hne)), hv, sumOf, hvalues, List.sum_nil, Int.add_zero]

theorem mergeOrderd_grows (h : Kept (RowsSized metadata) p) : Grows metadata p [] (mergeOrderd p) := by
  refine ⟨kept_mergeOrderd h, fun key ⟨s, hs⟩ => ?_, fun key _ => totals_mergeOrderd p key, fun _ hn =>
    absurd hn List.not_mem_nil, fun name i md hi hm s hs hle => ?_⟩
  · have ht := totals_mergeOrderd p key
    rw [hs] at ht
    obtain ⟨s', hs', -⟩ := Option.map_eq_some_iff.mp ht
    exact ⟨s', hs'⟩
  · rw [total_congr (totals_mergeOrderd p _)]
    exact (Grows.refl h).adds name i md hi hm s hs hle

theorem updateView_grows (nodes : List TreeNode) (h : Kept (RowsSized metadata) p)
    (hnodes : ∀ n ∈ nodes, n.all.length = metadata.length) :
    ∃ p', updateView metadata true (nodes.map fun n => (⟨none, none, none⟩, n.parsed)) p = .ok (p', false) ∧
      Grows metadata p nodes p' := by
  have hitems : ∃ q, updateItems metadata true (nodes.map fun n => (⟨none, none, none⟩, n.parsed)) p =
    .ok (q, false) ∧
      Grows metadata p nodes q := by
    induction nodes generalizing p with
    | nil => exact ⟨p, rfl, Grows.refl h⟩
    | cons n nodes ih =>
        rw [List.forall_mem_cons] at hnodes
        obtain ⟨p₁, hrun, hfirst⟩ := updateItem_grows h hnodes.1
        obtain ⟨q, hq, hrest⟩ := ih hfirst.kept hnodes.2
        refine ⟨q, ?_, hfirst.trans hrest⟩
        rw [List.map_cons, updateItems, hrun, ok_bind]
        exact hq
  obtain ⟨q, hq, hgrows⟩ := hitems
  refine ⟨mergeOrderd q, by rw [updateView, hq, ok_bind]; rfl, ?_⟩
  have hall := hgrows.trans (mergeOrderd_grows hgrows.kept)
  rwa [List.append_nil] at hall

end Panel

section Stored

variable {metadata : List Metadata} {nodes : Std.TreeMap Nat ProfiledNode}

def Ranked (rank : Nat → Nat) (nodes : Std.TreeMap Nat ProfiledNode) : Prop :=
  ∀ id n, nodes[id]? = some n → ∀ m, nodes[n.pid]? = some m → rank n.pid < rank id

theorem markRunning_ok (flag : Bool) {rank : Nat → Nat} (id fuel : Nat) (h : Ranked rank nodes)
    (hfuel : ∀ n, nodes[id]? = some n → rank id < fuel) : ∃ nodes',
    markRunning flag nodes id fuel = .ok nodes' := by
  induction fuel generalizing nodes id with
  | zero =>
      have hnone : ¬ nodes.contains id = true := by
        rw [contains_iff_some]
        rintro ⟨n, hn⟩
        exact Nat.not_lt_zero _ (hfuel n hn)
      exact ⟨nodes, if_neg hnone⟩
  | succ fuel ih =>
      rw [markRunning]
      cases hn : nodes[id]? with
      | none => exact ⟨nodes, rfl⟩
      | some node =>
          have hsame (k : Nat) : ∀ m, (nodes.insert id { node with running := flag })[k]? = some m →
              ∃ m', nodes[k]? = some m' ∧ m'.pid = m.pid := by
            intro m hm
            rw [getElem?_insert] at hm
            split at hm
            next hk =>
              cases hm
              exact ⟨node, hk ▸ hn, rfl⟩
            next => exact ⟨m, hm, rfl⟩
          refine ih node.pid (fun k m hm m' hm' => ?_) fun m hm => ?_
          · obtain ⟨n₁, hn₁, hpid⟩ := hsame k m hm
            obtain ⟨n₂, hn₂, -⟩ := hsame _ m' hm'
            rw [← hpid] at hn₂ ⊢
            exact h k n₁ hn₁ n₂ hn₂
          · obtain ⟨n₁, hn₁, -⟩ := hsame _ m hm
            have := h id node hn n₁ hn₁
            have := hfuel node hn
            omega

structure Stocked (done : List TreeNode) (nodes : Std.TreeMap Nat ProfiledNode) : Prop where
  size : nodes.size = done.length
  keys : ∀ k : Nat, (∃ n, nodes[k]? = some n) ↔ ∃ m ∈ done, m.id = k
  pids : ∀ (k : Nat) n, nodes[k]? = some n → n.pid = THREAD_NODE_ID ∨ ∃ m, nodes[n.pid]? = some m
  ranked : ∃ rank, Ranked rank nodes ∧ ∀ (k : Nat) n, nodes[k]? = some n → rank k < done.length

theorem stocked_nil : Stocked [] ∅ where
  size := rfl
  keys k := by simp
  pids k n h := by simp at h
  ranked := ⟨fun _ => 0, fun k n h => by simp at h, fun k n h => by simp at h⟩

theorem Stocked.fresh {done : List TreeNode} {n : TreeNode} (h : Stocked done nodes)
    (hn : n.id ∉ done.map TreeNode.id) : nodes[n.id]? = none := by
  rw [Option.eq_none_iff_forall_ne_some]
  intro m hm
  obtain ⟨m', hm', he⟩ := (h.keys n.id).mp ⟨m, hm⟩
  exact hn (he ▸ List.mem_map_of_mem hm')

theorem Stocked.not_above {done : List TreeNode} {n : TreeNode} (h : Stocked done nodes)
    (hn : n.id ∉ done.map TreeNode.id) (hid : n.id ≠ THREAD_NODE_ID) {k : Nat} {m : ProfiledNode}
    (hm : nodes[k]? = some m) : m.pid ≠ n.id := by
  rcases h.pids k m hm with hp | ⟨m', hm'⟩
  · rw [hp]
    exact hid.symm
  · rintro he
    rw [he, h.fresh hn] at hm'
    cases hm'

theorem insert_some_iff (id k : Nat) (node : ProfiledNode) :
    (∃ m, (nodes.insert id node)[k]? = some m) ↔ k = id ∨ ∃ m, nodes[k]? = some m := by
  rw [getElem?_insert]
  by_cases hk : k = id
  · rw [if_pos hk]
    exact iff_of_true ⟨_, rfl⟩ (Or.inl hk)
  · rw [if_neg hk, or_iff_right hk]

/-- A new node that is above no other one may get the greatest rank. -/
theorem Ranked.insert {rank : Nat → Nat} (h : Ranked rank nodes) {id top : Nat} {node : ProfiledNode}
    (hpid : node.pid ≠ id) (habove : ∀ (k : Nat) m, nodes[k]? = some m → m.pid ≠ id)
    (htop : ∀ (k : Nat) m, nodes[k]? = some m → rank k < top) :
    Ranked (fun k => if k = id then top else rank k) (nodes.insert id node) := by
  intro k m hm m' hm'
  rw [getElem?_insert] at hm hm'
  dsimp only
  split at hm
  next hk =>
    cases hm
    rw [if_neg hpid] at hm' ⊢
    rw [if_pos hk]
    exact htop _ _ hm'
  next hk =>
    rw [if_neg (habove k m hm)] at hm' ⊢
    rw [if_neg hk]
    exact h k m hm m' hm'

theorem Stocked.insert {done : List TreeNode} {n : TreeNode} (h : Stocked done nodes)
    (hn : n.id ∉ done.map TreeNode.id)
    (hid : n.id ≠ THREAD_NODE_ID) (hpid : n.pid = THREAD_NODE_ID ∨ ∃ m ∈ done, m.id = n.pid) :
    Stocked (done ++ [n]) (nodes.insert n.id n.parsed) := by
  have hself : n.pid ≠ n.id := by
    rcases hpid with hp | ⟨m, hm, hp⟩
    · exact hp ▸ hid.symm
    · exact fun he => hn (List.mem_map.mpr ⟨m, hm, hp.trans he⟩)
  obtain ⟨rank, hranked, hlt⟩ := h.ranked
  refine ⟨?_, fun k => ?_, fun k m hm => ?_, fun k => if k = n.id then done.length else rank k,
    hranked.insert hself (fun _ _ => h.not_above hn hid) hlt, fun k m hm => ?_⟩
  · rw [size_insert_new (h.fresh hn), h.size, List.length_append, List.length_singleton]
  · rw [insert_some_iff, h.keys]
    constructor
    · rintro (rfl | ⟨m, hm, he⟩)
      · exact ⟨n, List.mem_append_right _ List.mem_cons_self, rfl⟩
      · exact ⟨m, List.mem_append_left _ hm, he⟩
    · rintro ⟨m, hm, he⟩
      rcases List.mem_append.mp hm with hm | hm
      · exact Or.inr ⟨m, hm, he⟩
      · exact Or.inl (List.mem_singleton.mp hm ▸ he.symm)
  · rw [insert_some_iff]
    rw [getElem?_insert] at hm
    split at hm
    next =>
      cases hm
      exact hpid.imp id fun hm => Or.inr ((h.keys _).mpr hm)
    next => exact (h.pids k m hm).imp id Or.inr
  · rw [getElem?_insert] at hm
    rw [List.length_append, List.length_singleton]
    dsimp only
    split at hm
    next hk =>
      rw [if_pos hk]
      exact Nat.lt_succ_self _
    next hk =>
      rw [if_neg hk]
      exact Nat.lt_succ_of_lt (hlt k m hm)

theorem storeNodes_ok (metadata : List Metadata) (realTime : Bool) {nodes : List TreeNode}
    (hids : (nodes.map TreeNode.id).Nodup) (hnonzero : ∀ n ∈ nodes, n.id ≠ THREAD_NODE_ID)
    (hparents : ∀ done n rest, nodes = done ++ n :: rest → n.pid = THREAD_NODE_ID ∨
      ∃ m ∈ done, m.id = n.pid) :
    ∃ t, (nodes.map TreeNode.parsed).foldlM (storeNode metadata realTime) (∅ : Std.TreeMap Nat ProfiledNode) =
      .ok t ∧ Stocked nodes t := by
  rw [List.foldlM_map]
  refine foldlM_total (f := fun t n => storeNode metadata realTime t (TreeNode.parsed n)) Stocked nodes
    (fun done n rest t hsplit ht => ?_) stocked_nil
  have hn : n.id ∉ done.map TreeNode.id := by
    rw [hsplit, List.map_append, List.map_cons, List.nodup_append] at hids
    exact fun hm => hids.2.2 _ hm _ List.mem_cons_self rfl
  have hid := hnonzero n (by rw [hsplit]; exact List.mem_append_right _ List.mem_cons_self)
  have hpid := hparents done n rest hsplit
  have hstocked := ht.insert hn hid hpid
  refine ⟨_, ?_, hstocked⟩
  have hnew : t[n.parsed.id]? = none := ht.fresh hn
  have hparent : n.parsed.pid = THREAD_NODE_ID ∨ (t.insert n.id n.parsed).contains n.parsed.pid = true := by
    refine hpid.imp id fun hm => ?_
    rw [contains_iff_some, insert_some_iff]
    exact Or.inr ((ht.keys _).mpr hm)
  rw [storeNode, hnew]
  dsimp only
  exact (congrArg (· >>= _) (require_of hparent _)).trans rfl

theorem setRunningNode_ok (flag : Bool) (runningNode : Option Nat) {done : List TreeNode}
    (h : Stocked done nodes) : ∃ nodes', setRunningNode flag runningNode nodes = .ok nodes' := by
  cases runningNode with
  | none => exact ⟨nodes, rfl⟩
  | some id =>
      obtain ⟨rank, hranked, hlt⟩ := h.ranked
      exact markRunning_ok flag id nodes.size hranked fun n hn => h.size ▸ hlt id n hn

theorem storeThreads_ok (realTime : Bool) {a : Answer} (ha : WellFormed metadata a) :
    ∃ cct, a.threads.foldlM (storeThread metadata realTime) (∅ : Std.TreeMap Nat StoredThread) = .ok cct := by
  obtain ⟨cct, hcct, -⟩ := foldlM_total (f := storeThread metadata realTime)
    (fun done (cct : Std.TreeMap Nat StoredThread) =>
      ∀ k ∉ done.map AnswerThread.id, cct[k]? = none) a.threads
    (by
      intro done t rest cct hsplit hcct
      have ht : t ∈ a.threads := by
        rw [hsplit]
        exact List.mem_append_right _ List.mem_cons_self
      have hnew : cct[t.id]? = none := by
        refine hcct _ fun hmem => ?_
        have hdistinct := ha.distinct
        rw [hsplit, List.map_append, List.map_cons, List.nodup_append] at hdistinct
        exact hdistinct.2.2 _ hmem _ List.mem_cons_self rfl
      obtain ⟨nodes, hnodes, hstocked⟩ :=
        storeNodes_ok metadata realTime (ha.ids t ht) (ha.nonzero t ht) (ha.parents t ht)
      obtain ⟨nodes', hnodes'⟩ :=
        setRunningNode_ok true (if t.runningNode ≠ 0 then some t.runningNode else none) hstocked
      have hrun : storeThread metadata realTime cct t =
        .ok (cct.insert t.id ⟨nodes', sentValues t.nowValues none,
          sentValues t.startValues none, if t.runningNode ≠ 0 then some t.runningNode else none⟩) := by
        rw [storeThread, hnew, Option.getD_none]
        dsimp only
        rw [setRunningNode, ok_bind, hnodes, ok_bind, hnodes', ok_bind, pure_eq_ok]
      refine ⟨_, hrun, fun k hk => ?_⟩
      rw [List.map_append, List.mem_append, not_or] at hk
      rw [getElem?_insert_ne _ (fun he => hk.2 (by rw [he]; exact List.mem_singleton.mpr rfl))]
      exact hcct k hk.1)
    (s := ∅) (by simp)
  exact ⟨cct, hcct⟩

end Stored

section Refresh

variable {metadata : List Metadata} {v : Page}

structure Live (metadata : List Metadata) (v : Page) : Prop where
  realTime : v.realTime = true
  clearCct : v.clearCct = true
  kept : Kept (RowsSized metadata) v.panel

theorem caption_ok {a : Answer} (ha : WellFormed metadata a) :
    ∃ now, present ((a.threads.head?).elim (some []) AnswerThread.nowValues) = .ok now := by
  cases hthreads : a.threads with
  | nil => exact ⟨[], rfl⟩
  | cons t ts =>
      obtain ⟨now, hnow⟩ := ha.times t (by rw [hthreads]; exact List.mem_cons_self)
      exact ⟨now, by rw [List.head?_cons, Option.elim_some, hnow]; rfl⟩

theorem updated_nodes {a : Answer} (ha : WellFormed metadata a) :
    ∃ nodes : List TreeNode, nodes.Perm a.nodes ∧
    (a.threads.foldl (fun u t => u.insert t.id (t.nodes.map TreeNode.parsed))
      (∅ : Std.TreeMap Nat (List ProfiledNode))).toList.flatMap Prod.snd = nodes.map TreeNode.parsed := by
  have hlist :=
    toList_foldl_insert (t := ∅) AnswerThread.id (fun t => t.nodes.map TreeNode.parsed)
      a.threads ha.distinct (by simp)
  have hempty : (∅ : Std.TreeMap Nat (List ProfiledNode)).toList = [] := rfl
  rw [hempty, List.append_nil] at hlist
  have hperm := hlist.flatMap_right Prod.snd
  rw [List.flatMap_map, ← List.map_flatMap] at hperm
  obtain ⟨nodes, hnodes, hp⟩ := (congrFun₂ (List.eq_map_comp_perm TreeNode.parsed) _ _).mpr hperm
  exact ⟨nodes, hp, hnodes⟩

theorem Grows.perm {p p' : ListPanel} {xs ys : List TreeNode} (h : Grows metadata p xs p') (hp : xs.Perm ys) :
    Grows metadata p ys p' where
  kept := h.kept
  stays := h.stays
  others := h.others
  appears n hn := h.appears n (hp.mem_iff.mpr hn)
  adds name i := by
    rw [← magnitude_perm hp, ← sumOf_perm hp]
    exact h.adds name i

theorem refresh_grows (hv : Live metadata v) {server : Request → Answer}
    (ha : WellFormed metadata (server .current)) :
    ∃ v', refresh v server = .ok v' ∧ Live metadata v' ∧
      Grows metadata v.panel (server .current).nodes v'.panel := by
  have hsend : sendRequest v = (.current, { v with targetCct := ∅ }) := by
    rw [sendRequest, if_pos hv.realTime, if_pos hv.clearCct]
  obtain ⟨now, hnow⟩ := caption_ok ha
  obtain ⟨cct, hcct⟩ := storeThreads_ok true ha
  obtain ⟨nodes, hperm, hupdated⟩ := updated_nodes ha
  obtain ⟨panel, hpanel, hgrows⟩ := updateView_grows nodes hv.kept fun n hn => by
    obtain ⟨t, ht, hnt⟩ := List.mem_flatMap.mp (hperm.mem_iff.mp hn)
    exact ha.sized t ht n hnt
  have hrefresh : refresh v server = .ok { v with
      targetCct := cct, metadata, maxTime := (server .current).timenum, panel } := by
    rw [refresh, hsend]
    dsimp only
    rw [updateUiData]
    dsimp only
    rw [hnow, ok_bind, if_pos hv.realTime]
    dsimp only
    rw [hv.realTime, ha.metadata_eq, hcct, ok_bind, if_pos rfl, updatePanel, hupdated, List.map_map]
    exact (congrArg (fun x => (x >>= _) >>= _) hpanel).trans rfl
  exact ⟨_, hrefresh, ⟨hv.realTime, hv.clearCct, hgrows.kept⟩, hgrows.perm hperm⟩

theorem refreshes_grow (hv : Live metadata v) {servers : List (Request → Answer)}
    (hs : ∀ s ∈ servers, WellFormed metadata (s .current)) :
    ∃ v', servers.foldlM refresh v = .ok v' ∧ Live metadata v' ∧
      Grows metadata v.panel (servers.flatMap fun s => (s .current).nodes) v'.panel := by
  induction servers generalizing v with
  | nil => exact ⟨v, rfl, hv, Grows.refl hv.kept⟩
  | cons s servers ih =>
      rw [List.forall_mem_cons] at hs
      obtain ⟨v₁, hrun, hlive, hfirst⟩ := refresh_grows hv hs.1
      obtain ⟨v', hruns, hlive', hrest⟩ := ih hlive hs.2
      exact ⟨v', by rw [List.foldlM_cons, hrun, ok_bind, hruns], hlive', hfirst.trans hrest⟩

theorem showTarget_live {nav : Navigator} {v₀ : Page} (h : showTarget nav v₀ = .ok v)
    (hreal : v.realTime = true) (metadata : List Metadata) : Live metadata v ∧
    ∀ name, v.panel.list (itemId none name) = none := by
  obtain ⟨⟨panel, threw⟩, hpanel, h⟩ := bind_eq_ok.mp h
  obtain ⟨r, hr, hkept⟩ :=
    treeReload_ok (S := fun key _ => ∃ id name, key = itemId (some id) name) v₀.metadata v₀.realTime
      (storedNodes v₀.targetCct)
      (fun n hn => by
        obtain ⟨t, -, ht⟩ := List.mem_flatMap.mp hn
        obtain ⟨m, -, rfl⟩ := List.mem_map.mp ht
        exact ⟨t.1, m.2.name, rfl⟩)
      (fun _ _ _ ht => ht)
  rw [hr, Except.ok.injEq] at hpanel
  subst hpanel
  have hpage : v.panel = panel ∧ v.clearCct = true := by
    cases threw with
    | true =>
        cases h
        exact ⟨rfl, rfl⟩
    | false =>
        cases h
        exact ⟨rfl, ite_self _⟩
  have hnone (name : String) : v.panel.list (itemId none name) = none := by
    rw [Option.eq_none_iff_forall_ne_some]
    intro s hs
    rw [hpage.1] at hs
    obtain ⟨id, name', he⟩ := hkept.totals _ s hs
    exact itemId_ne id name name' he
  refine ⟨⟨hreal, hpage.2, ?_⟩, hnone⟩
  rw [hpage.1]
  refine hkept.mono ?_
  rintro key t ⟨id, name', rfl⟩ ⟨name, he⟩
  exact absurd he.symm (itemId_ne id name name')

theorem nodes_perm {a : Answer} (ha : WellFormed metadata a) {t : AnswerThread} (ht : t ∈ a.threads) :
    a.nodes.Perm (t.nodes ++ a.otherNodes t.id) := by
  have hthreads (threads : List AnswerThread) (hn : (threads.map AnswerThread.id).Nodup) (ht : t ∈ threads) :
      threads.Perm (t :: threads.filter (fun u => u.id ≠ t.id)) := by
    induction threads with
    | nil => cases ht
    | cons u us ih =>
        rw [List.map_cons, List.nodup_cons] at hn
        rcases List.mem_cons.mp ht with rfl | ht
        · have hall : us.filter (fun u => u.id ≠ t.id) = us := by
            rw [List.filter_eq_self]
            intro u hu
            exact decide_eq_true fun he => hn.1 (he ▸ List.mem_map_of_mem hu)
          rw [List.filter_cons_of_neg (by simp), hall]
        · have hne : u.id ≠ t.id := fun he => hn.1 (he ▸ List.mem_map_of_mem ht)
          rw [List.filter_cons_of_pos (by simpa using hne)]
          exact ((ih hn.2 ht).cons u).trans (List.Perm.swap t u _)
  exact (hthreads a.threads ha.distinct ht).flatMap_right AnswerThread.nodes

end Refresh

/-- As long as all values of a name add up to 53 bits, its row shows what all answers had, and
a row that the reload has left stays. -/
theorem shows_iff {nav : Navigator} {v₀ v : Page} (hshow : showTarget nav v₀ = .ok v)
    (hreal : v.realTime = true) (metadata : List Metadata) (servers : List (Request → Answer))
    (hs : ∀ s ∈ servers, WellFormed metadata (s .current)) : ∃ v', servers.foldlM refresh v = .ok v' ∧
      ∀ n ∈ servers.flatMap (fun s => (s .current).nodes), ∀ i md, metadata[i]? = some md →
        md.isStatic = false →
        magnitude n.name i (servers.flatMap fun s => (s .current).nodes) ≤ 2 ^ 53 → ∀ id value,
          (Shows v' id n.name i value ↔ sumOf n.name i (servers.flatMap fun s => (s .current).nodes) = value ∧
            ∀ s, v.panel.list (itemId (some id) n.name) = some s →
              element s.totals.all i = .finite value) := by
  obtain ⟨hlive, hnone⟩ := showTarget_live hshow hreal metadata
  obtain ⟨v', hrun, -, hgrows⟩ := refreshes_grow hlive hs
  refine ⟨v', hrun, fun n hn i md hi hm hle id value => ?_⟩
  obtain ⟨row, hrow⟩ := hgrows.appears n hn
  have hzero : total v.panel (itemId none n.name) i = .finite 0 := by
    rw [total, hnone]
    rfl
  have hshown := hgrows.adds n.name i md hi hm 0 hzero (by rwa [Int.natAbs_zero, Nat.zero_add])
  rw [total, hrow, Option.map_some, Option.getD_some, Int.zero_add] at hshown
  have hold : (v'.panel.list (itemId (some id) n.name)).map Stock.totals =
      (v.panel.list (itemId (some id) n.name)).map Stock.totals :=
    hgrows.others _ fun name he => itemId_ne id name n.name he.symm
  have hkeeps {p p' : ListPanel} {key : String} (h : (p'.list key).map Stock.totals = (p.list key).map Stock.totals)
      (hp : ∀ s, p.list key = some s → element s.totals.all i = .finite value) :
      ∀ s, p'.list key = some s → element s.totals.all i = .finite value := by
    intro s hs
    rw [hs, Option.map_some] at h
    obtain ⟨s', hs', he⟩ := Option.map_eq_some_iff.mp h.symm
    rw [← he]
    exact hp s' hs'
  rw [Shows, List.forall_mem_cons, List.forall_mem_singleton]
  constructor
  · rintro ⟨-, hlast, hleft⟩
    exact ⟨Double.finite.inj (hshown.symm.trans (hlast row hrow)), hkeeps hold.symm hleft⟩
  · rintro ⟨rfl, hleft⟩
    refine ⟨⟨row, hrow⟩, fun s hs => ?_, hkeeps hold hleft⟩
    rw [hrow, Option.some.injEq] at hs
    rw [← hs, hshown]

def startPage : Page := ⟨∅, true, [], true, 0, 0, 0, .empty⟩

def realTimeNav : Navigator := ⟨true, 0, 0⟩

/-- A thread whose only node has run for `ns` nanoseconds. -/
def mainThread (id : Nat) (ns : Int) : AnswerThread := ⟨id, [⟨1, 0, "main", [ns], [0]⟩], some [0, 0], none, 0⟩

def serving (threads : List AnswerThread) : Request → Answer := fun _ => ⟨1, [⟨"A"⟩], threads⟩

theorem wellFormed_serving {threads : List AnswerThread} (hn : (threads.map AnswerThread.id).Nodup)
    (ht : ∀ t ∈ threads, ∃ id ns, t = mainThread id ns) : WellFormed [⟨"A"⟩] (serving threads .current) where
  metadata_eq := rfl
  distinct := hn
  times t h := by
    obtain ⟨id, ns, rfl⟩ := ht t h
    exact ⟨_, rfl⟩
  ids t h := by
    obtain ⟨id, ns, rfl⟩ := ht t h
    exact List.nodup_singleton _
  nonzero t h n hn := by
    obtain ⟨id, ns, rfl⟩ := ht t h
    rw [List.mem_singleton.mp hn]
    exact Nat.one_ne_zero
  parents t h done n rest hsplit := by
    obtain ⟨id, ns, rfl⟩ := ht t h
    have hmem : n ∈ (mainThread id ns).nodes := by
      rw [hsplit]
      exact List.mem_append_right _ List.mem_cons_self
    rw [List.mem_singleton.mp hmem]
    exact Or.inl rfl
  sized t h n hn := by
    obtain ⟨id, ns, rfl⟩ := ht t h
    rw [List.mem_singleton.mp hn]
    rfl

theorem showTarget_startPage : showTarget realTimeNav startPage = .ok startPage := by
  rw [showTarget, updateNav]
  change Except.ok { startPage with panel := mergeOrderd .empty } = _
  rw [mergeOrderd_empty]
  rfl

def stockedPage : Page := { startPage with
  metadata := [⟨"A"⟩]
  targetCct := (∅ : Std.TreeMap Nat StoredThread).insert 0
    ⟨(∅ : Std.TreeMap Nat ProfiledNode).insert 1 ⟨1, 0, "main", [.finite 5], [0], false⟩,
      some [0, 0], none, none⟩ }

theorem showTarget_stockedPage : showTarget realTimeNav stockedPage = .ok { stockedPage with
    panel := ⟨Function.update (fun _ => none) "li_0_main" (some ⟨"main", 1, ⟨[.finite 5], [0]⟩, 0⟩),
      ["li_0_main"], [], 1⟩ } := by
  have hstored : storedNodes stockedPage.targetCct =
    [(⟨some 0, some [0, 0], none⟩, ⟨1, 0, "main", [.finite 5], [0], false⟩)] := rfl
  rw [showTarget, updateNav]
  dsimp only
  rw [hstored, treeReload_new (show _ = "li_0_main" by decide +kernel)
    (show _ = (⟨[.finite 5], [0]⟩, false) by decide +kernel), ok_bind]
  rfl

end Llprof.Viewer.LiveList
