import Llprof.Foundations.Faulting
import Llprof.Viewer.Accumulation
import Mathlib.Data.List.Nodup

namespace Llprof.Viewer.MethodList

open Faulting Doubles Accumulation

structure Stock where
  name : String
  id : Nat
  totals : Totals
  opos : Int
  deriving DecidableEq, Repr

/-- The objects of the panel are named by the property of `list` that holds them. -/
abbrev Items := String → Option Stock

/-- The rows of the panel, in `ordered` and `unordered` by the names of their objects. -/
structure ListPanel where
  list : Items
  ordered : List String
  unordered : List String
  numItems : Nat

def ListPanel.empty : ListPanel := ⟨fun _ => none, [], [], 0⟩

def idText : Option Nat → String
  | some id => toString id
  | none => "undefined"

def itemId (threadId : Option Nat) (name : String) : String := "li_" ++ idText threadId ++ "_" ++ name

/-- A property of `undefined`, which throws, although nothing here catches it. -/
def present {α : Type} (x : Option α) : Run α :=
  match x with
  | some a => .ok a
  | none => .error .nullDeref

section Update

variable (metadata : List Metadata) (realTime : Bool)

/-- The object of an update, with its place given up if it had one. -/
def stockFor (p : ListPanel) (key : String) (node : ProfiledNode) : Run (ListPanel × Stock) :=
  match p.list key with
  | none =>
      let nodeStock : Stock := ⟨node.name, node.id, Totals.zero metadata, -2⟩
      .ok ({ p with
        list := Function.update p.list key (some nodeStock)
        unordered := p.unordered ++ [key]
        numItems := p.numItems + 1 }, nodeStock)
  | some nodeStock =>
      if 0 ≤ nodeStock.opos then do
        let placed ← present p.ordered[nodeStock.opos.toNat]?
        let other ← present (p.list placed)
        require (other.id = nodeStock.id) .assertion
        return (p, { nodeStock with opos := -1 })
      else .ok (p, nodeStock)

/-- The panel after the call, and whether the call was left by an exception. -/
def updateItem (p : ListPanel) (thread : Thread) (node : ProfiledNode) : Run (ListPanel × Bool) := do
  let key := itemId thread.id node.name
  let (p, nodeStock) ← stockFor metadata p key node
  let (totals, threw) := accumurate metadata realTime nodeStock.totals node (some thread)
  return ({ p with list := Function.update p.list key (some { nodeStock with totals }) }, threw)

end Update

def all0 (list : Items) (key : String) : Double :=
  ((list key).map (fun s => element s.totals.all 0)).getD .nan

def cmpFunc (list : Items) (a b : String) : Double := -(all0 list a - all0 list b)

def unplaced (list : Items) (key : String) : Bool := (list key).any (fun s => s.opos < 0)

/-- The first loop: the objects without a place leave `ordered`. -/
def takeOut (list : Items) : List String → List String → List String × List String
  | [], unordered => ([], unordered)
  | key :: ordered, unordered =>
      if unplaced list key then
        takeOut list ordered (unordered ++ [key])
      else
        let (ordered, unordered) := takeOut list ordered unordered
        (key :: ordered, unordered)

def setOpos (list : Items) (key : String) (i : Nat) : Items :=
  Function.update list key ((list key).map (fun s => { s with opos := (i : Int) }))

/-- The second loop. What it has passed of `ordered` is `placed`, whose length is `i`. -/
def placeLoop (list : Items) (placed : List String) :
    List String → List String → Items × List String × List String
  | [], unordered => (list, placed, unordered)
  | a :: ordered, [] => placeLoop (setOpos list a placed.length) (placed ++ [a]) ordered []
  | a :: ordered, b :: unordered =>
      if 0 < cmpFunc list a b then
        placeLoop (setOpos list b placed.length) (placed ++ [b]) (a :: ordered) unordered
      else
        placeLoop (setOpos list a placed.length) (placed ++ [a]) ordered (b :: unordered)
termination_by ordered unordered => ordered.length + unordered.length

def appendLoop (list : Items) (ordered : List String) : List String → Items × List String
  | [] => (list, ordered)
  | key :: unordered => appendLoop (setOpos list key ordered.length) (ordered ++ [key]) unordered

def placeAll (list : Items) (placed ordered unordered : List String) : Items × List String :=
  let (list, placed, unordered) := placeLoop list placed ordered unordered
  appendLoop list placed unordered

/-- Where the comparison gives no number, `sort` takes the two for equal. -/
def before (list : Items) (a b : String) : Bool := ¬ 0 < cmpFunc list a b

def mergeOrderd (p : ListPanel) : ListPanel :=
  let (ordered, unordered) := takeOut p.list p.ordered p.unordered
  let unordered := unordered.mergeSort (before p.list)
  let (list, ordered) := placeAll p.list [] ordered unordered
  { p with list, ordered, unordered := [] }

/-- The loops of `tree_reload` and of `update`, with the nodes of all threads in the order in
which they are visited. -/
def updateItems (metadata : List Metadata) (realTime : Bool) :
    List (Thread × ProfiledNode) → ListPanel → Run (ListPanel × Bool)
  | [], p => .ok (p, false)
  | n :: nodes, p => do
      let (p, threw) ← updateItem metadata realTime p n.1 n.2
      if threw then return (p, true) else updateItems metadata realTime nodes p

def updateView (metadata : List Metadata) (realTime : Bool)
    (nodes : List (Thread × ProfiledNode)) (p : ListPanel) : Run (ListPanel × Bool) := do
  let (p, threw) ← updateItems metadata realTime nodes p
  if threw then return (p, true) else return (mergeOrderd p, false)

def treeReload (metadata : List Metadata) (realTime : Bool) (nodes : List (Thread × ProfiledNode)) :
    Run (ListPanel × Bool) :=
  updateView metadata realTime nodes ListPanel.empty

inductive Call
  | updateItem (thread : Thread) (node : ProfiledNode)
  | mergeOrderd
  deriving DecidableEq, Repr

/-- A call, after which the next one comes also if it has thrown. -/
def Call.run (metadata : List Metadata) (realTime : Bool) (p : ListPanel) : Call → Run ListPanel
  | updateItem thread node => do
      let (p, _) ← MethodList.updateItem metadata realTime p thread node
      return p
  | mergeOrderd => .ok (MethodList.mergeOrderd p)

variable {list : Items} {key : String}

/-- The objects of `keys` get the places from `i` on. -/
def numbered (list : Items) (i : Nat) : List String → Items
  | [] => list
  | key :: keys => numbered (setOpos list key i) (i + 1) keys

theorem takeOut_eq (list : Items) (ordered unordered : List String) :
    takeOut list ordered unordered =
      (ordered.filter (fun k => !unplaced list k), unordered ++ ordered.filter (unplaced list)) := by
  induction ordered generalizing unordered with
  | nil => simp [takeOut]
  | cons key ordered ih =>
      rw [takeOut]
      by_cases h : unplaced list key = true <;> simp [h, ih]

theorem setOpos_self (list : Items) (key : String) (i : Nat) :
    setOpos list key i key = (list key).map (fun s => { s with opos := (i : Int) }) := Function.update_self ..

theorem setOpos_ne {k : String} (h : k ≠ key) (i : Nat) : setOpos list key i k = list k :=
  Function.update_of_ne h ..

theorem all0_congr {list list' : Items} {k : String}
    (h : (list' k).map Stock.totals = (list k).map Stock.totals) : all0 list' k = all0 list k := by
  have hall0 (list : Items) : all0 list k =
      (((list k).map Stock.totals).map (fun t => element t.all 0)).getD .nan := by
    rw [all0, Option.map_map]
    rfl
  rw [hall0, hall0, h]

theorem totals_setOpos (list : Items) (key : String) (i : Nat) (k : String) :
    (setOpos list key i k).map Stock.totals = (list k).map Stock.totals := by
  by_cases h : k = key
  · subst h
    rw [setOpos_self, Option.map_map]
    rfl
  · rw [setOpos_ne h]

@[simp] theorem all0_setOpos (list : Items) (key : String) (i : Nat) :
    all0 (setOpos list key i) = all0 list :=
  funext fun k => all0_congr (totals_setOpos list key i k)

@[simp] theorem cmpFunc_setOpos (list : Items) (key : String) (i : Nat) :
    cmpFunc (setOpos list key i) = cmpFunc list := by
  funext a b
  rw [cmpFunc, cmpFunc, all0_setOpos]

@[simp] theorem before_setOpos (list : Items) (key : String) (i : Nat) :
    before (setOpos list key i) = before list := by
  funext a b
  rw [before, before, cmpFunc_setOpos]

theorem placeAll_eq (list : Items) (placed ordered unordered : List String) :
    placeAll list placed ordered unordered =
      (numbered list placed.length (ordered.merge unordered (before list)),
        placed ++ ordered.merge unordered (before list)) := by
  have happend (list : Items) (placed unordered : List String) :
      appendLoop list placed unordered = (numbered list placed.length unordered, placed ++ unordered) := by
    induction unordered generalizing list placed with
    | nil => simp [appendLoop, numbered]
    | cons key unordered ih => simp [appendLoop, numbered, ih]
  induction list, placed, ordered, unordered using placeLoop.induct with
  | case1 list placed unordered =>
      rw [placeAll, placeLoop, List.nil_merge]
      exact happend list placed unordered
  | case2 list placed a ordered ih =>
      rw [placeAll] at ih ⊢
      rw [placeLoop, ih]
      simp [numbered]
  | case3 list placed a ordered b unordered h ih =>
      have hafter : ¬ before list a b = true := by
        rw [before, decide_eq_true_iff]
        exact not_not_intro h
      rw [placeAll] at ih ⊢
      rw [placeLoop, if_pos h, ih, List.cons_merge_cons_neg _ _ _ hafter]
      simp [numbered]
  | case4 list placed a ordered b unordered h ih =>
      have hbefore : before list a b = true := decide_eq_true h
      rw [placeAll] at ih ⊢
      rw [placeLoop, if_neg h, ih, List.cons_merge_cons_pos _ _ _ hbefore]
      simp [numbered]

def mergedOrder (p : ListPanel) : List String :=
  (p.ordered.filter (fun k => !unplaced p.list k)).merge
    ((p.unordered ++ p.ordered.filter (unplaced p.list)).mergeSort (before p.list)) (before p.list)

theorem mergeOrderd_eq (p : ListPanel) :
    mergeOrderd p = { p with list := numbered p.list 0 (mergedOrder p), ordered := mergedOrder p, unordered := [] } := by
  rw [mergeOrderd, takeOut_eq]
  dsimp only
  rw [placeAll_eq]
  rfl

theorem mergedOrder_perm (p : ListPanel) : (mergedOrder p).Perm (p.ordered ++ p.unordered) := by
  have hmerge : (mergedOrder p).Perm (p.ordered.filter (fun k => !unplaced p.list k) ++
      (p.unordered ++ p.ordered.filter (unplaced p.list)).mergeSort (before p.list)) :=
        List.merge_perm_append _
  have hsort := List.mergeSort_perm (p.unordered ++ p.ordered.filter (unplaced p.list)) (before p.list)
  have hsplit : (p.ordered.filter (fun k => !unplaced p.list k) ++ p.ordered.filter (unplaced p.list)).Perm
      p.ordered :=
    List.perm_append_comm.trans (List.filter_append_perm (unplaced p.list) p.ordered)
  refine hmerge.trans ((hsort.append_left _).trans ((List.perm_append_comm.append_left _).trans ?_))
  rw [← List.append_assoc]
  exact hsplit.append_right _

def rank (list : Items) (key : String) : Int :=
  match all0 list key with
  | .finite v => v
  | _ => 0

theorem all0_le_iff {a b : String} (ha : (all0 list a).Within 119) (hb : (all0 list b).Within 119) :
    all0 list b ≤ all0 list a ↔ rank list b ≤ rank list a := by
  obtain ⟨v, hv, -⟩ := ha
  obtain ⟨w, hw, -⟩ := hb
  rw [rank, rank, hv, hw, Double.finite_le]

theorem before_eq {a b : String} (ha : (all0 list a).Within 119) (hb : (all0 list b).Within 119) :
    before list a b = decide (rank list b ≤ rank list a) := by
  rw [before, decide_eq_decide, cmpFunc]
  refine (not_congr (ha.neg_sub_pos hb (by decide) (by decide))).trans ?_
  obtain ⟨v, hv, -⟩ := ha
  obtain ⟨w, hw, -⟩ := hb
  rw [rank, rank, hv, hw, Double.finite_lt, not_lt]

theorem mergedOrder_sorted {p : ListPanel} (hn : ∀ k ∈ p.ordered ++ p.unordered, (all0 p.list k).Within 119)
    (h : (p.ordered.filter (fun k => !unplaced p.list k)).Pairwise fun a b => all0 p.list b ≤ all0 p.list a) :
    (mergedOrder p).Pairwise fun a b => all0 p.list b ≤ all0 p.list a := by
  let byRank (a b : String) : Bool := decide (rank p.list b ≤ rank p.list a)
  have htrans (a b c : String) (hab : byRank a b = true) (hbc : byRank b c = true) : byRank a c = true := by
    simp only [byRank, decide_eq_true_eq] at *
    omega
  have htotal (a b : String) : (byRank a b || byRank b a) = true := by
    simp only [byRank, Bool.or_eq_true, decide_eq_true_eq]
    omega
  have hkept {k : String} (hk : k ∈ p.ordered.filter (fun k => !unplaced p.list k)) :
      (all0 p.list k).Within 119 :=
    hn k (List.mem_append_left _ (List.mem_of_mem_filter hk))
  have hwaiting {k : String} (hk : k ∈ p.unordered ++ p.ordered.filter (unplaced p.list)) :
      (all0 p.list k).Within 119 := by
    refine hn k ((List.mem_append.mp hk).elim (List.mem_append_right _) fun h => ?_)
    exact List.mem_append_left _ (List.mem_of_mem_filter h)
  have hsort : (p.unordered ++ p.ordered.filter (unplaced p.list)).mergeSort (before p.list) =
      (p.unordered ++ p.ordered.filter (unplaced p.list)).mergeSort byRank := by
    have hmap := List.map_mergeSort (f := id) (r := before p.list) (s := byRank)
      fun a ha b hb => before_eq (hwaiting ha) (hwaiting hb)
    rwa [List.map_id, List.map_id] at hmap
  have hmerge : mergedOrder p = (p.ordered.filter (fun k => !unplaced p.list k)).merge
      ((p.unordered ++ p.ordered.filter (unplaced p.list)).mergeSort byRank) byRank := by
    have hmap : ((p.ordered.filter (fun k => !unplaced p.list k)).merge
        ((p.unordered ++ p.ordered.filter (unplaced p.list)).mergeSort byRank) (before p.list)).map id = _ :=
      List.map_merge (s := byRank) fun a ha b hb => before_eq (hkept ha) (hwaiting (List.mem_mergeSort.mp hb))
    rw [List.map_id, List.map_id, List.map_id] at hmap
    rw [mergedOrder, hsort, hmap]
  have hranked : (mergedOrder p).Pairwise fun a b => byRank a b = true := by
    rw [hmerge]
    refine List.pairwise_merge htrans htotal _ _ (h.imp_of_mem fun ha hb hab => ?_)
      (List.pairwise_mergeSort htrans htotal _)
    exact decide_eq_true ((all0_le_iff (hkept ha) (hkept hb)).mp hab)
  have hmem {k : String} (hk : k ∈ mergedOrder p) : (all0 p.list k).Within 119 :=
    hn k ((mergedOrder_perm p).mem_iff.mp hk)
  exact hranked.imp_of_mem fun ha hb hab => (all0_le_iff (hmem ha) (hmem hb)).mpr (of_decide_eq_true hab)

theorem numbered_of_not_mem {keys : List String} (h : key ∉ keys) (i : Nat) :
    numbered list i keys key = list key := by
  induction keys generalizing list i with
  | nil => rfl
  | cons k keys ih =>
      rw [List.mem_cons, not_or] at h
      rw [numbered, ih h.2, setOpos_ne h.1]

theorem numbered_at {keys : List String} (hn : keys.Nodup) {i j : Nat} (h : keys[j]? = some key) :
    numbered list i keys key = (list key).map (fun s => { s with opos := ((i + j : Nat) : Int) }) := by
  induction keys generalizing list i j with
  | nil => cases h
  | cons k keys ih =>
      rw [List.nodup_cons] at hn
      rw [numbered]
      cases j with
      | zero =>
          cases h
          rw [numbered_of_not_mem hn.1, setOpos_self]
          rfl
      | succ j =>
          rw [List.getElem?_cons_succ] at h
          have hne : key ≠ k := by
            rintro rfl
            exact hn.1 (List.mem_of_getElem? h)
          rw [ih hn.2 h, setOpos_ne hne, Nat.add_right_comm, Nat.add_assoc]

theorem totals_numbered (list : Items) (i : Nat) (keys : List String) (k : String) :
    (numbered list i keys k).map Stock.totals = (list k).map Stock.totals := by
  induction keys generalizing list i with
  | nil => rfl
  | cons key keys ih => rw [numbered, ih, totals_setOpos]

@[simp] theorem all0_numbered (list : Items) (i : Nat) (keys : List String) :
    all0 (numbered list i keys) = all0 list :=
  funext fun k => all0_congr (totals_numbered list i keys k)

/-- Every object is in one of the two lists, once, and where it has a place it is there. Their
numbers are as `S` says; if `S` makes them comparable the objects with a place are in order. -/
structure Kept (S : String → Totals → Prop) (p : ListPanel) : Prop where
  known : ∀ key, key ∈ p.ordered ++ p.unordered ↔ ∃ s, p.list key = some s
  once : (p.ordered ++ p.unordered).Nodup
  totals : ∀ key s, p.list key = some s → S key s.totals
  place : ∀ key s, p.list key = some s → 0 ≤ s.opos → p.ordered[s.opos.toNat]? = some key
  sorted : (∀ key t, S key t → Counted t) →
    (p.ordered.filter (fun k => !unplaced p.list k)).Pairwise fun a b => all0 p.list b ≤ all0 p.list a

/-- `ordered` is the whole list, and each object knows its index. -/
structure Merged (p : ListPanel) : Prop where
  items : ∀ key, key ∈ p.ordered ↔ ∃ s, p.list key = some s
  once : p.ordered.Nodup
  place : ∀ (i : Nat) key, p.ordered[i]? = some key → ∃ s, p.list key = some s ∧ s.opos = i
  done : p.unordered = []

def Sorted (p : ListPanel) : Prop := p.ordered.Pairwise fun a b => all0 p.list b ≤ all0 p.list a

variable {metadata : List Metadata} {realTime : Bool} {p p' : ListPanel}
  {thread : Thread} {node : ProfiledNode} {S : String → Totals → Prop}

theorem kept_empty (S : String → Totals → Prop) : Kept S .empty where
  known key := by simp [ListPanel.empty]
  once := List.nodup_nil
  totals key s h := by cases h
  place key s h := by cases h
  sorted _ := List.Pairwise.nil

theorem update_some {list : Items} {key k : String} {nodeStock s : Stock}
    (h : Function.update list key (some nodeStock) k = some s) : k = key ∧ s = nodeStock ∨
    k ≠ key ∧ list k = some s := by
  by_cases hk : k = key
  · subst hk
    rw [Function.update_self] at h
    exact Or.inl ⟨rfl, (Option.some.inj h).symm⟩
  · rw [Function.update_of_ne hk] at h
    exact Or.inr ⟨hk, h⟩

theorem exists_update_some {list : Items} {key k : String} {nodeStock : Stock} :
    (∃ s, Function.update list key (some nodeStock) k = some s) ↔ k = key ∨ ∃ s, list k = some s := by
  by_cases hk : k = key
  · subst hk
    simp
  · rw [Function.update_of_ne hk, or_iff_right hk]

theorem filter_update {list : Items} {key : String} {nodeStock : Stock}
    (hopos : nodeStock.opos < 0) (keys : List String) :
    keys.filter (fun k => !unplaced (Function.update list key (some nodeStock)) k) =
      (keys.filter (fun k => !unplaced list k)).filter (fun k => k ≠ key) := by
  rw [List.filter_filter]
  apply List.filter_congr
  intro k _
  by_cases hk : k = key
  · subst hk
    simp [unplaced, hopos]
  · simp [unplaced, hk]

theorem sorted_update {nodeStock : Stock} (hopos : nodeStock.opos < 0)
    (h : (p.ordered.filter (fun k => !unplaced p.list k)).Pairwise fun a b => all0 p.list b ≤ all0 p.list a) :
    (p.ordered.filter (fun k => !unplaced (Function.update p.list key (some nodeStock)) k)).Pairwise
      fun a b =>
      all0 (Function.update p.list key (some nodeStock)) b ≤
        all0 (Function.update p.list key (some nodeStock)) a := by
  rw [filter_update hopos]
  refine List.Pairwise.imp_of_mem ?_ (h.sublist List.filter_sublist)
  intro a b ha hb hab
  have hne {k : String} (hk : k ∈ (p.ordered.filter (fun k => !unplaced p.list k)).filter (fun k => k ≠ key)) : k ≠ key :=
    of_decide_eq_true (List.mem_filter.mp hk).2
  rw [all0_congr (congrArg _ (Function.update_of_ne (hne ha) ..)),
    all0_congr (congrArg _ (Function.update_of_ne (hne hb) ..))]
  exact hab

theorem Kept.write (h : Kept S p) (nodeStock : Stock) (hopos : nodeStock.opos < 0)
    (ht : S key nodeStock.totals) (hkey : ∃ s, p.list key = some s) :
    Kept S { p with list := Function.update p.list key (some nodeStock) } where
  known k := by
    rw [exists_update_some, h.known]
    exact ⟨Or.inr, fun hk => hk.elim (fun he => he ▸ hkey) id⟩
  once := h.once
  totals k s hs := by
    obtain ⟨rfl, rfl⟩ | ⟨-, hs⟩ := update_some hs
    · exact ht
    · exact h.totals k s hs
  place k s hs h₀ := by
    obtain ⟨-, rfl⟩ | ⟨-, hs⟩ := update_some hs
    · exact absurd h₀ (Int.not_le.mpr hopos)
    · exact h.place k s hs h₀
  sorted hS := sorted_update hopos (h.sorted hS)

theorem Kept.insert (h : Kept S p) {nodeStock : Stock} (hopos : nodeStock.opos < 0)
    (ht : S key nodeStock.totals) (hkey : p.list key = none) :
    Kept S { p with
      list := Function.update p.list key (some nodeStock), unordered := p.unordered ++ [key],
        numItems := p.numItems + 1 } where
  known k := by
    rw [exists_update_some, ← h.known, ← List.append_assoc, List.mem_append, List.mem_singleton, or_comm]
  once := by
    have hnew : key ∉ p.ordered ++ p.unordered := by
      rw [h.known, hkey]
      rintro ⟨s, hs⟩
      cases hs
    rw [← List.append_assoc, List.nodup_append]
    refine ⟨h.once, List.nodup_singleton key, ?_⟩
    rintro k hk _ hmem rfl
    exact hnew (List.mem_singleton.mp hmem ▸ hk)
  totals k s hs := by
    obtain ⟨rfl, rfl⟩ | ⟨-, hs⟩ := update_some hs
    · exact ht
    · exact h.totals k s hs
  place k s hs h₀ := by
    obtain ⟨-, rfl⟩ | ⟨-, hs⟩ := update_some hs
    · exact absurd h₀ (Int.not_le.mpr hopos)
    · exact h.place k s hs h₀
  sorted hS := sorted_update hopos (h.sorted hS)

theorem Kept.mono {S' : String → Totals → Prop} (h : Kept S p) (hS : ∀ key t, S key t → S' key t) :
    Kept S' p where
  known := h.known
  once := h.once
  totals key s hs := hS key s.totals (h.totals key s hs)
  place := h.place
  sorted hS' := h.sorted fun key t ht => hS' key t (hS key t ht)

/-- An object with a place gives it up, and its assertion holds. Its numbers stay, and a new
object has zeros. -/
theorem stockFor_ok (metadata : List Metadata) (h : Kept S p) (key : String)
    (hzero : S key (Totals.zero metadata)) (node : ProfiledNode) :
    ∃ r, stockFor metadata p key node = .ok r ∧ Kept S r.1 ∧ (∃ s, r.1.list key = some s) ∧ r.2.opos < 0 ∧
      (∀ k, k ≠ key → r.1.list k = p.list k) ∧
        r.2.totals = ((p.list key).map Stock.totals).getD (Totals.zero metadata) := by
  rw [stockFor]
  cases hs : p.list key with
  | none =>
      have hnew : (-2 : Int) < 0 := by decide
      exact ⟨_, rfl, h.insert hnew hzero hs, ⟨_, Function.update_self ..⟩, hnew, fun k hk =>
        Function.update_of_ne hk .., rfl⟩
  | some nodeStock =>
      dsimp only
      by_cases h₀ : 0 ≤ nodeStock.opos
      · have hplaced : present p.ordered[nodeStock.opos.toNat]? = .ok key := by
          rw [h.place key nodeStock hs h₀]; rfl
        have hother : present (p.list key) = .ok nodeStock := by rw [hs]; rfl
        rw [if_pos h₀, hplaced, ok_bind, hother, ok_bind, require_of rfl, ok_bind]
        exact ⟨_, rfl, h, ⟨nodeStock, hs⟩, show (-1 : Int) < 0 by decide, fun _ _ => rfl, rfl⟩
      · rw [if_neg h₀]
        exact ⟨_, rfl, h, ⟨nodeStock, hs⟩, Int.not_le.mp h₀, fun _ _ => rfl, rfl⟩

theorem updateItem_ok (metadata : List Metadata) (realTime : Bool) (thread : Thread)
    (node : ProfiledNode) (h : Kept S p) (hzero : S (itemId thread.id node.name) (Totals.zero metadata))
    (hadd : ∀ t, S (itemId thread.id node.name) t →
      S (itemId thread.id node.name) (accumurate metadata realTime t node (some thread)).1) :
    ∃ r, updateItem metadata realTime p thread node = .ok r ∧ Kept S r.1 ∧
      (∀ k, k ≠ itemId thread.id node.name → r.1.list k = p.list k) ∧
      ∃ s t, r.1.list (itemId thread.id node.name) = some s ∧
        t = ((p.list (itemId thread.id node.name)).map Stock.totals).getD (Totals.zero metadata) ∧
        (s.totals, r.2) = accumurate metadata realTime t node (some thread) := by
  obtain ⟨⟨q, nodeStock⟩, hrun, hk, hkey, hopos, hframe, hold⟩ :=
    stockFor_ok metadata h (itemId thread.id node.name) hzero node
  have ht : S (itemId thread.id node.name) nodeStock.totals := by
    rw [hold]
    cases hs : p.list (itemId thread.id node.name) with
    | none => exact hzero
    | some s => exact h.totals _ s hs
  dsimp only at hk hkey hopos hframe hold
  have hwrite :=
    hk.write { nodeStock with totals := (accumurate metadata realTime nodeStock.totals node (some thread)).1 }
      hopos (hadd _ ht) hkey
  refine ⟨_, by rw [updateItem, hrun, ok_bind]; rfl, hwrite, fun k hne => ?_, _, _, Function.update_self .., rfl, ?_⟩
  · exact (Function.update_of_ne hne ..).trans (hframe k hne)
  · rw [← hold]
    rfl

theorem list_mergeOrderd (p : ListPanel) : (mergeOrderd p).list = numbered p.list 0 (mergedOrder p) := by
  rw [mergeOrderd_eq]

theorem ordered_mergeOrderd (p : ListPanel) : (mergeOrderd p).ordered = mergedOrder p := by
  rw [mergeOrderd_eq]

theorem totals_mergeOrderd (p : ListPanel) (key : String) :
    ((mergeOrderd p).list key).map Stock.totals = (p.list key).map Stock.totals := by
  rw [list_mergeOrderd]
  exact totals_numbered _ _ _ _

theorem merged_mergeOrderd (h : Kept S p) : Merged (mergeOrderd p) := by
  have hperm := mergedOrder_perm p
  have hnodup : (mergedOrder p).Nodup := hperm.nodup_iff.mpr h.once
  have hnumbered {i : Nat} {k : String} (hk : (mergedOrder p)[i]? = some k) : (mergeOrderd p).list k =
      (p.list k).map (fun s => { s with opos := ((0 + i : Nat) : Int) }) := by
    rw [list_mergeOrderd]
    exact numbered_at hnodup hk
  refine ⟨fun k => ?_, ?_, fun i k hk => ?_, by rw [mergeOrderd_eq]⟩
  · rw [ordered_mergeOrderd, hperm.mem_iff, h.known]
    by_cases hk : k ∈ mergedOrder p
    · obtain ⟨j, hj⟩ := List.mem_iff_getElem?.mp hk
      rw [hnumbered hj]
      simp
    · rw [list_mergeOrderd, numbered_of_not_mem hk]
  · rw [ordered_mergeOrderd]
    exact hnodup
  · rw [ordered_mergeOrderd] at hk
    obtain ⟨s, hs⟩ := (h.known k).mp (hperm.mem_iff.mp (List.mem_of_getElem? hk))
    rw [hnumbered hk, hs]
    exact ⟨_, rfl, by simp⟩

theorem sorted_mergeOrderd (h : Kept S p) (hS : ∀ key t, S key t → Counted t) : Sorted (mergeOrderd p) := by
  rw [Sorted, ordered_mergeOrderd, list_mergeOrderd, all0_numbered]
  refine mergedOrder_sorted (fun k hk => ?_) (h.sorted hS)
  obtain ⟨s, hs⟩ := (h.known k).mp hk
  rw [all0, hs]
  exact (hS k s.totals (h.totals k s hs)).2

theorem kept_mergeOrderd (h : Kept S p) : Kept S (mergeOrderd p) := by
  have hm := merged_mergeOrderd h
  refine ⟨fun k => ?_, ?_, fun k s hs => ?_, fun k s hs h₀ => ?_, fun hS => ?_⟩
  · rw [hm.done, List.append_nil]
    exact hm.items k
  · rw [hm.done, List.append_nil]
    exact hm.once
  · have ht := totals_mergeOrderd p k
    rw [hs] at ht
    obtain ⟨s', hs', he⟩ := Option.map_eq_some_iff.mp ht.symm
    rw [← he]
    exact h.totals k s' hs'
  · obtain ⟨i, hi⟩ := List.mem_iff_getElem?.mp ((hm.items k).mpr ⟨s, hs⟩)
    obtain ⟨s', hs', hopos⟩ := hm.place i k hi
    rw [hs] at hs'
    cases hs'
    rw [hopos, Int.toNat_natCast]
    exact hi
  · exact (sorted_mergeOrderd h hS).sublist List.filter_sublist

theorem calls_ok (metadata : List Metadata) (realTime : Bool) (calls : List Call) (h : Kept S p)
    (hzero : ∀ key, S key (Totals.zero metadata))
    (hadd : ∀ thread node, .updateItem thread node ∈ calls → ∀ key t, S key t →
      S key (accumurate metadata realTime t node (some thread)).1) :
    ∃ p', calls.foldlM (Call.run metadata realTime) p = .ok p' ∧ Kept S p' := by
  induction calls generalizing p with
  | nil => exact ⟨p, rfl, h⟩
  | cons call calls ih =>
      have hrest := fun thread node hmem => hadd thread node (List.mem_cons_of_mem call hmem)
      cases call with
      | updateItem thread node =>
          obtain ⟨r, hrun, hk, -⟩ :=
            updateItem_ok metadata realTime thread node h (hzero _) (hadd thread node List.mem_cons_self _)
          obtain ⟨p', hp', hk'⟩ := ih hk hrest
          exact ⟨p', by rw [List.foldlM_cons, Call.run, hrun, ok_bind]; exact hp', hk'⟩
      | mergeOrderd =>
          obtain ⟨p', hp', hk'⟩ := ih (kept_mergeOrderd h) hrest
          exact ⟨p', by rw [List.foldlM_cons, Call.run, ok_bind]; exact hp', hk'⟩

theorem updateItems_ok (metadata : List Metadata) (realTime : Bool)
    (nodes : List (Thread × ProfiledNode)) (h : Kept S p)
    (hzero : ∀ n ∈ nodes, S (itemId n.1.id n.2.name) (Totals.zero metadata))
    (hadd : ∀ n ∈ nodes, ∀ t, S (itemId n.1.id n.2.name) t →
      S (itemId n.1.id n.2.name) (accumurate metadata realTime t n.2 (some n.1)).1) :
    ∃ r, updateItems metadata realTime nodes p = .ok r ∧ Kept S r.1 := by
  induction nodes generalizing p with
  | nil => exact ⟨(p, false), rfl, h⟩
  | cons n nodes ih =>
      rw [List.forall_mem_cons] at hzero hadd
      obtain ⟨⟨q, threw⟩, hrun, hk, -⟩ := updateItem_ok metadata realTime n.1 n.2 h hzero.1 hadd.1
      rw [updateItems, hrun, ok_bind]
      cases threw with
      | false => exact ih hk hzero.2 hadd.2
      | true => exact ⟨(q, true), rfl, hk⟩

theorem treeReload_ok (metadata : List Metadata) (realTime : Bool) (nodes : List (Thread × ProfiledNode))
    (hzero : ∀ n ∈ nodes, S (itemId n.1.id n.2.name) (Totals.zero metadata))
    (hadd : ∀ n ∈ nodes, ∀ t, S (itemId n.1.id n.2.name) t →
      S (itemId n.1.id n.2.name) (accumurate metadata realTime t n.2 (some n.1)).1) :
    ∃ r, treeReload metadata realTime nodes = .ok r ∧ Kept S r.1 := by
  obtain ⟨⟨q, threw⟩, hrun, hk⟩ := updateItems_ok metadata realTime nodes (kept_empty S) hzero hadd
  rw [treeReload, updateView, hrun, ok_bind]
  cases threw with
  | false => exact ⟨(mergeOrderd q, false), rfl, kept_mergeOrderd hk⟩
  | true => exact ⟨(q, true), rfl, hk⟩

/-- After a reload the assertion never fires, and every merge leaves the whole list, numbered.
It is sorted if all updates had numbers to compare. -/
theorem method_list_sorted (metadata : List Metadata) (hmetadata : metadata ≠ []) (realTime : Bool)
    (nodes : List (Thread × ProfiledNode)) (calls : List Call) :
    ∃ r p', treeReload metadata realTime nodes = .ok r ∧
      calls.foldlM (Call.run metadata realTime) r.1 = .ok p' ∧
      ∀ done rest, calls = done ++ .mergeOrderd :: rest →
        ∃ q, (done ++ [.mergeOrderd]).foldlM (Call.run metadata realTime) r.1 = .ok q ∧ Merged q ∧
          ((∀ n ∈ nodes, Timed n.1 n.2) →
            (∀ thread node, .updateItem thread node ∈ done → Timed thread node) → Sorted q) := by
  obtain ⟨r, hr, hk⟩ :=
    treeReload_ok (S := fun _ _ => True) metadata realTime nodes (fun _ _ => trivial) fun _ _ _ _ => trivial
  obtain ⟨p', hp', -⟩ := calls_ok metadata realTime calls hk (fun _ => trivial) fun _ _ _ _ _ _ => trivial
  refine ⟨r, p', hr, hp', fun done rest _ => ?_⟩
  obtain ⟨q, hq, hkept⟩ := calls_ok metadata realTime done hk (fun _ => trivial) fun _ _ _ _ _ _ => trivial
  refine ⟨mergeOrderd q, foldlM_append_ok.mpr ⟨q, hq, rfl⟩, merged_mergeOrderd hkept, fun hnodes hdone => ?_⟩
  obtain ⟨r', hr', hk'⟩ :=
    treeReload_ok (S := fun _ t => Counted t) metadata realTime nodes (fun _ _ => counted_zero hmetadata)
      fun n hn t h => accumurate_counted (hnodes n hn) h
  rw [hr, Except.ok.injEq] at hr'
  subst hr'
  obtain ⟨q', hq', hkept'⟩ := calls_ok metadata realTime done hk' (fun _ => counted_zero hmetadata)
    fun thread node hmem _ t h => accumurate_counted (hdone thread node hmem) h
  rw [hq, Except.ok.injEq] at hq'
  subst hq'
  exact sorted_mergeOrderd hkept' fun _ _ h => h

def timed : Thread := ⟨some 0, some [0, .finite 9], some [0, .finite 1]⟩

def twoMethods : List Call :=
  [.updateItem timed ⟨1, 0, "main", [.finite 5, .finite 3], [.finite 2, 0], true⟩,
    .updateItem timed ⟨2, 1, "work", [.finite 2, 0], [0, 0], false⟩,
    .updateItem timed ⟨3, 1, "work", [.finite 4, 0], [0, 0], false⟩]

theorem method_list_sorted_two :
    ∃ r, treeReload [⟨"A"⟩, ⟨""⟩] false
        [(timed, ⟨1, 0, "main", [.finite 4, .finite 3], [.finite 2, 0], true⟩)] = .ok r ∧
      ∃ p, (twoMethods ++ [Call.mergeOrderd]).foldlM (Call.run [⟨"A"⟩, ⟨""⟩] false) r.1 = .ok p ∧
        Merged p ∧ Sorted p := by
  obtain ⟨r, -, hr, -, h⟩ := method_list_sorted [⟨"A"⟩, ⟨""⟩] (by decide) false
    [(timed, ⟨1, 0, "main", [.finite 4, .finite 3], [.finite 2, 0], true⟩)] (twoMethods ++ [Call.mergeOrderd])
  obtain ⟨p, hp, hmerged, hsorted⟩ := h twoMethods [] rfl
  have htimed (node : ProfiledNode) (hall : ∀ v ∈ node.all, v.Within 63) (hlen : node.all.length = 2) :
      Timed timed node := by
    refine ⟨hall, ?_, ?_, fun _ _ => ⟨hlen.ge, ?_⟩⟩
    · rintro now ⟨⟩
      simp
    · rintro start ⟨⟩
      simp
    · rintro now ⟨⟩
      exact Or.inr (by decide)
  refine ⟨r, hr, p, hp, hmerged, hsorted ?_ ?_⟩
  · simpa using htimed _ (by simp) rfl
  · intro thread node hmem
    simp only [twoMethods, List.mem_cons, Call.updateItem.injEq, List.not_mem_nil, or_false] at hmem
    rcases hmem with ⟨rfl, rfl⟩ | ⟨rfl, rfl⟩ | ⟨rfl, rfl⟩ <;> exact htimed _ (by simp) rfl

theorem mergeOrderd_of_pairwise {ordered unordered keys : List String}
    (hordered : p.ordered.filter (fun k => !unplaced p.list k) = ordered)
    (hunordered : p.unordered ++ p.ordered.filter (unplaced p.list) = unordered)
    (hbefore : unordered.Pairwise fun a b => before p.list a b = true)
    (hmerge : ordered.merge unordered (before p.list) = keys) :
    mergeOrderd p = { p with list := numbered p.list 0 keys, ordered := keys, unordered := [] } := by
  rw [mergeOrderd_eq, mergedOrder, hordered, hunordered, List.mergeSort_of_pairwise hbefore, hmerge]

theorem mergeOrderd_empty : mergeOrderd .empty = .empty := by
  have hmerge : ([] : List String).merge [] (before ListPanel.empty.list) = [] := List.nil_merge _
  exact mergeOrderd_of_pairwise (p := .empty) rfl rfl List.Pairwise.nil hmerge

theorem updateItem_new {totals : Totals} (hkey : itemId thread.id node.name = key) (hp : p.list key = none)
    (ht : accumurate metadata realTime (Totals.zero metadata) node (some thread) = (totals, false)) :
    updateItem metadata realTime p thread node =
      .ok (⟨Function.update p.list key (some ⟨node.name, node.id, totals, -2⟩),
      p.ordered, p.unordered ++ [key], p.numItems + 1⟩, false) := by
  rw [updateItem, hkey, stockFor, hp, ok_bind]
  dsimp only
  rw [ht, Function.update_idem]
  rfl

theorem treeReload_new {totals : Totals} (hkey : itemId thread.id node.name = key)
    (ht : accumurate metadata realTime (Totals.zero metadata) node (some thread) = (totals, false)) :
    treeReload metadata realTime [(thread, node)] =
      .ok (⟨Function.update (fun _ => none) key (some ⟨node.name, node.id, totals, 0⟩), [key], [], 1⟩,
        false) := by
  let waiting : ListPanel :=
    ⟨Function.update (fun _ => none) key (some ⟨node.name, node.id, totals, -2⟩), [], [key], 1⟩
  have hitem : updateItem metadata realTime .empty thread node = .ok (waiting, false) :=
    updateItem_new hkey rfl ht
  have hmerge : mergeOrderd waiting =
      ⟨Function.update (fun _ => none) key (some ⟨node.name, node.id, totals, 0⟩), [key], [], 1⟩ := by
    have h : mergeOrderd waiting = { waiting with list := numbered waiting.list 0 [key], ordered := [key], unordered := [] } :=
      mergeOrderd_of_pairwise rfl rfl (List.pairwise_singleton _ _) (List.nil_merge _)
    have hwaiting : waiting.list key = some ⟨node.name, node.id, totals, -2⟩ := by
      dsimp only [waiting]
      rw [Function.update_self]
    rw [h, numbered, numbered, setOpos, hwaiting, Function.update_idem]
    rfl
  rw [treeReload, updateView, updateItems, hitem, ok_bind]
  dsimp only
  rw [if_neg Bool.false_ne_true, updateItems, ok_bind]
  dsimp only
  rw [if_neg Bool.false_ne_true, hmerge]
  rfl

def timeOnly : Thread := ⟨some 0, some [.finite 7], none⟩

def workNode : ProfiledNode := ⟨1, 0, "work", [.finite 9], [0], false⟩
def mainNode : ProfiledNode := ⟨2, 0, "main", [.finite 5], [0], true⟩
def initNode : ProfiledNode := ⟨3, 0, "init", [.finite 20], [0], false⟩

/-- The panel after a reload with `workNode`, and after updates with the two others. -/
def workPanel : ListPanel :=
  ⟨Function.update (fun _ => none) "li_0_work" (some ⟨"work", 1, ⟨[.finite 9], [0]⟩, 0⟩), ["li_0_work"], [],
    1⟩
def mainPanel : ListPanel :=
  ⟨Function.update workPanel.list "li_0_main" (some ⟨"main", 2, ⟨[.nan], [0]⟩, -2⟩),
    ["li_0_work"], ["li_0_main"], 2⟩
def initPanel : ListPanel :=
  ⟨Function.update mainPanel.list "li_0_init" (some ⟨"init", 3, ⟨[.finite 20], [0]⟩, -2⟩), ["li_0_work"],
    ["li_0_main", "li_0_init"], 3⟩

/-- The time of a running node is no number if the metadata have one record. The next merge leaves
the greatest number last. -/
theorem method_list_unsorted :
    treeReload [⟨""⟩] false [(timeOnly, workNode)] = .ok (workPanel, false) ∧
      ∃ p, [Call.updateItem timeOnly mainNode, .updateItem timeOnly initNode, .mergeOrderd].foldlM
          (Call.run [⟨""⟩] false) workPanel = .ok p ∧
        p.ordered.map (all0 p.list) = [.finite 9, .nan, .finite 20] ∧ ¬ Sorted p := by
  have hmain : updateItem [⟨""⟩] false workPanel timeOnly mainNode = .ok (mainPanel, false) :=
    updateItem_new (by decide +kernel) (by decide +kernel) (by decide +kernel)
  have hinit : updateItem [⟨""⟩] false mainPanel timeOnly initNode = .ok (initPanel, false) :=
    updateItem_new (by decide +kernel) (by decide +kernel) (by decide +kernel)
  have hkeep : before initPanel.list "li_0_work" "li_0_main" = true := by decide +kernel
  have hmerge : mergeOrderd initPanel = { initPanel with
      list := numbered initPanel.list 0 ["li_0_work", "li_0_main", "li_0_init"]
      ordered := ["li_0_work", "li_0_main", "li_0_init"], unordered := [] } := by
    refine mergeOrderd_of_pairwise (show _ = ["li_0_work"] by decide +kernel)
      (show _ = ["li_0_main", "li_0_init"] by decide +kernel) (by decide +kernel) ?_
    rw [List.cons_merge_cons_pos _ _ _ hkeep, List.nil_merge]
  refine ⟨treeReload_new (by decide +kernel) (by decide +kernel), mergeOrderd initPanel, ?_, ?_⟩
  · rw [List.foldlM_cons, Call.run, hmain, ok_bind]
    dsimp only
    rw [pure_eq_ok, ok_bind, List.foldlM_cons, Call.run, hinit, ok_bind]
    rfl
  · rw [Sorted, hmerge, all0_numbered]
    exact ⟨by decide +kernel, by decide +kernel⟩

end Llprof.Viewer.MethodList
