import Llprof.Monitor.FlushOutcome
import Llprof.Monitor.Receive
import Mathlib.Tactic.Ring

namespace Llprof.Monitor.StoreSpec

open Faulting hiding store
open ParentTree TreeMaps Slots Nodes Store SlotLoops TreeShape FlushSpec FlushWalk
  FlushOutcome Marking Receive Slices
open Profiler.CallTree (MethodNodeSerializedInfo)

def recordValue (i : Nat) (r : MethodNodeSerializedInfo) : ProfileValue := value r.profileValue i

/-- What the records of a batch give to a node: its own values in an accumulated
slot, and those of all nodes below it in any other. -/
noncomputable def gain (ds : DataStore) (parent : NodeID → Option NodeID)
    (batch : List MethodNodeSerializedInfo) (k : NodeID) (i : Nat) : ProfileValue :=
  if isAccumulated ds i then sumAt (fun r => r.callNodeId) (recordValue i) batch k
  else sumBelow parent (fun r => r.callNodeId) (recordValue i) batch k

abbrev Links := NodeID → Option (NodeID × NameID)

def Links.parent (link : Links) (k : NodeID) : Option NodeID := (link k).map Prod.fst

def Touched (link : Links) (seed : NodeID → Prop) (k : NodeID) : Prop :=
  (∃ l, link k = some l) ∧ ∃ x, seed x ∧ Below link.parent k x

/-- No touched node whose name begins with `#` is the root or the parent of a
touched node. -/
def Undisturbed (ds : DataStore) (link : Links) (seed : NodeID → Prop) : Prop :=
  ∀ k p x, link k = some (p, x) → Touched link seed k → isAttrName (ds.getNameFromID x) = true →
    k ≠ 1 ∧ ∀ c, link.parent c = some k → ¬ Touched link seed c

def linkIn (gl : Settings) (ds : DataStore) (tree : Tree) (batch : List MethodNodeSerializedInfo) : Links :=
  fun k => (baseAt gl ds tree batch k).map (fun b => (b.parentId, b.nodeName))

variable {gl : Settings} {ds : DataStore} {rank : NodeID → Nat} {tree tree' : Tree} {running : NodeID}
  {batch : List MethodNodeSerializedInfo} {now : NowInfo}

theorem recordAt_later {r : MethodNodeSerializedInfo} {rest : List MethodNodeSerializedInfo} {k : NodeID}
    (hn : r.callNodeId ∉ rest.map (fun r => r.callNodeId))
    (hr : r.callNodeId = k) : recordAt rest k = none := by
  rw [recordAt_none]
  intro q hq he
  exact hn (List.mem_map.mpr ⟨q, hq, he.trans hr.symm⟩)

theorem sumAt_record {M : Type} [AddCommMonoid M] (weight : MethodNodeSerializedInfo → M)
    (hn : (batch.map (fun r => r.callNodeId)).Nodup) (k : NodeID) :
    sumAt (fun r : MethodNodeSerializedInfo => r.callNodeId) weight batch k =
      match recordAt batch k with
      | some r => weight r
      | none => 0 := by
  induction batch with
  | nil => rfl
  | cons r rest ih =>
      rw [List.map_cons, List.nodup_cons] at hn
      rw [← List.singleton_append, sumAt_append, sumAt_singleton, ih hn.2]
      by_cases hr : r.callNodeId = k
      · rw [recordAt_later hn.1 hr]
        simp [recordAt, hr]
      · simp [recordAt, hr]

theorem received_parentOf (h : Received gl ds tree running batch rank tree') :
    parentOf tree' = (linkIn gl ds tree batch).parent := by
  funext k
  rw [Links.parent, linkIn, ← h.base k, Option.map_map, Option.map_map]
  rfl

theorem received_touched (h : Received gl ds tree running batch rank tree') (k : NodeID) :
    Touched (linkIn gl ds tree batch) (Seed tree batch running) k ↔ dirtyAt tree' k = true := by
  rw [h.dirty k, received_parentOf h, Touched, linkIn, ← h.base k]
  refine and_congr_left fun _ => ?_
  rw [← Option.isSome_iff_exists, ← Option.isSome_iff_exists, Option.isSome_map, Option.isSome_map]

noncomputable def settledTemp (ds : DataStore) (tree : Tree)
    (batch : List MethodNodeSerializedInfo) (k : NodeID) (i : Nat) : ProfileValue :=
  if isStatic ds i then tempAt tree k i else gain ds (parentOf tree) batch k i

section Flow

variable (h : Received gl ds tree running batch rank tree') (hn : (batch.map (fun r => r.callNodeId)).Nodup)

include h

theorem not_below_clean {k : NodeID} {n : RecordNode} (hk : tree'[k]? = some n)
    (hd : dirtyAt tree' k = false) : ∀ r ∈ batch, ¬ Below (parentOf tree') k r.callNodeId := by
  intro r hr hb
  have := (h.dirty k).mpr ⟨⟨n, hk⟩, r.callNodeId, Or.inl ⟨r, hr, rfl⟩, hb⟩
  rw [hd] at this
  cases this

theorem gain_clean {k : NodeID} {n : RecordNode} (hk : tree'[k]? = some n)
    (hd : dirtyAt tree' k = false) (i : Nat) : gain ds (parentOf tree') batch k i = 0 := by
  have hnone := not_below_clean h hk hd
  rw [gain]
  split
  · exact sumAt_eq_zero fun r hr he => hnone r hr (he ▸ Below.refl _)
  · exact sumBelow_eq_zero hnone

theorem tempAt_static {k : NodeID} {n : RecordNode} (hk : tree'[k]? = some n) (hd : n.dirty = true) {i : Nat}
    (hi : i < ds.numRecords) : tempAt tree' k i = startTemp gl ds batch n.allValues k i := by
  rw [tempAt_eq hk, (h.temps k n hk hd).1, value_slots _ hi]

include hn

theorem tempAt_own {k : NodeID} {n : RecordNode} (hk : tree'[k]? = some n) (hd : n.dirty = true) {i : Nat}
    (hi : i < ds.numRecords) (hs : isStatic ds i = false) :
    tempAt tree' k i = sumAt (fun r : MethodNodeSerializedInfo => r.callNodeId) (recordValue i) batch k := by
  rw [tempAt_static h hk hd hi, sumAt_record (recordValue i) hn, startTemp]
  cases recordAt batch k with
  | some r => rfl
  | none => simp [hs]

theorem gain_leaf {k : NodeID} {n : RecordNode} (hk : tree'[k]? = some n) (hd : n.dirty = true) {i : Nat}
    (hi : i < ds.numRecords) (hs : isStatic ds i = false)
    (hleaf : ∀ c, parentOf tree' c = some k → dirtyAt tree' c = false) :
    gain ds (parentOf tree') batch k i = tempAt tree' k i := by
  rw [tempAt_own h hn hk hd hi hs, gain]
  split
  · rfl
  · rw [sumBelow_eq h.wf.rooted.ranked (childrenAt_nodup tree' k) (h.wf.rooted.mem_childrenAt hk)]
    have hzero : (childrenAt tree' k).map (sumBelow (parentOf tree')
        (fun r : MethodNodeSerializedInfo => r.callNodeId) (recordValue i) batch) =
        (childrenAt tree' k).map (fun _ => (0 : ProfileValue)) := by
      refine List.map_congr_left fun c hc => ?_
      have hpar := (h.wf.rooted.mem_childrenAt hk c).mp hc
      obtain ⟨m, hm, -⟩ := Rooted.child_exists hpar
      exact sumBelow_eq_zero (not_below_clean h hm (hleaf c hpar))
    rw [hzero]
    simp

theorem inflow_eq (hin : ∀ k, dirtyAt tree' k = true → attrAt ds tree' k = true →
      ∀ c, parentOf tree' c = some k → dirtyAt tree' c = false)
    {k : NodeID} {n : RecordNode} (hk : tree'[k]? = some n) (hd : n.dirty = true) {i : Nat}
    (hi : i < ds.numRecords) (hs : isStatic ds i = false) :
    inflow ds ∅ tree' (settledTemp ds tree' batch) k i =
      ((childrenAt tree' k).map (fun c => gain ds (parentOf tree') batch c i)).sum := by
  have hchild (c : NodeID) (hc : c ∈ childrenAt tree' k) : parentOf tree' c = some k :=
    (h.wf.rooted.mem_childrenAt hk c).mp hc
  rw [inflow]
  split
  next ha =>
    have hzero : (childrenAt tree' k).map (fun c => gain ds (parentOf tree') batch c i) =
        (childrenAt tree' k).map (fun _ => (0 : ProfileValue)) := by
      refine List.map_congr_left fun c hc => ?_
      obtain ⟨m, hm, -⟩ := Rooted.child_exists (hchild c hc)
      exact gain_clean h hm (hin k ((dirtyAt_eq hk).trans hd) ha c (hchild c hc)) i
    rw [hzero, fromSiblings]
    simp
  next ha =>
    suffices hsum : ∀ cs : List NodeID, (∀ c ∈ cs, parentOf tree' c = some k) →
        fromChildren ds tree' (settledTemp ds tree' batch) cs i +
          fromAttrs tree' (cs.filter (fun c => attrAt ds tree' c)) i =
          (cs.map (fun c => gain ds (parentOf tree') batch c i)).sum from hsum _ hchild
    intro cs hcs
    induction cs with
    | nil => rfl
    | cons c cs ih =>
        have ih := ih (fun d hd => hcs d (List.mem_cons_of_mem _ hd))
        have hc := hcs c List.mem_cons_self
        obtain ⟨m, hm, -⟩ := Rooted.child_exists hc
        rw [List.map_cons, List.sum_cons, ← ih]
        cases hdc : dirtyAt tree' c with
        | false =>
            rw [gain_clean h hm hdc]
            cases hac : attrAt ds tree' c <;> simp [fromChildren, fromAttrs, hdc, hac]
        | true =>
            cases hac : attrAt ds tree' c with
            | false =>
                simp [fromChildren, fromAttrs, hdc, hac, settledTemp, hs]
                ring
            | true =>
                rw [gain_leaf h hn hm ((dirtyAt_eq hm).symm.trans hdc) hi hs (hin c hdc hac)]
                simp [fromChildren, fromAttrs, hdc, hac]
                ring

theorem settledTemp_settles (hin : ∀ k, dirtyAt tree' k = true → attrAt ds tree' k = true →
      ∀ c, parentOf tree' c = some k → dirtyAt tree' c = false) :
    Settles ds ∅ tree' (settledTemp ds tree' batch) := by
  intro k i hd hi
  obtain ⟨n, hk, hdn⟩ := dirtyAt_some hd
  rw [settledTemp]
  cases hs : isStatic ds i with
  | true => simp [carried, hs]
  | false =>
      rw [if_neg Bool.false_ne_true, inflow_eq h hn hin hk hdn hi hs]
      cases ha : isAccumulated ds i with
      | true =>
          rw [gain, ha, if_pos rfl, tempAt_own h hn hk hdn hi hs]
          simp [carried, ha]
      | false =>
          rw [gain, ha, if_neg Bool.false_ne_true, tempAt_own h hn hk hdn hi hs, carried, hs, ha,
            sumBelow_eq h.wf.rooted.ranked (childrenAt_nodup tree' k) (h.wf.rooted.mem_childrenAt hk)]
          simp [gain, ha]

end Flow

/-- The new data of a node: the record values replace a static slot, and the gains
are added to the others and, of the children, to the children values. -/
noncomputable def settledBase (gl : Settings) (ds : DataStore)
    (batch : List MethodNodeSerializedInfo) (tree : Tree) (touched : Prop) [Decidable touched]
    (k : NodeID) (b : Base) : Base :=
  { b with
    allValues := refill ds b.allValues (fun i =>
      if isStatic ds i then if touched then startTemp gl ds batch b.allValues k i else value b.allValues i
      else value b.allValues i + gain ds (parentOf tree) batch k i)
    childrenValues := refill ds b.childrenValues (fun i => value b.childrenValues i + counted ds i
      ((childrenAt tree k).map (fun c => gain ds (parentOf tree) batch c i)).sum)
    callCount := startCalls batch k + b.callCount }

noncomputable def settledEntry (gl : Settings) (ds : DataStore)
    (batch : List MethodNodeSerializedInfo) (tree : Tree) (k : NodeID) (b : Base) : RecordNodeBasic :=
  { emptyBasic with
    id := k
    allValues := slots ds.numRecords (fun i =>
      if isStatic ds i then startTemp gl ds batch b.allValues k i else gain ds (parentOf tree) batch k i)
    childrenValues := slots ds.numRecords (fun i => counted ds i
      ((childrenAt tree k).map (fun c => gain ds (parentOf tree) batch c i)).sum)
    callCount := startCalls batch k }

open Classical in
/-- What `Store` makes of a thread store: no node is dirty, every node has gained
what the batch gives to it, and the current slice has an entry for every touched
node with just these gains. -/
structure Stored (gl : Settings) (ds : DataStore) (ts : ThreadStore) (batch : List MethodNodeSerializedInfo)
    (running : NodeID) (rank : NodeID → Nat) (ts' : ThreadStore) : Prop where
  wf : Wf gl ds rank ts'.currentTree
  clean : ∀ k, dirtyAt ts'.currentTree k = false
  parent : parentOf ts'.currentTree = (linkIn gl ds ts.currentTree batch).parent
  nodes : ∀ k : NodeID, (ts'.currentTree[k]?).map baseOf = (baseAt gl ds ts.currentTree batch k).map
    (settledBase gl ds batch ts'.currentTree
      (Touched (linkIn gl ds ts.currentTree batch) (Seed ts.currentTree batch running) k) k)
  slice : ∀ k : NodeID, (sliceAt ts' ds.currentTimeNumber)[k]? =
    if Touched (linkIn gl ds ts.currentTree batch) (Seed ts.currentTree batch running) k then
      (baseAt gl ds ts.currentTree batch k).map (settledEntry gl ds batch ts'.currentTree k)
    else none
  slices : ∀ u, u ≠ ds.currentTimeNumber → sliceAt ts' u = sliceAt ts u
  attrNodeMap : ts'.attrNodeMap = ts.attrNodeMap
  timeSlice : ts'.timeSlice ≠ []
  startTimeNumber : ts'.startTimeNumber = ts.startFor ds.currentTimeNumber

theorem sliceAt_congr {ts ts' : ThreadStore} (hs : ts'.startTimeNumber = ts.startTimeNumber)
    (ht : ts'.timeSlice = ts.timeSlice) (u : Int) : sliceAt ts' u = sliceAt ts u := by
  rw [sliceAt, sliceAt, hs, ht]

theorem baseAt_some (h : Received gl ds tree running batch rank tree') {k : NodeID} {n : RecordNode}
    (hk : tree'[k]? = some n) : baseAt gl ds tree batch k = some (baseOf n) := by
  rw [← h.base k, hk, Option.map_some]

theorem inner_of_undisturbed (h : Received gl ds tree running batch rank tree')
    (hu : Undisturbed ds (linkIn gl ds tree batch) (Seed tree batch running)) (k : NodeID)
    (hd : dirtyAt tree' k = true) (ha : attrAt ds tree' k = true) : k ≠ 1 ∧ ∀ c, parentOf tree' c = some k →
    dirtyAt tree' c = false := by
  obtain ⟨n, hk, -⟩ := dirtyAt_some hd
  rw [attrAt_eq hk] at ha
  obtain ⟨h1, hc⟩ := hu k n.parentId n.nodeName (by rw [linkIn, baseAt_some h hk]; rfl)
    ((received_touched h k).mpr hd) ha
  refine ⟨h1, fun c hpc => ?_⟩
  rw [received_parentOf h] at hpc
  have := hc c hpc
  rwa [received_touched h, Bool.not_eq_true] at this

section Outcome

variable (h : Received gl ds tree running batch rank tree') (hn : (batch.map (fun r => r.callNodeId)).Nodup)
  (hin : ∀ k, dirtyAt tree' k = true → attrAt ds tree' k = true →
    ∀ c, parentOf tree' c = some k → dirtyAt tree' c = false)

include h

open Classical in
theorem clean_base {k : NodeID} {n : RecordNode} (hk : tree'[k]? = some n) (hd : n.dirty = false) :
    baseOf n = settledBase gl ds batch tree' (Touched (linkIn gl ds tree batch) (Seed tree batch running) k) k
      (baseOf n) := by
  have hdk : dirtyAt tree' k = false := (dirtyAt_eq hk).trans hd
  have ht : ¬ Touched (linkIn gl ds tree batch) (Seed tree batch running) k := by
    rw [received_touched h, hdk]; exact Bool.false_ne_true
  obtain ⟨ha, hc, -⟩ := h.wf.sized k n hk
  have hgain (i : Nat) : gain ds (parentOf tree') batch k i = 0 := gain_clean h hk hdk i
  have hchildren (i : Nat) : ((childrenAt tree' k).map (fun c => gain ds (parentOf tree') batch c i)).sum =
      0 := by
    have hzero : (childrenAt tree' k).map (fun c => gain ds (parentOf tree') batch c i) =
        (childrenAt tree' k).map (fun _ => (0 : ProfileValue)) := by
      refine List.map_congr_left fun c hcm => ?_
      have hpar := (h.wf.rooted.mem_childrenAt hk c).mp hcm
      obtain ⟨m, hm, -⟩ := Rooted.child_exists hpar
      refine gain_clean h hm ?_ i
      by_contra hdc
      have := h.wf.upward c k hpar (by simpa using hdc) (h.wf.rooted.ne_zero hk)
      rw [hdk] at this
      cases this
    rw [hzero]
    simp
  have hcalls : startCalls batch k = 0 := by
    have hnone : recordAt batch k = none := by
      rw [recordAt_none]
      intro r hr he
      exact not_below_clean h hk hdk r hr (he ▸ Below.refl _)
    rw [startCalls, hnone]
  have hall : refill ds n.allValues (fun i => if isStatic ds i then value n.allValues i
      else value n.allValues i + gain ds (parentOf tree') batch k i) = n.allValues := by
    refine Eq.trans (refill_congr fun i _ => ?_) (refill_value ha)
    rw [hgain, add_zero, ite_self]
  have hch : refill ds n.childrenValues (fun i => value n.childrenValues i + counted ds i
      ((childrenAt tree' k).map (fun c => gain ds (parentOf tree') batch c i)).sum) = n.childrenValues := by
    refine Eq.trans (refill_congr fun i _ => ?_) (refill_value hc)
    rw [hchildren, counted_zero, add_zero]
  rw [settledBase]
  simp only [if_neg ht]
  dsimp only [baseOf]
  rw [hall, hch, hcalls, zero_add]

include hn hin

theorem flushed_values {k : NodeID} {n : RecordNode} (hk : tree'[k]? = some n) (hd : n.dirty = true) {i : Nat}
    (hi : i < ds.numRecords) :
    value n.tempValues i + carried ds i (inflow ds ∅ tree' (settledTemp ds tree' batch) k i) =
      if isStatic ds i then startTemp gl ds batch n.allValues k i else gain ds
        (parentOf tree') batch k i := by
  have hset := settledTemp_settles h hn hin k i ((dirtyAt_eq hk).trans hd) hi
  rw [tempAt_eq hk] at hset
  rw [← hset, settledTemp]
  cases hs : isStatic ds i with
  | true => rw [if_pos rfl, if_pos rfl, tempAt_static h hk hd hi]
  | false => rfl

theorem flushed_counts {k : NodeID} {n : RecordNode} (hk : tree'[k]? = some n) (hd : n.dirty = true) {i : Nat}
    (hi : i < ds.numRecords) :
    counted ds i (inflow ds ∅ tree' (settledTemp ds tree' batch) k i) =
      counted ds i ((childrenAt tree' k).map (fun c => gain ds (parentOf tree') batch c i)).sum := by
  cases hs : isStatic ds i with
  | true => simp [counted, hs]
  | false => rw [inflow_eq h hn hin hk hd hi hs]

open Classical in
theorem flushed_base {k : NodeID} {n : RecordNode} (hk : tree'[k]? = some n) (hd : n.dirty = true) :
    baseOf (flushedNode ds n (inflow ds ∅ tree' (settledTemp ds tree' batch) k)) =
      settledBase gl ds batch tree' (Touched (linkIn gl ds tree batch) (Seed tree batch running) k) k
        (baseOf n) := by
  have ht : Touched (linkIn gl ds tree batch) (Seed tree batch running) k :=
    (received_touched h k).mpr ((dirtyAt_eq hk).trans hd)
  have hall : (flushedNode ds n (inflow ds ∅ tree' (settledTemp ds tree' batch) k)).allValues =
      (settledBase gl ds batch tree' (Touched (linkIn gl ds tree batch) (Seed tree batch running) k) k
        (baseOf n)).allValues := by
    refine refill_congr fun i hi => ?_
    rw [flushed_values h hn hin hk hd hi, if_pos ht]
    cases hs : isStatic ds i with
    | true => rfl
    | false => rfl
  have hchildren : (flushedNode ds n (inflow ds ∅ tree' (settledTemp ds tree' batch) k)).childrenValues =
      (settledBase gl ds batch tree' (Touched (linkIn gl ds tree batch) (Seed tree batch running) k) k
        (baseOf n)).childrenValues :=
    refill_congr fun i hi => by rw [flushed_counts h hn hin hk hd hi]; rfl
  rw [baseOf, hall, hchildren, flushedNode, (h.temps k n hk hd).2]
  rfl

end Outcome

theorem store_stored (ds : DataStore) (hd : Described ds)
    (hoff : gl.leafNodeAccumulate = false) (ts : ThreadStore) (hmap : ts.attrNodeMap = ∅)
    (hw : Wf gl ds rank ts.currentTree) (hclean : ∀ k, dirtyAt ts.currentTree k = false)
    (hb : WellFormed ds ts.currentTree batch now)
    (hu : Undisturbed ds (linkIn gl ds ts.currentTree batch) (Seed ts.currentTree batch now.runningNode))
    (htime : ts.timeSlice = [] ∨ ts.startTimeNumber ≤ ds.currentTimeNumber)
    (hfresh : sliceAt ts ds.currentTimeNumber = ∅) :
    ∃ ts' rank', store gl ds ts batch now = .ok ts' ∧ Stored gl ds ts batch now.runningNode rank' ts' := by
  obtain ⟨tree₂, rank', hrec, h⟩ := receive_received hd hoff ts hw hclean hb
  have hin := inner_of_undisturbed h hu
  have hleaf := fun k hdk hak => (hin k hdk hak).2
  have hfree (u : Int) : sliceAt { updateNowValues ds ts now with currentTree := tree₂ } u = sliceAt ts u :=
    sliceAt_congr rfl rfl u
  have hset := settledTemp_settles h hb.ids hleaf
  have hready : Ready ds ts.attrNodeMap tree₂ (sliceAt ts ds.currentTimeNumber) rank' := by
    refine ⟨hd, h.wf.rooted, fun k n hk => ?_, h.wf.upward, hin, fun p x a ha => ?_, fun k _ => ?_⟩
    · obtain ⟨h1, h2, h3, -⟩ := h.wf.sized k n hk
      exact ⟨h1, h2, h3⟩
    · rw [hmap, Std.TreeMap.getElem?_emptyc] at ha
      cases ha
    · rw [hfresh, Std.TreeMap.getElem?_emptyc]
  obtain ⟨ts', hflush, hafter, hslices, ⟨hne, hstart⟩, heq⟩ := flush_after gl
    { updateNowValues ds ts now with currentTree := tree₂ } htime (f := settledTemp ds tree₂ batch)
    (by rw [hfree]; exact hready) (by rw [← hmap] at hset; exact hset)
  have hattr : (updateNowValues ds ts now).attrNodeMap = ∅ := hmap
  refine ⟨ts', rank', by rw [store, hrec, ok_bind, hflush], ?_⟩
  have hd₂ {k : NodeID} {n : RecordNode} (hk : tree₂[k]? = some n) : dirtyAt tree₂ k = n.dirty :=
    dirtyAt_eq hk
  have hdirty {k : NodeID} {n : RecordNode} (hk : tree₂[k]? = some n) (hdn : n.dirty = true) :
      ts'.currentTree[k]? = some (flushedNode ds n (inflow ds ∅ tree₂ (settledTemp ds tree₂ batch) k)) ∧
      (sliceAt ts' ds.currentTimeNumber)[k]? =
        some (flushedEntry ds k n (inflow ds ∅ tree₂ (settledTemp ds tree₂ batch) k)) := by
    have := (hafter k).1 trivial ((hd₂ hk).trans hdn)
    dsimp only at this
    rw [flushedAt, entryAt, hk, hattr] at this
    exact this
  have hstill {k : NodeID} (hdk : dirtyAt tree₂ k = false) :
      ts'.currentTree[k]? = tree₂[k]? ∧ (sliceAt ts' ds.currentTimeNumber)[k]? = none := by
    have := (hafter k).2 (fun hk => by rw [hdk] at hk; cases hk.2)
    refine ⟨this.1, this.2.trans ?_⟩
    dsimp only
    rw [hfree, hfresh, Std.TreeMap.getElem?_emptyc]
  have hplaces : SamePlaces tree₂ ts'.currentTree := fun k =>
    After.place (s := ⟨tree₂, _⟩) (SamePlaces.refl tree₂) (hafter k)
  have hpar : parentOf ts'.currentTree = parentOf tree₂ := funext hplaces.parentOf
  have hclean' (k : NodeID) : dirtyAt ts'.currentTree k = false := by
    cases hk : tree₂[k]? with
    | none => rw [dirtyAt, (hstill (by rw [dirtyAt, hk]; rfl)).1, hk]; rfl
    | some n =>
        cases hdn : n.dirty with
        | true => rw [dirtyAt, (hdirty hk hdn).1]; rfl
        | false => rw [dirtyAt, (hstill ((hd₂ hk).trans hdn)).1, hk]; exact hdn
  have hsettled (touched : Prop) [Decidable touched] (k : NodeID) :
      settledBase gl ds batch ts'.currentTree touched k = settledBase gl ds batch tree₂ touched k := by
    funext b
    simp only [settledBase, hpar, hplaces.childrenAt]
  refine ⟨⟨h.wf.rooted.congr hplaces, ?_, ?_, ?_⟩, hclean', hpar.trans (received_parentOf h),
    ?_, ?_, ?_, ?_, hne, ?_⟩
  · intro k n' hk'
    obtain ⟨n, hk, -⟩ := hplaces.symm.find hk'
    obtain ⟨h1, h2, h3, h4⟩ := h.wf.sized k n hk
    cases hdn : n.dirty with
    | true =>
        rw [(hdirty hk hdn).1, Option.some.injEq] at hk'
        subst hk'
        refine ⟨sized_refill h1 _, sized_refill h2 _, length_slots _ _, fun hs => ?_⟩
        exact ⟨length_refill (h4 hs).1 _, length_refill (h4 hs).2 _⟩
    | false =>
        rw [(hstill ((hd₂ hk).trans hdn)).1, hk, Option.some.injEq] at hk'
        exact hk' ▸ ⟨h1, h2, h3, h4⟩
  · intro c p _ hdc
    rw [hclean'] at hdc
    cases hdc
  · intro n' hn'
    obtain ⟨n, hn, -⟩ := hplaces.symm.find hn'
    cases hdn : n.dirty with
    | true =>
        rw [(hdirty hn hdn).1, Option.some.injEq] at hn'
        exact hn' ▸ h.wf.rootGnid n hn
    | false =>
        rw [(hstill ((hd₂ hn).trans hdn)).1, hn, Option.some.injEq] at hn'
        exact hn' ▸ h.wf.rootGnid n hn
  · intro k
    rw [hsettled, ← h.base k]
    cases hk : tree₂[k]? with
    | none => rw [(hstill (by rw [dirtyAt, hk]; rfl)).1, hk]; rfl
    | some n =>
        cases hdn : n.dirty with
        | true =>
            rw [(hdirty hk hdn).1, Option.map_some, Option.map_some, Option.map_some,
              flushed_base h hb.ids hleaf hk hdn]
        | false =>
            rw [(hstill ((hd₂ hk).trans hdn)).1, hk, Option.map_some, Option.map_some, ← clean_base h hk hdn]
  · intro k
    rw [← h.base k]
    cases hk : tree₂[k]? with
    | none =>
        rw [(hstill (by rw [dirtyAt, hk]; rfl)).2]
        split <;> rfl
    | some n =>
        cases hdn : n.dirty with
        | true =>
            rw [(hdirty hk hdn).2, if_pos ((received_touched h k).mpr ((hd₂ hk).trans hdn)), Option.map_some,
              Option.map_some, Option.some.injEq, flushedEntry, settledEntry, (h.temps k n hk hdn).2, hpar,
              hplaces.childrenAt]
            congr 1
            · exact slots_congr fun i hi => flushed_values h hb.ids hleaf hk hdn hi
            · exact slots_congr fun i hi => flushed_counts h hb.ids hleaf hk hdn hi
        | false =>
            rw [(hstill ((hd₂ hk).trans hdn)).2, if_neg]
            rw [received_touched h, hd₂ hk, hdn]
            exact Bool.false_ne_true
  · intro u hu
    rw [hslices u hu, hfree]
  · rw [heq]
    rfl
  · rw [hstart]
    rfl

end Llprof.Monitor.StoreSpec
