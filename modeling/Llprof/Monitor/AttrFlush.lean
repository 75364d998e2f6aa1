import Llprof.Monitor.AttrReceive
import Llprof.Monitor.FlushOutcome
import Llprof.Monitor.Settling
import Llprof.Monitor.SliceContents

namespace Llprof.Monitor.AttrFlush

open Faulting hiding store
open ParentTree TreeMaps Slots Nodes Store SlotLoops TreeShape FlushSpec FlushWalk FlushOutcome Settling
  Marking Receive StoreSpec
open Slices SliceContents Runs RunTotals AttrTables AttrMarking AttrReceive
open Profiler.CallTree (MethodNodeSerializedInfo)

/-- The attribute node of a name under a node is reached by a batch: it is brought
somewhere below. -/
def AttrTouched (link : Links) (tree : Tree) (running : NodeID) (batch : List MethodNodeSerializedInfo)
    (p : NodeID) (x : NameID) : Prop :=
  ∃ q, AttrSeed link tree running batch q x ∧ Below link.parent p q

def attrTemp (ts : ThreadStore) (x : NameID) (i : Nat) (c : NodeID) : ProfileValue :=
  match ts.attrNodeMap[(c, x)]? with
  | none => 0
  | some a => tempAt ts.currentTree a i

/-- What `Store` does to the attribute nodes: those that are touched take the values of
their records and what their siblings hold by then. -/
structure AttrStored (ds : DataStore) (hash : NameID → Prop) (link : Links)
    (ts : ThreadStore) (running : NodeID) (batch : List MethodNodeSerializedInfo) (rank : NodeID → Nat)
    (ts' : ThreadStore) : Prop where
  attributed : Attributed ds hash link rank ts'
  clean : ∀ k, dirtyAt ts'.currentTree k = false
  links : ∀ k l, linkAt ts.currentTree k = some l → linkAt ts'.currentTree k = some l
  added : ∀ a p x, hash x → linkAt ts'.currentTree a = some (p, x) →
    linkAt ts.currentTree a = some (p, x) ∨ AttrTouched link ts.currentTree running batch p x
  reached : ∀ p x, p ≠ 0 → hash x → AttrTouched link ts.currentTree running batch p x →
    ∃ a, linkAt ts'.currentTree a = some (p, x)
  temps : ∀ a p x i, hash x → linkAt ts'.currentTree a = some (p, x) →
    i < ds.numRecords → isStatic ds i = false → AttrTouched link ts.currentTree running batch p x →
    tempAt ts'.currentTree a i = sumAt (fun r => link r.callNodeId) (recordValue i) batch (some (p, x)) +
      carried ds i ((childrenAt ts'.currentTree p).map (attrTemp ts' x i)).sum
  all : ∀ a p x i, hash x → linkAt ts'.currentTree a = some (p, x) →
    i < ds.numRecords → isStatic ds i = false → AttrTouched link ts.currentTree running batch p x →
    allAt ts'.currentTree i a = allAt ts.currentTree i a + tempAt ts'.currentTree a i
  still : ∀ a p x i, hash x → linkAt ts'.currentTree a = some (p, x) →
    ¬ AttrTouched link ts.currentTree running batch p x →
    tempAt ts'.currentTree a i = tempAt ts.currentTree a i ∧
      allAt ts'.currentTree i a = allAt ts.currentTree i a
  timeSlice : ts'.timeSlice ≠ []
  startTimeNumber : ts'.startTimeNumber = ts.startFor ds.currentTimeNumber
  slices : ∀ u, u ≠ ds.currentTimeNumber → sliceAt ts' u = sliceAt ts u

variable {gl : Settings} {ds : DataStore} {hash : NameID → Prop} {link : Links}
  {rank : NodeID → Nat} {tree : Tree} {ts ts' : ThreadStore} {running : NodeID}
  {batch log : List MethodNodeSerializedInfo} {d : Delivery} {a p q : NodeID} {x : NameID}

theorem Attributed.plain_parent (h : Attributed ds hash link rank ts) (hx : hash x)
    (ha : linkAt ts.currentTree a = some (p, x)) :
    ∃ q y, ¬ hash y ∧ linkAt ts.currentTree p = some (q, y) ∧ link.parent p = some q := by
  obtain rfl | ⟨q, y, hy, hp⟩ := h.tabled.inner a p x ha
  · have h1 := h.rooted.root_unique (parentOf_of_linkAt ha)
    rw [h1, h.tabled.plain 1 0 0 h.tabled.root.1 |>.mpr h.tabled.root.2,
      Option.some.injEq, Prod.mk.injEq] at ha
    exact absurd (ha.2 ▸ hx) h.tabled.root.1
  · refine ⟨q, y, hy, hp, ?_⟩
    rw [Links.parent, (h.tabled.plain p q y hy).mp hp, Option.map_some]

theorem Receiving.attr_of_touched (h : Receiving ds hash link link tree running batch rank ts')
    (hx : hash x) (hp : p ≠ 0) (ht : AttrTouched link tree running batch p x) :
    ∃ a, linkAt ts'.currentTree a = some (p, x) ∧ dirtyAt ts'.currentTree a = true := by
  obtain ⟨q, hseed, hb⟩ := ht
  have hstart := h.seeds q x hseed hx
  clear hseed
  induction hb using Relation.ReflTransGen.head_induction_on with
  | refl => exact hstart
  | @head q r hq hb ih =>
      apply ih
      obtain ⟨a, ha, hda⟩ := hstart
      obtain ⟨q', y, hy, hl, hpar⟩ := Attributed.plain_parent h.attributed hx ha
      rw [hq, Option.some.injEq] at hpar
      subst hpar
      have hq0 : q ≠ 0 := by
        rintro rfl
        rw [linkAt_eq_none.mpr h.attributed.rooted.zero] at hl
        cases hl
      have hr0 : r ≠ 0 := by
        rintro rfl
        obtain h0 | ⟨s, hs, -⟩ := below_iff_parent.mp hb
        · exact hp h0.symm
        · rw [Links.parent, h.attributed.tabled.zero] at hs
          cases hs
      exact (h.upward a q x ha hda not_false hq0).2 hx r y hl hr0

theorem Receiving.dirty_iff (h : Receiving ds hash link link tree running batch rank ts') (hx : hash x)
    (ha : linkAt ts'.currentTree a = some (p, x)) :
    dirtyAt ts'.currentTree a = true ↔ AttrTouched link tree running batch p x := by
  constructor
  · exact h.traced a p x hx ha
  · intro ht
    have hp : p ≠ 0 := by
      rintro rfl
      obtain ⟨q, y, -, hl, -⟩ := Attributed.plain_parent h.attributed hx ha
      rw [linkAt_eq_none.mpr h.attributed.rooted.zero] at hl
      cases hl
    obtain ⟨b, hb, hdb⟩ := Receiving.attr_of_touched h hx hp ht
    rw [Tabled.attr_unique h.attributed.tabled hx ha hb]
    exact hdb

theorem attrAt_of_linkAt {k : NodeID} {tree : Tree} (h : linkAt tree k = some (p, x)) :
    attrAt ds tree k = isAttrName (ds.getNameFromID x) := by
  obtain ⟨n, hn, -, rfl⟩ := linkAt_eq_some.mp h
  rw [attrAt_eq hn]
  rfl

theorem Attributed.attrAt_iff (h : Attributed ds hash link rank ts)
    (ha : linkAt ts.currentTree a = some (p, x)) : attrAt ds ts.currentTree a = true ↔ hash x := by
  rw [attrAt_of_linkAt ha]
  exact h.names a p x ha

theorem Receiving.ready (hd : Described ds) (h : Receiving ds hash link link tree running batch rank ts')
    {slice : Slice} (hs : slice = ∅) : Ready ds ts'.attrNodeMap ts'.currentTree slice rank := by
  refine ⟨hd, h.attributed.rooted, fun k n hk => ?_, fun c p hc hdc hp => ?_, fun k hdk hak => ?_,
    fun p x a ha => ?_, fun k _ => ?_⟩
  · obtain ⟨h1, h2, h3⟩ := h.attributed.sized k n hk
    exact ⟨Or.inr h1, Or.inr h2, h3⟩
  · obtain ⟨x, hl⟩ := linkAt_of_parentOf hc
    exact (h.upward c p x hl hdc not_false hp).1
  · obtain ⟨p, x, hl⟩ := linkAt_of_dirty hdk
    have hx := (Attributed.attrAt_iff h.attributed hl).mp hak
    constructor
    · rintro rfl
      rw [(h.attributed.tabled.plain 1 0 0 h.attributed.tabled.root.1).mpr h.attributed.tabled.root.2,
        Option.some.injEq, Prod.mk.injEq] at hl
      exact h.attributed.tabled.root.1 (hl.2 ▸ hx)
    · intro c hc
      obtain ⟨z, hlc⟩ := linkAt_of_parentOf hc
      obtain rfl | ⟨q, y, hy, hlk⟩ := h.attributed.tabled.inner c k z hlc
      · rw [linkAt_eq_none.mpr h.attributed.rooted.zero] at hl
        cases hl
      · rw [hl, Option.some.injEq, Prod.mk.injEq] at hlk
        exact absurd (hlk.2 ▸ hx) hy
  · exact parentOf_of_linkAt ((h.attributed.tabled.attrs a p x).mp ha).2
  · rw [hs, Std.TreeMap.getElem?_emptyc]

theorem inflow_attr (h : Attributed ds hash link rank ts) {f : NodeID → Nat → ProfileValue}
    {g : NodeID → ProfileValue} {i : Nat} (hx : hash x) (ha : linkAt ts.currentTree a = some (p, x))
    (hg : ∀ c, g c =
      match ts.attrNodeMap[(c, x)]? with
      | none => 0
      | some b => current ts.currentTree f b i) :
    inflow ds ts.attrNodeMap ts.currentTree f a i = ((childrenAt ts.currentTree p).map g).sum := by
  obtain ⟨n, hn, hp, hname⟩ := linkAt_eq_some.mp ha
  have hnameAt : nameAt ts.currentTree a = x := by rw [nameAt, hn, Option.map_some, Option.getD_some, hname]
  have hpar : parentOf ts.currentTree a = some p := parentOf_of_linkAt ha
  unfold inflow
  rw [if_pos ((Attributed.attrAt_iff h ha).mpr hx), fromSiblings, hnameAt, hpar, Option.getD_some]
  congr 1
  apply List.map_congr_left
  intro c hc
  rw [hg]
  split
  next hac =>
    -- an attribute node has no attribute nodes
    cases hm : ts.attrNodeMap[(c, x)]? with
    | none => rfl
    | some b =>
        have hb := ((h.tabled.attrs b c x).mp hm).2
        obtain ⟨q, y, hy, hl, -⟩ := Attributed.plain_parent h hx hb
        exact absurd ((Attributed.attrAt_iff h hl).mp hac) hy
  next => rfl

/-- The tree after the dirty nodes have been flushed with the values `f`. -/
structure Flushed (ds : DataStore) (tree : Tree) (f : NodeID → Nat → ProfileValue) (tree' : Tree) : Prop where
  places : SamePlaces tree tree'
  gnids : KeepsGnid tree tree'
  clean : ∀ k, dirtyAt tree' k = false
  sized : ∀ (k : NodeID) (n : RecordNode), tree'[k]? = some n →
    n.allValues.length = ds.numRecords ∧ n.childrenValues.length = ds.numRecords ∧
      n.tempValues.length = ds.numRecords
  temps : ∀ k i, i < ds.numRecords → tempAt tree' k i = current tree f k i
  all : ∀ k i, i < ds.numRecords → isStatic ds i = false → dirtyAt tree k = true →
    allAt tree' i k = allAt tree i k + f k i
  still : ∀ k : NodeID, dirtyAt tree k = false → tree'[k]? = tree[k]?

theorem flushed_of_after {attrNodeMap : AttrNodeMap} {slice slice' : Slice} {tree' : Tree}
    {f : NodeID → Nat → ProfileValue} (hf : Settles ds attrNodeMap tree f)
    (hs : ∀ (k : NodeID) (n : RecordNode), tree[k]? = some n →
      n.allValues.length = ds.numRecords ∧ n.childrenValues.length = ds.numRecords ∧
        n.tempValues.length = ds.numRecords)
    (h : ∀ k, After ds attrNodeMap tree f (fun _ => True) ⟨tree, slice⟩ ⟨tree', slice'⟩ k) :
      Flushed ds tree f tree' := by
  have hdirty {k : NodeID} {n : RecordNode} (hk : tree[k]? = some n) (hd : dirtyAt tree k = true) :
      tree'[k]? = some (flushedNode ds n (inflow ds attrNodeMap tree f k)) := by
    have := ((h k).1 trivial hd).1
    rwa [flushedAt, hk, Option.map_some] at this
  have hstill {k : NodeID} (hd : dirtyAt tree k = false) : tree'[k]? = tree[k]? := by
    apply ((h k).2 _).1
    rintro ⟨-, hd'⟩
    rw [hd] at hd'
    cases hd'
  have hplaces : SamePlaces tree tree' :=
    fun k => After.place (s := ⟨tree, slice⟩) (SamePlaces.refl tree) (h k)
  have hcases {k : NodeID} {n : RecordNode} (hk : tree[k]? = some n) :
      ∃ n', tree'[k]? = some n' ∧ n'.gnid = n.gnid ∧ n'.dirty = false ∧ n'.allValues.length = ds.numRecords ∧
        n'.childrenValues.length = ds.numRecords ∧ n'.tempValues.length = ds.numRecords := by
    obtain ⟨h1, h2, h3⟩ := hs k n hk
    cases hd : dirtyAt tree k with
    | true => exact ⟨_, hdirty hk hd, rfl, rfl, length_refill h1 _, length_refill h2 _, length_slots _ _⟩
    | false => exact ⟨n, (hstill hd).trans hk, rfl, (dirtyAt_eq hk).symm.trans hd, h1, h2, h3⟩
  have hback {k : NodeID} {n' : RecordNode} (hk' : tree'[k]? = some n') : ∃ n, tree[k]? = some n := by
    obtain ⟨n, hn, -⟩ := hplaces.symm.find hk'
    exact ⟨n, hn⟩
  refine ⟨hplaces, fun k n hn _ => ?_, fun k => ?_, fun k n' hk' => ?_, fun k i hi => ?_,
    fun k i hi hst hd => ?_, fun k => hstill⟩
  · obtain ⟨n', hn', hg, -⟩ := hcases hn
    exact ⟨n', hn', hg⟩
  · cases hk : tree[k]? with
    | none =>
        have hd : dirtyAt tree k = false := by rw [dirtyAt, hk]; rfl
        rw [dirtyAt, hstill hd, hk]
        rfl
    | some n =>
        obtain ⟨n', hn', -, hd, -⟩ := hcases hk
        rw [dirtyAt_eq hn', hd]
  · obtain ⟨n, hn⟩ := hback hk'
    obtain ⟨n₁, hn₁, -, -, hlen⟩ := hcases hn
    rw [hk', Option.some.injEq] at hn₁
    exact hn₁ ▸ hlen
  · rw [current]
    cases hd : dirtyAt tree k with
    | true =>
        obtain ⟨n, hn, -⟩ := dirtyAt_some hd
        rw [if_pos rfl, hf k i hd hi, tempAt, hdirty hn hd, Option.map_some, Option.getD_some, flushedNode,
          value_slots _ hi, tempAt_eq hn]
    | false => rw [if_neg Bool.false_ne_true, tempAt, hstill hd, tempAt]
  · obtain ⟨n, hn, -⟩ := dirtyAt_some hd
    rw [hf k i hd hi, tempAt_eq hn, allAt, hdirty hn hd, Option.map_some, Option.getD_some, flushedNode,
      value_refill (hs k n hn).1 _ hi, hst, if_neg Bool.false_ne_true, allAt, hn,
      Option.map_some, Option.getD_some]

theorem store_attrStored (hd : Described ds) (hon : gl.leafNodeAccumulate = true)
    (hsingle : gl.singleTreeMode = false) (h : Attributed (d.dataStore ds) hash (linkOf log) rank ts)
    (hclean : ∀ k, dirtyAt ts.currentTree k = false) (hb : AttrBatch ds hash log d)
    (htime : ts.timeSlice = [] ∨ ts.startTimeNumber ≤ d.time) (hfresh : sliceAt ts d.time = ∅) :
    ∃ ts' rank', d.store gl ds ts = .ok ts' ∧
      AttrStored (d.dataStore ds) hash (linkOf (log ++ d.batch)) ts d.now.runningNode d.batch rank' ts' := by
  obtain ⟨ts₂, rank₂, hrec, hr⟩ := receive_receiving hd hon hsingle h hclean hb
  obtain ⟨hstart, hslices⟩ := receive_keeps hrec
  have hdescribed : Described (d.dataStore ds) := hd
  have hfree (u : Int) : sliceAt ts₂ u = sliceAt ts u := sliceAt_congr hstart hslices u
  have hready : Ready (d.dataStore ds) ts₂.attrNodeMap ts₂.currentTree (sliceAt ts₂ d.time) rank₂ :=
    Receiving.ready hdescribed hr ((hfree d.time).trans hfresh)
  let f := settledValues (d.dataStore ds) ts₂.attrNodeMap ts₂.currentTree rank₂
  have hsettles := settledValues_settles hready
  have hlater : ts₂.timeSlice = [] ∨ ts₂.startTimeNumber ≤ (d.dataStore ds).currentTimeNumber := by
    rw [hstart, hslices]
    exact htime
  obtain ⟨ts', hflush, hafter, hother, ⟨hne, hstart'⟩, heq⟩ := flush_after gl ts₂ hlater hready hsettles
  have hfl : Flushed (d.dataStore ds) ts₂.currentTree
    (settledValues (d.dataStore ds) ts₂.attrNodeMap ts₂.currentTree rank₂)
      ts'.currentTree := flushed_of_after hsettles hr.attributed.sized hafter
  have hmap : ts'.attrNodeMap = ts₂.attrNodeMap := by rw [heq]
  have hlink (k : NodeID) : linkAt ts'.currentTree k = linkAt ts₂.currentTree k := linkAt_places hfl.places k
  have htemp {c : NodeID} {x : NameID} {i : Nat} (hi : i < (d.dataStore ds).numRecords) : attrTemp ts' x i c =
      match ts₂.attrNodeMap[(c, x)]? with | none => 0 | some b => current ts₂.currentTree f b i := by
    rw [attrTemp, hmap]
    cases ts₂.attrNodeMap[(c, x)]? with
    | none => rfl
    | some b => exact hfl.temps b i hi
  have hdirty {a p : NodeID} {x : NameID} (hx : hash x) (ha : linkAt ts₂.currentTree a = some (p, x)) :=
    Receiving.dirty_iff hr hx ha
  refine ⟨ts', rank₂, by rw [Delivery.store, store, hrec, ok_bind, hflush], ?_, hfl.clean, ?_, ?_, ?_, ?_, ?_, ?_, hne, ?_, ?_⟩
  · exact hr.attributed.congr hfl.places hfl.gnids hfl.sized hmap (by rw [heq]) (by rw [heq])
  · intro k l hk
    rw [hlink]
    exact hr.links k l hk
  · intro a p x hx ha
    rw [hlink] at ha
    exact (hr.added a _ ha).imp_right (hdirty hx ha).mp
  · intro p x hp hx ht
    obtain ⟨a, ha, -⟩ := Receiving.attr_of_touched hr hx hp ht
    exact ⟨a, (hlink a).trans ha⟩
  · intro a p x i hx ha hi hst ht
    rw [hlink] at ha
    have hda := (hdirty hx ha).mpr ht
    rw [hfl.temps a i hi, current, if_pos hda, hsettles a i hda hi, hr.records a p x i hx ha hda hi hst,
      inflow_attr hr.attributed hx ha (fun c => htemp hi), hfl.places.childrenAt]
  · intro a p x i hx ha hi hst ht
    rw [hlink] at ha
    have hda := (hdirty hx ha).mpr ht
    rw [hfl.all a i hi hst hda, hr.all, hfl.temps a i hi, current, if_pos hda]
  · intro a p x i hx ha ht
    rw [hlink] at ha
    have hda : dirtyAt ts₂.currentTree a = false := Bool.eq_false_iff.mpr fun hd => ht ((hdirty hx ha).mp hd)
    rw [tempAt, hfl.still a hda, ← tempAt, hr.clean a i hda, allAt, hfl.still a hda, ← allAt, hr.all]
    exact ⟨rfl, rfl⟩
  · rw [hstart', ThreadStore.startFor, hstart, hslices]
    rfl
  · intro u hu
    rw [hother u hu, hfree]

end Llprof.Monitor.AttrFlush
