import Llprof.Foundations.Stepwise
import Llprof.Monitor.AttrFlush

namespace Llprof.Monitor.AttrTotals

open Faulting hiding store
open LittleEndian MachineIntegers ParentTree TreeMaps Stepwise Slots Nodes Store SlotLoops TreeShape FlushSpec
  Marking Receive StoreSpec Slices Runs RunTotals
open AttrTables AttrMarking AttrReceive AttrFlush
open Profiler.CallTree (MethodNodeSerializedInfo)

variable {gl : Settings} {ds : DataStore} {hash : NameID → Prop} {link : Links}
  {rank rank' : NodeID → Nat} {tree : Tree} {ts ts' : ThreadStore} {running : NodeID}
  {batch log : List MethodNodeSerializedInfo} {d : Delivery} {done : List Delivery}
  {a c n p q : NodeID} {x : NameID} {i : Nat}

open Classical in
noncomputable def namedIn (link : Links) (log : List MethodNodeSerializedInfo) (x : NameID) :
    List MethodNodeSerializedInfo :=
  log.filter (fun r => ∃ q, link r.callNodeId = some (q, x))

noncomputable def attrSum (link : Links) (log : List MethodNodeSerializedInfo) (n : NodeID) (x : NameID)
    (i : Nat) : ProfileValue :=
  sumBelow link.parent (fun r => r.callNodeId) (recordValue i) (namedIn link log x) n

/-- An attribute of the name has a record, and it is somewhere below the node. -/
def Occurs (link : Links) (log : List MethodNodeSerializedInfo) (n : NodeID) (x : NameID) : Prop :=
  ∃ r ∈ log, ∃ q, link r.callNodeId = some (q, x) ∧ Below link.parent n q

theorem mem_namedIn {r : MethodNodeSerializedInfo} :
    r ∈ namedIn link log x ↔ r ∈ log ∧ ∃ q, link r.callNodeId = some (q, x) := by
  simp [namedIn]

theorem namedIn_append (xs ys : List MethodNodeSerializedInfo) :
    namedIn link (xs ++ ys) x = namedIn link xs x ++ namedIn link ys x := by
  rw [namedIn, namedIn, namedIn, List.filter_append]

theorem Tabled.parent_known (h : Tabled hash link ts) {k : NodeID} (hk : link k = some (q, x)) :
    q = 0 ∨ ∃ l, link q = some l := by
  have hl : ∃ b, linkAt ts.currentTree b = some (q, x) := by
    by_cases hx : hash x
    · exact ⟨_, h.known k q x hx hk⟩
    · exact ⟨k, (h.plain k q x hx).mpr hk⟩
  obtain ⟨b, hb⟩ := hl
  obtain h0 | ⟨q', y, hy, hq⟩ := h.inner b q x hb
  · exact Or.inl h0
  · exact Or.inr ⟨_, (h.plain q q' y hy).mp hq⟩

theorem below_grown (h : Tabled hash (linkOf log) ts) (h0 : linkOf (log ++ batch) 0 = none) {k : NodeID}
    (hk : ∃ l, linkOf log k = some l) :
    Below (linkOf (log ++ batch)).parent n k ↔ Below (linkOf log).parent n k := by
  apply below_congr_of_closed (S := fun y => (∃ l, linkOf log y = some l) ∨ y = 0) _ _ (Or.inl hk)
  · rintro y (⟨l, hl⟩ | rfl)
    · rw [Links.parent, linkOf_mono hl, Links.parent, hl]
    · rw [Links.parent, h0, Links.parent, h.zero]
  · rintro y q - hq
    obtain ⟨⟨q', x⟩, hl, rfl⟩ := Option.map_eq_some_iff.mp hq
    exact (Tabled.parent_known h hl).symm

theorem linkOf_of_mem {r : MethodNodeSerializedInfo} (hr : r ∈ log) : ∃ l, linkOf log r.callNodeId = some l :=
  Option.isSome_iff_exists.mp (linkOf_isSome.mpr (Or.inr ⟨r, hr, rfl⟩))

theorem linkOf_old_mem {r : MethodNodeSerializedInfo} (hr : r ∈ log) (batch : List MethodNodeSerializedInfo) :
    linkOf (log ++ batch) r.callNodeId = linkOf log r.callNodeId := linkOf_old (Or.inr ⟨r, hr, rfl⟩) batch

theorem namedIn_grown (log batch : List MethodNodeSerializedInfo) (x : NameID) :
    namedIn (linkOf (log ++ batch)) log x = namedIn (linkOf log) log x := by
  apply List.filter_congr
  intro r hr
  rw [linkOf_old_mem hr]

theorem attrSum_append (h : Tabled hash (linkOf log) ts) (h0 : linkOf (log ++ batch) 0 = none) (n : NodeID)
    (x : NameID) (i : Nat) : attrSum (linkOf (log ++ batch)) (log ++ batch) n x i =
      attrSum (linkOf log) log n x i + attrSum (linkOf (log ++ batch)) batch n x i := by
  rw [attrSum, namedIn_append, sumBelow_append, namedIn_grown]
  congr 1
  apply sumBelow_congr
  intro r hr
  exact below_grown h h0 (linkOf_of_mem (mem_namedIn.mp hr).1)

theorem below_attr {k : NodeID} (hx : hash x) (hn : ∀ p y, link n = some (p, y) → ¬ hash y)
    (hk : link k = some (q, x)) : Below link.parent n k ↔ Below link.parent n q := by
  have hpar : link.parent k = some q := by rw [Links.parent, hk, Option.map_some]
  rw [below_iff_parent]
  constructor
  · rintro (rfl | ⟨q', hq', hb⟩)
    · exact absurd hx (hn q x hk)
    · rw [hpar, Option.some.injEq] at hq'
      exact hq' ▸ hb
  · intro hb
    exact Or.inr ⟨q, hpar, hb⟩

theorem below_tree (h : Attributed ds hash link rank ts) (hx : hash x) {k : NodeID}
    (hk : link k = some (q, x)) : Below (parentOf ts.currentTree) n q ↔ Below link.parent n q := by
  have hq : ∃ p y, ¬ hash y ∧ linkAt ts.currentTree q = some (p, y) := by
    obtain ⟨p, y, hy, hl, -⟩ := Attributed.plain_parent h hx (h.tabled.known k q x hx hk)
    exact ⟨p, y, hy, hl⟩
  apply below_congr_of_closed (S := fun y => (∃ p z, ¬ hash z ∧ linkAt ts.currentTree y = some (p, z)) ∨
    y = 0) _ _ (Or.inl hq)
  · rintro y (⟨p, z, hz, hl⟩ | rfl)
    · rw [parentOf_of_linkAt hl, Links.parent, (h.tabled.plain y p z hz).mp hl, Option.map_some]
    · rw [Links.parent, h.tabled.zero, parentOf, h.rooted.zero, Option.map_none, Option.map_none]
  · rintro y r - hr
    rw [Links.parent] at hr
    obtain ⟨⟨r', z⟩, hl, rfl⟩ := Option.map_eq_some_iff.mp hr
    have hb : ∃ b, linkAt ts.currentTree b = some (r', z) := by
      by_cases hz : hash z
      · exact ⟨_, h.tabled.known y r' z hz hl⟩
      · exact ⟨y, (h.tabled.plain y r' z hz).mpr hl⟩
    obtain ⟨b, hb⟩ := hb
    exact (h.tabled.inner b r' z hb).symm

noncomputable def placeSum (link : Links) (tree : Tree) (batch : List MethodNodeSerializedInfo) (x : NameID)
    (i : Nat) (c : NodeID) : ProfileValue :=
  sumBelow (parentOf tree) (fun r => (link.parent r.callNodeId).getD 0) (recordValue i)
    (namedIn link batch x) c

theorem placeSum_eq_attrSum (h : Attributed ds hash link rank ts) (hx : hash x)
    (hn : ∀ p y, link n = some (p, y) → ¬ hash y) (batch : List MethodNodeSerializedInfo)
    (i : Nat) : placeSum link ts.currentTree batch x i n = attrSum link batch n x i := by
  rw [placeSum, attrSum, sumBelow, sumBelow]
  congr 2
  apply List.filter_congr
  intro r hr
  obtain ⟨-, q, hq⟩ := mem_namedIn.mp hr
  rw [decide_eq_decide, Links.parent, hq, Option.map_some, Option.getD_some,
    below_tree h hx hq, below_attr hx hn hq]

theorem placeSum_eq (h : Attributed ds hash link rank ts) {m : RecordNode} (hp : ts.currentTree[p]? = some m)
    (batch : List MethodNodeSerializedInfo) (x : NameID) (i : Nat) :
    placeSum link ts.currentTree batch x i p =
      sumAt (fun r => link r.callNodeId) (recordValue i) batch (some (p, x)) +
      ((childrenAt ts.currentTree p).map (placeSum link ts.currentTree batch x i)).sum := by
  rw [placeSum, sumBelow_eq h.rooted.ranked (childrenAt_nodup _ p) (h.rooted.mem_childrenAt hp)]
  congr 1
  rw [sumAt, sumAt, namedIn, List.filter_filter]
  congr 2
  apply List.filter_congr
  intro r _
  apply Bool.eq_iff_iff.mpr
  simp only [Bool.and_eq_true, decide_eq_true_eq]
  constructor
  · rintro ⟨hsite, q, hq⟩
    rw [Links.parent, hq, Option.map_some, Option.getD_some] at hsite
    rw [hq, ← hsite]
  · intro hl
    rw [Links.parent, hl]
    exact ⟨rfl, p, rfl⟩

theorem placeSum_untouched (h : Attributed ds hash link rank ts) (hx : hash x)
    (ht : ¬ AttrTouched link tree running batch c x) : placeSum link ts.currentTree batch x i c = 0 := by
  apply sumBelow_eq_zero
  intro r hr hb
  obtain ⟨hr, q, hq⟩ := mem_namedIn.mp hr
  rw [Links.parent, hq, Option.map_some, Option.getD_some, below_tree h hx hq] at hb
  exact ht ⟨q, Or.inl ⟨r, hr, hq⟩, hb⟩

open Classical in
/-- The temporary values that an attribute node under a child of the node reads although
the batch brings nothing there. -/
noncomputable def leftover (link : Links) (ts : ThreadStore) (running : NodeID)
    (batch : List MethodNodeSerializedInfo) (x : NameID) (i : Nat) (c : NodeID) : ProfileValue :=
  if AttrTouched link ts.currentTree running batch c x then 0 else attrTemp ts x i c

noncomputable def leftoverSum (link : Links) (ts : ThreadStore) (running : NodeID)
    (batch : List MethodNodeSerializedInfo) (x : NameID) (i : Nat) (p : NodeID) : ProfileValue :=
  ((childrenAt ts.currentTree p).map (leftover link ts running batch x i)).sum

/-- Above all that a batch brings, what earlier batches have left to the children it does
not reach comes to nothing. -/
def NoLeftovers (hash : NameID → Prop) (link : Links) (ts : ThreadStore) (running : NodeID)
    (batch : List MethodNodeSerializedInfo) (i : Nat) : Prop :=
  ∀ p x, p ≠ 0 → hash x → AttrTouched link ts.currentTree running batch p x →
    leftoverSum link ts running batch x i p = 0

section Step

variable {link₀ : Links} (h₀ : Attributed ds hash link₀ rank ts)
  (hs : AttrStored ds hash link ts running batch rank' ts')

include h₀ hs

theorem attrTemp_still (hx : hash x) (ht : ¬ AttrTouched link ts.currentTree running batch c x) :
    attrTemp ts' x i c = attrTemp ts x i c := by
  have h' := hs.attributed
  rw [attrTemp, attrTemp]
  cases hm' : ts'.attrNodeMap[(c, x)]? with
  | none =>
      cases hm : ts.attrNodeMap[(c, x)]? with
      | none => rfl
      | some b =>
          have hb := hs.links b _ ((h₀.tabled.attrs b c x).mp hm).2
          rw [(h'.tabled.attrs b c x).mpr ⟨hx, hb⟩] at hm'
          cases hm'
  | some b =>
      have hb' := ((h'.tabled.attrs b c x).mp hm').2
      have hb := (hs.added b c x hx hb').resolve_right ht
      rw [(h₀.tabled.attrs b c x).mpr ⟨hx, hb⟩]
      exact (hs.still b c x i hx hb' ht).1

theorem leftover_children (hx : hash x) {m : RecordNode} (hp : ts'.currentTree[p]? = some m) :
    ((childrenAt ts'.currentTree p).map (leftover link ts running batch x i)).sum =
      leftoverSum link ts running batch x i p := by
  have h' := hs.attributed
  have hp0 := h'.rooted.ne_zero hp
  have hold {c : NodeID} (hc : parentOf ts.currentTree c = some p) : parentOf ts'.currentTree c = some p := by
    obtain ⟨y, hl⟩ := linkAt_of_parentOf hc
    exact parentOf_of_linkAt (hs.links c _ hl)
  have hmem {c : NodeID} : c ∈ childrenAt ts.currentTree p ↔ parentOf ts.currentTree c = some p := by
    cases hpn : ts.currentTree[p]? with
    | some m => exact h₀.rooted.mem_childrenAt hpn c
    | none =>
        rw [childrenAt, hpn]
        apply iff_of_false List.not_mem_nil
        intro hc
        obtain h0 | ⟨m, hm⟩ := h₀.rooted.parent_known hc
        · exact hp0 h0
        · rw [hpn] at hm
          cases hm
  apply sum_map_subset (childrenAt_nodup _ p) (childrenAt_nodup _ p)
  · intro c hc
    exact (h'.rooted.mem_childrenAt hp c).mpr (hold (hmem.mp hc))
  · intro c hc hnew
    rw [leftover]
    split
    · rfl
    · rw [attrTemp]
      cases hm : ts.attrNodeMap[(c, x)]? with
      | none => rfl
      | some b =>
          have hb := ((h₀.tabled.attrs b c x).mp hm).2
          obtain ⟨q, y, -, hl, -⟩ := Attributed.plain_parent h₀ hx hb
          have hc' := (h'.rooted.mem_childrenAt hp c).mp hc
          rw [parentOf_of_linkAt (hs.links c _ hl), Option.some.injEq] at hc'
          exact absurd (hmem.mpr (hc' ▸ parentOf_of_linkAt hl)) hnew

variable (hi : i < ds.numRecords) (hst : isStatic ds i = false) (hacc : isAccumulated ds i = false)

include hi hst hacc

theorem temp_eq (hx : hash x) (ha : linkAt ts'.currentTree a = some (p, x))
    (ht : AttrTouched link ts.currentTree running batch p x)
    (hch : ∀ c b, parentOf ts'.currentTree c = some p → linkAt ts'.currentTree b = some (c, x) →
      AttrTouched link ts.currentTree running batch c x →
      tempAt ts'.currentTree b i = placeSum link ts'.currentTree batch x i c) :
    tempAt ts'.currentTree a i = placeSum link ts'.currentTree batch x i p +
      leftoverSum link ts running batch x i p := by
  have h' := hs.attributed
  obtain ⟨q, y, hy, hl, -⟩ := Attributed.plain_parent h' hx ha
  obtain ⟨m, hm⟩ := node_of_linkAt hl
  have hcarried (v : ProfileValue) : carried ds i v = v := by simp [carried, hst, hacc]
  have hsplit : ((childrenAt ts'.currentTree p).map (attrTemp ts' x i)).sum =
      ((childrenAt ts'.currentTree p).map (placeSum link ts'.currentTree batch x i)).sum +
        ((childrenAt ts'.currentTree p).map (leftover link ts running batch x i)).sum := by
    rw [← List.sum_map_add]
    congr 1
    apply List.map_congr_left
    intro c hc
    have hcp := (h'.rooted.mem_childrenAt hm c).mp hc
    obtain ⟨n, hn, -⟩ := Rooted.child_exists hcp
    rw [leftover]
    split
    next htc =>
      obtain ⟨b, hb⟩ := hs.reached c x (h'.rooted.ne_zero hn) hx htc
      rw [attrTemp, (h'.tabled.attrs b c x).mpr ⟨hx, hb⟩, add_zero]
      exact hch c b hcp hb htc
    next htc => rw [placeSum_untouched h' hx htc, zero_add, attrTemp_still h₀ hs hx htc]
  rw [hs.temps a p x i hx ha hi hst ht, hcarried, hsplit, placeSum_eq h' hm,
    leftover_children h₀ hs hx hm, add_assoc]

theorem temps_of_noLeftovers (hno : NoLeftovers hash link ts running batch i) (hx : hash x)
    (ha : linkAt ts'.currentTree a = some (p, x)) (ht : AttrTouched link ts.currentTree running batch p x) :
    tempAt ts'.currentTree a i = placeSum link ts'.currentTree batch x i p := by
  have h' := hs.attributed
  induction hm : ts'.currentTree.size - rank' p using Nat.strong_induction_on generalizing a p with
  | _ m ih =>
      obtain ⟨q, y, hy, hl, -⟩ := Attributed.plain_parent h' hx ha
      obtain ⟨n, hn⟩ := node_of_linkAt hl
      rw [temp_eq h₀ hs hi hst hacc hx ha ht, hno p x (h'.rooted.ne_zero hn) hx ht, add_zero]
      intro c b hc hb htc
      obtain ⟨nc, hnc, -⟩ := Rooted.child_exists hc
      have hbound := h'.rooted.bound c nc hnc
      have hrank := h'.rooted.rank_child hc
      exact ih _ (by omega) hb htc rfl

theorem noLeftovers_iff : NoLeftovers hash link ts running batch i ↔
    ∀ a p x, hash x → linkAt ts'.currentTree a = some (p, x) →
      AttrTouched link ts.currentTree running batch p x →
      tempAt ts'.currentTree a i = placeSum link ts'.currentTree batch x i p := by
  constructor
  · intro hno a p x hx ha ht
    exact temps_of_noLeftovers h₀ hs hi hst hacc hno hx ha ht
  · intro hall p x hp hx ht
    obtain ⟨a, ha⟩ := hs.reached p x hp hx ht
    have heq := temp_eq h₀ hs hi hst hacc hx ha ht (fun c b _ hb htc => hall b c x hx hb htc)
    rw [hall a p x hx ha ht] at heq
    exact left_eq_add.mp heq

end Step

/-- A run in attribute mode: well-formed batches at successive times. -/
structure AttrRun (ds : DataStore) (hash : NameID → Prop) (deliveries : List Delivery) : Prop where
  times : (deliveries.map (fun d => d.time)).Pairwise (· < ·)
  batches : ∀ done d rest, deliveries = done ++ d :: rest → AttrBatch ds hash (logOf done) d
  root : ¬ hash 0

/-- What holds of a thread store after the deliveries `done` in attribute mode: no node is
dirty, and just the attributes that occur below a node have an attribute node under it. -/
structure AttrReached (ds : DataStore) (hash : NameID → Prop) (done : List Delivery)
    (rank : NodeID → Nat) (ts : ThreadStore) : Prop where
  tabled : Tabled hash (linkOf (logOf done)) ts
  rooted : Rooted ts.currentTree rank
  sized : ∀ (k : NodeID) (n : RecordNode), ts.currentTree[k]? = some n →
    n.allValues.length = ds.numRecords ∧ n.childrenValues.length = ds.numRecords ∧
      n.tempValues.length = ds.numRecords
  rootGnid : ∀ n, ts.currentTree[(1 : NodeID)]? = some n → n.gnid ≠ 0
  clean : ∀ k, dirtyAt ts.currentTree k = false
  occurs : ∀ p x, p ≠ 0 → hash x →
    ((∃ a, linkAt ts.currentTree a = some (p, x)) ↔ Occurs (linkOf (logOf done)) (logOf done) p x)
  start : ts.timeSlice = [] ∨ ∃ d ∈ done, ts.startTimeNumber ≤ d.time
  fresh : ∀ u, (∀ d ∈ done, d.time ≠ u) → sliceAt ts u = ∅

theorem name_of_linkOf {k : NodeID} (h : linkOf log k = some (q, x)) : x = 0 ∨ ∃ r ∈ log, r.nameid = x := by
  rw [linkOf] at h
  split at h
  · cases h
    exact Or.inl rfl
  · obtain ⟨r, hr, he⟩ := Option.map_eq_some_iff.mp h
    cases he
    exact Or.inr ⟨r, List.mem_of_find?_eq_some hr, rfl⟩

theorem AttrReached.attributed (h : AttrReached ds hash done rank ts)
    (hb : AttrBatch ds hash (logOf done) d) :
    Attributed (d.dataStore ds) hash (linkOf (logOf done)) rank ts := by
  refine ⟨h.tabled, h.rooted, h.sized, h.rootGnid, fun k p x hk => ?_⟩
  have hname : x = 0 ∨ ∃ r ∈ logOf done, r.nameid = x := by
    by_cases hx : hash x
    · have hp : p ≠ 0 := by
        rintro rfl
        have h1 := h.rooted.root_unique (parentOf_of_linkAt hk)
        rw [h1, (h.tabled.plain 1 0 0 h.tabled.root.1).mpr h.tabled.root.2,
          Option.some.injEq, Prod.mk.injEq] at hk
        exact h.tabled.root.1 (hk.2 ▸ hx)
      obtain ⟨r, hr, q, hq, -⟩ := (h.occurs p x hp hx).mp ⟨k, hk⟩
      exact name_of_linkOf hq
    · exact name_of_linkOf ((h.tabled.plain k p x hx).mp hk)
  apply hb.names
  obtain h0 | ⟨r, hr, he⟩ := hname
  · exact Or.inl h0
  · exact Or.inr ⟨r, List.mem_append_left _ hr, he⟩

theorem linkOf_zero (h : linkOf log 0 = none) (hb : WellFormedBatch ds log d) :
    linkOf (log ++ d.batch) 0 = none := by
  rw [← Option.not_isSome_iff_eq_none, linkOf_isSome]
  rintro (h0 | ⟨r, hr, he⟩)
  · cases h0
  · obtain hr | hr := List.mem_append.mp hr
    · have hk : (linkOf log 0).isSome = true := linkOf_isSome.mpr (Or.inr ⟨r, hr, he⟩)
      rw [h] at hk
      cases hk
    · exact hb.nonzero r hr he

theorem AttrReached.step (hd : Described ds) (hon : gl.leafNodeAccumulate = true)
    (hsingle : gl.singleTreeMode = false) (h : AttrReached ds hash done rank ts)
    (hb : AttrBatch ds hash (logOf done) d) (htime : ∀ e ∈ done, e.time < d.time) :
    ∃ ts' rank', d.store gl ds ts = .ok ts' ∧
      AttrStored (d.dataStore ds) hash (linkOf (logOf done ++ d.batch)) ts
        d.now.runningNode d.batch rank' ts' ∧
      AttrReached ds hash (done ++ [d]) rank' ts' := by
  have hreach : ts.timeSlice = [] ∨ ts.startTimeNumber ≤ d.time := by
    obtain h0 | ⟨e, he, hle⟩ := h.start
    · exact Or.inl h0
    · exact Or.inr (hle.trans (htime e he).le)
  have h₀ := h.attributed hb
  obtain ⟨ts', rank', hrun, hs⟩ :=
    store_attrStored hd hon hsingle h₀ h.clean hb hreach (h.fresh d.time fun e he => (htime e he).ne)
  have h' := hs.attributed
  have hzero := linkOf_zero h.tabled.zero hb.formed
  have hlog : logOf (done ++ [d]) = logOf done ++ d.batch := by rw [logOf_append, logOf_singleton]
  refine ⟨ts', rank', hrun, hs, hlog.symm ▸ h'.tabled, h'.rooted, h'.sized, h'.rootGnid, hs.clean, ?_, ?_, ?_⟩
  · intro p x hp hx
    rw [hlog]
    have hold : Occurs (linkOf (logOf done)) (logOf done) p x →
        Occurs (linkOf (logOf done ++ d.batch)) (logOf done ++ d.batch) p x := by
      rintro ⟨r, hr, q, hq, hbelow⟩
      refine ⟨r, List.mem_append_left _ hr, q, linkOf_mono hq _,
        Below.links (fun k l hl => linkOf_mono hl _) hbelow⟩
    constructor
    · rintro ⟨a, ha⟩
      obtain ha | ⟨q, ⟨r, hr, hq⟩ | hq, hbelow⟩ := hs.added a p x hx ha
      · exact hold ((h.occurs p x hp hx).mp ⟨a, ha⟩)
      · exact ⟨r, List.mem_append_right _ hr, q, hq, hbelow⟩
      · obtain ⟨q', y, -, hl, -⟩ := Attributed.plain_parent h₀ hx hq
        obtain ⟨n, hn⟩ := node_of_linkAt hl
        obtain ⟨r, hr, s, hs', hbelow'⟩ := (h.occurs q x (h.rooted.ne_zero hn) hx).mp ⟨_, hq⟩
        refine ⟨r, List.mem_append_left _ hr, s, linkOf_mono hs' _, ?_⟩
        exact Relation.ReflTransGen.trans (Below.links (fun k l hl => linkOf_mono hl _) hbelow') hbelow
    · rintro ⟨r, hr, q, hq, hbelow⟩
      obtain hr | hr := List.mem_append.mp hr
      · have hq' : linkOf (logOf done) r.callNodeId = some (q, x) := by rwa [linkOf_old_mem hr] at hq
        obtain ⟨b, hb'⟩ : ∃ b, linkAt ts.currentTree b = some (q, x) := ⟨_, h.tabled.known _ q x hx hq'⟩
        obtain ⟨q', y, hy, hl, -⟩ := Attributed.plain_parent h₀ hx hb'
        have hknown := (h.tabled.plain q q' y hy).mp hl
        rw [below_grown h.tabled hzero ⟨_, hknown⟩] at hbelow
        obtain ⟨a, ha⟩ := (h.occurs p x hp hx).mpr ⟨r, hr, q, hq', hbelow⟩
        exact ⟨a, hs.links a _ ha⟩
      · exact hs.reached p x hp hx ⟨q, Or.inl ⟨r, hr, hq⟩, hbelow⟩
  · right
    rw [hs.startTimeNumber, ThreadStore.startFor]
    split
    · exact ⟨d, by simp, le_refl _⟩
    next he =>
      obtain h0 | ⟨e, he, hle⟩ := h.start
      · rw [h0] at he
        exact absurd rfl he
      · exact ⟨e, List.mem_append_left _ he, hle⟩
  · intro u hfree
    have hne : u ≠ d.time := fun he => hfree d (by simp) he.symm
    rw [hs.slices u hne]
    exact h.fresh u fun e he => hfree e (List.mem_append_left _ he)

theorem newThreadStore_attrReached (gl : Settings) (ds : DataStore) (threadId : ThreadID)
    (hsingle : gl.singleTreeMode = false) (h0 : ¬ hash 0) : ∃ rank,
    AttrReached ds hash [] rank (newThreadStore gl ds threadId) := by
  obtain ⟨rank, hr⟩ := newThreadStore_reached gl ds threadId
  have hlink (k : NodeID) : linkAt (newThreadStore gl ds threadId).currentTree k = linkOf (logOf []) k :=
    hr.links k
  have hroot {k : NodeID} {l : NodeID × NameID} (h : linkOf (logOf []) k = some l) : k = 1 ∧ l = (0, 0) := by
    rw [linkOf] at h
    split at h
    next h1 =>
      cases h
      exact ⟨h1, rfl⟩
    next => cases h
  have hplain {k p : NodeID} {x : NameID} (hx : hash x) (h : linkOf (logOf []) k = some (p, x)) : False := by
    obtain ⟨-, he⟩ := hroot h
    cases he
    exact h0 hx
  refine ⟨rank, ⟨?_, ?_, ?_, ?_, ?_, ?_, le_refl _, ?_, ⟨h0, rfl⟩, rfl⟩, hr.wf.rooted, fun k n hk => ?_,
    hr.wf.rootGnid, hr.clean, ?_, hr.start, hr.fresh⟩
  · intro k p x _
    rw [hlink]
  · intro a p x
    rw [hr.attrNodeMap, Std.TreeMap.getElem?_emptyc, hlink]
    refine iff_of_false ?_ fun h => hplain h.1 h.2
    intro h
    cases h
  · intro k p x hx h
    exact (hplain hx h).elim
  · intro k a h
    rw [show (newThreadStore gl ds threadId).attrNodeIdAlt = ∅ from rfl, Std.TreeMap.getElem?_emptyc] at h
    cases h
  · intro c p x h
    rw [hlink] at h
    obtain ⟨-, he⟩ := hroot h
    exact Or.inl (congrArg Prod.fst he)
  · intro a p x hx h _
    rw [hlink] at h
    exact (hplain hx h).elim
  · intro k l h
    rw [hlink] at h
    rw [(hroot h).1]
    exact (by decide : 1 < firstAttrNodeId)
  · obtain ⟨-, -, h3, h4⟩ := hr.wf.sized k n hk
    exact ⟨(h4 hsingle).1, (h4 hsingle).2, h3⟩
  · intro p x _ hx
    constructor
    · rintro ⟨a, ha⟩
      rw [hlink] at ha
      exact (hplain hx ha).elim
    · rintro ⟨r, hr, -⟩
      cases hr

/-- The attribute totals of a slot: under every node whose name is plain, the attribute
node of a name that occurs below it has the sum of the records of that name below it, as
far as 64 bits can hold it. -/
def AddUp (hash : NameID → Prop) (log : List MethodNodeSerializedInfo) (i : Nat) (ts : ThreadStore) : Prop :=
  ∀ n x, (∃ q y, ¬ hash y ∧ linkOf log n = some (q, y)) → hash x → Occurs (linkOf log) log n x →
    ∃ a, ts.attrNodeMap[(n, x)]? = some a ∧ Counts (allAt ts.currentTree i a)
      (sumBelow (linkOf log).parent (fun r => r.callNodeId) (fun r => (recordValue i r).toInt) (namedIn (linkOf log) log x) n)

theorem counts_attrSum (link : Links) (log : List MethodNodeSerializedInfo) (n : NodeID)
    (x : NameID) (i : Nat) : Counts (attrSum link log n x i)
      (sumBelow link.parent (fun r => r.callNodeId) (fun r => (recordValue i r).toInt) (namedIn link log x) n) :=
  counts_sumBelow (fun _ _ => counts_toInt _) _ _ _

theorem AttrReached.plain_parent (h : AttrReached ds hash done rank ts) (hx : hash x)
    (ha : linkAt ts.currentTree a = some (p, x)) : ∃ q y, ¬ hash y ∧ linkOf (logOf done) p = some (q, y) := by
  obtain rfl | ⟨q, y, hy, hp⟩ := h.tabled.inner a p x ha
  · have h1 := h.rooted.root_unique (parentOf_of_linkAt ha)
    rw [h1, (h.tabled.plain 1 0 0 h.tabled.root.1).mpr h.tabled.root.2,
      Option.some.injEq, Prod.mk.injEq] at ha
    exact absurd (ha.2 ▸ hx) h.tabled.root.1
  · exact ⟨q, y, hy, (h.tabled.plain p q y hy).mp hp⟩

theorem AttrReached.totals_iff (h : AttrReached ds hash done rank ts) : AddUp hash (logOf done) i ts ↔
    ∀ a p x, hash x → linkAt ts.currentTree a = some (p, x) →
      allAt ts.currentTree i a = attrSum (linkOf (logOf done)) (logOf done) p x i := by
  constructor
  · intro ht a p x hx ha
    obtain ⟨q, y, hy, hp⟩ := h.plain_parent hx ha
    have hp0 : p ≠ 0 := by
      rintro rfl
      rw [h.tabled.zero] at hp
      cases hp
    obtain ⟨b, hb, hcounts⟩ := ht p x ⟨q, y, hy, hp⟩ hx ((h.occurs p x hp0 hx).mp ⟨a, ha⟩)
    rw [Tabled.attr_unique h.tabled hx ha ((h.tabled.attrs b p x).mp hb).2, hcounts.wrapped]
    exact (counts_attrSum _ _ _ _ _).wrapped.symm
  · rintro ht n x ⟨q, y, hy, hn⟩ hx hocc
    have hn0 : n ≠ 0 := by
      rintro rfl
      rw [h.tabled.zero] at hn
      cases hn
    obtain ⟨a, ha⟩ := (h.occurs n x hn0 hx).mpr hocc
    refine ⟨a, (h.tabled.attrs a n x).mpr ⟨hx, ha⟩, ?_⟩
    rw [ht a n x hx ha]
    exact counts_attrSum _ _ _ _ _

theorem AttrReached.base (h : AttrReached ds hash done rank ts)
    (h' : AttrReached ds hash (done ++ [d]) rank' ts')
    (hlinks : ∀ k l, linkAt ts.currentTree k = some l → linkAt ts'.currentTree k = some l)
    (ht : AddUp hash (logOf done) i ts) (hx : hash x) (ha : linkAt ts'.currentTree a = some (p, x)) :
    allAt ts.currentTree i a = attrSum (linkOf (logOf done)) (logOf done) p x i := by
  cases hk : linkAt ts.currentTree a with
  | some l =>
      have hl := hlinks a l hk
      rw [ha, Option.some.injEq] at hl
      exact h.totals_iff.mp ht a p x hx (hl ▸ hk)
  | none =>
      obtain ⟨q, y, hy, hp⟩ := h'.plain_parent hx ha
      have hp0 : p ≠ 0 := by
        rintro rfl
        rw [h'.tabled.zero] at hp
        cases hp
      have hplain : ∀ p' y', linkOf (logOf done) p = some (p', y') → ¬ hash y' := by
        intro p' y' hl
        rw [logOf_append, linkOf_mono hl, Option.some.injEq, Prod.mk.injEq] at hp
        exact hp.2 ▸ hy
      have hnone : ∀ r ∈ namedIn (linkOf (logOf done)) (logOf done) x,
          ¬ Below (linkOf (logOf done)).parent p r.callNodeId := by
        intro r hr hb
        obtain ⟨hr, s, hs⟩ := mem_namedIn.mp hr
        obtain ⟨b, hb'⟩ := (h.occurs p x hp0 hx).mpr ⟨r, hr, s, hs, (below_attr hx hplain hs).mp hb⟩
        rw [← Tabled.attr_unique h'.tabled hx ha (hlinks b _ hb'), hk] at hb'
        cases hb'
      rw [attrSum, sumBelow_eq_zero hnone, allAt, linkAt_eq_none.mp hk]
      rfl

theorem AttrReached.totals_step (h : AttrReached ds hash done rank ts) (hb : AttrBatch ds hash (logOf done) d)
    (hs : AttrStored (d.dataStore ds) hash (linkOf (logOf done ++ d.batch)) ts d.now.runningNode d.batch rank' ts')
    (h' : AttrReached ds hash (done ++ [d]) rank' ts') (hi : i < ds.numRecords) (hst : isStatic ds i = false)
    (hacc : isAccumulated ds i = false) (ht : AddUp hash (logOf done) i ts) :
    AddUp hash (logOf (done ++ [d])) i ts' ↔
      NoLeftovers hash (linkOf (logOf done ++ d.batch)) ts d.now.runningNode d.batch i := by
  have h₀ := h.attributed hb
  have hzero := linkOf_zero h.tabled.zero hb.formed
  have hlog : logOf (done ++ [d]) = logOf done ++ d.batch := by rw [logOf_append, logOf_singleton]
  have hattr := hs.attributed
  have hsum {a p : NodeID} {x : NameID} (hx : hash x) (ha : linkAt ts'.currentTree a = some (p, x)) :
      attrSum (linkOf (logOf (done ++ [d]))) (logOf (done ++ [d])) p x i =
        allAt ts.currentTree i a + placeSum (linkOf (logOf done ++ d.batch))
          ts'.currentTree d.batch x i p := by
    obtain ⟨q, y, hy, hp⟩ := h'.plain_parent hx ha
    rw [hlog, attrSum_append h.tabled hzero, h.base h' hs.links ht hx ha, placeSum_eq_attrSum hattr hx]
    intro p' y' hl
    rw [hlog, hl, Option.some.injEq, Prod.mk.injEq] at hp
    exact hp.2 ▸ hy
  rw [h'.totals_iff, noLeftovers_iff h₀ hs hi hst hacc]
  constructor
  · intro hall a p x hx ha htouched
    have := hall a p x hx ha
    rw [hsum hx ha, hs.all a p x i hx ha hi hst htouched] at this
    exact add_left_cancel this
  · intro hall a p x hx ha
    rw [hsum hx ha]
    by_cases htouched : AttrTouched (linkOf (logOf done ++ d.batch)) ts.currentTree
      d.now.runningNode d.batch p x
    · rw [hs.all a p x i hx ha hi hst htouched, hall a p x hx ha htouched]
    · rw [(hs.still a p x i hx ha htouched).2, placeSum_untouched hattr hx htouched, add_zero]

theorem storeAll_attrReached (gl : Settings) (hon : gl.leafNodeAccumulate = true)
    (hsingle : gl.singleTreeMode = false) (ds : DataStore) (hd : Described ds) (threadId : ThreadID)
    {deliveries : List Delivery} (hw : AttrRun ds hash deliveries) :
    ∃ ts rank, storeAll gl ds (newThreadStore gl ds threadId) deliveries = .ok ts ∧
      AttrReached ds hash deliveries rank ts := by
  obtain ⟨ts, hrun, rank, hr⟩ :=
    foldlM_total (f := Delivery.store gl ds) (fun done ts => ∃ rank, AttrReached ds hash done rank ts)
      deliveries
      (by
        rintro done d rest ts he ⟨rank, hr⟩
        have htimes := hw.times
        rw [he, List.map_append, List.pairwise_append] at htimes
        obtain ⟨ts', rank', hrun, -, hr'⟩ := hr.step hd hon hsingle (hw.batches done d rest he)
          fun e hmem => htimes.2.2 _ (List.mem_map_of_mem hmem) _ (by simp)
        exact ⟨ts', hrun, rank', hr'⟩)
      (newThreadStore_attrReached gl ds threadId hsingle hw.root)
  exact ⟨ts, rank, hrun, hr⟩

/-- In attribute mode the totals of a slot are right after every store of a run just if no
store of it finds anything left over. -/
theorem attr_totals_iff (gl : Settings) (hon : gl.leafNodeAccumulate = true)
    (hsingle : gl.singleTreeMode = false) (ds : DataStore) (hd : Described ds) (threadId : ThreadID)
    (hash : NameID → Prop) (deliveries : List Delivery) (hw : AttrRun ds hash deliveries) (i : Nat)
    (hi : i < ds.numRecords) (hst : isStatic ds i = false) (hacc : isAccumulated ds i = false) :
    (∃ ts, storeAll gl ds (newThreadStore gl ds threadId) deliveries = .ok ts) ∧
      (Throughout (Delivery.store gl ds)
        (fun done ts d => ∀ ts', d.store gl ds ts = .ok ts' → AddUp hash (logOf (done ++ [d])) i ts')
        (newThreadStore gl ds threadId) deliveries ↔
      Throughout (Delivery.store gl ds)
        (fun done ts d => NoLeftovers hash (linkOf (logOf done ++ d.batch)) ts d.now.runningNode d.batch i)
        (newThreadStore gl ds threadId) deliveries) := by
  obtain ⟨ts, _, hrun, -⟩ := storeAll_attrReached gl hon hsingle ds hd threadId hw
  refine ⟨⟨ts, hrun⟩, ?_⟩
  have hformed {done rest : List Delivery} {d : Delivery} (he : deliveries = done ++ d :: rest) :
      AttrBatch ds hash (logOf done) d ∧ ∀ e ∈ done, e.time < d.time := by
    have htimes := hw.times
    rw [he, List.map_append, List.pairwise_append] at htimes
    exact ⟨hw.batches done d rest he, fun e hmem => htimes.2.2 _ (List.mem_map_of_mem hmem) _ (by simp)⟩
  have hadd (P : List Delivery → ThreadStore → Delivery → Prop) :
      Throughout (Delivery.store gl ds) P (newThreadStore gl ds threadId) deliveries ↔
        Throughout (Delivery.store gl ds)
          (fun done ts d => (AttrBatch ds hash (logOf done) d ∧ ∀ e ∈ done, e.time < d.time) ∧ P done ts d)
          (newThreadStore gl ds threadId) deliveries := by
    constructor
    · intro h done d rest ts he hrun
      exact ⟨hformed he, h done d rest ts he hrun⟩
    · intro h done d rest ts he hrun
      exact (h done d rest ts he hrun).2
  rw [hadd, hadd (fun done ts d => NoLeftovers hash (linkOf (logOf done ++ d.batch)) ts d.now.runningNode d.batch i)]
  apply throughout_iff (I := fun done ts => (∃ rank, AttrReached ds hash done rank ts) ∧
    AddUp hash (logOf done) i ts)
  · refine ⟨newThreadStore_attrReached gl ds threadId hsingle hw.root, ?_⟩
    rintro n x - - ⟨r, hr, -⟩
    cases hr
  · rintro done ts d ts' - ⟨⟨rank, hr⟩, ht⟩ ⟨⟨hb, htime⟩, hno⟩ hstore
    obtain ⟨ts₁, rank', hrun₁, hs, hr'⟩ := hr.step hd hon hsingle hb htime
    rw [hstore, Except.ok.injEq] at hrun₁
    subst hrun₁
    exact ⟨⟨rank', hr'⟩, (hr.totals_step hb hs hr' hi hst hacc ht).mpr hno⟩
  · rintro done ts d - ⟨⟨rank, hr⟩, ht⟩
    apply and_congr_right
    rintro ⟨hb, htime⟩
    obtain ⟨ts', rank', hrun₁, hs, hr'⟩ := hr.step hd hon hsingle hb htime
    rw [← hr.totals_step hb hs hr' hi hst hacc ht]
    constructor
    · intro h
      exact h ts' hrun₁
    · intro h ts'' hrun''
      rw [hrun₁, Except.ok.injEq] at hrun''
      exact hrun'' ▸ h

/-- In attribute mode, after every store of a run no node is dirty, a node whose name is
plain has one attribute node for each attribute that occurs below it and no other, and the
id of every node of the client leads to the node of its place. -/
theorem attr_nodes_of_run (gl : Settings) (hon : gl.leafNodeAccumulate = true)
    (hsingle : gl.singleTreeMode = false) (ds : DataStore) (hd : Described ds) (threadId : ThreadID)
    (hash : NameID → Prop) (deliveries : List Delivery) (hw : AttrRun ds hash deliveries) :
    ∃ ts, storeAll gl ds (newThreadStore gl ds threadId) deliveries = .ok ts ∧
      (∀ k, dirtyAt ts.currentTree k = false) ∧
      (∀ p x a, ts.attrNodeMap[(p, x)]? = some a ↔ hash x ∧ linkAt ts.currentTree a = some (p, x)) ∧
      (∀ p x, p ≠ 0 → hash x →
        ((∃ a, ts.attrNodeMap[(p, x)]? = some a) ↔
          Occurs (linkOf (logOf deliveries)) (logOf deliveries) p x)) ∧
      ∀ k l, linkOf (logOf deliveries) k = some l →
        linkAt ts.currentTree (ts.attrNodeIdAlt.getD k k) = some l := by
  obtain ⟨ts, rank, hrun, hr⟩ := storeAll_attrReached gl hon hsingle ds hd threadId hw
  refine ⟨ts, hrun, hr.clean, fun p x a => hr.tabled.attrs a p x, fun p x hp hx => ?_, ?_⟩
  · rw [← hr.occurs p x hp hx]
    apply exists_congr
    intro a
    rw [hr.tabled.attrs a p x]
    exact and_iff_right hx
  · rintro k ⟨p, x⟩ hl
    by_cases hx : hash x
    · exact hr.tabled.known k p x hx hl
    · rw [hr.tabled.not_alias, hr.tabled.plain k p x hx]
      · exact hl
      · intro p' y hy hl'
        rw [hl, Option.some.injEq, Prod.mk.injEq] at hl'
        exact hx (hl'.2 ▸ hy)

def attrMode : Settings := { leafNodeAccumulate := true, singleTreeMode := false, hashStrHard := fun _ => 7 }

def attrNames : Std.TreeMap NameID Bytes :=
  (((∅ : Std.TreeMap NameID Bytes).insert 1 (ascii "#a")).insert 2 (ascii "f")).insert 3 (ascii "g")

def attrTwice : List Delivery :=
  [{ time := 1, nameTable := attrNames, batch := [⟨2, 2, 1, 1, [0]⟩, ⟨1, 3, 2, 1, [5]⟩], now := ⟨1, [0]⟩ },
   { time := 2, nameTable := attrNames, batch := [⟨3, 4, 1, 1, [0]⟩, ⟨1, 5, 4, 1, [7]⟩], now := ⟨1, [0]⟩ }]

theorem attrNames_settled {x : NameID} (h : x = 0 ∨ x = 1 ∨ x = 2 ∨ x = 3) :
    isAttrName (({ plainSlot with nameTable := attrNames } : DataStore).getNameFromID x) = true ↔ x = 1 := by
  obtain rfl | rfl | rfl | rfl := h
  · exact iff_of_false (by decide +kernel) (by decide)
  · exact iff_of_true (by decide +kernel) rfl
  · exact iff_of_false (by decide +kernel) (by decide)
  · exact iff_of_false (by decide +kernel) (by decide)

theorem attrBatch_of_checks (hf : WellFormedBatch plainSlot log d)
    (hsmall : ∀ r ∈ d.batch, r.callNodeId < firstAttrNodeId) (ht : d.nameTable = attrNames)
    (hnames : ∀ r ∈ log ++ d.batch, r.nameid = 1 ∨ r.nameid = 2 ∨ r.nameid = 3)
    (hleaves : ∀ r ∈ d.batch, (linkOf (log ++ d.batch) r.parentNodeId).all (fun l => l.2 ≠ 1) = true)
    (hplaces : ∀ r ∈ d.batch, ∀ s ∈ d.batch, linkOf (log ++ d.batch) r.callNodeId = linkOf (log ++ d.batch) s.callNodeId →
      r.callNodeId = s.callNodeId) : AttrBatch plainSlot (· = 1) log d := by
  refine ⟨hf, hsmall, fun x hx => ?_, fun r hr q y hl => ?_, fun r hr s hs p x _ hl hl' =>
    hplaces r hr s hs (hl.trans hl'.symm)⟩
  · rw [DataStore.getNameFromID, Delivery.dataStore, ht]
    apply attrNames_settled
    obtain h0 | ⟨r, hr, rfl⟩ := hx
    · exact Or.inl h0
    · exact Or.inr (hnames r hr)
  · have := hleaves r hr
    rw [hl, Option.all_some, decide_eq_true_iff] at this
    exact this

theorem attrTwice_run : AttrRun plainSlot (· = 1) attrTwice := by
  refine ⟨by decide, forall_split_cons.mpr ⟨?_, forall_split_cons.mpr ⟨?_, forall_split_nil⟩⟩, by decide⟩
  · refine attrBatch_of_checks ⟨by decide, by decide, ?_, by decide, by decide⟩ (by decide) rfl
      (by decide) (by decide) (by decide)
    exact forall_split_cons.mpr ⟨Or.inl rfl, forall_split_cons.mpr ⟨Or.inr (by decide), forall_split_nil⟩⟩
  · refine attrBatch_of_checks ⟨by decide, by decide, ?_, by decide, by decide⟩ (by decide) rfl
      (by decide) (by decide) (by decide)
    exact forall_split_cons.mpr ⟨Or.inl rfl, forall_split_cons.mpr ⟨Or.inr (by decide), forall_split_nil⟩⟩

theorem attr_totals_iff_twice :
    (∃ ts, storeAll attrMode plainSlot (newThreadStore attrMode plainSlot 0) attrTwice = .ok ts) ∧
    (Throughout (Delivery.store attrMode plainSlot)
      (fun done ts d => ∀ ts', d.store attrMode plainSlot ts = .ok ts' →
        AddUp (· = 1) (logOf (done ++ [d])) 0 ts')
      (newThreadStore attrMode plainSlot 0) attrTwice ↔
    Throughout (Delivery.store attrMode plainSlot)
      (fun done ts d => NoLeftovers (· = 1) (linkOf (logOf done ++ d.batch)) ts d.now.runningNode d.batch 0)
      (newThreadStore attrMode plainSlot 0) attrTwice) :=
  attr_totals_iff attrMode rfl rfl plainSlot rfl 0 (· = 1) attrTwice attrTwice_run 0 (by decide) rfl rfl

theorem attr_nodes_of_run_twice :
    ∃ ts, storeAll attrMode plainSlot (newThreadStore attrMode plainSlot 0) attrTwice = .ok ts ∧
      (∀ k, dirtyAt ts.currentTree k = false) ∧
      (∀ p x a, ts.attrNodeMap[(p, x)]? = some a ↔ x = 1 ∧ linkAt ts.currentTree a = some (p, x)) ∧
      (∀ p x, p ≠ 0 → x = 1 →
        ((∃ a, ts.attrNodeMap[(p, x)]? = some a) ↔ Occurs (linkOf (logOf attrTwice)) (logOf attrTwice) p x)) ∧
      ∀ k l, linkOf (logOf attrTwice) k = some l →
        linkAt ts.currentTree (ts.attrNodeIdAlt.getD k k) = some l :=
  attr_nodes_of_run attrMode rfl rfl plainSlot rfl 0 (· = 1) attrTwice attrTwice_run

/-- The second store counts the 5 of the first again: under the root the attribute has 17
where 12 have been stored. -/
example : ((storeAll attrMode plainSlot (newThreadStore attrMode plainSlot 0) attrTwice).toOption.map
    (fun ts => ts.attrNodeMap[((1 : NodeID), (1 : NameID))]?.map (allAt ts.currentTree 0))) =
      some (some 17) := by
  decide +kernel

end Llprof.Monitor.AttrTotals
