import Llprof.Monitor.IntegrationSlots
import Llprof.Monitor.NamePaths
import Llprof.Monitor.SequenceOrder

namespace Llprof.Monitor.Gathering

open Faulting hiding store
open Avoiding LabelPaths ParentTree TreeMaps Slots LittleEndian Nodes Store SlotLoops TreeShape FlushSpec
  Slices MergeSlices SliceFrame SliceContents SlicesKnown Ticks TickFrame FlushRule StoreRule SequenceOrder
  IntegrationSlots NamePaths

variable {gl : Settings} {ds srcDs : DataStore} {src : List NamePath}
  {g g' : GlobalThreadStore} {st : Integrating} {p q : NamePath}

theorem integrateValues_eq (hd : Described ds) {e dest : RecordNodeBasic} {cur : RecordNode}
    (he : (entryOf e).Sized ds) (hdest : (entryOf dest).Sized ds) (hcur : FullNode ds cur) :
    ∃ dest', integrateValues ds e dest cur = .ok (dest', { cur with
      allValues := slots ds.numRecords (fun i => value cur.allValues i + counted ds i (value e.allValues i))
      childrenValues := slots ds.numRecords (fun i =>
        value cur.childrenValues i + counted ds i (value e.childrenValues i)) }) := by
  obtain ⟨hea, hec⟩ : e.allValues.length = ds.numRecords ∧ e.childrenValues.length = ds.numRecords := he
  obtain ⟨hda, hdc⟩ : dest.allValues.length = ds.numRecords ∧ dest.childrenValues.length = ds.numRecords :=
    hdest
  obtain ⟨hca, hcc⟩ : cur.allValues.length = ds.numRecords ∧ cur.childrenValues.length = ds.numRecords :=
    hcur.entry
  let sum (xs ys : List ProfileValue) (i : Nat) : ProfileValue := value xs i + counted ds i (value ys i)
  obtain ⟨st, hrun, rfl⟩ := forRange_total ds.numRecords
    (fun i (st : RecordNodeBasic × RecordNode) => st =
      ({ dest with
          allValues := slots ds.numRecords (upTo i (sum dest.allValues e.allValues) (value dest.allValues))
          childrenValues := slots ds.numRecords
            (upTo i (sum dest.childrenValues e.childrenValues) (value dest.childrenValues)) },
       { cur with
          allValues := slots ds.numRecords (upTo i (sum cur.allValues e.allValues) (value cur.allValues))
          childrenValues := slots ds.numRecords
            (upTo i (sum cur.childrenValues e.childrenValues) (value cur.childrenValues)) }))
    (f := fun (st : RecordNodeBasic × RecordNode) i => do
      let md ← fetch ds.recordMetadata i
      if md.staticValueFlag then
        return st
      else
        let all ← fetch e.allValues i
        let children ← fetch e.childrenValues i
        let destAll ← updateAt st.1.allValues i (· + all)
        let destChildren ← updateAt st.1.childrenValues i (· + children)
        let currentAll ← updateAt st.2.allValues i (· + all)
        let currentChildren ← updateAt st.2.childrenValues i (· + children)
        return ({ st.1 with allValues := destAll, childrenValues := destChildren },
          { st.2 with allValues := currentAll, childrenValues := currentChildren }))
    (by
      rintro i _ hi rfl
      obtain ⟨md, hmd, hs, -⟩ := metadata_eq hd hi
      refine ⟨_, ?_, rfl⟩
      rw [hmd, ok_bind, hs]
      cases hst : isStatic ds i with
      | true =>
          have hsame (xs ys : List ProfileValue) : sum xs ys i = value xs i := by
            simp only [sum, counted, hst, if_true, add_zero]
          rw [if_pos rfl, pure_eq_ok]
          simp only [slots_upTo_succ _ _ _ (hsame _ _)]
      | false =>
          have hadd (xs ys : List ProfileValue) :
              updateAt (slots ds.numRecords (upTo i (sum xs ys) (value xs))) i (· + value ys i) =
                .ok (slots ds.numRecords (upTo (i + 1) (sum xs ys) (value xs))) :=
            updateAt_upTo hi (by simp only [sum, counted, hst, Bool.false_eq_true, if_false])
          have hfetch {ys : List ProfileValue} (hl : ys.length = ds.numRecords) :
              fetch ys i = .ok (value ys i) := by
            rw [← slots_value hl, fetch_slots _ hi, value_slots _ hi]
          dsimp only
          rw [if_neg Bool.false_ne_true, hfetch hea, ok_bind, hfetch hec, ok_bind, hadd, ok_bind,
            hadd, ok_bind, hadd, ok_bind, hadd, ok_bind, pure_eq_ok])
    (s := (dest, cur)) (by simp only [upTo_zero, slots_value hda, slots_value hdc, slots_value hca, slots_value hcc])
  simp only [slots_upTo] at hrun
  exact ⟨_, hrun⟩

structure Measurement where
  path : Option NamePath
  entry : RecordNodeBasic
  deriving DecidableEq, Repr

noncomputable def total {M : Type} [AddCommMonoid M] (f : RecordNodeBasic → M)
    (ms : List Measurement) (p : NamePath) : M :=
  sumAt Measurement.path (fun m => f m.entry) ms (some p)

structure Holds (ds : DataStore) (ms : List Measurement) (p : NamePath) (n : RecordNodeBasic) : Prop where
  calls : n.callCount = total RecordNodeBasic.callCount ms p
  all : ∀ i < ds.numRecords, isStatic ds i = false →
    value n.allValues i = total (fun e => value e.allValues i) ms p
  children : ∀ i < ds.numRecords, isStatic ds i = false →
    value n.childrenValues i = total (fun e => value e.childrenValues i) ms p

section Totals

variable {M : Type} [AddCommMonoid M] {f : RecordNodeBasic → M} {ms : List Measurement} {m : Measurement}

theorem total_snoc (f : RecordNodeBasic → M) (ms : List Measurement) (p : NamePath) (e : RecordNodeBasic) :
    total f (ms ++ [⟨some p, e⟩]) p = total f ms p + f e := by
  rw [total, sumAt_append, sumAt_singleton, if_pos rfl]
  rfl

theorem total_snoc_ne (f : RecordNodeBasic → M) (ms : List Measurement) (e : RecordNodeBasic) (h : q ≠ p) :
    total f (ms ++ [⟨some q, e⟩]) p = total f ms p := by
  rw [total, sumAt_append, sumAt_singleton, if_neg fun he => h (Option.some.inj he), add_zero]
  rfl

theorem total_none (f : RecordNodeBasic → M) (h : ∀ m ∈ ms, m.path ≠ some p) : total f ms p = 0 :=
  sumAt_eq_zero h

end Totals

variable {ms : List Measurement}

theorem Holds.other {n : RecordNodeBasic} (h : Holds ds ms p n) (e : RecordNodeBasic) (hq : q ≠ p) :
    Holds ds (ms ++ [⟨some q, e⟩]) p n :=
  ⟨by rw [total_snoc_ne _ _ _ hq]; exact h.calls, fun i hi hs => by rw [total_snoc_ne _ _ _ hq]; exact h.all i hi hs,
    fun i hi hs => by rw [total_snoc_ne _ _ _ hq]; exact h.children i hi hs⟩

theorem holds_none {n : RecordNodeBasic} (hc : n.callCount = 0) (ha : n.allValues = resize [] ds.numRecords)
    (hch : n.childrenValues = resize [] ds.numRecords) (h : ∀ m ∈ ms, m.path ≠ some p) : Holds ds ms p n := by
  refine ⟨hc.trans (total_none _ h).symm, fun i hi _ => ?_, fun i hi _ => ?_⟩
  · rw [total_none _ h, ha, resize_nil, value_slots _ hi]
  · rw [total_none _ h, hch, resize_nil, value_slots _ hi]

structure Numbering (gl : Settings) (src : List NamePath) (g : GlobalThreadStore) : Prop where
  seq : 1 ≤ g.seqNum
  range : ∀ gnid s : NodeID, g.gnidToSeqMap[gnid]? = some s →
    2 ≤ s ∧ s ≤ g.seqNum ∧ ∃ p ∈ src, p ≠ [] ∧ gnidOf gl p = gnid
  inj : ∀ gnid gnid' s : NodeID, g.gnidToSeqMap[gnid]? = some s →
    g.gnidToSeqMap[gnid']? = some s → gnid = gnid'

theorem Numbering.congr (h : Numbering gl src g) (hs : g'.seqNum = g.seqNum)
    (hm : g'.gnidToSeqMap = g.gnidToSeqMap) : Numbering gl src g' := by
  refine ⟨hs ▸ h.seq, ?_, ?_⟩
  · rw [hm, hs]
    exact h.range
  · rw [hm]
    exact h.inj

theorem seqOf_congr (hm : g'.gnidToSeqMap = g.gnidToSeqMap) (gnid : NodeID) :
    seqOf g' gnid = seqOf g gnid := by
  rw [seqOf, seqOf, hm]

theorem seqOf_root (gl : Settings) (g : GlobalThreadStore) : seqOf g (gnidOf gl []) = some 1 :=
  seqOf_small Nat.one_lt_two

theorem Numbering.unique (h : Numbering gl src g) (hs : Sources gl src) (hp : p ∈ src)
    (hq : q ∈ src) {s : NodeID} (hps : seqOf g (gnidOf gl p) = some s)
    (hqs : seqOf g (gnidOf gl q) = some s) : p = q := by
  have hone {r : NamePath} (hr : r ∈ src) (hrs : seqOf g (gnidOf gl r) = some s) :
      r = [] ∧ s = 1 ∨ g.gnidToSeqMap[gnidOf gl r]? = some s ∧ 2 ≤ s := by
    cases r with
    | nil => exact Or.inl ⟨rfl, (Option.some.inj ((seqOf_root gl g).symm.trans hrs)).symm⟩
    | cons name r =>
        rw [seqOf_large (hs.large hr)] at hrs
        exact Or.inr ⟨hrs, (h.range _ s hrs).1⟩
  rcases hone hp hps with ⟨rfl, h1⟩ | ⟨hpm, h2⟩
  · rcases hone hq hqs with ⟨rfl, -⟩ | ⟨-, h2⟩
    · rfl
    · rw [h1] at h2
      exact absurd h2 (by decide)
  · rcases hone hq hqs with ⟨-, h1⟩ | ⟨hqm, -⟩
    · rw [h1] at h2
      exact absurd h2 (by decide)
    · exact hs.gnidOf_inj hp hq (h.inj _ _ s hpm hqm)

def Keeps (g g' : GlobalThreadStore) : Prop := ∀ x s, seqOf g x = some s → seqOf g' x = some s

theorem Numbering.number (h : Numbering gl src g) (hs : Sources gl src) (hp : p ∈ src) :
    ∃ g' s, g.gnidToSeq (gnidOf gl p) = (g', s) ∧ Numbering gl src g' ∧ g'.ts = g.ts ∧ Keeps g g' ∧
      seqOf g' (gnidOf gl p) = some s ∧ s ≠ 0 := by
  cases p with
  | nil =>
      exact ⟨g, 1, gnidToSeq_found (seqOf_root gl g), h, rfl, fun _ _ hx => hx, seqOf_root gl g, one_ne_zero⟩
  | cons name p =>
      have h2 := hs.large hp
      cases hmap : g.gnidToSeqMap[gnidOf gl (name :: p)]? with
      | some s =>
          have hseq : seqOf g (gnidOf gl (name :: p)) = some s := (seqOf_large h2).trans hmap
          have hs2 := (h.range _ s hmap).1
          exact ⟨g, s, gnidToSeq_found hseq, h, rfl, fun _ _ hx => hx, hseq, (Nat.zero_lt_of_lt hs2).ne'⟩
      | none =>
          have hkeep : Keeps g { g with
              seqNum := g.seqNum + 1
              gnidToSeqMap := g.gnidToSeqMap.insert (gnidOf gl (name :: p)) (g.seqNum + 1) } :=
            fun _ _ => seqOf_kept (insert_keeps hmap)
          refine ⟨_, _, gnidToSeq_new h2 hmap, ⟨Nat.le_succ_of_le h.seq, fun x s hx => ?_, fun x y s hx hy => ?_⟩, rfl, hkeep,
            (seqOf_large h2).trans (getElem?_insert_self _ _ _), Nat.succ_ne_zero _⟩
          · rw [getElem?_insert] at hx
            split at hx
            next hxp =>
              cases hx
              exact ⟨Nat.succ_le_succ h.seq, le_refl _, name :: p, hp, List.cons_ne_nil _ _, hxp.symm⟩
            next =>
              obtain ⟨hx2, hle, hpath⟩ := h.range x s hx
              exact ⟨hx2, Nat.le_succ_of_le hle, hpath⟩
          · have hle (z : NodeID) (hz : g.gnidToSeqMap[z]? = some (g.seqNum + 1)) : False :=
              Nat.not_succ_le_self _ (h.range z _ hz).2.1
            rw [getElem?_insert] at hx hy
            split at hx
            next hxp =>
              cases hx
              split at hy
              next hyp => exact hxp.trans hyp.symm
              next => exact (hle y hy).elim
            next =>
              split at hy
              next =>
                cases hy
                exact (hle x hx).elim
              next => exact h.inj x y s hx hy

def Placed (gl : Settings) (names : Std.TreeMap NameID Bytes) (g : GlobalThreadStore) (k : NodeID) :
    NamePath → RecordNode → Prop
  | [], n => n.parentId = 0
  | name :: p, n => seqOf g (gnidOf gl p) = some n.parentId ∧ n.parentId ≠ 0 ∧
    n.nodeName = k ∧ names[k]? = some name

structure Stands (gl : Settings) (ds : DataStore) (ms : List Measurement) (names : Std.TreeMap NameID Bytes)
    (g : GlobalThreadStore) (k : NodeID) (p : NamePath) (n : RecordNode) : Prop where
  seq : seqOf g (gnidOf gl p) = some k
  placed : Placed gl names g k p n
  holds : Holds ds ms p n.toRecordNodeBasic

/-- The global thread after some measurements: each of its nodes is the root or stands
for a path that has been measured, with the sums of its measurements, and each
measurement has its node. -/
structure Gathered (gl : Settings) (ds : DataStore) (src : List NamePath) (ms : List Measurement)
    (names : Std.TreeMap NameID Bytes) (g : GlobalThreadStore) : Prop where
  numbering : Numbering gl src g
  root : (1 : NodeID) ∈ g.ts.currentTree
  nodes : ∀ (k : NodeID) (n : RecordNode), g.ts.currentTree[k]? = some n → ∃ p ∈ src,
    (p = [] ∨ ∃ m ∈ ms, m.path = some p) ∧ Stands gl ds ms names g k p n
  measured : ∀ m ∈ ms, ∃ p ∈ src, m.path = some p ∧ ∃ k ∈ g.ts.currentTree, seqOf g (gnidOf gl p) = some k

variable {names names' : Std.TreeMap NameID Bytes} {k : NodeID} {n : RecordNode}

theorem Placed.later (h : Placed gl names g k p n) (hl : Keeps g g') (hn : names'[k]? = names[k]?) :
    Placed gl names' g' k p n := by
  cases p with
  | nil => exact h
  | cons name p =>
      obtain ⟨hseq, h0, hname, hk⟩ := h
      exact ⟨hl _ _ hseq, h0, hname, hn.trans hk⟩

theorem Gathered.congr (h : Gathered gl ds src ms names g) (hm : g'.gnidToSeqMap = g.gnidToSeqMap)
    (hs : g'.seqNum = g.seqNum) (ht : g'.ts.currentTree = g.ts.currentTree) :
    Gathered gl ds src ms names g' := by
  have hseq (x : NodeID) : seqOf g' x = seqOf g x := seqOf_congr hm x
  refine ⟨h.numbering.congr hs hm, ht ▸ h.root, fun k n hk => ?_, fun m hm => ?_⟩
  · obtain ⟨p, hp, hmeasured, hstands⟩ := h.nodes k n (ht ▸ hk)
    refine ⟨p, hp, hmeasured, (hseq _).trans hstands.seq, ?_, hstands.holds⟩
    exact hstands.placed.later (fun x s hx => (hseq x).trans hx) rfl
  · obtain ⟨p, hp, hmp, k, hk, hks⟩ := h.measured m hm
    exact ⟨p, hp, hmp, k, ht ▸ hk, (hseq _).trans hks⟩

structure Located (gl : Settings) (ds : DataStore) (src : List NamePath)
    (ms : List Measurement) (st st' : Integrating) (p : NamePath) (s : NodeID) (n : RecordNode) : Prop where
  numbering : Numbering gl src st'.g
  keeps : Keeps st.g st'.g
  node : st'.g.ts.currentTree[s]? = some n
  stands : Stands gl ds ms st'.ds.nameTable st'.g s p n
  others : ∀ k : NodeID, k ≠ s → st'.g.ts.currentTree[k]? = st.g.ts.currentTree[k]?
  names : ∀ k : NodeID, k ≠ s → st'.ds.nameTable[k]? = st.ds.nameTable[k]?

theorem added_node (ts : ThreadStore) {s : NodeID} (hnew : ts.currentTree[s]? = none) (q gnid : NodeID) :
    ∃ m, (∀ k : NodeID, (setGNID (ts.addCurrentNode gl ds s q s false) s gnid).currentTree[k]? =
        if k = s then some m else ts.currentTree[k]?) ∧
      m.parentId = q ∧ m.nodeName = s ∧ m.callCount = 0 ∧ m.allValues = resize [] ds.numRecords ∧
      m.childrenValues = resize [] ds.numRecords := by
  rw [ThreadStore.addCurrentNode, hnew]
  dsimp only [Option.getD_none]
  generalize hm : ({ emptyNode.setDataStore gl ds false with id := s, parentId := q, nodeName := s } : RecordNode) = m
  refine ⟨{ m with gnid }, fun k => ?_, by rw [← hm], by rw [← hm], by rw [← hm]; rfl, by rw [← hm]; rfl, by rw [← hm]; rfl⟩
  have hfind : (ts.setNode s m).getNodeFromID s = some m := getElem?_insert_self _ _ _
  rw [setGNID, hfind]
  change ((ts.currentTree.insert s m).insert s { m with gnid })[k]? = _
  rw [getElem?_insert, getElem?_insert]
  split
  · rfl
  · rfl

def HasPath (gl : Settings) (srcDs : DataStore) (srcTree : Tree) (n : RecordNode) (p : NamePath) : Prop :=
  n.gnid = gnidOf gl p ∧ ∀ name q, p = name :: q →
    ∃ pn, srcTree[n.parentId]? = some pn ∧ pn.gnid = gnidOf gl q ∧ srcDs.getNameFromID n.nodeName = name

theorem destNode_located (hn : st.ds.numRecords = ds.numRecords) (hs : Sources gl src)
    (h : Gathered gl ds src ms st.ds.nameTable st.g) (hp : p ∈ src) {srcTree : Tree}
    (hpath : HasPath gl srcDs srcTree n p) :
    ∃ m, Located gl ds src ms st (destNode gl srcDs srcTree st n).1 p
      (destNode gl srcDs srcTree st n).2 m := by
  obtain ⟨hg, hparent⟩ := hpath
  obtain ⟨g₁, s, hrun, hnum, hts, hkeep, hseq, hs0⟩ := h.numbering.number hs hp
  rw [destNode, hg, hrun]
  dsimp only
  rw [ThreadStore.getNodeFromID, hts]
  cases hfind : st.g.ts.currentTree[s]? with
  | some m =>
      dsimp only
      refine ⟨m, hnum, hkeep, by rw [hts, hfind], ?_, fun k _ => by rw [hts], fun k _ => rfl⟩
      obtain ⟨r, hr, -, hstands⟩ := h.nodes s m hfind
      have hrp : r = p := hnum.unique hs hr hp (hkeep _ _ hstands.seq) hseq
      subst hrp
      exact ⟨hseq, hstands.placed.later hkeep rfl, hstands.holds⟩
  | none =>
      dsimp only
      have hnone : ∀ m ∈ ms, m.path ≠ some p := by
        intro m hm hmp
        obtain ⟨r, -, hmr, k, hk, hks⟩ := h.measured m hm
        rw [hmp, Option.some.injEq] at hmr
        subst hmr
        rw [hkeep _ _ hks, Option.some.injEq] at hseq
        obtain ⟨m', hm'⟩ := mem_iff_some.mp hk
        rw [hseq, hfind] at hm'
        cases hm'
      cases p with
      | nil =>
          rw [seqOf_root, Option.some.injEq] at hseq
          obtain ⟨m, hm⟩ := mem_iff_some.mp h.root
          rw [hseq, hfind] at hm
          cases hm
      | cons name q =>
          obtain ⟨pn, hpn, hpg, hname⟩ := hparent name q rfl
          obtain ⟨g₂, t, hrun₂, hnum₂, hts₂, hkeep₂, hseq₂, ht0⟩ := hnum.number hs (hs.tails _ _ hp)
          rw [parentSeq, hpn]
          dsimp only
          rw [hpg, hrun₂]
          dsimp only
          have hnew : g₂.ts.currentTree[s]? = none := by rw [hts₂, hts, hfind]
          obtain ⟨m, htree, hmp, hmn, hmc, hma, hmch⟩ :=
            @added_node gl st.ds g₂.ts s hnew t (gnidOf gl (name :: q))
          refine ⟨m, hnum₂.congr rfl rfl, fun x y hx => hkeep₂ x y (hkeep x y hx),
            (htree s).trans (if_pos rfl), ⟨hkeep₂ _ _ hseq, ?_, ?_⟩, fun k hk => ?_, fun k hk => ?_⟩
          · refine ⟨?_, ?_, hmn, ?_⟩
            · rw [hmp]
              exact hseq₂
            · rw [hmp]
              exact ht0
            · rw [← hname]
              exact getElem?_insert_self _ _ _
          · rw [hn] at hma hmch
            exact holds_none hmc hma hmch hnone
          · rw [htree, if_neg hk, hts₂, hts]
          · exact getElem?_insert_ne _ hk _

theorem Located.gathered {st' : Integrating} {s : NodeID} {n n' : RecordNode} {e : RecordNodeBasic}
    (h : Gathered gl ds src ms st.ds.nameTable st.g) (hp : p ∈ src) (hl : Located gl ds src ms st st' p s n)
    (hpar : n'.parentId = n.parentId) (hname : n'.nodeName = n.nodeName)
    (hholds : Holds ds (ms ++ [⟨some p, e⟩]) p n'.toRecordNodeBasic) :
    Gathered gl ds src (ms ++ [⟨some p, e⟩]) st'.ds.nameTable { st'.g with ts := st'.g.ts.setNode s n' } := by
  have hfind (k : NodeID) : (st'.g.ts.setNode s n').currentTree[k]? = if k =
      s then some n' else st'.g.ts.currentTree[k]? :=
    getElem?_insert _ _ _ _
  have hmem {k : NodeID} (hk : k ∈ st.g.ts.currentTree) : k ∈ (st'.g.ts.setNode s n').currentTree := by
    obtain ⟨m, hm⟩ := mem_iff_some.mp hk
    rw [mem_iff_some, hfind]
    split
    next => exact ⟨n', rfl⟩
    next hks => exact ⟨m, by rw [hl.others k hks, hm]⟩
  have hself : s ∈ (st'.g.ts.setNode s n').currentTree := mem_insert_self _ _ _
  refine ⟨hl.numbering.congr rfl rfl, hmem h.root, fun k m hk => ?_, fun m hm => ?_⟩
  · rw [hfind] at hk
    split at hk
    next hks =>
      cases hk
      subst hks
      refine ⟨p, hp, Or.inr ⟨⟨some p, e⟩, List.mem_append_right _ List.mem_cons_self, rfl⟩,
        hl.stands.seq, ?_, hholds⟩
      have hplaced := hl.stands.placed
      cases p with
      | nil => exact hpar.trans hplaced
      | cons name q =>
          obtain ⟨hseq, h0, hnode, hkn⟩ := hplaced
          exact ⟨hpar ▸ hseq, hpar ▸ h0, hname.trans hnode, hkn⟩
    next hks =>
      rw [hl.others k hks] at hk
      obtain ⟨r, hr, hmeasured, hstands⟩ := h.nodes k m hk
      have hseq := hl.keeps _ _ hstands.seq
      have hpr : p ≠ r := by
        rintro rfl
        exact hks (Option.some.inj (hseq.symm.trans hl.stands.seq))
      refine ⟨r, hr, hmeasured.imp id ?_, hseq, hstands.placed.later hl.keeps (hl.names k hks),
        hstands.holds.other e hpr⟩
      rintro ⟨m', hm', he⟩
      exact ⟨m', List.mem_append_left _ hm', he⟩
  · rcases List.mem_append.mp hm with hm | hm
    · obtain ⟨r, hr, hmr, k, hk, hseq⟩ := h.measured m hm
      exact ⟨r, hr, hmr, k, hmem hk, hl.keeps _ _ hseq⟩
    · rw [List.mem_singleton.mp hm]
      exact ⟨p, hp, rfl, s, hself, hl.stands.seq⟩

theorem Holds.snoc {n n' e : RecordNodeBasic} (h : Holds ds ms p n)
    (hc : n'.callCount = n.callCount + e.callCount)
    (ha : ∀ i < ds.numRecords, isStatic ds i = false →
      value n'.allValues i = value n.allValues i + value e.allValues i)
    (hch : ∀ i < ds.numRecords, isStatic ds i = false →
      value n'.childrenValues i = value n.childrenValues i + value e.childrenValues i) :
    Holds ds (ms ++ [⟨some p, e⟩]) p n' :=
  ⟨by rw [total_snoc, hc, h.calls], fun i hi hs => by rw [total_snoc, ha i hi hs, h.all i hi hs],
    fun i hi hs => by rw [total_snoc, hch i hi hs, h.children i hi hs]⟩

theorem integrateNode_gathers (hd : Described ds) (hs : Sources gl src) {tree srcTree : Tree}
    {it : NodeID × RecordNodeBasic} (hsize : srcDs.numRecords = ds.numRecords)
    (hsrc : srcTree[it.2.id]? = some n) (hpath : HasPath gl srcDs srcTree n p) (hp : p ∈ src)
    (hit : (entryOf it.2).Sized ds) (hfed : Fed ds tree st) (h : Gathered gl ds src ms st.ds.nameTable st.g) :
    ∃ st', integrateNode gl srcDs srcTree st it = .ok st' ∧ Fed ds tree st' ∧
      Gathered gl ds src (ms ++ [⟨some p, it.2⟩]) st'.ds.nameTable st'.g := by
  have hcovers : Covers ds srcDs := by
    intro i md hmd _
    rw [hsize, ← hd]
    exact (List.getElem?_eq_some_iff.mp hmd).1
  have hit' : (entryOf it.2).Sized srcDs := by
    rw [Entry.Sized, hsize]
    exact hit
  have hkeeps :=
    @integrateNode_fed gl ds srcDs never tree st id hd hcovers srcTree it hit' (fun hb => hb.elim) hfed
  obtain ⟨m, hl⟩ := destNode_located hfed.ok.numRecords hs h hp hpath
  have hdest : Fed ds tree (destNode gl srcDs srcTree st n).1 := destNode_fed hfed srcTree n
  rw [integrateNode, hsrc] at hkeeps ⊢
  dsimp only at hkeeps ⊢
  generalize destNode gl srcDs srcTree st n = r at hdest hl hkeeps ⊢
  obtain ⟨st₁, s⟩ := r
  dsimp only at hdest hl hkeeps ⊢
  rw [ThreadStore.getNodeFromID, hl.node] at hkeeps ⊢
  dsimp only at hkeeps ⊢
  have hnode : (entryOf (sliceNode gl st₁.ds st₁.dest.tree s)).Sized ds := by
    have hsized : SizedSlice st₁.ds st₁.dest.tree := by
      intro k e he
      rw [Entry.Sized, hdest.ok.numRecords]
      exact hdest.ok.sized k e he
    have := @sliceNode_sized gl _ _ hsized s
    rwa [Entry.Sized, hdest.ok.numRecords] at this
  obtain ⟨dest, hrun⟩ := integrateValues_eq hd hit hnode (hdest.full s m hl.node)
  rw [integrateValues_congr hdest.ok.numRecords hdest.ok.metadata, hrun, ok_bind] at hkeeps ⊢
  refine ⟨_, rfl, hkeeps, ?_⟩
  refine hl.gathered h hp rfl rfl (hl.stands.holds.snoc rfl (fun i hi hst => ?_) fun i hi hst => ?_)
  · exact (value_slots _ hi).trans (by rw [counted, hst, if_neg Bool.false_ne_true])
  · exact (value_slots _ hi).trans (by rw [counted, hst, if_neg Bool.false_ne_true])

end Llprof.Monitor.Gathering
