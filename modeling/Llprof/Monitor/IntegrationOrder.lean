import Llprof.Monitor.IntegrationSlots
import Llprof.Monitor.Runs
import Llprof.Monitor.SequenceOrder

namespace Llprof.Monitor.IntegrationOrder

open Faulting hiding store
open Avoiding TreeMaps TreeListing Nodes Store TreeShape FlushSpec Slices SliceFrame SliceContents
  FlushFrame Linkage Ticks Runs TickFrame FlushRule StoreRule ParentOrder
  SequenceOrder IntegrationSlots
open Profiler.CallTree (MethodNodeSerializedInfo)

variable {gl : Settings} {ds srcDs : DataStore} {up : NodeID → NodeID}
  {g g' : GlobalThreadStore} {st : Integrating}

theorem Numbered.withThread (h : Numbered up g) (ts' : ThreadStore)
    (ht : ∀ k : NodeID, (ts'.currentTree[k]?).map label = (g.ts.currentTree[k]?).map label) :
    Numbered up { g with ts := ts' } ∧ Later g { g with ts := ts' } := by
  have hmem {k : NodeID} (hk : k ∈ g.ts.currentTree) : k ∈ ts'.currentTree := by
    have := congrArg Option.isSome (ht k)
    rw [Option.isSome_map, Option.isSome_map] at this
    rwa [Std.TreeMap.mem_iff_isSome_getElem?, this, ← Std.TreeMap.mem_iff_isSome_getElem?]
  refine ⟨⟨h.range, h.seq, h.inj, h.grows, fun k n hk => ?_, hmem h.root, fun gnid s hg => hmem (h.known gnid s hg)⟩,
    fun gnid s hs => hs, fun k p hp => ?_⟩
  · have hk' := ht k
    rw [hk, Option.map_some, eq_comm, Option.map_eq_some_iff] at hk'
    obtain ⟨m, hmk, hl⟩ := hk'
    obtain ⟨hid, hpar⟩ := Prod.mk.inj hl
    have hnode := h.nodes k m hmk
    rw [← hid, ← hpar]
    exact hnode
  · have hparents : parentOf ts'.currentTree k = parentOf g.ts.currentTree k := by
      have := congrArg (Option.map Prod.snd) (ht k)
      rwa [Option.map_map, Option.map_map] at this
    rw [hparents]
    exact hp

theorem integrateValues_label (src dest : RecordNodeBasic) (cur : RecordNode) :
    Avoids lost (fun r => r.1.id = dest.id ∧ label r.2 = label cur) (integrateValues ds src dest cur) := by
  refine avoids_forRange _ (fun r i h => ?_) ⟨rfl, rfl⟩
  refine (avoids_fetch id _ _).bind fun md _ => ?_
  split
  · exact h
  · refine (avoids_fetch id _ _).bind fun all _ => ?_
    refine (avoids_fetch id _ _).bind fun children _ => ?_
    refine (avoids_updateAt id _ _ _).bind fun destAll _ => ?_
    refine (avoids_updateAt id _ _ _).bind fun destChildren _ => ?_
    refine (avoids_updateAt id _ _ _).bind fun currentAll _ => ?_
    exact (avoids_updateAt id _ _ _).bind fun currentChildren _ => h

structure Ordered (up : NodeID → NodeID) (st : Integrating) : Prop where
  numbered : Numbered up st.g
  closed : Closed st.g.ts.currentTree st.dest.tree

/-- The nodes for the entries `done` are in the slice. -/
def Visited (srcTree : Tree) (done : List (NodeID × RecordNodeBasic)) (st : Integrating) : Prop :=
  ∀ it ∈ done, ∀ m, srcTree[it.1]? = some m → ∃ s, seqOf st.g m.gnid = some s ∧ s ≠ 0 ∧ s ∈ st.dest.tree

/-- An entry of a slice is that of a root, or comes after that of its parent, whose
GNID is next to its own. -/
def Follows (up : NodeID → NodeID) (srcTree : Tree) (done : List (NodeID × RecordNodeBasic))
    (it : NodeID × RecordNodeBasic) : Prop :=
  it.2.id = it.1 ∧ ∀ n, srcTree[it.1]? = some n → n.gnid = 1 ∨
    2 ≤ n.gnid ∧ ∃ pn, srcTree[n.parentId]? = some pn ∧ up n.gnid = pn.gnid ∧ ∃ d ∈ done, d.1 = n.parentId

theorem Found.parent {gnid id : NodeID} (hf : Found up g g' gnid id) (h : gnid = 1 ∨ 2 ≤ gnid) :
    id ≠ 0 ∧ ∃ p, parentOf g'.ts.currentTree id = some p ∧
      (gnid = 1 ∧ p = 0 ∨ 2 ≤ gnid ∧ seqOf g' (up gnid) = some p) := by
  obtain ⟨n, hn⟩ := mem_iff_some.mp hf.here
  have hseq := hf.seq
  have hparent := parentOf_eq_some.mpr ⟨n, hn, rfl⟩
  rcases h with h1 | h2
  · rw [h1, seqOf_small (by decide), Option.some.injEq] at hseq
    rw [← hseq] at hn hparent ⊢
    refine ⟨one_ne_zero, n.parentId, hparent, ?_⟩
    rcases (hf.numbered.nodes 1 n hn).2 with ⟨-, h0⟩ | ⟨x, hx, -⟩
    · exact Or.inl ⟨h1, h0⟩
    · exact absurd (hf.numbered.range x 1 hx).2.1 (by decide)
  · rw [seqOf_large h2] at hseq
    have hid := (hf.numbered.range gnid id hseq).2.1
    refine ⟨(Nat.zero_lt_of_lt hid).ne', n.parentId, hparent, ?_⟩
    rcases (hf.numbered.nodes id n hn).2 with ⟨h1, -⟩ | ⟨x, hx, hp⟩
    · rw [h1] at hid
      exact absurd hid (by decide)
    · rw [hf.numbered.inj x gnid id hx hseq] at hp
      exact Or.inr ⟨h2, hp⟩

theorem integrateNode_ordered {srcTree : Tree} {done : List (NodeID × RecordNodeBasic)}
    {it : NodeID × RecordNodeBasic} (h : Ordered up st) (hv : Visited srcTree done st)
    (hit : Follows up srcTree done it) :
    Avoids lost (fun st' => Ordered up st' ∧ Visited srcTree (done ++ [it]) st' ∧ Later st.g st'.g)
      (integrateNode gl srcDs srcTree st it) := by
  obtain ⟨hid, hsrc⟩ := hit
  rw [integrateNode, hid]
  split
  next => exact fun h => h
  next n hn =>
    have hsourced : Sourced up srcTree st.g n := by
      rcases hsrc n hn with h1 | ⟨h2, pn, hpn, hup, d, hd, hdp⟩
      · exact Or.inl h1
      · obtain ⟨s, hs, hs0, -⟩ := hv d hd pn (by rw [hdp]; exact hpn)
        exact Or.inr ⟨h2, pn, hpn, hup, s, hs, hs0⟩
    obtain ⟨hf, hdest⟩ : Found up st.g (destNode gl srcDs srcTree st n).1.g n.gnid
      (destNode gl srcDs srcTree st n).2 ∧
        (destNode gl srcDs srcTree st n).1.dest = st.dest := destNode_found h.numbered hsourced
    generalize destNode gl srcDs srcTree st n = r at hf hdest
    obtain ⟨st₁, id⟩ := r
    dsimp only at hf hdest ⊢
    obtain ⟨hid0, p, hp, hplace⟩ := Found.parent hf ((hsrc n hn).imp (fun h1 => h1) fun h2 => h2.1)
    have hparent : p = 0 ∨ p ∈ st₁.dest.tree := by
      rcases hsrc n hn with h1 | ⟨h2, pn, hpn, hup, d, hd, hdp⟩
      · rcases hplace with ⟨-, hp0⟩ | ⟨h2, -⟩
        · exact Or.inl hp0
        · rw [h1] at h2
          exact absurd h2 (by decide)
      · rcases hplace with ⟨h1, -⟩ | ⟨-, hup'⟩
        · rw [h1] at h2
          exact absurd h2 (by decide)
        · obtain ⟨s, hs, -, hmem⟩ := hv d hd pn (by rw [hdp]; exact hpn)
          rw [hup, hf.later.seqs _ s hs, Option.some.injEq] at hup'
          rw [← hup', hdest]
          exact Or.inr hmem
    have hclosed : Closed st₁.g.ts.currentTree st₁.dest.tree := by
      rw [hdest]
      exact h.closed.mono hf.later.parents
    split
    next => exact fun h => h
    next cur hcur =>
      have hcur : st₁.g.ts.currentTree[id]? = some cur := hcur
      apply (integrateValues_label it.2 (sliceNode gl st₁.ds st₁.dest.tree id) cur).bind
      rintro ⟨dest, cur'⟩ ⟨hdestId, hl⟩
      obtain ⟨hnum, hlater⟩ := Numbered.withThread hf.numbered
        (st₁.g.ts.setNode id { cur' with callCount := cur'.callCount + it.2.callCount }) (by
        intro k
        change ((st₁.g.ts.currentTree.insert id _)[k]?).map label = _
        rw [getElem?_insert]
        split
        next hk =>
          rw [hk, hcur]
          exact congrArg some hl
        next => rfl)
      have hentry : Closed st₁.g.ts.currentTree
          (st₁.dest.tree.insert id { dest with callCount := dest.callCount + it.2.callCount }) :=
        hclosed.insert (hdestId.trans (hclosed.sliceNode_id id)) ⟨p, hp, hparent⟩
      refine ⟨⟨hnum, hentry.mono hlater.parents⟩, ?_, hf.later.trans hlater⟩
      intro d hd m hm
      rcases List.mem_append.mp hd with hd | hd
      · obtain ⟨s, hs, hs0, hmem⟩ := hv d hd m hm
        refine ⟨s, hlater.seqs _ s (hf.later.seqs _ s hs), hs0, mem_insert_iff.mpr (Or.inr ?_)⟩
        rw [hdest]
        exact hmem
      · rw [List.mem_singleton.mp hd, hn, Option.some.injEq] at hm
        rw [← hm]
        exact ⟨id, hlater.seqs _ id hf.seq, hid0, mem_insert_self _ _ _⟩

def Listed (up : NodeID → NodeID) (srcTree : Tree) (slice : Slice) : Prop :=
  ∀ done it rest, slice.toList = done ++ it :: rest → Follows up srcTree done it

/-- The GNID of a node of a target tells that of its parent, and is none of those
that are kept for the root. -/
def Tells (up : NodeID → NodeID) (tree : Tree) : Prop :=
  ∀ (k : NodeID) (n pn : RecordNode), tree[k]? = some n → tree[n.parentId]? = some pn →
    up n.gnid = pn.gnid ∧ 2 ≤ n.gnid

theorem listed_of_closed {tree : Tree} {ts : ThreadStore} {rank : NodeID → Nat}
    (hr : Rooted ts.currentTree rank) (hd : Descending gl tree ts) (ht : Tells up ts.currentTree)
    {slice : Slice} (hc : Closed ts.currentTree slice) : Listed up ts.currentTree slice := by
  rintro done ⟨k, e⟩ rest he
  have hk : slice[k]? = some e := getElem?_of_split he
  obtain ⟨hid, p, hp, hp0⟩ := hc k e hk
  refine ⟨hid, fun n hn => ?_⟩
  have hpn : p = n.parentId := by
    obtain ⟨m, hm, hmp⟩ := parentOf_eq_some.mp hp
    rw [hn, Option.some.injEq] at hm
    rw [← hmp, hm]
  subst hpn
  rcases hp0 with h0 | hmem
  · rw [h0] at hp
    have h1 := hr.root_unique hp
    rw [h1] at hn
    exact Or.inl ((hd.nodes 1 n hn).2.2 rfl)
  · obtain ⟨d, hd'⟩ := mem_iff_some.mp hmem
    obtain ⟨-, q, hq, -⟩ := hc _ d hd'
    obtain ⟨pn, hpn, -⟩ := parentOf_eq_some.mp hq
    obtain ⟨hup, h2⟩ := ht k n pn hn hpn
    exact Or.inr ⟨h2, pn, hpn, hup, (n.parentId, d), visited_of_lt he hd' (hd.nodes k n hn).2.1, rfl⟩

theorem integrateNodes_ordered {srcTree : Tree} {slice : Slice} (h : Ordered up st)
    (hl : Listed up srcTree slice) : Avoids lost (fun st' => Ordered up st' ∧ Later st.g st'.g)
      (slice.toList.foldlM (integrateNode gl srcDs srcTree) st) := by
  have hrun : Avoids lost (fun st' => Ordered up st' ∧ Visited srcTree slice.toList st' ∧ Later st.g st'.g)
      (slice.toList.foldlM (integrateNode gl srcDs srcTree) st) :=
    avoids_foldlM (fun done st' => Ordered up st' ∧ Visited srcTree done st' ∧
      Later st.g st'.g) slice.toList (by
      rintro done it rest st' he ⟨h', hv, hlater⟩
      apply (integrateNode_ordered h' hv (hl done it rest he)).mono
      rintro st'' ⟨h'', hv', hlater'⟩
      exact ⟨h'', hv', hlater.trans hlater'⟩) ⟨h, fun it hit => absurd hit List.not_mem_nil, Later.refl _⟩
  exact hrun.mono fun st' hst' => ⟨hst'.1, hst'.2.2⟩

theorem copyNowValues_ordered (h : Ordered up st) (tss : TimeSliceStore) :
    Ordered up (copyNowValues st tss) ∧ Later st.g (copyNowValues st tss).g := by
  rw [copyNowValues]
  split
  · exact ⟨h, Later.refl _⟩
  · obtain ⟨hnum, hlater⟩ := Numbered.withThread h.numbered
      { st.g.ts with runningNode := tss.runningNode, nowValues := tss.nowValues } fun _ => rfl
    exact ⟨⟨hnum, h.closed⟩, hlater⟩

def Integrable (up : NodeID → NodeID) (ts : ThreadStore) : Prop :=
  ∀ u, Listed up ts.currentTree (contentAt ts u).tree

theorem integrateThread_ordered (h : Ordered up st) {p : ThreadID × ThreadStore} (hp : Integrable up p.2) :
    Avoids lost (fun r => Ordered up r.1 ∧ Later st.g r.1.g) (integrateThread gl srcDs st p) := by
  by_cases hreach : Reaches p.2 srcDs.currentTimeNumber
  · obtain ⟨slices, tss, hget, htss, hcontent, -, -, -⟩ := getTimeSlice_reaches hreach
    have htree : tss.tree = (contentAt p.2 srcDs.currentTimeNumber).tree :=
      (congrArg TimeSliceStore.tree hcontent :)
    rw [integrateThread, hget]
    dsimp only
    rw [fetch_eq_ok.mpr (show (withSlices _ slices p.2).timeSlice[_]? = some tss from htss), ok_bind, htree]
    obtain ⟨hcopy, hlater⟩ := copyNowValues_ordered h tss
    apply (integrateNodes_ordered hcopy (hp srcDs.currentTimeNumber)).bind
    rintro st' ⟨h', hlater'⟩
    exact ⟨h', hlater.trans hlater'⟩
  · rw [integrateThread, getTimeSlice_not hreach]
    exact fun h => h

theorem sweep_ordered {ι κ : Type} {f : Integrating → ι → Run (Integrating × κ)} {xs : List ι}
    (hf : ∀ st', ∀ x ∈ xs, Ordered up st' →
      Avoids lost (fun r => Ordered up r.1 ∧ Later st'.g r.1.g) (f st' x))
    (h : Ordered up st) : Avoids lost (fun r => Ordered up r.1 ∧ Later st.g r.1.g) (sweep f xs st) := by
  apply (avoids_sweep_each (P := fun st' => Ordered up st' ∧ Later st.g st'.g) (S := fun x => x ∈ xs) (R := fun _ _ => True) ?_
    (fun _ hx => hx) ⟨h, Later.refl _⟩).mono fun r hr => hr.1
  intro st' x h' hx
  apply (hf st' x hx h'.1).mono
  rintro r ⟨hr, hlater⟩
  exact ⟨⟨hr, h'.2.trans hlater⟩, trivial⟩

theorem integrateTarget_ordered (h : Ordered up st) {t : TargetStore}
    (ht : ∀ p ∈ t.threads, Integrable up p.2) :
    Avoids lost (fun r => Ordered up r.1 ∧ Later st.g r.1.g) (integrateTarget gl st t) := by
  rw [integrateTarget]
  exact (sweep_ordered (fun st' p hp h' => integrateThread_ordered h' (ht p hp)) h).bind fun r hr => hr

structure GlobalOrdered (up : NodeID → NodeID) (g : GlobalThreadStore) : Prop where
  numbered : Numbered up g
  closed : SlicesClosed g.ts

theorem integrateAll_ordered (h : GlobalOrdered up g) {targets : List TargetStore}
    (ht : ∀ t ∈ targets, ∀ p ∈ t.threads, Integrable up p.2) :
    Avoids lost (fun r => ∀ a, r.1.thread = some a → GlobalOrdered up a) (integrateAll gl ds g targets) := by
  by_cases hreach : Reaches g.ts ds.currentTimeNumber
  · obtain ⟨slices, tss, hget, htss, hcontent, hall, -, -⟩ := getTimeSlice_reaches hreach
    have hlen := (List.getElem?_eq_some_iff.mp htss).1
    have htree : tss.tree = (contentAt g.ts ds.currentTimeNumber).tree :=
      (congrArg TimeSliceStore.tree hcontent :)
    rw [integrateAll, hget]
    dsimp only
    rw [fetch_eq_ok.mpr (show (withSlices _ slices g.ts).timeSlice[_]? = some tss from htss), ok_bind]
    obtain ⟨hnum, hlater⟩ := Numbered.withThread h.numbered
      { withSlices (g.ts.startFor ds.currentTimeNumber) slices g.ts with startTimeNumber := 0, timeSlice := [] } fun _ => rfl
    have hstart : Ordered up ⟨ds, { g with
        ts := { withSlices (g.ts.startFor ds.currentTimeNumber) slices g.ts with startTimeNumber := 0, timeSlice := [] } },
        tss, false⟩ := by
      refine ⟨hnum, ?_⟩
      dsimp only
      rw [htree]
      exact h.closed ds.currentTimeNumber
    apply (sweep_ordered (f := integrateTarget gl) (fun st' t htm h' => integrateTarget_ordered h' (ht t htm)) hstart).bind
    rintro ⟨st', targets'⟩ ⟨hst, hlater'⟩ a ha
    cases ha
    obtain ⟨hnum', -⟩ := Numbered.withThread hst.numbered { st'.g.ts with
      startTimeNumber := (withSlices (g.ts.startFor ds.currentTimeNumber) slices g.ts).startTimeNumber
      timeSlice := slices.set (ds.currentTimeNumber - g.ts.startFor ds.currentTimeNumber).toNat st'.dest }
        fun _ => rfl
    refine ⟨hnum', fun u => ?_⟩
    have hread := readAt_set hreach.startFor hlen st'.dest u
    change Closed st'.g.ts.currentTree (readAt (g.ts.startFor ds.currentTimeNumber) (slices.set _ st'.dest) u).tree
    rw [hread]
    split
    · exact hst.closed
    · have hsame : readAt (g.ts.startFor ds.currentTimeNumber) slices u = contentAt g.ts u := hall u
      rw [hsame]
      exact (h.closed u).mono (hlater.trans hlater').parents
  · rw [integrateAll, getTimeSlice_not hreach]
    exact fun h => h

theorem newThreadStore_ordered (up : NodeID → NodeID) (gl : Settings) (ds : DataStore) :
    GlobalOrdered up ⟨newThreadStore gl ds 0, 1, ∅⟩ := by
  have htree := newThreadStore_tree gl ds 0
  have hnone {gnid s : NodeID} (h : (∅ : Std.TreeMap NodeID NodeID)[gnid]? = some s) : False := by
    rw [Std.TreeMap.getElem?_emptyc] at h
    cases h
  refine ⟨⟨fun _ _ h => (hnone h).elim, le_refl _, fun _ _ _ h => (hnone h).elim, fun _ _ h => (hnone h).elim, ?_, ?_,
    fun _ _ h => (hnone h).elim⟩, fun u => ?_⟩
  · intro k n hk
    rw [htree] at hk
    split at hk
    next h1 =>
      cases hk
      exact ⟨h1.symm, Or.inl ⟨h1, rfl⟩⟩
    next => cases hk
  · rw [mem_iff_some, htree]
    exact ⟨_, rfl⟩
  · rw [contentAt_nil (newThreadStore_slices gl ds 0)]
    exact closed_empty _

end Llprof.Monitor.IntegrationOrder
