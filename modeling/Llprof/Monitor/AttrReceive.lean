import Llprof.Monitor.AttrMarking

namespace Llprof.Monitor.AttrReceive

open Faulting hiding store
open ParentTree TreeMaps Slots Nodes Store SlotLoops TreeShape FlushSpec Marking NewLeaf Receive
  StoreSpec Runs RunTotals
open AttrTables AttrMarking
open Profiler.CallTree (MethodNodeSerializedInfo)

def AttrSeed (link : Links) (tree : Tree) (running : NodeID) (batch : List MethodNodeSerializedInfo)
    (q : NodeID) (x : NameID) : Prop :=
  (∃ r ∈ batch, link r.callNodeId = some (q, x)) ∨ linkAt tree running = some (q, x)

/-- The thread store in the loop over the records, of which `done` have been processed.
`cur` are the links so far and `link` those that the whole batch brings. -/
structure Receiving (ds : DataStore) (hash : NameID → Prop) (link cur : Links)
    (tree : Tree) (running : NodeID) (done : List MethodNodeSerializedInfo) (rank : NodeID → Nat)
    (ts' : ThreadStore) : Prop where
  attributed : Attributed ds hash cur rank ts'
  upward : UpwardExcept hash (fun _ => False) ts'.currentTree
  agree : ∀ k l, cur k = some l → link k = some l
  links : ∀ k l, linkAt tree k = some l → linkAt ts'.currentTree k = some l
  all : ∀ k i, allAt ts'.currentTree i k = allAt tree i k
  clean : ∀ k i, dirtyAt ts'.currentTree k = false → tempAt ts'.currentTree k i = tempAt tree k i
  added : ∀ k l, linkAt ts'.currentTree k = some l → linkAt tree k = some l ∨ dirtyAt ts'.currentTree k = true
  records : ∀ a p x i, hash x → linkAt ts'.currentTree a = some (p, x) → dirtyAt ts'.currentTree a = true →
    i < ds.numRecords → isStatic ds i = false →
    tempAt ts'.currentTree a i = sumAt (fun r => link r.callNodeId) (recordValue i) done (some (p, x))
  seeds : ∀ q x, AttrSeed link tree running done q x → hash x →
    ∃ a, linkAt ts'.currentTree a = some (q, x) ∧ dirtyAt ts'.currentTree a = true
  traced : ∀ a p x, hash x → linkAt ts'.currentTree a = some (p, x) → dirtyAt ts'.currentTree a = true →
    ∃ q, AttrSeed link tree running done q x ∧ Below link.parent p q

variable {gl : Settings} {ds : DataStore} {hash : NameID → Prop} {link cur : Links}
  {rank : NodeID → Nat} {tree : Tree} {ts ts' : ThreadStore} {running : NodeID}
  {done : List MethodNodeSerializedInfo} {r : MethodNodeSerializedInfo}

theorem Tabled.attr_unique (h : Tabled hash link ts) {x : NameID} (hx : hash x) {p a b : NodeID}
    (ha : linkAt ts.currentTree a = some (p, x)) (hb : linkAt ts.currentTree b = some (p, x)) : a = b := by
  have ha' := (h.attrs a p x).mpr ⟨hx, ha⟩
  have hb' := (h.attrs b p x).mpr ⟨hx, hb⟩
  rw [ha', Option.some.injEq] at hb'
  exact hb'

theorem Below.links (h : ∀ k l, cur k = some l → link k = some l) {p q : NodeID} (hb : Below cur.parent p q) :
    Below link.parent p q := by
  apply hb.congr
  intro c d hc
  obtain ⟨l, hl, rfl⟩ := Option.map_eq_some_iff.mp hc
  rw [Links.parent, h c l hl, Option.map_some]

theorem locate_attributed (hon : gl.leafNodeAccumulate = true) (hsingle : gl.singleTreeMode = false)
    (h : Attributed ds hash cur rank ts) (hp : Placeable hash ds cur r) :
    ∃ ts' c rank', locate gl ds ts r = .ok (ts', c) ∧ Attributed ds hash (linkWith cur r) rank' ts' ∧
      linkAt ts'.currentTree c = linkWith cur r r.callNodeId ∧
        TakenIn ds hash c ts.currentTree ts'.currentTree := by
  obtain ⟨ts', c, hrun, htab, hc, hsame | ⟨hc0, hnew, ⟨pn, hpn⟩, hgrown⟩⟩ :=
    locate_tabled hon h.tabled h.rooted h.rootGnid hp
  · refine ⟨ts', c, rank, hrun, ⟨htab, ?_, ?_, ?_, ?_⟩, hc, ?_⟩
    · exact hsame ▸ h.rooted
    · exact hsame ▸ h.sized
    · exact hsame ▸ h.rootGnid
    · exact hsame ▸ h.names
    · exact hsame ▸ TakenIn.refl ds hash c ts.currentTree
  · have hfree := linkAt_eq_none.mp hnew
    refine ⟨ts', c, _, hrun, ⟨htab, hgrown.rooted h.rooted hc0 hfree hpn, h.sized_grown hsingle hgrown,
      Grown.rootGnid hgrown h.rooted h.rootGnid, ?_⟩, hc, TakenIn.grown hsingle hfree hgrown⟩
    intro k p x hk
    rw [linkAt_grown hgrown] at hk
    split at hk
    · cases hk
      exact hp.name
    · exact h.names k p x hk

theorem receiving_start (hd : Described ds) (hon : gl.leafNodeAccumulate = true)
    (hsingle : gl.singleTreeMode = false) (h : Attributed ds hash cur rank ts)
    (hclean : ∀ k, dirtyAt ts.currentTree k = false) (hagree : ∀ k l, cur k = some l → link k = some l)
    (now : NowInfo) : ∃ tree₁ ts' rank', unmarkRunningNodes ts = .ok { ts with currentTree := tree₁ } ∧
      markRunningNodes gl ds (updateNowValues ds { ts with currentTree := tree₁ } now) = .ok ts' ∧
      Receiving ds hash link cur ts.currentTree now.runningNode [] rank' ts' := by
  obtain ⟨tree₁, h₁, hs₁, hg₁⟩ := setRunning_rooted ts h.rooted ts.runningNode false
  have ha₁ : Attributed ds hash cur rank (updateNowValues ds { ts with currentTree := tree₁ } now) :=
    (h.core hs₁ hg₁).congr (SamePlaces.refl _) (KeepsGnid.refl _) (h.core hs₁ hg₁).sized rfl rfl rfl
  have hclean₁ (k : NodeID) : dirtyAt tree₁ k = false := by rw [hs₁.dirtyAt, hclean]
  have hup₁ : UpwardExcept hash (fun _ => False) tree₁ := by
    intro c p x _ hd
    rw [hclean₁] at hd
    cases hd
  obtain ⟨ts₂, rank₂, h₂, ha₂, hup₂, hm⟩ := mark_attributed hd hon hsingle now.runningNode ha₁ hup₁
  obtain ⟨tree₃, h₃, hs₃, hg₃⟩ := setRunning_rooted ts₂ ha₂.rooted ts₂.runningNode true
  have hm₁ : Marked ds hash cur now.runningNode tree₁ ts₂.currentTree := hm
  have hlink₁ (k : NodeID) : linkAt tree₁ k = linkAt ts.currentTree k := linkAt_places hs₁.places k
  have hlink₃ (k : NodeID) : linkAt tree₃ k = linkAt ts₂.currentTree k := linkAt_places hs₃.places k
  have hlater : Later ds ts.currentTree tree₃ :=
    (Later.core ds hs₁).trans (hm₁.later.trans (Later.core ds hs₃))
  refine ⟨tree₁, { ts₂ with currentTree := tree₃ }, rank₂, h₁, ?_, ha₂.core hs₃ hg₃,
    hup₂.congr hlink₃ hs₃.dirtyAt, hagree, hlater.links, hlater.all, ?_, ?_, ?_, ?_, ?_⟩
  · rw [markRunningNodes, show (updateNowValues ds { ts with currentTree := tree₁ } now).runningNode =
      now.runningNode from rfl, h₂, ok_bind]
    exact h₃
  · intro k i hk
    exact hlater.temps k i (hk.trans (hclean k).symm)
  · intro k l hk
    rw [hlink₃] at hk
    obtain hk | hk := hm₁.added k l hk
    · exact Or.inl ((hlink₁ k).symm.trans hk)
    · exact Or.inr ((hs₃.dirtyAt k).trans hk)
  · intro a p x i _ _ hda hi hs
    rw [hlater.marked a i (hclean a) hda hi hs]
    rfl
  · rintro q x (⟨r, hr, -⟩ | hq) _
    · cases hr
    · rw [← hlink₁] at hq
      exact ⟨now.runningNode, (hlink₃ _).trans (hm₁.later.links _ _ hq),
        (hs₃.dirtyAt _).trans (hm₁.here _ hq)⟩
  · intro a p x hx ha hda
    rw [hlink₃] at ha
    rw [hs₃.dirtyAt] at hda
    obtain hda₁ | ⟨q, hq, hb⟩ := hm₁.traced a p x hx ha hda
    · rw [hclean₁] at hda₁
      cases hda₁
    · exact ⟨q, Or.inr ((hlink₁ _).symm.trans hq), Below.links hagree hb⟩

theorem AttrSeed.append {q : NodeID} {x : NameID} (h : AttrSeed link tree running done q x)
    (r : MethodNodeSerializedInfo) : AttrSeed link tree running (done ++ [r]) q x := by
  obtain ⟨s, hs, hl⟩ | h := h
  · exact Or.inl ⟨s, List.mem_append_left _ hs, hl⟩
  · exact Or.inr h

theorem Receiving.locate (hd : Described ds) (hon : gl.leafNodeAccumulate = true)
    (hsingle : gl.singleTreeMode = false) (h : Receiving ds hash link cur tree running done rank ts)
    (hp : Placeable hash ds cur r) (hagree : ∀ k l, linkWith cur r k = some l → link k = some l) :
    ∃ ts₁ ts₂ c rank', locate gl ds ts r = .ok (ts₁, c) ∧ mark gl ds ts₁ c = .ok ts₂ ∧
      (∃ n, ts₁.currentTree[c]? = some n) ∧ Attributed ds hash (linkWith cur r) rank' ts₂ ∧
      UpwardExcept hash (fun _ => False) ts₂.currentTree ∧
      linkAt ts₂.currentTree c = link r.callNodeId ∧ dirtyAt ts₂.currentTree c = true ∧
      Later ds ts.currentTree ts₂.currentTree ∧
      (∀ k l, linkAt ts₂.currentTree k = some l → linkAt ts.currentTree k = some l ∨
        dirtyAt ts₂.currentTree k = true) ∧
      ∀ a p x, hash x → linkAt ts₂.currentTree a = some (p, x) → dirtyAt ts₂.currentTree a = true →
        dirtyAt ts.currentTree a = true ∨ ∃ q, link r.callNodeId = some (q, x) ∧ Below link.parent p q := by
  obtain ⟨ts₁, c, rank₁, h₁, ha₁, hc, hj⟩ := locate_attributed hon hsingle h.attributed hp
  obtain ⟨ts₂, rank₂, h₂, ha₂, hup₂, hm⟩ := mark_attributed hd hon hsingle c ha₁ (hj.upward _ h.upward)
  obtain ⟨l, hl⟩ : ∃ l, linkWith cur r r.callNodeId = some l := by
    cases hk : cur r.callNodeId with
    | some l => exact ⟨l, linkWith_known hk r⟩
    | none => exact ⟨_, linkWith_new hk⟩
  rw [hl] at hc
  have hlink := hagree _ l hl
  refine ⟨ts₁, ts₂, c, rank₂, h₁, h₂, node_of_linkAt hc, ha₂, hup₂, ?_, hm.here l hc,
    hj.later.trans hm.later, ?_, ?_⟩
  · rw [hlink]
    exact hm.later.links c l hc
  · intro k m hk
    by_cases hkc : k = c
    · exact Or.inr (hkc ▸ hm.here l hc)
    · obtain hk | hk := hm.added k m hk
      · exact Or.inl ((hj.links k hkc).symm.trans hk)
      · exact Or.inr hk
  · intro a p x hx ha hda
    obtain hda₁ | ⟨q, hq, hb⟩ := hm.traced a p x hx ha hda
    · exact Or.inl ((hj.dirty a).symm.trans hda₁)
    · rw [hc] at hq
      exact Or.inr ⟨q, hlink.trans hq, Below.links hagree hb⟩

theorem storeRecord_receiving (hd : Described ds) (hon : gl.leafNodeAccumulate = true)
    (hsingle : gl.singleTreeMode = false) (h : Receiving ds hash link cur tree running done rank ts)
    (hp : Placeable hash ds cur r) (hagree : ∀ k l, linkWith cur r k = some l → link k = some l)
    (hvalues : r.profileValue.length = ds.numRecords)
    (hdistinct : ∀ s ∈ done, ∀ p x, hash x → link r.callNodeId = some (p, x) →
      link s.callNodeId ≠ some (p, x)) :
    ∃ ts' rank', storeRecord gl ds ts r = .ok ts' ∧
      Receiving ds hash link (linkWith cur r) tree running (done ++ [r]) rank' ts' := by
  obtain ⟨ts₁, ts₂, c, rank₂, h₁, h₂, ⟨n₁, hn₁⟩, ha₂, hup₂, hc, hdc, hlater, hadded, htraced⟩ :=
    h.locate hd hon hsingle hp hagree
  obtain ⟨n, hn, hdn⟩ := dirtyAt_some hdc
  obtain ⟨hall, hch, ht⟩ := ha₂.sized c n hn
  let n' : RecordNode := { n with tempValues := r.profileValue, tempCallCount := r.callCount }
  have hset : n.setTempValues (r.profileValue.take ds.numRecords) r.callCount = .ok n' := by
    rw [RecordNode.setTempValues, ← hvalues, List.take_length,
      require_of (by rw [ht, hvalues]), ok_bind, pure_eq_ok]
  have hpl : SamePlaces ts₂.currentTree (ts₂.setNode c n').currentTree := SamePlaces.insert hn rfl
  have hlink (k : NodeID) : linkAt (ts₂.setNode c n').currentTree k = linkAt ts₂.currentTree k :=
    linkAt_places hpl k
  have hdirty (k : NodeID) : dirtyAt (ts₂.setNode c n').currentTree k = dirtyAt ts₂.currentTree k :=
    dirtyAt_insert hn (by rfl) k
  have htemp {k : NodeID} (hk : k ≠ c) (i : Nat) : tempAt (ts₂.setNode c n').currentTree k i =
      tempAt ts₂.currentTree k i := by
    rw [tempAt, ThreadStore.setNode, getElem?_insert_ne _ hk, tempAt]
  refine ⟨ts₂.setNode c n', rank₂, ?_, ha₂.setNode hn rfl rfl ⟨hall, hch, hvalues⟩,
    hup₂.congr hlink hdirty, hagree, ?_, ?_, ?_, ?_, ?_, ?_, ?_⟩
  · rw [storeRecord, h₁]
    simp only [ok_bind]
    rw [require_of (contains_iff_some.mpr ⟨n₁, hn₁⟩), ok_bind,
      require_of hvalues.symm.le, ok_bind, h₂, ok_bind]
    simp only [ThreadStore.getNodeFromID, hn, hset, ok_bind, pure_eq_ok]
  · intro k l hk
    rw [hlink]
    exact hlater.links k l (h.links k l hk)
  · intro k i
    rw [← h.all, ← hlater.all, allAt, ThreadStore.setNode, getElem?_insert, allAt]
    split
    next hk => rw [hk, hn]; rfl
    next => rfl
  · intro k i hk
    rw [hdirty] at hk
    have hkc : k ≠ c := by
      rintro rfl
      rw [hdc] at hk
      cases hk
    have hk₀ : dirtyAt ts.currentTree k = false := by
      rw [Bool.eq_false_iff]
      intro hdk
      rw [hlater.dirty k hdk] at hk
      cases hk
    rw [htemp hkc, hlater.temps k i (hk.trans hk₀.symm), h.clean k i hk₀]
  · intro k l hk
    rw [hlink] at hk
    rw [hdirty]
    obtain hk | hk := hadded k l hk
    · exact (h.added k l hk).imp_right fun hdk => hlater.dirty k hdk
    · exact Or.inr hk
  · intro a p x i hx ha hda hi hs
    rw [hlink] at ha
    rw [hdirty] at hda
    rw [sumAt_append, sumAt_singleton]
    by_cases hac : a = c
    · rw [hac, hc] at ha
      rw [if_pos ha, sumAt_eq_zero fun s hs' => hdistinct s hs' p x hx ha, zero_add, hac,
        tempAt, ThreadStore.setNode, getElem?_insert_self]
      rfl
    · have hne : link r.callNodeId ≠ some (p, x) :=
        fun he => hac (Tabled.attr_unique ha₂.tabled hx ha (hc.trans he))
      rw [if_neg hne, add_zero, htemp hac]
      cases hda₀ : dirtyAt ts.currentTree a with
      | true =>
          obtain ⟨p₀, x₀, hl₀⟩ := linkAt_of_dirty hda₀
          obtain ⟨rfl, rfl⟩ := Prod.mk.inj (linkAt_old hl₀ hlater ha)
          rw [hlater.temps a i (hda.trans hda₀.symm), h.records a p x i hx hl₀ hda₀ hi hs]
      | false =>
          rw [hlater.marked a i hda₀ hda hi hs]
          symm
          apply sumAt_eq_zero
          intro s hs' he
          -- a record of this place would have made its node dirty before
          obtain ⟨b, hb, hdb⟩ := h.seeds p x (Or.inl ⟨s, hs', he⟩) hx
          rw [Tabled.attr_unique ha₂.tabled hx ha (hlater.links b _ hb), hdb] at hda₀
          cases hda₀
  · intro q x hseed hx
    simp only [hlink, hdirty]
    obtain ⟨s, hs', he⟩ | hrun := hseed
    · obtain hs' | hs' := List.mem_append.mp hs'
      · obtain ⟨a, ha, hda⟩ := h.seeds q x (Or.inl ⟨s, hs', he⟩) hx
        exact ⟨a, hlater.links a _ ha, hlater.dirty a hda⟩
      · rw [List.mem_singleton.mp hs'] at he
        exact ⟨c, hc.trans he, hdc⟩
    · obtain ⟨a, ha, hda⟩ := h.seeds q x (Or.inr hrun) hx
      exact ⟨a, hlater.links a _ ha, hlater.dirty a hda⟩
  · intro a p x hx ha hda
    rw [hlink] at ha
    rw [hdirty] at hda
    obtain hda₀ | ⟨q, hq, hb⟩ := htraced a p x hx ha hda
    · obtain ⟨p₀, x₀, hl₀⟩ := linkAt_of_dirty hda₀
      obtain ⟨rfl, rfl⟩ := Prod.mk.inj (linkAt_old hl₀ hlater ha)
      obtain ⟨q, hseed, hb⟩ := h.traced a p x hx hl₀ hda₀
      exact ⟨q, hseed.append r, hb⟩
    · exact ⟨q, Or.inl ⟨r, List.mem_append_right _ (List.mem_singleton.mpr rfl), hq⟩, hb⟩

/-- A batch that is well formed in attribute mode after the records of `log`: the ids stay
below those that the monitor gives, the name table agrees with `hash` about the names of
nodes, nothing hangs below an attribute, and no two nodes are the same attribute. -/
structure AttrBatch (ds : DataStore) (hash : NameID → Prop) (log : List MethodNodeSerializedInfo)
    (d : Delivery) : Prop where
  formed : WellFormedBatch ds log d
  small : ∀ r ∈ d.batch, r.callNodeId < firstAttrNodeId
  names : ∀ x, (x = 0 ∨ ∃ r ∈ log ++ d.batch, r.nameid = x) →
    (isAttrName ((d.dataStore ds).getNameFromID x) = true ↔ hash x)
  leaves : ∀ r ∈ d.batch, ∀ q y, linkOf (log ++ d.batch) r.parentNodeId = some (q, y) → ¬ hash y
  places : ∀ r ∈ d.batch, ∀ s ∈ d.batch, ∀ p x, hash x → linkOf (log ++ d.batch) r.callNodeId = some (p, x) →
    linkOf (log ++ d.batch) s.callNodeId = some (p, x) → r.callNodeId = s.callNodeId

variable {log : List MethodNodeSerializedInfo} {d : Delivery}

theorem AttrBatch.placeable (h : AttrBatch ds hash log d) {done rest : List MethodNodeSerializedInfo}
    {r : MethodNodeSerializedInfo} (he : d.batch = done ++ r :: rest) : Placeable hash (d.dataStore ds)
    (linkOf (log ++ done)) r := by
  have hr : r ∈ d.batch := by rw [he]; simp
  refine ⟨h.names _ (Or.inr ⟨r, List.mem_append_right _ hr, rfl⟩), h.formed.nonzero r hr,
    h.small r hr, fun _ => ?_⟩
  obtain ⟨⟨q, y⟩, hl⟩ := Option.isSome_iff_exists.mp (linkOf_isSome.mpr (h.formed.parents done r rest he))
  refine ⟨q, y, h.leaves r hr q y ?_, hl⟩
  rw [he, ← List.append_assoc]
  exact linkOf_mono hl _

theorem receive_receiving (hd : Described ds) (hon : gl.leafNodeAccumulate = true)
    (hsingle : gl.singleTreeMode = false) (h : Attributed (d.dataStore ds) hash (linkOf log) rank ts)
    (hclean : ∀ k, dirtyAt ts.currentTree k = false) (hb : AttrBatch ds hash log d) :
    ∃ ts' rank', receive gl (d.dataStore ds) ts d.batch d.now = .ok ts' ∧
      Receiving (d.dataStore ds) hash (linkOf (log ++ d.batch)) (linkOf (log ++ d.batch))
        ts.currentTree d.now.runningNode d.batch rank' ts' := by
  have hdescribed : Described (d.dataStore ds) := hd
  have hmono (xs ys : List MethodNodeSerializedInfo) (k : NodeID) (l : NodeID × NameID)
      (hl : linkOf (log ++ xs) k = some l) : linkOf (log ++ (xs ++ ys)) k = some l := by
    rw [← List.append_assoc]
    exact linkOf_mono hl ys
  have hagree : ∀ k l, linkOf log k = some l → linkOf (log ++ d.batch) k = some l :=
    fun k l hl => linkOf_mono hl _
  obtain ⟨tree₁, ts₂, rank₂, h₁, h₂, hstart⟩ := receiving_start hdescribed hon hsingle h hclean hagree d.now
  obtain ⟨ts', hrun, rank', hr⟩ := foldlM_total (f := storeRecord gl (d.dataStore ds))
    (fun done ts' => ∃ rank', Receiving (d.dataStore ds) hash (linkOf (log ++ d.batch)) (linkOf (log ++ done)) ts.currentTree
      d.now.runningNode done rank' ts') d.batch
    (by
      rintro done r rest ts' he ⟨rank', hr⟩
      have hmem : r ∈ d.batch := by rw [he]; simp
      have hwith : linkOf (log ++ (done ++ [r])) = linkWith (linkOf (log ++ done)) r := by
        rw [← List.append_assoc, linkOf_append_record]
      have hagree (k : NodeID) (l : NodeID × NameID) (hl : linkWith (linkOf (log ++ done)) r k = some l) :
          linkOf (log ++ d.batch) k = some l := by
        rw [← hwith] at hl
        have := hmono (done ++ [r]) rest k l hl
        rwa [List.append_assoc, List.singleton_append, ← he] at this
      have hdistinct (s : MethodNodeSerializedInfo) (hs : s ∈ done) (p : NodeID) (x : NameID) (hx : hash x)
          (hl : linkOf (log ++ d.batch) r.callNodeId = some (p, x)) :
            linkOf (log ++ d.batch) s.callNodeId ≠ some (p, x) := by
        intro hl'
        have hsame := hb.places r hmem s (by rw [he]; simp [hs]) p x hx hl hl'
        have hids := hb.formed.ids
        rw [he, List.map_append, List.map_cons] at hids
        exact (List.nodup_append.mp hids).2.2 _ (List.mem_map_of_mem hs) _ List.mem_cons_self hsame.symm
      obtain ⟨ts'', rank'', hrun, hr'⟩ :=
        storeRecord_receiving hdescribed hon hsingle hr (hb.placeable he) hagree
          (hb.formed.values r hmem) hdistinct
      exact ⟨ts'', hrun, rank'', hwith ▸ hr'⟩)
    ⟨rank₂, by rwa [List.append_nil]⟩
  have hnow : (d.dataStore ds).numRecords ≤ d.now.values.length := hb.formed.nowValues
  refine ⟨ts', rank', ?_, hr⟩
  rw [receive, h₁, ok_bind, require_of hnow, ok_bind, h₂, ok_bind, hrun]

end Llprof.Monitor.AttrReceive
