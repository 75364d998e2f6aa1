import Llprof.Monitor.FlushSpec

namespace Llprof.Monitor.FlushWalk

open Faulting hiding store
open ParentTree TreeMaps Slots Nodes Store SlotLoops TreeShape FlushSpec

section Outcome

variable (ds : DataStore) (attrNodeMap : AttrNodeMap) (tree : Tree) (f : NodeID → Nat → ProfileValue)

def flushedAt (k : NodeID) : Option RecordNode :=
  (tree[k]?).map (fun n => flushedNode ds n (inflow ds attrNodeMap tree f k))

def entryAt (k : NodeID) : Option RecordNodeBasic :=
  (tree[k]?).map (fun n => flushedEntry ds k n (inflow ds attrNodeMap tree f k))

/-- At the node `j`, the second state is the first one after the dirty nodes of
`S` have been flushed. -/
def After (S : NodeID → Prop) (s s' : Flush) (j : NodeID) : Prop :=
  (S j → dirtyAt tree j = true →
    s'.tree[j]? = flushedAt ds attrNodeMap tree f j ∧ s'.slice[j]? = entryAt ds attrNodeMap tree f j) ∧
  (¬ (S j ∧ dirtyAt tree j = true) → s'.tree[j]? = s.tree[j]? ∧ s'.slice[j]? = s.slice[j]?)

structure Working (k : NodeID) (n : RecordNode) (S : NodeID → Prop) (F : Nat → ProfileValue) (s s' : Flush) :
    Prop where
  node : s'.tree[k]? = some (partialNode ds n F)
  entry : s'.slice[k]? = some (partialEntry ds k F)
  others : ∀ j, j ≠ k → After ds attrNodeMap tree f S s s' j

def SiblingsDone (k : NodeID) (s : Flush) : Prop :=
  ∀ p c a, parentOf tree k = some p → parentOf tree c = some p → attrAt ds tree c = false →
    attrNodeMap[(c, nameAt tree k)]? = some a →
    s.tree[a]? = if dirtyAt tree a then flushedAt ds attrNodeMap tree f a else tree[a]?

end Outcome

variable {ds : DataStore} {attrNodeMap : AttrNodeMap} {tree : Tree} {slice : Slice} {rank : NodeID → Nat}
  {f : NodeID → Nat → ProfileValue} {g : Settings} {S T : NodeID → Prop} {s s₁ s₂ : Flush} {j k : NodeID}
  {n : RecordNode} {F : Nat → ProfileValue}

theorem After.trans (h : After ds attrNodeMap tree f S s s₁ j) (h' : After ds attrNodeMap tree f T s₁ s₂ j) :
    After ds attrNodeMap tree f (fun j => S j ∨ T j) s s₂ j := by
  by_cases hT : T j ∧ dirtyAt tree j = true
  · exact ⟨fun _ _ => h'.1 hT.1 hT.2, fun hn => absurd ⟨Or.inr hT.1, hT.2⟩ hn⟩
  · obtain ⟨ht, hs⟩ := h'.2 hT
    refine ⟨fun hST hd => ?_, fun hn => ?_⟩
    · obtain hS | hT' := hST
      · rw [ht, hs]
        exact h.1 hS hd
      · exact absurd ⟨hT', hd⟩ hT
    · rw [ht, hs]
      exact h.2 (fun hS => hn ⟨Or.inl hS.1, hS.2⟩)

theorem After.congr (h : After ds attrNodeMap tree f S s s₁ j)
    (hST : dirtyAt tree j = true → (S j ↔ T j)) : After ds attrNodeMap tree f T s s₁ j :=
  ⟨fun hT hd => h.1 ((hST hd).mpr hT) hd, fun hn => h.2 (fun hS => hn ⟨(hST hS.2).mp hS.1, hS.2⟩)⟩

theorem After.none (s : Flush) (j : NodeID) : After ds attrNodeMap tree f (fun _ => False) s s j :=
  ⟨fun h => h.elim, fun _ => ⟨rfl, rfl⟩⟩

theorem After.insert (h : After ds attrNodeMap tree f S s s₁ j) (hj : j ≠ k)
    (n : RecordNode) (e : RecordNodeBasic) :
    After ds attrNodeMap tree f S s { tree := s₁.tree.insert k n, slice := s₁.slice.insert k e } j := by
  unfold After
  dsimp only
  rw [getElem?_insert_ne _ hj, getElem?_insert_ne _ hj]
  exact h

theorem After.place (hp : SamePlaces tree s.tree) (h : After ds attrNodeMap tree f S s s₁ j) :
    (s₁.tree[j]?).map place = (tree[j]?).map place := by
  by_cases hS : S j ∧ dirtyAt tree j = true
  · rw [(h.1 hS.1 hS.2).1, flushedAt, Option.map_map]
    rfl
  · rw [(h.2 hS).1, hp j]

theorem Working.places (hk : tree[k]? = some n) (hp : SamePlaces tree s.tree)
    (h : Working ds attrNodeMap tree f k n S F s s₁) : SamePlaces tree s₁.tree := by
  intro j
  by_cases hj : j = k
  · rw [hj, h.node, hk]
    rfl
  · exact (h.others j hj).place hp

theorem Working.congr (h : Working ds attrNodeMap tree f k n S F s s₁) {F' : Nat → ProfileValue}
    (hF : ∀ i, i < ds.numRecords → F i = F' i) (hST : ∀ j, j ≠ k → dirtyAt tree j = true → (S j ↔ T j)) :
    Working ds attrNodeMap tree f k n T F' s s₁ := by
  refine ⟨?_, ?_, fun j hj => (h.others j hj).congr (hST j hj)⟩
  · rw [h.node, partialNode, partialNode, refill_congr fun i hi => by rw [hF i hi],
      slots_congr fun i hi => by rw [hF i hi]]
  · have hc : slots ds.numRecords (fun i => counted ds i (F i)) =
        slots ds.numRecords (fun i => counted ds i (F' i)) :=
      slots_congr fun i hi => by rw [hF i hi]
    rw [h.entry, partialEntry, partialEntry, hc]

theorem Working.addTemp (H : Ready ds attrNodeMap tree slice rank) (hk : tree[k]? = some n)
    (h : Working ds attrNodeMap tree f k n S F s s₁) {src : NodeID} {m : RecordNode} {v : Nat → ProfileValue}
    (hsrc : s₁.tree[src]? = some m) (hv : m.tempValues = slots ds.numRecords v) :
    ∃ s₂, s₁.addTemp g ds k src = .ok s₂ ∧
      Working ds attrNodeMap tree f k n S (fun i => F i + v i) s s₂ ∧ ∀ j, j ≠ k →
        s₂.tree[j]? = s₁.tree[j]? := by
  refine ⟨_, addTemp_partial H.described (H.sized k n hk).2.1 h.node h.entry hsrc hv, ⟨?_, ?_, ?_⟩, ?_⟩
  · exact getElem?_insert_self _ _ _
  · exact getElem?_insert_self _ _ _
  · intro j hj
    exact (h.others j hj).insert hj _ _
  · intro j hj
    exact getElem?_insert_ne _ hj _

theorem tempAt_eq (hk : tree[k]? = some n) (i : Nat) : tempAt tree k i = value n.tempValues i := by
  rw [tempAt, hk, Option.map_some, Option.getD_some]

theorem flushedAt_temps (hf : Settles ds attrNodeMap tree f) (hk : tree[k]? = some n) (hd : n.dirty = true) :
    ∃ m, flushedAt ds attrNodeMap tree f k = some m ∧ m.tempValues = slots ds.numRecords (f k) := by
  refine ⟨_, by rw [flushedAt, hk, Option.map_some], ?_⟩
  refine slots_congr fun i hi => ?_
  rw [hf k i (by rw [dirtyAt_eq hk, hd]) hi, tempAt_eq hk]

theorem done_temps (H : Ready ds attrNodeMap tree slice rank) (hf : Settles ds attrNodeMap tree f)
    (hk : tree[k]? = some n) :
    ∃ m, (if dirtyAt tree k then flushedAt ds attrNodeMap tree f k else tree[k]?) = some m ∧
      m.tempValues = slots ds.numRecords (current tree f k) := by
  cases hd : dirtyAt tree k with
  | true =>
      obtain ⟨m, hm, hv⟩ := flushedAt_temps hf hk (dirtyAt_eq hk ▸ hd)
      refine ⟨m, by rw [if_pos rfl, hm], ?_⟩
      rw [hv]
      exact slots_congr fun i _ => by rw [current, hd, if_pos rfl]
  | false =>
      refine ⟨n, by rw [if_neg Bool.false_ne_true, hk], ?_⟩
      rw [← slots_value (H.sized k n hk).2.2]
      exact slots_congr fun i _ => by rw [current, hd, if_neg Bool.false_ne_true, tempAt_eq hk]

theorem dirty_upward (H : Ready ds attrNodeMap tree slice rank) (h : Below (parentOf tree) k j)
    (hk : k ≠ 0) (hj : dirtyAt tree j = true) : dirtyAt tree k = true := by
  induction h using Relation.ReflTransGen.head_induction_on with
  | refl => exact hj
  | head hp hk' ih =>
      rename_i c p
      refine ih (H.upward _ _ hp hj ?_)
      rintro rfl
      obtain he | ⟨q, hq, -⟩ := below_iff_parent.mp hk'
      · exact hk he.symm
      · rw [parentOf, H.rooted.zero] at hq
        cases hq

theorem attr_below (H : Ready ds attrNodeMap tree slice rank) (hk : tree[k]? = some n)
    (ha : attrAt ds tree k = true) (h : Below (parentOf tree) k j) (hj : dirtyAt tree j = true) : j = k := by
  have hk0 : k ≠ 0 := by
    rintro rfl
    rw [H.rooted.zero] at hk
    cases hk
  obtain he | ⟨c, hc, hb⟩ := below_iff_child.mp h
  · exact he
  · have hc0 : c ≠ 0 := by
      rintro rfl
      rw [parentOf, H.rooted.zero] at hc
      cases hc
    have hdc := dirty_upward H hb hc0 hj
    rw [(H.inner k (dirty_upward H h hk0 hj) ha).2 c hc] at hdc
    cases hdc

/-- With enough fuel for the levels below it, a flush of a node flushes all dirty
nodes below it and says whether the node was dirty. -/
def ClearsBelow (gl : Settings) (ds : DataStore) (attrNodeMap : AttrNodeMap) (tree : Tree) (slice : Slice)
    (rank : NodeID → Nat) (f : NodeID → Nat → ProfileValue) (fuel : Nat) : Prop :=
  ∀ (k : NodeID) (n : RecordNode) (s : Flush), tree[k]? = some n → tree.size + 1 ≤ fuel + rank k →
    SamePlaces tree s.tree →
    (∀ j, Below (parentOf tree) k j → s.tree[j]? = tree[j]? ∧ s.slice[j]? = slice[j]?) →
    (attrAt ds tree k = true → SiblingsDone ds attrNodeMap tree f k s) →
    ∃ s', clearDirtyNode gl ds attrNodeMap fuel s k = .ok (s', dirtyAt tree k) ∧
      ∀ j, After ds attrNodeMap tree f (Below (parentOf tree) k) s s' j

def BelowPlain (ds : DataStore) (tree : Tree) (cs : List NodeID) (j : NodeID) : Prop :=
  ∃ c ∈ cs, attrAt ds tree c = false ∧ Below (parentOf tree) c j

theorem clearChildren_working (H : Ready ds attrNodeMap tree slice rank) (hf : Settles ds attrNodeMap tree f)
    (hk : tree[k]? = some n) {fuel : Nat} (hfuel : tree.size + 1 ≤ fuel + 1 + rank k)
    (hclear : ClearsBelow g ds attrNodeMap tree slice rank f fuel) (hp : SamePlaces tree s.tree)
    (hb : ∀ j, j ≠ k → Below (parentOf tree) k j → s.tree[j]? = tree[j]? ∧ s.slice[j]? = slice[j]?)
    (hw : Working ds attrNodeMap tree f k n (fun _ => False) (fun _ => 0) s s₁) :
    ∃ s₂, clearChildren g ds (clearDirtyNode g ds attrNodeMap fuel) k (childrenAt tree k) s₁ =
        .ok (s₂, (childrenAt tree k).filter (fun c => attrAt ds tree c)) ∧
      Working ds attrNodeMap tree f k n (BelowPlain ds tree (childrenAt tree k))
        (fromChildren ds tree f (childrenAt tree k)) s s₂ := by
  obtain ⟨⟨s₂, attrNodes⟩, hrun, hw₂, rfl⟩ := foldlM_total
    (fun done (st : Flush × List NodeID) =>
      Working ds attrNodeMap tree f k n (BelowPlain ds tree done) (fromChildren ds tree f done) s st.1 ∧
        st.2 = done.filter (fun c => attrAt ds tree c))
    (childrenAt tree k) (f := clearChild g ds (clearDirtyNode g ds attrNodeMap fuel) k)
    (by
      rintro done c rest ⟨t, attrNodes⟩ hcs ⟨ht, rfl⟩
      have hmem : c ∈ childrenAt tree k := by rw [hcs]; simp
      have hc : parentOf tree c = some k := (H.rooted.mem_childrenAt hk c).mp hmem
      obtain ⟨m, hm, -⟩ := Rooted.child_exists hc
      have hck : c ≠ k := H.rooted.parent_ne hc
      have hpt : SamePlaces tree t.tree := ht.places hk hp
      obtain ⟨m', hm', hplace⟩ := hpt.find hm
      have hattr : m'.isAttrNode ds = attrAt ds tree c := by
        rw [← attrAt_congr hpt c, attrAt_eq hm']
      simp only [clearChild, hm']
      cases ha : attrAt ds tree c with
      | true =>
          refine ⟨(t, done.filter (fun c => attrAt ds tree c) ++ [c]), by rw [hattr, ha, if_pos rfl], ?_, ?_⟩
          · refine ht.congr (fun i _ => ?_) (fun j _ _ => ?_)
            · simp [fromChildren, ha]
            · constructor
              · rintro ⟨d, hd, h⟩
                exact ⟨d, List.mem_append_left _ hd, h⟩
              · rintro ⟨d, hd, hda, h⟩
                obtain hd | hd := List.mem_append.mp hd
                · exact ⟨d, hd, hda, h⟩
                · rw [List.mem_singleton.mp hd, ha] at hda
                  cases hda
          · simp [ha]
      | false =>
          rw [hattr, ha, if_neg Bool.false_ne_true]
          have hnotdone (j : NodeID) (hj : Below (parentOf tree) c j) : ¬ BelowPlain ds tree done j := by
            rintro ⟨d, hd, -, hdj⟩
            have hdm : d ∈ childrenAt tree k := by rw [hcs]; exact List.mem_append_left _ hd
            have he := below_children_unique H.rooted.ranked ((H.rooted.mem_childrenAt hk d).mp hdm) hc hdj hj
            have hnd := childrenAt_nodup tree k
            rw [hcs] at hnd
            exact (List.nodup_append.mp hnd).2.2 d hd c List.mem_cons_self he
          have hnek (j : NodeID) (hj : Below (parentOf tree) c j) : j ≠ k := by
            rintro rfl
            exact not_below_of_parent H.rooted.ranked hc hj
          have hrank := H.rooted.rank_child hc
          obtain ⟨u, hu, hafter⟩ := hclear c m t hm (by omega) hpt
            (fun j hj => by
              obtain ⟨h1, h2⟩ := (ht.others j (hnek j hj)).2 (fun h => hnotdone j hj h.1)
              obtain ⟨h3, h4⟩ := hb j (hnek j hj) (hj.child hc)
              exact ⟨h1.trans h3, h2.trans h4⟩)
            (fun h => by rw [ha] at h; cases h)
          rw [hu]
          have hkeep : u.tree[k]? = some (partialNode ds n (fromChildren ds tree f done)) ∧
              u.slice[k]? = some (partialEntry ds k (fromChildren ds tree f done)) := by
            obtain ⟨h1, h2⟩ := (hafter k).2 (fun h => not_below_of_parent H.rooted.ranked hc h.1)
            exact ⟨h1.trans ht.node, h2.trans ht.entry⟩
          have hwu : Working ds attrNodeMap tree f k n (BelowPlain ds tree (done ++ [c]))
              (fromChildren ds tree f done) s u := by
            refine ⟨hkeep.1, hkeep.2, fun j hj => ((ht.others j hj).trans (hafter j)).congr fun _ => ?_⟩
            constructor
            · rintro (⟨d, hd, h⟩ | h)
              · exact ⟨d, List.mem_append_left _ hd, h⟩
              · exact ⟨c, by simp, ha, h⟩
            · rintro ⟨d, hd, hda, h⟩
              obtain hd | hd := List.mem_append.mp hd
              · exact Or.inl ⟨d, hd, hda, h⟩
              · rw [List.mem_singleton.mp hd] at h
                exact Or.inr h
          have hfilter : done.filter (fun c => attrAt ds tree c) =
              (done ++ [c]).filter (fun c => attrAt ds tree c) := by simp [ha]
          cases hd : dirtyAt tree c with
          | true =>
              obtain ⟨q, hq, hqv⟩ := flushedAt_temps hf hm (dirtyAt_eq hm ▸ hd)
              obtain ⟨w, hrun, hw, -⟩ := hwu.addTemp (g := g) H hk
                (((hafter c).1 (Below.refl c) hd).1.trans hq) hqv
              refine ⟨(w, _), by simp only [ok_bind, if_true, hrun, pure_eq_ok], ?_, hfilter⟩
              refine hw.congr (fun i _ => ?_) (fun _ _ _ => Iff.rfl)
              simp [fromChildren, ha, hd]
          | false =>
              refine ⟨(u, _), by simp only [ok_bind, Bool.false_eq_true, if_false, pure_eq_ok], ?_, hfilter⟩
              refine hwu.congr (fun i _ => ?_) (fun _ _ _ => Iff.rfl)
              simp [fromChildren, hd])
    (s := (s₁, [])) ⟨hw.congr (fun _ _ => rfl) (fun _ _ _ => by simp [BelowPlain]), rfl⟩
  exact ⟨s₂, hrun, hw₂⟩

/-- A non-attribute child of `k` has nothing below it in common with another child. -/
theorem not_belowPlain (H : Ready ds attrNodeMap tree slice rank) (hk : tree[k]? = some n) {c : NodeID}
    (hc : parentOf tree c = some k) (ha : attrAt ds tree c = true) (hj : Below (parentOf tree) c j) :
    ¬ BelowPlain ds tree (childrenAt tree k) j := by
  rintro ⟨d, hd, hda, hdj⟩
  have he := below_children_unique H.rooted.ranked ((H.rooted.mem_childrenAt hk d).mp hd) hc hdj hj
  rw [he, ha] at hda
  cases hda

theorem clearAttrs_working (H : Ready ds attrNodeMap tree slice rank) (hk : tree[k]? = some n) {fuel : Nat}
    (hfuel : tree.size + 1 ≤ fuel + 1 + rank k) (hclear : ClearsBelow g ds attrNodeMap tree slice rank f fuel)
    (hp : SamePlaces tree s.tree)
    (hb : ∀ j, j ≠ k → Below (parentOf tree) k j → s.tree[j]? = tree[j]? ∧ s.slice[j]? = slice[j]?)
    (hw : Working ds attrNodeMap tree f k n (BelowPlain ds tree (childrenAt tree k)) F s s₁) :
    ∃ s₂, clearAttrs g ds (clearDirtyNode g ds attrNodeMap fuel) k
        ((childrenAt tree k).filter (fun c => attrAt ds tree c)) s₁ = .ok s₂ ∧
      Working ds attrNodeMap tree f k n (fun j => BelowPlain ds tree (childrenAt tree k) j ∨
          j ∈ (childrenAt tree k).filter (fun c => attrAt ds tree c))
        (fun i => F i + fromAttrs tree ((childrenAt tree k).filter (fun c => attrAt ds tree c)) i) s s₂ := by
  refine foldlM_total (fun done t => Working ds attrNodeMap tree f k n
    (fun j => BelowPlain ds tree (childrenAt tree k) j ∨ j ∈ done) (fun i => F i + fromAttrs tree done i) s t)
      _ ?_ ?_
  · intro done c rest t hcs ht
    have hmem : c ∈ (childrenAt tree k).filter (fun c => attrAt ds tree c) := by rw [hcs]; simp
    obtain ⟨hchild, ha⟩ := List.mem_filter.mp hmem
    have hc : parentOf tree c = some k := (H.rooted.mem_childrenAt hk c).mp hchild
    obtain ⟨m, hm, -⟩ := Rooted.child_exists hc
    have hdone (d : NodeID) (hd : d ∈ done) : parentOf tree d = some k ∧ d ≠ c := by
      have hdm : d ∈ (childrenAt tree k).filter (fun c => attrAt ds tree c) := by
        rw [hcs]
        exact List.mem_append_left _ hd
      refine ⟨(H.rooted.mem_childrenAt hk d).mp (List.mem_filter.mp hdm).1, ?_⟩
      have hnd := (childrenAt_nodup tree k).filter (fun c => attrAt ds tree c)
      rw [hcs] at hnd
      exact (List.nodup_append.mp hnd).2.2 d hd c List.mem_cons_self
    have hnew (j : NodeID) (hj : Below (parentOf tree) c j) :
        ¬ (BelowPlain ds tree (childrenAt tree k) j ∨ j ∈ done) := by
      rintro (h | h)
      · exact not_belowPlain H hk hc ha hj h
      · exact (hdone j h).2 (below_children_unique H.rooted.ranked (hdone j h).1 hc (Below.refl j) hj)
    have hnek (j : NodeID) (hj : Below (parentOf tree) c j) : j ≠ k := by
      rintro rfl
      exact not_below_of_parent H.rooted.ranked hc hj
    have hbase {t : Flush} {F' : Nat → ProfileValue} (ht : Working ds attrNodeMap tree f k n
        (fun j => BelowPlain ds tree (childrenAt tree k) j ∨ j ∈ done) F' s t) (j : NodeID)
        (hj : Below (parentOf tree) c j) : t.tree[j]? = tree[j]? ∧ t.slice[j]? = slice[j]? := by
      obtain ⟨h1, h2⟩ := (ht.others j (hnek j hj)).2 (fun h => hnew j hj h.1)
      obtain ⟨h3, h4⟩ := hb j (hnek j hj) (hj.child hc)
      exact ⟨h1.trans h3, h2.trans h4⟩
    have htc : t.tree[c]? = some m := ((hbase ht c (Below.refl c)).1).trans hm
    simp only [htc]
    cases hd : dirtyAt tree c with
    | false =>
        rw [← dirtyAt_eq hm, hd, if_neg Bool.false_ne_true]
        refine ⟨t, rfl, ht.congr (fun i _ => ?_) (fun j _ hdj => ?_)⟩
        · simp [fromAttrs, hd]
        · have hjc : j ≠ c := by
            rintro rfl
            rw [hd] at hdj
            cases hdj
          simp [hjc]
    | true =>
        rw [← dirtyAt_eq hm, hd, if_pos rfl]
        obtain ⟨w, hrun, hww, -⟩ := ht.addTemp (g := g) H hk htc (slots_value (H.sized c m hm).2.2).symm
        have hrank := H.rooted.rank_child hc
        obtain ⟨u, hu, hafter⟩ := hclear c m w hm (by omega) (hww.places hk hp) (hbase hww)
          (fun _ => by
            intro p c' a hpc hc' ha' hmap
            rw [hc] at hpc
            cases hpc
            have hpa := H.attrs c' _ a hmap
            have hka : a ≠ k := by
              rintro rfl
              have := H.rooted.rank_child hpa
              have := H.rooted.rank_child hc'
              omega
            have hac : Below (parentOf tree) c' a := (Below.refl a).child hpa |> fun h => by
              exact (Below.refl c').up hpa
            cases hda : dirtyAt tree a with
            | true =>
                rw [if_pos rfl]
                exact ((hww.others a hka).1
                  (Or.inl ⟨c', (H.rooted.mem_childrenAt hk c').mpr hc', ha', hac⟩) hda).1
            | false =>
                rw [if_neg Bool.false_ne_true]
                exact ((hww.others a hka).2 (by simp [hda])).1.trans (hb a hka (hac.child hc')).1)
        refine ⟨u, by simp only [hrun, ok_bind, hu, pure_eq_ok], ?_, ?_, fun j hj =>
          ((hww.others j hj).trans (hafter j)).congr fun hdj => ?_⟩
        · rw [((hafter k).2 (fun h => hnek k h.1 rfl)).1, hww.node]
          simp [fromAttrs, hd, tempAt_eq hm, add_assoc]
        · rw [((hafter k).2 (fun h => hnek k h.1 rfl)).2, hww.entry]
          simp [fromAttrs, hd, tempAt_eq hm, add_assoc]
        · constructor
          · rintro ((h | h) | h)
            · exact Or.inl h
            · exact Or.inr (List.mem_append_left _ h)
            · rw [attr_below H hm ha h hdj]
              exact Or.inr (by simp)
          · rintro (h | h)
            · exact Or.inl (Or.inl h)
            · obtain h | h := List.mem_append.mp h
              · exact Or.inl (Or.inr h)
              · rw [List.mem_singleton.mp h]
                exact Or.inr (Below.refl c)
  · refine hw.congr (fun i _ => ?_) (fun j _ _ => ?_)
    · simp [fromAttrs]
    · simp

theorem pullAttr_working (H : Ready ds attrNodeMap tree slice rank) (hf : Settles ds attrNodeMap tree f)
    (hk : tree[k]? = some n) {p : RecordNode} (hp : tree[n.parentId]? = some p)
    (hplaces : SamePlaces tree s.tree) (hdone : SiblingsDone ds attrNodeMap tree f k s)
    (hw : Working ds attrNodeMap tree f k n (fun _ => False) (fun _ => 0) s s₁) :
    ∃ s₂, pullAttr g ds attrNodeMap k n s₁ = .ok s₂ ∧ Working ds attrNodeMap tree f k n (fun _ => False)
      (fromSiblings ds attrNodeMap tree f n.nodeName (childrenAt tree n.parentId)) s s₂ := by
  have hpk : parentOf tree k = some n.parentId := parentOf_eq_some.mpr ⟨n, hk, rfl⟩
  obtain ⟨p', hp', hplace⟩ := (hw.places hk hplaces).find hp
  have hlist : p'.childrenId.toList = childrenAt tree n.parentId := by
    rw [childrenAt_eq hp]
    exact congrArg (fun q => q.childrenId.toList) hplace
  rw [pullAttr, hp']
  dsimp only
  rw [hlist]
  refine foldlM_total (fun done t => Working ds attrNodeMap tree f k n (fun _ => False)
    (fromSiblings ds attrNodeMap tree f n.nodeName done) s t) _ ?_ ?_
  · intro done c rest t hcs ht
    have hmem : c ∈ childrenAt tree n.parentId := by rw [hcs]; simp
    have hc : parentOf tree c = some n.parentId := (H.rooted.mem_childrenAt hp c).mp hmem
    obtain ⟨m, hm, -⟩ := Rooted.child_exists hc
    have hpt : SamePlaces tree t.tree := ht.places hk hplaces
    obtain ⟨m', hm', hmp⟩ := hpt.find hm
    have hattr : m'.isAttrNode ds = attrAt ds tree c := by
      rw [← attrAt_congr hpt c, attrAt_eq hm']
    have hid : m'.id = c := (H.rooted.congr hpt).id c m' hm'
    simp only [hm', hattr, hid]
    cases ha : attrAt ds tree c with
    | true =>
        exact ⟨t, rfl, ht.congr (fun i _ => by simp [fromSiblings, ha]) (fun _ _ _ => Iff.rfl)⟩
    | false =>
        rw [if_neg Bool.false_ne_true]
        cases hmap : attrNodeMap[(c, n.nodeName)]? with
        | none =>
            exact ⟨t, rfl, ht.congr (fun i _ => by simp [fromSiblings, hmap]) (fun _ _ _ => Iff.rfl)⟩
        | some a =>
            have hpa := H.attrs c n.nodeName a hmap
            obtain ⟨q, hq, -⟩ := Rooted.child_exists hpa
            have hak : a ≠ k := by
              rintro rfl
              have := H.rooted.rank_child hpa
              have := H.rooted.rank_child hpk
              have := H.rooted.rank_child hc
              omega
            have hname : nameAt tree k = n.nodeName := by rw [nameAt, hk, Option.map_some, Option.getD_some]
            obtain ⟨r, hr, hrv⟩ := done_temps H hf hq
            have hta : t.tree[a]? = some r := by
              rw [((ht.others a hak).2 (fun h => h.1.elim)).1,
                hdone n.parentId c a hpk hc ha (hname ▸ hmap), hr]
            obtain ⟨u, hu, hwu, -⟩ := ht.addTemp (g := g) H hk hta hrv
            refine ⟨u, hu, hwu.congr (fun i _ => ?_) (fun _ _ _ => Iff.rfl)⟩
            simp [fromSiblings, ha, hmap]
  · exact hw.congr (fun i _ => by simp [fromSiblings]) (fun _ _ _ => Iff.rfl)

theorem settle_working (H : Ready ds attrNodeMap tree slice rank) (hk : tree[k]? = some n)
    (hw : Working ds attrNodeMap tree f k n S F s s₁) (hd : dirtyAt tree k = true)
    (hF : ∀ i, i < ds.numRecords → F i = inflow ds attrNodeMap tree f k i)
    (hT : ∀ j, j ≠ k → dirtyAt tree j = true → (S j ↔ Below (parentOf tree) k j)) :
    ∃ s₂, settle g ds s₁ k = .ok s₂ ∧ ∀ j, After ds attrNodeMap tree f (Below (parentOf tree) k) s s₂ j := by
  have hw' := hw.congr hF hT
  refine ⟨_, settle_partial H.described (H.sized k n hk).1 hw'.node hw'.entry, fun j => ?_⟩
  by_cases hj : j = k
  · subst hj
    refine ⟨fun _ _ => ?_, fun h => absurd ⟨Below.refl j, hd⟩ h⟩
    dsimp only
    rw [getElem?_insert_self, getElem?_insert_self, flushedAt, entryAt, hk]
    exact ⟨rfl, rfl⟩
  · exact (hw'.others j hj).insert hj _ _

theorem clearDirtyNode_clears (H : Ready ds attrNodeMap tree slice rank) (hf : Settles ds attrNodeMap tree f)
    (fuel : Nat) : ClearsBelow g ds attrNodeMap tree slice rank f fuel := by
  induction fuel with
  | zero =>
      intro k n s hk hfuel
      have := H.rooted.bound k n hk
      omega
  | succ fuel ih =>
      intro k n s hk hfuel hp hb hsib
      have hsk : s.tree[k]? = some n := (hb k (Below.refl k)).1.trans hk
      have hk0 : k ≠ 0 := by
        rintro rfl
        rw [H.rooted.zero] at hk
        cases hk
      rw [clearDirtyNode, hsk]
      dsimp only
      rw [dirtyAt_eq hk]
      cases hd : n.dirty with
      | false =>
          refine ⟨s, rfl, fun j => (After.none s j).congr fun hj => ?_⟩
          refine iff_of_false id fun h => ?_
          have := dirty_upward H h hk0 hj
          rw [dirtyAt_eq hk, hd] at this
          cases this
      | true =>
          rw [if_pos rfl]
          have hdk : dirtyAt tree k = true := by rw [dirtyAt_eq hk, hd]
          have hslice : s.slice[k]? = none := (hb k (Below.refl k)).2.trans (H.fresh k hdk)
          have hw : Working ds attrNodeMap tree f k n (fun _ => False) (fun _ => 0) s
              { s with slice := s.slice.insert k (sliceNode g ds s.slice k) } := by
            refine ⟨?_, ?_, fun j hj => ⟨fun h => h.elim, fun _ => ⟨rfl, getElem?_insert_ne _ hj _⟩⟩⟩
            · rw [partialNode_zero (H.sized k n hk).2.1 (H.sized k n hk).2.2]
              exact hsk
            · rw [sliceNode_new hslice]
              exact getElem?_insert_self _ _ _
          cases ha : n.isAttrNode ds with
          | true =>
              have hat : attrAt ds tree k = true := by rw [attrAt_eq hk, ha]
              obtain ⟨p, hpn⟩ := H.rooted.parent k n hk (H.inner k hdk hat).1
              obtain ⟨s₂, hpull, hw₂⟩ := pullAttr_working (g := g) H hf hk hpn hp (hsib hat) hw
              obtain ⟨s₃, hset, hafter⟩ := settle_working (g := g) H hk hw₂ hdk
                (fun i _ => by
                  rw [inflow, hat, if_pos rfl, nameAt, parentOf, hk, Option.map_some, Option.map_some,
                    Option.getD_some, Option.getD_some])
                (fun j hj hdj => iff_of_false id fun h => hj (attr_below H hk hat h hdj))
              refine ⟨s₃, ?_, hafter⟩
              simp only [if_true, hpull, ok_bind, hset, pure_eq_ok]
          | false =>
              have hat : attrAt ds tree k = false := by rw [attrAt_eq hk, ha]
              have hlist : n.childrenId.toList = childrenAt tree k := (childrenAt_eq hk).symm
              obtain ⟨s₂, hchildren, hw₂⟩ := clearChildren_working (g := g) H hf hk hfuel ih hp
                (fun j _ h => hb j h) hw
              obtain ⟨s₃, hattrs, hw₃⟩ := clearAttrs_working H hk hfuel ih hp (fun j _ h => hb j h) hw₂
              obtain ⟨s₄, hset, hafter⟩ := settle_working (g := g) H hk hw₃ hdk
                (fun i _ => by rw [inflow, hat, if_neg Bool.false_ne_true])
                (fun j hj hdj => by
                  constructor
                  · rintro (⟨c, hc, -, h⟩ | h)
                    · exact h.child ((H.rooted.mem_childrenAt hk c).mp hc)
                    · exact (Below.refl j).child ((H.rooted.mem_childrenAt hk j).mp (List.mem_filter.mp h).1)
                  · intro h
                    obtain he | ⟨c, hc, hbc⟩ := below_iff_child.mp h
                    · exact absurd he hj
                    · obtain ⟨m, hm, -⟩ := Rooted.child_exists hc
                      have hmem := (H.rooted.mem_childrenAt hk c).mpr hc
                      cases hca : attrAt ds tree c with
                      | true =>
                          rw [attr_below H hm hca hbc hdj]
                          exact Or.inr (List.mem_filter.mpr ⟨hmem, hca⟩)
                      | false => exact Or.inl ⟨c, hmem, hca, hbc⟩)
              refine ⟨s₄, ?_, hafter⟩
              simp only [Bool.false_eq_true, if_false, hlist, hchildren, ok_bind, hattrs, hset, pure_eq_ok]

end Llprof.Monitor.FlushWalk
