import Llprof.Foundations.Avoiding
import Llprof.Monitor.SliceContents

namespace Llprof.Monitor.FlushRule

open Faulting hiding store
open Avoiding TreeMaps Nodes Store TreeShape FlushSpec Slices SliceFrame SliceContents

variable {gl : Settings} {ds : DataStore} {bad : Fault → Prop} {ts : ThreadStore}

/-- Of the faults, at most those of making a vector and of an access to a vector or an
iterator count. -/
def OfAccess (bad : Fault → Prop) : Prop := ∀ e, bad e → e = .outOfRange ∨ e = .endDeref ∨ e = .lengthError

theorem ofAccess_never : OfAccess never := fun _ h => h.elim

theorem OfAccess.spared (h : OfAccess bad) {e : Fault}
    (he : e ≠ .outOfRange ∧ e ≠ .endDeref ∧ e ≠ .lengthError) : ¬ bad e :=
  fun hb => (h e hb).elim he.1 fun h => h.elim he.2.1 he.2.2

/-- The faults of `TouchGNID` are not among `bad`. -/
def Spares (bad : Fault → Prop) : Prop := ¬ bad .outOfFuel ∧ ¬ bad .missingParent

theorem OfAccess.spares (h : OfAccess bad) : Spares bad := ⟨h.spared (by decide), h.spared (by decide)⟩

def Entered (I : Flush → Prop) (slice : Slice) (id : NodeID) : Prop :=
  id = 1 ∨ ∃ (s₀ : Flush) (p : NodeID) (pn : RecordNode), I s₀ ∧ s₀.tree[p]? = some pn ∧
    id ∈ pn.childrenId ∧ p ∈ slice

structure FlushInvariant (gl : Settings) (ds : DataStore) (bad : Fault → Prop) (I : Flush → Prop) : Prop where
  enter : ∀ (s : Flush) (id : NodeID) (n : RecordNode), I s → s.tree[id]? = some n → Entered I s.slice id →
    I ⟨s.tree, s.slice.insert id (sliceNode gl ds s.slice id)⟩
  addTemp : ∀ (s : Flush) (id : NodeID) (n : RecordNode) (src : NodeID) (m : RecordNode), I s → id ∈ s.slice →
    s.tree[id]? = some n → s.tree[src]? = some m → Avoids bad
      (fun st => I ⟨s.tree.insert id st.2, s.slice.insert id st.1⟩)
        (addTempToChildren ds (sliceNode gl ds s.slice id) n m)
  settle : ∀ (s : Flush) (id : NodeID) (n : RecordNode), I s → id ∈ s.slice → s.tree[id]? = some n →
    Avoids bad (fun st => I ⟨s.tree.insert id { st.2 with callCount := st.2.tempCallCount + st.2.callCount, dirty := false },
      s.slice.insert id { st.1 with callCount := st.2.tempCallCount }⟩)
        (addAllValues ds (sliceNode gl ds s.slice id) n)

variable {J : Flush → Prop} {attrNodeMap : AttrNodeMap} {s : Flush}

def Onward (J : Flush → Prop) (slice : Slice) (s : Flush) : Prop := J s ∧ ∀ k ∈ slice, k ∈ s.slice

theorem Onward.insert {slice : Slice} {k : NodeID} {t : Tree} {e : RecordNodeBasic} (h : Onward J slice s)
    (hj : J ⟨t, s.slice.insert k e⟩) : Onward J slice ⟨t, s.slice.insert k e⟩ :=
  ⟨hj, fun j hs => Std.TreeMap.mem_insert.mpr (Or.inr (h.2 j hs))⟩

theorem addTemp_rule (hbad : OfAccess bad) (h : FlushInvariant gl ds bad J) {slice : Slice}
    (hs : Onward J slice s) {id : NodeID} (hid : id ∈ slice) (src : NodeID) : Avoids bad (Onward J slice)
    (s.addTemp gl ds id src) := by
  rw [Flush.addTemp]
  split
  next node srcNode hnode hsrc =>
    apply (h.addTemp s id node src srcNode hs.1 (hs.2 id hid) hnode hsrc).bind
    intro st hst
    exact hs.insert hst
  next => exact hbad.spared (by decide)

theorem settle_rule (hbad : OfAccess bad) (h : FlushInvariant gl ds bad J) {slice : Slice}
    (hs : Onward J slice s) {id : NodeID} (hid : id ∈ slice) : Avoids bad (Onward J slice)
    (settle gl ds s id) := by
  rw [Store.settle]
  split
  next => exact hbad.spared (by decide)
  next node hnode =>
    apply (h.settle s id node hs.1 (hs.2 id hid) hnode).bind
    intro st hst
    exact hs.insert hst

theorem pullAttr_rule (hbad : OfAccess bad) (h : FlushInvariant gl ds bad J) {slice : Slice}
    (hs : Onward J slice s) {id : NodeID} (hid : id ∈ slice) (node : RecordNode) : Avoids bad (Onward J slice)
    (pullAttr gl ds attrNodeMap id node s) := by
  rw [pullAttr]
  split
  next => exact hbad.spared (by decide)
  next =>
    refine avoids_foldlM (fun _ => Onward J slice) _ (fun _ c _ s' _ hs' => ?_) hs
    split
    next => exact hbad.spared (by decide)
    next =>
      split
      · exact hs'
      · split
        · exact hs'
        · exact addTemp_rule hbad h hs' hid _

def Clears (gl : Settings) (ds : DataStore) (bad : Fault → Prop) (J : Flush → Prop)
    (attrNodeMap : AttrNodeMap) (fuel : Nat) : Prop :=
  ∀ s id, J s → Entered J s.slice id →
    Avoids bad (fun r => Onward J s.slice r.1) (clearDirtyNode gl ds attrNodeMap fuel s id)

theorem Clears.child {fuel : Nat} (hclear : Clears gl ds bad J attrNodeMap fuel)
    {slice : Slice} (hs : Onward J slice s) {p c : NodeID} {s₀ : Flush} {pn : RecordNode} (h₀ : J s₀)
    (hp : s₀.tree[p]? = some pn) (hc : c ∈ pn.childrenId)
    (hmem : p ∈ slice) : Avoids bad (fun r => Onward J slice r.1)
    (clearDirtyNode gl ds attrNodeMap fuel s c) :=
  (hclear s c hs.1 (Or.inr ⟨s₀, p, pn, h₀, hp, hc, hs.2 p hmem⟩)).mono fun _ hr =>
    ⟨hr.1, fun k hk => hr.2 k (hs.2 k hk)⟩

theorem clearChildren_rule (hbad : OfAccess bad) (h : FlushInvariant gl ds bad J) {fuel : Nat}
    (hclear : Clears gl ds bad J attrNodeMap fuel) {slice : Slice} (hs : Onward J slice s)
    {id : NodeID} {s₀ : Flush} {node : RecordNode} (h₀ : J s₀) (hnode : s₀.tree[id]? = some node)
    (hid : id ∈ slice) {children : List NodeID} (hc : ∀ c ∈ children, c ∈ node.childrenId) :
    Avoids bad (fun st => Onward J slice st.1 ∧ ∀ c ∈ st.2, c ∈ node.childrenId)
      (clearChildren gl ds (clearDirtyNode gl ds attrNodeMap fuel) id children s) := by
  refine avoids_foldlM (fun _ (st : Flush × List NodeID) => Onward J slice st.1 ∧
    ∀ c ∈ st.2, c ∈ node.childrenId) _ ?_ ⟨hs, fun c h => absurd h List.not_mem_nil⟩
  rintro done c rest ⟨s', attrs⟩ he ⟨hs', ha⟩
  have hck := hc c (by rw [he]; simp)
  rw [clearChild]
  split
  next => exact hbad.spared (by decide)
  next child _ =>
    split
    · refine ⟨hs', fun d hd => ?_⟩
      rcases List.mem_append.mp hd with hd | hd
      · exact ha d hd
      · rw [List.mem_singleton.mp hd]
        exact hck
    · apply (hclear.child hs' h₀ hnode hck hid).bind
      rintro ⟨s₂, cleared⟩ hs₂
      cases cleared with
      | true => exact (addTemp_rule hbad h hs₂ hid c).bind fun s₃ hs₃ => avoids_ok.mpr ⟨hs₃, ha⟩
      | false => exact ⟨hs₂, ha⟩

theorem clearAttrs_rule (hbad : OfAccess bad) (h : FlushInvariant gl ds bad J) {fuel : Nat}
    (hclear : Clears gl ds bad J attrNodeMap fuel) {slice : Slice} (hs : Onward J slice s)
    {id : NodeID} {s₀ : Flush} {node : RecordNode} (h₀ : J s₀) (hnode : s₀.tree[id]? = some node)
    (hid : id ∈ slice) {attrNodes : List NodeID} (hc : ∀ c ∈ attrNodes, c ∈ node.childrenId) :
    Avoids bad (Onward J slice) (clearAttrs gl ds (clearDirtyNode gl ds attrNodeMap fuel) id attrNodes s) := by
  refine avoids_foldlM (fun _ => Onward J slice) _ (fun done c rest s' he hs' => ?_) hs
  split
  next => exact hbad.spared (by decide)
  next child _ =>
    split
    · apply (addTemp_rule hbad h hs' hid c).bind
      intro s₂ hs₂
      exact (hclear.child hs₂ h₀ hnode (hc c (by rw [he]; simp)) hid).bind fun r hr => hr
    · exact hs'

theorem clearDirtyNode_rule (hbad : OfAccess bad) (h : FlushInvariant gl ds bad J) (fuel : Nat) :
    Clears gl ds bad J attrNodeMap fuel := by
  induction fuel with
  | zero => exact fun s id _ _ => hbad.spared (by decide)
  | succ fuel ih =>
      intro s id hj hent
      rw [clearDirtyNode]
      split
      next => exact ⟨hj, fun _ hk => hk⟩
      next node hnode =>
        split
        next =>
          have hstart := h.enter s id node hj hnode hent
          generalize hslice : s.slice.insert id (sliceNode gl ds s.slice id) = slice at hstart
          have hid : id ∈ slice := by
            rw [← hslice]
            exact mem_insert_self _ _ _
          have hold (k : NodeID) (hk : k ∈ s.slice) : k ∈ slice := by
            rw [← hslice]
            exact Std.TreeMap.mem_insert.mpr (Or.inr hk)
          have hon : Onward J slice ⟨s.tree, slice⟩ := ⟨hstart, fun _ hk => hk⟩
          have hend (s₂ : Flush) (hs₂ : Onward J slice s₂) :
            Avoids bad (fun r : Flush × Bool => Onward J s.slice r.1)
              (Store.settle gl ds s₂ id >>= fun s₃ => pure (s₃, true)) := by
            apply (settle_rule hbad h hs₂ hid).bind
            intro s₃ hs₃
            exact ⟨hs₃.1, fun k hk => hs₃.2 k (hold k hk)⟩
          dsimp only
          split
          · exact (pullAttr_rule hbad h hon hid node).bind hend
          · apply (clearChildren_rule hbad h ih hon hj hnode hid (fun c hc => mem_toList_set.mp hc)).bind
            rintro ⟨s₂, attrNodes⟩ ⟨hs₂, ha⟩
            exact (clearAttrs_rule hbad h ih hs₂ hj hnode hid ha).bind hend
        next => exact ⟨hj, fun _ hk => hk⟩

/-- What a flush leaves: a state of the walk as the tree and the current slice, and
all else as before. -/
structure Flushed (J : Flush → Prop) (t : Int) (ts ts' : ThreadStore) : Prop where
  state : J ⟨ts'.currentTree, (contentAt ts' t).tree⟩
  slices : ∀ u, u ≠ t → contentAt ts' u = contentAt ts u
  attrNodeMap : ts'.attrNodeMap = ts.attrNodeMap
  attrNodeIdAlt : ts'.attrNodeIdAlt = ts.attrNodeIdAlt
  index : ts'.currentAttrNodeIdIndex = ts.currentAttrNodeIdIndex

theorem flush_rule (hbad : OfAccess bad) (h : FlushInvariant gl ds bad J)
    (hj : J ⟨ts.currentTree, (contentAt ts ds.currentTimeNumber).tree⟩) :
    Avoids bad (Flushed J ds.currentTimeNumber ts) (flush gl ds ts) := by
  by_cases hreach : Reaches ts ds.currentTimeNumber
  · obtain ⟨slices, tss, hget, htss, hcontent, hall, -, -⟩ := getTimeSlice_reaches hreach
    have htree : tss.tree = (contentAt ts ds.currentTimeNumber).tree := by
      rw [← hcontent]
      rfl
    rw [flush, hget]
    dsimp only [withSlices]
    rw [fetch_eq_ok.mpr htss, ok_bind, htree]
    apply (clearDirtyNode_rule hbad h _ ⟨ts.currentTree, _⟩ 1 hj (Or.inl rfl)).bind
    rintro ⟨s, b⟩ hs
    have hread (u : Int) := readAt_set hreach.startFor (List.getElem?_eq_some_iff.mp htss).1
      { tss with tree := s.slice, nowValues := ts.nowValues, runningNode := ts.runningNode } u
    refine ⟨?_, fun u hu => ?_, rfl, rfl, rfl⟩
    · change J ⟨s.tree, (readAt _ (slices.set _ _) ds.currentTimeNumber).tree⟩
      rw [hread, if_pos rfl]
      exact hs.1
    · change readAt _ (slices.set _ _) u = _
      rw [hread, if_neg hu, ← contentAt_slices _ slices ts, hall u]
  · rw [flush, getTimeSlice_not hreach]
    exact hbad.spared (by decide)

end Llprof.Monitor.FlushRule
