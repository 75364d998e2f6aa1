import Llprof.Monitor.Runs
import Llprof.Monitor.StoreRule

namespace Llprof.Monitor.ThreadIds

open Faulting hiding store
open Avoiding TreeMaps Nodes Store TreeShape FlushSpec Runs FlushRule SlicesKnown StoreRule
open Profiler.CallTree (MethodNodeSerializedInfo)

variable {gl : Settings} {ds : DataStore} {ts ts' : ThreadStore} {i : ThreadID}

structure StoreOf (i : ThreadID) (ts : ThreadStore) : Prop where
  id : ts.threadId = i
  alts : ∀ k a : NodeID, ts.attrNodeIdAlt[k]? = some a → a ∈ ts.currentTree
  attrs : ∀ (q : NodeID × NameID) (a : NodeID), ts.attrNodeMap[q]? = some a → a ∈ ts.currentTree

theorem StoreOf.setNode (h : StoreOf i ts) (k : NodeID) (n : RecordNode) : StoreOf i (ts.setNode k n) :=
  ⟨h.id, fun j a hj => Std.TreeMap.mem_insert.mpr (Or.inr (h.alts j a hj)),
    fun q a hq => Std.TreeMap.mem_insert.mpr (Or.inr (h.attrs q a hq))⟩

theorem StoreOf.note (h : StoreOf i ts) (q : NodeID × NameID) {a : NodeID} (ha : a ∈ ts.currentTree) :
    StoreOf i { ts with attrNodeMap := ts.attrNodeMap.insert q a } := by
  refine ⟨h.id, h.alts, fun q' a' hq => ?_⟩
  rw [getElem?_insert_pair] at hq
  split at hq
  · cases hq
    exact ha
  · exact h.attrs q' a' hq

theorem storeOf_invariant (i : ThreadID) : StoreInvariant gl ds never (fun _ => True) (StoreOf i) where
  marked ts k n h _ := avoids_never_iff.mpr fun n' _ => h.setNode k n'
  running ts k n b h _ := h.setNode k { n with running := b }
  numbered ts k n m g h _ _ _ _ := h.setNode k { n with gnid := g }
  attr ts k n x _ h _ := by
    have hadd : StoreOf i (ts.addCurrentNode gl ds ts.currentAttrNodeIdIndex n.id x true) := h.setNode _ _
    have hnoted := hadd.note (n.id, x) (a := ts.currentAttrNodeIdIndex) (mem_insert_self _ _ _)
    exact ⟨hnoted.id, hnoted.alts, hnoted.attrs⟩
  child ts p c h := by
    unfold ThreadStore.addChildID
    split
    next => exact h
    next => exact h.setNode p _
  record ts r h _ _ := h.setNode _ _
  noted ts q c h hc := h.note q hc
  aliased ts k a h ha := by
    refine ⟨h.id, fun j b hj => ?_, h.attrs⟩
    rw [getElem?_insert] at hj
    split at hj
    · cases hj
      exact ha
    · exact h.alts j b hj
  alts ts h := h.alts
  attrs ts h := h.attrs
  temps ts k n r h _ _ := avoids_never_iff.mpr fun n' _ => h.setNode k n'
  now ts now h := ⟨h.id, h.alts, h.attrs⟩
  values r _ hb := hb.elim

theorem knows_flush (tree : Tree) : FlushInvariant gl ds never (fun s => Knows tree s.tree) where
  enter _ _ _ h _ _ := h
  addTemp _ id _ _ _ h _ _ _ := avoids_never_iff.mpr fun st _ => h.insert id st.2
  settle _ id _ h _ _ := avoids_never_iff.mpr fun _ _ => h.insert id _

theorem flush_threadId (h : flush gl ds ts = .ok ts') : ts'.threadId = ts.threadId := by
  rw [flush, ThreadStore.getTimeSlice] at h
  split at h
  next => cases h
  next ts₁ j hget =>
    have hid : ts₁.threadId = ts.threadId := by
      split at hget <;> cases hget
      rfl
    simp only [bind_eq_ok, pure_eq_ok, Except.ok.injEq] at h
    obtain ⟨_, -, _, -, rfl⟩ := h
    exact hid

theorem StoreOf.store (h : StoreOf i ts) (batch : List MethodNodeSerializedInfo) (now : NowInfo) :
    Avoids never (StoreOf i) (store gl ds ts batch now) := by
  rw [Store.store]
  apply (receive_rule ofAccess_never (storeOf_invariant i) h (fun _ _ => trivial) now).bind
  intro ts₁ h₁
  have hflush : Avoids never (Flushed (fun s => Knows ts₁.currentTree s.tree) ds.currentTimeNumber ts₁)
      (flush gl ds ts₁) :=
    flush_rule ofAccess_never (knows_flush ts₁.currentTree) (Knows.refl _)
  apply (and_never hflush (avoids_any _)).mono
  rintro ts₂ ⟨hdone, hrun⟩
  refine ⟨(flush_threadId hrun).trans h₁.id, fun k a hk => ?_, fun q a hq => ?_⟩
  · rw [hdone.attrNodeIdAlt] at hk
    exact hdone.state a (h₁.alts k a hk)
  · rw [hdone.attrNodeMap] at hq
    exact hdone.state a (h₁.attrs q a hq)

theorem newThreadStore_storeOf (gl : Settings) (ds : DataStore) (i : ThreadID) :
    StoreOf i (newThreadStore gl ds i) := by
  have hempty : StoreOf i
      { currentTree := ∅, startTimeNumber := 0, timeSlice := [], nowValues := [], runningNode := 0, threadId := i
        attrNodeIdAlt := ∅, attrNodeMap := ∅, currentAttrNodeIdIndex := 0xFF000000 } := by
    refine ⟨rfl, fun k a hk => ?_, fun q a hq => ?_⟩
    · rw [Std.TreeMap.getElem?_emptyc] at hk
      cases hk
    · rw [Std.TreeMap.getElem?_emptyc] at hq
      cases hq
  have hroot : StoreOf i (ThreadStore.addCurrentNode gl ds _ 1 0 0 false) := hempty.setNode _ _
  rw [newThreadStore]
  split
  next => exact hroot
  next => exact hroot.setNode 1 _

theorem storeAll_threadId {deliveries : List Delivery}
    (h : storeAll gl ds (newThreadStore gl ds i) deliveries = .ok ts) : ts.threadId = i := by
  have hall : Avoids never (StoreOf i) (storeAll gl ds (newThreadStore gl ds i) deliveries) :=
    avoids_foldlM (fun _ => StoreOf i) deliveries (fun _ d _ _ _ hs => hs.store d.batch d.now)
      (newThreadStore_storeOf gl ds i)
  exact (avoids_never_iff.mp hall ts h).id

end Llprof.Monitor.ThreadIds
