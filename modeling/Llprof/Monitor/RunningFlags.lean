import Llprof.Foundations.PathFlags
import Llprof.Foundations.Stepwise
import Llprof.Monitor.FlushRule
import Llprof.Monitor.NewLeaf
import Llprof.Monitor.RunTotals
import Llprof.Monitor.SlotWrites

namespace Llprof.Monitor.RunningFlags

open Faulting hiding store
open Avoiding ParentTree PathFlags Stepwise TreeMaps Nodes Store SlotWrites TreeShape Slices SliceContents
  FlushRule Runs RunTotals
open Profiler.CallTree (MethodNodeSerializedInfo)

def flagOf (n : RecordNode) : NodeID × Bool := (n.parentId, n.running)

def flagsOf (tree : Tree) : Flags NodeID := fun k => (tree[k]?).map flagOf

/-- The nodes with the running flag are the running node and its ancestors. -/
def MarksRunningPath (ts : ThreadStore) : Prop :=
  ∀ (k : NodeID) (n : RecordNode), ts.currentTree[k]? = some n →
    (n.running = true ↔ Below (parentOf ts.currentTree) k ts.runningNode)

/-- The running node and the flags of a thread store. -/
structure Shows (running : NodeID) (f : Flags NodeID) (ts : ThreadStore) : Prop where
  runningNode : ts.runningNode = running
  flags : flagsOf ts.currentTree = f

variable {gl : Settings} {ds : DataStore} {running : NodeID} {f : Flags NodeID} {ts : ThreadStore}
  {k : NodeID} {n : RecordNode}

theorem link_flagsOf (tree : Tree) : link (flagsOf tree) = parentOf tree := by
  funext k
  rw [link, flagsOf, Option.map_map]
  rfl

theorem flagsOf_insert (tree : Tree) (k : NodeID) (n : RecordNode) :
    flagsOf (tree.insert k n) = Function.update (flagsOf tree) k (some (flagOf n)) := by
  funext j
  rw [flagsOf, getElem?_insert]
  by_cases hj : j = k
  · rw [if_pos hj, hj, Function.update_self]
    rfl
  · rw [if_neg hj, Function.update_of_ne hj]
    rfl

theorem flagsOf_of_some {tree : Tree} (h : tree[k]? = some n) : flagsOf tree k = some (flagOf n) := by
  rw [flagsOf, h]
  rfl

theorem marksRunningPath_iff (h : Shows running f ts) : MarksRunningPath ts ↔ Exact f running := by
  rw [MarksRunningPath, Exact, ← h.flags, h.runningNode, link_flagsOf]
  constructor
  · intro hm k p b hk
    obtain ⟨n, hn, he⟩ := Option.map_eq_some_iff.mp hk
    cases he
    exact hm k n hn
  · intro he k n hn
    exact he k n.parentId n.running (flagsOf_of_some hn)

theorem Shows.at (h : Shows running f ts) (hk : ts.currentTree[k]? = some n) : f k = some (flagOf n) := by
  rw [← h.flags]
  exact flagsOf_of_some hk

theorem Shows.setNode (h : Shows running f ts) (hk : f k = some (flagOf n)) :
    Shows running f (ts.setNode k n) := by
  refine ⟨h.runningNode, ?_⟩
  rw [ThreadStore.setNode, flagsOf_insert, h.flags, ← hk, Function.update_eq_self]

theorem touchGNID_shows (h : Shows running f ts) (fuel : Nat) (id : NodeID) :
    Avoids never (fun r => Shows running f r.1) (touchGNID gl ds fuel ts id) := by
  induction fuel generalizing id with
  | zero => exact fun h => h
  | succ fuel ih =>
      rw [touchGNID]
      split
      next => exact fun h => h
      next node hnode =>
        split
        · exact h
        · exact (ih node.parentId).bind fun r hr => hr.setNode (h.at (n := node) hnode)

theorem touch_shows (h : Shows running f ts) (id : NodeID) :
    Avoids never (Shows running f) (touch gl ds ts id) :=
  (touchGNID_shows h (ts.currentTree.size + 1) id).bind fun _ hr => hr

theorem addChildID_shows (h : Shows running f ts) (parent child : NodeID) :
    Shows running f (ts.addChildID parent child) := by
  rw [ThreadStore.addChildID]
  split
  next => exact h
  next node hnode => exact h.setNode (h.at (n := node) hnode)

theorem defaultTemps_flag (node : RecordNode) :
    Avoids never (fun n => flagOf n = flagOf node) (defaultTemps gl ds node) :=
  defaultTemps_writes id (fun _ _ h => h) rfl

theorem markNodeDirty_shows (hoff : gl.leafNodeAccumulate = false) (h : Shows running f ts)
    (fuel : Nat) (id : NodeID) : Avoids never (Shows running f) (markNodeDirty gl ds fuel ts id) := by
  induction fuel generalizing ts id with
  | zero => exact fun h => h
  | succ fuel ih =>
      rw [markNodeDirty]
      split
      next => exact h
      next node hnode =>
        split
        · exact h
        · apply (defaultTemps_flag _).bind
          intro node' hnode'
          refine (ih (h.setNode (n := node') ?_) node'.parentId).bind fun ts₁ h₁ => ?_
          · rw [h.at hnode, hnode']
            rfl
          · rw [if_neg (by simp [hoff])]
            exact h₁

theorem setRunning_shows (b : Bool) (fuel : Nat) (id : NodeID) (h : Shows running f ts) :
    Avoids never (Shows running (flagPath b id f)) (setRunning b fuel ts id) := by
  induction fuel generalizing ts id f with
  | zero => exact fun h => h
  | succ fuel ih =>
      rw [setRunning]
      split
      next hnone =>
        rw [flagPath_of_none b]
        · exact h
        · rw [← h.flags, flagsOf, show ts.currentTree[id]? = none from hnone]
          rfl
      next node hnode =>
        rw [← flagPath_up b (h.at (n := node) hnode)]
        refine ih node.parentId ⟨h.runningNode, ?_⟩
        rw [ThreadStore.setNode, flagsOf_insert, h.flags]
        rfl

theorem addRecordNode_shows (h : Shows running f ts) {r : MethodNodeSerializedInfo}
    (hnew : ts.currentTree[r.callNodeId]? = none) :
    Avoids never (Shows running (add r.callNodeId r.parentNodeId f))
      (addRecordNode gl ds ts r.callNodeId r) := by
  rw [addRecordNode, NewLeaf.addCurrentNode_new ts hnew]
  have hadd : Shows running (add r.callNodeId r.parentNodeId f)
      { ts with
        currentTree := ts.currentTree.insert r.callNodeId
          (NewLeaf.freshNode gl ds r.callNodeId r.parentNodeId r.nameid) } := by
    refine ⟨h.runningNode, ?_⟩
    have hnone : f r.callNodeId = none := by
      rw [← h.flags, flagsOf, hnew]
      rfl
    rw [flagsOf_insert, h.flags]
    funext j
    by_cases hj : j = r.callNodeId
    · rw [hj, Function.update_self, add, if_pos ⟨rfl, hnone⟩]
      rfl
    · rw [Function.update_of_ne hj, add, if_neg (fun h => hj h.1)]
  refine (touch_shows hadd _).bind fun ts' h' => ?_
  have hchild := addChildID_shows h' r.parentNodeId r.callNodeId
  dsimp only
  split
  · exact ⟨hchild.runningNode, hchild.flags⟩
  · exact hchild

theorem locate_shows (hoff : gl.leafNodeAccumulate = false) (h : Shows running f ts)
    (r : MethodNodeSerializedInfo) :
    Avoids never (fun p => Shows running (add r.callNodeId r.parentNodeId f) p.1) (locate gl ds ts r) := by
  rw [locate]
  simp only [hoff, Bool.false_eq_true, if_false]
  split
  next node hnode =>
    have hknown : add r.callNodeId r.parentNodeId f = f := by
      funext j
      rw [add, if_neg]
      rintro ⟨-, hnone⟩
      rw [h.at (n := node) hnode] at hnone
      cases hnone
    rw [hknown]
    exact h
  next hnone => exact (addRecordNode_shows h hnone).bind fun ts' h' => h'

theorem storeRecord_shows (hoff : gl.leafNodeAccumulate = false) (h : Shows running f ts)
    (r : MethodNodeSerializedInfo) :
    Avoids never (Shows running (add r.callNodeId r.parentNodeId f)) (storeRecord gl ds ts r) := by
  rw [storeRecord]
  apply (locate_shows hoff h r).bind
  rintro ⟨ts₁, cnid⟩ h₁
  refine (avoids_any _).bind fun _ _ => ?_
  refine (avoids_any _).bind fun _ _ => ?_
  refine (markNodeDirty_shows hoff h₁ _ cnid).bind fun ts₂ h₂ => ?_
  split
  next => exact fun h => h
  next node hnode =>
    refine (avoids_any _).bind fun node' hnode' => ?_
    obtain ⟨_, -, hset⟩ := bind_eq_ok.mp hnode'
    cases hset
    exact h₂.setNode (h₂.at (n := node) hnode)

def addAll (batch : List MethodNodeSerializedInfo) (f : Flags NodeID) : Flags NodeID :=
  batch.foldl (fun f r => add r.callNodeId r.parentNodeId f) f

theorem addTempToChildren_flag (tssNode : RecordNodeBasic) (destNode srcNode : RecordNode) :
    Avoids never (fun st => flagOf st.2 = flagOf destNode) (addTempToChildren ds tssNode destNode srcNode) :=
  addTempToChildren_writes id srcNode (fun _ _ _ _ _ _ h => h) rfl

theorem addAllValues_flag (tssNode : RecordNodeBasic) (node : RecordNode) :
    Avoids never (fun st => flagOf st.2 = flagOf node) (addAllValues ds tssNode node) :=
  addAllValues_writes id id (fun _ _ _ _ _ h => h) rfl

theorem flagsOf_keep {tree : Tree} (h : flagsOf tree = f) (hk : tree[k]? = some n) {n' : RecordNode}
    (hn : flagOf n' = flagOf n) : flagsOf (tree.insert k n') = f := by
  rw [flagsOf_insert, h, hn, ← flagsOf_of_some hk, h, Function.update_eq_self]

theorem flags_flush (f : Flags NodeID) : FlushInvariant gl ds never (fun s => flagsOf s.tree = f) where
  enter _ _ _ h _ _ := h
  addTemp _ _ _ _ _ h _ hk _ := (addTempToChildren_flag _ _ _).mono fun _ hst => flagsOf_keep h hk hst
  settle _ _ _ h _ hk := (addAllValues_flag _ _).mono fun _ hst => flagsOf_keep h hk hst

theorem flush_runningNode : Avoids never (fun ts' => ts'.runningNode = ts.runningNode) (flush gl ds ts) := by
  rw [flush]
  by_cases hreach : Reaches ts ds.currentTimeNumber
  · obtain ⟨slices, tss, hget, -⟩ := getTimeSlice_reaches hreach
    rw [hget]
    refine (avoids_any _).bind fun tss _ => ?_
    exact (avoids_any _).bind fun s _ => rfl
  · rw [getTimeSlice_not hreach]
    exact fun h => h

theorem flush_shows (h : Shows running f ts) : Avoids never (Shows running f) (flush gl ds ts) := by
  have hflags : Avoids never (Flushed (fun s => flagsOf s.tree = f) ds.currentTimeNumber ts)
      (flush gl ds ts) :=
    flush_rule ofAccess_never (flags_flush f) h.flags
  exact (and_never hflags flush_runningNode).mono fun ts' ⟨hf, hr⟩ => ⟨hr.trans h.runningNode, hf.state⟩

/-- What a store does to the flags: it moves them to the path of the new running node, and
then adds the nodes of the batch. -/
theorem store_shows (hoff : gl.leafNodeAccumulate = false) (h : Shows running f ts)
    (batch : List MethodNodeSerializedInfo)
    (now : NowInfo) : Avoids never
    (Shows now.runningNode (addAll batch (flagPath true now.runningNode (flagPath false running f))))
      (store gl ds ts batch now) := by
  rw [store, receive, unmarkRunningNodes, h.runningNode]
  refine Avoids.bind ?_ fun ts' h' => flush_shows h'
  refine (setRunning_shows false _ running h).bind fun ts₁ h₁ => ?_
  refine (avoids_any _).bind fun _ _ => ?_
  have hnow : Shows now.runningNode (flagPath false running f) (updateNowValues ds ts₁ now) := ⟨rfl, h₁.flags⟩
  have hmarked : Avoids never (Shows now.runningNode (flagPath true now.runningNode (flagPath false running f)))
      (markRunningNodes gl ds (updateNowValues ds ts₁ now)) := by
    rw [markRunningNodes]
    refine (markNodeDirty_shows hoff hnow _ _).bind fun ts₂ h₂ => ?_
    rw [h₂.runningNode]
    exact setRunning_shows true _ now.runningNode h₂
  refine hmarked.bind fun ts₂ h₂ => ?_
  exact avoids_foldlM (fun done (ts : ThreadStore) => Shows now.runningNode
    (addAll done (flagPath true now.runningNode (flagPath false running f))) ts) batch
    (fun done r _ ts _ h => by
      rw [addAll, List.foldl_append]
      exact storeRecord_shows hoff h r) h₂

/-- The records of a batch hang below nodes that are there, and its running node is there
or has a record. -/
structure RunningBatch (log : List MethodNodeSerializedInfo) (d : Delivery) : Prop where
  nonzero : ∀ r ∈ d.batch, r.callNodeId ≠ 0
  parents : ∀ done r rest, d.batch = done ++ r :: rest → Known (log ++ done) r.parentNodeId
  running : Known (log ++ d.batch) d.now.runningNode

structure Tracked (log : List MethodNodeSerializedInfo) (running : NodeID) (f : Flags NodeID) : Prop where
  closed : Closed 0 f
  path : OnPath f running
  known : ∀ k, f k ≠ none ↔ Known log k

variable {batch log : List MethodNodeSerializedInfo}

theorem addAll_append (xs ys : List MethodNodeSerializedInfo) (f : Flags NodeID) :
    addAll (xs ++ ys) f = addAll ys (addAll xs f) :=
  List.foldl_append

theorem addAll_extends (batch : List MethodNodeSerializedInfo) (f : Flags NodeID) :
    Extends f (addAll batch f) := by
  induction batch generalizing f with
  | nil => exact Extends.refl f
  | cons r batch ih => exact (Extends.add r.callNodeId r.parentNodeId f).trans (ih _)

theorem addAll_ne_none : addAll batch f k ≠ none ↔ f k ≠ none ∨ ∃ r ∈ batch, r.callNodeId = k := by
  induction batch generalizing f with
  | nil => simp [addAll]
  | cons r batch ih =>
      rw [addAll, List.foldl_cons]
      refine (ih (f := add r.callNodeId r.parentNodeId f)).trans ?_
      rw [add_ne_none, List.exists_mem_cons_iff, eq_comm (a := k)]
      tauto

theorem addAll_closed (hc : Closed 0 f) (hknown : ∀ k, f k ≠ none ↔ Known log k)
    (hzero : ∀ r ∈ batch, r.callNodeId ≠ 0)
    (hpar : ∀ done r rest, batch = done ++ r :: rest → Known (log ++ done) r.parentNodeId) :
    Closed 0 (addAll batch f) := by
  induction batch using List.reverseRecOn with
  | nil => exact hc
  | append_singleton batch r ih =>
      have hbatch := ih (fun q hq => hzero q (List.mem_append_left _ hq))
        (fun done q rest he => hpar done q (rest ++ [r]) (by rw [he, List.append_assoc, List.cons_append]))
      rw [addAll_append]
      refine hbatch.add (hzero r (by simp)) (Or.inr (addAll_ne_none.mpr ?_))
      rw [hknown]
      obtain h1 | ⟨q, hq, hqr⟩ := hpar batch r [] rfl
      · exact Or.inl (Or.inl h1)
      · rcases List.mem_append.mp hq with hq | hq
        · exact Or.inl (Or.inr ⟨q, hq, hqr⟩)
        · exact Or.inr ⟨q, hq, hqr⟩

theorem known_append {k : NodeID} : Known (log ++ batch) k ↔ Known log k ∨ ∃ r ∈ batch, r.callNodeId = k := by
  simp only [Known, List.mem_append, or_and_right, exists_or, or_assoc]

theorem Tracked.store (h : Tracked log running f) {d : Delivery} (hb : RunningBatch log d) :
    Tracked (log ++ d.batch) d.now.runningNode
        (addAll d.batch (flagPath true d.now.runningNode (flagPath false running f))) ∧
      (Exact (addAll d.batch (flagPath true d.now.runningNode (flagPath false running f))) d.now.runningNode ↔
        Known log d.now.runningNode) := by
  generalize hg : flagPath true d.now.runningNode (flagPath false running f) = g
  have hgknown (k : NodeID) : g k ≠ none ↔ Known log k := by
    rw [← h.known, ← hg, ne_eq, flagPath_eq_none, flagPath_eq_none]
  have hgclosed : Closed 0 g := by
    rw [← hg]
    exact (h.closed.flagPath false running).flagPath true _
  have hknown (k : NodeID) : addAll d.batch g k ≠ none ↔ Known (log ++ d.batch) k := by
    rw [addAll_ne_none, hgknown, known_append]
  have hclosed := addAll_closed hgclosed hgknown hb.nonzero hb.parents
  have hext : Extends (flagPath true d.now.runningNode (flagPath false running f)) (addAll d.batch g) := by
    rw [hg]
    exact addAll_extends d.batch g
  refine ⟨⟨hclosed, onPath_moved h.path hext, hknown⟩, ?_⟩
  rw [exact_moved_iff h.path hext h.closed hclosed.outside ((hknown _).mpr hb.running), h.known]

theorem newThreadStore_shows (gl : Settings) (ds : DataStore) (threadId : ThreadID) :
    ∃ f, Shows 0 f (newThreadStore gl ds threadId) ∧ Tracked [] 0 f := by
  have hflags (k : NodeID) : flagsOf (newThreadStore gl ds threadId).currentTree k = if k =
      1 then some (0, false) else none := by
    rw [flagsOf, newThreadStore_tree]
    split <;> rfl
  have hrunning : (newThreadStore gl ds threadId).runningNode = 0 := by
    rw [newThreadStore]
    split <;> rfl
  refine ⟨_, ⟨hrunning, rfl⟩, ⟨hflags 0, fun k p b hk => ?_⟩, fun k p hk => ?_, fun k => ?_⟩
  · rw [hflags] at hk
    split at hk
    · cases hk
      exact Or.inl rfl
    · cases hk
  · rw [hflags] at hk
    split at hk <;> cases hk
  · rw [hflags]
    simp [Known]

theorem Tracked.delivery (hoff : gl.leafNodeAccumulate = false) (h : Tracked log running f)
    (hs : Shows running f ts) {d : Delivery} (hb : RunningBatch log d) {ts' : ThreadStore}
    (hrun : d.store gl ds ts = .ok ts') :
    (∃ f', Shows d.now.runningNode f' ts' ∧ Tracked (log ++ d.batch) d.now.runningNode f') ∧
      (MarksRunningPath ts' ↔ Known log d.now.runningNode) := by
  have hs' := avoids_never_iff.mp (store_shows hoff hs d.batch d.now) ts' hrun
  obtain ⟨ht, hexact⟩ := h.store hb
  exact ⟨⟨_, hs', ht⟩, (marksRunningPath_iff hs').trans hexact⟩

/-- After a store the running flags mark the running path exactly if the running node was
known before its batch. -/
theorem running_flags_iff (gl : Settings) (hoff : gl.leafNodeAccumulate = false)
    (ds : DataStore) (threadId : ThreadID) (done : List Delivery) (d : Delivery)
    (hw : ∀ earlier e later, done ++ [d] = earlier ++ e :: later → RunningBatch (logOf earlier) e)
    (ts : ThreadStore) (hrun : storeAll gl ds (newThreadStore gl ds threadId) (done ++ [d]) = .ok ts) :
    MarksRunningPath ts ↔ Known (logOf done) d.now.runningNode := by
  obtain ⟨ts₀, h₀, hd⟩ := foldlM_snoc.mp hrun
  have hinv : ∃ running f, Shows running f ts₀ ∧ Tracked (logOf done) running f := by
    refine invariant_of_run (I := fun done ts => ∃ running f, Shows running f ts ∧
      Tracked (logOf done) running f)
      (Q := fun done _ d => RunningBatch (logOf done) d) ?_
        (fun done t e t' _ ⟨running, f, hs, ht⟩ hb hstep => ?_)
      (fun earlier e later _ hsplit _ => hw earlier e (later ++ [d]) ?_) h₀
    · obtain ⟨f, hs, ht⟩ := newThreadStore_shows gl ds threadId
      exact ⟨0, f, hs, ht⟩
    · obtain ⟨f', hs', ht'⟩ := (ht.delivery hoff hs hb hstep).1
      rw [logOf_append, logOf_singleton]
      exact ⟨_, f', hs', ht'⟩
    · rw [hsplit, List.append_assoc, List.cons_append]
  obtain ⟨running, f, hs, ht⟩ := hinv
  exact (ht.delivery hoff hs (hw done d [] rfl) hd).2

def entered : Delivery := { time := 1, nameTable := ∅, batch := [⟨1, 2, 1, 1, [0]⟩], now := ⟨2, [0]⟩ }

def stayed : Delivery := { time := 2, nameTable := ∅, batch := [⟨2, 3, 2, 1, [0]⟩], now := ⟨2, [0]⟩ }

theorem entered_runningBatch : RunningBatch [] entered :=
  ⟨by decide, forall_split_cons.mpr ⟨Or.inl rfl, forall_split_nil⟩, Or.inr (by decide)⟩

theorem stayed_runningBatch : RunningBatch (logOf [entered]) stayed :=
  ⟨by decide, forall_split_cons.mpr ⟨Or.inr (by decide), forall_split_nil⟩, Or.inr (by decide)⟩

theorem running_flags_stayed : ∃ ts, storeAll defaultMode plainSlot (newThreadStore defaultMode plainSlot 0)
    ([entered] ++ [stayed]) = .ok ts ∧ (MarksRunningPath ts ↔ Known (logOf [entered]) 2) := by
  obtain ⟨ts, hrun, -⟩ := ok_of_any
    (x := storeAll defaultMode plainSlot (newThreadStore defaultMode plainSlot 0) ([entered] ++ [stayed]))
    (p := fun _ => true) (by decide +kernel)
  exact ⟨ts, hrun, running_flags_iff defaultMode rfl plainSlot 0 [entered] stayed
    (forall_split_cons.mpr ⟨entered_runningBatch, forall_split_cons.mpr ⟨stayed_runningBatch, forall_split_nil⟩⟩) ts hrun⟩

theorem entered_not_flagged : RunningBatch [] entered ∧
    ∃ ts, storeAll defaultMode plainSlot (newThreadStore defaultMode plainSlot 0) [entered] = .ok ts ∧
      ¬ MarksRunningPath ts := by
  obtain ⟨ts, hrun, hflag⟩ :=
    ok_of_any (x := storeAll defaultMode plainSlot (newThreadStore defaultMode plainSlot 0) [entered])
      (p := fun ts => ts.runningNode = 2 ∧ (ts.currentTree[(2 : NodeID)]?).any (fun n => n.running = false))
        (by decide +kernel)
  obtain ⟨hrunning, hnode⟩ := of_decide_eq_true hflag
  obtain ⟨n, hn, hfalse⟩ := (Option.any_eq_true _ _).mp hnode
  refine ⟨entered_runningBatch, ts, hrun, fun h => ?_⟩
  have := (h 2 n hn).mpr (hrunning ▸ Below.refl _)
  rw [of_decide_eq_true hfalse] at this
  cases this

end Llprof.Monitor.RunningFlags
