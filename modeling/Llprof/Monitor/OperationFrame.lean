import Llprof.Monitor.DiffAnswers
import Llprof.Monitor.Operations
import Llprof.Monitor.TickFrame

namespace Llprof.Monitor.OperationFrame

open Faulting hiding store
open Avoiding Lockstep Nodes Store SliceContents MergeSlices Answers DiffAnswers Ticks TickFrame Operations

variable {gl : Settings} {ds : DataStore} {ts : ThreadStore} {threads : Threads}
  {id : ThreadID} {bad : Fault → Prop}

def SortedThreads (threads : Threads) : Prop := threads.Pairwise (fun p q => p.1 < q.1)

theorem mem_putThread {p : ThreadID × ThreadStore} (h : p ∈ putThread threads id ts) :
    p = (id, ts) ∨ p ∈ threads := by
  induction threads with
  | nil => exact Or.inl (List.mem_singleton.mp h)
  | cons q rest ih =>
      rw [putThread] at h
      split at h
      next hid =>
        rcases List.mem_cons.mp h with rfl | h
        · exact Or.inl (by rw [hid])
        · exact Or.inr (List.mem_cons_of_mem _ h)
      next =>
        split at h
        next => exact List.mem_cons.mp h
        next =>
          rcases List.mem_cons.mp h with rfl | h
          · exact Or.inr List.mem_cons_self
          · exact (ih h).imp_right (List.mem_cons_of_mem _)

theorem sorted_putThread (h : SortedThreads threads) (id : ThreadID) (ts : ThreadStore) :
    SortedThreads (putThread threads id ts) := by
  induction threads with
  | nil => exact List.pairwise_singleton _ _
  | cons q rest ih =>
      obtain ⟨hq, hrest⟩ := List.pairwise_cons.mp h
      rw [putThread]
      split
      next => exact List.pairwise_cons.mpr ⟨hq, hrest⟩
      next hne =>
        split
        next hlt =>
          refine List.pairwise_cons.mpr ⟨fun p hp => ?_, h⟩
          rcases List.mem_cons.mp hp with rfl | hp
          · exact hlt
          · exact Nat.lt_trans hlt (hq p hp)
        next hge =>
          refine List.pairwise_cons.mpr ⟨fun p hp => ?_, ih hrest⟩
          rcases mem_putThread hp with rfl | hp
          · exact Nat.lt_of_le_of_ne (Nat.not_lt.mp hge) (Ne.symm hne)
          · exact hq p hp

theorem putThread_unique (h : SortedThreads threads) {p : ThreadID × ThreadStore}
    (hp : p ∈ putThread threads id ts) : p = (id, ts) ∨ p ∈ threads ∧ p.1 ≠ id := by
  induction threads with
  | nil => exact Or.inl (List.mem_singleton.mp hp)
  | cons q rest ih =>
      obtain ⟨hq, hrest⟩ := List.pairwise_cons.mp h
      rw [putThread] at hp
      split at hp
      next hid =>
        rcases List.mem_cons.mp hp with rfl | hp
        · exact Or.inl (by rw [hid])
        · refine Or.inr ⟨List.mem_cons_of_mem _ hp, ?_⟩
          rw [hid]
          exact (hq p hp).ne'
      next hne =>
        split at hp
        next hlt =>
          rcases List.mem_cons.mp hp with rfl | hp
          · exact Or.inl rfl
          · refine Or.inr ⟨hp, ?_⟩
            rcases List.mem_cons.mp hp with rfl | hp
            · exact hlt.ne'
            · exact (Nat.lt_trans hlt (hq p hp)).ne'
        next =>
          rcases List.mem_cons.mp hp with rfl | hp
          · exact Or.inr ⟨List.mem_cons_self, Ne.symm hne⟩
          · exact (ih hrest hp).imp_right fun hmem => ⟨List.mem_cons_of_mem _ hmem.1, hmem.2⟩

theorem mem_of_lookup (h : threads.lookup id = some ts) : (id, ts) ∈ threads := by
  obtain ⟨l₁, l₂, rfl, -⟩ := List.lookup_eq_some_iff.mp h
  simp

theorem lookup_of_mem (h : SortedThreads threads) (hp : (id, ts) ∈ threads) :
    threads.lookup id = some ts := by
  induction threads with
  | nil => cases hp
  | cons q rest ih =>
      obtain ⟨hq, hrest⟩ := List.pairwise_cons.mp h
      obtain ⟨k, t⟩ := q
      rcases List.mem_cons.mp hp with heq | hp
      · cases heq
        exact List.lookup_cons_self
      · have hne : (id == k) = false := beq_eq_false_iff_ne.mpr (hq _ hp).ne'
        rw [List.lookup_cons, hne]
        exact ih hrest hp

theorem exists_putThread (threads : Threads) (id : ThreadID) (ts : ThreadStore) :
    (id, ts) ∈ putThread threads id ts := by
  induction threads with
  | nil => exact List.mem_singleton.mpr rfl
  | cons q rest ih =>
      rw [putThread]
      split
      next hid =>
        rw [hid]
        exact List.mem_cons_self
      next =>
        split
        · exact List.mem_cons_self
        · exact List.mem_cons_of_mem _ ih

theorem kept_putThread (threads : Threads) (id : ThreadID) (ts : ThreadStore)
    {p : ThreadID × ThreadStore} (hp : p ∈ threads) : ∃ q ∈ putThread threads id ts, q.1 = p.1 := by
  induction threads with
  | nil => exact absurd hp List.not_mem_nil
  | cons r rest ih =>
      rw [putThread]
      split
      next hid =>
        rcases List.mem_cons.mp hp with rfl | hp
        · exact ⟨_, List.mem_cons_self, rfl⟩
        · exact ⟨p, List.mem_cons_of_mem _ hp, rfl⟩
      next =>
        split
        next => exact ⟨p, List.mem_cons_of_mem _ hp, rfl⟩
        next =>
          rcases List.mem_cons.mp hp with rfl | hp
          · exact ⟨_, List.mem_cons_self, rfl⟩
          · obtain ⟨q, hq, he⟩ := ih hp
            exact ⟨q, List.mem_cons_of_mem _ hq, he⟩

/-- The rule for the buffers of a drain: what holds of a new thread and is kept by every
`Store` holds of all threads. -/
theorem storeCalls_each {P : ThreadStore → Prop} (hnew : ∀ id, P (newThreadStore gl ds id))
    {calls : List StoreCall}
    (hstore : ∀ ts, ∀ call ∈ calls, P ts → Avoids bad P (store gl ds ts call.batch call.now))
    (h : ∀ p ∈ threads, P p.2) :
    Avoids bad (fun threads' => ∀ p ∈ threads', P p.2) (calls.foldlM (storeCall gl ds) threads) := by
  refine avoids_foldlM (fun _ (threads' : Threads) => ∀ p ∈ threads', P p.2) calls
    (fun done call rest threads' he h' => ?_) h
  have hof : P (threadOf gl ds threads' call.thread) := by
    rw [threadOf]
    cases hlook : threads'.lookup call.thread with
    | none => exact hnew _
    | some ts => exact h' _ (mem_of_lookup hlook)
  rw [storeCall]
  apply (hstore _ call (by rw [he]; simp) hof).bind
  intro ts hts p hp
  rcases mem_putThread hp with rfl | hp
  · exact hts
  · exact h' p hp

theorem threadAnswer_like (flag : DumpFlag) (p1 p2 : Int) :
    Avoids never (fun r => Like ts r.1) (threadAnswer gl ds flag p1 p2 ts) := by
  cases flag with
  | currentTree => exact Like.refl ts
  | diffTree =>
      obtain ⟨ts', hasked, hrun⟩ := diffAnswer_spec gl ds ts p1 p2
      rw [threadAnswer, hrun]
      exact (avoids_any _).bind fun m _ => hasked.like

theorem checkThread_spec (gl : Settings) (ds : DataStore) (ts : ThreadStore) :
    ∃ ts', Like ts ts' ∧ ∃ out : Std.TreeMap NodeID RecordNodeBasic → LittleEndian.Bytes,
      checkThread gl ds ts = (merged gl ds ts 0 (ds.currentTimeNumber + 1).toNat >>= fun m =>
        ts.currentTree.toList.foldlM (printDifference ds m) (out m) >>= fun text =>
          .ok (ts', text ++ LittleEndian.ascii "Check Done.\n")) := by
  obtain ⟨ts', last, hrun, hlike, -⟩ := mergeTimes_spec gl ds ts 0 (ds.currentTimeNumber + 1).toNat
  refine ⟨ts', hlike, fun m => LittleEndian.ascii
    s!"[Slice error check]\n  Integrated size: {m.size}\n  Current Tree: {ts.currentTree.size}\n", ?_⟩
  rw [checkThread, mergeTimeSlice, Int.sub_zero, hrun, bind_assoc]
  simp only [ok_bind, hlike.currentTree]
  rfl

theorem checkThread_like : Avoids never (fun r => Like ts r.1) (checkThread gl ds ts) := by
  obtain ⟨ts', hlike, out, hrun⟩ := checkThread_spec gl ds ts
  rw [hrun]
  exact (avoids_any _).bind fun m _ => (avoids_any _).bind fun text _ => hlike

/-- All thread stores, each with the data store that it belongs to. -/
def allThreads (s : Stores) : List (DataStore × ThreadStore) :=
  (s.global.thread.map fun g => (s.global.ds, g.ts)).toList ++ s.targets.flatMap fun t =>
    t.threads.map fun p => (t.ds, p.2)

theorem mem_allThreads {s : Stores} {u : DataStore × ThreadStore} : u ∈ allThreads s ↔
    (∃ g, s.global.thread = some g ∧ (s.global.ds, g.ts) = u) ∨
    ∃ t ∈ s.targets, ∃ p ∈ t.threads, (t.ds, p.2) = u := by
  rw [allThreads, List.mem_append, Option.mem_toList, Option.map_eq_some_iff, List.mem_flatMap]
  simp only [List.mem_map]

def askedThreads (s : Stores) : Nat → List (DataStore × ThreadStore)
  | 0 => (s.global.thread.map fun g => (s.global.ds, g.ts)).toList
  | i + 1 => (s.targets[i]?).toList.flatMap fun t => t.threads.map fun p => (t.ds, p.2)

theorem mem_of_asked {s : Stores} {id : Nat} {u : DataStore × ThreadStore} (h : u ∈ askedThreads s id) :
    u ∈ allThreads s := by
  cases id with
  | zero => exact List.mem_append_left _ h
  | succ i =>
      obtain ⟨t, ht, hu⟩ := List.mem_flatMap.mp h
      exact List.mem_append_right _ (List.mem_flatMap.mpr ⟨t, List.mem_of_getElem? (Option.mem_toList.mp ht), hu⟩)

structure TargetAsked (t t' : TargetStore) : Prop where
  ds : t'.ds = t.ds
  firstReceived : t'.firstReceived = t.firstReceived
  threads : ThreadsLike Like t.threads t'.threads

structure StoresAsked (s s' : Stores) : Prop where
  unset : s'.unset = s.unset
  targets : List.Forall₂ TargetAsked s.targets s'.targets
  ds : s'.global.ds = s.global.ds
  thread : (s.global.thread = none ∧ s'.global.thread = none) ∨
    ∃ g ts', s.global.thread = some g ∧ s'.global.thread = some { g with ts := ts' } ∧ Like g.ts ts'

theorem TargetAsked.refl (t : TargetStore) : TargetAsked t t :=
  ⟨rfl, rfl, List.forall₂_same.mpr fun _ _ => ⟨rfl, Like.refl _⟩⟩

theorem targetsAsked_refl (targets : List TargetStore) : List.Forall₂ TargetAsked targets targets :=
  List.forall₂_same.mpr fun t _ => TargetAsked.refl t

theorem StoresAsked.refl (s : Stores) : StoresAsked s s := by
  refine ⟨rfl, targetsAsked_refl _, rfl, ?_⟩
  cases hg : s.global.thread with
  | none => exact Or.inl ⟨rfl, rfl⟩
  | some g => exact Or.inr ⟨g, g.ts, rfl, rfl, Like.refl _⟩

theorem onThreads_asked {s : Stores} {f : DataStore → ThreadStore → Run ThreadStore} {id : Nat}
    (hf : ∀ u ∈ askedThreads s id, Avoids bad (Like u.2) (f u.1 u.2)) : Avoids bad (StoresAsked s)
    (onThreads s id f) := by
  cases id with
  | zero =>
      rw [onThreads]
      split
      next => exact StoresAsked.refl s
      next g hg =>
        apply (hf (s.global.ds, g.ts) (by rw [askedThreads, hg]; exact List.mem_singleton_self _)).bind
        intro ts hl
        exact ⟨rfl, targetsAsked_refl _, rfl, Or.inr ⟨g, ts, hg, rfl, hl⟩⟩
  | succ i =>
      rw [onThreads]
      split
      next => exact StoresAsked.refl s
      next t ht =>
        have hsweep : Avoids bad (fun r => True ∧ ThreadsLike Like t.threads r.2)
            (sweep (fun (u : Unit) (p : ThreadID × ThreadStore) => f t.ds p.2 >>= fun ts =>
                pure (u, (p.1, ts))) t.threads ()) := by
          refine avoids_sweep_each (P := fun _ => True) (S := fun p => p ∈ t.threads) (fun _ p _ hp => ?_)
            (fun _ hp => hp) trivial
          have hasked : (t.ds, p.2) ∈ askedThreads s (i + 1) :=
            List.mem_flatMap.mpr ⟨t, Option.mem_toList.mpr ht, List.mem_map_of_mem hp⟩
          apply (hf (t.ds, p.2) hasked).bind
          intro ts hl
          exact ⟨trivial, rfl, hl⟩
        apply hsweep.bind
        rintro ⟨u, threads⟩ ⟨-, hthreads⟩
        refine ⟨rfl, ?_, rfl, (StoresAsked.refl s).thread⟩
        exact forall₂_set_right (targetsAsked_refl s.targets) ht ⟨rfl, rfl, hthreads⟩

end Llprof.Monitor.OperationFrame
