import Llprof.Profiler.Threads

namespace Llprof.Profiler.DrainedBuffers

open Faulting Records CallTree TreeInvariant Drains Cuts Threads

/-- Every drain reports a running node that is the root or has a record in the
buffers up to that drain. -/
def RunningKnown (ds : List Drained) : Prop :=
  ∀ (j : Nat) (d : Drained), ds[j]? = some d →
    Recorded (recordsOf (ds.take (j + 1))) d.nowInfo.node

structure Sound (g : RecordTable) (st : Session) : Prop where
  logged : Logged st
  covered : st.Covered
  kept : Kept g st
  running : RunningKnown st.drained

variable {g : RecordTable} {st st' : Session} {ti' : ThreadInfo}

theorem Sound.handler (h : Sound g st) {hd : Handler} (hrun : hd.run g st.thread = .ok ti') :
    Sound g { st with thread := ti' } ∧ ti'.generationNumber = st.thread.generationNumber := by
  obtain ⟨hkept, hgen⟩ := h.kept.handler hrun
  refine ⟨?_, hgen⟩
  cases hd with
  | call x reading =>
      obtain ⟨hl, hc⟩ := h.logged.call h.covered hrun
      exact ⟨hl, hc, hkept, h.running⟩
  | ret reading =>
      by_cases hcur : st.thread.currentCallNodeID = 1
      · rw [Handler.run, returnHandler, if_pos hcur, Except.ok.injEq] at hrun
        subst hrun
        exact h
      · obtain ⟨hl, hc⟩ := h.logged.ret hcur (fun n hn => h.logged.parent_recorded h.covered hcur hn) hrun
        exact ⟨hl, hc, hkept, h.running⟩

theorem Sound.drain (h : Sound g st) (hgen : st.thread.generationNumber + 1 < 2 ^ 32)
    {reading : Reading} {d : Drained} (hrun : CallTree.drain g reading st.thread = .ok (ti', d)) :
    Sound g ⟨ti', st.drained ++ [d]⟩ ∧ ti'.generationNumber = st.thread.generationNumber + 1 := by
  obtain ⟨hl, hlog, -⟩ := h.logged.drain hgen hrun
  obtain ⟨-, -, -, hc, hg, hd⟩ := drain_keeps h.logged.tree h.logged.record hgen hrun
  obtain ⟨-, -, hnode⟩ := drain_now h.kept.now hrun
  have hcov : (⟨ti', st.drained ++ [d]⟩ : Session).Covered := by
    rw [Session.Covered, hlog]
    dsimp only
    rw [hc]
    exact h.covered
  refine ⟨⟨hl, hcov, h.kept.drain hgen hrun, ?_⟩, hg⟩
  intro j e he
  by_cases hj : j < st.drained.length
  · rw [List.getElem?_append_left hj] at he
    dsimp only
    rw [List.take_append_of_le_length hj]
    exact h.running j e he
  · have hlast : j = st.drained.length := by
      have := (List.getElem?_eq_some_iff.mp he).1
      rw [List.length_append, List.length_singleton] at this
      omega
    subst hlast
    rw [List.getElem?_concat_length, Option.some.injEq] at he
    subst he
    rw [hnode, List.take_of_length_le (by simp), recordsOf_append, recordsOf_singleton, hd]
    exact h.covered

theorem newSession_sound (g : RecordTable) (threadID : Nat) : Sound g (newSession g threadID) := by
  refine ⟨newSession_logged g threadID, Or.inl rfl, newSession_kept g threadID, ?_⟩
  intro j d hd
  cases hd

theorem Sound.run {es : List Event} (h : Sound g st)
    (hgen : st.thread.generationNumber + drainCount es < 2 ^ 32)
    (hrun : runEvents g st es = .ok st') : Sound g st' := by
  induction es generalizing st with
  | nil =>
      cases hrun
      exact h
  | cons e es ih =>
      obtain ⟨t, he, hrest⟩ := runEvents_cons.mp hrun
      rw [← List.singleton_append, drainCount_append] at hgen
      cases e with
      | handler hd =>
          obtain ⟨ti₁, hrun₁, rfl⟩ := run_handler.mp he
          obtain ⟨hs, hg⟩ := h.handler hrun₁
          have hzero : drainCount [.handler hd] = 0 := rfl
          exact ih hs (by dsimp only; omega) hrest
      | drain reading =>
          obtain ⟨ti₁, d, hrun₁, rfl⟩ := run_drain.mp he
          have hone : drainCount [.drain reading] = 1 := rfl
          obtain ⟨hs, hg⟩ := h.drain (by omega) hrun₁
          exact ih hs (by dsimp only; omega) hrest

theorem Parented.first {xs ys : List MethodNodeSerializedInfo} (h : Parented (xs ++ ys)) : Parented xs := by
  intro j r hr
  have hj : j < xs.length := (List.getElem?_eq_some_iff.mp hr).1
  have := h j r (by rw [List.getElem?_append_left hj, hr])
  rwa [List.take_append_of_le_length hj.le] at this

/-- What the monitor relies on in the buffers that are sent. -/
structure WellFormed (g : RecordTable) (evs : List WorldEvent) (s : System) : Prop where
  /-- No buffer object has two owners. -/
  buffers : (s.world.back :: s.world.threads.map (fun t => t.buffer)).Nodup
  /-- A buffer has the records that its thread has created since the last one. -/
  own : ∀ d ∈ s.sent, d.drained.records.map (fun r => r.callNodeId) = d.created
  /-- The other threads have no part in what is drained from a thread. -/
  alone : ∀ i < s.world.threads.length, ∃ st, runEvents g (newSession g i) (eventsOf i evs) = .ok st ∧
    st.drained = drainedOf i s.sent
  once : ∀ d ∈ s.sent, (d.drained.records.map (fun r => r.callNodeId)).Nodup
  parented : ∀ i, Parented (recordsOf (drainedOf i s.sent))
  running : ∀ i, RunningKnown (drainedOf i s.sent)

theorem tracked_buffers_nodup {evs : List WorldEvent} {s : System} (h : Tracked g evs s) :
    (s.world.back :: s.world.threads.map (fun t => t.buffer)).Nodup := by
  rw [List.nodup_cons]
  constructor
  · intro hm
    obtain ⟨t, ht, he⟩ := List.mem_map.mp hm
    obtain ⟨i, hi⟩ := List.getElem?_of_mem ht
    exact h.apart i t hi he
  · rw [List.nodup_iff_injective_getElem]
    intro a b he
    simp only [List.getElem_map] at he
    exact Fin.ext (h.distinct _ _ _ _ (List.getElem?_eq_getElem _) (List.getElem?_eq_getElem _) he)

/-- Every buffer drained from a thread that has been drained fewer than 2³² - 1
times is well formed, whatever the other threads do. -/
theorem drained_buffers_well_formed (g : RecordTable) (evs : List WorldEvent) (s : System)
    (hfew : ∀ i, drainCount (eventsOf i evs) < 2 ^ 32 - 1)
    (hrun : runWorld g evs = .ok s) : WellFormed g evs s := by
  have h := runWorld_tracked hrun
  have hsound (i : Nat) (hi : i < s.world.threads.length) :
      ∃ st, runEvents g (newSession g i) (eventsOf i evs) = .ok st ∧
        st.drained = drainedOf i s.sent ∧ Sound g st := by
    obtain ⟨st, hst, ha⟩ := h.alone i _ (List.getElem?_eq_getElem hi)
    refine ⟨st, hst, ha.drained, (newSession_sound g i).run ?_ hst⟩
    have hone : (newSession g i).thread.generationNumber = 1 := rfl
    have := hfew i
    omega
  have hany (P : List Drained → Prop) (hnil : P []) (hP : ∀ st, Sound g st → P st.drained) (i : Nat) :
      P (drainedOf i s.sent) := by
    by_cases hi : i < s.world.threads.length
    · obtain ⟨st, -, hd, hs⟩ := hsound i hi
      exact hd ▸ hP st hs
    · rw [(h.absent i (by omega)).2]
      exact hnil
  refine ⟨tracked_buffers_nodup h, h.own, ?_, ?_, ?_, ?_⟩
  · intro i hi
    obtain ⟨st, hst, hd, -⟩ := hsound i hi
    exact ⟨st, hst, hd⟩
  · intro d hd
    have hids := hany (fun ds => ∀ e ∈ ds, (e.records.map (fun r => r.callNodeId)).Nodup)
      (fun e he => absurd he List.not_mem_nil) (fun st hs => hs.logged.ids) d.thread
    exact hids d.drained (List.mem_map.mpr ⟨d, List.mem_filter.mpr ⟨hd, by simp⟩, rfl⟩)
  · apply hany (fun ds => Parented (recordsOf ds))
    · intro j r hr
      cases hr
    · intro st hs
      exact Parented.first hs.logged.parent
  · apply hany RunningKnown
    · intro j d hd
      cases hd
    · intro st hs
      exact hs.running

theorem drainCount_eventsOf_le (i : Nat) (evs : List WorldEvent) : drainCount (eventsOf i evs) ≤ evs.length :=
  (List.countP_le_length).trans (List.length_filterMap_le _ _)

/-- Two threads with one counter: the second is drained while the first is in a call
that it returns from in its next generation. -/
theorem drained_buffers_well_formed_two :
    ∃ s, runWorld oneCounter
        [.spawn, .thread 0 (.handler (.call 5 (fun _ => 10))), .thread 1 (.handler (.call 5 (fun _ => 20))),
          .thread 0 (.drain (fun _ => 30)), .thread 1 (.drain (fun _ => 30)),
          .thread 0 (.handler (.ret (fun _ => 40))), .thread 0 (.drain (fun _ => 50))] = .ok s ∧
      WellFormed oneCounter
        [.spawn, .thread 0 (.handler (.call 5 (fun _ => 10))), .thread 1 (.handler (.call 5 (fun _ => 20))),
          .thread 0 (.drain (fun _ => 30)), .thread 1 (.drain (fun _ => 30)),
          .thread 0 (.handler (.ret (fun _ => 40))), .thread 0 (.drain (fun _ => 50))] s :=
  ⟨_, rfl, drained_buffers_well_formed _ _ _
    (fun i => (drainCount_eventsOf_le i _).trans_lt (by decide)) rfl⟩

end Llprof.Profiler.DrainedBuffers
