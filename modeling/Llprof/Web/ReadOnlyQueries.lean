import Llprof.Web.TreeRequests

namespace Llprof.Web.ReadOnlyQueries

open Faulting hiding store
open Lockstep LittleEndian JsonWriter Monitor.Nodes Monitor.SlotLoops Monitor.SliceContents
  Monitor.Answers Monitor.Ticks Monitor.TickFrame Monitor.AnswerFrame Documents TreeRequests

variable {gl : Settings} {ds : DataStore} {ts ts' : ThreadStore} {c : Bool} {r : Request}

theorem askThread_like (h : AtRest c ds ts ts') (hin : r.AsksInReach c ds) (hup : r.AsksUpToDate c ds) :
    Related (fun a a' => AtRest c ds a.1 a'.1 ∧ a'.2 = a.2) (askThread gl ds r ts)
      (askThread gl ds r ts') := by
  cases r with
  | current id => exact ⟨h, currentAnswer_like h.like⟩
  | diff id p1 p2 => exact diffAnswer_like h p2 hin hup

theorem askThread_inserted (h : AtRest c ds ts ts') (hd : Described ds) (hin : r.AsksInReach c ds) :
    ∃ a, askThread gl ds r ts' = .ok a ∧ AtRest c ds ts a.1 := by
  cases r with
  | current id => exact ⟨_, rfl, h⟩
  | diff id p1 p2 => exact diffAnswer_inserted h hd p2 hin

theorem dumpDataStore_text (ds : DataStore) (answers : List ThreadAnswer) :
    dumpDataStore ds answers [] = .ok (dataStoreValue ds answers).render :=
  renders_nil (renders_dataStore ds answers)

theorem dumpJSON_nil (gl : Settings) (ds : DataStore) (r : Request) :
    dumpJSON gl ds r [] = .ok ([], (dataStoreValue ds []).render) := by
  rw [dumpJSON, sweep]
  dsimp only [ok_bind]
  rw [dumpDataStore_text]
  rfl

theorem dumpJSON_like {threads threads' : Threads} (h : ThreadsLike (AtRest c ds) threads threads')
    (hin : r.AsksInReach c ds) (hup : r.AsksUpToDate c ds) :
    Related (fun a a' => ThreadsLike (AtRest c ds) a.1 a'.1 ∧ a'.2 = a.2) (dumpJSON gl ds r threads)
      (dumpJSON gl ds r threads') := by
  have hsweep : Related (fun a a' => a.1 = a'.1 ∧ ThreadsLike (AtRest c ds) a.2 a'.2)
      (sweep (askNext gl ds r) threads []) (sweep (askNext gl ds r) threads' []) := by
    refine related_sweep ?_ h rfl
    rintro answers _ p q rfl ⟨hid, hpq⟩
    apply (askThread_like hpq hin hup).bind
    rintro ⟨a, answer⟩ ⟨a', _⟩ ⟨ha, rfl⟩
    exact ⟨rfl, hid, ha⟩
  apply hsweep.bind
  rintro ⟨answers, as⟩ ⟨_, as'⟩ ⟨rfl, has⟩
  apply related_same_bind
  intro text _
  exact ⟨has, rfl⟩

theorem sweep_inserted {threads threads' : Threads} (h : ThreadsLike (AtRest c ds) threads threads')
    (hd : Described ds) (hin : r.AsksInReach c ds) (answers : List ThreadAnswer) :
    ∃ a, sweep (askNext gl ds r) threads' answers = .ok a ∧ ThreadsLike (AtRest c ds) threads a.2 := by
  induction h generalizing answers with
  | nil => exact ⟨_, rfl, List.Forall₂.nil⟩
  | cons hpq _ ih =>
      obtain ⟨⟨a, answer⟩, hrun, ha⟩ := @askThread_inserted gl _ _ _ _ _ hpq.2 hd hin
      obtain ⟨⟨all, as⟩, hrest, has⟩ := ih (answers ++ [answer])
      rw [sweep, askNext, hrun]
      dsimp only [ok_bind, pure_eq_ok]
      rw [hrest]
      exact ⟨_, rfl, List.Forall₂.cons ⟨hpq.1, ha⟩ has⟩

theorem dumpJSON_inserted {threads threads' : Threads}
    (h : ThreadsLike (AtRest c ds) threads threads') (hd : Described ds)
    (hin : r.AsksInReach c ds) : ∃ a, dumpJSON gl ds r threads' = .ok a ∧
    ThreadsLike (AtRest c ds) threads a.1 := by
  obtain ⟨⟨answers, as⟩, hrun, has⟩ := @sweep_inserted gl _ _ _ _ _ h hd hin []
  rw [dumpJSON, hrun]
  dsimp only [ok_bind]
  rw [dumpDataStore_text]
  exact ⟨_, rfl, has⟩

theorem askTarget_like {t t' : TargetStore} (h : TargetLike (AtRest c) t t') (hin : r.AsksInReach c t.ds)
    (hup : r.AsksUpToDate c t.ds) :
    Related (fun a a' => TargetLike (AtRest c) a.1 a'.1 ∧ a'.2 = a.2) (askTarget gl t r)
      (askTarget gl t' r) := by
  rw [askTarget, askTarget, h.ds]
  apply (dumpJSON_like h.threads hin hup).bind_ok
  rintro ⟨threads, text⟩ ⟨threads', _⟩ hrun - ⟨hthreads, rfl⟩
  refine ⟨⟨rfl, h.firstReceived, hthreads, h.described, fun hf => ?_⟩, rfl⟩
  rw [h.fresh hf, dumpJSON_nil, Except.ok.injEq, Prod.mk.injEq] at hrun
  exact hrun.1.symm

theorem askTarget_inserted {t t' : TargetStore} (h : TargetLike (AtRest c) t t')
    (hin : r.AsksInReach c t.ds) : ∃ a, askTarget gl t' r = .ok a ∧ TargetLike (AtRest c) t a.1 := by
  obtain ⟨⟨threads, text⟩, hrun, hthreads⟩ := @dumpJSON_inserted gl _ _ _ _ _ h.threads h.described hin
  rw [askTarget, h.ds, hrun]
  exact ⟨_, rfl, ⟨rfl, h.firstReceived, hthreads, h.described, h.fresh⟩⟩

theorem asks_unless_cleared (r : Request) (ds : DataStore) :
    r.AsksInReach false ds ∧ r.AsksUpToDate false ds := by
  cases r with
  | current id => exact ⟨trivial, trivial⟩
  | diff id p1 p2 => exact ⟨fun h => absurd h Bool.false_ne_true, fun h => absurd h Bool.false_ne_true⟩

theorem askGlobal_like {g g' : GlobalDataStore} (h : GlobalLike g g') (r : Request) :
    Related (fun a a' => (GlobalLike a.1 a'.1 ∧ a.1.ds = g.ds) ∧
      a'.2 = a.2) (askGlobal gl g r) (askGlobal gl g' r) := by
  rw [askGlobal, askGlobal, h.ds]
  rcases h.thread with ⟨hnone, hnone'⟩ | ⟨a, ts', ha, ha', hpair⟩
  · rw [hnone, hnone', dumpJSON_nil]
    exact ⟨⟨h, rfl⟩, rfl⟩
  · obtain ⟨hin, hup⟩ := asks_unless_cleared r g.ds
    rw [ha, ha']
    apply (askThread_like (show AtRest false g.ds a.ts ts' from hpair) hin hup).bind
    rintro ⟨ts, answer⟩ ⟨ts₁, _⟩ ⟨hts, rfl⟩
    dsimp only
    rw [dumpDataStore_text]
    exact ⟨⟨⟨rfl, h.described, Or.inr ⟨_, _, rfl, rfl, hts⟩⟩, rfl⟩, rfl⟩

theorem askGlobal_inserted {g g' : GlobalDataStore} (h : GlobalLike g g') (r : Request) :
    ∃ a, askGlobal gl g' r = .ok a ∧ GlobalLike g a.1 := by
  rw [askGlobal, h.ds]
  rcases h.thread with ⟨hnone, hnone'⟩ | ⟨a, ts', ha, ha', hpair⟩
  · rw [hnone', dumpJSON_nil]
    exact ⟨_, rfl, h⟩
  · obtain ⟨b, hrun, hb⟩ :=
      @askThread_inserted gl _ _ _ _ _ (show AtRest false g.ds a.ts ts' from hpair) h.described
        (asks_unless_cleared r g.ds).1
    rw [ha']
    dsimp only
    rw [hrun]
    dsimp only [ok_bind]
    rw [dumpDataStore_text]
    exact ⟨_, rfl, ⟨rfl, h.described, Or.inr ⟨a, b.1, ha, rfl, hb⟩⟩⟩

theorem targetAt_like {R : DataStore → ThreadStore → ThreadStore → Prop} {m m' : AllDataStore}
    (h : List.Forall₂ (TargetLike R) m.targets m'.targets)
    (id : Int) : (targetAt m id = none ∧ targetAt m' id = none) ∨
      ∃ t t', targetAt m id = some t ∧ targetAt m' id = some t' ∧ TargetLike R t t' := by
  rw [targetAt, targetAt]
  split
  · exact forall₂_getElem? h (id - 1).toNat
  · exact Or.inl ⟨rfl, rfl⟩

theorem getElem?_of_targetAt {m : AllDataStore} {id : Int} {t : TargetStore} (h : targetAt m id = some t) :
    m.targets[(id - 1).toNat]? = some t := by
  rw [targetAt] at h
  split at h
  · exact h
  · cases h

theorem clears_like {m m' : AllDataStore} (h : StoresLike gl m m') : clears gl m' = clears gl m := by
  rw [clears, clears, h.global.ds]

theorem dataStoreRequest_like {m m' : AllDataStore} (h : StoresLike gl m m')
    (hr : ∀ t ∈ targetAt m' r.id, r.AsksInReach (clears gl m') t.ds ∧ r.AsksUpToDate (clears gl m') t.ds) :
    Related (fun a a' => StoresLike gl a.1 a'.1 ∧ a'.2 = a.2) (dataStoreRequest gl m r)
      (dataStoreRequest gl m' r) := by
  rw [dataStoreRequest, dataStoreRequest]
  by_cases hglobal : r.id = 0 ∧ gl.singleTreeMode = true
  · rw [if_pos hglobal, if_pos hglobal]
    apply (askGlobal_like h.global r).bind
    rintro ⟨g, text⟩ ⟨g', _⟩ ⟨⟨hg, hds⟩, rfl⟩
    refine ⟨⟨hg, ?_⟩, rfl⟩
    dsimp only at hds ⊢
    rw [clears, hds]
    exact h.targets
  · rw [if_neg hglobal, if_neg hglobal]
    rcases targetAt_like h.targets r.id with ⟨hnone, hnone'⟩ | ⟨t, t', ht, ht', hlike⟩
    · rw [hnone, hnone']
      exact ⟨h, rfl⟩
    · obtain ⟨hin, hup⟩ := hr t' ht'
      rw [hlike.ds, clears_like h] at hin hup
      rw [ht, ht']
      apply (askTarget_like hlike hin hup).bind
      rintro ⟨a, text⟩ ⟨a', _⟩ ⟨ha, rfl⟩
      exact ⟨⟨h.global, forall₂_set h.targets _ ha⟩, rfl⟩

theorem dataStoreRequest_inserted {m m' : AllDataStore} (h : StoresLike gl m m')
    (hr : ∀ t ∈ targetAt m' r.id, r.AsksInReach (clears gl m') t.ds) :
    ∃ a, dataStoreRequest gl m' r = .ok a ∧ StoresLike gl m a.1 := by
  rw [dataStoreRequest]
  by_cases hglobal : r.id = 0 ∧ gl.singleTreeMode = true
  · obtain ⟨a, hrun, ha⟩ := @askGlobal_inserted gl _ _ h.global r
    rw [if_pos hglobal, hrun]
    exact ⟨_, rfl, ⟨ha, h.targets⟩⟩
  · rw [if_neg hglobal]
    rcases targetAt_like h.targets r.id with ⟨-, hnone'⟩ | ⟨t, t', ht, ht', hlike⟩
    · rw [hnone']
      exact ⟨_, rfl, h⟩
    · have hin := hr t' ht'
      rw [hlike.ds, clears_like h] at hin
      obtain ⟨a, hrun, ha⟩ := @askTarget_inserted gl _ _ _ _ hlike hin
      rw [ht']
      dsimp only
      rw [hrun]
      exact ⟨_, rfl, ⟨h.global, forall₂_set_right h.targets (getElem?_of_targetAt ht) ha⟩⟩

theorem newDataStore_like {R : DataStore → ThreadStore → ThreadStore → Prop} :
    TargetLike R newDataStore newDataStore :=
  ⟨rfl, rfl, List.Forall₂.nil, rfl, fun _ => rfl⟩

theorem initDataStore_like (gl : Settings) : StoresLike gl initDataStore initDataStore :=
  ⟨⟨rfl, rfl, Or.inl ⟨rfl, rfl⟩⟩, List.Forall₂.nil⟩

theorem stepEvent_like {m m' : AllDataStore} (h : StoresLike gl m m') {e : Event}
    (he : (Item.event e).Meets gl m') :
    Related (fun a a' => StoresLike gl a.1 a'.1 ∧ a'.2 = a.2) (stepEvent gl m e) (stepEvent gl m' e) := by
  cases e with
  | connect =>
      refine ⟨⟨h.global, ?_⟩, rfl⟩
      exact List.rel_append h.targets (List.Forall₂.cons newDataStore_like List.Forall₂.nil)
  | tick receptions =>
      apply (tick_like h receptions).bind
      intro a a' ha
      exact ⟨ha, rfl⟩
  | request r =>
      apply (dataStoreRequest_like h he).bind
      rintro ⟨a, text⟩ ⟨a', _⟩ ⟨ha, rfl⟩
      exact ⟨ha, rfl⟩

theorem run_like (items : List Item) {m m' : AllDataStore} (h : StoresLike gl m m')
    (hall : AllMeet gl m' items) (texts : List Bytes) :
    Related (fun a a' => StoresLike gl a.1 a'.1 ∧ a'.2 = a.2) ((without items).foldlM (runItem gl) (m, texts))
      (items.foldlM (runItem gl) (m', texts)) := by
  induction items generalizing m m' texts with
  | nil => exact ⟨h, rfl⟩
  | cons it items ih =>
      obtain ⟨hit, hall⟩ := hall
      cases it with
      | event e =>
          have hkept : without (.event e :: items) = .event e :: without items := rfl
          rw [hkept, List.foldlM_cons, List.foldlM_cons, runItem, runItem, bind_assoc, bind_assoc]
          apply (stepEvent_like h hit).bind_ok
          rintro ⟨a, more⟩ ⟨a', _⟩ - hrun ⟨ha, rfl⟩
          exact ih ha (hall _ _ hrun) _
      | inserted r =>
          have hdropped : without (.inserted r :: items) = without items := rfl
          obtain ⟨a, hrun, ha⟩ := dataStoreRequest_inserted h hit
          have hstep : stepItem gl m' (.inserted r) = .ok (a.1, []) := by
            rw [stepItem, hrun]
            rfl
          rw [hdropped, List.foldlM_cons, runItem, hstep]
          dsimp only [ok_bind, pure_eq_ok]
          rw [List.append_nil]
          exact ih ha (hall _ _ hstep) texts

theorem findsSlices_of_like {m m' : AllDataStore} (h : StoresLike gl m m') : FindsSlices m' := by
  intro t' ht' q hq u hu
  obtain ⟨t, -, ht⟩ := mem_right_of_forall₂ h.targets ht'
  obtain ⟨p, -, -, hpq⟩ := mem_right_of_forall₂ ht.threads hq
  rw [ht.ds] at hu
  obtain ⟨slices, tss, hget, -⟩ := getTimeSlice_reaches (hpq.reaches'.mono hu)
  rw [hget]
  exact Option.some_ne_none _

/-- Requests change no later answer and no later fault, and every `Store` finds its
slice, as long as no diff about cleared slices looks past the current time. -/
theorem requests_read_only (gl : Settings) (items : List Item) (h : AllMeet gl initDataStore items) :
    answers gl items = answers gl (without items) ∧
      ∀ m texts, runItems gl items initDataStore = .ok (m, texts) → FindsSlices m := by
  have hrun := run_like items (initDataStore_like gl) h []
  constructor
  · apply Eq.symm
    apply related_map_eq
    exact hrun.mono fun a a' ha => ha.2.symm
  · intro m texts hm
    rw [runItems] at hm
    rw [hm] at hrun
    cases hwithout : (without items).foldlM (runItem gl) (initDataStore, []) with
    | error e =>
        rw [hwithout] at hrun
        cases hrun
    | ok a =>
        rw [hwithout] at hrun
        exact findsSlices_of_like hrun.1

def singleTreeMode :
    Settings := { leafNodeAccumulate := false, singleTreeMode := true, hashStrHard := fun _ => 7 }

/-- A target of one thread reports a call and what it cost. -/
def reception (cost : ProfileValue) : Reception :=
  .drained [{ fieldName := [], unit := [], flags := [], accumulatedValueFlag := false, staticValueFlag := false }] []
    [⟨1, [⟨1, 2, 1, 1, [cost]⟩], ⟨2, [cost]⟩⟩]

/-- Between two ticks a diff is put that `between` gives. -/
def asking (between : Request) : List Item :=
  [.event .connect, .event (.tick [reception 5]), .inserted between, .event (.tick [reception 4]),
    .event (.request (.diff 0 1 2)), .event (.request (.diff 1 1 2))]

theorem requests_read_only_current :
    AllMeet singleTreeMode initDataStore (asking (.diff 1 1 9)) ∧
      answers singleTreeMode (asking (.diff 1 1 9)) =
        answers singleTreeMode (without (asking (.diff 1 1 9))) ∧
      ∀ m texts, runItems singleTreeMode (asking (.diff 1 1 9)) initDataStore = .ok (m, texts) →
        FindsSlices m :=
  have hall : AllMeet singleTreeMode initDataStore (asking (.diff 1 1 9)) := by decide +kernel
  ⟨hall, requests_read_only singleTreeMode _ hall⟩

theorem diff_of_the_future :
    answers singleTreeMode (asking (.diff 1 5 9)) = .error .assertion ∧
      ∃ texts, answers singleTreeMode (without (asking (.diff 1 5 9))) = .ok texts := by
  have hkept : ((answers singleTreeMode (without (asking (.diff 1 5 9)))).toOption.any fun _ => true) =
    true := by decide +kernel
  obtain ⟨texts, hrun, -⟩ := ok_of_any hkept
  exact ⟨error_of_fault (by decide +kernel), texts, hrun⟩

end Llprof.Web.ReadOnlyQueries
