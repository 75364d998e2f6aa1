import Llprof.Link.PageView
import Mathlib.Data.List.Sort

namespace Llprof.Link.RangeView

open Faulting hiding store
open LittleEndian MachineIntegers ParentTree Timeline HeadedMessages JsonText Profiler.Records
  Profiler.CallTree Profiler.Drains Profiler.Activations Profiler.Threads Wire.Network Wire.NameQuery
  Monitor.Nodes Monitor.Store Monitor.MergeSlices Monitor.Runs Monitor.RunTotals Monitor.Telescope
  Monitor.Answers Monitor.DiffAnswers Monitor.RangeAnswers Monitor.Ticks Monitor.OperationFrame
  Metadata Mirror ReceiveLoop MirroredThreads InterleavedRequest Connection EndToEnd PageView
open Web.Libraries Web.Request Web.RequestPaths Web.FormDecoding Web.JsonWriter Web.JsonDecoding Web.Documents
  Web.BlankLine Web.Chunking Web.Responses Web.ClientHandler Web.PageRequests Profiler.RecordInfo

/-- What the page asks for when some times are selected. -/
def selected (id : Int) (selectTime selectWidth : Nat) : Web.PageRequests.Asked :=
  .range id (selectTime + 1) (selectTime + 1 + selectWidth - 1)

/-- The last call of the selection. Asking for 0 is asking for the current time. -/
def lastCall (calls selectTime selectWidth : Nat) : Nat :=
  if selectTime + selectWidth = 0 then calls else selectTime + selectWidth

/-- What a thread does in some calls, up to its last drain. -/
def observed (x : Setup) (t i : Nat) (calls : List Call) : Run (Session × Activity) :=
  observeEvents x.g t i (upToDrain (eventsOf i (eventsOfServe x.g (calls.map Call.schedule) (initialWorld x.g))))

/-- The nodes show the calls and the time by which the second activity is more than the
first, as far as 64 bits can. -/
structure Shows (ti : ThreadInfo) (before after : Activity) (nodes : List RecordNodeBasic) : Prop where
  ids : (nodes.map (fun n => n.id)).Nodup
  place : ∀ n ∈ nodes, n.id ≠ 1 → ∃ m : MethodNodeInfo,
    ti.nodeInfoArray[n.id]? = some m ∧ n.parentId = m.parentNodeId ∧ n.nodeName = m.nameid
  calls : ∀ k, ∃ more, after.entered.count k = before.entered.count k + more ∧
    Numbers (callsIn (shownAt nodes k)) more
  times : ∀ k, Counts (valueIn (shownAt nodes k) 0)
    (sumAt Prod.fst Prod.snd after.completed k - sumAt Prod.fst Prod.snd before.completed k)

variable {x : Setup} {t i : Nat} {P : NameID → Bytes → Prop} {calls calls₁ calls₂ calls₃ : List Call}
  {sent sent₁ sent₂ : List (List Sending)} {given given₁ given₂ : Nat → List Monitor.Runs.Delivery}
  {s s₁ s₂ : System} {target target₁ target₂ : Target}

structure Receivable (x : Setup) (P : NameID → Bytes → Prop) (seen : List Nat) (calls : List Call) (v : World)
    (sent : List (List Sending)) (w : World) : Prop where
  served : serve x.g (calls.map Call.schedule) v = .ok (sent, w)
  kernels : ∀ a ∈ calls, a.kernel.Partial
  fitting : ∀ sendings ∈ sent, ∀ m ∈ sendings, Fitting 2 m
  named : Named P seen calls sent

theorem Receivable.split {seen : List Nat} {v w : World}
    (h : Receivable x P seen (calls₁ ++ calls₂) v sent w) :
    ∃ sent₁ u sent₂, Receivable x P seen calls₁ v sent₁ u ∧
      Receivable x P (seen ++ sent₁.flatMap nameidsOf) calls₂ u sent₂ w ∧ sent = sent₁ ++ sent₂ := by
  have hserved := h.served
  rw [List.map_append] at hserved
  obtain ⟨sent₁, u, sent₂, h₁, h₂, rfl⟩ := serve_append.mp hserved
  have hlen := serve_length h₁
  rw [List.length_map] at hlen
  obtain ⟨hkernels₁, hkernels₂⟩ := List.forall_mem_append.mp h.kernels
  obtain ⟨hfit₁, hfit₂⟩ := List.forall_mem_append.mp h.fitting
  obtain ⟨hnamed₁, hnamed₂⟩ := named_append hlen h.named
  exact ⟨sent₁, u, sent₂, ⟨h₁, hkernels₁, hfit₁, hnamed₁⟩, ⟨h₂, hkernels₂, hfit₂, hnamed₂⟩, rfl⟩

theorem Receivable.after {w : World} (h : Receivable x P (sent₁.flatMap nameidsOf) calls₂ s₁.world sent₂ w)
    (h₁ : AfterCalls x t P calls₁ sent₁ given₁ s₁ target₁) (hx : Usual x t)
    (hP : ∀ y name, P y name → isAttrName name = false) (hcount : (calls₁ ++ calls₂).length < 2 ^ 32 - 1) :
    ∃ given₂ s₂ target₂, AfterCalls x t P (calls₁ ++ calls₂) (sent₁ ++ sent₂) given₂ s₂ target₂ ∧
      s₂.world = w ∧ Advances calls₂.length target₁ target₂ given₁ given₂ :=
  h₁.more hx hP h.kernels h.served h.fitting h.named (List.length_append ▸ hcount)

theorem given_before (h : AfterCalls x t P calls sent given s target) (i : Nat) :
    ∀ d ∈ given i, d.time ≤ calls.length := by
  intro d hd
  have hlt := ((h.follows.holds i).before d hd).2
  rw [h.time] at hlt
  exact Int.lt_add_one_iff.mp hlt

theorem given_through (h₁ : AfterCalls x t P calls₁ sent₁ given₁ s₁ target₁)
    (ha : Advances calls₂.length target₁ target given₁ given)
    (i : Nat) : through Monitor.Runs.Delivery.time (given i) calls₁.length = given₁ i := by
  obtain ⟨more, hmore, hlater⟩ := ha.more i
  rw [h₁.time] at hlater
  rw [hmore]
  exact through_append (given_before h₁ i) hlater

theorem observed_tallies (hx : Usual x t) (h : AfterCalls x t P calls sent given s target)
    (hcount : calls.length < 2 ^ 32 - 1) (i : Nat) :
    ∃ st a, observed x t i calls = .ok (st, a) ∧ Accounted st a ∧ logOf (given i) = st.log ∧
      WellFormedRun (baseOf x t) (given i) ∧ UndisturbedRun (baseOf x t) (given i) ∧
      ∀ k, ((dataAt (treeAfter x.gl (baseOf x t) i (given i)) k).isSome = true → Known (logOf (given i)) k) ∧
        Numbers (callsIn (dataAt (treeAfter x.gl (baseOf x t) i (given i)) k)) (a.entered.count k) ∧
        Counts (valueIn (dataAt (treeAfter x.gl (baseOf x t) i (given i)) k) 0)
          (sumAt Prod.fst Prod.snd a.completed k) := by
  obtain ⟨st, a, hobserve, hacc, hlive, hdrains⟩ :=
    last_session hx.counter h.events i ((drainCount_calls x calls i).trans_lt hcount)
  have hholds := h.follows.holds i
  rw [← hdrains] at hholds
  have hplain : ∀ d ∈ given i, PlainNames d.nameTable := fun d hd => (hholds.before d hd).1
  obtain ⟨ts, rank, hrun, hr, hlog, ht⟩ :=
    tree_tallies (baseOf_slots x t) hx.accumulate hx.single hacc hlive hholds.delivers hplain i
  refine ⟨st, a, hobserve, hacc, hlog, Accounted.wellFormed_two (baseOf_slots x t).two hacc hholds.delivers,
    undisturbed_of_plain hplain, fun k => ?_⟩
  rw [treeAfter_eq hrun]
  refine ⟨fun hsome => ?_, ht k⟩
  rw [dataAt, Option.isSome_map, Option.isSome_iff_exists] at hsome
  exact (hr.links.known k).mp hsome

theorem targetDs_eq (h : AfterCalls x t P calls sent given s target) (hne : 0 < calls.length) :
    target.store.ds = { baseOf x t with
      currentTimeNumber := target.store.ds.currentTimeNumber
      nameTable := target.store.ds.nameTable } := by
  obtain ⟨hnum, hmeta⟩ := h.follows.slots (h.first hne)
  dsimp only
  rw [← hmeta, (baseOf_slots x t).two, ← hnum]

theorem answer_shows (hx : Usual x t) (h₁ : AfterCalls x t P calls₁ sent₁ given₁ s₁ target₁)
    (h₂ : AfterCalls x t P (calls₁ ++ calls₂) sent₂ given₂ s₂ target₂)
    (h : AfterCalls x t P (calls₁ ++ calls₂ ++ calls₃) sent given s target)
    (ha₁ : Advances calls₂.length target₁ target₂ given₁ given₂)
    (ha₂ : Advances calls₃.length target₂ target given₂ given)
    (hpos : 0 < (calls₁ ++ calls₂ ++ calls₃).length)
    (hcount : (calls₁ ++ calls₂ ++ calls₃).length < 2 ^ 32 - 1) {ts : ThreadStore}
    (hlook : target.store.threads.lookup i = some ts) {p2 : Int}
    (hstop : stopOf target.store.ds p2 = calls₁.length + calls₂.length) :
    ∃ ts' nodes last, diffAnswer x.gl target.store.ds ts (calls₁.length + 1) p2 =
      .ok (ts', ⟨i, .diff nodes last⟩) ∧
      ∃ st₁ a₁ st₂ a₂, observed x t i calls₁ = .ok (st₁, a₁) ∧
        observed x t i (calls₁ ++ calls₂) = .ok (st₂, a₂) ∧ Shows st₂.thread a₁ a₂ nodes := by
  have hlen₁ : calls₁.length < 2 ^ 32 - 1 ∧ (calls₁ ++ calls₂).length < 2 ^ 32 - 1 := by
    simp only [List.length_append] at hcount ⊢
    omega
  obtain ⟨st₁, a₁, hst₁, hacc₁, hlog₁, -, -, ht₁⟩ := observed_tallies hx h₁ hlen₁.1 i
  obtain ⟨st₂, a₂, hst₂, hacc₂, hlog₂, -, -, ht₂⟩ := observed_tallies hx h₂ hlen₁.2 i
  obtain ⟨-, -, -, -, -, hw, hu, -⟩ := observed_tallies hx h hcount i
  have hrun : storeAll x.gl (baseOf x t) (newThreadStore x.gl (baseOf x t) i) (given i) = .ok ts := by
    rw [(h.follows.holds i).stored, threadOf, hlook, Option.getD_some]
  have hthrough₂ : through Monitor.Runs.Delivery.time (given i) (calls₁.length + calls₂.length : Nat) =
      given₂ i := by
    have := given_through h₂ ha₂ i
    rwa [List.length_append] at this
  have hthrough₁ : through Monitor.Runs.Delivery.time (given i) calls₁.length = given₁ i := by
    have hlater : ∀ d ∈ given₁ i, d.time ≤ (calls₁.length : Int) := given_before h₁ i
    rw [← given_through h₁ ha₁ i, ← hthrough₂, through_until (by omega)]
  have hds := targetDs_eq h hpos
  rw [hds] at hstop ⊢
  obtain ⟨ts', nodes, last, hanswer, hids, hlinks, hmerge⟩ :=
    diffAnswer_run (baseOf_slots x t).described hx.accumulate hx.single hw hu
      hrun _ p2 _ calls₁.length calls₂.length hstop
  rw [Nat.cast_add] at hthrough₂
  rw [hthrough₁, hthrough₂] at hmerge
  refine ⟨ts', nodes, last, hanswer, st₁, a₁, st₂, a₂, hst₁, hst₂, hids, fun e he h1 => ?_,
    fun k => ?_, fun k => ?_⟩
  · have hshown : (shownAt nodes e.id).isSome = true := by
      rw [shownAt, Option.isSome_map, List.find?_isSome]
      exact ⟨e, he, decide_eq_true rfl⟩
    have hknown : Known (logOf (given₂ i)) e.id := by
      apply (ht₂ e.id).1
      rw [hmerge, Option.isSome_merge, hshown, Bool.or_true]
    obtain ⟨more, hmore, -⟩ := ha₂.more i
    have hlink := hlinks e he
    rw [hmore, logOf_append, linkOf_old hknown, hlog₂] at hlink
    exact place_of_link hacc₂ hlink h1
  · obtain ⟨more, hmore, -⟩ := ha₁.more i
    have hlog : st₂.log = st₁.log ++ logOf more := by rw [← hlog₁, ← hlog₂, hmore, logOf_append]
    have hcalls := (ht₂ k).2.1.wrapped
    have hadd : a₂.entered.count k = a₁.entered.count k +
        sumAt (fun r => r.callNodeId) callsOf (logOf more) k := by
      rw [← hacc₁.calls, ← hacc₂.calls, hlog, sumAt_append]
    rw [hmerge k, callsIn_merge, (ht₁ k).2.1.wrapped, hadd, Nat.cast_add] at hcalls
    exact ⟨_, hadd, numbers_iff.mpr (add_left_cancel hcalls)⟩
  · have htimes := (ht₂ k).2.2.wrapped
    rw [hmerge k, valueIn_merge Nat.two_pos (baseOf_slots x t).static, (ht₁ k).2.2.wrapped] at htimes
    rw [counts_iff, Int.cast_sub, ← htimes, add_sub_cancel_left]

theorem lookup_some_iff (h : AfterCalls x t P calls sent given s target) (hne : calls ≠ []) (i : Nat) :
    (∃ ts, target.store.threads.lookup i = some ts) ↔ i < s.world.threads.length := by
  rw [← Option.ne_none_iff_exists', ne_eq, (h.follows.holds i).present]
  constructor
  · intro hdrained
    by_contra hi
    apply hdrained
    rw [drainsIn_sweepOf]
    exact ((runWorld_tracked h.events).absent i (Nat.not_lt.mp hi)).2
  · exact h.drained hne i

theorem threads_ids (h : AfterCalls x t P calls sent given s target) (hne : calls ≠ []) :
    target.store.threads.map Prod.fst = List.range s.world.threads.length := by
  have hsorted : (target.store.threads.map Prod.fst).Pairwise (· < ·) :=
    List.pairwise_map.mpr h.follows.sorted
  have hrange : (List.range s.world.threads.length).Pairwise (· < ·) := List.pairwise_lt_range
  refine List.Perm.eq_of_pairwise' hsorted hrange
    ((List.perm_ext_iff_of_nodup (hsorted.imp Nat.ne_of_lt) List.nodup_range).mpr ?_)
  intro i
  rw [List.mem_range, ← lookup_some_iff h hne i, ← Option.ne_none_iff_exists', ne_eq,
    List.lookup_eq_none_iff, List.mem_map]
  simp

theorem sweep_diff {gl : Settings} {ds : DataStore} {threads : Threads} (id p1 p2 : Int)
    (R : ThreadID → ThreadAnswer → Prop)
    (h : ∀ p ∈ threads, ∃ ts' a, diffAnswer gl ds p.2 p1 p2 = .ok (ts', a) ∧ R p.1 a) :
    ∃ answers threads', sweep (Web.TreeRequests.askNext gl ds (.diff id p1 p2)) threads [] =
      .ok (answers, threads') ∧ List.Forall₂ R (threads.map Prod.fst) answers := by
  obtain ⟨answers, threads', hrun, hall, -⟩ :=
    sweep_total (f := Web.TreeRequests.askNext gl ds (.diff id p1 p2))
      (fun done answers => List.Forall₂ R (done.map Prod.fst) answers) (fun _ _ => True) threads
      (by
        intro done p rest answers he hdone
        obtain ⟨ts', a, hask, ha⟩ := h p (by rw [he]; simp)
        have hthread : Web.TreeRequests.askThread gl ds (.diff id p1 p2) p.2 = .ok (ts', a) := hask
        refine ⟨answers ++ [a], (p.1, ts'), ?_, ?_, trivial⟩
        · rw [Web.TreeRequests.askNext, hthread]
          rfl
        · rw [List.map_append]
          exact List.rel_append hdone (.cons ha .nil))
      (s := []) .nil
  exact ⟨answers, threads', hrun, hall⟩

theorem range_answered {w : World} (calls₁ calls₂ calls₃ : List Call) (hx : Usual x t)
    (hP : ∀ y name, P y name → isAttrName name = false) (hne : calls₁ ++ calls₂ ++ calls₃ ≠ [])
    (hcount : (calls₁ ++ calls₂ ++ calls₃).length < 2 ^ 32 - 1)
    (hr : Receivable x P [] (calls₁ ++ calls₂ ++ calls₃) (initialWorld x.g) sent w) (id p2 : Int)
    (hstop : (if p2 = 0 then ((calls₁ ++ calls₂ ++ calls₃).length : Int) else p2) = calls₁.length + calls₂.length) :
    ∃ given s target answers threads, AfterCalls x t P (calls₁ ++ calls₂ ++ calls₃) sent given s target ∧
      s.world = w ∧
      sweep (Web.TreeRequests.askNext x.gl target.store.ds (.diff id (calls₁.length + 1) p2))
        target.store.threads [] = .ok (answers, threads) ∧
      answers.length = w.threads.length ∧
      ∀ i < w.threads.length, ∃ nodes last st₁ a₁ st₂ a₂, answers[i]? = some ⟨i, .diff nodes last⟩ ∧
        observed x t i calls₁ = .ok (st₁, a₁) ∧ observed x t i (calls₁ ++ calls₂) = .ok (st₂, a₂) ∧
          Shows st₂.thread a₁ a₂ nodes := by
  obtain ⟨sent₁₂, u₂, sent₃, hr₁₂, hr₃, rfl⟩ := hr.split
  obtain ⟨sent₁, u₁, sent₂, hr₁, hr₂, rfl⟩ := hr₁₂.split
  have hlen : (calls₁ ++ calls₂).length < 2 ^ 32 - 1 ∧ ([] ++ calls₁).length < 2 ^ 32 - 1 := by
    simp only [List.length_append, List.length_nil] at hcount ⊢
    omega
  obtain ⟨given₁, s₁, target₁, h₁, rfl, -⟩ := hr₁.after (initial_after x t P) hx hP hlen.2
  obtain ⟨given₂, s₂, target₂, h₂, rfl, ha₁⟩ := hr₂.after h₁ hx hP hlen.1
  obtain ⟨given, s, target, h, rfl, ha₂⟩ := hr₃.after h₂ hx hP hcount
  rw [List.nil_append] at h₁ h₂ h
  have hids := threads_ids h hne
  have hstop' : stopOf target.store.ds p2 = calls₁.length + calls₂.length := by rw [stopOf, h.time, hstop]
  obtain ⟨answers, threads, hsweep, hall⟩ := sweep_diff id (calls₁.length + 1) p2
    (fun i a => ∃ nodes last, a = ⟨i, .diff nodes last⟩ ∧
      ∃ st₁ a₁ st₂ a₂, observed x t i calls₁ = .ok (st₁, a₁) ∧
      observed x t i (calls₁ ++ calls₂) = .ok (st₂, a₂) ∧ Shows st₂.thread a₁ a₂ nodes)
    (by
      intro p hp
      have hlook : target.store.threads.lookup p.1 = some p.2 := lookup_of_mem h.follows.sorted hp
      obtain ⟨ts', nodes, last, hanswer, hshows⟩ :=
        answer_shows hx h₁ h₂ h ha₁ ha₂ (List.length_pos_of_ne_nil hne) hcount hlook hstop'
      exact ⟨ts', _, hanswer, nodes, last, rfl, hshows⟩)
  rw [hids] at hall
  refine ⟨given, s, target, answers, threads, h, rfl, hsweep, ?_, fun i hi => ?_⟩
  · rw [← hall.length_eq, List.length_range]
  · rcases Lockstep.forall₂_getElem? hall i with ⟨hnone, -⟩ | ⟨j, a, hj, ha, hshows⟩
    · exact absurd hi (by simpa using hnone)
    · rw [List.getElem?_range hi] at hj
      cases hj
      obtain ⟨nodes, last, rfl, st₁, a₁, st₂, a₂, h⟩ := hshows
      exact ⟨nodes, last, st₁, a₁, st₂, a₂, ha, h⟩

def secondCall : Bytes := request (lines (selected 1 1 1) hostFields) []

end Llprof.Link.RangeView
