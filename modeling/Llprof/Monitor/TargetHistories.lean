import Llprof.Monitor.FilledTargets
import Llprof.Monitor.GlobalPaths

namespace Llprof.Monitor.TargetHistories

open Faulting hiding store
open TreeMaps Nodes Store Ticks OrderedThreads LabelPaths NamePaths LogPaths Gathering GatheredSlices
  GlobalPaths FilledThreads FilledTargets
open OrderedStores (logOf namesOf)
open Profiler.CallTree (MethodNodeSerializedInfo)

/-- One turn of the receiving thread: the data stores that connect before it, and what
each one gives. -/
structure Turn where
  connected : Nat
  receptions : List Reception

def give : List (List Reception) → List Reception → List (List Reception)
  | rs :: gs, r :: more => (rs ++ [r]) :: give gs more
  | gs, _ => gs

def giveTurn (gs : List (List Reception)) (t : Turn) : List (List Reception) :=
  give (gs ++ List.replicate t.connected []) t.receptions

def given (turns : List Turn) : List (List Reception) := turns.foldl giveTurn []

/-- The paths of the nodes of a target that has given `rs`. -/
def historyPaths (md : List RecordMetadata) (rs : List Reception) : List NamePath :=
  (rs.flatMap callsIn).flatMap fun call => logPaths (descriptionOf md rs) (logOf call.thread rs)

def sources (md : List RecordMetadata) (gs : List (List Reception)) : List NamePath :=
  [] :: gs.flatMap (historyPaths md)

/-- Every data store that is there has made its exchange, and they all report the same
slots, of which there are some. -/
structure WellFormedTurns (md : List RecordMetadata) (turns : List Turn) : Prop where
  slots : md ≠ []
  histories : ∀ done rest, turns = done ++ rest → ∀ rs ∈ given done, WellFormedHistory md rs

def UndisturbedTurns (md : List RecordMetadata) (turns : List Turn) : Prop :=
  ∀ rs ∈ given turns, ∀ done r rest, rs = done ++ r :: rest → UndisturbedReception md done r

variable {gl : Settings} {md : List RecordMetadata} {gs : List (List Reception)}
  {rs more old : List Reception} {turns done rest : List Turn} {p : NamePath} {id : ThreadID}
  {t : TargetStore} {targets : List TargetStore}

theorem given_snoc (turns : List Turn) (t : Turn) : given (turns ++ [t]) = giveTurn (given turns) t := by
  rw [given, List.foldl_append]
  rfl

theorem give_extends (h : rs ∈ gs) (receptions : List Reception) :
    ∃ more, rs ++ more ∈ give gs receptions := by
  induction gs generalizing receptions with
  | nil => cases h
  | cons rs' gs ih =>
      cases receptions with
      | nil => exact ⟨[], by rw [List.append_nil]; exact h⟩
      | cons r receptions =>
          rw [give]
          rcases List.mem_cons.mp h with rfl | h
          · exact ⟨[r], List.mem_cons_self⟩
          · obtain ⟨more, hmore⟩ := ih h receptions
            exact ⟨more, List.mem_cons_of_mem _ hmore⟩

theorem given_extends (rest : List Turn) (h : rs ∈ given done) :
    ∃ more, rs ++ more ∈ given (done ++ rest) := by
  induction rest generalizing done rs with
  | nil => exact ⟨[], by rwa [List.append_nil, List.append_nil]⟩
  | cons t rest ih =>
      have hnext : ∃ more, rs ++ more ∈ given (done ++ [t]) := by
        rw [given_snoc]
        exact give_extends (List.mem_append_left _ h) t.receptions
      obtain ⟨more, hmore⟩ := hnext
      obtain ⟨more', hmore'⟩ := ih hmore
      refine ⟨more ++ more', ?_⟩
      rw [← List.append_assoc, ← List.singleton_append, ← List.append_assoc]
      exact hmore'

theorem UndisturbedTurns.left (h : UndisturbedTurns md (done ++ rest)) : UndisturbedTurns md done := by
  intro rs hrs before r after he
  obtain ⟨more, hmore⟩ := given_extends rest hrs
  exact h _ hmore before r (after ++ more) (by rw [he, List.append_assoc, List.cons_append])

theorem mem_historyPaths : p ∈ historyPaths md rs ↔
    ∃ id, p ∈ logPaths (descriptionOf md rs) (logOf id rs) := by
  rw [historyPaths, List.mem_flatMap]
  constructor
  · rintro ⟨call, -, hp⟩
    exact ⟨call.thread, hp⟩
  · rintro ⟨id, hp⟩
    obtain ⟨q, hq, -⟩ := mem_logPaths.mp hp
    obtain ⟨r, hr, hqr⟩ := List.mem_flatMap.mp hq
    cases r with
    | silent => cases hqr
    | drained metadata names calls =>
        obtain ⟨call, hcall, hmem⟩ := List.mem_flatMap.mp hqr
        split at hmem
        next hid => exact ⟨call, List.mem_flatMap.mpr ⟨_, hr, hcall⟩, hid ▸ hp⟩
        next => cases hmem

theorem logLink_congr {ds ds' : DataStore} (h : ds'.nameTable = ds.nameTable)
    (log : List MethodNodeSerializedInfo) : logLink ds' log = logLink ds log := by
  funext k
  simp only [logLink, DataStore.getNameFromID, h]

theorem logPaths_congr {ds ds' : DataStore} (h : ds'.nameTable = ds.nameTable)
    (log : List MethodNodeSerializedInfo) : logPaths ds' log = logPaths ds log := by
  rw [logPaths, logPaths, logLink_congr h]

theorem logPaths_described (md : List RecordMetadata) {ds : DataStore} (h : ds.nameTable = tableOf rs)
    (log : List MethodNodeSerializedInfo) : logPaths ds log =
    logPaths (descriptionOf md rs) log := logPaths_congr h log

theorem record_name {ds : DataStore} (h : WellFormedHistory md (old ++ more))
    (ht : ds.nameTable = tableOf (old ++ more)) {q : MethodNodeSerializedInfo} (hq : q ∈ logOf id old) :
    ds.getNameFromID q.nameid = (descriptionOf md old).getNameFromID q.nameid := by
  obtain ⟨name, hname⟩ := WellFormedHistory.named (fun before r after he =>
    h.receptions before r (after ++ more) (by rw [he, List.append_assoc, List.cons_append])) hq
  exact getNameFromID_kept h rfl ht hname

theorem historyPaths_later (h : WellFormedHistory md (old ++ more)) (hp : p ∈ historyPaths md old) :
    p ∈ historyPaths md (old ++ more) := by
  obtain ⟨id, hp⟩ := mem_historyPaths.mp hp
  refine mem_historyPaths.mpr ⟨id, ?_⟩
  rw [logOf_append]
  exact logPaths_more (fun _ hq => record_name h rfl hq) hp

theorem historyPaths_tail {name : LittleEndian.Bytes} (h : name :: p ∈ historyPaths md rs) :
    p = [] ∨ p ∈ historyPaths md rs := by
  obtain ⟨id, h⟩ := mem_historyPaths.mp h
  rcases logPaths_tail h with rfl | hp
  · exact Or.inl rfl
  · exact Or.inr (mem_historyPaths.mpr ⟨id, hp⟩)

theorem sources_tails (name : LittleEndian.Bytes) (p : NamePath) (h : name :: p ∈ sources md gs) :
    p ∈ sources md gs := by
  rcases List.mem_cons.mp h with he | h
  · cases he
  · obtain ⟨rs, hrs, h⟩ := List.mem_flatMap.mp h
    rcases historyPaths_tail h with rfl | h
    · exact List.mem_cons_self
    · exact List.mem_cons_of_mem _ (List.mem_flatMap.mpr ⟨rs, hrs, h⟩)

theorem sources_told (h : HashTells gl (sources md gs)) : Sources gl (sources md gs) :=
  ⟨h, sources_tails, List.mem_cons_self⟩

theorem sources_later (h : WellFormedTurns md (done ++ rest)) (hrs : rs ∈ given done)
    (hp : p ∈ historyPaths md rs) : p ∈ sources md (given (done ++ rest)) := by
  obtain ⟨more, hmore⟩ := given_extends rest hrs
  have hwf := h.histories (done ++ rest) [] (List.append_nil _).symm _ hmore
  exact List.mem_cons_of_mem _ (List.mem_flatMap.mpr ⟨_, hmore, historyPaths_later hwf hp⟩)

/-- A target whose slices are to be integrated. -/
structure Received (gl : Settings) (md : List RecordMetadata) (gs : List (List Reception))
    (rs : List Reception) (t : TargetStore) : Prop where
  history : WellFormedHistory md rs
  filled : ∃ old ∈ gs, (∃ more, rs = old ++ more) ∧ TargetFilled gl md old rs t

theorem Received.mono {gs' : List (List Reception)} (h : Received gl md gs rs t) (hs : gs ⊆ gs') :
    Received gl md gs' rs t := by
  obtain ⟨old, hold, hfilled⟩ := h.filled
  exact ⟨h.history, old, hs hold, hfilled⟩

theorem give_nil (gs : List (List Reception)) : give gs [] = gs := by cases gs <;> rfl

theorem receiveAll_nil (gl : Settings) (targets : List TargetStore) :
    receiveAll gl targets [] = .ok targets := by
  cases targets <;> rfl

theorem idle_received (h : List.Forall₂ (TargetSettled gl md) gs targets)
    (hw : ∀ rs ∈ gs, WellFormedHistory md rs) : List.Forall₂ (Received gl md gs) gs targets := by
  induction h with
  | nil => exact List.Forall₂.nil
  | @cons rs t gs targets ht hrest ih =>
      rw [List.forall_mem_cons] at hw
      have hidle := ht.idle hw.1.ne_nil
      exact List.Forall₂.cons ⟨hw.1, rs, List.mem_cons_self, ⟨[], (List.append_nil rs).symm⟩, hidle⟩
        ((ih hw.2).imp fun _ _ hr => hr.mono (List.subset_cons_self _ _))

theorem receiveAll_received (hoff : gl.leafNodeAccumulate = false)
    (h : List.Forall₂ (TargetSettled gl md) gs targets) {receptions : List Reception}
    (hw : ∀ rs ∈ give gs receptions, WellFormedHistory md rs)
    (hu : ∀ rs ∈ give gs receptions, ∀ before r after, rs = before ++ r :: after →
      UndisturbedReception md before r) :
    ∃ targets', receiveAll gl targets receptions = .ok targets' ∧
      List.Forall₂ (Received gl md gs) (give gs receptions) targets' := by
  induction h generalizing receptions with
  | nil =>
      cases receptions with
      | nil => exact ⟨[], rfl, List.Forall₂.nil⟩
      | cons r receptions => exact ⟨[], rfl, List.Forall₂.nil⟩
  | @cons rs t gs targets ht hrest ih =>
      cases receptions with
      | nil =>
          rw [give_nil] at hw ⊢
          exact ⟨t :: targets, receiveAll_nil gl _, idle_received (List.Forall₂.cons ht hrest) hw⟩
      | cons r receptions =>
          rw [give, List.forall_mem_cons] at hw hu
          obtain ⟨t', ht', hfilled⟩ := receiveLoop_filled hoff ht hw.1 (hu.1 rs r [] rfl)
          obtain ⟨targets', htargets', hreceived⟩ := ih hw.2 hu.2
          refine ⟨t' :: targets', by rw [receiveAll, ht', ok_bind, htargets']; rfl, ?_⟩
          exact List.Forall₂.cons ⟨hw.1, rs, List.mem_cons_self, ⟨[r], rfl⟩, hfilled⟩
            (hreceived.imp fun _ _ hr => hr.mono (List.subset_cons_self _ _))

theorem Received.sound (h : Received gl md gs rs t) {m : Measurement} (hm : m ∈ targetMeasurements t) :
    ∃ p, m.path = some p ∧ (p = [] ∨ p ∈ historyPaths md rs) := by
  obtain ⟨old, -, -, hfilled⟩ := h.filled
  obtain ⟨x, hx, hmx⟩ := List.mem_flatMap.mp hm
  obtain ⟨p, hp, hcases⟩ := (hfilled.threads x hx).sound hmx
  refine ⟨p, hp, hcases.imp (fun h => h) fun hmem => ?_⟩
  rw [logPaths_described md hfilled.names] at hmem
  exact mem_historyPaths.mpr ⟨x.1, hmem⟩

theorem Received.complete (h : Received gl md gs rs t) (hp : p ∈ historyPaths md rs) :
    p = [] ∨ (∃ old ∈ gs, p ∈ historyPaths md old) ∨ ∃ m ∈ targetMeasurements t, m.path = some p := by
  obtain ⟨old, hold, ⟨more, rfl⟩, hfilled⟩ := h.filled
  obtain ⟨id, hp⟩ := mem_historyPaths.mp hp
  have hthread : ∃ x ∈ t.threads, x.1 = id := by
    by_contra hnone
    have hempty := hfilled.fresh id fun x hx he => hnone ⟨x, hx, he⟩
    rw [hempty] at hp
    cases hp
  obtain ⟨x, hx, rfl⟩ := hthread
  rw [← logPaths_described md hfilled.names] at hp
  rcases (hfilled.threads x hx).complete hp with hnil | hmem | ⟨m, hm, hmp⟩
  · exact Or.inl hnil
  · have hnames : ∀ q ∈ logOf x.1 old, (descriptionOf md old).getNameFromID q.nameid =
        t.ds.getNameFromID q.nameid :=
      fun q hq => (record_name h.history hfilled.names hq).symm
    have hold' : p ∈ logPaths (descriptionOf md old) (logOf x.1 old ++ []) := logPaths_more hnames hmem
    rw [List.append_nil] at hold'
    exact Or.inr (Or.inl ⟨old, hold, mem_historyPaths.mpr ⟨_, hold'⟩⟩)
  · exact Or.inr (Or.inr ⟨m, List.mem_flatMap.mpr ⟨x, hx, hm⟩, hmp⟩)

end Llprof.Monitor.TargetHistories
