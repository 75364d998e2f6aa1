import Llprof.Monitor.AnswerFrame
import Llprof.Web.Documents

namespace Llprof.Web.TreeRequests

open Faulting hiding store
open LittleEndian JsonWriter Monitor.Nodes Monitor.Answers Monitor.DiffAnswers Monitor.Ticks
  Monitor.TickFrame Monitor.AnswerFrame Documents

inductive Request
  | current (id : Int)
  | diff (id p1 p2 : Int)
  deriving DecidableEq, Repr

def Request.id : Request → Int
  | .current id => id
  | .diff id _ _ => id

def askThread (gl : Settings) (ds : DataStore) (r : Request) (ts : ThreadStore) :
    Run (ThreadStore × ThreadAnswer) :=
  match r with
  | .current _ => threadAnswer gl ds .currentTree 0 0 ts
  | .diff _ p1 p2 => threadAnswer gl ds .diffTree p1 p2 ts

def askNext (gl : Settings) (ds : DataStore) (r : Request) (answers : List ThreadAnswer)
    (t : ThreadID × ThreadStore) : Run (List ThreadAnswer × (ThreadID × ThreadStore)) := do
  let (ts, a) ← askThread gl ds r t.2
  return (answers ++ [a], (t.1, ts))

def dumpJSON (gl : Settings) (ds : DataStore) (r : Request) (threads : Threads) : Run (Threads × Bytes) := do
  let (answers, threads) ← sweep (askNext gl ds r) threads []
  let text ← dumpDataStore ds answers []
  return (threads, text)

def noDataStore : Bytes := ascii "\x7b\x7d"

def askGlobal (gl : Settings) (g : GlobalDataStore) (r : Request) : Run (GlobalDataStore × Bytes) :=
  match g.thread with
  | none => do
      let (_, text) ← dumpJSON gl g.ds r []
      return (g, text)
  | some a => do
      let (ts, answer) ← askThread gl g.ds r a.ts
      let text ← dumpDataStore g.ds [answer] []
      return ({ g with thread := some { a with ts } }, text)

def askTarget (gl : Settings) (t : TargetStore) (r : Request) : Run (TargetStore × Bytes) := do
  let (threads, text) ← dumpJSON gl t.ds r t.threads
  return ({ t with threads }, text)

/-- The targets count from 1. -/
def targetAt (m : AllDataStore) (id : Int) : Option TargetStore :=
  if 1 ≤ id then m.targets[(id - 1).toNat]? else none

/-- The tree requests of `DataStoreRequest`. -/
def dataStoreRequest (gl : Settings) (m : AllDataStore) (r : Request) : Run (AllDataStore × Bytes) :=
  if r.id = 0 ∧ gl.singleTreeMode = true then do
    let (global, text) ← askGlobal gl m.global r
    return ({ m with global }, text)
  else match targetAt m r.id with
    | none => .ok (m, noDataStore)
    | some t => do
        let (t, text) ← askTarget gl t r
        return ({ m with targets := m.targets.set (r.id - 1).toNat t }, text)

inductive Event
  | connect
  | tick (receptions : List Reception)
  | request (r : Request)

def stepEvent (gl : Settings) (m : AllDataStore) : Event → Run (AllDataStore × List Bytes)
  | .connect => .ok ({ m with targets := m.targets ++ [newDataStore] }, [])
  | .tick receptions => do
      let m ← tick gl m receptions
      return (m, [])
  | .request r => do
      let (m, text) ← dataStoreRequest gl m r
      return (m, [text])

/-- An event of a run, or a request that is inserted into it, whose answer nobody reads. -/
inductive Item
  | event (e : Event)
  | inserted (r : Request)

def stepItem (gl : Settings) (m : AllDataStore) : Item → Run (AllDataStore × List Bytes)
  | .event e => stepEvent gl m e
  | .inserted r => do
      let (m, _) ← dataStoreRequest gl m r
      return (m, [])

def runItem (gl : Settings) (st : AllDataStore × List Bytes) (it : Item) :
    Run (AllDataStore × List Bytes) := do
  let (m, texts) ← stepItem gl st.1 it
  return (m, st.2 ++ texts)

def runItems (gl : Settings) (items : List Item) (m : AllDataStore) : Run (AllDataStore × List Bytes) :=
  items.foldlM (runItem gl) (m, [])

/-- The answers of a run of the monitor, or the fault that it ends with. -/
def answers (gl : Settings) (items : List Item) : Run (List Bytes) :=
  (runItems gl items initDataStore).map Prod.snd

def Item.isEvent : Item → Bool
  | .event _ => true
  | .inserted _ => false

def without (items : List Item) : List Item := items.filter Item.isEvent

/-- Where the slices are cleared with every tick, a diff may not begin past the current
time of its data store. -/
def Request.AsksInReach (c : Bool) (ds : DataStore) : Request → Prop
  | .current _ => True
  | .diff _ p1 p2 => c = true → InReach ds.currentTimeNumber p1 (stopOf ds p2)

def Request.AsksUpToDate (c : Bool) (ds : DataStore) : Request → Prop
  | .current _ => True
  | .diff _ p1 p2 => c = true → UpToDate ds.currentTimeNumber p1 (stopOf ds p2)

/-- The condition is about requests for targets only. -/
def Item.Meets (gl : Settings) (m : AllDataStore) : Item → Prop
  | .event (.request r) => ∀ t ∈ targetAt m r.id, r.AsksInReach (clears gl m) t.ds ∧
    r.AsksUpToDate (clears gl m) t.ds
  | .inserted r => ∀ t ∈ targetAt m r.id, r.AsksInReach (clears gl m) t.ds
  | _ => True

/-- Every request of a run meets it, in the state it comes to. -/
def AllMeet (gl : Settings) : AllDataStore → List Item → Prop
  | _, [] => True
  | m, it :: items => it.Meets gl m ∧ ∀ m' texts, stepItem gl m it = .ok (m', texts) → AllMeet gl m' items

instance (c : Bool) (ds : DataStore) (r : Request) : Decidable (r.AsksInReach c ds) :=
  match r with
  | .current _ => isTrue trivial
  | .diff _ p1 p2 => inferInstanceAs (Decidable (c = true → InReach ds.currentTimeNumber p1 (stopOf ds p2)))

instance (c : Bool) (ds : DataStore) (r : Request) : Decidable (r.AsksUpToDate c ds) :=
  match r with
  | .current _ => isTrue trivial
  | .diff _ p1 p2 => inferInstanceAs (Decidable (c = true → UpToDate ds.currentTimeNumber p1 (stopOf ds p2)))

instance (gl : Settings) (m : AllDataStore) (it : Item) : Decidable (it.Meets gl m) :=
  match it with
  | .event .connect => isTrue trivial
  | .event (.tick _) => isTrue trivial
  | .event (.request r) => inferInstanceAs (Decidable (∀ t ∈ targetAt m r.id,
      r.AsksInReach (clears gl m) t.ds ∧ r.AsksUpToDate (clears gl m) t.ds))
  | .inserted r => inferInstanceAs (Decidable (∀ t ∈ targetAt m r.id, r.AsksInReach (clears gl m) t.ds))

variable {gl : Settings} {m m' : AllDataStore} {it : Item} {items : List Item}

theorem allMeet_cons_error {e : Fault} (h : stepItem gl m it = .error e) :
    AllMeet gl m (it :: items) ↔ it.Meets gl m := by
  refine ⟨fun hall => hall.1, fun hit => ⟨hit, fun m' texts hm => ?_⟩⟩
  rw [h] at hm
  cases hm

theorem allMeet_cons_ok {texts : List Bytes} (h : stepItem gl m it = .ok (m', texts)) :
    AllMeet gl m (it :: items) ↔ it.Meets gl m ∧ AllMeet gl m' items := by
  refine ⟨fun hall => ⟨hall.1, hall.2 m' texts h⟩, fun hall => ⟨hall.1, fun m'' texts' hm => ?_⟩⟩
  rw [h] at hm
  cases hm
  exact hall.2

instance decidableAllMeet (gl : Settings) : ∀ m items, Decidable (AllMeet gl m items)
  | _, [] => isTrue trivial
  | m, it :: items =>
      match h : stepItem gl m it with
      | .error _ => decidable_of_iff' _ (allMeet_cons_error h)
      | .ok (m', _) =>
          have := decidableAllMeet gl m' items
          decidable_of_iff' _ (allMeet_cons_ok h)

/-- A `Store` finds its slice in every thread of a target, from the current time on. -/
def FindsSlices (m : AllDataStore) : Prop :=
  ∀ t ∈ m.targets, ∀ p ∈ t.threads, ∀ u, t.ds.currentTimeNumber ≤ u → (p.2.getTimeSlice u).2 ≠ none

end Llprof.Web.TreeRequests
