import Llprof.Foundations.Faulting
import Llprof.Web.Request

namespace Llprof.Web.RequestPaths

open Faulting LittleEndian Libraries Request

abbrev FormData := Header

/-- The operation that a request comes to. `noDataStore` is the answer about a data store
that there is not, `nothing` the empty one about a word that is not known. -/
inductive Action
  | connect (host port : Bytes)
  | list
  | noDataStore
  | current (id : Int)
  | diff (id p1 p2 : Int)
  | check (id : Int)
  | nothing (id : Int)
  | dump
  deriving DecidableEq, Repr

/-- `path.size() > size && path[i] == word`. -/
def componentIs (path : List Bytes) (size i : Nat) (word : Bytes) : Run Bool :=
  if size < path.length then do
    let component ← fetch path i
    return component = word
  else
    return false

/-- A conversion that nobody catches the exception of. -/
def lexicalCast (boost : Boost) (text : Bytes) : Run Int :=
  match boost.lexicalCastInt text with
  | some value => .ok value
  | none => .error .aborted

def newRequest (boost : Boost) (data : FormData) : Run Action := do
  let connectTo := boost.splitAt 58 (data.getm (ascii "host") [])
  let connectTo := if connectTo.length = 1 then connectTo ++ [ascii "12321"] else connectTo
  let host ← fetch connectTo 0
  let service ← fetch connectTo 1
  return .connect host service

def diffRequest (boost : Boost) (path : List Bytes) (id : Int) : Run Action := do
  let p1 ← fetch path 3
  let p1 ← lexicalCast boost p1
  let p2 ← if 2 < path.length then do
      let p2 ← fetch path 4
      lexicalCast boost p2
    else
      pure 0
  return .diff id p1 p2

def treeRequest (boost : Boost) (path : List Bytes) (id : Int) : Run (Bytes × Action) := do
  if ← componentIs path 2 2 (ascii "current") then
    return (ascii "text/javascript", .current id)
  else if ← componentIs path 3 2 (ascii "diff") then
    let action ← diffRequest boost path id
    return (ascii "text/javascript", action)
  else if ← componentIs path 3 2 (ascii "check") then
    return (ascii "text/plain", .check id)
  else
    return (ascii "text/javascript", .nothing id)

/-- `DataStoreRequest` up to the operation that answers, with the mime type; `none` is the
result `false`. The keys of `gAllDataStore` are given. -/
def dataStoreRequest (boost : Boost) (dataStores : List Int) (path : List Bytes) (data : FormData) :
    Run (Option (Bytes × Action)) := do
  if ← componentIs path 0 0 (ascii "new") then
    let action ← newRequest boost data
    return some (ascii "text/javascript", action)
  else if ← componentIs path 0 0 (ascii "list") then
    return some (ascii "text/javascript", .list)
  else if ← componentIs path 1 0 (ascii "tree") then
    let component ← fetch path 1
    match boost.lexicalCastInt component with
    | none => return some (ascii "text/javascript", .noDataStore)
    | some id =>
        if id ∉ dataStores then
          return some (ascii "text/javascript", .noDataStore)
        else
          let answer ← treeRequest boost path id
          return some answer
  else if ← componentIs path 0 0 (ascii "dump") then
    return some (ascii "text/javascript", .dump)
  else
    return none

def intAt (boost : Boost) (path : List Bytes) (i : Nat) : Option Int := path[i]?.bind boost.lexicalCastInt

/-- Requests for a diff of a data store that there is, with one number at least. -/
def AsksDiff (boost : Boost) (dataStores : List Int) (path : List Bytes) : Prop :=
  path[0]? = some (ascii "tree") ∧ (∃ id ∈ dataStores, intAt boost path 1 = some id) ∧
    path[2]? = some (ascii "diff") ∧ 3 < path.length

variable {boost : Boost} {path : List Bytes}

theorem componentIs_eq {size i : Nat} (h : i ≤ size) (word : Bytes) :
    componentIs path size i word = .ok (decide (size < path.length ∧ path[i]? = some word)) := by
  by_cases hsize : size < path.length
  · have hi : path[i]? = some path[i] := List.getElem?_eq_getElem (by omega)
    simp [componentIs, hsize, fetch, hi]
  · simp [componentIs, hsize]

theorem newRequest_returns (data : FormData) : ∃ action, newRequest boost data = .ok action := by
  rcases hc : boost.splitAt 58 (data.getm (ascii "host") []) with _ | ⟨host, _ | ⟨service, rest⟩⟩
  · rw [boost.splitAt_eq] at hc
    exact absurd hc (List.splitOn_ne_nil _ _)
  · exact ⟨.connect host (ascii "12321"), by simp [newRequest, hc, fetch]⟩
  · exact ⟨.connect host service, by simp [newRequest, hc, fetch]⟩

theorem diffRequest_returns_iff (hlen : 3 < path.length) (id : Int) :
    (∃ action, diffRequest boost path id = .ok action) ↔ (intAt boost path 3).isSome ∧
      (intAt boost path 4).isSome := by
  have hthree : path[3]? = some path[3] := List.getElem?_eq_getElem hlen
  have hsize : 2 < path.length := by omega
  simp only [diffRequest, fetch, hthree, ok_bind, if_pos hsize, intAt, Option.bind_some, lexicalCast]
  cases hp1 : boost.lexicalCastInt path[3] with
  | none => simp
  | some p1 =>
      cases hfour : path[4]? with
      | none => simp
      | some text => cases hp2 : boost.lexicalCastInt text <;> simp [hp2]

theorem treeRequest_returns_iff (id : Int) :
    (∃ answer, treeRequest boost path id = .ok answer) ↔
      (path[2]? = some (ascii "diff") ∧ 3 < path.length → (intAt boost path 3).isSome ∧
        (intAt boost path 4).isSome) := by
  simp only [treeRequest, componentIs_eq (show 2 ≤ 2 from le_refl 2),
    componentIs_eq (show 2 ≤ 3 by omega), ok_bind, decide_eq_true_eq]
  by_cases hcurrent : 2 < path.length ∧ path[2]? = some (ascii "current")
  · rw [if_pos hcurrent]
    refine iff_of_true ⟨_, rfl⟩ (fun h => ?_)
    rw [hcurrent.2] at h
    exact absurd h.1 (by decide)
  · rw [if_neg hcurrent]
    by_cases hdiff : 3 < path.length ∧ path[2]? = some (ascii "diff")
    · rw [if_pos hdiff, imp_iff_right hdiff.symm, ← diffRequest_returns_iff hdiff.1 id]
      constructor
      · rintro ⟨answer, h⟩
        obtain ⟨action, ha, -⟩ := bind_eq_ok.mp h
        exact ⟨action, ha⟩
      · rintro ⟨action, ha⟩
        exact ⟨_, by rw [ha, ok_bind]; rfl⟩
    · rw [if_neg hdiff]
      refine iff_of_true ?_ (fun h => absurd h.symm hdiff)
      split <;> exact ⟨_, rfl⟩

/-- A request is answered, whatever its path is, exactly if it does not ask for a diff, or
the path goes on with two numbers. -/
theorem dataStoreRequest_returns_iff (boost : Boost) (dataStores : List Int)
    (path : List Bytes) (data : FormData) :
    (∃ answer, dataStoreRequest boost dataStores path data = .ok answer) ↔
      (AsksDiff boost dataStores path → (intAt boost path 3).isSome ∧ (intAt boost path 4).isSome) := by
  simp only [dataStoreRequest, componentIs_eq (Nat.zero_le _), ok_bind, decide_eq_true_eq]
  by_cases hnew : 0 < path.length ∧ path[0]? = some (ascii "new")
  · rw [if_pos hnew]
    obtain ⟨action, ha⟩ := newRequest_returns data
    refine iff_of_true ⟨_, by rw [ha, ok_bind]; rfl⟩ (fun h => ?_)
    rw [AsksDiff, hnew.2] at h
    exact absurd h.1 (by decide)
  rw [if_neg hnew]
  by_cases hlist : 0 < path.length ∧ path[0]? = some (ascii "list")
  · rw [if_pos hlist]
    refine iff_of_true ⟨_, rfl⟩ (fun h => ?_)
    rw [AsksDiff, hlist.2] at h
    exact absurd h.1 (by decide)
  rw [if_neg hlist]
  by_cases htree : 1 < path.length ∧ path[0]? = some (ascii "tree")
  · rw [if_pos htree]
    have hone : path[1]? = some path[1] := List.getElem?_eq_getElem htree.1
    have hint : intAt boost path 1 = boost.lexicalCastInt path[1] := by rw [intAt, hone, Option.bind_some]
    simp only [fetch, hone, ok_bind]
    cases hid : boost.lexicalCastInt path[1] with
    | none =>
        refine iff_of_true ⟨_, rfl⟩ ?_
        rintro ⟨-, ⟨id, -, h⟩, -⟩
        rw [hint, hid] at h
        cases h
    | some id =>
        by_cases hmem : id ∈ dataStores
        · have hasks : AsksDiff boost dataStores path ↔ path[2]? = some (ascii "diff") ∧ 3 < path.length :=
            ⟨fun h => h.2.2, fun h => ⟨htree.2, ⟨id, hmem, hint.trans hid⟩, h⟩⟩
          simp only [not_not.mpr hmem, if_false]
          rw [hasks, ← treeRequest_returns_iff id]
          constructor
          · rintro ⟨answer, h⟩
            obtain ⟨a, ha, -⟩ := bind_eq_ok.mp h
            exact ⟨a, ha⟩
          · rintro ⟨a, ha⟩
            exact ⟨some a, by rw [ha]; rfl⟩
        · simp only [hmem, not_false_eq_true, if_true]
          refine iff_of_true ⟨_, rfl⟩ ?_
          rintro ⟨-, ⟨id', hid', h⟩, -⟩
          rw [hint, hid, Option.some.injEq] at h
          exact absurd (h ▸ hid') hmem
  rw [if_neg htree]
  refine iff_of_true ?_ (fun h => absurd ⟨by have := h.2.2.2; omega, h.1⟩ htree)
  split <;> exact ⟨_, rfl⟩

/-- A range without its end is taken past the end of the path, and a word where a number
belongs throws. -/
theorem diff_request_escapes :
    dataStoreRequest plainBoost [1] [ascii "tree", ascii "1", ascii "diff", ascii "2"] [] =
      .error .outOfRange ∧
      dataStoreRequest plainBoost [1] [ascii "tree", ascii "1", ascii "diff", ascii "x", ascii "0"] [] =
        .error .aborted := by
  decide

end Llprof.Web.RequestPaths
