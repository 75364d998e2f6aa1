import Llprof.Foundations.LittleEndian
import Llprof.Foundations.Text

namespace Llprof.FilePaths

open LittleEndian Text

/-- Where a component of a name leads from a directory, which is the list of the
components on the way from the root. -/
def enter (dir : List Bytes) (component : Bytes) : List Bytes :=
  if component = [] ∨ component = [46] then dir
  else if component = [46, 46] then dir.dropLast
  else dir ++ [component]

def resolve (dir : List Bytes) (name : Bytes) : List Bytes :=
  (name.splitOn 47).foldl enter (if name.head? = some 47 then [] else dir)

variable {name component : Bytes} {components : List Bytes}

theorem infix_of_mem_splitOn {c : UInt8} (h : component ∈ name.splitOn c) : component <:+: name := by
  induction hn : name.length using Nat.strong_induction_on generalizing name with
  | _ n ih =>
      by_cases hc : c ∈ name
      · obtain ⟨front, back, rfl, hfront⟩ := List.eq_append_cons_of_mem hc
        rw [splitOn_append_cons hfront, List.mem_cons] at h
        rcases h with rfl | h
        · exact (List.prefix_append component _).isInfix
        · have hshort : back.length < n := by
            rw [← hn, List.length_append, List.length_cons]
            omega
          have hback : back <:+: front ++ c :: back :=
            ((List.suffix_cons c back).trans (List.suffix_append _ _)).isInfix
          exact (ih _ hshort h rfl).trans hback
      · rw [splitOn_of_not_mem hc, List.mem_singleton] at h
        exact h ▸ List.infix_rfl

theorem foldl_enter_prefix (h : [46, 46] ∉ components) (dir : List Bytes) :
    dir <+: components.foldl enter dir := by
  induction components generalizing dir with
  | nil => exact List.prefix_refl dir
  | cons component components ih =>
      rw [List.mem_cons, not_or] at h
      have hstep : dir <+: enter dir component := by
        rw [enter, if_neg (Ne.symm h.1)]
        split
        · exact List.prefix_refl dir
        · exact List.prefix_append dir _
      exact hstep.trans (ih h.2 _)

/-- A name that starts in the current directory, goes into a directory of that and has no
two points in a row leads to a place below that. -/
theorem resolve_below (hcomponent : 47 ∉ component) (hname : component ≠ [] ∧ component ≠ [46]) {rest : Bytes}
    (h : ¬ [46, 46] <:+: component ++ 47 :: rest) (dir : List Bytes) :
    dir ++ [component] <+: resolve dir (46 :: 47 :: (component ++ 47 :: rest)) := by
  have hsplit : (46 :: 47 :: (component ++ 47 :: rest)).splitOn 47 =
      [46] :: component :: rest.splitOn 47 := by
    have hpoint : (47 : UInt8) ∉ [46] := by decide
    have happ : 46 :: 47 :: (component ++ 47 :: rest) = [46] ++ 47 :: (component ++ 47 :: rest) := rfl
    rw [happ, splitOn_append_cons hpoint, splitOn_append_cons hcomponent]
  have hpoints : component ≠ [46, 46] := by
    intro he
    apply h
    rw [he]
    exact (List.prefix_append _ _).isInfix
  have hrest : [46, 46] ∉ rest.splitOn 47 := by
    intro hm
    apply h
    exact (infix_of_mem_splitOn hm).trans ((List.suffix_cons _ _).trans (List.suffix_append _ _)).isInfix
  have hstart : enter dir [46] = dir := if_pos (Or.inr rfl)
  have henter : enter dir component = dir ++ [component] := by
    rw [enter, if_neg (by rintro (he | he); exact hname.1 he; exact hname.2 he), if_neg hpoints]
  rw [resolve, hsplit, if_neg (by rw [List.head?_cons]; decide), List.foldl_cons,
    List.foldl_cons, hstart, henter]
  exact foldl_enter_prefix hrest _

end Llprof.FilePaths
