import Llprof.Foundations.Avoiding
import Llprof.Monitor.Store

namespace Llprof.Monitor.SlotWrites

open Faulting hiding store
open Avoiding Nodes Store

variable {gl : Settings} {ds : DataStore} {bad : Fault → Prop}

theorem avoids_updateUnless (hr : ¬ bad .outOfRange) (skip : Bool) (values : List ProfileValue) (i : Nat)
    (f : ProfileValue → ProfileValue) : Avoids bad (fun _ => True) (updateUnless skip values i f) := by
  rw [updateUnless]
  split
  · trivial
  · exact avoids_updateAt hr _ _ _

theorem defaultTemps_writes (hr : ¬ bad .outOfRange) {P : RecordNode → Prop} {node : RecordNode}
    (hwrite : ∀ n tempValues, P n → P { n with tempValues })
    (h : P node) : Avoids bad P (defaultTemps gl ds node) := by
  refine avoids_forRange _ (fun n i hn => ?_) h
  refine (avoids_fetch hr _ _).bind fun md _ => ?_
  split
  · refine (avoids_fetch hr _ _).bind fun v _ => ?_
    exact (avoids_updateAt hr _ _ _).bind fun temp _ => hwrite n temp hn
  · exact hn

theorem addTempToChildren_writes (hr : ¬ bad .outOfRange) {P : RecordNodeBasic × RecordNode → Prop}
    {tssNode : RecordNodeBasic} {destNode : RecordNode} (srcNode : RecordNode)
    (hwrite : ∀ e n tssChildren childrenValues tempValues, tssChildren.length = e.childrenValues.length →
      P (e, n) → P ({ e with childrenValues := tssChildren }, { n with childrenValues, tempValues }))
    (h : P (tssNode, destNode)) : Avoids bad P (addTempToChildren ds tssNode destNode srcNode) := by
  refine avoids_forRange _ (fun st i hst => ?_) h
  refine (avoids_fetch hr _ _).bind fun md _ => ?_
  split
  · exact hst
  · refine (avoids_fetch hr _ _).bind fun v _ => ?_
    refine (avoids_updateUnless hr _ _ _ _).bind fun destChildren _ => ?_
    refine (avoids_updateAt_length hr _ _ _).bind fun tssChildren hlen => ?_
    exact (avoids_updateUnless hr _ _ _ _).bind fun temp _ =>
      hwrite st.1 st.2 tssChildren destChildren temp hlen hst

theorem addAllValues_writes (hr : ¬ bad .outOfRange) (ha : ¬ bad .assertion)
    {P : RecordNodeBasic × RecordNode → Prop} {tssNode : RecordNodeBasic} {node : RecordNode}
    (hwrite : ∀ e n tssAll allValues, tssAll.length = e.allValues.length → P (e, n) →
      P ({ e with allValues := tssAll }, { n with allValues }))
    (h : P (tssNode, node)) : Avoids bad P (addAllValues ds tssNode node) := by
  refine avoids_forRange _ (fun st i hst => ?_) h
  refine (avoids_fetch hr _ _).bind fun all _ => ?_
  refine (avoids_require ha).bind fun _ _ => ?_
  refine (avoids_fetch hr _ _).bind fun md _ => ?_
  refine (avoids_fetch hr _ _).bind fun v _ => ?_
  refine (avoids_updateUnless hr _ _ _ _).bind fun nodeAll _ => ?_
  exact (avoids_updateAt_length hr _ _ _).bind fun tssAll hlen => hwrite st.1 st.2 tssAll nodeAll hlen hst

end Llprof.Monitor.SlotWrites
