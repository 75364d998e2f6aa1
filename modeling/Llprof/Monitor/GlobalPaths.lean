import Llprof.Monitor.Gathering

namespace Llprof.Monitor.GlobalPaths

open LabelPaths TreeMaps Slots Nodes Store SlotLoops TreeShape Ticks SequenceOrder NamePaths Gathering
open LittleEndian (Bytes)

variable {gl : Settings} {ds ds' : DataStore} {src : List NamePath}
  {ms : List Measurement} {g : GlobalThreadStore} {k : NodeID} {p : NamePath}

/-- Every path that has been measured has been measured without its last name, if that
leaves any. -/
def TailsMeasured (ms : List Measurement) : Prop :=
  ∀ m ∈ ms, ∀ name q, m.path = some (name :: q) → q = [] ∨ ∃ m' ∈ ms, m'.path = some q

variable (h : Gathered gl ds src ms ds'.nameTable g) (hs : Sources gl src)

include h hs

theorem Gathered.stands_of_seq {n : RecordNode} (hk : g.ts.currentTree[k]? = some n) (hp : p ∈ src)
    (hseq : seqOf g (gnidOf gl p) = some k) : Stands gl ds ms ds'.nameTable g k p n := by
  obtain ⟨q, hq, -, hstands⟩ := h.nodes k n hk
  rw [h.numbering.unique hs hp hq hseq hstands.seq]
  exact hstands

theorem Gathered.leads (ht : TailsMeasured ms) {n : RecordNode} (hk : g.ts.currentTree[k]? = some n)
    (hp : p ∈ src) (hm : p = [] ∨ ∃ m ∈ ms, m.path = some p)
    (hstands : Stands gl ds ms ds'.nameTable g k p n) :
    Leads (nameLink ds' g.ts.currentTree) k p := by
  induction p generalizing k n with
  | nil =>
      refine leads_root ?_
      rw [nameLink, hk]
      exact if_pos hstands.placed
  | cons name q ih =>
      obtain ⟨hseq, h0, hname, hfind⟩ := hstands.placed
      have hlink : nameLink ds' g.ts.currentTree k = .below name n.parentId := by
        have hget : ds'.getNameFromID n.nodeName = name := by
          rw [DataStore.getNameFromID, hname, Std.TreeMap.getD_eq_getD_getElem?, hfind, Option.getD_some]
        rw [nameLink, hk, ← hget]
        exact if_neg h0
      have hq : q ∈ src := hs.tails _ _ hp
      obtain ⟨m, hmem, hmp⟩ := hm.resolve_left (List.cons_ne_nil _ _)
      have hmq := ht m hmem name q hmp
      have hparent : n.parentId ∈ g.ts.currentTree := by
        rcases hmq with rfl | ⟨m', hm', hmq⟩
        · rw [seqOf_root, Option.some.injEq] at hseq
          rw [← hseq]
          exact h.root
        · obtain ⟨r, -, hmr, k', hk', hseq'⟩ := h.measured m' hm'
          rw [hmq, Option.some.injEq] at hmr
          subst hmr
          rw [hseq, Option.some.injEq] at hseq'
          rw [hseq']
          exact hk'
      obtain ⟨pn, hpn⟩ := mem_iff_some.mp hparent
      exact (ih hpn hq hmq (Gathered.stands_of_seq h hs hpn hq hseq)).child hlink

theorem Gathered.path (ht : TailsMeasured ms) {n : RecordNode} (hk : g.ts.currentTree[k]? = some n) :
    ∃ p ∈ src, (p = [] ∨ ∃ m ∈ ms, m.path = some p) ∧ pathOf ds' g.ts.currentTree k = some p ∧
      Stands gl ds ms ds'.nameTable g k p n := by
  obtain ⟨p, hp, hm, hstands⟩ := h.nodes k n hk
  exact ⟨p, hp, hm, pathOf_eq_some.mpr (Gathered.leads h hs ht hk hp hm hstands), hstands⟩

theorem Gathered.unique (ht : TailsMeasured ms) (hm : p = [] ∨ ∃ m ∈ ms, m.path = some p) :
    ∃! k, pathOf ds' g.ts.currentTree k = some p := by
  have hstands {k : NodeID} (hk : pathOf ds' g.ts.currentTree k = some p) : p ∈ src ∧
      seqOf g (gnidOf gl p) = some k := by
    obtain ⟨n, hn⟩ := mem_iff_some.mp (mem_of_pathOf hk)
    obtain ⟨q, hq, -, hqk, hst⟩ := Gathered.path h hs ht hn
    rw [hk, Option.some.injEq] at hqk
    exact hqk ▸ ⟨hq, hst.seq⟩
  have hnode : ∃ k n, g.ts.currentTree[k]? = some n ∧ p ∈ src ∧ seqOf g (gnidOf gl p) = some k := by
    rcases hm with rfl | ⟨m, hmem, hmp⟩
    · obtain ⟨n, hn⟩ := mem_iff_some.mp h.root
      exact ⟨1, n, hn, hs.root, seqOf_root gl g⟩
    · obtain ⟨r, hr, hmr, k, hk, hseq⟩ := h.measured m hmem
      rw [hmp, Option.some.injEq] at hmr
      subst hmr
      obtain ⟨n, hn⟩ := mem_iff_some.mp hk
      exact ⟨k, n, hn, hr, hseq⟩
  obtain ⟨k, n, hn, hp, hseq⟩ := hnode
  refine ⟨k, pathOf_eq_some.mpr (Gathered.leads h hs ht hn hp hm (Gathered.stands_of_seq h hs hn hp hseq)),
    fun j hj => ?_⟩
  have hj := (hstands hj).2
  rw [hseq, Option.some.injEq] at hj
  exact hj.symm

end Llprof.Monitor.GlobalPaths
