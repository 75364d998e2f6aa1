import Llprof.Foundations.Stepwise
import Llprof.Profiler.Context
import Llprof.Wire.NameQuery

namespace Llprof.Profiler.RubyMethods

open Faulting LittleEndian Stepwise Records CallTree TreeInvariant Context Wire.NameQuery

/-- A name function is called with a nameid and with what the call passed on for it. -/
abbrev NameFunc (α : Type) := Nat → Option α → Option Bytes

def newStr (str : Option Bytes) : Bytes := str.getD (ascii "(null)")

structure NamedThread where
  thread : ThreadInfo
  names : NameTable

section Names

variable {α : Type} (nameFunc : NameFunc α) (g : RecordTable)

def addCB (table : NameTable) (key : Nat) (data : Option α) : NameTable :=
  match table[key]? with
  | none => table.insert key (newStr (nameFunc key data))
  | some _ => table

def addCallNode (nt : NamedThread) (parentNodeId nameid : Nat) (data : Option α) :
    Run (NamedThread × Nat) := do
  let (thread, id) ← CallTree.addCallNode g nt.thread parentNodeId nameid
  return (⟨thread, addCB nameFunc nt.names nameid data⟩, id)

def getChildNodeID (nt : NamedThread) (nameid : Nat) (data : Option α) : Run (NamedThread × Nat) := do
  let nodeInfo ← fetch nt.thread.nodeInfoArray nt.thread.currentCallNodeID
  match nodeInfo.children[nameid]? with
  | none => addCallNode nameFunc g nt nt.thread.currentCallNodeID nameid data
  | some c => return (nt, c)

def callHandler (reading : Reading) (nameid : Nat) (data : Option α) (nt : NamedThread) :
    Run NamedThread := do
  require (nt.thread.stop = false) .assertion
  let (nt, id) ← getChildNodeID nameFunc g { nt with thread := { nt.thread with stop := true } } nameid data
  let (thread, idx) ← getCurrentNodeInfoPair g { nt.thread with currentCallNodeID := id }
  let sinfo ← fetch thread.serializedNodeInfoArray idx
  let sinfo ← startRecord g reading sinfo
  let records ← store thread.serializedNodeInfoArray idx sinfo
  let thread ← saveStart { thread with serializedNodeInfoArray := records } sinfo.profileValue
  return { nt with thread }

/-- The constructor of `ThreadInfo` adds the root with no data for its name. -/
def newNamedThread (threadID : Nat) : NamedThread := ⟨newThread g threadID, addCB nameFunc ∅ 0 none⟩

def namesAfter (nt : NamedThread) (nameid : Nat) (data : Option α) : NameTable :=
  match nt.thread.nodeInfoArray[nt.thread.currentCallNodeID]? with
  | none => nt.names
  | some p =>
      match p.children[nameid]? with
      | none => addCB nameFunc nt.names nameid data
      | some _ => nt.names

theorem callHandler_eq (reading : Reading) (nameid : Nat) (data : Option α) (nt : NamedThread) :
    callHandler nameFunc g reading nameid data nt = do
      let thread ← CallTree.callHandler g reading nameid nt.thread
      return ⟨thread, namesAfter nameFunc nt nameid data⟩ := by
  rw [callHandler, CallTree.callHandler, enterChild, getChildNodeID, CallTree.getChildNodeID, namesAfter]
  simp only [bind_assoc, pure_bind]
  congr 1
  funext _
  cases hp : nt.thread.nodeInfoArray[nt.thread.currentCallNodeID]? with
  | none =>
      rw [fetch, hp, error_bind, error_bind]
  | some p =>
      have hfetch := fetch_eq_ok.mpr hp
      rw [hfetch, ok_bind, ok_bind]
      cases hc : p.children[nameid]? with
      | none =>
          simp only [addCallNode, bind_assoc, pure_bind, hc]
      | some c =>
          simp only [pure_bind, hc]

end Names

/-- `ruby_name_info_t`. -/
structure RubyNameInfo where
  klass : UInt64
  id : UInt64
  deriving DecidableEq, Repr

/-- The names that the interpreter has for its classes and methods. -/
structure Ruby where
  rbClass2name : UInt64 → Bytes
  rbId2name : UInt64 → Bytes

def NAMEBUF_SIZE : Nat := 64

def rrprofNameFunc (ruby : Ruby) : NameFunc RubyNameInfo := fun _ ptr =>
  match ptr with
  | none => some (ascii "(null)")
  | some info =>
      if info.klass = 0 ∧ info.id = 0 then some (ascii "(null)")
      else some ((ruby.rbClass2name info.klass ++ ascii "::" ++ ruby.rbId2name info.id).take (NAMEBUF_SIZE - 1))

def nameinfoToNameid (nameinfo : RubyNameInfo) : Nat := (nameinfo.klass * nameinfo.id).toNat

/-- What a hook is called with. `frame` is what `rb_frame_method_id_and_class` finds. -/
inductive Event
  | call (cCall : Bool) (passed : RubyNameInfo) (frame : Option RubyNameInfo) (reading : Reading)
  | ret (reading : Reading)

def nameInfo (cCall : Bool) (passed : RubyNameInfo) (frame : Option RubyNameInfo) : RubyNameInfo :=
  if cCall then passed else frame.getD ⟨0, 0⟩

def rrprofCalltreeCallHook (ruby : Ruby) (g : RecordTable) (reading : Reading)
    (cCall : Bool) (passed : RubyNameInfo) (frame : Option RubyNameInfo)
    (nt : NamedThread) : Run NamedThread :=
  let info := nameInfo cCall passed frame
  callHandler (rrprofNameFunc ruby) g reading (nameinfoToNameid info) (some info) nt

def rrprofCalltreeRetHook (g : RecordTable) (reading : Reading) (nt : NamedThread) : Run NamedThread := do
  let thread ← returnHandler g reading nt.thread
  return { nt with thread }

def Event.run (ruby : Ruby) (g : RecordTable) (nt : NamedThread) : Event → Run NamedThread
  | call cCall passed frame reading => rrprofCalltreeCallHook ruby g reading cCall passed frame nt
  | ret reading => rrprofCalltreeRetHook g reading nt

/-- A call that was made, from one node to another, and whether it created that node. -/
structure Call where
  source : Nat
  child : Nat
  method : RubyNameInfo
  created : Bool
  deriving DecidableEq, Repr

/-- A thread with the calls that were made on it. -/
structure Watched where
  state : NamedThread
  calls : List Call

def Event.watched (ruby : Ruby) (g : RecordTable) (w : Watched) (e : Event) : Run Watched := do
  let state ← e.run ruby g w.state
  match e with
  | call cCall passed frame _ =>
      let source := w.state.thread.currentCallNodeID
      let child := state.thread.currentCallNodeID
      return ⟨state, w.calls ++ [⟨source, child, nameInfo cCall passed frame, w.state.thread.nodeInfoArray.length ≤ child⟩]⟩
  | ret _ => return { w with state }

def newWatched (ruby : Ruby) (g : RecordTable) (threadID : Nat) : Watched :=
  ⟨newNamedThread (rrprofNameFunc ruby) g threadID, []⟩

/-- Calls from a node lead to one child exactly if they are of one method, and the name of
a node is that of the method whose call has created it. -/
def NeverConfused (ruby : Ruby) (w : Watched) : Prop :=
  (∀ c ∈ w.calls, ∀ d ∈ w.calls, c.source = d.source → (c.child = d.child ↔ c.method = d.method)) ∧
    ∀ c ∈ w.calls, c.created = true → ∃ n, w.state.thread.nodeInfoArray[c.child]? = some n ∧
      some (NameTable.get w.state.names n.nameid) = rrprofNameFunc ruby n.nameid (some c.method)

/-- The nameids of the calls that have not returned, and every call with those that it was
made in. -/
structure Made where
  stack : List Nat
  calls : List (List Nat × RubyNameInfo)

def Made.step (m : Made) : Event → Made
  | .call cCall passed frame _ =>
      let info := nameInfo cCall passed frame
      ⟨nameinfoToNameid info :: m.stack, m.calls ++ [(m.stack, info)]⟩
  | .ret _ => { m with stack := m.stack.tail }

def made (events : List Event) : Made := events.foldl Made.step ⟨[], []⟩

/-- Methods whose products agree have one name and are not called in one context, and a
product of zero is that of a method without a name. -/
def Distinguished (ruby : Ruby) (events : List Event) : Prop :=
  (∀ c ∈ (made events).calls, ∀ d ∈ (made events).calls, nameinfoToNameid c.2 = nameinfoToNameid d.2 →
    (c.1 = d.1 → c.2 = d.2) ∧ rrprofNameFunc ruby 0 (some c.2) = rrprofNameFunc ruby 0 (some d.2)) ∧
  ∀ c ∈ (made events).calls, nameinfoToNameid c.2 = 0 →
    rrprofNameFunc ruby 0 (some c.2) = some (ascii "(null)")

variable {g : RecordTable} {reading : Reading} {ti ti' : ThreadInfo} {x : Nat}

theorem callHandler_child (hT : TreeInv ti) (hR : RecordInv ti)
    (h : CallTree.callHandler g reading x ti = .ok ti') :
    ∃ p, ti.nodeInfoArray[ti.currentCallNodeID]? = some p ∧
      ((p.children[x]? = some ti'.currentCallNodeID ∧ ti'.nodeInfoArray.length = ti.nodeInfoArray.length) ∨
        (p.children[x]? = none ∧ ti'.currentCallNodeID = ti.nodeInfoArray.length ∧
          ti'.nodeInfoArray.length = ti.nodeInfoArray.length + 1)) := by
  obtain ⟨ti₁, ti₂, idx, r, r', n, h₁, h₂, -, -, -, rfl⟩ := HandlerCases.callHandler_eq_ok.mp h
  have hT₁ := (hT.enterChild h₁).1
  obtain ⟨-, -, hl, hc, -⟩ := pair_spec (hR.enterChild hT.current.1 h₁) hT₁.current.1 h₂
  obtain ⟨p, hp, ⟨c, hcc, rfl⟩ | ⟨hcc, rfl⟩⟩ := HandlerCases.enterChild_cases hT.current.1 h₁
  · refine ⟨p, hp, Or.inl ?_⟩
    simp only [List.length_set, hl, hc, hcc, and_self]
  · refine ⟨p, hp, Or.inr ?_⟩
    simp only [List.length_set, hl, hc, hcc, List.length_append, List.length_singleton, and_self]

def namesAbove (ti : ThreadInfo) (id : Nat) : List Nat := namesToRoot ti ti.nodeInfoArray.length id

def Placed (ti : ThreadInfo) (c : Call) : Prop :=
  2 ≤ c.child ∧ ∃ n, shapeAt ti c.child = some n ∧ n.parentNodeId = c.source ∧
    n.nameid = nameinfoToNameid c.method

structure Listed (ruby : Ruby) (calls : List Call) (names : NameTable) : Prop where
  root : names[0]? = some (ascii "(null)")
  entry : ∀ x s, names[x]? = some s → x = 0 ∧ s = ascii "(null)" ∨
    ∃ c ∈ calls, nameinfoToNameid c.method = x ∧ rrprofNameFunc ruby x (some c.method) = some s
  called : ∀ c ∈ calls, nameinfoToNameid c.method ∈ names

structure Kept (ruby : Ruby) (events : List Event) (w : Watched) : Prop where
  reached : Reached w.state.thread (made events).stack
  contexts : w.calls.map (fun c => (namesAbove w.state.thread c.source, c.method)) = (made events).calls
  placed : ∀ c ∈ w.calls, Placed w.state.thread c
  creator : ∀ id n, 2 ≤ id → shapeAt w.state.thread id = some n →
    ∃ c ∈ w.calls, c.created = true ∧ c.child = id
  listed : Listed ruby w.calls w.state.names

variable {ruby : Ruby} {events : List Event} {w w' : Watched} {e : Event}

theorem Placed.grows {c : Call} (h : Placed ti c) (hgrow : Grows ti ti') : Placed ti' c := by
  obtain ⟨h2, n, hn, hp, hx⟩ := h
  obtain ⟨n', hn', hx', hp'⟩ := hgrow _ n hn
  exact ⟨h2, n', hn', hp'.trans hp, hx'.trans hx⟩

theorem namesAbove_grows (hT : TreeInv ti) (hgrow : Grows ti ti') {id : Nat} {n : Shape}
    (hn : shapeAt ti id = some n) (hid : 1 ≤ id) : namesAbove ti' id = namesAbove ti id := by
  obtain ⟨n', hn', -, -⟩ := hgrow id n hn
  exact namesToRoot_grows hT hgrow _ _ id n hn hid (shapeAt_lt hn).le (shapeAt_lt hn').le

theorem Placed.source {c : Call} (hT : TreeInv ti) (h : Placed ti c) :
    1 ≤ c.source ∧ ∃ p, shapeAt ti c.source = some p := by
  obtain ⟨h2, n, hn, hsource, -⟩ := h
  obtain ⟨h1, -, hp⟩ := hT.parent_node h2 hn
  rw [← hsource]
  exact ⟨h1, hp⟩

theorem Kept.contexts_grow (h : Kept ruby events w) (hgrow : Grows w.state.thread ti') :
    w.calls.map (fun c => (namesAbove ti' c.source, c.method)) = (made events).calls := by
  rw [← h.contexts]
  refine List.map_congr_left fun c hc => ?_
  obtain ⟨h1, p, hp⟩ := (h.placed c hc).source h.reached.tree
  rw [namesAbove_grows h.reached.tree hgrow hp h1]

theorem made_snoc (events : List Event) (e : Event) : made (events ++ [e]) = (made events).step e := by
  rw [made, List.foldl_append]
  rfl

theorem getElem?_addCB (nameFunc : NameFunc RubyNameInfo) (table : NameTable) (key : Nat)
    (data : Option RubyNameInfo) (x : Nat) :
    (addCB nameFunc table key data)[x]? = if key = x ∧
      table[key]? = none then some (newStr (nameFunc key data)) else table[x]? := by
  rw [addCB]
  cases hk : table[key]? with
  | none =>
      simp only [Std.TreeMap.getElem?_insert, Std.compare_eq_iff_eq, and_true]
  | some s => simp

theorem mem_addCB (nameFunc : NameFunc RubyNameInfo) (table : NameTable) (key : Nat)
    (data : Option RubyNameInfo) (x : Nat) : x ∈ addCB nameFunc table key data ↔ key = x ∨ x ∈ table := by
  rw [Std.TreeMap.mem_iff_isSome_getElem?, Std.TreeMap.mem_iff_isSome_getElem?, getElem?_addCB]
  by_cases hkey : key = x
  · subst hkey
    cases hx : table[key]? <;> simp
  · simp [hkey]

theorem Kept.ret (h : Kept ruby events w) (hrun : (Event.ret reading).watched ruby g w = .ok w') :
    Kept ruby (events ++ [.ret reading]) w' := by
  obtain ⟨state, hstate, hret⟩ := bind_eq_ok.mp hrun
  obtain ⟨ti', hti, hstate⟩ := bind_eq_ok.mp hstate
  cases hstate
  cases hret
  obtain ⟨hr, hgrow⟩ := h.reached.step (.ret reading) hti
  have hshape (k : Nat) : shapeAt ti' k = shapeAt w.state.thread k := by
    by_cases hcur : w.state.thread.currentCallNodeID = 1
    · rw [returnHandler, if_pos hcur] at hti
      cases hti
      rfl
    · exact (returnHandler_keeps h.reached.tree h.reached.record hcur hti).2.2.1 k
  refine ⟨?_, ?_, fun c hc => (h.placed c hc).grows hgrow, fun id n h2 hn => ?_, h.listed⟩
  · rw [made_snoc]
    exact hr
  · rw [made_snoc]
    exact h.contexts_grow hgrow
  · rw [hshape] at hn
    exact h.creator id n h2 hn

theorem newStr_nameFunc (ruby : Ruby) (x : Nat) (info : RubyNameInfo) :
    some (newStr (rrprofNameFunc ruby x (some info))) = rrprofNameFunc ruby x (some info) := by
  by_cases h : info.klass = 0 ∧ info.id = 0 <;> simp [rrprofNameFunc, newStr, h]

section Listed

variable {calls : List Call} {names : NameTable}

theorem Listed.known (h : Listed ruby calls names) {c : Call} (hc : nameinfoToNameid c.method ∈ names) :
    Listed ruby (calls ++ [c]) names := by
  refine ⟨h.root, fun x s hxs => (h.entry x s hxs).imp_right ?_, fun d hd => ?_⟩
  · rintro ⟨d, hd, hdx⟩
    exact ⟨d, List.mem_append_left _ hd, hdx⟩
  · rcases List.mem_append.mp hd with hd | hd
    · exact h.called d hd
    · rw [List.mem_singleton.mp hd]
      exact hc

theorem Listed.asked (h : Listed ruby calls names) (c : Call) :
    Listed ruby (calls ++ [c]) (addCB (rrprofNameFunc ruby) names (nameinfoToNameid c.method) (some c.method)) := by
  refine ⟨?_, fun x s hxs => ?_, fun d hd => ?_⟩
  · rw [getElem?_addCB, if_neg, h.root]
    rintro ⟨hzero, hnone⟩
    rw [hzero, h.root] at hnone
    cases hnone
  · rw [getElem?_addCB] at hxs
    split at hxs
    · next hkey =>
        obtain ⟨rfl, -⟩ := hkey
        rw [newStr_nameFunc] at hxs
        exact Or.inr ⟨c, List.mem_append_right _ List.mem_cons_self, rfl, hxs⟩
    · exact (h.entry x s hxs).imp_right fun ⟨d, hd, hdx⟩ => ⟨d, List.mem_append_left _ hd, hdx⟩
  · rw [mem_addCB]
    rcases List.mem_append.mp hd with hd | hd
    · exact Or.inr (h.called d hd)
    · rw [List.mem_singleton.mp hd]
      exact Or.inl rfl

end Listed

theorem call_cases {cCall : Bool} {passed : RubyNameInfo} {frame : Option RubyNameInfo} {info : RubyNameInfo}
    (hinfo : nameInfo cCall passed frame = info)
    (hrun : (Event.call cCall passed frame reading).watched ruby g w = .ok w') :
    ∃ ti', CallTree.callHandler g reading (nameinfoToNameid info) w.state.thread = .ok ti' ∧
      w' = ⟨⟨ti', namesAfter (rrprofNameFunc ruby) w.state (nameinfoToNameid info) (some info)⟩,
        w.calls ++ [⟨w.state.thread.currentCallNodeID, ti'.currentCallNodeID, info,
          w.state.thread.nodeInfoArray.length ≤ ti'.currentCallNodeID⟩]⟩ := by
  obtain ⟨state, hstate, hret⟩ := bind_eq_ok.mp hrun
  simp only [Event.run, rrprofCalltreeCallHook, hinfo, callHandler_eq] at hstate
  obtain ⟨ti', hti, hstate⟩ := bind_eq_ok.mp hstate
  cases hstate
  simp only [hinfo] at hret
  cases hret
  exact ⟨ti', hti, rfl⟩

theorem Kept.call (h : Kept ruby events w) {cCall : Bool} {passed : RubyNameInfo}
    {frame : Option RubyNameInfo} (hrun : (Event.call cCall passed frame reading).watched ruby g w = .ok w') :
    Kept ruby (events ++ [.call cCall passed frame reading]) w' := by
  obtain ⟨info, hinfo⟩ : ∃ info, nameInfo cCall passed frame = info := ⟨_, rfl⟩
  obtain ⟨ti', hti, rfl⟩ := call_cases hinfo hrun
  have hT := h.reached.tree
  obtain ⟨hr, hgrow⟩ := h.reached.step (.call (nameinfoToNameid info) reading) hti
  obtain ⟨-, -, -, h2, n, hn, hp, hx⟩ := callHandler_keeps hT h.reached.record hti
  obtain ⟨p, hcur, hchild⟩ := callHandler_child hT h.reached.record hti
  have hplaced : Placed ti' ⟨w.state.thread.currentCallNodeID, ti'.currentCallNodeID, info,
      w.state.thread.nodeInfoArray.length ≤ ti'.currentCallNodeID⟩ := ⟨h2, n, hn, hp, hx⟩
  have hknown (c : Nat) (hc : p.children[nameinfoToNameid info]? = some c) :
      nameinfoToNameid info ∈ w.state.names := by
    have hps : shapeAt w.state.thread w.state.thread.currentCallNodeID = some (shape p) := by
      rw [shapeAt, hcur, Option.map_some]
    obtain ⟨hc2, m, hm, -, hmx⟩ := (hT.children _ _ hT.current.1 hps _ c).mp hc
    obtain ⟨d, hd, -, rfl⟩ := h.creator c m hc2 hm
    obtain ⟨-, m', hm', -, hmx'⟩ := h.placed d hd
    rw [hm, Option.some.injEq] at hm'
    rw [← hmx, hm', hmx']
    exact h.listed.called d hd
  have hnames : namesAfter (rrprofNameFunc ruby) w.state (nameinfoToNameid info) (some info) =
      if p.children[nameinfoToNameid info]? = none then
        addCB (rrprofNameFunc ruby) w.state.names (nameinfoToNameid info) (some info)
      else w.state.names := by
    rw [namesAfter, hcur]
    dsimp only
    cases p.children[nameinfoToNameid info]? <;> rfl
  refine ⟨?_, ?_, fun c hc => ?_, fun id m hid hm => ?_, ?_⟩
  · rw [made_snoc, Made.step, hinfo]
    exact hr
  · have hc := hT.current
    obtain ⟨q, hq⟩ := hT.shape_current
    rw [made_snoc, Made.step, hinfo, List.map_append, h.contexts_grow hgrow, List.map_singleton,
      namesAbove_grows hT hgrow hq hc.1, ← h.reached.names]
    rfl
  · rcases List.mem_append.mp hc with hc | hc
    · exact (h.placed c hc).grows hgrow
    · rw [List.mem_singleton.mp hc]
      exact hplaced
  · have hlt : id < ti'.nodeInfoArray.length := shapeAt_lt hm
    by_cases hold : id < w.state.thread.nodeInfoArray.length
    · obtain ⟨m₀, hm₀⟩ : ∃ m₀, shapeAt w.state.thread id = some m₀ := by
        rw [shapeAt, List.getElem?_eq_getElem hold]
        exact ⟨_, rfl⟩
      obtain ⟨d, hd, hcreated, hid⟩ := h.creator id m₀ hid hm₀
      exact ⟨d, List.mem_append_left _ hd, hcreated, hid⟩
    · have hnew : ti'.currentCallNodeID = w.state.thread.nodeInfoArray.length ∧
          id = ti'.currentCallNodeID := by
        obtain ⟨-, hlen⟩ | ⟨-, hcur', hlen⟩ := hchild <;> omega
      exact ⟨_, List.mem_append_right _ List.mem_cons_self, decide_eq_true hnew.1.ge, hnew.2.symm⟩
  · dsimp only
    rw [hnames]
    split
    · exact h.listed.asked ⟨_, _, info, _⟩
    · next hsome =>
        obtain ⟨c, hc⟩ := Option.ne_none_iff_exists'.mp hsome
        exact h.listed.known (hknown c hc)

theorem newWatched_kept (ruby : Ruby) (g : RecordTable) (threadID : Nat) :
    Kept ruby [] (newWatched ruby g threadID) := by
  refine ⟨newThread_reached g threadID,
    rfl, by simp [newWatched], fun id n hid hn => ?_, ⟨?_, fun x s hxs => ?_, by simp [newWatched]⟩⟩
  · have hlt : id < 2 := shapeAt_lt hn
    omega
  · change (addCB (rrprofNameFunc ruby) ∅ 0 none)[0]? = some (ascii "(null)")
    rw [getElem?_addCB, if_pos ⟨rfl, Std.TreeMap.getElem?_emptyc⟩]
    rfl
  · change (addCB (rrprofNameFunc ruby) ∅ 0 none)[x]? = some s at hxs
    rw [getElem?_addCB] at hxs
    split at hxs
    · next hkey => exact Or.inl ⟨hkey.1.symm, (Option.some.inj hxs).symm⟩
    · rw [Std.TreeMap.getElem?_emptyc] at hxs
      cases hxs

theorem run_kept {ruby : Ruby} {g : RecordTable} {threadID : Nat} {events : List Event} {w : Watched}
    (hrun : events.foldlM (Event.watched ruby g) (newWatched ruby g threadID) = .ok w) :
    Kept ruby events w := by
  refine invariant_of_run (I := Kept ruby) (Q := fun _ _ _ => True) (newWatched_kept ruby g threadID)
    (fun done w e w' _ h _ hstep => ?_) (fun _ _ _ _ _ _ => trivial) hrun
  cases e with
  | call cCall passed frame reading => exact h.call hstep
  | ret reading => exact h.ret hstep

theorem Kept.child_eq_iff (h : Kept ruby events w) {c d : Call} (hc : c ∈ w.calls) (hd : d ∈ w.calls) :
    c.child = d.child ↔ c.source = d.source ∧ nameinfoToNameid c.method = nameinfoToNameid d.method := by
  obtain ⟨hc2, n, hn, hnp, hnx⟩ := h.placed c hc
  obtain ⟨hd2, m, hm, hmp, hmx⟩ := h.placed d hd
  constructor
  · intro he
    rw [he, hm, Option.some.injEq] at hn
    rw [← hnp, ← hmp, ← hnx, ← hmx, hn]
    exact ⟨rfl, rfl⟩
  · rintro ⟨hsource, hx⟩
    obtain ⟨h1, p, hp⟩ := (h.placed c hc).source h.reached.tree
    have hchildren := h.reached.tree.children _ p h1 hp
    have hcp := (hchildren (nameinfoToNameid c.method) c.child).mpr ⟨hc2, n, hn, hnp, hnx⟩
    have hdp :=
      (hchildren (nameinfoToNameid c.method) d.child).mpr ⟨hd2, m, hm,
        hmp.trans hsource.symm, hmx.trans hx.symm⟩
    exact Option.some.inj (hcp.symm.trans hdp)

theorem Kept.source_eq_iff (h : Kept ruby events w) {c d : Call} (hc : c ∈ w.calls) (hd : d ∈ w.calls) :
    c.source = d.source ↔ namesAbove w.state.thread c.source = namesAbove w.state.thread d.source := by
  obtain ⟨hc1, p, hp⟩ := (h.placed c hc).source h.reached.tree
  obtain ⟨hd1, q, hq⟩ := (h.placed d hd).source h.reached.tree
  constructor
  · intro he
    rw [he]
  · exact namesToRoot_injective h.reached.tree _ _ _ p q hp hq hc1 hd1 (shapeAt_lt hp).le (shapeAt_lt hq).le

theorem Kept.forall_made (h : Kept ruby events w) {P : List Nat × RubyNameInfo → Prop} :
    (∀ c ∈ (made events).calls, P c) ↔ ∀ c ∈ w.calls, P (namesAbove w.state.thread c.source, c.method) := by
  rw [← h.contexts]
  exact List.forall_mem_map

theorem Kept.distinguished_iff (h : Kept ruby events w) : Distinguished ruby events ↔
    (∀ c ∈ w.calls, ∀ d ∈ w.calls, nameinfoToNameid c.method = nameinfoToNameid d.method →
      (c.source = d.source → c.method = d.method) ∧
        rrprofNameFunc ruby 0 (some c.method) = rrprofNameFunc ruby 0 (some d.method)) ∧
    ∀ c ∈ w.calls, nameinfoToNameid c.method = 0 →
      rrprofNameFunc ruby 0 (some c.method) = some (ascii "(null)") := by
  rw [Distinguished, h.forall_made, h.forall_made]
  refine and_congr_left' (forall₂_congr fun c hc => ?_)
  rw [h.forall_made]
  refine forall₂_congr fun d hd => ?_
  rw [h.source_eq_iff hc hd]

theorem Kept.node (h : Kept ruby events w) {c : Call} (hc : c ∈ w.calls) :
    ∃ n, w.state.thread.nodeInfoArray[c.child]? = some n ∧ n.nameid = nameinfoToNameid c.method := by
  obtain ⟨-, n, hn, -, hx⟩ := h.placed c hc
  obtain ⟨m, hm, rfl⟩ := shapeAt_eq_some.mp hn
  exact ⟨m, hm, hx⟩

theorem Kept.get_of_neverConfused (h : Kept ruby events w) (hnever : NeverConfused ruby w)
    {c : Call} (hc : c ∈ w.calls) :
    some (NameTable.get w.state.names (nameinfoToNameid c.method)) =
      rrprofNameFunc ruby 0 (some c.method) := by
  obtain ⟨h2, n, hn, -, -⟩ := h.placed c hc
  obtain ⟨d, hd, hcreated, hchild⟩ := h.creator c.child n h2 hn
  obtain ⟨hsource, hx⟩ := (h.child_eq_iff hd hc).mp hchild
  obtain ⟨m, hm, hget⟩ := hnever.2 d hd hcreated
  obtain ⟨m', hm', hmx⟩ := h.node hd
  rw [hm, Option.some.injEq] at hm'
  rw [hm', hmx, hx] at hget
  rw [hget, (hnever.1 d hd c hc hsource).mp hchild]
  rfl

theorem Kept.get_eq (h : Kept ruby events w) {c : Call} (hc : c ∈ w.calls) :
    nameinfoToNameid c.method = 0 ∧ NameTable.get w.state.names (nameinfoToNameid c.method) = ascii "(null)" ∨
      ∃ d ∈ w.calls, nameinfoToNameid d.method = nameinfoToNameid c.method ∧
        some (NameTable.get w.state.names (nameinfoToNameid c.method)) =
          rrprofNameFunc ruby 0 (some d.method) := by
  have hmem := h.listed.called c hc
  rw [Std.TreeMap.mem_iff_isSome_getElem?, Option.isSome_iff_exists] at hmem
  obtain ⟨s, hs⟩ := hmem
  rw [NameTable.get, hs, Option.getD_some]
  obtain ⟨hzero, hnull⟩ | ⟨d, hd, hx, hname⟩ := h.listed.entry _ s hs
  · exact Or.inl ⟨hzero, hnull⟩
  · exact Or.inr ⟨d, hd, hx, hname.symm⟩

theorem Kept.neverConfused_iff (h : Kept ruby events w) :
    NeverConfused ruby w ↔ Distinguished ruby events := by
  rw [h.distinguished_iff]
  constructor
  · intro hnever
    refine ⟨fun c hc d hd hx => ⟨fun hsource => ?_, ?_⟩, fun c hc hzero => ?_⟩
    · exact (hnever.1 c hc d hd hsource).mp ((h.child_eq_iff hc hd).mpr ⟨hsource, hx⟩)
    · rw [← h.get_of_neverConfused hnever hc, ← h.get_of_neverConfused hnever hd, hx]
    · rw [← h.get_of_neverConfused hnever hc, hzero, NameTable.get, h.listed.root]
      rfl
  · rintro ⟨hpairs, hzeros⟩
    refine ⟨fun c hc d hd hsource => ?_, fun c hc _ => ?_⟩
    · rw [h.child_eq_iff hc hd]
      constructor
      · rintro ⟨-, hx⟩
        exact (hpairs c hc d hd hx).1 hsource
      · intro hmethod
        exact ⟨hsource, by rw [hmethod]⟩
    · obtain ⟨n, hn, hx⟩ := h.node hc
      refine ⟨n, hn, ?_⟩
      rw [hx]
      obtain ⟨hzero, hnull⟩ | ⟨d, hd, hdx, hname⟩ := h.get_eq hc
      · rw [hnull]
        exact (hzeros c hc hzero).symm
      · rw [hname]
        exact (hpairs d hd c hc hdx).2

/-- The methods of a run are never confused exactly if products that agree modulo 2^64 are
those of one method where the calls were made in one context, have one name anywhere, and are
zero for a method without a name only. -/
theorem methods_never_confused_iff (ruby : Ruby) (g : RecordTable) (threadID : Nat)
    (events : List Event) (w : Watched)
    (hrun : events.foldlM (Event.watched ruby g) (newWatched ruby g threadID) = .ok w) :
    NeverConfused ruby w ↔ Distinguished ruby events := (run_kept hrun).neverConfused_iff

/-- Classes are named by a letter, methods by another one. -/
def letters : Ruby := ⟨fun klass => [65 + klass.toUInt8], fun id => [97 + id.toUInt8]⟩

/-- A method, a second one called from it, and a third one. -/
def threeMethods : List Event :=
  [.call false ⟨0, 0⟩ (some ⟨8, 3⟩) (fun _ => 1), .call true ⟨16, 5⟩ none (fun _ => 2),
    .ret (fun _ => 3), .ret (fun _ => 4), .call false ⟨0, 0⟩ (some ⟨8, 4⟩) (fun _ => 5)]

theorem methods_never_confused_three :
    ∃ w, threeMethods.foldlM (Event.watched letters oneCounter) (newWatched letters oneCounter 0) = .ok w ∧
      (NeverConfused letters w ↔ Distinguished letters threeMethods) :=
  ⟨_, rfl, methods_never_confused_iff letters oneCounter 0 threeMethods _ rfl⟩

def equalProducts : List Event :=
  [.call false ⟨0, 0⟩ (some ⟨8, 6⟩) (fun _ => 1), .ret (fun _ => 2),
    .call false ⟨0, 0⟩ (some ⟨16, 3⟩) (fun _ => 3)]

theorem methods_confused :
    ∃ w, equalProducts.foldlM (Event.watched letters oneCounter) (newWatched letters oneCounter 0) = .ok w ∧
      ¬ NeverConfused letters w := by
  refine ⟨_, rfl, fun h => ?_⟩
  have := (h.1 ⟨1, 2, ⟨8, 6⟩, true⟩ (by decide) ⟨1, 2, ⟨16, 3⟩, false⟩ (by decide) rfl).mp rfl
  revert this
  decide

end Llprof.Profiler.RubyMethods
