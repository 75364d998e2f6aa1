import Llprof.Foundations.Stepwise
import Llprof.Profiler.Activations

namespace Llprof.Profiler.Sections

open Faulting LittleEndian Stepwise Records CallTree TreeInvariant Drains Activations

/-- The last seven bytes are taken one by one, as signed characters. -/
def hashStrLoop (s : Bytes) : Nat → Nat → Int → Int
  | 0, _, result => result
  | fuel + 1, p, result =>
      if p < s.length then
        if 8 ≤ s.length - p then
          hashStrLoop s fuel (p + 7) ((result + ofBytes ((s.drop p).take 8) * 2 ^ ((p / 7) % 7)) % 2 ^ 64)
        else
          hashStrLoop s fuel (p + 1) ((result + (s.getD p 0).toInt8.toInt * 2 ^ ((p * 8) % 7)) % 2 ^ 64)
      else
        result

def hashStr (s : Bytes) : Nat := (hashStrLoop s (s.length + 1) 0 s.length).toNat

/-- `counter` is what `g_thread_flag_key` has for the thread. The profile function of the
thread is set with it. -/
structure PyThread where
  counter : Option Int
  thread : ThreadInfo

/-- The kinds of reports that `pyllprof_tracefunc` tells apart. -/
inductive PyTrace
  | call (code : Nat)
  | exception
  | ret
  | other
  deriving DecidableEq, Repr

def pyllprofBeginProfile (g : RecordTable) (reading : Reading) (s : Bytes) (py : PyThread) :
    Run PyThread := do
  let counter := py.counter.getD 0
  require (counter + 1 < 2 ^ 31) .overflow
  let thread ← callHandler g reading (hashStr s) py.thread
  return ⟨some (counter + 1), thread⟩

def pyllprofEndProfile (g : RecordTable) (reading : Reading) (py : PyThread) : Run PyThread :=
  match py.counter with
  | none => .error .assertion
  | some counter => do
      require (0 ≤ counter - 1) .assertion
      let thread ← returnHandler g reading py.thread
      return ⟨some (counter - 1), thread⟩

def pyllprofTracefunc (g : RecordTable) (reading : Reading) (what : PyTrace) (py : PyThread) : Run PyThread :=
  match py.counter with
  | none => .error .nullDeref
  | some counter =>
      if counter = 0 then
        .ok py
      else
        match what with
        | .call code => do
            let thread ← callHandler g reading code py.thread
            return { py with thread }
        | .exception | .ret => do
            let thread ← returnHandler g reading py.thread
            return { py with thread }
        | .other => .ok py

inductive Event
  | beginProfile (s : Bytes) (reading : Reading)
  | endProfile (reading : Reading)
  | call (code : Nat) (reading : Reading)
  | ret (reading : Reading)

/-- Frames are reported once the profile function is set. -/
def Event.run (g : RecordTable) (py : PyThread) : Event → Run PyThread
  | beginProfile s reading => pyllprofBeginProfile g reading s py
  | endProfile reading => pyllprofEndProfile g reading py
  | call code reading => if py.counter = none then .ok py else pyllprofTracefunc g reading (.call code) py
  | ret reading => if py.counter = none then .ok py else pyllprofTracefunc g reading .ret py

structure Section where
  before : Nat
  node : Nat
  deriving DecidableEq, Repr

/-- A thread with the sections that are open, the innermost first. -/
structure Watched where
  python : PyThread
  sections : List Section

def Watched.current (w : Watched) : Nat := w.python.thread.currentCallNodeID

def Event.watched (g : RecordTable) (w : Watched) (e : Event) : Run Watched := do
  let python ← e.run g w.python
  match e with
  | beginProfile _ _ => return ⟨python, ⟨w.current, python.thread.currentCallNodeID⟩ :: w.sections⟩
  | endProfile _ => return ⟨python, w.sections.tail⟩
  | _ => return ⟨python, w.sections⟩

def newWatched (g : RecordTable) (threadID : Nat) : Watched := ⟨⟨none, newThread g threadID⟩, []⟩

def pathToRoot (ti : ThreadInfo) : Nat → Nat → List Nat
  | 0, _ => []
  | fuel + 1, id =>
      if id = 1 then []
      else match ti.nodeInfoArray[id]? with
        | none => []
        | some n => id :: pathToRoot ti fuel n.parentNodeId

def currentPath (ti : ThreadInfo) : List Nat := pathToRoot ti ti.nodeInfoArray.length ti.currentCallNodeID

/-- What is expected of a step: the nodes of the open sections are on the path after it,
and an end goes back to where its section began. -/
def StaysOpen (g : RecordTable) (_ : List Event) (w : Watched) (e : Event) : Prop :=
  ∀ w', e.watched g w = .ok w' → (∀ s ∈ w'.sections, s.node ∈ currentPath w'.python.thread) ∧
    ∀ reading s, e = .endProfile reading → w.sections.head? = some s → w'.current = s.before

def framesStep : List Nat → Event → List Nat
  | counts, .beginProfile _ _ => 0 :: counts
  | counts, .endProfile _ => counts.tail
  | c :: counts, .call _ _ => (c + 1) :: counts
  | c :: counts, .ret _ => (c - 1) :: counts
  | [], _ => []

def frames (events : List Event) : List Nat := events.foldl framesStep []

/-- No frame returns that was running when the innermost section began, and a section
ends when all frames have returned that were entered since. -/
def InItsFrame (done : List Event) (e : Event) : Prop :=
  match e, frames done with
  | .ret _, c :: _ => c ≠ 0
  | .endProfile _, c :: _ => c = 0
  | _, _ => True

theorem pathToRoot_root (ti : ThreadInfo) (fuel : Nat) : pathToRoot ti fuel 1 = [] := by
  cases fuel <;> simp [pathToRoot]

theorem pathToRoot_child {ti : ThreadInfo} {fuel id : Nat} {n : Shape} (hid : id ≠ 1)
    (hn : shapeAt ti id = some n) :
    pathToRoot ti (fuel + 1) id = id :: pathToRoot ti fuel n.parentNodeId := by
  obtain ⟨m, hm, rfl⟩ := shapeAt_eq_some.mp hn
  rw [pathToRoot, if_neg hid, hm]
  rfl

theorem pathToRoot_grows {ti ti' : ThreadInfo} (hT : TreeInv ti) (hgrow : Grows ti ti')
    (fuel fuel' : Nat) {id : Nat} {n : Shape} (hn : shapeAt ti id = some n) (hid : 1 ≤ id)
    (hf : id ≤ fuel) (hf' : id ≤ fuel') : pathToRoot ti' fuel' id = pathToRoot ti fuel id := by
  induction fuel generalizing fuel' id n with
  | zero => omega
  | succ fuel ih =>
      obtain ⟨fuel', rfl⟩ : ∃ f, fuel' = f + 1 := ⟨fuel' - 1, by omega⟩
      by_cases h1 : id = 1
      · rw [h1, pathToRoot_root, pathToRoot_root]
      · obtain ⟨n', hn', -, hp⟩ := hgrow id n hn
        obtain ⟨hp1, hlt, q, hq⟩ := hT.parent_node (by omega) hn
        rw [pathToRoot_child h1 hn, pathToRoot_child h1 hn', hp, ih fuel' hq hp1 (by omega) (by omega)]

theorem le_of_mem_pathToRoot {ti : ThreadInfo} (hT : TreeInv ti) {fuel id : Nat} {n : Shape}
    (hn : shapeAt ti id = some n) (hid : 1 ≤ id) {k : Nat}
    (hk : k ∈ pathToRoot ti fuel id) : 2 ≤ k ∧ k ≤ id := by
  induction fuel generalizing id n with
  | zero => cases hk
  | succ fuel ih =>
      by_cases h1 : id = 1
      · rw [h1, pathToRoot_root] at hk
        cases hk
      · obtain ⟨hp1, hlt, q, hq⟩ := hT.parent_node (by omega) hn
        rw [pathToRoot_child h1 hn] at hk
        rcases List.mem_cons.mp hk with rfl | hk
        · exact ⟨by omega, le_refl _⟩
        · have := ih hq hp1 hk
          omega

structure OnPath (ti : ThreadInfo) (path : List Nat) : Prop where
  tree : TreeInv ti
  record : RecordInv ti
  path : currentPath ti = path

variable {g : RecordTable} {reading : Reading} {ti ti' : ThreadInfo} {path : List Nat} {x : Nat}

theorem OnPath.cons (hT : TreeInv ti) {n : Shape} (h1 : ti.currentCallNodeID ≠ 1)
    (hn : shapeAt ti ti.currentCallNodeID = some n) :
    currentPath ti = ti.currentCallNodeID :: pathToRoot ti ti.nodeInfoArray.length n.parentNodeId := by
  have hc := hT.current
  obtain ⟨hp, hlt, q, hq⟩ := hT.parent_node (by omega) hn
  obtain ⟨l, hl⟩ : ∃ l, ti.nodeInfoArray.length = l + 1 := ⟨ti.nodeInfoArray.length - 1, by omega⟩
  rw [currentPath, hl, pathToRoot_child h1 hn, pathToRoot_grows hT (Grows.refl ti) l (l + 1) hq hp (by omega) (by omega)]

theorem OnPath.current (h : OnPath ti path) : ti.currentCallNodeID = path.headD 1 := by
  rw [← h.path]
  by_cases h1 : ti.currentCallNodeID = 1
  · rw [currentPath, h1, pathToRoot_root]
    rfl
  · obtain ⟨n, hn⟩ := h.tree.shape_current
    rw [OnPath.cons h.tree h1 hn]
    rfl

theorem OnPath.sorted (h : OnPath ti (x :: path)) : 2 ≤ x ∧ ∀ y ∈ path, 2 ≤ y ∧ y < x := by
  obtain ⟨n, hn⟩ := h.tree.shape_current
  have hc := h.tree.current
  have hx := h.current
  rw [List.headD_cons] at hx
  have h1 : ti.currentCallNodeID ≠ 1 := by
    intro h1
    have hpath := h.path
    rw [currentPath, h1, pathToRoot_root] at hpath
    cases hpath
  obtain ⟨hp, hlt, q, hq⟩ := h.tree.parent_node (by omega) hn
  have hpath := h.path
  rw [OnPath.cons h.tree h1 hn, List.cons.injEq] at hpath
  refine ⟨by omega, fun y hy => ?_⟩
  rw [← hpath.2] at hy
  have := le_of_mem_pathToRoot h.tree hq hp hy
  omega

theorem OnPath.call (h : OnPath ti path) (hrun : callHandler g reading x ti = .ok ti') :
    OnPath ti' (ti'.currentCallNodeID :: path) := by
  obtain ⟨hT, hR, hgrow, h2, n, hn, hp, -⟩ := callHandler_keeps h.tree h.record hrun
  refine ⟨hT, hR, ?_⟩
  obtain ⟨q, hq⟩ := h.tree.shape_current
  have hc := h.tree.current
  have hlt := hT.current.2
  have hpl := (hT.parent _ n h2 hn).2
  rw [OnPath.cons hT (by omega) hn, hp, ← h.path, currentPath,
    pathToRoot_grows h.tree hgrow ti.nodeInfoArray.length _ hq hc.1 (by omega) (by omega)]

theorem OnPath.ret (h : OnPath ti path) (hrun : returnHandler g reading ti = .ok ti') :
    OnPath ti' path.tail := by
  by_cases hcur : ti.currentCallNodeID = 1
  · rw [returnHandler, if_pos hcur] at hrun
    cases hrun
    have hnil : path = [] := by rw [← h.path, currentPath, hcur, pathToRoot_root]
    rw [hnil, List.tail_nil]
    exact hnil ▸ h
  · obtain ⟨hT, hR, hs, n, hn, hc⟩ := returnHandler_keeps h.tree h.record hcur hrun
    refine ⟨hT, hR, ?_⟩
    have hcc := h.tree.current
    have hcl := hT.current.2
    obtain ⟨hp, hlt, q, hq⟩ := h.tree.parent_node (by omega) hn
    rw [← h.path, OnPath.cons h.tree hcur hn, List.tail_cons, currentPath, hc,
      pathToRoot_grows h.tree (Grows.of_eq hs) ti.nodeInfoArray.length _ hq hp (by omega) (by omega)]

/-- A path with the open sections on it: in front of the node of a section are the frames
entered since its begin, behind it is the path that it began on. -/
def Layered : List Nat → List Section → List Nat → Prop
  | [], [], _ => True
  | c :: counts, s :: sections, path => ∃ above below, path = above ++ s.node :: below ∧ above.length = c ∧
      s.before = below.headD 1 ∧ Layered counts sections below
  | _, _, _ => False

theorem Layered.node_mem {counts : List Nat} {sections : List Section} (h : Layered counts sections path) :
    ∀ s ∈ sections, s.node ∈ path := by
  induction counts generalizing sections path with
  | nil =>
      cases sections with
      | nil => simp
      | cons s sections => exact h.elim
  | cons c counts ih =>
      cases sections with
      | nil => exact h.elim
      | cons s sections =>
          obtain ⟨above, below, rfl, -, -, hrest⟩ := h
          intro t ht
          rcases List.mem_cons.mp ht with rfl | ht
          · simp
          · have := ih hrest t ht
            simp [this]

structure Layers (done : List Event) (w : Watched) : Prop where
  counter : w.python.counter.getD 0 = w.sections.length
  path : ∃ path, OnPath w.python.thread path ∧ Layered (frames done) w.sections path

theorem newWatched_layers (g : RecordTable) (threadID : Nat) : Layers [] (newWatched g threadID) :=
  ⟨rfl, [], ⟨newThread_tree g threadID, newThread_record g threadID, pathToRoot_root _ _⟩, trivial⟩

theorem frames_snoc (done : List Event) (e : Event) : frames (done ++ [e]) = framesStep (frames done) e := by
  rw [frames, List.foldl_append]
  rfl

variable {done : List Event} {w w' : Watched} {e : Event}

theorem frame_run {py : PyThread} {n : Nat} (hc : py.counter.getD 0 = n) (handled : Run PyThread) :
    (if py.counter = none then .ok py
      else match py.counter with
        | none => .error .nullDeref
        | some counter => if counter = 0 then .ok py else handled) = if n = 0 then .ok py else handled := by
  cases hcounter : py.counter with
  | none =>
      rw [hcounter, Option.getD_none] at hc
      rw [if_pos rfl, if_pos (by omega)]
  | some c =>
      rw [hcounter, Option.getD_some] at hc
      rw [if_neg (Option.some_ne_none c)]
      exact if_congr (by omega) rfl rfl

theorem call_run {py : PyThread} {n : Nat} (hc : py.counter.getD 0 = n) (code : Nat) (reading : Reading) :
    (Event.call code reading).run g py = if n = 0 then .ok py else do
      let thread ← callHandler g reading code py.thread
      return { py with thread } := by
  rw [Event.run, pyllprofTracefunc]
  exact frame_run hc _

theorem ret_run {py : PyThread} {n : Nat} (hc : py.counter.getD 0 = n) (reading : Reading) :
    (Event.ret reading).run g py = if n = 0 then .ok py else do
      let thread ← returnHandler g reading py.thread
      return { py with thread } := by
  rw [Event.run, pyllprofTracefunc]
  exact frame_run hc _

theorem end_run {py py' : PyThread} {n : Nat} (hc : py.counter.getD 0 = n)
    (h : (Event.endProfile reading).run g py = .ok py') :
    ∃ m ti', n = m + 1 ∧ returnHandler g reading py.thread = .ok ti' ∧ py' = ⟨some (m : Int), ti'⟩ := by
  rw [Event.run, pyllprofEndProfile] at h
  cases hcounter : py.counter with
  | none =>
      rw [hcounter] at h
      cases h
  | some c =>
      rw [hcounter, Option.getD_some] at hc
      rw [hcounter] at h
      obtain ⟨_, h₀, h⟩ := bind_eq_ok.mp h
      obtain ⟨ti', hret, h⟩ := bind_eq_ok.mp h
      have := require_eq_ok.mp h₀
      cases h
      refine ⟨n - 1, ti', by omega, hret, ?_⟩
      rw [show c - 1 = ((n - 1 : Nat) : Int) by omega]

theorem watched_cases (hc : w.python.counter.getD 0 = w.sections.length) (h : e.watched g w = .ok w') :
    (∃ s reading ti', e = .beginProfile s reading ∧
      callHandler g reading (hashStr s) w.python.thread = .ok ti' ∧
        w' = ⟨⟨some (w.sections.length + 1), ti'⟩, ⟨w.current, ti'.currentCallNodeID⟩ :: w.sections⟩) ∨
      (∃ reading s rest ti', e = .endProfile reading ∧ w.sections = s :: rest ∧
        returnHandler g reading w.python.thread = .ok ti' ∧ w' = ⟨⟨some (rest.length : Int), ti'⟩, rest⟩) ∨
      (((∃ code reading, e = .call code reading) ∨ ∃ reading, e = .ret reading) ∧ w.sections = [] ∧ w' = w) ∨
      (∃ code reading s rest ti', e = .call code reading ∧ w.sections = s :: rest ∧
        callHandler g reading code w.python.thread = .ok ti' ∧ w' = ⟨⟨w.python.counter, ti'⟩, s :: rest⟩) ∨
      (∃ reading s rest ti', e = .ret reading ∧ w.sections = s :: rest ∧
        returnHandler g reading w.python.thread = .ok ti' ∧ w' = ⟨⟨w.python.counter, ti'⟩, s :: rest⟩) := by
  obtain ⟨py, sections⟩ := w
  obtain ⟨py', hrun, hret⟩ := bind_eq_ok.mp h
  cases e with
  | beginProfile s reading =>
      cases hret
      obtain ⟨_, -, hrun⟩ := bind_eq_ok.mp hrun
      obtain ⟨ti', hcall, hrun⟩ := bind_eq_ok.mp hrun
      cases hrun
      refine Or.inl ⟨s, reading, ti', rfl, hcall, ?_⟩
      dsimp only at hc ⊢
      rw [hc]
  | endProfile reading =>
      cases hret
      obtain ⟨m, ti', hm, hreturn, rfl⟩ := end_run hc hrun
      cases sections with
      | nil => cases hm
      | cons s rest =>
          cases hm
          exact Or.inr (Or.inl ⟨reading, s, rest, ti', rfl, rfl, hreturn, rfl⟩)
  | call code reading =>
      cases hret
      rw [call_run hc] at hrun
      cases sections with
      | nil =>
          cases hrun
          exact Or.inr (Or.inr (Or.inl ⟨Or.inl ⟨code, reading, rfl⟩, rfl, rfl⟩))
      | cons s rest =>
          obtain ⟨ti', hcall, hrun⟩ := bind_eq_ok.mp hrun
          cases hrun
          exact Or.inr (Or.inr (Or.inr (Or.inl ⟨code, reading, s, rest, ti', rfl, rfl, hcall, rfl⟩)))
  | ret reading =>
      cases hret
      rw [ret_run hc] at hrun
      cases sections with
      | nil =>
          cases hrun
          exact Or.inr (Or.inr (Or.inl ⟨Or.inr ⟨reading, rfl⟩, rfl, rfl⟩))
      | cons s rest =>
          obtain ⟨ti', hreturn, hrun⟩ := bind_eq_ok.mp hrun
          cases hrun
          exact Or.inr (Or.inr (Or.inr (Or.inr ⟨reading, s, rest, ti', rfl, rfl, hreturn, rfl⟩)))

theorem Layered.nil {counts : List Nat} (h : Layered counts [] path) : counts = [] := by
  cases counts with
  | nil => rfl
  | cons c counts => exact h.elim

theorem Layered.cons {counts : List Nat} {s : Section} {rest : List Section}
    (h : Layered counts (s :: rest) path) :
    ∃ c counts', counts = c :: counts' ∧ ∃ above below, path = above ++ s.node :: below ∧ above.length = c ∧
      s.before = below.headD 1 ∧ Layered counts' rest below := by
  cases counts with
  | nil => exact h.elim
  | cons c counts => exact ⟨c, counts, rfl, h⟩

theorem inItsFrame_end {c : Nat} {counts : List Nat} (h : frames done = c :: counts) :
    InItsFrame done (.endProfile reading) ↔ c = 0 := by
  simp only [InItsFrame, h]

theorem inItsFrame_ret {c : Nat} {counts : List Nat} (h : frames done = c :: counts) :
    InItsFrame done (.ret reading) ↔ c ≠ 0 := by
  simp only [InItsFrame, h]

theorem Layers.step (h : Layers done w) (he : InItsFrame done e) (hrun : e.watched g w = .ok w') :
    Layers (done ++ [e]) w' := by
  obtain ⟨hc, path, hon, hlay⟩ := h
  obtain ⟨s, reading, ti', rfl, hcall, rfl⟩ | ⟨reading, s, rest, ti', rfl, hs, hret,
    rfl⟩ | ⟨hframe, hs, rfl⟩ |
    ⟨code, reading, s, rest, ti', rfl, hs, hcall, rfl⟩ | ⟨reading, s, rest, ti', rfl, hs, hret,
      rfl⟩ := watched_cases hc hrun
  · refine ⟨by simp, _, hon.call hcall, ?_⟩
    rw [frames_snoc]
    exact ⟨[], path, rfl, rfl, hon.current, hlay⟩
  · rw [hs] at hlay
    obtain ⟨c, counts, hcounts, above, below, rfl, hlen, hbefore, hrest⟩ := hlay.cons
    have hzero : c = 0 := (inItsFrame_end hcounts).mp he
    rw [hzero, List.length_eq_zero_iff] at hlen
    subst hlen
    refine ⟨rfl, below, hon.ret hret, ?_⟩
    rw [frames_snoc, hcounts]
    exact hrest
  · refine ⟨hc, path, hon, ?_⟩
    rw [hs] at hlay
    rw [frames_snoc, hlay.nil, hs]
    obtain ⟨code, reading, rfl⟩ | ⟨reading, rfl⟩ := hframe
    · trivial
    · trivial
  · rw [hs] at hlay
    obtain ⟨c, counts, hcounts, above, below, rfl, hlen, hbefore, hrest⟩ := hlay.cons
    refine ⟨by rw [hc, hs], _, hon.call hcall, ?_⟩
    rw [frames_snoc, hcounts]
    exact ⟨ti'.currentCallNodeID :: above, below, rfl, by rw [List.length_cons, hlen], hbefore, hrest⟩
  · rw [hs] at hlay
    obtain ⟨c, counts, hcounts, above, below, rfl, hlen, hbefore, hrest⟩ := hlay.cons
    have hpos : c ≠ 0 := (inItsFrame_ret hcounts).mp he
    refine ⟨by rw [hc, hs], _, hon.ret hret, ?_⟩
    rw [frames_snoc, hcounts]
    cases above with
    | nil => exact absurd hlen.symm hpos
    | cons a above =>
        refine ⟨above, below, rfl, ?_, hbefore, hrest⟩
        rw [List.length_cons] at hlen
        omega

theorem OnPath.current_ne {above below : List Nat} (h : OnPath ti (above ++ x :: below)) :
    ti.currentCallNodeID ≠ below.headD 1 := by
  obtain ⟨y, rest, hsplit, hrest⟩ : ∃ y rest, above ++ x :: below = y :: rest ∧ ∀ z ∈ below, z ∈ rest := by
    cases above with
    | nil => exact ⟨x, below, rfl, fun _ hz => hz⟩
    | cons y above => exact ⟨y, above ++ x :: below, rfl, fun z hz => by simp [hz]⟩
  rw [hsplit] at h
  obtain ⟨hy, hsorted⟩ := h.sorted
  rw [h.current, List.headD_cons]
  cases below with
  | nil => exact (Nat.lt_of_succ_le hy).ne'
  | cons z below => exact (hsorted z (hrest z List.mem_cons_self)).2.ne'

theorem staysOpen_iff (h : Layers done w) (hrun : e.watched g w = .ok w') :
    StaysOpen g done w e ↔ InItsFrame done e := by
  have hkept (he : InItsFrame done e) : ∀ s ∈ w'.sections, s.node ∈ currentPath w'.python.thread := by
    obtain ⟨-, path, hon, hlay⟩ := h.step he hrun
    rw [hon.path]
    exact hlay.node_mem
  have hopen : StaysOpen g done w e ↔ (∀ s ∈ w'.sections, s.node ∈ currentPath w'.python.thread) ∧
      ∀ reading s, e = .endProfile reading → w.sections.head? = some s → w'.current = s.before := by
    refine ⟨fun h => h w' hrun, fun h w'' hrun' => ?_⟩
    cases hrun.symm.trans hrun'
    exact h
  rw [hopen]
  obtain ⟨hc, path, hon, hlay⟩ := h
  obtain ⟨s, reading, ti', rfl, hcall, rfl⟩ | ⟨reading, s, rest, ti', rfl, hs, hret,
    rfl⟩ | ⟨hframe, hs, rfl⟩ |
    ⟨code, reading, s, rest, ti', rfl, hs, hcall, rfl⟩ | ⟨reading, s, rest, ti', rfl, hs, hret,
      rfl⟩ := watched_cases hc hrun
  · exact iff_of_true ⟨hkept trivial, fun _ _ h => by cases h⟩ trivial
  · rw [hs] at hlay
    obtain ⟨c, counts, hcounts, above, below, rfl, hlen, hbefore, -⟩ := hlay.cons
    have hpath := hon.ret hret
    constructor
    · rintro ⟨-, hback⟩
      rw [inItsFrame_end hcounts]
      have hback : ti'.currentCallNodeID = below.headD 1 := by
        rw [← hbefore]
        exact hback reading s rfl (by rw [hs]; rfl)
      cases above with
      | nil => exact hlen.symm
      | cons a above => exact absurd hback hpath.current_ne
    · intro he
      refine ⟨hkept he, fun reading' s' _ hhead => ?_⟩
      rw [hs, List.head?_cons, Option.some.injEq] at hhead
      rw [inItsFrame_end hcounts] at he
      rw [he, List.length_eq_zero_iff] at hlen
      subst hlen
      rw [← hhead, hbefore]
      exact hpath.current
  · rw [hs] at hlay
    have hnil : frames done = [] := hlay.nil
    refine iff_of_true ⟨by simp [hs], fun _ s _ hhead => ?_⟩ ?_
    · rw [hs] at hhead
      cases hhead
    · obtain ⟨code, reading, rfl⟩ | ⟨reading, rfl⟩ := hframe <;> simp only [InItsFrame, hnil]
  · exact iff_of_true ⟨hkept trivial, fun _ _ h => by cases h⟩ trivial
  · rw [hs] at hlay
    obtain ⟨c, counts, hcounts, above, below, rfl, hlen, hbefore, -⟩ := hlay.cons
    have hpath := hon.ret hret
    constructor
    · rintro ⟨hmem, -⟩
      rw [inItsFrame_ret hcounts]
      rintro rfl
      -- the section itself is left, and its node is not behind itself
      rw [List.length_eq_zero_iff] at hlen
      subst hlen
      have hbehind := hmem s List.mem_cons_self
      rw [hpath.path] at hbehind
      exact absurd (hon.sorted.2 _ hbehind).2 (lt_irrefl _)
    · intro he
      exact ⟨hkept he, fun _ _ h => by cases h⟩

def CanFollow (done : List Event) : Event → Prop
  | .beginProfile _ _ => (frames done).length + 1 < 2 ^ 31
  | .endProfile _ => frames done ≠ []
  | _ => True

def Matched (events : List Event) : Prop := ∀ done e rest, events = done ++ e :: rest → CanFollow done e

structure Running (done : List Event) (w : Watched) : Prop where
  counter : w.python.counter.getD 0 = (frames done).length
  accounted : ∃ a, Accounted ⟨w.python.thread, []⟩ a

theorem length_framesStep_frame (counts : List Nat) (code : Nat) (reading : Reading) :
    (framesStep counts (.call code reading)).length = counts.length ∧
      (framesStep counts (.ret reading)).length = counts.length := by
  cases counts with
  | nil => exact ⟨rfl, rfl⟩
  | cons c counts => exact ⟨rfl, rfl⟩

variable {t : Nat}

theorem call_runs (hg : SingleCounter g t) (h : ∃ a, Accounted ⟨ti, []⟩ a) (reading : Reading) (x : Nat) :
    ∃ ti', callHandler g reading x ti = .ok ti' ∧ ∃ a, Accounted ⟨ti', []⟩ a := by
  obtain ⟨a, ha⟩ := h
  obtain ⟨ti', hrun⟩ := ha.call_total hg reading x
  exact ⟨ti', hrun, _, ha.call hg hrun⟩

theorem ret_runs (hg : SingleCounter g t) (h : ∃ a, Accounted ⟨ti, []⟩ a) (reading : Reading) :
    ∃ ti', returnHandler g reading ti = .ok ti' ∧ ∃ a, Accounted ⟨ti', []⟩ a := by
  obtain ⟨a, ha⟩ := h
  obtain ⟨ti', hrun⟩ := ha.ret_total hg reading
  exact ⟨ti', hrun, _, ha.ret hg hrun⟩

theorem Running.step (hg : SingleCounter g t) (h : Running done w) (he : CanFollow done e) :
    ∃ w', e.watched g w = .ok w' ∧ Running (done ++ [e]) w' := by
  obtain ⟨hc, ha⟩ := h
  rw [Event.watched]
  cases e with
  | beginProfile s reading =>
      obtain ⟨ti', hrun, ha'⟩ := call_runs hg ha reading (hashStr s)
      have hsmall : w.python.counter.getD 0 + 1 < 2 ^ 31 := by
        rw [hc]
        exact_mod_cast he
      rw [Event.run, pyllprofBeginProfile, require_of hsmall, ok_bind, hrun]
      refine ⟨_, rfl, ?_, ha'⟩
      rw [frames_snoc, hc]
      rfl
  | endProfile reading =>
      obtain ⟨ti', hrun, ha'⟩ := ret_runs hg ha reading
      have hpos : 0 < (frames done).length := List.length_pos_iff.mpr he
      rw [Event.run, pyllprofEndProfile]
      cases hcounter : w.python.counter with
      | none =>
          rw [hcounter, Option.getD_none] at hc
          omega
      | some c =>
          rw [hcounter, Option.getD_some] at hc
          dsimp only
          rw [require_of (by omega), ok_bind, hrun]
          refine ⟨_, rfl, ?_, ha'⟩
          rw [frames_snoc, framesStep, List.length_tail]
          dsimp only
          rw [Option.getD_some]
          omega
  | call code reading =>
      obtain ⟨ti', hrun, ha'⟩ := call_runs hg ha reading code
      rw [call_run hc, hrun]
      have hlen := (length_framesStep_frame (frames done) code reading).1
      by_cases hnil : (frames done).length = 0
      · rw [if_pos hnil]
        exact ⟨w, rfl, by rw [frames_snoc, hlen, hc], ha⟩
      · rw [if_neg hnil]
        exact ⟨_, rfl, by rw [frames_snoc, hlen]; exact hc, ha'⟩
  | ret reading =>
      obtain ⟨ti', hrun, ha'⟩ := ret_runs hg ha reading
      rw [ret_run hc, hrun]
      have hlen := (length_framesStep_frame (frames done) 0 reading).2
      by_cases hnil : (frames done).length = 0
      · rw [if_pos hnil]
        exact ⟨w, rfl, by rw [frames_snoc, hlen, hc], ha⟩
      · rw [if_neg hnil]
        exact ⟨_, rfl, by rw [frames_snoc, hlen]; exact hc, ha'⟩

theorem matched_runs (hg : SingleCounter g t) (threadID : Nat) {events : List Event} (h : Matched events) :
    ∃ w, events.foldlM (Event.watched g) (newWatched g threadID) = .ok w := by
  obtain ⟨w, hrun, -⟩ := foldlM_total (f := Event.watched g) Running events
    (fun done e rest w hsplit hw => hw.step hg (h done e rest hsplit))
    (s := newWatched g threadID) ⟨rfl, _, newSession_accounted hg threadID⟩
  exact ⟨w, hrun⟩

/-- The sections of a thread stay open until they end exactly if each begins and ends in
the same frame and no frame returns before the sections that began in it have ended. -/
theorem sections_stay_open_iff (g : RecordTable) (threadID : Nat) (events : List Event) (w : Watched)
    (hrun : events.foldlM (Event.watched g) (newWatched g threadID) = .ok w) :
    Throughout (Event.watched g) (StaysOpen g) (newWatched g threadID) events ↔
      ∀ done e rest, events = done ++ e :: rest → InItsFrame done e := by
  refine throughout_iff_of_ok (I := Layers) hrun (newWatched_layers g threadID)
    (fun done t e t' h he hstep => ?_) (fun done t e t' h hstep => ?_)
  · exact h.step he hstep
  · exact staysOpen_iff h hstep

theorem sections_stay_open_call :
    ∃ w, [Event.beginProfile (ascii "main") (fun _ => 1), .call 5 (fun _ => 2), .ret (fun _ => 3),
          .endProfile (fun _ => 4), .ret (fun _ => 5)].foldlM (Event.watched oneCounter)
        (newWatched oneCounter 0) = .ok w ∧
      (Throughout (Event.watched oneCounter) (StaysOpen oneCounter) (newWatched oneCounter 0)
          [.beginProfile (ascii "main") (fun _ => 1), .call 5 (fun _ => 2), .ret (fun _ => 3),
            .endProfile (fun _ => 4), .ret (fun _ => 5)] ↔
        ∀ done e rest, [Event.beginProfile (ascii "main") (fun _ => 1), .call 5 (fun _ => 2),
          .ret (fun _ => 3), .endProfile (fun _ => 4), .ret (fun _ => 5)] = done ++ e :: rest →
            InItsFrame done e) :=
  ⟨_, rfl, sections_stay_open_iff oneCounter 0 [.beginProfile (ascii "main") (fun _ => 1), .call 5 (fun _ => 2),
    .ret (fun _ => 3), .endProfile (fun _ => 4), .ret (fun _ => 5)] _ rfl⟩

/-- The function that begins a section returns before it ends, and one ends a section
that its caller began. -/
theorem section_left_open :
    ¬ Throughout (Event.watched oneCounter) (StaysOpen oneCounter) (newWatched oneCounter 0)
        [.beginProfile (ascii "test") (fun _ => 1), .ret (fun _ => 2), .endProfile (fun _ => 3)] ∧
      ¬ Throughout (Event.watched oneCounter) (StaysOpen oneCounter) (newWatched oneCounter 0)
        [.beginProfile (ascii "test") (fun _ => 1), .call 5 (fun _ => 2), .endProfile (fun _ => 3),
          .ret (fun _ => 4)] := by
  constructor
  · intro h
    have :=
      (h [.beginProfile (ascii "test") (fun _ => 1)] (.ret (fun _ => 2)) _ _ rfl rfl _ rfl).1 ⟨1, 2⟩
        (by decide)
    revert this
    decide
  · intro h
    have := (h [.beginProfile (ascii "test") (fun _ => 1), .call 5 (fun _ => 2)] (.endProfile (fun _ => 3)) _ _ rfl rfl _ rfl).2
      (fun _ => 3) ⟨1, 2⟩ rfl rfl
    revert this
    decide

end Llprof.Profiler.Sections
