import Llprof.Link.Connection

namespace Llprof.Link.EndToEnd

open Faulting hiding store
open LittleEndian Streams Profiler.Records Profiler.CallTree Profiler.Drains Profiler.Cuts
  Profiler.Activations Profiler.Threads Profiler.TwoPhaseDrains Profiler.RecordInfo Wire.Network Wire.Framing
  Wire.NameQuery Wire.ProfileData Wire.DrainMessages Wire.NameReply Wire.RecordBytes Monitor.Nodes
  Monitor.RunTotals Metadata ReceiveLoop Mirror WireTick InterleavedRequest MirroredThreads Connection

/-- The part of the profiled program in some calls: what it sends in each of them. -/
def serve (g : RecordTable) : List (List Meanwhile) → World → Run (List (List Sending) × World)
  | [], w => return ([], w)
  | schedule :: schedules, w => do
      let (sendings, w) ← request g schedule w
      let (sent, w) ← serve g schedules w
      return (sendings :: sent, w)

/-- What goes on in the program, with drains in one piece. -/
def eventsOfServe (g : RecordTable) : List (List Meanwhile) → World → List WorldEvent
  | [], _ => []
  | schedule :: schedules, w =>
      match request g schedule w with
      | .error _ => []
      | .ok (_, w') => linear 0 w'.threads.length schedule ++ eventsOfServe g schedules w'

/-- Each request for names fits the buffer of the program. -/
def FewNames : List Nat → List (List Sending) → Prop
  | _, [] => True
  | seen, sendings :: sent =>
      (newNameids seen sendings).length < 8191 ∧ FewNames (seen ++ nameidsOf sendings) sent

/-- Each answer fits the buffer of the program. -/
def ShortNames : List Nat → List Call → List (List Sending) → Prop
  | seen, a :: calls, sendings :: sent =>
      (Wire.NameReply.lines a.names (newNameids seen sendings)).length ≤ nameBufSize ∧
        ShortNames (seen ++ nameidsOf sendings) calls sent
  | _, _, _ => True

/-- The name of a method at the call in which it is sent for the first time. -/
def nameFirst (y : NameID) : List Call → List (List Sending) → Option Bytes
  | a :: calls, sendings :: sent =>
      if y ∈ nameidsOf sendings then some (NameTable.get a.names y) else nameFirst y calls sent
  | _, _ => none

def Named (P : NameID → Bytes → Prop) : List Nat → List Call → List (List Sending) → Prop
  | seen, a :: calls, sendings :: sent =>
      ((newNameids seen sendings).length < 8191 ∧ Takes P a.names (newNameids seen sendings)) ∧
        Named P (seen ++ nameidsOf sendings) calls sent
  | _, _, _ => True

def isHandler : Event → Bool
  | .handler _ => true
  | .drain _ => false

def upToDrain (es : List Event) : List Event := es.rdropWhile isHandler

structure Advances (n : Nat) (target target' : Target) (given given' : Nat → List Monitor.Runs.Delivery) :
    Prop where
  first : target.store.firstReceived = true ∨ 0 < n → target'.store.firstReceived = true
  time : target'.store.ds.currentTimeNumber = target.store.ds.currentTimeNumber + n
  more : ∀ i, ∃ more, given' i = given i ++ more ∧ ∀ d ∈ more, target.store.ds.currentTimeNumber < d.time

variable {x : Setup} {t i : Nat} {sweep : Sweep} {es : List Event}

theorem drainsIn_sweepOf (i : Nat) (sent : List Delivery) : drainsIn i (sweepOf sent) = drainedOf i sent := by
  rw [drainsIn, sweepOf, List.filter_map, List.map_map]
  rfl

theorem drainsIn_of_nodup (h : (sweep.map Prod.fst).Nodup) {e : Nat × Drained} (he : e ∈ sweep) :
    drainsIn e.1 sweep = [e.2] := by
  induction sweep with
  | nil => cases he
  | cons f sweep ih =>
      rw [List.map_cons, List.nodup_cons] at h
      rcases List.mem_cons.mp he with rfl | he
      · have hrest : sweep.filter (fun f => f.1 = e.1) = [] := by
          rw [List.filter_eq_nil_iff]
          intro f hf hfe
          exact h.1 (of_decide_eq_true hfe ▸ List.mem_map_of_mem hf)
        rw [drainsIn, List.filter_cons_of_pos (by simp), hrest]
        rfl
      · have hne : f.1 ≠ e.1 := by
          intro hfe
          exact h.1 (hfe ▸ List.mem_map_of_mem he)
        rw [drainsIn, List.filter_cons_of_neg (by simpa using hne)]
        exact ih h.2 he

theorem drainCount_steps (i : Nat) (steps : List Step) :
    drainCount (eventsOf i (eventsOfSteps steps)) = 0 := by
  induction steps with
  | nil => rfl
  | cons a steps ih =>
      cases a with
      | spawn => exact ih
      | handler k h =>
          by_cases hk : k = i
          · have hcons : eventsOf i (eventsOfSteps (.handler k h :: steps)) =
                .handler h :: eventsOf i (eventsOfSteps steps) := by
              simp [eventsOf, eventsOfSteps, Step.event, WorldEvent.of?, hk]
            rw [hcons, ← List.singleton_append, drainCount_append, ih]
            rfl
          · have hcons : eventsOf i (eventsOfSteps (.handler k h :: steps)) =
                eventsOf i (eventsOfSteps steps) := by
              simp [eventsOf, eventsOfSteps, Step.event, WorldEvent.of?, hk]
            rw [hcons, ih]

theorem drainCount_linear (i j m : Nat) (schedule : List Meanwhile) :
    drainCount (eventsOf i (linear j m schedule)) ≤ if j ≤ i then 1 else 0 := by
  induction schedule using List.twoStepInduction generalizing j m with
  | nil =>
      cases m <;> exact Nat.zero_le _
  | singleton a =>
      have hsteps := drainCount_steps i a.before
      cases m <;> exact hsteps.le.trans (Nat.zero_le _)
  | cons_cons a b schedule ih _ =>
      cases m with
      | zero => exact (drainCount_steps i a.before).le.trans (Nat.zero_le _)
      | succ m =>
          have hrest := ih (j + 1) m
          rw [linear, eventsOf_append, drainCount_append, drainCount_steps,
            ← List.singleton_append, eventsOf_append,
            drainCount_append, eventsOf_append, drainCount_append, drainCount_steps]
          by_cases hj : j = i
          · subst hj
            have hone : drainCount [.drain b.reading] = 1 := rfl
            rw [eventsOf_self, hone]
            rw [if_neg (by omega)] at hrest
            rw [if_pos le_rfl]
            omega
          · have hnone : drainCount [] = 0 := rfl
            rw [eventsOf_other hj, hnone]
            split at hrest <;> split <;> omega

theorem drainCount_serve (g : RecordTable) (i : Nat) (schedules : List (List Meanwhile)) (w : World) :
    drainCount (eventsOf i (eventsOfServe g schedules w)) ≤ schedules.length := by
  induction schedules generalizing w with
  | nil => exact Nat.zero_le _
  | cons schedule schedules ih =>
      rw [eventsOfServe]
      split
      next => exact Nat.zero_le _
      next sendings w' hreq =>
        have hlinear := drainCount_linear i 0 w'.threads.length schedule
        have hrest := ih w'
        rw [if_pos (Nat.zero_le i)] at hlinear
        rw [eventsOf_append, drainCount_append, List.length_cons]
        omega

theorem exists_last_drain (h : 0 < drainCount es) :
    ∃ front reading later, es = front ++ .drain reading :: later ∧ drainCount later = 0 := by
  induction es using List.reverseRecOn with
  | nil => exact absurd h (Nat.lt_irrefl 0)
  | append_singleton es e ih =>
      cases e with
      | drain reading => exact ⟨es, reading, [], rfl, rfl⟩
      | handler hd =>
          have hnone : drainCount [.handler hd] = 0 := rfl
          rw [drainCount_append, hnone, Nat.add_zero] at h
          obtain ⟨front, reading, later, rfl, hlater⟩ := ih h
          refine ⟨front, reading, later ++ [.handler hd], by rw [List.append_assoc]; rfl, ?_⟩
          rw [drainCount_append, hlater, hnone]

theorem observeEvents_run {st : Session} {a : Activity} (h : observeEvents x.g t i es = .ok (st, a)) :
    runEvents x.g (newSession x.g i) es = .ok st := by
  induction es using List.reverseRecOn generalizing st a with
  | nil =>
      cases h
      rfl
  | append_singleton es e ih =>
      rw [observeEvents, foldlM_append_ok] at h
      obtain ⟨⟨st₁, a₁⟩, h₁, he⟩ := h
      rw [List.foldlM_cons, bind_eq_ok] at he
      obtain ⟨⟨st₂, a₂⟩, he, hend⟩ := he
      cases hend
      simp only [Event.observed, bind_eq_ok, pure_eq_ok, Except.ok.injEq, Prod.mk.injEq] at he
      obtain ⟨st₃, he, rfl, -⟩ := he
      rw [runEvents, foldlM_append_ok]
      exact ⟨st₁, ih h₁, by rw [List.foldlM_cons, he]; rfl⟩

theorem upToDrain_eq {front later : List Event} {reading : Reading} (h : drainCount later = 0) :
    upToDrain (front ++ .drain reading :: later) = front ++ [.drain reading] := by
  induction later using List.reverseRecOn with
  | nil => exact List.rdropWhile_concat_neg _ _ _ Bool.false_ne_true
  | append_singleton later e ih =>
      rw [drainCount_append] at h
      cases e with
      | drain reading =>
          have hone : drainCount [.drain reading] = 1 := rfl
          omega
      | handler hd =>
          rw [← List.cons_append, ← List.append_assoc, upToDrain, List.rdropWhile_concat_pos _ _ _ rfl]
          exact ih (by omega)

theorem upToDrain_nil (h : drainCount es = 0) : upToDrain es = [] := by
  rw [upToDrain, List.rdropWhile_eq_nil_iff]
  intro e he
  cases e with
  | handler hd => rfl
  | drain reading => exact absurd rfl (List.countP_eq_zero.mp h _ he)

theorem upToDrain_accounted (hc : SingleCounter x.g t) {st₂ : Session}
    (hrun : runEvents x.g (newSession x.g i) es = .ok st₂) (hcount : drainCount es < 2 ^ 32 - 1) :
    ∃ st a, observeEvents x.g t i (upToDrain es) = .ok (st, a) ∧ Accounted st a ∧
      st.thread.serializedNodeInfoArray = [] ∧ st.drained = st₂.drained := by
  obtain ⟨new, hnew, hlen, -⟩ := @runEvents_drained x.g (newThread x.g i) st₂ es [] hrun
  rw [List.nil_append] at hnew
  rcases Nat.eq_zero_or_pos (drainCount es) with hnone | hsome
  · obtain ⟨st, a, hobserve, hacc, -⟩ := observeEvents_accounted hc i [] (by decide)
    rw [hnone, List.length_eq_zero_iff] at hlen
    rw [upToDrain_nil hnone, hnew, hlen]
    refine ⟨st, a, hobserve, hacc, ?_⟩
    cases hobserve
    exact ⟨rfl, rfl⟩
  · obtain ⟨front, reading, later, rfl, hlater⟩ := exists_last_drain hsome
    have hsplit : front ++ .drain reading :: later = (front ++ [.drain reading]) ++ later := by
      rw [List.append_assoc, List.singleton_append]
    rw [hsplit, drainCount_append, hlater] at hcount
    rw [hsplit] at hrun
    obtain ⟨st, a, hobserve, hacc, hlive⟩ := observeEvents_drained hc i front reading hcount
    obtain ⟨st₁, hst₁, hrest⟩ := runEvents_append.mp hrun
    obtain rfl := Except.ok.inj (hst₁.symm.trans (observeEvents_run hobserve))
    obtain ⟨more, hmore, hmoreLen, -⟩ := @runEvents_drained x.g st₁.thread st₂ later st₁.drained hrest
    rw [hlater, List.length_eq_zero_iff] at hmoreLen
    rw [hmoreLen, List.append_nil] at hmore
    rw [upToDrain_eq hlater]
    exact ⟨st₁, a, hobserve, hacc, hlive, hmore.symm⟩

theorem payload_fitting {m : Sending} (h : Fitting 2 m) : m.message.payload.length < 2 ^ 31 - 8 := by
  obtain ⟨msgType, threadId, buffer⟩ := m
  obtain ⟨-, hbuf⟩ := h
  have hlen : (Sending.message ⟨msgType, threadId, buffer⟩).payload.length = 8 + buffer.bytes.length := by
    rw [Sending.message, Outgoing.payload, List.length_append, length_toBytes]
  rw [hlen]
  cases buffer with
  | records batch =>
      obtain ⟨hrec, hshort⟩ := hbuf
      have hbytes := length_records hrec
      rw [List.flatMap_def] at hbytes
      rw [Buffer.bytes, hbytes]
      omega
  | nowInfo values =>
      have hcount := NowFits.count hbuf
      rw [Buffer.bytes, nowInfoBytes, List.length_append, length_toBytes, length_values, hcount]
      omega

theorem last_session (hc : SingleCounter x.g t) {evs : List WorldEvent} {s : System}
    (hrun : runWorld x.g evs = .ok s) (i : Nat) (hcount : drainCount (eventsOf i evs) < 2 ^ 32 - 1) :
    ∃ st a, observeEvents x.g t i (upToDrain (eventsOf i evs)) = .ok (st, a) ∧ Accounted st a ∧
      st.thread.serializedNodeInfoArray = [] ∧ st.drained = drainsIn i (sweepOf s.sent) := by
  have htracked := runWorld_tracked hrun
  obtain ⟨st₂, hst₂, hdrains⟩ : ∃ st₂, runEvents x.g (newSession x.g i) (eventsOf i evs) = .ok st₂ ∧
      st₂.drained = drainsIn i (sweepOf s.sent) := by
    rw [drainsIn_sweepOf]
    by_cases hi : i < s.world.threads.length
    · obtain ⟨st, hst, ha⟩ := htracked.alone i _ (List.getElem?_eq_getElem hi)
      exact ⟨st, hst, ha.drained⟩
    · obtain ⟨hnone, hsent⟩ := htracked.absent i (Nat.not_lt.mp hi)
      rw [hnone, hsent]
      exact ⟨_, rfl, rfl⟩
  obtain ⟨st, a, hobserve, hacc, hlive, hsame⟩ := upToDrain_accounted hc hst₂ hcount
  exact ⟨st, a, hobserve, hacc, hlive, hsame.trans hdrains⟩

theorem drawn_of_run (hc : SingleCounter x.g t) {evs : List WorldEvent} {s : System}
    (hrun : runWorld x.g evs = .ok s) (hi : i < s.world.threads.length)
    (hcount : drainCount (eventsOf i evs) < 2 ^ 32 - 1) : Drawn (drainsIn i (sweepOf s.sent)) := by
  obtain ⟨st, hst, ha⟩ := (runWorld_tracked hrun).alone i _ (List.getElem?_eq_getElem hi)
  obtain ⟨st', a, hobserve, hacc, -⟩ := observeEvents_accounted hc i (eventsOf i evs) hcount
  obtain rfl := Except.ok.inj (hst.symm.trans (observeEvents_run hobserve))
  exact ⟨st, a, hacc, by rw [drainsIn_sweepOf, ha.drained]⟩

variable {done : List WorldEvent} {s : System} {seen : List Nat} {target : Target} {a : Call}
  {sendings : List Sending} {w : World} {P : NameID → Bytes → Prop} {given : Nat → List Monitor.Runs.Delivery}

/-- What both programs are and what the monitor is used for. -/
structure Usual (x : Setup) (t : Nat) : Prop where
  counter : SingleCounter x.g t
  word : IsWord (nameOf x.g t)
  socket : 0 < x.socket
  accumulate : x.gl.leafNodeAccumulate = false
  single : x.gl.singleTreeMode = false
  info : ∀ info, infoMessages x false = .ok info → ∀ m ∈ info, m.payload.length < 2 ^ 31 - 8

theorem payload_reply (hx : Usual x t) (reply : Outgoing)
    (hfit : ∀ m ∈ sendingsOf sweep, Fitting 2 m) (first : Bool) :
    ∀ m ∈ (if first then [] else (replyOf x t sweep reply).exchange) ++ replyTo (sendingsOf sweep),
      m.payload.length < 2 ^ 31 - 8 := by
  intro m hm
  rcases List.mem_append.mp hm with hm | hm
  · cases first with
    | true => cases hm
    | false => exact hx.info _ (infoMessages_eq hx.counter sweep reply false) m hm
  · rcases List.mem_append.mp hm with hm | hm
    · obtain ⟨m', hm', rfl⟩ := List.mem_map.mp hm
      exact payload_fitting (hfit m' hm')
    · obtain rfl := List.mem_singleton.mp hm
      decide

theorem messages_reply (target : Target) (r : Reply) :
    ((if target.store.firstReceived then [] else r.exchange) ++ replyTo (sendingsOf r.sweep)).map received ++
        (if r.asked target.store.ds.nameTable = [] then [] else [received r.names]) =
          (r.messages target).map received := by
  have hnames : (if r.asked target.store.ds.nameTable = [] then [] else [received r.names]) =
      (if r.asked target.store.ds.nameTable = [] then [] else [r.names]).map received := by
    split <;> rfl
  rw [hnames, Reply.messages, Reply.request, replyTo_sweep, ← List.map_append,
    List.append_assoc, List.append_assoc]
  rfl

theorem run_call (hx : Usual x t) {reply : Outgoing} (hk : a.kernel.Partial)
    (hreq : request x.g a.schedule s.world = .ok (sendingsOf sweep, w))
    (hfit : ∀ m ∈ sendingsOf sweep, Fitting 2 m) (hgenuine : Genuine target (replyOf x t sweep reply))
    (hanswer : answerQuery x a (if (replyOf x t sweep reply).asked target.store.ds.nameTable = [] then []
      else 0 :: (replyOf x t sweep reply).asked target.store.ds.nameTable) =
        .ok (if (replyOf x t sweep reply).asked target.store.ds.nameTable = [] then [] else [received reply]))
    {target' : Target} (hloop : receiveLoop x.gl x.socket target (((replyOf x t sweep reply).messages target).map received) =
      .ok (true, target')) :
    a.run x ⟨s.world, target⟩ = .ok ⟨w, target'⟩ := by
  have hsend := infoMessages_eq hx.counter sweep reply target.store.firstReceived
  have hquery := queryOf_reply hgenuine
  have hall := messages_reply target (replyOf x t sweep reply)
  have hshort := payload_reply hx reply hfit target.store.firstReceived
  obtain ⟨sender, receiver, hbytes, hrecv⟩ := messages_carried hk hshort
  rw [Call.run, hreq, ok_bind]
  dsimp only
  rw [hsend, ok_bind, hbytes, ok_bind, hrecv, ok_bind]
  dsimp only
  rw [reduceOption_some]
  refine (congrArg (fun run => run >>= _) hquery).trans ?_
  rw [ok_bind, hanswer, ok_bind]
  refine (congrArg (fun incoming => receiveLoop x.gl x.socket target incoming >>= _) hall).trans ?_
  rw [hloop]
  rfl

theorem call_follows (hx : Usual x t) (hP : ∀ y name, P y name → isAttrName name = false)
    (hrun : runWorld x.g done = .ok s) (hf : Follows x t P (sweepOf s.sent) seen given target)
    (hk : a.kernel.Partial) (hreq : request x.g a.schedule s.world = .ok (sendings, w))
    (hfit : ∀ m ∈ sendings, Fitting 2 m)
    (hnew : (newNameids seen sendings).length < 8191 ∧ Takes P a.names (newNameids seen sendings))
    (hcount : ∀ i, drainCount (eventsOf i done) + 1 < 2 ^ 32 - 1) :
    ∃ s' target' given', runWorld x.g (done ++ linear 0 w.threads.length a.schedule) = .ok s' ∧ s'.world = w ∧
      a.run x ⟨s.world, target⟩ = .ok ⟨w, target'⟩ ∧ Advances 1 target target' given given' ∧
      Follows x t P (sweepOf s'.sent) (seen ++ nameidsOf sendings) given' target' ∧
      ∀ i < w.threads.length, drainsIn i (sweepOf s'.sent) ≠ [] := by
  have hpos := runWorld_threads hrun
  have hne : threadIds s.world ≠ [] := by
    rw [← List.length_pos_iff, length_threadIds]
    exact hpos
  obtain ⟨m, s', sweep, hs', rfl, hsent, hids, hkept, hend, hreach, rfl⟩ :=
    sendLoop_linear hrun hpos ( next_initialize hne) hreq
  obtain rfl : m = s'.world.threads.length := by omega
  rw [← List.range_eq_range'] at hids
  have hnodup : (sweep.map Prod.fst).Nodup := hids ▸ List.nodup_range
  have hdrained (e : Nat × Drained) (he : e ∈ sweep) : drainsIn e.1 (sweepOf s'.sent) =
      drainsIn e.1 (sweepOf s.sent) ++ [e.2] := by
    rw [hsent, drainsIn_append, drainsIn_of_nodup hnodup he]
  have hdrawn (e : Nat × Drained) (he : e ∈ sweep) : Drawn (drainsIn e.1 (sweepOf s.sent) ++ [e.2]) := by
    have hlt : e.1 ∈ List.range s'.world.threads.length := hids ▸ List.mem_map_of_mem he
    have hlinear := drainCount_linear e.1 0 s'.world.threads.length a.schedule
    rw [if_pos (Nat.zero_le _)] at hlinear
    have hdone := hcount e.1
    rw [← hdrained e he]
    apply drawn_of_run hx.counter hs' (List.mem_range.mp hlt)
    rw [eventsOf_append, drainCount_append]
    omega
  have hmessages := sent_of_fitting hfit hids
  have h64 : ∀ y ∈ newNameids seen (sendingsOf sweep), y < 2 ^ 64 := by
    intro y hy
    obtain ⟨hy, -⟩ := mem_newNameids.mp hy
    rw [nameidsOf_sweep] at hy
    obtain ⟨e, he, hye⟩ := List.mem_flatMap.mp hy
    obtain ⟨r, hr, rfl⟩ := List.mem_map.mp hye
    exact (hmessages.records e he r hr).nameid
  obtain ⟨reply, hanswer, hpayload⟩ := answerQuery_names (x := x) hk h64 hnew.1
  rw [← hf.asked reply] at hanswer
  have hgenuine : Genuine target (replyOf x t sweep reply) := hf.genuine hx.word hmessages
  obtain ⟨store, table, hstore, htime, hfirst, hfollow⟩ :=
    hf.receive hP hx.accumulate hx.single hnodup hdrawn (hnew.2 _ hpayload)
  have hloop := receiveLoop_reply x.gl hx.socket hf.recv hgenuine
  rw [hstore] at hloop
  refine ⟨s', _, _, hs', rfl, run_call hx hk hreq hfit hgenuine hanswer hloop,
    ⟨fun _ => hfirst, htime, fun i => ⟨_, rfl, ?_⟩⟩, hsent ▸ hfollow, ?_⟩
  · intro d hd
    obtain ⟨b, -, rfl⟩ := List.mem_map.mp hd
    exact Int.lt_succ _
  · intro i hi
    have hmem : i ∈ sweep.map Prod.fst := hids ▸ List.mem_range.mpr hi
    obtain ⟨e, he, rfl⟩ := List.mem_map.mp hmem
    rw [hdrained e he]
    exact List.append_ne_nil_of_right_ne_nil _ (List.cons_ne_nil _ _)

variable {calls : List Call} {sent : List (List Sending)}

theorem serve_cons {schedule : List Meanwhile} {schedules : List (List Meanwhile)}
    {g : RecordTable} {w w' : World} :
    serve g (schedule :: schedules) w = .ok (sent, w') ↔
      ∃ sendings v rest, request g schedule w = .ok (sendings, v) ∧
      serve g schedules v = .ok (rest, w') ∧ sent = sendings :: rest := by
  simp only [serve, bind_eq_ok, pure_eq_ok, Except.ok.injEq, Prod.exists, Prod.mk.injEq]
  constructor
  · rintro ⟨sendings, v, hreq, rest, w₁, hrest, rfl, rfl⟩
    exact ⟨sendings, v, rest, hreq, hrest, rfl⟩
  · rintro ⟨sendings, v, rest, hreq, hrest, rfl⟩
    exact ⟨sendings, v, hreq, rest, w', hrest, rfl, rfl⟩

theorem Advances.refl (target : Target) (given : Nat → List Monitor.Runs.Delivery) :
    Advances 0 target target given given :=
  ⟨fun h => h.resolve_right (Nat.lt_irrefl 0), (Int.add_zero _).symm, fun _ =>
    ⟨[], (List.append_nil _).symm, List.forall_mem_nil _⟩⟩

theorem Advances.trans {m n : Nat} {target₁ target₂ : Target}
    {given₁ given₂ : Nat → List Monitor.Runs.Delivery} (h₁ : Advances m target target₁ given given₁)
    (h₂ : Advances n target₁ target₂ given₁ given₂) : Advances (m + n) target target₂ given given₂ := by
  refine ⟨fun h => h₂.first ?_, ?_, fun i => ?_⟩
  · rcases h with h | h
    · exact Or.inl (h₁.first (Or.inl h))
    · rcases Nat.eq_zero_or_pos m with rfl | hm
      · exact Or.inr (by omega)
      · exact Or.inl (h₁.first (Or.inr hm))
  · rw [h₂.time, h₁.time]
    omega
  · obtain ⟨more, hmore, hlater⟩ := h₁.more i
    obtain ⟨more', hmore', hlater'⟩ := h₂.more i
    refine ⟨more ++ more', by rw [hmore', hmore, List.append_assoc], fun d hd => ?_⟩
    rcases List.mem_append.mp hd with hd | hd
    · exact hlater d hd
    · have hd' := hlater' d hd
      rw [h₁.time] at hd'
      omega

theorem calls_follow (hx : Usual x t) (hP : ∀ y name, P y name → isAttrName name = false)
    (hrun : runWorld x.g done = .ok s) (hf : Follows x t P (sweepOf s.sent) seen given target)
    (hcalls : ∀ a ∈ calls, a.kernel.Partial)
    (hserve : serve x.g (calls.map Call.schedule) s.world = .ok (sent, w))
    (hfit : ∀ sendings ∈ sent, ∀ m ∈ sendings, Fitting 2 m) (hnamed : Named P seen calls sent)
    (hcount : ∀ i, drainCount (eventsOf i done) + calls.length < 2 ^ 32 - 1) :
    ∃ s' target' given', runWorld x.g (done ++ eventsOfServe x.g (calls.map Call.schedule) s.world) = .ok s' ∧
      s'.world = w ∧
      calls.foldlM (Call.run x) ⟨s.world, target⟩ = .ok ⟨w, target'⟩ ∧
        Advances calls.length target target' given given' ∧
      Follows x t P (sweepOf s'.sent) (seen ++ sent.flatMap nameidsOf) given' target' ∧
      (calls ≠ [] → ∀ i < w.threads.length, drainsIn i (sweepOf s'.sent) ≠ []) := by
  induction calls generalizing done s seen target given sent with
  | nil =>
      cases hserve
      refine ⟨s, target, given, ?_, rfl, rfl, Advances.refl target given, ?_, fun h => absurd rfl h⟩
      · rw [List.map_nil, eventsOfServe, List.append_nil]
        exact hrun
      · rw [List.flatMap_nil, List.append_nil]
        exact hf
  | cons a calls ih =>
      rw [List.map_cons] at hserve ⊢
      obtain ⟨sendings, v, rest, hreq, hrest, rfl⟩ := serve_cons.mp hserve
      rw [List.forall_mem_cons] at hcalls hfit
      obtain ⟨hnew, hrestNamed⟩ := hnamed
      obtain ⟨s₁, target₁, given₁, hs₁, rfl, hcall, hone, hf₁, hdrained⟩ :=
        call_follows hx hP hrun hf hcalls.1 hreq hfit.1 hnew (fun i => by
          have := hcount i
          rw [List.length_cons] at this
          omega)
      obtain ⟨s', target', given', hs', hw, hall, hmore, hf', hlast⟩ :=
        ih hs₁ hf₁ hcalls.2 hrest hfit.2 hrestNamed (fun i => by
          have hlinear := drainCount_linear i 0 s₁.world.threads.length a.schedule
          have := hcount i
          rw [if_pos (Nat.zero_le i)] at hlinear
          rw [List.length_cons] at this
          rw [eventsOf_append, drainCount_append]
          omega)
      refine ⟨s', target', given', ?_, hw, ?_, ?_, ?_, fun _ => ?_⟩
      · rw [eventsOfServe, hreq]
        rw [List.append_assoc] at hs'
        exact hs'
      · rw [List.foldlM_cons, hcall]
        exact hall
      · rw [List.length_cons, Nat.add_comm]
        exact hone.trans hmore
      · rw [List.append_assoc] at hf'
        exact hf'
      · by_cases hnil : calls = []
        · subst hnil
          cases hrest
          have hsame : s' = s₁ := by
            rw [List.map_nil, eventsOfServe, List.append_nil, hs₁] at hs'
            exact (Except.ok.inj hs').symm
          rw [hsame]
          exact hdrained
        · exact hlast hnil

theorem serve_append {g : RecordTable} {xs ys : List (List Meanwhile)} {v w' : World} :
    serve g (xs ++ ys) v = .ok (sent, w') ↔ ∃ sent₁ u sent₂, serve g xs v = .ok (sent₁, u) ∧
      serve g ys u = .ok (sent₂, w') ∧ sent = sent₁ ++ sent₂ := by
  induction xs generalizing v sent with
  | nil =>
      constructor
      · exact fun h => ⟨[], v, sent, rfl, h, rfl⟩
      · rintro ⟨sent₁, u, sent₂, h₁, h₂, rfl⟩
        cases h₁
        exact h₂
  | cons schedule xs ih =>
      rw [List.cons_append, serve_cons]
      constructor
      · rintro ⟨sendings, u, rest, hreq, hrest, rfl⟩
        obtain ⟨sent₁, u₁, sent₂, h₁, h₂, rfl⟩ := ih.mp hrest
        exact ⟨sendings :: sent₁, u₁, sent₂, serve_cons.mpr ⟨_, _, _, hreq, h₁, rfl⟩, h₂, rfl⟩
      · rintro ⟨sent₁, u, sent₂, h₁, h₂, rfl⟩
        obtain ⟨sendings, u₁, rest, hreq, hrest, rfl⟩ := serve_cons.mp h₁
        exact ⟨sendings, u₁, rest ++ sent₂, hreq, ih.mpr ⟨_, _, _, hrest, h₂, rfl⟩, rfl⟩

theorem serve_length {g : RecordTable} {xs : List (List Meanwhile)} {v w' : World}
    (h : serve g xs v = .ok (sent, w')) : sent.length = xs.length := by
  induction xs generalizing v sent with
  | nil =>
      cases h
      rfl
  | cons schedule xs ih =>
      obtain ⟨sendings, u, rest, -, hrest, rfl⟩ := serve_cons.mp h
      rw [List.length_cons, List.length_cons, ih hrest]

theorem eventsOfServe_append {g : RecordTable} {xs : List (List Meanwhile)} {v u : World}
    (h : serve g xs v = .ok (sent, u)) (ys : List (List Meanwhile)) :
    eventsOfServe g (xs ++ ys) v = eventsOfServe g xs v ++ eventsOfServe g ys u := by
  induction xs generalizing v sent with
  | nil =>
      cases h
      rfl
  | cons schedule xs ih =>
      obtain ⟨sendings, u₁, rest, hreq, hrest, rfl⟩ := serve_cons.mp h
      rw [List.cons_append, eventsOfServe, eventsOfServe, hreq]
      dsimp only
      rw [ih hrest, List.append_assoc]

theorem named_append {sent₁ sent₂ : List (List Sending)} {calls₁ calls₂ : List Call}
    (hlen : sent₁.length = calls₁.length) {seen : List Nat}
    (h : Named P seen (calls₁ ++ calls₂) (sent₁ ++ sent₂)) :
    Named P seen calls₁ sent₁ ∧ Named P (seen ++ sent₁.flatMap nameidsOf) calls₂ sent₂ := by
  induction calls₁ generalizing seen sent₁ with
  | nil =>
      obtain rfl := List.length_eq_zero_iff.mp hlen
      rw [List.flatMap_nil, List.append_nil]
      exact ⟨trivial, h⟩
  | cons a calls₁ ih =>
      cases sent₁ with
      | nil => cases hlen
      | cons sendings sent₁ =>
          obtain ⟨hfirst, hrest⟩ := h
          obtain ⟨h₁, h₂⟩ := ih (Nat.succ.inj hlen) hrest
          rw [List.flatMap_cons, ← List.append_assoc]
          exact ⟨⟨hfirst, h₁⟩, h₂⟩

structure AfterCalls (x : Setup) (t : Nat) (P : NameID → Bytes → Prop) (calls : List Call)
    (sent : List (List Sending)) (given : Nat → List Monitor.Runs.Delivery) (s : System)
    (target : Target) : Prop where
  served : serve x.g (calls.map Call.schedule) (initialWorld x.g) = .ok (sent, s.world)
  events : runWorld x.g (eventsOfServe x.g (calls.map Call.schedule) (initialWorld x.g)) = .ok s
  run : calls.foldlM (Call.run x) (initialEnds x) = .ok ⟨s.world, target⟩
  time : target.store.ds.currentTimeNumber = calls.length
  first : 0 < calls.length → target.store.firstReceived = true
  follows : Follows x t P (sweepOf s.sent) (sent.flatMap nameidsOf) given target
  drained : calls ≠ [] → ∀ i < s.world.threads.length, drainsIn i (sweepOf s.sent) ≠ []

theorem initial_after (x : Setup) (t : Nat) (P : NameID → Bytes → Prop) :
    AfterCalls x t P [] [] (fun _ => []) (initialSystem x.g) (initialEnds x).target :=
  ⟨rfl, rfl, rfl, rfl, fun h => absurd h (Nat.lt_irrefl 0), initial_follows x t P, fun h => absurd rfl h⟩

variable {calls₁ calls₂ : List Call} {sent₁ sent₂ : List (List Sending)}

theorem drainCount_calls (x : Setup) (calls : List Call) (i : Nat) :
    drainCount (eventsOf i (eventsOfServe x.g (calls.map Call.schedule) (initialWorld x.g))) ≤
      calls.length := by
  have hall := drainCount_serve x.g i (calls.map Call.schedule) (initialWorld x.g)
  rwa [List.length_map] at hall

theorem AfterCalls.more (h : AfterCalls x t P calls₁ sent₁ given s target) (hx : Usual x t)
    (hP : ∀ y name, P y name → isAttrName name = false) (hcalls : ∀ a ∈ calls₂, a.kernel.Partial)
    (hserve : serve x.g (calls₂.map Call.schedule) s.world = .ok (sent₂, w))
    (hfit : ∀ sendings ∈ sent₂, ∀ m ∈ sendings, Fitting 2 m)
    (hnamed : Named P (sent₁.flatMap nameidsOf) calls₂ sent₂)
    (hcount : calls₁.length + calls₂.length < 2 ^ 32 - 1) :
    ∃ given' s' target', AfterCalls x t P (calls₁ ++ calls₂) (sent₁ ++ sent₂) given' s' target' ∧
      s'.world = w ∧ Advances calls₂.length target target' given given' := by
  by_cases hnil : calls₂ = []
  · subst hnil
    cases hserve
    rw [List.append_nil, List.append_nil]
    exact ⟨given, s, target, h, rfl, Advances.refl target given⟩
  obtain ⟨s', target', given', hs', rfl, hrun, hadvances, hf, hdrained⟩ :=
    calls_follow hx hP h.events h.follows hcalls hserve hfit
      hnamed (fun i => by have := drainCount_calls x calls₁ i; omega)
  refine ⟨given', s', target', ⟨?_, ?_, ?_, ?_, fun _ => hadvances.first (Or.inr (List.length_pos_of_ne_nil hnil)), ?_,
    fun _ => hdrained hnil⟩, rfl, hadvances⟩
  · rw [List.map_append, serve_append]
    exact ⟨_, _, _, h.served, hserve, rfl⟩
  · rw [List.map_append, eventsOfServe_append h.served]
    exact hs'
  · rw [List.foldlM_append, h.run]
    exact hrun
  · rw [hadvances.time, h.time, List.length_append]
    exact (Nat.cast_add _ _).symm
  · rw [List.flatMap_append]
    exact hf

theorem after_calls (hx : Usual x t) (hP : ∀ y name, P y name → isAttrName name = false)
    (hcount : calls.length < 2 ^ 32 - 1) (hcalls : ∀ a ∈ calls, a.kernel.Partial)
    (hserve : serve x.g (calls.map Call.schedule) (initialWorld x.g) = .ok (sent, w))
    (hfit : ∀ sendings ∈ sent, ∀ m ∈ sendings, Fitting 2 m) (hnamed : Named P [] calls sent) :
    ∃ given s target, AfterCalls x t P calls sent given s target ∧ s.world = w := by
  obtain ⟨given, s, target, h, hw, -⟩ := (initial_after x t P).more hx hP hcalls hserve hfit hnamed
    (by rw [List.length_nil, Nat.zero_add]; exact hcount)
  exact ⟨given, s, target, h, hw⟩

theorem named_clean (hline : ∀ a ∈ calls, ∀ y, (10 : UInt8) ∉ NameTable.get a.names y)
    (hP : ∀ a ∈ calls, ∀ y, P y (NameTable.get a.names y)) (hnil : ∀ y, P y []) {seen : List Nat}
    (hfew : FewNames seen sent) :
    Named P seen calls sent := by
  induction calls generalizing seen sent with
  | nil => cases sent <;> trivial
  | cons a calls ih =>
      cases sent with
      | nil => trivial
      | cons sendings sent =>
          rw [List.forall_mem_cons] at hline hP
          exact ⟨⟨hfew.1, takes_clean hline.1 hP.1 hnil _⟩, ih hline.2 hP.2 hfew.2⟩

theorem named_first (hclean : ∀ a ∈ calls, CleanNames a.names) {seen : List Nat} (hfew : FewNames seen sent)
    (hshort : ShortNames seen calls sent)
    (hP : ∀ y ∉ seen, ∀ name, nameFirst y calls sent = some name → P y name) :
    Named P seen calls sent := by
  induction calls generalizing seen sent with
  | nil => cases sent <;> trivial
  | cons a calls ih =>
      cases sent with
      | nil => trivial
      | cons sendings sent =>
          rw [List.forall_mem_cons] at hclean
          refine ⟨⟨hfew.1, fun payload hp n y hn => ?_⟩,
            ih hclean.2 hfew.2 hshort.2 fun y hy name hname => ?_⟩
          · obtain ⟨hsent, hseen⟩ := mem_newNameids.mp (List.mem_of_getElem? hn)
            have hline := takes_names hclean.1 hshort.1 payload hp n y hn
            apply hP y hseen
            rw [nameFirst, if_pos hsent, hline]
          · rw [List.mem_append, not_or] at hy
            apply hP y hy.1
            rw [nameFirst, if_neg hy.2, hname]

theorem nameFirst_clean (hclean : ∀ a ∈ calls, CleanNames a.names) {y : NameID} {name : Bytes}
    (h : nameFirst y calls sent = some name) : isAttrName name = false ∧ y ∈ sent.flatMap nameidsOf := by
  induction calls generalizing sent with
  | nil => cases sent <;> cases h
  | cons a calls ih =>
      cases sent with
      | nil => cases h
      | cons sendings sent =>
          rw [List.forall_mem_cons] at hclean
          rw [List.flatMap_cons, List.mem_append]
          rw [nameFirst] at h
          split at h
          next hy =>
            cases h
            exact ⟨(hclean.1 y).2, Or.inl hy⟩
          next => exact ⟨(ih hclean.2 h).1, Or.inr (ih hclean.2 h).2⟩

theorem AfterCalls.mirrors (h : AfterCalls x t P calls sent given s target)
    (hx : Usual x t) (hne : calls ≠ []) (hcount : calls.length < 2 ^ 32 - 1)
    (hi : i < s.world.threads.length) : ∃ es reading later st a ts,
      eventsOf i (eventsOfServe x.g (calls.map Call.schedule) (initialWorld x.g)) = es ++
        .drain reading :: later ∧
        drainCount later = 0 ∧ observeEvents x.g t i (es ++ [.drain reading]) = .ok (st, a) ∧
        target.store.threads.lookup i = some ts ∧ Mirrors st.thread a ts.currentTree := by
  obtain ⟨st, a, hobserve, hacc, hlive, hdrains⟩ :=
    last_session hx.counter h.events i ((drainCount_calls x calls i).trans_lt hcount)
  have hsome := h.drained hne i hi
  obtain ⟨es, reading, later, hes, hlater⟩ : ∃ es reading later,
    eventsOf i (eventsOfServe x.g (calls.map Call.schedule)
      (initialWorld x.g)) = es ++ .drain reading :: later ∧ drainCount later = 0 := by
    apply exists_last_drain
    rw [Nat.pos_iff_ne_zero]
    intro hnone
    rw [upToDrain_nil hnone] at hobserve
    cases hobserve
    exact hsome hdrains.symm
  have hholds := h.follows.holds i
  rw [← hdrains] at hholds hsome
  obtain ⟨ts, hts, hmirrors⟩ := hholds.mirrors (baseOf_slots x t) hx.accumulate hx.single hacc hlive hsome
  rw [hes, upToDrain_eq hlater] at hobserve
  exact ⟨es, reading, later, st, a, ts, hes, hlater, hobserve, hts, hmirrors⟩

def timed : Setup :=
  ⟨{ records := [⟨ascii "pt", ascii "time", true, 0⟩], activeRecords := [0, 0] }, ascii "ruby",
    fun _ _ _ => .ok [], defaultMode, 3⟩

def twoCalls : List Call :=
  [⟨[⟨[.handler 0 (.call 5 (fun _ => 10))], [], [.spawn], fun _ => 20⟩,
      ⟨[], [.handler 0 (.call 6 (fun _ => 30))], [], fun _ => 40⟩,
      ⟨[.handler 1 (.call 6 (fun _ => 45))], [], [.handler 1 (.ret (fun _ => 47))], fun _ => 48⟩,
      ⟨[], [], [], fun _ => 50⟩, ⟨[], [], [], fun _ => 55⟩], bytewise, ∅⟩,
    ⟨[⟨[.handler 0 (.ret (fun _ => 60))], [], [], fun _ => 65⟩, ⟨[], [], [.handler 0 (.ret (fun _ => 75))], fun _ => 70⟩,
      ⟨[], [], [], fun _ => 78⟩, ⟨[], [], [], fun _ => 80⟩, ⟨[], [], [], fun _ => 90⟩], bytewise, ∅⟩]

def twoCallsSent : List (List Sending) :=
  [sendingsOf [(0, ⟨[⟨5, 2, 1, 1, [0, 10]⟩], ⟨2, [0, 40]⟩⟩), (1, ⟨[⟨6, 2, 1, 1, [0, 45]⟩], ⟨2, [0, 50]⟩⟩)],
    sendingsOf [(0, ⟨[⟨6, 3, 2, 1, [30, 30]⟩], ⟨2, [0, 70]⟩⟩), (1, ⟨[⟨6, 2, 1, 0, [2, 0]⟩], ⟨1, [0, 80]⟩⟩)]]

theorem timed_usual : Usual timed 0 := by
  have hc : SingleCounter timed.g 0 := ⟨rfl, _, rfl, rfl⟩
  refine ⟨hc, ⟨by decide, not_space_of_all rfl⟩, by decide, rfl, rfl, fun info hinfo => ?_⟩
  rw [infoMessages_eq hc [] (.message MSG_NAMES []) false, Except.ok.injEq] at hinfo
  rw [← hinfo]
  decide +kernel

theorem fitting_one {thread : Nat} {r : MethodNodeSerializedInfo} {now : NowBuffer}
    (hthread : thread < 2 ^ 64) (hr : Fits 2 r)
    (hnow : NowFits 2 now) : ∀ m ∈ sendingsOf [(thread, ⟨[r], now⟩)], Fitting 2 m :=
  List.forall_mem_cons.mpr ⟨⟨hthread, List.forall_mem_singleton.mpr hr, by simp⟩,
    List.forall_mem_singleton.mpr ⟨hthread, hnow⟩⟩

theorem twoCallsSent_fitting : ∀ sendings ∈ twoCallsSent, ∀ m ∈ sendings, Fitting 2 m := by
  have happ (e f : Nat × Drained) : sendingsOf [e, f] = sendingsOf [e] ++ sendingsOf [f] := rfl
  rw [twoCallsSent, List.forall_mem_cons, List.forall_mem_singleton, happ, happ,
    List.forall_mem_append, List.forall_mem_append]
  refine ⟨⟨fitting_one ?_ ?_ ?_, fitting_one ?_ ?_ ?_⟩, fitting_one ?_ ?_ ?_, fitting_one ?_ ?_ ?_⟩
  all_goals first
    | decide
    | exact ⟨by decide, by decide, by decide, by decide, rfl⟩
    | exact ⟨by decide, rfl⟩

/-- If the answers fit the buffer of the program too, the monitor has the name of each
method that it has been sent, as it was when it was first sent. -/
theorem monitor_names_program (x : Setup) (t : Nat) (hx : Usual x t) (calls : List Call)
    (hcount : calls.length < 2 ^ 32 - 1) (hcalls : ∀ a ∈ calls, a.kernel.Partial ∧ CleanNames a.names)
    (sent : List (List Sending)) (w : World)
    (hserve : serve x.g (calls.map Call.schedule) (initialWorld x.g) = .ok (sent, w))
    (hfit : ∀ sendings ∈ sent, ∀ m ∈ sendings, Fitting 2 m) (hfew : FewNames [] sent)
    (hshort : ShortNames [] calls sent) :
    ∃ target, calls.foldlM (Call.run x) (initialEnds x) = .ok ⟨w, target⟩ ∧
      ∀ y : NameID, target.store.ds.nameTable[y]? = nameFirst y calls sent := by
  have hclean (a : Call) (ha : a ∈ calls) := (hcalls a ha).2
  have hnamed :=
    named_first hclean hfew hshort (P := fun y name => nameFirst y calls sent = some name) fun _ _ _ h => h
  obtain ⟨given, s, target, h, rfl⟩ := after_calls hx (fun _ _ h => (nameFirst_clean hclean h).1) hcount
    (fun a ha => (hcalls a ha).1) hserve hfit hnamed
  have hf := h.follows
  refine ⟨target, h.run, fun y => ?_⟩
  cases hname : target.store.ds.nameTable[y]? with
  | some name => exact (hf.good y name hname).symm
  | none =>
      cases hfirst : nameFirst y calls sent with
      | none => rfl
      | some name =>
          obtain ⟨name', hname'⟩ := (hf.names y).mpr (nameFirst_clean hclean hfirst).2
          rw [hname] at hname'
          cases hname'

def methodNames : NameTable :=
  ((∅ : NameTable).insert 5 (ascii "Object::main")).insert 6 (ascii "Object::run")

def namedCalls : List Call :=
  twoCalls.zipWith (fun a names => { a with names }) [methodNames,
    methodNames.insert 6 (ascii "Object::walk")]

theorem monitor_names_named_calls :
    ∃ w target, namedCalls.foldlM (Call.run timed) (initialEnds timed) = .ok ⟨w, target⟩ ∧
      ∀ y : NameID, target.store.ds.nameTable[y]? = nameFirst y namedCalls twoCallsSent := by
  have hclean : CleanNames methodNames :=
    cleanNames_insert (cleanNames_insert cleanNames_empty (by decide) (by decide)) (by decide) (by decide)
  obtain ⟨w, hserve⟩ : ∃ w, serve timed.g (namedCalls.map Call.schedule) (initialWorld timed.g) =
    .ok (twoCallsSent, w) := ⟨_, rfl⟩
  refine ⟨w, monitor_names_program timed 0 timed_usual namedCalls (by decide) ?_ twoCallsSent w hserve twoCallsSent_fitting
    ⟨by decide, by decide, trivial⟩ ⟨by decide, by decide, trivial⟩⟩
  exact List.forall_mem_cons.mpr ⟨⟨ bytewise_partial, hclean⟩, List.forall_mem_singleton.mpr
    ⟨ bytewise_partial, cleanNames_insert hclean (by decide) (by decide)⟩⟩

end Llprof.Link.EndToEnd
