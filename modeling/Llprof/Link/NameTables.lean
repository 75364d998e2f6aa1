import Llprof.Wire.NameReply

namespace Llprof.Link.NameTables

open Faulting LittleEndian Streams Wire.Network Wire.Framing Wire.NameQuery Wire.ProfileData
  Wire.DrainMessages Wire.NameReply

/-- The request for these slots is answered with this message. -/
def Answers (k : Kernel) (t : NameTable) (other : Int → Int → Bytes → Run (List Outgoing)) (q : List Nat)
    (reply : Outgoing) : Prop :=
  ∃ (r : Receiver) (s : Sender), exchange k t other q = .ok (some (r, s)) ∧ s.out = reply.frame

/-- How many nameids the size field of a request covers. -/
def covered (ids : List Nat) : Nat := (ids.length + 1) % 2 ^ 29 - 1

theorem msgId_eq_of_frame {m m' : Outgoing} (h : m.frame = m'.frame) : m.msgId = m'.msgId := by
  have htype := received_type m
  rw [received, h] at htype
  exact UInt32.toNat_inj.mp (htype.symm.trans (received_type m'))

theorem payload_eq_of_frame {m m' : Outgoing} (h : m.frame = m'.frame) : m.payload = m'.payload := by
  have hbody := received_body m
  rw [received, h] at hbody
  exact List.map_injective_iff.mpr (Option.some_injective UInt8) (hbody.symm.trans (received_body m'))

variable {k : Kernel} {t names : NameTable} {other : Int → Int → Bytes → Run (List Outgoing)} {ids : List Nat}
  {reply : Outgoing}

theorem answers_lines (hk : k.Partial) (h64 : ∀ x ∈ ids, x < 2 ^ 64)
    (h : Answers k t other (0 :: ids) reply) :
    reply.msgId = MSG_NAMES ∧ reply.payload = lines t (ids.take (covered ids)) ∨
      reply.msgId = MSG_ERROR ∧ reply.payload = [] ∧ ∃ x ∈ ids, NameTable.get t x ≠ [] := by
  obtain ⟨r, s, hx, hs⟩ := h
  by_cases hfits : 8 * (0 :: ids).length % 2 ^ 32 < msgBufSize
  · obtain ⟨reply', calls, calls', hr, -, hx'⟩ := exchange_answers hk t other (List.cons_ne_nil 0 ids) hfits
    rw [hx', Except.ok.injEq, Option.some.injEq, Prod.mk.injEq] at hx
    have hframe : reply'.frame = reply.frame := by rw [← hs, ← hx.2]
    rw [← msgId_eq_of_frame hframe, ← payload_eq_of_frame hframe]
    rcases answerNames_lines t h64 ((0 :: ids).length % 2 ^ 29) rfl
      (List.replicate (msgBufSize - 8 * ((0 :: ids).length % 2 ^ 29)) 255) with hn | ⟨he, hfull⟩
    · obtain rfl := Except.ok.inj (hr.symm.trans hn)
      exact Or.inl ⟨rfl, rfl⟩
    · obtain rfl := Except.ok.inj (hr.symm.trans he)
      refine Or.inr ⟨rfl, rfl, ?_⟩
      by_contra hempty
      push Not at hempty
      rw [length_lines_of_empty (fun x hx => hempty x (List.mem_of_mem_take hx)), List.length_take] at hfull
      rw [List.length_cons] at hfull hfits
      rw [nameBufSize] at hfull
      rw [msgBufSize] at hfits
      omega
  · obtain ⟨e, he⟩ := exchange_fails hk t other (0 :: ids) (Nat.not_lt.mp hfits)
    rw [he] at hx
    cases hx

/-- What the connection delivers after the messages of a drain. -/
inductive Ending
  | closed
  | refused (body : Bytes)
  | unanswered
  | cut (reply : Outgoing) (n : Nat)
  | answered (reply : Outgoing)

namespace Ending

def messages : Ending → List MessageBuf
  | closed => []
  | refused body => [received (.message MSG_ERROR body)]
  | unanswered => [received (.message MSG_COMMAND_SUCCEED [])]
  | cut reply n =>
      [received (.message MSG_COMMAND_SUCCEED []),
        ⟨(reply.frame.take (8 + n)).map some ++ List.replicate (reply.payload.length - n) none, 0⟩]
  | answered reply => [received (.message MSG_COMMAND_SUCCEED []), received reply]

/-- The reply is that of the profiled program, or its connection ends within it. -/
def Valid (k : Kernel) (t : NameTable) (other : Int → Int → Bytes → Run (List Outgoing)) (ids : List Nat) :
    Ending → Prop
  | closed => True
  | refused _ => True
  | unanswered => True
  | cut reply n => n < reply.payload.length
  | answered reply => ids ≠ [] → Answers k t other (0 :: ids) reply

end Ending

def incoming (drain : List Part) (ending : Ending) : List MessageBuf :=
  drain.map (fun p => received p.message) ++ ending.messages

/-- The nameids of a drain that the name table does not hold. -/
def asked (o : Offsets) (names : NameTable) (drain : List Part) : List Nat :=
  unknownNameids names (drain.map (Part.nameids o)).flatten

variable {o : Offsets} {drain : List Part}

theorem asked_lt (x : Nat) (hx : x ∈ asked o names drain) : x < 2 ^ 64 := by
  obtain ⟨ids, hids, hx'⟩ := List.mem_flatten.mp (mem_unknownNameids.mp hx).1
  obtain ⟨p, -, rfl⟩ := List.mem_map.mp hids
  cases p with
  | profile thread records =>
      obtain ⟨r, -, rfl⟩ := List.mem_map.mp hx'
      exact word_lt 8 o.nameid r
  | nowInfo thread info => cases hx'
  | other msgId body => cases hx'

theorem asked_nodup : (asked o names drain).Nodup := unknownNameids_nodup names _

theorem asked_new {x : Nat} (hx : x ∈ asked o names drain) : names[x]? = none := by
  have hc := (mem_unknownNameids.mp hx).2
  cases hv : names[x]? with
  | none => rfl
  | some v =>
      rw [TreeMaps.contains_iff_some.mpr ⟨v, hv⟩] at hc
      cases hc

theorem recvLoop_drain (names : NameTable) (hname : o.nameid + 8 ≤ o.recordSize)
    (hd : ∀ p ∈ drain, p.WellFormed o) :
    ∃ r : Receiving, (∀ rest, recvLoop o (drain.map (fun p => received p.message) ++ rest) (noBuffers names) =
        recvLoop o rest r) ∧
      r.asked.queryNames = (if asked o names drain = [] then [] else 0 :: asked o names drain) ∧
      ∀ x : Nat, r.asked.names[x]? = if x ∈ asked o names
        drain then some (ascii "<Asking>") else names[x]? := by
  refine ⟨drain.foldl (Part.receive o) (noBuffers names), fun rest =>
    recvLoop_parts hname drain hd rest _, ?_⟩
  rw [receive_asked, ← List.foldl_flatten]
  exact askName_unknown names _

theorem getProfileData_failed {r : Receiving} {rest : List MessageBuf}
    (h : recvLoop o rest (noBuffers names) = .ok (.failed r)) :
    getProfileData o names rest = .ok ⟨false, r.asked.names, []⟩ := by
  rw [getProfileData, h]
  rfl

theorem getProfileData_nothing {r : Receiving} {rest all : List MessageBuf}
    (h : recvLoop o all (noBuffers names) = .ok (.finished r rest)) (hasked : r.asked.queryNames = []) :
    getProfileData o names all = .ok ⟨true, r.asked.names, storeCalls r⟩ := by
  rw [getProfileData, h, ok_bind]
  dsimp only
  rw [if_pos hasked]
  rfl

theorem getProfileData_answered {r : Receiving} {all : List MessageBuf}
    (h : recvLoop o all (noBuffers names) = .ok (.finished r [received reply]))
    (hasked : r.asked.queryNames = 0 :: ids) :
    getProfileData o names all =
      .ok ⟨true, setNames ids (ofText reply.payload) r.asked.names, storeCalls r⟩ := by
  rw [getProfileData, h, ok_bind]
  dsimp only
  rw [if_neg (by rw [hasked]; exact List.cons_ne_nil 0 ids), asString_received, hasked]
  rfl

theorem getProfileData_unanswered {r : Receiving} {all : List MessageBuf}
    (h : recvLoop o all (noBuffers names) = .ok (.finished r [])) (hasked : r.asked.queryNames ≠ []) :
    getProfileData o names all = .error .nullDeref := by
  rw [getProfileData, h, ok_bind]
  dsimp only
  rw [if_neg hasked]
  rfl

theorem getProfileData_cut {r : Receiving} {all : List MessageBuf} {n : Nat} (hn : n < reply.payload.length)
    (h : recvLoop o all (noBuffers names) = .ok (.finished r
      [⟨(reply.frame.take (8 + n)).map some ++ List.replicate (reply.payload.length - n) none, 0⟩]))
    (hasked : r.asked.queryNames ≠ []) : getProfileData o names all = .error .indeterminate := by
  have htext : asString ⟨(reply.frame.take (8 + n)).map some ++ List.replicate (reply.payload.length - n) none, 0⟩ =
      .error .indeterminate := by
    have hlen : 8 ≤ ((reply.frame.take (8 + n)).map (some : UInt8 → Cell)).length := by
      rw [List.length_map, List.length_take, Outgoing.frame, List.length_append, length_messageHeader]
      omega
    have hnone : (none : Cell) ∈ (⟨(reply.frame.take (8 + n)).map some ++
        List.replicate (reply.payload.length - n) none, 0⟩ : MessageBuf).getBody := by
      rw [MessageBuf.getBody, List.drop_append_of_le_length hlen, List.mem_append]
      exact Or.inr (List.mem_replicate.mpr ⟨by omega, rfl⟩)
    rw [asString, if_neg]
    intro hall
    exact Bool.noConfusion (List.all_eq_true.mp hall none hnone)
  rw [getProfileData, h, ok_bind]
  dsimp only
  rw [if_neg hasked, htext]
  rfl

/-- After a reply with names, every nameid that was asked for has the profiled
program's name, exactly if the size field of the request covers all of them that
have a name with a character. -/
theorem names_decoded_iff (k : Kernel) (hk : k.Partial) (t names : NameTable)
    (other : Int → Int → Bytes → Run (List Outgoing)) (o : Offsets) (hname : o.nameid + 8 ≤ o.recordSize)
    (drain : List Part) (hd : ∀ p ∈ drain, p.WellFormed o)
    (ht : ∀ (id : Nat) (name : Bytes), t[id]? = some name → (10 : UInt8) ∉ name) (reply : Outgoing)
    (hreply : asked o names drain ≠ [] → Answers k t other (0 :: asked o names drain) reply)
    (hmsg : reply.msgId = MSG_NAMES) :
    ∃ out, getProfileData o names (incoming drain (.answered reply)) = .ok out ∧
      ((∀ x ∈ asked o names drain, out.names[x]? = some (NameTable.get t x)) ↔
        ∀ x ∈ (asked o names drain).drop (covered (asked o names drain)), NameTable.get t x = []) := by
  obtain ⟨r, hloop, hq, hn⟩ := recvLoop_drain names hname hd
  have hend : recvLoop o (incoming drain (.answered reply)) (noBuffers names) =
      .ok (.finished r [received reply]) :=
    (hloop _).trans (recvLoop_succeed o [] _ r)
  by_cases hnil : asked o names drain = []
  · rw [if_pos hnil] at hq
    refine ⟨_, getProfileData_nothing hend hq, ?_⟩
    simp [hnil]
  · rw [if_neg hnil] at hq
    refine ⟨_, getProfileData_answered hend hq, ?_⟩
    have hclean : ∀ x ∈ asked o names drain, (10 : UInt8) ∉ NameTable.get t x := by
      intro x _
      rw [NameTable.get]
      cases hx : t[x]? with
      | none => decide
      | some name => exact ht x name hx
    rcases answers_lines hk asked_lt (hreply hnil) with ⟨-, hlines⟩ | ⟨herror, -⟩
    · rw [hlines]
      exact (setNames_lines_iff t asked_nodup _ _).trans (and_iff_right hclean)
    · rw [hmsg] at herror
      cases herror

theorem answers_names (t : NameTable) (other : Int → Int → Bytes → Run (List Outgoing)) (ids : List Nat)
    (hk : k.Partial) (h64 : ∀ x ∈ ids, x < 2 ^ 64) (hfits : 8 * (ids.length + 1) % 2 ^ 32 < msgBufSize)
    (hlines : (lines t (ids.take (covered ids))).length ≤ nameBufSize) :
    ∃ reply, Answers k t other (0 :: ids) reply ∧ reply.msgId = MSG_NAMES := by
  obtain ⟨reply, calls, calls', hr, -, hx⟩ := exchange_answers hk t other (List.cons_ne_nil 0 ids) hfits
  refine ⟨reply, ⟨_, _, hx, rfl⟩, ?_⟩
  rcases answerNames_lines t h64 ((0 :: ids).length % 2 ^ 29) rfl
    (List.replicate (msgBufSize - 8 * ((0 :: ids).length % 2 ^ 29)) 255) with hn | ⟨-, hfull⟩
  · obtain rfl := Except.ok.inj (hr.symm.trans hn)
    rfl
  · exact absurd hlines (Nat.not_le.mpr hfull)

def shortRecord (x : Nat) : Bytes := toBytes 8 x ++ List.replicate 16 0

def twoRecords : List Part := [.profile 7 [shortRecord 6, shortRecord 5], .nowInfo 7 (toBytes 8 1)]

def mainAndRun : NameTable := ((∅ : NameTable).insert 5 (ascii "main")).insert 6 (ascii "run")

theorem asked_twoRecords : asked ⟨0, 24⟩ ∅ twoRecords = [6, 5] := by decide +kernel

theorem twoRecords_wellFormed : ∀ p ∈ twoRecords, p.WellFormed ⟨0, 24⟩ := by
  simp [twoRecords, shortRecord, Part.WellFormed]

theorem answers_twoRecords :
    ∃ reply, Answers bytewise mainAndRun (fun _ _ _ => .ok []) [0, 6, 5] reply ∧ reply.msgId = MSG_NAMES :=
  answers_names mainAndRun (fun _ _ _ => .ok []) [6, 5] bytewise_partial (by decide)
    (by decide) (by decide +kernel)

theorem names_decoded_iff_twoRecords : ∃ reply, reply.msgId = MSG_NAMES ∧
    ∃ out, getProfileData ⟨0, 24⟩ ∅ (incoming twoRecords (.answered reply)) = .ok out ∧
      ((∀ x ∈ asked ⟨0, 24⟩ ∅ twoRecords, out.names[x]? = some (NameTable.get mainAndRun x)) ↔
        ∀ x ∈ (asked ⟨0, 24⟩ ∅ twoRecords).drop (covered (asked ⟨0, 24⟩ ∅ twoRecords)),
          NameTable.get mainAndRun x = []) := by
  obtain ⟨reply, hreply, hmsg⟩ := answers_twoRecords
  refine ⟨reply, hmsg, names_decoded_iff bytewise bytewise_partial mainAndRun ∅ (fun _ _ _ => .ok []) ⟨0,
      24⟩ (by decide) twoRecords
    twoRecords_wellFormed ?_ reply ?_ hmsg⟩
  · intro id name h
    rw [mainAndRun, TreeMaps.getElem?_insert, TreeMaps.getElem?_insert] at h
    split at h
    · cases h
      decide
    · split at h
      · cases h
        decide
      · simp at h
  · rw [asked_twoRecords]
    exact fun _ => hreply

/-- Eight threads, each with `n` functions that no other one calls. -/
def blocks (n : Nat) : List Part :=
  (List.range 8).map (fun j => .profile j ((List.range' (j * n) n).map shortRecord))

theorem nameids_block {j n : Nat} (h : j * n + n ≤ 2 ^ 64) :
    (Part.profile j ((List.range' (j * n) n).map shortRecord)).nameids ⟨0, 24⟩ = List.range' (j * n) n := by
  rw [Part.nameids, List.map_map]
  conv_rhs => rw [← List.map_id (List.range' (j * n) n)]
  apply List.map_congr_left
  intro x hx
  have hlt : x < 256 ^ 8 := by
    have := (List.mem_range'_1.mp hx).2
    omega
  have hw := word_append_toBytes [] (List.replicate 16 0) 8 x
  rw [List.nil_append, Nat.mod_eq_of_lt hlt] at hw
  exact hw

theorem mem_asked_blocks {n : Nat} (h : 8 * n ≤ 2 ^ 64) (x : Nat) :
    x ∈ asked ⟨0, 24⟩ ∅ (blocks n) ↔ x < 8 * n := by
  have hids : ((blocks n).map (Part.nameids ⟨0, 24⟩)).flatten =
      (List.range 8).flatMap (fun j => List.range' (j * n) n) := by
    rw [blocks, List.map_map, List.flatMap_def]
    congr 1
    apply List.map_congr_left
    intro j hj
    have hle : (j + 1) * n ≤ 8 * n := Nat.mul_le_mul_right n (List.mem_range.mp hj)
    exact nameids_block (by rw [Nat.succ_mul] at hle; omega)
  have hempty : (∅ : NameTable).contains x = false := by simp
  rw [asked, mem_unknownNameids, hids, hempty]
  simp only [List.mem_flatMap, List.mem_range, List.mem_range'_1, and_true]
  constructor
  · rintro ⟨j, hj, -, hlt⟩
    have hle : (j + 1) * n ≤ 8 * n := Nat.mul_le_mul_right n hj
    rw [Nat.succ_mul] at hle
    omega
  · intro hx
    have hn : 0 < n := by omega
    have hmod := Nat.mod_lt x hn
    have hdiv := Nat.div_add_mod' x n
    exact ⟨x / n, (Nat.div_lt_iff_lt_mul hn).mpr hx, Nat.div_mul_le_self x n, by omega⟩

theorem length_asked_blocks {n : Nat} (h : 8 * n ≤ 2 ^ 64) : (asked ⟨0, 24⟩ ∅ (blocks n)).length = 8 * n := by
  have hperm : (asked ⟨0, 24⟩ ∅ (blocks n)).Perm (List.range (8 * n)) := by
    rw [List.perm_ext_iff_of_nodup asked_nodup List.nodup_range]
    intro x
    rw [mem_asked_blocks h, List.mem_range]
  rw [hperm.length_eq, List.length_range]

theorem blocks_wellFormed (n : Nat) : ∀ p ∈ blocks n, p.WellFormed ⟨0, 24⟩ := by
  intro p hp
  obtain ⟨j, hj, rfl⟩ := List.mem_map.mp hp
  refine ⟨?_, ?_⟩
  · have := List.mem_range.mp hj
    omega
  · intro r hr
    obtain ⟨x, -, rfl⟩ := List.mem_map.mp hr
    rw [shortRecord, List.length_append, length_toBytes, List.length_replicate]

theorem names_lost_blocks : ∃ reply,
    Answers bytewise ∅ (fun _ _ _ => .ok []) (0 :: asked ⟨0, 24⟩ ∅ (blocks (2 ^ 26))) reply ∧
      reply.msgId = MSG_NAMES ∧
      ∃ out, getProfileData ⟨0, 24⟩ ∅ (incoming (blocks (2 ^ 26)) (.answered reply)) = .ok out ∧
        5 ∈ asked ⟨0, 24⟩ ∅ (blocks (2 ^ 26)) ∧ out.names[5]? = some [] ∧
          NameTable.get ∅ 5 = ascii "(ERR)" := by
  have hlen : (asked ⟨0, 24⟩ ∅ (blocks (2 ^ 26))).length = 2 ^ 29 := length_asked_blocks (by omega)
  have hfive : 5 ∈ asked ⟨0, 24⟩ ∅ (blocks (2 ^ 26)) := (mem_asked_blocks (by omega) 5).mpr (by omega)
  have hcovered : covered (asked ⟨0, 24⟩ ∅ (blocks (2 ^ 26))) = 0 := by
    rw [covered, hlen, Nat.add_mod_left]
    rfl
  obtain ⟨reply, hreply, hmsg⟩ := answers_names ∅ (fun _ _ _ => .ok []) (asked ⟨0, 24⟩ ∅ (blocks (2 ^ 26)))
    bytewise_partial asked_lt (by rw [hlen]; decide) (by rw [hcovered]; exact Nat.zero_le _)
  refine ⟨reply, hreply, hmsg, ?_⟩
  obtain ⟨r, hloop, hq, -⟩ := recvLoop_drain (o := ⟨0, 24⟩) ∅ (by decide) (blocks_wellFormed (2 ^ 26))
  rw [if_neg (List.ne_nil_of_mem hfive)] at hq
  have hend := (hloop _).trans (recvLoop_succeed ⟨0, 24⟩ [] [received reply] r)
  refine ⟨_, getProfileData_answered hend hq, hfive, ?_, rfl⟩
  obtain ⟨n, hn⟩ := List.mem_iff_getElem?.mp hfive
  rcases answers_lines bytewise_partial asked_lt hreply with ⟨-, hlines⟩ | ⟨herror, -⟩
  · rw [hcovered, List.take_zero] at hlines
    dsimp only
    rw [setNames_of_getElem? asked_nodup hn, hlines]
    exact congrArg some (nthLine_nil n)
  · rw [hmsg] at herror
    cases herror

/-- No nameid got a name that is not the profiled program's. -/
def Unpoisoned (t names : NameTable) (out : Outcome) : Prop :=
  ∀ x : Nat, names[x]? = none → out.names[x]? = none ∨ out.names[x]? = some (NameTable.get t x)

/-- The names under which the ending of a drain leaves the name table right. -/
def Harmless (t : NameTable) (ids : List Nat) : Ending → Prop
  | .closed => ∀ x ∈ ids, NameTable.get t x = ascii "<Asking>"
  | .refused _ => ∀ x ∈ ids, NameTable.get t x = ascii "<Asking>"
  | .unanswered => False
  | .cut _ _ => False
  | .answered reply => reply.msgId = MSG_NAMES ∧ (∀ x ∈ ids, (10 : UInt8) ∉ NameTable.get t x) ∧
      ∀ x ∈ ids.drop (covered ids), NameTable.get t x = []

theorem unpoisoned_iff (o : Offsets) (drain : List Part) {out : Outcome}
    (hout : ∀ x ∉ asked o names drain, out.names[x]? = names[x]?)
    (hin : ∀ x ∈ asked o names drain, out.names[x]? ≠ none) :
    Unpoisoned t names out ↔ ∀ x ∈ asked o names drain, out.names[x]? = some (NameTable.get t x) := by
  constructor
  · intro h x hx
    exact (h x (asked_new hx)).resolve_left (hin x hx)
  · intro h x hnew
    by_cases hx : x ∈ asked o names drain
    · exact Or.inr (h x hx)
    · exact Or.inl ((hout x hx).trans hnew)

theorem answered_unpoisoned_iff (hk : k.Partial) {r : Receiving}
    (hn : ∀ x : Nat, r.asked.names[x]? = if x ∈ asked o names drain then some (ascii "<Asking>") else names[x]?)
    (hreply : Answers k t other (0 :: asked o names drain) reply) :
    Unpoisoned t names ⟨true, setNames (asked o names drain) (ofText reply.payload) r.asked.names,
      storeCalls r⟩ ↔ Harmless t (asked o names drain) (.answered reply) := by
  rw [unpoisoned_iff o drain]
  · dsimp only [Harmless]
    rcases answers_lines hk asked_lt hreply with ⟨hmsg, hlines⟩ | ⟨hmsg, hempty, x, hx, hne⟩
    · rw [hlines, and_iff_right hmsg]
      exact setNames_lines_iff t asked_nodup _ _
    · refine iff_of_false ?_ ?_
      · -- the empty body of an error has an empty line for every nameid
        intro h
        obtain ⟨n, hn'⟩ := List.mem_iff_getElem?.mp hx
        have hline := h x hx
        rw [setNames_of_getElem? asked_nodup hn', hempty, nthLine_nil, Option.some.injEq] at hline
        exact hne hline.symm
      · rintro ⟨hnames, -⟩
        rw [hmsg] at hnames
        cases hnames
  · intro x hx
    dsimp only
    rw [setNames_of_not_mem hx, hn x, if_neg hx]
  · intro x hx
    obtain ⟨n, hn'⟩ := List.mem_iff_getElem?.mp hx
    dsimp only
    rw [setNames_of_getElem? asked_nodup hn']
    exact Option.some_ne_none _

theorem failed_unpoisoned_iff {r : Receiving}
    (hn : ∀ x : Nat, r.asked.names[x]? = if x ∈ asked o names drain then some (ascii "<Asking>") else names[x]?) :
    Unpoisoned t names ⟨false, r.asked.names, []⟩ ↔
      ∀ x ∈ asked o names drain, NameTable.get t x = ascii "<Asking>" := by
  rw [unpoisoned_iff o drain]
  · refine forall₂_congr (fun x hx => ?_)
    dsimp only
    rw [hn x, if_pos hx, Option.some.injEq, eq_comm]
  · intro x hx
    dsimp only
    rw [hn x, if_neg hx]
  · intro x hx
    dsimp only
    rw [hn x, if_pos hx]
    exact Option.some_ne_none _

/-- `GetProfileData` returns and leaves no wrong name exactly if nothing new was
drained or the ending does no harm: a drain without its end and a reply without
names keep what was written before they are known. -/
theorem names_unpoisoned_iff (k : Kernel) (hk : k.Partial) (t names : NameTable)
    (other : Int → Int → Bytes → Run (List Outgoing)) (o : Offsets) (hname : o.nameid + 8 ≤ o.recordSize)
    (drain : List Part) (hd : ∀ p ∈ drain, p.WellFormed o) (ending : Ending)
    (hend : ending.Valid k t other (asked o names drain)) :
    (∃ out, getProfileData o names (incoming drain ending) = .ok out ∧ Unpoisoned t names out) ↔
      asked o names drain = [] ∨ Harmless t (asked o names drain) ending := by
  obtain ⟨r, hloop, hq, hn⟩ := recvLoop_drain names hname hd
  have hfailed (rest : List MessageBuf) (h : recvLoop o rest r = .ok (.failed r)) :
      (∃ out, getProfileData o names (drain.map (fun p => received p.message) ++ rest) = .ok out ∧
        Unpoisoned t names out) ↔ ∀ x ∈ asked o names drain, NameTable.get t x = ascii "<Asking>" := by
    rw [getProfileData_failed ((hloop rest).trans h)]
    simp only [Except.ok.injEq, exists_eq_left']
    exact failed_unpoisoned_iff hn
  by_cases hnil : asked o names drain = []
  · rw [if_pos hnil] at hq
    refine iff_of_true ?_ (Or.inl hnil)
    have hkeep (success : Bool) (stores : List StoreCall) :
        Unpoisoned t names ⟨success, r.asked.names, stores⟩ := by
      intro x hx
      left
      dsimp only
      rw [hn x, hnil, if_neg List.not_mem_nil, hx]
    have hdone (rest : List MessageBuf) := (hloop (received (.message MSG_COMMAND_SUCCEED []) :: rest)).trans
      (recvLoop_succeed o [] rest r)
    cases ending with
    | closed => exact ⟨_, getProfileData_failed ((hloop []).trans rfl), hkeep _ _⟩
    | refused body => exact ⟨_, getProfileData_failed ((hloop _).trans (recvLoop_error o body [] r)),
      hkeep _ _⟩
    | unanswered => exact ⟨_, getProfileData_nothing (hdone []) hq, hkeep _ _⟩
    | cut reply n => exact ⟨_, getProfileData_nothing (hdone _) hq, hkeep _ _⟩
    | answered reply => exact ⟨_, getProfileData_nothing (hdone _) hq, hkeep _ _⟩
  · rw [if_neg hnil] at hq
    have hne : r.asked.queryNames ≠ [] := by
      rw [hq]
      exact List.cons_ne_nil 0 _
    rw [or_iff_right hnil]
    have hdone (rest : List MessageBuf) := (hloop (received (.message MSG_COMMAND_SUCCEED []) :: rest)).trans
      (recvLoop_succeed o [] rest r)
    cases ending with
    | closed => exact hfailed [] rfl
    | refused body => exact hfailed _ (recvLoop_error o body [] r)
    | unanswered =>
        refine iff_of_false ?_ id
        rintro ⟨out, hout, -⟩
        rw [incoming, Ending.messages, getProfileData_unanswered (hdone []) hne] at hout
        cases hout
    | cut reply n =>
        refine iff_of_false ?_ id
        rintro ⟨out, hout, -⟩
        rw [incoming, Ending.messages, getProfileData_cut hend (hdone _) hne] at hout
        cases hout
    | answered reply =>
        rw [incoming, Ending.messages, getProfileData_answered (hdone _) hq]
        simp only [Except.ok.injEq, exists_eq_left']
        exact answered_unpoisoned_iff hk hn (hend hnil)

theorem names_unpoisoned_iff_twoRecords : ∃ reply,
    (∃ out, getProfileData ⟨0, 24⟩ ∅ (incoming twoRecords (.answered reply)) = .ok out ∧
      Unpoisoned mainAndRun ∅ out) ↔
      asked ⟨0, 24⟩ ∅ twoRecords = [] ∨
        Harmless mainAndRun (asked ⟨0, 24⟩ ∅ twoRecords) (.answered reply) := by
  obtain ⟨reply, hreply, hmsg⟩ := answers_twoRecords
  refine ⟨reply, names_unpoisoned_iff bytewise bytewise_partial mainAndRun ∅ (fun _ _ _ => .ok []) ⟨0,
      24⟩ (by decide) twoRecords
    twoRecords_wellFormed (.answered reply) ?_⟩
  rw [asked_twoRecords]
  exact fun _ => hreply

theorem placeholder_remains : ∃ out, getProfileData ⟨0, 24⟩ ∅ (incoming twoRecords .closed) = .ok out ∧
    out.names[5]? = some (ascii "<Asking>") ∧ NameTable.get (.insert ∅ 5 (ascii "main")) 5 = ascii "main" ∧
      ¬ Unpoisoned (.insert ∅ 5 (ascii "main")) ∅ out := by
  obtain ⟨r, hloop, -, hn⟩ := recvLoop_drain (o := ⟨0, 24⟩) ∅ (by decide) twoRecords_wellFormed
  have hfive : r.asked.names[5]? = some (ascii "<Asking>") := by
    rw [hn 5, asked_twoRecords]
    rfl
  have hmain : NameTable.get (.insert ∅ 5 (ascii "main")) 5 = ascii "main" := by
    rw [NameTable.get, TreeMaps.getElem?_insert_self]
    rfl
  refine ⟨_, getProfileData_failed ((hloop []).trans rfl), hfive, hmain, ?_⟩
  intro h
  rcases h 5 (by simp) with hnone | hname
  · rw [hfive] at hnone
    cases hnone
  · rw [hfive, hmain] at hname
    exact absurd hname (by decide)

end Llprof.Link.NameTables
