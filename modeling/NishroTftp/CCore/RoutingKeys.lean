import NishroTftp.CCore.SlotStep
import NishroTftp.Lib.Runs
/-
  The keys packets are routed by.

  A packet is handed to the first slot in use with its address, client port and TID.  A session keeps
  the key it was opened with until its slot is freed, so two slots in use can only come to share one
  when a session is OPENED: the TID is a 16-bit counter modulo 20000, and nothing asks whether the
  client still has a session under that number.  The counter moves on requests that are turned away
  too, so 20000 requests bring it round while one session lasts.
-/
namespace Nishro.CCore

open Runs

/-- The key of a session. -/
def Session.key (s : Session) : UInt32 × UInt16 × UInt16 := (s.clientIp, s.clientPort, s.serverPort)

/-! ## A session keeps its key -/

/-- The session has its key still, and its slot is in use if it was. -/
structure Kept (s s' : Session) : Prop where
  key : s'.key = s.key
  inUse : s.state ≠ .free → s'.state ≠ .free

theorem Kept.refl (s : Session) : Kept s s := ⟨rfl, id⟩

theorem Kept.trans {s s' s'' : Session} (h : Kept s s') (h' : Kept s' s'') : Kept s s'' :=
  ⟨h'.key.trans h.key, fun hs => h'.inUse (h.inUse hs)⟩

/-- A session that is over. -/
theorem Kept.done {s s' : Session} (hkey : s'.key = s.key) (hst : s'.state = .done) : Kept s s' :=
  ⟨hkey, fun _ => by rw [hst]; decide⟩

section Calls

variable (cfg : Config) (now : Clock) (c : Ctx)

theorem rrqPrebuildNext_kept (s : Session) : Kept s (rrqPrebuildNext cfg s) := by
  obtain ⟨_, _, _, _, _, _, _, _, h⟩ := rrqPrebuildNext_frame cfg s
  rw [h]
  exact ⟨rfl, id⟩

theorem rrqSendWindow_kept : Kept c.s (rrqSendWindow cfg now c).s := by
  rcases rrqSendWindow_cases cfg now c with ⟨-, h⟩ | ⟨src, -, ⟨-, h⟩ | ⟨-, h⟩⟩
  · rw [h]
    exact .refl _
  · rw [h]
    exact .done (by simp [windowFailed, Session.key]) (by simp [windowFailed])
  · rw [h]
    refine Kept.trans ?_ (rrqPrebuildNext_kept cfg _)
    exact ⟨rfl, id⟩

theorem rrqOnAck_kept (ack : UInt16) : Kept c.s (rrqOnAck cfg now ack c).s := by
  rcases rrqOnAck_cases cfg now c ack with
    ⟨-, h⟩ | ⟨-, -, h⟩ | ⟨-, -, -, h⟩ | ⟨-, -, -, h⟩ <;> rw [h]
  · exact .refl _
  · exact .done (by simp [rrqFinish, Session.key]) (by simp [rrqFinish])
  · refine Kept.trans ?_ (rrqPrebuildNext_kept cfg _)
    rw [emitSessionProgress_s]
    exact ⟨rfl, id⟩
  · refine Kept.trans ?_ (rrqSendWindow_kept cfg now _)
    rw [emitSessionProgress_s]
    exact ⟨rfl, id⟩

theorem wrqFinish_kept : Kept c.s (wrqFinish now c).s := by
  refine .done ?_ (wrqFinish_state now c)
  unfold wrqFinish
  simp only
  split <;> rfl

theorem wrqOnData_kept (block : UInt16) (payload : Bytes) :
    Kept c.s (wrqOnData cfg now block payload c).s := by
  rcases wrqOnData_cases cfg now c block payload with ⟨-, h⟩ | ⟨-, h⟩ | ⟨-, h⟩ <;> rw [h]
  · exact ⟨rfl, id⟩
  · unfold wrqInOrder
    simp only
    split
    · exact .done (by simp [Session.key]) (by simp)
    split
    · exact .done (by simp [Session.key]) (by simp)
    split
    · refine Kept.trans ?_ (wrqFinish_kept now _)
      simp only [wrqSendAck_s, emitSessionProgress_s]
      exact ⟨rfl, id⟩
    · simp only [wrqSendAck_s, emitSessionProgress_s]
      exact ⟨rfl, id⟩
  · exact .refl _

theorem onSessionPacket_kept (tftp : Bytes) : Kept c.s (onSessionPacket cfg now tftp c).s := by
  rcases onSessionPacket_cases cfg now c tftp with
    h | ⟨-, -, h⟩ | ⟨-, h⟩ | ⟨-, -, h⟩ | ⟨-, h⟩ <;> rw [h]
  · exact .refl _
  · refine Kept.trans ?_ (rrqSendWindow_kept cfg now (dataPhase c))
    exact ⟨rfl, fun _ => by simp [dataPhase]⟩
  · exact rrqOnAck_kept cfg now c _
  · exact Kept.trans ⟨rfl, id⟩ (wrqOnData_kept cfg now (countReceived tftp c) _ _)
  · exact .done rfl rfl

/-- A tick frees the slot or leaves the session its key. -/
theorem tickSlot_kept :
    (tickSlot cfg now c).s.state = .free ∨
      (tickSlot cfg now c).s.key = c.s.key ∧ c.s.state ≠ .free := by
  rcases tickSlot_cases cfg now c with
    ⟨hst, h⟩ | ⟨-, h⟩ | ⟨hst, -, h⟩ | ⟨-, -, -, h⟩ | ⟨hst, -, -, h⟩ <;> rw [h]
  · exact .inl hst
  · exact .inl rfl
  · exact .inr ⟨rfl, hst.1⟩
  · exact .inl rfl
  refine .inr ⟨?_, hst.1⟩
  unfold retransmit
  split
  · rfl
  · exact (Kept.trans ⟨rfl, id⟩ (rrqSendWindow_kept cfg now _)).key
  · rfl
  · rfl

/-- A session that is opened has the key of its request. -/
theorem startSession_kept (m : SessMgr) (env : Env) (p : Sender) (op : UInt16) (req : TftpReq) :
    (startSession m now env p op req c).s.key =
        (p.clientIp, p.clientPort, serverTid m.nextServerTid) ∧
      (startSession m now env p op req c).s.state ≠ .free := by
  have hkey : (newSession m now p op req).key =
      (p.clientIp, p.clientPort, serverTid m.nextServerTid) := rfl
  have hreject : ∀ code msg reason (c : Ctx),
      (rejectRequest m.cfg now code msg reason c).s.key = c.s.key ∧
        (rejectRequest m.cfg now code msg reason c).s.state ≠ .free := by
    intro code msg reason c
    rw [rejectRequest_s]
    exact ⟨rfl, by simp⟩
  have hwindow : ∀ c : Ctx, (rrqSendWindow m.cfg now (dataPhase c)).s.key = c.s.key ∧
      (rrqSendWindow m.cfg now (dataPhase c)).s.state ≠ .free := by
    intro c
    have h := rrqSendWindow_kept m.cfg now (dataPhase c)
    exact ⟨h.key, h.inUse (by simp [dataPhase])⟩
  unfold startSession
  simp only
  split
  · rcases startRrq_cases m.cfg now { c with s := newSession m now p op req } env req with
      ⟨code, msg, reason, src, tot, h⟩ | ⟨src, sz, -, h⟩ <;> rw [h]
    · exact hreject code msg reason _
    · unfold rrqBegin
      simp only
      split
      · exact ⟨by rw [sendTftp_s]; exact hkey, by simp⟩
      · exact hwindow _
  · rcases startWrq_cases m.cfg now { c with s := newSession m now p op req } env req with
      ⟨-, code, msg, reason, src, h⟩ | ⟨-, src, -, h⟩ <;> rw [h]
    · exact hreject code msg reason _
    · unfold wrqBegin
      simp only
      split
      · exact ⟨by rw [sendTftp_s]; exact hkey, by simp⟩
      · exact ⟨by exact hkey, by simp⟩

end Calls

/-! ## The keys of the table -/

/-- No two slots in use share a key. -/
def KeysUnique (m : SessMgr) : Prop :=
  ∀ i j, (m.slots i).state ≠ .free → (m.slots j).state ≠ .free →
    (m.slots i).key = (m.slots j).key → i = j

/-- A packet with the key of a session is handed to that session. -/
def WellRouted (m : SessMgr) : Prop :=
  ∀ i, (m.slots i).state ≠ .free →
    findOrAlloc m (m.slots i).clientIp (m.slots i).clientPort (m.slots i).serverPort = some i

theorem wellRouted_iff (m : SessMgr) : WellRouted m ↔ KeysUnique m := by
  constructor
  · intro h i j hi hj hkey
    simp only [Session.key, Prod.mk.injEq] at hkey
    have hfind := h i hi
    rw [hkey.1, hkey.2.1, hkey.2.2, h j hj] at hfind
    exact (Option.some.inj hfind).symm
  · intro h i hi
    cases hfind : findOrAlloc m (m.slots i).clientIp (m.slots i).clientPort
        (m.slots i).serverPort with
    | none =>
      have := List.find?_eq_none.1 hfind i (List.mem_finRange i)
      simp [hi] at this
    | some j =>
      obtain ⟨hj, hip, hc, hs⟩ := findOrAlloc_match hfind
      rw [h j i hj hi (by simp [Session.key, hip, hc, hs])]

/-- The slot an event opens a session in, and the key of that session. -/
def opening (m : SessMgr) : Event → Option (Fin SESS_MAX × UInt32 × UInt16 × UInt16)
  | .tftp _ _ p tftp =>
    (opens m p tftp).map fun ri => (ri.2, p.clientIp, p.clientPort, serverTid m.nextServerTid)
  | .tick _ | .configChanged _ => none

/-- **What an event does to a key.**  The slot has been given a new one, or it is free, or it has the
    one it had. -/
theorem step_key (m : SessMgr) (e : Event) (i : Fin SESS_MAX) :
    (∃ k, opening m e = some (i, k) ∧ ((step m e).slots i).key = k ∧
      ((step m e).slots i).state ≠ .free) ∨
    ((∀ k, opening m e ≠ some (i, k)) ∧
      (((step m e).slots i).state ≠ .free →
        ((step m e).slots i).key = (m.slots i).key ∧ (m.slots i).state ≠ .free)) := by
  obtain ⟨b, st, -, hs, -⟩ := stepOut_slot m e i
  have hs : (step m e).slots i = (slotCall m i e ⟨m.slots i, b, st, []⟩).s := hs
  rw [hs]
  cases e with
  | configChanged cfg => exact .inr ⟨fun k => by simp [opening], fun h => ⟨rfl, h⟩⟩
  | tick now =>
    refine .inr ⟨fun k => by simp [opening], fun h => ?_⟩
    exact (tickSlot_kept m.cfg now ⟨m.slots i, b, st, []⟩).resolve_left h
  | tftp now env p tftp =>
    cases hop : opens m p tftp with
    | some ri =>
      obtain ⟨req, j⟩ := ri
      simp only [slotCall, opening, hop, Option.map_some, Option.some.injEq, Prod.mk.injEq]
      by_cases hj : j = i
      · left
        rw [if_pos hj]
        exact ⟨_, ⟨hj, rfl⟩, startSession_kept now ⟨m.slots i, b, st, []⟩ m env p _ req⟩
      · right
        rw [if_neg hj]
        exact ⟨fun k h => hj (Prod.mk.inj (Option.some.inj h)).1, fun h => ⟨rfl, h⟩⟩
    | none =>
      right
      simp only [slotCall, opening, hop]
      refine ⟨fun k => by simp, ?_⟩
      by_cases hr : reaches m p tftp = some i
      · rw [if_pos hr]
        intro _
        refine ⟨(onSessionPacket_kept m.cfg now ⟨m.slots i, b, st, []⟩ tftp).key, ?_⟩
        exact (findOrAlloc_match (reaches_eq_some.mp hr).2.2).1
      · rw [if_neg hr]
        exact fun h => ⟨rfl, h⟩

variable {m : SessMgr}

/-- An event that opens a session leaves the other slots alone. -/
theorem step_opening_other {e : Event} {i j : Fin SESS_MAX} {k : UInt32 × UInt16 × UInt16}
    (h : opening m e = some (i, k)) (hj : j ≠ i) : (step m e).slots j = m.slots j := by
  obtain ⟨b, st, -, hs, -⟩ := stepOut_slot m e j
  have hs : (step m e).slots j = (slotCall m j e ⟨m.slots j, b, st, []⟩).s := hs
  rw [hs]
  cases e with
  | configChanged cfg => rfl
  | tick now => cases h
  | tftp now env p tftp =>
    cases hop : opens m p tftp with
    | none => simp [opening, hop] at h
    | some ri =>
      simp only [opening, hop, Option.map_some, Option.some.injEq, Prod.mk.injEq] at h
      simp only [slotCall, hop]
      rw [if_neg (by rw [h.1]; exact Ne.symm hj)]

/-- The slot that is opened was free. -/
theorem opening_free {e : Event} {i : Fin SESS_MAX} {k : UInt32 × UInt16 × UInt16}
    (h : opening m e = some (i, k)) : (m.slots i).state = .free := by
  cases e with
  | configChanged cfg => cases h
  | tick now => cases h
  | tftp now env p tftp =>
    cases hop : opens m p tftp with
    | none => simp [opening, hop] at h
    | some ri =>
      simp only [opening, hop, Option.map_some, Option.some.injEq, Prod.mk.injEq] at h
      rw [← h.1]
      exact allocSlot_free (opens_eq_some.mp hop).2.2.2.2

/-- If the event opens a session, no slot in use has the key the session will have. -/
def KeyFresh (m : SessMgr) (e : Event) : Prop :=
  ∀ i k, opening m e = some (i, k) → ∀ j, (m.slots j).state ≠ .free → (m.slots j).key ≠ k

theorem keysUnique_step_iff (h : KeysUnique m) (e : Event) :
    KeysUnique (step m e) ↔ KeyFresh m e := by
  constructor
  · intro h' i k ho j hj hkey
    have hfree := opening_free ho
    have hne : j ≠ i := by
      rintro rfl
      exact hj hfree
    have hother := step_opening_other ho hne
    rcases step_key m e i with ⟨k', ho', hk', hst⟩ | ⟨hno, -⟩
    · rw [ho] at ho'
      obtain ⟨-, rfl⟩ := Prod.mk.inj (Option.some.inj ho')
      refine hne (h' j i (by rw [hother]; exact hj) hst ?_)
      rw [hother, hkey, hk']
    · exact hno k ho
  · intro hfresh i j hi hj hkey
    rcases step_key m e i with ⟨k, ho, hk, -⟩ | ⟨-, hi'⟩
    · rcases step_key m e j with ⟨k', ho', -⟩ | ⟨-, hj'⟩
      · rw [ho] at ho'
        exact (Prod.mk.inj (Option.some.inj ho')).1
      · obtain ⟨hkj, hjuse⟩ := hj' hj
        exact absurd (by rw [← hkj, ← hkey, hk]) (hfresh i k ho j hjuse)
    · obtain ⟨hki, hiuse⟩ := hi' hi
      rcases step_key m e j with ⟨k, ho, hk, -⟩ | ⟨-, hj'⟩
      · exact absurd (by rw [← hki, hkey, hk]) (hfresh j k ho i hiuse)
      · obtain ⟨hkj, hjuse⟩ := hj' hj
        exact h i j hiuse hjuse (by rw [← hki, ← hkj, hkey])

/-- **Routing keys.**  Along a run of the C engine no two slots in use ever share a key, and every
    packet with the key of a session is handed to that session, exactly when no request is taken
    while a slot in use has the request's address and port and the TID the counter gives out
    next. -/
theorem routing_keys_iff (cfg : Config) (es : List Event) :
    Always step (fun m => KeysUnique m ∧ WellRouted m) (sessmgrNew cfg) es ↔
      Along step KeyFresh (sessmgrNew cfg) es := by
  have hstart : KeysUnique (sessmgrNew cfg) := fun i j hi => absurd rfl hi
  constructor
  · intro h
    exact h.along fun m e hm hm' => (keysUnique_step_iff hm.1 e).1 hm'.1
  · intro h
    have hall : Always step KeysUnique (sessmgrNew cfg) es :=
      Along.always (fun m e (hm : KeysUnique m) => (keysUnique_step_iff hm e).2) hstart h
    exact hall.mono fun m hm => ⟨hm, (wellRouted_iff m).2 hm⟩

/-! ## Twenty thousand requests -/

/-- A request that is turned away moves the counter and nothing else. -/
theorem step_busy {p : Sender} {tftp : Bytes} {req : TftpReq} (now : Clock) (env : Env)
    (hlen : 2 ≤ tftp.length) (hreq : isRequest tftp = true) (hacl : m.admits p = true)
    (hparse : tftpParseRequest tftp = some req) (hbusy : allocSlot m = none) :
    step m (.tftp now env p tftp) = { m with nextServerTid := m.nextServerTid + 1 } := by
  have hlt : ¬ tftp.length < 2 := by omega
  simp [step, stepOut, sessmgrOnTftp, onRequest, hlt, hreq, hacl, hparse, hbusy, replyBusy]

theorem run_busy {p : Sender} {tftp : Bytes} {req : TftpReq} (now : Clock) (env : Env)
    (hlen : 2 ≤ tftp.length) (hreq : isRequest tftp = true)
    (hparse : tftpParseRequest tftp = some req) (n : Nat) (hacl : m.admits p = true)
    (hbusy : allocSlot m = none) :
    run step m (List.replicate n (.tftp now env p tftp)) =
      { m with nextServerTid := m.nextServerTid + UInt16.ofNat n } := by
  induction n generalizing m with
  | zero => simp
  | succ n ih =>
    rw [List.replicate_succ, run_cons, step_busy now env hlen hreq hacl hparse hbusy,
      -- neither the ACL nor the table looks at the counter
      ih (m := { m with nextServerTid := m.nextServerTid + 1 }) hacl hbusy]
    simp only [UInt16.ofNat_add]
    rw [UInt16.add_assoc, UInt16.add_comm 1]
    rfl

/-- Two sessions at a time. -/
def pairConfig : Config := { uploadConfig with maxSessions := 2 }

/-- 10.0.0.2:2000. -/
def otherHost : Sender := ⟨Vector.replicate 6 2, 0x0A000002, 2000, 69, VLAN_NONE⟩

/-- An upload of `host` begins; `otherHost` asks for a file that does not exist, which fills the
    table until the next tick. -/
def fullTable : SessMgr :=
  run step (sessmgrNew pairConfig)
    [.tftp clock0 uploadEnv host (requestBytes 2 []),
     .tftp clock0 uploadEnv otherHost (requestBytes 1 [])]

/-- The counter has come round, a tick makes room, and `host` starts another upload from the port of
    the first one. -/
def roundTable : SessMgr :=
  run step { fullTable with nextServerTid := fullTable.nextServerTid + UInt16.ofNat 19998 }
    [.tick clock0, .tftp clock0 uploadEnv host (requestBytes 2 [])]

def slot1 : Fin SESS_MAX := ⟨1, by decide⟩

/-- While the first upload of `host` goes on, 19998 requests of `otherHost` are turned away and the
    counter comes round; then `host` starts another upload from the same port, and both have one
    key. -/
theorem key_given_twice :
    ¬ Always step (fun m => KeysUnique m ∧ WellRouted m) (sessmgrNew pairConfig)
      ([.tftp clock0 uploadEnv host (requestBytes 2 []),
        .tftp clock0 uploadEnv otherHost (requestBytes 1 [])] ++
        List.replicate 19998 (.tftp clock0 uploadEnv otherHost (requestBytes 1 [])) ++
        [.tick clock0, .tftp clock0 uploadEnv host (requestBytes 2 [])]) := by
  intro h
  have hparse : tftpParseRequest (requestBytes 1 []) =
      some ⟨TFTP_RRQ, ascii "f", ascii "octet", none, none, none, none⟩ := by decide
  have hlast := h.last.1
  rw [run_append, run_append, show run step (sessmgrNew pairConfig) _ = fullTable from rfl,
    run_busy clock0 uploadEnv (by decide) (by decide) hparse 19998 (by decide +kernel)
      (by decide +kernel)] at hlast
  have hlast : KeysUnique roundTable := hlast
  have hclash : ((roundTable.slots slot0).state ≠ .free ∧ (roundTable.slots slot1).state ≠ .free) ∧
      (roundTable.slots slot0).key = (roundTable.slots slot1).key := by
    decide +kernel
  exact absurd (hlast slot0 slot1 hclash.1.1 hclash.1.2 hclash.2) (by decide)

end Nishro.CCore
