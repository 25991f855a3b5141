import NishroTftp.CCore.SlotStep
import NishroTftp.Lib.Runs
/-
  Timers of the C engine: which sessions are timed out when their client goes silent.

  `sessmgr_tick` only looks at a session whose `next_timeout_ms` is set.  A session is therefore
  safe to leave to the timer when it is ARMED: its deadline is set and its retransmission count
  has not passed `MAX_RETRANS`.  Every send helper of `session.c` arms the timer except one: the
  branch of `start_wrq` that answers a request with an OACK.  So a run keeps every live session
  armed exactly as long as no upload with an acknowledged option gets past the checks; the session
  of such an upload is never looked at again.
-/
namespace Nishro.CCore

open Nishro.Runs

/-! ## Armed sessions -/

/-- The timer will look at this session, and has not given up on it. -/
structure Armed (s : Session) : Prop where
  timer : s.nextTimeoutMs ≠ 0
  retrans : s.retransCount ≤ MAX_RETRANS

/-- If a transfer is in progress, it is armed. -/
def Session.Watched (s : Session) : Prop := s.live → Armed s

theorem watched_of_not_live {s : Session} (h : s.live = false) : s.Watched := by
  intro hl
  rw [h] at hl
  cases hl

theorem toNat_deadline (now : Clock) (s : Session) :
    (deadline now s).toNat = now.ms.toNat + s.timeoutSec.toNat * 1000 := by
  have h1 := now.small
  have h2 := s.timeoutSec.toNat_lt
  simp only [deadline, UInt64.toNat_add, UInt64.toNat_mul, UInt16.toNat_toUInt64,
    UInt64.reduceToNat]
  omega

/-- A deadline is never the 0 that stands for "no timer". -/
theorem deadline_ne_zero (now : Clock) (s : Session) : deadline now s ≠ 0 := by
  intro h
  have h1 := toNat_deadline now s
  have h2 := now.pos
  rw [h, UInt64.toNat_zero] at h1
  omega

/-! ## The calls keep sessions armed -/

section Calls

variable {cfg : Config} {now : Clock} {c : Ctx}

/-- `rrq_send_window` arms the timer whenever it has a source; the count is not touched. -/
theorem rrqSendWindow_watched (hsrc : c.s.src.isSome ∨ c.s.nextTimeoutMs ≠ 0)
    (hr : c.s.retransCount ≤ MAX_RETRANS) : (rrqSendWindow cfg now c).s.Watched := by
  rcases rrqSendWindow_cases cfg now c with ⟨hnone, h⟩ | ⟨src, -, ⟨-, h⟩ | ⟨-, h⟩⟩ <;> rw [h]
  · intro _
    exact ⟨hsrc.resolve_left (by simp [hnone]), hr⟩
  · exact watched_of_not_live (Session.not_live_of_done (by simp [windowFailed]))
  · intro _
    exact ⟨by simp [windowSent, deadline_ne_zero], by simpa [windowSent] using hr⟩

theorem rrqOnAck_watched (ack : UInt16) (hc : Armed c.s) :
    (rrqOnAck cfg now ack c).s.Watched := by
  rcases rrqOnAck_cases cfg now c ack with ⟨-, h⟩ | ⟨-, -, h⟩ | ⟨-, -, -, h⟩ | ⟨-, -, -, h⟩ <;>
    rw [h]
  · exact fun _ => hc
  · exact watched_of_not_live (Session.not_live_of_done rfl)
  · intro _
    exact ⟨by simp [rrqFastPath, deadline_ne_zero], by simp [rrqFastPath, ackAdvance]⟩
  · exact rrqSendWindow_watched (.inr (by simpa [ackAdvance] using hc.timer)) (by simp [ackAdvance])

theorem wrqOnData_watched (block : UInt16) (payload : Bytes) (hc : Armed c.s) :
    (wrqOnData cfg now block payload c).s.Watched := by
  rcases wrqOnData_cases cfg now c block payload with ⟨-, h⟩ | ⟨-, h⟩ | ⟨-, h⟩ <;> rw [h]
  · exact fun _ => ⟨by simp [deadline_ne_zero], by simpa using hc.retrans⟩
  · unfold wrqInOrder
    simp only
    split
    · exact watched_of_not_live (Session.not_live_of_done rfl)
    · split
      · exact watched_of_not_live (Session.not_live_of_done rfl)
      · split
        · exact watched_of_not_live (Session.not_live_of_done (wrqFinish_state ..))
        · exact fun _ => ⟨by simp [deadline_ne_zero], by simp⟩
  · exact fun _ => hc

theorem onSessionPacket_watched (tftp : Bytes) (hc : c.s.Watched) :
    (onSessionPacket cfg now tftp c).s.Watched := by
  rcases onSessionPacket_cases cfg now c tftp with
    h | ⟨hst, -, h⟩ | ⟨hst, h⟩ | ⟨-, hst, h⟩ | ⟨-, h⟩ <;> rw [h]
  · exact hc
  · have ha := hc (by simp [Session.live, hst])
    exact rrqSendWindow_watched (.inr ha.timer) ha.retrans
  · exact rrqOnAck_watched _ (hc (by simp [Session.live, hst]))
  · have ha : Armed (countReceived tftp c).s := hc (by simp [Session.live, hst])
    exact wrqOnData_watched _ _ ha
  · exact watched_of_not_live (Session.not_live_of_done rfl)

theorem retransmit_watched (hc : Armed c.s) : (retransmit cfg now c).s.Watched := by
  unfold retransmit
  split
  · exact fun _ => ⟨deadline_ne_zero now c.s, hc.retrans⟩
  · exact rrqSendWindow_watched (.inr hc.timer) hc.retrans
  · exact fun _ => ⟨by simp [deadline_ne_zero], by simpa using hc.retrans⟩
  · exact fun _ => hc

theorem rrqSendWindow_retransCount :
    (rrqSendWindow cfg now c).s.retransCount = c.s.retransCount := by
  rcases rrqSendWindow_cases cfg now c with ⟨-, h⟩ | ⟨src, -, ⟨-, h⟩ | ⟨-, h⟩⟩ <;> rw [h]
  · simp [windowFailed]
  · simp [windowSent]

theorem retransmit_retransCount : (retransmit cfg now c).s.retransCount = c.s.retransCount := by
  unfold retransmit
  split
  · rfl
  · exact rrqSendWindow_retransCount
  · simp
  · rfl

theorem tickSlot_watched (hc : c.s.Watched) : (tickSlot cfg now c).s.Watched := by
  rcases tickSlot_cases cfg now c with
    ⟨-, h⟩ | ⟨-, h⟩ | ⟨-, -, h⟩ | ⟨-, -, -, h⟩ | ⟨hl, -, hmax, h⟩ <;> rw [h]
  · exact hc
  · exact watched_of_not_live (Session.not_live_of_free rfl)
  · exact hc
  · exact watched_of_not_live (Session.not_live_of_free rfl)
  · refine retransmit_watched ⟨(hc (Session.live_iff.mpr hl)).timer, ?_⟩
    exact UInt32.not_lt.mp hmax

theorem rrqBegin_watched (env : Env) (req : TftpReq) (sz : UInt64) (hsrc : c.s.src.isSome)
    (hr : c.s.retransCount ≤ MAX_RETRANS) : (rrqBegin cfg now env req sz c).s.Watched := by
  unfold rrqBegin
  simp only
  split
  · exact fun _ => ⟨deadline_ne_zero now _, by simpa [emitSessionStart, withOptions] using hr⟩
  · exact rrqSendWindow_watched (.inl hsrc) hr

theorem startRrq_watched (env : Env) (req : TftpReq) (hr : c.s.retransCount ≤ MAX_RETRANS) :
    (startRrq cfg now env req c).s.Watched := by
  rcases startRrq_cases cfg now c env req with ⟨_, _, _, _, _, h⟩ | ⟨src, sz, -, h⟩ <;> rw [h]
  · exact watched_of_not_live (Session.not_live_of_done (by simp))
  · exact rrqBegin_watched env req sz rfl hr

/-- `start_wrq` past its checks arms the timer exactly when it does NOT answer with an OACK. -/
theorem wrqBegin_watched_iff (req : TftpReq) (hr : c.s.retransCount ≤ MAX_RETRANS)
    (hoff : c.s.nextTimeoutMs = 0) :
    (wrqBegin cfg now req c).s.Watched ↔ hasOptions req = false := by
  unfold wrqBegin
  cases ho : hasOptions req with
  | false =>
    simp only [emitSessionStart, iff_true]
    exact fun _ => ⟨by simp [deadline_ne_zero], by simpa [withOptions] using hr⟩
  | true =>
    simp only [emitSessionStart, reduceCtorEq, iff_false]
    exact fun h => (h rfl).timer (by simp [withOptions, hoff])

theorem hasOptions_negotiate (req : TftpReq) : hasOptions (negotiate cfg req) = hasOptions req := by
  simp [hasOptions, negotiate]

theorem startWrq_watched_iff (env : Env) (req : TftpReq) (hr : c.s.retransCount ≤ MAX_RETRANS)
    (hoff : c.s.nextTimeoutMs = 0) :
    (startWrq cfg now env req c).s.Watched ↔ ¬ (acceptsWrq cfg env req ∧ hasOptions req) := by
  rcases startWrq_cases cfg now c env req with ⟨hacc, _, _, _, _, h⟩ | ⟨hacc, src, -, h⟩ <;> rw [h]
  · exact iff_of_true (watched_of_not_live (Session.not_live_of_done (by simp))) (by simp [hacc])
  · refine (wrqBegin_watched_iff (negotiate cfg req) ?_ ?_).trans ?_
    · exact hr
    · exact hoff
    · simp [hasOptions_negotiate, hacc]

/-- While a session stays live, each expiry adds one to its count and nothing else does. -/
theorem tickSlot_retrans (hl : (tickSlot cfg now c).s.live) :
    c.s.live ∧ (tickSlot cfg now c).s.retransCount =
      c.s.retransCount + if expired now c.s then 1 else 0 := by
  rcases tickSlot_cases cfg now c with
    ⟨hst, h⟩ | ⟨-, h⟩ | ⟨hst, hexp, h⟩ | ⟨-, -, -, h⟩ | ⟨hst, hexp, -, h⟩ <;> rw [h] at hl ⊢
  · rw [Session.not_live_of_free hst] at hl
    cases hl
  · cases hl
  · exact ⟨hl, by simp [hexp]⟩
  · cases hl
  · refine ⟨Session.live_iff.mpr hst, ?_⟩
    rw [retransmit_retransCount, hexp]
    rfl

end Calls

/-! ## The table -/

/-- Every transfer in progress is armed. -/
def AllWatched (m : SessMgr) : Prop := ∀ i, (m.slots i).Watched

/-- This event is an upload request with an acknowledged option, and it passes every check. -/
def opensOptionWrq (m : SessMgr) : Event → Prop
  | .tftp _ env p tftp => ∃ req i, opens m p tftp = some (req, i) ∧ at16 tftp 0 = TFTP_WRQ ∧
      acceptsWrq m.cfg env req ∧ hasOptions req
  | _ => False

/-- A payload that opens a session is an RRQ or a WRQ. -/
theorem opens_opcode {m : SessMgr} {p : Sender} {tftp : Bytes} {req : TftpReq}
    {i : Fin SESS_MAX} (h : opens m p tftp = some (req, i)) :
    at16 tftp 0 = TFTP_RRQ ∨ at16 tftp 0 = TFTP_WRQ := by
  simpa [isRequest] using (opens_eq_some.mp h).2.1

/-- **Where the timer is forgotten.**  A table whose transfers are all armed stays so under an
    event exactly when the event does not open an upload answered with an OACK. -/
theorem step_allWatched_iff (m : SessMgr) (e : Event) (hm : AllWatched m) :
    AllWatched (step m e) ↔ ¬ opensOptionWrq m e := by
  have hslot : ∀ i, ∃ b st, (step m e).slots i = (slotCall m i e ⟨m.slots i, b, st, []⟩).s :=
    fun i => let ⟨b, st, _, h, _⟩ := stepOut_slot m e i; ⟨b, st, h⟩
  cases e with
  | tick now =>
    refine iff_of_true (fun i => ?_) id
    obtain ⟨b, st, h⟩ := hslot i
    rw [h]
    exact tickSlot_watched (hm i)
  | configChanged cfg => exact iff_of_true hm id
  | tftp now env p tftp =>
    cases ho : opens m p tftp with
    | none =>
      refine iff_of_true (fun i => ?_) (by simp [opensOptionWrq, ho])
      obtain ⟨b, st, h⟩ := hslot i
      simp only [slotCall, ho] at h
      rw [h]
      split
      · exact onSessionPacket_watched tftp (hm i)
      · exact hm i
    | some ri =>
      obtain ⟨req, j⟩ := ri
      -- only the slot that is opened changes
      have hother : ∀ i, j ≠ i → ((step m (.tftp now env p tftp)).slots i).Watched := by
        intro i hij
        obtain ⟨b, st, h⟩ := hslot i
        simp only [slotCall, ho, if_neg hij] at h
        rw [h]
        exact hm i
      have hopened : ((step m (.tftp now env p tftp)).slots j).Watched ↔
          ¬ (at16 tftp 0 = TFTP_WRQ ∧ acceptsWrq m.cfg env req ∧ hasOptions req) := by
        obtain ⟨b, st, h⟩ := hslot j
        simp only [slotCall, ho, if_true, startSession] at h
        rw [h]
        rcases opens_opcode ho with hop | hop
        · have hne : TFTP_RRQ ≠ TFTP_WRQ := by decide
          simp only [hop, if_true, hne, false_and, not_false_eq_true, iff_true]
          exact startRrq_watched env req UInt32.zero_le
        · have hne : TFTP_WRQ ≠ TFTP_RRQ := by decide
          simp only [hop, if_neg hne, true_and]
          exact startWrq_watched_iff env req UInt32.zero_le rfl
      have hall : AllWatched (step m (.tftp now env p tftp)) ↔
          ((step m (.tftp now env p tftp)).slots j).Watched := by
        refine ⟨fun h => h j, fun h i => ?_⟩
        by_cases hij : j = i
        · exact hij ▸ h
        · exact hother i hij
      rw [hall, hopened]
      simp [opensOptionWrq, ho]

/-! ## A client that goes silent -/

/-- Among ticks at these times, with no packet in between, how many find slot `i` live and its
    timer expired. -/
def expiries (i : Fin SESS_MAX) : SessMgr → List Clock → Nat
  | _, [] => 0
  | m, now :: nows =>
    (if (m.slots i).live && expired now (m.slots i) then 1 else 0) +
      expiries i (step m (.tick now)) nows

/-- What "timed out when silent" needs of a table: every transfer is armed, a tick at or after its
    deadline finds its timer expired, and no slot is still in use after more than `MAX_RETRANS`
    expiries without a packet. -/
structure Supervised (m : SessMgr) : Prop where
  armed : ∀ i, (m.slots i).live → Armed (m.slots i)
  due : ∀ i now, (m.slots i).live → (m.slots i).nextTimeoutMs ≤ now.ms → expired now (m.slots i)
  silent : ∀ i nows, ((run step m (nows.map .tick)).slots i).live →
    expiries i m nows ≤ MAX_RETRANS.toNat

theorem tick_retrans {m : SessMgr} {now : Clock} {i : Fin SESS_MAX}
    (hl : ((step m (.tick now)).slots i).live) :
    (m.slots i).live ∧ ((step m (.tick now)).slots i).retransCount =
      (m.slots i).retransCount + if expired now (m.slots i) then 1 else 0 := by
  obtain ⟨b, st, -, h, -⟩ := stepOut_slot m (.tick now) i
  simp only [step, h] at hl ⊢
  exact tickSlot_retrans hl

/-- Over any number of ticks, a slot that is still live has counted every expiry. -/
theorem expiries_le (i : Fin SESS_MAX) (nows : List Clock) (m : SessMgr) (hm : AllWatched m)
    (hl : ((run step m (nows.map .tick)).slots i).live) :
    (m.slots i).live ∧ (m.slots i).retransCount.toNat + expiries i m nows ≤ MAX_RETRANS.toNat := by
  induction nows generalizing m with
  | nil => exact ⟨hl, by simpa [expiries, UInt32.le_iff_toNat_le] using (hm i hl).retrans⟩
  | cons now nows ih =>
    rw [List.map_cons, run_cons] at hl
    have hm' : AllWatched (step m (.tick now)) := (step_allWatched_iff m _ hm).mpr id
    obtain ⟨hl', hle⟩ := ih (step m (.tick now)) hm' hl
    obtain ⟨hlive, hcount⟩ := tick_retrans hl'
    have hmax : (m.slots i).retransCount.toNat ≤ 5 := UInt32.le_iff_toNat_le.mp (hm i hlive).retrans
    refine ⟨hlive, ?_⟩
    rw [hcount] at hle
    cases hexp : expired now (m.slots i) with
    | false =>
      simpa [expiries, hexp] using hle
    | true =>
      simp only [hexp, if_true, UInt32.toNat_add, UInt32.toNat_one] at hle
      simp only [expiries, hlive, hexp, Bool.and_self, if_true]
      omega

theorem AllWatched.supervised {m : SessMgr} (hm : AllWatched m) : Supervised m where
  armed := hm
  due i now hl hle := by
    simp [expired, (hm i hl).timer, hle]
  silent i nows hl := by
    have h := (expiries_le i nows m hm hl).2
    omega

theorem allWatched_new (cfg : Config) : AllWatched (sessmgrNew cfg) :=
  fun _ => watched_of_not_live rfl

/-- **Every live session is timed out, unless an upload was answered with an OACK.**  All the
    states of a run are supervised if and only if none of its events opens an upload with an
    acknowledged option. -/
theorem supervised_iff_no_option_wrq (cfg : Config) (es : List Event) :
    Always step Supervised (sessmgrNew cfg) es ↔
      Along step (fun m e => ¬ opensOptionWrq m e) (sessmgrNew cfg) es := by
  constructor
  · refine Always.along fun m e hm hm' => ?_
    exact (step_allWatched_iff m e hm.armed).mp hm'.armed
  · intro h
    have hall := Along.always (fun m e hm hok => (step_allWatched_iff m e hm).mpr hok)
      (allWatched_new cfg) h
    exact hall.mono fun m hm => hm.supervised

/-- A session without a deadline is left as it is by every tick. -/
theorem tick_unarmed {m : SessMgr} {i : Fin SESS_MAX} (hl : (m.slots i).live)
    (hoff : (m.slots i).nextTimeoutMs = 0) (nows : List Clock) :
    (run step m (nows.map .tick)).slots i = m.slots i := by
  induction nows generalizing m with
  | nil => rfl
  | cons now nows ih =>
    have hstep : (step m (.tick now)).slots i = m.slots i := by
      obtain ⟨b, st, -, h, -⟩ := stepOut_slot m (.tick now) i
      have hlive := Session.live_iff.mp hl
      rcases tickSlot_cases m.cfg now ⟨m.slots i, b, st, []⟩ with
        ⟨hst, -⟩ | ⟨hst, -⟩ | ⟨-, -, hc⟩ | ⟨-, hexp, -⟩ | ⟨-, hexp, -⟩
      · exact absurd hst hlive.1
      · exact absurd hst hlive.2
      · exact h.trans (congrArg Ctx.s hc)
      · simp [expired, hoff] at hexp
      · simp [expired, hoff] at hexp
    rw [List.map_cons, run_cons, ih (hstep ▸ hl) (hstep ▸ hoff), hstep]

/-- An upload request with `blksize 1024`. -/
def optionWrq : Event :=
  .tftp clock0 uploadEnv host (requestBytes 2 (ascii "blksize" ++ [0] ++ ascii "1024" ++ [0]))

/-- One such request, and its slot is in use for ever: no deadline is set, and however often the
    timer runs the session is still there. -/
theorem option_wrq_never_timed_out :
    ((step (sessmgrNew uploadConfig) optionWrq).slots slot0).state = .recvWrq ∧
    ((step (sessmgrNew uploadConfig) optionWrq).slots slot0).nextTimeoutMs = 0 ∧
    ∀ nows : List Clock, ((run step (step (sessmgrNew uploadConfig) optionWrq)
      (nows.map .tick)).slots slot0).live := by
  have hlive : ((step (sessmgrNew uploadConfig) optionWrq).slots slot0).live := by decide
  have hoff : ((step (sessmgrNew uploadConfig) optionWrq).slots slot0).nextTimeoutMs = 0 := by
    decide
  refine ⟨by decide, hoff, fun nows => ?_⟩
  rw [tick_unarmed hlive hoff nows]
  exact hlive

end Nishro.CCore
