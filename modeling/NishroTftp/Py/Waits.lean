import NishroTftp.Lib.Runs
import NishroTftp.Py.Download
import NishroTftp.Py.Session
/-
  The two waits of a download (`tftp/session.py`): for the acknowledgement of the OACK
  (`_send_oack_await_ack`) and for that of a window (`_send_file`).

  Each of the two is ONE loop that sends at its head and waits at its foot.  So whatever does not
  leave the loop sends again: a timeout, as it should, and a packet that says nothing, as it should
  not.  The loop of the OACK is a `for` over the attempts, which such a packet uses up as well.

  Both loops are run here under every sequence of packets and timeouts, with a count of what they
  have sent and met.
-/
namespace Nishro.Py

open Runs

/-- Does the packet have this opcode? -/
def opcodeIs (op : UInt16) (pkt : Bytes) : Bool :=
  match peekOpcode pkt with
  | .ok o => o == op
  | .error _ => false

theorem opcodeIs_iff {op : UInt16} {pkt : Bytes} :
    opcodeIs op pkt = true ↔ peekOpcode pkt = .ok op := by
  unfold opcodeIs
  cases peekOpcode pkt with
  | error e => simp
  | ok o => simp

/-! ## The wait for a window's acknowledgement -/

/-- Does the packet acknowledge a block of the current window? -/
def Sender.advances (s : Sender) (pkt : Bytes) : Bool :=
  opcodeIs OP_ACK pkt &&
    match parseAck pkt with
    | .ok wire => (absolute (s.lastAck + 1) s.windowLength wire).isSome
    | .error _ => false

/-- A packet that is no ERROR and acknowledges no block of the current window. -/
def Sender.idle (s : Sender) : Input → Bool
  | .timeout => false
  | .packet pkt _ => ! opcodeIs OP_ERROR pkt && ! s.advances pkt

/-- Was a window sent? -/
def burst (fx : List Effect) : Bool := (sent fx).any (opcodeIs OP_DATA)

/-- `_send_file` under way, with a count of what was sent and of what has come. -/
structure Sending where
  next : Next Sender
  bursts : Nat
  timeouts : Nat
  advancing : Nat
  /-- packets that acknowledge nothing and were not taken for the end -/
  idle : Nat

/-- `_send_file` is called. -/
def Sending.start (snd : Sender) : Sending where
  next := snd.loop.1
  bursts := (burst snd.loop.2).toNat
  timeouts := 0
  advancing := 0
  idle := 0

def Input.isTimeout : Input → Bool
  | .timeout => true
  | .packet _ _ => false

/-- An acknowledgement of a block of the window. -/
def Sender.acknowledged (s : Sender) : Input → Bool
  | .timeout => false
  | .packet pkt _ => s.advances pkt

/-- The wait of `_send_file` ends; nothing happens if it is over. -/
def sendingStep (t : Sending) (i : Input) : Sending :=
  match t.next with
  | .wait s =>
    { next := (s.resume i).1
      bursts := t.bursts + (burst (s.resume i).2).toNat
      timeouts := t.timeouts + i.isTimeout.toNat
      advancing := t.advancing + (s.acknowledged i).toNat
      idle := t.idle + (s.idle i).toNat }
  | .ret _ | .raise _ _ => t

/-- A packet that says nothing changes nothing: the loop waits on, with the acknowledged block and
    the number of retries as they were, and sends no block. -/
def InertHere (t : Sending) (i : Input) : Prop :=
  ∀ s, t.next = .wait s → s.idle i = true →
    ∃ s' fx, s.resume i = (.wait s', fx) ∧ s'.lastAck = s.lastAck ∧ s'.retries = s.retries ∧
      burst fx = false

/-- Windows are sent once, and then for a timeout or for an acknowledgement. -/
def FewBursts (t : Sending) : Prop := t.bursts ≤ 1 + t.timeouts + t.advancing

/-- The input does not end a wait, or it is not a packet that says nothing. -/
def Answers (t : Sending) (i : Input) : Prop := ∀ s, t.next = .wait s → s.idle i = false

/-- A sender that waits has blocks to send. -/
structure Sender.Waits (s : Sender) : Prop where
  windowsize : 1 ≤ s.windowsize
  left : (s.lastAck : Int) < s.totalBlocks

variable {s : Sender}

theorem Sender.Waits.windowLength_pos (h : s.Waits) : 0 < s.windowLength := by
  have h1 := h.windowsize
  have h2 := h.left
  rw [Sender.windowLength]
  omega

theorem opcodeIs_data_dataPacket (s : Sender) (n : Nat) : opcodeIs OP_DATA (s.dataPacket n) = true :=
  rfl

/-- The window of a sender that waits is not empty. -/
theorem Sender.Waits.burst (h : s.Waits) : burst s.sendWindow = true := by
  obtain ⟨n, hn⟩ := Nat.exists_eq_succ_of_ne_zero (Nat.pos_iff_ne_zero.1 h.windowLength_pos)
  rw [Py.burst, sent_sendWindow, hn, List.range'_succ, List.map_cons, List.any_cons,
    opcodeIs_data_dataPacket, Bool.true_or]

/-- At the head of the loop a window goes out, or all is done. -/
theorem loop_cases (hw : 1 ≤ s.windowsize) :
    (s.Waits ∧ s.loop = (.wait s, s.sendWindow) ∧ burst s.loop.2 = true) ∨
      s.loop = (.ret s, []) := by
  unfold Sender.loop
  split
  · next h =>
    have hs : s.Waits := ⟨hw, h⟩
    exact .inl ⟨hs, rfl, hs.burst⟩
  · exact .inr rfl

variable {i : Input}

/-- A packet that acknowledges nothing takes the loop to its head, or to an exception if it is too
    short to be read. -/
theorem resume_idle (h : s.idle i = true) :
    s.resume i = s.loop ∨ ∃ e, s.resume i = (.raise s e, []) := by
  cases i with
  | timeout => cases h
  | packet pkt fault =>
    simp only [Sender.idle, Bool.and_eq_true, Bool.not_eq_true'] at h
    obtain ⟨herr, hadv⟩ := h
    simp only [Sender.resume]
    cases hop : peekOpcode pkt with
    | error e => exact .inr ⟨_, rfl⟩
    | ok op =>
      have hne : op ≠ OP_ERROR := by
        rintro rfl
        rw [opcodeIs_iff.2 hop] at herr
        cases herr
      simp only [if_neg hne]
      by_cases hack : op = OP_ACK
      · subst hack
        simp only [not_true_eq_false, ne_eq, if_false]
        cases hparse : parseAck pkt with
        | error e => exact .inr ⟨_, rfl⟩
        | ok wire =>
          have hnone : absolute (s.lastAck + 1) s.windowLength wire = none := by
            simpa [Sender.advances, opcodeIs_iff.2 hop, hparse] using hadv
          refine .inl ?_
          simp only [Sender.onAck, hnone]
      · exact .inl (if_pos hack)

/-- So no such packet is without an effect. -/
theorem not_inert_idle (hs : s.Waits) (h : s.idle i = true) :
    ¬ ∃ s' fx, s.resume i = (.wait s', fx) ∧ s'.lastAck = s.lastAck ∧ s'.retries = s.retries ∧
      burst fx = false := by
  rintro ⟨s', fx, heq, -, -, hfx⟩
  rcases resume_idle h with hloop | ⟨e, hraise⟩
  · rcases loop_cases hs.windowsize with ⟨-, hwait, hburst⟩ | hret
    · rw [hloop] at heq
      rw [heq, hfx] at hburst
      cases hburst
    · rw [Sender.loop, if_pos hs.left] at hret
      cases hret
  · rw [hraise] at heq
    cases heq

/-! ### Runs of the send loop -/

/-- Between two steps: who waits has blocks to send, and every window sent is accounted for. -/
structure Sending.Inv (t : Sending) : Prop where
  waits : ∀ s, t.next = .wait s → s.Waits
  bursts : t.bursts ≤ 1 + t.timeouts + t.advancing + t.idle

theorem windowsize_onAck (s : Sender) (wire : UInt16) :
    (s.onAck wire).windowsize = s.windowsize := by
  unfold Sender.onAck
  split <;> rfl

/-- Every input is a timeout, an acknowledgement, a packet that says nothing, or an ERROR, which
    raises. -/
theorem raises_or_counted (s : Sender) (i : Input) :
    (∃ e, s.resume i = (.raise s e, [])) ∨
      1 ≤ i.isTimeout.toNat + (s.acknowledged i).toNat + (s.idle i).toNat := by
  cases i with
  | timeout => exact .inr (Nat.le_add_right 1 _)
  | packet pkt fault =>
    cases herr : opcodeIs OP_ERROR pkt with
    | true =>
      refine .inl ?_
      simp only [Sender.resume, opcodeIs_iff.1 herr, if_true]
      cases parseError pkt <;> exact ⟨_, rfl⟩
    | false =>
      cases hadv : s.advances pkt <;>
        simp [Input.isTimeout, Sender.acknowledged, Sender.idle, herr, hadv]

/-- Where a wait ends, and that what is sent is accounted for. -/
theorem resume_bursts (hs : s.Waits) (i : Input) :
    (∀ s', (s.resume i).1 = .wait s' → s'.Waits) ∧
      (burst (s.resume i).2).toNat ≤
        i.isTimeout.toNat + (s.acknowledged i).toNat + (s.idle i).toNat := by
  have hraise : ∀ (s' : Sender) (e : Exc), s.resume i = (.raise s' e, []) →
      (∀ s'', (s.resume i).1 = .wait s'' → s''.Waits) ∧ (burst (s.resume i).2).toNat = 0 := by
    intro s' e heq
    rw [heq]
    exact ⟨fun s'' h => (nomatch h), rfl⟩
  have hloop : ∀ s' : Sender, s'.windowsize = s.windowsize → s.resume i = s'.loop →
      ∀ s'', (s.resume i).1 = .wait s'' → s''.Waits := by
    intro s' hw heq s'' h
    rcases loop_cases (s := s') (by rw [hw]; exact hs.windowsize) with ⟨hs', hwait, -⟩ | hret
    · rw [heq, hwait] at h
      obtain rfl := Next.wait.inj h
      exact hs'
    · rw [heq, hret] at h
      cases h
  refine ⟨?_, ?_⟩
  · rcases resume_cases s i with ⟨r, e, heq⟩ | ⟨r, heq⟩ | ⟨_, _, wire, -, -, -, heq⟩
    · exact (hraise _ _ heq).1
    · exact hloop { s with retries := r } rfl heq
    · exact hloop _ (windowsize_onAck s wire) heq
  · rcases raises_or_counted s i with ⟨e, heq⟩ | hone
    · rw [(hraise _ _ heq).2]
      exact Nat.zero_le _
    · exact Nat.le_trans (Bool.toNat_le _) hone

theorem Sending.Inv.start {snd : Sender} (hw : 1 ≤ snd.windowsize) :
    (Sending.start snd).Inv := by
  refine ⟨fun s h => ?_, ?_⟩
  · rcases loop_cases hw with ⟨hs, heq, -⟩ | heq
    · rw [Sending.start, heq] at h
      obtain rfl := Next.wait.inj h
      exact hs
    · rw [Sending.start, heq] at h
      cases h
  · exact Nat.le_trans (Bool.toNat_le _) (Nat.le_refl 1)

/-- One step. -/
theorem Sending.Inv.step {t : Sending} (h : t.Inv) (i : Input) : (sendingStep t i).Inv := by
  unfold sendingStep
  cases hn : t.next with
  | ret s => exact h
  | raise s e => exact h
  | wait s =>
    obtain ⟨hwait, hcount⟩ := resume_bursts (h.waits s hn) i
    refine ⟨hwait, ?_⟩
    have hb := h.bursts
    simp only
    omega

theorem idle_sendingStep {t : Sending} (h : Answers t i) : (sendingStep t i).idle = t.idle := by
  unfold sendingStep
  cases hn : t.next with
  | ret s => rfl
  | raise s e => rfl
  | wait s => simp [h s hn]

/-- **What a packet that says nothing does to a download.**  In a run of `_send_file` every packet
    that neither reports an error nor acknowledges a block of the window is without effect, and the
    windows sent are never more than one and one for each timeout and each acknowledgement, exactly
    if NO such packet comes: each of them sends the window again, or ends the session if it is too
    short to be read. -/
theorem inert_iff_answers (data : Bytes) (blksize windowsize maxRetries : Int) (is : List Input) :
    let t := Sending.start (Sender.new data blksize windowsize maxRetries)
    (Along sendingStep InertHere t is ∧ Always sendingStep FewBursts t is) ↔
      Along sendingStep Answers t is := by
  intro t
  have hstart : t.Inv := Sending.Inv.start (by show 1 ≤ max 1 windowsize; omega)
  have hidle : t.idle = 0 := rfl
  clear_value t
  have hfew : FewBursts t := by
    have hb := hstart.bursts
    show t.bursts ≤ 1 + t.timeouts + t.advancing
    omega
  induction is generalizing t with
  | nil => exact ⟨fun _ => trivial, fun _ => ⟨trivial, hfew⟩⟩
  | cons i is ih =>
    -- as long as every input answers, the count of idle packets stays at zero
    have hrest : Answers t i → ((Along sendingStep InertHere (sendingStep t i) is ∧
        Always sendingStep FewBursts (sendingStep t i) is) ↔
          Along sendingStep Answers (sendingStep t i) is) := by
      intro hans
      have hidle' : (sendingStep t i).idle = 0 := by rw [idle_sendingStep hans, hidle]
      have hb := (hstart.step i).bursts
      refine ih (sendingStep t i) (hstart.step i) hidle' ?_
      show _ ≤ _
      omega
    constructor
    · rintro ⟨⟨hinert, halong⟩, -, hfew'⟩
      have hans : Answers t i := by
        intro s hs
        by_contra hne
        have hid : s.idle i = true := by simpa using hne
        exact not_inert_idle (hstart.waits s hs) hid (hinert s hs hid)
      exact ⟨hans, (hrest hans).1 ⟨halong, hfew'⟩⟩
    · rintro ⟨hans, halong⟩
      obtain ⟨h1, h2⟩ := (hrest hans).2 halong
      refine ⟨⟨fun s hs hid => ?_, h1⟩, hfew, h2⟩
      rw [hans s hs] at hid
      cases hid

/-- A file of one block, and an ACK 0 that comes twice: the block goes out three times, with no
    timeout and nothing acknowledged. -/
theorem duplicate_ack_resends :
    let t := Sending.start (Sender.new [7] 512 1 5)
    let ack0 := Input.packet (packAck 0) none
    ¬ InertHere t ack0 ∧ ¬ Always sendingStep FewBursts t [ack0, ack0] ∧
      (run sendingStep t [ack0, ack0]).bursts = 3 := by
  refine ⟨fun h => ?_, fun h => ?_, by decide⟩
  · obtain ⟨s', fx, heq, -, -, hfx⟩ := h _ rfl (by decide)
    rw [show fx = (Sender.resume (Sender.new [7] 512 1 5) (.packet (packAck 0) none)).2 by
      rw [heq]] at hfx
    exact absurd hfx (by decide)
  · exact absurd h.last (by unfold FewBursts; decide)

/-! ## The wait for the acknowledgement of the OACK -/

/-- ACK 0. -/
def isAck0 (pkt : Bytes) : Bool :=
  opcodeIs OP_ACK pkt &&
    match parseAck pkt with
    | .ok n => n == 0
    | .error _ => false

/-- What answers an OACK: ACK 0 or an ERROR. -/
def Input.answersOack : Input → Bool
  | .timeout => false
  | .packet pkt _ => isAck0 pkt || opcodeIs OP_ERROR pkt

/-- `_send_oack_await_ack` under way. -/
structure Handshake where
  session : Session
  /-- OACKs sent so far -/
  sends : Nat
  /-- of these, so many have timed out -/
  timedOut : Nat

/-- How many of the packets sent are OACKs. -/
def oacks (fx : List Effect) : Nat := (sent fx).countP (opcodeIs OP_OACK)

/-- `_send_oack_await_ack` is called. -/
def Handshake.start (s : Session) (maxRetries : Nat) (reply : List (Str × Str)) (next : Sender) :
    Handshake where
  session := (s.sendOack maxRetries (packOack reply) next).1
  sends := oacks (s.sendOack maxRetries (packOack reply) next).2
  timedOut := 0

/-- Its wait ends; nothing happens if it is over. -/
def handshakeStep (h : Handshake) (i : Input) : Handshake :=
  match h.session.stage with
  | .oackSent _ _ _ =>
    { session := (h.session.resume i).1
      sends := h.sends + oacks (h.session.resume i).2
      timedOut := h.timedOut + i.isTimeout.toNat }
  | .sending _ | .receiving _ _ | .ended => h

/-- The budget, at one wait: the OACK is repeated for a timeout only, ACK 0 starts the transfer,
    any other packet but an ERROR leaves the attempts as they are, and the session gives up only
    when `max_retries + 1` OACKs have been sent and have timed out. -/
structure OackKept (maxRetries left : Nat) (next : Sender) (h : Handshake) (i : Input) : Prop where
  repeats : (handshakeStep h i).sends ≠ h.sends → i.isTimeout = true
  ack0 : ∀ pkt fault, i = .packet pkt fault → isAck0 pkt = true →
    (handshakeStep h i).session = (h.session.sendFile next).1
  stray : i.isTimeout = false → i.answersOack = false →
    ∃ oack, (handshakeStep h i).session.stage = .oackSent left oack next
  givesUp : i.answersOack = false → (handshakeStep h i).session.stage = .ended →
    (handshakeStep h i).sends = maxRetries + 1 ∧ (handshakeStep h i).timedOut = maxRetries + 1

/-- The same of a step wherever it is taken. -/
def OackBudget (maxRetries : Nat) (h : Handshake) (i : Input) : Prop :=
  ∀ left oack next, h.session.stage = .oackSent left oack next → OackKept maxRetries left next h i

/-- What comes before the answer to the OACK. -/
def beforeAnswer (is : List Input) : List Input := is.takeWhile fun i => ! i.answersOack

/-- Only timeouts, and fewer than `max_retries`, come before the answer. -/
def AnsweredEarly (maxRetries : Nat) (is : List Input) : Prop :=
  (beforeAnswer is).all Input.isTimeout = true ∧ (beforeAnswer is).length < maxRetries

/-- Not, or no longer, waiting for the answer. -/
def Stage.past : Stage → Prop
  | .oackSent _ _ _ => False
  | .sending _ | .receiving _ _ | .ended => True

theorem past_fail (s : Session) (e : Exc) : (s.fail e).1.stage = .ended := by
  cases e with
  | other what => rfl
  | tftp e =>
    simp only [Session.fail]
    split <;> rfl

theorem past_sent (s : Session) (r : Next Sender × List Effect) : (s.sent r).1.stage.past := by
  obtain ⟨n, fx⟩ := r
  cases n with
  | wait snd => exact trivial
  | ret snd => exact trivial
  | raise snd e =>
    simp only [Session.sent, after, past_fail]
    exact trivial

variable {h : Handshake}

theorem handshakeStep_past (hp : h.session.stage.past) (i : Input) : handshakeStep h i = h := by
  unfold handshakeStep
  revert hp
  cases h.session.stage with
  | oackSent => exact fun hp => hp.elim
  | sending | receiving | ended => exact fun _ => rfl

/-- Once the wait is over nothing more is asked. -/
theorem along_past {maxRetries : Nat} (hp : h.session.stage.past) (is : List Input) :
    Along handshakeStep (OackBudget maxRetries) h is := by
  induction is with
  | nil => exact trivial
  | cons i is ih =>
    refine ⟨fun left oack next hs => ?_, by rw [handshakeStep_past hp]; exact ih⟩
    rw [hs] at hp
    exact hp.elim

theorem oacks_send (reply : List (Str × Str)) : oacks (send (packOack reply)) = 1 := rfl

theorem oacks_sendWindow (snd : Sender) : oacks snd.sendWindow = 0 := by
  rw [oacks, sent_sendWindow, List.countP_map, List.countP_eq_zero]
  exact fun n _ h => Bool.noConfusion h

theorem oacks_fail (s : Session) (e : Exc) : oacks (s.fail e).2 = 0 := by
  cases e with
  | other what => rfl
  | tftp e =>
    simp only [Session.fail]
    split <;> rfl

theorem oacks_sendFile (s : Session) (snd : Sender) : oacks (s.sendFile snd).2 = 0 := by
  simp only [Session.sendFile, Sender.loop]
  split
  · exact oacks_sendWindow snd
  · rfl

/-- ACK 0 starts the transfer, an ERROR ends the session. -/
theorem onOack_answer (s : Session) (left : Nat) (oack : Bytes) (next : Sender)
    (h : i.answersOack = true) :
    s.onOack left oack next i = s.sendFile next ∨
      ((∀ pkt fault, i = .packet pkt fault → isAck0 pkt = false) ∧
        ∃ e, s.onOack left oack next i = s.fail e) := by
  cases i with
  | timeout => cases h
  | packet pkt fault =>
    by_cases hack : isAck0 pkt = true
    · refine .inl ?_
      simp only [isAck0, Bool.and_eq_true, opcodeIs_iff] at hack
      obtain ⟨hop, hzero⟩ := hack
      simp only [Session.onOack, hop, if_true]
      cases hparse : parseAck pkt with
      | error e =>
        rw [hparse] at hzero
        cases hzero
      | ok n =>
        rw [hparse] at hzero
        simp only [beq_iff_eq] at hzero
        simp only [hzero, if_true]
    · have herr : opcodeIs OP_ERROR pkt = true := by
        simpa [Input.answersOack, hack] using h
      refine .inr ⟨?_, ?_⟩
      · simpa using hack
      · have hne : OP_ERROR ≠ OP_ACK := by decide
        simp only [Session.onOack, opcodeIs_iff.1 herr, if_neg hne, if_true]
        cases parseError pkt <;> exact ⟨_, rfl⟩

/-- Any other packet is another turn of the loop, or an exception. -/
theorem onOack_stray (s : Session) (left : Nat) (oack : Bytes) (next : Sender)
    (htime : i.isTimeout = false) (h : i.answersOack = false) :
    s.onOack left oack next i = s.sendOack left oack next ∨
      ∃ e, s.onOack left oack next i = s.fail e := by
  cases i with
  | timeout => cases htime
  | packet pkt fault =>
    simp only [Input.answersOack, Bool.or_eq_false_iff] at h
    obtain ⟨hack, herr⟩ := h
    simp only [Session.onOack]
    cases hop : peekOpcode pkt with
    | error e => exact .inr ⟨_, rfl⟩
    | ok op =>
      by_cases h1 : op = OP_ACK
      · simp only [if_pos h1]
        cases hparse : parseAck pkt with
        | error e => exact .inr ⟨_, rfl⟩
        | ok n =>
          have hn : n ≠ 0 := by
            rintro rfl
            rw [h1] at hop
            simp [isAck0, opcodeIs_iff.2 hop, hparse] at hack
          exact .inl (if_neg hn)
      · have h2 : op ≠ OP_ERROR := by
          rintro rfl
          rw [opcodeIs_iff.2 hop] at herr
          cases herr
        simp only [if_neg h1, if_neg h2]
        exact .inl trivial

/-- A turn of the loop leaves fewer attempts, if any. -/
theorem sendOack_stage (s : Session) (left : Nat) (oack : Bytes) (next : Sender) :
    (left = 0 ∧ (s.sendOack left oack next).1.stage = .ended) ∨
      ∃ m, left = m + 1 ∧ (s.sendOack left oack next).1.stage = .oackSent m oack next := by
  cases left with
  | zero => exact .inl ⟨rfl, past_fail s _⟩
  | succ m => exact .inr ⟨m, rfl, rfl⟩

/-- A waiting session is resumed in the loop of the OACK. -/
theorem resume_oackSent {s : Session} {left : Nat} {oack : Bytes} {next : Sender}
    (hs : s.stage = .oackSent left oack next) (i : Input) :
    s.resume i = s.onOack left oack next i := by
  rw [Session.resume, hs]

theorem handshakeStep_waiting {left : Nat} {oack : Bytes} {next : Sender}
    (hs : h.session.stage = .oackSent left oack next) (i : Input) :
    handshakeStep h i =
      { session := (h.session.onOack left oack next i).1
        sends := h.sends + oacks (h.session.onOack left oack next i).2
        timedOut := h.timedOut + i.isTimeout.toNat } := by
  rw [handshakeStep, hs, resume_oackSent hs]

/-- The answer to the OACK, as it should be taken. -/
theorem oackBudget_answer (maxRetries : Nat) (hans : i.answersOack = true) {left : Nat}
    {oack : Bytes} {next : Sender} (hs : h.session.stage = .oackSent left oack next) :
    OackBudget maxRetries h i ∧ (handshakeStep h i).session.stage.past := by
  have hstep := handshakeStep_waiting hs i
  have hsends : (handshakeStep h i).sends = h.sends ∧
      (handshakeStep h i).session.stage.past ∧
        ∀ pkt fault, i = .packet pkt fault → isAck0 pkt = true →
          (handshakeStep h i).session = (h.session.sendFile next).1 := by
    rw [hstep]
    rcases onOack_answer h.session left oack next hans with heq | ⟨hno, e, heq⟩
    · rw [heq, oacks_sendFile]
      exact ⟨rfl, past_sent _ _, fun _ _ _ _ => rfl⟩
    rw [heq, oacks_fail]
    refine ⟨rfl, ?_, fun pkt fault hi hack => ?_⟩
    · show (h.session.fail e).1.stage.past
      rw [past_fail]
      exact trivial
    · rw [hno pkt fault hi] at hack
      cases hack
  refine ⟨fun left' oack' next' hs' => ?_, hsends.2.1⟩
  rw [hs] at hs'
  obtain ⟨rfl, rfl, rfl⟩ := Stage.oackSent.inj hs'
  refine ⟨fun hne => absurd hsends.1 hne, hsends.2.2, fun _ hno => ?_, fun hno => ?_⟩ <;>
    exact absurd (hans.symm.trans hno) (by decide)

/-- No other packet is taken as it should be. -/
theorem not_oackBudget_stray {maxRetries : Nat} (htime : i.isTimeout = false)
    (hno : i.answersOack = false) {left : Nat} {oack : Bytes} {next : Sender}
    (hs : h.session.stage = .oackSent left oack next) : ¬ OackBudget maxRetries h i := by
  intro hbudget
  obtain ⟨oack', hstage⟩ := (hbudget left oack next hs).stray htime hno
  rw [handshakeStep_waiting hs] at hstage
  rcases onOack_stray h.session left oack next htime hno with heq | ⟨e, heq⟩
  · rw [heq] at hstage
    rcases sendOack_stage h.session left oack next with ⟨-, hend⟩ | ⟨m, hm, hwait⟩
    · rw [hend] at hstage
      cases hstage
    · rw [hwait] at hstage
      have := (Stage.oackSent.inj hstage).1
      omega
  · rw [heq, past_fail] at hstage
    cases hstage

/-- From a wait that only timeouts have led to. -/
theorem oackBudget_from (maxRetries : Nat) (reply : List (Str × Str)) (next : Sender)
    (is : List Input) : ∀ (h : Handshake) (left : Nat),
      h.session.stage = .oackSent left (packOack reply) next →
      h.timedOut + left + 1 = maxRetries →
      (Along handshakeStep (OackBudget maxRetries) h is ↔
        (beforeAnswer is).all Input.isTimeout = true ∧ (beforeAnswer is).length ≤ left) := by
  induction is with
  | nil => exact fun h left _ _ => ⟨fun _ => ⟨rfl, Nat.zero_le _⟩, fun _ => trivial⟩
  | cons i is ih =>
    intro h left hs hleft
    by_cases hans : i.answersOack = true
    · obtain ⟨hbudget, hpast⟩ := oackBudget_answer maxRetries hans hs
      have hbefore : beforeAnswer (i :: is) = [] := by simp [beforeAnswer, hans]
      rw [hbefore]
      exact ⟨fun _ => ⟨rfl, Nat.zero_le _⟩, fun _ => ⟨hbudget, along_past hpast is⟩⟩
    · have hno : i.answersOack = false := by simpa using hans
      have hbefore : beforeAnswer (i :: is) = i :: beforeAnswer is := by simp [beforeAnswer, hno]
      rw [hbefore, List.all_cons, List.length_cons, Bool.and_eq_true]
      cases htime : i.isTimeout with
      | false =>
        refine ⟨fun hal => absurd hal.1 (not_oackBudget_stray htime hno hs), ?_⟩
        rintro ⟨⟨⟨⟩, -⟩, -⟩
      | true =>
        obtain rfl : i = .timeout := by
          cases i with
          | timeout => rfl
          | packet => cases htime
        have hstep := handshakeStep_waiting hs .timeout
        cases left with
        | zero =>
          refine ⟨fun hal => ?_, fun hr => absurd hr.2 (Nat.not_succ_le_zero _)⟩
          have hend : (handshakeStep h .timeout).session.stage = .ended := by
            rw [hstep]
            exact past_fail h.session _
          have hgive := ((hal.1 0 _ _ hs).givesUp rfl hend).2
          rw [hstep] at hgive
          simp only [Input.isTimeout, Bool.toNat_true] at hgive
          omega
        | succ m =>
          have hwait : (handshakeStep h .timeout).session.stage =
              .oackSent m (packOack reply) next := by rw [hstep]; rfl
          have hcount : (handshakeStep h .timeout).timedOut = h.timedOut + 1 := by rw [hstep]; rfl
          have hrec := ih (handshakeStep h .timeout) m hwait (by omega)
          have hbudget : OackBudget maxRetries h .timeout := by
            intro left' oack' next' hs'
            refine ⟨fun _ => rfl, fun _ _ hi => (nomatch hi), fun ht => (nomatch ht), ?_⟩
            intro _ hend
            rw [hwait] at hend
            cases hend
          rw [Nat.add_le_add_iff_right, eq_self, true_and, ← hrec]
          exact ⟨fun hal => hal.2, fun hal => ⟨hbudget, hal⟩⟩

/-- **The retry budget of the OACK.**  `_send_oack_await_ack` sends the OACK at least once, repeats
    it for timeouts only, takes the first ACK 0, lets no other packet use up an attempt and gives
    up only after `max_retries + 1` OACKs have timed out EXACTLY IF nothing but timeouts, and fewer
    than `max_retries` of them, come before the ACK 0 or the ERROR that answers it.  So with no
    retries allowed the OACK is not even sent, and a stray packet always costs an attempt. -/
theorem oack_budget_iff (s : Session) (maxRetries : Nat) (reply : List (Str × Str)) (next : Sender)
    (is : List Input) :
    (1 ≤ (Handshake.start s maxRetries reply next).sends ∧
      Along handshakeStep (OackBudget maxRetries) (Handshake.start s maxRetries reply next) is) ↔
    AnsweredEarly maxRetries is := by
  cases maxRetries with
  | zero =>
    refine ⟨fun h => ?_, fun h => absurd h.2 (Nat.not_lt_zero _)⟩
    have hzero : (Handshake.start s 0 reply next).sends = 0 := oacks_fail s _
    omega
  | succ m =>
    have hone : (Handshake.start s (m + 1) reply next).sends = 1 := oacks_send reply
    have hfrom := oackBudget_from (m + 1) reply next is
      (Handshake.start s (m + 1) reply next) m rfl (by show 0 + m + 1 = m + 1; omega)
    rw [hfrom, hone, AnsweredEarly, Nat.lt_succ_iff]
    exact ⟨fun h => h.2, fun h => ⟨Nat.le_refl 1, h⟩⟩

/-- One retry allowed: a single timeout ends the session, after one OACK and not two. -/
theorem oack_given_up_early :
    let h := Handshake.start (Session.new (bareArgs ⟨OP_RRQ, str "f", str "octet", []⟩)
      (obligingWorld none)) 1 [(str "blksize", str "512")] (Sender.new [7] 512 1 1)
    ¬ OackBudget 1 h .timeout ∧ (handshakeStep h .timeout).session.info.state =
      str "client never acked OACK" ∧ (handshakeStep h .timeout).sends = 1 := by
  refine ⟨fun h => ?_, rfl, rfl⟩
  exact absurd ((h 0 _ _ rfl).givesUp rfl rfl).1 (by decide)

end Nishro.Py
