import NishroTftp.Lib.Runs
import NishroTftp.Py.Session
/-
  Which sessions of the Python engine count as failures of the server.

  `_safe_run` decides after the fact, from the code and the message of the error a session ended
  with: an error 0 is the server's own, unless its message speaks of a timeout or of a client that
  never acked.  Errors that a CLIENT reports are raised again under the code and the message the
  client chose, and a transfer refused because it needs more than 65535 blocks is an error 0 as
  well.  Both are held against the server, and nothing else is, as long as every operation of the
  server succeeds.
-/
namespace Nishro.Py

open Utf8 (Text text)
open Nishro.Runs

/-! ## Words in a message -/

theorem isPrefixOf_append_cons {pat l r : Str} {x : Char} (hx : x ∉ pat) :
    pat.isPrefixOf (l ++ x :: r) = pat.isPrefixOf l := by
  induction pat generalizing l with
  | nil => simp
  | cons c pat ih =>
    rw [List.mem_cons, not_or] at hx
    cases l with
    | nil => simp [List.isPrefixOf, beq_false_of_ne (Ne.symm hx.1)]
    | cons d l => simp [List.isPrefixOf, ih hx.2]

/-- A character that is not in the word cuts the message in two. -/
theorem occursIn_append_cons {pat l r : Str} {x : Char} (hne : pat ≠ []) (hx : x ∉ pat) :
    occursIn pat (l ++ x :: r) = (occursIn pat l || occursIn pat r) := by
  have hnil : occursIn pat [] = false := beq_false_of_ne hne
  induction l with
  | nil =>
    have hhead := isPrefixOf_append_cons (l := []) (r := r) hx
    obtain ⟨c, pat', rfl⟩ := List.exists_cons_of_ne_nil hne
    have hno : (c :: pat').isPrefixOf (x :: r) = false := hhead
    rw [List.nil_append, hnil, occursIn, hno, Bool.false_or]
  | cons c l ih =>
    have hpre := isPrefixOf_append_cons (l := c :: l) (r := r) hx
    rw [List.cons_append] at hpre ⊢
    rw [occursIn, occursIn, ih, hpre, Bool.or_assoc]

/-- So do several of them. -/
theorem occursIn_append {pat l m r : Str} (hne : pat ≠ []) (hm : m ≠ []) (hx : ∀ x ∈ m, x ∉ pat) :
    occursIn pat (l ++ m ++ r) = (occursIn pat l || occursIn pat r) := by
  have hrest : ∀ m : Str, (∀ x ∈ m, x ∉ pat) → occursIn pat (m ++ r) = occursIn pat r := by
    intro m hm
    induction m with
    | nil => rfl
    | cons x m ih =>
      have h := occursIn_append_cons (l := []) (r := m ++ r) hne (hm x List.mem_cons_self)
      have hnil : occursIn pat [] = false := beq_false_of_ne hne
      rw [hnil, ih fun y hy => hm y (List.mem_cons_of_mem _ hy)] at h
      exact h
  obtain ⟨x, m', rfl⟩ := List.exists_cons_of_ne_nil hm
  rw [List.append_assoc, List.cons_append, occursIn_append_cons hne (hx x List.mem_cons_self),
    hrest m' fun y hy => hx y (List.mem_cons_of_mem _ hy)]

/-- The characters of a numeral. -/
def isNumeral (c : Char) : Bool := c = '-' || ('0' ≤ c && c ≤ '9')

theorem isNumeral_intStr (n : Int) : ∀ c ∈ lower (intStr n), isNumeral c = true := by
  have hcode : ∀ k ∈ Json.numeral n, k = 45 ∨ 48 ≤ k ∧ k ≤ 57 := by
    intro k hk
    rcases List.mem_append.1 hk with hk | hk
    · split at hk
      · exact .inl (List.mem_singleton.1 hk)
      · cases hk
    · obtain ⟨b, hb, rfl⟩ := List.mem_map.1 hk
      exact .inr ((Decimal.isDigit_iff b).1 (Decimal.decimal_digits _ b hb))
  have hchar : ∀ k : Nat, k = 45 ∨ 48 ≤ k ∧ k ≤ 57 → isNumeral (Char.ofNat k).toLower = true := by
    intro k hk
    have hlist : k ∈ 45 :: List.range' 48 10 := by
      rw [List.mem_cons, List.mem_range'_1]
      omega
    have hall : (45 :: List.range' 48 10).all fun k => isNumeral (Char.ofNat k).toLower := by decide
    exact List.all_eq_true.1 hall k hlist
  intro c hc
  obtain ⟨c', hc', rfl⟩ := List.mem_map.1 hc
  obtain ⟨k, hk, rfl⟩ := List.mem_map.1 hc'
  exact hchar k (hcode k hk)

theorem intStr_ne_nil (n : Int) : lower (intStr n) ≠ [] := by
  obtain ⟨d, ds, -, h | h⟩ := Json.numeral_cons n <;> simp [lower, intStr, h]

/-- A number in a message neither makes nor hides one of the words. -/
theorem occursIn_number {pat : Str} (hpat : pat.all (fun c => ! isNumeral c) = true)
    (hne : pat ≠ []) (a b : Str) (n : Int) :
    occursIn pat (lower (a ++ intStr n ++ b)) = (occursIn pat (lower a) || occursIn pat (lower b)) := by
  have hlower : lower (a ++ intStr n ++ b) = lower a ++ lower (intStr n) ++ lower b := by
    simp [lower]
  rw [hlower]
  refine occursIn_append hne (intStr_ne_nil n) fun x hx hmem => ?_
  have hnot := List.all_eq_true.1 hpat x hmem
  rw [isNumeral_intStr n x hx] at hnot
  cases hnot

/-- A refusal for rollover is held against the server. -/
theorem isServerFault_needsRollover {what : String} (h : what = "transfer" ∨ what = "upload")
    (n : Int) : isServerFault (needsRollover what n) = true := by
  have hword : ∀ pat, pat = str "timeout" ∨ pat = str "client never acked" →
      occursIn pat (lower (needsRollover what n).message) = false := by
    intro pat hpat
    have hassoc : (needsRollover what n).message = (str what ++ str " needs ") ++ intStr n ++
        str " blocks; block-number rollover disabled" := rfl
    rw [hassoc, occursIn_number]
    · rcases h with rfl | rfl <;> rcases hpat with rfl | rfl <;> decide
    · rcases hpat with rfl | rfl <;> decide
    · rcases hpat with rfl | rfl <;> decide
  rw [isServerFault, hword _ (.inl rfl), hword _ (.inr rfl)]
  rfl

/-! ## Errors that count -/

/-- Does the end of `_safe_run` hold the exception against the server? -/
def Exc.faulty : Exc → Bool
  | .tftp e => isServerFault e
  | .other _ => true

/-- An ERROR packet of the client that will be taken for an error of the server. -/
def blames : Input → Bool
  | .timeout => false
  | .packet pkt _ =>
    match peekOpcode pkt with
    | .error _ => false
    | .ok op =>
      op == OP_ERROR &&
        match parseError pkt with
        | .error _ => false
        | .ok err => isServerFault err

/-- The packet has the block that was expected, which fits the cap but is not among the 65535 that
    an upload without rollover may have. -/
def pastLast (r : Receiver) : Input → Bool
  | .timeout => false
  | .packet pkt _ =>
    match peekOpcode pkt, parseData pkt with
    | .ok op, .ok (wire, payload) =>
      op == OP_DATA && absolute r.expected r.windowsize.toNat wire == some r.expected &&
        ! decide (r.maxWrqSize ≠ 0 ∧ r.maxWrqSize < (r.bytesTransferred : Int) + payload.length) &&
        ! r.allowRollover && decide (65535 < r.expected)
    | _, _ => false

/-- The exception a step ends in. -/
def Next.exc {σ : Type} : Next σ → Option Exc
  | .raise _ e => some e
  | _ => none

/-- Only a code 0 counts. -/
theorem isServerFault_of_code {e : TFTPError} (h : e.code ≠ ERR_UNDEFINED) :
    isServerFault e = false := by
  rw [isServerFault, decide_eq_false h]
  rfl

/-- A packet too short to be read is an error 4. -/
theorem malformed_not_fault {pkt : Bytes} {e : TFTPError}
    (h : peekOpcode pkt = .error e ∨ parseError pkt = .error e ∨ parseAck pkt = .error e ∨
      parseData pkt = .error e) : isServerFault e = false := by
  have hcode : e.code = ERR_ILLEGAL_OP := by
    rcases h with h | h | h | h
    · unfold peekOpcode at h
      split at h <;> cases h
      rfl
    · unfold parseError at h
      split at h <;> cases h
      rfl
    · unfold parseAck at h
      split at h <;> cases h
      rfl
    · unfold parseData at h
      split at h <;> cases h
      rfl
  refine isServerFault_of_code ?_
  rw [hcode]
  decide

/-- Nor does silence of the client count. -/
theorem timeouts_not_fault :
    isServerFault (timeoutError "timeout waiting for ACK") = false ∧
      isServerFault (timeoutError "timeout waiting for DATA") = false ∧
      isServerFault neverAcked = false := by
  decide

/-! ## The loops -/

theorem exc_loop (s : Sender) : s.loop.1.exc = none := by
  unfold Sender.loop
  split <;> rfl

/-- **The send loop** raises an error that counts exactly on a packet that blames the server. -/
theorem sender_faulty (s : Sender) (i : Input) : (s.resume i).1.exc.any Exc.faulty = blames i := by
  cases i with
  | timeout =>
    simp only [Sender.resume, blames]
    split
    · exact timeouts_not_fault.1
    · rw [exc_loop]
      rfl
  | packet pkt fault =>
    simp only [Sender.resume, blames]
    cases hop : peekOpcode pkt with
    | error e => exact malformed_not_fault (.inl hop)
    | ok op =>
      by_cases he : op = OP_ERROR
      · subst he
        cases herr : parseError pkt with
        | error e => exact malformed_not_fault (.inr (.inl herr))
        | ok err => rfl
      · dsimp only
        rw [beq_false_of_ne he]
        simp only [if_neg he]
        split
        · rw [exc_loop]
          rfl
        · cases hack : parseAck pkt with
          | error e => exact malformed_not_fault (.inr (.inr (.inl hack)))
          | ok wire =>
            simp only [exc_loop]
            rfl

/-- An input without a disk failure. -/
def Input.intact : Input → Prop
  | .packet _ fault => fault = none
  | .timeout => True

theorem exceeded_not_fault (max : Int) : isServerFault (exceededError max) = false := by
  refine isServerFault_of_code ?_
  show ERR_DISK_FULL ≠ ERR_UNDEFINED
  decide

theorem onExpected_faulty (r : Receiver) (payload : Bytes) :
    (r.onExpected payload none).1.exc.any Exc.faulty =
      (! decide (r.maxWrqSize ≠ 0 ∧ r.maxWrqSize < (r.bytesTransferred : Int) + payload.length) &&
        ! r.allowRollover && decide (65535 < r.expected)) := by
  unfold Receiver.onExpected
  split
  · rename_i hmax
    rw [decide_eq_true hmax]
    exact exceeded_not_fault r.maxWrqSize
  rename_i hmax
  rw [decide_eq_false hmax, Bool.not_false, Bool.true_and]
  simp only [Option.map_none]
  split
  · rename_i hroll
    have hr : r.allowRollover = false := hroll.1
    have hlt : 65535 < r.expected := Nat.lt_of_succ_lt_succ hroll.2
    have hfault : isServerFault rolloverError = true := by decide
    rw [hr, decide_eq_true hlt]
    exact hfault
  · rename_i hroll
    have hnot : (! r.allowRollover && decide (65535 < r.expected)) = false := by
      refine Bool.eq_false_iff.2 fun htrue => hroll ?_
      simp only [Bool.and_eq_true, Bool.not_eq_true', decide_eq_true_eq] at htrue
      exact ⟨htrue.1, Nat.succ_lt_succ htrue.2⟩
    rw [hnot]
    -- nothing is written that could fail
    simp only [Receiver.drain]
    split <;> rfl

/-- **The receive loop** raises one exactly on such a packet, or on the first block that would need
    rollover where it is off. -/
theorem receiver_faulty (r : Receiver) (i : Input) (hi : i.intact) :
    (r.resume i).1.exc.any Exc.faulty = (blames i || pastLast r i) := by
  cases i with
  | timeout =>
    simp only [Receiver.resume, blames, pastLast]
    split
    · exact timeouts_not_fault.2.1
    · rfl
  | packet pkt fault =>
    obtain rfl : fault = none := hi
    simp only [Receiver.resume, blames, pastLast]
    cases hop : peekOpcode pkt with
    | error e => exact malformed_not_fault (.inl hop)
    | ok op =>
      by_cases he : op = OP_ERROR
      · subst he
        have hdata : (OP_ERROR == OP_DATA) = false := by decide
        cases herr : parseError pkt with
        | error e =>
          have hshort := malformed_not_fault (.inr (.inl herr))
          cases hd : parseData pkt <;> simpa [Next.exc, Exc.faulty, hdata] using hshort
        | ok err => cases hd : parseData pkt <;> simp [Next.exc, Exc.faulty, hdata]
      · dsimp only
        rw [beq_false_of_ne he]
        simp only [if_neg he]
        by_cases hd : op = OP_DATA
        · subst hd
          cases hdata : parseData pkt with
          | error e => exact malformed_not_fault (.inr (.inr (.inr hdata)))
          | ok wp =>
            obtain ⟨wire, payload⟩ := wp
            simp only
            cases habs : absolute r.expected r.windowsize.toNat wire with
            | none => simp [Next.exc]
            | some n =>
              by_cases hn : n = r.expected
              · subst hn
                simp only [if_pos, BEq.rfl, Bool.true_and]
                exact onExpected_faulty { r with retries := 0 } payload
              · have hbeq : (some n == some r.expected) = false :=
                  beq_false_of_ne fun h => hn (Option.some.inj h)
                simp [if_neg hn, hbeq, Next.exc]
        · have hbeq : (op == OP_DATA) = false := beq_false_of_ne hd
          simp only [ne_eq, hd, not_false_eq_true, if_true]
          cases parseData pkt with
          | error e => rfl
          | ok wp =>
            simp only [hbeq, Bool.false_and]
            rfl

/-! ## Sessions -/

/-- By how much the count of failed sessions goes up. -/
def failures (fx : List Effect) : Nat := bumped .tftpSessionsFailed fx

theorem failures_append (fx fx' : List Effect) : failures (fx ++ fx') = failures fx + failures fx' := by
  simp [failures, bumped]

theorem failures_send (payload : Bytes) : failures (send payload) = 0 := rfl

theorem failures_received (bufs : List Bytes) : failures (received bufs) = 0 := by
  induction bufs with
  | nil => rfl
  | cons buf bufs ih => simpa [failures, bumped, received] using ih

theorem failures_sendWindow (s : Sender) : failures s.sendWindow = 0 := by
  unfold Sender.sendWindow
  induction List.range' (s.lastAck + 1) s.windowLength with
  | nil => rfl
  | cons n ns ih => rw [List.flatMap_cons, failures_append, ih, failures_send]

theorem failures_loop (s : Sender) : failures s.loop.2 = 0 := by
  unfold Sender.loop
  split
  · exact failures_sendWindow s
  · rfl

theorem failures_sender (s : Sender) (i : Input) : failures (s.resume i).2 = 0 := by
  cases i with
  | timeout =>
    simp only [Sender.resume]
    split
    · rfl
    · exact failures_loop _
  | packet pkt fault =>
    simp only [Sender.resume]
    split
    · rfl
    split
    · split <;> rfl
    · split
      · exact failures_loop _
      · split
        · rfl
        · exact failures_loop _

theorem failures_onExpected (r : Receiver) (payload : Bytes) (fault : Option (Nat × Str)) :
    failures (r.onExpected payload fault).2 = 0 := by
  unfold Receiver.onExpected
  split
  · rfl
  split
  · rfl
  simp only
  split
  · exact failures_received _
  have hdrain : ∀ (r : Receiver) (fault : Option (Nat × Str)),
      failures (r.drain fault).2.2 = 0 := by
    intro r fault
    exact failures_received _
  have hfx := hdrain (r.store payload)
  split
  · rename_i heq
    have hz := hfx (fault.map fun f => (f.1 - 1, f.2))
    rw [heq] at hz
    rw [failures_append, failures_received, Nat.zero_add]
    exact hz
  · rename_i heq
    have hz := hfx (fault.map fun f => (f.1 - 1, f.2))
    rw [heq] at hz
    rw [failures_append, failures_append, failures_received, Nat.zero_add]
    exact congrArg (· + 0) hz

theorem failures_receiver (r : Receiver) (i : Input) : failures (r.resume i).2 = 0 := by
  cases i with
  | timeout =>
    simp only [Receiver.resume]
    split <;> rfl
  | packet pkt fault =>
    simp only [Receiver.resume]
    split
    · rfl
    split
    · split <;> rfl
    split
    · rfl
    split
    · rfl
    · split
      · rfl
      · split
        · exact failures_onExpected _ _ _
        · rfl

/-- `r` is what has become of the session `s`, and `b` says whether a fault was counted. -/
structure Faults (s : Session) (b : Bool) (r : Session × List Effect) : Prop where
  serverFault : r.1.info.serverFault = (s.info.serverFault || b)
  failures : failures r.2 = b.toNat

variable {r : Session × List Effect} {s : Session}

theorem Faults.after {b : Bool} (h : Faults s b r) {fx : List Effect} (hfx : Py.failures fx = 0) :
    Faults s b (after fx r) := by
  refine ⟨h.serverFault, ?_⟩
  show Py.failures (fx ++ r.2) = b.toNat
  rw [failures_append, hfx, Nat.zero_add, h.failures]

/-- Only what is in `info.serverFault` matters of the session before. -/
theorem Faults.of_info {s s' : Session} {b : Bool} (h : Faults s' b r)
    (hs : s'.info.serverFault = s.info.serverFault) : Faults s b r :=
  ⟨by rw [h.serverFault, hs], h.failures⟩

theorem faults_fail (s : Session) (e : Exc) : Faults s e.faulty (s.fail e) := by
  cases e with
  | other what => exact ⟨(Bool.or_true _).symm, rfl⟩
  | tftp e =>
    simp only [Session.fail, Exc.faulty]
    split
    · rename_i h
      rw [h]
      exact ⟨(Bool.or_true _).symm, rfl⟩
    · rename_i h
      rw [Bool.eq_false_iff.2 h]
      exact ⟨(Bool.or_false _).symm, rfl⟩

theorem faults_none {s s' : Session} {fx : List Effect}
    (hs : s'.info.serverFault = s.info.serverFault) (hfx : failures fx = 0) :
    Faults s false (s', fx) :=
  ⟨by rw [Bool.or_false]; exact hs, hfx⟩

/-- A step of the send loop, taken over by the session. -/
theorem faults_sent (s : Session) {r : Next Sender × List Effect} (hfx : failures r.2 = 0) :
    Faults s (r.1.exc.any Exc.faulty) (s.sent r) := by
  obtain ⟨n, fx⟩ := r
  cases n with
  | wait snd => exact faults_none rfl hfx
  | ret snd =>
    have h : Faults s false
        { s with info := { s.info with bytesTransferred := snd.bytesTransferred } }.done :=
      faults_none rfl rfl
    exact h.after hfx
  | raise snd e =>
    have h := faults_fail { s with info := { s.info with
      bytesTransferred := snd.bytesTransferred } } e
    exact (h.of_info (s := s) rfl).after hfx

theorem faults_sendFile (s : Session) (snd : Sender) : Faults s false (s.sendFile snd) := by
  have h := faults_sent { s with info := { s.info with state := str "transferring" } }
    (failures_loop snd)
  rw [exc_loop] at h
  exact h.of_info rfl

theorem faults_sendOack (s : Session) (left : Nat) (oack : Bytes) (next : Sender) :
    Faults s false (s.sendOack left oack next) := by
  cases left with
  | zero =>
    have h := faults_fail s (.tftp neverAcked)
    exact h
  | succ left => exact faults_none rfl (failures_send oack)

theorem faults_onOack (s : Session) (left : Nat) (oack : Bytes) (next : Sender) (i : Input) :
    Faults s (blames i) (s.onOack left oack next i) := by
  have hfail : ∀ {e : TFTPError}, isServerFault e = false → Faults s false (s.fail (.tftp e)) := by
    intro e he
    have h := faults_fail s (.tftp e)
    rw [show Exc.faulty (.tftp e) = false from he] at h
    exact h
  cases i with
  | timeout => exact faults_sendOack s left oack next
  | packet pkt fault =>
    simp only [Session.onOack, blames]
    cases hop : peekOpcode pkt with
    | error e => exact hfail (malformed_not_fault (.inl hop))
    | ok op =>
      dsimp only
      by_cases hack : op = OP_ACK
      · subst hack
        have hne : (OP_ACK == OP_ERROR) = false := by decide
        simp only [if_true, hne, Bool.false_and]
        cases hn : parseAck pkt with
        | error e => exact hfail (malformed_not_fault (.inr (.inr (.inl hn))))
        | ok n =>
          dsimp only
          split
          · exact faults_sendFile s next
          · exact faults_sendOack s left oack next
      · rw [if_neg hack]
        by_cases herr : op = OP_ERROR
        · subst herr
          cases he : parseError pkt with
          | error e => exact hfail (malformed_not_fault (.inr (.inl he)))
          | ok err => exact faults_fail s (.tftp err)
        · rw [if_neg herr, beq_false_of_ne herr]
          exact faults_sendOack s left oack next

/-- The operations after the last block of an upload succeed. -/
structure Stores (w : World) : Prop where
  replace : w.replace = none
  upload : w.upload = true

theorem faults_received (hw : Stores s.world) (r : Receiver) (path : Str) :
    Faults s false (s.received r path) := by
  unfold Session.received
  rw [hw.replace]
  dsimp only
  rw [hw.upload]
  split
  · exact faults_none rfl rfl
  · exact faults_none rfl rfl

theorem faults_stepped (hw : Stores s.world) (path : Str) {r : Next Receiver × List Effect}
    (hfx : failures r.2 = 0) : Faults s (r.1.exc.any Exc.faulty) (s.stepped path r) := by
  obtain ⟨n, fx⟩ := r
  cases n with
  | wait r => exact faults_none rfl hfx
  | ret r =>
    have h := faults_received (s := { s with info := { s.info with
      bytesTransferred := r.bytesTransferred } }) hw r path
    exact (h.of_info (s := s) rfl).after hfx
  | raise r e =>
    have h := faults_fail { s with info := { s.info with
      bytesTransferred := r.bytesTransferred } } e
    exact (h.of_info (s := s) rfl).after hfx

/-- The inputs that make a session count as a failure of the server, by where it waits. -/
def countsAgainst (s : Session) (i : Input) : Bool :=
  match s.stage with
  | .oackSent .. | .sending _ => blames i
  | .receiving r _ => blames i || pastLast r i
  | .ended => false

/-- **One step** counts a fault exactly on such an input. -/
theorem faults_resume (hw : Stores s.world) {i : Input} (hi : i.intact) :
    Faults s (countsAgainst s i) (s.resume i) := by
  cases hs : s.stage with
  | oackSent left oack next =>
    simp only [Session.resume, countsAgainst, hs]
    exact faults_onOack s left oack next i
  | sending snd =>
    simp only [Session.resume, countsAgainst, hs]
    rw [← sender_faulty snd i]
    exact faults_sent s (failures_sender snd i)
  | receiving r path =>
    simp only [Session.resume, countsAgainst, hs]
    rw [← receiver_faulty r i hi]
    exact faults_stepped hw path (failures_receiver r i)
  | ended =>
    simp only [Session.resume, countsAgainst, hs]
    exact faults_none rfl rfl

/-! ## The start -/

/-- The exception that keeps a session from its first wait. -/
def startExc (args : SessionArgs) (world : World) : Option Exc :=
  if args.request.opcode = OP_RRQ then
    match (args.openRrq world (Session.new args world).info).2 with
    | .error e => some e
    | .ok _ => none
  else
    match (args.openWrq world (Session.new args world).info).2.2 with
    | .error e => some e
    | .ok _ => none

/-- Rollover is off, and a request that passes every other check needs more than 65535 blocks: by
    the size of the file, or by the size the client has announced. -/
inductive NeedsRollover (args : SessionArgs) (world : World) : Prop
  | read {data : Bytes} {neg : Negotiated} (opcode : args.request.opcode = OP_RRQ)
      (mode : modeSupported args.request.mode = true) (lock : world.lock = none)
      (load : world.load = .ok (some data))
      (size : ¬ (args.rrqLimit args.request.filename ≠ 0 ∧
        args.rrqLimit args.request.filename < (data.length : Int)))
      (settled : negotiate args.request.options args.cfg (some data.length) true = .ok neg)
      (divides : neg.blksize ≠ 0) (off : args.allowRollover = false)
      (many : 65535 < totalBlocks data.length neg.blksize)
  | write {path : Str} {neg : Negotiated} {size : Int} (opcode : args.request.opcode ≠ OP_RRQ)
      (writes : args.enableWrites = true) (mode : modeSupported args.request.mode = true)
      (ftp : ¬ (args.isFtpName args.request.filename = true ∧ args.allowWrqFtp = false))
      (joins : safeJoin world.paths args.writeRoot args.uploadName = .ok path)
      (lock : world.lock = none)
      (settled : negotiate args.request.options args.cfg none false = .ok neg)
      (announced : advertised neg = some size)
      (fits : ¬ (args.maxWrqSize ≠ 0 ∧ args.maxWrqSize < size))
      (divides : neg.blksize ≠ 0) (off : args.allowRollover = false)
      (many : 65535 < totalBlocks size neg.blksize)

/-- The start of a session counts a fault exactly for an exception that counts. -/
theorem faults_start (args : SessionArgs) (world : World) :
    Faults (.new args world) ((startExc args world).any Exc.faulty) (Session.start args world) := by
  have hrrq := (openRrq_info args world (Session.new args world).info).2
  obtain ⟨⟨-, hwrq⟩, hsent⟩ := openWrq_info args world (Session.new args world).info
  have hargs : (Session.new args world).args = args := rfl
  have hworld : (Session.new args world).world = world := rfl
  unfold Session.start startExc
  split
  · rw [Session.startRrq, hargs, hworld]
    generalize args.openRrq world (Session.new args world).info = r at hrrq
    refine Faults.after ?_ rfl
    rcases r with ⟨info, e | ⟨next, _ | oack⟩⟩
    · exact (faults_fail _ e).of_info hrrq
    · exact (faults_sendFile _ next).of_info hrrq
    · exact (faults_sendOack _ _ oack next).of_info hrrq
  · rw [Session.startWrq, hargs, hworld]
    generalize args.openWrq world (Session.new args world).info = r at hwrq hsent
    have hfx : failures r.2.1 = 0 := by
      rcases hsent with hsent | ⟨neg, hsent⟩ <;> rw [hsent]
      · rfl
      · exact failures_send _
    refine Faults.after ?_ rfl
    rcases r with ⟨info, fx, e | ⟨r, path⟩⟩
    · exact ((faults_fail _ e).of_info hwrq).after hfx
    · exact faults_none hwrq hfx

theorem safeJoin_not_fault {paths : PathOps} {root filename : Str} {e : TFTPError}
    (h : safeJoin paths root filename = .error e) : isServerFault e = false := by
  have hcode : e.code = ERR_ACCESS := by
    unfold safeJoin at h
    split at h
    · cases h
      rfl
    · dsimp only at h
      split at h <;> cases h
      rfl
  refine isServerFault_of_code ?_
  rw [hcode]
  decide

theorem not_faulty_of_code (c : UInt16) (hc : c ≠ ERR_UNDEFINED) {e : TFTPError} (h : e.code = c) :
    Exc.faulty (.tftp e) = false :=
  isServerFault_of_code (h ▸ hc)

/-- What can keep a download from starting. -/
theorem openRrq_error {a : SessionArgs} {w : World} {info : SessionInfo} {e : Exc}
    (hop : a.request.opcode = OP_RRQ) (h : (a.openRrq w info).2 = .error e) :
    (∃ what, e = .other what) ∨ e.faulty = false ∨ NeedsRollover a w := by
  simp only [SessionArgs.openRrq] at h
  split at h
  · cases h
    exact .inr (.inl (not_faulty_of_code ERR_ILLEGAL_OP (by decide) rfl))
  rename_i hmode
  split at h
  · cases h
    exact .inr (.inl (not_faulty_of_code ERR_ACCESS (by decide) rfl))
  rename_i hlock
  split at h
  · cases h
    exact .inl ⟨_, rfl⟩
  · cases h
    exact .inr (.inl (not_faulty_of_code ERR_NOT_FOUND (by decide) rfl))
  rename_i data hload
  split at h
  · cases h
    exact .inr (.inl (not_faulty_of_code ERR_DISK_FULL (by decide) rfl))
  rename_i hsize
  split at h
  · cases h
    exact .inl ⟨_, rfl⟩
  rename_i neg hneg
  simp only [SessionArgs.settleRrq] at h
  split at h
  · cases h
    exact .inl ⟨_, rfl⟩
  rename_i hdiv
  split at h
  · rename_i hroll
    exact .inr (.inr (.read hop (Bool.eq_true_of_not_eq_false hmode) hlock hload hsize
      hneg hdiv hroll.1 hroll.2))
  · split at h
    · cases h
      exact .inl ⟨_, rfl⟩
    · cases h

/-- What can keep an upload from starting. -/
theorem openWrq_error {a : SessionArgs} {w : World} {info : SessionInfo} {e : Exc}
    (hop : a.request.opcode ≠ OP_RRQ) (h : (a.openWrq w info).2.2 = .error e) :
    (∃ what, e = .other what) ∨ e.faulty = false ∨ NeedsRollover a w := by
  simp only [SessionArgs.openWrq] at h
  split at h
  · cases h
    exact .inr (.inl (not_faulty_of_code ERR_ACCESS (by decide) rfl))
  rename_i hwrites
  split at h
  · cases h
    exact .inr (.inl (not_faulty_of_code ERR_ILLEGAL_OP (by decide) rfl))
  rename_i hmode
  split at h
  · cases h
    exact .inr (.inl (not_faulty_of_code ERR_ACCESS (by decide) rfl))
  rename_i hftp
  split at h
  · rename_i hjoin
    cases h
    exact .inr (.inl (safeJoin_not_fault hjoin))
  rename_i path hjoin
  split at h
  · cases h
    exact .inr (.inl (not_faulty_of_code ERR_ACCESS (by decide) rfl))
  rename_i hlock
  split at h
  · cases h
    exact .inl ⟨_, rfl⟩
  rename_i neg hneg
  simp only [SessionArgs.settleWrq] at h
  split at h
  · rename_i e' hcheck
    obtain rfl : e' = e := Except.error.inj h
    unfold SessionArgs.checkAdvertised at hcheck
    split at hcheck
    · cases hcheck
    rename_i size hsize
    split at hcheck
    · cases hcheck
      exact .inr (.inl (not_faulty_of_code ERR_DISK_FULL (by decide) rfl))
    rename_i hfits
    split at hcheck
    · cases hcheck
    rename_i hoff
    split at hcheck
    · cases hcheck
      exact .inl ⟨_, rfl⟩
    rename_i hdiv
    split at hcheck
    · rename_i hmany
      exact .inr (.inr (.write hop (Bool.eq_true_of_not_eq_false hwrites)
        (Bool.eq_true_of_not_eq_false hmode) hftp hjoin hlock hneg hsize hfits
        hdiv (Bool.eq_false_iff.2 hoff) hmany))
    · cases hcheck
  · dsimp only at h
    split at h
    · cases h
      exact .inl ⟨_, rfl⟩
    · split at h
      · cases h
        exact .inl ⟨_, rfl⟩
      · cases h

/-- A request that needs rollover where it is off is refused, and the refusal counts. -/
theorem NeedsRollover.startExc {args : SessionArgs} {world : World} (h : NeedsRollover args world) :
    (startExc args world).any Exc.faulty = true := by
  cases h with
  | @read data neg hop hmode hlock hload hsize hneg hdiv hoff hmany =>
    have hexc : Py.startExc args world =
        some (.tftp (needsRollover "transfer" (totalBlocks data.length neg.blksize))) := by
      simp only [Py.startExc, if_pos hop, SessionArgs.openRrq, hmode, hlock, hload, if_neg hsize,
        hneg, SessionArgs.settleRrq, if_neg hdiv, if_pos (And.intro hoff hmany)]
      rfl
    rw [hexc]
    exact isServerFault_needsRollover (.inl rfl) _
  | @write path neg size hop hwrites hmode hftp hjoin hlock hneg hsize hfits hdiv hoff hmany =>
    have hexc : Py.startExc args world =
        some (.tftp (needsRollover "upload" (totalBlocks size neg.blksize))) := by
      simp only [Py.startExc, if_neg hop, SessionArgs.openWrq, hwrites, hmode, if_neg hftp, hjoin,
        hlock, hneg, SessionArgs.settleWrq, SessionArgs.checkAdvertised, hsize, if_neg hfits, hoff,
        if_neg hdiv, if_pos hmany]
      rfl
    rw [hexc]
    exact isServerFault_needsRollover (.inr rfl) _

/-- **At the start** an error of the protocol counts exactly when it is a refusal for rollover. -/
theorem startExc_faulty_iff {args : SessionArgs} {world : World}
    (h : ∀ what, startExc args world ≠ some (.other what)) :
    (startExc args world).any Exc.faulty = true ↔ NeedsRollover args world := by
  refine ⟨fun hfaulty => ?_, NeedsRollover.startExc⟩
  obtain ⟨e, he, htrue⟩ : ∃ e, startExc args world = some e ∧ e.faulty = true := by
    simpa [Option.any_eq_true] using hfaulty
  have hcases : (∃ what, e = .other what) ∨ e.faulty = false ∨ NeedsRollover args world := by
    unfold startExc at he
    split at he
    · rename_i hop
      split at he
      · rename_i hopen
        obtain rfl := Option.some.inj he
        exact openRrq_error hop hopen
      · cases he
    · rename_i hop
      split at he
      · rename_i hopen
        obtain rfl := Option.some.inj he
        exact openWrq_error hop hopen
      · cases he
  rcases hcases with ⟨what, rfl⟩ | hnot | hneeds
  · exact absurd he (h what)
  · rw [hnot] at htrue
    cases htrue
  · exact hneeds

/-! ## Every run -/

/-- The session after one wait. -/
def sessionStep (s : Session) (i : Input) : Session := (s.resume i).1

/-- No operation of the server fails: the start meets no exception but the protocol's own, every
    write to disk succeeds, and so do the rename and the upload at the end. -/
structure NoFailure (args : SessionArgs) (world : World) (is : List Input) : Prop where
  start : ∀ what, startExc args world ≠ some (.other what)
  stores : Stores world
  intact : ∀ i ∈ is, i.intact

/-- No server fault is noted, and no failed session counted. -/
def Blameless (r : Session × List Effect) : Prop :=
  r.1.info.serverFault = false ∧ failures r.2 = 0

theorem Faults.blameless_iff {b : Bool} (h : Faults s b r) {fx : List Effect} :
    Blameless (Py.after fx r) ↔ Blameless (s, fx) ∧ b = false := by
  show r.1.info.serverFault = false ∧ Py.failures (fx ++ r.2) = 0 ↔
    (s.info.serverFault = false ∧ Py.failures fx = 0) ∧ b = false
  rw [h.serverFault, failures_append, h.failures]
  cases b <;> simp

theorem run_blameless_iff (hw : Stores r.1.world) {is : List Input} (his : ∀ i ∈ is, i.intact) :
    Blameless (is.foldl (fun r i => after r.2 (r.1.resume i)) r) ↔
      Blameless r ∧ Along sessionStep (fun s i => countsAgainst s i = false) r.1 is := by
  induction is generalizing r with
  | nil => exact ⟨fun h => ⟨h, trivial⟩, And.left⟩
  | cons i is ih =>
    have hstep := faults_resume hw (his i List.mem_cons_self)
    have hworld : Stores (after r.2 (r.1.resume i)).1.world := by
      show Stores (r.1.resume i).1.world
      rw [(same_resume r.1 i).world]
      exact hw
    rw [List.foldl_cons, ih hworld fun j hj => his j (List.mem_cons_of_mem _ hj),
      hstep.blameless_iff, and_assoc]
    exact Iff.rfl

/-- **Server faults.**  In every run of a session in which no operation of the server fails, no
    server fault is noted and no failed session counted exactly when the request is not refused for
    rollover and no packet that the session takes in counts against it: an ERROR 0 of the client
    with a message of its own, or a block that would need rollover where it is off. -/
theorem server_fault_iff {args : SessionArgs} {world : World} {is : List Input}
    (h : NoFailure args world is) :
    Blameless (Session.run args world is) ↔
      ¬ NeedsRollover args world ∧
        Along sessionStep (fun s i => countsAgainst s i = false) (Session.start args world).1 is := by
  have hworld : Stores (Session.start args world).1.world := by
    have hsame : Same (Session.new args world) (Session.start args world).1 := by
      unfold Session.start
      split
      · exact same_startRrq _
      · exact same_startWrq _
    rw [hsame.world]
    exact h.stores
  have hstart : Blameless (after [] (Session.start args world)) ↔ _ :=
    (faults_start args world).blameless_iff
  have hblameless : Blameless (Session.start args world) ↔ ¬ NeedsRollover args world := by
    rw [← startExc_faulty_iff h.start, Bool.not_eq_true]
    exact hstart.trans ⟨And.right, fun hb => ⟨⟨rfl, rfl⟩, hb⟩⟩
  rw [Session.run, run_blameless_iff hworld h.intact, hblameless]

/-- A read of a file of one byte. -/
def readOneByte : SessionArgs := bareArgs ⟨OP_RRQ, str "a", str "octet", []⟩

theorem noFailure_readOneByte {is : List Input} (his : ∀ i ∈ is, i.intact) :
    NoFailure readOneByte (obligingWorld (some [65])) is := by
  refine ⟨?_, ⟨rfl, rfl⟩, his⟩
  intro what h
  cases h

/-- A client that acknowledges what it gets: no fault. -/
theorem acknowledged_blameless :
    NoFailure readOneByte (obligingWorld (some [65])) [.packet (packAck 1) none] ∧
      Blameless (Session.run readOneByte (obligingWorld (some [65])) [.packet (packAck 1) none]) := by
  have hnone : NoFailure readOneByte (obligingWorld (some [65])) [.packet (packAck 1) none] :=
    noFailure_readOneByte (by simp [Input.intact])
  refine ⟨hnone, (server_fault_iff hnone).2 ⟨?_, rfl, trivial⟩⟩
  intro hneeds
  cases hneeds with
  | read _ _ _ _ _ _ _ hoff _ => cases hoff
  | write hop _ _ _ _ _ _ _ _ _ _ _ => exact hop rfl

/-- A client that gives up with an ERROR 0: the server is at fault. -/
theorem abort_blamed_on_server :
    NoFailure readOneByte (obligingWorld (some [65]))
        [.packet (packError ⟨0, str "aborted by user"⟩) none] ∧
      ¬ Blameless (Session.run readOneByte (obligingWorld (some [65]))
        [.packet (packError ⟨0, str "aborted by user"⟩) none]) := by
  refine ⟨noFailure_readOneByte (by simp [Input.intact]), fun h => ?_⟩
  have hfault : (Session.run readOneByte (obligingWorld (some [65]))
      [.packet (packError ⟨0, str "aborted by user"⟩) none]).1.info.serverFault = true := rfl
  rw [h.1] at hfault
  cases hfault

end Nishro.Py
