import NishroTftp.Py.UploadLink
/-
  What holds along every run of an upload.

  The client has not begun, or it works with parameters that were offered to it and the session is
  where `FullBlocks` and (if no number is mistaken) `Exact` say, or the session has ended, with the file
  stored if it is done.  Where blocks of the offered sizes can do no harm (`Receiver.Safe`) every step
  keeps this.

  Two arguments carry it.  An ACK is never taken for more than it says, so the client is never more than
  a window ahead of the session, and a block is taken for itself or for a LATER one, never for an
  earlier one.  And a block that stands for one before the last is full, whatever its number should have
  been, so the cap on the size and the one on the number of blocks see what they would see of the file.
-/
namespace Nishro.Py

open Runs Blocks WriteClient

/-! ## How a session ends -/

/-- The rename works, and the upload of an FTP target. -/
def World.Completes (w : World) (a : SessionArgs) : Prop :=
  w.replace = none ∧ (a.isFtpName a.request.filename = true → w.upload = true)

theorem arrived_of_not_done {file : Bytes} {s : Session} (h : s.info.state ≠ str "done") :
    Arrived file s := fun hdone => absurd hdone h

/-- The loop has returned. -/
theorem arrived_ret_iff {file : Bytes} (s : Session) {path : Str} {p : Next Receiver × List Effect}
    {r : Receiver} (h : p.1 = .ret r)
    (hjoin : safeJoin s.world.paths s.args.writeRoot s.args.uploadName = .ok path) :
    Arrived file (s.stepped path p).1 ↔ (s.world.Completes s.args → r.file = file) := by
  obtain ⟨n, fx⟩ := p
  obtain rfl : n = .ret r := h
  have hours : ∀ (s : Session) (e : Exc), e.Ours → Arrived file (s.fail e).1 := fun s e he =>
    arrived_of_not_done (by rw [fail_state]; exact he.ne_done)
  simp only [Session.stepped, after, Session.received]
  unfold World.Completes
  cases hrep : s.world.replace with
  | some what =>
    refine iff_of_true (hours _ _ (ours_other what)) ?_
    rintro ⟨h, -⟩
    cases h
  | none =>
    by_cases hftp : s.args.isFtpName s.args.request.filename = true
    · rw [if_pos hftp]
      by_cases hup : s.world.upload = true
      · rw [if_pos hup]
        exact ⟨fun ha _ => (ha rfl).2, fun ha _ => ⟨rfl, ha ⟨rfl, fun _ => hup⟩⟩⟩
      · rw [if_neg hup]
        refine iff_of_true (hours _ _ ?_) fun ha => absurd (ha.2 hftp) hup
        simp [Exc.Ours, Exc.text, uploadFailed, str]
    · rw [if_neg hftp]
      exact ⟨fun ha _ => (ha rfl).2, fun ha _ => ⟨hjoin, ha ⟨rfl, fun hx => absurd hx hftp⟩⟩⟩

/-- An input that is not an ERROR of the client leaves none of its words. -/
theorem raise_ours {r r' : Receiver} {i : Input} {e : Exc} (hquiet : ∀ err, ¬ reports err i)
    (h : (r.resume i).1 = .raise r' e) : e.Ours := by
  have hexit := exits r i
  rw [h] at hexit
  cases hexit with
  | raise off why =>
    rcases why with ⟨hours, -⟩ | ⟨err, hrep, -⟩
    · exact hours
    · exact absurd hrep (hquiet err)

theorem data_quiet (p : Nat → Bytes) (n : Nat) (err : TFTPError) : ¬ reports err (arrival p n) := by
  rintro ⟨hop, -⟩
  cases hop

/-! ## What holds along a run -/

/-- `r` works with the parameters of `base`. -/
structure Kin (base r : Receiver) : Prop where
  blksize : r.blksize = base.blksize
  windowsize : r.windowsize = base.windowsize
  maxWrqSize : r.maxWrqSize = base.maxWrqSize
  allowRollover : r.allowRollover = base.allowRollover

theorem Kin.refl (r : Receiver) : Kin r r := ⟨rfl, rfl, rfl, rfl⟩

/-- Nothing has been received. -/
structure Untouched (base r : Receiver) : Prop extends Kin base r where
  expected : r.expected = 1
  queue : r.windowReceived = []
  file : r.file = []
  bytes : r.bytesTransferred = 0
  maxRetries : r.maxRetries = base.maxRetries

/-- An upload under way, of blocks of `bs` bytes in windows of `ws`. -/
structure Going (file : Bytes) (bs ws : Nat) (base : Receiver) (x : UploadLink) (r : Receiver) :
    Prop extends Kin base r, FullBlocks file bs r where
  params : x.client.params = some (bs, ws)
  client : x.client.Within (blockCount file.length bs) ws
  acked : x.client.acked < r.expected
  out : ∀ m pkt, (m, pkt) ∈ x.out → m < r.expected ∧
    ∀ wire, ackNumber pkt = some wire → wire.toNat = m % 65536
  narrow : base.windowsize = 1 → r.windowReceived = [] ∧ r.expected ≤ x.client.high + 1
  exact : blockCount file.length bs ≤ 65535 ∨ base.windowsize = 1 → Exact file bs r

section Going

variable {file : Bytes} {bs ws n : Nat} {base r : Receiver} {x : UploadLink}

section

variable (h : Going file bs ws base x r) (hws : ws ≤ 65535)
include h hws

/-- What is known of a block that arrives. -/
theorem Going.reach (hn : n ≤ x.client.high) :
    n ≤ blockCount file.length bs ∧ n < r.expected + 65535 := by
  have h1 := h.client.total
  have h2 := h.client.window
  have h3 := h.acked
  omega

/-- It is taken for itself or for a later block. -/
theorem Going.cand_ge (hn : n ≤ x.client.high)
    {c : Nat} (hc : absolute r.expected r.windowsize.toNat (UInt16.ofNat n) = some c) :
    n ≤ c ∧ c % 65536 = n % 65536 := by
  obtain ⟨hlo, -, hnum⟩ := absolute_some hc
  have hreach := (h.reach hws hn).2
  rw [UInt16.toNat_ofNat'] at hnum
  omega

/-- Where nothing is buffered, or the file is short, it is taken for itself or for a block that is
    never reached. -/
theorem Going.cand_exact (h1 : 1 ≤ n)
    (hn : n ≤ x.client.high) (hlate : x.client.high < n + 65535)
    (hplain : blockCount file.length bs ≤ 65535 ∨ base.windowsize = 1) {c : Nat}
    (hc : absolute r.expected r.windowsize.toNat (UInt16.ofNat n) = some c) :
    c = n ∨ (blockCount file.length bs + 2 ≤ c ∧ c ≠ r.expected) := by
  obtain ⟨hge, hmod⟩ := h.cand_ge hws hn hc
  obtain ⟨hlo, hhi, -⟩ := absolute_some hc
  rcases hplain with hshort | hone
  · have hexp := (h.exact (.inl hshort)).expected
    omega
  · have hnear := (h.narrow hone).2
    rw [h.windowsize] at hhi
    omega

/-- A block arrives that is taken for the one expected. -/
theorem Going.taken (h1 : 1 ≤ n)
    (hn : n ≤ x.client.high) (hlate : x.client.high < n + 65535)
    (hc : absolute r.expected r.windowsize.toNat (UInt16.ofNat n) = some r.expected)
    (hplain : blockCount file.length bs ≤ 65535 ∨ base.windowsize = 1) :
    n = r.expected ∧ r.expected ≤ blockCount file.length bs := by
  have hT := (h.reach hws hn).1
  rcases h.cand_exact hws h1 hn hlate hplain hc with heq | ⟨-, hne⟩
  · exact ⟨heq.symm, by omega⟩
  · exact absurd rfl hne

end

/-- **An upload is finished only where it does no harm.**  If a short block arrives in order and is let
    pass, no number of this upload is mistaken, and a block that is short for the session alone is the
    file. -/
theorem Going.finishes (h : Going file bs ws base x r) (hbs : 0 < bs) (hws : ws ≤ 65535) (h1 : 1 ≤ n)
    (hn : n ≤ x.client.high) (hsafe : base.Safe file bs)
    (hc : absolute r.expected r.windowsize.toNat (UInt16.ofNat n) = some r.expected)
    (hcap : ¬ r.overCap (block file bs n)) (hroll : ¬ (r.allowRollover = false ∧ 65535 < r.expected))
    (hshort : ((block file bs n).length : Int) < r.blksize) :
    (blockCount file.length bs ≤ 65535 ∨ base.windowsize = 1) ∧
      ((bs : Int) < r.blksize → file.length ≤ bs) := by
  obtain ⟨hge, -⟩ := h.cand_ge hws hn hc
  have hT := (h.reach hws hn).1
  -- the last block of the file stands at its place or later, with all bytes before it counted
  have hlast : n = blockCount file.length bs →
      file.length ≤ r.bytesTransferred + (block file bs n).length := by
    rintro rfl
    exact h.all_but_last hbs hge
  have hover : r.maxWrqSize ≠ 0 → r.maxWrqSize < (r.bytesTransferred : Int) +
      (block file bs n).length → False := fun h0 hlt => hcap ⟨h0, hlt⟩
  rw [h.maxWrqSize] at hover
  rw [h.allowRollover] at hroll
  rw [h.blksize] at hshort ⊢
  by_cases hlt : (bs : Int) < base.blksize
  · have hfile : file.length ≤ bs := by
      rcases hsafe.short hlt with hfile | ⟨h0, hM⟩
      · exact hfile
      by_contra hlong
      refine hover h0 ?_
      by_cases hnT : n = blockCount file.length bs
      · omega
      · rw [length_full_block file h1 (by omega)]
        omega
    have hdiv : file.length / bs ≤ 1 := Nat.div_le_of_le_mul (by omega)
    unfold blockCount
    omega
  · refine ⟨?_, fun hx => absurd hx hlt⟩
    have hnT := (length_block_lt_iff file hbs h1 hT).1 (by omega)
    have hlen : (block file bs n).length = file.length % bs := by
      rw [hnT]
      exact length_last_block file hbs
    rcases hsafe.full (by omega) with hT' | hw | hr | hB | ⟨h0, hM⟩
    · exact .inl hT'
    · exact .inr hw
    · exact .inl (Nat.le_of_not_lt fun hbig => hroll ⟨hr, by omega⟩)
    · omega
    · exact absurd (by omega) (hover h0)

/-- The ACK that a wait ends with. -/
theorem ackNumber_packAck (wire : UInt16) : ackNumber (packAck wire) = some wire := by
  simp [ackNumber]

/-- The session waits on, in `r'`, and acknowledges what is written. -/
def UploadLink.waits (x : UploadLink) (s : Session) (r' : Receiver) : UploadLink :=
  { x with s, out := x.out ++ [(r'.expected - 1, packAck (UInt16.ofNat (r'.expected - 1)))] }

theorem Going.waits (h : Going file bs ws base x r) (s : Session) {r' : Receiver}
    (hkin : Kin base r') (hfull : FullBlocks file bs r') (hle : r.expected ≤ r'.expected)
    (hnarrow : base.windowsize = 1 → r'.windowReceived = [] ∧ r'.expected ≤ x.client.high + 1)
    (hexact : blockCount file.length bs ≤ 65535 ∨ base.windowsize = 1 → Exact file bs r') :
    Going file bs ws base (x.waits s r') r' := by
  have hone := hfull.one
  refine ⟨hkin, hfull, h.params, h.client, Nat.lt_of_lt_of_le h.acked hle, fun m pkt hm => ?_,
    hnarrow, hexact⟩
  rcases List.mem_append.1 hm with hm | hm
  · exact ⟨Nat.lt_of_lt_of_le (h.out m pkt hm).1 hle, (h.out m pkt hm).2⟩
  · obtain ⟨rfl, rfl⟩ := Prod.mk.inj (List.mem_singleton.1 hm)
    refine ⟨by omega, fun wire hwire => ?_⟩
    rw [ackNumber_packAck] at hwire
    obtain rfl := Option.some.inj hwire
    exact UInt16.toNat_ofNat'

/-- **A block arrives** and the session waits on. -/
theorem Going.data (h : Going file bs ws base x r) (hws : ws ≤ 65535) (h1 : 1 ≤ n)
    (hn : n ≤ x.client.high) (hlate : x.client.high < n + 65535) (s : Session) {r' : Receiver}
    (hr' : (r.resume (arrival (block file bs) n)).1 = .wait r') :
    Going file bs ws base (x.waits s r') r' := by
  have hmeets := meets (block file bs) r n
  rw [hr'] at hmeets
  have hkin : ∀ retries w, Kin base { r with retries := retries, windowReceived := w } :=
    fun _ _ => ⟨h.blksize, h.windowsize, h.maxWrqSize, h.allowRollover⟩
  cases hmeets with
  | ignored =>
    exact h.waits s (hkin _ _) (h.toFullBlocks.retries 0) (Nat.le_refl _) h.narrow
      fun hp => (h.exact hp).retries 0
  | @buffered c hc hne =>
    obtain ⟨hge, -⟩ := h.cand_ge hws hn hc
    refine h.waits s (hkin _ _) ((h.toFullBlocks.retries 0).buffered h1 hge) (Nat.le_refl _)
      (fun hw => ?_) fun hp => ((h.exact hp).retries 0).buffered ?_
    · -- in a window of one block there is none ahead
      obtain ⟨hlo, hhi, -⟩ := absolute_some hc
      rw [h.windowsize] at hhi
      omega
    · rcases h.cand_exact hws h1 hn hlate hp hc with heq | ⟨hfar, -⟩
      · exact .inl ⟨heq, (h.reach hws hn).1⟩
      · exact .inr hfar
  | more hc hlong =>
    obtain ⟨hge, -⟩ := h.cand_ge hws hn hc
    have hst := drained_stores { r with retries := 0 } (block file bs n) none
    have hexp : r.expected ≤ (Receiver.drained { r with retries := 0 } (block file bs n) none).expected := by
      show r.expected ≤ r.expected + 1 + _
      omega
    refine h.waits s ⟨hst.blksize.trans h.blksize, hst.windowsize.trans h.windowsize,
      hst.maxWrqSize.trans h.maxWrqSize, hst.allowRollover.trans h.allowRollover⟩
      ((h.toFullBlocks.retries 0).drained h1 hge) hexp (fun hw => ?_) fun hp => ?_
    · obtain ⟨heq, -⟩ := h.taken hws h1 hn hlate hc (.inr hw)
      have hnone := (h.narrow hw).1
      have hwait : Receiver.waiting { r with retries := 0 } none = [] := by
        show contiguous r.windowReceived.length (r.expected + 1) r.windowReceived = []
        rw [hnone]
        rfl
      constructor
      · show r.windowReceived.filter _ = []
        rw [hnone]
        rfl
      · show r.expected + 1 + (Receiver.waiting { r with retries := 0 } none).length ≤ _
        rw [hwait]
        show r.expected + 1 ≤ x.client.high + 1
        omega
    · obtain ⟨rfl, hT⟩ := h.taken hws h1 hn hlate hc hp
      exact ((h.exact hp).retries 0).drained h.one hT

/-- A block arrives and the loop returns: with the file. -/
theorem Going.ret (h : Going file bs ws base x r) (hbs : 0 < bs) (hws : ws ≤ 65535) (h1 : 1 ≤ n)
    (hn : n ≤ x.client.high) (hlate : x.client.high < n + 65535) (hsafe : base.Safe file bs)
    {r' : Receiver} (hr' : (r.resume (arrival (block file bs) n)).1 = .ret r') : r'.file = file := by
  have hmeets := meets (block file bs) r n
  rw [hr'] at hmeets
  cases hmeets with
  | last hc hcap hroll hshort =>
    obtain ⟨hplain, hfile⟩ := h.finishes hbs hws h1 hn hsafe hc hcap hroll hshort
    obtain ⟨rfl, hT⟩ := h.taken hws h1 hn hlate hc hplain
    exact ((h.exact hplain).retries 0).complete h.one hT hbs hshort hfile

/-- The session has waited in vain, and sends its ACK again. -/
theorem timeout_wait {r r' : Receiver} (h : (r.resume .timeout).1 = .wait r') :
    r' = { r with retries := r.retries + 1 } ∧ 1 ≤ r.maxRetries ∧
      sent (r.resume .timeout).2 = [packAck (UInt16.ofNat (r'.expected - 1))] := by
  simp only [Receiver.resume] at h ⊢
  split at h
  · cases h
  · next hleft =>
    cases h
    refine ⟨rfl, by omega, ?_⟩
    rw [if_neg hleft]
    rfl

theorem timeout_not_ret (r r' : Receiver) : (r.resume .timeout).1 ≠ .ret r' := by
  intro h
  simp only [Receiver.resume] at h
  split at h <;> cases h

theorem Going.timeout (h : Going file bs ws base x r) (s : Session) {r' : Receiver}
    (hr' : (r.resume .timeout).1 = .wait r') : Going file bs ws base (x.waits s r') r' := by
  obtain ⟨rfl, -, -⟩ := timeout_wait hr'
  exact h.waits s ⟨h.blksize, h.windowsize, h.maxWrqSize, h.allowRollover⟩
    (h.toFullBlocks.retries _) (Nat.le_refl _) h.narrow fun hp => (h.exact hp).retries _

/-- A packet reaches the client. -/
theorem Going.reply (h : Going file bs ws base x r) {m : Nat} {pkt : Bytes} (hm : (m, pkt) ∈ x.out)
    (hlate : x.client.high < m + 65535) :
    Going file bs ws base { x with client := hears x.client pkt } r := by
  cases hack : ackNumber pkt with
  | none =>
    have hsame : hears x.client pkt = x.client := by simp only [hears, h.params, hack]
    rw [hsame]
    exact h
  | some wire =>
    have hhears : hears x.client pkt = x.client.ack wire := by simp only [hears, h.params, hack]
    rw [hhears]
    obtain ⟨hlt, hnum⟩ := h.out m pkt hm
    have hle := Client.acked_le (hnum wire hack) hlate
    have hacked := h.acked
    refine ⟨h.toKin, h.toFullBlocks, (x.client.ack_params wire).trans h.params, h.client.ack wire, ?_,
      h.out, ?_, h.exact⟩
    · show (x.client.ack wire).acked < r.expected
      omega
    · show base.windowsize = 1 → _ ∧ r.expected ≤ (x.client.ack wire).high + 1
      rw [x.client.ack_high wire]
      exact h.narrow

/-- The client sends on. -/
theorem Going.send (h : Going file bs ws base x r) :
    Going file bs ws base { x with client := x.client.send file } r := by
  have hhigh := x.client.le_send_high file
  refine ⟨h.toKin, h.toFullBlocks, (x.client.send_params file).trans h.params,
    h.client.send file h.params, ?_, h.out, fun hw => ⟨(h.narrow hw).1, ?_⟩, h.exact⟩
  · show (x.client.send file).acked < r.expected
    rw [x.client.send_acked]
    exact h.acked
  · exact Nat.le_trans (h.narrow hw).2 (Nat.add_le_add_right hhigh 1)

end Going

/-! ## Every run -/

section Phases

variable {file : Bytes} {a : SessionArgs} {w : World} {neg : Negotiated} {path : Str}
  {base : Receiver} {x : UploadLink}

theorem opening_spec {pkt : Bytes} {bs ws : Nat} (h : opening pkt = some (bs, ws)) :
    0 < bs ∧ 1 ≤ ws ∧ ws ≤ 65535 := by
  unfold opening at h
  split at h
  · split at h
    · cases h
      decide
    · cases h
  · split at h
    · split at h
      · unfold adopt at h
        dsimp only at h
        split at h
        · next hok =>
          obtain ⟨rfl, rfl⟩ := Prod.mk.inj (Option.some.inj h)
          omega
        · cases h
      · cases h
    · cases h

/-- Where an upload can stand. -/
inductive LinkPhase (file : Bytes) (a : SessionArgs) (w : World) (neg : Negotiated) (path : Str)
    (base : Receiver) (x : UploadLink) : Prop
  /-- the client waits for the first answer -/
  | idle {r : Receiver} (stage : x.s.stage = .receiving r path)
      (state : x.s.info.state ≠ str "done") (fresh : Untouched base r) (client : x.client = .new)
      (out : ∀ m pkt, (m, pkt) ∈ x.out →
        m = 0 ∧ (pkt = wrqReply neg ∨ (1 ≤ base.maxRetries ∧ pkt = packAck 0)))
  | going {r : Receiver} {bs ws : Nat} (stage : x.s.stage = .receiving r path)
      (state : x.s.info.state ≠ str "done") (size : 0 < bs) (window : ws ≤ 65535)
      (offered : Offered neg base.maxRetries (bs, ws)) (on : Going file bs ws base x r)
  | ended (stage : x.s.stage = .ended) (arrived : Arrived file x.s)

/-- The session is still the one that was started. -/
structure OfSession (a : SessionArgs) (w : World) (s : Session) : Prop where
  args : s.args = a
  world : s.world = w

theorem OfSession.resume {s : Session} (h : OfSession a w s) (i : Input) :
    OfSession a w (s.resume i).1 := by
  have hsame := same_resume s i
  exact ⟨hsame.args.trans h.args, hsame.world.trans h.world⟩

/-- A wait ends and the session waits on. -/
theorem input_waits {r r' : Receiver} (hstage : x.s.stage = .receiving r path) {i : Input}
    (h : (r.resume i).1 = .wait r')
    (hsent : sent (r.resume i).2 = [packAck (UInt16.ofNat (r'.expected - 1))]) :
    x.input i = x.waits (x.s.stepped path (r.resume i)).1 r' := by
  have hresume : x.s.resume i = x.s.stepped path (r.resume i) := by
    simp only [Session.resume, hstage]
  have hfx : (x.s.stepped path (r.resume i)).2 = (r.resume i).2 := by
    generalize r.resume i = p at h
    obtain ⟨n, fx⟩ := p
    obtain rfl : n = .wait r' := h
    rfl
  have hwritten : x.s.written i = r'.expected - 1 := by
    simp only [Session.written, hstage, h, Next.state]
  unfold UploadLink.input UploadLink.waits
  rw [hwritten, hresume]
  dsimp only
  rw [hfx, hsent]
  rfl

theorem input_session {r : Receiver} (hstage : x.s.stage = .receiving r path) (i : Input) :
    (x.input i).s = (x.s.stepped path (r.resume i)).1 := by
  show (x.s.resume i).1 = _
  simp only [Session.resume, hstage]

/-- A wait ends in an exception. -/
theorem LinkPhase.raised {r r' : Receiver} {e : Exc} {i : Input}
    (hstage : x.s.stage = .receiving r path) (hquiet : ∀ err, ¬ reports err i)
    (h : (r.resume i).1 = .raise r' e) : LinkPhase file a w neg path base (x.input i) := by
  obtain ⟨hend, hstate⟩ := stepped_raise x.s path h
  have hours := raise_ours hquiet h
  refine .ended (by rw [input_session hstage]; exact hend) (arrived_of_not_done ?_)
  rw [input_session hstage, hstate]
  exact hours.ne_done

/-- A session that has ended waits for nothing. -/
theorem LinkPhase.over (stage : x.s.stage = .ended) (arrived : Arrived file x.s) (i : Input) :
    LinkPhase file a w neg path base (x.input i) := by
  have hresume : x.s.resume i = (x.s, []) := by simp only [Session.resume, stage]
  refine .ended ?_ ?_
  · show (x.s.resume i).1.stage = _
    rw [hresume]
    exact stage
  · show Arrived file (x.s.resume i).1
    rw [hresume]
    exact arrived

theorem LinkPhase.timeout (h : LinkPhase file a w neg path base x) :
    LinkPhase file a w neg path base (x.input .timeout) := by
  cases h with
  | ended stage arrived => exact .over stage arrived .timeout
  | @idle r stage state fresh client out =>
    cases hr : (r.resume .timeout).1 with
    | ret r' => exact absurd hr (timeout_not_ret r r')
    | raise r' e => exact .raised stage (fun _ h => h) hr
    | wait r' =>
      obtain ⟨rfl, hretries, hsent⟩ := timeout_wait hr
      obtain ⟨hst, hstate⟩ := stepped_wait x.s path hr
      rw [input_waits stage hr hsent]
      refine .idle hst (by rw [← hstate] at state; exact state)
        ⟨⟨fresh.blksize, fresh.windowsize, fresh.maxWrqSize, fresh.allowRollover⟩, fresh.expected,
          fresh.queue, fresh.file, fresh.bytes, fresh.maxRetries⟩ client fun m pkt hm => ?_
      rcases List.mem_append.1 hm with hm | hm
      · exact out m pkt hm
      have hnum : r.expected - 1 = 0 := by rw [fresh.expected]
      obtain ⟨rfl, rfl⟩ := Prod.mk.inj (List.mem_singleton.1 hm)
      refine ⟨hnum, .inr ⟨by rw [← fresh.maxRetries]; exact hretries, ?_⟩⟩
      show packAck (UInt16.ofNat (r.expected - 1)) = packAck 0
      rw [hnum]
      rfl
  | @going r bs ws stage state size window offered on =>
    cases hr : (r.resume .timeout).1 with
    | ret r' => exact absurd hr (timeout_not_ret r r')
    | raise r' e => exact .raised stage (fun _ h => h) hr
    | wait r' =>
      obtain ⟨-, -, hsent⟩ := timeout_wait hr
      obtain ⟨hst, hstate⟩ := stepped_wait x.s path hr
      rw [input_waits stage hr hsent]
      exact .going hst (by rw [← hstate] at state; exact state) size window offered
        (on.timeout _ hr)

theorem run_ended (h : x.s.stage = .ended) (es : List LinkEvent) :
    (Runs.run (linkStep file) x es).s = x.s := by
  have hinput : ∀ i, (x.s.resume i).1 = x.s := fun i => by simp only [Session.resume, h]
  induction es generalizing x with
  | nil => rfl
  | cons e es ih =>
    have hstep : (linkStep file x e).s = x.s := by
      cases e with
      | data n =>
        simp only [linkStep]
        split
        · split
          · exact hinput _
          · rfl
        · rfl
      | timeout => exact hinput _
      | reply k =>
        simp only [linkStep]
        split <;> rfl
      | send => rfl
    refine (ih (by rw [hstep]; exact h) fun i => ?_).trans hstep
    rw [hstep]
    exact hinput i

/-- What a client that begins finds. -/
theorem Untouched.going {r : Receiver} {bs ws : Nat} (h : Untouched base r)
    (hclient : x.client = .new) (hout : ∀ m pkt, (m, pkt) ∈ x.out →
      m = 0 ∧ (pkt = wrqReply neg ∨ (1 ≤ base.maxRetries ∧ pkt = packAck 0))) :
    Going file bs ws base { x with client := { x.client with params := some (bs, ws) } } r := by
  have hzero : min (r.expected - 1) (blockCount file.length bs - 1) * bs = 0 := by
    rw [h.expected]
    simp
  refine ⟨h.toKin, ⟨by rw [h.expected], by rw [hzero]; exact Nat.zero_le _, ?_⟩, rfl, ?_, ?_, ?_, ?_,
    fun _ => ⟨?_, ?_, ?_⟩⟩
  · intro k q hq
    rw [h.queue] at hq
    cases hq
  · have := within_new (blockCount file.length bs) ws
    rw [hclient]
    exact ⟨this.sent, this.window, this.total⟩
  · show x.client.acked < r.expected
    rw [hclient, h.expected]
    exact Nat.one_pos
  · intro m pkt hm
    obtain ⟨rfl, hpkt⟩ := hout m pkt hm
    refine ⟨by rw [h.expected]; exact Nat.one_pos, fun wire hwire => ?_⟩
    rcases hpkt with rfl | ⟨-, rfl⟩
    · unfold wrqReply at hwire
      split at hwire
      · obtain rfl := Option.some.inj hwire
        rfl
      -- an OACK is no ACK
      unfold ackNumber at hwire
      split at hwire
      · next op wire' heq _ =>
        obtain rfl := Except.ok.inj heq
        cases hwire
      · cases hwire
    · obtain rfl := Option.some.inj hwire
      rfl
  · exact fun _ => ⟨h.queue, by rw [h.expected]; omega⟩
  · rw [h.expected]
    omega
  · rw [h.file, h.expected]
    simp
  · intro k q hq
    rw [h.queue] at hq
    cases hq

section

variable (h : LinkPhase file a w neg path base x)
include h

theorem LinkPhase.reply {k m : Nat} {pkt : Bytes}
    (hk : x.out[k]? = some (m, pkt)) (hlate : x.client.high < m + 65535) :
    LinkPhase file a w neg path base { x with client := hears x.client pkt } := by
  have hm := List.mem_of_getElem? hk
  cases h with
  | ended stage arrived => exact .ended stage arrived
  | @going r bs ws stage state size window offered on =>
    exact .going stage state size window offered (on.reply hm hlate)
  | @idle r stage state fresh client out =>
    have hhears : hears x.client pkt = { x.client with params := opening pkt } := by
      rw [client]
      rfl
    rw [hhears]
    cases hopen : opening pkt with
    | none =>
      refine .idle stage state fresh ?_ out
      rw [client]
      rfl
    | some p =>
      obtain ⟨hbs, -, hws⟩ := opening_spec hopen
      refine .going stage state hbs hws ?_ (fresh.going client out)
      rcases (out m pkt hm).2 with rfl | ⟨hretries, rfl⟩
      · exact .inl hopen
      · refine .inr ⟨hretries, ?_⟩
        have : opening (packAck 0) = some (512, 1) := rfl
        exact (Option.some.inj (hopen.symm.trans this))

theorem LinkPhase.data (hof : OfSession a w x.s)
    {maxRetries : Int} (hp : a.Passes w neg maxRetries path)
    (hsafe : w.Completes a → ∀ bs ws, Offered neg base.maxRetries (bs, ws) → base.Safe file bs) {bs ws n : Nat}
    (hparams : x.client.params = some (bs, ws)) (h1 : 1 ≤ n) (hn : n ≤ x.client.high)
    (hlate : x.client.high < n + 65535) :
    LinkPhase file a w neg path base (x.input (arrival (block file bs) n)) := by
  cases h with
  | ended stage arrived => exact .over stage arrived _
  | @idle r stage state fresh client out =>
    rw [client] at hparams
    cases hparams
  | @going r bs' ws' stage state size window offered on =>
    obtain ⟨rfl, rfl⟩ := Prod.mk.inj (Option.some.inj (hparams.symm.trans on.params))
    cases hr : (r.resume (arrival (block file bs) n)).1 with
    | raise r' e => exact .raised stage (data_quiet _ n) hr
    | wait r' =>
      obtain ⟨hst, hstate⟩ := stepped_wait x.s path hr
      rw [input_waits stage hr (sent_of_data hr)]
      exact .going hst (by rw [← hstate] at state; exact state) size window offered
        (on.data window h1 hn hlate _ hr)
    | ret r' =>
      have hjoin : safeJoin x.s.world.paths x.s.args.writeRoot x.s.args.uploadName = .ok path := by
        rw [hof.world, hof.args]
        exact hp.joins
      refine .ended (by rw [input_session stage]; exact (stepped_ret x.s path hr).1) ?_
      rw [input_session stage]
      refine (arrived_ret_iff x.s hr hjoin).2 fun hcomp => ?_
      rw [hof.world, hof.args] at hcomp
      exact on.ret size window h1 hn hlate (hsafe hcomp bs ws offered) hr

/-- **One step.** -/
theorem LinkPhase.step (hof : OfSession a w x.s)
    {maxRetries : Int} (hp : a.Passes w neg maxRetries path)
    (hsafe : w.Completes a → ∀ bs ws, Offered neg base.maxRetries (bs, ws) → base.Safe file bs) {e : LinkEvent}
    (ht : TimelyLink x e) :
    LinkPhase file a w neg path base (linkStep file x e) ∧ OfSession a w (linkStep file x e).s := by
  cases e with
  | timeout => exact ⟨h.timeout, hof.resume _⟩
  | reply k =>
    cases hk : x.out[k]? with
    | none =>
      simp only [linkStep, hk]
      exact ⟨h, hof⟩
    | some q =>
      simp only [linkStep, hk]
      exact ⟨h.reply hk (ht q.1 q.2 hk), hof⟩
  | send =>
    refine ⟨?_, hof⟩
    cases h with
    | idle stage state fresh client out =>
      refine .idle stage state fresh ?_ out
      show x.client.send file = .new
      rw [client]
      rfl
    | going stage state size window offered on =>
      exact .going stage state size window offered on.send
    | ended stage arrived => exact .ended stage arrived
  | data n =>
    cases hparams : x.client.params with
    | none =>
      simp only [linkStep, hparams]
      exact ⟨h, hof⟩
    | some q =>
      simp only [linkStep, hparams]
      split
      · next hn => exact ⟨h.data hof hp hsafe hparams hn.1 hn.2 ht, hof.resume _⟩
      · exact ⟨h, hof⟩

theorem LinkPhase.arrived : Arrived file x.s := by
  cases h with
  | idle stage state fresh client out => exact arrived_of_not_done state
  | going stage state size window offered on => exact arrived_of_not_done state
  | ended stage arrived => exact arrived

/-- **Whole runs.** -/
theorem LinkPhase.run (hof : OfSession a w x.s)
    {maxRetries : Int} (hp : a.Passes w neg maxRetries path)
    (hsafe : w.Completes a → ∀ bs ws, Offered neg base.maxRetries (bs, ws) → base.Safe file bs)
    (es : List LinkEvent) (ht : Along (linkStep file) TimelyLink x es) :
    Arrived file (Runs.run (linkStep file) x es).s := by
  induction es generalizing x with
  | nil => exact h.arrived
  | cons e es ih =>
    obtain ⟨h', hof'⟩ := h.step hof hp hsafe ht.1
    exact ih h' hof' ht.2

end

end Phases

end Nishro.Py
