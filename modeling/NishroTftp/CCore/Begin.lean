import NishroTftp.CCore.SlotStep
import NishroTftp.Lib.ZStrings
/-
  What a session of the C engine looks like when `start_rrq` or `start_wrq` is through with its
  request: the transfer parameters in the session and the OACK on the wire.

  Both functions narrow the negotiated request into the session and build the OACK from the same
  request, so one structure, `Begun`, says what they have in common.
-/
namespace Nishro.CCore

open Nishro.Wire Nishro.Decimal Nishro.ZStrings

theorem at16_be16 (n : UInt16) (rest : Bytes) : at16 (be16 n ++ rest) 0 = n := rd16_be16 n

/-! ## The entries of an OACK -/

/-- The entry of one option, if it is acknowledged. -/
def oackEntry (key : String) (val : Option Nat) : List (Bytes × Bytes) :=
  (val.map fun v => (ascii key, decimal v)).toList

/-- The options that `tftp_build_oack` writes, with their values. -/
def oackEntries (n : TftpReq) : List (Bytes × Bytes) :=
  oackEntry "blksize" (n.blksize.map (·.toNat)) ++
  oackEntry "windowsize" (n.windowsize.map (·.toNat)) ++
  oackEntry "timeout" (n.timeoutSec.map (·.toNat)) ++
  oackEntry "tsize" (n.tsize.map (·.toNat))

/-- Entries as they stand in a packet. -/
def packEntries (l : List (Bytes × Bytes)) : Bytes := pack (l.flatMap fun kv => [kv.1, kv.2])

theorem packEntries_append (l l' : List (Bytes × Bytes)) :
    packEntries (l ++ l') = packEntries l ++ packEntries l' := by
  simp [packEntries, pack]

theorem length_packEntry (key : String) {val : Option Nat} {k : Nat} (hk : 0 < k)
    (h : ∀ v ∈ val, v < 10 ^ k) :
    (packEntries (oackEntry key val)).length ≤ (ascii key).length + k + 2 := by
  cases val with
  | none => simp [packEntries, pack, oackEntry]
  | some v =>
    have hlen := length_decimal_le hk (h v rfl)
    simp [packEntries, pack, oackEntry]
    omega

theorem writeOptIf_eq {cap : Nat} {key : String} {val : Option Nat} {buf : Bytes} {k : Nat}
    (hk : 0 < k) (h : ∀ v ∈ val, v < 10 ^ k) (hcap : buf.length + (ascii key).length + k + 2 ≤ cap) :
    writeOptIf cap (ascii key) val buf = some (buf ++ packEntries (oackEntry key val)) := by
  cases val with
  | none => simp [writeOptIf, packEntries, pack, oackEntry]
  | some v =>
    have hlen := length_decimal_le hk (h v rfl)
    rw [writeOptIf, writeOpt, if_neg (by omega)]
    simp [packEntries, pack, oackEntry]

theorem map_toNat_lt32 {o : Option UInt32} : ∀ v ∈ o.map (·.toNat), v < 10 ^ 10 := by
  intro v hv
  obtain ⟨x, -, rfl⟩ := Option.mem_map.1 hv
  exact Nat.lt_trans x.toNat_lt (by decide)

theorem map_toNat_lt64 {o : Option UInt64} : ∀ v ∈ o.map (·.toNat), v < 10 ^ 20 := by
  intro v hv
  obtain ⟨x, -, rfl⟩ := Option.mem_map.1 hv
  exact Nat.lt_trans x.toNat_lt (by decide)

/-- The OACK of any request fits its buffer, with all its entries. -/
theorem tftpBuildOack_eq (n : TftpReq) :
    tftpBuildOack 512 n = be16 TFTP_OACK ++ packEntries (oackEntries n) := by
  have hb : (ascii "blksize").length = 7 := rfl
  have hw : (ascii "windowsize").length = 10 := rfl
  have ht : (ascii "timeout").length = 7 := rfl
  have hs : (ascii "tsize").length = 5 := rfl
  have lb := length_packEntry "blksize" (by decide) (map_toNat_lt32 (o := n.blksize))
  have lw := length_packEntry "windowsize" (by decide) (map_toNat_lt32 (o := n.windowsize))
  have lt := length_packEntry "timeout" (by decide) (map_toNat_lt32 (o := n.timeoutSec))
  have hop : (be16 TFTP_OACK).length = 2 := rfl
  rw [tftpBuildOack, if_neg (by decide), writeOptIf_eq (by decide) map_toNat_lt32 (by omega)]
  simp only [Option.bind_some]
  rw [writeOptIf_eq (by decide) map_toNat_lt32 (by simp only [List.length_append]; omega)]
  simp only [Option.bind_some]
  rw [writeOptIf_eq (by decide) map_toNat_lt32 (by simp only [List.length_append]; omega)]
  simp only [Option.bind_some]
  rw [writeOptIf_eq (by decide) map_toNat_lt64 (by simp only [List.length_append]; omega)]
  simp only [Option.getD_some, oackEntries, packEntries_append, List.append_assoc]

theorem length_tftpBuildOack (n : TftpReq) : (tftpBuildOack 512 n).length ≤ 100 := by
  have lb := length_packEntry "blksize" (by decide) (map_toNat_lt32 (o := n.blksize))
  have lw := length_packEntry "windowsize" (by decide) (map_toNat_lt32 (o := n.windowsize))
  have lt := length_packEntry "timeout" (by decide) (map_toNat_lt32 (o := n.timeoutSec))
  have ls := length_packEntry "tsize" (by decide) (map_toNat_lt64 (o := n.tsize))
  have hb : (ascii "blksize").length = 7 := rfl
  have hw : (ascii "windowsize").length = 10 := rfl
  have ht : (ascii "timeout").length = 7 := rfl
  have hs : (ascii "tsize").length = 5 := rfl
  have hop : (be16 TFTP_OACK).length = 2 := rfl
  rw [tftpBuildOack_eq, oackEntries, packEntries_append, packEntries_append, packEntries_append]
  simp only [List.length_append]
  omega

/-- What a client finds in an OACK: its entries, in order. -/
def readOack (payload : Bytes) : List (Bytes × Bytes) := pairs (strings (payload.drop 2))

theorem zero_not_mem_decimal (n : Nat) : (0 : UInt8) ∉ decimal n := by
  intro h
  exact absurd (decimal_digits n 0 h) (by decide)

theorem oackEntry_clean {key : String} {val : Option Nat} (hkey : (0 : UInt8) ∉ ascii key) :
    ∀ kv ∈ oackEntry key val, 0 ∉ kv.1 ∧ 0 ∉ kv.2 := by
  intro kv hkv
  obtain ⟨v, -, rfl⟩ : ∃ v, val = some v ∧ (ascii key, decimal v) = kv := by
    simpa [oackEntry] using hkv
  exact ⟨hkey, zero_not_mem_decimal v⟩

theorem readOack_build (n : TftpReq) : readOack (tftpBuildOack 512 n) = oackEntries n := by
  have hclean : ∀ s ∈ (oackEntries n).flatMap fun kv => [kv.1, kv.2], (0 : UInt8) ∉ s := by
    intro s hs
    obtain ⟨kv, hkv, hs⟩ := List.mem_flatMap.1 hs
    have hkey : (0 : UInt8) ∉ kv.1 ∧ 0 ∉ kv.2 := by
      simp only [oackEntries, List.mem_append] at hkv
      rcases hkv with ((h | h) | h) | h
      · exact oackEntry_clean (by decide) kv h
      · exact oackEntry_clean (by decide) kv h
      · exact oackEntry_clean (by decide) kv h
      · exact oackEntry_clean (by decide) kv h
    simp only [List.mem_cons, List.not_mem_nil, or_false] at hs
    rcases hs with rfl | rfl
    · exact hkey.1
    · exact hkey.2
  have hdrop : (tftpBuildOack 512 n).drop 2 = packEntries (oackEntries n) := by
    rw [tftpBuildOack_eq]
    rfl
  rw [readOack, hdrop, packEntries, strings_pack hclean, pairs_flatten]

/-! ## OACKs among the outputs -/

/-- The OACK packets that were sent. -/
def oacks (out : List Output) : List Bytes :=
  out.filterMap fun
    | .send f => if at16 f.payload 0 = TFTP_OACK then some f.payload else none
    | _ => none

theorem oacks_append (out out' : List Output) : oacks (out ++ out') = oacks out ++ oacks out' := by
  simp [oacks]

theorem oacks_data (fs : List QueuedFrame) : oacks (fs.map .data) = [] := by
  induction fs with
  | nil => rfl
  | cons f fs ih => exact ih

theorem oacks_sendOack (cfg : Config) (n : TftpReq) (c : Ctx) :
    oacks (sendTftp cfg (tftpBuildOack 512 n) c).out = oacks c.out ++ [tftpBuildOack 512 n] := by
  have hfit : buildUdp4 PKT_BUF_SZ (frameTo cfg c.s (tftpBuildOack 512 n)) =
      some (frameTo cfg c.s (tftpBuildOack 512 n)) := by
    have hlen := length_tftpBuildOack n
    refine if_neg ?_
    simp only [frameTo, PKT_BUF_SZ]
    omega
  have hop : at16 (tftpBuildOack 512 n) 0 = TFTP_OACK := by
    rw [tftpBuildOack_eq, at16_be16]
  rw [sendTftp, sendTftpEx, hfit, oacks_append]
  simp [oacks, frameTo, hop]

/-- Nothing but OACKs counts. -/
theorem oacks_sendOther (cfg : Config) {payload : Bytes} (count : Bool) (c : Ctx)
    (h : at16 payload 0 ≠ TFTP_OACK) :
    oacks (sendTftpEx cfg payload count c).out = oacks c.out := by
  unfold sendTftpEx buildUdp4
  by_cases hfit : PKT_BUF_SZ < 18 + 20 + 8 + (frameTo cfg c.s payload).payload.length
  · rw [if_pos hfit]
  · rw [if_neg hfit, oacks_append]
    simp [oacks, frameTo, h]

theorem oacks_sendError (cfg : Config) (code : UInt16) (msg : String) (c : Ctx) :
    oacks (sendError cfg code msg c).out = oacks c.out := by
  have hop : at16 (tftpBuildError 512 code (ascii msg)) 0 ≠ TFTP_OACK := by
    unfold tftpBuildError
    split
    · decide
    · rw [List.append_assoc, List.append_assoc, at16_be16]
      decide
  have h := oacks_sendOther cfg false c hop
  rw [sendError]
  exact h

theorem oacks_rejectRequest (cfg : Config) (now : Clock) (code : UInt16) (msg : String)
    (reason : EndReason) (c : Ctx) :
    oacks (rejectRequest cfg now code msg reason c).out = oacks c.out := by
  rw [← oacks_sendError cfg code msg c]
  simp [rejectRequest, emitSessionEnd, emitSessionStart, oacks]

theorem oacks_rrqSendWindow (cfg : Config) (now : Clock) (c : Ctx) :
    oacks (rrqSendWindow cfg now c).out = oacks c.out := by
  rcases rrqSendWindow_cases cfg now c with ⟨-, h⟩ | ⟨src, -, ⟨-, h⟩ | ⟨-, h⟩⟩ <;> rw [h]
  · rw [windowFailed]
    simp only [oacks_sendError, oacks_append, oacks_data, List.append_nil]
  · simp only [windowSent, oacks_append, oacks_data, List.append_nil]

/-! ## Transfer parameters -/

/-- Two sessions have the same transfer parameters. -/
def SameParameters (s s' : Session) : Prop :=
  s.blksize = s'.blksize ∧ s.windowsize = s'.windowsize ∧ s.timeoutSec = s'.timeoutSec

theorem rrqPrebuildNext_parameters (cfg : Config) (s : Session) :
    SameParameters (rrqPrebuildNext cfg s) s := by
  obtain ⟨_, _, _, _, _, _, _, _, h⟩ := rrqPrebuildNext_frame cfg s
  rw [h]
  exact ⟨rfl, rfl, rfl⟩

theorem rrqSendWindow_parameters (cfg : Config) (now : Clock) (c : Ctx) :
    SameParameters (rrqSendWindow cfg now c).s c.s := by
  rcases rrqSendWindow_cases cfg now c with ⟨-, h⟩ | ⟨src, -, ⟨-, h⟩ | ⟨-, h⟩⟩ <;> rw [h]
  · exact ⟨rfl, rfl, rfl⟩
  · simp [SameParameters, windowFailed]
  · exact rrqPrebuildNext_parameters cfg _

/-- The request as it is answered to a download: negotiated, with the size of the file. -/
def rrqReply (cfg : Config) (req : TftpReq) (sz : UInt64) : TftpReq :=
  { negotiate cfg req with tsize := req.tsize.map fun _ => sz }

/-- A session that was begun on the answer `reply`: its parameters are those of the answer, narrowed
    to its fields, and the answer is what its OACK is built from. -/
structure Begun (reply : TftpReq) (c : Ctx) : Prop where
  parameters : SameParameters c.s (withOptions reply c.s)
  oacks : oacks c.out = if hasOptions reply then [tftpBuildOack 512 reply] else []
  live : hasOptions reply = true → c.s.state ≠ .done

theorem begun_rrqBegin (cfg : Config) (now : Clock) (env : Env) (req : TftpReq) (sz : UInt64)
    {c : Ctx} (hout : c.out = []) :
    Begun (rrqReply cfg req sz) (rrqBegin cfg now env req sz c) := by
  have hstart : ∀ s : Session, oacks (c.out ++ [Output.ipc (.sessionStart s)]) = [] := by
    intro s
    rw [hout]
    rfl
  unfold rrqBegin
  simp only
  split
  · next hopts =>
    have hopts : hasOptions (rrqReply cfg req sz) = true := hopts
    constructor
    · rw [SameParameters, sendTftp_s]
      exact ⟨rfl, rfl, rfl⟩
    · rw [if_pos hopts]
      refine (oacks_sendOack ..).trans ?_
      rw [emitSessionStart, hstart]
      rfl
    · rintro - ⟨⟩
  · next hopts =>
    have hopts : ¬ hasOptions (rrqReply cfg req sz) = true := hopts
    constructor
    · exact rrqSendWindow_parameters cfg now _
    · rw [if_neg hopts, oacks_rrqSendWindow]
      exact hstart _
    · intro h
      exact absurd h hopts

theorem begun_wrqBegin (cfg : Config) (now : Clock) (req : TftpReq) {c : Ctx} (hout : c.out = []) :
    Begun req (wrqBegin cfg now req c) := by
  have hstart : ∀ s : Session, oacks (c.out ++ [Output.ipc (.sessionStart s)]) = [] := by
    intro s
    rw [hout]
    rfl
  unfold wrqBegin
  simp only
  split
  · next hopts =>
    have hopts : hasOptions req = true := hopts
    constructor
    · rw [SameParameters, sendTftp_s]
      exact ⟨rfl, rfl, rfl⟩
    · rw [if_pos hopts]
      refine (oacks_sendOack ..).trans ?_
      rw [emitSessionStart, hstart]
      rfl
    · rintro - ⟨⟩
  · next hopts =>
    have hopts : ¬ hasOptions req = true := hopts
    constructor
    · exact ⟨rfl, rfl, rfl⟩
    · rw [if_neg hopts]
      refine (oacks_sendOther cfg true _ ?_).trans (hstart _)
      decide
    · intro h
      exact absurd h hopts

/-- **What `start_rrq` does**, on a fresh slot: turn the request down, or begin on the file. -/
theorem startRrq_begun (cfg : Config) (now : Clock) (env : Env) (req : TftpReq) {c : Ctx}
    (hout : c.out = []) :
    (startRrq cfg now env req c).s.state = .done ∧ oacks (startRrq cfg now env req c).out = [] ∨
    ∃ src sz, env.openRead req.filename = some (src, sz) ∧
      Begun (rrqReply cfg req sz) (startRrq cfg now env req c) := by
  rcases startRrq_cases cfg now c env req with ⟨_, _, _, _, _, h⟩ | ⟨src, sz, hopen, h⟩ <;> rw [h]
  · rw [oacks_rejectRequest]
    simp [hout, oacks]
  · exact .inr ⟨src, sz, hopen, begun_rrqBegin cfg now env req sz hout⟩

/-- **What `start_wrq` does**, on a fresh slot: turn the request down, or begin. -/
theorem startWrq_begun (cfg : Config) (now : Clock) (env : Env) (req : TftpReq) {c : Ctx}
    (hout : c.out = []) :
    (startWrq cfg now env req c).s.state = .done ∧ oacks (startWrq cfg now env req c).out = [] ∨
    Begun (negotiate cfg req) (startWrq cfg now env req c) := by
  rcases startWrq_cases cfg now c env req with ⟨-, _, _, _, _, h⟩ | ⟨-, _, -, h⟩ <;> rw [h]
  · rw [oacks_rejectRequest]
    simp [hout, oacks]
  · exact .inr (begun_wrqBegin cfg now _ hout)

end Nishro.CCore
