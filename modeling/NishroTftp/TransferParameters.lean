import NishroTftp.CCore.Begin
import NishroTftp.ConfigPush
import NishroTftp.RequestParsers
/-
  The transfer parameters of the C engine, from the YAML limits to the session.

  A parsed option is within the bounds of the protocol; `negotiate` clamps it into the bounds of
  the configuration, the upper one last; `start_rrq` and `start_wrq` narrow the result to the
  fields of the session and put it into the OACK as it is.  So everything rests on the limits the
  engine was SENT: `_limpair` sends 0 for a limit that the YAML omits, and a maximum of 0 clamps
  every request to 0.
-/
namespace Nishro

open Nishro.CCore Nishro.Py Nishro.ZStrings Nishro.Decimal
open Nishro.Utf8 (text)

/-! ## Options of a parsed request -/

/-- The values that `tftp_parse_request` lets through. -/
structure InRange (req : TftpReq) : Prop where
  blksize : ∀ v ∈ req.blksize, 8 ≤ v.toNat ∧ v.toNat ≤ 65464
  windowsize : ∀ v ∈ req.windowsize, 1 ≤ v.toNat ∧ v.toNat ≤ 64
  timeout : ∀ v ∈ req.timeoutSec, 1 ≤ v.toNat ∧ v.toNat ≤ 255

theorem read_of_field {pkt : Bytes} {req : TftpReq} (h : tftpParseRequest pkt = some req) (opt : Opt)
    {n : Nat} (hn : opt.field req = some n) : ∃ v, opt.read v = some n := by
  rw [tftpParseRequest_eq] at h
  obtain ⟨scan, -, rfl⟩ := Option.map_eq_some_iff.1 h
  rw [field_toReq] at hn
  obtain ⟨kv, -, hkv⟩ := exists_of_lastSome hn
  split at hkv
  · exact ⟨kv.2, hkv⟩
  · cases hkv

theorem read_blksize {v : Bytes} {n : Nat} (h : Opt.blksize.read v = some n) :
    8 ≤ n ∧ n ≤ 65464 := by
  obtain ⟨⟨hlo, hhi⟩, hn⟩ := Option.ite_none_right_eq_some.1 h
  have hn := Option.some.inj hn
  simp only [CCore.TFTP_BLKSIZE_MIN, CCore.TFTP_BLKSIZE_MAX] at hlo hhi
  omega

theorem read_windowsize {v : Bytes} {n : Nat} (h : Opt.windowsize.read v = some n) :
    1 ≤ n ∧ n ≤ 64 := by
  obtain ⟨⟨hlo, hhi⟩, hn⟩ := Option.ite_none_right_eq_some.1 h
  have hn := Option.some.inj hn
  simp only [CCore.TFTP_WINDOWSIZE_MAX] at hhi
  omega

theorem read_timeout {v : Bytes} {n : Nat} (h : Opt.timeout.read v = some n) :
    1 ≤ n ∧ n ≤ 255 := by
  obtain ⟨⟨hlo, hhi⟩, hn⟩ := Option.ite_none_right_eq_some.1 h
  have hn := Option.some.inj hn
  simp only [CCore.TFTP_TIMEOUT_MAX] at hhi
  omega

theorem inRange_of_parse {pkt : Bytes} {req : TftpReq} (h : tftpParseRequest pkt = some req) :
    InRange req := by
  constructor
  · intro v hv
    obtain ⟨t, ht⟩ := read_of_field h .blksize (Option.mem_map_of_mem _ hv)
    exact read_blksize ht
  · intro v hv
    obtain ⟨t, ht⟩ := read_of_field h .windowsize (Option.mem_map_of_mem _ hv)
    exact read_windowsize ht
  · intro v hv
    obtain ⟨t, ht⟩ := read_of_field h .timeout (Option.mem_map_of_mem _ hv)
    exact read_timeout ht

/-! ## One clamp -/

/-- Bounds that keep values from `least` on within `least` and `most`. -/
def Fits (lo hi : UInt32) (least most : Nat) : Prop :=
  least ≤ hi.toNat ∧ (lo.toNat ≤ most ∨ hi.toNat ≤ most)

theorem toNat_clampOpt (lo hi x : UInt32) :
    (clampOpt lo hi x).toNat = min hi.toNat (max lo.toNat x.toNat) := by
  simp only [clampOpt]
  by_cases hlo : x < lo
  · have hlo' := UInt32.lt_iff_toNat_lt.1 hlo
    rw [if_pos hlo]
    by_cases hhi : hi < lo
    · have hhi' := UInt32.lt_iff_toNat_lt.1 hhi
      rw [if_pos hhi]
      omega
    · have hhi' := UInt32.lt_iff_toNat_lt.not.1 hhi
      rw [if_neg hhi]
      omega
  · have hlo' := UInt32.lt_iff_toNat_lt.not.1 hlo
    rw [if_neg hlo]
    by_cases hhi : hi < x
    · have hhi' := UInt32.lt_iff_toNat_lt.1 hhi
      rw [if_pos hhi]
      omega
    · have hhi' := UInt32.lt_iff_toNat_lt.not.1 hhi
      rw [if_neg hhi]
      omega

theorem clampOpt_within {lo hi x : UInt32} {least most : Nat} (h : Fits lo hi least most)
    (hleast : least ≤ x.toNat) (hmost : x.toNat ≤ most) :
    least ≤ (clampOpt lo hi x).toNat ∧ (clampOpt lo hi x).toNat ≤ most := by
  obtain ⟨hhi, hlo⟩ := h
  rw [toNat_clampOpt]
  omega

/-- The least value shows whether the bounds fit. -/
theorem fits_of_clampOpt {lo hi x : UInt32} {least most : Nat} (hx : x.toNat = least)
    (h : least ≤ (clampOpt lo hi x).toNat ∧ (clampOpt lo hi x).toNat ≤ most) :
    Fits lo hi least most := by
  rw [toNat_clampOpt] at h
  unfold Fits
  omega

/-! ## A session that was begun -/

/-- The parameters a transfer can run with. -/
def Usable (s : CCore.Session) : Prop :=
  8 ≤ s.blksize.toNat ∧ s.blksize.toNat ≤ 65464 ∧ 1 ≤ s.windowsize.toNat ∧ 1 ≤ s.timeoutSec.toNat

/-- The OACK tells the client the parameters of the session. -/
def Tells (payload : Bytes) (s : CCore.Session) : Prop :=
  (∀ v, (ascii "blksize", v) ∈ readOack payload → v = decimal s.blksize.toNat) ∧
  (∀ v, (ascii "windowsize", v) ∈ readOack payload → v = decimal s.windowsize.toNat) ∧
  (∀ v, (ascii "timeout", v) ∈ readOack payload → v = decimal s.timeoutSec.toNat)

/-- A request that is not turned down gets usable parameters, and the ones it is told. -/
def SoundStart (r : Ctx) : Prop :=
  r.s.state ≠ .done → Usable r.s ∧ ∀ payload ∈ oacks r.out, Tells payload r.s

/-- The values of an answer fit the fields of the session. -/
def ReplyFits (reply : TftpReq) : Prop :=
  (∀ v ∈ reply.blksize, 8 ≤ v.toNat ∧ v.toNat ≤ 65464) ∧
  (∀ v ∈ reply.windowsize, 1 ≤ v.toNat ∧ v.toNat ≤ 255) ∧
  (∀ v ∈ reply.timeoutSec, 1 ≤ v.toNat ∧ v.toNat ≤ 65535)

theorem toNat_toUInt16 {v : UInt32} (h : v.toNat ≤ 65535) : v.toUInt16.toNat = v.toNat := by
  rw [UInt32.toNat_toUInt16]
  omega

theorem toNat_toUInt8 {v : UInt32} (h : v.toNat ≤ 255) : v.toUInt8.toNat = v.toNat := by
  rw [UInt32.toNat_toUInt8]
  omega

theorem decimal_injective {m n : Nat} (h : decimal m = decimal n) : m = n := by
  rw [← ofDecimal_decimal m, h, ofDecimal_decimal]

theorem mem_oackEntry {key : String} {val : Option Nat} {k v : Bytes} :
    (k, v) ∈ oackEntry key val ↔ k = ascii key ∧ ∃ x ∈ val, v = decimal x := by
  cases val with
  | none => simp [oackEntry]
  | some x => simp [oackEntry]

theorem ascii_name_injective {a b : Opt} (h : ascii a.name = ascii b.name) : a = b := by
  revert h
  cases a <;> cases b <;> decide

theorem oackEntries_eq (n : TftpReq) :
    oackEntries n = [Opt.blksize, .windowsize, .timeout, .tsize].flatMap fun o =>
      oackEntry o.name (o.field n) := by
  simp [oackEntries, Opt.name, Opt.field]

/-- The entry of an option is its value in the answer. -/
theorem mem_oackEntries (n : TftpReq) (opt : Opt) (v : Bytes) :
    (ascii opt.name, v) ∈ oackEntries n ↔ ∃ x ∈ opt.field n, v = decimal x := by
  rw [oackEntries_eq, List.mem_flatMap]
  constructor
  · rintro ⟨o, -, ho⟩
    obtain ⟨hkey, hval⟩ := mem_oackEntry.1 ho
    rw [ascii_name_injective hkey]
    exact hval
  · intro hval
    exact ⟨opt, by cases opt <;> simp, mem_oackEntry.2 ⟨rfl, hval⟩⟩

theorem soundStart_of_fits {reply : TftpReq} {r : Ctx} (h : Begun reply r) (hfits : ReplyFits reply) :
    SoundStart r := by
  intro _
  obtain ⟨hb, hw, ht⟩ := h.parameters
  obtain ⟨fb, fw, ft⟩ := hfits
  simp only [withOptions] at hb hw ht
  have hblk : ∀ v ∈ reply.blksize, r.s.blksize.toNat = v.toNat := by
    intro v hv
    have := fb v hv
    rw [hb, Option.mem_def.1 hv]
    exact toNat_toUInt16 (by omega)
  have hwin : ∀ v ∈ reply.windowsize, r.s.windowsize.toNat = v.toNat := by
    intro v hv
    have := fw v hv
    rw [hw, Option.mem_def.1 hv]
    exact toNat_toUInt8 (by omega)
  have htim : ∀ v ∈ reply.timeoutSec, r.s.timeoutSec.toNat = v.toNat := by
    intro v hv
    have := ft v hv
    rw [ht, Option.mem_def.1 hv]
    exact toNat_toUInt16 (by omega)
  constructor
  · have hsize : 8 ≤ r.s.blksize.toNat ∧ r.s.blksize.toNat ≤ 65464 := by
      cases hv : reply.blksize with
      | none => rw [hb, hv]; decide
      | some v => rw [hblk v hv]; exact fb v hv
    refine ⟨hsize.1, hsize.2, ?_, ?_⟩
    · cases hv : reply.windowsize with
      | none => rw [hw, hv]; decide
      | some v => rw [hwin v hv]; exact (fw v hv).1
    · cases hv : reply.timeoutSec with
      | none => rw [ht, hv]; decide
      | some v => rw [htim v hv]; exact (ft v hv).1
  · intro payload hp
    rw [h.oacks] at hp
    split at hp
    · obtain rfl := List.mem_singleton.1 hp
      rw [Tells, readOack_build]
      have hentry (opt : Opt) {o : Option UInt32} (hfield : opt.field reply = o.map (·.toNat)) {n : Nat}
          (ho : ∀ v ∈ o, n = v.toNat) : ∀ v, (ascii opt.name, v) ∈ oackEntries reply → v = decimal n := by
        intro v hv
        obtain ⟨x, hx, rfl⟩ := (mem_oackEntries reply opt v).1 hv
        rw [hfield] at hx
        obtain ⟨y, hy, rfl⟩ := Option.mem_map.1 hx
        rw [ho y hy]
      exact ⟨hentry .blksize rfl hblk, hentry .windowsize rfl hwin,
        hentry .timeout rfl htim⟩
    · cases hp

theorem fits_of_soundStart {reply : TftpReq} {r : Ctx} (h : Begun reply r)
    (hopts : hasOptions reply = true) (hsound : SoundStart r) : ReplyFits reply := by
  obtain ⟨⟨ublk, ublk', uwin, utim⟩, htells⟩ := hsound (h.live hopts)
  have htold := htells (tftpBuildOack 512 reply) (by rw [h.oacks, if_pos hopts]; simp)
  rw [Tells, readOack_build] at htold
  obtain ⟨tblk, twin, ttim⟩ := htold
  refine ⟨?_, ?_, ?_⟩
  · intro v hv
    have hkv := tblk _ ((mem_oackEntries reply .blksize _).2 ⟨_, Option.mem_map_of_mem _ hv, rfl⟩)
    rw [decimal_injective hkv]
    exact ⟨ublk, ublk'⟩
  · intro v hv
    have hkv := twin _ ((mem_oackEntries reply .windowsize _).2 ⟨_, Option.mem_map_of_mem _ hv, rfl⟩)
    have hlt := r.s.windowsize.toNat_lt
    rw [decimal_injective hkv]
    exact ⟨uwin, by omega⟩
  · intro v hv
    have hkv := ttim _ ((mem_oackEntries reply .timeout _).2 ⟨_, Option.mem_map_of_mem _ hv, rfl⟩)
    have hlt := r.s.timeoutSec.toNat_lt
    rw [decimal_injective hkv]
    exact ⟨utim, by omega⟩

/-! ## All requests -/

/-- Whatever a client asks for, the session it gets is usable and is what it is told. -/
def ParametersUsable (cfg : Config) : Prop :=
  ∀ pkt req, tftpParseRequest pkt = some req → ∀ (now : Clock) (env : Env) (s : CCore.Session)
    (batch : PcapBatch) (stats : SessStats),
    SoundStart (startRrq cfg now env req ⟨s, batch, stats, []⟩) ∧
    SoundStart (startWrq cfg now env req ⟨s, batch, stats, []⟩)

/-- The three pairs of bounds fit their options. -/
def ConfigFits (cfg : Config) : Prop :=
  Fits cfg.blksizeMin cfg.blksizeMax 8 65464 ∧ Fits cfg.windowsizeMin cfg.windowsizeMax 1 255 ∧
  Fits cfg.timeoutMin cfg.timeoutMax 1 65535

theorem negotiate_fits {cfg : Config} {req : TftpReq} (hcfg : ConfigFits cfg) (hreq : InRange req) :
    ReplyFits (negotiate cfg req) := by
  obtain ⟨fb, fw, ft⟩ := hcfg
  refine ⟨?_, ?_, ?_⟩
  · intro v hv
    obtain ⟨x, hx, rfl⟩ := Option.mem_map.1 hv
    have hr := hreq.blksize x hx
    exact clampOpt_within fb hr.1 hr.2
  · intro v hv
    obtain ⟨x, hx, rfl⟩ := Option.mem_map.1 hv
    have hr := hreq.windowsize x hx
    exact clampOpt_within fw hr.1 (by omega)
  · intro v hv
    obtain ⟨x, hx, rfl⟩ := Option.mem_map.1 hv
    have hr := hreq.timeout x hx
    exact clampOpt_within ft hr.1 (by omega)

theorem parametersUsable_of_fits {cfg : Config} (h : ConfigFits cfg) : ParametersUsable cfg := by
  intro pkt req hparse now env s batch stats
  have hfits := negotiate_fits h (inRange_of_parse hparse)
  constructor
  · rcases startRrq_begun cfg now env req (c := ⟨s, batch, stats, []⟩) rfl with
      ⟨hdone, -⟩ | ⟨src, sz, -, hbegun⟩
    · exact fun hlive => absurd hdone hlive
    · exact soundStart_of_fits hbegun hfits
  · rcases startWrq_begun cfg now env req (c := ⟨s, batch, stats, []⟩) rfl with
      ⟨hdone, -⟩ | hbegun
    · exact fun hlive => absurd hdone hlive
    · exact soundStart_of_fits hbegun hfits

/-- A request for the least of every option. -/
def leastRequest : Bytes :=
  [0, 1] ++ pack (["f", "octet", "blksize", "8", "windowsize", "1", "timeout", "1"].map ascii)

/-- What it is parsed as. -/
def leastReq : TftpReq :=
  ⟨TFTP_RRQ, ascii "f", ascii "octet", some 8, some 1, some 1, none⟩

theorem parse_leastRequest : tftpParseRequest leastRequest = some leastReq := by
  decide +kernel

/-- A file system whose every file is empty. -/
def emptyFiles : Env where
  openRead _ := some (⟨false, [], 0, false, fun _ => .ok, 0⟩, 0)
  openWrite _ := none
  batchNew := true

def someClock : Clock := ⟨1, by decide, by decide⟩

/-- An empty file is within every cap. -/
theorem begun_emptyFiles (cfg : Config) (req : TftpReq) :
    Begun (rrqReply cfg req 0)
      (startRrq cfg someClock emptyFiles req ⟨.zero, .new BATCH_CAP, {}, []⟩) := by
  have hcap : ¬ (cfg.maxRrqSize ≠ 0 ∧ cfg.maxRrqSize < 0) := by
    rintro ⟨-, h⟩
    exact absurd (UInt64.lt_iff_toNat_lt.1 h) (Nat.not_lt_zero _)
  unfold startRrq
  simp only [emptyFiles, if_neg hcap]
  exact begun_rrqBegin cfg someClock _ req 0 rfl

theorem fits_of_parametersUsable {cfg : Config} (h : ParametersUsable cfg) : ConfigFits cfg := by
  have hsound := (h leastRequest leastReq parse_leastRequest someClock emptyFiles .zero
    (.new BATCH_CAP) {}).1
  obtain ⟨hb, hw, ht⟩ := fits_of_soundStart (begun_emptyFiles cfg leastReq) rfl hsound
  exact ⟨fits_of_clampOpt (x := 8) rfl (hb _ rfl), fits_of_clampOpt (x := 1) rfl (hw _ rfl),
    fits_of_clampOpt (x := 1) rfl (ht _ rfl)⟩

/-! ## The limits of the YAML -/

/-- Two limits of the YAML fit an option, as the engine receives them. -/
def LimitsFit (yaml : Json) (keyMin keyMax : String) (least most : Nat) : Prop :=
  ∃ a b, limitAt yaml keyMin = .ok a ∧ limitAt yaml keyMax = .ok b ∧
    Fits (arrives32 a) (arrives32 b) least most

theorem limitsFit_iff {yaml : Json} {keyMin keyMax : String} {lo hi : UInt32}
    (h : SentLimits yaml keyMin keyMax lo hi) (least most : Nat) :
    LimitsFit yaml keyMin keyMax least most ↔ Fits lo hi least most := by
  obtain ⟨a, b, ha, hb, rfl, rfl⟩ := h
  constructor
  · rintro ⟨a', b', ha', hb', hfits⟩
    obtain rfl := Except.ok.inj (ha.symm.trans ha')
    obtain rfl := Except.ok.inj (hb.symm.trans hb')
    exact hfits
  · intro hfits
    exact ⟨a, b, ha, hb, hfits⟩

/-- **The transfer parameters are usable exactly when the limits fit**: the maximum arrives as at
    least the least value of the option, and not both bounds are beyond what the option (or its
    field in the session) can hold. -/
theorem transfer_parameters_iff (c cfg : Config) (yaml : Json) (h : Pushed c yaml cfg) :
    ParametersUsable cfg ↔
      LimitsFit yaml "blksize_min" "blksize_max" 8 65464 ∧
      LimitsFit yaml "windowsize_min" "windowsize_max" 1 255 ∧
      LimitsFit yaml "timeout_min" "timeout_max" 1 65535 := by
  obtain ⟨hb, hw, ht⟩ := h.limits
  rw [limitsFit_iff hb, limitsFit_iff hw, limitsFit_iff ht]
  exact ⟨fits_of_parametersUsable, parametersUsable_of_fits⟩

/-- A configuration that gives all six limits. -/
def plainLimits : Json :=
  .obj [(text "tftp", .obj [(text "limits", .obj
    [(text "blksize_min", .int 8), (text "blksize_max", .int 1468), (text "windowsize_min", .int 1),
      (text "windowsize_max", .int 64), (text "timeout_min", .int 1),
      (text "timeout_max", .int 60)])])]

theorem plain_limits_usable :
    ∃ cfg, Pushed configDefaults plainLimits cfg ∧ ParametersUsable cfg := by
  have hfinite : plainLimits.Finite := by
    simp [plainLimits, Json.Finite, Json.FiniteMembers, Json.FiniteMember]
  have hpushed := pushed_of_finite configDefaults hfinite rfl
  have hfits : ∀ {lo hi least most : Nat}, lo < 2 ^ 32 → hi < 2 ^ 32 → least ≤ hi ∧ lo ≤ most →
      Fits (arrives32 lo) (arrives32 hi) least most := by
    intro lo hi least most hlo hhi h
    rw [Fits, toNat_arrives32 hlo, toNat_arrives32 hhi]
    exact ⟨h.1, .inl h.2⟩
  exact ⟨_, hpushed, (transfer_parameters_iff _ _ _ hpushed).2
    ⟨⟨(8 : Nat), (1468 : Nat), rfl, rfl, hfits (by decide) (by decide) (by decide)⟩,
      ⟨(1 : Nat), (64 : Nat), rfl, rfl, hfits (by decide) (by decide) (by decide)⟩,
      ⟨(1 : Nat), (60 : Nat), rfl, rfl, hfits (by decide) (by decide) (by decide)⟩⟩⟩

/-- Limits that the YAML omits arrive as zero. -/
theorem omitted_limits {c cfg : Config} (h : Pushed c (.obj []) cfg) :
    cfg.blksizeMax = 0 ∧ cfg.windowsizeMax = 0 ∧ cfg.timeoutMax = 0 := by
  have hzero : arrives32 0 = 0 := UInt32.toNat_inj.1 (toNat_arrives32 (n := 0) (by decide))
  obtain ⟨⟨_, _, -, hb, -, hb'⟩, ⟨_, _, -, hw, -, hw'⟩, ⟨_, _, -, ht, -, ht'⟩⟩ := h.limits
  obtain rfl := Except.ok.inj hb
  obtain rfl := Except.ok.inj hw
  obtain rfl := Except.ok.inj ht
  exact ⟨hb'.trans hzero, hw'.trans hzero, ht'.trans hzero⟩

theorem clampOpt_zero (lo x : UInt32) : clampOpt lo 0 x = 0 := by
  apply UInt32.toNat_inj.1
  rw [toNat_clampOpt]
  exact Nat.zero_min _

/-- Without the limits in the YAML, a request for them gets a block size, a window and a timeout
    of zero. -/
theorem omitted_limits_zero :
    ∃ cfg, Pushed configDefaults (.obj []) cfg ∧ tftpParseRequest leastRequest = some leastReq ∧
      let r := startRrq cfg someClock emptyFiles leastReq ⟨.zero, .new BATCH_CAP, {}, []⟩
      r.s.state ≠ .done ∧ r.s.blksize = 0 ∧ r.s.windowsize = 0 ∧ r.s.timeoutSec = 0 := by
  obtain ⟨cfg, hpushed⟩ : ∃ cfg, Pushed configDefaults (.obj []) cfg :=
    ⟨_, pushed_of_finite configDefaults trivial rfl⟩
  obtain ⟨hb, hw, ht⟩ := omitted_limits hpushed
  have hbegun := begun_emptyFiles cfg leastReq
  refine ⟨cfg, hpushed, parse_leastRequest, hbegun.live rfl, ?_, ?_, ?_⟩
  · refine hbegun.parameters.1.trans ?_
    show (clampOpt cfg.blksizeMin cfg.blksizeMax 8).toUInt16 = 0
    rw [hb, clampOpt_zero]
    rfl
  · refine hbegun.parameters.2.1.trans ?_
    show (clampOpt cfg.windowsizeMin cfg.windowsizeMax 1).toUInt8 = 0
    rw [hw, clampOpt_zero]
    rfl
  · refine hbegun.parameters.2.2.trans ?_
    show (clampOpt cfg.timeoutMin cfg.timeoutMax 1).toUInt16 = 0
    rw [ht, clampOpt_zero]
    rfl

end Nishro
