import NishroTftp.JsonHop
import NishroTftp.Py.CoreCfg
/-
  A configuration on its way from the YAML file to the C engine: `push_config` translates and
  writes it as one line (`core/engine.py`), `on_ipc_line` reads it back and applies it.

  `Pushed c yaml cfg` says that the engine has `cfg` after the push of `yaml` when it had `c`
  before.  The lemmas below say what the fields of `cfg` then are, in terms of `yaml`; a number
  arrives as what a `double` makes of it (`arrives`).
-/
namespace Nishro

open Nishro.Utf8 (Text text)
open Nishro.CCore Nishro.Py
open Nishro.Json (dumps numeral)

/-! ## The message -/

/-- `msg` in `push_config`. -/
def configMessage (core : Json) : Json :=
  .obj [(text "op", .str (text "config")), (text "data", core)]

/-- The line `push_config` writes, without its end. -/
def configLine (core : Json) : Bytes := wire (dumps (configMessage core))

/-- The engine's configuration is `cfg` once it has been sent `yaml`.  A configuration that the
    translation or `json.c` refuses is not applied. -/
def Pushed (c : Config) (yaml : Json) (cfg : Config) : Prop :=
  ∃ core, yamlToCoreCfg yaml = .ok core ∧ core.Finite ∧ cfg = onIpcLine c (configLine core)

theorem onIpcLine_configLine (c : Config) {ms : List (Text × Json)} (h : (Json.obj ms).Finite) :
    onIpcLine c (configLine (.obj ms)) = configApplyNode c (nodeOf (.obj ms)) := by
  have hmsg : (configMessage (.obj ms)).Finite := by
    simp [configMessage, Json.Finite, Json.FiniteMembers, Json.FiniteMember] at h ⊢
    exact h
  rw [onIpcLine, configLine, jsonParse_dumps hmsg]
  rfl

/-! ## Numbers -/

/-- The integer `json.c` makes of the numeral of `n`. -/
def arrives (n : Int) : Int := (strtod ((wire (numeral n)).take NUM_TOKEN)).toLongLong

/-- The integer part of what `strtod` makes of the numeral of `n`. -/
theorem trunc_numeral {n : Int} (h : n.natAbs < 2 ^ 64) :
    (strtod ((wire (numeral n)).take NUM_TOKEN)).trunc =
      some (if n < 0 then -(Binary64.nearest n.natAbs : Int) else Binary64.nearest n.natAbs) := by
  obtain ⟨x, hx, hn⟩ := Option.map_eq_some_iff.1 (Binary64.truncate_ofDecimal_nearest h)
  rw [wire_numeral, take_plainInt _ h, strtod_plainInt, hx, Double.trunc, Option.map_some, hn]
  simp only [decide_eq_true_eq]

/-- Integers below 2 ^ 53 arrive as they are. -/
theorem arrives_eq {n : Int} (h : n.natAbs < 2 ^ 53) : arrives n = n := by
  have hnear : Binary64.nearest n.natAbs = n.natAbs :=
    Binary64.nearest_eq_iff.2 (Binary64.holds_of_lt h)
  have hsign : (if n < 0 then -(n.natAbs : Int) else n.natAbs) = n := by
    split <;> omega
  rw [arrives, Double.toLongLong, trunc_numeral (Nat.lt_trans h (by decide)), hnear, hsign]
  exact if_pos (by omega)

/-- A number as a `uint32_t` of the configuration. -/
def arrives32 (n : Int) : UInt32 := UInt32.ofInt (arrives n)

theorem toNat_arrives32 {n : Nat} (h : n < 2 ^ 32) : (arrives32 n).toNat = n := by
  have hmod : ((n : Int) % 2 ^ 32).toNat = n := by omega
  rw [arrives32, arrives_eq (by omega), UInt32.ofInt, hmod, UInt32.toNat_ofNat_of_lt' h]

/-! ## Sections -/

theorem configApplyNode_sections (c : Config) (net tftp files sess sec log : List (Text × Json)) :
    configApplyNode c (nodeOf (.obj [(text "network", .obj net), (text "tftp", .obj tftp),
      (text "files", .obj files), (text "sessions", .obj sess), (text "security", .obj sec),
      (text "logging", .obj log)])) =
    applyLogging (nodeOf (.obj log)) (applySecurity (nodeOf (.obj sec))
      (applySessions (nodeOf (.obj sess)) (applyFiles (nodeOf (.obj files))
        (applyTftp (nodeOf (.obj tftp)) (applyNetwork (nodeOf (.obj net)) c))))) := rfl

/-- The sections of a configuration that was pushed, and what the engine made of them. -/
theorem Pushed.sections {c cfg : Config} {yaml : Json} (h : Pushed c yaml cfg) :
    ∃ net tftp files maxSessions sec log,
      (sectionAt yaml "tftp").bind tftpSection = .ok (.obj tftp) ∧
      (sectionAt yaml "files").bind filesSection = .ok (.obj files) ∧
      (sectionAt yaml "security").bind securitySection = .ok (.obj sec) ∧
      cfg = applyLogging (nodeOf (.obj log)) (applySecurity (nodeOf (.obj sec))
        (applySessions (nodeOf (.obj [(text "max", .int maxSessions)]))
          (applyFiles (nodeOf (.obj files))
            (applyTftp (nodeOf (.obj tftp)) (applyNetwork (nodeOf (.obj net)) c))))) := by
  obtain ⟨core, hcore, hfinite, rfl⟩ := h
  simp only [yamlToCoreCfg, bind_eq_ok, map_eq_ok] at hcore
  obtain ⟨net, hnet, tftp, htftp, files, hfiles, sess, hsess, sec, hsec, logc, hlogc, network,
    hnetwork, tftpOut, htftpOut, filesOut, hfilesOut, maxConcurrent, hmax, security, hsecurity,
    logging, hlogging, rfl⟩ := hcore
  obtain ⟨ms, rfl⟩ : ∃ ms, network = .obj ms := by
    simp only [networkSection, bind_eq_ok, map_eq_ok] at hnetwork
    obtain ⟨_, -, _, -, _, -, _, -, rfl⟩ := hnetwork
    exact ⟨_, rfl⟩
  obtain ⟨ms', rfl⟩ : ∃ ms, tftpOut = .obj ms := by
    simp only [tftpSection, bind_eq_ok, map_eq_ok] at htftpOut
    obtain ⟨_, -, _, -, _, -, _, -, _, -, _, -, _, -, rfl⟩ := htftpOut
    exact ⟨_, rfl⟩
  obtain ⟨ms'', rfl⟩ : ∃ ms, filesOut = .obj ms := by
    simp only [filesSection, bind_eq_ok, map_eq_ok] at hfilesOut
    obtain ⟨_, -, _, -, _, -, _, -, _, -, _, -, _, -, _, -, _, -, _, -, _, -, _, -, rfl⟩ := hfilesOut
    exact ⟨_, rfl⟩
  obtain ⟨ms₃, rfl⟩ : ∃ ms, security = .obj ms := by
    simp only [securitySection, bind_eq_ok, map_eq_ok] at hsecurity
    obtain ⟨_, -, _, -, _, -, _, -, rfl⟩ := hsecurity
    exact ⟨_, rfl⟩
  obtain ⟨ms₄, rfl⟩ : ∃ ms, logging = .obj ms := by
    simp only [loggingSection, bind_eq_ok] at hlogging
    obtain ⟨level, -, hlevel⟩ := hlogging
    split at hlevel
    · exact ⟨_, (Except.ok.inj hlevel).symm⟩
    · cases hlevel
  refine ⟨ms, ms', ms'', maxConcurrent, ms₃, ms₄, bind_eq_ok.2 ⟨tftp, htftp, htftpOut⟩,
    bind_eq_ok.2 ⟨files, hfiles, hfilesOut⟩, bind_eq_ok.2 ⟨sec, hsec, hsecurity⟩, ?_⟩
  rw [onIpcLine_configLine c hfinite]
  exact configApplyNode_sections ..

/-! ## Floats on the way -/

theorem finiteMembers_iff {ms : List (Text × Json)} :
    Json.FiniteMembers ms ↔ ∀ m ∈ ms, m.2.Finite := by
  induction ms with
  | nil => simp [Json.FiniteMembers]
  | cons m ms ih =>
    obtain ⟨key, v⟩ := m
    simp [Json.FiniteMembers, Json.FiniteMember, ih]

theorem finiteElements_iff {xs : List Json} : Json.FiniteElements xs ↔ ∀ x ∈ xs, x.Finite := by
  induction xs with
  | nil => simp [Json.FiniteElements]
  | cons x xs ih => simp [Json.FiniteElements, ih]

theorem finite_of_dictGet {d x : Json} {key : Text} (hd : d.Finite)
    (h : dictGet d key = .ok (some x)) : x.Finite := by
  cases d with
  | obj ms =>
    have hmem := Json.mem_of_get (Except.ok.inj h)
    rw [Json.Finite, finiteMembers_iff] at hd
    exact hd _ hmem
  | _ => cases h

theorem finite_sectionAt {d x : Json} {key : String} (hd : d.Finite)
    (h : sectionAt d key = .ok x) : x.Finite := by
  obtain ⟨o, ho, rfl⟩ := map_eq_ok.1 h
  cases o with
  | none => trivial
  | some v =>
    rw [orEmpty]
    split
    · exact finite_of_dictGet hd ho
    · trivial

theorem finite_rawAt {d x : Json} {key dflt : String} (hd : d.Finite)
    (h : rawAt d key dflt = .ok x) : x.Finite := by
  obtain ⟨o, ho, rfl⟩ := map_eq_ok.1 h
  cases o with
  | none => trivial
  | some v => exact finite_of_dictGet hd ho

theorem finite_rawOrAt {d x : Json} {key dflt : String} (hd : d.Finite)
    (h : rawOrAt d key dflt = .ok x) : x.Finite := by
  obtain ⟨o, ho, rfl⟩ := map_eq_ok.1 h
  cases o with
  | none => trivial
  | some v =>
    simp only
    split
    · exact finite_of_dictGet hd ho
    · trivial

theorem finite_iterate {x : Json} {rs : List Json} (hx : x.Finite) (h : iterate x = .ok rs) :
    ∀ r ∈ rs, r.Finite := by
  intro r hr
  cases x with
  | arr xs =>
    obtain rfl := Except.ok.inj h
    rw [Json.Finite, finiteElements_iff] at hx
    exact hx r hr
  | str s =>
    obtain rfl := Except.ok.inj h
    obtain ⟨c, -, rfl⟩ := List.mem_map.1 hr
    trivial
  | obj ms =>
    obtain rfl := Except.ok.inj h
    obtain ⟨m, -, rfl⟩ := List.mem_map.1 hr
    trivial
  | _ => cases h

theorem finite_aclRules {acl : Json} {rs : List Json} (ha : acl.Finite) (h : aclRules acl = .ok rs) :
    ∀ r ∈ rs, r.Finite := by
  have hentries : (dictGet acl (text "list")).bind aclRules.entries = .ok rs →
      ∀ r ∈ rs, r.Finite := by
    intro he
    obtain ⟨o, ho, hrs⟩ := bind_eq_ok.1 he
    cases o with
    | none =>
      obtain rfl := Except.ok.inj hrs
      simp
    | some x =>
      rw [aclRules.entries] at hrs
      split at hrs
      · exact finite_iterate (finite_of_dictGet ha ho) hrs
      · obtain rfl := Except.ok.inj hrs
        simp
  have hnone : (Except.ok [] : Except PyError (List Json)) = .ok rs → ∀ r ∈ rs, r.Finite := by
    intro h
    obtain rfl := Except.ok.inj h
    simp
  obtain ⟨mode, -, hmode⟩ := bind_eq_ok.1 h
  split at hmode
  · split at hmode
    · exact hnone hmode
    · exact hentries hmode
  · split at hmode
    · exact hentries hmode
    · exact hnone hmode
  · exact hnone hmode

theorem finite_networkSection {net out : Json} (hn : net.Finite) (h : networkSection net = .ok out) :
    out.Finite := by
  simp only [networkSection, bind_eq_ok, map_eq_ok] at h
  obtain ⟨nic, hnic, ip, hip, mac, hmac, promiscuous, -, rfl⟩ := h
  exact ⟨finite_rawOrAt hn hnic, finite_rawOrAt hn hip, finite_rawOrAt hn hmac, trivial, trivial⟩

theorem finite_tftpSection {tftp out : Json} (h : tftpSection tftp = .ok out) : out.Finite := by
  simp only [tftpSection, limpair, bind_eq_ok, map_eq_ok] at h
  obtain ⟨_, -, _, -, _, -, _, -, _, ⟨_, -, _, -, _, -, rfl⟩, _, ⟨_, -, _, -, _, -, rfl⟩, _,
    ⟨_, -, _, -, _, -, rfl⟩, rfl⟩ := h
  simp [Json.Finite, Json.FiniteMembers, Json.FiniteMember]

theorem finite_filesSection {files out : Json} (hf : files.Finite) (h : filesSection files = .ok out) :
    out.Finite := by
  simp only [filesSection, prefixSection, ftpSection, bind_eq_ok, map_eq_ok] at h
  obtain ⟨localCfg, hlocal, ftp, hftp, pref, hpref, rrqRoot, hrrq, wrqRoot, hwrq, _, -, _, -, _, -,
    _, -, _, -, _, ⟨_, -, trigger, htrigger, _, -, rfl⟩, _, ⟨_, -, host, hhost, _, -, user, huser,
    pass, hpass, root, hroot, rfl⟩, rfl⟩ := h
  have hlocal := finite_sectionAt hf hlocal
  have hftp := finite_sectionAt hf hftp
  have hpref := finite_sectionAt hf hpref
  simp only [Json.Finite, Json.FiniteMembers, Json.FiniteMember, true_and, and_true]
  exact ⟨finite_rawAt hlocal hrrq, finite_rawAt hf hwrq, finite_rawAt hpref htrigger,
    finite_rawAt hftp hhost, finite_rawAt hftp huser, finite_rawAt hftp hpass,
    finite_rawAt hftp hroot⟩

theorem finite_securitySection {sec out : Json} (hs : sec.Finite) (h : securitySection sec = .ok out) :
    out.Finite := by
  simp only [securitySection, bind_eq_ok, map_eq_ok] at h
  obtain ⟨vlanAcl, hvlan, ipAcl, hip, vlanRules, hvlanRules, ipRules, hipRules, rfl⟩ := h
  have hvlan := finite_aclRules (finite_sectionAt hs hvlan) hvlanRules
  have hip := finite_aclRules (finite_sectionAt hs hip) hipRules
  simp only [Json.Finite, Json.FiniteMembers, Json.FiniteMember, true_and, and_true,
    finiteElements_iff, List.mem_append]
  rintro r (hr | hr)
  · exact hvlan r hr
  · exact hip r hr

/-- A configuration without infinities and NaN is written without them. -/
theorem finite_yamlToCoreCfg {yaml core : Json} (hy : yaml.Finite)
    (h : yamlToCoreCfg yaml = .ok core) : core.Finite := by
  simp only [yamlToCoreCfg, bind_eq_ok, map_eq_ok] at h
  obtain ⟨net, hnet, tftp, -, files, hfiles, sess, -, sec, hsec, logc, -, network, hnetwork,
    tftpOut, htftpOut, filesOut, hfilesOut, _, -, security, hsecurity, logging, hlogging, rfl⟩ := h
  have hlogging : logging.Finite := by
    obtain ⟨level, -, hlevel⟩ := bind_eq_ok.1 hlogging
    split at hlevel
    · obtain rfl := Except.ok.inj hlevel
      exact ⟨trivial, trivial⟩
    · cases hlevel
  exact ⟨finite_networkSection (finite_sectionAt hy hnet) hnetwork, finite_tftpSection htftpOut,
    finite_filesSection (finite_sectionAt hy hfiles) hfilesOut, ⟨trivial, trivial⟩,
    finite_securitySection (finite_sectionAt hy hsec) hsecurity, hlogging, trivial⟩

/-- Such a configuration gets through. -/
theorem pushed_of_finite (c : Config) {yaml core : Json} (hy : yaml.Finite)
    (h : yamlToCoreCfg yaml = .ok core) : Pushed c yaml (onIpcLine c (configLine core)) :=
  ⟨core, h, finite_yamlToCoreCfg hy h, rfl⟩

/-! ## Limits -/

/-- `int(limits.get(key, 0) or 0)`. -/
def limitAt (yaml : Json) (key : String) : Except PyError Int :=
  (sectionAt yaml "tftp").bind fun tftp =>
  (sectionAt tftp "limits").bind fun limits => intOrZeroAt limits (text key)

/-- The bounds that the engine was sent for one option. -/
def SentLimits (yaml : Json) (keyMin keyMax : String) (lo hi : UInt32) : Prop :=
  ∃ a b, limitAt yaml keyMin = .ok a ∧ limitAt yaml keyMax = .ok b ∧ lo = arrives32 a ∧
    hi = arrives32 b

/-- Two configurations have the same option limits. -/
def SameLimits (c c' : Config) : Prop :=
  c.blksizeMin = c'.blksizeMin ∧ c.blksizeMax = c'.blksizeMax ∧
  c.windowsizeMin = c'.windowsizeMin ∧ c.windowsizeMax = c'.windowsizeMax ∧
  c.timeoutMin = c'.timeoutMin ∧ c.timeoutMax = c'.timeoutMax

/-- The sections after `tftp` leave the limits alone. -/
theorem sections_limits (log sec sess files : JsonNode) (c : Config) :
    SameLimits (applyLogging log (applySecurity sec (applySessions sess (applyFiles files c)))) c := by
  simp only [SameLimits, applyLogging, applySecurity, applySessions, applyFiles]
  cases jnObject files "prefix" <;> cases jnObject files "ftp" <;>
    exact ⟨rfl, rfl, rfl, rfl, rfl, rfl⟩

/-- The limits of an option, as `_limpair` writes them. -/
def limitsJson (lo hi dflt : Int) : Json :=
  .obj [(text "min", .int lo), (text "max", .int hi), (text "default", .int dflt)]

theorem applyTftp_limits (c : Config) (port : Int) (wrq : Bool) (bLo bHi bD wLo wHi wD tLo tHi tD : Int) :
    let c' := applyTftp (nodeOf (.obj [(text "port", .int port), (text "wrq_enabled", .bool wrq),
      (text "options", .obj [(text "blksize", limitsJson bLo bHi bD),
        (text "windowsize", limitsJson wLo wHi wD), (text "timeout", limitsJson tLo tHi tD)])])) c
    c'.blksizeMin = arrives32 bLo ∧ c'.blksizeMax = arrives32 bHi ∧
    c'.windowsizeMin = arrives32 wLo ∧ c'.windowsizeMax = arrives32 wHi ∧
    c'.timeoutMin = arrives32 tLo ∧ c'.timeoutMax = arrives32 tHi :=
  ⟨rfl, rfl, rfl, rfl, rfl, rfl⟩

theorem Pushed.limits {c cfg : Config} {yaml : Json} (h : Pushed c yaml cfg) :
    SentLimits yaml "blksize_min" "blksize_max" cfg.blksizeMin cfg.blksizeMax ∧
    SentLimits yaml "windowsize_min" "windowsize_max" cfg.windowsizeMin cfg.windowsizeMax ∧
    SentLimits yaml "timeout_min" "timeout_max" cfg.timeoutMin cfg.timeoutMax := by
  obtain ⟨net, tftpOut, files, maxSessions, sec, log, htftp, -, -, rfl⟩ := h.sections
  simp only [tftpSection, limpair, bind_eq_ok, map_eq_ok] at htftp
  obtain ⟨tftp, hsection, defaults, -, limits, hlimits, port, -, wrq, -, blksize,
    ⟨bLo, hbLo, bHi, hbHi, bD, -, rfl⟩, windowsize, ⟨wLo, hwLo, wHi, hwHi, wD, -, rfl⟩, timeout,
    ⟨tLo, htLo, tHi, htHi, tD, -, rfl⟩, heq⟩ := htftp
  obtain rfl := Json.obj.inj heq
  have hat : ∀ {key : String} {n : Int}, intOrZeroAt limits (text key) = .ok n →
      limitAt yaml key = .ok n := by
    intro key n hn
    simp only [limitAt, bind_eq_ok]
    exact ⟨tftp, hsection, limits, hlimits, hn⟩
  obtain ⟨h1, h2, h3, h4, h5, h6⟩ := sections_limits (nodeOf (.obj log)) (nodeOf (.obj sec))
    (nodeOf (.obj [(text "max", .int maxSessions)])) (nodeOf (.obj files)) (applyTftp (nodeOf (.obj
      [(text "port", .int port), (text "wrq_enabled", .bool wrq), (text "options", .obj
        [(text "blksize", limitsJson bLo bHi bD), (text "windowsize", limitsJson wLo wHi wD),
          (text "timeout", limitsJson tLo tHi tD)])])) (applyNetwork (nodeOf (.obj net)) c))
  obtain ⟨t1, t2, t3, t4, t5, t6⟩ := applyTftp_limits (applyNetwork (nodeOf (.obj net)) c) port wrq
    bLo bHi bD wLo wHi wD tLo tHi tD
  exact ⟨⟨bLo, bHi, hat hbLo, hat hbHi, h1.trans t1, h2.trans t2⟩,
    ⟨wLo, wHi, hat hwLo, hat hwHi, h3.trans t3, h4.trans t4⟩,
    ⟨tLo, tHi, hat htLo, hat htHi, h5.trans t5, h6.trans t6⟩⟩

end Nishro
