import NishroTftp.ConfigPush
/-
  The configuration of the C engine field by field: where a field stands in a message, how
  `config_apply_node` (`c_core/config.c`) reads it, and what it is when its key is not there.

  `config.h` promises that "fields not present retain their previous value".  The nine limits of the
  options, the two addresses and the log level do.  Every other field is read with `jn_get_str`, which
  CLEARS the buffer of a missing key, or with a constant as the default, so once its section is there a
  missing key resets it.

  `Field` names the fields; `read_configApplyNode` says for each of them what a message makes of it,
  in the terms of its kind alone.  Everything else is about kinds.
-/
namespace Nishro

open Nishro.CCore
open Nishro.Decimal (decimal)

/-! ## The fields -/

/-- What a field holds. -/
inductive FieldValue
  | text (bs : Bytes)
  | flag (b : Bool)
  | num (n : Nat)
  | mac (m : Mac)
  | rules (rs : List AclRule)
deriving DecidableEq

/-- How `config_apply_node` reads a field. -/
inductive FieldKind
  /-- `jn_get_str(sec, key, c->field, sizeof c->field)` -/
  | text (cap : Nat)
  /-- `jn_get_bool(sec, key, dflt)` -/
  | flag (dflt : Bool)
  /-- `jn_get_int(sec, key, dflt)`, in so many bits -/
  | number (bits dflt : Nat)
  /-- `(uint32_t)jn_get_int(sec, key, c->field)` -/
  | limit
  /-- `virtual_ip` -/
  | address
  /-- `virtual_mac` -/
  | hardware
  /-- `apply_acl` -/
  | rules
  /-- `level` -/
  | level
deriving DecidableEq

/-- The fields of `Config`. -/
inductive Field
  | device | virtualIp | virtualMac | promiscuous
  | tftpPort | wrqEnabled
  | blksizeMin | blksizeMax | blksizeDefault
  | windowsizeMin | windowsizeMax | windowsizeDefault
  | timeoutMin | timeoutMax | timeoutDefault
  | rrqRoot | wrqRoot | rrqRecursive | maxRrqSize | maxWrqSize | maxFtpSize | allowWrqFtp
  | prefixEnabled | prefixTrigger | prefixFolderFmt
  | ftpEnabled | ftpHost | ftpPort | ftpUser | ftpPass | ftpRoot
  | maxSessions
  | aclDefaultAllow | acl
  | logLevel
deriving DecidableEq

def Field.read (c : Config) : Field → FieldValue
  | .device => .text c.device
  | .virtualIp => .num c.virtualIp.toNat
  | .virtualMac => .mac c.virtualMac
  | .promiscuous => .flag c.promiscuous
  | .tftpPort => .num c.tftpPort.toNat
  | .wrqEnabled => .flag c.wrqEnabled
  | .blksizeMin => .num c.blksizeMin.toNat
  | .blksizeMax => .num c.blksizeMax.toNat
  | .blksizeDefault => .num c.blksizeDefault.toNat
  | .windowsizeMin => .num c.windowsizeMin.toNat
  | .windowsizeMax => .num c.windowsizeMax.toNat
  | .windowsizeDefault => .num c.windowsizeDefault.toNat
  | .timeoutMin => .num c.timeoutMin.toNat
  | .timeoutMax => .num c.timeoutMax.toNat
  | .timeoutDefault => .num c.timeoutDefault.toNat
  | .rrqRoot => .text c.rrqRoot
  | .wrqRoot => .text c.wrqRoot
  | .rrqRecursive => .flag c.rrqRecursive
  | .maxRrqSize => .num c.maxRrqSize.toNat
  | .maxWrqSize => .num c.maxWrqSize.toNat
  | .maxFtpSize => .num c.maxFtpSize.toNat
  | .allowWrqFtp => .flag c.allowWrqFtp
  | .prefixEnabled => .flag c.prefixEnabled
  | .prefixTrigger => .text c.prefixTrigger
  | .prefixFolderFmt => .text c.prefixFolderFmt
  | .ftpEnabled => .flag c.ftpEnabled
  | .ftpHost => .text c.ftpHost
  | .ftpPort => .num c.ftpPort.toNat
  | .ftpUser => .text c.ftpUser
  | .ftpPass => .text c.ftpPass
  | .ftpRoot => .text c.ftpRoot
  | .maxSessions => .num c.maxSessions.toNat
  | .aclDefaultAllow => .flag c.aclDefaultAllow
  | .acl => .rules c.acl
  | .logLevel => .num c.logLevel

/-- The sections of a message, in the order in which they are applied. -/
inductive Sect
  | network | tftp | files | sessions | security | logging
deriving DecidableEq

def Sect.name : Sect → String
  | .network => "network"
  | .tftp => "tftp"
  | .files => "files"
  | .sessions => "sessions"
  | .security => "security"
  | .logging => "logging"

def Sect.apply : Sect → JsonNode → Config → Config
  | .network => applyNetwork
  | .tftp => applyTftp
  | .files => applyFiles
  | .sessions => applySessions
  | .security => applySecurity
  | .logging => applyLogging

/-- The place of a field in a message: its section, the objects below it, its key; and its kind. -/
structure Place where
  sect : Sect
  inner : List String
  key : String
  kind : FieldKind

def Field.place : Field → Place
  | .device => ⟨.network, [], "nic", .text 256⟩
  | .virtualIp => ⟨.network, [], "virtual_ip", .address⟩
  | .virtualMac => ⟨.network, [], "virtual_mac", .hardware⟩
  | .promiscuous => ⟨.network, [], "promiscuous", .flag true⟩
  | .tftpPort => ⟨.tftp, [], "port", .number 16 69⟩
  | .wrqEnabled => ⟨.tftp, [], "wrq_enabled", .flag false⟩
  | .blksizeMin => ⟨.tftp, ["options", "blksize"], "min", .limit⟩
  | .blksizeMax => ⟨.tftp, ["options", "blksize"], "max", .limit⟩
  | .blksizeDefault => ⟨.tftp, ["options", "blksize"], "default", .limit⟩
  | .windowsizeMin => ⟨.tftp, ["options", "windowsize"], "min", .limit⟩
  | .windowsizeMax => ⟨.tftp, ["options", "windowsize"], "max", .limit⟩
  | .windowsizeDefault => ⟨.tftp, ["options", "windowsize"], "default", .limit⟩
  | .timeoutMin => ⟨.tftp, ["options", "timeout"], "min", .limit⟩
  | .timeoutMax => ⟨.tftp, ["options", "timeout"], "max", .limit⟩
  | .timeoutDefault => ⟨.tftp, ["options", "timeout"], "default", .limit⟩
  | .rrqRoot => ⟨.files, [], "rrq_root", .text MAX_PATHLEN⟩
  | .wrqRoot => ⟨.files, [], "wrq_root", .text MAX_PATHLEN⟩
  | .rrqRecursive => ⟨.files, [], "rrq_recursive", .flag false⟩
  | .maxRrqSize => ⟨.files, [], "max_rrq_size", .number 64 0⟩
  | .maxWrqSize => ⟨.files, [], "max_wrq_size", .number 64 0⟩
  | .maxFtpSize => ⟨.files, [], "max_ftp_size", .number 64 0⟩
  | .allowWrqFtp => ⟨.files, [], "allow_wrq_ftp", .flag false⟩
  | .prefixEnabled => ⟨.files, ["prefix"], "enabled", .flag false⟩
  | .prefixTrigger => ⟨.files, ["prefix"], "trigger", .text 16⟩
  | .prefixFolderFmt => ⟨.files, ["prefix"], "folder_fmt", .text 64⟩
  | .ftpEnabled => ⟨.files, ["ftp"], "enabled", .flag false⟩
  | .ftpHost => ⟨.files, ["ftp"], "host", .text 256⟩
  | .ftpPort => ⟨.files, ["ftp"], "port", .number 16 21⟩
  | .ftpUser => ⟨.files, ["ftp"], "user", .text 128⟩
  | .ftpPass => ⟨.files, ["ftp"], "pass", .text 128⟩
  | .ftpRoot => ⟨.files, ["ftp"], "root", .text MAX_PATHLEN⟩
  | .maxSessions => ⟨.sessions, [], "max", .number 32 64⟩
  | .aclDefaultAllow => ⟨.security, [], "default_allow", .flag true⟩
  | .acl => ⟨.security, [], "rules", .rules⟩
  | .logLevel => ⟨.logging, [], "level", .level⟩

/-- The object at the end of a path, if there are objects all the way. -/
def objectAt : JsonNode → List String → Option JsonNode
  | obj, [] => some obj
  | obj, key :: path => (jnObject obj key).bind (objectAt · path)

/-- The object a field is read from. -/
def Field.home (f : Field) (root : JsonNode) : Option JsonNode :=
  objectAt root (f.place.sect.name :: f.place.inner)

/-- What a message holds for a field. -/
def Field.locate (f : Field) (root : JsonNode) : Option JsonNode :=
  (f.home root).bind (jnField · f.place.key)

/-! ## One field, as it is read -/

def levelOf (lv : Bytes) (current : Nat) : Nat :=
  if lv = ascii "debug" then LOG_DEBUG
  else if lv = ascii "info" then LOG_INFO
  else if lv = ascii "warn" then LOG_WARN
  else if lv = ascii "error" then LOG_ERROR
  else current

/-- A field after its key has been looked up, from what it was before. -/
def FieldKind.update : FieldKind → Option JsonNode → FieldValue → FieldValue
  | .text cap, some (.str src), _ => .text (jnStrCopy src cap)
  | .text _, _, _ => .text []
  | .flag _, some (.bool b), _ => .flag b
  | .flag _, some (.num _ d), _ => .flag (! d.isZero)
  | .flag dflt, _, _ => .flag dflt
  | .number bits _, some (.num _ d), _ => .num (d.toLongLong % 2 ^ bits).toNat
  | .number _ dflt, _, _ => .num dflt
  | .limit, some (.num _ d), _ => .num (d.toLongLong % 2 ^ 32).toNat
  | .address, some (.str src), .num current =>
    .num (((parseIpv4Text (jnStrCopy src MAX_PATHLEN)).map (·.toNat)).getD current)
  | .hardware, some (.str src), .mac current =>
    if jnStrCopy src 32 = [] then .mac current else .mac (parseMac (jnStrCopy src 32) current)
  | .rules, v, _ => .rules (applyAcl v)
  | .level, some (.str src), .num current => .num (levelOf (jnStrCopy src 16) current)
  | .limit, _, current | .address, _, current | .hardware, _, current | .level, _, current => current

/-- A field after a section has been applied, from the object `sec` and the path below it. -/
def Field.readAt (f : Field) (sec : JsonNode) (path : List String) (current : FieldValue) :
    FieldValue :=
  match objectAt sec path with
  | none => current
  | some obj => f.place.kind.update (jnField obj f.place.key) current

/-! ## What a message makes of a field -/

/-- A section leaves the fields of the others alone. -/
theorem read_apply_other {s : Sect} {f : Field} (h : s ≠ f.place.sect) (sec : JsonNode) (c : Config) :
    f.read (s.apply sec c) = f.read c := by
  cases s with
  | network => cases f <;> first | rfl | exact absurd rfl h
  | tftp =>
    show f.read (applyTftp sec c) = _
    unfold applyTftp
    cases jnObject sec "options" <;> cases f <;> first | rfl | exact absurd rfl h
  | files =>
    show f.read (applyFiles sec c) = _
    unfold applyFiles
    cases jnObject sec "prefix" <;> cases jnObject sec "ftp" <;> cases f <;>
      first | rfl | exact absurd rfl h
  | sessions => cases f <;> first | rfl | exact absurd rfl h
  | security => cases f <;> first | rfl | exact absurd rfl h
  | logging => cases f <;> first | rfl | exact absurd rfl h

section Kinds

variable (obj : JsonNode) (key : String)

theorem update_text (cap : Nat) (current : FieldValue) :
    FieldKind.update (.text cap) (jnField obj key) current =
      .text ((jnGetStr obj key cap).getD []) := by
  unfold jnGetStr
  rcases jnField obj key with _ | v
  · rfl
  · cases v <;> rfl

theorem update_flag (dflt : Bool) (current : FieldValue) :
    FieldKind.update (.flag dflt) (jnField obj key) current = .flag (jnGetBool obj key dflt) := by
  unfold jnGetBool
  rcases jnField obj key with _ | v
  · rfl
  · cases v <;> rfl

theorem update_number (bits dflt : Nat) (h : dflt < 2 ^ bits) (current : FieldValue) :
    FieldKind.update (.number bits dflt) (jnField obj key) current =
      .num (jnGetInt obj key dflt % 2 ^ bits).toNat := by
  have hdflt : ((dflt : Int) % 2 ^ bits).toNat = dflt := by
    rw [Int.emod_eq_of_lt (by omega) (by exact_mod_cast h), Int.toNat_natCast]
  unfold jnGetInt
  rcases jnField obj key with _ | v
  · simp [FieldKind.update, hdflt]
  · cases v <;> simp [FieldKind.update, hdflt]

theorem toNat_ofInt16 (x : Int) : (UInt16.ofInt x).toNat = (x % 2 ^ 16).toNat := by
  rw [UInt16.ofInt, UInt16.toNat_ofNat_of_lt']
  show (x % 2 ^ 16).toNat < 2 ^ 16
  omega

theorem toNat_ofInt32 (x : Int) : (UInt32.ofInt x).toNat = (x % 2 ^ 32).toNat := by
  rw [UInt32.ofInt, UInt32.toNat_ofNat_of_lt']
  show (x % 2 ^ 32).toNat < 2 ^ 32
  omega

theorem toNat_ofInt64 (x : Int) : (UInt64.ofInt x).toNat = (x % 2 ^ 64).toNat := by
  rw [UInt64.ofInt, UInt64.toNat_ofNat_of_lt']
  show (x % 2 ^ 64).toNat < 2 ^ 64
  omega

theorem update_limit (current : UInt32) :
    FieldKind.update .limit (jnField obj key) (.num current.toNat) =
      .num (UInt32.ofInt (jnGetInt obj key current.toNat)).toNat := by
  have hkeep : ((current.toNat : Int) % 2 ^ 32).toNat = current.toNat := by
    have := current.toNat_lt
    omega
  rw [toNat_ofInt32]
  unfold jnGetInt
  rcases jnField obj key with _ | v
  · exact congrArg FieldValue.num hkeep.symm
  · cases v with
    | num token d => rfl
    | _ => exact congrArg FieldValue.num hkeep.symm

theorem update_number16 (dflt : Nat) (h : dflt < 2 ^ 16) (current : FieldValue) :
    FieldKind.update (.number 16 dflt) (jnField obj key) current =
      .num (UInt16.ofInt (jnGetInt obj key dflt)).toNat := by
  rw [toNat_ofInt16, update_number obj key 16 dflt h]

theorem update_number32 (dflt : Nat) (h : dflt < 2 ^ 32) (current : FieldValue) :
    FieldKind.update (.number 32 dflt) (jnField obj key) current =
      .num (UInt32.ofInt (jnGetInt obj key dflt)).toNat := by
  rw [toNat_ofInt32, update_number obj key 32 dflt h]

theorem update_number64 (dflt : Nat) (h : dflt < 2 ^ 64) (current : FieldValue) :
    FieldKind.update (.number 64 dflt) (jnField obj key) current =
      .num (UInt64.ofInt (jnGetInt obj key dflt)).toNat := by
  rw [toNat_ofInt64, update_number obj key 64 dflt h]

theorem update_level (current : Nat) :
    FieldKind.update .level (jnField obj key) (.num current) =
      .num (levelOf ((jnGetStr obj key 16).getD []) current) := by
  unfold jnGetStr
  rcases jnField obj key with _ | v
  · rfl
  · cases v <;> rfl

theorem update_address (current : UInt32) :
    FieldKind.update .address (jnField obj key) (.num current.toNat) =
      let ip := (jnGetStr obj key MAX_PATHLEN).getD []
      .num (if ip = [] then current else (parseIpv4Text ip).getD current).toNat := by
  unfold jnGetStr
  rcases jnField obj key with _ | v
  · rfl
  cases v with
  | str src =>
    show FieldValue.num _ = FieldValue.num (if jnStrCopy src MAX_PATHLEN = [] then current else
      (parseIpv4Text (jnStrCopy src MAX_PATHLEN)).getD current).toNat
    by_cases hempty : jnStrCopy src MAX_PATHLEN = []
    · rw [if_pos hempty, hempty]
      rfl
    · rw [if_neg hempty]
      cases parseIpv4Text (jnStrCopy src MAX_PATHLEN) <;> rfl
  | _ => rfl

theorem update_hardware (current : Mac) :
    FieldKind.update .hardware (jnField obj key) (.mac current) =
      let mac := (jnGetStr obj key 32).getD []
      .mac (if mac = [] then current else parseMac mac current) := by
  unfold jnGetStr
  rcases jnField obj key with _ | v
  · rfl
  · cases v with
    | str src => exact (apply_ite FieldValue.mac _ _ _).symm
    | _ => rfl

end Kinds

section Paths

variable {f : Field} {sec obj : JsonNode} {key : String} (path : List String) (current : FieldValue)

theorem readAt_missing (h : jnObject sec key = none) :
    f.readAt sec (key :: path) current = current := by
  rw [Field.readAt, objectAt, h]
  rfl

theorem readAt_found (h : jnObject sec key = some obj) :
    f.readAt sec (key :: path) current = f.readAt obj path current := by
  rw [Field.readAt, objectAt, h]
  rfl

end Paths

section Sections

variable {f : Field} {apply : JsonNode → Config → Config} {root : JsonNode} {key : String} {c : Config}

theorem read_applySection_frame (h : ∀ obj c, f.read (apply obj c) = f.read c) :
    f.read (applySection root key apply c) = f.read c := by
  unfold applySection
  split
  · exact h _ c
  · rfl

theorem read_applySection_field {path : List String}
    (h : ∀ obj c, f.read (apply obj c) = f.readAt obj path (f.read c)) :
    f.read (applySection root key apply c) = f.readAt root (key :: path) (f.read c) := by
  unfold applySection
  cases hsec : jnObject root key with
  | none => exact (readAt_missing _ _ hsec).symm
  | some sec => exact (h sec c).trans (readAt_found _ _ hsec).symm

end Sections

/-- The field of an option, from the object of the options. -/
theorem readAt_limit {f : Field} (hf : f.place.kind = .limit) (opts : JsonNode) (key : String)
    (current : UInt32) : f.readAt opts [key] (.num current.toNat) =
      .num (limitOf opts key f.place.key current).toNat := by
  unfold Field.readAt limitOf objectAt
  rw [hf]
  cases jnObject opts key with
  | none => rfl
  | some obj => exact update_limit obj f.place.key current

/-- The fields of `tftp` itself. -/
def tftpOwn (tftp : JsonNode) (c : Config) : Config :=
  { c with
    tftpPort := UInt16.ofInt (jnGetInt tftp "port" 69)
    wrqEnabled := jnGetBool tftp "wrq_enabled" false }

/-- The fields of `options`. -/
def applyOptions (opts : JsonNode) (c : Config) : Config :=
  { c with
    blksizeMin := limitOf opts "blksize" "min" c.blksizeMin
    blksizeMax := limitOf opts "blksize" "max" c.blksizeMax
    blksizeDefault := limitOf opts "blksize" "default" c.blksizeDefault
    windowsizeMin := limitOf opts "windowsize" "min" c.windowsizeMin
    windowsizeMax := limitOf opts "windowsize" "max" c.windowsizeMax
    windowsizeDefault := limitOf opts "windowsize" "default" c.windowsizeDefault
    timeoutMin := limitOf opts "timeout" "min" c.timeoutMin
    timeoutMax := limitOf opts "timeout" "max" c.timeoutMax
    timeoutDefault := limitOf opts "timeout" "default" c.timeoutDefault }

theorem applyTftp_eq (tftp : JsonNode) (c : Config) :
    applyTftp tftp c = applySection tftp "options" applyOptions (tftpOwn tftp c) := by
  unfold applyTftp applySection
  cases jnObject tftp "options" <;> rfl

theorem read_applyOptions {f : Field} {key : String} (hf : f.place.sect = .tftp)
    (hkey : f.place.inner = ["options", key]) (opts : JsonNode) (c : Config) :
    f.read (applyOptions opts c) = f.readAt opts [key] (f.read c) := by
  have hlimit := readAt_limit (f := f)
  cases f with
  | blksizeMin | blksizeMax | blksizeDefault | windowsizeMin | windowsizeMax | windowsizeDefault
  | timeoutMin | timeoutMax | timeoutDefault =>
    cases hkey
    exact (hlimit rfl opts _ _).symm
  | tftpPort | wrqEnabled => cases hkey
  | _ => cases hf

theorem read_applyTftp {f : Field} (hf : f.place.sect = .tftp) (sec : JsonNode) (c : Config) :
    f.read (applyTftp sec c) = f.readAt sec f.place.inner (f.read c) := by
  rw [applyTftp_eq]
  have hown : (∀ obj c, f.read (applyOptions obj c) = f.read c) →
      f.read (applySection sec "options" applyOptions (tftpOwn sec c)) = f.read (tftpOwn sec c) :=
    read_applySection_frame
  cases f with
  | tftpPort =>
    exact (hown fun _ _ => rfl).trans (update_number16 sec "port" 69 (by decide) _).symm
  | wrqEnabled =>
    exact (hown fun _ _ => rfl).trans (update_flag ..).symm
  | blksizeMin | blksizeMax | blksizeDefault | windowsizeMin | windowsizeMax | windowsizeDefault
  | timeoutMin | timeoutMax | timeoutDefault =>
    exact read_applySection_field (read_applyOptions rfl rfl)
  | _ => cases hf

/-- The fields of `files` itself. -/
def filesOwn (files : JsonNode) (c : Config) : Config :=
  { c with
    rrqRoot := (jnGetStr files "rrq_root" MAX_PATHLEN).getD []
    wrqRoot := (jnGetStr files "wrq_root" MAX_PATHLEN).getD []
    rrqRecursive := jnGetBool files "rrq_recursive" false
    maxRrqSize := UInt64.ofInt (jnGetInt files "max_rrq_size" 0)
    maxWrqSize := UInt64.ofInt (jnGetInt files "max_wrq_size" 0)
    maxFtpSize := UInt64.ofInt (jnGetInt files "max_ftp_size" 0)
    allowWrqFtp := jnGetBool files "allow_wrq_ftp" false }

theorem applyFiles_eq (files : JsonNode) (c : Config) : applyFiles files c =
    applySection files "ftp" applyFtp (applySection files "prefix" applyPrefix (filesOwn files c)) :=
  rfl

theorem read_applyFiles {f : Field} (hf : f.place.sect = .files) (sec : JsonNode) (c : Config) :
    f.read (applyFiles sec c) = f.readAt sec f.place.inner (f.read c) := by
  have hpref : (∀ obj c, f.read (applyFtp obj c) = f.read c) →
      f.read (filesOwn sec c) = f.read c →
      (∀ obj c, f.read (applyPrefix obj c) = f.readAt obj [] (f.read c)) →
      f.read (applyFiles sec c) = f.readAt sec ["prefix"] (f.read c) := by
    intro hftp hown hread
    rw [applyFiles_eq, read_applySection_frame hftp, read_applySection_field hread, hown]
  have hftp : (∀ obj c, f.read (applyPrefix obj c) = f.read c) →
      f.read (filesOwn sec c) = f.read c →
      (∀ obj c, f.read (applyFtp obj c) = f.readAt obj [] (f.read c)) →
      f.read (applyFiles sec c) = f.readAt sec ["ftp"] (f.read c) := by
    intro hpref hown hread
    rw [applyFiles_eq, read_applySection_field hread, read_applySection_frame hpref, hown]
  have hown : (∀ obj c, f.read (applyPrefix obj c) = f.read c) →
      (∀ obj c, f.read (applyFtp obj c) = f.read c) →
      f.read (applyFiles sec c) = f.read (filesOwn sec c) := by
    intro hpref hftp
    rw [applyFiles_eq, read_applySection_frame hftp, read_applySection_frame hpref]
  cases f with
  | rrqRoot | wrqRoot =>
    exact (hown (fun _ _ => rfl) fun _ _ => rfl).trans (update_text ..).symm
  | rrqRecursive | allowWrqFtp =>
    exact (hown (fun _ _ => rfl) fun _ _ => rfl).trans (update_flag ..).symm
  | maxRrqSize | maxWrqSize | maxFtpSize =>
    exact (hown (fun _ _ => rfl) fun _ _ => rfl).trans (update_number64 _ _ 0 (by decide) _).symm
  | prefixEnabled =>
    exact hpref (fun _ _ => rfl) rfl fun _ _ => (update_flag ..).symm
  | prefixTrigger | prefixFolderFmt =>
    exact hpref (fun _ _ => rfl) rfl fun _ _ => (update_text ..).symm
  | ftpEnabled =>
    exact hftp (fun _ _ => rfl) rfl fun _ _ => (update_flag ..).symm
  | ftpHost | ftpUser | ftpPass | ftpRoot =>
    exact hftp (fun _ _ => rfl) rfl fun _ _ => (update_text ..).symm
  | ftpPort =>
    exact hftp (fun _ _ => rfl) rfl fun _ _ => (update_number16 _ _ 21 (by decide) _).symm
  | _ => cases hf

/-- A section reads its fields by their kinds. -/
theorem read_apply_own (f : Field) (sec : JsonNode) (c : Config) :
    f.read (f.place.sect.apply sec c) = f.readAt sec f.place.inner (f.read c) := by
  cases hs : f.place.sect with
  | tftp => exact read_applyTftp hs sec c
  | files => exact read_applyFiles hs sec c
  | network =>
    cases f with
    | device => exact (update_text ..).symm
    | virtualIp => exact (update_address ..).symm
    | virtualMac => exact (update_hardware ..).symm
    | promiscuous => exact (update_flag ..).symm
    | _ => cases hs
  | sessions =>
    cases f with
    | maxSessions => exact (update_number32 _ _ 64 (by decide) _).symm
    | _ => cases hs
  | security =>
    cases f with
    | aclDefaultAllow => exact (update_flag ..).symm
    | acl => rfl
    | _ => cases hs
  | logging =>
    cases f with
    | logLevel => exact (update_level ..).symm
    | _ => cases hs

/-- The sections are applied one after another. -/
theorem configApplyNode_eq (c : Config) (root : JsonNode) : configApplyNode c root =
    [Sect.network, .tftp, .files, .sessions, .security, .logging].foldl
      (fun c s => applySection root s.name s.apply c) c := rfl

/-- **What a message makes of a field.**  It depends on the object the field is read from and on what
    the field was before, and on nothing else. -/
theorem read_configApplyNode (f : Field) (c : Config) (root : JsonNode) :
    f.read (configApplyNode c root) =
      f.readAt root (f.place.sect.name :: f.place.inner) (f.read c) := by
  -- the sections after and before that of the field leave it alone
  have hothers : ∀ (ss : List Sect) (c : Config), f.place.sect ∉ ss →
      f.read (ss.foldl (fun c s => applySection root s.name s.apply c) c) = f.read c := by
    intro ss
    induction ss with
    | nil => exact fun _ _ => rfl
    | cons s ss ih =>
      intro c hnot
      rw [List.foldl_cons, ih _ fun h => hnot (List.mem_cons_of_mem s h),
        read_applySection_frame (read_apply_other fun h => hnot (h ▸ List.mem_cons_self))]
  have hsplit : ∃ before after, [Sect.network, .tftp, .files, .sessions, .security, .logging] =
      before ++ f.place.sect :: after ∧ f.place.sect ∉ before ∧ f.place.sect ∉ after := by
    cases f.place.sect with
    | network => exact ⟨[], [.tftp, .files, .sessions, .security, .logging], rfl, by decide⟩
    | tftp => exact ⟨[.network], [.files, .sessions, .security, .logging], rfl, by decide⟩
    | files => exact ⟨[.network, .tftp], [.sessions, .security, .logging], rfl, by decide⟩
    | sessions => exact ⟨[.network, .tftp, .files], [.security, .logging], rfl, by decide⟩
    | security => exact ⟨[.network, .tftp, .files, .sessions], [.logging], rfl, by decide⟩
    | logging => exact ⟨[.network, .tftp, .files, .sessions, .security], [], rfl, by decide⟩
  obtain ⟨before, after, heq, hbefore, hafter⟩ := hsplit
  rw [configApplyNode_eq, heq, List.foldl_append, List.foldl_cons, hothers after _ hafter,
    read_applySection_field (read_apply_own f), hothers before c hbefore]

end Nishro
