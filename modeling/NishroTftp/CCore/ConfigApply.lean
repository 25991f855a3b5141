import NishroTftp.CCore.Config
import NishroTftp.CCore.Json
/-
  How a configuration message changes the configuration of the C engine: `config_apply_node` and
  its helpers in `c_core/config.c`, the address parsers of `c_core/util.c`, and the branch of
  `on_ipc_line` (`c_core/main.c`) that calls it.

  A buffer that `jn_get_str` fails to fill holds the empty string afterwards, so a field that is
  read straight into the configuration is cleared when it is missing.
-/
namespace Nishro.CCore

open Nishro.Decimal

/-! ## Addresses -/

/-- One `%u` of `sscanf`: blanks, a sign, digits; the number modulo 2 ^ 32. -/
def scanU (s : Bytes) : Option (Nat × Bytes) :=
  let s := s.dropWhile isspace
  let neg := s.head? == some 45
  let body := if neg || s.head? == some 43 then s.tail else s
  let ds := body.takeWhile isDigit
  if ds = [] then none
  else some (((if neg then -(ofDecimal ds : Int) else ofDecimal ds) % 2 ^ 32).toNat,
    body.dropWhile isDigit)

def hexValue (c : UInt8) : Option Nat :=
  if isDigit c then some (c.toNat - 48)
  else if 97 ≤ c ∧ c ≤ 102 then some (c.toNat - 87)
  else if 65 ≤ c ∧ c ≤ 70 then some (c.toNat - 55)
  else none

/-- One `%x` of `sscanf`: blanks, a sign, an optional `0x`, hexadecimal digits. -/
def scanX (s : Bytes) : Option (Nat × Bytes) :=
  let s := s.dropWhile isspace
  let neg := s.head? == some 45
  let body := if neg || s.head? == some 43 then s.tail else s
  let body := if body.head? = some 48 ∧ (body.drop 1).head?.any (fun c => c == 120 || c == 88) ∧
    ((body.drop 2).head?.bind hexValue).isSome then body.drop 2 else body
  let ds := body.takeWhile fun c => (hexValue c).isSome
  if ds = [] then none
  else
    let n : Int := ds.foldl (fun n c => n * 16 + (hexValue c).getD 0) 0
    some (((if neg then -n else n) % 2 ^ 32).toNat, body.dropWhile fun c => (hexValue c).isSome)

/-- `sscanf` of `k + 1` numbers with the byte `sep` between them; what follows does not matter. -/
def scanSeparated (scan : Bytes → Option (Nat × Bytes)) (sep : UInt8) :
    Nat → Bytes → Option (List Nat)
  | 0, s => (scan s).map fun r => [r.1]
  | k + 1, s =>
    match scan s with
    | some (n, c :: rest) =>
      if c = sep then (scanSeparated scan sep k rest).map (n :: ·) else none
    | _ => none

/-- `parse_ipv4`; `none` is `-1`. -/
def parseIpv4Text (s : Bytes) : Option UInt32 :=
  match scanSeparated scanU 46 3 s with
  | some [a, b, c, d] =>
    if 255 < a ∨ 255 < b ∨ 255 < c ∨ 255 < d then none
    else some (UInt32.ofNat (((a * 256 + b) * 256 + c) * 256 + d))
  | _ => none

/-- `parse_mac` into `out`: the bytes before one that is too large are already written. -/
def parseMac (s : Bytes) (out : Mac) : Mac :=
  match (scanSeparated scanX 58 5 s).or (scanSeparated scanX 45 5 s) with
  | none => out
  | some bs =>
    let ok := bs.takeWhile (· ≤ 0xFF)
    Vector.ofFn fun i => ((ok[i.val]?).map UInt8.ofNat).getD (out.get i)

/-! ## Access rules -/

/-- `(uint16_t)d`: the target converts to 32 bits, `INT_MIN` out of range, and keeps the low 16. -/
def Double.toUInt16 (d : Double) : UInt16 :=
  match d.trunc with
  | some n => if -2 ^ 31 ≤ n ∧ n < 2 ^ 31 then UInt16.ofInt n else 0
  | none => 0

/-- `get_vlan_field`. -/
def getVlanField (r : JsonNode) : UInt16 :=
  match jnField r "vlan" with
  | some (.str src) =>
    let buf := jnStrCopy src 16
    if buf = [] ∨ buf = ascii "any" ∨ buf = ascii "*" then VLAN_NONE
    else UInt16.ofInt (strtol LONG_LIM buf)
  | some (.num _ n) => n.toUInt16
  | _ => VLAN_NONE

/-- The address and the mask length of a rule; zero of both is "any". -/
def ruleNetwork (ipbuf : Bytes) : UInt32 × UInt8 :=
  if ipbuf = [] then (0, 0)
  else
    let addr := ipbuf.takeWhile (· ≠ 47)
    let mask := if 47 ∈ ipbuf then strtol LONG_LIM ((ipbuf.dropWhile (· ≠ 47)).drop 1) else 32
    match parseIpv4Text addr with
    | some ip => (ip, UInt8.ofInt mask)
    | none => (0, 0)

/-- One round of `apply_acl`, for an object. -/
def readRule (r : JsonNode) : AclRule :=
  let net := ruleNetwork ((jnGetStr r "ip" 64).getD [])
  let svc (name : String) : Bool :=
    match jnField r "services" with
    | some (.obj ms) => jnGetBool (.obj ms) name true
    | _ => true
  { vlan := getVlanField r
    ip := net.1
    maskBits := net.2
    allow := jnGetBool r "allow" true
    svcArp := svc "arp"
    svcIcmp := svc "icmp"
    svcTftp := svc "tftp" }

/-- The rule of an element; anything but an object is skipped. -/
def ruleOf : JsonNode → Option AclRule
  | .obj ms => some (readRule (.obj ms))
  | _ => none

/-- `apply_acl`: as many rules as there is room for. -/
def applyAcl (arr : Option JsonNode) : List AclRule :=
  match arr with
  | some (.arr children) => (children.filterMap ruleOf).take MAX_ACL_RULES
  | _ => []

/-! ## Sections -/

/-- A section that is present and an object. -/
def jnObject (root : JsonNode) (key : String) : Option JsonNode :=
  match jnField root key with
  | some (.obj ms) => some (.obj ms)
  | _ => none

def applyNetwork (net : JsonNode) (c : Config) : Config :=
  let ip := (jnGetStr net "virtual_ip" MAX_PATHLEN).getD []
  let mac := (jnGetStr net "virtual_mac" 32).getD []
  { c with
    device := (jnGetStr net "nic" 256).getD []
    virtualIp := if ip = [] then c.virtualIp else (parseIpv4Text ip).getD c.virtualIp
    virtualMac := if mac = [] then c.virtualMac else parseMac mac c.virtualMac
    promiscuous := jnGetBool net "promiscuous" true }

/-- `min`, `max` and `default` of one option, as `uint32_t`; what is missing stays. -/
def limitOf (opts : JsonNode) (key field : String) (current : UInt32) : UInt32 :=
  match jnObject opts key with
  | some pair => UInt32.ofInt (jnGetInt pair field current.toNat)
  | none => current

def applyTftp (tftp : JsonNode) (c : Config) : Config :=
  let c := { c with
    tftpPort := UInt16.ofInt (jnGetInt tftp "port" 69)
    wrqEnabled := jnGetBool tftp "wrq_enabled" false }
  match jnObject tftp "options" with
  | none => c
  | some opts =>
    { c with
      blksizeMin := limitOf opts "blksize" "min" c.blksizeMin
      blksizeMax := limitOf opts "blksize" "max" c.blksizeMax
      blksizeDefault := limitOf opts "blksize" "default" c.blksizeDefault
      windowsizeMin := limitOf opts "windowsize" "min" c.windowsizeMin
      windowsizeMax := limitOf opts "windowsize" "max" c.windowsizeMax
      windowsizeDefault := limitOf opts "windowsize" "default" c.windowsizeDefault
      timeoutMin := limitOf opts "timeout" "min" c.timeoutMin
      timeoutMax := limitOf opts "timeout" "max" c.timeoutMax
      timeoutDefault := limitOf opts "timeout" "default" c.timeoutDefault }

def applyPrefix (pref : JsonNode) (c : Config) : Config :=
  { c with
    prefixEnabled := jnGetBool pref "enabled" false
    prefixTrigger := (jnGetStr pref "trigger" 16).getD []
    prefixFolderFmt := (jnGetStr pref "folder_fmt" 64).getD [] }

def applyFtp (ftp : JsonNode) (c : Config) : Config :=
  { c with
    ftpEnabled := jnGetBool ftp "enabled" false
    ftpHost := (jnGetStr ftp "host" 256).getD []
    ftpPort := UInt16.ofInt (jnGetInt ftp "port" 21)
    ftpUser := (jnGetStr ftp "user" 128).getD []
    ftpPass := (jnGetStr ftp "pass" 128).getD []
    ftpRoot := (jnGetStr ftp "root" MAX_PATHLEN).getD [] }

def applyFiles (files : JsonNode) (c : Config) : Config :=
  let c := { c with
    rrqRoot := (jnGetStr files "rrq_root" MAX_PATHLEN).getD []
    wrqRoot := (jnGetStr files "wrq_root" MAX_PATHLEN).getD []
    rrqRecursive := jnGetBool files "rrq_recursive" false
    maxRrqSize := UInt64.ofInt (jnGetInt files "max_rrq_size" 0)
    maxWrqSize := UInt64.ofInt (jnGetInt files "max_wrq_size" 0)
    maxFtpSize := UInt64.ofInt (jnGetInt files "max_ftp_size" 0)
    allowWrqFtp := jnGetBool files "allow_wrq_ftp" false }
  let c := match jnObject files "prefix" with
    | some pref => applyPrefix pref c
    | none => c
  match jnObject files "ftp" with
  | some ftp => applyFtp ftp c
  | none => c

def applySessions (sess : JsonNode) (c : Config) : Config :=
  { c with maxSessions := UInt32.ofInt (jnGetInt sess "max" 64) }

def applySecurity (sec : JsonNode) (c : Config) : Config :=
  { c with
    aclDefaultAllow := jnGetBool sec "default_allow" true
    acl := applyAcl (jnField sec "rules") }

def applyLogging (log : JsonNode) (c : Config) : Config :=
  let lv := (jnGetStr log "level" 16).getD []
  { c with
    logLevel :=
      if lv = ascii "debug" then LOG_DEBUG
      else if lv = ascii "info" then LOG_INFO
      else if lv = ascii "warn" then LOG_WARN
      else if lv = ascii "error" then LOG_ERROR
      else c.logLevel }

/-- Apply a section if it is there. -/
def applySection (root : JsonNode) (key : String) (apply : JsonNode → Config → Config)
    (c : Config) : Config :=
  match jnObject root key with
  | some sec => apply sec c
  | none => c

/-- `config_apply_node`. -/
def configApplyNode (c : Config) (root : JsonNode) : Config :=
  applySection root "logging" applyLogging <|
  applySection root "security" applySecurity <|
  applySection root "sessions" applySessions <|
  applySection root "files" applyFiles <|
  applySection root "tftp" applyTftp <|
  applySection root "network" applyNetwork c

/-- `on_ipc_line` as far as it changes the configuration: a line that is not JSON, not a "config"
    message or without an object as its data changes nothing. -/
def onIpcLine (c : Config) (line : Bytes) : Config :=
  match jsonParse line with
  | .error _ => c
  | .ok root =>
    if (jnGetStr root "op" 32).getD [] = ascii "config" then
      match jnObject root "data" with
      | some data => configApplyNode c data
      | none => c
    else c

end Nishro.CCore
