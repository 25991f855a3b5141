import NishroTftp.CCore.Tftp
/-
  The C engine's configuration (`c_core/config.h`, `config_defaults`) and the rule evaluator that
  reads its ACL (`c_core/acl.c`).

  An IPv4 address (`*_be` in the source: four bytes in network order) is the number those four
  bytes spell, so the `__builtin_bswap32` of `ip_in_cidr` is the identity here.  A `char[n]` field
  is its NUL-terminated content.
-/
namespace Nishro.CCore

def MAX_ACL_RULES : Nat := 64
def MAX_PATHLEN : Nat := 512

/-- "no tag / untagged", and "any" in a rule. -/
def VLAN_NONE : UInt16 := 0xFFFF

structure AclRule where
  vlan : UInt16
  ip : UInt32
  maskBits : UInt8
  allow : Bool
  svcArp : Bool
  svcIcmp : Bool
  svcTftp : Bool
deriving DecidableEq, Repr

structure Config where
  device : Bytes
  virtualIp : UInt32
  virtualMac : Mac
  promiscuous : Bool
  tftpPort : UInt16
  wrqEnabled : Bool
  allowWrqFtp : Bool
  rrqRoot : Bytes
  wrqRoot : Bytes
  rrqRecursive : Bool
  maxRrqSize : UInt64
  maxWrqSize : UInt64
  maxFtpSize : UInt64
  blksizeMin : UInt32
  blksizeMax : UInt32
  blksizeDefault : UInt32
  windowsizeMin : UInt32
  windowsizeMax : UInt32
  windowsizeDefault : UInt32
  timeoutMin : UInt32
  timeoutMax : UInt32
  timeoutDefault : UInt32
  maxSessions : UInt32
  acl : List AclRule
  aclDefaultAllow : Bool
  prefixEnabled : Bool
  prefixTrigger : Bytes
  prefixFolderFmt : Bytes
  ftpEnabled : Bool
  ftpHost : Bytes
  ftpPort : UInt16
  ftpUser : Bytes
  ftpPass : Bytes
  ftpRoot : Bytes
  logLevel : Nat
deriving DecidableEq, Repr

def LOG_DEBUG : Nat := 0
def LOG_INFO : Nat := 1
def LOG_WARN : Nat := 2
def LOG_ERROR : Nat := 3

/-- `config_defaults` (every field it does not name is zeroed). -/
def configDefaults : Config where
  device := []
  virtualIp := 0
  virtualMac := Vector.replicate 6 0
  promiscuous := true
  tftpPort := 69
  wrqEnabled := false
  allowWrqFtp := false
  rrqRoot := ascii ".\\tftp_root"
  wrqRoot := ascii ".\\tftp_uploads"
  rrqRecursive := false
  maxRrqSize := 0
  maxWrqSize := 0
  maxFtpSize := 0
  blksizeMin := 8
  blksizeMax := 65464
  blksizeDefault := 1468
  windowsizeMin := 1
  windowsizeMax := 64
  windowsizeDefault := 32
  timeoutMin := 1
  timeoutMax := 255
  timeoutDefault := 5
  maxSessions := 64
  acl := []
  aclDefaultAllow := true
  prefixEnabled := false
  prefixTrigger := ascii "f::"
  prefixFolderFmt := ascii "BDCOM%04u"
  ftpEnabled := false
  ftpHost := []
  ftpPort := 21
  ftpUser := []
  ftpPass := []
  ftpRoot := []
  logLevel := LOG_INFO

/-! ## `acl.c` -/

/-- The services a rule can be scoped to. -/
inductive Svc
  | arp
  | icmp
  | tftp
deriving DecidableEq, Repr

/-- Does `ip` lie in the network of length `bits` around `net`? -/
def ipInCidr (ip net : UInt32) (bits : UInt8) : Bool :=
  if bits = 0 then true
  else
    let bits := if 32 < bits then 32 else bits
    let mask : UInt32 := if bits = 32 then 0xFFFFFFFF else 0xFFFFFFFF <<< (32 - bits.toUInt32)
    (ip &&& mask) == (net &&& mask)

def AclRule.svcMatch (r : AclRule) : Svc → Bool
  | .arp => r.svcArp
  | .icmp => r.svcIcmp
  | .tftp => r.svcTftp

/-- Does rule `r` apply to this service, VLAN and address? -/
def AclRule.applies (r : AclRule) (vlan : UInt16) (ip : UInt32) (svc : Svc) : Bool :=
  r.svcMatch svc && (r.vlan == VLAN_NONE || r.vlan == vlan) &&
    (r.maskBits == 0 || ipInCidr ip r.ip r.maskBits)

/-- `acl_allowed`: the first rule that applies decides, else the default. -/
def aclAllowed (cfg : Config) (vlan : UInt16) (ip : UInt32) (svc : Svc) : Bool :=
  match cfg.acl.find? fun r => r.applies vlan ip svc with
  | some r => r.allow
  | none => cfg.aclDefaultAllow

end Nishro.CCore
