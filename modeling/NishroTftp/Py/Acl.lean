import NishroTftp.Py.Protocol
/-
  Access control of the Python engine (`core/acl.py`).

  The two lists come from the `security` section of the configuration, `SecurityCfg`: a mode, the
  entries, and the services the list applies to.  `ipaddress.ip_network(text, strict=False)` is
  `parseNet`; a text it does not read is ignored by `reload`, and so is an IPv6 network here, which
  contains no IPv4 address.
-/
namespace Nishro.Py

/-! ## Networks -/

/-- An IPv4 network. -/
structure Net where
  base : UInt32
  bits : Nat
deriving DecidableEq, Repr

/-- `addr in net`. -/
def Net.contains (n : Net) (ip : UInt32) : Bool :=
  ip.toNat / 2 ^ (32 - n.bits) == n.base.toNat / 2 ^ (32 - n.bits)

def isDigits (s : Str) : Bool := s ≠ [] && s.all Char.isDigit

/-- The number a string of digits stands for. -/
def digitsVal (s : Str) : Nat := s.foldl (fun n c => n * 10 + (c.toNat - 48)) 0

/-- One octet: at most three digits, no leading zero, at most 255. -/
def parseOctet (s : Str) : Option Nat :=
  if isDigits s && s.length ≤ 3 && (s == ['0'] || s.head? != some '0') && digitsVal s ≤ 255 then
    some (digitsVal s)
  else none

def splitOn (sep : Char) : Str → List Str
  | [] => [[]]
  | c :: cs =>
    match splitOn sep cs with
    | [] => [[c]]
    | s :: ss => if c = sep then [] :: s :: ss else (c :: s) :: ss

def parseIpv4Addr (s : Str) : Option UInt32 :=
  match (splitOn '.' s).map parseOctet with
  | [some a, some b, some c, some d] => some (UInt32.ofNat (((a * 256 + b) * 256 + c) * 256 + d))
  | _ => none

/-- The prefix length a netmask, or else a hostmask, stands for. -/
def prefixOfMask (mask : UInt32) : Option Nat :=
  ((List.range 33).find? fun k => mask.toNat == 2 ^ 32 - 2 ^ (32 - k)) <|>
    (List.range 33).find? fun k => mask.toNat == 2 ^ (32 - k) - 1

/-- The part after the slash: a prefix length, or a mask. -/
def parseMask (s : Str) : Option Nat :=
  if isDigits s && digitsVal s ≤ 32 then some (digitsVal s)
  else (parseIpv4Addr s).bind prefixOfMask

/-- `ip_network(text, strict=False)`, for IPv4. -/
def parseNet (s : Str) : Option Net :=
  match splitOn '/' s with
  | [a] => (parseIpv4Addr a).map fun ip => ⟨ip, 32⟩
  | [a, m] => (parseIpv4Addr a).bind fun ip => (parseMask m).map fun bits => ⟨ip, bits⟩
  | _ => none

/-! ## The ACL -/

/-- The `mode` of a list; any other text neither allows nor denies. -/
inductive Mode
  | disabled
  | whitelist
  | blacklist
  | other
deriving DecidableEq, Repr

def Mode.ofStr (s : Str) : Mode :=
  let s := lower s
  if s = str "disabled" then .disabled
  else if s = str "whitelist" then .whitelist
  else if s = str "blacklist" then .blacklist
  else .other

/-- One list of the `security` section. -/
structure AclSection (α : Type) where
  mode : Str
  list : List α
  applyTo : List Str

/-- The `security` section: VLAN ids, and addresses or networks as text. -/
structure SecurityCfg where
  vlanAcl : AclSection Int
  ipAcl : AclSection Str

structure ACL where
  vlanMode : Mode
  vlanList : List Int
  vlanApply : List Str
  ipMode : Mode
  ipNets : List Net
  ipApply : List Str

/-- `ACL.reload`. -/
def ACL.reload (sec : SecurityCfg) : ACL where
  vlanMode := .ofStr sec.vlanAcl.mode
  vlanList := sec.vlanAcl.list
  vlanApply := sec.vlanAcl.applyTo.map lower
  ipMode := .ofStr sec.ipAcl.mode
  ipNets := sec.ipAcl.list.filterMap parseNet
  ipApply := sec.ipAcl.applyTo.map lower

/-- The reason a packet is turned away. -/
inductive Denial
  | vlan
  | ip
deriving DecidableEq, Repr

/-- Does a list in this mode turn away what is (not) in it? -/
def Mode.denies (mode : Mode) (inList : Bool) : Bool :=
  match mode with
  | .whitelist => ! inList
  | .blacklist => inList
  | .disabled | .other => false

/-- The VLAN list applies to the service and turns the tag away; untagged counts as 0. -/
def ACL.vlanDenies (acl : ACL) (service : Str) (vlan : Option Int) : Bool :=
  acl.vlanApply.contains (lower service) && acl.vlanMode.denies (acl.vlanList.contains (vlan.getD 0))

/-- The address list applies to the service and turns the source away. -/
def ACL.ipDenies (acl : ACL) (service : Str) (ip : UInt32) : Bool :=
  acl.ipApply.contains (lower service) && acl.ipMode.denies (acl.ipNets.any (·.contains ip))

/-- `ACL.check`. -/
def ACL.check (acl : ACL) (service : Str) (vlan : Option Int) (ip : UInt32) : Option Denial :=
  if acl.vlanDenies service vlan then some .vlan
  else if acl.ipDenies service ip then some .ip
  else none

/-- `ACL.allow`. -/
def ACL.allow (acl : ACL) (service : Str) (vlan : Option Int) (ip : UInt32) : Bool :=
  acl.check service vlan ip == none

theorem ACL.allow_eq (acl : ACL) (service : Str) (vlan : Option Int) (ip : UInt32) :
    acl.allow service vlan ip =
      (! acl.vlanDenies service vlan && ! acl.ipDenies service ip) := by
  unfold ACL.allow ACL.check
  cases acl.vlanDenies service vlan <;> cases acl.ipDenies service ip <;> rfl

example : parseNet (str "10.1.2.3/255.255.0.0") = some ⟨0x0A010203, 16⟩ := by decide
example : parseNet (str "10.01.2.3") = none := by decide

end Nishro.Py
