import NishroTftp.Lib.JsonDumps
import NishroTftp.Py.Value
/-
  What the parent tells the C engine of its configuration: `_yaml_to_core_cfg` in `core/engine.py`.

  The argument is the YAML configuration as a dict.  Values that the translation passes through
  (names, addresses, folders, access rules) stay whatever they are; numbers and switches go
  through `int` and `bool`.  A folder prefix that is not a scalar is written as it is in JSON (the
  source writes its `repr`).
-/
namespace Nishro.Py

open Utf8 (Text text)

/-! ## Reading a dict -/

/-- `bool(d.get(key, dflt))`. -/
def boolAt (d : Json) (key : String) (dflt : Bool) : Except PyError Bool :=
  (dictGet d (text key)).map fun
    | none => dflt
    | some x => truthy x

/-- `int(d.get(key, dflt) or dflt)`. -/
def intOrAt (d : Json) (key : String) (dflt : Int) : Except PyError Int :=
  (dictGet d (text key)).bind fun
    | none => .ok dflt
    | some x => if truthy x then toInt x else .ok dflt

/-- `d.get(key, dflt)`, whatever it is. -/
def rawAt (d : Json) (key : String) (dflt : String) : Except PyError Json :=
  (dictGet d (text key)).map (·.getD (.str (text dflt)))

/-- `d.get(key, dflt) or dflt`. -/
def rawOrAt (d : Json) (key : String) (dflt : String) : Except PyError Json :=
  (dictGet d (text key)).map fun
    | none => .str (text dflt)
    | some x => if truthy x then x else .str (text dflt)

/-- `d.get(key, {}) or {}`. -/
def sectionAt (d : Json) (key : String) : Except PyError Json := (dictGet d (text key)).map orEmpty

/-- `str(x)`. -/
def pyStr : Json → Text
  | .null => text "None"
  | .bool b => text (if b then "True" else "False")
  | .int n => Json.numeral n
  | .float lexeme => lexeme
  | .str s => s
  | .arr xs => Json.dumps (.arr xs)
  | .obj ms => Json.dumps (.obj ms)

/-- `s.lower()`, on ASCII letters. -/
def lowerText (s : Text) : Text := s.map fun c => if 65 ≤ c ∧ c ≤ 90 then c + 32 else c

/-- `for r in x`: what a list, a string or a dict goes through. -/
def iterate : Json → Except PyError (List Json)
  | .arr xs => .ok xs
  | .str s => .ok (s.map fun c => .str [c])
  | .obj ms => .ok (ms.map fun m => .str m.1)
  | .null | .bool _ | .int _ | .float _ => .error .typeError

/-! ## The sections -/

def networkSection (net : Json) : Except PyError Json :=
  (rawOrAt net "nic" "").bind fun nic =>
  (rawOrAt net "virtual_ip" "").bind fun virtualIp =>
  (rawOrAt net "virtual_mac" "").bind fun virtualMac =>
  (boolAt net "promiscuous" true).map fun promiscuous =>
    .obj [(text "nic", nic), (text "virtual_ip", virtualIp), (text "virtual_mac", virtualMac),
      (text "promiscuous", .bool promiscuous)]

/-- `_limpair`. -/
def limpair (limits defaults : Json) (keyMin keyMax dfltKey : String) : Except PyError Json :=
  (intOrZeroAt limits (text keyMin)).bind fun lo =>
  (intOrZeroAt limits (text keyMax)).bind fun hi =>
  (intOrZeroAt defaults (text dfltKey)).map fun dflt =>
    .obj [(text "min", .int lo), (text "max", .int hi), (text "default", .int dflt)]

def tftpSection (tftp : Json) : Except PyError Json :=
  (sectionAt tftp "defaults").bind fun defaults =>
  (sectionAt tftp "limits").bind fun limits =>
  (intOrAt tftp "listen_port" 69).bind fun port =>
  (boolAt tftp "enable_writes" false).bind fun wrqEnabled =>
  (limpair limits defaults "blksize_min" "blksize_max" "blksize").bind fun blksize =>
  (limpair limits defaults "windowsize_min" "windowsize_max" "windowsize").bind fun windowsize =>
  (limpair limits defaults "timeout_min" "timeout_max" "timeout").map fun timeout =>
    .obj [(text "port", .int port), (text "wrq_enabled", .bool wrqEnabled),
      (text "options", .obj [(text "blksize", blksize), (text "windowsize", windowsize),
        (text "timeout", timeout)])]

/-- `"{}%0{}u".format(...)`. -/
def folderFmt (pref : Json) : Except PyError Text :=
  (rawAt pref "folder_prefix" "BDCOM").bind fun folder =>
  (intOrAt pref "digit_pad" 4).map fun pad => pyStr folder ++ text "%0" ++ Json.numeral pad ++ text "u"

def prefixSection (pref : Json) : Except PyError Json :=
  (boolAt pref "enabled" false).bind fun enabled =>
  (rawAt pref "trigger" "f::").bind fun trigger =>
  (folderFmt pref).map fun fmt =>
    .obj [(text "enabled", .bool enabled), (text "trigger", trigger), (text "folder_fmt", .str fmt)]

def ftpSection (ftp : Json) : Except PyError Json :=
  (boolAt ftp "host" false).bind fun enabled =>
  (rawAt ftp "host" "").bind fun host =>
  (intOrAt ftp "port" 21).bind fun port =>
  (rawAt ftp "user" "").bind fun user =>
  (rawAt ftp "password" "").bind fun pass =>
  (rawAt ftp "root" "/").map fun root =>
    .obj [(text "enabled", .bool enabled), (text "host", host), (text "port", .int port),
      (text "user", user), (text "pass", pass), (text "root", root)]

def filesSection (files : Json) : Except PyError Json :=
  (sectionAt files "local").bind fun localCfg =>
  (sectionAt files "ftp").bind fun ftp =>
  (sectionAt files "ftp_prefix").bind fun pref =>
  (rawAt localCfg "root" "./tftp_root").bind fun rrqRoot =>
  (rawAt files "write_root" "./tftp_uploads").bind fun wrqRoot =>
  (boolAt localCfg "recursive" true).bind fun recursive =>
  (intOrZeroAt files (text "max_rrq_size")).bind fun maxRrq =>
  (intOrZeroAt files (text "max_wrq_size")).bind fun maxWrq =>
  (intOrZeroAt files (text "max_ftp_size")).bind fun maxFtp =>
  (boolAt files "allow_wrq_ftp" false).bind fun allowWrqFtp =>
  (prefixSection pref).bind fun prefOut =>
  (ftpSection ftp).map fun ftpOut =>
    .obj [(text "rrq_root", rrqRoot), (text "wrq_root", wrqRoot),
      (text "rrq_recursive", .bool recursive), (text "max_rrq_size", .int maxRrq),
      (text "max_wrq_size", .int maxWrq), (text "max_ftp_size", .int maxFtp),
      (text "allow_wrq_ftp", .bool allowWrqFtp), (text "prefix", prefOut), (text "ftp", ftpOut)]

/-- The rules of one access list: none when it is disabled, else its entries as they are. -/
def aclRules (acl : Json) : Except PyError (List Json) :=
  (dictGet acl (text "mode")).bind fun mode =>
  match mode with
  | some (.str w) =>
    if w = [] ∨ w = text "disabled" then .ok [] else (dictGet acl (text "list")).bind entries
  | some x => if truthy x then (dictGet acl (text "list")).bind entries else .ok []
  | none => .ok []
where
  /-- `acl.get("list", []) or []`, gone through. -/
  entries : Option Json → Except PyError (List Json)
    | none => .ok []
    | some x => if truthy x then iterate x else .ok []

def securitySection (sec : Json) : Except PyError Json :=
  (sectionAt sec "vlan_acl").bind fun vlanAcl =>
  (sectionAt sec "ip_acl").bind fun ipAcl =>
  (aclRules vlanAcl).bind fun vlanRules =>
  (aclRules ipAcl).map fun ipRules =>
    .obj [(text "default_allow", .bool true), (text "rules", .arr (vlanRules ++ ipRules))]

/-- `(logc.get("level", "INFO") or "INFO").lower()`; only a string has `lower`. -/
def loggingSection (logc : Json) : Except PyError Json :=
  (rawOrAt logc "level" "INFO").bind fun
    | .str s => .ok (.obj [(text "level", .str (lowerText s))])
    | _ => .error .attributeError

/-- `_yaml_to_core_cfg`. -/
def yamlToCoreCfg (cfg : Json) : Except PyError Json :=
  (sectionAt cfg "network").bind fun net =>
  (sectionAt cfg "tftp").bind fun tftp =>
  (sectionAt cfg "files").bind fun files =>
  (sectionAt cfg "sessions").bind fun sess =>
  (sectionAt cfg "security").bind fun sec =>
  (sectionAt cfg "logging").bind fun logc =>
  (networkSection net).bind fun network =>
  (tftpSection tftp).bind fun tftpOut =>
  (filesSection files).bind fun filesOut =>
  (intOrAt sess "max_concurrent" 64).bind fun maxConcurrent =>
  (securitySection sec).bind fun security =>
  (loggingSection logc).map fun logging =>
    .obj [(text "network", network), (text "tftp", tftpOut), (text "files", filesOut),
      (text "sessions", .obj [(text "max", .int maxConcurrent)]), (text "security", security),
      (text "logging", logging)]

end Nishro.Py
