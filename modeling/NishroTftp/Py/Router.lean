import NishroTftp.Lib.Logins
import NishroTftp.Py.CoreCfg
import NishroTftp.Py.Session
/-
  The routing of names in the Python engine (`files/source.py`, `files/ftp_source.py`): which source
  a name leads to, and the login that source makes.

  `urlparse` is the standard library's; here it is any function from a URL to its parts, and each
  of the two (`urlparse`, the property `port`) may raise.  What an FTP source does once it is
  logged in is not modelled.
-/
namespace Nishro.Py

open Utf8 (Text text)
open Logins

def FTP_DEFAULT_PORT : Int := 21

/-! ## FTP sources -/

structure FtpSource where
  host : Str
  port : Int
  user : Str
  password : Str
  root : Str
deriving DecidableEq, Repr

/-- `FtpSource.__init__`. -/
def FtpSource.new (host : Str) (port : Int) (user password root : Str) : FtpSource :=
  ⟨host, port, user, password, if ['/'].isPrefixOf root then root else '/' :: root⟩

/-- The account of a source. -/
def FtpSource.account (s : FtpSource) : Login Str := ⟨s.host, s.port, s.user, s.password⟩

/-- `_join`; `none` where it raises. -/
def FtpSource.join (s : FtpSource) (filename : Str) : Option Str :=
  if (splitSlash (cleaned filename)).any (· == str "..") then none
  else
    let root := (s.root.reverse.dropWhile (· = '/')).reverse
    some (root ++ '/' :: cleaned filename)

/-- The login of `read`, `size` and `upload_file`: `_connect`, if the path can be joined. -/
def FtpSource.login (s : FtpSource) (filename : Str) : Option (Login Str) :=
  (s.join filename).map fun _ => s.account

/-! ## URLs -/

/-- What `urlparse` gives of a URL; reading the port can raise. -/
structure UrlParts where
  scheme : Str
  hostname : Option Str
  port : Except PyError (Option Int)
  path : Str

/-- `_parse_ftp_url`. -/
def parseFtpUrl (urlparse : Str → Except PyError UrlParts) (url : Str) :
    Except PyError (Option (Str × Int × Str)) :=
  match urlparse url with
  | .error _ => .ok none
  | .ok u =>
    match u.hostname with
    | none | some [] => .ok none
    | some host =>
      if lower u.scheme ≠ str "ftp" then .ok none
      else
        u.port.map fun port =>
          let port := match port with
            | none | some 0 => FTP_DEFAULT_PORT
            | some n => n
          some (host, port, if u.path = [] then str "/" else u.path)

/-! ## The router -/

structure RouterSource where
  primaryFtp : Option FtpSource
  prefixFtp : Option FtpSource
  trigger : Str
  folderPrefix : Str
  digitPad : Int

/-- `str(x)`, as characters. -/
def strOf (x : Json) : Str := (pyStr x).map Char.ofNat

/-- `str(d.get(key, dflt))`. -/
def strAt (d : Json) (key dflt : String) : Except PyError Str := (rawAt d key dflt).map strOf

/-- The FTP source of a block of the configuration. -/
def ftpSource (block : Json) : Except PyError FtpSource :=
  (strAt block "host" "").bind fun host =>
  (intAt block (text "port") FTP_DEFAULT_PORT).bind fun port =>
  (strAt block "user" "share").bind fun user =>
  (strAt block "password" "shared").bind fun password =>
  (strAt block "root" "/").map fun root => FtpSource.new host port user password root

/-- `build_source`, without the local source. -/
def buildSource (yaml : Json) : Except PyError RouterSource :=
  (sectionAt yaml "files").bind fun files =>
  (sectionAt files "ftp").bind fun ftp =>
  (boolAt ftp "host" false).bind fun hasHost =>
  (if hasHost then (ftpSource ftp).map some else .ok none).bind fun primary =>
  (sectionAt files "ftp_prefix").bind fun pref =>
  (boolAt pref "enabled" false).bind fun enabled =>
  if enabled then
    (strAt pref "trigger" "f::").bind fun trigger =>
    (strAt pref "folder_prefix" "BDCOM").bind fun folder =>
    (intAt pref (text "digit_pad") 4).bind fun pad =>
    (ftpSource pref).map fun src => ⟨primary, some src, trigger, folder, pad⟩
  else .ok ⟨primary, none, [], [], 4⟩

/-- The accounts of the configuration. -/
def RouterSource.accounts (s : RouterSource) : List (Login Str) :=
  (s.primaryFtp.toList ++ s.prefixFtp.toList).map FtpSource.account

def anonymousUser : Str := str "anonymous"
def anonymousPassword : Str := str "anonymous@"

/-- `_ftp_for_host`. -/
def RouterSource.ftpForHost (s : RouterSource) (host : Str) (port : Int) : FtpSource :=
  match s.primaryFtp with
  | some src =>
    if lower host = lower src.host ∧ port = src.port then src
    else FtpSource.new host port anonymousUser anonymousPassword (str "/")
  | none => FtpSource.new host port anonymousUser anonymousPassword (str "/")

/-- `s.zfill(width)` of digits. -/
def zfill (width : Int) (digits : Str) : Str :=
  List.replicate (width.toNat - digits.length) '0' ++ digits

/-- `_rewrite_prefix`. -/
def RouterSource.rewritePrefix (s : RouterSource) (filename : Str) : Option Str :=
  let rest := (filename.drop s.trigger.length).map fun c => if c = Char.ofNat 92 then '/' else c
  let digits := rest.takeWhile (· ≠ '/')
  match rest.dropWhile (· ≠ '/') with
  | [] => none
  | _ :: tail =>
    if digits = [] ∨ digits.all Char.isDigit = false then none
    else some (s.folderPrefix ++ zfill s.digitPad digits ++ '/' :: tail)

/-- The FTP source a name is routed to, with the name there; `none` for a local name and for one
    that cannot be resolved. -/
def RouterSource.resolve (s : RouterSource) (urlparse : Str → Except PyError UrlParts)
    (filename : Str) : Except PyError (Option (FtpSource × Str)) :=
  if (str "ftp://").isPrefixOf (lower filename) then
    (parseFtpUrl urlparse filename).map fun parsed =>
      parsed.map fun (host, port, path) => (s.ftpForHost host port, path.dropWhile (· = '/'))
  else
    match s.prefixFtp with
    | some src =>
      if s.trigger ≠ [] ∧ s.trigger.isPrefixOf filename = true then
        .ok ((s.rewritePrefix filename).map fun inner => (src, inner))
      else .ok none
    | none => .ok none

/-- The login of `read`, `size` and `upload`: all three route the name in the same way. -/
def RouterSource.login (s : RouterSource) (urlparse : Str → Except PyError UrlParts)
    (filename : Str) : Except PyError (Option (Login Str)) :=
  (s.resolve urlparse filename).map fun target => target.bind fun (src, inner) => src.login inner

end Nishro.Py
