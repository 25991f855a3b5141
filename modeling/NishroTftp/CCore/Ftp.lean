import NishroTftp.CCore.Config
import NishroTftp.Lib.Logins
/-
  The FTP side of the file sources of the C engine (`c_core/source.c`): which server a name leads
  to, and as whom the engine logs in there.

  A name is an `ftp://` URL, starts with the trigger of the configuration, or is local.  What
  `snprintf` makes of the configured folder format is the C library's (`Libc.format`); it only
  goes into the path.  `src_open_write` does not look at what `rewrite_prefix` returns, so the
  buffer it then uses may hold whatever was on the stack (`Libc.stack`).
-/
namespace Nishro.CCore

open Nishro.Decimal Nishro.Logins

/-- What the sources get from outside. -/
structure Libc where
  /-- `snprintf(…, fmt, n)`, before it is cut -/
  format : Bytes → Nat → Bytes
  /-- an uninitialised `char[MAX_PATHLEN]`, up to its first NUL -/
  stack : Bytes
  /-- the staging file can be opened -/
  stages : Bool

/-- What is left of a text in a `char[cap]`. -/
def cut (cap : Nat) (s : Bytes) : Bytes := s.take (cap - 1)

/-- `atoi`. -/
def atoi (s : Bytes) : Int := strtol LONG_LIM s

/-- `has_ftp_url`. -/
def hasFtpUrl : Bytes → Bool
  | a :: b :: c :: d :: e :: f :: _ =>
    a ||| 32 == 102 && b ||| 32 == 116 && c ||| 32 == 112 && d == 58 && e == 47 && f == 47
  | _ => false

/-- Is this the trigger's turn? -/
def triggered (cfg : Config) (fn : Bytes) : Bool :=
  cfg.prefixEnabled && cfg.prefixTrigger != [] && cfg.prefixTrigger.isPrefixOf fn

/-- `rewrite_prefix`: `<trigger><N>/<path>` to a path below the FTP root. -/
def rewritePrefix (cfg : Config) (libc : Libc) (cap : Nat) (fn : Bytes) : Option Bytes :=
  let p := fn.drop cfg.prefixTrigger.length
  let digits := (p.takeWhile isDigit).take 15
  if digits = [] then none
  else
    match p.drop digits.length with
    | [] => none
    | c :: tail =>
      if c ≠ 47 ∧ c ≠ 92 then none
      else
        let folder := cut 64 (libc.format cfg.prefixFolderFmt (atoi digits).toNat)
        some (cut cap (if cfg.ftpRoot ≠ [] then cfg.ftpRoot ++ [47] ++ folder ++ [47] ++ tail
          else folder ++ [47] ++ tail))

/-- `parse_ftp_url`: host, port and path. -/
def parseFtpUrl (url : Bytes) : Option (Bytes × UInt16 × Bytes) :=
  let p := url.drop 6
  let hostPort := p.takeWhile (· != 47)
  match p.dropWhile (· != 47) with
  | [] => none
  | _ :: path =>
    if 256 ≤ hostPort.length then none
    else
      let port := match hostPort.dropWhile (· != 58) with
        | [] => 21
        | _ :: digits => UInt16.ofInt (atoi digits)
      some (hostPort.takeWhile (· != 58), port, cut MAX_PATHLEN path)

/-- The URL of a path on the configured server. -/
def configuredUrl (cfg : Config) (cap : Nat) (remote : Bytes) : Bytes :=
  cut cap (ascii "ftp://" ++ cfg.ftpHost ++ [58] ++ decimal cfg.ftpPort.toNat ++ [47] ++ remote)

/-- The login `ftp_download` and `ftp_upload` are called for: it is always the configured user's. -/
def loginAt (cfg : Config) (url : Bytes) : Option (Login Bytes) :=
  (parseFtpUrl url).map fun (host, port, _) => ⟨host, port.toNat, cfg.ftpUser, cfg.ftpPass⟩

/-- The login of `src_open_read`, if it makes one.  A name with the trigger enters the function
    again, as the URL it stands for. -/
def srcOpenReadLogin (cfg : Config) (libc : Libc) (fn : Bytes) : Option (Login Bytes) :=
  if hasFtpUrl fn then if cfg.ftpEnabled then loginAt cfg fn else none
  else if triggered cfg fn then
    if cfg.ftpEnabled then
      (rewritePrefix cfg libc MAX_PATHLEN fn).bind fun remote =>
        loginAt cfg (configuredUrl cfg (MAX_PATHLEN + 64) remote)
    else none
  else none

/-- `s->remote` after `src_open_write`, for a source that is staged for FTP. -/
def srcOpenWriteRemote (cfg : Config) (libc : Libc) (fn : Bytes) : Option Bytes :=
  if hasFtpUrl fn || triggered cfg fn then
    if cfg.allowWrqFtp && libc.stages then
      if hasFtpUrl fn then some (cut MAX_PATHLEN fn)
      else
        let r := (rewritePrefix cfg libc MAX_PATHLEN fn).getD libc.stack
        some (configuredUrl cfg MAX_PATHLEN r)
    else none
  else none

/-- The login of `src_commit_write`, under the configuration of its own time. -/
def srcCommitWriteLogin (cfg : Config) (remote : Bytes) : Option (Login Bytes) := loginAt cfg remote

/-! ## The configured server -/

/-- `atoi` of digits, up to the largest `int`. -/
theorem atoi_digits {s : Bytes} (hne : s ≠ []) (hdigits : ∀ c ∈ s, isDigit c = true) :
    atoi s = (min (ofDecimal s) (LONG_LIM - 1) : Nat) := by
  obtain ⟨d, ds, hds⟩ := List.exists_cons_of_ne_nil hne
  have hd := (isDigit_iff d).1 (hdigits d (by simp [hds]))
  obtain ⟨hspace, hminus, hplus⟩ := lead_plain hd.1
  obtain ⟨htake, -⟩ := span_all hdigits
  have hdrop : s.dropWhile isspace = d :: ds := by
    rw [hds, List.dropWhile_cons, if_neg (by simp [hspace])]
  rw [atoi, strtol, hdrop]
  simp only [beq_iff_eq, hminus, hplus, if_false, ← hds, htake]

/-- `atoi` reads back what `%u` wrote. -/
theorem atoi_decimal {n : Nat} (h : n < LONG_LIM) : atoi (decimal n) = n := by
  rw [atoi_digits (decimal_ne_nil n) (decimal_digits n), ofDecimal_decimal]
  omega

/-- A host that a URL can carry: no slash, no colon, and room for a port after it. -/
structure PlainHost (host : Bytes) : Prop where
  plain : ∀ c ∈ host, c ≠ 47 ∧ c ≠ 58
  short : host.length < 250

/-- The configured server as a URL names it. -/
def hostPort (cfg : Config) : Bytes := cfg.ftpHost ++ 58 :: decimal cfg.ftpPort.toNat

theorem hostPort_noSlash {cfg : Config} (hplain : ∀ c ∈ cfg.ftpHost, c ≠ 47 ∧ c ≠ 58) :
    ∀ c ∈ hostPort cfg, (c != 47) = true := by
  intro c hc
  simp only [hostPort, List.mem_append, List.mem_cons] at hc
  rcases hc with hc | rfl | hc
  · simpa using (hplain c hc).1
  · decide
  · have := decimal_digits _ c hc
    simp only [bne_iff_ne, ne_eq]
    rintro rfl
    exact absurd this (by decide)

/-- A URL of the configured server is taken apart again. -/
theorem parseFtpUrl_url {cfg : Config} (hplain : ∀ c ∈ cfg.ftpHost, c ≠ 47 ∧ c ≠ 58)
    (hshort : (hostPort cfg).length < 256) (rest : Bytes) :
    parseFtpUrl (ascii "ftp://" ++ (hostPort cfg ++ 47 :: rest)) =
      some (cfg.ftpHost, cfg.ftpPort, cut MAX_PATHLEN rest) := by
  have hport := cfg.ftpPort.toNat_lt
  have hnoslash := hostPort_noSlash hplain
  have hnocolon : ∀ c ∈ cfg.ftpHost, (c != 58) = true := by
    intro c hc
    simpa using (hplain c hc).2
  have hdrop : (ascii "ftp://" ++ (hostPort cfg ++ 47 :: rest)).drop 6 =
      hostPort cfg ++ 47 :: rest := rfl
  obtain ⟨hpart, hpath⟩ : (hostPort cfg ++ 47 :: rest).takeWhile (· != 47) = hostPort cfg ∧
      (hostPort cfg ++ 47 :: rest).dropWhile (· != 47) = 47 :: rest :=
    span_stops hnoslash (stops_cons (by decide) rest)
  obtain ⟨hname, hcolon⟩ : (hostPort cfg).takeWhile (· != 58) = cfg.ftpHost ∧
      (hostPort cfg).dropWhile (· != 58) = 58 :: decimal cfg.ftpPort.toNat :=
    span_stops hnocolon (stops_cons (by decide) _)
  have hback : UInt16.ofInt (atoi (decimal cfg.ftpPort.toNat)) = cfg.ftpPort := by
    have hmod : (((cfg.ftpPort.toNat : Int)) % 2 ^ 16).toNat = cfg.ftpPort.toNat := by omega
    rw [atoi_decimal (Nat.lt_trans hport (by decide)), UInt16.ofInt, hmod, UInt16.ofNat_toNat]
  rw [parseFtpUrl, hdrop]
  simp only [hpart, hpath, if_neg (Nat.not_le.2 hshort), hname, hcolon, hback]

/-- What of a path is left in a URL buffer. -/
def urlRoom (cfg : Config) (cap : Nat) : Nat := cap - 1 - (7 + (hostPort cfg).length)

/-- The cut falls behind the slash. -/
theorem configuredUrl_eq {cfg : Config} {cap : Nat} (h : 7 + (hostPort cfg).length ≤ cap - 1)
    (remote : Bytes) : configuredUrl cfg cap remote =
      ascii "ftp://" ++ (hostPort cfg ++ 47 :: remote.take (urlRoom cfg cap)) := by
  have hurl : ascii "ftp://" ++ cfg.ftpHost ++ [58] ++ decimal cfg.ftpPort.toNat ++ [47] ++ remote =
      (ascii "ftp://" ++ (hostPort cfg ++ [47])) ++ remote := by
    simp [hostPort]
  have hlen : (ascii "ftp://" ++ (hostPort cfg ++ [47])).length = 7 + (hostPort cfg).length := by
    have : (ascii "ftp://").length = 6 := rfl
    simp only [List.length_append, List.length_cons, List.length_nil]
    omega
  rw [configuredUrl, hurl, cut, List.take_append, List.take_of_length_le (by omega), hlen, urlRoom]
  simp

/-- The URL of a path on the configured server leads to that server, whatever the path is. -/
theorem parseFtpUrl_configuredUrl {cfg : Config} (hhost : PlainHost cfg.ftpHost) {cap : Nat}
    (hcap : MAX_PATHLEN ≤ cap) (remote : Bytes) :
    ∃ path, parseFtpUrl (configuredUrl cfg cap remote) = some (cfg.ftpHost, cfg.ftpPort, path) := by
  have hdigits : (decimal cfg.ftpPort.toNat).length ≤ 5 :=
    length_decimal_le (by decide) (Nat.lt_trans cfg.ftpPort.toNat_lt (by decide))
  have hshort : (hostPort cfg).length < 256 := by
    have := hhost.short
    simp only [hostPort, List.length_append, List.length_cons]
    omega
  unfold MAX_PATHLEN at hcap
  rw [configuredUrl_eq (by omega)]
  exact ⟨_, parseFtpUrl_url hhost.plain hshort _⟩

end Nishro.CCore
