import NishroTftp.CCore.Ftp
import NishroTftp.ConfigPush
import NishroTftp.Py.Router
/-
  Who learns the FTP account of the configuration.

  A client chooses the names it asks for, and an `ftp://` name carries a host of the client's own
  choice.  The Python engine presents an account at its own server only, and logs in anonymously
  everywhere else, whatever `urlparse` makes of the name.  The C engine presents the configured
  user and password at WHATEVER server the name leads to, on the way down and, at the commit, on the
  way up; so its account is safe only as long as no such name is followed at all.
-/
namespace Nishro

open Nishro.CCore Nishro.Logins Nishro.Decimal
open Nishro.Utf8 (Text text)

/-! ## The Python engine -/

namespace Py

/-- The anonymous login. -/
def Anonymous (k : Login Str) : Prop := k.user = anonymousUser ∧ k.password = anonymousPassword

theorem account_ftpForHost (s : RouterSource) (host : Str) (port : Int) :
    (s.ftpForHost host port).account ∈ s.accounts ∨ Anonymous (s.ftpForHost host port).account := by
  unfold RouterSource.ftpForHost
  cases hp : s.primaryFtp with
  | none => exact .inr ⟨rfl, rfl⟩
  | some src =>
    simp only
    split
    · simp [RouterSource.accounts, hp]
    · exact .inr ⟨rfl, rfl⟩

/-- Every source that a name is routed to has an account of the configuration, or is anonymous. -/
theorem account_resolve {s : RouterSource} {urlparse : Str → Except PyError UrlParts}
    {filename inner : Str} {src : FtpSource}
    (h : s.resolve urlparse filename = .ok (some (src, inner))) :
    src.account ∈ s.accounts ∨ Anonymous src.account := by
  unfold RouterSource.resolve at h
  split at h
  · obtain ⟨parsed, -, hparsed⟩ := map_eq_ok.1 h
    obtain ⟨⟨host, port, path⟩, -, heq⟩ := Option.map_eq_some_iff.1 hparsed
    obtain ⟨rfl, -⟩ := Prod.mk.inj heq
    exact account_ftpForHost s host port
  · split at h
    · next hp =>
      split at h
      · obtain ⟨inner', -, heq⟩ := Option.map_eq_some_iff.1 (Except.ok.inj h)
        obtain ⟨rfl, -⟩ := Prod.mk.inj heq
        simp [RouterSource.accounts, hp]
      · cases h
    · cases h

/-- The router keeps the accounts of the configuration to their own servers. -/
theorem login_confined {s : RouterSource} {urlparse : Str → Except PyError UrlParts}
    {filename : Str} {k : Login Str} (h : s.login urlparse filename = .ok (some k)) :
    k.Confined Eq Anonymous s.accounts := by
  obtain ⟨target, hresolve, htarget⟩ := map_eq_ok.1 h
  obtain ⟨⟨src, inner⟩, rfl, hlogin⟩ := Option.bind_eq_some_iff.1 htarget
  obtain ⟨path, -, rfl⟩ := Option.map_eq_some_iff.1 hlogin
  rcases account_resolve hresolve with hmem | hanon
  · exact confined_of_mem (fun _ => rfl) hmem
  · exact .inl hanon

end Py

/-! ## The C engine -/

namespace CCore

/-- The account of the configuration. -/
def Config.account (cfg : Config) : Login Bytes := ⟨cfg.ftpHost, cfg.ftpPort.toNat, cfg.ftpUser, cfg.ftpPass⟩

/-- A login that gives nothing away: the anonymous one, or one without user and password. -/
def Anonymous (k : Login Bytes) : Prop :=
  k.user = ascii "anonymous" ∧ k.password = ascii "anonymous@" ∨ k.user = [] ∧ k.password = []

/-- Names of hosts are compared without regard to case. -/
def SameHost (a b : Bytes) : Prop := caseEq a b = true

theorem loginAt_user {cfg : Config} {url : Bytes} {k : Login Bytes} (h : loginAt cfg url = some k) :
    k.SameUser cfg.account := by
  obtain ⟨parts, -, rfl⟩ := Option.map_eq_some_iff.1 h
  exact ⟨rfl, rfl⟩

/-- A login of the C engine is confined if its account gives nothing away or it is made at the
    server of the account. -/
theorem loginAt_confined_iff {cfg : Config} {url : Bytes} {k : Login Bytes}
    (h : loginAt cfg url = some k) :
    k.Confined SameHost Anonymous [cfg.account] ↔
      Anonymous cfg.account ∨ k.SameServer SameHost cfg.account := by
  have huser := loginAt_user h
  rw [confined_singleton_iff huser, Anonymous, Anonymous, huser.1, huser.2]

/-- A read logs in as the account it is configured with, and only if FTP is enabled. -/
theorem srcOpenReadLogin_some {cfg : Config} {libc : Libc} {fn : Bytes} {k : Login Bytes}
    (h : srcOpenReadLogin cfg libc fn = some k) :
    cfg.ftpEnabled = true ∧ ∃ url, loginAt cfg url = some k := by
  unfold srcOpenReadLogin at h
  split at h
  · split at h
    · next henabled => exact ⟨henabled, fn, h⟩
    · cases h
  split at h
  · split at h
    · next henabled =>
      obtain ⟨remote, -, hlogin⟩ := Option.bind_eq_some_iff.1 h
      exact ⟨henabled, _, hlogin⟩
    · cases h
  · cases h

/-- A write is staged for FTP only if that is allowed; whether FTP is enabled is not asked. -/
theorem srcOpenWriteRemote_some {cfg : Config} {libc : Libc} {fn remote : Bytes}
    (h : srcOpenWriteRemote cfg libc fn = some remote) : cfg.allowWrqFtp = true := by
  unfold srcOpenWriteRemote at h
  split at h
  · split at h
    · next hallowed => exact (Bool.and_eq_true_iff.1 hallowed).1
    · cases h
  · cases h

end CCore

/-! ## Both -/

/-- The Python engine keeps the accounts of this configuration to their servers. -/
def PyConfined (yaml : Json) (urlparse : Py.Str → Except Py.PyError Py.UrlParts) (filename : Py.Str) :
    Prop :=
  ∀ router k, Py.buildSource yaml = .ok router → router.login urlparse filename = .ok (some k) →
    k.Confined Eq Py.Anonymous router.accounts

/-- The C engine does: for a read under `cfg`, and for a write that is opened under `cfg` and
    committed under `cfg'`. -/
structure CoreConfined (libc : Libc) (cfg cfg' : Config) (fn : Bytes) : Prop where
  read : ∀ k, srcOpenReadLogin cfg libc fn = some k →
    k.Confined SameHost CCore.Anonymous [cfg.account]
  write : ∀ remote k, srcOpenWriteRemote cfg libc fn = some remote →
    srcCommitWriteLogin cfg' remote = some k → k.Confined SameHost CCore.Anonymous [cfg'.account]

/-- A URL at a server that is not the configured one: its port is another. -/
def foreignUrl (port : UInt16) : Bytes := ascii (if port = 1 then "ftp://h:2/f" else "ftp://h:1/f")

theorem loginAt_foreignUrl (cfg cfg' : Config) :
    ∃ k, loginAt cfg (foreignUrl cfg'.ftpPort) = some k ∧ ¬ k.SameServer SameHost cfg'.account := by
  unfold foreignUrl
  by_cases hport : cfg'.ftpPort = 1
  · rw [if_pos hport]
    refine ⟨⟨ascii "h", 2, cfg.ftpUser, cfg.ftpPass⟩, rfl, ?_⟩
    rintro ⟨-, h⟩
    rw [Config.account, hport] at h
    exact absurd (show (2 : Int) = ((1 : UInt16).toNat : Int) from h) (by decide)
  · rw [if_neg hport]
    refine ⟨⟨ascii "h", 1, cfg.ftpUser, cfg.ftpPass⟩, rfl, ?_⟩
    rintro ⟨-, h⟩
    have hone : cfg'.ftpPort.toNat = 1 := by
      simp only [Config.account] at h
      omega
    exact hport (UInt16.toNat_inj.1 hone)

theorem hasFtpUrl_foreignUrl (port : UInt16) : hasFtpUrl (foreignUrl port) = true := by
  unfold foreignUrl
  split <;> decide

/-- **FTP accounts stay at home.**  For every configuration of the two engines: no name a client
    may choose makes either of them present an account at a server it does not belong to, exactly
    when the C engine follows no FTP names at all, or has no account to lose: for reads, while no
    FTP host is configured; for writes, if uploads to FTP were not allowed when they were opened. -/
theorem credentials_confined_iff (yaml : Json) (urlparse : Py.Str → Except Py.PyError Py.UrlParts)
    (cfg cfg' : Config) :
    (∀ libc fn, PyConfined yaml urlparse (Py.decodeAscii fn) ∧ CoreConfined libc cfg cfg' fn) ↔
      (CCore.Anonymous cfg.account ∨ cfg.ftpEnabled = false) ∧
      (CCore.Anonymous cfg'.account ∨ cfg.allowWrqFtp = false) := by
  constructor
  · intro h
    -- a library in which everything works, and a name the engine follows to a foreign server
    let libc : Libc := ⟨fun fmt _ => fmt, [], true⟩
    constructor
    · by_contra hnot
      obtain ⟨hsecret, henabled⟩ := not_or.1 hnot
      obtain ⟨k, hlogin, hforeign⟩ := loginAt_foreignUrl cfg cfg
      have hread : srcOpenReadLogin cfg libc (foreignUrl cfg.ftpPort) = some k := by
        rw [srcOpenReadLogin, if_pos (hasFtpUrl_foreignUrl _), if_pos (by simpa using henabled)]
        exact hlogin
      rcases (loginAt_confined_iff hlogin).1 ((h libc _).2.read k hread) with hanon | hserver
      · exact hsecret hanon
      · exact hforeign hserver
    · by_contra hnot
      obtain ⟨hsecret, hallowed⟩ := not_or.1 hnot
      obtain ⟨k, hlogin, hforeign⟩ := loginAt_foreignUrl cfg' cfg'
      have hwrite : srcOpenWriteRemote cfg libc (foreignUrl cfg'.ftpPort) =
          some (foreignUrl cfg'.ftpPort) := by
        have hcut : cut MAX_PATHLEN (foreignUrl cfg'.ftpPort) = foreignUrl cfg'.ftpPort := by
          unfold foreignUrl
          split <;> decide
        simp [srcOpenWriteRemote, hasFtpUrl_foreignUrl, hallowed, libc, hcut]
      rcases (loginAt_confined_iff hlogin).1 ((h libc _).2.write _ k hwrite hlogin) with
        hanon | hserver
      · exact hsecret hanon
      · exact hforeign hserver
  · rintro ⟨hread, hwrite⟩ libc fn
    refine ⟨fun router k _ hlogin => Py.login_confined hlogin, ?_, ?_⟩
    · intro k hk
      obtain ⟨henabled, url, hlogin⟩ := srcOpenReadLogin_some hk
      refine (loginAt_confined_iff hlogin).2 (hread.imp_right fun hoff => ?_)
      rw [henabled] at hoff
      cases hoff
    · intro remote k hremote hk
      have hallowed := srcOpenWriteRemote_some hremote
      refine (loginAt_confined_iff hk).2 (hwrite.imp_right fun hoff => ?_)
      rw [hallowed] at hoff
      cases hoff

/-- A login by a URL on the configured server is made there. -/
theorem configuredUrl_confined {cfg : Config} (hhost : PlainHost cfg.ftpHost) {cap : Nat}
    (hcap : MAX_PATHLEN ≤ cap) {remote : Bytes} {k : Login Bytes}
    (h : loginAt cfg (configuredUrl cfg cap remote) = some k) :
    k.Confined SameHost CCore.Anonymous [cfg.account] := by
  obtain ⟨path, hparse⟩ := parseFtpUrl_configuredUrl hhost hcap remote
  refine (loginAt_confined_iff h).2 (.inr ?_)
  rw [loginAt, hparse] at h
  obtain rfl := Option.some.inj h
  exact ⟨by simp [SameHost, caseEq, Config.account], rfl⟩

/-- An FTP account on a server of one's own. -/
def accountYaml : Json :=
  .obj [(text "files", .obj [(text "ftp", .obj [(text "host", .str (text "10.0.0.1")),
    (text "user", .str (text "bob")), (text "password", .str (text "s3cret"))])])]

theorem pushed_accountYaml : ∃ cfg, Pushed configDefaults accountYaml cfg := by
  refine ⟨_, pushed_of_finite configDefaults ?_ rfl⟩
  simp [accountYaml, Json.Finite, Json.FiniteMembers, Json.FiniteMember]

/-- A client that asks for a file of a server of its own is given the account: the C engine logs in
    there as bob. -/
theorem account_given_away :
    ∃ cfg, Pushed configDefaults accountYaml cfg ∧
      cfg.account = ⟨ascii "10.0.0.1", 21, ascii "bob", ascii "s3cret"⟩ ∧
      ∀ libc, srcOpenReadLogin cfg libc (ascii "ftp://evil/x") =
          some ⟨ascii "evil", 21, ascii "bob", ascii "s3cret"⟩ ∧
        ¬ CoreConfined libc cfg cfg (ascii "ftp://evil/x") := by
  obtain ⟨cfg, hpush⟩ := pushed_accountYaml
  have hcfg : cfg.ftpEnabled = true ∧
      cfg.account = ⟨ascii "10.0.0.1", 21, ascii "bob", ascii "s3cret"⟩ := by
    obtain ⟨net, tftp, files, maxSessions, sec, log, -, hfiles, -, rfl⟩ := hpush.sections
    obtain rfl := Json.obj.inj (Except.ok.inj hfiles)
    have hport : UInt16.ofInt (arrives 21) = 21 := by rw [arrives_eq (by decide)]; rfl
    refine ⟨rfl, ?_⟩
    show (⟨ascii "10.0.0.1", ((UInt16.ofInt (arrives 21)).toNat : Int), ascii "bob",
      ascii "s3cret"⟩ : Login Bytes) = _
    rw [hport]
    rfl
  have hlogin : loginAt cfg (ascii "ftp://evil/x") =
      some ⟨ascii "evil", 21, ascii "bob", ascii "s3cret"⟩ := by
    have huser : cfg.ftpUser = ascii "bob" ∧ cfg.ftpPass = ascii "s3cret" :=
      ⟨congrArg Login.user hcfg.2, congrArg Login.password hcfg.2⟩
    rw [← huser.1, ← huser.2]
    rfl
  refine ⟨cfg, hpush, hcfg.2, fun libc => ?_⟩
  have hread : srcOpenReadLogin cfg libc (ascii "ftp://evil/x") =
      some ⟨ascii "evil", 21, ascii "bob", ascii "s3cret"⟩ := by
    rw [srcOpenReadLogin, if_pos (by decide), if_pos hcfg.1]
    exact hlogin
  refine ⟨hread, fun h => ?_⟩
  rcases (loginAt_confined_iff hlogin).1 (h.read _ hread) with hanon | hserver
  · rw [hcfg.2] at hanon
    revert hanon
    unfold CCore.Anonymous
    decide
  · rw [hcfg.2] at hserver
    exact absurd hserver.1 (by unfold SameHost; decide)

end Nishro
