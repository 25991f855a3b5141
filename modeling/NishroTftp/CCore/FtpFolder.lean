import NishroTftp.CCore.Ftp
import NishroTftp.Lib.Printf
import Mathlib.Data.List.TakeWhile
/-
  What the trigger of the configuration can reach on the FTP server (`c_core/source.c`,
  `c_core/ftp.c`): the path that a name with the trigger is turned into, and the command line that
  carries it.

  The path takes three steps, and each has its buffer: `rewrite_prefix` puts root, folder and the
  rest of the name together, the path goes into a URL of the configured server, and `parse_ftp_url`
  takes it out again.  Nothing on the way looks at the rest of the name, so `..` and line ends in it
  go to the server as they are, and `src_open_write` does not even look at whether the name was well
  formed.
-/
namespace Nishro.CCore

open Nishro.Decimal Nishro.Logins

/-! ## The path of a name -/

/-- The digits behind the trigger and what follows the separator, if the name is well formed. -/
def nameParts (cfg : Config) (fn : Bytes) : Option (Bytes × Bytes) :=
  let p := fn.drop cfg.prefixTrigger.length
  let digits := (p.takeWhile isDigit).take 15
  match p.drop digits.length with
  | [] => none
  | c :: tail => if digits ≠ [] ∧ (c = 47 ∨ c = 92) then some (digits, tail) else none

/-- The folder of a user, with the root before it and a slash behind it. -/
def folderOf (cfg : Config) (libc : Libc) (digits : Bytes) : Bytes :=
  (if cfg.ftpRoot ≠ [] then cfg.ftpRoot ++ [47] else []) ++
    cut 64 (libc.format cfg.prefixFolderFmt (atoi digits).toNat) ++ [47]

theorem rewritePrefix_eq (cfg : Config) (libc : Libc) (cap : Nat) (fn : Bytes) :
    rewritePrefix cfg libc cap fn =
      (nameParts cfg fn).map fun p => cut cap (folderOf cfg libc p.1 ++ p.2) := by
  simp only [rewritePrefix, nameParts]
  generalize (List.takeWhile isDigit (fn.drop cfg.prefixTrigger.length)).take 15 = digits
  cases (fn.drop cfg.prefixTrigger.length).drop digits.length with
  | nil => simp
  | cons c tail =>
    by_cases hd : digits = []
    · simp [hd]
    by_cases hc : c = 47 ∨ c = 92
    · have hc' : ¬ (c ≠ 47 ∧ c ≠ 92) := by tauto
      simp only [hd, hc', hc, if_false, ne_eq, not_false_eq_true, and_self, if_true,
        Option.map_some, folderOf]
      split <;> simp
    · have hc' : c ≠ 47 ∧ c ≠ 92 := by tauto
      simp only
      rw [if_neg hd, if_pos hc', if_neg (fun h => hc h.2), Option.map_none]

/-- What `src_open_read` asks `ftp_download` for. -/
def srcOpenReadTarget (cfg : Config) (libc : Libc) (fn : Bytes) : Option (Bytes × UInt16 × Bytes) :=
  if hasFtpUrl fn then if cfg.ftpEnabled then parseFtpUrl fn else none
  else if triggered cfg fn then
    if cfg.ftpEnabled then
      (rewritePrefix cfg libc MAX_PATHLEN fn).bind fun remote =>
        parseFtpUrl (configuredUrl cfg (MAX_PATHLEN + 64) remote)
    else none
  else none

/-- What `src_commit_write` asks `ftp_upload` for, after `src_open_write`. -/
def srcCommitTarget (cfg : Config) (libc : Libc) (fn : Bytes) : Option (Bytes × UInt16 × Bytes) :=
  (srcOpenWriteRemote cfg libc fn).bind parseFtpUrl

/-! ## The command -/

def CTRL_BUF : Nat := 1024

/-- `ftp_send_cmd(s, "<verb> %s", path)`.  The line end goes behind the length of the whole text,
    which for a text that `vsnprintf` had to cut is behind a NUL or outside of the buffer. -/
def ftpSendCmd (verb : String) (path : Bytes) : Option Bytes :=
  let text := ascii verb ++ 32 :: path
  if text.length < CTRL_BUF - 3 then some (text ++ [13, 10]) else none

/-- No byte ends a line. -/
def NoBreak (s : Bytes) : Prop := ∀ c ∈ s, c ≠ 13 ∧ c ≠ 10

instance (s : Bytes) : Decidable (NoBreak s) := List.decidableBAll _ s

/-- One line: the only line end is its own. -/
def OneLine (line : Bytes) : Prop := ∃ body, line = body ++ [13, 10] ∧ NoBreak body

/-- The segments of a path; as for `FtpSource._join`, both slashes separate. -/
def segments : Bytes → List Bytes
  | [] => [[]]
  | c :: s =>
    if c = 47 ∨ c = 92 then [] :: segments s
    else match segments s with
      | [] => [[c]]
      | seg :: segs => (c :: seg) :: segs

/-- Nothing in it leads out of the folder or ends the line. -/
structure PlainTail (tail : Bytes) : Prop where
  inside : [46, 46] ∉ segments tail
  line : NoBreak tail

/-! ## What is to hold -/

/-- A file below the folder of the digits, on the configured server, asked for in one line. -/
structure InFolder (cfg : Config) (libc : Libc) (fn : Bytes) (verb : String)
    (target : Bytes × UInt16 × Bytes) : Prop where
  host : target.1 = cfg.ftpHost
  port : target.2.1 = cfg.ftpPort
  path : ∃ p tail, nameParts cfg fn = some p ∧ target.2.2 = folderOf cfg libc p.1 ++ tail ∧
    PlainTail tail
  command : ∃ line, ftpSendCmd verb target.2.2 = some line ∧ OneLine line

/-- A name is refused or leads into the folder of its digits, and a malformed one is refused. -/
structure Routed (cfg : Config) (libc : Libc) (fn : Bytes) : Prop where
  malformed : nameParts cfg fn = none →
    srcOpenReadTarget cfg libc fn = none ∧ srcOpenWriteRemote cfg libc fn = none
  reads : ∀ t, srcOpenReadTarget cfg libc fn = some t → InFolder cfg libc fn "RETR" t
  writes : ∀ t, srcCommitTarget cfg libc fn = some t → InFolder cfg libc fn "STOR" t

/-- The folder is whole at the start of the path, and what follows it is plain. -/
structure Below (cfg : Config) (libc : Libc) (digits path : Bytes) : Prop where
  whole : folderOf cfg libc digits <+: path
  folder : NoBreak (folderOf cfg libc digits)
  tail : PlainTail (path.drop (folderOf cfg libc digits).length)

theorem noBreak_append {s t : Bytes} : NoBreak (s ++ t) ↔ NoBreak s ∧ NoBreak t := by
  exact List.forall_mem_append

/-- A path that fits a path buffer is one line exactly if it has no line end of its own. -/
theorem ftpSendCmd_line {verb : String} (hverb : NoBreak (ascii verb))
    (hlen : (ascii verb).length ≤ 4) {path : Bytes} (hpath : path.length < MAX_PATHLEN) :
    (∃ line, ftpSendCmd verb path = some line ∧ OneLine line) ↔ NoBreak path := by
  have hspace : NoBreak [32] := by decide
  have htext : NoBreak (ascii verb ++ 32 :: path) ↔ NoBreak path := by
    rw [show ascii verb ++ 32 :: path = ascii verb ++ ([32] ++ path) from rfl, noBreak_append,
      noBreak_append]
    simp only [hverb, hspace, true_and]
  have hfits : (ascii verb ++ 32 :: path).length < CTRL_BUF - 3 := by
    simp only [List.length_append, List.length_cons, CTRL_BUF]
    unfold MAX_PATHLEN at hpath
    omega
  simp only [ftpSendCmd, if_pos hfits, Option.some.injEq, exists_eq_left', OneLine,
    List.append_cancel_right_eq, htext]

variable {cfg : Config}

/-- What is asked for, spelled out at a path from a path buffer. -/
theorem inFolder_iff {libc : Libc} {fn digits rest : Bytes} {verb : String}
    (hverb : NoBreak (ascii verb)) (hlen : (ascii verb).length ≤ 4)
    (hparts : nameParts cfg fn = some (digits, rest)) {host : Bytes} {port : UInt16} {path : Bytes}
    (hpath : path.length < MAX_PATHLEN) :
    InFolder cfg libc fn verb (host, port, path) ↔
      host = cfg.ftpHost ∧ port = cfg.ftpPort ∧ Below cfg libc digits path := by
  constructor
  · rintro ⟨hhost, hport, ⟨p, tail, hp, htail, hplain⟩, hcmd⟩
    cases hparts.symm.trans hp
    have hline := (ftpSendCmd_line hverb hlen hpath).1 hcmd
    subst htail
    refine ⟨hhost, hport, List.prefix_append _ _, (noBreak_append.1 hline).1, ?_⟩
    rwa [List.drop_left]
  · rintro ⟨hhost, hport, ⟨tail, rfl⟩, hfolder, htail⟩
    rw [List.drop_left] at htail
    exact ⟨hhost, hport, ⟨_, tail, hparts, rfl, htail⟩,
      (ftpSendCmd_line hverb hlen hpath).2 (noBreak_append.2 ⟨hfolder, htail.line⟩)⟩

/-! ## The URL between -/

/-- A URL gives no host with a slash or a colon, and no path that overflows its buffer. -/
theorem parseFtpUrl_parts {url host path : Bytes} {port : UInt16}
    (h : parseFtpUrl url = some (host, port, path)) :
    (∀ c ∈ host, c ≠ 47 ∧ c ≠ 58) ∧ path.length < MAX_PATHLEN := by
  unfold parseFtpUrl at h
  simp only at h
  split at h
  · cases h
  split at h
  · cases h
  obtain ⟨rfl, -, rfl⟩ := h
  constructor
  · intro c hc
    have hcolon := List.mem_takeWhile_imp hc
    have hslash := List.mem_takeWhile_imp ((List.takeWhile_sublist _).subset hc)
    exact ⟨by simpa using hslash, by simpa using hcolon⟩
  · simp only [cut, List.length_take, MAX_PATHLEN]
    omega

/-- The part of a URL before the first slash decides whether it is refused. -/
theorem parseFtpUrl_none_iff {w : Bytes} (hw : 47 ∉ w) (rest : Bytes) {cap : Nat}
    (hcap : MAX_PATHLEN ≤ cap) :
    parseFtpUrl (cut cap (ascii "ftp://" ++ (w ++ 47 :: rest))) = none ↔ 256 ≤ w.length := by
  have hnoslash : ∀ {s : Bytes}, 47 ∉ s → ∀ c ∈ s, (c != 47) = true := by
    intro s hs c hc
    simp only [bne_iff_ne, ne_eq]
    rintro rfl
    exact hs hc
  unfold MAX_PATHLEN at hcap
  have hdrop : (cut cap (ascii "ftp://" ++ (w ++ 47 :: rest))).drop 6 =
      (w ++ 47 :: rest).take (cap - 7) := by
    rw [cut, List.drop_take]
    rfl
  rw [parseFtpUrl, hdrop]
  by_cases hk : cap - 7 ≤ w.length
  · -- the slash is cut off
    have htake : (w ++ 47 :: rest).take (cap - 7) = w.take (cap - 7) :=
      List.take_append_of_le_length hk
    have hnone : (w.take (cap - 7)).dropWhile (· != 47) = [] :=
      List.dropWhile_eq_nil_iff.2 (hnoslash fun h => hw (List.mem_of_mem_take h))
    simp only [htake, hnone, true_iff]
    omega
  · have htake : (w ++ 47 :: rest).take (cap - 7) =
        w ++ 47 :: rest.take (cap - 7 - w.length - 1) := by
      rw [List.take_append, List.take_of_length_le (by omega)]
      obtain ⟨k, hk⟩ : ∃ k, cap - 7 - w.length = k + 1 := ⟨_, (Nat.succ_pred (by omega)).symm⟩
      rw [hk, List.take_succ_cons]
      rfl
    have hstop : ∀ t : Bytes, Stops (· != 47) (47 :: t) := stops_cons (by decide)
    obtain ⟨hpart, hpath⟩ := span_stops (hnoslash hw) (hstop _)
    rw [htake, hpart, hpath]
    simp

/-- The server part of the configured URL, which a slash in the host ends early. -/
def serverPart (cfg : Config) : Bytes := (hostPort cfg).takeWhile (· != 47)

theorem serverPart_split (cfg : Config) (remote : Bytes) :
    47 ∉ serverPart cfg ∧ ∃ rest, hostPort cfg ++ 47 :: remote = serverPart cfg ++ 47 :: rest := by
  constructor
  · intro h
    exact absurd (List.mem_takeWhile_imp h) (by decide)
  have hsplit : serverPart cfg ++ (hostPort cfg).dropWhile (· != 47) = hostPort cfg :=
    List.takeWhile_append_dropWhile
  cases hdrop : (hostPort cfg).dropWhile (· != 47) with
  | nil =>
    rw [hdrop, List.append_nil] at hsplit
    exact ⟨remote, by rw [hsplit]⟩
  | cons c rest =>
    have hc : c = 47 := by
      have := List.head_dropWhile_not (· != 47) (l := hostPort cfg) (by simp [hdrop])
      simpa [hdrop] using this
    rw [← hsplit, hdrop, hc]
    simp

theorem configuredUrl_none_iff (cfg : Config) {cap : Nat} (hcap : MAX_PATHLEN ≤ cap)
    (remote : Bytes) : parseFtpUrl (configuredUrl cfg cap remote) = none ↔ 256 ≤ (serverPart cfg).length := by
  obtain ⟨hno, rest, hrest⟩ := serverPart_split cfg remote
  have hurl : configuredUrl cfg cap remote =
      cut cap (ascii "ftp://" ++ (serverPart cfg ++ 47 :: rest)) := by
    rw [← hrest]
    simp [configuredUrl, hostPort]
  rw [hurl, parseFtpUrl_none_iff hno rest hcap]

theorem serverPart_eq (hplain : ∀ c ∈ cfg.ftpHost, c ≠ 47 ∧ c ≠ 58) :
    serverPart cfg = hostPort cfg :=
  List.takeWhile_eq_self_iff.2 (hostPort_noSlash hplain)

/-- How much of a rewritten path comes out of a URL buffer. -/
def pathRoom (cfg : Config) (cap : Nat) : Nat := min (MAX_PATHLEN - 1) (urlRoom cfg cap)

/-- The way through the URL cuts the path and does nothing else to it. -/
theorem parse_configured (hplain : ∀ c ∈ cfg.ftpHost, c ≠ 47 ∧ c ≠ 58)
    (hshort : (hostPort cfg).length < 256) {cap : Nat} (hcap : MAX_PATHLEN ≤ cap) (path : Bytes) :
    parseFtpUrl (configuredUrl cfg cap (cut MAX_PATHLEN path)) =
      some (cfg.ftpHost, cfg.ftpPort, path.take (pathRoom cfg cap)) := by
  have hroom : 7 + (hostPort cfg).length ≤ cap - 1 := by
    unfold MAX_PATHLEN at hcap
    omega
  rw [configuredUrl_eq hroom, parseFtpUrl_url hplain hshort, cut, cut, List.take_take,
    List.take_take, pathRoom]
  congr 4
  omega

/-! ## When it holds -/

/-- Whatever this URL leads to lies in the folder, on the configured server. -/
def LeadsBelow (cfg : Config) (libc : Libc) (digits url : Bytes) : Prop :=
  ∀ host port path, parseFtpUrl url = some (host, port, path) →
    host = cfg.ftpHost ∧ port = cfg.ftpPort ∧ Below cfg libc digits path

/-- A name with the trigger, in a URL buffer of so many bytes: its URL is refused, or host and
    folder are plain, the folder fits, and so much of the tail as fits behind it is plain. -/
def Stays (cfg : Config) (libc : Libc) (cap : Nat) (digits tail : Bytes) : Prop :=
  256 ≤ (serverPart cfg).length ∨
    ((∀ c ∈ cfg.ftpHost, c ≠ 47 ∧ c ≠ 58) ∧
      (folderOf cfg libc digits).length ≤ pathRoom cfg cap ∧
      NoBreak (folderOf cfg libc digits) ∧
      PlainTail (tail.take (pathRoom cfg cap - (folderOf cfg libc digits).length)))

theorem below_take_iff {libc : Libc} {digits : Bytes} (tail : Bytes) (k : Nat) :
    Below cfg libc digits ((folderOf cfg libc digits ++ tail).take k) ↔
      (folderOf cfg libc digits).length ≤ k ∧ NoBreak (folderOf cfg libc digits) ∧
        PlainTail (tail.take (k - (folderOf cfg libc digits).length)) := by
  have hsplit : (folderOf cfg libc digits).length ≤ k →
      (folderOf cfg libc digits ++ tail).take k =
        folderOf cfg libc digits ++ tail.take (k - (folderOf cfg libc digits).length) := by
    intro hk
    rw [List.take_append, List.take_of_length_le hk]
  constructor
  · rintro ⟨hwhole, hfolder, htail⟩
    have hk : (folderOf cfg libc digits).length ≤ k := by
      have := hwhole.length_le
      rw [List.length_take] at this
      omega
    rw [hsplit hk, List.drop_left] at htail
    exact ⟨hk, hfolder, htail⟩
  · rintro ⟨hk, hfolder, htail⟩
    rw [hsplit hk]
    exact ⟨List.prefix_append _ _, hfolder, by rwa [List.drop_left]⟩

/-- The configured URL of a rewritten name. -/
theorem leadsBelow_configured_iff (cfg : Config) (libc : Libc) {cap : Nat}
    (hcap : MAX_PATHLEN ≤ cap) (digits tail : Bytes) :
    LeadsBelow cfg libc digits
        (configuredUrl cfg cap (cut MAX_PATHLEN (folderOf cfg libc digits ++ tail))) ↔
      Stays cfg libc cap digits tail := by
  have hnone := configuredUrl_none_iff cfg hcap
    (cut MAX_PATHLEN (folderOf cfg libc digits ++ tail))
  constructor
  · intro h
    by_cases hlong : 256 ≤ (serverPart cfg).length
    · exact .inl hlong
    -- the URL is taken apart, so its host is the configured one, and no host from a URL has a slash
    obtain ⟨⟨host, port, path⟩, hparse⟩ := Option.ne_none_iff_exists'.1 (mt hnone.1 hlong)
    have hplain : ∀ c ∈ cfg.ftpHost, c ≠ 47 ∧ c ≠ 58 := by
      obtain ⟨rfl, -, -⟩ := h host port path hparse
      exact (parseFtpUrl_parts hparse).1
    rw [serverPart_eq hplain] at hlong
    exact .inr ⟨hplain, (below_take_iff tail _).1
      (h _ _ _ (parse_configured hplain (Nat.not_le.1 hlong) hcap _)).2.2⟩
  · rintro (hlong | ⟨hplain, hbelow⟩) host port path hparse
    · rw [hnone.2 hlong] at hparse
      cases hparse
    · have hshort : (hostPort cfg).length < 256 := by
        rw [← serverPart_eq hplain, ← Nat.not_le]
        intro hlong
        rw [hnone.2 hlong] at hparse
        cases hparse
      rw [parse_configured hplain hshort hcap] at hparse
      cases hparse
      exact ⟨rfl, rfl, (below_take_iff tail _).2 hbelow⟩

/-- A name that the engine serves keeps to its folder.  A name that is also an `ftp://` URL never
    gets to the trigger: there the URL of the client itself has to lead into the folder. -/
def KeepsFolder (cfg : Config) (libc : Libc) (cap : Nat) (fn url digits tail : Bytes) : Prop :=
  if hasFtpUrl fn then LeadsBelow cfg libc digits url else Stays cfg libc cap digits tail

/-- Uploads of malformed names are switched off or cannot be staged, and well-formed names keep to
    their folder both ways. -/
def Contained (cfg : Config) (libc : Libc) (fn : Bytes) : Prop :=
  match nameParts cfg fn with
  | none => (cfg.ftpEnabled = true → hasFtpUrl fn = true → parseFtpUrl fn = none) ∧
      (cfg.allowWrqFtp && libc.stages) = false
  | some (digits, tail) =>
    (cfg.ftpEnabled = true → KeepsFolder cfg libc (MAX_PATHLEN + 64) fn fn digits tail) ∧
    ((cfg.allowWrqFtp && libc.stages) = true →
      KeepsFolder cfg libc MAX_PATHLEN fn (cut MAX_PATHLEN fn) digits tail)

theorem inFolder_target_iff (libc : Libc) {fn digits rest : Bytes} {verb : String}
    (hverb : NoBreak (ascii verb)) (hlen : (ascii verb).length ≤ 4)
    (hparts : nameParts cfg fn = some (digits, rest)) (url : Bytes) :
    (∀ t, parseFtpUrl url = some t → InFolder cfg libc fn verb t) ↔
      LeadsBelow cfg libc digits url := by
  constructor
  · intro h host port path hparse
    exact (inFolder_iff hverb hlen hparts (parseFtpUrl_parts hparse).2).1 (h _ hparse)
  · rintro h ⟨host, port, path⟩ hparse
    exact (inFolder_iff hverb hlen hparts (parseFtpUrl_parts hparse).2).2 (h _ _ _ hparse)

/-- The URL that a well-formed name is read from, and the one it is uploaded to. -/
theorem targets_of_parts (libc : Libc) {fn digits tail : Bytes} (ht : triggered cfg fn = true)
    (hparts : nameParts cfg fn = some (digits, tail)) :
    (srcOpenReadTarget cfg libc fn = if cfg.ftpEnabled then parseFtpUrl (if hasFtpUrl fn then fn
      else configuredUrl cfg (MAX_PATHLEN + 64)
        (cut MAX_PATHLEN (folderOf cfg libc digits ++ tail))) else none) ∧
    (srcCommitTarget cfg libc fn = if cfg.allowWrqFtp && libc.stages then
      parseFtpUrl (if hasFtpUrl fn then cut MAX_PATHLEN fn
        else configuredUrl cfg MAX_PATHLEN (cut MAX_PATHLEN (folderOf cfg libc digits ++ tail)))
      else none) := by
  unfold srcOpenReadTarget srcCommitTarget srcOpenWriteRemote
  rw [rewritePrefix_eq, hparts]
  cases hasFtpUrl fn <;> cases cfg.ftpEnabled <;> cases (cfg.allowWrqFtp && libc.stages) <;>
    simp [ht]

/-- A malformed name is read only if it is a URL, and uploaded whenever uploads can be. -/
theorem targets_of_malformed (libc : Libc) {fn : Bytes} (ht : triggered cfg fn = true)
    (hparts : nameParts cfg fn = none) :
    (srcOpenReadTarget cfg libc fn = none ↔
      (cfg.ftpEnabled = true → hasFtpUrl fn = true → parseFtpUrl fn = none)) ∧
    (srcOpenWriteRemote cfg libc fn = none ↔ (cfg.allowWrqFtp && libc.stages) = false) := by
  unfold srcOpenReadTarget srcOpenWriteRemote
  rw [rewritePrefix_eq, hparts]
  cases hasFtpUrl fn <;> cases cfg.ftpEnabled <;> cases (cfg.allowWrqFtp && libc.stages) <;>
    simp [ht]

/-- **Which names with the trigger stay in their folder.** -/
theorem prefix_contained_iff (cfg : Config) (libc : Libc) (fn : Bytes)
    (ht : triggered cfg fn = true) : Routed cfg libc fn ↔ Contained cfg libc fn := by
  unfold Contained
  cases hparts : nameParts cfg fn with
  | none =>
    obtain ⟨hread, hwrite⟩ := targets_of_malformed libc ht hparts
    constructor
    · rintro ⟨hmal, -, -⟩
      exact ⟨hread.1 (hmal hparts).1, hwrite.1 (hmal hparts).2⟩
    rintro ⟨hr, hw⟩
    refine ⟨fun _ => ⟨hread.2 hr, hwrite.2 hw⟩, ?_, ?_⟩
    · intro t h
      rw [hread.2 hr] at h
      cases h
    · intro t h
      rw [srcCommitTarget, hwrite.2 hw] at h
      cases h
  | some parts =>
    obtain ⟨digits, tail⟩ := parts
    obtain ⟨hread, hwrite⟩ := targets_of_parts libc ht hparts
    have hretr : ∀ url, (∀ t, parseFtpUrl url = some t → InFolder cfg libc fn "RETR" t) ↔
        LeadsBelow cfg libc digits url := inFolder_target_iff libc (by decide) (by decide) hparts
    have hstor : ∀ url, (∀ t, parseFtpUrl url = some t → InFolder cfg libc fn "STOR" t) ↔
        LeadsBelow cfg libc digits url := inFolder_target_iff libc (by decide) (by decide) hparts
    have hkeepR : KeepsFolder cfg libc (MAX_PATHLEN + 64) fn fn digits tail ↔
        LeadsBelow cfg libc digits (if hasFtpUrl fn then fn
          else configuredUrl cfg (MAX_PATHLEN + 64)
            (cut MAX_PATHLEN (folderOf cfg libc digits ++ tail))) := by
      unfold KeepsFolder
      split
      · rfl
      · exact (leadsBelow_configured_iff cfg libc (by omega) digits tail).symm
    have hkeepW : KeepsFolder cfg libc MAX_PATHLEN fn (cut MAX_PATHLEN fn) digits tail ↔
        LeadsBelow cfg libc digits (if hasFtpUrl fn then cut MAX_PATHLEN fn
          else configuredUrl cfg MAX_PATHLEN
            (cut MAX_PATHLEN (folderOf cfg libc digits ++ tail))) := by
      unfold KeepsFolder
      split
      · rfl
      · exact (leadsBelow_configured_iff cfg libc (Nat.le_refl _) digits tail).symm
    simp only
    rw [hkeepR, hkeepW, ← hretr, ← hstor]
    constructor
    · rintro ⟨-, hreads, hwrites⟩
      refine ⟨fun hftp t ht => hreads t ?_, fun hup t ht => hwrites t ?_⟩
      · rw [hread, if_pos hftp, ht]
      · rw [hwrite, if_pos hup, ht]
    · rintro ⟨hreads, hwrites⟩
      refine ⟨fun h => absurd (hparts.symm.trans h) (by simp), ?_, ?_⟩
      · intro t h
        rw [hread] at h
        split at h
        · exact hreads ‹_› t h
        · cases h
      · intro t h
        rw [hwrite] at h
        split at h
        · exact hwrites ‹_› t h
        · cases h

/-- A server with one FTP account for all folders. -/
def folderConfig : Config :=
  { configDefaults with
    prefixEnabled := true, ftpEnabled := true, ftpHost := ascii "10.0.0.5",
    ftpRoot := ascii "tftp" }

def folderLibc : Libc := ⟨fun fmt n => (Printf.formatU fmt n).getD [], [], true⟩

theorem ordinary_name_contained :
    triggered folderConfig (ascii "f::1/startup") = true ∧
      Routed folderConfig folderLibc (ascii "f::1/startup") := by
  have hstays : Stays folderConfig folderLibc (MAX_PATHLEN + 64) (ascii "1") (ascii "startup") :=
    .inr ⟨List.forall_iff_forall_mem.1 (by decide), by decide, by decide, by decide, by decide⟩
  refine ⟨by decide, (prefix_contained_iff _ _ _ (by decide)).2 ?_⟩
  refine ⟨fun _ => ?_, fun h => absurd h (by decide)⟩
  rwa [KeepsFolder, if_neg (by decide)]

/-- With `..` in the name a client reads from the folder of another. -/
theorem dotdot_leaves_folder :
    triggered folderConfig (ascii "f::1/../BDCOM0002/startup") = true ∧
      srcOpenReadTarget folderConfig folderLibc (ascii "f::1/../BDCOM0002/startup") =
        some (ascii "10.0.0.5", 21, ascii "tftp/BDCOM0001/../BDCOM0002/startup") ∧
      ¬ Routed folderConfig folderLibc (ascii "f::1/../BDCOM0002/startup") := by
  have htarget : srcOpenReadTarget folderConfig folderLibc (ascii "f::1/../BDCOM0002/startup") =
      some (ascii "10.0.0.5", 21, ascii "tftp/BDCOM0001/../BDCOM0002/startup") := by decide
  refine ⟨by decide, htarget, fun h => ?_⟩
  obtain ⟨p, tail, hp, hpath, hplain⟩ := (h.reads _ htarget).path
  have hparts : nameParts folderConfig (ascii "f::1/../BDCOM0002/startup") =
      some (ascii "1", ascii "../BDCOM0002/startup") := by decide
  cases hparts.symm.trans hp
  have hfolder : folderOf folderConfig folderLibc (ascii "1") ++ tail =
      folderOf folderConfig folderLibc (ascii "1") ++ ascii "../BDCOM0002/startup" :=
    hpath.symm.trans (by decide)
  have htail := List.append_cancel_left hfolder
  exact hplain.inside (htail ▸ by decide)

end Nishro.CCore
