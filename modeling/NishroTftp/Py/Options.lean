import NishroTftp.Lib.Dict
import NishroTftp.Py.Protocol
import NishroTftp.Py.Value
/-
  Option negotiation in the Python engine (`tftp/options.py`).

  `negotiate` reads the settings of the three options from the configuration, which can raise, and
  settles each option from its setting and the client's value.  A policy is one of four words;
  every other value of the configuration, the empty string included, counts as an unknown word.
  The deprecated `option_mode` gives one policy for all options, or turns negotiation off.

  The session works with `neg.blksize`, and with `max(1, neg.windowsize)` as its window.
-/
namespace Nishro.Py

open Utf8 (Text text)

def TFTP_CLASSIC_BLKSIZE : Int := 512
def TFTP_BLKSIZE_DEFAULT : Int := 1468
def TFTP_WINDOWSIZE_DEFAULT : Int := 4
def TFTP_TIMEOUT_DEFAULT : Int := 3
def TFTP_BLKSIZE_MIN : Int := 8
def TFTP_BLKSIZE_MAX : Int := 65464
def TFTP_WINDOWSIZE_MIN : Int := 1
def TFTP_WINDOWSIZE_MAX : Int := 64
def TFTP_TIMEOUT_MIN : Int := 1
def TFTP_TIMEOUT_MAX : Int := 60

/-- `str(n)`. -/
def intStr (n : Int) : Str := (Json.numeral n).map Char.ofNat

/-- The code points of a string. -/
def codes (s : Str) : Text := s.map Char.toNat

structure Negotiated where
  blksize : Int
  windowsize : Int
  timeout : Int
  tsize : Option Nat
  /-- what the OACK says; no OACK when empty -/
  reply : List (Str × Str)
deriving DecidableEq, Repr

/-- The window of the transfer: `max(1, neg.windowsize)` in `_send_file` and `_recv_file`. -/
def Negotiated.window (neg : Negotiated) : Int := max 1 neg.windowsize

/-! ## Policies -/

inductive Policy
  | client
  | server
  | min
  | max
  | other
deriving DecidableEq, Repr

/-- `str(x).lower()` as far as it matters here: a string in lower case.  No other value is written
    as one of the words it is compared with. -/
def lowerWord : Option Json → Option Text
  | some (.str s) => some (s.map fun c => if 65 ≤ c ∧ c ≤ 90 then c + 32 else c)
  | _ => none

/-- `str(policy.get(name, "client")).lower()`. -/
def policyOf (v : Option Json) : Policy :=
  if v.isNone ∨ lowerWord v = some (text "client") then .client
  else if lowerWord v = some (text "server") then .server
  else if lowerWord v = some (text "min") then .min
  else if lowerWord v = some (text "max") then .max
  else .other

/-- What the deprecated `option_mode` asks for. -/
inductive Legacy
  | all (policy : Policy)
  | off
deriving DecidableEq, Repr

/-- `_legacy_policy`; `none` when the new key is in use or the word is unknown. -/
def legacyPolicy (cfg : Json) : Option Legacy :=
  if (cfg.get (text "negotiation")).isSome then none
  else
    let word := lowerWord (cfg.get (text "option_mode"))
    if word = some (text "accept") then some (.all .client)
    else if word = some (text "force") then some (.all .server)
    else if word = some (text "off") then some .off
    else none

/-- The setting of one option. -/
structure Setting where
  policy : Policy
  dflt : Int
  lo : Int
  hi : Int
deriving DecidableEq, Repr

/-- `_pick`. -/
def pick (s : Setting) (clientVal : Option Int) : Int :=
  let chosen :=
    match s.policy with
    | .server => s.dflt
    | .min => s.lo
    | .max => s.hi
    | .client | .other => clientVal.getD s.dflt
  max s.lo (min s.hi chosen)

structure Settings where
  blksize : Setting
  windowsize : Setting
  timeout : Setting
deriving DecidableEq, Repr

/-- `str(policy.get(name, "client")).lower()`, `policy` being the legacy map or the new one. -/
def policyAt (legacy : Option Policy) (cfg : Json) (name : Text) : Except PyError Policy :=
  match legacy with
  | some p => .ok p
  | none => (dictGet (orEmpty (cfg.get (text "negotiation"))) name).map policyOf

/-- What `negotiate` reads from the configuration, in its order. -/
def readSettings (legacy : Option Policy) (cfg : Json) : Except PyError Settings :=
  let defaults := orEmpty (cfg.get (text "defaults"))
  let limits := orEmpty (cfg.get (text "limits"))
  (intAt defaults (text "blksize") TFTP_BLKSIZE_DEFAULT).bind fun defBlk =>
  (intAt defaults (text "windowsize") TFTP_WINDOWSIZE_DEFAULT).bind fun defWin =>
  (intAt defaults (text "timeout") TFTP_TIMEOUT_DEFAULT).bind fun defTmo =>
  (intAt limits (text "blksize_min") TFTP_BLKSIZE_MIN).bind fun blkLo =>
  (intAt limits (text "blksize_max") TFTP_BLKSIZE_MAX).bind fun blkHi =>
  (intAt limits (text "windowsize_min") TFTP_WINDOWSIZE_MIN).bind fun winLo =>
  (intAt limits (text "windowsize_max") TFTP_WINDOWSIZE_MAX).bind fun winHi =>
  (intAt limits (text "timeout_min") TFTP_TIMEOUT_MIN).bind fun tmoLo =>
  (intAt limits (text "timeout_max") TFTP_TIMEOUT_MAX).bind fun tmoHi =>
  (policyAt legacy cfg (text "blksize")).bind fun blkPolicy =>
  (policyAt legacy cfg (text "windowsize")).bind fun winPolicy =>
  (policyAt legacy cfg (text "timeout")).bind fun tmoPolicy =>
    .ok ⟨⟨blkPolicy, defBlk, blkLo, blkHi⟩, ⟨winPolicy, defWin, winLo, winHi⟩,
      ⟨tmoPolicy, defTmo, tmoLo, tmoHi⟩⟩

/-! ## Negotiation -/

/-- `{k.lower(): v for k, v in client_opts.items()}`. -/
def lowerKeys (clientOpts : List (Str × Str)) : List (Str × Str) :=
  clientOpts.foldl (fun d kv => dictSet d (lower kv.1) kv.2) []

/-- `int(x)` of a client's text, `None` where it raises. -/
def clientNumber (v : Str) : Option Int := (strToInt (codes v)).toOption

/-- `_client_int`. -/
def clientInt (opts : List (Str × Str)) (name : String) : Option Int :=
  (opts.lookup (str name)).bind clientNumber

/-- blksize and windowsize: the RFC's value when the client is silent and the choice is its own,
    else what `_pick` gives. -/
def settle (s : Setting) (classic : Int) (clientVal : Option Int) : Int :=
  if s.policy = .client ∧ clientVal = none then classic else pick s clientVal

/-- An entry of the reply, for a client that asked. -/
def replyIf (clientVal : Option Int) (name : String) (value : Int) : List (Str × Str) :=
  if clientVal.isSome then [(str name, intStr value)] else []

/-- The tsize entry: the size of the file for a read, the client's own number for a write. -/
def replyTsize (opts : List (Str × Str)) (fileSize : Option Nat) (isRead : Bool) :
    List (Str × Str) :=
  match opts.lookup (str "tsize") with
  | none => []
  | some v =>
    if isRead then (fileSize.map fun n => (str "tsize", intStr n)).toList
    else ((clientNumber v).map fun n => (str "tsize", intStr n)).toList

/-- The rest of `negotiate`, under settings that could be read. -/
def negotiateWith (st : Settings) (clientOpts : List (Str × Str)) (fileSize : Option Nat)
    (isRead : Bool) : Negotiated :=
  let opts := lowerKeys clientOpts
  let blksize := settle st.blksize TFTP_CLASSIC_BLKSIZE (clientInt opts "blksize")
  let windowsize := settle st.windowsize 1 (clientInt opts "windowsize")
  let timeout := pick st.timeout (clientInt opts "timeout")
  { blksize, windowsize, timeout
    tsize := fileSize
    reply := replyIf (clientInt opts "blksize") "blksize" blksize ++
      replyIf (clientInt opts "windowsize") "windowsize" windowsize ++
      replyIf (clientInt opts "timeout") "timeout" timeout ++ replyTsize opts fileSize isRead }

def negotiate (clientOpts : List (Str × Str)) (cfg : Json) (fileSize : Option Nat) (isRead : Bool) :
    Except PyError Negotiated :=
  match legacyPolicy cfg with
  | some .off =>
    (intAt (orEmpty (cfg.get (text "defaults"))) (text "timeout") TFTP_TIMEOUT_DEFAULT).map
      fun timeout => ⟨TFTP_CLASSIC_BLKSIZE, 1, timeout, fileSize, []⟩
  | some (.all p) => (readSettings (some p) cfg).map
      fun st => negotiateWith st clientOpts fileSize isRead
  | none => (readSettings none cfg).map fun st => negotiateWith st clientOpts fileSize isRead

/-! ## What the client is told -/

theorem lookup_replyIf (asked : Option Int) (name : String) (value : Int) (key : String) :
    (replyIf asked name value).lookup (str key) =
      if asked.isSome ∧ str key = str name then some (intStr value) else none := by
  unfold replyIf
  by_cases ha : asked.isSome = true
  · by_cases hk : str key = str name
    · simp [ha, hk]
    · simp [ha, hk, List.lookup_cons, beq_false_of_ne hk]
  · simp [ha]

theorem lookup_replyTsize {opts : List (Str × Str)} {fileSize : Option Nat} {isRead : Bool}
    {key : String} (h : str key ≠ str "tsize") :
    (replyTsize opts fileSize isRead).lookup (str key) = none := by
  unfold replyTsize
  split
  · rfl
  split
  · cases fileSize with
    | none => rfl
    | some n => simp [List.lookup_cons, beq_false_of_ne h]
  · cases clientNumber _ with
    | none => rfl
    | some n => simp [List.lookup_cons, beq_false_of_ne h]

section Reply

variable (st : Settings) (clientOpts : List (Str × Str)) (fileSize : Option Nat) (isRead : Bool)

/-- The reply has blksize exactly for a client that asked for a number, and then it has the
    blksize of the transfer. -/
theorem reply_blksize :
    (negotiateWith st clientOpts fileSize isRead).reply.lookup (str "blksize") =
      if (clientInt (lowerKeys clientOpts) "blksize").isSome then
        some (intStr (negotiateWith st clientOpts fileSize isRead).blksize) else none := by
  simp only [negotiateWith, List.lookup_append, lookup_replyIf]
  rw [lookup_replyTsize (by decide)]
  by_cases h : (clientInt (lowerKeys clientOpts) "blksize").isSome = true
  · simp [h]
  · have hw : ¬ str "blksize" = str "windowsize" := by decide
    have ht : ¬ str "blksize" = str "timeout" := by decide
    simp [h, hw, ht]

theorem reply_windowsize :
    (negotiateWith st clientOpts fileSize isRead).reply.lookup (str "windowsize") =
      if (clientInt (lowerKeys clientOpts) "windowsize").isSome then
        some (intStr (negotiateWith st clientOpts fileSize isRead).windowsize) else none := by
  have hb : ¬ str "windowsize" = str "blksize" := by decide
  simp only [negotiateWith, List.lookup_append, lookup_replyIf]
  rw [lookup_replyTsize (by decide)]
  by_cases h : (clientInt (lowerKeys clientOpts) "windowsize").isSome = true
  · simp [h, hb]
  · have ht : ¬ str "windowsize" = str "timeout" := by decide
    simp [h, hb, ht]

end Reply

theorem numeral_lt (n : Int) : ∀ c ∈ Json.numeral n, c < 128 := by
  intro c hc
  rcases List.mem_append.mp hc with hc | hc
  · split at hc
    · obtain rfl := List.mem_singleton.mp hc
      decide
    · cases hc
  · have hdigit := Json.digit_codes n.natAbs c hc
    have := (Json.isDigit_iff.mp hdigit).2
    omega

theorem codes_intStr (n : Int) : codes (intStr n) = Json.numeral n := by
  have hchar : ∀ c < 128, (Char.ofNat c).toNat = c := by decide
  rw [codes, intStr, List.map_map]
  exact (List.map_congr_left fun c hc => hchar c (numeral_lt n c hc)).trans (List.map_id _)

theorem intStr_injective {m n : Int} (h : intStr m = intStr n) : m = n := by
  have hnum := congrArg codes h
  rw [codes_intStr, codes_intStr] at hnum
  exact Json.numeral_injective hnum

/-- What the client knows of an option - the value of the OACK, or the RFC's default when the OACK
    does not have it - is what the transfer works with. -/
def Told (neg : Negotiated) (name : String) (classic used : Int) : Prop :=
  match neg.reply.lookup (str name) with
  | some t => t = intStr used
  | none => used = classic

/-- A session that gets as far as a transfer has told its client the block size and the window. -/
def Honest : Except PyError Negotiated → Prop
  | .ok neg => Told neg "blksize" 512 neg.blksize ∧ Told neg "windowsize" 1 neg.window
  | .error _ => True

/-- The settings of a configuration that negotiates and can be read. -/
def settingsOf (cfg : Json) : Option Settings :=
  match legacyPolicy cfg with
  | some .off => none
  | some (.all p) => (readSettings (some p) cfg).toOption
  | none => (readSettings none cfg).toOption

/-- The value the configuration itself has for an option under its policy. -/
def Setting.configured (s : Setting) : Int :=
  match s.policy with
  | .min => s.lo
  | .max => s.hi
  | .client | .server | .other => s.dflt

/-- A number moved into the limits. -/
def Setting.clamp (s : Setting) (n : Int) : Int := max s.lo (min s.hi n)

/-- Nothing is imposed on a client that did not ask for a block size, unless it is 512. -/
def OpenBlksize (s : Setting) (asked : Option Int) : Prop :=
  asked.isSome ∨ s.policy = .client ∨ s.clamp s.configured = 512

/-- No window is imposed on a client that did not ask for one, and no window below one is agreed
    on. -/
def OpenWindow (s : Setting) : Option Int → Prop
  | none => s.policy = .client ∨ s.clamp s.configured ≤ 1
  | some v => 1 ≤ s.clamp (if s.policy = .client ∨ s.policy = .other then v else s.configured)

theorem pick_none (s : Setting) : pick s none = s.clamp s.configured := by
  unfold pick Setting.clamp Setting.configured
  cases s.policy <;> rfl

theorem pick_some (s : Setting) (v : Int) :
    pick s (some v) = s.clamp (if s.policy = .client ∨ s.policy = .other then v else s.configured) := by
  unfold pick Setting.clamp Setting.configured
  cases s.policy <;> rfl

/-- Under settings that could be read, the client is told the truth exactly when both options are
    settled openly. -/
theorem honest_negotiateWith (st : Settings) (clientOpts : List (Str × Str))
    (fileSize : Option Nat) (isRead : Bool) :
    Honest (.ok (negotiateWith st clientOpts fileSize isRead)) ↔
      OpenBlksize st.blksize (clientInt (lowerKeys clientOpts) "blksize") ∧
      OpenWindow st.windowsize (clientInt (lowerKeys clientOpts) "windowsize") := by
  refine and_congr ?_ ?_
  · rw [Told, reply_blksize]
    cases hask : clientInt (lowerKeys clientOpts) "blksize" with
    | some v => simp [OpenBlksize]
    | none =>
      simp only [Option.isSome_none, Bool.false_eq_true, if_false, OpenBlksize, false_or]
      simp only [negotiateWith, hask, settle, pick_none, and_true]
      by_cases hp : st.blksize.policy = .client
      · simp [hp, TFTP_CLASSIC_BLKSIZE]
      · simp [hp]
  · rw [Told, reply_windowsize]
    cases hask : clientInt (lowerKeys clientOpts) "windowsize" with
    | some v =>
      simp only [Option.isSome_some, if_true, OpenWindow, Negotiated.window]
      simp only [negotiateWith, hask, settle, reduceCtorEq, and_false, if_false, pick_some]
      constructor
      · intro h
        have := intStr_injective h
        omega
      · intro h
        rw [max_eq_right h]
    | none =>
      simp only [Option.isSome_none, Bool.false_eq_true, if_false, OpenWindow, Negotiated.window]
      simp only [negotiateWith, hask, settle, pick_none, and_true]
      by_cases hp : st.windowsize.policy = .client
      · simp [hp]
      · simp only [hp, if_false, false_or]
        omega

/-- Every result of `negotiate` is that of readable settings, that of negotiation turned off, or an
    exception. -/
theorem negotiate_cases (clientOpts : List (Str × Str)) (cfg : Json) (fileSize : Option Nat)
    (isRead : Bool) :
    (∃ st, settingsOf cfg = some st ∧
      negotiate clientOpts cfg fileSize isRead = .ok (negotiateWith st clientOpts fileSize isRead)) ∨
    (settingsOf cfg = none ∧ ((∃ e, negotiate clientOpts cfg fileSize isRead = .error e) ∨
      ∃ timeout, negotiate clientOpts cfg fileSize isRead =
        .ok ⟨TFTP_CLASSIC_BLKSIZE, 1, timeout, fileSize, []⟩)) := by
  unfold negotiate settingsOf
  cases legacyPolicy cfg with
  | none =>
    cases hst : readSettings none cfg with
    | ok st => exact .inl ⟨st, rfl, rfl⟩
    | error e => exact .inr ⟨rfl, .inl ⟨e, rfl⟩⟩
  | some mode =>
    cases mode with
    | all p =>
      cases hst : readSettings (some p) cfg with
      | ok st => exact .inl ⟨st, by simp only [hst, Except.toOption], by simp only [hst, Except.map]⟩
      | error e => exact .inr ⟨by simp only [hst, Except.toOption], .inl ⟨e, by simp only [hst, Except.map]⟩⟩
    | off =>
      refine .inr ⟨rfl, ?_⟩
      cases intAt (orEmpty (cfg.get (text "defaults"))) (text "timeout") TFTP_TIMEOUT_DEFAULT with
      | ok timeout => exact .inr ⟨timeout, rfl⟩
      | error e => exact .inl ⟨e, rfl⟩

/-- **The transfer and what the client was told.**  Block size and window of a transfer are what
    the OACK says, or 512 and 1 where it says nothing, if and only if the configuration turns
    negotiation off, or cannot be read, or imposes no other block size and no larger window on a
    client that does not ask, and no window below 1 on one that does. -/
theorem negotiated_as_told (clientOpts : List (Str × Str)) (cfg : Json) (fileSize : Option Nat)
    (isRead : Bool) :
    Honest (negotiate clientOpts cfg fileSize isRead) ↔
      ∀ st, settingsOf cfg = some st →
        OpenBlksize st.blksize (clientInt (lowerKeys clientOpts) "blksize") ∧
        OpenWindow st.windowsize (clientInt (lowerKeys clientOpts) "windowsize") := by
  rcases negotiate_cases clientOpts cfg fileSize isRead with ⟨st, hst, h⟩ | ⟨hst, h⟩
  · rw [h, honest_negotiateWith, hst]
    simp only [Option.some.injEq, forall_eq']
  have hopen : ∀ st, settingsOf cfg = some st →
      OpenBlksize st.blksize (clientInt (lowerKeys clientOpts) "blksize") ∧
      OpenWindow st.windowsize (clientInt (lowerKeys clientOpts) "windowsize") := by
    intro st heq
    rw [hst] at heq
    cases heq
  refine iff_of_true ?_ hopen
  rcases h with ⟨e, h⟩ | ⟨timeout, h⟩
  · rw [h]
    trivial
  · rw [h]
    exact ⟨rfl, rfl⟩

/-- `negotiation: {blksize: server, windowsize: max}`, everything else left to its default. -/
def imposingConfig : Json :=
  .obj [(text "negotiation", .obj [(text "blksize", .str (text "server")),
    (text "windowsize", .str (text "max"))])]

/-- A client that sends no options gets no OACK and blocks of 1468 bytes in windows of 64, in both
    directions. -/
theorem imposed_untold :
    negotiate [] imposingConfig (some 2000) true = .ok ⟨1468, 64, 3, some 2000, []⟩ ∧
    negotiate [] imposingConfig none false = .ok ⟨1468, 64, 3, none, []⟩ ∧
    ¬ Honest (negotiate [] imposingConfig (some 2000) true) := by
  refine ⟨rfl, rfl, ?_⟩
  rintro ⟨hblk, -⟩
  exact absurd (show (1468 : Int) = 512 from hblk) (by decide)

end Nishro.Py
