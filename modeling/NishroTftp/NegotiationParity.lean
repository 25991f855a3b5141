import NishroTftp.Py.Options
import NishroTftp.TransferParameters
/-
  Option negotiation in the two engines, under one configuration.

  The Python engine takes the LAST value given for an option, as `int` reads it, and clamps it.
  The C engine drops a value that is out of the range of the protocol while it parses, so it takes
  the last value in range, as `strtol` reads it, and clamps that.  Everything that sets the two
  apart is in these two readings (`cNumber`, `pyNumber`), in the order of the two clamps when the
  limits cross, and in the timeout of a client that does not ask for one.
-/
namespace Nishro

open Nishro.CCore Nishro.ZStrings Nishro.Decimal
open Nishro.Utf8 (Text text)
open Nishro.Py (sectionAt intAt intOrZeroAt dictGet toInt truthy orEmpty PyError bind_eq_ok
  map_eq_ok)

/-! ## What each engine reads -/

/-- The options of a packet as the C engine sees them: terminated strings only. -/
def cOptions (pkt : Bytes) : List (Bytes × Bytes) := pairs ((terminated (pkt.drop 2)).drop 2)

/-- The options of a packet as the Python engine sees them: the last NUL may be missing. -/
def pyOptions (pkt : Bytes) : List (Bytes × Bytes) := pairs ((strings (pkt.drop 2)).drop 2)

/-- The number the C engine takes an option for: the last value that is in range. -/
def cNumber (pkt : Bytes) (opt : Opt) : Option Nat :=
  lastSome (fun kv => if opt.keyed kv.1 then opt.read kv.2 else none) (cOptions pkt)

/-- The text the Python engine has for an option: the last value. -/
def pyText (pkt : Bytes) (opt : Opt) : Option Bytes := lastUnder opt.keyed (pyOptions pkt)

/-- The number the Python engine takes an option for. -/
def pyNumber (pkt : Bytes) (opt : Opt) : Option Int :=
  (pyText pkt opt).bind fun v => Py.clientNumber (Py.decodeAscii v)

theorem scanRequest_some {pkt : Bytes} {scan : Scan} (h : scanRequest pkt = some scan) :
    ∃ b₀ b₁ rest filename mode options, pkt = b₀ :: b₁ :: rest ∧
      terminated rest = filename :: mode :: options ∧
      scan = ⟨Wire.rd16 b₀ b₁, filename, mode, pairs options⟩ := by
  match pkt with
  | b₀ :: b₁ :: rest =>
    rw [scanRequest] at h
    split at h
    · cases h
    split at h
    · next hs => exact ⟨_, _, _, _, _, _, rfl, hs, (Option.some.inj h).symm⟩
    · cases h

theorem field_of_parse {pkt : Bytes} {req : TftpReq} (h : tftpParseRequest pkt = some req)
    (opt : Opt) : opt.field req = cNumber pkt opt := by
  rw [tftpParseRequest_eq] at h
  obtain ⟨scan, hscan, rfl⟩ := Option.map_eq_some_iff.1 h
  obtain ⟨b₀, b₁, rest, filename, mode, options, rfl, hs, rfl⟩ := scanRequest_some hscan
  rw [field_toReq, cNumber]
  congr 1
  show pairs options = pairs ((terminated rest).drop 2)
  rw [hs]
  rfl

/-- The keys of a parsed request are in lower case and different. -/
def LowerKeys (d : List (Py.Str × Py.Str)) : Prop :=
  (∀ kv ∈ d, Py.lower kv.1 = kv.1) ∧ (d.map (·.1)).Nodup

theorem lower_lower_decode (k : Bytes) :
    Py.lower (Py.lower (Py.decodeAscii k)) = Py.lower (Py.decodeAscii k) := by
  have hall : ∀ n < 256, (Py.asciiChar (UInt8.ofNat n)).toLower.toLower =
      (Py.asciiChar (UInt8.ofNat n)).toLower := by
    decide +kernel
  simp only [Py.lower, Py.decodeAscii, List.map_map]
  refine List.map_congr_left fun b _ => ?_
  have h := hall b.toNat b.toNat_lt
  rwa [UInt8.ofNat_toNat] at h

variable {d : List (Py.Str × Py.Str)}

theorem lowerKeys_dictSet (h : LowerKeys d) {key : Py.Str} (hkey : Py.lower key = key)
    (value : Py.Str) : LowerKeys (Py.dictSet d key value) := by
  rw [Py.dictSet_eq]
  refine ⟨?_, Dict.nodup_keys_set h.2 key value⟩
  intro kv hkv
  have hmem : kv.1 ∈ (Dict.set d key value).map (·.1) := List.mem_map_of_mem hkv
  have hold : ∀ k ∈ d.map (·.1), Py.lower k = k := by
    intro k hk
    obtain ⟨kv', hkv', rfl⟩ := List.mem_map.1 hk
    exact h.1 kv' hkv'
  rw [Dict.keys_set] at hmem
  split at hmem
  · exact hold kv.1 hmem
  · rcases List.mem_append.1 hmem with hmem | hmem
    · exact hold kv.1 hmem
    · rw [List.mem_singleton.1 hmem]
      exact hkey

theorem lowerKeys_requestOptions (h : LowerKeys d) (parts : List Bytes) :
    LowerKeys (Py.requestOptions d (parts.map Py.decodeAscii)) := by
  induction parts using List.twoStepInduction generalizing d with
  | nil | singleton _ => exact h
  | cons_cons key value rest ih =>
    refine ih ?_
    split
    · exact lowerKeys_dictSet h (lower_lower_decode key) _
    · exact h

/-- Lowering the keys once more changes nothing. -/
theorem lowerKeys_eq (h : LowerKeys d) : Py.lowerKeys d = d := by
  have hfold : ∀ (l acc : List (Py.Str × Py.Str)), (∀ kv ∈ l, Py.lower kv.1 = kv.1) →
      l.foldl (fun d kv => Py.dictSet d (Py.lower kv.1) kv.2) acc =
        l.foldl (fun d kv => Dict.set d kv.1 kv.2) acc := by
    intro l
    induction l with
    | nil => exact fun _ _ => rfl
    | cons kv l ih =>
      intro acc hl
      rw [List.foldl_cons, hl kv List.mem_cons_self, Py.dictSet_eq]
      exact ih _ fun kv' hkv' => hl kv' (List.mem_cons_of_mem _ hkv')
  rw [Py.lowerKeys, hfold d [] h.1, Dict.foldl_set [] d h.2, List.nil_append]

variable {r : Py.Request}

theorem parseRequest_ok {pkt : Bytes} (h : Py.parseRequest pkt = .ok r) :
    ∃ b₀ b₁ rest filename mode options, pkt = b₀ :: b₁ :: rest ∧
      strings rest = filename :: mode :: options ∧
      r = ⟨Wire.rd16 b₀ b₁, Py.decodeAscii filename, Py.lower (Py.decodeAscii mode),
        Py.requestOptions [] (options.map Py.decodeAscii)⟩ := by
  match pkt with
  | [] => cases h
  | [_] => cases h
  | b₀ :: b₁ :: rest =>
    by_cases hop : Wire.rd16 b₀ b₁ ≠ Py.OP_RRQ ∧ Wire.rd16 b₀ b₁ ≠ Py.OP_WRQ
    · simp only [Py.parseRequest, Py.peekOpcode, if_pos hop] at h
      cases h
    rw [Py.parseRequest_eq rest hop] at h
    split at h
    · next hs => exact ⟨_, _, _, _, _, _, rfl, hs, (Except.ok.inj h).symm⟩
    · cases h

/-- The options a Python session negotiates with. -/
theorem lookup_of_parse {pkt : Bytes} (h : Py.parseRequest pkt = .ok r) (opt : Opt) :
    (Py.lowerKeys r.options).lookup (Py.str opt.name) = (pyText pkt opt).map Py.decodeAscii := by
  obtain ⟨b₀, b₁, rest, filename, mode, options, rfl, hs, rfl⟩ := parseRequest_ok h
  have hlower := lowerKeys_requestOptions (d := []) ⟨by simp, List.nodup_nil⟩ options
  rw [lowerKeys_eq hlower, pyText_eq]
  show _ = (lastUnder opt.keyed (pairs ((strings rest).drop 2))).map Py.decodeAscii
  rw [hs]
  rfl

theorem clientInt_of_parse {pkt : Bytes} (h : Py.parseRequest pkt = .ok r) (opt : Opt) :
    Py.clientInt (Py.lowerKeys r.options) opt.name = pyNumber pkt opt := by
  rw [Py.clientInt, lookup_of_parse h, pyNumber]
  cases pyText pkt opt <;> rfl

/-! ## One configuration, read twice -/

/-- The defaults that `negotiate` reads. -/
structure Defaults where
  blksize : Int
  windowsize : Int
  timeout : Int

/-- `int(defaults.get(...))`, three times. -/
def defaultsOf (tftp : Json) : Except PyError Defaults :=
  let defaults := orEmpty (tftp.get (text "defaults"))
  (intAt defaults (text "blksize") Py.TFTP_BLKSIZE_DEFAULT).bind fun blksize =>
  (intAt defaults (text "windowsize") Py.TFTP_WINDOWSIZE_DEFAULT).bind fun windowsize =>
  (intAt defaults (text "timeout") Py.TFTP_TIMEOUT_DEFAULT).map fun timeout =>
    ⟨blksize, windowsize, timeout⟩

/-- All three policies are "client". -/
def ClientPolicies (tftp : Json) : Prop :=
  ∃ legacy : Option Py.Policy, Py.legacyPolicy tftp = legacy.map .all ∧
    ∀ name ∈ ["blksize", "windowsize", "timeout"], Py.policyAt legacy tftp (text name) = .ok .client

/-- The limits of an option are given, between `least` and `most`. -/
def GuardedLimits (yaml : Json) (keyMin keyMax : String) (least most lo hi : Nat) : Prop :=
  limitAt yaml keyMin = .ok lo ∧ limitAt yaml keyMax = .ok hi ∧
    (least ≤ lo ∧ lo ≤ most) ∧ least ≤ hi ∧ hi ≤ most

/-- The six limits. -/
structure Limits where
  blkLo : Nat
  blkHi : Nat
  winLo : Nat
  winHi : Nat
  tmoLo : Nat
  tmoHi : Nat

/-- A configuration with client policies and explicit limits within the guardrails. -/
structure ClientConfig (yaml tftp : Json) (l : Limits) : Prop where
  section_eq : sectionAt yaml "tftp" = .ok tftp
  policies : ClientPolicies tftp
  blksize : GuardedLimits yaml "blksize_min" "blksize_max" 8 65464 l.blkLo l.blkHi
  windowsize : GuardedLimits yaml "windowsize_min" "windowsize_max" 1 64 l.winLo l.winHi
  timeout : GuardedLimits yaml "timeout_min" "timeout_max" 1 60 l.tmoLo l.tmoHi

/-- A number that is not zero is read alike with and without `or 0`. -/
theorem intAt_of_intOrZeroAt {d : Json} {key : Text} {n : Int} (h : intOrZeroAt d key = .ok n)
    (hn : n ≠ 0) (dflt : Int) : intAt d key dflt = .ok n := by
  obtain ⟨o, ho, hx⟩ := bind_eq_ok.1 h
  refine bind_eq_ok.2 ⟨o, ho, ?_⟩
  cases o with
  | none => exact absurd (Except.ok.inj hx).symm hn
  | some x =>
    rw [Py.intOrZero] at hx
    split at hx
    · exact hx
    · exact absurd (Except.ok.inj hx).symm hn

variable {yaml tftp : Json}

theorem intAt_of_limitAt (ht : sectionAt yaml "tftp" = .ok tftp) {key : String} {n : Nat}
    (h : limitAt yaml key = .ok n) (hn : 1 ≤ n) (dflt : Int) :
    intAt (orEmpty (tftp.get (text "limits"))) (text key) dflt = .ok n := by
  simp only [limitAt, bind_eq_ok] at h
  obtain ⟨tftp', ht', limits, hl, hread⟩ := h
  obtain rfl := Except.ok.inj (ht.symm.trans ht')
  have hlimits : limits = orEmpty (tftp.get (text "limits")) := by
    obtain ⟨o, ho, rfl⟩ := map_eq_ok.1 hl
    cases tftp with
    | obj ms => rw [← Except.ok.inj ho]
    | _ => cases ho
  rw [← hlimits]
  exact intAt_of_intOrZeroAt hread (by omega) dflt

/-- The settings Python negotiates with. -/
def clientSettings (l : Limits) (d : Defaults) : Py.Settings :=
  ⟨⟨.client, d.blksize, l.blkLo, l.blkHi⟩, ⟨.client, d.windowsize, l.winLo, l.winHi⟩,
    ⟨.client, d.timeout, l.tmoLo, l.tmoHi⟩⟩

theorem readSettings_client {l : Limits} (h : ClientConfig yaml tftp l) {legacy : Option Py.Policy}
    (hp : ∀ name ∈ ["blksize", "windowsize", "timeout"], Py.policyAt legacy tftp (text name) = .ok .client) :
    Py.readSettings legacy tftp = (defaultsOf tftp).map (clientSettings l) := by
  obtain ⟨b1, b2, b3, b4⟩ := h.blksize
  obtain ⟨w1, w2, w3, w4⟩ := h.windowsize
  obtain ⟨t1, t2, t3, t4⟩ := h.timeout
  have hat : ∀ {key : String} {n : Nat}, limitAt yaml key = .ok n → 1 ≤ n → ∀ dflt,
      intAt (orEmpty (tftp.get (text "limits"))) (text key) dflt = .ok n :=
    fun hkey hn dflt => intAt_of_limitAt h.section_eq hkey hn dflt
  simp only [Py.readSettings, defaultsOf, hat b1 (by omega), hat b2 (by omega), hat w1 (by omega),
    hat w2 (by omega), hat t1 (by omega), hat t2 (by omega), hp "blksize" (by simp),
    hp "windowsize" (by simp), hp "timeout" (by simp)]
  cases intAt (orEmpty (tftp.get (text "defaults"))) (text "blksize") Py.TFTP_BLKSIZE_DEFAULT with
  | error e => rfl
  | ok blk =>
    cases intAt (orEmpty (tftp.get (text "defaults"))) (text "windowsize")
      Py.TFTP_WINDOWSIZE_DEFAULT with
    | error e => rfl
    | ok win =>
      cases intAt (orEmpty (tftp.get (text "defaults"))) (text "timeout")
        Py.TFTP_TIMEOUT_DEFAULT with
      | error e => rfl
      | ok tmo => rfl

/-- What Python negotiates under such a configuration. -/
theorem negotiate_client {l : Limits} (h : ClientConfig yaml tftp l) (opts : List (Py.Str × Py.Str))
    (fileSize : Option Nat) (isRead : Bool) :
    Py.negotiate opts tftp fileSize isRead = (defaultsOf tftp).map fun d =>
      Py.negotiateWith (clientSettings l d) opts fileSize isRead := by
  obtain ⟨legacy, hlegacy, hp⟩ := h.policies
  have hread := readSettings_client h hp
  unfold Py.negotiate
  rw [hlegacy]
  cases legacy with
  | none =>
    simp only [Option.map_none, hread]
    cases defaultsOf tftp <;> rfl
  | some p =>
    simp only [Option.map_some, hread]
    cases defaultsOf tftp <;> rfl

/-! ## Entries of the two OACKs -/

/-- The entry that says `n` for an option. -/
def entryOf (opt : Opt) (n : Int) : Bytes × Bytes := (ascii opt.name, wire (Json.numeral n))

theorem wire_numeral_injective {m n : Int} (h : wire (Json.numeral m) = wire (Json.numeral n)) :
    m = n := by
  have hback : ∀ k : Int, (wire (Json.numeral k)).map (·.toNat) = Json.numeral k := by
    intro k
    rw [wire, List.map_map]
    refine (List.map_congr_left fun c hc => ?_).trans (List.map_id _)
    exact UInt8.toNat_ofNat_of_lt' (Nat.lt_trans (Py.numeral_lt k c hc) (by decide))
  apply Json.numeral_injective
  rw [← hback m, ← hback n, h]

theorem entryOf_injective {a b : Opt} {m n : Int} (h : entryOf a m = entryOf b n) :
    a = b ∧ m = n :=
  ⟨ascii_name_injective (Prod.mk.inj h).1, wire_numeral_injective (Prod.mk.inj h).2⟩

/-- Entries given option by option are the same exactly when the values are. -/
theorem same_entries_iff (f g : Opt → Option Int) :
    (∀ kv, (∃ opt n, f opt = some n ∧ kv = entryOf opt n) ↔
      ∃ opt n, g opt = some n ∧ kv = entryOf opt n) ↔ ∀ opt, f opt = g opt := by
  constructor
  · intro h opt
    have hgo : ∀ n, f opt = some n ↔ g opt = some n := by
      intro n
      constructor
      · intro hf
        obtain ⟨opt', n', hg, heq⟩ := (h (entryOf opt n)).1 ⟨opt, n, hf, rfl⟩
        obtain ⟨rfl, rfl⟩ := entryOf_injective heq
        exact hg
      · intro hg
        obtain ⟨opt', n', hf, heq⟩ := (h (entryOf opt n)).2 ⟨opt, n, hg, rfl⟩
        obtain ⟨rfl, rfl⟩ := entryOf_injective heq
        exact hf
    exact Option.ext hgo
  · intro h kv
    simp only [h]

/-- The entries of the C engine's OACK. -/
theorem mem_oackEntries_iff (n : TftpReq) (kv : Bytes × Bytes) :
    kv ∈ oackEntries n ↔
      ∃ opt m, (opt.field n).map (fun x : Nat => (x : Int)) = some m ∧ kv = entryOf opt m := by
  obtain ⟨k, v⟩ := kv
  rw [oackEntries_eq, List.mem_flatMap]
  constructor
  · rintro ⟨opt, -, hentry⟩
    obtain ⟨rfl, x, hx, rfl⟩ := mem_oackEntry.1 hentry
    exact ⟨opt, x, by rw [Option.mem_def.1 hx]; rfl, by rw [entryOf, decimal_eq_wire]⟩
  · rintro ⟨opt, m, hm, hkv⟩
    obtain ⟨x, hx, rfl⟩ := Option.map_eq_some_iff.1 hm
    obtain ⟨rfl, rfl⟩ := Prod.mk.inj hkv
    refine ⟨opt, by cases opt <;> simp, mem_oackEntry.2 ⟨rfl, x, hx, ?_⟩⟩
    exact (decimal_eq_wire x).symm

/-- The entries of a reply, as they are sent. -/
def sentEntries (neg : Py.Negotiated) : List (Bytes × Bytes) :=
  neg.reply.map fun kv => (Py.encodeAscii kv.1, Py.encodeAscii kv.2)

theorem encode_intStr (n : Int) : Py.encodeAscii (Py.intStr n) = wire (Json.numeral n) := by
  have hchar : ∀ c < 128, (if (Char.ofNat c).toNat < 128 then UInt8.ofNat (Char.ofNat c).toNat
      else 63) = UInt8.ofNat c := by
    decide
  rw [Py.encodeAscii, Py.intStr, List.map_map]
  exact List.map_congr_left fun c hc => hchar c (Py.numeral_lt n c hc)

theorem encode_name (opt : Opt) : Py.encodeAscii (Py.str opt.name) = ascii opt.name := by
  cases opt <;> decide

theorem mem_encoded_replyIf {opt : Opt} {asked : Option Int} {value : Int} {kv : Bytes × Bytes} :
    kv ∈ (Py.replyIf asked opt.name value).map (fun e => (Py.encodeAscii e.1, Py.encodeAscii e.2)) ↔
      ∃ n, asked.map (fun _ => value) = some n ∧ kv = entryOf opt n := by
  cases asked with
  | none => simp [Py.replyIf]
  | some v => simp [Py.replyIf, encode_intStr, encode_name, entryOf]

/-- What Python's reply has for an option. -/
def pyEntry (neg : Py.Negotiated) (pkt : Bytes) (fileSize : Option Nat) (isRead : Bool) :
    Opt → Option Int
  | .blksize => (pyNumber pkt .blksize).map fun _ => neg.blksize
  | .windowsize => (pyNumber pkt .windowsize).map fun _ => neg.windowsize
  | .timeout => (pyNumber pkt .timeout).map fun _ => neg.timeout
  | .tsize =>
    if isRead then (pyText pkt .tsize).bind fun _ => fileSize.map fun n : Nat => (n : Int)
    else pyNumber pkt .tsize

theorem mem_encoded_replyTsize {pkt : Bytes} (h : Py.parseRequest pkt = .ok r) (neg : Py.Negotiated)
    (fileSize : Option Nat) (isRead : Bool) (kv : Bytes × Bytes) :
    kv ∈ (Py.replyTsize (Py.lowerKeys r.options) fileSize isRead).map
        (fun e => (Py.encodeAscii e.1, Py.encodeAscii e.2)) ↔
      ∃ n, pyEntry neg pkt fileSize isRead .tsize = some n ∧ kv = entryOf .tsize n := by
  have hname : Py.encodeAscii (Py.str "tsize") = ascii "tsize" := encode_name .tsize
  have hlookup := lookup_of_parse h .tsize
  simp only [Opt.name] at hlookup
  rw [Py.replyTsize, hlookup]
  simp only [pyEntry, pyNumber]
  cases pyText pkt .tsize with
  | none => cases isRead <;> simp
  | some v =>
    cases isRead with
    | true =>
      cases fileSize with
      | none => simp
      | some n => simp [encode_intStr, hname, entryOf, Opt.name]
    | false =>
      cases hnum : Py.clientNumber (Py.decodeAscii v) with
      | none => simp [hnum]
      | some n => simp [hnum, encode_intStr, hname, entryOf, Opt.name]

theorem mem_sentEntries {pkt : Bytes} (h : Py.parseRequest pkt = .ok r) (st : Py.Settings)
    (fileSize : Option Nat) (isRead : Bool) (kv : Bytes × Bytes) :
    kv ∈ sentEntries (Py.negotiateWith st r.options fileSize isRead) ↔
      ∃ opt n, pyEntry (Py.negotiateWith st r.options fileSize isRead) pkt fileSize isRead opt =
        some n ∧ kv = entryOf opt n := by
  have hblk := clientInt_of_parse h .blksize
  have hwin := clientInt_of_parse h .windowsize
  have htmo := clientInt_of_parse h .timeout
  generalize hneg : Py.negotiateWith st r.options fileSize isRead = neg
  have hreply : neg.reply =
      Py.replyIf (pyNumber pkt .blksize) Opt.blksize.name neg.blksize ++
      Py.replyIf (pyNumber pkt .windowsize) Opt.windowsize.name neg.windowsize ++
      Py.replyIf (pyNumber pkt .timeout) Opt.timeout.name neg.timeout ++
      Py.replyTsize (Py.lowerKeys r.options) fileSize isRead := by
    rw [← hneg, ← hblk, ← hwin, ← htmo]
    rfl
  rw [sentEntries, hreply, List.map_append, List.map_append, List.map_append, List.mem_append,
    List.mem_append, List.mem_append, mem_encoded_replyIf, mem_encoded_replyIf, mem_encoded_replyIf,
    mem_encoded_replyTsize h neg]
  constructor
  · rintro (((⟨n, hn, hkv⟩ | ⟨n, hn, hkv⟩) | ⟨n, hn, hkv⟩) | ⟨n, hn, hkv⟩)
    · exact ⟨.blksize, n, hn, hkv⟩
    · exact ⟨.windowsize, n, hn, hkv⟩
    · exact ⟨.timeout, n, hn, hkv⟩
    · exact ⟨.tsize, n, hn, hkv⟩
  · rintro ⟨opt, n, hn, hkv⟩
    cases opt with
    | blksize => exact .inl (.inl (.inl ⟨n, hn, hkv⟩))
    | windowsize => exact .inl (.inl (.inr ⟨n, hn, hkv⟩))
    | timeout => exact .inl (.inr ⟨n, hn, hkv⟩)
    | tsize => exact .inr ⟨n, hn, hkv⟩

/-! ## The two outcomes -/

/-- The size `src_open_read` finds for a file of `n` bytes: `ftell` has 32 bits and reports an
    error beyond them, which counts as 0. -/
def ftellSize (n : Nat) : UInt64 := if n < 2 ^ 31 then UInt64.ofNat n else 0

/-- A session the C engine starts, and does not turn down, for a request on a file of `size`
    bytes. -/
def Starts (cfg : Config) (req : TftpReq) (size : Nat) (x : Ctx) : Prop :=
  x.s.state ≠ .done ∧ ∃ (now : Clock) (env : Env) (s : CCore.Session) (batch : PcapBatch)
    (stats : SessStats),
    if req.opcode = TFTP_RRQ then
      (∀ src sz, env.openRead req.filename = some (src, sz) → sz = ftellSize size) ∧
      x = startRrq cfg now env req ⟨s, batch, stats, []⟩
    else x = startWrq cfg now env req ⟨s, batch, stats, []⟩

/-- The answer the C engine gives to a request. -/
def cReply (cfg : Config) (req : TftpReq) (size : Nat) : TftpReq :=
  if req.opcode = TFTP_RRQ then rrqReply cfg req (ftellSize size) else negotiate cfg req

theorem begun_of_starts {cfg : Config} {req : TftpReq} {size : Nat} {x : Ctx}
    (h : Starts cfg req size x) : Begun (cReply cfg req size) x := by
  obtain ⟨hlive, now, env, s, batch, stats, h⟩ := h
  unfold cReply
  by_cases hop : req.opcode = TFTP_RRQ
  · rw [if_pos hop] at h ⊢
    obtain ⟨hsize, rfl⟩ := h
    rcases startRrq_begun cfg now env req (c := ⟨s, batch, stats, []⟩) rfl with
      ⟨hdone, -⟩ | ⟨src, sz, hopen, hbegun⟩
    · exact absurd hdone hlive
    · rw [hsize src sz hopen] at hbegun
      exact hbegun
  · rw [if_neg hop] at h ⊢
    subst h
    rcases startWrq_begun cfg now env req (c := ⟨s, batch, stats, []⟩) rfl with
      ⟨hdone, -⟩ | hbegun
    · exact absurd hdone hlive
    · exact hbegun

/-- The same parameters for the transfer, and the same entries in the OACK. -/
structure SameOutcome (neg : Py.Negotiated) (x : Ctx) : Prop where
  blksize : (x.s.blksize.toNat : Int) = neg.blksize
  windowsize : (x.s.windowsize.toNat : Int) = neg.windowsize
  timeout : (x.s.timeoutSec.toNat : Int) = neg.timeout
  entries : ∀ kv, kv ∈ (oacks x.out).flatMap readOack ↔ kv ∈ sentEntries neg

theorem oackEntries_nil {n : TftpReq} (h : hasOptions n = false) : oackEntries n = [] := by
  obtain ⟨op, fn, mode, blk, win, tmo, tsz⟩ := n
  simp only [hasOptions, Bool.or_eq_false_iff, Option.isSome_eq_false_iff,
    Option.isNone_iff_eq_none] at h
  obtain ⟨⟨⟨rfl, rfl⟩, rfl⟩, rfl⟩ := h
  rfl

theorem entries_of_begun {reply : TftpReq} {x : Ctx} (h : Begun reply x) :
    (oacks x.out).flatMap readOack = oackEntries reply := by
  rw [h.oacks]
  cases hopts : hasOptions reply with
  | true =>
    rw [if_pos rfl, List.flatMap_cons, readOack_build]
    exact List.append_nil _
  | false => rw [if_neg (by decide), oackEntries_nil hopts, List.flatMap_nil]

theorem opcode_of_parses {pkt : Bytes} {req : TftpReq} (hpy : Py.parseRequest pkt = .ok r)
    (hc : tftpParseRequest pkt = some req) : r.opcode = req.opcode := by
  rw [tftpParseRequest_eq] at hc
  obtain ⟨scan, hscan, rfl⟩ := Option.map_eq_some_iff.1 hc
  obtain ⟨_, _, _, _, _, _, rfl, -, rfl⟩ := parseRequest_ok hpy
  rw [(toReq_fixed scan).1]
  obtain ⟨_, _, _, _, _, _, heq, -, rfl⟩ := scanRequest_some hscan
  cases heq
  rfl

/-! ## Where they agree -/

/-- An option is settled alike: neither engine reads a number, or both do and the limits leave no
    difference between the two numbers. -/
def OptionAlike (lo hi : Nat) : Option Nat → Option Int → Prop
  | none, none => True
  | some x, some y =>
    lo = hi ∨ lo < hi ∧ ((x : Int) = y ∨ (x ≤ lo ∧ y ≤ lo) ∨ (hi ≤ x ∧ (hi : Int) ≤ y))
  | _, _ => False

theorem optionAlike_iff (lo hi : Nat) (c : Option Nat) (p : Option Int) :
    OptionAlike lo hi c p ↔
      c.map (fun x => ((min hi (max lo x) : Nat) : Int)) =
        p.map fun y => max (lo : Int) (min (hi : Int) y) := by
  cases c with
  | none => cases p <;> simp [OptionAlike]
  | some x =>
    cases p with
    | none => simp [OptionAlike]
    | some y =>
      simp only [OptionAlike, Option.map_some, Option.some.injEq]
      omega

/-- `tsize`: of a read, both engines see it or neither does, and the size fits `ftell`; of a write,
    both engines read the same number. -/
def TsizeAlike (pkt : Bytes) (size : Nat) (isRead : Bool) : Prop :=
  if isRead then
    (cNumber pkt .tsize).isSome = (pyText pkt .tsize).isSome ∧
      ((pyText pkt .tsize).isSome → size < 2 ^ 31)
  else (cNumber pkt .tsize).map (fun x : Nat => (x : Int)) = pyNumber pkt .tsize

/-- The engine has exactly these limits. -/
structure HasLimits (cfg : Config) (l : Limits) : Prop where
  blkLo : cfg.blksizeMin.toNat = l.blkLo
  blkHi : cfg.blksizeMax.toNat = l.blkHi
  winLo : cfg.windowsizeMin.toNat = l.winLo
  winHi : cfg.windowsizeMax.toNat = l.winHi
  tmoLo : cfg.timeoutMin.toNat = l.tmoLo
  tmoHi : cfg.timeoutMax.toNat = l.tmoHi
  blkTop : l.blkHi ≤ 65464
  winTop : l.winHi ≤ 64
  tmoTop : l.tmoHi ≤ 60

theorem toNat_sent {yaml : Json} {keyMin keyMax : String} {least most lo hi : Nat} {a b : UInt32}
    (hsent : SentLimits yaml keyMin keyMax a b)
    (h : GuardedLimits yaml keyMin keyMax least most lo hi) (hmost : most < 2 ^ 32) :
    a.toNat = lo ∧ b.toNat = hi := by
  obtain ⟨m, n, hm, hn, rfl, rfl⟩ := hsent
  obtain ⟨hlo, hhi, hlo', hhi'⟩ := h
  obtain rfl := Except.ok.inj (hm.symm.trans hlo)
  obtain rfl := Except.ok.inj (hn.symm.trans hhi)
  exact ⟨toNat_arrives32 (by omega), toNat_arrives32 (by omega)⟩

theorem hasLimits_of_pushed {c cfg : Config} {l : Limits} (hpush : Pushed c yaml cfg)
    (h : ClientConfig yaml tftp l) : HasLimits cfg l := by
  obtain ⟨sb, sw, st⟩ := hpush.limits
  obtain ⟨b1, b2⟩ := toNat_sent sb h.blksize (by decide)
  obtain ⟨w1, w2⟩ := toNat_sent sw h.windowsize (by decide)
  obtain ⟨t1, t2⟩ := toNat_sent st h.timeout (by decide)
  exact ⟨b1, b2, w1, w2, t1, t2, h.blksize.2.2.2.2, h.windowsize.2.2.2.2, h.timeout.2.2.2.2⟩

theorem map_clampOpt {lo hi : UInt32} {a b : Nat} (hlo : lo.toNat = a) (hhi : hi.toNat = b)
    (o : Option UInt32) :
    (o.map (clampOpt lo hi)).map (·.toNat) = (o.map (·.toNat)).map fun x => min b (max a x) := by
  cases o with
  | none => rfl
  | some x => simp [toNat_clampOpt, hlo, hhi]

section Reply

variable {cfg : Config} {l : Limits} (hl : HasLimits cfg l) {pkt : Bytes} {req : TftpReq}
  (hc : tftpParseRequest pkt = some req) (size : Nat)

include hl hc

/-- The clamped options of the C engine's answer. -/
theorem reply_options :
    (cReply cfg req size).blksize.map (·.toNat) =
      (cNumber pkt .blksize).map (fun x => min l.blkHi (max l.blkLo x)) ∧
    (cReply cfg req size).windowsize.map (·.toNat) =
      (cNumber pkt .windowsize).map (fun x => min l.winHi (max l.winLo x)) ∧
    (cReply cfg req size).timeoutSec.map (·.toNat) =
      (cNumber pkt .timeout).map (fun x => min l.tmoHi (max l.tmoLo x)) := by
  have hb := map_clampOpt hl.blkLo hl.blkHi req.blksize
  have hw := map_clampOpt hl.winLo hl.winHi req.windowsize
  have ht := map_clampOpt hl.tmoLo hl.tmoHi req.timeoutSec
  rw [← field_of_parse hc, ← field_of_parse hc, ← field_of_parse hc]
  unfold cReply
  split
  · exact ⟨hb, hw, ht⟩
  · exact ⟨hb, hw, ht⟩

end Reply

theorem reply_tsize (cfg : Config) {pkt : Bytes} {req : TftpReq}
    (hc : tftpParseRequest pkt = some req) (size : Nat) :
    (cReply cfg req size).tsize.map (·.toNat) =
      if req.opcode = TFTP_RRQ then (cNumber pkt .tsize).map fun _ => (ftellSize size).toNat
      else cNumber pkt .tsize := by
  rw [← field_of_parse hc .tsize]
  unfold cReply
  split
  · show (req.tsize.map fun _ => ftellSize size).map (·.toNat) =
      (req.tsize.map (·.toNat)).map fun _ => (ftellSize size).toNat
    rw [Option.map_map, Option.map_map]
    rfl
  · rfl

/-- The parameters of the session, once the answer is known to fit. -/
theorem parameters_of_begun {reply : TftpReq} {x : Ctx} (h : Begun reply x)
    (hb : ∀ v ∈ reply.blksize, v.toNat ≤ 65535) (hw : ∀ v ∈ reply.windowsize, v.toNat ≤ 255)
    (ht : ∀ v ∈ reply.timeoutSec, v.toNat ≤ 65535) :
    x.s.blksize.toNat = (reply.blksize.map (·.toNat)).getD 512 ∧
    x.s.windowsize.toNat = (reply.windowsize.map (·.toNat)).getD 1 ∧
    x.s.timeoutSec.toNat = (reply.timeoutSec.map (·.toNat)).getD 5 := by
  obtain ⟨pb, pw, pt⟩ := h.parameters
  simp only [withOptions] at pb pw pt
  rw [pb, pw, pt]
  refine ⟨?_, ?_, ?_⟩
  · cases hv : reply.blksize with
    | none => rfl
    | some v => exact toNat_toUInt16 (hb v hv)
  · cases hv : reply.windowsize with
    | none => rfl
    | some v => exact toNat_toUInt8 (hw v hv)
  · cases hv : reply.timeoutSec with
    | none => rfl
    | some v => exact toNat_toUInt16 (ht v hv)

theorem le_of_map_min {o : Option UInt32} {c : Option Nat} {a b top : Nat}
    (h : o.map (·.toNat) = c.map fun x => min b (max a x)) (htop : b ≤ top) :
    ∀ v ∈ o, v.toNat ≤ top := by
  intro v hv
  rw [Option.mem_def.1 hv, Option.map_some] at h
  obtain ⟨x, -, hx⟩ := Option.map_eq_some_iff.1 h.symm
  omega

/-- The condition under which the two engines negotiate alike. -/
structure ReadAlike (pkt : Bytes) (l : Limits) (d : Defaults) (size : Nat) (isRead : Bool) :
    Prop where
  blksize : OptionAlike l.blkLo l.blkHi (cNumber pkt .blksize) (pyNumber pkt .blksize)
  windowsize : OptionAlike l.winLo l.winHi (cNumber pkt .windowsize) (pyNumber pkt .windowsize)
  timeout : OptionAlike l.tmoLo l.tmoHi (cNumber pkt .timeout) (pyNumber pkt .timeout)
  /-- the C engine has 5 seconds for a client that does not ask -/
  silent : cNumber pkt .timeout = none → max (l.tmoLo : Int) (min (l.tmoHi : Int) d.timeout) = 5
  tsize : TsizeAlike pkt size isRead

theorem settle_client (d lo hi classic : Int) (p : Option Int) :
    Py.settle ⟨.client, d, lo, hi⟩ classic p = (p.map fun y => max lo (min hi y)).getD classic := by
  cases p with
  | none => simp [Py.settle]
  | some y => simp [Py.settle, Py.pick]

theorem pick_client (d lo hi : Int) (p : Option Int) :
    Py.pick ⟨.client, d, lo, hi⟩ p =
      (p.map fun y => max lo (min hi y)).getD (max lo (min hi d)) := by
  cases p <;> rfl

/-- The parameters Python settles on. -/
theorem negotiated_client (l : Limits) (d : Defaults) {pkt : Bytes}
    (hpy : Py.parseRequest pkt = .ok r) (fileSize : Option Nat) (isRead : Bool) :
    let neg := Py.negotiateWith (clientSettings l d) r.options fileSize isRead
    neg.blksize = ((pyNumber pkt .blksize).map fun y =>
      max (l.blkLo : Int) (min (l.blkHi : Int) y)).getD 512 ∧
    neg.windowsize = ((pyNumber pkt .windowsize).map fun y =>
      max (l.winLo : Int) (min (l.winHi : Int) y)).getD 1 ∧
    neg.timeout = ((pyNumber pkt .timeout).map fun y =>
      max (l.tmoLo : Int) (min (l.tmoHi : Int) y)).getD
        (max (l.tmoLo : Int) (min (l.tmoHi : Int) d.timeout)) := by
  rw [← clientInt_of_parse hpy, ← clientInt_of_parse hpy, ← clientInt_of_parse hpy]
  exact ⟨settle_client .., settle_client .., pick_client ..⟩

theorem map_const_getD {α β : Type} (p : Option α) (f : α → β) (e : β) :
    (p.map fun _ => (p.map f).getD e) = p.map f := by
  cases p <;> rfl

theorem map_toNat_cast (o : Option UInt32) {c : Option Nat} {f : Nat → Nat}
    (h : o.map (·.toNat) = c.map f) :
    (o.map (·.toNat)).map (fun x : Nat => (x : Int)) = c.map fun x => ((f x : Nat) : Int) := by
  rw [h, Option.map_map]
  rfl

/-- `tsize` in the two answers. -/
theorem tsize_alike_iff (cfg : Config) {pkt : Bytes} {req : TftpReq}
    (hc : tftpParseRequest pkt = some req) (neg : Py.Negotiated) (size : Nat) {isRead : Bool}
    (hread : isRead = decide (req.opcode = TFTP_RRQ)) :
    (Opt.tsize.field (cReply cfg req size)).map (fun x : Nat => (x : Int)) =
        pyEntry neg pkt (if isRead then some size else none) isRead .tsize ↔
      TsizeAlike pkt size isRead := by
  have hfield : Opt.tsize.field (cReply cfg req size) = _ := reply_tsize cfg hc size
  rw [hfield, pyEntry, TsizeAlike]
  cases isRead with
  | false =>
    have hop : ¬ req.opcode = TFTP_RRQ := of_decide_eq_false hread.symm
    rw [if_neg hop, if_neg (by decide), if_neg (by decide)]
  | true =>
    have hop : req.opcode = TFTP_RRQ := of_decide_eq_true hread.symm
    have hsize : ((ftellSize size).toNat : Int) = size ↔ size < 2 ^ 31 := by
      unfold ftellSize
      split
      · next h =>
        rw [UInt64.toNat_ofNat_of_lt' (by show size < 2 ^ 64; omega)]
        exact iff_of_true rfl h
      · next h =>
        show ((0 : Nat) : Int) = size ↔ _
        omega
    rw [if_pos hop, if_pos rfl, if_pos rfl]
    cases cNumber pkt .tsize with
    | none => cases pyText pkt .tsize <;> simp
    | some x =>
      cases pyText pkt .tsize with
      | none => simp
      | some v =>
        simp only [Option.map_some, Option.bind_some, Option.some.injEq, Option.isSome_some,
          true_and, forall_const]
        exact hsize

theorem sameOutcome_iff {cfg : Config} {l : Limits} (hl : HasLimits cfg l) {pkt : Bytes}
    {req : TftpReq} (hpy : Py.parseRequest pkt = .ok r) (hc : tftpParseRequest pkt = some req)
    (d : Defaults) (size : Nat) {x : Ctx} (hx : Begun (cReply cfg req size) x) {isRead : Bool}
    (hread : isRead = decide (req.opcode = TFTP_RRQ)) :
    SameOutcome (Py.negotiateWith (clientSettings l d) r.options
        (if isRead then some size else none) isRead) x ↔
      ReadAlike pkt l d size isRead := by
  obtain ⟨rb, rw', rt⟩ := reply_options hl hc size
  obtain ⟨eb, ew, et⟩ := parameters_of_begun hx
    (le_of_map_min rb (Nat.le_trans hl.blkTop (by decide)))
    (le_of_map_min rw' (Nat.le_trans hl.winTop (by decide)))
    (le_of_map_min rt (Nat.le_trans hl.tmoTop (by decide)))
  obtain ⟨nb, nw, nt⟩ := negotiated_client l d hpy (if isRead then some size else none) isRead
  have hmem := mem_sentEntries hpy (clientSettings l d) (if isRead then some size else none) isRead
  have htsize := tsize_alike_iff cfg hc (Py.negotiateWith (clientSettings l d) r.options
    (if isRead then some size else none) isRead) size hread
  generalize Py.negotiateWith (clientSettings l d) r.options
    (if isRead then some size else none) isRead = neg at nb nw nt hmem htsize ⊢
  -- the entries agree exactly when each option has the same value in both answers
  let Same (opt : Opt) : Prop := (opt.field (cReply cfg req size)).map (fun x : Nat => (x : Int)) =
    pyEntry neg pkt (if isRead then some size else none) isRead opt
  have hentries : (∀ kv, kv ∈ (oacks x.out).flatMap readOack ↔ kv ∈ sentEntries neg) ↔
      ∀ opt, Same opt := by
    rw [← same_entries_iff, entries_of_begun hx]
    simp only [mem_oackEntries_iff, hmem]
  have hblk : Same .blksize ↔
      OptionAlike l.blkLo l.blkHi (cNumber pkt .blksize) (pyNumber pkt .blksize) := by
    simp only [Same, optionAlike_iff, pyEntry, nb, map_const_getD, Opt.field, map_toNat_cast _ rb]
  have hwin : Same .windowsize ↔
      OptionAlike l.winLo l.winHi (cNumber pkt .windowsize) (pyNumber pkt .windowsize) := by
    simp only [Same, optionAlike_iff, pyEntry, nw, map_const_getD, Opt.field, map_toNat_cast _ rw']
  have htmo : Same .timeout ↔
      OptionAlike l.tmoLo l.tmoHi (cNumber pkt .timeout) (pyNumber pkt .timeout) := by
    simp only [Same, optionAlike_iff, pyEntry, nt, map_const_getD, Opt.field, map_toNat_cast _ rt]
  constructor
  · rintro ⟨-, -, htimeout, hsame⟩
    have hopts := hentries.1 hsame
    refine ⟨hblk.1 (hopts .blksize), hwin.1 (hopts .windowsize), htmo.1 (hopts .timeout), ?_,
      htsize.1 (hopts .tsize)⟩
    -- without the option each side keeps its own default
    intro hnone
    have halike := htmo.1 (hopts .timeout)
    rw [hnone] at halike
    cases hp : pyNumber pkt .timeout with
    | some y => simp [hp, OptionAlike] at halike
    | none =>
      rw [hp] at nt
      rw [et, rt, hnone, nt] at htimeout
      exact htimeout.symm
  · rintro ⟨ablk, awin, atmo, hsilent, atsz⟩
    rw [optionAlike_iff] at ablk awin atmo
    refine ⟨?_, ?_, ?_, hentries.2 ?_⟩
    · rw [eb, rb, nb, ← ablk]
      cases cNumber pkt .blksize <;> rfl
    · rw [ew, rw', nw, ← awin]
      cases cNumber pkt .windowsize <;> rfl
    · rw [et, rt, nt, ← atmo]
      cases hnum : cNumber pkt .timeout with
      | none => exact (hsilent hnum).symm
      | some y => rfl
    · intro opt
      cases opt with
      | blksize => exact hblk.2 ((optionAlike_iff ..).2 ablk)
      | windowsize => exact hwin.2 ((optionAlike_iff ..).2 awin)
      | timeout => exact htmo.2 ((optionAlike_iff ..).2 atmo)
      | tsize => exact htsize.2 atsz

/-- Is the request a read? -/
def isRead (r : Py.Request) : Bool := decide (r.opcode = Py.OP_RRQ)

/-- What the Python session negotiates for a request on a file of `size` bytes. -/
def pyNegotiate (tftp : Json) (r : Py.Request) (size : Nat) : Except PyError Py.Negotiated :=
  Py.negotiate r.options tftp (if isRead r then some size else none) (isRead r)

/-- **Negotiation in the two engines.**  Under client policies and limits within the guardrails,
    a session that the C engine starts has the parameters and the OACK that the Python engine
    negotiates exactly when Python can read its defaults and both engines read the options
    alike. -/
theorem negotiate_alike_iff {c cfg : Config} {yaml tftp : Json} {l : Limits}
    (hpush : Pushed c yaml cfg) (hcfg : ClientConfig yaml tftp l) {pkt : Bytes} {r : Py.Request}
    {req : TftpReq} (hpy : Py.parseRequest pkt = .ok r) (hc : tftpParseRequest pkt = some req)
    (size : Nat) {x : Ctx} (hx : Starts cfg req size x) :
    (∃ neg, pyNegotiate tftp r size = .ok neg ∧ SameOutcome neg x) ↔
      ∃ d, defaultsOf tftp = .ok d ∧ ReadAlike pkt l d size (isRead r) := by
  have hl := hasLimits_of_pushed hpush hcfg
  have hop : isRead r = decide (req.opcode = TFTP_RRQ) := by
    rw [isRead, opcode_of_parses hpy hc]
    rfl
  have hiff := fun d => sameOutcome_iff hl hpy hc d size (begun_of_starts hx) hop
  rw [pyNegotiate, negotiate_client hcfg]
  constructor
  · rintro ⟨neg, hneg, hsame⟩
    obtain ⟨d, hd, rfl⟩ := map_eq_ok.1 hneg
    exact ⟨d, hd, (hiff d).1 hsame⟩
  · rintro ⟨d, hd, hread⟩
    exact ⟨_, map_eq_ok.2 ⟨d, hd, rfl⟩, (hiff d).2 hread⟩

/-- The `tftp` section of `plainLimits`. -/
def plainTftp : Json :=
  .obj [(text "limits", .obj
    [(text "blksize_min", .int 8), (text "blksize_max", .int 1468), (text "windowsize_min", .int 1),
      (text "windowsize_max", .int 64), (text "timeout_min", .int 1),
      (text "timeout_max", .int 60)])]

theorem clientConfig_plain : ClientConfig plainLimits plainTftp ⟨8, 1468, 1, 64, 1, 60⟩ where
  section_eq := rfl
  policies := by
    refine ⟨none, rfl, ?_⟩
    intro name hname
    simp only [List.mem_cons, List.not_mem_nil, or_false] at hname
    rcases hname with rfl | rfl | rfl <;> rfl
  blksize := ⟨rfl, rfl, by decide⟩
  windowsize := ⟨rfl, rfl, by decide⟩
  timeout := ⟨rfl, rfl, by decide⟩

theorem pushed_plainLimits : ∃ cfg, Pushed configDefaults plainLimits cfg := by
  refine ⟨_, pushed_of_finite configDefaults ?_ rfl⟩
  simp [plainLimits, Json.Finite, Json.FiniteMembers, Json.FiniteMember]

theorem starts_emptyFiles (cfg : Config) {req : TftpReq} (hop : req.opcode = TFTP_RRQ)
    (hopts : hasOptions (rrqReply cfg req 0) = true) :
    Starts cfg req 0 (startRrq cfg someClock emptyFiles req ⟨.zero, .new BATCH_CAP, {}, []⟩) := by
  refine ⟨(begun_emptyFiles cfg req).live hopts, someClock, emptyFiles, .zero, .new BATCH_CAP, {}, ?_⟩
  rw [if_pos hop]
  refine ⟨?_, rfl⟩
  rintro src sz ⟨⟩
  rfl

/-- A read that asks for the least of every option is negotiated alike. -/
theorem least_negotiated_alike :
    ∃ cfg r x neg, Pushed configDefaults plainLimits cfg ∧ Py.parseRequest leastRequest = .ok r ∧
      Starts cfg leastReq 0 x ∧ pyNegotiate plainTftp r 0 = .ok neg ∧ SameOutcome neg x := by
  obtain ⟨cfg, hpush⟩ := pushed_plainLimits
  have hpy : Py.parseRequest leastRequest = .ok ⟨1, Py.str "f", Py.str "octet",
      [(Py.str "blksize", Py.str "8"), (Py.str "windowsize", Py.str "1"),
        (Py.str "timeout", Py.str "1")]⟩ := by
    decide +kernel
  have hstart := starts_emptyFiles cfg (show leastReq.opcode = TFTP_RRQ from rfl) rfl
  have hread : ReadAlike leastRequest ⟨8, 1468, 1, 64, 1, 60⟩ ⟨1468, 4, 3⟩ 0 true := by
    refine ⟨?_, ?_, ?_, ?_, ?_⟩
    · exact .inr ⟨by decide, .inl rfl⟩
    · exact .inr ⟨by decide, .inl rfl⟩
    · exact .inr ⟨by decide, .inl rfl⟩
    · rintro ⟨⟩
    · exact ⟨rfl, fun h => absurd h (by decide)⟩
  obtain ⟨neg, hneg, hsame⟩ := (negotiate_alike_iff hpush clientConfig_plain hpy parse_leastRequest 0
    hstart).2 ⟨_, rfl, hread⟩
  exact ⟨cfg, _, _, neg, hpush, hpy, hstart, hneg, hsame⟩

/-- A read that asks for blocks of 70000 bytes, and for the size. -/
def largeRequest : Bytes :=
  [0, 1] ++ pack (["f", "octet", "blksize", "70000", "tsize", "0"].map ascii)

/-- What the C engine parses it as: the block size is dropped. -/
def largeReq : TftpReq := ⟨TFTP_RRQ, ascii "f", ascii "octet", none, none, none, some 0⟩

/-- The C engine does not clamp a block size that is out of range: it transfers blocks of 512 bytes
    where the Python engine agrees on 1468. -/
theorem large_blksize_dropped :
    ∃ cfg r x, Pushed configDefaults plainLimits cfg ∧
      ClientConfig plainLimits plainTftp ⟨8, 1468, 1, 64, 1, 60⟩ ∧
      Py.parseRequest largeRequest = .ok r ∧ tftpParseRequest largeRequest = some largeReq ∧
      Starts cfg largeReq 0 x ∧ x.s.blksize = 512 ∧
      pyNegotiate plainTftp r 0 = .ok ⟨1468, 1, 3, some 0,
        [(Py.str "blksize", Py.str "1468"), (Py.str "tsize", Py.str "0")]⟩ := by
  obtain ⟨cfg, hpush⟩ := pushed_plainLimits
  have hpy : Py.parseRequest largeRequest = .ok ⟨1, Py.str "f", Py.str "octet",
      [(Py.str "blksize", Py.str "70000"), (Py.str "tsize", Py.str "0")]⟩ := by
    decide +kernel
  have hc : tftpParseRequest largeRequest = some largeReq := by decide +kernel
  refine ⟨cfg, _, _, hpush, clientConfig_plain, hpy, hc, starts_emptyFiles cfg rfl rfl,
    (begun_emptyFiles cfg largeReq).parameters.1, ?_⟩
  decide +kernel

end Nishro
