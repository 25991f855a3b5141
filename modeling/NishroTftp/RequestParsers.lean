import NishroTftp.CCore.Tftp
import NishroTftp.Lib.Dict
import NishroTftp.Lib.ZStrings
import NishroTftp.Py.Protocol
/-
  The two parsers of RRQ and WRQ packets side by side: `tftp_parse_request` of the C engine and
  `protocol.parse_request` of the Python engine.

  Both are reduced to the strings of the packet (`ZStrings`).  The C scanner takes the TERMINATED
  strings only; the Python one also takes a tail that no NUL ends, as its docstring says.  Where a
  packet ends within its mode, or within the value of an option that matters, the two differ; and
  a byte above 127 is U+FFFD in the Python texts, the byte itself in the C ones.
-/
namespace Nishro.CCore

open Nishro.Wire ZStrings

/-! ## The C scanner -/

/-- What `tftp_parse_request` scans: opcode and strings, before any value is converted. -/
structure Scan where
  opcode : UInt16
  filename : Bytes
  mode : Bytes
  options : List (Bytes × Bytes)
deriving DecidableEq, Repr

/-- The strings of a request that the C parser accepts. -/
def scanRequest : Bytes → Option Scan
  | b₀ :: b₁ :: rest =>
    if rd16 b₀ b₁ ≠ TFTP_RRQ ∧ rd16 b₀ b₁ ≠ TFTP_WRQ then none
    else
      match terminated rest with
      | filename :: mode :: options => some ⟨rd16 b₀ b₁, filename, mode, pairs options⟩
      | _ => none
  | _ => none

/-- The options both engines know. -/
inductive Opt
  | blksize
  | windowsize
  | timeout
  | tsize
deriving DecidableEq, Repr

def Opt.name : Opt → String
  | .blksize => "blksize"
  | .windowsize => "windowsize"
  | .timeout => "timeout"
  | .tsize => "tsize"

/-- Is this the key of the option? -/
def Opt.keyed (opt : Opt) (key : Bytes) : Bool := caseEq key (ascii opt.name)

/-- The number the C parser takes a value for, if it is in the range of the option. -/
def Opt.read : Opt → Bytes → Option Nat
  | .blksize, v => let x := strtol LONG_LIM v
    if TFTP_BLKSIZE_MIN ≤ x ∧ x ≤ TFTP_BLKSIZE_MAX then some x.toNat else none
  | .windowsize, v => let x := strtol LONG_LIM v
    if 1 ≤ x ∧ x ≤ TFTP_WINDOWSIZE_MAX then some x.toNat else none
  | .timeout, v => let x := strtol LONG_LIM v
    if 1 ≤ x ∧ x ≤ TFTP_TIMEOUT_MAX then some x.toNat else none
  | .tsize, v => let x := strtol LLONG_LIM v
    if 0 ≤ x then some x.toNat else none

/-- The option in a parsed request. -/
def Opt.field : Opt → TftpReq → Option Nat
  | .blksize, r => r.blksize.map (·.toNat)
  | .windowsize, r => r.windowsize.map (·.toNat)
  | .timeout, r => r.timeoutSec.map (·.toNat)
  | .tsize, r => r.tsize.map (·.toNat)

def Opt.put : Opt → TftpReq → Nat → TftpReq
  | .blksize, r, n => { r with blksize := some (UInt32.ofNat n) }
  | .windowsize, r, n => { r with windowsize := some (UInt32.ofNat n) }
  | .timeout, r, n => { r with timeoutSec := some (UInt32.ofNat n) }
  | .tsize, r, n => { r with tsize := some (UInt64.ofNat n) }

/-- The text of an option: the value the loop meets last under its name. -/
def Scan.text (s : Scan) (opt : Opt) : Option Bytes := lastUnder opt.keyed s.options

/-- The request without its options. -/
def Scan.bare (s : Scan) : TftpReq := ⟨s.opcode, s.filename, s.mode, none, none, none, none⟩

/-- The request the strings are converted to. -/
def Scan.toReq (s : Scan) : TftpReq :=
  s.options.foldl (fun o kv => applyOption o kv.1 kv.2) s.bare

theorem strtol_lt {lim : Nat} (hlim : 0 < lim) (s : Bytes) : strtol lim s < lim := by
  unfold strtol
  split
  · omega
  · split_ifs <;> omega

theorem keyed_unique {a b : Opt} {key : Bytes} (ha : a.keyed key = true) (hb : b.keyed key = true) :
    a = b := by
  have hnames : ∀ x y : Opt, (ascii x.name).map tolower = (ascii y.name).map tolower → x = y := by
    intro x y
    cases x <;> cases y <;> decide
  exact hnames a b ((beq_iff_eq.mp ha).symm.trans (beq_iff_eq.mp hb))

/-- One option after another: a value in range is written to the field of its option. -/
theorem applyOption_eq (o : TftpReq) (k v : Bytes) :
    applyOption o k v =
      if Opt.blksize.keyed k then ((Opt.blksize.read v).map (Opt.blksize.put o)).getD o
      else if Opt.windowsize.keyed k then ((Opt.windowsize.read v).map (Opt.windowsize.put o)).getD o
      else if Opt.timeout.keyed k then ((Opt.timeout.read v).map (Opt.timeout.put o)).getD o
      else if Opt.tsize.keyed k then ((Opt.tsize.read v).map (Opt.tsize.put o)).getD o
      else o := by
  simp only [applyOption, Opt.keyed, Opt.name, Opt.read]
  refine if_congr Iff.rfl ?_ (if_congr Iff.rfl ?_ (if_congr Iff.rfl ?_ (if_congr Iff.rfl ?_ rfl)))
  all_goals
    split <;> rfl

theorem applyOption_keyed {opt : Opt} {k : Bytes} (h : opt.keyed k = true) (o : TftpReq) (v : Bytes) :
    applyOption o k v = ((opt.read v).map (opt.put o)).getD o := by
  have hother : ∀ a : Opt, a ≠ opt → ¬ a.keyed k = true := fun a hne ha => hne (keyed_unique ha h)
  rw [applyOption_eq]
  cases opt with
  | blksize => rw [if_pos h]
  | windowsize => rw [if_neg (hother .blksize (by decide)), if_pos h]
  | timeout =>
    rw [if_neg (hother .blksize (by decide)), if_neg (hother .windowsize (by decide)), if_pos h]
  | tsize =>
    rw [if_neg (hother .blksize (by decide)), if_neg (hother .windowsize (by decide)),
      if_neg (hother .timeout (by decide)), if_pos h]

theorem applyOption_unknown {k : Bytes} (h : ∀ opt : Opt, opt.keyed k = false) (o : TftpReq)
    (v : Bytes) : applyOption o k v = o := by
  simp [applyOption_eq, h]

theorem read_lt {opt : Opt} {v : Bytes} {n : Nat} (h : opt.read v = some n) :
    n < 2 ^ 63 ∧ (opt ≠ .tsize → n < 2 ^ 32) := by
  have hlong : strtol LONG_LIM v < 2 ^ 31 := strtol_lt (by decide) v
  have hllong : strtol LLONG_LIM v < 2 ^ 63 := strtol_lt (by decide) v
  cases opt <;> simp only [Opt.read, Option.ite_none_right_eq_some, Option.some.injEq] at h <;>
    obtain ⟨-, rfl⟩ := h
  all_goals first
    | exact ⟨by omega, fun _ => by omega⟩
    | exact ⟨by omega, fun hne => absurd rfl hne⟩

theorem field_put {opt : Opt} {v : Bytes} {n : Nat} (h : opt.read v = some n) (o : TftpReq)
    (a : Opt) : a.field (opt.put o n) = if a = opt then some n else a.field o := by
  obtain ⟨h64, h32⟩ := read_lt h
  have hsmall : opt ≠ .tsize → (UInt32.ofNat n).toNat = n := fun hne =>
    UInt32.toNat_ofNat_of_lt' (h32 hne)
  have hlarge : (UInt64.ofNat n).toNat = n := UInt64.toNat_ofNat_of_lt' (by show n < 2 ^ 64; omega)
  cases opt <;> cases a <;> simp [Opt.put, Opt.field, hsmall, hlarge]

/-- One round of the option loop, seen from one option. -/
theorem field_applyOption (opt : Opt) (o : TftpReq) (k v : Bytes) :
    opt.field (applyOption o k v) = (if opt.keyed k then opt.read v else none).or (opt.field o) := by
  by_cases hsome : ∃ a : Opt, a.keyed k = true
  · obtain ⟨a, ha⟩ := hsome
    rw [applyOption_keyed ha]
    cases hread : a.read v with
    | none =>
      by_cases heq : opt = a
      · subst heq
        simp [ha, hread]
      · have hno : ¬ opt.keyed k = true := fun hk => heq (keyed_unique hk ha)
        simp [hno]
    | some n =>
      rw [Option.map_some, Option.getD_some, field_put hread]
      by_cases heq : opt = a
      · subst heq
        simp [ha, hread]
      · have hno : ¬ opt.keyed k = true := fun hk => heq (keyed_unique hk ha)
        simp [hno, heq]
  · have hno : ∀ a : Opt, a.keyed k = false := fun a =>
      Bool.eq_false_iff.mpr fun ha => hsome ⟨a, ha⟩
    rw [applyOption_unknown hno, hno opt]
    simp

/-- **What the C engine takes an option for**: the last value under its name that is in range. -/
theorem field_toReq (s : Scan) (opt : Opt) :
    opt.field s.toReq = lastSome (fun kv => if opt.keyed kv.1 then opt.read kv.2 else none)
      s.options := by
  have hfold : ∀ (l : List (Bytes × Bytes)) (o : TftpReq),
      opt.field (l.foldl (fun o kv => applyOption o kv.1 kv.2) o) =
        l.foldl (fun x kv => (if opt.keyed kv.1 then opt.read kv.2 else none).or x) (opt.field o) := by
    intro l
    induction l with
    | nil => exact fun _ => rfl
    | cons kv l ih =>
      intro o
      rw [List.foldl_cons, ih, field_applyOption, List.foldl_cons]
  have hbare : opt.field s.bare = none := by cases opt <;> rfl
  rw [Scan.toReq, hfold, foldl_or_eq, hbare, Option.or_none]

theorem takeZstr_none {buf : Bytes} (h : takeZstr buf = none) : terminated buf = [] := by
  induction buf with
  | nil => rfl
  | cons b bs ih =>
    by_cases hb : b = 0
    · subst hb
      cases h
    · rw [takeZstr.eq_3 b bs hb] at h
      cases ht : takeZstr bs with
      | some sr => simp [ht] at h
      | none => exact (terminated_cons_nil hb (ih ht)).1

theorem takeZstr_some {buf s rest : Bytes} (h : takeZstr buf = some (s, rest)) :
    terminated buf = s :: terminated rest ∧ rest.length < buf.length := by
  induction buf generalizing s with
  | nil => cases h
  | cons b bs ih =>
    by_cases hb : b = 0
    · subst hb
      obtain ⟨rfl, rfl⟩ := Prod.mk.injEq .. ▸ Option.some.inj h
      exact ⟨terminated_zero bs, by simp⟩
    rw [takeZstr.eq_3 b bs hb] at h
    cases ht : takeZstr bs with
    | none => simp [ht] at h
    | some sr =>
      simp only [ht, Option.some.injEq, Prod.mk.injEq] at h
      obtain ⟨rfl, rfl⟩ := h
      obtain ⟨hstr, hlen⟩ := ih ht
      exact ⟨(terminated_cons_cons hb hstr).1, by simp only [List.length_cons]; omega⟩

/-- The option loop goes over the pairs of terminated strings. -/
theorem parseOptions_eq (fuel : Nat) (rest : Bytes) (hf : rest.length ≤ fuel) (o : TftpReq) :
    parseOptions fuel rest o =
      (pairs (terminated rest)).foldl (fun o kv => applyOption o kv.1 kv.2) o := by
  induction fuel generalizing rest o with
  | zero =>
    have hnil : rest = [] := List.length_eq_zero_iff.mp (Nat.le_zero.mp hf)
    subst hnil
    rfl
  | succ fuel ih =>
    rw [parseOptions]
    cases hk : takeZstr rest with
    | none => simp [takeZstr_none hk, pairs]
    | some kr =>
      obtain ⟨k, rest₁⟩ := kr
      obtain ⟨hstr, hlen⟩ := takeZstr_some hk
      cases hv : takeZstr rest₁ with
      | none => simp [hv, hstr, takeZstr_none hv, pairs]
      | some vr =>
        obtain ⟨v, rest₂⟩ := vr
        obtain ⟨hstr₁, hlen₁⟩ := takeZstr_some hv
        simp only [hv, hstr, hstr₁, pairs, List.foldl_cons]
        exact ih rest₂ (by omega) _

/-- **What `tftp_parse_request` computes.**  It accepts what `scanRequest` accepts, and converts
    the strings one after another. -/
theorem tftpParseRequest_eq (buf : Bytes) :
    tftpParseRequest buf = (scanRequest buf).map Scan.toReq := by
  match buf with
  | [] => rfl
  | [_] => rfl
  | b₀ :: b₁ :: rest =>
    rw [tftpParseRequest, scanRequest]
    by_cases hop : rd16 b₀ b₁ ≠ TFTP_RRQ ∧ rd16 b₀ b₁ ≠ TFTP_WRQ
    · simp [hop]
    simp only [if_neg hop]
    cases hf : takeZstr rest with
    | none => simp [takeZstr_none hf]
    | some fr =>
      obtain ⟨fn, rest₁⟩ := fr
      obtain ⟨hstr, hlen⟩ := takeZstr_some hf
      cases hm : takeZstr rest₁ with
      | none => simp [hm, hstr, takeZstr_none hm]
      | some mr =>
        obtain ⟨hstr₁, hlen₁⟩ := takeZstr_some hm
        -- two NULs after the opcode: the packet has its four bytes
        have hlong : ¬ (b₀ :: b₁ :: rest).length < 4 := by
          simp only [List.length_cons]
          omega
        simp only [hlong, if_false, hm, hstr, hstr₁, Option.map_some, Scan.toReq, Scan.bare]
        rw [parseOptions_eq _ _ (Nat.le_refl _)]

end Nishro.CCore

namespace Nishro.Py

open Nishro.Wire ZStrings

/-! ## The Python scanner -/

/-- `options.get(name)`. -/
def Request.get (r : Request) (name : Str) : Option Str := r.options.lookup name

theorem splitFrom_eq (cur bs : Bytes) :
    splitFrom cur bs =
      match terminated bs with
      | [] => if cur ++ tail bs = [] then [] else [decodeAscii (cur ++ tail bs)]
      | s :: ss => decodeAscii (cur ++ s) ::
          (ss ++ if tail bs = [] then [] else [tail bs]).map decodeAscii := by
  induction bs generalizing cur with
  | nil => simp [splitFrom]
  | cons b bs ih =>
    rw [splitFrom]
    by_cases hb : b = 0
    · subst hb
      rw [if_pos rfl, ih, terminated_zero, tail_zero]
      cases hs : terminated bs with
      | nil =>
        simp only [List.nil_append, List.append_nil]
        split <;> rfl
      | cons s ss => simp
    · rw [if_neg hb, ih]
      cases hs : terminated bs with
      | nil =>
        obtain ⟨hnil, htail⟩ := terminated_cons_nil hb hs
        simp [hnil, htail]
      | cons s ss =>
        obtain ⟨hcons, htail⟩ := terminated_cons_cons hb hs
        simp [hcons, htail]

/-- `_split_cstrings` is the strings of the buffer, decoded. -/
theorem splitCstrings_eq (buf : Bytes) : splitCstrings buf = (strings buf).map decodeAscii := by
  rw [splitCstrings, splitFrom_eq, strings]
  cases terminated buf with
  | nil =>
    simp only [List.nil_append]
    split <;> rfl
  | cons s ss => simp

theorem dictSet_eq (d : List (Str × Str)) (key value : Str) :
    dictSet d key value = Dict.set d key value := by
  have hany : (d.any (·.1 == key)) = true ↔ key ∈ d.map (·.1) := by simp [List.any_eq_true]
  by_cases hk : key ∈ d.map (·.1)
  · rw [dictSet, Dict.set, if_pos (hany.mpr hk), if_pos hk]
  · rw [dictSet, Dict.set, if_neg fun h => hk (hany.mp h), if_neg hk]

/-- The option of a name is the last one given under it, in any case. -/
theorem lookup_requestOptions (opts : List (Str × Str)) (parts : List Str) (name : Str) :
    (requestOptions opts parts).lookup name =
      (lastUnder (fun k => k != [] && lower k == name) (pairs parts)).or (opts.lookup name) := by
  induction parts using List.twoStepInduction generalizing opts with
  | nil | singleton _ => rfl
  | cons_cons key value rest ih =>
    rw [requestOptions, ih, pairs, lastUnder_cons]
    by_cases hk : key = []
    · simp [hk]
    · rw [if_pos hk, dictSet_eq, Dict.lookup_set]
      by_cases hn : name = lower key
      · simp [hk, hn]
      · have hne : (lower key == name) = false := beq_false_of_ne fun h => hn h.symm
        simp [hn, hne]

/-- **What `parse_request` computes** on a packet with one of the two opcodes. -/
theorem parseRequest_eq {b₀ b₁ : UInt8} (rest : Bytes)
    (hop : ¬ (rd16 b₀ b₁ ≠ OP_RRQ ∧ rd16 b₀ b₁ ≠ OP_WRQ)) :
    parseRequest (b₀ :: b₁ :: rest) =
      match strings rest with
      | filename :: mode :: options => .ok ⟨rd16 b₀ b₁, decodeAscii filename,
          lower (decodeAscii mode), requestOptions [] (options.map decodeAscii)⟩
      | _ => .error ⟨ERR_ILLEGAL_OP, str "malformed RRQ/WRQ"⟩ := by
  simp only [parseRequest, peekOpcode, if_neg hop, List.drop_succ_cons, List.drop_zero,
    splitCstrings_eq]
  match strings rest with
  | [] => rfl
  | [_] => rfl
  | filename :: mode :: options => rfl

end Nishro.Py

namespace Nishro

open Wire ZStrings CCore

/-! ## Texts of the two engines -/

/-- The same characters, code by code. -/
def SameText (s : Py.Str) (b : Bytes) : Prop := s.map Char.toNat = b.map UInt8.toNat

def IsAscii (b : Bytes) : Prop := ∀ c ∈ b, c < 128

instance (s : Py.Str) (b : Bytes) : Decidable (SameText s b) :=
  inferInstanceAs (Decidable (_ = _))

/-- The code of a decoded byte: what is not ASCII becomes U+FFFD. -/
theorem toNat_decoded (b : UInt8) :
    (Py.asciiChar b).toNat = (if b < 128 then b.toNat else 0xFFFD) ∧
    (Py.asciiChar b).toLower.toNat = if b < 128 then (tolower b).toNat else 0xFFFD := by
  have hall : ∀ n < 256, (Py.asciiChar (UInt8.ofNat n)).toNat =
      (if UInt8.ofNat n < 128 then (UInt8.ofNat n).toNat else 0xFFFD) ∧
      (Py.asciiChar (UInt8.ofNat n)).toLower.toNat =
        if UInt8.ofNat n < 128 then (tolower (UInt8.ofNat n)).toNat else 0xFFFD := by
    decide +kernel
  have h := hall b.toNat b.toNat_lt
  rwa [UInt8.ofNat_toNat] at h

/-- A decoded text is the text itself exactly when it is ASCII. -/
theorem sameText_decode {b b' : Bytes} :
    SameText (Py.decodeAscii b) b' ↔ b' = b ∧ IsAscii b := by
  induction b generalizing b' with
  | nil => simp [SameText, Py.decodeAscii, IsAscii, eq_comm]
  | cons c b ih =>
    cases b' with
    | nil => simp [SameText, Py.decodeAscii]
    | cons c' b' =>
      have ih' := @ih b'
      simp only [SameText, Py.decodeAscii, List.map_map] at ih'
      simp only [SameText, Py.decodeAscii, List.map_map, List.map_cons, List.cons.injEq, ih',
        (toNat_decoded c).1, IsAscii, List.forall_mem_cons]
      have hlt := c'.toNat_lt
      by_cases hc : c < 128
      · simp only [hc, if_true, true_and, UInt8.toNat_inj, eq_comm]
        tauto
      · have hne : ¬ (0xFFFD : Nat) = c'.toNat := by omega
        simp [hc, hne]

/-- A decoded mode is the mode up to case exactly when it is ASCII. -/
theorem sameText_lower {b : Bytes} :
    SameText (Py.lower (Py.decodeAscii b)) (b.map tolower) ↔ IsAscii b := by
  induction b with
  | nil => simp [SameText, Py.decodeAscii, Py.lower, IsAscii]
  | cons c b ih =>
    simp only [SameText, Py.decodeAscii, Py.lower, List.map_map] at ih
    simp only [SameText, Py.decodeAscii, Py.lower, List.map_map, List.map_cons, List.cons.injEq, ih,
      (toNat_decoded c).2, IsAscii, List.forall_mem_cons]
    have hlt := (tolower c).toNat_lt
    by_cases hc : c < 128
    · simp [hc]
    · have hne : ¬ (0xFFFD : Nat) = (tolower c).toNat := by omega
      simp [hc, hne]

/-- A name in lower-case ASCII. -/
def LowerName (name : String) : Prop :=
  name.toList ≠ [] ∧ ∀ c ∈ name.toList, c.toNat < 128 ∧
    tolower (UInt8.ofNat c.toNat) = UInt8.ofNat c.toNat

theorem lower_decode_eq_iff (k : Bytes) {nm : Py.Str}
    (hnm : ∀ c ∈ nm, c.toNat < 128 ∧ tolower (UInt8.ofNat c.toNat) = UInt8.ofNat c.toNat) :
    Py.lower (Py.decodeAscii k) = nm ↔ k.map tolower = nm.map fun c => UInt8.ofNat c.toNat := by
  induction k generalizing nm with
  | nil => cases nm <;> simp [Py.lower, Py.decodeAscii]
  | cons b k ih =>
    cases nm with
    | nil => simp [Py.lower, Py.decodeAscii]
    | cons c nm =>
      obtain ⟨⟨hc, hlow⟩, hrest⟩ := List.forall_mem_cons.mp hnm
      have ih' := ih hrest
      simp only [Py.lower, Py.decodeAscii, List.map_map] at ih'
      simp only [Py.lower, Py.decodeAscii, List.map_map, List.map_cons, List.cons.injEq, ih']
      rw [← Char.toNat_inj, (toNat_decoded b).2, ← UInt8.toNat_inj,
        UInt8.toNat_ofNat_of_lt' (by show c.toNat < 256; omega)]
      by_cases hb : b < 128
      · rw [if_pos hb]
      have hup : tolower b = b := by
        rw [UInt8.lt_iff_toNat_lt] at hb
        have : ¬ ((65 ≤ b && b ≤ 90) = true) := by
          simp only [Bool.and_eq_true, decide_eq_true_eq, UInt8.le_iff_toNat_le]
          have h128 : (128 : UInt8).toNat = 128 := rfl
          have h90 : (90 : UInt8).toNat = 90 := rfl
          omega
        rw [tolower, if_neg this]
      have h128 : ¬ b.toNat < 128 := fun h => hb (UInt8.lt_iff_toNat_lt.mpr h)
      rw [if_neg hb, hup]
      constructor <;> intro h <;> omega

/-- The two engines find an option under the same keys. -/
theorem key_matches {name : String} (h : LowerName name) (k : Bytes) :
    (Py.decodeAscii k != [] && Py.lower (Py.decodeAscii k) == Py.str name) =
      caseEq k (ascii name) := by
  have hiff := lower_decode_eq_iff k h.2
  have hfix : (ascii name).map tolower = name.toList.map fun c => UInt8.ofNat c.toNat := by
    rw [ascii, List.map_map]
    exact List.map_congr_left fun c hc => (h.2 c hc).2
  rw [Bool.eq_iff_iff, caseEq, hfix, beq_iff_eq, Bool.and_eq_true, beq_iff_eq, ← hiff, bne_iff_ne]
  refine ⟨fun hk => hk.2, fun hk => ⟨fun hnil => h.1 ?_, hk⟩⟩
  rw [← hk, hnil]
  rfl

/-! ## Where the parsers agree -/

theorem lowerName (opt : Opt) : LowerName opt.name := by
  have hne : opt.name.toList ≠ [] := by cases opt <;> decide
  have hall : (opt.name.toList.all fun c => decide (c.toNat < 128 ∧
      tolower (UInt8.ofNat c.toNat) = UInt8.ofNat c.toNat)) = true := by
    cases opt <;> decide
  exact ⟨hne, fun c hc => of_decide_eq_true (List.all_eq_true.1 hall c hc)⟩

/-- The text the C parser reads for an option of a packet. -/
def optionText (pkt : Bytes) (opt : Opt) : Option Bytes := (scanRequest pkt).bind (·.text opt)

/-- Two parsed requests that say the same: the modes up to case, the same text for each option,
    and the C request has the option as that text reads. -/
structure SameRequest (r : Py.Request) (req : TftpReq) (texts : Opt → Option Bytes) : Prop where
  opcode : r.opcode = req.opcode
  filename : SameText r.filename req.filename
  mode : SameText r.mode (req.mode.map tolower)
  options : ∀ opt : Opt, Option.Rel SameText (r.get (Py.str opt.name)) (texts opt)
  values : ∀ opt : Opt, opt.field req = (texts opt).bind opt.read

/-- Both parsers accept the packet and extract the same, or both refuse it. -/
def ParsersAgree (pkt : Bytes) : Prop :=
  match Py.parseRequest pkt, tftpParseRequest pkt with
  | .ok r, some req => SameRequest r req (optionText pkt)
  | .error _, none => True
  | _, _ => False

/-- Strings that are read alike: filename, mode and the values that count are ASCII, an option is
    not given again out of range, and a value that the packet cuts off says nothing new. -/
structure PlainStrings (filename mode : Bytes) (options : List Bytes) (cut : Bytes) : Prop where
  filename : IsAscii filename
  mode : IsAscii mode
  values : ∀ (opt : Opt) (v : Bytes), lastUnder opt.keyed (pairs options) = some v → IsAscii v
  repeated : ∀ opt : Opt, (lastUnder opt.keyed (pairs options)).bind opt.read = none →
    ∀ kv ∈ pairs options, opt.keyed kv.1 = true → opt.read kv.2 = none
  cut : cut ≠ [] → ∀ key, oddKey options = some key → ∀ opt : Opt, opt.keyed key = true →
    lastUnder opt.keyed (pairs options) = some cut

/-- A packet without the opcode of a request, or one that has no filename or no mode at all, or
    whose strings are read alike. -/
def PlainRequest : Bytes → Prop
  | b₀ :: b₁ :: rest =>
    rd16 b₀ b₁ = TFTP_RRQ ∨ rd16 b₀ b₁ = TFTP_WRQ →
      match terminated rest with
      | [] => True
      | [_] => tail rest = []
      | filename :: mode :: options => PlainStrings filename mode options (tail rest)
  | _ => True

theorem applyOption_fixed (o : TftpReq) (k v : Bytes) :
    (applyOption o k v).opcode = o.opcode ∧ (applyOption o k v).filename = o.filename ∧
      (applyOption o k v).mode = o.mode := by
  unfold applyOption
  simp only
  split_ifs <;> exact ⟨rfl, rfl, rfl⟩

theorem foldl_applyOption_fixed (l : List (Bytes × Bytes)) (o : TftpReq) :
    (l.foldl (fun o kv => applyOption o kv.1 kv.2) o).opcode = o.opcode ∧
      (l.foldl (fun o kv => applyOption o kv.1 kv.2) o).filename = o.filename ∧
      (l.foldl (fun o kv => applyOption o kv.1 kv.2) o).mode = o.mode := by
  induction l generalizing o with
  | nil => exact ⟨rfl, rfl, rfl⟩
  | cons kv l ih =>
    obtain ⟨h₁, h₂, h₃⟩ := ih (applyOption o kv.1 kv.2)
    obtain ⟨h₁', h₂', h₃'⟩ := applyOption_fixed o kv.1 kv.2
    exact ⟨h₁.trans h₁', h₂.trans h₂', h₃.trans h₃'⟩

theorem toReq_fixed (s : Scan) :
    s.toReq.opcode = s.opcode ∧ s.toReq.filename = s.filename ∧ s.toReq.mode = s.mode :=
  foldl_applyOption_fixed s.options s.bare

/-- The text of an option in the Python request, from the strings of the packet. -/
theorem pyText_eq (opt : Opt) (options : List Bytes) :
    (Py.requestOptions [] (options.map Py.decodeAscii)).lookup (Py.str opt.name) =
      (lastUnder opt.keyed (pairs options)).map Py.decodeAscii := by
  rw [Py.lookup_requestOptions, pairs_map, lastUnder_map, List.lookup_nil, Option.or_none]
  exact congrArg _ (lastUnder_congr (key_matches (lowerName opt)) _)

theorem rel_decode {o : Option Bytes} :
    Option.Rel SameText (o.map Py.decodeAscii) o ↔ ∀ v, o = some v → IsAscii v := by
  cases o with
  | none => simp
  | some v => simp [sameText_decode]

/-- One option is read alike exactly when its last value is ASCII and a cut-off value repeats
    it. -/
theorem option_alike_iff (opt : Opt) (options : List Bytes) (cut : Bytes) :
    Option.Rel SameText ((Py.requestOptions [] ((options ++ if cut = [] then [] else [cut]).map
        Py.decodeAscii)).lookup (Py.str opt.name)) (lastUnder opt.keyed (pairs options)) ↔
      (∀ v, lastUnder opt.keyed (pairs options) = some v → IsAscii v) ∧
      (cut ≠ [] → ∀ key, oddKey options = some key → opt.keyed key = true →
        lastUnder opt.keyed (pairs options) = some cut) := by
  rw [pyText_eq]
  by_cases hcut : cut = []
  · simp [hcut, rel_decode]
  rw [if_neg hcut, pairs_append_singleton]
  cases hkey : oddKey options with
  | none => simp [rel_decode]
  | some key =>
    have hsplit : lastUnder opt.keyed (pairs options ++ [(key, cut)]) =
        (if opt.keyed key then some cut else none).or (lastUnder opt.keyed (pairs options)) := by
      simp [lastUnder, lastSome_append, lastSome]
    rw [Option.toList_some, List.map_cons, List.map_nil, hsplit]
    by_cases hname : opt.keyed key = true
    · rw [if_pos hname, Option.some_or, Option.map_some]
      cases hlast : lastUnder opt.keyed (pairs options) with
      | none => simp [hcut, hname]
      | some v =>
        simp only [Option.rel_some_some, sameText_decode, Option.some.injEq, forall_eq', hname,
          ne_eq, hcut, not_false_eq_true, forall_const]
        constructor
        · rintro ⟨rfl, hascii⟩
          exact ⟨hascii, rfl⟩
        · rintro ⟨hascii, rfl⟩
          exact ⟨rfl, hascii⟩
    · simp [hname, rel_decode]

/-- With filename and mode terminated both parsers accept, and they agree exactly on plain
    strings. -/
theorem agree_of_terminated {b₀ b₁ : UInt8} {rest filename mode : Bytes} {options : List Bytes}
    (hop : rd16 b₀ b₁ = TFTP_RRQ ∨ rd16 b₀ b₁ = TFTP_WRQ)
    (hs : terminated rest = filename :: mode :: options) :
    ParsersAgree (b₀ :: b₁ :: rest) ↔ PlainStrings filename mode options (tail rest) := by
  have hop' : ¬ (rd16 b₀ b₁ ≠ TFTP_RRQ ∧ rd16 b₀ b₁ ≠ TFTP_WRQ) := by tauto
  have hscan : scanRequest (b₀ :: b₁ :: rest) =
      some ⟨rd16 b₀ b₁, filename, mode, pairs options⟩ := by
    rw [scanRequest, if_neg hop', hs]
  have htext : ∀ opt, optionText (b₀ :: b₁ :: rest) opt = lastUnder opt.keyed (pairs options) := by
    intro opt
    rw [optionText, hscan]
    rfl
  have hpy := Py.parseRequest_eq rest hop'
  rw [strings, hs] at hpy
  obtain ⟨hopc, hfn, hmd⟩ := toReq_fixed ⟨rd16 b₀ b₁, filename, mode, pairs options⟩
  have hvalue := fun opt : Opt => bind_lastUnder_iff opt.keyed opt.read (pairs options)
  have hfield := field_toReq ⟨rd16 b₀ b₁, filename, mode, pairs options⟩
  simp only [ParsersAgree, hpy, tftpParseRequest_eq, hscan, Option.map_some]
  constructor
  · rintro ⟨-, hfile, hmode, hopts, hvals⟩
    rw [hmd] at hmode
    have halike := fun opt => (option_alike_iff opt options (tail rest)).mp (htext opt ▸ hopts opt)
    refine ⟨(sameText_decode.mp hfile).2, sameText_lower.mp hmode, ?_, ?_, ?_⟩
    · exact fun opt => (halike opt).1
    · intro opt
      refine (hvalue opt).mp ?_
      rw [← htext opt, ← hvals opt, hfield opt]
    · exact fun hcut key hkey opt => (halike opt).2 hcut key hkey
  · rintro ⟨hfile, hmode, hvalues, hrep, hcut⟩
    refine ⟨hopc.symm, ?_, ?_, ?_, ?_⟩
    · rw [hfn]
      exact sameText_decode.mpr ⟨rfl, hfile⟩
    · rw [hmd]
      exact sameText_lower.mpr hmode
    · intro opt
      rw [htext opt]
      exact (option_alike_iff opt options _).mpr
        ⟨hvalues opt, fun hc key hkey => hcut hc key hkey opt⟩
    · intro opt
      rw [htext opt, hfield opt]
      exact ((hvalue opt).mpr (hrep opt)).symm

/-- **The request parsers.**  The two parsers agree on a packet - on whether it is a request, and
    on its opcode, filename, mode and option texts - if and only if the packet is not a request at
    all, or its strings are ASCII where they count and it does not end within its mode or within
    the new value of an option. -/
theorem parsers_agree_iff (pkt : Bytes) : ParsersAgree pkt ↔ PlainRequest pkt := by
  rcases pkt with _ | ⟨b₀, _ | ⟨b₁, rest⟩⟩
  · exact iff_of_true trivial trivial
  · exact iff_of_true trivial trivial
  by_cases hop : rd16 b₀ b₁ = TFTP_RRQ ∨ rd16 b₀ b₁ = TFTP_WRQ
  · have hop' : ¬ (rd16 b₀ b₁ ≠ TFTP_RRQ ∧ rd16 b₀ b₁ ≠ TFTP_WRQ) := by tauto
    have hpy := Py.parseRequest_eq rest hop'
    rw [strings] at hpy
    rcases hs : terminated rest with _ | ⟨filename, _ | ⟨mode, options⟩⟩
    · have hplain : PlainRequest (b₀ :: b₁ :: rest) := by simp [PlainRequest, hs]
      refine iff_of_true ?_ hplain
      by_cases htail : tail rest = []
      · simp [ParsersAgree, hpy, htail, tftpParseRequest_eq, scanRequest, hs]
      · simp [ParsersAgree, hpy, htail, tftpParseRequest_eq, scanRequest, hs]
    · have hplain : PlainRequest (b₀ :: b₁ :: rest) ↔ tail rest = [] := by
        simp [PlainRequest, hs, hop]
      rw [hplain]
      by_cases htail : tail rest = []
      · simp [ParsersAgree, hpy, htail, tftpParseRequest_eq, scanRequest, hs]
      · -- the mode is there, without its NUL: only the Python parser takes it
        simp [ParsersAgree, hpy, htail, tftpParseRequest_eq, scanRequest, hs]
    · rw [agree_of_terminated hop hs]
      simp [PlainRequest, hs, hop]
  · have hplain : PlainRequest (b₀ :: b₁ :: rest) := fun h => absurd h hop
    refine iff_of_true ?_ hplain
    have hop' : rd16 b₀ b₁ ≠ TFTP_RRQ ∧ rd16 b₀ b₁ ≠ TFTP_WRQ := not_or.mp hop
    have hpy : Py.parseRequest (b₀ :: b₁ :: rest) =
        .error ⟨Py.ERR_ILLEGAL_OP, Py.str "expected RRQ/WRQ"⟩ := by
      exact if_pos hop'
    simp only [ParsersAgree, hpy, tftpParseRequest_eq, scanRequest, if_pos hop', Option.map_none]

/-- A read request whose mode is not terminated. -/
def cutMode : Bytes := [0, 1] ++ ascii "f" ++ [0] ++ ascii "octet"

/-- A read request whose last option value is not terminated. -/
def cutValue : Bytes := [0, 1] ++ ascii "f" ++ [0] ++ ascii "octet" ++ [0] ++ ascii "blksize" ++ [0] ++
  ascii "1024"

/-- The tolerance for a missing last NUL is the Python parser's alone: the C parser refuses the
    request, or loses its last option. -/
theorem missing_nul_refused :
    (Py.parseRequest cutMode = .ok ⟨1, Py.str "f", Py.str "octet", []⟩ ∧
      tftpParseRequest cutMode = none) ∧
    Py.parseRequest cutValue =
      .ok ⟨1, Py.str "f", Py.str "octet", [(Py.str "blksize", Py.str "1024")]⟩ ∧
    tftpParseRequest cutValue = some ⟨1, ascii "f", ascii "octet", none, none, none, none⟩ := by
  decide +kernel

end Nishro
