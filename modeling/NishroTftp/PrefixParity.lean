import NishroTftp.CCore.FtpFolder
import NishroTftp.Py.Router
import NishroTftp.StringHop
/-
  The rewriting of names with the trigger, in both engines: `RouterSource._rewrite_prefix`
  (`files/source.py`) and `rewrite_prefix` (`c_core/source.c`) under the folder format that
  `_yaml_to_core_cfg` builds from the same settings.

  Python pads the TEXT of the digit block; C converts it to an integer and formats that again, from
  one fixed buffer into the next.  The names the two accept differ by the length of the block alone
  (15 digits fit the buffer), and the folders they make of it differ where the integer does not
  remember the text (zeros beyond the pad, values beyond an `int`) or a buffer does not hold it.
-/
namespace Nishro

open CCore Decimal Printf
open Utf8 (Text text isScalar encodeChar)
open Py (Str decodeAscii asciiChar codes)

/-! ## The settings in the two engines -/

/-- The trigger, a folder prefix without a percent sign, and a pad of 1 to 10 digits. -/
structure PrefixSettings where
  trigger : Str
  folder : Str
  pad : Nat
  noPercent : '%' ∉ folder
  padRange : 1 ≤ pad ∧ pad ≤ 10

/-- `folder_fmt`. -/
def PrefixSettings.folderFmt (p : PrefixSettings) : Text :=
  codes p.folder ++ text "%0" ++ Json.numeral p.pad ++ text "u"

/-- The router of the Python engine, as far as rewriting goes. -/
def PrefixSettings.router (p : PrefixSettings) : Py.RouterSource :=
  ⟨none, none, p.trigger, p.folder, p.pad⟩

/-- The configuration of the C engine, after the settings were pushed. -/
def PrefixSettings.pushed (p : PrefixSettings) (c : Config) : Config :=
  { c with
    prefixTrigger := stored (codes p.trigger) 15
    prefixFolderFmt := stored p.folderFmt 63 }

/-- The section `files.ftp_prefix` that says so. -/
structure PrefixSettings.Given (p : PrefixSettings) (pref : Json) : Prop where
  trigger : Py.dictGet pref (text "trigger") = .ok (some (.str (codes p.trigger)))
  folder : Py.dictGet pref (text "folder_prefix") = .ok (some (.str (codes p.folder)))
  pad : Py.dictGet pref (text "digit_pad") = .ok (some (.int p.pad))

theorem strOf_codes (s : Str) : Py.strOf (.str (codes s)) = s := by
  simp [Py.strOf, Py.pyStr, codes, Function.comp_def]

/-- `build_source` gives the router these settings. -/
theorem buildSource_rewrites {p : PrefixSettings} {yaml files pref : Json} {r : Py.RouterSource}
    (hfiles : Py.sectionAt yaml "files" = .ok files)
    (hpref : Py.sectionAt files "ftp_prefix" = .ok pref) (h : p.Given pref)
    (hon : Py.boolAt pref "enabled" false = .ok true) (hr : Py.buildSource yaml = .ok r) :
    r.rewritePrefix = p.router.rewritePrefix := by
  have htrigger : Py.strAt pref "trigger" "f::" = .ok p.trigger := by
    rw [Py.strAt, Py.rawAt, h.trigger]
    exact congrArg Except.ok (strOf_codes _)
  have hfolder : Py.strAt pref "folder_prefix" "BDCOM" = .ok p.folder := by
    rw [Py.strAt, Py.rawAt, h.folder]
    exact congrArg Except.ok (strOf_codes _)
  have hpad : Py.intAt pref (text "digit_pad") 4 = .ok p.pad := by
    rw [Py.intAt, h.pad]
    rfl
  obtain ⟨files', hfiles', hr⟩ := Py.bind_eq_ok.1 hr
  cases hfiles.symm.trans hfiles'
  obtain ⟨ftp, -, hr⟩ := Py.bind_eq_ok.1 hr
  obtain ⟨hasHost, -, hr⟩ := Py.bind_eq_ok.1 hr
  obtain ⟨primary, -, hr⟩ := Py.bind_eq_ok.1 hr
  rw [hpref] at hr
  simp only [Except.bind, hon, htrigger, hfolder, hpad, if_true] at hr
  obtain ⟨src, -, rfl⟩ := Py.map_eq_ok.1 hr
  rfl

/-- `_yaml_to_core_cfg` and the push give the C engine these settings. -/
theorem pushed_settings {p : PrefixSettings} {yaml files pref : Json} {c cfg : Config}
    (hfiles : Py.sectionAt yaml "files" = .ok files)
    (hpref : Py.sectionAt files "ftp_prefix" = .ok pref) (h : p.Given pref)
    (hpushed : Pushed c yaml cfg) :
    cfg.prefixTrigger = (p.pushed c).prefixTrigger ∧
      cfg.prefixFolderFmt = (p.pushed c).prefixFolderFmt := by
  have htrigger : Py.rawAt pref "trigger" "f::" = .ok (.str (codes p.trigger)) := by
    rw [Py.rawAt, h.trigger]
    rfl
  have hfmt : Py.folderFmt pref = .ok p.folderFmt := by
    have hpad : Py.intOrAt pref "digit_pad" 4 = .ok p.pad := by
      have hne : Py.truthy (.int p.pad) = true := by
        have := p.padRange
        simp only [Py.truthy, bne_iff_ne]
        omega
      rw [Py.intOrAt, h.pad]
      simp only [Except.bind, hne, if_true]
      rfl
    rw [Py.folderFmt, Py.rawAt, h.folder]
    simp only [Except.map, Except.bind, hpad]
    rfl
  obtain ⟨core, hcore, hfinite, rfl⟩ := hpushed
  simp only [Py.yamlToCoreCfg, Py.bind_eq_ok, Py.map_eq_ok] at hcore
  obtain ⟨_, -, _, -, files', hfiles', _, -, _, -, _, -, _, -, _, -, filesOut, hout, _, -, _, -,
    _, -, rfl⟩ := hcore
  cases hfiles.symm.trans hfiles'
  simp only [Py.filesSection, Py.bind_eq_ok, Py.map_eq_ok] at hout
  obtain ⟨_, -, _, -, pref', hpref', _, -, _, -, _, -, _, -, _, -, _, -, _, -, prefOut, hprefOut,
    _, -, rfl⟩ := hout
  cases hpref.symm.trans hpref'
  simp only [Py.prefixSection, Py.bind_eq_ok, Py.map_eq_ok] at hprefOut
  obtain ⟨_, -, trigger, htrigger', fmt, hfmt', rfl⟩ := hprefOut
  cases htrigger.symm.trans htrigger'
  cases hfmt.symm.trans hfmt'
  exact ⟨FieldValue.text.inj (pushed_text c (f := .prefixTrigger) rfl hfinite rfl),
    FieldValue.text.inj (pushed_text c (f := .prefixFolderFmt) rfl hfinite rfl)⟩

/-! ## What is accepted -/

/-- The digits at the start and what stands behind the separator. -/
def splitName (rest : Bytes) : Option (Bytes × Bytes) :=
  match rest.dropWhile isDigit with
  | [] => none
  | c :: tail =>
    if rest.takeWhile isDigit ≠ [] ∧ (c = 47 ∨ c = 92) then some (rest.takeWhile isDigit, tail)
    else none

theorem splitName_eq_some {rest block tail : Bytes} :
    splitName rest = some (block, tail) ↔ block ≠ [] ∧ (∀ c ∈ block, isDigit c = true) ∧
      ∃ s, (s = 47 ∨ s = 92) ∧ rest = block ++ s :: tail := by
  constructor
  · intro h
    unfold splitName at h
    split at h
    · cases h
    rename_i c tail' hdrop
    split at h
    · rename_i hcond
      cases h
      refine ⟨hcond.1, fun c hc => List.mem_takeWhile_imp hc, c, hcond.2, ?_⟩
      rw [← hdrop]
      exact List.takeWhile_append_dropWhile.symm
    · cases h
  · rintro ⟨hne, hdigits, s, hs, rfl⟩
    have hsep : isDigit s = false := by rcases hs with rfl | rfl <;> rfl
    obtain ⟨htake, hdrop⟩ := span_stops hdigits (stops_cons hsep tail)
    rw [splitName, hdrop, htake]
    exact if_pos ⟨hne, hs⟩

/-- C accepts a block of up to 15 digits. -/
theorem nameParts_eq (cfg : Config) (name : Bytes) :
    nameParts cfg name =
      (splitName (name.drop cfg.prefixTrigger.length)).filter (·.1.length ≤ 15) := by
  simp only [nameParts, splitName]
  generalize name.drop cfg.prefixTrigger.length = rest
  have hdigits : ∀ c ∈ rest.takeWhile isDigit, isDigit c = true := fun c hc =>
    List.mem_takeWhile_imp hc
  have hsplit : rest = rest.takeWhile isDigit ++ rest.dropWhile isDigit :=
    List.takeWhile_append_dropWhile.symm
  generalize rest.takeWhile isDigit = block at hdigits hsplit ⊢
  generalize rest.dropWhile isDigit = after at hsplit ⊢
  by_cases hlen : block.length ≤ 15
  · rw [List.take_of_length_le hlen, hsplit, List.drop_left]
    cases after with
    | nil => rfl
    | cons c tail =>
      simp only
      split <;> simp [Option.filter, hlen]
  · -- the sixteenth digit stands where the separator should be
    obtain ⟨x, xs, hx⟩ : ∃ x xs, block.drop 15 = x :: xs :=
      List.exists_cons_of_ne_nil (by simpa using hlen)
    have hdigit : isDigit x = true :=
      hdigits x (List.mem_of_mem_drop (i := 15) (by rw [hx]; exact List.mem_cons_self))
    have hsep : ¬ (x = 47 ∨ x = 92) := by
      rintro (rfl | rfl)
      · exact absurd hdigit (by decide)
      · exact absurd hdigit (by decide)
    have htake : (block.take 15).length = 15 := by
      rw [List.length_take]
      omega
    have hdrop : rest.drop 15 = x :: (xs ++ after) := by
      rw [hsplit, List.drop_append_of_le_length (by omega), hx]
      rfl
    rw [htake, hdrop]
    simp only
    rw [if_neg (fun h => hsep h.2)]
    cases after with
    | nil => rfl
    | cons c tail =>
      simp only
      split <;> simp [Option.filter, hlen]

/-- A byte of the name as Python sees it, with one kind of slash. -/
def slashChar (b : UInt8) : Char := if asciiChar b = Char.ofNat 92 then '/' else asciiChar b

theorem asciiChar_toNat (b : UInt8) :
    (asciiChar b).toNat = if b < 128 then b.toNat else 0xFFFD := by
  unfold asciiChar
  split
  · rename_i h
    have hlt : b.toNat < 128 := UInt8.lt_iff_toNat_lt.1 h
    have hv : b.toNat.isValidChar := Or.inl (by omega)
    rw [Char.ofNat, dif_pos hv]
    rfl
  · rfl

theorem asciiChar_eq_iff {c : Char} (hc : c.toNat < 128) (b : UInt8) :
    asciiChar b = c ↔ b.toNat = c.toNat := by
  rw [← Char.toNat_inj, asciiChar_toNat]
  split
  · rfl
  · rename_i h
    have : ¬ b.toNat < 128 := fun hlt => h (UInt8.lt_iff_toNat_lt.2 hlt)
    omega

theorem slashChar_slash (b : UInt8) : slashChar b = '/' ↔ b = 47 ∨ b = 92 := by
  have hback : asciiChar b = Char.ofNat 92 ↔ b = 92 := by
    rw [asciiChar_eq_iff (by decide), ← UInt8.toNat_inj]
    rfl
  have hslash : asciiChar b = '/' ↔ b = 47 := by
    rw [asciiChar_eq_iff (by decide), ← UInt8.toNat_inj]
    rfl
  unfold slashChar
  split
  · rename_i h
    simp [hback.1 h]
  · rename_i h
    rw [hslash]
    exact ⟨.inl, fun h' => h'.resolve_right (mt hback.2 h)⟩

theorem slashChar_digit (b : UInt8) : (slashChar b).isDigit = isDigit b := by
  have hrange : ∀ c : Char, c.isDigit = true ↔ 48 ≤ c.toNat ∧ c.toNat ≤ 57 := by
    intro c
    simp only [Char.isDigit, Bool.and_eq_true, decide_eq_true_eq, ge_iff_le, UInt32.le_iff_toNat_le]
    rfl
  rw [Bool.eq_iff_iff, hrange, isDigit_iff]
  unfold slashChar
  split
  · rename_i h
    rw [asciiChar_eq_iff (by decide)] at h
    have h47 : '/'.toNat = 47 := rfl
    have h92 : (Char.ofNat 92).toNat = 92 := rfl
    omega
  · rw [asciiChar_toNat]
    split
    · rfl
    · rename_i h
      have : ¬ b.toNat < 128 := fun hlt => h (UInt8.lt_iff_toNat_lt.2 hlt)
      omega

/-- Python accepts a block of any length, and pads it as it stands. -/
theorem router_rewritePrefix (p : PrefixSettings) (name : Bytes) :
    p.router.rewritePrefix (decodeAscii name) =
      (splitName (name.drop p.trigger.length)).map fun (block, tail) =>
        p.folder ++ Py.zfill p.pad (block.map slashChar) ++ '/' :: tail.map slashChar := by
  have hrest : ((decodeAscii name).drop p.trigger.length).map
      (fun c => if c = Char.ofNat 92 then '/' else c) =
      (name.drop p.trigger.length).map slashChar := by
    rw [decodeAscii, ← List.map_drop, List.map_map]
    rfl
  simp only [Py.RouterSource.rewritePrefix, PrefixSettings.router, hrest]
  generalize name.drop p.trigger.length = rest
  cases hparts : splitName rest with
  | some parts =>
    obtain ⟨block, tail⟩ := parts
    obtain ⟨hne, hdigits, s, hs, rfl⟩ := splitName_eq_some.1 hparts
    have hnoslash : ∀ c ∈ block.map slashChar, decide (c ≠ '/') = true := by
      intro c hc
      obtain ⟨b, hb, rfl⟩ := List.mem_map.1 hc
      have hdigit := hdigits b hb
      rw [decide_eq_true_eq, ne_eq, slashChar_slash]
      rintro (rfl | rfl)
      · exact absurd hdigit (by decide)
      · exact absurd hdigit (by decide)
    have hall : (block.map slashChar).all Char.isDigit = true := by
      simpa [slashChar_digit] using hdigits
    have hmap : (block ++ s :: tail).map slashChar =
        block.map slashChar ++ '/' :: tail.map slashChar := by
      rw [List.map_append, List.map_cons, (slashChar_slash s).2 hs]
    have hstop : ∀ t : Str, Stops (fun c => decide (c ≠ '/')) ('/' :: t) := stops_cons (by decide)
    obtain ⟨htake, hdrop⟩ := span_stops hnoslash (hstop (tail.map slashChar))
    rw [hmap, htake, hdrop]
    simp [hne, hall]
  | none =>
    cases hdrop : (rest.map slashChar).dropWhile (· ≠ '/') with
    | nil => rfl
    | cons c tail =>
      simp only [Option.map_none, ite_eq_left_iff, not_or]
      rintro ⟨hne, hall⟩
      exfalso
      -- digits up to the first slash would have been a block
      have hc : c = '/' := by
        have := List.head_dropWhile_not (fun c => decide (c ≠ '/')) (l := rest.map slashChar)
          (by rw [hdrop]; exact List.cons_ne_nil _ _)
        simp only [hdrop, List.head_cons] at this
        simpa using this
      have hsplit := List.takeWhile_append_dropWhile (p := fun c => decide (c ≠ '/'))
        (l := rest.map slashChar)
      rw [hdrop, hc] at hsplit
      obtain ⟨block, after, rfl, hblock, hafter⟩ := List.map_eq_append_iff.1 hsplit.symm
      obtain ⟨s, tail', rfl, hs, -⟩ := List.map_eq_cons_iff.1 hafter
      rw [← hblock] at hne hall
      have hsome : splitName (block ++ s :: tail') = some (block, tail') := by
        refine splitName_eq_some.2 ⟨by simpa using hne, ?_, s, (slashChar_slash s).1 hs, rfl⟩
        intro b hb
        rw [← slashChar_digit]
        exact List.all_eq_true.1 (by simpa using hall) _ (List.mem_map_of_mem hb)
      rw [hsome] at hparts
      cases hparts

/-! ## What is produced -/

/-- UTF-8. -/
def utf8 (s : Str) : Bytes := (codes s).flatMap encodeChar

/-- One kind of slash. -/
def slashed (s : Bytes) : Bytes := s.map fun b => if b = 92 then 47 else b

theorem slashed_append (s t : Bytes) : slashed (s ++ t) = slashed s ++ slashed t := List.map_append

@[simp] theorem length_slashed (s : Bytes) : (slashed s).length = s.length := List.length_map _

theorem utf8_append (s t : Str) : utf8 (s ++ t) = utf8 s ++ utf8 t := by
  simp [utf8, codes]

theorem utf8_cons (c : Char) (s : Str) : utf8 (c :: s) = encodeChar c.toNat ++ utf8 s := rfl

/-- A tail as Python passes it on: one byte for an ASCII character, U+FFFD for any other byte. -/
def seen (tail : Bytes) : Bytes :=
  tail.flatMap fun b => if b < 128 then slashed [b] else [0xEF, 0xBF, 0xBD]

theorem encodeChar_ascii {n : Nat} (h : n < 128) : encodeChar n = [UInt8.ofNat n] := if_pos h

theorem slashed_encodeChar (b : UInt8) : slashed (encodeChar (slashChar b).toNat) =
    if b < 128 then slashed [b] else [0xEF, 0xBF, 0xBD] := by
  unfold slashChar
  split
  · rename_i h
    rw [asciiChar_eq_iff (by decide)] at h
    have hb : b = 92 := UInt8.toNat_inj.1 h
    subst hb
    rfl
  · rw [asciiChar_toNat]
    split
    · rename_i h
      rw [encodeChar_ascii (UInt8.lt_iff_toNat_lt.1 h), UInt8.ofNat_toNat]
    · rfl

theorem slashed_utf8_tail (tail : Bytes) : slashed (utf8 (tail.map slashChar)) = seen tail := by
  induction tail with
  | nil => rfl
  | cons b tail ih =>
    rw [List.map_cons, utf8_cons, slashed_append, slashed_encodeChar, ih]
    rfl

theorem length_seen (tail : Bytes) :
    tail.length ≤ (seen tail).length ∧
      ((seen tail).length = tail.length → ∀ b ∈ tail, b < 128) := by
  induction tail with
  | nil => exact ⟨Nat.le_refl _, fun _ _ h => nomatch h⟩
  | cons b tail ih =>
    have hcons : seen (b :: tail) =
        (if b < 128 then slashed [b] else [0xEF, 0xBF, 0xBD]) ++ seen tail := rfl
    rw [hcons, List.length_append, List.length_cons]
    by_cases hb : b < 128
    · rw [if_pos hb, length_slashed, List.length_singleton]
      refine ⟨by omega, fun h => ?_⟩
      exact List.forall_mem_cons.2 ⟨hb, ih.2 (by omega)⟩
    · rw [if_neg hb]
      simp only [List.length_cons, List.length_nil]
      exact ⟨by omega, fun h => absurd h (by omega)⟩

theorem seen_eq {tail : Bytes} (h : ∀ b ∈ tail, b < 128) : seen tail = slashed tail := by
  induction tail with
  | nil => rfl
  | cons b tail ih =>
    rw [List.forall_mem_cons] at h
    show (if b < 128 then slashed [b] else _) ++ seen tail = _
    rw [if_pos h.1, ih h.2, ← slashed_append]
    rfl

/-- What stands before the folder. -/
def rootPart (c : Config) : Bytes := if c.ftpRoot ≠ [] then c.ftpRoot ++ [47] else []

/-- The C library does what the standard says of formats that have a meaning. -/
structure Standard (libc : Libc) : Prop where
  format : ∀ fmt n s, formatU fmt n = some s → libc.format fmt n = s

/-- **Both engines do the same to a name**: they refuse it, or they make the same path of it, which
    C puts behind its root. -/
def Alike (p : PrefixSettings) (c : Config) (name : Bytes) : Prop :=
  ∀ libc, Standard libc →
    match p.router.rewritePrefix (decodeAscii name) with
    | none => rewritePrefix (p.pushed c) libc MAX_PATHLEN name = none
    | some path => ∃ out,
        rewritePrefix (p.pushed c) libc MAX_PATHLEN name = some (rootPart c ++ out) ∧
          slashed out = slashed (utf8 path)

/-- What C makes of digits and a tail, without the root. -/
def producedC (folder tail : Bytes) : Bytes := slashed (cut 64 folder ++ 47 :: tail)

/-- What Python makes of a block and a tail. -/
def producedPy (p : PrefixSettings) (block tail : Bytes) : Bytes :=
  slashed (utf8 (p.folder ++ Py.zfill p.pad (block.map slashChar) ++ '/' :: tail.map slashChar))

/-- The room behind the root. -/
def rootRoom (c : Config) : Nat := MAX_PATHLEN - 1 - (rootPart c).length

/-- The two parse results and the two texts. -/
def Coincide (p : PrefixSettings) (c : Config) (cParts pyParts : Option (Bytes × Bytes)) : Prop :=
  match cParts, pyParts with
  | none, none => True
  | some (digits, tail), some (block, tail') =>
    (rootPart c).length ≤ MAX_PATHLEN - 1 ∧
      ∃ folder, formatU (p.pushed c).prefixFolderFmt (atoi digits).toNat = some folder ∧
        (producedC folder tail).take (rootRoom c) = producedPy p block tail'
  | _, _ => False

/-- What is left behind the root in a buffer. -/
theorem behind_root_iff {root text want : Bytes} {k : Nat} :
    (∃ out, (root ++ text).take k = root ++ out ∧ slashed out = want) ↔
      root.length ≤ k ∧ (slashed text).take (k - root.length) = want := by
  have hsplit : root.length ≤ k → (root ++ text).take k = root ++ text.take (k - root.length) := by
    intro hk
    rw [List.take_append, List.take_of_length_le hk]
  have hslash : slashed (text.take (k - root.length)) = (slashed text).take (k - root.length) :=
    List.map_take
  constructor
  · rintro ⟨out, hout, hwant⟩
    have hk : root.length ≤ k := by
      have := congrArg List.length hout
      rw [List.length_take, List.length_append, List.length_append] at this
      omega
    rw [hsplit hk] at hout
    rw [← hslash, List.append_cancel_left hout]
    exact ⟨hk, hwant⟩
  · rintro ⟨hk, hwant⟩
    exact ⟨_, hsplit hk, hslash.trans hwant⟩

/-- A library that prints `dflt` for formats without a meaning. -/
def libcWith (dflt : Bytes) : Libc := ⟨fun fmt n => (formatU fmt n).getD dflt, [], true⟩

theorem standard_libcWith (dflt : Bytes) : Standard (libcWith dflt) := by
  refine ⟨fun fmt n s h => ?_⟩
  show (formatU fmt n).getD dflt = s
  rw [h]
  rfl

theorem slashed_digits {s : Bytes} (h : ∀ c ∈ s, isDigit c = true) : slashed s = s := by
  have hid : ∀ c ∈ s, (if c = 92 then 47 else c) = c := by
    intro c hc
    refine if_neg ?_
    rintro rfl
    exact absurd (h _ hc) (by decide)
  rw [slashed, List.map_congr_left hid]
  exact List.map_id' s

theorem seen_digits {s : Bytes} (h : ∀ c ∈ s, isDigit c = true) : seen s = s := by
  rw [seen_eq, slashed_digits h]
  intro c hc
  have := (isDigit_iff c).1 (h c hc)
  exact Nat.lt_of_le_of_lt this.2 (by decide)

/-- Folder, padded block and tail. -/
theorem producedPy_eq (p : PrefixSettings) {block : Bytes} (h : ∀ c ∈ block, isDigit c = true)
    (tail : Bytes) : producedPy p block tail =
      slashed (utf8 p.folder) ++ (padLeft 48 p.pad block ++ 47 :: seen tail) := by
  have hzeros : ∀ k, slashed (utf8 (List.replicate k '0')) = List.replicate k 48 := by
    intro k
    induction k with
    | zero => rfl
    | succ k ih =>
      rw [List.replicate_succ, utf8_cons, slashed_append, ih]
      rfl
  have hpadded : slashed (utf8 (Py.zfill p.pad (block.map slashChar))) =
      padLeft 48 p.pad block := by
    rw [Py.zfill, utf8_append, slashed_append, hzeros, slashed_utf8_tail, seen_digits h,
      List.length_map]
    rfl
  rw [producedPy, utf8_append, utf8_append, utf8_cons, slashed_append, slashed_append,
    slashed_append, hpadded, slashed_utf8_tail, List.append_assoc]
  rfl

/-- Formats without a meaning print what the library likes, so no path can be relied on. -/
theorem alike_iff_coincide (p : PrefixSettings) (c : Config) (name : Bytes) :
    Alike p c name ↔ Coincide p c (nameParts (p.pushed c) name)
      (splitName (name.drop p.trigger.length)) := by
  simp only [Alike, router_rewritePrefix, rewritePrefix_eq]
  cases nameParts (p.pushed c) name with
  | none =>
    cases splitName (name.drop p.trigger.length) with
    | none => simp [Coincide]
    | some parts =>
      simp only [Option.map_none, Option.map_some, Coincide, iff_false, not_forall]
      exact ⟨libcWith [], standard_libcWith [], by simp⟩
  | some cParts =>
    obtain ⟨digits, tail⟩ := cParts
    cases splitName (name.drop p.trigger.length) with
    | none =>
      simp only [Option.map_none, Option.map_some, Coincide, iff_false, not_forall]
      exact ⟨libcWith [], standard_libcWith [], by simp⟩
    | some parts =>
      obtain ⟨block, tail'⟩ := parts
      have hone : ∀ libc : Libc,
          (∃ out, some (cut MAX_PATHLEN (folderOf (p.pushed c) libc digits ++ tail)) =
            some (rootPart c ++ out) ∧ slashed out = producedPy p block tail') ↔
          (rootPart c).length ≤ MAX_PATHLEN - 1 ∧
            (producedC (libc.format (p.pushed c).prefixFolderFmt (atoi digits).toNat) tail).take
              (rootRoom c) = producedPy p block tail' := by
        intro libc
        have htext : folderOf (p.pushed c) libc digits ++ tail = rootPart c ++
            (cut 64 (libc.format (p.pushed c).prefixFolderFmt (atoi digits).toNat) ++
              47 :: tail) := by
          simp only [folderOf, rootPart, PrefixSettings.pushed, List.append_assoc, List.cons_append,
            List.nil_append]
          rfl
        simp only [htext, cut, Option.some.injEq]
        exact behind_root_iff
      constructor
      · intro h
        have hroot := ((hone _).1 (h _ (standard_libcWith []))).1
        have hsame : ∀ dflt, (producedC ((formatU (p.pushed c).prefixFolderFmt
            (atoi digits).toNat).getD dflt) tail).take (rootRoom c) = producedPy p block tail' :=
          fun dflt => ((hone _).1 (h _ (standard_libcWith dflt))).2
        refine ⟨hroot, ?_⟩
        cases hfolder : formatU (p.pushed c).prefixFolderFmt (atoi digits).toNat with
        | some folder =>
          simpa [hfolder] using hsame []
        | none =>
          -- two libraries that print nothing and a control character, and one path
          have hboth := (hsame []).trans (hsame [1]).symm
          have hne : producedPy p block tail' ≠ [] := by
            rw [producedPy, utf8_append, utf8_cons, slashed_append, slashed_append]
            simp [slashed, encodeChar]
          rw [← hsame []] at hne
          simp only [hfolder, Option.getD_none] at hboth hne
          cases hroom : rootRoom c with
          | zero => simp [hroom] at hne
          | succ k => simp [hroom, producedC, cut, slashed] at hboth
      · rintro ⟨hroot, folder, hfolder, hsame⟩ libc hlibc
        refine (hone libc).2 ⟨hroot, ?_⟩
        rwa [hlibc.format _ _ _ hfolder]

/-! ## The format on its way -/

/-- Characters that are carried go into the buffer one by one, up to its end. -/
theorem stored_append {s : Text} (h : ∀ x ∈ s, Carried x) (t : Text) (n : Nat) :
    stored (s ++ t) n = (wire s).take n ++ stored t (n - s.length) := by
  induction s generalizing n with
  | nil => simp
  | cons x s ih =>
    rw [List.forall_mem_cons] at h
    cases n with
    | zero => simp [stored]
    | succ n =>
      rw [List.cons_append, stored_carried h.1, ih h.2, wire_cons, List.take_succ_cons,
        List.length_cons, Nat.add_sub_add_right]
      rfl

theorem stored_all {s : Text} (h : ∀ x ∈ s, Carried x) (n : Nat) :
    stored s n = (wire s).take n := by
  have hnil : ∀ k, stored [] k = [] := fun k => by cases k <;> rfl
  have := stored_append h [] n
  rwa [hnil, List.append_nil, List.append_nil] at this

theorem flatMap_encode_carried {s : Text} (h : ∀ x ∈ s, Carried x) :
    s.flatMap encodeChar = wire s := by
  induction s with
  | nil => rfl
  | cons x s ih =>
    rw [List.forall_mem_cons] at h
    rw [List.flatMap_cons, encodeChar_carried h.1, ih h.2]
    rfl

/-- What follows the folder prefix in the format. -/
def PrefixSettings.conversion (p : PrefixSettings) : Text :=
  text "%0" ++ (Json.numeral p.pad ++ text "u")

theorem folderFmt_eq (p : PrefixSettings) : p.folderFmt = codes p.folder ++ p.conversion := by
  simp [PrefixSettings.folderFmt, PrefixSettings.conversion]

theorem wire_conversion (p : PrefixSettings) :
    wire p.conversion = 37 :: 48 :: (decimal p.pad ++ [117]) := by
  rw [PrefixSettings.conversion, wire_append, wire_append, ← decimal_eq_wire]
  rfl

theorem conversion_carried (p : PrefixSettings) : ∀ x ∈ p.conversion, Carried x := by
  intro x hx
  simp only [PrefixSettings.conversion, List.mem_append] at hx
  rcases hx with hx | hx | hx
  · revert x
    decide
  · obtain ⟨d, hd, rfl⟩ := List.mem_map.1 hx
    have := (isDigit_iff d).1 (decimal_digits _ d hd)
    unfold Carried
    omega
  · revert x
    decide

theorem noPercent_wire (p : PrefixSettings) {s t : Text} (hs : codes p.folder = s ++ t)
    (h : ∀ x ∈ s, Carried x) : 37 ∉ wire s := by
  intro hmem
  obtain ⟨x, hx, hx37⟩ := List.mem_map.1 hmem
  have hcarried := h x hx
  have hx' : x = 37 := (ofNat_inj (by unfold Carried at hcarried; omega) (by decide)).1 hx37
  have hcode : x ∈ codes p.folder := by
    rw [hs]
    exact List.mem_append_left _ hx
  obtain ⟨ch, hch, hchx⟩ := List.mem_map.1 hcode
  have : ch = '%' := Char.toNat_inj.1 (hchx.trans hx')
  exact p.noPercent (this ▸ hch)

/-! ## When it holds -/

/-- What block and tail have to be like for both engines to make the same path of them. -/
structure FitsBoth (p : PrefixSettings) (c : Config) (block tail : Bytes) : Prop where
  short : block.length ≤ 15
  value : ofDecimal block < LONG_LIM
  zeros : block.length ≤ p.pad ∨ block.head? ≠ some 48
  ascii : ∀ b ∈ tail, b < 128
  carried : ∀ x ∈ codes p.folder, Carried x
  format : p.folderFmt.length ≤ 63
  folder : p.folder.length + max p.pad block.length ≤ 63
  path : (rootPart c).length + (p.folder.length + max p.pad block.length + 1 + tail.length) ≤
    MAX_PATHLEN - 1

/-- Rewriting agrees on every name whose block and tail fit.  A trigger that does not arrive with
    its length (it has more than 15 characters, or one that is not carried) makes the engines read
    different parts of the name; then only the two results can be compared. -/
def Conform (p : PrefixSettings) (c : Config) (name : Bytes) : Prop :=
  if (p.pushed c).prefixTrigger.length = p.trigger.length then
    ∀ block tail, splitName (name.drop p.trigger.length) = some (block, tail) → FitsBoth p c block tail
  else Coincide p c (nameParts (p.pushed c) name) (splitName (name.drop p.trigger.length))

section
variable {p : PrefixSettings} {c : Config} {block tail : Bytes}

theorem length_producedC (folder tail : Bytes) :
    (producedC folder tail).length = min 63 folder.length + 1 + tail.length := by
  simp only [producedC, cut, length_slashed, List.length_append, List.length_cons, List.length_take]
  omega

theorem length_producedPy (hblock : ∀ c ∈ block, isDigit c = true) :
    (producedPy p block tail).length =
      (utf8 p.folder).length + max p.pad block.length + 1 + (seen tail).length := by
  rw [producedPy_eq p hblock, List.length_append, List.length_append, length_slashed,
    length_padLeft, List.length_cons]
  omega

theorem scalar_codes {s : Str} {x : Nat} (h : x ∈ codes s) : isScalar x = true := by
  obtain ⟨ch, -, rfl⟩ := List.mem_map.1 h
  have hvalid : ch.toNat < 0xD800 ∨ (0xDFFF < ch.toNat ∧ ch.toNat < 0x110000) := ch.valid
  rw [Utf8.isScalar_iff]
  omega

theorem length_flatMap_encode (s : Text) : s.length ≤ (s.flatMap encodeChar).length := by
  induction s with
  | nil => exact Nat.le_refl _
  | cons x s ih =>
    have := List.length_pos_iff.2 (Utf8.encodeChar_ne_nil x)
    rw [List.flatMap_cons, List.length_append, List.length_cons]
    omega

/-- A folder prefix that fills the buffer leaves no room for the digits. -/
theorem not_produced_of_long (hblock : ∀ c ∈ block, isDigit c = true) {s t : Text}
    (hs : codes p.folder = s ++ t) (h : ∀ x ∈ s, Carried x) (hlong : 63 ≤ s.length) {n : Nat}
    {folder : Bytes} (hfolder : formatU (stored p.folderFmt 63) n = some folder) {k : Nat} :
    (producedC folder tail).take k ≠ producedPy p block tail := by
  have hstored : stored p.folderFmt 63 = (wire s).take 63 := by
    rw [folderFmt_eq, hs, List.append_assoc, stored_append h, Nat.sub_eq_zero_of_le hlong]
    exact List.append_nil _
  have hplain : 37 ∉ (wire s).take 63 := fun hmem =>
    noPercent_wire p hs h (List.mem_of_mem_take hmem)
  have hprinted : formatU ((wire s).take 63) n = some ((wire s).take 63) := by
    have := formatFrom_text n hplain []
    simpa [formatU, formatFrom] using this
  rw [hstored, hprinted] at hfolder
  cases hfolder
  intro heq
  have hlen := congrArg List.length heq
  have hutf : s.length + t.length ≤ (utf8 p.folder).length := by
    have := length_flatMap_encode (codes p.folder)
    rwa [hs, List.length_append, ← hs] at this
  have hseen := (length_seen tail).1
  have hpad := p.padRange
  rw [List.length_take, length_producedC, length_producedPy hblock, List.length_take,
    length_wire] at hlen
  omega

/-- A character that is not carried shows in the path. -/
theorem not_produced_of_lost (hblock : ∀ c ∈ block, isDigit c = true) {s t : Text} {x : Nat}
    (hs : codes p.folder = s ++ x :: t) (h : ∀ x ∈ s, Carried x) (hx : ¬ Carried x) {n : Nat}
    {folder : Bytes} (hfolder : formatU (stored p.folderFmt 63) n = some folder) {k : Nat} :
    (producedC folder tail).take k ≠ producedPy p block tail := by
  by_cases hlong : 63 ≤ s.length
  · exact not_produced_of_long hblock hs h hlong hfolder
  obtain ⟨m, hm⟩ : ∃ m, 63 - s.length = m + 1 := ⟨_, (Nat.succ_pred (by omega)).symm⟩
  obtain ⟨b, r, hb, hrange⟩ := stored_other hx (t ++ p.conversion) m
  have hstored : stored p.folderFmt 63 = wire s ++ [b] ++ r := by
    rw [folderFmt_eq, hs, List.append_assoc, stored_append h, hm, List.cons_append, hb,
      List.take_of_length_le (by rw [length_wire]; omega)]
    simp
  have hb37 : b ≠ 37 := by
    rintro rfl
    exact absurd hrange.1 (by decide)
  have hb92 : b ≠ 92 := by
    rintro rfl
    exact absurd hrange.1 (by decide)
  have hplain : 37 ∉ wire s ++ [b] := by
    rw [List.mem_append, List.mem_singleton]
    exact not_or.2 ⟨noPercent_wire p hs h, Ne.symm hb37⟩
  -- the letter of the escape is printed behind the carried characters
  rw [hstored, formatU, formatFrom_text n hplain] at hfolder
  obtain ⟨r', -, rfl⟩ := Option.map_eq_some_iff.1 hfolder
  obtain ⟨y, ys, hy⟩ := List.exists_cons_of_ne_nil (Utf8.encodeChar_ne_nil x)
  have hutf : utf8 p.folder = wire s ++ y :: (ys ++ t.flatMap encodeChar) := by
    rw [utf8, hs, List.flatMap_append, flatMap_encode_carried h, List.flatMap_cons, hy]
    rfl
  have hC : ∃ zs, producedC (wire s ++ [b] ++ r') tail = slashed (wire s) ++ b :: zs := by
    have hcut : cut 64 (wire s ++ [b] ++ r') =
        wire s ++ [b] ++ r'.take (63 - (wire s ++ [b]).length) := by
      rw [cut, List.take_append, List.take_of_length_le]
      rw [List.length_append, length_wire, List.length_singleton]
      omega
    rw [producedC, hcut]
    simp [slashed, hb92]
  obtain ⟨zs, hzs⟩ := hC
  intro heq
  have hpre : producedPy p block tail <+: slashed (wire s) ++ b :: zs := by
    rw [← heq, hzs]
    exact List.take_prefix _ _
  rw [producedPy_eq p hblock, hutf, slashed_append, List.append_assoc,
    List.prefix_append_right_inj] at hpre
  have hfirst : (if y = 92 then 47 else y) = b := (List.cons_prefix_cons.1 hpre).1
  have hyb : y = b := by
    split at hfirst
    · rw [← hfirst] at hrange
      exact absurd hrange.1 (by decide)
    · exact hfirst
  have hscalar : isScalar x = true := scalar_codes (s := p.folder) (by rw [hs]; simp)
  exact encodeChar_other hscalar hx hrange ys [] (by rw [List.append_nil, hy, hyb])

/-- A format that is cut inside its conversion has no meaning. -/
theorem format_cut (h : ∀ x ∈ codes p.folder, Carried x) (hshort : p.folder.length < 63)
    (hlong : 63 < p.folderFmt.length) (n : Nat) : formatU (stored p.folderFmt 63) n = none := by
  have hcodes : (codes p.folder).length = p.folder.length := List.length_map _
  obtain ⟨m, hm⟩ : ∃ m, 63 - (codes p.folder).length = m + 1 := ⟨_, (Nat.succ_pred (by omega)).symm⟩
  have hlen : p.conversion.length = 3 + (decimal p.pad).length := by
    have := congrArg List.length (wire_conversion p)
    rw [length_wire] at this
    rw [this]
    simp
    omega
  -- percent sign and digits, but not the letter
  have hstored : stored p.folderFmt 63 =
      wire (codes p.folder) ++ 37 :: (48 :: decimal p.pad).take m := by
    rw [folderFmt_eq, stored_append h, stored_all (conversion_carried p), hm, wire_conversion,
      List.take_of_length_le (by rw [length_wire]; omega), List.take_succ_cons]
    rw [folderFmt_eq, List.length_append] at hlong
    rw [← List.cons_append, List.take_append_of_le_length (by simp only [List.length_cons]; omega)]
  have hdigits : ∀ c ∈ (48 :: decimal p.pad).take m, isDigit c = true := by
    intro c hc
    rcases List.mem_cons.1 (List.mem_of_mem_take hc) with rfl | hc
    · decide
    · exact decimal_digits _ c hc
  have hplain := noPercent_wire p (t := []) (List.append_nil _).symm h
  rw [hstored, formatU, formatFrom_text n hplain]
  have hrest : formatFrom n .text (37 :: (48 :: decimal p.pad).take m) = none := by
    exact formatFrom_unfinished n hdigits (by simp)
  rw [hrest, Option.map_none]

/-- The format that arrives whole. -/
theorem format_whole (h : ∀ x ∈ codes p.folder, Carried x) (hfit : p.folderFmt.length ≤ 63)
    (n : Nat) : formatU (stored p.folderFmt 63) n =
      some (utf8 p.folder ++ padLeft 48 p.pad (decimal n)) := by
  have hall : ∀ x ∈ p.folderFmt, Carried x := by
    rw [folderFmt_eq]
    exact List.forall_mem_append.2 ⟨h, conversion_carried p⟩
  have hplain := noPercent_wire p (t := []) (List.append_nil _).symm h
  rw [stored_all hall, List.take_of_length_le (by rwa [length_wire]), folderFmt_eq, wire_append,
    wire_conversion, formatU_padded hplain p.padRange.1, utf8, flatMap_encode_carried h]

theorem exists_first_lost {s : Text} (h : ¬ ∀ x ∈ s, Carried x) :
    ∃ s₁ x t, s = s₁ ++ x :: t ∧ (∀ y ∈ s₁, Carried y) ∧ ¬ Carried x := by
  induction s with
  | nil => exact absurd (fun _ h => nomatch h) h
  | cons x s ih =>
    by_cases hx : Carried x
    · obtain ⟨s₁, y, t, rfl, hs₁, hy⟩ := ih fun hall => h (List.forall_mem_cons.2 ⟨hx, hall⟩)
      exact ⟨x :: s₁, y, t, rfl, List.forall_mem_cons.2 ⟨hx, hs₁⟩, hy⟩
    · exact ⟨[], x, s, rfl, fun _ h => (nomatch h), hx⟩

/-- **One block, two paths.** -/
theorem coincide_iff_fits (hblock : ∀ c ∈ block, isDigit c = true) (hne : block ≠ [])
    (hshort : block.length ≤ 15) :
    Coincide p c (some (block, tail)) (some (block, tail)) ↔ FitsBoth p c block tail := by
  have hatoi : (atoi block).toNat = min (ofDecimal block) (LONG_LIM - 1) := by
    rw [atoi_digits hne hblock]
    rfl
  simp only [Coincide, PrefixSettings.pushed, hatoi]
  generalize hn : min (ofDecimal block) (LONG_LIM - 1) = n
  have hseen := length_seen tail
  have hcodes : (codes p.folder).length = p.folder.length := List.length_map _
  constructor
  · rintro ⟨hroot, folder, hfolder, heq⟩
    have hcarried : ∀ x ∈ codes p.folder, Carried x := by
      by_contra hlost
      obtain ⟨s, x, t, hs, hall, hx⟩ := exists_first_lost hlost
      exact not_produced_of_lost hblock hs hall hx hfolder heq
    have hfit : p.folderFmt.length ≤ 63 := by
      by_contra hlong
      by_cases hfull : p.folder.length < 63
      · rw [format_cut hcarried hfull (by omega)] at hfolder
        cases hfolder
      · exact not_produced_of_long hblock (t := []) (List.append_nil _).symm hcarried (by omega)
          hfolder heq
    rw [format_whole hcarried hfit] at hfolder
    cases hfolder
    have hutf : (utf8 p.folder).length = p.folder.length := by
      rw [utf8, flatMap_encode_carried hcarried, length_wire, hcodes]
    -- neither side is longer than the other, so nothing is cut and every byte is one character
    have hdecimal : (decimal n).length ≤ block.length :=
      length_decimal_le (List.length_pos_iff.2 hne)
        (Nat.lt_of_le_of_lt (by omega) (ofDecimal_lt hblock))
    have hlen := congrArg List.length heq
    rw [List.length_take, length_producedC, length_producedPy hblock, List.length_append,
      length_padLeft, rootRoom, hutf] at hlen
    have hascii : ∀ b ∈ tail, b < 128 := hseen.2 (by omega)
    have hcut : cut 64 (utf8 p.folder ++ padLeft 48 p.pad (decimal n)) =
        utf8 p.folder ++ padLeft 48 p.pad (decimal n) := by
      refine List.take_of_length_le ?_
      rw [List.length_append, length_padLeft]
      omega
    rw [List.take_of_length_le, producedC, hcut, producedPy_eq p hblock, seen_eq hascii,
      slashed_append, slashed_append, slashed_digits (padLeft_digits (decimal_digits n)), List.append_assoc] at heq
    · have hpad : padLeft 48 p.pad (decimal n) = padLeft 48 p.pad block :=
        List.append_cancel_right (List.append_cancel_left heq)
      obtain ⟨hvalue, hzeros⟩ := (padLeft_decimal_eq_iff hblock hne p.padRange.1 n).1 hpad
      have hlim : 0 < LONG_LIM := by decide
      exact ⟨hshort, by omega, hzeros, hascii, hcarried, hfit, by omega, by omega⟩
    · rw [length_producedC, List.length_append, length_padLeft, rootRoom]
      omega
  · rintro ⟨-, hvalue, hzeros, hascii, hcarried, hfit, hname, hpath⟩
    have hutf : (utf8 p.folder).length = p.folder.length := by
      rw [utf8, flatMap_encode_carried hcarried, length_wire, hcodes]
    have hpad : padLeft 48 p.pad (decimal n) = padLeft 48 p.pad block :=
      (padLeft_decimal_eq_iff hblock hne p.padRange.1 n).2 ⟨by omega, hzeros⟩
    refine ⟨by omega, _, format_whole hcarried hfit n, ?_⟩
    have hcut : cut 64 (utf8 p.folder ++ padLeft 48 p.pad block) =
        utf8 p.folder ++ padLeft 48 p.pad block := by
      refine List.take_of_length_le ?_
      rw [List.length_append, length_padLeft]
      omega
    rw [hpad, List.take_of_length_le, producedC, hcut, producedPy_eq p hblock, seen_eq hascii,
      slashed_append, slashed_append, slashed_digits (padLeft_digits hblock), List.append_assoc]
    · rfl
    · rw [length_producedC, List.length_append, length_padLeft, rootRoom]
      omega

end

/-- **When both engines rewrite a name alike.** -/
theorem rewrites_alike_iff (p : PrefixSettings) (c : Config) (name : Bytes) :
    Alike p c name ↔ Conform p c name := by
  rw [alike_iff_coincide, Conform]
  split
  · rename_i hlen
    rw [nameParts_eq, hlen]
    cases hparts : splitName (name.drop p.trigger.length) with
    | none => simp [Coincide]
    | some parts =>
      obtain ⟨block, tail⟩ := parts
      obtain ⟨hne, hblock, -⟩ := splitName_eq_some.1 hparts
      have hall : (∀ block' tail', some (block, tail) = some (block', tail') →
          FitsBoth p c block' tail') ↔ FitsBoth p c block tail :=
        ⟨fun h => h _ _ rfl, fun h _ _ heq => by cases heq; exact h⟩
      rw [hall]
      by_cases hshort : block.length ≤ 15
      · rw [← coincide_iff_fits hblock hne hshort]
        simp [Option.filter, hshort]
      · simp only [Option.filter, hshort, decide_false, Bool.false_eq_true, if_false, Coincide,
          false_iff]
        exact fun h => hshort h.short
  · rfl

/-- The settings the engine comes with. -/
def shippedPrefix : PrefixSettings :=
  ⟨Py.str "f::", Py.str "BDCOM", 4, by decide, by decide⟩

/-- Zeros beyond the pad are kept by Python and dropped by C. -/
theorem leading_zeros_differ :
    shippedPrefix.router.rewritePrefix (decodeAscii (ascii "f::00001/x")) =
        some (Py.str "BDCOM00001/x") ∧
      rewritePrefix (shippedPrefix.pushed configDefaults) (libcWith []) MAX_PATHLEN
        (ascii "f::00001/x") = some (ascii "BDCOM0001/x") ∧
      ¬ Alike shippedPrefix configDefaults (ascii "f::00001/x") := by
  have hpy : shippedPrefix.router.rewritePrefix (decodeAscii (ascii "f::00001/x")) =
      some (Py.str "BDCOM00001/x") := by decide
  have hc : rewritePrefix (shippedPrefix.pushed configDefaults) (libcWith []) MAX_PATHLEN
      (ascii "f::00001/x") = some (ascii "BDCOM0001/x") := by decide
  refine ⟨hpy, hc, fun h => ?_⟩
  have hone := h (libcWith []) (standard_libcWith [])
  obtain ⟨out, hout, hsame⟩ := hone
  have hlen := congrArg List.length hsame
  have hout' : out = ascii "BDCOM0001/x" := (Option.some.inj hout).symm
  rw [hout'] at hlen
  exact absurd hlen (by decide)

end Nishro
