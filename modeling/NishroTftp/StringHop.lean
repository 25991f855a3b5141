import NishroTftp.ConfigFields
/-
  The strings of a configuration on their way to the C engine: `json.dumps` on one side
  (`push_config`, `core/engine.py`), `jn_get_str` on the other (`c_core/json.c`).

  `json.dumps` writes ASCII: a character outside of it, a control character and DEL become `\uXXXX`,
  but for the five short escapes.  `jn_str_copy` knows `\n`, `\r` and `\t`; of any other escape it
  keeps the LETTER, so `ü` arrives as the five bytes `u00fc` and `\b` as `b`.

  A string arrives exactly if it has none of these characters.  Where it does not, the first of them
  already comes out as another byte, so truncation cannot hide the difference.
-/
namespace Nishro

open Nishro.CCore
open Nishro.Utf8 (Text text isScalar encode encodeChar)
open Nishro.Json (dumps escapeChar escaped unitEscape)

/-! ## A dict and its node -/

/-- `d[key]`; a dict has each key once. -/
def member (d : Json) (key : String) : Option Json :=
  match d with
  | .obj ms => ms.lookup (text key)
  | _ => none

/-- The value at the end of a path of dicts. -/
def dictAt : Json → List String → Option Json
  | d, [] => some d
  | d, key :: path => (member d key).bind (dictAt · path)

/-- A character that `json.dumps` writes as it is. -/
def Verbatim (c : Nat) : Prop := 32 ≤ c ∧ c ≤ 126 ∧ c ≠ 34 ∧ c ≠ 92

instance (c : Nat) : Decidable (Verbatim c) :=
  inferInstanceAs (Decidable (32 ≤ c ∧ c ≤ 126 ∧ c ≠ 34 ∧ c ≠ 92))

/-- The keys of a message are of this kind. -/
def PlainKey (key : String) : Prop := ∀ c ∈ text key, Verbatim c

instance (key : String) : Decidable (PlainKey key) :=
  inferInstanceAs (Decidable (∀ c ∈ text key, Verbatim c))

/-- `json_parse` of a line and `jn_get_str` at the end of a path of objects. -/
def readStr (line : Bytes) (path : List String) (key : String) (cap : Nat) : Option Bytes :=
  match jsonParse line with
  | .error _ => none
  | .ok root => (objectAt root path).bind (jnGetStr · key cap)

variable {c : Nat}

theorem escapeChar_verbatim (h : Verbatim c) : escapeChar c = [c] := by
  unfold Verbatim at h
  unfold escapeChar
  rw [if_neg (by omega), if_neg (by omega), if_neg (by omega), if_neg (by omega), if_neg (by omega),
    if_neg (by omega), if_pos (by omega)]

theorem escapeChar_backslash (h : ¬ Verbatim c) : ∃ r, escapeChar c = 92 :: r := by
  unfold Verbatim at h
  unfold escapeChar
  repeat' split
  · exact ⟨_, rfl⟩
  · exact ⟨_, rfl⟩
  · exact ⟨_, rfl⟩
  · exact ⟨_, rfl⟩
  · exact ⟨_, rfl⟩
  · exact ⟨_, rfl⟩
  · omega
  · exact ⟨_, rfl⟩
  · exact ⟨_, rfl⟩

theorem escapeChar_ne_nil (c : Nat) : escapeChar c ≠ [] := by
  by_cases h : Verbatim c
  · rw [escapeChar_verbatim h]
    exact List.cons_ne_nil _ _
  · obtain ⟨r, hr⟩ := escapeChar_backslash h
    rw [hr]
    exact List.cons_ne_nil _ _

theorem wire_text (key : String) : wire (text key) = ascii key := by
  simp [wire, text, ascii]

theorem escaped_cons (c : Nat) (s : Text) : escaped (c :: s) = escapeChar c ++ escaped s := by
  simp [escaped]

theorem ofNat_inj {m n : Nat} (hm : m < 256) (hn : n < 256) :
    UInt8.ofNat m = UInt8.ofNat n ↔ m = n := by
  rw [← UInt8.toNat_inj, Utf8.toNat_ofNat hm, Utf8.toNat_ofNat hn]

/-- Only the key itself is written as a plain key. -/
theorem wire_escaped_eq_iff {k : Text} (hk : ∀ c ∈ k, Verbatim c) :
    ∀ {t : Text}, wire (escaped t) = wire k ↔ t = k := by
  induction k with
  | nil =>
    intro t
    cases t with
    | nil => exact iff_of_true rfl rfl
    | cons c t => simp [escaped_cons, escapeChar_ne_nil, wire]
  | cons a k ih =>
    intro t
    have ha := hk a List.mem_cons_self
    cases t with
    | nil => exact iff_of_false (List.cons_ne_nil _ _).symm (List.cons_ne_nil a k).symm
    | cons c t =>
      by_cases hc : Verbatim c
      · rw [escaped_cons, escapeChar_verbatim hc, List.singleton_append, wire_cons, wire_cons,
          List.cons.injEq, List.cons.injEq, ih fun b hb => hk b (List.mem_cons_of_mem a hb)]
        refine and_congr_left fun _ => ofNat_inj ?_ ?_
        · unfold Verbatim at hc
          omega
        · unfold Verbatim at ha
          omega
      · -- no byte of the key is a backslash
        obtain ⟨r, hr⟩ := escapeChar_backslash hc
        rw [escaped_cons, hr, List.cons_append, wire_cons, wire_cons]
        refine iff_of_false (fun h => ?_) fun h => hc ((List.cons.inj h).1 ▸ ha)
        unfold Verbatim at ha
        have := (ofNat_inj (by decide) (by omega)).1 (List.cons.inj h).1
        omega

theorem lookup_membersOf {key : String} (hkey : PlainKey key) (ms : List (Text × Json)) :
    (membersOf ms).lookup (ascii key) = (ms.lookup (text key)).map nodeOf := by
  induction ms with
  | nil => rfl
  | cons m ms ih =>
    obtain ⟨k, v⟩ := m
    rw [membersOf, memberOf, List.lookup_cons, List.lookup_cons]
    by_cases h : k = text key
    · subst h
      have hsame := (wire_escaped_eq_iff hkey).2 rfl
      rw [wire_text] at hsame
      simp [hsame]
    · have hother : wire (escaped k) ≠ ascii key := by
        rw [← wire_text]
        exact fun heq => h ((wire_escaped_eq_iff hkey).1 heq)
      rw [beq_eq_false_iff_ne.2 hother.symm, beq_eq_false_iff_ne.2 (Ne.symm h), ih]

theorem jnField_nodeOf {key : String} (hkey : PlainKey key) (d : Json) :
    jnField (nodeOf d) key = (member d key).map nodeOf := by
  cases d with
  | obj ms => exact lookup_membersOf hkey ms
  | _ => rfl

/-- A member below which there is something is a dict. -/
theorem dictAt_member {d w : Json} {path : List String} {key : String}
    (h : (dictAt d path).bind (member · key) = some w) : ∃ ms, d = .obj ms := by
  cases d with
  | obj ms => exact ⟨ms, rfl⟩
  | _ => cases path <;> cases h

/-- The C engine finds what stands at the end of the path. -/
theorem objectAt_nodeOf {key : String} (hkey : PlainKey key) {w : Json} :
    ∀ {path : List String} {d : Json}, (∀ k ∈ path, PlainKey k) →
      (dictAt d path).bind (member · key) = some w →
      (objectAt (nodeOf d) path).bind (jnField · key) = some (nodeOf w)
  | [], d, _, h => by
    show jnField (nodeOf d) key = some (nodeOf w)
    rw [jnField_nodeOf hkey, show member d key = some w from h]
    rfl
  | k :: path, d, hpath, h => by
    cases hm : member d k with
    | none => simp [dictAt, hm] at h
    | some d' =>
      rw [dictAt, hm] at h
      obtain ⟨ms, rfl⟩ := dictAt_member h
      have hfield := jnField_nodeOf (hpath k List.mem_cons_self) d
      rw [hm] at hfield
      have hobj : jnObject (nodeOf d) k = some (nodeOf (.obj ms)) := by
        rw [jnObject, hfield]
        rfl
      rw [objectAt, hobj]
      exact objectAt_nodeOf hkey (fun k' hk' => hpath k' (List.mem_cons_of_mem k hk')) h

/-! ## One string -/

/-- The characters that arrive: printable ASCII, tabs and line ends. -/
def Carried (c : Nat) : Prop := (32 ≤ c ∧ c ≤ 126) ∨ c = 9 ∨ c = 10 ∨ c = 13

instance (c : Nat) : Decidable (Carried c) :=
  inferInstanceAs (Decidable ((32 ≤ c ∧ c ≤ 126) ∨ c = 9 ∨ c = 10 ∨ c = 13))

theorem unescapeRaw_cons {b : UInt8} (hb : b ≠ 92) (r : Bytes) :
    unescapeRaw (b :: r) = b :: unescapeRaw r := by
  cases r with
  | nil => rfl
  | cons e t => rw [unescapeRaw, if_neg hb]

theorem unescapeRaw_carried (h : Carried c) (r : Bytes) :
    unescapeRaw (wire (escapeChar c) ++ r) = UInt8.ofNat c :: unescapeRaw r := by
  by_cases hv : Verbatim c
  · rw [escapeChar_verbatim hv]
    refine unescapeRaw_cons (fun heq => ?_) r
    have := (ofNat_inj (by unfold Verbatim at hv; omega) (by decide)).1 heq
    exact hv.2.2.2 this
  · -- a quote, a backslash, or one of the escapes that the C engine knows
    have hc : c = 34 ∨ c = 92 ∨ c = 9 ∨ c = 10 ∨ c = 13 := by
      unfold Verbatim at hv
      unfold Carried at h
      omega
    rcases hc with rfl | rfl | rfl | rfl | rfl <;> rfl

/-- Of any other character the letter of its escape is left. -/
theorem unescapeRaw_other (h : ¬ Carried c) (r : Bytes) :
    ∃ b t, unescapeRaw (wire (escapeChar c) ++ r) = b :: t ∧ 98 ≤ b.toNat ∧ b.toNat ≤ 117 := by
  unfold Carried at h
  unfold escapeChar
  rw [if_neg (by omega), if_neg (by omega), if_neg (by omega), if_neg (by omega)]
  split
  · exact ⟨102, unescapeRaw r, rfl, by decide⟩
  split
  · exact ⟨98, unescapeRaw r, rfl, by decide⟩
  rw [if_neg (by omega)]
  split
  · exact ⟨117, _, rfl, by decide⟩
  · exact ⟨117, _, rfl, by decide⟩

/-- The first byte of such a character in UTF-8 is another one. -/
theorem encodeChar_other (hs : isScalar c = true) (h : ¬ Carried c) {b : UInt8}
    (hb : 98 ≤ b.toNat ∧ b.toNat ≤ 117) (t : Bytes) : ∀ u, b :: t ≠ encodeChar c ++ u := by
  intro u heq
  obtain ⟨y, ys, hy⟩ := List.exists_cons_of_ne_nil (Utf8.encodeChar_ne_nil c)
  rw [hy, List.cons_append] at heq
  obtain rfl := (List.cons.inj heq).1
  unfold Carried at h
  rcases Utf8.mem_encodeChar hs (hy ▸ List.mem_cons_self) with hc | ⟨-, hc⟩
  · omega
  · omega

/-- The string that is then in a buffer with room for `n` bytes. -/
def stored (s : Text) (n : Nat) : Bytes :=
  ((unescapeRaw (wire (escaped s))).take n).takeWhile (· ≠ 0)

theorem wire_escaped_cons (c : Nat) (s : Text) :
    wire (escaped (c :: s)) = wire (escapeChar c) ++ wire (escaped s) := by
  rw [escaped_cons, wire_append]

/-- A character that is carried takes one byte of the buffer. -/
theorem stored_carried (h : Carried c) (s : Text) (n : Nat) :
    stored (c :: s) (n + 1) = UInt8.ofNat c :: stored s n := by
  have hne : UInt8.ofNat c ≠ 0 := by
    intro heq
    have : c = 0 := (ofNat_inj (by unfold Carried at h; omega) (by decide)).1 heq
    unfold Carried at h
    omega
  rw [stored, wire_escaped_cons, unescapeRaw_carried h, List.take_succ_cons,
    List.takeWhile_cons_of_pos (by simp [hne])]
  rfl

/-- Of any other, the letter of its escape comes first. -/
theorem stored_other (h : ¬ Carried c) (s : Text) (n : Nat) :
    ∃ b t, stored (c :: s) (n + 1) = b :: t ∧ 98 ≤ b.toNat ∧ b.toNat ≤ 117 := by
  obtain ⟨b, t, hb, hrange⟩ := unescapeRaw_other h (wire (escaped s))
  have hne : b ≠ 0 := by
    rintro rfl
    exact absurd hrange.1 (by decide)
  rw [stored, wire_escaped_cons, hb, List.take_succ_cons,
    List.takeWhile_cons_of_pos (by simp [hne])]
  exact ⟨b, _, rfl, hrange⟩

theorem encodeChar_carried (h : Carried c) : encodeChar c = [UInt8.ofNat c] :=
  if_pos (by unfold Carried at h; omega)

/-- **A string that fits arrives** exactly if all of its characters do. -/
theorem stored_eq_iff : ∀ {s : Text} {n : Nat}, (∀ c ∈ s, isScalar c = true) → 0 ∉ s →
    (s.flatMap encodeChar).length ≤ n →
    (stored s n = s.flatMap encodeChar ↔ ∀ c ∈ s, Carried c)
  | [], n, _, _, _ => by
    refine iff_of_true ?_ fun _ h => nomatch h
    cases n <;> rfl
  | c :: s, n, hs, h0, hfit => by
    have hscalar := hs c List.mem_cons_self
    have hpos := List.length_pos_iff.2 (Utf8.encodeChar_ne_nil c)
    rw [List.flatMap_cons, List.length_append] at hfit
    obtain ⟨n, rfl⟩ : ∃ k, n = k + 1 := ⟨n - 1, by omega⟩
    rw [List.flatMap_cons]
    by_cases hc : Carried c
    · -- the byte of the character, and the rest of the string into the rest of the buffer
      have ih := stored_eq_iff (n := n) (fun d hd => hs d (List.mem_cons_of_mem c hd))
        (fun h => h0 (List.mem_cons_of_mem c h)) (by omega)
      rw [encodeChar_carried hc, stored_carried hc, List.singleton_append, List.cons.injEq,
        List.forall_mem_cons]
      exact and_congr (iff_of_true rfl hc) ih
    · refine iff_of_false (fun h => ?_) fun h => hc (h c List.mem_cons_self)
      obtain ⟨b, t, hb, hrange⟩ := stored_other hc s n
      rw [hb] at h
      exact encodeChar_other hscalar hc hrange _ _ h

/-! ## The whole hop -/

theorem encoded_iff {s : Text} {bs : Bytes} {cap : Nat} (hs : encode s = some bs) (h0 : 0 ∉ s)
    (hfit : bs.length < cap) :
    jnStrCopy (wire (escaped s)) cap = bs ↔ ∀ c ∈ s, Carried c := by
  obtain ⟨hscalar, rfl⟩ := Utf8.encode_eq_some.1 hs
  exact stored_eq_iff hscalar h0 (by omega)

/-- **A string survives the hop** from `json.dumps` to `jn_get_str`, wherever it stands in the
    message, exactly if it is printable ASCII with tabs and line ends. -/
theorem string_survives_iff {msg : Json} {path : List String} {key : String} {s : Text} {bs : Bytes}
    {cap : Nat} (hmsg : msg.Finite) (hpath : ∀ k ∈ path, PlainKey k) (hkey : PlainKey key)
    (hat : (dictAt msg path).bind (member · key) = some (.str s)) (hs : encode s = some bs)
    (h0 : 0 ∉ s) (hfit : bs.length < cap) :
    readStr (wire (dumps msg)) path key cap = some bs ↔ ∀ c ∈ s, Carried c := by
  have hnode := objectAt_nodeOf hkey hpath hat
  obtain ⟨obj, hobj, hfield⟩ := Option.bind_eq_some_iff.1 hnode
  have hread : readStr (wire (dumps msg)) path key cap = some (jnStrCopy (wire (escaped s)) cap) := by
    rw [readStr, jsonParse_dumps hmsg]
    show (objectAt (nodeOf msg) path).bind (jnGetStr · key cap) = _
    rw [hobj]
    show jnGetStr obj key cap = _
    rw [jnGetStr, hfield]
    rfl
  rw [hread, Option.some.injEq]
  exact encoded_iff hs h0 hfit

/-- A configuration message with the name of a device. -/
def nicMessage (nic : Text) : Json :=
  configMessage (.obj [(text "network", .obj [(text "nic", .str nic)])])

theorem nicMessage_finite (nic : Text) : (nicMessage nic).Finite := by
  simp [nicMessage, configMessage, Json.Finite, Json.FiniteMembers, Json.FiniteMember]

/-- `eth0` arrives. -/
theorem eth0_survives :
    readStr (wire (dumps (nicMessage (text "eth0")))) ["data", "network"] "nic" 256 =
      some (ascii "eth0") :=
  (string_survives_iff (nicMessage_finite _) (by decide) (by decide) rfl (by decide) (by decide)
    (by decide)).2 (by decide)

/-- `ü` arrives as `u00fc`. -/
theorem umlaut_lost :
    encode [0xFC] = some [0xC3, 0xBC] ∧
    readStr (wire (dumps (nicMessage [0xFC]))) ["data", "network"] "nic" 256 =
      some (ascii "u00fc") := by
  refine ⟨by decide, ?_⟩
  rfl

/-! ## The fields of the configuration -/

section

variable (c : Config) {f : Field} {cap : Nat} (hf : f.place.kind = .text cap)
  {ms : List (Text × Json)} (hms : (Json.obj ms).Finite) {s : Text}
include hf hms

/-- What a text of the configuration is after a message that holds it. -/
theorem pushed_text
    (hat : (dictAt (.obj ms) (f.place.sect.name :: f.place.inner)).bind (member · f.place.key) =
      some (.str s)) :
    f.read (onIpcLine c (configLine (.obj ms))) = .text (jnStrCopy (wire (escaped s)) cap) := by
  have hkeys : PlainKey f.place.key ∧ ∀ k ∈ f.place.sect.name :: f.place.inner, PlainKey k := by
    cases f <;> decide
  obtain ⟨obj, hobj, hfield⟩ := Option.bind_eq_some_iff.1 (objectAt_nodeOf hkeys.1 hkeys.2 hat)
  rw [onIpcLine_configLine c hms, read_configApplyNode, Field.readAt, hobj]
  show f.place.kind.update (jnField obj f.place.key) _ = _
  rw [hfield, hf]
  rfl

/-- **Every text of the configuration** (device, roots, prefix, host, user, password) is what was sent,
    under the same condition. -/
theorem pushed_text_iff {bs : Bytes}
    (hat : (dictAt (.obj ms) (f.place.sect.name :: f.place.inner)).bind (member · f.place.key) =
      some (.str s))
    (hs : encode s = some bs) (h0 : 0 ∉ s) (hfit : bs.length < cap) :
    f.read (onIpcLine c (configLine (.obj ms))) = .text bs ↔ ∀ c ∈ s, Carried c := by
  rw [pushed_text c hf hms hat, ← encoded_iff hs h0 hfit]
  exact Iff.of_eq (FieldValue.text.injEq ..)

end

/-- A root with a letter outside ASCII is not what was sent. -/
theorem umlaut_root_changed : Field.rrqRoot.read (onIpcLine configDefaults (configLine
    (.obj [(text "files", .obj [(text "rrq_root", .str [252])])]))) ≠ .text [195, 188] := by
  have hiff := @pushed_text_iff configDefaults .rrqRoot _ rfl
    [(text "files", .obj [(text "rrq_root", .str [252])])]
    (by simp [Json.Finite, Json.FiniteMembers, Json.FiniteMember]) [252] [195, 188] rfl rfl (by decide)
    (by decide)
  exact mt hiff.1 (by decide)

end Nishro
