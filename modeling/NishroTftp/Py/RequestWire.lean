import NishroTftp.RequestParsers
/-
  Requests and OACKs on the wire, read back by `_split_cstrings` and `parse_request`.

  A text is sent as its ASCII bytes and a NUL (`cstrings`).  It comes back as it was if it is ASCII
  and has no NUL in it (`WireText`); an empty text comes back too, unless it is the last one and its
  NUL is missing.  The scanner is taken from `splitCstrings_eq`, so what is left is one fact about
  buffers of strings (`strings_pack_append`) and the loop that pairs keys with values: it drops
  empty keys, lowers the others and lets a repeated key overwrite, which `OptionMap` excludes.
-/
namespace Nishro.Py

open Nishro.Wire ZStrings

/-- A text that goes over the wire as it is: ASCII without NUL. -/
def WireText (s : Str) : Prop := ∀ c ∈ s, 0 < c.toNat ∧ c.toNat < 128

/-- Texts one after the other, each with its NUL. -/
def cstrings (ss : List Str) : Bytes := pack (ss.map encodeAscii)

/-- The wire form of a request. -/
def requestPacket (op : UInt16) (filename mode : Str) (options : List (Str × Str)) : Bytes :=
  be16 op ++ cstrings (filename :: mode :: options.flatMap fun kv => [kv.1, kv.2])

/-- A mapping that survives the pairing: plain texts under distinct lower-case keys, none empty. -/
structure OptionMap (d : List (Str × Str)) : Prop where
  texts : ∀ kv ∈ d, WireText kv.1 ∧ WireText kv.2
  named : ∀ kv ∈ d, kv.1 ≠ [] ∧ lower kv.1 = kv.1
  nodup : (d.map Prod.fst).Nodup

/-! ## Texts -/

section Texts

variable {s : Str} {ss : List Str} {d : List (Str × Str)}

theorem toNat_encode {c : Char} (h : c.toNat < 128) : (UInt8.ofNat c.toNat).toNat = c.toNat := by
  rw [UInt8.toNat_ofNat']
  omega

theorem decode_encode (h : WireText s) : decodeAscii (encodeAscii s) = s := by
  rw [decodeAscii, encodeAscii, List.map_map]
  conv_rhs => rw [← List.map_id s]
  refine List.map_congr_left fun c hc => ?_
  have hlt : UInt8.ofNat c.toNat < 128 := by
    rw [UInt8.lt_iff_toNat_lt, toNat_encode (h c hc).2]
    exact (h c hc).2
  rw [Function.comp_apply, if_pos (h c hc).2, asciiChar, if_pos hlt, toNat_encode (h c hc).2]
  exact Char.ofNat_toNat c

theorem zero_not_mem_encode (h : WireText s) : 0 ∉ encodeAscii s := by
  intro hmem
  obtain ⟨c, hc, hzero⟩ := List.mem_map.1 hmem
  rw [if_pos (h c hc).2] at hzero
  have htoNat := toNat_encode (h c hc).2
  rw [hzero] at htoNat
  exact absurd htoNat (Nat.ne_of_lt (h c hc).1)

theorem clean_encode (h : ∀ s ∈ ss, WireText s) : ∀ b ∈ ss.map encodeAscii, 0 ∉ b := by
  intro b hb
  obtain ⟨s, hs, rfl⟩ := List.mem_map.1 hb
  exact zero_not_mem_encode (h s hs)

theorem decode_encode_all (h : ∀ s ∈ ss, WireText s) : (ss.map encodeAscii).map decodeAscii = ss := by
  rw [List.map_map]
  conv_rhs => rw [← List.map_id ss]
  exact List.map_congr_left fun s hs => decode_encode (h s hs)

theorem split_cstrings (h : ∀ s ∈ ss, WireText s) : splitCstrings (cstrings ss) = ss := by
  rw [splitCstrings_eq, cstrings, strings_pack (clean_encode h), decode_encode_all h]

/-- The last NUL may be missing, unless the string before it is empty. -/
theorem split_cut (h : ∀ s ∈ ss, WireText s) (hne : ss ≠ []) (hlast : ss.getLast hne ≠ []) :
    splitCstrings (cstrings ss).dropLast = ss := by
  have hcut : (cstrings ss).dropLast =
      pack (ss.dropLast.map encodeAscii) ++ encodeAscii (ss.getLast hne) := by
    conv_lhs => rw [← List.dropLast_concat_getLast hne]
    simp [cstrings, pack, ← List.append_assoc]
  have hinit : ∀ s ∈ ss.dropLast, WireText s := fun s hs => h s (List.mem_of_mem_dropLast hs)
  have hend : WireText (ss.getLast hne) := h _ (List.getLast_mem hne)
  have hbytes : encodeAscii (ss.getLast hne) ≠ [] := by simpa [encodeAscii] using hlast
  rw [splitCstrings_eq, hcut, strings_pack_append (clean_encode hinit) (zero_not_mem_encode hend),
    if_neg hbytes, List.map_append, decode_encode_all hinit, List.map_singleton, decode_encode hend]
  exact List.dropLast_concat_getLast hne

/-! ## Options -/

theorem wireText_flat (h : ∀ kv ∈ d, WireText kv.1 ∧ WireText kv.2) :
    ∀ s ∈ d.flatMap fun kv => [kv.1, kv.2], WireText s := by
  intro s hs
  obtain ⟨kv, hkv, hs⟩ := List.mem_flatMap.1 hs
  rcases List.mem_pair.1 hs with rfl | rfl
  · exact (h kv hkv).1
  · exact (h kv hkv).2

/-- The loop of `parse_request` over the strings of a mapping gives the mapping. -/
theorem requestOptions_flat (h : OptionMap d) :
    requestOptions [] (d.flatMap fun kv => [kv.1, kv.2]) = d := by
  have hloop : ∀ l acc : List (Str × Str), (∀ kv ∈ l, kv.1 ≠ [] ∧ lower kv.1 = kv.1) →
      requestOptions acc (l.flatMap fun kv => [kv.1, kv.2]) =
        l.foldl (fun d kv => Dict.set d kv.1 kv.2) acc := by
    intro l
    induction l with
    | nil => exact fun _ _ => rfl
    | cons kv l ih =>
      intro acc hl
      obtain ⟨hne, hlower⟩ := hl kv List.mem_cons_self
      show requestOptions (if kv.1 ≠ [] then dictSet acc (lower kv.1) kv.2 else acc)
        (l.flatMap fun kv => [kv.1, kv.2]) = _
      rw [if_pos hne, hlower, dictSet_eq, ih _ fun kv' hkv' => hl kv' (List.mem_cons_of_mem kv hkv'),
        List.foldl_cons]
  rw [hloop d [] h.named, Dict.foldl_set [] d h.nodup, List.nil_append]

theorem parse_requestPacket {op : UInt16} {filename mode : Str} (hop : op = OP_RRQ ∨ op = OP_WRQ)
    (hfile : WireText filename) (hmode : WireText mode) (h : OptionMap d) :
    parseRequest (requestPacket op filename mode d) = .ok ⟨op, filename, lower mode, d⟩ := by
  have htexts : ∀ s ∈ filename :: mode :: d.flatMap fun kv => [kv.1, kv.2], WireText s := by
    intro s hs
    rcases List.mem_cons.1 hs with rfl | hs
    · exact hfile
    rcases List.mem_cons.1 hs with rfl | hs
    · exact hmode
    · exact wireText_flat h.texts s hs
  have hpeek : peekOpcode (requestPacket op filename mode d) = .ok op :=
    congrArg Except.ok (rd16_be16 op)
  have hdrop : (requestPacket op filename mode d).drop 2 =
      cstrings (filename :: mode :: d.flatMap fun kv => [kv.1, kv.2]) := rfl
  have hkind : ¬ (op ≠ OP_RRQ ∧ op ≠ OP_WRQ) := fun hno => hop.elim hno.1 hno.2
  rw [parseRequest, hpeek]
  simp only [if_neg hkind, hdrop, split_cstrings htexts, requestOptions_flat h]

theorem drop_packOack (d : List (Str × Str)) :
    (packOack d).drop 2 = cstrings (d.flatMap fun kv => [kv.1, kv.2]) := by
  show (d.map _).flatten = _
  induction d with
  | nil => rfl
  | cons kv d ih =>
    rw [List.map_cons, List.flatten_cons, ih]
    simp [cstrings, pack]

theorem split_packOack (h : ∀ kv ∈ d, WireText kv.1 ∧ WireText kv.2) :
    splitCstrings ((packOack d).drop 2) = d.flatMap fun kv => [kv.1, kv.2] := by
  rw [drop_packOack, split_cstrings (wireText_flat h)]

end Texts

/-- **Strings on the wire come back.**  WireText texts are read back from their packing, with or without
    the NUL of a last one that is not empty; so is every request, its mode in lower case, and so are
    the entries of an OACK, in order, whether they are only taken two by two or collected as
    `parse_request` does. -/
theorem wire_strings_round_trip :
    (∀ ss : List Str, (∀ s ∈ ss, WireText s) → splitCstrings (cstrings ss) = ss ∧
      ∀ hne : ss ≠ [], ss.getLast hne ≠ [] → splitCstrings (cstrings ss).dropLast = ss) ∧
    (∀ op filename mode d, op = OP_RRQ ∨ op = OP_WRQ → WireText filename → WireText mode → OptionMap d →
      parseRequest (requestPacket op filename mode d) = .ok ⟨op, filename, lower mode, d⟩) ∧
    (∀ d : List (Str × Str), (∀ kv ∈ d, WireText kv.1 ∧ WireText kv.2) →
      pairs (splitCstrings ((packOack d).drop 2)) = d ∧
      (OptionMap d → requestOptions [] (splitCstrings ((packOack d).drop 2)) = d)) := by
  refine ⟨fun ss h => ⟨split_cstrings h, split_cut h⟩, fun op filename mode d => parse_requestPacket,
    fun d h => ?_⟩
  rw [split_packOack h]
  exact ⟨pairs_flatten d, requestOptions_flat⟩

end Nishro.Py
