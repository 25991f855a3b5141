import NishroTftp.CCore.Session
import NishroTftp.Lib.Json
/-
  The lines the C engine writes for its parent: `emit_session_start`, `emit_session_progress` and
  `emit_session_end` of `session.c` and the "ready" event of `main.c`.

  Each of them formats one object with `snprintf` into a buffer on the stack and puts it on stdout
  with a newline.  `Emission.pieces` is the format string with its arguments,
  `Emission.written` what arrives in the pipe.  A string of the client or of the configuration goes
  into the text as it is; `Emission.record` says what the line is meant to hold, and
  `encode_record` that the text is exactly that record printed, as long as no escape is called for.
-/
namespace Nishro.CCore

open Nishro.Json (Record Scalar numeral)
open Nishro.Utf8 (Text text encode)
open Nishro.Decimal

/-! ## Formatting -/

/-- `%02x` of one byte. -/
def hex2 (b : UInt8) : Bytes :=
  let digit := fun n : Nat => UInt8.ofNat (if n < 10 then 48 + n else 87 + n)
  [digit (b.toNat / 16), digit (b.toNat % 16)]

/-- One piece of a `printf`: text of the format, a number (`%u`, `%llu`, `%d`), a string of the
    engine's own, a string from outside. -/
inductive Piece
  | lit (s : String)
  | num (n : Int)
  | str (bs : Bytes)
  | given (bs : Bytes)

def Piece.bytes : Piece → Bytes
  | .lit s => ascii s
  | .num n => (if n < 0 then ascii "-" else []) ++ decimal n.natAbs
  | .str bs => bs
  | .given bs => bs

/-- The bytes of a piece that is the engine's own. -/
def Piece.own : Piece → Bytes
  | .given _ => []
  | p => p.bytes

/-- The bytes of a piece from outside. -/
def Piece.outside : Piece → Bytes
  | .given bs => bs
  | _ => []

def printf (ps : List Piece) : Bytes := ps.flatMap Piece.bytes

/-- `mac_to_str`. -/
def macToStr (mac : Mac) : Bytes :=
  printf [.str (hex2 mac[0]), .lit ":", .str (hex2 mac[1]), .lit ":", .str (hex2 mac[2]), .lit ":",
    .str (hex2 mac[3]), .lit ":", .str (hex2 mac[4]), .lit ":", .str (hex2 mac[5])]

/-- `ipv4_to_str`. -/
def ipv4ToStr (ip : UInt32) : Bytes :=
  printf [.num (ip.toNat / 2 ^ 24 : Nat), .lit ".", .num (ip.toNat / 2 ^ 16 % 256 : Nat), .lit ".",
    .num (ip.toNat / 2 ^ 8 % 256 : Nat), .lit ".", .num (ip.toNat % 256 : Nat)]

def sstateName : SState → String
  | .oackWaitAck0 => "negotiating"
  | .sendRrq => "transferring"
  | .recvWrq => "transferring"
  | .done => "done"
  | .free => "idle"

def kindName (kind : UInt16) : String := if kind = TFTP_RRQ then "read" else "write"

/-- The VLAN id as it is reported, `-1` for untagged. -/
def vlanNumber (vlan : UInt16) : Int := if vlan = VLAN_NONE then -1 else vlan.toNat

def boolName (b : Bool) : String := if b then "true" else "false"

/-- The `state` of a session that has ended. -/
def endState (ok : Bool) (reason : Option EndReason) : String :=
  if ok then "done" else (reason.map (·.text)).getD "ended"

/-- The `error` of a session that has not ended well. -/
def endError (ok : Bool) (reason : Option EndReason) : Option String :=
  if ok then none else reason.map (·.text)

/-- `emit_session_start`. -/
def sessionStartText (s : Session) : List Piece :=
  [.lit "\x7b\"ev\":\"session_start\",\"id\":", .num s.id.toNat,
   .lit ",\"kind\":\"", .str (ascii (kindName s.kind)),
   .lit "\",\"filename\":\"", .given s.filename,
   .lit "\",\"client_mac\":\"", .str (macToStr s.clientMac),
   .lit "\",\"client_ip\":\"", .str (ipv4ToStr s.clientIp),
   .lit "\",\"client_port\":", .num s.clientPort.toNat,
   .lit ",\"vlan_id\":", .num (vlanNumber s.vlanId),
   .lit ",\"blksize\":", .num s.blksize.toNat,
   .lit ",\"windowsize\":", .num s.windowsize.toNat,
   .lit ",\"bytes_transferred\":", .num s.bytesDone.toNat,
   .lit ",\"total_bytes\":", .num s.totalBytes.toNat,
   .lit ",\"state\":\"", .str (ascii (sstateName s.state)),
   .lit "\",\"started_at\":", .num (s.startedMs.toNat / 1000 : Nat), .lit "\x7d"]

/-- `emit_session_progress`, past its rate limit. -/
def sessionProgressText (s : Session) : List Piece :=
  [.lit "\x7b\"ev\":\"session_progress\",\"id\":", .num s.id.toNat,
   .lit ",\"bytes_transferred\":", .num s.bytesDone.toNat,
   .lit ",\"total_bytes\":", .num s.totalBytes.toNat,
   .lit ",\"state\":\"", .str (ascii (sstateName s.state)), .lit "\"\x7d"]

/-- `emit_session_end`. -/
def sessionEndText (s : Session) (ok serverFault : Bool) (reason : Option EndReason)
    (now : UInt64) : List Piece :=
  [.lit "\x7b\"ev\":\"session_end\",\"id\":", .num s.id.toNat,
   .lit ",\"ok\":", .str (ascii (boolName ok)),
   .lit ",\"server_fault\":", .str (ascii (boolName serverFault)),
   .lit ",\"bytes_transferred\":", .num s.bytesDone.toNat,
   .lit ",\"total_bytes\":", .num s.totalBytes.toNat,
   .lit ",\"duration_ms\":", .num (now - s.startedMs).toNat,
   .lit ",\"ended_at\":", .num (now.toNat / 1000 : Nat),
   .lit ",\"state\":\"", .str (ascii (endState ok reason)), .lit "\""] ++
  (match endError ok reason with
    | some error => [.lit ",\"error\":\"", .str (ascii error), .lit "\""]
    | none => []) ++ [.lit "\x7d"]

/-- The "ready" event of `open_pcap_if_needed`. -/
def readyText (device : Bytes) (virtualIp : UInt32) : List Piece :=
  [.lit "\x7b\"ev\":\"ready\",\"device\":\"", .given device,
   .lit "\",\"virtual_ip\":\"", .str (ipv4ToStr virtualIp), .lit "\"\x7d"]

/-! ## Emissions -/

/-- A call that writes a line: one of the session events, or "ready". -/
inductive Emission
  | session (e : IpcEvent)
  | ready (device : Bytes) (virtualIp : UInt32)

namespace Emission

/-- The format and its arguments. -/
def pieces : Emission → List Piece
  | .session (.sessionStart s) => sessionStartText s
  | .session (.sessionProgress s) => sessionProgressText s
  | .session (.sessionEnd s ok serverFault reason now) => sessionEndText s ok serverFault reason now
  | .ready device virtualIp => readyText device virtualIp

/-- `sizeof buf`. -/
def bufSize : Emission → Nat
  | .session (.sessionStart _) => 640
  | .session (.sessionProgress _) => 256
  | .session (.sessionEnd ..) => 640
  | .ready .. => 256

end Emission

/-- `snprintf(buf, size, …)`: the text, cut to leave room for the NUL. -/
def snprintf (size : Nat) (s : Bytes) : Bytes := s.take (size - 1)

/-- What reaches the pipe: stdout is left in text mode, where a newline is written as CR LF. -/
def textMode (s : Bytes) : Bytes := s.flatMap fun b => if b = 10 then [13, 10] else [b]

/-- `ipc_line`, `ipc_emit`. -/
def ipcLine (line : Bytes) : Bytes := textMode (line ++ [10])

namespace Emission

/-- The formatted text, before it is cut to the buffer. -/
def format (e : Emission) : Bytes := printf e.pieces

def written (e : Emission) : Bytes := ipcLine (snprintf e.bufSize e.format)

/-- The string of the client, or of the configuration, that goes into the line. -/
def given : Emission → Bytes
  | .session (.sessionStart s) => s.filename
  | .session (.sessionProgress _) => []
  | .session (.sessionEnd ..) => []
  | .ready device _ => device

/-- ASCII bytes as a text. -/
def codes (bs : Bytes) : Text := bs.map (·.toNat)

/-- How long the text is without that string. -/
def fixed (e : Emission) : Nat := (e.pieces.flatMap Piece.own).length

/-- What the line is meant to hold, where `x` is the text of the string that goes into it. -/
def record (x : Text) : Emission → Record
  | .session (.sessionStart s) =>
    [(text "ev", .str (text "session_start")), (text "id", .int s.id.toNat),
      (text "kind", .str (codes (ascii (kindName s.kind)))), (text "filename", .str x),
      (text "client_mac", .str (codes (macToStr s.clientMac))),
      (text "client_ip", .str (codes (ipv4ToStr s.clientIp))),
      (text "client_port", .int s.clientPort.toNat), (text "vlan_id", .int (vlanNumber s.vlanId)),
      (text "blksize", .int s.blksize.toNat), (text "windowsize", .int s.windowsize.toNat),
      (text "bytes_transferred", .int s.bytesDone.toNat),
      (text "total_bytes", .int s.totalBytes.toNat),
      (text "state", .str (codes (ascii (sstateName s.state)))),
      (text "started_at", .int (s.startedMs.toNat / 1000 : Nat))]
  | .session (.sessionProgress s) =>
    [(text "ev", .str (text "session_progress")), (text "id", .int s.id.toNat),
      (text "bytes_transferred", .int s.bytesDone.toNat),
      (text "total_bytes", .int s.totalBytes.toNat),
      (text "state", .str (codes (ascii (sstateName s.state))))]
  | .session (.sessionEnd s ok serverFault reason now) =>
    [(text "ev", .str (text "session_end")), (text "id", .int s.id.toNat), (text "ok", .bool ok),
      (text "server_fault", .bool serverFault),
      (text "bytes_transferred", .int s.bytesDone.toNat),
      (text "total_bytes", .int s.totalBytes.toNat),
      (text "duration_ms", .int (now - s.startedMs).toNat),
      (text "ended_at", .int (now.toNat / 1000 : Nat)),
      (text "state", .str (codes (ascii (endState ok reason))))] ++
      ((endError ok reason).map fun error => (text "error", Scalar.str (codes (ascii error)))).toList
  | .ready _ virtualIp =>
    [(text "ev", .str (text "ready")), (text "device", .str x),
      (text "virtual_ip", .str (codes (ipv4ToStr virtualIp)))]

end Emission

/-! ## The text is the record -/

/-- A literal of printable ASCII characters. -/
def isAscii (s : String) : Bool := s.toList.all fun c => decide (32 ≤ c.toNat ∧ c.toNat < 128)

theorem toNat_asciiChar {s : String} (h : isAscii s = true) :
    ∀ c ∈ s.toList, (UInt8.ofNat c.toNat).toNat = c.toNat ∧ 32 ≤ c.toNat ∧ c.toNat < 128 := by
  have hc : ∀ c ∈ s.toList, 32 ≤ c.toNat ∧ c.toNat < 128 := by simpa [isAscii] using h
  exact fun c hm => ⟨Utf8.toNat_ofNat (Nat.lt_trans (hc c hm).2 (by decide)), hc c hm⟩

theorem text_eq_codes {s : String} (h : isAscii s = true) : text s = Emission.codes (ascii s) := by
  simp only [text, ascii, Emission.codes, List.map_map]
  exact List.map_congr_left fun c hm => (toNat_asciiChar h c hm).1.symm

theorem encode_text {s : String} (h : isAscii s = true) : encode (text s) = some (ascii s) := by
  rw [text_eq_codes h]
  refine Utf8.encode_ascii _ fun b hb => ?_
  obtain ⟨c, hm, rfl⟩ := List.mem_map.mp hb
  rw [(toNat_asciiChar h c hm).1]
  exact (toNat_asciiChar h c hm).2.2

theorem decimal_ascii (n : Nat) : ∀ b ∈ decimal n, b.toNat < 128 := by
  intro b hb
  have := (isDigit_iff b).mp (decimal_digits n b hb)
  omega

/-- A piece as it is meant to be read, where `x` is the text of the string from outside. -/
def Piece.text (x : Text) : Piece → Text
  | .lit s => Utf8.text s
  | .num n => numeral n
  | .str bs => Emission.codes bs
  | .given _ => x

/-- The bytes of this piece are the encoding of that text. -/
def Piece.Reads (x : Text) : Piece → Prop
  | .lit s => isAscii s = true
  | .num _ => True
  | .str bs => ∀ b ∈ bs, b.toNat < 128
  | .given bs => encode x = some bs

variable {x : Text}

theorem encode_piece {p : Piece} (h : p.Reads x) : encode (p.text x) = some p.bytes := by
  cases p with
  | lit s => exact encode_text h
  | str bs => exact Utf8.encode_ascii bs h
  | given bs => exact h
  | num n =>
    have h45 : ascii "-" = [45] := by decide
    have hcodes : numeral n = Emission.codes (Piece.bytes (.num n)) := by
      by_cases hn : n < 0 <;> simp [numeral, Piece.bytes, Emission.codes, hn, h45]
    rw [Piece.text, hcodes]
    refine Utf8.encode_ascii _ fun b hb => ?_
    rcases List.mem_append.mp hb with hb | hb
    · split at hb
      · rw [h45, List.mem_singleton] at hb
        subst hb
        decide
      · cases hb
    · exact decimal_ascii _ b hb

theorem encode_printf {ps : List Piece} (h : ∀ p ∈ ps, p.Reads x) :
    encode (ps.flatMap (Piece.text x)) = some (printf ps) := by
  induction ps with
  | nil => rfl
  | cons p ps ih =>
    exact Utf8.encode_append (encode_piece (h p List.mem_cons_self))
      (ih fun q hq => h q (List.mem_cons_of_mem p hq))

theorem ready_text (device : Bytes) (virtualIp : UInt32) (x : Text) :
    (readyText device virtualIp).flatMap (Piece.text x) =
      (Emission.record x (.ready device virtualIp)).render := by
  simp only [readyText, List.flatMap_cons, List.flatMap_nil, List.append_nil, Piece.text,
    Emission.record, Record.render, Json.renderMembers, Json.renderMember, Scalar.render,
    List.append_assoc, List.cons_append, List.nil_append]
  rfl

theorem sessionProgress_text (s : Session) (x : Text) :
    (sessionProgressText s).flatMap (Piece.text x) =
      (Emission.record x (.session (.sessionProgress s))).render := by
  simp only [sessionProgressText, List.flatMap_cons, List.flatMap_nil, List.append_nil, Piece.text,
    Emission.record, Record.render, Json.renderMembers, Json.renderMember, Scalar.render,
    List.append_assoc, List.cons_append, List.nil_append]
  rfl

set_option maxRecDepth 2000 in
theorem sessionStart_text (s : Session) (x : Text) :
    (sessionStartText s).flatMap (Piece.text x) =
      (Emission.record x (.session (.sessionStart s))).render := by
  simp only [sessionStartText, List.flatMap_cons, List.flatMap_nil, List.append_nil, Piece.text,
    Emission.record, Record.render, Json.renderMembers, Json.renderMember, Scalar.render,
    List.append_assoc, List.cons_append, List.nil_append]
  rfl

set_option maxRecDepth 2000 in
theorem sessionEnd_text (s : Session) (ok fault : Bool) (reason : Option EndReason) (now : UInt64)
    (x : Text) :
    (sessionEndText s ok fault reason now).flatMap (Piece.text x) =
      (Emission.record x (.session (.sessionEnd s ok fault reason now))).render := by
  have hbool : ∀ b, Emission.codes (ascii (boolName b)) = Scalar.render (.bool b) := by decide
  cases he : endError ok reason <;>
    simp only [sessionEndText, he, List.flatMap_cons, List.flatMap_nil, List.append_nil, Piece.text,
      hbool, Emission.record, Record.render, Json.renderMembers, Json.renderMember, Scalar.render,
      Option.map_none, Option.map_some, Option.toList_none, Option.toList_some, List.append_assoc,
      List.cons_append, List.nil_append]
  · rfl
  · rfl

/-! ## Every piece reads as it should -/

/-- A byte of the engine's own strings: ASCII, and nothing to escape. -/
def Tame (b : UInt8) : Prop := b.toNat < 128 ∧ Json.isPlain b.toNat = true

theorem tame_iff {b : UInt8} :
    Tame b ↔ b.toNat < 128 ∧ 32 ≤ b.toNat ∧ b.toNat ≠ 34 ∧ b.toNat ≠ 92 := by
  simp [Tame, Json.isPlain_iff]

theorem hex2_tame (b : UInt8) : ∀ c ∈ hex2 b, Tame c := by
  have hdigit : ∀ n < 16, Tame (UInt8.ofNat (if n < 10 then 48 + n else 87 + n)) := by
    intro n hn
    rw [tame_iff, Utf8.toNat_ofNat (by split <;> omega)]
    split <;> omega
  have hb : b.toNat < 256 := b.toNat_lt
  intro c hc
  simp only [hex2, List.mem_cons, List.not_mem_nil, or_false] at hc
  rcases hc with rfl | rfl
  · exact hdigit _ (by omega)
  · exact hdigit _ (by omega)

theorem num_tame (n : Int) : ∀ c ∈ Piece.bytes (.num n), Tame c := by
  intro c hc
  rcases List.mem_append.mp hc with hc | hc
  · split at hc
    · have h45 : ascii "-" = [45] := by decide
      rw [h45, List.mem_singleton] at hc
      subst hc
      exact ⟨by decide, by decide⟩
    · cases hc
  · have := (isDigit_iff c).mp (decimal_digits _ c hc)
    exact tame_iff.mpr (by omega)

theorem printf_tame {ps : List Piece} (h : ∀ p ∈ ps, ∀ c ∈ p.bytes, Tame c) :
    ∀ c ∈ printf ps, Tame c := by
  intro c hc
  obtain ⟨p, hp, hc⟩ := List.mem_flatMap.mp hc
  exact h p hp c hc

instance (b : UInt8) : Decidable (Tame b) := inferInstanceAs (Decidable (_ ∧ _))

theorem tame_of_all {bs : Bytes} (h : (bs.all fun b => decide (Tame b)) = true) :
    ∀ b ∈ bs, Tame b :=
  fun b hb => of_decide_eq_true (List.all_eq_true.mp h b hb)

theorem macToStr_tame (mac : Mac) : ∀ c ∈ macToStr mac, Tame c := by
  have hcolon : ∀ c ∈ Piece.bytes (.lit ":"), Tame c := tame_of_all (by decide)
  refine printf_tame ?_
  simp only [List.forall_mem_cons, List.not_mem_nil, IsEmpty.forall_iff, implies_true, and_true]
  exact ⟨hex2_tame _, hcolon, hex2_tame _, hcolon, hex2_tame _, hcolon, hex2_tame _, hcolon,
    hex2_tame _, hcolon, hex2_tame _⟩

theorem ipv4ToStr_tame (ip : UInt32) : ∀ c ∈ ipv4ToStr ip, Tame c := by
  have hdot : ∀ c ∈ Piece.bytes (.lit "."), Tame c := tame_of_all (by decide)
  refine printf_tame ?_
  simp only [List.forall_mem_cons, List.not_mem_nil, IsEmpty.forall_iff, implies_true, and_true]
  exact ⟨num_tame _, hdot, num_tame _, hdot, num_tame _, hdot, num_tame _⟩

theorem codes_plain {bs : Bytes} (h : ∀ c ∈ bs, Tame c) : Json.PlainText (Emission.codes bs) := by
  intro c hc
  obtain ⟨b, hb, rfl⟩ := List.mem_map.mp hc
  exact (h b hb).2

theorem sstateName_tame (st : SState) : ∀ b ∈ ascii (sstateName st), Tame b := by
  cases st <;> exact tame_of_all (by decide)

theorem kindName_tame (kind : UInt16) : ∀ b ∈ ascii (kindName kind), Tame b := by
  unfold kindName
  split <;> exact tame_of_all (by decide)

theorem boolName_tame (v : Bool) : ∀ b ∈ ascii (boolName v), Tame b := by
  cases v <;> exact tame_of_all (by decide)

theorem endReason_tame (reason : EndReason) : ∀ b ∈ ascii reason.text, Tame b := by
  cases reason <;> exact tame_of_all (by decide)

theorem endState_tame (ok : Bool) (reason : Option EndReason) :
    ∀ b ∈ ascii (endState ok reason), Tame b := by
  have hdone : ∀ b ∈ ascii "done", Tame b := tame_of_all (by decide)
  have hended : ∀ b ∈ ascii "ended", Tame b := tame_of_all (by decide)
  cases ok with
  | true => exact hdone
  | false =>
    cases reason with
    | none => exact hended
    | some reason => exact endReason_tame reason

theorem endError_tame {ok : Bool} {reason : Option EndReason} {error : String}
    (h : endError ok reason = some error) : ∀ b ∈ ascii error, Tame b := by
  cases ok with
  | true => cases h
  | false =>
    obtain ⟨r, -, rfl⟩ := Option.map_eq_some_iff.mp h
    exact endReason_tame r

/-- A literal of a format is printable ASCII. -/
def Piece.litOk : Piece → Bool
  | .lit s => isAscii s
  | _ => true

theorem pieces_litOk (e : Emission) : e.pieces.all Piece.litOk = true := by
  rcases e with (s | s | ⟨s, ok, fault, reason, now⟩) | ⟨device, vip⟩
  · rfl
  · rfl
  · simp only [Emission.pieces, sessionEndText]
    cases endError ok reason <;> rfl
  · rfl

variable {e : Emission}

/-- The engine's own strings in a format. -/
theorem pieces_str {bs : Bytes} (h : .str bs ∈ e.pieces) : ∀ b ∈ bs, Tame b := by
  rcases e with (s | s | ⟨s, ok, fault, reason, now⟩) | ⟨device, vip⟩
  · simp only [Emission.pieces, sessionStartText, List.mem_cons, reduceCtorEq, Piece.str.injEq,
      List.not_mem_nil, false_or, or_false] at h
    rcases h with rfl | rfl | rfl | rfl
    · exact kindName_tame _
    · exact macToStr_tame _
    · exact ipv4ToStr_tame _
    · exact sstateName_tame _
  · simp only [Emission.pieces, sessionProgressText, List.mem_cons, reduceCtorEq, Piece.str.injEq,
      List.not_mem_nil, false_or, or_false] at h
    subst h
    exact sstateName_tame _
  · simp only [Emission.pieces, sessionEndText, List.mem_append, List.mem_cons, reduceCtorEq,
      Piece.str.injEq, List.not_mem_nil, false_or, or_false] at h
    rcases h with (rfl | rfl | rfl) | h
    · exact boolName_tame _
    · exact boolName_tame _
    · exact endState_tame _ _
    cases he : endError ok reason with
    | none => simp [he] at h
    | some error =>
      simp only [he, List.mem_cons, reduceCtorEq, Piece.str.injEq, List.not_mem_nil, false_or,
        or_false] at h
      subst h
      exact endError_tame he
  · simp only [Emission.pieces, readyText, List.mem_cons, reduceCtorEq, Piece.str.injEq,
      List.not_mem_nil, false_or, or_false] at h
    subst h
    exact ipv4ToStr_tame _

/-- The string from outside in a format. -/
theorem pieces_given {bs : Bytes} (h : .given bs ∈ e.pieces) : bs = e.given := by
  rcases e with (s | s | ⟨s, ok, fault, reason, now⟩) | ⟨device, vip⟩
  · simpa [Emission.pieces, sessionStartText, Emission.given] using h
  · simp [Emission.pieces, sessionProgressText] at h
  · simp only [Emission.pieces, sessionEndText] at h
    cases he : endError ok reason <;> simp [he] at h
  · simpa [Emission.pieces, readyText, Emission.given] using h

theorem pieces_reads (hx : encode x = some e.given) : ∀ p ∈ e.pieces, p.Reads x := by
  intro p hp
  cases p with
  | lit s => exact List.all_eq_true.mp (pieces_litOk e) _ hp
  | num n => trivial
  | str bs => exact fun b hb => (pieces_str hp b hb).1
  | given bs =>
    rw [pieces_given hp]
    exact hx

/-- **The text is the record, printed.** -/
theorem encode_record (hx : encode x = some e.given) :
    encode (e.record x).render = some e.format := by
  have h := encode_printf (pieces_reads hx)
  have htext : e.pieces.flatMap (Piece.text x) = (e.record x).render := by
    rcases e with (s | s | ⟨s, ok, fault, reason, now⟩) | ⟨device, vip⟩
    · exact sessionStart_text s x
    · exact sessionProgress_text s x
    · exact sessionEnd_text s ok fault reason now x
    · exact ready_text device vip x
  rw [← htext, h]
  rfl

/-- A text holds a control character only where the string from outside does. -/
theorem format_printable (h : ∀ b ∈ e.given, 32 ≤ b.toNat) : ∀ b ∈ e.format, 32 ≤ b.toNat := by
  intro b hb
  obtain ⟨p, hp, hb⟩ := List.mem_flatMap.mp hb
  cases p with
  | lit s =>
    obtain ⟨c, hc, rfl⟩ := List.mem_map.mp hb
    obtain ⟨hn, h32, -⟩ := toNat_asciiChar (List.all_eq_true.mp (pieces_litOk e) _ hp) c hc
    rwa [hn]
  | num n => exact (tame_iff.mp (num_tame n b hb)).2.1
  | str bs => exact (tame_iff.mp (pieces_str hp b hb)).2.1
  | given bs =>
    rw [pieces_given hp] at hb
    exact h b hb

/-- The keys, which are distinct and need no escape. -/
theorem record_keys (e : Emission) (x : Text) :
    ((e.record x).map (·.1)).Nodup ∧ ∀ key ∈ (e.record x).map (·.1), Json.PlainText key := by
  rcases e with (s | s | ⟨s, ok, fault, reason, now⟩) | ⟨device, vip⟩
  · simp only [Emission.record, List.map_cons, List.map_nil]
    decide
  · simp only [Emission.record, List.map_cons, List.map_nil]
    decide
  · simp only [Emission.record, List.map_append, List.map_cons, List.map_nil]
    cases endError ok reason <;>
      simp only [Option.map_none, Option.map_some, Option.toList_none, Option.toList_some,
        List.map_cons, List.map_nil] <;>
      decide
  · simp only [Emission.record, List.map_cons, List.map_nil]
    decide

/-- A string of the record is one of the engine's own, or the one from outside. -/
theorem record_str {x t key : Text} (h : (key, Scalar.str t) ∈ e.record x) :
    t = x ∨ ∃ bs, t = Emission.codes bs ∧ ∀ b ∈ bs, Tame b := by
  have hlit : ∀ l : String, isAscii l = true → (∀ b ∈ ascii l, Tame b) →
      ∃ bs, text l = Emission.codes bs ∧ ∀ b ∈ bs, Tame b :=
    fun l hl hb => ⟨ascii l, text_eq_codes hl, hb⟩
  rcases e with (s | s | ⟨s, ok, fault, reason, now⟩) | ⟨device, vip⟩
  · simp only [Emission.record, List.mem_cons, Prod.mk.injEq, reduceCtorEq, and_false,
      Scalar.str.injEq, List.not_mem_nil, false_or, or_false] at h
    rcases h with ⟨-, rfl⟩ | ⟨-, rfl⟩ | ⟨-, rfl⟩ | ⟨-, rfl⟩ | ⟨-, rfl⟩ | ⟨-, rfl⟩
    · exact .inr (hlit _ (by decide) (tame_of_all (by decide)))
    · exact .inr ⟨_, rfl, kindName_tame _⟩
    · exact .inl rfl
    · exact .inr ⟨_, rfl, macToStr_tame _⟩
    · exact .inr ⟨_, rfl, ipv4ToStr_tame _⟩
    · exact .inr ⟨_, rfl, sstateName_tame _⟩
  · simp only [Emission.record, List.mem_cons, Prod.mk.injEq, reduceCtorEq, and_false,
      Scalar.str.injEq, List.not_mem_nil, false_or, or_false] at h
    rcases h with ⟨-, rfl⟩ | ⟨-, rfl⟩
    · exact .inr (hlit _ (by decide) (tame_of_all (by decide)))
    · exact .inr ⟨_, rfl, sstateName_tame _⟩
  · simp only [Emission.record, List.mem_append, List.mem_cons, Prod.mk.injEq, reduceCtorEq,
      and_false, Scalar.str.injEq, List.not_mem_nil, false_or, or_false] at h
    rcases h with (⟨-, rfl⟩ | ⟨-, rfl⟩) | h
    · exact .inr (hlit _ (by decide) (tame_of_all (by decide)))
    · exact .inr ⟨_, rfl, endState_tame _ _⟩
    cases he : endError ok reason with
    | none => simp [he] at h
    | some error =>
      simp only [he, Option.map_some, Option.toList_some, List.mem_singleton, Prod.mk.injEq,
        Scalar.str.injEq] at h
      exact .inr ⟨_, h.2, endError_tame he⟩
  · simp only [Emission.record, List.mem_cons, Prod.mk.injEq, Scalar.str.injEq, List.not_mem_nil,
      or_false] at h
    rcases h with ⟨-, rfl⟩ | ⟨-, rfl⟩ | ⟨-, rfl⟩
    · exact .inr (hlit _ (by decide) (tame_of_all (by decide)))
    · exact .inl rfl
    · exact .inr ⟨_, rfl, ipv4ToStr_tame _⟩

/-- The record needs no escape if the string from outside needs none. -/
theorem record_plain (hx : Json.PlainText x) : (e.record x).Plain := by
  intro m hm
  refine ⟨(record_keys e x).2 m.1 (List.mem_map_of_mem hm), ?_⟩
  obtain ⟨key, v⟩ := m
  cases v with
  | str t =>
    rcases record_str hm with rfl | ⟨bs, rfl, hbs⟩
    · exact hx
    · exact codes_plain hbs
  | _ => trivial

/-- If the record needs no escape, neither does the string from outside. -/
theorem plain_of_record (hx : encode x = some e.given) (h : (e.record x).Plain) :
    Json.PlainText x := by
  have hnil : encode x = some [] → Json.PlainText x := by
    intro h0
    obtain rfl : x = [] := (Utf8.decode_encode h0).symm
    simp [Json.PlainText]
  rcases e with (s | s | ⟨s, ok, fault, reason, now⟩) | ⟨device, vip⟩
  · exact (h (text "filename", .str x) (by simp [Emission.record])).2
  · exact hnil hx
  · exact hnil hx
  · exact (h (text "device", .str x) (by simp [Emission.record])).2

theorem record_ne_nil (e : Emission) (x : Text) : e.record x ≠ [] := by
  rcases e with (s | s | ⟨s, ok, fault, reason, now⟩) | ⟨device, vip⟩ <;>
    simp [Emission.record]

/-- A text ends with its closing brace. -/
theorem format_eq_snoc (e : Emission) : ∃ bs, e.format = bs ++ [125] := by
  have hlit : ascii "\x7d" = [125] ∧ ascii "\"\x7d" = [34] ++ [125] := by decide
  have hsnoc : ∀ (ps : List Piece) (l : String) (bs : Bytes), ascii l = bs ++ [125] →
      ∃ bs, printf (ps ++ [.lit l]) = bs ++ [125] := by
    intro ps l bs hl
    refine ⟨printf ps ++ bs, ?_⟩
    simp [printf, Piece.bytes, hl]
  rcases e with (s | s | ⟨s, ok, fault, reason, now⟩) | ⟨device, vip⟩
  · exact hsnoc (sessionStartText s).dropLast "\x7d" [] hlit.1
  · exact hsnoc (sessionProgressText s).dropLast "\"\x7d" [34] hlit.2
  · exact hsnoc _ "\x7d" [] hlit.1
  · exact hsnoc (readyText device vip).dropLast "\"\x7d" [34] hlit.2

/-! ## What fits the buffers -/

theorem length_printf (ps : List Piece) : (printf ps).length =
    (ps.flatMap Piece.outside).length + (ps.flatMap Piece.own).length := by
  induction ps with
  | nil => rfl
  | cons p ps ih =>
    simp only [printf, List.flatMap_cons, List.length_append] at ih ⊢
    cases p <;> simp only [Piece.bytes, Piece.own, Piece.outside, List.length_nil] <;> omega

theorem length_format (e : Emission) : e.format.length = e.given.length + e.fixed := by
  rw [Emission.format, length_printf]
  congr 2
  rcases e with (s | s | ⟨s, ok, fault, reason, now⟩) | ⟨device, vip⟩
  · exact List.append_nil s.filename
  · rfl
  · simp only [Emission.pieces, sessionEndText]
    cases endError ok reason <;> rfl
  · exact List.append_nil device

/-- The longest a piece can get that holds nothing from outside. -/
def Piece.bound : Piece → Nat
  | .lit s => (ascii s).length
  | .num _ => 20
  | .str _ => 19
  | .given bs => bs.length

theorem length_num {n : Nat} (h : n < 2 ^ 64) : (Piece.bytes (.num (n : Int))).length ≤ 20 := by
  have hneg : ¬ (n : Int) < 0 := by omega
  simpa [Piece.bytes, hneg] using
    length_decimal_le (k := 20) (by decide) (Nat.lt_trans h (by decide))

theorem length_printf_le (ps : List Piece) (h : ∀ p ∈ ps, p.bytes.length ≤ p.bound) :
    (printf ps).length ≤ (ps.map Piece.bound).sum := by
  induction ps with
  | nil => exact Nat.le_refl _
  | cons p ps ih =>
    have h1 := h p List.mem_cons_self
    have h2 := ih fun q hq => h q (List.mem_cons_of_mem p hq)
    simp only [printf, List.flatMap_cons, List.length_append, List.map_cons, List.sum_cons] at h2 ⊢
    omega

/-- A piece that keeps to its bound. -/
def Piece.Bounded (p : Piece) : Prop := p.bytes.length ≤ p.bound

instance (p : Piece) : Decidable p.Bounded := inferInstanceAs (Decidable (_ ≤ _))

theorem bounded_lit (s : String) : Piece.Bounded (.lit s) := Nat.le_refl _

theorem bounded_num {n : Nat} (h : n < 2 ^ 64) : Piece.Bounded (.num n) := length_num h

theorem bounded_sstateName (st : SState) : Piece.Bounded (.str (ascii (sstateName st))) := by
  cases st <;> decide

theorem bounded_boolName (b : Bool) : Piece.Bounded (.str (ascii (boolName b))) := by
  cases b <;> decide

theorem bounded_endReason (reason : EndReason) : Piece.Bounded (.str (ascii reason.text)) := by
  cases reason <;> decide

theorem bounded_endState (ok : Bool) (reason : Option EndReason) :
    Piece.Bounded (.str (ascii (endState ok reason))) := by
  have hdone : Piece.Bounded (.str (ascii "done")) := by decide
  have hended : Piece.Bounded (.str (ascii "ended")) := by decide
  cases ok with
  | true => exact hdone
  | false =>
    cases reason with
    | none => exact hended
    | some reason => exact bounded_endReason reason

/-- A progress line always fits its buffer. -/
theorem sessionProgress_fits (s : Session) : (printf (sessionProgressText s)).length < 256 := by
  have hid : s.id.toNat < 2 ^ 64 := Nat.lt_trans s.id.toNat_lt (by decide)
  have hsum : ((sessionProgressText s).map Piece.bound).sum = 157 := rfl
  have h := length_printf_le (sessionProgressText s) <| by
    simp only [sessionProgressText, List.forall_mem_cons]
    exact ⟨bounded_lit _, bounded_num hid, bounded_lit _, bounded_num s.bytesDone.toNat_lt,
      bounded_lit _, bounded_num s.totalBytes.toNat_lt, bounded_lit _, bounded_sstateName _,
      bounded_lit _, by simp⟩
  omega

/-- An end line always fits its buffer. -/
theorem sessionEnd_fits (s : Session) (ok fault : Bool) (reason : Option EndReason) (now : UInt64) :
    (printf (sessionEndText s ok fault reason now)).length < 640 := by
  have hid : s.id.toNat < 2 ^ 64 := Nat.lt_trans s.id.toNat_lt (by decide)
  have hnow : now.toNat / 1000 < 2 ^ 64 := by
    have := now.toNat_lt
    omega
  have herror : ∀ error, endError ok reason = some error →
      Piece.Bounded (.str (ascii error)) := by
    intro error he
    cases ok with
    | true => cases he
    | false =>
      obtain ⟨r, -, rfl⟩ := Option.map_eq_some_iff.mp he
      exact bounded_endReason r
  have hsum : ((sessionEndText s ok fault reason now).map Piece.bound).sum ≤ 309 := by
    have hlens : (sessionEndText s ok fault reason now).map Piece.bound =
        [25, 20, 6, 19, 16, 19, 21, 20, 15, 20, 15, 20, 12, 20, 10, 19, 1] ++
          (if (endError ok reason).isSome then [10, 19, 1] else []) ++ [1] := by
      simp only [sessionEndText]
      cases endError ok reason <;> rfl
    rw [hlens]
    split <;> decide
  have h := length_printf_le (sessionEndText s ok fault reason now) <| by
    simp only [sessionEndText, List.forall_mem_append, List.forall_mem_cons]
    refine ⟨⟨⟨bounded_lit _, bounded_num hid, bounded_lit _, bounded_boolName _, bounded_lit _,
      bounded_boolName _, bounded_lit _, bounded_num s.bytesDone.toNat_lt, bounded_lit _,
      bounded_num s.totalBytes.toNat_lt, bounded_lit _, bounded_num (now - s.startedMs).toNat_lt,
      bounded_lit _, bounded_num hnow, bounded_lit _, bounded_endState _ _, bounded_lit _,
      by simp⟩, ?_⟩, bounded_lit _, by simp⟩
    cases he : endError ok reason with
    | none => simp
    | some error =>
      simp only [List.forall_mem_cons]
      exact ⟨bounded_lit _, herror error he, bounded_lit _, by simp⟩
  omega

theorem bounded_macToStr (mac : Mac) : Piece.Bounded (.str (macToStr mac)) := by
  have h : (macToStr mac).length = 17 := rfl
  show (macToStr mac).length ≤ 19
  omega

theorem bounded_ipv4ToStr (ip : UInt32) : Piece.Bounded (.str (ipv4ToStr ip)) := by
  have hbyte : ∀ n : Nat, n < 256 → (Piece.bytes (.num (n : Int))).length ≤ 3 := by
    intro n hn
    have hneg : ¬ (n : Int) < 0 := by omega
    simpa [Piece.bytes, hneg] using length_decimal_le (k := 3) (by decide) (by omega)
  have hdot : (Piece.bytes (.lit ".")).length = 1 := rfl
  have h1 := hbyte (ip.toNat / 2 ^ 24) (by have := ip.toNat_lt; omega)
  have h2 := hbyte (ip.toNat / 2 ^ 16 % 256) (by omega)
  have h3 := hbyte (ip.toNat / 2 ^ 8 % 256) (by omega)
  have h4 := hbyte (ip.toNat % 256) (by omega)
  show (ipv4ToStr ip).length ≤ 19
  simp only [ipv4ToStr, printf, List.flatMap_cons, List.flatMap_nil, List.length_append,
    List.length_nil, hdot]
  omega

theorem bounded_kindName (kind : UInt16) : Piece.Bounded (.str (ascii (kindName kind))) := by
  unfold kindName
  split <;> decide

theorem bounded_vlanNumber (vlan : UInt16) : Piece.Bounded (.num (vlanNumber vlan)) := by
  unfold vlanNumber
  split
  · decide
  · exact bounded_num (Nat.lt_trans vlan.toNat_lt (by decide))

/-- A start line fits its buffer when the filename leaves it the room its other fields can need. -/
theorem sessionStart_fits {s : Session} (h : s.filename.length ≤ 208) :
    (printf (sessionStartText s)).length < 640 := by
  have hid : s.id.toNat < 2 ^ 64 := Nat.lt_trans s.id.toNat_lt (by decide)
  have hport : s.clientPort.toNat < 2 ^ 64 := Nat.lt_trans s.clientPort.toNat_lt (by decide)
  have hblk : s.blksize.toNat < 2 ^ 64 := Nat.lt_trans s.blksize.toNat_lt (by decide)
  have hwin : s.windowsize.toNat < 2 ^ 64 := Nat.lt_trans s.windowsize.toNat_lt (by decide)
  have hstart : s.startedMs.toNat / 1000 < 2 ^ 64 := by
    have := s.startedMs.toNat_lt
    omega
  have hsum : ((sessionStartText s).map Piece.bound).sum = s.filename.length + 431 := by
    have hlens : (sessionStartText s).map Piece.bound =
        [27, 20, 9, 19, 14, s.filename.length, 16, 19, 15, 19, 16, 20, 11, 20, 11, 20, 14, 20, 21,
          20, 15, 20, 10, 19, 15, 20, 1] := rfl
    rw [hlens]
    simp only [List.sum_cons, List.sum_nil]
    omega
  have hle := length_printf_le (sessionStartText s) <| by
    simp only [sessionStartText, List.forall_mem_cons]
    exact ⟨bounded_lit _, bounded_num hid, bounded_lit _, bounded_kindName _, bounded_lit _,
      Nat.le_refl _, bounded_lit _, bounded_macToStr _, bounded_lit _, bounded_ipv4ToStr _,
      bounded_lit _, bounded_num hport, bounded_lit _, bounded_vlanNumber _, bounded_lit _,
      bounded_num hblk, bounded_lit _, bounded_num hwin, bounded_lit _,
      bounded_num s.bytesDone.toNat_lt, bounded_lit _, bounded_num s.totalBytes.toNat_lt,
      bounded_lit _, bounded_sstateName _, bounded_lit _, bounded_num hstart, bounded_lit _, by simp⟩
  omega

end Nishro.CCore
