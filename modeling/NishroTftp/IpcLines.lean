import NishroTftp.CCore.Ipc
import NishroTftp.CCore.SlotStep
import NishroTftp.Py.Engine
/-
  From the C engine's `snprintf` to the Python engine's `json.loads`: which event lines arrive as
  they were meant.

  A line is formatted without escaping, cut to its buffer, and sent through a pipe in text mode.
  The reader cuts the stream at newlines, decodes each line with replacement and parses it.  A line
  is FAITHFUL if it arrives as one line and is read as an object with every field of the record it
  was meant to hold.

  For progress and end lines this always holds.  For "session_start" and "ready" it holds exactly
  when the string from outside needs no escape, is UTF-8, and leaves the line within its buffer.
  The converse is a matter of length: a text that is read as the intended record is at least as
  long as the record printed, and with an escape in it, longer.
-/
namespace Nishro

open CCore
open Utf8 (Text text encode decode)

/-- The line arrives alone, and is read as what it was meant to hold. -/
structure Faithful (e : Emission) : Prop where
  alone : Py.readlines e.written = [e.written]
  read : ∃ j x, Py.readLine e.written = some j ∧ encode x = some e.given ∧
    ∀ m ∈ e.record x, j.get m.1 = some m.2.toJson

/-- UTF-8 without control characters, quotes or backslashes. -/
structure Printable (bs : Bytes) : Prop where
  utf8 : ∃ x, encode x = some bs
  plain : ∀ b ∈ bs, 32 ≤ b.toNat ∧ b.toNat ≠ 34 ∧ b.toNat ≠ 92

/-- The string from outside can stand in the line as it is, and there is room for it. -/
structure Clean (e : Emission) : Prop where
  room : e.given.length + e.fixed < e.bufSize
  printable : Printable e.given

/-! ## What arrives -/

theorem textMode_append (s t : Bytes) : textMode (s ++ t) = textMode s ++ textMode t := by
  simp [textMode]

theorem textMode_eq {s : Bytes} (h : 10 ∉ s) : textMode s = s := by
  induction s with
  | nil => rfl
  | cons b s ih =>
    rw [List.mem_cons, not_or] at h
    have hb : textMode (b :: s) = b :: textMode s := by simp [textMode, Ne.symm h.1]
    rw [hb, ih h.2]

theorem mem_textMode {s : Bytes} (h : 10 ∈ s) : 10 ∈ textMode s :=
  List.mem_flatMap.mpr ⟨10, h, by simp⟩

/-- A line arrives alone exactly when no newline got into its text. -/
theorem alone_iff (t : Bytes) :
    Py.readlines (ipcLine t) = [ipcLine t] ↔ 10 ∉ t := by
  have hline : ipcLine t = (textMode t ++ [13]) ++ [10] := by
    rw [ipcLine, textMode_append, List.append_assoc]
    rfl
  rw [hline, Py.readlines_eq_single]
  constructor
  · intro h ht
    exact h (List.mem_append_left _ (mem_textMode ht))
  · intro h
    rw [textMode_eq h]
    simp [h]

/-- Such a line is read as its text, with blanks at the end. -/
theorem readLine_ipcLine {t : Bytes} (h : 10 ∉ t) :
    Py.readLine (ipcLine t) = Json.loads (decode t ++ [13, 10]) := by
  have hline : ipcLine t = t ++ [13] ++ [10] := by
    rw [ipcLine, textMode_append, textMode_eq h, List.append_assoc]
    rfl
  rw [Py.readLine, hline, Utf8.decode_snoc _ (by decide), Utf8.decode_snoc _ (by decide),
    List.append_assoc]
  rfl

theorem isWs_crlf : ∀ c ∈ [13, 10], Json.isWs c = true := by decide

/-! ## Plain strings -/

/-- Whether a text needs escapes shows in its bytes. -/
theorem plainText_iff {x : Text} {bs : Bytes} (h : encode x = some bs) :
    Json.PlainText x ↔ ∀ b ∈ bs, 32 ≤ b.toNat ∧ b.toNat ≠ 34 ∧ b.toNat ≠ 92 := by
  have hlarge : ∀ n, 0x80 ≤ n → 32 ≤ n ∧ n ≠ 34 ∧ n ≠ 92 := fun n hn => by omega
  rw [← Utf8.forall_encode hlarge h]
  exact forall₂_congr fun c _ => Json.isPlain_iff

/-! ## Faithful lines -/

theorem Clean.faithful {e : Emission} (h : Clean e) : Faithful e := by
  obtain ⟨hroom, ⟨x, hx⟩, hplain⟩ := h
  have hwhole : snprintf e.bufSize e.format = e.format := by
    have hlen := length_format e
    exact List.take_of_length_le (by omega)
  have hnl : 10 ∉ e.format := fun hm =>
    absurd (format_printable (fun b hb => (hplain b hb).1) 10 hm) (by decide)
  have hloads := Json.loads_render (record_plain (e := e) ((plainText_iff hx).mpr hplain))
    (record_ne_nil e x) isWs_crlf
  refine ⟨?_, (e.record x).toJson, x, ?_, hx, ?_⟩
  · rw [Emission.written, hwhole, alone_iff]
    exact hnl
  · rw [Emission.written, hwhole, readLine_ipcLine hnl, Utf8.decode_encode (encode_record hx)]
    exact hloads
  · exact fun m hm => Json.get_toJson (record_keys e x).1 hm

/-- A text cut short is read as fewer characters. -/
theorem length_decode_cut (e : Emission) {n : Nat} (hn : n < e.format.length) :
    (decode (e.format.take n)).length < (decode e.format).length := by
  obtain ⟨bs, hbs⟩ := format_eq_snoc e
  rw [hbs, List.length_append, List.length_singleton] at hn
  have hcut := Utf8.length_decode_append (bs.take n) (bs.drop n)
  rw [List.take_append_drop] at hcut
  rw [hbs, List.take_append_of_le_length (by omega), Utf8.decode_snoc _ (by decide)]
  simp only [List.length_append, List.length_singleton]
  omega

theorem Faithful.clean {e : Emission} (h : Faithful e) : Clean e := by
  obtain ⟨halone, j, x, hj, hx, hget⟩ := h
  rw [Emission.written, alone_iff] at halone
  rw [Emission.written, readLine_ipcLine halone] at hj
  obtain ⟨hlong, hplain⟩ := Json.loads_record isWs_crlf hj (record_ne_nil e x) (record_keys e x).1 hget
  have hrender := Utf8.decode_encode (encode_record hx)
  have hlen := length_format e
  rcases Nat.lt_or_ge (e.bufSize - 1) e.format.length with hcut | hfits
  · -- the line was cut, and is too short for the record
    have := length_decode_cut e hcut
    rw [hrender] at this
    rw [snprintf] at hlong
    omega
  · have hwhole : snprintf e.bufSize e.format = e.format := List.take_of_length_le hfits
    rw [hwhole, hrender] at hplain
    have hpos : 0 < e.bufSize := by
      rcases e with (s | s | s) | ⟨device, vip⟩ <;> simp [Emission.bufSize]
    refine ⟨by omega, ⟨x, hx⟩, ?_⟩
    exact (plainText_iff hx).mp (plain_of_record hx (hplain rfl))

/-- Progress and end lines carry nothing from outside, and fit. -/
theorem clean_of_own {e : Emission} (hgiven : e.given = []) (hfits : e.format.length < e.bufSize) :
    Clean e := by
  refine ⟨by rwa [← length_format], ⟨[], ?_⟩, ?_⟩
  · rw [hgiven]
    rfl
  · simp [hgiven]

theorem clean_sessionProgress (s : Session) : Clean (.session (.sessionProgress s)) := by
  refine clean_of_own rfl ?_
  exact sessionProgress_fits s

theorem clean_sessionEnd (s : Session) (ok fault : Bool) (reason : Option EndReason) (now : UInt64) :
    Clean (.session (.sessionEnd s ok fault reason now)) := by
  refine clean_of_own rfl ?_
  exact sessionEnd_fits s ok fault reason now

/-- **The event lines.**  Progress and end lines are always faithful.  A "session_start" or "ready"
    line is faithful if and only if the filename or device it carries is UTF-8 without control
    characters, quotes and backslashes and leaves the line within its buffer. -/
theorem ipc_lines_faithful (e : Emission) :
    (Faithful e ↔ Clean e) ∧
    (∀ s, e = .session (.sessionProgress s) → Faithful e) ∧
    (∀ s ok fault reason now, e = .session (.sessionEnd s ok fault reason now) → Faithful e) := by
  refine ⟨⟨Faithful.clean, Clean.faithful⟩, ?_, ?_⟩
  · rintro s rfl
    exact (clean_sessionProgress s).faithful
  · rintro s ok fault reason now rfl
    exact (clean_sessionEnd s ok fault reason now).faithful

/-! ## A filename that forges an id -/

/-- The sessions announced in an output. -/
def sessionStarts (out : List SlotOutput) : List Session :=
  out.filterMap fun o => match o.out with
    | .ipc (.sessionStart s) => some s
    | _ => none

def forgedName : Bytes := ascii "x\",\"id\":7,\"filename\":\"x"

/-- An upload request for that name. -/
def forgedWrq : Event :=
  .tftp clock0 uploadEnv host ([0, 2] ++ forgedName ++ [0] ++ ascii "octet" ++ [0])

/-- The session it opens, as it is announced. -/
def forgedSession : Session :=
  { newSession (sessmgrNew uploadConfig) clock0 host 2
      ⟨2, forgedName, ascii "octet", none, none, none, none⟩ with
    src := some emptyUpload, blksize := 512, windowsize := 1, timeoutSec := 5 }

/-- What its line is read as. -/
def forgedRecord : Json.Record :=
  [(text "ev", .str (text "session_start")), (text "id", .int 1), (text "kind", .str (text "write")),
    (text "filename", .str (text "x")), (text "id", .int 7), (text "filename", .str (text "x")),
    (text "client_mac", .str (text "01:01:01:01:01:01")),
    (text "client_ip", .str (text "10.0.0.1")), (text "client_port", .int 2000),
    (text "vlan_id", .int (-1)), (text "blksize", .int 512), (text "windowsize", .int 1),
    (text "bytes_transferred", .int 0), (text "total_bytes", .int 0),
    (text "state", .str (text "idle")), (text "started_at", .int 1)]

/-- The name of the file ends the string it stands in, and the id that follows it in the line is
    the one the parent reads. -/
theorem filename_forges_id :
    sessionStarts (stepOut (sessmgrNew uploadConfig) forgedWrq).2 = [forgedSession] ∧
    forgedSession.id = 1 ∧
    (∃ j, Py.readLine (Emission.written (.session (.sessionStart forgedSession))) = some j ∧
      j.get (text "id") = some (.int 7)) ∧
    ¬ Faithful (.session (.sessionStart forgedSession)) := by
  have hread : decode (Emission.format (.session (.sessionStart forgedSession))) =
      forgedRecord.render := by
    decide +kernel
  have hcut : snprintf (Emission.bufSize (.session (.sessionStart forgedSession)))
      (Emission.format (.session (.sessionStart forgedSession))) =
        Emission.format (.session (.sessionStart forgedSession)) :=
    List.take_of_length_le (by decide +kernel)
  have hgiven : ((Emission.session (.sessionStart forgedSession)).given.all
      fun b => decide (32 ≤ b.toNat)) = true := by decide
  have hnl : 10 ∉ Emission.format (.session (.sessionStart forgedSession)) := by
    intro hm
    have hge := format_printable (fun b hb => of_decide_eq_true (List.all_eq_true.mp hgiven b hb)) 10 hm
    exact absurd hge (by decide)
  have hplain : forgedRecord.Plain := by decide
  refine ⟨rfl, rfl, ⟨forgedRecord.toJson, ?_, rfl⟩, fun h => ?_⟩
  · rw [Emission.written, hcut, readLine_ipcLine hnl, hread]
    exact Json.loads_render hplain (by decide) isWs_crlf
  · exact absurd (h.clean.printable.plain 34 (by decide)).2.1 (by decide)

end Nishro
