import NishroTftp.Lib.Runs
/-
  Live log delivery (`core/logger.py`, the registration in `ws_stream` of `web/app.py`).

  The memory handler is an OBJECT: it holds the ring of recent records and the listeners.  A
  WebSocket registers its listener with the handler of the moment and takes it from THAT handler
  when it closes.  `setup_logging` makes a new handler, with an empty ring and nobody registered, and
  puts it in the place of the old one, which no record reaches any more.

  Records are numbered as they are emitted; what they say plays no part.
-/
namespace Nishro.Py

open Runs

/-! ## The handler -/

/-- A `MemoryRingHandler`; objects are told apart by their number. -/
structure MemoryRingHandler where
  serial : Nat
  capacity : Nat
  /-- a deque with `maxlen`, the oldest record first -/
  buffer : List Nat
  /-- the listener of a WebSocket, by the number of that -/
  listeners : List Nat
deriving DecidableEq, Repr

/-- The last `n` elements. -/
def lastN {α : Type} (n : Nat) (l : List α) : List α := l.drop (l.length - n)

/-- `append` of a deque with `maxlen`. -/
def pushBounded {α : Type} (n : Nat) (l : List α) (x : α) : List α := lastN n (l ++ [x])

/-- `emit`: the handler after it; every listener is called. -/
def MemoryRingHandler.emit (h : MemoryRingHandler) (entry : Nat) : MemoryRingHandler :=
  { h with buffer := pushBounded h.capacity h.buffer entry }

section LastN

variable {α : Type} {n : Nat}

/-- What is pushed one by one is the end of the whole. -/
theorem pushBounded_lastN (n : Nat) (l : List α) (x : α) :
    pushBounded n (lastN n l) x = lastN n (l ++ [x]) := by
  unfold pushBounded lastN
  rw [List.length_append, List.length_drop, List.length_append, List.length_singleton]
  by_cases hn : n = 0
  · subst hn
    rw [List.drop_eq_nil_of_le (by simp), List.drop_eq_nil_of_le (by simp)]
  · rw [List.drop_append_of_le_length (by rw [List.length_drop]; omega),
      List.drop_append_of_le_length (by omega), List.drop_drop]
    congr 2
    omega

theorem lastN_zero (l : List α) : lastN 0 l = [] := by
  simp [lastN]

theorem lastN_eq_nil {l : List α} (h : lastN n l = []) : n = 0 ∨ l = [] := by
  have hlen := congrArg List.length h
  rw [lastN, List.length_drop, List.length_nil] at hlen
  by_cases hn : n = 0
  · exact .inl hn
  · exact .inr (List.eq_nil_of_length_eq_zero (by omega))

/-- The latest element is among the last. -/
theorem mem_lastN (hn : n ≠ 0) (l : List α) (x : α) : x ∈ lastN n (l ++ [x]) := by
  rw [lastN, List.length_append, List.length_singleton,
    List.drop_append_of_le_length (by omega)]
  exact List.mem_append_right _ List.mem_cons_self

end LastN

/-! ## The process -/

structure Logging where
  /-- `_memory_handler` -/
  memory : MemoryRingHandler
  /-- it is among the handlers of the root logger -/
  attached : Bool
  /-- of the root logger -/
  level : Nat
  /-- open WebSockets, with the number of the handler they registered with -/
  sockets : List (Nat × Nat)
  nextSocket : Nat
  /-- how many records of the level or above there have been -/
  emitted : Nat
deriving DecidableEq, Repr

/-- What a call of `setup_logging` comes to. -/
inductive Setup
  /-- the format or the level is none: it raises before it has changed anything -/
  | refused
  /-- the log file or `memory_buffer` is none: it raises when the old handlers are gone -/
  | broken (level : Nat)
  | done (level capacity : Nat)
deriving DecidableEq, Repr

inductive LogEvent
  /-- `ws_stream` registers its listener -/
  | connect
  /-- and removes it -/
  | disconnect (socket : Nat)
  | setup (s : Setup)
  | log (level : Nat)
deriving DecidableEq, Repr

/-- After the first `setup_logging`, at the start of `main`. -/
def Logging.start (level capacity : Nat) : Logging :=
  ⟨⟨0, capacity, [], []⟩, true, level, [], 0, 0⟩

/-- Whom a record is delivered to. -/
def Logging.recipients (w : Logging) : List Nat := if w.attached then w.memory.listeners else []

def Logging.step (w : Logging) : LogEvent → Logging
  | .connect => { w with
      memory := { w.memory with listeners := w.memory.listeners ++ [w.nextSocket] }
      sockets := w.sockets ++ [(w.nextSocket, w.memory.serial)]
      nextSocket := w.nextSocket + 1 }
  | .disconnect socket => { w with
      memory :=
        -- an older handler loses its listener unseen
        if (socket, w.memory.serial) ∈ w.sockets then
          { w.memory with listeners := w.memory.listeners.erase socket }
        else w.memory
      sockets := w.sockets.filter fun s => s.1 ≠ socket }
  | .setup .refused => w
  | .setup (.broken level) => { w with attached := false, level }
  | .setup (.done level capacity) => { w with
      memory := ⟨w.memory.serial + 1, capacity, [], []⟩, attached := true, level }
  | .log level =>
    if level < w.level then w
    else { w with
      memory := if w.attached then w.memory.emit w.emitted else w.memory
      emitted := w.emitted + 1 }

/-! ## Delivery -/

/-- The ring holds the most recent records, as many as there are and fit. -/
def Logging.RingHolds (w : Logging) : Prop :=
  w.memory.buffer = lastN w.memory.capacity (List.range w.emitted)

/-- The ring is right, and a record that is logged now reaches every open WebSocket and the ring. -/
structure Logging.Delivers (w : Logging) : Prop where
  ring : w.RingHolds
  delivered : ∀ s ∈ w.sockets, s.1 ∈ w.recipients
  recorded : ∀ level, w.level ≤ level → (w.step (.log level)).RingHolds

/-- A new handler is put in place only when no WebSocket is open and it loses no record; and a
    WebSocket opens only when the handler it registers with is in place. -/
def Logging.Quiet (w : Logging) : LogEvent → Prop
  | .connect => w.attached = true
  | .setup (.broken _) => w.sockets = [] ∧ w.memory.capacity = 0
  | .setup (.done _ capacity) => w.sockets = [] ∧ (capacity = 0 ∨ w.emitted = 0)
  | .setup .refused | .disconnect _ | .log _ => True

/-- A ring that is not in place can only hold nothing. -/
theorem ringHolds_log_iff {w : Logging} (h : w.RingHolds) {level : Nat} (hl : w.level ≤ level) :
    (w.step (.log level)).RingHolds ↔ w.attached = true ∨ w.memory.capacity = 0 := by
  have hlt : ¬ level < w.level := by omega
  unfold Logging.RingHolds at h ⊢
  simp only [Logging.step, if_neg hlt]
  cases w.attached with
  | true =>
    simp only [if_true, true_or, iff_true, MemoryRingHandler.emit, List.range_succ]
    rw [h, pushBounded_lastN]
  | false =>
    simp only [Bool.false_eq_true, if_false, false_or, List.range_succ]
    constructor
    · intro hnew
      refine Classical.byContradiction fun hn => ?_
      have hmem := mem_lastN hn (List.range w.emitted) w.emitted
      rw [← hnew, h] at hmem
      exact Nat.lt_irrefl _ (List.mem_range.1 (List.mem_of_mem_drop hmem))
    · intro hn
      rw [h, hn, lastN_zero, lastN_zero]

theorem delivers_iff (w : Logging) :
    w.Delivers ↔ w.RingHolds ∧ (w.attached = true ∨ w.memory.capacity = 0) ∧
      ∀ s ∈ w.sockets, w.attached = true ∧ s.1 ∈ w.memory.listeners := by
  have hrec : ∀ id, id ∈ w.recipients ↔ w.attached = true ∧ id ∈ w.memory.listeners := by
    intro id
    unfold Logging.recipients
    cases w.attached <;> simp
  constructor
  · rintro ⟨hring, hdel, hlog⟩
    refine ⟨hring, (ringHolds_log_iff hring (Nat.le_refl _)).1 (hlog w.level (Nat.le_refl _)), ?_⟩
    exact fun s hs => (hrec s.1).1 (hdel s hs)
  · rintro ⟨hring, hin, hsock⟩
    exact ⟨hring, fun s hs => (hrec s.1).2 (hsock s hs),
      fun level hl => (ringHolds_log_iff hring hl).2 hin⟩

/-- The new handler of `setup_logging` begins with an empty ring. -/
theorem ringHolds_setup_iff (w : Logging) (level capacity : Nat) :
    (w.step (.setup (.done level capacity))).RingHolds ↔ capacity = 0 ∨ w.emitted = 0 := by
  show [] = lastN capacity (List.range w.emitted) ↔ _
  constructor
  · intro hr
    rcases lastN_eq_nil hr.symm with h0 | h0
    · exact .inl h0
    · exact .inr (by simpa using h0)
  · rintro (rfl | h0)
    · rw [lastN_zero]
    · simp [h0, lastN]

theorem forall_never_iff {α : Type} {P : α → Prop} (hP : ∀ x, ¬ P x) (l : List α) :
    (∀ x ∈ l, P x) ↔ l = [] := by
  rw [List.eq_nil_iff_forall_not_mem]
  exact forall₂_congr fun x _ => iff_false_intro (hP x)

/-- One step keeps delivery up exactly if it is quiet. -/
theorem delivers_step_iff {w : Logging} (h : w.Delivers) (e : LogEvent) :
    (w.step e).Delivers ↔ w.Quiet e := by
  obtain ⟨hring, hin, hsock⟩ := (delivers_iff w).1 h
  rw [delivers_iff]
  cases e with
  | connect =>
    constructor
    · rintro ⟨-, -, hsock'⟩
      exact (hsock' (w.nextSocket, w.memory.serial) (by simp [Logging.step])).1
    intro hatt
    refine ⟨hring, hin, fun s hs => ⟨hatt, ?_⟩⟩
    rcases List.mem_append.1 hs with hs | hs
    · exact List.mem_append_left _ (hsock s hs).2
    · rw [List.mem_singleton.1 hs]
      exact List.mem_append_right _ List.mem_cons_self
  | disconnect socket =>
    refine iff_of_true ⟨?_, ?_, fun s hs => ?_⟩ trivial
    · simp only [Logging.step, Logging.RingHolds]
      split <;> exact hring
    · simp only [Logging.step]
      split <;> exact hin
    obtain ⟨hs, hne⟩ := List.mem_filter.1 hs
    have hne : s.1 ≠ socket := by simpa using hne
    obtain ⟨hatt, hmem⟩ := hsock s hs
    refine ⟨hatt, ?_⟩
    simp only [Logging.step]
    split
    · exact (List.mem_erase_of_ne hne).2 hmem
    · exact hmem
  | setup s =>
    cases s with
    | refused => exact iff_of_true ⟨hring, hin, hsock⟩ trivial
    | broken level =>
      -- the old handler is off the logger and there is no new one
      have hnobody := forall_never_iff (P := fun s : Nat × Nat =>
        false = true ∧ s.1 ∈ w.memory.listeners) (fun _ hs => Bool.false_ne_true hs.1) w.sockets
      constructor
      · rintro ⟨-, hin', hsock'⟩
        exact ⟨hnobody.1 hsock', hin'.resolve_left Bool.false_ne_true⟩
      · rintro ⟨hnone, hcap⟩
        exact ⟨hring, .inr hcap, hnobody.2 hnone⟩
    | done level capacity =>
      -- the listeners of the old handler are not taken over
      have hnobody := forall_never_iff (P := fun s : Nat × Nat => true = true ∧ s.1 ∈ ([] : List Nat))
        (fun _ hs => List.not_mem_nil hs.2) w.sockets
      rw [ringHolds_setup_iff]
      constructor
      · rintro ⟨hr, -, hsock'⟩
        exact ⟨hnobody.1 hsock', hr⟩
      · rintro ⟨hnone, hr⟩
        exact ⟨hr, .inl rfl, hnobody.2 hnone⟩
  | log level =>
    refine iff_of_true ⟨?_, ?_, ?_⟩ trivial
    · by_cases hl : level < w.level
      · simp only [Logging.step, if_pos hl]
        exact hring
      · exact h.recorded level (by omega)
    · simp only [Logging.step]
      split
      · exact hin
      · split <;> exact hin
    · simp only [Logging.step]
      split
      · exact hsock
      · split <;> exact hsock

/-- **Live logs.**  Along every run of registrations, log records and calls of `setup_logging`, the
    ring holds the most recent records and every record reaches every open WebSocket exactly when
    no call puts a new handler in place while a WebSocket is open or records have been emitted, and
    none opens while there is no handler in place. -/
theorem live_logs_iff (level capacity : Nat) (es : List LogEvent) :
    Always Logging.step Logging.Delivers (.start level capacity) es ↔
      Along Logging.step Logging.Quiet (.start level capacity) es := by
  have hstart : (Logging.start level capacity).Delivers :=
    (delivers_iff _).2 ⟨by simp [Logging.RingHolds, Logging.start, lastN], .inl rfl,
      by simp [Logging.start]⟩
  constructor
  · exact fun h => h.along fun w e hw hw' => (delivers_step_iff hw e).1 hw'
  · exact fun h => Along.always (fun w e hw hq => (delivers_step_iff hw e).2 hq) hstart h

/-- A viewer is connected, one record has been logged, and a save calls `setup_logging`: the ring is
    empty, and the viewer is not among those the next record is delivered to. -/
theorem viewer_cut_off :
    let w := run Logging.step (.start 20 100) [.connect, .log 20, .setup (.done 20 100)]
    (w.sockets = [(0, 0)] ∧ w.recipients = [] ∧ w.memory.buffer = [] ∧ w.emitted = 1) ∧
    ¬ Always Logging.step Logging.Delivers (.start 20 100)
      [.connect, .log 20, .setup (.done 20 100)] := by
  refine ⟨by decide, fun h => ?_⟩
  have hmem := h.last.delivered (0, 0) (by decide)
  revert hmem
  decide

end Nishro.Py
