import NishroTftp.Lib.Dict
import NishroTftp.Py.Protocol
/-
  `files/cache.py`: the LRU cache of file contents.

  `get_or_load` answers from the cache, or waits for the one load of that name that is under way;
  the first caller that misses starts it, with the source it has been given.  A load is a task of
  its own, which runs later: it calls `source.read`, waits, and when the read is over it stores the
  bytes, answers everyone who waits and leaves `_inflight`, all in one go.  No call holds the lock
  across a wait, so `get_or_load` up to its wait and the end of a load are one step each.

  Every piece of data carries a TAG that is fixed when its read starts.  The code has no such thing
  and no decision depends on it; it is what the results say when and where bytes were read by.
-/
namespace Nishro.Py

/-- Bytes, with the tag of their read. -/
structure Data (τ : Type) where
  bytes : Bytes
  tag : τ
deriving DecidableEq, Repr

/-- A load under way: its source, and the tag of its read once that has started. -/
structure Load (σ τ : Type) where
  source : σ
  started : Option τ
deriving DecidableEq, Repr

structure FileCache (σ τ : Type) where
  maxBytes : Int
  maxFileBytes : Int
  enabled : Bool
  /-- the least recently used first -/
  entries : List (Str × Data τ)
  /-- `_bytes` -/
  bytes : Int
  inflight : List (Str × Load σ τ)
deriving DecidableEq, Repr

variable {σ τ : Type}

/-- `FileCache.__init__`. -/
def FileCache.new (maxBytes maxFileBytes : Int) (enabled : Bool) : FileCache σ τ :=
  ⟨maxBytes, maxFileBytes, enabled, [], 0, []⟩

/-- `update`. -/
def FileCache.update (c : FileCache σ τ) (maxBytes maxFileBytes : Int) (enabled : Bool) :
    FileCache σ τ :=
  let c := { c with maxBytes, maxFileBytes, enabled }
  if enabled then c else { c with entries := [], bytes := 0 }

/-- `invalidate`. -/
def FileCache.invalidate (c : FileCache σ τ) : Option Str → FileCache σ τ
  | none => { c with entries := [], bytes := 0 }
  | some f =>
    match c.entries.lookup f with
    | some d => { c with
        entries := c.entries.filter fun e => e.1 ≠ f
        bytes := c.bytes - d.bytes.length }
    | none => c

/-- `del d[f]; d[f] = data` of an ordered dictionary; `move_to_end` is the same with the old data. -/
def putLast (es : List (Str × Data τ)) (f : Str) (d : Data τ) : List (Str × Data τ) :=
  es.filter (fun e => e.1 ≠ f) ++ [(f, d)]

/-- `_peek`. -/
def FileCache.peek (c : FileCache σ τ) (f : Str) : Option (Data τ × FileCache σ τ) :=
  (c.entries.lookup f).map fun d => (d, { c with entries := putLast c.entries f d })

/-- The loop of `_store`: entries go, the least recently used first, until the rest fits. -/
def evict (maxBytes : Int) : List (Str × Data τ) → Int → List (Str × Data τ) × Int
  | [], bytes => ([], bytes)
  | e :: es, bytes =>
    if maxBytes < bytes then evict maxBytes es (bytes - e.2.bytes.length) else (e :: es, bytes)

/-- `_store`. -/
def FileCache.store (c : FileCache σ τ) (f : Str) (d : Data τ) : FileCache σ τ :=
  let old : Int := ((c.entries.lookup f).map fun d => (d.bytes.length : Int)).getD 0
  let kept := evict c.maxBytes (putLast c.entries f d) (c.bytes - old + d.bytes.length)
  { c with entries := kept.1, bytes := kept.2 }

/-- `get_or_load`, up to its wait: the data at once, or `none` if the caller waits for the load. -/
def FileCache.getOrLoad (c : FileCache σ τ) (f : Str) (source : σ) :
    FileCache σ τ × Option (Data τ) :=
  match if c.enabled then c.peek f else none with
  | some (d, c) => (c, some d)
  | none =>
    match c.inflight.lookup f with
    | some _ => (c, none)
    | none => ({ c with inflight := c.inflight ++ [(f, ⟨source, none⟩)] }, none)

/-- The task of a load runs, up to the wait for `source.read`. -/
def FileCache.start (c : FileCache σ τ) (f : Str) (tag : σ → τ) : FileCache σ τ :=
  { c with inflight := c.inflight.map fun e =>
      if e.1 = f then (f, { e.2 with started := some (e.2.started.getD (tag e.2.source)) }) else e }

/-- The rest of `_load`, when `source.read` has returned bytes, or nothing, or has raised.  The
    answer goes to all who wait; `none` if there is no such read. -/
def FileCache.finish (c : FileCache σ τ) (f : Str) (read : Option Bytes) :
    Option (FileCache σ τ × Option (Data τ)) :=
  match c.inflight.lookup f with
  | some ⟨_, some tag⟩ =>
    let done := { c with inflight := c.inflight.filter fun e => e.1 ≠ f }
    match read with
    | none => some (done, none)
    | some bytes =>
      let d : Data τ := ⟨bytes, tag⟩
      some (if done.enabled ∧ (bytes.length : Int) ≤ done.maxFileBytes then done.store f d else done,
        some d)
  | _ => none

/-! ## What is in the cache -/

section Entries

variable {es : List (Str × Data τ)} {f : Str} {d : Data τ} {e : Str × Data τ}

theorem mem_putLast : e ∈ putLast es f d ↔ (e ∈ es ∧ e.1 ≠ f) ∨ e = (f, d) := by
  simp [putLast]

theorem nodup_putLast (h : (es.map (·.1)).Nodup) : ((putLast es f d).map (·.1)).Nodup := by
  rw [putLast, List.map_append, List.nodup_append]
  refine ⟨h.sublist (List.filter_sublist.map _), by simp, ?_⟩
  intro k hk k' hk' heq
  have hk' : k' = f := by simpa using hk'
  obtain ⟨e, he, rfl⟩ := List.mem_map.1 hk
  have hne : e.1 ≠ f := by simpa using (List.mem_filter.1 he).2
  exact hne (heq.trans hk')

/-- Moving an entry to the end changes the order only. -/
theorem mem_putLast_of_lookup (h : (es.map (·.1)).Nodup) (hf : es.lookup f = some d) :
    e ∈ putLast es f d ↔ e ∈ es := by
  rw [mem_putLast]
  have hmem := Dict.mem_of_lookup hf
  constructor
  · rintro (he | rfl)
    · exact he.1
    · exact hmem
  intro he
  by_cases hk : e.1 = f
  · right
    have hd := Dict.lookup_of_mem h (k := e.1) (v := e.2) he
    rw [hk, hf] at hd
    rw [← hk, Option.some.inj hd]
  · exact .inl ⟨he, hk⟩

/-- Eviction takes entries away and adds none. -/
theorem evict_sublist (maxBytes bytes : Int) (es : List (Str × Data τ)) :
    (evict maxBytes es bytes).1.Sublist es := by
  induction es generalizing bytes with
  | nil => exact List.Sublist.refl _
  | cons e es ih =>
    unfold evict
    split
    · exact (ih _).cons e
    · exact List.Sublist.refl _

end Entries

section Operations

variable (c : FileCache σ τ) (f : Str)

theorem store_sublist (d : Data τ) : (c.store f d).entries.Sublist (putLast c.entries f d) :=
  evict_sublist ..

/-- Invalidation leaves the loads alone and takes entries away. -/
theorem invalidate_cases (name : Option Str) :
    (c.invalidate name).inflight = c.inflight ∧ (c.invalidate name).enabled = c.enabled ∧
      (c.invalidate name).entries.Sublist c.entries := by
  unfold FileCache.invalidate
  split
  · exact ⟨rfl, rfl, List.nil_sublist _⟩
  · split
    · exact ⟨rfl, rfl, List.filter_sublist⟩
    · exact ⟨rfl, rfl, List.Sublist.refl _⟩

/-- A load that starts is one that was under way. -/
theorem keys_start (tag : σ → τ) :
    (c.start f tag).inflight.map (·.1) = c.inflight.map (·.1) := by
  simp only [FileCache.start, List.map_map]
  refine List.map_congr_left fun e _ => ?_
  by_cases h : e.1 = f
  · simp [h]
  · simp [h]

/-- It keeps its source, and the tag it has; one that starts now is tagged now. -/
theorem mem_start {tag : σ → τ} {g : Str} {l : Load σ τ} (h : (g, l) ∈ (c.start f tag).inflight) :
    ∃ l₀, (g, l₀) ∈ c.inflight ∧ l.source = l₀.source ∧
      ∀ s, l.started = some s → l₀.started = some s ∨ g = f ∧ s = tag l₀.source := by
  obtain ⟨e, he, heq⟩ := List.mem_map.1 h
  by_cases hf : e.1 = f
  · rw [if_pos hf] at heq
    obtain ⟨rfl, rfl⟩ := Prod.mk.inj heq
    refine ⟨e.2, by rw [← hf]; exact he, rfl, fun s hs => ?_⟩
    cases hst : e.2.started with
    | none =>
      simp only [hst, Option.getD_none, Option.some.injEq] at hs
      exact .inr ⟨rfl, hs.symm⟩
    | some s₀ =>
      simp only [hst, Option.getD_some] at hs
      exact .inl hs
  · rw [if_neg hf] at heq
    subst heq
    exact ⟨l, he, rfl, fun s hs => .inl hs⟩

theorem lookup_start {tag : σ → τ} {l : Load σ τ} (h : c.inflight.lookup f = some l) :
    (c.start f tag).inflight.lookup f =
      some { l with started := some (l.started.getD (tag l.source)) } := by
  unfold FileCache.start
  generalize c.inflight = es at h
  induction es with
  | nil => cases h
  | cons e es ih =>
    obtain ⟨g, l'⟩ := e
    rw [List.lookup_cons] at h
    by_cases hg : g = f
    · subst hg
      simp only [beq_self_eq_true, Option.some.injEq] at h
      simp [h]
    · have hne : (f == g) = false := beq_false_of_ne (Ne.symm hg)
      rw [hne] at h
      simp only [List.map_cons, if_neg hg, List.lookup_cons, hne]
      exact ih h

/-- What `get_or_load` finds: the data, a load it can wait for, or neither, and then a load
    begins. -/
theorem getOrLoad_cases (source : σ) :
    (∃ d, c.enabled = true ∧ c.entries.lookup f = some d ∧
      c.getOrLoad f source = ({ c with entries := putLast c.entries f d }, some d)) ∨
    ((c.enabled = false ∨ c.entries.lookup f = none) ∧ ∃ l, c.inflight.lookup f = some l ∧
      c.getOrLoad f source = (c, none)) ∨
    ((c.enabled = false ∨ c.entries.lookup f = none) ∧ c.inflight.lookup f = none ∧
      c.getOrLoad f source = ({ c with inflight := c.inflight ++ [(f, ⟨source, none⟩)] }, none)) := by
  have hmiss : (c.enabled = false ∨ c.entries.lookup f = none) →
      (if c.enabled then c.peek f else none) = none := by
    rintro (h | h)
    · simp [h]
    · simp [FileCache.peek, h]
  by_cases hhit : c.enabled = false ∨ c.entries.lookup f = none
  · right
    cases hl : c.inflight.lookup f with
    | none =>
      refine .inr ⟨hhit, rfl, ?_⟩
      simp only [FileCache.getOrLoad, hmiss hhit, hl]
    | some l =>
      refine .inl ⟨hhit, l, rfl, ?_⟩
      simp only [FileCache.getOrLoad, hmiss hhit, hl]
  · obtain ⟨hen, hsome⟩ := not_or.1 hhit
    obtain ⟨d, hd⟩ := Option.ne_none_iff_exists'.1 hsome
    simp [FileCache.getOrLoad, hen, FileCache.peek, hd]

/-- How a load ends: its name is no longer under way, and its data, if it has any, may be stored. -/
theorem finish_cases (read : Option Bytes) :
    (c.finish f read = none ∧ ∀ source tag, c.inflight.lookup f ≠ some ⟨source, some tag⟩) ∨
    ∃ source tag, c.inflight.lookup f = some ⟨source, some tag⟩ ∧ ∃ c',
      c.finish f read = some (c', read.map fun bytes => ⟨bytes, tag⟩) ∧
      c'.inflight = c.inflight.filter (fun e => e.1 ≠ f) ∧ c'.enabled = c.enabled ∧
      (c'.entries = c.entries ∨ c.enabled = true ∧ ∃ bytes, read = some bytes ∧
        c'.entries.Sublist (putLast c.entries f ⟨bytes, tag⟩)) := by
  unfold FileCache.finish
  cases hl : c.inflight.lookup f with
  | none => exact .inl ⟨rfl, fun _ _ h => by cases h⟩
  | some l =>
    obtain ⟨source, started⟩ := l
    cases started with
    | none => exact .inl ⟨rfl, fun _ _ h => by cases h⟩
    | some tag =>
      refine .inr ⟨source, tag, rfl, ?_⟩
      cases read with
      | none => exact ⟨_, rfl, rfl, rfl, .inl rfl⟩
      | some bytes =>
        refine ⟨_, rfl, ?_, ?_, ?_⟩
        · split <;> rfl
        · split <;> rfl
        · split
          · rename_i h
            exact .inr ⟨h.1, bytes, rfl, store_sublist ..⟩
          · exact .inl rfl

end Operations

end Nishro.Py
