import NishroTftp.Lib.Runs
import NishroTftp.Py.FileCache
/-
  Which bytes a download is given (`files/cache.py`, `_run_rrq`, the end of `_run_wrq`,
  `_on_config_change` of `main.py`).

  What a name denotes changes when an upload to it is done and when a reload replaces the source.
  Neither tells the cache.  The data in the cache is tagged with the source it was read from and
  with the number of uploads to its name that were done when the read started, so `Fresh` says that
  it was read from the current source and after all of them.

  A read lock is held by a download and a write lock by an upload, which only turns other sessions
  away; the results here are about the sessions that get as far as the cache, in every order.
-/
namespace Nishro.Py

open Runs

/-! ## Downloads, uploads and reloads around the cache -/

/-- Where and when bytes were read: the number of the source object, and how many uploads to the
    name were done before the read started. -/
structure Stamp where
  source : Nat
  uploads : Nat
deriving DecidableEq, Repr

structure Files where
  cache : FileCache Nat Stamp
  /-- the source object of `TftpServer`; a reload makes another one -/
  source : Nat
  /-- uploads to a name that ended in state "done" -/
  uploads : Str → Nat
  /-- download sessions that have not asked yet: the name, and the source they were created with -/
  sessions : List (Nat × Str × Nat)
  /-- sessions that wait for the load of a name -/
  waiting : List (Nat × Str)
  /-- what sessions were given -/
  served : List (Nat × Data Stamp)
  nextSession : Nat

/-- A server that starts. -/
def Files.new (maxBytes maxFileBytes : Int) (enabled : Bool) : Files :=
  ⟨.new maxBytes maxFileBytes enabled, 0, fun _ => 0, [], [], [], 0⟩

inductive FilesEvent
  /-- an RRQ is accepted: the session is created -/
  | accept (f : Str)
  /-- and runs, as far as `get_or_load` -/
  | ask (id : Nat)
  /-- `/api/files/download` calls `get_or_load` too -/
  | download (f : Str)
  /-- the load of `f` calls `source.read` -/
  | start (f : Str)
  /-- the read of `f` is over -/
  | finish (f : Str) (read : Option Bytes)
  /-- a WRQ for `f` ends in state "done" -/
  | uploaded (f : Str)
  /-- `_on_config_change` -/
  | reload (maxBytes maxFileBytes : Int) (enabled : Bool)
  /-- `/api/cache/invalidate` and the file manager -/
  | invalidate (name : Option Str)

/-- A session calls `get_or_load`. -/
def Files.ask (m : Files) (id : Nat) (f : Str) (source : Nat) : Files :=
  let r := m.cache.getOrLoad f source
  let m := { m with cache := r.1, sessions := m.sessions.filter fun s => s.1 ≠ id }
  match r.2 with
  | some d => { m with served := (id, d) :: m.served }
  | none => { m with waiting := (id, f) :: m.waiting }

/-- Everyone who waits for the load of `f` is answered. -/
def Files.answer (m : Files) (f : Str) (data : Option (Data Stamp)) : Files :=
  let ids := (m.waiting.filter fun w => w.2 = f).map (·.1)
  { m with
    waiting := m.waiting.filter fun w => w.2 ≠ f
    served := (data.map fun d => ids.map fun id => (id, d)).getD [] ++ m.served }

def Files.step (m : Files) : FilesEvent → Files
  | .accept f =>
    { m with sessions := (m.nextSession, f, m.source) :: m.sessions
             nextSession := m.nextSession + 1 }
  | .ask id =>
    match m.sessions.lookup id with
    | some (f, source) => m.ask id f source
    | none => m
  | .download f => { m with cache := (m.cache.getOrLoad f m.source).1 }
  | .start f => { m with cache := m.cache.start f fun source => ⟨source, m.uploads f⟩ }
  | .finish f read =>
    match m.cache.finish f read with
    | some (cache, data) => { m with cache }.answer f data
    | none => m
  | .uploaded f => { m with uploads := fun g => if g = f then m.uploads g + 1 else m.uploads g }
  | .reload maxBytes maxFileBytes enabled =>
    { m with cache := m.cache.update maxBytes maxFileBytes enabled, source := m.source + 1 }
  | .invalidate name => { m with cache := m.cache.invalidate name }

/-! ## Freshness -/

/-- Read from source `source` or a later one, and after `uploads f` uploads to `f` were done. -/
def Fresh (source : Nat) (uploads : Str → Nat) (f : Str) (s : Stamp) : Prop :=
  source ≤ s.source ∧ uploads f ≤ s.uploads

/-- A download of any name that starts now is given fresh bytes, whatever happens then. -/
def Files.ServesFresh (m : Files) : Prop :=
  ∀ f rest d,
    (m.nextSession, d) ∈ (run Files.step m (.accept f :: .ask m.nextSession :: rest)).served →
      Fresh m.source m.uploads f d.tag

section Cache

variable {source : Nat} {uploads : Str → Nat} {c : FileCache Nat Stamp}

/-- Nothing in the cache is stale, and no load will deliver anything that is. -/
structure Coherent (source : Nat) (uploads : Str → Nat) (c : FileCache Nat Stamp) : Prop where
  entry : ∀ f d, (f, d) ∈ c.entries → Fresh source uploads f d.tag
  load : ∀ f l, (f, l) ∈ c.inflight →
    source ≤ l.source ∧ ∀ s, l.started = some s → uploads f ≤ s.uploads

/-- What holds of the cache in every state. -/
structure CacheWf (source : Nat) (uploads : Str → Nat) (c : FileCache Nat Stamp) : Prop where
  keys : (c.entries.map (·.1)).Nodup
  loads : (c.inflight.map (·.1)).Nodup
  /-- nothing is loaded that is in the cache -/
  apart : ∀ f ∈ c.entries.map (·.1), f ∉ c.inflight.map (·.1)
  /-- a cache that is off is empty -/
  off : c.enabled = false → c.entries = []
  entry : ∀ f d, (f, d) ∈ c.entries → d.tag.source ≤ source ∧ d.tag.uploads ≤ uploads f
  load : ∀ f l, (f, l) ∈ c.inflight → l.source ≤ source ∧
    ∀ s, l.started = some s → s.source = l.source ∧ s.uploads ≤ uploads f

section

variable (h : CacheWf source uploads c)
include h

/-- A miss: the name is not in the cache. -/
theorem CacheWf.not_mem {f : Str}
    (hmiss : c.enabled = false ∨ c.entries.lookup f = none) : f ∉ c.entries.map (·.1) := by
  rcases hmiss with hoff | hnone
  · rw [h.off hoff]
    exact List.not_mem_nil
  · exact Dict.lookup_eq_none_iff_not_mem.1 hnone

theorem CacheWf.getOrLoad (f : Str) {src : Nat} (hsrc : src ≤ source) :
    CacheWf source uploads (c.getOrLoad f src).1 := by
  rcases getOrLoad_cases c f src with ⟨d, hen, hd, heq⟩ | ⟨-, l, -, heq⟩ | ⟨hmiss, hnone, heq⟩ <;>
    rw [heq]
  · have hmem : ∀ e, e ∈ putLast c.entries f d ↔ e ∈ c.entries :=
      fun e => mem_putLast_of_lookup h.keys hd
    refine ⟨nodup_putLast h.keys, h.loads, fun g hg => ?_, fun hoff => ?_, ?_, h.load⟩
    · obtain ⟨e, he, rfl⟩ := List.mem_map.1 hg
      exact h.apart e.1 (List.mem_map_of_mem ((hmem e).1 he))
    · rw [show c.enabled = false from hoff] at hen
      cases hen
    · exact fun g d' he => h.entry g d' ((hmem _).1 he)
  · exact h
  · have hnew := h.not_mem hmiss
    have hfree := Dict.lookup_eq_none_iff_not_mem.1 hnone
    refine ⟨h.keys, ?_, fun g hg => ?_, h.off, h.entry, fun g l hl => ?_⟩
    · rw [List.map_append]
      refine List.nodup_append.2 ⟨h.loads, by simp, fun k hk k' hk' => ?_⟩
      rw [show k' = f by simpa using hk']
      exact fun heq => hfree (heq ▸ hk)
    · rw [List.map_append, List.mem_append]
      rintro (hin | hin)
      · exact h.apart g hg hin
      · rw [show g = f by simpa using hin] at hg
        exact hnew hg
    · rcases List.mem_append.1 hl with hl | hl
      · exact h.load g l hl
      · obtain ⟨rfl, rfl⟩ := Prod.mk.inj (List.mem_singleton.1 hl)
        exact ⟨hsrc, fun s hs => by cases hs⟩

theorem CacheWf.start (f : Str) :
    CacheWf source uploads (c.start f fun src => ⟨src, uploads f⟩) := by
  refine ⟨h.keys, ?_, fun g hg => ?_, h.off, h.entry, fun g l hl => ?_⟩
  · rw [keys_start]
    exact h.loads
  · rw [keys_start]
    exact h.apart g hg
  obtain ⟨l₀, hl₀, hsrc, hstarted⟩ := mem_start c f hl
  rw [hsrc]
  refine ⟨(h.load g l₀ hl₀).1, fun s hs => ?_⟩
  rcases hstarted s hs with hs | ⟨rfl, rfl⟩
  · exact (h.load g l₀ hl₀).2 s hs
  · exact ⟨rfl, Nat.le_refl _⟩

/-- Fewer entries, fewer loads. -/
theorem CacheWf.sublist {c' : FileCache Nat Stamp}
    (hentries : c'.entries.Sublist c.entries) (hloads : c'.inflight.Sublist c.inflight)
    (hoff : c'.enabled = false → c'.entries = []) : CacheWf source uploads c' where
  keys := h.keys.sublist (hentries.map _)
  loads := h.loads.sublist (hloads.map _)
  apart f hf hf' := h.apart f ((hentries.map _).subset hf) ((hloads.map _).subset hf')
  off := hoff
  entry f d hd := h.entry f d (hentries.subset hd)
  load f l hl := h.load f l (hloads.subset hl)

theorem CacheWf.finish {f : Str} {read : Option Bytes}
    {c' : FileCache Nat Stamp} {data : Option (Data Stamp)}
    (hfin : c.finish f read = some (c', data)) : CacheWf source uploads c' := by
  rcases finish_cases c f read with ⟨hnone, -⟩ | ⟨src, tag, hl, c'', heq, hin, hen, hent⟩
  · rw [hnone] at hfin
    cases hfin
  rw [heq] at hfin
  obtain ⟨rfl, -⟩ := Prod.mk.inj (Option.some.inj hfin)
  have hsub : c''.inflight.Sublist c.inflight := by
    rw [hin]
    exact List.filter_sublist
  rcases hent with hsame | ⟨hon, bytes, -, hput⟩
  · refine h.sublist (hsame ▸ List.Sublist.refl _) hsub fun hoff => ?_
    rw [hsame]
    exact h.off (by rw [← hen]; exact hoff)
  obtain ⟨hsrc, hs⟩ := h.load f _ (Dict.mem_of_lookup hl)
  obtain ⟨htag, hup⟩ := hs tag rfl
  refine ⟨(nodup_putLast h.keys).sublist (hput.map _), h.loads.sublist (hsub.map _), ?_, ?_, ?_,
    fun g l hgl => h.load g l (hsub.subset hgl)⟩
  · intro g hg hg'
    have hgf : g ≠ f := by
      rw [hin] at hg'
      obtain ⟨e, he, rfl⟩ := List.mem_map.1 hg'
      simpa using (List.mem_filter.1 he).2
    obtain ⟨e, he, rfl⟩ := List.mem_map.1 hg
    rcases mem_putLast.1 (hput.subset he) with ⟨he, -⟩ | rfl
    · exact h.apart e.1 (List.mem_map_of_mem he) ((hsub.map _).subset hg')
    · exact hgf rfl
  · intro hoff
    rw [hen, hon] at hoff
    cases hoff
  · intro g d hgd
    rcases mem_putLast.1 (hput.subset hgd) with ⟨he, -⟩ | heq
    · exact h.entry g d he
    · obtain ⟨rfl, rfl⟩ := Prod.mk.inj heq
      exact ⟨by rw [htag]; exact hsrc, hup⟩

/-- Time goes on. -/
theorem CacheWf.mono {source' : Nat} {uploads' : Str → Nat}
    (hs : source ≤ source') (hu : ∀ f, uploads f ≤ uploads' f) : CacheWf source' uploads' c where
  keys := h.keys
  loads := h.loads
  apart := h.apart
  off := h.off
  entry f d hd := ⟨Nat.le_trans (h.entry f d hd).1 hs, Nat.le_trans (h.entry f d hd).2 (hu f)⟩
  load f l hl := ⟨Nat.le_trans (h.load f l hl).1 hs, fun s hst =>
    ⟨((h.load f l hl).2 s hst).1, Nat.le_trans ((h.load f l hl).2 s hst).2 (hu f)⟩⟩

end

/-- `update` empties a cache that it turns off, and touches no load. -/
theorem update_cases (maxBytes maxFileBytes : Int) (enabled : Bool) :
    (c.update maxBytes maxFileBytes enabled).inflight = c.inflight ∧
    (c.update maxBytes maxFileBytes enabled).enabled = enabled ∧
    (c.update maxBytes maxFileBytes enabled).entries = if enabled then c.entries else [] := by
  unfold FileCache.update
  cases enabled <;> simp

theorem CacheWf.update (h : CacheWf source uploads c) (maxBytes maxFileBytes : Int)
    (enabled : Bool) : CacheWf source uploads (c.update maxBytes maxFileBytes enabled) := by
  obtain ⟨hin, hen, hent⟩ := update_cases (c := c) maxBytes maxFileBytes enabled
  refine h.sublist ?_ (hin ▸ List.Sublist.refl _) fun hoff => ?_
  · rw [hent]
    split
    · exact List.Sublist.refl _
    · exact List.nil_sublist _
  · rw [show enabled = false from hen.symm.trans hoff]
    rfl

end Cache

/-- What holds of the bookkeeping in every state. -/
structure Files.Wf (m : Files) : Prop where
  cache : CacheWf m.source m.uploads m.cache
  session : ∀ id f source, (id, f, source) ∈ m.sessions → id < m.nextSession ∧ source ≤ m.source
  waits : ∀ w ∈ m.waiting, w.1 < m.nextSession
  served : ∀ s ∈ m.served, s.1 < m.nextSession

section Ask

variable {m : Files} {id : Nat} {f : Str} {source : Nat} {c : FileCache Nat Stamp}

theorem ask_hit {d : Data Stamp} (h : m.cache.getOrLoad f source = (c, some d)) :
    m.ask id f source = { m with
      cache := c, sessions := m.sessions.filter fun s => s.1 ≠ id, served := (id, d) :: m.served } := by
  simp only [Files.ask, h]

theorem ask_wait (h : m.cache.getOrLoad f source = (c, none)) :
    m.ask id f source = { m with
      cache := c, sessions := m.sessions.filter fun s => s.1 ≠ id, waiting := (id, f) :: m.waiting } := by
  simp only [Files.ask, h]

theorem ask_cache (m : Files) (id : Nat) (f : Str) (source : Nat) :
    (m.ask id f source).source = m.source ∧ (m.ask id f source).uploads = m.uploads ∧
      (m.ask id f source).cache = (m.cache.getOrLoad f source).1 := by
  cases hget : m.cache.getOrLoad f source with
  | mk c data =>
  cases data with
  | some d =>
    rw [ask_hit hget]
    exact ⟨rfl, rfl, rfl⟩
  | none =>
    rw [ask_wait hget]
    exact ⟨rfl, rfl, rfl⟩

end Ask

/-- A call of `get_or_load` by a session. -/
theorem Files.Wf.ask {m : Files} (h : m.Wf) {id : Nat} {f : Str} {source : Nat}
    (hs : (id, f, source) ∈ m.sessions) : (m.ask id f source).Wf := by
  obtain ⟨hid, hsrc⟩ := h.session id f source hs
  have hcache := h.cache.getOrLoad f hsrc
  have hsess : ∀ id' f' source', (id', f', source') ∈ m.sessions.filter (fun s => s.1 ≠ id) →
      id' < m.nextSession ∧ source' ≤ m.source :=
    fun id' f' source' hmem => h.session id' f' source' (List.mem_filter.1 hmem).1
  cases hget : m.cache.getOrLoad f source with
  | mk c data =>
  rw [hget] at hcache
  cases data with
  | some d =>
    rw [ask_hit hget]
    refine ⟨hcache, hsess, h.waits, fun s hmem => ?_⟩
    rcases List.mem_cons.1 hmem with rfl | hmem
    · exact hid
    · exact h.served s hmem
  | none =>
    rw [ask_wait hget]
    refine ⟨hcache, hsess, fun w hmem => ?_, h.served⟩
    rcases List.mem_cons.1 hmem with rfl | hmem
    · exact hid
    · exact h.waits w hmem

theorem mem_answer {m : Files} {f : Str} {data : Option (Data Stamp)} {s : Nat × Data Stamp}
    (h : s ∈ (m.answer f data).served) :
    s ∈ m.served ∨ data = some s.2 ∧ (s.1, f) ∈ m.waiting := by
  rcases List.mem_append.1 h with h | h
  · right
    cases data with
    | none => cases h
    | some d =>
      obtain ⟨id, hid, rfl⟩ := List.mem_map.1 h
      obtain ⟨w, hw, rfl⟩ := List.mem_map.1 hid
      obtain ⟨hw, hf⟩ := List.mem_filter.1 hw
      exact ⟨rfl, by rw [← show w.2 = f by simpa using hf]; exact hw⟩
  · exact .inl h

theorem Files.Wf.step {m : Files} (h : m.Wf) (e : FilesEvent) : (m.step e).Wf := by
  cases e with
  | accept f =>
    refine ⟨h.cache, fun id g source hmem => ?_, fun w hw => ?_, fun s hs => ?_⟩
    · rcases List.mem_cons.1 hmem with heq | hmem
      · obtain ⟨rfl, -, rfl⟩ : id = m.nextSession ∧ g = f ∧ source = m.source := by
          simpa using heq
        exact ⟨Nat.lt_succ_self _, Nat.le_refl _⟩
      · obtain ⟨h1, h2⟩ := h.session id g source hmem
        exact ⟨Nat.lt_succ_of_lt h1, h2⟩
    · exact Nat.lt_succ_of_lt (h.waits w hw)
    · exact Nat.lt_succ_of_lt (h.served s hs)
  | ask id =>
    simp only [Files.step]
    cases hs : m.sessions.lookup id with
    | none => exact h
    | some s => exact h.ask (Dict.mem_of_lookup hs)
  | download f => exact ⟨h.cache.getOrLoad f (Nat.le_refl _), h.session, h.waits, h.served⟩
  | start f => exact ⟨h.cache.start f, h.session, h.waits, h.served⟩
  | finish f read =>
    simp only [Files.step]
    cases hfin : m.cache.finish f read with
    | none => exact h
    | some r =>
      refine ⟨h.cache.finish hfin, h.session, fun w hw => ?_, fun s hs => ?_⟩
      · exact h.waits w (List.mem_filter.1 hw).1
      · rcases mem_answer hs with hs | ⟨-, hw⟩
        · exact h.served s hs
        · exact h.waits _ hw
  | uploaded f =>
    refine ⟨h.cache.mono (Nat.le_refl _) fun g => ?_, h.session, h.waits, h.served⟩
    show m.uploads g ≤ if g = f then m.uploads g + 1 else m.uploads g
    split <;> omega
  | reload maxBytes maxFileBytes enabled =>
    refine ⟨(h.cache.update maxBytes maxFileBytes enabled).mono (Nat.le_succ _)
      fun g => Nat.le_refl _, fun id g source hmem => ?_, h.waits, h.served⟩
    obtain ⟨h1, h2⟩ := h.session id g source hmem
    exact ⟨h1, Nat.le_succ_of_le h2⟩
  | invalidate name =>
    obtain ⟨hin, hen, hent⟩ := invalidate_cases m.cache name
    refine ⟨h.cache.sublist hent (hin ▸ List.Sublist.refl _) fun hoff => ?_, h.session, h.waits,
      h.served⟩
    have hnil := h.cache.off (hen.symm.trans hoff)
    rw [hnil] at hent
    exact List.sublist_nil.1 hent

/-! ## What keeps the cache coherent -/

/-- `get_or_load` finds neither data nor a load to wait for. -/
def FileCache.Misses (c : FileCache Nat Stamp) (f : Str) : Prop :=
  (c.enabled = false ∨ c.entries.lookup f = none) ∧ c.inflight.lookup f = none

section Coherence

variable {source : Nat} {uploads : Str → Nat} {c : FileCache Nat Stamp}

theorem Coherent.sublist (h : Coherent source uploads c) {c' : FileCache Nat Stamp}
    (hentries : c'.entries.Sublist c.entries) (hloads : c'.inflight.Sublist c.inflight) :
    Coherent source uploads c' :=
  ⟨fun f d hd => h.entry f d (hentries.subset hd), fun f l hl => h.load f l (hloads.subset hl)⟩

theorem coherent_getOrLoad_iff (hwf : CacheWf source uploads c) (h : Coherent source uploads c)
    (f : Str) (src : Nat) :
    Coherent source uploads (c.getOrLoad f src).1 ↔ (c.Misses f → source ≤ src) := by
  rcases getOrLoad_cases c f src with ⟨d, hen, hd, heq⟩ | ⟨-, l, hl, heq⟩ | ⟨hmiss, hnone, heq⟩ <;>
    rw [heq]
  · refine iff_of_true ⟨fun g d' he => ?_, h.load⟩ fun hm => ?_
    · exact h.entry g d' ((mem_putLast_of_lookup hwf.keys hd).1 he)
    · rcases hm.1 with hoff | hnone
      · rw [hen] at hoff
        cases hoff
      · rw [hd] at hnone
        cases hnone
  · refine iff_of_true h fun hm => ?_
    rw [hm.2] at hl
    cases hl
  · constructor
    · intro h' _
      exact (h'.load f ⟨src, none⟩ (by simp)).1
    · intro hsrc
      refine ⟨h.entry, fun g l hl => ?_⟩
      rcases List.mem_append.1 hl with hl | hl
      · exact h.load g l hl
      · obtain ⟨rfl, rfl⟩ := Prod.mk.inj (List.mem_singleton.1 hl)
        exact ⟨hsrc ⟨hmiss, hnone⟩, fun s hs => by cases hs⟩

theorem Coherent.start (h : Coherent source uploads c) (f : Str) :
    Coherent source uploads (c.start f fun src => ⟨src, uploads f⟩) := by
  refine ⟨h.entry, fun g l hl => ?_⟩
  obtain ⟨l₀, hl₀, hsrc, hstarted⟩ := mem_start c f hl
  rw [hsrc]
  refine ⟨(h.load g l₀ hl₀).1, fun s hs => ?_⟩
  rcases hstarted s hs with hs | ⟨rfl, rfl⟩
  · exact (h.load g l₀ hl₀).2 s hs
  · exact Nat.le_refl _

/-- What a load delivers is fresh if the load is. -/
theorem Coherent.finish (hwf : CacheWf source uploads c) (h : Coherent source uploads c) {f : Str}
    {read : Option Bytes} {c' : FileCache Nat Stamp} {data : Option (Data Stamp)}
    (hfin : c.finish f read = some (c', data)) : Coherent source uploads c' := by
  rcases finish_cases c f read with ⟨hnone, -⟩ | ⟨src, tag, hl, c'', heq, hin, hen, hent⟩
  · rw [hnone] at hfin
    cases hfin
  rw [heq] at hfin
  obtain ⟨rfl, -⟩ := Prod.mk.inj (Option.some.inj hfin)
  have hsub : c''.inflight.Sublist c.inflight := by
    rw [hin]
    exact List.filter_sublist
  have hmem := Dict.mem_of_lookup hl
  rcases hent with hsame | ⟨-, bytes, -, hput⟩
  · exact h.sublist (hsame ▸ List.Sublist.refl _) hsub
  refine ⟨fun g d hgd => ?_, fun g l hgl => h.load g l (hsub.subset hgl)⟩
  rcases mem_putLast.1 (hput.subset hgd) with ⟨he, -⟩ | heq
  · exact h.entry g d he
  · obtain ⟨rfl, rfl⟩ := Prod.mk.inj heq
    obtain ⟨hsrc, hup⟩ := h.load g _ hmem
    have htag := ((hwf.load g _ hmem).2 tag rfl).1
    exact ⟨by rw [htag]; exact hsrc, hup tag rfl⟩

/-- After an upload nothing of that name may be left, and no read of it may be under way. -/
theorem coherent_uploaded_iff (hwf : CacheWf source uploads c) (h : Coherent source uploads c)
    (f : Str) :
    Coherent source (fun g => if g = f then uploads g + 1 else uploads g) c ↔
      f ∉ c.entries.map (·.1) ∧ ∀ l, c.inflight.lookup f = some l → l.started = none := by
  constructor
  · intro h'
    refine ⟨fun hf => ?_, fun l hl => ?_⟩
    · obtain ⟨⟨g, d⟩, he, rfl⟩ := List.mem_map.1 hf
      have hfresh := (h'.entry g d he).2
      have hold := (hwf.entry g d he).2
      simp only [if_true] at hfresh
      omega
    · have hmem := Dict.mem_of_lookup hl
      cases hs : l.started with
      | none => rfl
      | some s =>
        have hfresh := (h'.load f l hmem).2 s hs
        have hold := ((hwf.load f l hmem).2 s hs).2
        simp only [if_true] at hfresh
        omega
  · rintro ⟨hentry, hload⟩
    refine ⟨fun g d he => ⟨(h.entry g d he).1, ?_⟩, fun g l hl => ⟨(h.load g l hl).1, ?_⟩⟩
    · have hne : g ≠ f := by
        rintro rfl
        exact hentry (List.mem_map_of_mem he)
      dsimp only
      rw [if_neg hne]
      exact (h.entry g d he).2
    · intro s hs
      by_cases hgf : g = f
      · subst hgf
        rw [hload l (Dict.lookup_of_mem hwf.loads hl)] at hs
        cases hs
      · rw [if_neg hgf]
        exact (h.load g l hl).2 s hs

/-- After a reload nothing may be left at all, and no load may be under way. -/
theorem coherent_reload_iff (hwf : CacheWf source uploads c) (maxBytes maxFileBytes : Int)
    (enabled : Bool) :
    Coherent (source + 1) uploads (c.update maxBytes maxFileBytes enabled) ↔
      (enabled = false ∨ c.entries = []) ∧ c.inflight = [] := by
  obtain ⟨hin, -, hent⟩ := update_cases (c := c) maxBytes maxFileBytes enabled
  constructor
  · intro h'
    have hloads : c.inflight = [] := by
      cases hc : c.inflight with
      | nil => rfl
      | cons e es =>
        have hmem : (e.1, e.2) ∈ c.inflight := by rw [hc]; exact List.mem_cons_self
        have hfresh := (h'.load e.1 e.2 (by rw [hin]; exact hmem)).1
        have hold := (hwf.load e.1 e.2 hmem).1
        omega
    refine ⟨?_, hloads⟩
    cases enabled with
    | false => exact .inl rfl
    | true =>
      right
      cases hc : c.entries with
      | nil => rfl
      | cons e es =>
        have hmem : (e.1, e.2) ∈ c.entries := by rw [hc]; exact List.mem_cons_self
        have hfresh := (h'.entry e.1 e.2 (by exact hmem)).1
        have hold := (hwf.entry e.1 e.2 hmem).1
        omega
  · rintro ⟨hempty, hloads⟩
    refine ⟨fun g d he => ?_, fun g l hl => ?_⟩
    · rw [hent] at he
      rcases hempty with rfl | hnil
      · cases he
      · rw [hnil] at he
        split at he <;> cases he
    · rw [hin, hloads] at hl
      cases hl

end Coherence

/-- Whatever changes what names denote comes when the cache has nothing to lose: an upload is done
    while its name is not cached and no read of it is under way; a reload comes while nothing is
    cached, or turns the cache off, and nothing is being loaded; and a session created before a
    reload begins no load after it. -/
def Files.Quiet (m : Files) : FilesEvent → Prop
  | .ask id => ∀ f source, m.sessions.lookup id = some (f, source) → m.cache.Misses f →
      source = m.source
  | .uploaded f => f ∉ m.cache.entries.map (·.1) ∧
      ∀ l, m.cache.inflight.lookup f = some l → l.started = none
  | .reload _ _ enabled => (enabled = false ∨ m.cache.entries = []) ∧ m.cache.inflight = []
  | .accept _ | .download _ | .start _ | .finish _ _ | .invalidate _ => True

/-- One step keeps the cache coherent exactly if it is quiet. -/
theorem coherent_step_iff {m : Files} (hwf : m.Wf) (h : Coherent m.source m.uploads m.cache)
    (e : FilesEvent) :
    Coherent (m.step e).source (m.step e).uploads (m.step e).cache ↔ m.Quiet e := by
  cases e with
  | accept f => exact iff_of_true h trivial
  | ask id =>
    simp only [Files.step, Files.Quiet]
    cases hs : m.sessions.lookup id with
    | none => exact iff_of_true h fun f source hfs => by cases hfs
    | some s =>
      obtain ⟨f, source⟩ := s
      have hle := (hwf.session id f source (Dict.mem_of_lookup hs)).2
      simp only [ask_cache, Option.some.injEq, Prod.mk.injEq]
      rw [coherent_getOrLoad_iff hwf.cache h]
      constructor
      · rintro hsrc f' source' ⟨rfl, rfl⟩ hmiss
        exact Nat.le_antisymm hle (hsrc hmiss)
      · intro hq hmiss
        exact Nat.le_of_eq (hq f source ⟨rfl, rfl⟩ hmiss).symm
  | download f =>
    exact iff_of_true ((coherent_getOrLoad_iff hwf.cache h f m.source).2 fun _ => Nat.le_refl _)
      trivial
  | start f => exact iff_of_true (h.start f) trivial
  | finish f read =>
    refine iff_of_true ?_ trivial
    simp only [Files.step]
    cases hfin : m.cache.finish f read with
    | none => exact h
    | some r => exact Coherent.finish hwf.cache h hfin
  | uploaded f => exact coherent_uploaded_iff hwf.cache h f
  | reload maxBytes maxFileBytes enabled =>
    exact coherent_reload_iff hwf.cache maxBytes maxFileBytes enabled
  | invalidate name =>
    obtain ⟨hin, -, hent⟩ := invalidate_cases m.cache name
    exact iff_of_true (h.sublist hent (hin ▸ List.Sublist.refl _)) trivial

/-! ## One download -/

/-- A session that asked for `f` when the source was `source` and `n` uploads to `f` were done: what
    it is given is fresh, and so is what it waits for. -/
structure Files.Follows (source n : Nat) (f : Str) (id : Nat) (m : Files) : Prop where
  served : ∀ d, (id, d) ∈ m.served → source ≤ d.tag.source ∧ n ≤ d.tag.uploads
  known : id < m.nextSession
  asked : m.sessions.lookup id = none
  waits : ∀ g, (id, g) ∈ m.waiting → g = f ∧ f ∈ m.cache.inflight.map (·.1)
  load : ∀ l, (id, f) ∈ m.waiting → (f, l) ∈ m.cache.inflight →
    source ≤ l.source ∧ ∀ s, l.started = some s → n ≤ s.uploads
  uploads : n ≤ m.uploads f

section Follow

variable {source n id : Nat} {f : Str} {m : Files}

/-- Another call of `get_or_load` leaves the load of `f` alone while it is waited for. -/
theorem Files.Follows.getOrLoad (h : m.Follows source n f id) (g : Str) (src : Nat) :
    (∀ g', (id, g') ∈ m.waiting →
      g' = f ∧ f ∈ (m.cache.getOrLoad g src).1.inflight.map (·.1)) ∧
    ∀ l, (id, f) ∈ m.waiting → (f, l) ∈ (m.cache.getOrLoad g src).1.inflight →
      source ≤ l.source ∧ ∀ s, l.started = some s → n ≤ s.uploads := by
  rcases getOrLoad_cases m.cache g src with ⟨d, -, -, heq⟩ | ⟨-, l, -, heq⟩ | ⟨-, hnone, heq⟩ <;>
    rw [heq]
  · exact ⟨h.waits, h.load⟩
  · exact ⟨h.waits, h.load⟩
  have hfree := Dict.lookup_eq_none_iff_not_mem.1 hnone
  refine ⟨fun g' hw => ?_, fun l hw hl => ?_⟩
  · obtain ⟨h1, h2⟩ := h.waits g' hw
    exact ⟨h1, by rw [List.map_append]; exact List.mem_append_left _ h2⟩
  · rcases List.mem_append.1 hl with hl | hl
    · exact h.load l hw hl
    · obtain ⟨rfl, -⟩ := Prod.mk.inj (List.mem_singleton.1 hl)
      exact absurd (h.waits f hw).2 hfree

/-- Nor does a change of the cache that is not about its loads. -/
theorem Files.Follows.cached (h : m.Follows source n f id) {c : FileCache Nat Stamp}
    (hin : c.inflight = m.cache.inflight) :
    ({ m with cache := c } : Files).Follows source n f id := by
  refine ⟨h.served, h.known, h.asked, fun g hw => ?_, fun l hw hl => ?_, h.uploads⟩
  · show g = f ∧ f ∈ c.inflight.map (·.1)
    rw [hin]
    exact h.waits g hw
  · rw [hin] at hl
    exact h.load l hw hl

/-- The first read of ANOTHER session: this one has asked before. -/
theorem Files.Follows.asks (h : m.Follows source n f id) (id' : Nat) :
    (m.step (.ask id')).Follows source n f id := by
  simp only [Files.step]
  cases hs : m.sessions.lookup id' with
  | none => exact h
  | some s =>
    obtain ⟨g, src⟩ := s
    have hne : id ≠ id' := by
      rintro rfl
      rw [h.asked] at hs
      cases hs
    obtain ⟨hwaits, hload⟩ := h.getOrLoad g src
    have hasked : (m.sessions.filter fun s => s.1 ≠ id').lookup id = none := by
      rw [Dict.lookup_eq_none_iff_not_mem]
      intro hmem
      exact Dict.lookup_eq_none_iff_not_mem.1 h.asked
        ((List.filter_sublist.map _).subset hmem)
    cases hget : m.cache.getOrLoad g src with
    | mk c data =>
    rw [hget] at hwaits hload
    cases data with
    | some d =>
      dsimp only
      rw [ask_hit hget]
      refine ⟨fun d' hd' => ?_, h.known, hasked, hwaits, hload, h.uploads⟩
      rcases List.mem_cons.1 hd' with heq | hd'
      · exact absurd (Prod.mk.inj heq).1 hne
      · exact h.served d' hd'
    | none =>
      dsimp only
      rw [ask_wait hget]
      have hother : ∀ g', (id, g') ∈ (id', g) :: m.waiting → (id, g') ∈ m.waiting := by
        intro g' hw
        rcases List.mem_cons.1 hw with heq | hw
        · exact absurd (Prod.mk.inj heq).1 hne
        · exact hw
      exact ⟨h.served, h.known, hasked, fun g' hw => hwaits g' (hother g' hw),
        fun l hw hl => hload l (hother f hw) hl, h.uploads⟩

/-- A load that starts now sees every upload that is done. -/
theorem Files.Follows.starts (h : m.Follows source n f id) (g : Str) :
    (m.step (.start g)).Follows source n f id := by
  refine ⟨h.served, h.known, h.asked, fun g' hw => ?_, fun l hw hl => ?_, h.uploads⟩
  · simp only [Files.step, keys_start]
    exact h.waits g' hw
  obtain ⟨l₀, hl₀, hsrc, hstarted⟩ := mem_start m.cache g hl
  rw [hsrc]
  refine ⟨(h.load l₀ hw hl₀).1, fun s hs => ?_⟩
  -- a load that runs already keeps the uploads it started with
  rcases hstarted s hs with hs | ⟨rfl, rfl⟩
  · exact (h.load l₀ hw hl₀).2 s hs
  · exact h.uploads

/-- The end of a load answers the sessions that wait for it, and only these. -/
theorem Files.Follows.finishes (hwf : m.Wf) (h : m.Follows source n f id) (g : Str)
    (read : Option Bytes) : (m.step (.finish g read)).Follows source n f id := by
  simp only [Files.step]
  rcases finish_cases m.cache g read with ⟨hnone, -⟩ | ⟨src, tag, hl, c, heq, hin, -, -⟩
  · rw [hnone]
    exact h
  rw [heq]
  have hkeep : ∀ g', (id, g') ∈ m.waiting.filter (fun w => w.2 ≠ g) →
      (id, g') ∈ m.waiting ∧ g' ≠ g := by
    intro g' hw
    obtain ⟨h1, h2⟩ := List.mem_filter.1 hw
    exact ⟨h1, by simpa using h2⟩
  refine ⟨fun d hd => ?_, h.known, h.asked, fun g' hw => ?_, fun l hw hl' => ?_, h.uploads⟩
  · rcases mem_answer hd with hd | ⟨hdata, hw⟩
    · exact h.served d hd
    · -- it waited for this load
      obtain ⟨rfl, -⟩ := h.waits g hw
      have hmem := Dict.mem_of_lookup hl
      obtain ⟨hsrc, hup⟩ := h.load _ hw hmem
      have htag : d.tag = tag := by
        cases read with
        | none => cases hdata
        | some bytes => exact (congrArg Data.tag (Option.some.inj hdata)).symm
      have hold := ((hwf.cache.load g _ hmem).2 tag rfl).1
      rw [htag, hold]
      exact ⟨hsrc, hup tag rfl⟩
  · obtain ⟨hw, hne⟩ := hkeep g' hw
    obtain ⟨rfl, hmem⟩ := h.waits g' hw
    refine ⟨rfl, ?_⟩
    obtain ⟨e, he, rfl⟩ := List.mem_map.1 hmem
    show e.1 ∈ c.inflight.map (·.1)
    rw [hin]
    exact List.mem_map_of_mem (List.mem_filter.2 ⟨he, by simpa using hne⟩)
  · have hl' : (f, l) ∈ c.inflight := hl'
    rw [hin] at hl'
    exact h.load l (hkeep f hw).1 (List.mem_filter.1 hl').1

theorem Files.Follows.step (hwf : m.Wf) (h : m.Follows source n f id) (e : FilesEvent) :
    (m.step e).Follows source n f id := by
  cases e with
  | accept g =>
    refine ⟨h.served, Nat.lt_succ_of_lt h.known, ?_, h.waits, h.load, h.uploads⟩
    have hne : (id == m.nextSession) = false := beq_false_of_ne (Nat.ne_of_lt h.known)
    show ((m.nextSession, g, m.source) :: m.sessions).lookup id = none
    rw [List.lookup_cons, hne]
    exact h.asked
  | ask id' => exact h.asks id'
  | download g =>
    obtain ⟨hwaits, hload⟩ := h.getOrLoad g m.source
    exact ⟨h.served, h.known, h.asked, hwaits, hload, h.uploads⟩
  | start g => exact h.starts g
  | finish g read => exact h.finishes hwf g read
  | uploaded g =>
    refine ⟨h.served, h.known, h.asked, h.waits, h.load, ?_⟩
    have hup := h.uploads
    show n ≤ if f = g then m.uploads f + 1 else m.uploads f
    split <;> omega
  | reload maxBytes maxFileBytes enabled =>
    have hcached := h.cached (update_cases (c := m.cache) maxBytes maxFileBytes enabled).1
    exact ⟨hcached.served, hcached.known, hcached.asked, hcached.waits, hcached.load, h.uploads⟩
  | invalidate name => exact h.cached (invalidate_cases m.cache name).1

/-- However the run goes on. -/
theorem Files.Follows.run (hwf : m.Wf) (h : m.Follows source n f id) (es : List FilesEvent) :
    (run Files.step m es).Follows source n f id := by
  induction es generalizing m with
  | nil => exact h
  | cons e es ih => exact ih (hwf.step e) (h.step hwf e)

end Follow

/-- A session that is created and asks at once. -/
theorem run_accept_ask (m : Files) (f : Str) (rest : List FilesEvent) :
    run Files.step m (.accept f :: .ask m.nextSession :: rest) =
      run Files.step ((m.step (.accept f)).ask m.nextSession f m.source) rest := by
  have hask : (m.step (.accept f)).step (.ask m.nextSession) =
      (m.step (.accept f)).ask m.nextSession f m.source := by
    simp [Files.step]
  rw [run_cons, run_cons, hask]

/-- Who waits is given what the read returns. -/
theorem served_finish {m : Files} {id : Nat} {f : Str} {src : Nat} {s : Stamp}
    (hl : m.cache.inflight.lookup f = some ⟨src, some s⟩) (hw : (id, f) ∈ m.waiting) :
    (id, ⟨[], s⟩) ∈ (m.step (.finish f (some []))).served := by
  simp only [Files.step]
  rcases finish_cases m.cache f (some []) with ⟨-, hno⟩ | ⟨src', tag, hl', c, heq, -⟩
  · exact absurd hl (hno src s)
  rw [hl] at hl'
  obtain ⟨rfl, rfl⟩ : src = src' ∧ s = tag := by simpa using hl'
  rw [heq]
  refine List.mem_append_left _ ?_
  simp only [Option.map_some, Option.getD_some, List.mem_map, List.mem_filter, Prod.mk.injEq,
    and_true]
  exact ⟨id, ⟨(id, f), ⟨hw, by simp⟩, rfl⟩, rfl⟩

/-- What a load under way may deliver, a download that starts now is given. -/
theorem served_load {m : Files} (hwf : m.Wf) {f : Str} {l : Load Nat Stamp}
    (hl : (f, l) ∈ m.cache.inflight) :
    ∃ rest, (m.nextSession, ⟨[], l.started.getD ⟨l.source, m.uploads f⟩⟩) ∈
      (run Files.step m (.accept f :: .ask m.nextSession :: rest)).served := by
  have hlook := Dict.lookup_of_mem hwf.cache.loads hl
  have hwait : m.cache.getOrLoad f m.source = (m.cache, none) := by
    rcases getOrLoad_cases m.cache f m.source with
      ⟨d, -, hd, -⟩ | ⟨-, -, -, heq⟩ | ⟨-, hnone, -⟩
    · refine absurd (List.mem_map_of_mem hl) (hwf.cache.apart f ?_)
      exact List.mem_map.2 ⟨(f, d), Dict.mem_of_lookup hd, rfl⟩
    · exact heq
    · rw [hlook] at hnone
      cases hnone
  refine ⟨[.start f, .finish f (some [])], ?_⟩
  rw [run_accept_ask, ask_wait (m := m.step (.accept f)) hwait]
  exact served_finish (lookup_start m.cache f hlook) List.mem_cons_self

/-- A download that starts now is given fresh bytes exactly if the cache is coherent. -/
theorem servesFresh_iff {m : Files} (hwf : m.Wf) :
    m.ServesFresh ↔ Coherent m.source m.uploads m.cache := by
  constructor
  · intro h
    refine ⟨fun f d hd => ?_, fun f l hl => ?_⟩
    · have hlook := Dict.lookup_of_mem hwf.cache.keys hd
      refine h f [] d ?_
      rw [run_accept_ask]
      rcases getOrLoad_cases m.cache f m.source with ⟨d', -, hd', heq⟩ | ⟨hmiss, -⟩ | ⟨hmiss, -⟩
      · rw [hlook] at hd'
        obtain rfl := Option.some.inj hd'
        rw [ask_hit (m := m.step (.accept f)) heq]
        exact List.mem_cons_self
      · exact absurd (List.mem_map_of_mem hd) (hwf.cache.not_mem hmiss)
      · exact absurd (List.mem_map_of_mem hd) (hwf.cache.not_mem hmiss)
    · obtain ⟨rest, hserved⟩ := served_load hwf hl
      have hfresh := h f rest _ hserved
      cases hst : l.started with
      | none =>
        rw [hst] at hfresh
        exact ⟨hfresh.1, fun s hs => by cases hs⟩
      | some s₀ =>
        rw [hst] at hfresh
        have hsrc := ((hwf.cache.load f l hl).2 s₀ hst).1
        refine ⟨by rw [← hsrc]; exact hfresh.1, fun s hs => ?_⟩
        cases hs
        exact hfresh.2
  · intro h f rest d hd
    have hwf₁ := hwf.step (.accept f)
    have hwf₂ : ((m.step (.accept f)).ask m.nextSession f m.source).Wf :=
      hwf₁.ask List.mem_cons_self
    have hgone : ((m.step (.accept f)).sessions.filter fun s => s.1 ≠ m.nextSession).lookup
        m.nextSession = none := by
      rw [Dict.lookup_filter _ (fun k => decide (k ≠ m.nextSession))]
      simp
    have hnone : ∀ g, (m.nextSession, g) ∉ m.waiting :=
      fun g hw => Nat.lt_irrefl _ (hwf.waits _ hw)
    have hunserved : ∀ d, (m.nextSession, d) ∉ m.served :=
      fun d hd => Nat.lt_irrefl _ (hwf.served _ hd)
    have hcoh := (coherent_getOrLoad_iff hwf.cache h f m.source).2 fun _ => Nat.le_refl _
    rw [run_accept_ask] at hd
    suffices hfollows : ((m.step (.accept f)).ask m.nextSession f m.source).Follows m.source
        (m.uploads f) f m.nextSession from (hfollows.run hwf₂ rest).served d hd
    rcases getOrLoad_cases m.cache f m.source with
      ⟨d', -, hd', heq⟩ | ⟨-, l, hl, heq⟩ | ⟨-, -, heq⟩
    · rw [ask_hit (m := m.step (.accept f)) heq]
      refine ⟨fun d hd => ?_, Nat.lt_succ_self _, hgone, fun g hw => absurd hw (hnone g),
        fun l hw => absurd hw (hnone f), Nat.le_refl _⟩
      rcases List.mem_cons.1 hd with heq | hd
      · rw [(Prod.mk.inj heq).2]
        exact h.entry f d' (Dict.mem_of_lookup hd')
      · exact absurd hd (hunserved d)
    · rw [ask_wait (m := m.step (.accept f)) heq]
      refine ⟨fun d hd => absurd hd (hunserved d), Nat.lt_succ_self _, hgone, fun g hw => ?_,
        fun l _ hl => h.load f l hl, Nat.le_refl _⟩
      rcases List.mem_cons.1 hw with heq | hw
      · exact ⟨(Prod.mk.inj heq).2, List.mem_map.2 ⟨(f, l), Dict.mem_of_lookup hl, rfl⟩⟩
      · exact absurd hw (hnone g)
    · rw [heq] at hcoh
      rw [ask_wait (m := m.step (.accept f)) heq]
      refine ⟨fun d hd => absurd hd (hunserved d), Nat.lt_succ_self _, hgone, fun g hw => ?_,
        fun l _ hl => hcoh.load f l hl, Nat.le_refl _⟩
      rcases List.mem_cons.1 hw with heq | hw
      · exact ⟨(Prod.mk.inj heq).2, by simp⟩
      · exact absurd hw (hnone g)

/-- **The cache and what changes beneath it.**  Along a run with any interleaving of downloads,
    uploads, reloads and loads, every download that starts in any of its states is given bytes read
    from the current source and after every upload of its name, however the run goes on, exactly
    when uploads and reloads find nothing in the cache that they make stale. -/
theorem downloads_fresh_iff (maxBytes maxFileBytes : Int) (enabled : Bool) (es : List FilesEvent) :
    Always Files.step Files.ServesFresh (.new maxBytes maxFileBytes enabled) es ↔
      Along Files.step Files.Quiet (.new maxBytes maxFileBytes enabled) es := by
  have hnew : (Files.new maxBytes maxFileBytes enabled).Wf := by
    refine ⟨⟨List.nodup_nil, List.nodup_nil, ?_, fun _ => rfl, ?_, ?_⟩, ?_, ?_, ?_⟩ <;>
      simp [Files.new, FileCache.new]
  have hcoh : Coherent 0 (fun _ => 0) (Files.new maxBytes maxFileBytes enabled).cache := by
    constructor <;> simp [Files.new, FileCache.new]
  have hwf : Always Files.step Files.Wf (.new maxBytes maxFileBytes enabled) es :=
    always_of_step (fun _ e hm => hm.step e) hnew es
  constructor
  · intro h
    refine (h.and hwf).along fun m e hm hm' => ?_
    exact (coherent_step_iff hm.2 ((servesFresh_iff hm.2).1 hm.1) e).1
      ((servesFresh_iff hm'.2).1 hm'.1)
  · intro h
    have hall : Always Files.step
        (fun m => m.Wf ∧ Coherent m.source m.uploads m.cache)
        (.new maxBytes maxFileBytes enabled) es :=
      Along.always (fun m e hm hq => ⟨hm.1.step e, (coherent_step_iff hm.1 hm.2 e).2 hq⟩)
        ⟨hnew, hcoh⟩ h
    exact hall.mono fun m hm => (servesFresh_iff hm.1).2 hm.2

/-- A file is downloaded and cached, then an upload to its name is done: the next download is given
    the bytes of before.  So it is if the source is replaced instead. -/
theorem upload_not_seen :
    let seen := [.accept (str "f"), .ask 0, .start (str "f"), .finish (str "f") (some [1])]
    let more := [.accept (str "f"), .ask 1]
    (run Files.step (.new 100 100 true) (seen ++ [.uploaded (str "f")] ++ more)).served =
      [(1, ⟨[1], 0, 0⟩), (0, ⟨[1], 0, 0⟩)] ∧
    ¬ Always Files.step Files.ServesFresh (.new 100 100 true) (seen ++ [.uploaded (str "f")]) ∧
    ¬ Always Files.step Files.ServesFresh (.new 100 100 true) (seen ++ [.reload 100 100 true]) := by
  intro seen more
  refine ⟨by decide, fun h => ?_, fun h => ?_⟩
  · have hfresh := (h.last (str "f") [] ⟨[1], 0, 0⟩ (by decide)).2
    revert hfresh
    decide
  · have hfresh := (h.last (str "f") [] ⟨[1], 0, 0⟩ (by decide)).1
    revert hfresh
    decide

end Nishro.Py
