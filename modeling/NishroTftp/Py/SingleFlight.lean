import Mathlib.Data.List.Nodup
import NishroTftp.Lib.Runs
import NishroTftp.Py.CacheBudget
/-
  Concurrent misses of one name (`get_or_load` and `_load` of `files/cache.py`).

  Here the FUTURES are objects, numbered in the order of their creation, and so are the tasks that
  run `_load`: a task is created, calls `source.read`, and when the read is over it runs to its end.
  A caller waits for a future, is woken when the future is done, and returns when the event loop
  gets to it.  Taking a free `asyncio.Lock` does not suspend, and no one suspends while holding it,
  so a call up to its wait and a load after its read are one step each.

  The invariant is that `_inflight` lists exactly the tasks, under the names they load: so there is
  one task for a name, its future is pending, and whoever waits for a future waits for a task.

  asyncio tells a future with an exception from a CANCELLED one.  A read ends with bytes, with None
  or with an exception here; nobody is cancelled.

  The last section connects this machine with `FileCache`, which has no futures.
-/
namespace Nishro.Py

open Runs

variable {σ : Type}

/-! ## Futures, tasks and callers -/

/-- How a `source.read` ends. -/
inductive ReadEnd
  | data (bytes : Bytes)
  | nothing
  | raised
deriving DecidableEq, Repr

/-- What is returned for it: None where the read has failed. -/
def ReadEnd.answer : ReadEnd → Option Bytes
  | .data bytes => some bytes
  | .nothing => none
  | .raised => none

inductive Fut
  | pending
  | result (data : Option Bytes)
  | exception
deriving DecidableEq, Repr

/-- `fut.set_result(data)`, `fut.set_result(None)`, `fut.set_exception(e)`. -/
def ReadEnd.settle : ReadEnd → Fut
  | .data bytes => .result (some bytes)
  | .nothing => .result none
  | .raised => .exception

/-- A task that runs `_load(file, source, fut)`; `reading` while it waits for `source.read`. -/
structure LoadTask (σ : Type) where
  file : Str
  source : σ
  fut : Nat
  reading : Bool
deriving DecidableEq, Repr

inductive CallState
  | waiting
  /-- the future is done, and the loop has been told to run the caller -/
  | woken
  | returned (data : Option Bytes)
deriving DecidableEq, Repr

/-- A call of `get_or_load`, with the future it has joined unless the cache had the answer. -/
structure Caller where
  file : Str
  fut : Option Nat
  state : CallState
deriving DecidableEq, Repr

/-- A read that is over. -/
structure Landing where
  fut : Nat
  file : Str
  out : ReadEnd
deriving DecidableEq, Repr

structure Flights (σ : Type) where
  /-- the entries and the limits; `_inflight` is kept apart -/
  shelf : FileCache σ Unit
  /-- `_inflight` -/
  inflight : List (Str × Nat)
  tasks : List (LoadTask σ)
  futures : List Fut
  callers : List Caller
  landed : List Landing

def Flights.new (maxBytes maxFileBytes : Int) (enabled : Bool) : Flights σ :=
  ⟨.new maxBytes maxFileBytes enabled, [], [], [], [], []⟩

inductive FlightEvent (σ : Type)
  | call (f : Str) (source : σ)
  /-- the task of this future runs for the first time, and calls `source.read` -/
  | depart (fut : Nat)
  /-- its read is over -/
  | land (fut : Nat) (out : ReadEnd)
  /-- the loop runs this caller, if it has been woken -/
  | resume (i : Nat)
  | invalidate (name : Option Str)
  | update (maxBytes maxFileBytes : Int) (enabled : Bool)

/-- `get_or_load` up to its wait. -/
def Flights.call (s : Flights σ) (f : Str) (source : σ) : Flights σ :=
  match if s.shelf.enabled then s.shelf.peek f else none with
  | some (d, shelf) =>
    { s with shelf, callers := s.callers ++ [⟨f, none, .returned (some d.bytes)⟩] }
  | none =>
    match s.inflight.lookup f with
    | some k => { s with callers := s.callers ++ [⟨f, some k, .waiting⟩] }
    | none =>
      let k := s.futures.length
      { s with
        futures := s.futures ++ [.pending]
        inflight := s.inflight ++ [(f, k)]
        tasks := s.tasks ++ [⟨f, source, k, false⟩]
        callers := s.callers ++ [⟨f, some k, .waiting⟩] }

/-- `_load` up to its wait. -/
def Flights.depart (s : Flights σ) (k : Nat) : Flights σ :=
  { s with tasks := s.tasks.map fun t => if t.fut = k then { t with reading := true } else t }

/-- What `_load` puts into the cache. -/
def FileCache.keep {τ : Type} (c : FileCache σ τ) (f : Str) (tag : τ) : ReadEnd → FileCache σ τ
  | .data bytes =>
    if c.enabled ∧ (bytes.length : Int) ≤ c.maxFileBytes then c.store f ⟨bytes, tag⟩ else c
  | _ => c

/-- Those who wait for the future are woken. -/
def Caller.wake (k : Nat) (c : Caller) : Caller :=
  if c.fut = some k ∧ c.state = .waiting then { c with state := .woken } else c

/-- `_load` after its wait: the future is settled, and `finally` takes the name out. -/
def Flights.over (s : Flights σ) (t : LoadTask σ) (out : ReadEnd) : Flights σ :=
  { s with
    shelf := s.shelf.keep t.file () out
    futures := s.futures.set t.fut out.settle
    callers := s.callers.map (Caller.wake t.fut)
    inflight := s.inflight.filter fun e => e.1 ≠ t.file
    tasks := s.tasks.filter fun t' => t'.fut ≠ t.fut
    landed := ⟨t.fut, t.file, out⟩ :: s.landed }

/-- The read of a task is over, if there is such a read. -/
def Flights.land (s : Flights σ) (k : Nat) (out : ReadEnd) : Flights σ :=
  match s.tasks.find? fun t => t.fut = k && t.reading with
  | none => s
  | some t => s.over t out

/-- `return await fut`, or None if that raises. -/
def Caller.resume (futures : List Fut) (c : Caller) : Caller :=
  match c.state, c.fut.bind (futures[·]?) with
  | .woken, some (.result data) => { c with state := .returned data }
  | .woken, some .exception => { c with state := .returned none }
  | _, _ => c

def Flights.step (s : Flights σ) : FlightEvent σ → Flights σ
  | .call f source => s.call f source
  | .depart k => s.depart k
  | .land k out => s.land k out
  | .resume i => { s with callers := s.callers.modify i (Caller.resume s.futures) }
  | .invalidate name => { s with shelf := s.shelf.invalidate name }
  | .update maxBytes maxFileBytes enabled =>
    { s with shelf := s.shelf.update maxBytes maxFileBytes enabled }

/-! ## What the callers are promised -/

structure Flights.Coalesced (s : Flights σ) : Prop where
  /-- one read of a name at a time -/
  single : ∀ f, (s.tasks.filter fun t => t.file = f ∧ t.reading = true).length ≤ 1
  /-- a read ends once -/
  once : (s.landed.map (·.fut)).Nodup
  /-- who has joined a load and returned was given the outcome of that very read, of its own file -/
  exact : ∀ c ∈ s.callers, ∀ k r, c.fut = some k → c.state = .returned r →
    ∃ out, ⟨k, c.file, out⟩ ∈ s.landed ∧ r = out.answer
  /-- who waits, waits for a load of its own file that is not over -/
  unstuck : ∀ c ∈ s.callers, ∀ k, c.fut = some k → c.state = .waiting →
    (∃ t ∈ s.tasks, t.file = c.file ∧ t.fut = k) ∧ k ∉ s.landed.map (·.fut)
  /-- who has been woken returns as soon as the loop runs it -/
  served : ∀ i c k, s.callers[i]? = some c → c.fut = some k → c.state = .woken →
    ∃ out, ⟨k, c.file, out⟩ ∈ s.landed ∧
      (s.step (.resume i)).callers[i]? = some { c with state := .returned out.answer }
  /-- when a read is over, `_inflight` has no entry for its name -/
  cleared : ∀ t ∈ s.tasks, t.reading = true → ∀ out,
    (s.step (.land t.fut out)).inflight.lookup t.file = none ∧
      ⟨t.fut, t.file, out⟩ ∈ (s.step (.land t.fut out)).landed

/-! ## The invariant -/

/-- What a caller is owed by the loads under way and the reads that are over. -/
def Caller.Owed (tasks : List (LoadTask σ)) (landed : List Landing) (c : Caller) : Prop :=
  ∀ k, c.fut = some k →
    match c.state with
    | .waiting => ∃ t ∈ tasks, t.file = c.file ∧ t.fut = k
    | .woken => ∃ out, ⟨k, c.file, out⟩ ∈ landed
    | .returned r => ∃ out, ⟨k, c.file, out⟩ ∈ landed ∧ r = out.answer

structure Flights.Inv (s : Flights σ) : Prop where
  /-- `_inflight` lists the tasks -/
  listed : s.inflight = s.tasks.map fun t => (t.file, t.fut)
  files : (s.tasks.map (·.file)).Nodup
  futs : (s.tasks.map (·.fut)).Nodup
  unsettled : ∀ t ∈ s.tasks, s.futures[t.fut]? = some .pending
  settled : ∀ l ∈ s.landed, s.futures[l.fut]? = some l.out.settle
  once : (s.landed.map (·.fut)).Nodup
  owed : ∀ c ∈ s.callers, c.Owed s.tasks s.landed

section Inv

variable {s : Flights σ}

theorem settle_ne_pending (out : ReadEnd) : out.settle ≠ .pending := by
  cases out <;> exact fun h => nomatch h

variable {t : LoadTask σ}

/-- A load that is under way is not over. -/
theorem Flights.Inv.not_landed (h : s.Inv) (ht : t ∈ s.tasks) : t.fut ∉ s.landed.map (·.fut) := by
  intro hmem
  obtain ⟨l, hl, heq⟩ := List.mem_map.1 hmem
  have hsettled := h.settled l hl
  rw [heq, h.unsettled t ht] at hsettled
  exact settle_ne_pending l.out (Option.some.inj hsettled).symm

theorem Flights.Inv.fut_lt (h : s.Inv) (ht : t ∈ s.tasks) : t.fut < s.futures.length :=
  (List.getElem?_eq_some_iff.1 (h.unsettled t ht)).1

theorem Flights.Inv.landed_lt (h : s.Inv) {l : Landing} (hl : l ∈ s.landed) :
    l.fut < s.futures.length :=
  (List.getElem?_eq_some_iff.1 (h.settled l hl)).1

/-- A name and a future are one task. -/
theorem Flights.Inv.file_eq_iff (h : s.Inv) {t t' : LoadTask σ} (ht : t ∈ s.tasks)
    (ht' : t' ∈ s.tasks) : t'.file = t.file ↔ t'.fut = t.fut := by
  constructor
  · intro heq
    rw [List.inj_on_of_nodup_map h.files ht' ht heq]
  · intro heq
    rw [List.inj_on_of_nodup_map h.futs ht' ht heq]

variable {c : Caller}

/-- More loads and more landings owe a caller no less. -/
theorem Caller.Owed.mono {tasks tasks' : List (LoadTask σ)} {landed landed' : List Landing}
    (h : c.Owed tasks landed) (ht : ∀ t ∈ tasks, ∃ t' ∈ tasks', t'.file = t.file ∧ t'.fut = t.fut)
    (hl : ∀ l ∈ landed, l ∈ landed') : c.Owed tasks' landed' := by
  intro k hk
  have howed := h k hk
  cases hst : c.state with
  | waiting =>
    rw [hst] at howed
    obtain ⟨t, hmem, hfile, hfut⟩ := howed
    obtain ⟨t', hmem', hfile', hfut'⟩ := ht t hmem
    exact ⟨t', hmem', hfile'.trans hfile, hfut'.trans hfut⟩
  | woken =>
    rw [hst] at howed
    obtain ⟨out, hout⟩ := howed
    exact ⟨out, hl _ hout⟩
  | returned r =>
    rw [hst] at howed
    obtain ⟨out, hout, hr⟩ := howed
    exact ⟨out, hl _ hout, hr⟩

theorem inv_new (maxBytes maxFileBytes : Int) (enabled : Bool) :
    (Flights.new maxBytes maxFileBytes enabled : Flights σ).Inv := by
  constructor <;> simp [Flights.new]

/-- A new caller, and nothing else. -/
theorem Flights.Inv.join (h : s.Inv) (hc : c.Owed s.tasks s.landed) (shelf : FileCache σ Unit) :
    { s with shelf, callers := s.callers ++ [c] }.Inv := by
  refine ⟨h.listed, h.files, h.futs, h.unsettled, h.settled, h.once, fun c' hc' => ?_⟩
  rcases List.mem_append.1 hc' with hold | hnew
  · exact h.owed c' hold
  · rw [List.mem_singleton.1 hnew]
    exact hc

/-- A new load, with the caller that began it. -/
theorem Flights.Inv.begin (h : s.Inv) {f : Str} (source : σ) (hf : s.inflight.lookup f = none) :
    ({ s with
      futures := s.futures ++ [.pending]
      inflight := s.inflight ++ [(f, s.futures.length)]
      tasks := s.tasks ++ [⟨f, source, s.futures.length, false⟩]
      callers := s.callers ++ [⟨f, some s.futures.length, .waiting⟩] } : Flights σ).Inv := by
  have hfile : f ∉ s.tasks.map (·.file) := by
    have hkeys : f ∉ s.inflight.map (·.1) := Dict.lookup_eq_none_iff_not_mem.1 hf
    rw [h.listed, List.map_map] at hkeys
    exact hkeys
  have hfut : s.futures.length ∉ s.tasks.map (·.fut) := by
    intro hmem
    obtain ⟨t, ht, heq⟩ := List.mem_map.1 hmem
    exact Nat.ne_of_lt (h.fut_lt ht) heq
  have hadd : ∀ {α : Type} (l : List α) (a : α), l.Nodup → a ∉ l → (l ++ [a]).Nodup := by
    intro α l a hl ha
    refine List.nodup_append.2 ⟨hl, by simp, fun x hx y hy heq => ha ?_⟩
    rw [← List.mem_singleton.1 hy, ← heq]
    exact hx
  refine ⟨?_, ?_, ?_, ?_, ?_, h.once, ?_⟩
  · simp [h.listed]
  · rw [List.map_append]
    exact hadd _ _ h.files hfile
  · rw [List.map_append]
    exact hadd _ _ h.futs hfut
  · intro t ht
    rcases List.mem_append.1 ht with hold | hnew
    · rw [List.getElem?_append_left (h.fut_lt hold)]
      exact h.unsettled t hold
    · rw [List.mem_singleton.1 hnew]
      exact List.getElem?_concat_length
  · intro l hl
    rw [List.getElem?_append_left (h.landed_lt hl)]
    exact h.settled l hl
  · intro c hc
    rcases List.mem_append.1 hc with hold | hnew
    · exact (h.owed c hold).mono (fun t ht => ⟨t, List.mem_append_left _ ht, rfl, rfl⟩) fun l hl => hl
    · rw [List.mem_singleton.1 hnew]
      intro k hk
      exact ⟨_, List.mem_append_right _ (List.mem_singleton.2 rfl), rfl, Option.some.inj hk⟩

theorem Flights.Inv.call (h : s.Inv) (f : Str) (source : σ) : (s.call f source).Inv := by
  unfold Flights.call
  split
  · exact h.join (fun k hk => by cases hk) _
  split
  · rename_i k hk
    refine h.join (fun k' hk' => ?_) _
    obtain rfl := Option.some.inj hk'
    have hmem := Dict.mem_of_lookup hk
    rw [h.listed] at hmem
    obtain ⟨t, ht, heq⟩ := List.mem_map.1 hmem
    obtain ⟨hfile, hfut⟩ := Prod.mk.inj heq
    exact ⟨t, ht, hfile, hfut⟩
  · rename_i hnone
    exact h.begin source hnone

theorem Flights.Inv.depart (h : s.Inv) (k : Nat) : (s.depart k).Inv := by
  have hkeeps : ∀ {α : Type} (g : LoadTask σ → α), (∀ t, g { t with reading := true } = g t) →
      (s.tasks.map fun t => if t.fut = k then { t with reading := true } else t).map g =
        s.tasks.map g := by
    intro α g hg
    rw [List.map_map]
    refine List.map_congr_left fun t _ => ?_
    rw [Function.comp_apply]
    split
    · exact hg t
    · rfl
  refine ⟨?_, ?_, ?_, ?_, h.settled, h.once, ?_⟩
  · exact h.listed.trans (hkeeps _ fun _ => rfl).symm
  · rw [Flights.depart, hkeeps (·.file) fun _ => rfl]
    exact h.files
  · rw [Flights.depart, hkeeps (·.fut) fun _ => rfl]
    exact h.futs
  · intro t ht
    obtain ⟨t₀, ht₀, rfl⟩ := List.mem_map.1 ht
    have := h.unsettled t₀ ht₀
    split
    · exact this
    · exact this
  · intro c hc
    refine (h.owed c hc).mono (fun t ht => ?_) fun l hl => hl
    refine ⟨_, List.mem_map_of_mem ht, ?_⟩
    split
    · exact ⟨rfl, rfl⟩
    · exact ⟨rfl, rfl⟩

/-- The loads that stay when one is over, and their entries of `_inflight`. -/
theorem Flights.Inv.filter_listed (h : s.Inv) (ht : t ∈ s.tasks) :
    s.inflight.filter (fun e => e.1 ≠ t.file) =
      (s.tasks.filter fun t' => t'.fut ≠ t.fut).map fun t' => (t'.file, t'.fut) := by
  rw [h.listed, List.filter_map]
  congr 1
  refine List.filter_congr fun t' ht' => ?_
  have := h.file_eq_iff ht ht'
  simp only [Function.comp_apply, ne_eq, decide_not, decide_eq_decide.2 this]

/-- Waking those who wait for a read that is over. -/
theorem Flights.Inv.owed_wake (h : s.Inv) (ht : t ∈ s.tasks) (out : ReadEnd) (hc : c ∈ s.callers) :
    (c.wake t.fut).Owed (s.tasks.filter fun t' => t'.fut ≠ t.fut)
      (⟨t.fut, t.file, out⟩ :: s.landed) := by
  have howed := h.owed c hc
  by_cases hw : c.fut = some t.fut ∧ c.state = .waiting
  · rw [Caller.wake, if_pos hw]
    intro k hk
    have hwait := howed k hk
    rw [hw.2] at hwait
    obtain ⟨t', ht', hfile, hfut⟩ := hwait
    obtain rfl : t.fut = k := Option.some.inj (hw.1.symm.trans hk)
    have hsame : t.file = c.file := ((h.file_eq_iff ht' ht).2 hfut.symm).trans hfile
    exact ⟨out, by rw [hsame]; exact List.mem_cons_self⟩
  · rw [Caller.wake, if_neg hw]
    intro k hk
    have hold := howed k hk
    cases hst : c.state with
    | waiting =>
      rw [hst] at hold
      obtain ⟨t', ht', hfile, hfut⟩ := hold
      have hne : t'.fut ≠ t.fut := fun heq => hw ⟨by rw [hk, ← heq, hfut], hst⟩
      exact ⟨t', List.mem_filter.2 ⟨ht', decide_eq_true hne⟩, hfile, hfut⟩
    | woken =>
      rw [hst] at hold
      obtain ⟨out', hout⟩ := hold
      exact ⟨out', List.mem_cons_of_mem _ hout⟩
    | returned r =>
      rw [hst] at hold
      obtain ⟨out', hout, hr⟩ := hold
      exact ⟨out', List.mem_cons_of_mem _ hout, hr⟩

/-- A landing is about a task that reads, and about that one alone. -/
theorem Flights.Inv.land_eq (h : s.Inv) (ht : t ∈ s.tasks) (hreading : t.reading = true)
    (out : ReadEnd) : s.land t.fut out = s.over t out := by
  unfold Flights.land
  split
  · rename_i hnone
    exact absurd (List.find?_eq_none.1 hnone t ht) (by simp [hreading])
  rename_i t' hfind
  have hfut : t'.fut = t.fut := by
    have := List.find?_some hfind
    simp only [Bool.and_eq_true, decide_eq_true_eq] at this
    exact this.1
  rw [List.inj_on_of_nodup_map h.futs (List.mem_of_find?_eq_some hfind) ht hfut]

theorem land_cases (s : Flights σ) (k : Nat) (out : ReadEnd) :
    s.land k out = s ∨ ∃ t ∈ s.tasks, s.land k out = s.over t out := by
  unfold Flights.land
  split
  · exact .inl rfl
  · rename_i t hfind
    exact .inr ⟨t, List.mem_of_find?_eq_some hfind, rfl⟩

theorem Flights.Inv.over (h : s.Inv) (ht : t ∈ s.tasks) (out : ReadEnd) : (s.over t out).Inv := by
  have hrest : ∀ t' ∈ s.tasks.filter (fun t' => t'.fut ≠ t.fut), t' ∈ s.tasks ∧ t'.fut ≠ t.fut :=
    fun t' ht' => ⟨(List.mem_filter.1 ht').1, of_decide_eq_true (List.mem_filter.1 ht').2⟩
  refine ⟨h.filter_listed ht, h.files.sublist (List.filter_sublist.map _),
    h.futs.sublist (List.filter_sublist.map _), ?_, ?_, ?_, ?_⟩
  · intro t' ht'
    rw [Flights.over, List.getElem?_set_ne (hrest t' ht').2.symm]
    exact h.unsettled t' (hrest t' ht').1
  · intro l hl
    rcases List.mem_cons.1 hl with rfl | hold
    · exact List.getElem?_set_self (h.fut_lt ht)
    · have hne : t.fut ≠ l.fut := fun heq => h.not_landed ht (heq ▸ List.mem_map_of_mem hold)
      rw [Flights.over, List.getElem?_set_ne hne]
      exact h.settled l hold
  · rw [Flights.over, List.map_cons, List.nodup_cons]
    exact ⟨h.not_landed ht, h.once⟩
  · intro c hc
    obtain ⟨c₀, hc₀, rfl⟩ := List.mem_map.1 hc
    exact h.owed_wake ht out hc₀

theorem Flights.Inv.land (h : s.Inv) (k : Nat) (out : ReadEnd) : (s.land k out).Inv := by
  rcases land_cases s k out with heq | ⟨t, ht, heq⟩ <;> rw [heq]
  · exact h
  · exact h.over ht out

/-- A caller that runs is given what it is owed. -/
theorem Flights.Inv.resume_eq (h : s.Inv) (hc : c ∈ s.callers) {k : Nat} (hk : c.fut = some k)
    (hw : c.state = .woken) :
    ∃ out, ⟨k, c.file, out⟩ ∈ s.landed ∧
      c.resume s.futures = { c with state := .returned out.answer } := by
  have howed := h.owed c hc k hk
  rw [hw] at howed
  obtain ⟨out, hout⟩ := howed
  refine ⟨out, hout, ?_⟩
  have hsettled : s.futures[k]? = some out.settle := h.settled _ hout
  unfold Caller.resume
  rw [hw, hk, Option.bind_some, hsettled]
  cases out <;> rfl

theorem Caller.resume_of_ne (futures : List Fut) (h : c.state ≠ .woken) : c.resume futures = c := by
  unfold Caller.resume
  split
  · rename_i hw _
    exact absurd hw h
  · rename_i hw _
    exact absurd hw h
  · rfl

theorem Flights.Inv.owed_resume (h : s.Inv) (hc : c ∈ s.callers) :
    (c.resume s.futures).Owed s.tasks s.landed := by
  by_cases hw : c.state = .woken
  · cases hk : c.fut with
    | none =>
      have hsame : c.resume s.futures = c := by
        simp [Caller.resume, hk]
      rw [hsame]
      exact h.owed c hc
    | some k =>
      obtain ⟨out, hout, heq⟩ := h.resume_eq hc hk hw
      rw [heq]
      intro k' hk'
      obtain rfl : k = k' := Option.some.inj (hk.symm.trans hk')
      exact ⟨out, hout, rfl⟩
  · rw [Caller.resume_of_ne _ hw]
    exact h.owed c hc

theorem Flights.Inv.resume (h : s.Inv) (i : Nat) : (s.step (.resume i)).Inv := by
  refine ⟨h.listed, h.files, h.futs, h.unsettled, h.settled, h.once, fun c hc => ?_⟩
  obtain ⟨j, hj⟩ := List.mem_iff_getElem?.1 hc
  have hj : (s.callers.modify i (Caller.resume s.futures))[j]? = some c := hj
  rw [List.getElem?_modify] at hj
  obtain ⟨c₀, hc₀, rfl⟩ := Option.map_eq_some_iff.1 hj
  have hmem := List.mem_of_getElem? hc₀
  split
  · exact h.owed_resume hmem
  · exact h.owed c₀ hmem

/-- What one step keeps. -/
theorem Flights.Inv.step (h : s.Inv) (e : FlightEvent σ) : (s.step e).Inv := by
  cases e with
  | call f source => exact h.call f source
  | depart k => exact h.depart k
  | land k out => exact h.land k out
  | resume i => exact h.resume i
  | invalidate name => exact ⟨h.listed, h.files, h.futs, h.unsettled, h.settled, h.once, h.owed⟩
  | update a b en => exact ⟨h.listed, h.files, h.futs, h.unsettled, h.settled, h.once, h.owed⟩

/-- What it is kept for. -/
theorem Flights.Inv.coalesced (h : s.Inv) : s.Coalesced where
  single f := by
    have hnd := (h.files.of_map _).filter fun t => t.file = f ∧ t.reading = true
    have hfile : ∀ t ∈ s.tasks.filter (fun t => t.file = f ∧ t.reading = true),
        t ∈ s.tasks ∧ t.file = f := fun t ht => by
      obtain ⟨hmem, hp⟩ := List.mem_filter.1 ht
      exact ⟨hmem, (of_decide_eq_true hp).1⟩
    generalize s.tasks.filter (fun t => t.file = f ∧ t.reading = true) = reads at hnd hfile ⊢
    match reads with
    | [] => exact Nat.zero_le 1
    | [_] => exact Nat.le_refl 1
    | t :: t' :: rest =>
      obtain ⟨ht, hf⟩ := hfile t List.mem_cons_self
      obtain ⟨ht', hf'⟩ := hfile t' (List.mem_cons_of_mem _ List.mem_cons_self)
      have heq := List.inj_on_of_nodup_map h.files ht ht' (hf.trans hf'.symm)
      exact absurd (heq ▸ List.mem_cons_self) (List.nodup_cons.1 hnd).1
  once := h.once
  exact c hc k r hk hr := by
    have howed := h.owed c hc k hk
    rw [hr] at howed
    exact howed
  unstuck c hc k hk hw := by
    have howed := h.owed c hc k hk
    rw [hw] at howed
    obtain ⟨t, ht, hfile, rfl⟩ := howed
    exact ⟨⟨t, ht, hfile, rfl⟩, h.not_landed ht⟩
  served i c k hc hk hw := by
    obtain ⟨out, hout, heq⟩ := h.resume_eq (List.mem_of_getElem? hc) hk hw
    refine ⟨out, hout, ?_⟩
    show (s.callers.modify i (Caller.resume s.futures))[i]? = _
    rw [List.getElem?_modify, hc, ← heq]
    simp
  cleared t ht hreading out := by
    show (s.land t.fut out).inflight.lookup t.file = none ∧ _ ∈ (s.land t.fut out).landed
    rw [h.land_eq ht hreading]
    refine ⟨?_, List.mem_cons_self⟩
    have := Dict.lookup_filter s.inflight (fun f => decide (f ≠ t.file)) t.file
    exact this.trans (if_neg (by simp))

end Inv

/-- **Misses of one name share one read.**  Whatever is called, read and resumed in whatever order:
    one read of a name at a time, everyone who has joined a load is given the outcome of that read,
    nobody waits for a load that is over, and a load that is over leaves `_inflight`. -/
theorem misses_coalesce (maxBytes maxFileBytes : Int) (enabled : Bool)
    (es : List (FlightEvent σ)) :
    Always Flights.step Flights.Coalesced (Flights.new maxBytes maxFileBytes enabled) es := by
  exact (always_of_step (fun s e h => h.step e) (inv_new maxBytes maxFileBytes enabled) es).mono
    fun s h => h.coalesced

/-! ## The cache without its futures -/

/-- `_inflight` with the loads themselves in the place of their futures. -/
def Flights.view (s : Flights σ) : FileCache σ Unit :=
  { s.shelf with inflight := s.tasks.map fun t =>
      (t.file, ⟨t.source, if t.reading then some () else none⟩) }

section View

variable {s : Flights σ}

theorem Flights.Inv.keys_view (h : s.Inv) : s.view.inflight.map (·.1) = s.inflight.map (·.1) := by
  rw [h.listed, Flights.view, List.map_map, List.map_map]
  rfl

theorem Flights.Inv.lookup_view (h : s.Inv) {t : LoadTask σ} (ht : t ∈ s.tasks) :
    s.view.inflight.lookup t.file = some ⟨t.source, if t.reading then some () else none⟩ := by
  refine Dict.lookup_of_mem ?_ (List.mem_map.2 ⟨t, ht, rfl⟩)
  rw [h.keys_view, h.listed, List.map_map]
  exact h.files

theorem Flights.Inv.view_call (h : s.Inv) (f : Str) (source : σ) :
    (s.call f source).view = (s.view.getOrLoad f source).1 := by
  have hmiss : (s.shelf.enabled = false ∨ s.shelf.entries.lookup f = none) →
      (if s.shelf.enabled then s.shelf.peek f else none) = none := by
    rintro (hm | hm)
    · simp [hm]
    · simp [FileCache.peek, hm]
  rcases getOrLoad_cases s.view f source with
    ⟨d, hen, hd, heq⟩ | ⟨hm, l, hl, heq⟩ | ⟨hm, hl, heq⟩ <;> rw [heq]
  · have hpeek : (if s.shelf.enabled then s.shelf.peek f else none) =
        some (d, { s.shelf with entries := putLast s.shelf.entries f d }) := by
      refine (if_pos hen).trans ?_
      exact congrArg (Option.map _) hd
    simp only [Flights.call, hpeek]
    rfl
  · have hfound : ∃ k, s.inflight.lookup f = some k := by
      refine Option.ne_none_iff_exists'.1 fun hnone => ?_
      rw [Dict.lookup_eq_none_iff_not_mem, ← h.keys_view, ← Dict.lookup_eq_none_iff_not_mem, hl] at hnone
      cases hnone
    obtain ⟨k, hk⟩ := hfound
    simp only [Flights.call, hmiss hm, hk]
    rfl
  · have hnone : s.inflight.lookup f = none := by
      rw [Dict.lookup_eq_none_iff_not_mem, ← h.keys_view, ← Dict.lookup_eq_none_iff_not_mem, hl]
    simp only [Flights.call, hmiss hm, hnone, Flights.view, List.map_append]
    rfl

theorem Flights.Inv.view_depart (h : s.Inv) {t : LoadTask σ} (ht : t ∈ s.tasks) :
    (s.depart t.fut).view = s.view.start t.file fun _ => () := by
  simp only [Flights.depart, Flights.view, FileCache.start, List.map_map]
  congr 1
  refine List.map_congr_left fun t' ht' => ?_
  have hiff := h.file_eq_iff ht ht'
  by_cases hfut : t'.fut = t.fut
  · simp [hfut, hiff.2 hfut]
  · simp [hfut, mt hiff.1 hfut]

/-- A load after its wait is ONE step of the cache. -/
theorem Flights.Inv.view_land (h : s.Inv) {t : LoadTask σ} (ht : t ∈ s.tasks)
    (hreading : t.reading = true) (out : ReadEnd) :
    (s.view.finish t.file out.answer).map (·.1) = some (s.land t.fut out).view := by
  have hlookup := h.lookup_view ht
  rw [hreading, if_pos rfl] at hlookup
  have hrest : s.view.inflight.filter (fun e => e.1 ≠ t.file) = (s.over t out).view.inflight := by
    simp only [Flights.view, Flights.over, List.filter_map]
    congr 1
    refine List.filter_congr fun t' ht' => ?_
    have := h.file_eq_iff ht ht'
    simp only [Function.comp_apply, ne_eq, decide_not, decide_eq_decide.2 this]
  rw [h.land_eq ht hreading, FileCache.finish, hlookup]
  cases out with
  | data bytes =>
    simp only [ReadEnd.answer, Option.map_some, hrest]
    by_cases hc : s.shelf.enabled = true ∧ (bytes.length : Int) ≤ s.shelf.maxFileBytes
    · simp only [Flights.view, Flights.over, FileCache.keep, if_pos hc]
      rfl
    · simp only [Flights.view, Flights.over, FileCache.keep, if_neg hc]
  | nothing =>
    simp only [ReadEnd.answer, Option.map_some, hrest]
    rfl
  | raised =>
    simp only [ReadEnd.answer, Option.map_some, hrest]
    rfl

/-- One event is at most one operation of the cache. -/
theorem Flights.Inv.view_step (h : s.Inv) (e : FlightEvent σ) {t : Timed σ Unit} (ht : t.cache = s.view) :
    ∃ ops, (run Timed.step t ops).cache = (s.step e).view := by
  cases e with
  | call f source =>
    refine ⟨[.getOrLoad f source], ?_⟩
    show (if _ then _ else _ : Timed σ Unit).cache = (s.call f source).view
    rw [h.view_call, ← ht]
    split <;> rfl
  | depart k =>
    by_cases hk : ∃ task ∈ s.tasks, task.fut = k
    · obtain ⟨task, htask, rfl⟩ := hk
      refine ⟨[.start task.file fun _ => ()], ?_⟩
      show t.cache.start _ (fun _ => ()) = (s.depart task.fut).view
      rw [h.view_depart htask, ht]
    · refine ⟨[], ht.trans ?_⟩
      have hsame : s.depart k = s := by
        unfold Flights.depart
        congr 1
        refine (List.map_congr_left fun task htask => if_neg fun heq => ?_).trans (List.map_id _)
        exact hk ⟨task, htask, heq⟩
      exact congrArg Flights.view hsame.symm
  | land k out =>
    cases hfind : s.tasks.find? fun task => task.fut = k && task.reading with
    | none => exact ⟨[], by simp only [Flights.step, Flights.land, hfind]; exact ht⟩
    | some task =>
      have hreads : task.fut = k ∧ task.reading = true := by simpa using List.find?_some hfind
      obtain ⟨rfl, hreading⟩ := hreads
      have hland := h.view_land (List.mem_of_find?_eq_some hfind) hreading out
      refine ⟨[.finish task.file out.answer], ?_⟩
      obtain ⟨⟨c, d⟩, hfinish, hc⟩ := Option.map_eq_some_iff.1 hland
      simp only [run_cons, run_nil, Timed.step, ht, hfinish]
      split <;> exact hc
  | resume i => exact ⟨[], ht⟩
  | invalidate name =>
    refine ⟨[.invalidate name], ?_⟩
    show t.cache.invalidate name = _
    rw [ht]
    cases name with
    | none => rfl
    | some f =>
      simp only [Flights.step, Flights.view, FileCache.invalidate]
      split <;> rfl
  | update maxBytes maxFileBytes enabled =>
    refine ⟨[.update maxBytes maxFileBytes enabled], ?_⟩
    show t.cache.update _ _ _ = _
    rw [ht]
    cases enabled <;> rfl

end View

/-- **The futures change nothing.**  However calls, tasks, reads, invalidations and updates are
    interleaved, the cache is what operations done one after the other make of it. -/
theorem flights_refine_cache (maxBytes maxFileBytes : Int) (enabled : Bool)
    (es : List (FlightEvent σ)) :
    ∃ ops : List (CacheOp σ Unit),
      (run Timed.step (Timed.new maxBytes maxFileBytes enabled) ops).cache =
        (run Flights.step (Flights.new maxBytes maxFileBytes enabled) es).view := by
  have hrun : ∀ (s : Flights σ) (t : Timed σ Unit), s.Inv → t.cache = s.view →
      ∃ ops, (run Timed.step t ops).cache = (run Flights.step s es).view := by
    induction es with
    | nil => exact fun s t _ ht => ⟨[], ht⟩
    | cons e es ih =>
      intro s t hs ht
      obtain ⟨ops, hops⟩ := hs.view_step e ht
      obtain ⟨ops', hops'⟩ := ih _ _ (hs.step e) hops
      exact ⟨ops ++ ops', by rw [run_append, hops']; rfl⟩
  exact hrun _ _ (inv_new maxBytes maxFileBytes enabled) rfl

end Nishro.Py
