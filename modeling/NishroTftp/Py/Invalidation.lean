import NishroTftp.Lib.Runs
import NishroTftp.Py.FileCache
/-
  `invalidate` against the loads under way.

  A load suspends between `source.read` and `_store`, and `invalidate` does not look at `_inflight`.
  Here every read is tagged with the number of invalidations of its name that came BEFORE it, and a
  call of `get_or_load` remembers the number at its own start: the data is older than an invalidation
  that the call comes after exactly if its tag is the smaller number.

  The crux is `Guarded`: nothing in the cache and no read under way is older than a given number of
  invalidations.  Every step keeps that, for a number that stays; but an invalidation RAISES the
  number, and one that meets a read of its name leaves that read behind: the next call that waits for
  it is given the bytes of before.
-/
namespace Nishro.Py

open Runs

variable {σ : Type}

/-! ## The cache and its callers -/

structure Lookups (σ : Type) where
  cache : FileCache σ Nat
  /-- how often a name has been invalidated, alone or with all others -/
  invalidated : Str → Nat
  /-- calls that wait: the name, and how often it had been invalidated when they began -/
  waiting : List (Str × Nat)
  /-- calls that have been given data, with the same -/
  returned : List ((Str × Nat) × Data Nat)

inductive CacheEvent (σ : Type)
  | getOrLoad (f : Str) (source : σ)
  /-- the load of `f` calls `source.read` -/
  | start (f : Str)
  /-- the read of `f` is over -/
  | finish (f : Str) (read : Option Bytes)
  | invalidate (name : Option Str)

def Lookups.new (maxBytes maxFileBytes : Int) (enabled : Bool) : Lookups σ :=
  ⟨.new maxBytes maxFileBytes enabled, fun _ => 0, [], []⟩

/-- Does an invalidation concern this name? -/
def concerns (name : Option Str) (f : Str) : Prop := name = none ∨ name = some f

instance (name : Option Str) (f : Str) : Decidable (concerns name f) :=
  inferInstanceAs (Decidable (_ ∨ _))

/-- A call of `get_or_load`. -/
def Lookups.call (m : Lookups σ) (f : Str) (source : σ) : Lookups σ :=
  let r := m.cache.getOrLoad f source
  match r.2 with
  | some d => { m with cache := r.1, returned := ((f, m.invalidated f), d) :: m.returned }
  | none => { m with cache := r.1, waiting := (f, m.invalidated f) :: m.waiting }

/-- The calls that wait for the load of `f` return; without data if there is none. -/
def Lookups.answer (m : Lookups σ) (f : Str) (data : Option (Data Nat)) : Lookups σ :=
  { m with
    waiting := m.waiting.filter fun w => w.1 ≠ f
    returned := (data.map fun d => (m.waiting.filter fun w => w.1 = f).map fun w => (w, d)).getD [] ++
      m.returned }

def Lookups.step (m : Lookups σ) : CacheEvent σ → Lookups σ
  | .getOrLoad f source => m.call f source
  | .start f => { m with cache := m.cache.start f fun _ => m.invalidated f }
  | .finish f read =>
    match m.cache.finish f read with
    | some (cache, data) => { m with cache }.answer f data
    | none => m
  | .invalidate name =>
    { m with cache := m.cache.invalidate name
             invalidated := fun f => m.invalidated f + if concerns name f then 1 else 0 }

/-! ## What an invalidation is for -/

/-- Of the invalidations up to these: no call that came after them has been given data read before
    one of them, and no such data is in the cache. -/
structure Lookups.Beats (upTo : Str → Nat) (m : Lookups σ) : Prop where
  returned : ∀ w d, (w, d) ∈ m.returned → upTo w.1 ≤ w.2 → upTo w.1 ≤ d.tag
  stored : ∀ f d, (f, d) ∈ m.cache.entries → upTo f ≤ d.tag

/-- The invalidations so far are effective, however it goes on. -/
def Lookups.Secure (m : Lookups σ) : Prop :=
  ∀ rest, (run Lookups.step m rest).Beats m.invalidated

/-- An invalidation meets no read of a name it is about. -/
def Lookups.Unread (m : Lookups σ) : CacheEvent σ → Prop
  | .invalidate name => ∀ f, concerns name f → ∀ l, m.cache.inflight.lookup f = some l →
      l.started = none
  | .getOrLoad _ _ | .start _ | .finish _ _ => True

/-- The names under way are different, and no number is larger than it can be. -/
structure Lookups.Wf (m : Lookups σ) : Prop where
  nodup : (m.cache.inflight.map (·.1)).Nodup
  read : ∀ f l t, (f, l) ∈ m.cache.inflight → l.started = some t → t ≤ m.invalidated f
  waiting : ∀ w ∈ m.waiting, w.2 ≤ m.invalidated w.1
  returned : ∀ w d, (w, d) ∈ m.returned → w.2 ≤ m.invalidated w.1

/-- What makes the invalidations up to these effective for good. -/
structure Lookups.Guarded (upTo : Str → Nat) (m : Lookups σ) : Prop where
  past : ∀ f, upTo f ≤ m.invalidated f
  read : ∀ f l t, (f, l) ∈ m.cache.inflight → l.started = some t → upTo f ≤ t
  beats : m.Beats upTo

/-! ## One step -/

section Step

variable {m : Lookups σ}

theorem call_cases (m : Lookups σ) (f : Str) (source : σ) :
    (∃ d, (f, d) ∈ m.cache.entries ∧ m.call f source =
      { m with cache := { m.cache with entries := putLast m.cache.entries f d },
               returned := ((f, m.invalidated f), d) :: m.returned }) ∨
    (∃ l, m.cache.inflight.lookup f = some l ∧
      m.call f source = { m with waiting := (f, m.invalidated f) :: m.waiting }) ∨
    (m.cache.inflight.lookup f = none ∧ m.call f source =
      { m with cache := { m.cache with inflight := m.cache.inflight ++ [(f, ⟨source, none⟩)] },
               waiting := (f, m.invalidated f) :: m.waiting }) := by
  unfold Lookups.call
  rcases getOrLoad_cases m.cache f source with ⟨d, -, hd, h⟩ | ⟨-, l, hl, h⟩ | ⟨-, hl, h⟩
  · rw [h]
    exact .inl ⟨d, Dict.mem_of_lookup hd, rfl⟩
  · rw [h]
    exact .inr (.inl ⟨l, hl, rfl⟩)
  · rw [h]
    exact .inr (.inr ⟨hl, rfl⟩)

theorem mem_answer_returned {f : Str} {data : Option (Data Nat)} {w : Str × Nat} {d : Data Nat}
    (h : (w, d) ∈ (m.answer f data).returned) :
    (w, d) ∈ m.returned ∨ (data = some d ∧ w ∈ m.waiting ∧ w.1 = f) := by
  rcases List.mem_append.1 h with h | h
  · right
    cases data with
    | none => cases h
    | some d' =>
      obtain ⟨w', hw', heq⟩ := List.mem_map.1 h
      obtain ⟨rfl, rfl⟩ := Prod.mk.inj heq
      have hf := List.mem_filter.1 hw'
      exact ⟨rfl, hf.1, of_decide_eq_true hf.2⟩
  · exact .inl h

theorem invalidate_entries {c : FileCache σ Nat} {name : Option Str} {f : Str} {d : Data Nat}
    (h : (f, d) ∈ (c.invalidate name).entries) : (f, d) ∈ c.entries ∧ ¬ concerns name f := by
  refine ⟨(invalidate_cases c name).2.2.subset h, ?_⟩
  rintro (rfl | rfl)
  · cases h
  unfold FileCache.invalidate at h
  dsimp only at h
  split at h
  · have := (List.mem_filter.1 h).2
    simp at this
  · next hnone => exact Dict.lookup_eq_none_iff_not_mem.1 hnone (List.mem_map.2 ⟨_, h, rfl⟩)

/-- **Every step** keeps what it has to, for the invalidations of before. -/
theorem Lookups.Guarded.step {upTo : Str → Nat} (h : m.Guarded upTo) (e : CacheEvent σ) :
    (m.step e).Guarded upTo := by
  cases e with
  | getOrLoad f source =>
    simp only [Lookups.step]
    rcases call_cases m f source with ⟨d, hd, heq⟩ | ⟨l, -, heq⟩ | ⟨-, heq⟩ <;> rw [heq]
    · refine ⟨h.past, h.read, fun w d' hw hup => ?_, fun g d' hg => ?_⟩
      · rcases List.mem_cons.1 hw with hw | hw
        · obtain ⟨rfl, rfl⟩ := Prod.mk.inj hw
          exact h.beats.stored f d' hd
        · exact h.beats.returned w d' hw hup
      · rcases mem_putLast.1 hg with ⟨hg, -⟩ | hg
        · exact h.beats.stored g d' hg
        · obtain ⟨rfl, rfl⟩ := Prod.mk.inj hg
          exact h.beats.stored g d' hd
    · exact ⟨h.past, h.read, h.beats.returned, h.beats.stored⟩
    · refine ⟨h.past, fun g l t hg ht => ?_, h.beats.returned, h.beats.stored⟩
      rcases List.mem_append.1 hg with hg | hg
      · exact h.read g l t hg ht
      · obtain ⟨-, rfl⟩ := Prod.mk.inj (List.mem_singleton.1 hg)
        cases ht
  | start f =>
    refine ⟨h.past, fun g l t hg ht => ?_, h.beats.returned, h.beats.stored⟩
    obtain ⟨l₀, hl₀, -, hstarted⟩ := mem_start m.cache f hg
    rcases hstarted t ht with ht | ⟨rfl, rfl⟩
    · exact h.read g l₀ t hl₀ ht
    · exact h.past g
  | finish f read =>
    simp only [Lookups.step]
    rcases finish_cases m.cache f read with ⟨hnone, -⟩ | ⟨source, tag, hl, c', heq, hin, -, hent⟩
    · rw [hnone]
      exact h
    rw [heq]
    have htag : upTo f ≤ tag := h.read f _ tag (Dict.mem_of_lookup hl) rfl
    refine ⟨h.past, fun g l t hg ht => ?_, fun w d hw hup => ?_, fun g d hg => ?_⟩
    · have hg : (g, l) ∈ c'.inflight := hg
      rw [hin] at hg
      exact h.read g l t (List.mem_filter.1 hg).1 ht
    · rcases mem_answer_returned hw with hw | ⟨hd, -, rfl⟩
      · exact h.beats.returned w d hw hup
      · obtain ⟨bytes, -, rfl⟩ := Option.map_eq_some_iff.1 hd
        exact htag
    · have hg : (g, d) ∈ c'.entries := hg
      rcases hent with hent | ⟨-, bytes, -, hsub⟩
      · rw [hent] at hg
        exact h.beats.stored g d hg
      · rcases mem_putLast.1 (hsub.subset hg) with ⟨hg, -⟩ | hg
        · exact h.beats.stored g d hg
        · obtain ⟨rfl, rfl⟩ := Prod.mk.inj hg
          exact htag
  | invalidate name =>
    have hin := (invalidate_cases m.cache name).1
    refine ⟨fun f => Nat.le_add_right_of_le (h.past f), fun g l t hg ht => ?_, h.beats.returned,
      fun g d hg => h.beats.stored g d (invalidate_entries hg).1⟩
    have hg : (g, l) ∈ (m.cache.invalidate name).inflight := hg
    rw [hin] at hg
    exact h.read g l t hg ht

theorem Lookups.Wf.step (h : m.Wf) (e : CacheEvent σ) : (m.step e).Wf := by
  have hnow : ∀ f, ∀ w ∈ (f, m.invalidated f) :: m.waiting, w.2 ≤ m.invalidated w.1 := by
    intro f w hw
    rcases List.mem_cons.1 hw with rfl | hw
    · exact Nat.le_refl _
    · exact h.waiting w hw
  cases e with
  | getOrLoad f source =>
    simp only [Lookups.step]
    rcases call_cases m f source with ⟨d, -, heq⟩ | ⟨l, -, heq⟩ | ⟨hnone, heq⟩ <;> rw [heq]
    · refine ⟨h.nodup, h.read, h.waiting, fun w d' hw => ?_⟩
      rcases List.mem_cons.1 hw with hw | hw
      · obtain ⟨rfl, -⟩ := Prod.mk.inj hw
        exact Nat.le_refl _
      · exact h.returned w d' hw
    · exact ⟨h.nodup, h.read, hnow f, h.returned⟩
    · refine ⟨?_, fun g l t hg ht => ?_, hnow f, h.returned⟩
      · rw [List.map_append, List.nodup_append]
        refine ⟨h.nodup, by simp, fun k hk k' hk' hkk => ?_⟩
        obtain rfl : k' = f := by simpa using hk'
        exact Dict.lookup_eq_none_iff_not_mem.1 hnone (hkk ▸ hk)
      · rcases List.mem_append.1 hg with hg | hg
        · exact h.read g l t hg ht
        · obtain ⟨-, rfl⟩ := Prod.mk.inj (List.mem_singleton.1 hg)
          cases ht
  | start f =>
    refine ⟨?_, fun g l t hg ht => ?_, h.waiting, h.returned⟩
    · show ((m.cache.start f _).inflight.map (·.1)).Nodup
      rw [keys_start]
      exact h.nodup
    · obtain ⟨l₀, hl₀, -, hstarted⟩ := mem_start m.cache f hg
      rcases hstarted t ht with ht | ⟨rfl, rfl⟩
      · exact h.read g l₀ t hl₀ ht
      · exact Nat.le_refl _
  | finish f read =>
    simp only [Lookups.step]
    rcases finish_cases m.cache f read with ⟨hnone, -⟩ | ⟨source, tag, -, c', heq, hin, -, -⟩
    · rw [hnone]
      exact h
    rw [heq]
    refine ⟨?_, fun g l t hg ht => ?_, fun w hw => h.waiting w (List.mem_filter.1 hw).1,
      fun w d hw => ?_⟩
    · show (c'.inflight.map (·.1)).Nodup
      rw [hin]
      exact h.nodup.sublist (List.filter_sublist.map _)
    · have hg : (g, l) ∈ c'.inflight := hg
      rw [hin] at hg
      exact h.read g l t (List.mem_filter.1 hg).1 ht
    · rcases mem_answer_returned hw with hw | ⟨-, hw, -⟩
      · exact h.returned w d hw
      · exact h.waiting w hw
  | invalidate name =>
    have hin : (m.step (.invalidate name)).cache.inflight = m.cache.inflight :=
      (invalidate_cases m.cache name).1
    refine ⟨hin ▸ h.nodup, fun g l t hg ht => ?_,
      fun w hw => Nat.le_add_right_of_le (h.waiting w hw),
      fun w d hw => Nat.le_add_right_of_le (h.returned w d hw)⟩
    rw [hin] at hg
    exact Nat.le_add_right_of_le (h.read g l t hg ht)

/-- An invalidation that meets no read is effective from then on as well. -/
theorem guarded_invalidate (hwf : m.Wf) (h : m.Guarded m.invalidated) {name : Option Str}
    (hok : m.Unread (.invalidate name)) :
    (m.step (.invalidate name)).Guarded (m.step (.invalidate name)).invalidated := by
  have hstep := h.step (.invalidate name)
  have hsame : ∀ f, ¬ concerns name f →
      (m.step (.invalidate name)).invalidated f = m.invalidated f := by
    intro f hf
    simp only [Lookups.step, if_neg hf, Nat.add_zero]
  refine ⟨fun f => Nat.le_refl _, fun g l t hg ht => ?_, fun w d hw hup => ?_, fun g d hg => ?_⟩
  · by_cases hc : concerns name g
    · have hg : (g, l) ∈ (m.cache.invalidate name).inflight := hg
      rw [(invalidate_cases m.cache name).1] at hg
      have hnone := hok g hc l (Dict.lookup_of_mem hwf.nodup hg)
      rw [hnone] at ht
      cases ht
    · rw [hsame g hc]
      exact hstep.read g l t hg ht
  · by_cases hc : concerns name w.1
    · -- a call that has returned began before this invalidation
      have hbefore := hwf.returned w d hw
      simp only [Lookups.step, if_pos hc] at hup
      omega
    · rw [hsame w.1 hc] at hup ⊢
      exact hstep.beats.returned w d hw hup
  · rw [hsame g (invalidate_entries hg).2]
    exact hstep.beats.stored g d hg

/-- One that meets a read is not: the next call waits for that read and is given its bytes. -/
theorem not_secure_invalidate (hwf : m.Wf) {name : Option Str}
    (hbad : ¬ m.Unread (.invalidate name)) : ¬ (m.step (.invalidate name)).Secure := by
  intro hsecure
  simp only [Lookups.Unread, Classical.not_forall] at hbad
  obtain ⟨f, hc, l, hl, hstarted⟩ := hbad
  obtain ⟨t, ht⟩ := Option.ne_none_iff_exists'.1 hstarted
  have hold : t ≤ m.invalidated f := hwf.read f l t (Dict.mem_of_lookup hl) ht
  generalize hm : m.step (.invalidate name) = m' at hsecure
  have hinv : m'.invalidated f = m.invalidated f + 1 := by
    rw [← hm]
    simp only [Lookups.step, if_pos hc]
  have hl' : m'.cache.inflight.lookup f = some l := by
    rw [← hm]
    show (m.cache.invalidate name).inflight.lookup f = some l
    rw [(invalidate_cases m.cache name).1]
    exact hl
  have hcall : m'.step (.getOrLoad f l.source) =
      { m' with waiting := (f, m'.invalidated f) :: m'.waiting } := by
    rcases call_cases m' f l.source with ⟨d, hd, -⟩ | ⟨-, -, heq⟩ | ⟨hnone, -⟩
    · rw [← hm] at hd
      exact absurd hc (invalidate_entries hd).2
    · exact heq
    · rw [hl'] at hnone
      cases hnone
  have hgiven : ((f, m'.invalidated f), ⟨[], t⟩) ∈
      (run Lookups.step m' [.getOrLoad f l.source, .finish f (some [])]).returned := by
    show _ ∈ ((m'.step (.getOrLoad f l.source)).step (.finish f (some []))).returned
    rw [hcall]
    simp only [Lookups.step]
    rcases finish_cases m'.cache f (some []) with ⟨-, hno⟩ | ⟨source, tag, htag, c', heq, -⟩
    · exact absurd (hl'.trans (by rw [← ht])) (hno l.source t)
    · rw [hl'] at htag
      obtain rfl : l = ⟨source, some tag⟩ := Option.some.inj htag
      obtain rfl : tag = t := Option.some.inj ht
      rw [heq]
      simp [Lookups.answer]
  have hbeats := (hsecure _).returned _ _ hgiven (Nat.le_refl _)
  simp only [hinv] at hbeats
  omega

theorem Lookups.Guarded.secure (h : m.Guarded m.invalidated) : m.Secure := by
  intro rest
  have hall : Always Lookups.step (Lookups.Guarded m.invalidated) m rest :=
    always_of_step (fun _ e hm => hm.step e) h rest
  exact hall.last.beats

end Step

/-! ## Runs -/

/-- **Invalidation against loads.**  Along a run with any interleaving of calls, loads and
    invalidations, the invalidations so far are effective in each of its states exactly when every one
    of them met no read of a name it was about. -/
theorem invalidations_effective_iff (maxBytes maxFileBytes : Int) (enabled : Bool)
    (es : List (CacheEvent σ)) :
    Always Lookups.step Lookups.Secure (.new maxBytes maxFileBytes enabled) es ↔
      Along Lookups.step Lookups.Unread (.new maxBytes maxFileBytes enabled) es := by
  have hwf : (Lookups.new maxBytes maxFileBytes enabled : Lookups σ).Wf := by
    constructor <;> simp [Lookups.new, FileCache.new]
  have hguard : (Lookups.new maxBytes maxFileBytes enabled : Lookups σ).Guarded fun _ => 0 := by
    refine ⟨fun _ => Nat.zero_le _, ?_, ?_, ?_⟩ <;> simp [Lookups.new, FileCache.new]
  let I : Lookups σ → Prop := fun m => m.Wf ∧ m.Guarded m.invalidated
  refine always_iff_along (I := I) (fun m h => h.2.secure) ?_ ?_ es ⟨hwf, hguard⟩
  · rintro m e ⟨hm, hg⟩ hok
    refine ⟨hm.step e, ?_⟩
    cases e with
    | getOrLoad f source =>
      have hinv : (m.step (.getOrLoad f source)).invalidated = m.invalidated := by
        simp only [Lookups.step]
        rcases call_cases m f source with ⟨d, -, heq⟩ | ⟨l, -, heq⟩ | ⟨-, heq⟩ <;> rw [heq]
      rw [hinv]
      exact hg.step _
    | start f => exact hg.step (.start f)
    | finish f read =>
      have hinv : (m.step (.finish f read)).invalidated = m.invalidated := by
        simp only [Lookups.step]
        split <;> rfl
      rw [hinv]
      exact hg.step _
    | invalidate name => exact guarded_invalidate hm hg hok
  · rintro m e ⟨hm, -⟩ hbad
    cases e with
    | getOrLoad f source => exact absurd trivial hbad
    | start f => exact absurd trivial hbad
    | finish f read => exact absurd trivial hbad
    | invalidate name => exact not_secure_invalidate hm hbad

/-- A read of `f` is under way when `f` is invalidated.  A call after that waits for it and is given
    its bytes, and they are in the cache from then on. -/
theorem invalidated_load_returned :
    let seen := [.getOrLoad (str "f") (), .start (str "f"), .invalidate (some (str "f"))]
    let more := [.getOrLoad (str "f") (), .finish (str "f") (some [1])]
    (run Lookups.step (.new 100 100 true) (seen ++ more)).returned =
      [((str "f", 1), ⟨[1], 0⟩), ((str "f", 0), ⟨[1], 0⟩)] ∧
    (run Lookups.step (.new 100 100 true) (seen ++ more)).cache.entries =
      [(str "f", ⟨[1], 0⟩)] ∧
    ¬ Always Lookups.step Lookups.Secure (.new 100 100 true) seen := by
  intro seen more
  refine ⟨by decide, by decide, fun h => ?_⟩
  have hbeats := (h.last more).returned (str "f", 1) ⟨[1], 0⟩ (by decide) (by decide)
  revert hbeats
  decide

end Nishro.Py
