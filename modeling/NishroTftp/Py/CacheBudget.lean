import NishroTftp.Lib.Recency
import NishroTftp.Lib.Runs
import NishroTftp.Py.FileCache
/-
  The byte budget of the cache (`files/cache.py`), over whole runs of its operations.

  The counter `_bytes` stands beside the entries it counts, and both limits can change at any time.
  `Timed` is the cache with a clock: when each name was last stored or found, and which names the
  last operation has evicted.  The code keeps neither; it has the order of its dictionary.

  1. SOUND is what every operation keeps, whatever the limits are: the counter is right, a cache that
     is off is empty, the entries stand in the order of their last use, and what is evicted was used
     before all that stays.
  2. The limits hold as long as nobody moves them: `_store` makes room, and `_load` turns away what is
     too large.  `update` with a LOWER limit neither evicts nor drops anything, so the limits hold
     exactly if every update leaves room for what is stored then.
-/
namespace Nishro.Py

open Runs Recency

variable {σ τ : Type}

/-! ## The cache and the time of each use -/

structure Timed (σ τ : Type) where
  cache : FileCache σ τ
  clock : Nat
  /-- when an entry of this name was last stored or found -/
  used : Str → Nat
  /-- what the last operation has evicted -/
  evicted : List Str

inductive CacheOp (σ τ : Type)
  | getOrLoad (f : Str) (source : σ)
  /-- the load of `f` calls `source.read` -/
  | start (f : Str) (tag : σ → τ)
  /-- the read of `f` is over: bytes, or none where it found nothing or raised -/
  | finish (f : Str) (read : Option Bytes)
  | invalidate (name : Option Str)
  | update (maxBytes maxFileBytes : Int) (enabled : Bool)

def Timed.new (maxBytes maxFileBytes : Int) (enabled : Bool) : Timed σ τ :=
  ⟨.new maxBytes maxFileBytes enabled, 0, fun _ => 0, []⟩

def names (es : List (Str × Data τ)) : List Str := es.map (·.1)

/-- Another cache, by an operation that uses no entry and evicts none. -/
def Timed.put (t : Timed σ τ) (c : FileCache σ τ) : Timed σ τ := { t with cache := c, evicted := [] }

/-- Another cache, by an operation that uses the entry of `f`. -/
def Timed.touch (t : Timed σ τ) (f : Str) (c : FileCache σ τ) (evicted : List Str) : Timed σ τ :=
  ⟨c, t.clock + 1, use t.used t.clock f, evicted⟩

/-- Does `_load` store what was read? -/
def FileCache.admits (c : FileCache σ τ) (read : Option Bytes) : Bool :=
  c.enabled && read.any fun bytes => (bytes.length : Int) ≤ c.maxFileBytes

/-- The names `_store` has in hand, the new one included, and of these the ones it does not keep. -/
def dropped (es kept : List (Str × Data τ)) (f : Str) : List Str :=
  (((names es).filter fun g => g ≠ f) ++ [f]).filter fun g => g ∉ names kept

def Timed.step (t : Timed σ τ) : CacheOp σ τ → Timed σ τ
  | .getOrLoad f source =>
    let r := t.cache.getOrLoad f source
    if r.2.isSome then t.touch f r.1 [] else t.put r.1
  | .start f tag => t.put (t.cache.start f tag)
  | .finish f read =>
    match t.cache.finish f read with
    | none => t.put t.cache
    | some (c, _) =>
      if t.cache.admits read then
        t.touch f c (dropped t.cache.entries c.entries f)
      else t.put c
  | .invalidate name => t.put (t.cache.invalidate name)
  | .update maxBytes maxFileBytes enabled => t.put (t.cache.update maxBytes maxFileBytes enabled)

/-- The bytes of these entries. -/
def size (es : List (Str × Data τ)) : Int := (es.map fun e => (e.2.bytes.length : Int)).sum

/-- The budget is kept. -/
structure Timed.Kept (t : Timed σ τ) : Prop where
  counted : t.cache.bytes = size t.cache.entries
  within : t.cache.bytes ≤ t.cache.maxBytes
  small : ∀ e ∈ t.cache.entries, (e.2.bytes.length : Int) ≤ t.cache.maxFileBytes
  off : t.cache.enabled = false → t.cache.entries = []
  oldest : ∀ g ∈ t.evicted, ∀ e ∈ t.cache.entries, t.used g < t.used e.1

/-- An update leaves room for what is stored. -/
def Timed.RoomFor (t : Timed σ τ) : CacheOp σ τ → Prop
  | .update maxBytes maxFileBytes enabled =>
    let kept := if enabled then t.cache.entries else []
    size kept ≤ maxBytes ∧ ∀ e ∈ kept, (e.2.bytes.length : Int) ≤ maxFileBytes
  | _ => True

/-! ## Sizes -/

section Sizes

variable {es : List (Str × Data τ)} {f : Str} {d : Data τ}

@[simp] theorem size_nil : size ([] : List (Str × Data τ)) = 0 := rfl

@[simp] theorem size_cons (e : Str × Data τ) (es : List (Str × Data τ)) :
    size (e :: es) = e.2.bytes.length + size es := by
  simp [size]

theorem size_nonneg (es : List (Str × Data τ)) : 0 ≤ size es := by
  induction es with
  | nil => exact Int.le_refl 0
  | cons e es ih =>
    rw [size_cons]
    omega

theorem size_append (es es' : List (Str × Data τ)) : size (es ++ es') = size es + size es' := by
  simp [size]

theorem filter_of_lookup_none (h : es.lookup f = none) : es.filter (fun e => e.1 ≠ f) = es := by
  rw [List.filter_eq_self]
  rintro e he
  refine decide_eq_true fun heq => ?_
  exact Dict.lookup_eq_none_iff_not_mem.1 h (List.mem_map.2 ⟨e, he, heq⟩)

/-- An entry that goes takes its bytes with it. -/
theorem size_filter (hnd : (names es).Nodup) :
    size (es.filter fun e => e.1 ≠ f) =
      size es - ((es.lookup f).map fun d => (d.bytes.length : Int)).getD 0 := by
  induction es with
  | nil => rfl
  | cons e es ih =>
    obtain ⟨g, d⟩ := e
    obtain ⟨hg, hnd⟩ := List.nodup_cons.1 hnd
    by_cases heq : g = f
    · subst heq
      have hnone : es.lookup g = none := Dict.lookup_eq_none_iff_not_mem.2 hg
      rw [List.filter_cons_of_neg (by simp), filter_of_lookup_none hnone, size_cons]
      simp only [List.lookup_cons, beq_self_eq_true, Option.map_some, Option.getD_some]
      omega
    · have hne : (f == g) = false := beq_false_of_ne (Ne.symm heq)
      have hlookup : ((g, d) :: es).lookup f = es.lookup f := by rw [List.lookup_cons, hne]
      rw [List.filter_cons_of_pos (by simpa using heq), hlookup, size_cons, ih hnd, size_cons]
      omega

/-- Moving an entry to the end leaves the size as it is. -/
theorem size_putLast (hnd : (names es).Nodup) : size (putLast es f d) =
    size es - ((es.lookup f).map fun d => (d.bytes.length : Int)).getD 0 + d.bytes.length := by
  rw [putLast, size_append, size_filter hnd, size_cons, size_nil, Int.add_zero]

theorem names_putLast : names (putLast es f d) = (names es).filter (fun g => g ≠ f) ++ [f] := by
  simp only [names, putLast, List.map_append, List.map_cons, List.map_nil]
  congr 1
  induction es with
  | nil => rfl
  | cons e es ih =>
    by_cases he : e.1 = f
    · rw [List.filter_cons_of_neg (by simpa using he), List.map_cons,
        List.filter_cons_of_neg (by simpa using he)]
      exact ih
    · rw [List.filter_cons_of_pos (by simpa using he), List.map_cons, List.map_cons,
        List.filter_cons_of_pos (by simpa using he), ih]

/-- The loop drops entries from the front, and counts them out. -/
theorem evict_spec (maxBytes bytes : Int) (es : List (Str × Data τ)) :
    ∃ front, es = front ++ (evict maxBytes es bytes).1 ∧
      (evict maxBytes es bytes).2 = bytes - size front := by
  induction es generalizing bytes with
  | nil => exact ⟨[], rfl, by simp [evict]⟩
  | cons e es ih =>
    unfold evict
    split
    · obtain ⟨front, hes, hbytes⟩ := ih (bytes - e.2.bytes.length)
      refine ⟨e :: front, by rw [List.cons_append, ← hes], ?_⟩
      rw [hbytes, size_cons]
      omega
    · exact ⟨[], rfl, by simp⟩

/-- It stops when the rest fits, at the latest when nothing is left. -/
theorem evict_fits {maxBytes : Int} (hmax : 0 ≤ maxBytes) (es : List (Str × Data τ)) :
    (evict maxBytes es (size es)).2 ≤ maxBytes := by
  induction es with
  | nil => exact hmax
  | cons e es ih =>
    have hrest : size (e :: es) - e.2.bytes.length = size es := by
      rw [size_cons]
      omega
    unfold evict
    split
    · rw [hrest]
      exact ih
    · rename_i hle
      exact Int.not_lt.1 hle

end Sizes

/-! ## What the operations do -/

section Steps

variable (t : Timed σ τ) (f : Str)

/-- A call finds an entry and uses it, or leaves the entries alone. -/
theorem step_getOrLoad (source : σ) :
    (∃ d, t.cache.enabled = true ∧ t.cache.entries.lookup f = some d ∧
      t.step (.getOrLoad f source) =
        t.touch f { t.cache with entries := putLast t.cache.entries f d } []) ∨
    ∃ inflight, t.step (.getOrLoad f source) = t.put { t.cache with inflight } := by
  rcases getOrLoad_cases t.cache f source with ⟨d, hen, hd, heq⟩ | ⟨-, l, -, heq⟩ | ⟨-, -, heq⟩
  · exact .inl ⟨d, hen, hd, by simp [Timed.step, heq]⟩
  · exact .inr ⟨t.cache.inflight, by simp [Timed.step, heq]⟩
  · exact .inr ⟨_, by simp only [Timed.step, heq]; rfl⟩

/-- The end of a load stores what was read, or leaves the entries alone. -/
theorem step_finish (read : Option Bytes) :
    (∃ inflight, t.step (.finish f read) = t.put { t.cache with inflight }) ∨
    ∃ bytes tag inflight, t.cache.enabled = true ∧ (bytes.length : Int) ≤ t.cache.maxFileBytes ∧
      let c := { t.cache with inflight }.store f ⟨bytes, tag⟩
      t.step (.finish f read) = t.touch f c (dropped t.cache.entries c.entries f) := by
  unfold Timed.step FileCache.finish
  dsimp only
  split
  · exact .inl ⟨t.cache.inflight, rfl⟩
  rename_i c data hfin
  split at hfin
  · rename_i source tag hl
    cases read with
    | none =>
      obtain ⟨rfl, -⟩ := Prod.mk.inj (Option.some.inj hfin)
      exact .inl ⟨_, if_neg (by simp [FileCache.admits])⟩
    | some bytes =>
      obtain ⟨heq, -⟩ := Prod.mk.inj (Option.some.inj hfin)
      by_cases hc : t.cache.enabled = true ∧ (bytes.length : Int) ≤ t.cache.maxFileBytes
      · rw [if_pos hc] at heq
        subst heq
        exact .inr ⟨bytes, tag, _, hc.1, hc.2, if_pos (by simp [FileCache.admits, hc])⟩
      · rw [if_neg hc] at heq
        subst heq
        exact .inl ⟨_, if_neg (by simpa [FileCache.admits] using hc)⟩
  · cases hfin

end Steps

/-! ## What every operation keeps -/

structure Timed.Sound (t : Timed σ τ) : Prop where
  counted : t.cache.bytes = size t.cache.entries
  off : t.cache.enabled = false → t.cache.entries = []
  ranked : Ranked (names t.cache.entries) t.used t.clock
  oldest : ∀ g ∈ t.evicted, ∀ e ∈ t.cache.entries, t.used g < t.used e.1

section Sound

variable {t : Timed σ τ}

theorem sound_new (maxBytes maxFileBytes : Int) (enabled : Bool) :
    (Timed.new maxBytes maxFileBytes enabled : Timed σ τ).Sound :=
  ⟨rfl, fun _ => rfl, ranked_nil _ _, fun _ h => nomatch h⟩

theorem Timed.Sound.put (h : t.Sound) {c : FileCache σ τ} (hcount : c.bytes = size c.entries)
    (hoff : c.enabled = false → c.entries = []) (hsub : c.entries.Sublist t.cache.entries) :
    (t.put c).Sound :=
  ⟨hcount, hoff, h.ranked.sublist (hsub.map _), fun _ hg => nomatch hg⟩

theorem Timed.Sound.getOrLoad (h : t.Sound) (f : Str) (source : σ) :
    (t.step (.getOrLoad f source)).Sound := by
  rcases step_getOrLoad t f source with ⟨d, hen, hd, heq⟩ | ⟨inflight, heq⟩ <;> rw [heq]
  · refine ⟨?_, (fun hoff => nomatch hoff.symm.trans hen), ?_, fun _ hg => nomatch hg⟩
    · show t.cache.bytes = size (putLast t.cache.entries f d)
      rw [size_putLast h.ranked.nodup, hd, h.counted, Option.map_some, Option.getD_some]
      omega
    · show Ranked (names (putLast t.cache.entries f d)) _ _
      rw [names_putLast]
      exact h.ranked.use f
  · exact h.put h.counted h.off (List.Sublist.refl _)

/-- What `_store` leaves in the cache. -/
theorem store_spec (c : FileCache σ τ) (f : Str) (d : Data τ) (hnd : (names c.entries).Nodup)
    (hcount : c.bytes = size c.entries) :
    ∃ front, putLast c.entries f d = front ++ (c.store f d).entries ∧
      (c.store f d).bytes = size (c.store f d).entries ∧
      (0 ≤ c.maxBytes → (c.store f d).bytes ≤ c.maxBytes) := by
  have hsize : c.bytes - ((c.entries.lookup f).map fun d => (d.bytes.length : Int)).getD 0 +
      d.bytes.length = size (putLast c.entries f d) := by
    rw [size_putLast hnd, hcount]
  unfold FileCache.store
  dsimp only
  rw [hsize]
  obtain ⟨front, hes, hbytes⟩ := evict_spec c.maxBytes (size (putLast c.entries f d))
    (putLast c.entries f d)
  refine ⟨front, hes, ?_, fun hmax => evict_fits hmax _⟩
  have hsum := congrArg size hes
  rw [size_append] at hsum
  omega

/-- `_store`: the new entry goes to the end, the oldest ones go. -/
theorem Timed.Sound.store (h : t.Sound) (f : Str) (d : Data τ) {c : FileCache σ τ}
    (hc : c.entries = t.cache.entries) (hb : c.bytes = t.cache.bytes) (hen : c.enabled = true) :
    (t.touch f (c.store f d) (dropped t.cache.entries (c.store f d).entries f)).Sound := by
  obtain ⟨front, hes, hcount, -⟩ := store_spec c f d (by rw [hc]; exact h.ranked.nodup)
    (by rw [hc, hb]; exact h.counted)
  have hnames : (names t.cache.entries).filter (fun g => g ≠ f) ++ [f] =
      names front ++ names (c.store f d).entries := by
    rw [← hc, ← names_putLast (d := d), hes]
    exact List.map_append
  have hranked := h.ranked.use f
  rw [hnames] at hranked
  refine ⟨hcount, (fun hoff => nomatch hoff.symm.trans hen),
    hranked.sublist (List.sublist_append_right _ _), fun g hg e he => ?_⟩
  obtain ⟨hmem, hgone⟩ := List.mem_filter.1 hg
  rw [hnames] at hmem
  refine hranked.front_older ?_ (List.mem_map_of_mem he)
  rcases List.mem_append.1 hmem with hfront | hkept
  · exact hfront
  · exact absurd hkept (of_decide_eq_true hgone)

theorem Timed.Sound.finish (h : t.Sound) (f : Str) (read : Option Bytes) :
    (t.step (.finish f read)).Sound := by
  rcases step_finish t f read with ⟨inflight, heq⟩ | ⟨bytes, tag, inflight, hen, -, heq⟩ <;> rw [heq]
  · exact h.put h.counted h.off (List.Sublist.refl _)
  · exact h.store f ⟨bytes, tag⟩ rfl rfl hen

theorem Timed.Sound.invalidate (h : t.Sound) (name : Option Str) :
    (t.step (.invalidate name)).Sound := by
  obtain ⟨-, hen, hsub⟩ := invalidate_cases t.cache name
  refine h.put ?_ (fun hoff => ?_) hsub
  · unfold FileCache.invalidate
    split
    · rfl
    · split
      · rename_i f _ d hd
        rw [size_filter h.ranked.nodup, hd, h.counted]
        rfl
      · exact h.counted
  · have hnil := h.off (hen.symm.trans hoff)
    rw [hnil] at hsub
    exact List.sublist_nil.1 hsub

theorem Timed.Sound.update (h : t.Sound) (maxBytes maxFileBytes : Int) (enabled : Bool) :
    (t.step (.update maxBytes maxFileBytes enabled)).Sound := by
  cases enabled with
  | false => exact h.put rfl (fun _ => rfl) (List.nil_sublist _)
  | true => exact h.put h.counted (fun hoff => nomatch hoff) (List.Sublist.refl _)

/-- **The counter, the order and the evictions are right**, whatever the limits are. -/
theorem Timed.Sound.step (h : t.Sound) (op : CacheOp σ τ) : (t.step op).Sound := by
  cases op with
  | getOrLoad f source => exact h.getOrLoad f source
  | start f tag => exact h.put h.counted h.off (List.Sublist.refl _)
  | finish f read => exact h.finish f read
  | invalidate name => exact h.invalidate name
  | update maxBytes maxFileBytes enabled => exact h.update maxBytes maxFileBytes enabled

end Sound

/-! ## The limits -/

/-- What is stored is within the limits. -/
structure FileCache.Fits (c : FileCache σ τ) : Prop where
  within : size c.entries ≤ c.maxBytes
  small : ∀ e ∈ c.entries, (e.2.bytes.length : Int) ≤ c.maxFileBytes

theorem Timed.Sound.kept_iff {t : Timed σ τ} (h : t.Sound) : t.Kept ↔ t.cache.Fits := by
  constructor
  · intro hk
    exact ⟨hk.counted ▸ hk.within, hk.small⟩
  · intro hf
    exact ⟨h.counted, h.counted ▸ hf.within, hf.small, h.off, h.oldest⟩

theorem FileCache.Fits.max_nonneg {c : FileCache σ τ} (h : c.Fits) : 0 ≤ c.maxBytes :=
  Int.le_trans (size_nonneg _) h.within

section Limits

variable {t : Timed σ τ}

theorem Timed.Sound.fits_getOrLoad (h : t.Sound) (hf : t.cache.Fits) (f : Str) (source : σ) :
    (t.step (.getOrLoad f source)).cache.Fits := by
  rcases step_getOrLoad t f source with ⟨d, -, hd, heq⟩ | ⟨inflight, heq⟩ <;> rw [heq]
  · refine ⟨?_, fun e he => hf.small e ((mem_putLast_of_lookup h.ranked.nodup hd).1 he)⟩
    show size (putLast t.cache.entries f d) ≤ t.cache.maxBytes
    rw [size_putLast h.ranked.nodup, hd, Option.map_some, Option.getD_some]
    have := hf.within
    omega
  · exact ⟨hf.within, hf.small⟩

theorem Timed.Sound.fits_finish (h : t.Sound) (hf : t.cache.Fits) (f : Str) (read : Option Bytes) :
    (t.step (.finish f read)).cache.Fits := by
  rcases step_finish t f read with ⟨inflight, heq⟩ | ⟨bytes, tag, inflight, -, hlen, heq⟩ <;> rw [heq]
  · exact ⟨hf.within, hf.small⟩
  obtain ⟨front, hes, hcount, hfits⟩ :=
    store_spec { t.cache with inflight } f ⟨bytes, tag⟩ h.ranked.nodup h.counted
  refine ⟨hcount ▸ hfits hf.max_nonneg, fun e he => ?_⟩
  have hmem : e ∈ putLast t.cache.entries f ⟨bytes, tag⟩ := by
    rw [hes]
    exact List.mem_append_right _ he
  rcases mem_putLast.1 hmem with hold | rfl
  · exact hf.small e hold.1
  · exact hlen

theorem FileCache.Fits.invalidate {c : FileCache σ τ} (hf : c.Fits)
    (hnd : (names c.entries).Nodup) (name : Option Str) : (c.invalidate name).Fits := by
  have hnil := hf.max_nonneg
  unfold FileCache.invalidate
  split
  · exact ⟨hnil, fun _ he => nomatch he⟩
  split
  · rename_i f _ d hd
    refine ⟨?_, fun e he => hf.small e (List.mem_filter.1 he).1⟩
    have hwithin := hf.within
    show size (c.entries.filter fun e => e.1 ≠ f) ≤ c.maxBytes
    rw [size_filter hnd, hd, Option.map_some, Option.getD_some]
    omega
  · exact hf

/-- An update is the one operation that moves the limits, and it leaves alone what is stored. -/
theorem fits_update (t : Timed σ τ) (maxBytes maxFileBytes : Int) (enabled : Bool) :
    (t.step (.update maxBytes maxFileBytes enabled)).cache.Fits ↔
      t.RoomFor (.update maxBytes maxFileBytes enabled) := by
  cases enabled with
  | false => exact ⟨fun h => ⟨h.within, h.small⟩, fun h => ⟨h.1, h.2⟩⟩
  | true => exact ⟨fun h => ⟨h.within, h.small⟩, fun h => ⟨h.1, h.2⟩⟩

/-- One step: the limits hold after it exactly if it leaves room for what is stored. -/
theorem Timed.Sound.fits_step_iff (h : t.Sound) (hf : t.cache.Fits) (op : CacheOp σ τ) :
    (t.step op).cache.Fits ↔ t.RoomFor op := by
  cases op with
  | getOrLoad f source => exact iff_of_true (h.fits_getOrLoad hf f source) trivial
  | start f tag => exact iff_of_true ⟨hf.within, hf.small⟩ trivial
  | finish f read => exact iff_of_true (h.fits_finish hf f read) trivial
  | invalidate name =>
    exact iff_of_true (hf.invalidate h.ranked.nodup name) trivial
  | update maxBytes maxFileBytes enabled => exact fits_update t maxBytes maxFileBytes enabled

end Limits

/-- **The budget of the cache.**  It is kept after every operation exactly if the cache is made with
    a budget and every update leaves room for what is stored. -/
theorem budget_kept_iff (maxBytes maxFileBytes : Int) (enabled : Bool) (ops : List (CacheOp σ τ)) :
    Always Timed.step Timed.Kept (Timed.new maxBytes maxFileBytes enabled) ops ↔
      0 ≤ maxBytes ∧ Along Timed.step Timed.RoomFor (Timed.new maxBytes maxFileBytes enabled) ops := by
  have hsound := sound_new (σ := σ) (τ := τ) maxBytes maxFileBytes enabled
  have hnew : 0 ≤ maxBytes →
      (Timed.new maxBytes maxFileBytes enabled : Timed σ τ).cache.Fits :=
    fun h => ⟨h, fun _ he => nomatch he⟩
  have hiff : 0 ≤ maxBytes → (Always Timed.step Timed.Kept
      (Timed.new maxBytes maxFileBytes enabled : Timed σ τ) ops ↔
        Along Timed.step Timed.RoomFor (Timed.new maxBytes maxFileBytes enabled) ops) := by
    intro hmax
    refine always_iff_along (I := fun t => t.Sound ∧ t.cache.Fits) ?_ ?_ ?_ ops
      ⟨hsound, hnew hmax⟩
    · exact fun t ht => ht.1.kept_iff.2 ht.2
    · exact fun t op ht hok => ⟨ht.1.step op, (ht.1.fits_step_iff ht.2 op).2 hok⟩
    · exact fun t op ht hno hk =>
        hno ((ht.1.fits_step_iff ht.2 op).1 ((ht.1.step op).kept_iff.1 hk))
  constructor
  · intro h
    have hmax : 0 ≤ maxBytes := h.head.within
    exact ⟨hmax, (hiff hmax).1 h⟩
  · rintro ⟨hmax, h⟩
    exact (hiff hmax).2 h

/-- Eight bytes are stored, and the limits are then lowered to four: they stay. -/
theorem lowered_limit_overrun :
    let ops : List (CacheOp Unit Unit) := [.getOrLoad (str "a") (), .start (str "a") id,
      .finish (str "a") (some (List.replicate 8 0)), .update 4 4 true]
    let t := run Timed.step (Timed.new 16 16 true) ops
    t.cache.maxBytes = 4 ∧ t.cache.bytes = 8 ∧ names t.cache.entries = [str "a"] ∧
      ¬ Always Timed.step Timed.Kept (Timed.new 16 16 true) ops := by
  refine ⟨by decide, by decide, by decide, fun h => ?_⟩
  exact absurd h.last.within (by decide)

end Nishro.Py
