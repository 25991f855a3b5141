/-
  Dictionaries that keep the order in which their keys were first set, as association lists.

  `set` writes a key in its old place or at the end; reading is `List.lookup`.
-/
namespace Nishro.Dict

variable {α β : Type} [DecidableEq α]

/-- `d[k] = v`. -/
def set (d : List (α × β)) (k : α) (v : β) : List (α × β) :=
  if k ∈ d.map (·.1) then d.map fun kv => if kv.1 = k then (k, v) else kv else d ++ [(k, v)]

variable {d : List (α × β)}

/-! ## Keys -/

theorem keys_set (d : List (α × β)) (k : α) (v : β) :
    (set d k v).map (·.1) = if k ∈ d.map (·.1) then d.map (·.1) else d.map (·.1) ++ [k] := by
  unfold set
  by_cases hk : k ∈ d.map (·.1)
  · rw [if_pos hk, if_pos hk, List.map_map]
    refine List.map_congr_left fun kv _ => ?_
    by_cases heq : kv.1 = k
    · simp [heq]
    · simp [heq]
  · rw [if_neg hk, if_neg hk, List.map_append]
    rfl

/-- Setting keeps the keys apart. -/
theorem nodup_keys_set (h : (d.map (·.1)).Nodup) (k : α) (v : β) :
    ((set d k v).map (·.1)).Nodup := by
  rw [keys_set]
  by_cases hk : k ∈ d.map (·.1)
  · rwa [if_pos hk]
  · rw [if_neg hk]
    exact List.nodup_append.2 ⟨h, by simp, fun a ha b hb => by
      rw [List.mem_singleton.1 hb]
      exact fun he => hk (he ▸ ha)⟩

/-- Copying a dictionary entry by entry gives it back. -/
theorem foldl_set (d l : List (α × β)) (h : ((d ++ l).map (·.1)).Nodup) :
    l.foldl (fun d kv => set d kv.1 kv.2) d = d ++ l := by
  induction l generalizing d with
  | nil => simp
  | cons kv l ih =>
    have hk : kv.1 ∉ d.map (·.1) := by
      intro hmem
      rw [List.map_append, List.map_cons] at h
      exact (List.nodup_append.1 h).2.2 kv.1 hmem kv.1 List.mem_cons_self rfl
    rw [List.foldl_cons, set, if_neg hk, ih _ (by simpa using h), List.append_assoc]
    rfl

/-! ## Looking up -/

variable [BEq α] [LawfulBEq α]

theorem lookup_update_ne {k n : α} {v : β} (h : n ≠ k) :
    (d.map fun kv => if kv.1 = k then (k, v) else kv).lookup n = d.lookup n := by
  induction d with
  | nil => rfl
  | cons kv d ih =>
    obtain ⟨k', v'⟩ := kv
    by_cases hk : k' = k
    · subst hk
      simp [List.lookup_cons, beq_false_of_ne h, ih]
    · simp [hk, List.lookup_cons, ih]

theorem lookup_update_self {k : α} {v : β} (h : k ∈ d.map (·.1)) :
    (d.map fun kv => if kv.1 = k then (k, v) else kv).lookup k = some v := by
  induction d with
  | nil => cases h
  | cons kv d ih =>
    obtain ⟨k', v'⟩ := kv
    by_cases hk : k' = k
    · subst hk
      simp
    · have hne : k ≠ k' := fun e => hk e.symm
      have hd : k ∈ d.map (·.1) := by simpa [hne] using h
      simp [hk, List.lookup_cons, beq_false_of_ne hne, ih hd]

omit [DecidableEq α] in
theorem lookup_eq_none_of_not_mem {d : List (α × β)} {k : α} (h : k ∉ d.map (·.1)) :
    d.lookup k = none := by
  rw [List.lookup_eq_none_iff]
  intro kv hkv
  refine bne_iff_ne.mpr ?_
  rintro rfl
  exact h (List.mem_map_of_mem hkv)

/-- Reading what was written, and what was not. -/
theorem lookup_set (d : List (α × β)) (k n : α) (v : β) :
    (set d k v).lookup n = if n = k then some v else d.lookup n := by
  unfold set
  by_cases hn : n = k
  · subst hn
    by_cases hk : n ∈ d.map (·.1)
    · rw [if_pos hk, if_pos rfl, lookup_update_self hk]
    · rw [if_neg hk, if_pos rfl, List.lookup_append, lookup_eq_none_of_not_mem hk]
      simp
  · rw [if_neg hn]
    by_cases hk : k ∈ d.map (·.1)
    · rw [if_pos hk, lookup_update_ne hn]
    · rw [if_neg hk, List.lookup_append]
      simp [List.lookup_cons, beq_false_of_ne hn]

omit [DecidableEq α] in
/-- Dropping keys drops what was under them, and nothing else. -/
theorem lookup_filter (d : List (α × β)) (p : α → Bool) (k : α) :
    (d.filter fun kv => p kv.1).lookup k = if p k then d.lookup k else none := by
  induction d with
  | nil => simp
  | cons kv d ih =>
    obtain ⟨k', v⟩ := kv
    rw [List.filter_cons]
    by_cases hk : k = k'
    · subst hk
      by_cases hp : p k = true
      · simp [hp]
      · simp only [hp, if_false, Bool.false_eq_true] at ih ⊢
        exact ih
    · have hne : (k == k') = false := beq_false_of_ne hk
      rw [List.lookup_cons, hne, ← ih]
      split
      · rw [List.lookup_cons, hne]
      · rfl

omit [DecidableEq α] in
theorem lookup_eq_none_iff_not_mem {d : List (α × β)} {k : α} :
    d.lookup k = none ↔ k ∉ d.map (·.1) := by
  refine ⟨fun h hk => ?_, lookup_eq_none_of_not_mem⟩
  obtain ⟨kv, hkv, rfl⟩ := List.mem_map.1 hk
  simpa using List.lookup_eq_none_iff.1 h kv hkv

omit [DecidableEq α] in
theorem mem_of_lookup {d : List (α × β)} {k : α} {v : β} (h : d.lookup k = some v) : (k, v) ∈ d := by
  obtain ⟨l₁, l₂, rfl, -⟩ := List.lookup_eq_some_iff.1 h
  simp

omit [DecidableEq α] in
/-- Where the keys are apart, an entry is what is found under its key. -/
theorem lookup_of_mem (hd : (d.map (·.1)).Nodup) {k : α} {v : β} (h : (k, v) ∈ d) :
    d.lookup k = some v := by
  induction d with
  | nil => cases h
  | cons kv d ih =>
    obtain ⟨k', v'⟩ := kv
    rw [List.map_cons, List.nodup_cons] at hd
    rw [List.lookup_cons]
    rcases List.mem_cons.1 h with heq | hmem
    · obtain ⟨rfl, rfl⟩ := Prod.mk.inj heq
      simp
    · have hne : k ≠ k' := fun heq => hd.1 (List.mem_map.2 ⟨(k, v), hmem, heq⟩)
      rw [beq_false_of_ne hne]
      exact ih hd.2 hmem

end Nishro.Dict
