/-
  Keys in the order of their last use.

  A clock counts the uses, and `used k` is the time of the last use of `k`.  A list of keys is RANKED
  if it runs from the least recently used one to the most recently used one; a new use moves its key
  to the end.  Of a ranked list cut in two, the front part is the least recently used.
-/
namespace Nishro.Recency

variable {α : Type}

/-- The keys stand in the order of their last use, and every use is in the past. -/
structure Ranked (keys : List α) (used : α → Nat) (now : Nat) : Prop where
  order : keys.Pairwise fun a b => used a < used b
  past : ∀ k ∈ keys, used k < now

variable {keys : List α} {used : α → Nat} {now : Nat}

theorem ranked_nil (used : α → Nat) (now : Nat) : Ranked [] used now :=
  ⟨List.Pairwise.nil, fun _ h => nomatch h⟩

theorem Ranked.sublist (h : Ranked keys used now) {keys' : List α} (hs : keys'.Sublist keys) :
    Ranked keys' used now :=
  ⟨h.order.sublist hs, fun k hk => h.past k (hs.subset hk)⟩

/-- No key stands there twice. -/
theorem Ranked.nodup (h : Ranked keys used now) : keys.Nodup := by
  apply h.order.imp
  intro a b hlt heq
  subst heq
  exact Nat.lt_irrefl _ hlt

/-- What stands in front was used before what stands behind. -/
theorem Ranked.front_older {front back : List α} (h : Ranked (front ++ back) used now) {a b : α}
    (ha : a ∈ front) (hb : b ∈ back) : used a < used b :=
  (List.pairwise_append.1 h.order).2.2 a ha b hb

variable [DecidableEq α]

/-- A use, now. -/
def use (used : α → Nat) (now : Nat) (k : α) : α → Nat := fun a => if a = k then now else used a

theorem use_self (used : α → Nat) (now : Nat) (k : α) : use used now k k = now := if_pos rfl

theorem use_of_ne (used : α → Nat) (now : Nat) {k a : α} (h : a ≠ k) : use used now k a = used a :=
  if_neg h

/-- A key that is used goes to the end. -/
theorem Ranked.use (h : Ranked keys used now) (k : α) :
    Ranked (keys.filter (fun a => a ≠ k) ++ [k]) (Recency.use used now k) (now + 1) := by
  have hrest := h.sublist (List.filter_sublist (p := fun a => decide (a ≠ k)))
  have hne : ∀ a ∈ keys.filter (fun a => a ≠ k), a ≠ k := fun a ha => by
    simpa using (List.mem_filter.1 ha).2
  refine ⟨List.pairwise_append.2 ⟨?_, List.pairwise_singleton _ _, ?_⟩, ?_⟩
  · refine hrest.order.imp_of_mem fun {a b} ha hb hab => ?_
    rw [use_of_ne _ _ (hne a ha), use_of_ne _ _ (hne b hb)]
    exact hab
  · intro a ha b hb
    rw [List.mem_singleton.1 hb, use_self, use_of_ne _ _ (hne a ha)]
    exact hrest.past a ha
  intro a ha
  rcases List.mem_append.1 ha with ha | ha
  · rw [use_of_ne _ _ (hne a ha)]
    exact Nat.lt_succ_of_lt (hrest.past a ha)
  · rw [List.mem_singleton.1 ha, use_self]
    exact Nat.lt_succ_self now

end Nishro.Recency
