/-
  Runs of a machine, and the rules that every run-level result of this development is an
  instance of.

  Two presentations are used.  A machine with a network around it is a step RELATION
  `step : σ → ε → σ → Prop`; its reachable states are `Reach` and its invariants come from
  `Reach.inv`.  A machine that is a FUNCTION
  `step : σ → ε → σ` of its inputs is run over a list of events; `Along` says that every step of
  such a run meets a condition and `Always` that every state of it does.
-/
namespace Nishro.Runs

variable {σ ε τ δ : Type}

/-! ## Reachability under a step relation -/

/-- The states reached from `init` by any number of `step`s. -/
inductive Reach (init : σ → Prop) (step : σ → ε → σ → Prop) : σ → Prop
  | start {s : σ} : init s → Reach init step s
  | next {s s' : σ} {e : ε} : Reach init step s → step s e s' → Reach init step s'

variable {I : σ → Prop} {s : σ}

/-- **The invariant rule.**  What holds at the start and survives every step holds of every
    reachable state. -/
theorem Reach.inv {init : σ → Prop} {step : σ → ε → σ → Prop} (h0 : ∀ s, init s → I s)
    (hstep : ∀ s e s', I s → step s e s' → I s') (h : Reach init step s) : I s := by
  induction h with
  | start hs => exact h0 _ hs
  | next _ hst ih => exact hstep _ _ _ ih hst

/-! ## Runs of a function over a list of events -/

variable (step : σ → ε → σ)

/-- The state a list of events leads to. -/
def run (s : σ) (es : List ε) : σ := es.foldl step s

@[simp] theorem run_nil (s : σ) : run step s [] = s := rfl

@[simp] theorem run_cons (s : σ) (e : ε) (es : List ε) :
    run step s (e :: es) = run step (step s e) es := rfl

theorem run_append (s : σ) (es es' : List ε) :
    run step s (es ++ es') = run step (run step s es) es' := by
  simp [run]

/-- Every step of the run meets `ok`, a condition on the state before it and on its event. -/
def Along (ok : σ → ε → Prop) : σ → List ε → Prop
  | _, [] => True
  | s, e :: es => ok s e ∧ Along ok (step s e) es

/-- Every state of the run, the first and the last included, satisfies `I`. -/
def Always (I : σ → Prop) : σ → List ε → Prop
  | s, [] => I s
  | s, e :: es => I s ∧ Always I (step s e) es

variable {step}

variable {es : List ε}

theorem Always.head (h : Always step I s es) : I s := by
  cases es with
  | nil => exact h
  | cons e es => exact h.1

theorem Always.last (h : Always step I s es) : I (run step s es) := by
  induction es generalizing s with
  | nil => exact h
  | cons e es ih => exact ih h.2

theorem Always.mono {I J : σ → Prop} (hIJ : ∀ s, I s → J s) (h : Always step I s es) :
    Always step J s es := by
  induction es generalizing s with
  | nil => exact hIJ s h
  | cons e es ih => exact ⟨hIJ s h.1, ih h.2⟩

theorem Always.and {I J : σ → Prop} (hI : Always step I s es) (hJ : Always step J s es) :
    Always step (fun s => I s ∧ J s) s es := by
  induction es generalizing s with
  | nil => exact ⟨hI, hJ⟩
  | cons e es ih => exact ⟨⟨hI.1, hJ.1⟩, ih hI.2 hJ.2⟩

variable {ok : σ → ε → Prop}

/-- What every step meets, wherever it is taken from, is met along every run. -/
theorem along_of_forall (h : ∀ s e, ok s e) (s : σ) (es : List ε) : Along step ok s es := by
  induction es generalizing s with
  | nil => exact trivial
  | cons e es ih => exact ⟨h s e, ih (step s e)⟩

theorem along_congr {ok ok' : σ → ε → Prop} (h : ∀ s e, ok s e ↔ ok' s e) (s : σ) (es : List ε) :
    Along step ok s es ↔ Along step ok' s es := by
  induction es generalizing s with
  | nil => exact Iff.rfl
  | cons e es ih => exact and_congr (h s e) (ih (step s e))

theorem along_append (s : σ) (es es' : List ε) :
    Along step ok s (es ++ es') ↔ Along step ok s es ∧ Along step ok (run step s es) es' := by
  induction es generalizing s with
  | nil => simp [Along]
  | cons e es ih => simp [Along, ih, and_assoc]

/-- A condition on every event is met along the run with any other. -/
theorem Along.and_events {p : ε → Prop} (h : Along step ok s es) (hp : ∀ e ∈ es, p e) :
    Along step (fun s e => ok s e ∧ p e) s es := by
  induction es generalizing s with
  | nil => exact trivial
  | cons e es ih =>
    exact ⟨⟨h.1, hp e List.mem_cons_self⟩, ih h.2 fun e' he' => hp e' (List.mem_cons_of_mem _ he')⟩

/-- Two conditions that agree wherever an invariant of the run holds agree along the run. -/
theorem along_congr_of_inv {ok ok' valid : σ → ε → Prop}
    (hinv : ∀ s e, I s → valid s e → I (step s e)) (h : ∀ s e, I s → valid s e → (ok s e ↔ ok' s e))
    (h0 : I s) (hvalid : Along step valid s es) : Along step ok s es ↔ Along step ok' s es := by
  induction es generalizing s with
  | nil => exact Iff.rfl
  | cons e es ih => exact and_congr (h s e h0 hvalid.1) (ih (hinv s e h0 hvalid.1) hvalid.2)

/-- The invariant rule for guarded runs: an invariant preserved by every step that meets `ok`
    holds along every run whose steps all do. -/
theorem Along.always (hstep : ∀ s e, I s → ok s e → I (step s e)) (h0 : I s)
    (h : Along step ok s es) : Always step I s es := by
  induction es generalizing s with
  | nil => exact h0
  | cons e es ih => exact ⟨h0, ih (hstep s e h0 h.1) h.2⟩

/-- What every step keeps holds along every run. -/
theorem always_of_step (hstep : ∀ s e, I s → I (step s e)) (h0 : I s) (es : List ε) :
    Always step I s es := by
  have hany : Along step (fun _ _ => True) s es := along_of_forall (fun _ _ => trivial) s es
  exact Along.always (fun s e h _ => hstep s e h) h0 hany

/-- The converse rule: if a step from a good state to a good state must have met `ok`, then a run
    through good states only has steps that meet it. -/
theorem Always.along (hstep : ∀ s e, I s → I (step s e) → ok s e) (h : Always step I s es) :
    Along step ok s es := by
  induction es generalizing s with
  | nil => exact trivial
  | cons e es ih => exact ⟨hstep s e h.1 h.2.head, ih h.2⟩

/-- Both at once, for a property that an invariant implies and that every step outside `ok` breaks. -/
theorem always_iff_along {I P : σ → Prop} (hI : ∀ s, I s → P s)
    (hgood : ∀ s e, I s → ok s e → I (step s e)) (hbad : ∀ s e, I s → ¬ ok s e → ¬ P (step s e))
    (es : List ε) (h0 : I s) : Always step P s es ↔ Along step ok s es := by
  refine ⟨fun h => ?_, fun h => (Along.always hgood h0 h).mono hI⟩
  induction es generalizing s with
  | nil => exact trivial
  | cons e es ih =>
    have hok : ok s e := Classical.byContradiction fun hno => hbad s e h0 hno h.2.head
    exact ⟨hok, ih (hgood s e h0 hok) h.2⟩

/-! ## Ways from one set of states to another -/

/-- From every state in `P` there is a run, of steps that meet `ok`, to one in `Q`. -/
def Leads (step : σ → ε → σ) (ok : σ → ε → Prop) (P Q : σ → Prop) : Prop :=
  ∀ s, P s → ∃ es, Along step ok s es ∧ Q (run step s es)

theorem Leads.trans {P Q R : σ → Prop} (h : Leads step ok P Q) (h' : Leads step ok Q R) :
    Leads step ok P R := by
  intro s hs
  obtain ⟨es, hes, hq⟩ := h s hs
  obtain ⟨es', hes', hr⟩ := h' _ hq
  refine ⟨es ++ es', (along_append s es es').2 ⟨hes, hes'⟩, ?_⟩
  rw [run_append]
  exact hr

theorem Leads.of_step {P Q : σ → Prop} (h : ∀ s, P s → ∃ e, ok s e ∧ Q (step s e)) :
    Leads step ok P Q := by
  intro s hs
  obtain ⟨e, he, hq⟩ := h s hs
  exact ⟨[e], ⟨he, trivial⟩, hq⟩

/-- As often as one likes. -/
theorem Leads.iterate {P : Nat → σ → Prop} {bound : Nat}
    (h : ∀ k, k < bound → Leads step ok (P k) (P (k + 1))) :
    ∀ k, k ≤ bound → Leads step ok (P 0) (P k) := by
  intro k
  induction k with
  | zero => exact fun _ s hs => ⟨[], trivial, hs⟩
  | succ k ih => exact fun hk => (ih (by omega)).trans (h k hk)

end Nishro.Runs
