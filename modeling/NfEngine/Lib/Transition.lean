-- SUMMARY: Runs of a partial step function, conditions along a run, and the invariant rules.
import Mathlib.Data.List.Infix

/-!
# Transition systems

A system is a step function `σ → α → Option σ`: the label of an action carries
every choice the environment makes, so that a step is deterministic once its
label is known, and `none` says that the action is not enabled. A run is a list
of actions. Safety properties are proved with `run_induct`; a property that
holds only while the environment respects some condition is proved along runs
that satisfy `Along`.
-/

namespace Lib.Transition

variable {σ α : Type*} {step : σ → α → Option σ}

/-- The state reached by performing the actions in order. -/
def run (step : σ → α → Option σ) : σ → List α → Option σ
  | s, [] => some s
  | s, a :: as => (step s a).bind fun s' => run step s' as

/-- Every action of the run satisfies `ok` in the state it is performed in. -/
def Along (step : σ → α → Option σ) (ok : σ → α → Prop) : σ → List α → Prop
  | _, [] => True
  | s, a :: as => ok s a ∧ ∀ s', step s a = some s' → Along step ok s' as

instance decidableAlong (step : σ → α → Option σ) (ok : σ → α → Prop) [∀ s a, Decidable (ok s a)] :
    ∀ s as, Decidable (Along step ok s as)
  | _, [] => isTrue trivial
  | s, a :: as =>
    match h : step s a with
    | none => decidable_of_iff (ok s a) (by simp [Along, h])
    | some t =>
      have := decidableAlong step ok t as
      decidable_of_iff (ok s a ∧ Along step ok t as) (by simp [Along, h])

/-- Every state the run goes through, the first one included, satisfies `P`. -/
def Always (step : σ → α → Option σ) (P : σ → Prop) : σ → List α → Prop
  | s, [] => P s
  | s, a :: as => P s ∧ ∀ s', step s a = some s' → Always step P s' as

theorem Always.start {P : σ → Prop} {s : σ} {as : List α} (h : Always step P s as) : P s := by
  cases as with
  | nil => exact h
  | cons a as => exact h.1

@[simp] theorem run_nil (s : σ) : run step s [] = some s := rfl

theorem run_cons_eq_some {s s' : σ} {a : α} {as : List α} :
    run step s (a :: as) = some s' ↔ ∃ t, step s a = some t ∧ run step t as = some s' := by
  simp [run, Option.bind_eq_some_iff]

theorem run_concat_eq_some {s s' : σ} {a : α} {as : List α} :
    run step s (as ++ [a]) = some s' ↔ ∃ t, run step s as = some t ∧ step t a = some s' := by
  induction as generalizing s with
  | nil => simp [run]
  | cons b as ih =>
    simp only [List.cons_append, run_cons_eq_some, ih]
    constructor
    · rintro ⟨u, hu, t, ht, hlast⟩
      exact ⟨t, ⟨u, hu, ht⟩, hlast⟩
    · rintro ⟨t, ⟨u, hu, ht⟩, hlast⟩
      exact ⟨u, hu, t, ht, hlast⟩

theorem along_append {ok : σ → α → Prop} {s t : σ} {as bs : List α}
    (hrun : run step s as = some t) (h : Along step ok s (as ++ bs)) :
    Along step ok s as ∧ Along step ok t bs := by
  induction as generalizing s with
  | nil =>
    cases hrun
    exact ⟨trivial, h⟩
  | cons a as ih =>
    obtain ⟨u, hu, hrun'⟩ := run_cons_eq_some.mp hrun
    have hrest := ih hrun' (h.2 u hu)
    refine ⟨⟨h.1, ?_⟩, hrest.2⟩
    intro s' hs'
    rw [hu] at hs'
    cases hs'
    exact hrest.1

/-- The invariant rule: what holds at the start and survives every step that
    respects `ok` holds at the end of every run that respects `ok`. -/
theorem run_induct {ok : σ → α → Prop} {I : σ → Prop}
    (hstep : ∀ s a s', I s → ok s a → step s a = some s' → I s')
    {s s' : σ} {as : List α} (h₀ : I s) (hok : Along step ok s as)
    (hrun : run step s as = some s') : I s' := by
  induction as generalizing s with
  | nil =>
    cases hrun
    exact h₀
  | cons a as ih =>
    obtain ⟨t, ht, hrun'⟩ := run_cons_eq_some.mp hrun
    exact ih (hstep s a t h₀ hok.1 ht) (hok.2 t ht) hrun'

/-- The invariant rule for an invariant that speaks of the actions so far. -/
theorem run_induct_trace {I : List α → σ → Prop} {s s' : σ} {as : List α} (h₀ : I [] s)
    (hstep : ∀ as s a s', I as s → step s a = some s' → I (as ++ [a]) s')
    (hrun : run step s as = some s') : I as s' := by
  have hgo : ∀ past s, I past s → run step s as = some s' → I (past ++ as) s' := by
    clear h₀ hrun
    induction as with
    | nil =>
      intro past s h hrun
      cases hrun
      rwa [List.append_nil]
    | cons a as ih =>
      intro past s h hrun
      obtain ⟨t, ht, hrest⟩ := run_cons_eq_some.mp hrun
      rw [List.append_cons]
      exact ih (past ++ [a]) t (hstep past s a t h ht) hrest
  exact hgo [] s h₀ hrun

/-- The invariant rule for a property of steps: the invariant holds in the state
    in which the last action is performed, and so does the condition. -/
theorem run_last_step {ok : σ → α → Prop} {I : σ → Prop}
    (hstep : ∀ s a s', I s → ok s a → step s a = some s' → I s')
    {s t : σ} {as : List α} {a : α} (h₀ : I s) (hok : Along step ok s (as ++ [a]))
    (hrun : run step s as = some t) : I t ∧ ok t a := by
  obtain ⟨hpre, hlast⟩ := along_append hrun hok
  exact ⟨run_induct hstep h₀ hpre hrun, hlast.1⟩

/-- A run without a condition respects the trivial one. -/
theorem along_true (s : σ) (as : List α) : Along step (fun _ _ => True) s as := by
  induction as generalizing s with
  | nil => trivial
  | cons a as ih => exact ⟨trivial, fun s' _ => ih s'⟩

/-- A condition that every action of the run meets in every state. -/
theorem along_of_forall {ok : σ → α → Prop} {s : σ} {as : List α} (h : ∀ a ∈ as, ∀ s, ok s a) :
    Along step ok s as := by
  induction as generalizing s with
  | nil => trivial
  | cons a as ih =>
    refine ⟨h a List.mem_cons_self s, fun s' _ => ih fun b hb => ?_⟩
    exact h b (List.mem_cons_of_mem a hb)

/-- When `ok` is exactly what a step from a good state needs in order to end in
    a good state, the runs that stay good are the runs that respect `ok`. -/
theorem always_iff_along {ok : σ → α → Prop} {P : σ → Prop}
    (hstep : ∀ s a s', P s → step s a = some s' → (P s' ↔ ok s a))
    {s s' : σ} {as : List α} (h₀ : P s) (hrun : run step s as = some s') :
    Always step P s as ↔ Along step ok s as := by
  induction as generalizing s with
  | nil => simp [Always, Along, h₀]
  | cons a as ih =>
    obtain ⟨t, ht, hrun'⟩ := run_cons_eq_some.mp hrun
    simp only [Always, Along, ht, Option.some.injEq, forall_eq', h₀, true_and]
    constructor
    · intro h
      have hPt : P t := h.start
      exact ⟨(hstep s a t h₀ ht).mp hPt, (ih hPt hrun').mp h⟩
    · rintro ⟨hok, h⟩
      exact (ih ((hstep s a t h₀ ht).mpr hok) hrun').mpr h

/-- An invariant may be assumed in every state of a run. -/
theorem always_iff_of_inv {I P : σ → Prop} (hstep : ∀ s a s', I s → step s a = some s' → I s') {s : σ}
    {as : List α} (h₀ : I s) : Always step P s as ↔ Always step (fun s => I s ∧ P s) s as := by
  induction as generalizing s with
  | nil => exact ⟨fun h => ⟨h₀, h⟩, fun h => h.2⟩
  | cons a as ih =>
    constructor
    · intro h
      exact ⟨⟨h₀, h.1⟩, fun s' hs' => (ih (hstep s a s' h₀ hs')).mp (h.2 s' hs')⟩
    · intro h
      exact ⟨h.1.2, fun s' hs' => (ih (hstep s a s' h₀ hs')).mpr (h.2 s' hs')⟩

/-! ## Steps that come to an end -/

section Weight

variable {ok : α → Prop} {w : σ → ℕ}

end Weight

/-! ## Reachable states -/

/-- Allowed actions can lead to a state with `P`. -/
def Reaches (step : σ → α → Option σ) (ok : σ → α → Prop) (P : σ → Prop) (s : σ) : Prop :=
  ∃ as s', Along step ok s as ∧ run step s as = some s' ∧ P s'

theorem Reaches.here {ok : σ → α → Prop} {P : σ → Prop} {s : σ} (h : P s) : Reaches step ok P s :=
  ⟨[], s, trivial, rfl, h⟩

theorem Reaches.after {ok : σ → α → Prop} {P : σ → Prop} {s t : σ} (a : α) (hok : ok s a)
    (hstep : step s a = some t) (h : Reaches step ok P t) : Reaches step ok P s := by
  obtain ⟨as, s', halong, hrun, hP⟩ := h
  refine ⟨a :: as, s', ⟨hok, fun t' hstep' => ?_⟩, run_cons_eq_some.mpr ⟨t, hstep, hrun⟩, hP⟩
  cases hstep.symm.trans hstep'
  exact halong

end Lib.Transition
