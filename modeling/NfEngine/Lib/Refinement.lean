-- SUMMARY: Machines that answer their operations, and forward simulation of one by another.
import Mathlib.Logic.Basic

/-!
# Refinement

A machine is a step function `σ → α → Option (β × σ)`: it answers an operation and
moves on, or does not admit it. A machine is simulated by another when related
states stay related and give the same answers, as long as the first one admits the
operation. The answers to whole lists of operations then agree.
-/

namespace Lib.Refinement

variable {σ τ α β : Type*} {step : σ → α → Option (β × σ)} {spec : τ → α → Option (β × τ)}

/-- The answers to a list of operations, and the state they lead to. -/
def exec (step : σ → α → Option (β × σ)) : σ → List α → Option (List β × σ)
  | s, [] => some ([], s)
  | s, a :: as =>
    (step s a).bind fun (b, s') => (exec step s' as).map fun (bs, t) => (b :: bs, t)

theorem exec_cons_eq_some {s s' : σ} {a : α} {as : List α} {answers : List β} :
    exec step s (a :: as) = some (answers, s') ↔
      ∃ b t bs, step s a = some (b, t) ∧ exec step t as = some (bs, s') ∧ answers = b :: bs := by
  simp only [exec, Option.bind_eq_some_iff, Option.map_eq_some_iff, Prod.exists, Prod.mk.injEq]
  constructor
  · rintro ⟨b, t, ht, bs, u, hu, rfl, rfl⟩
    exact ⟨b, t, bs, ht, hu, rfl⟩
  · rintro ⟨b, t, bs, ht, hu, rfl⟩
    exact ⟨b, t, ht, bs, s', hu, rfl, rfl⟩

/-- One more operation. -/
theorem exec_concat {s t t' : σ} {a : α} {b : β} {as : List α} {bs : List β}
    (hexec : exec step s as = some (bs, t)) (hstep : step t a = some (b, t')) :
    exec step s (as ++ [a]) = some (bs ++ [b], t') := by
  induction as generalizing s bs with
  | nil =>
    cases hexec
    simp [exec, hstep]
  | cons c as ih =>
    obtain ⟨d, u, ds, hfirst, hrest, rfl⟩ := exec_cons_eq_some.mp hexec
    exact exec_cons_eq_some.mpr ⟨d, u, ds ++ [b], hfirst, ih hrest, rfl⟩

/-- Related states give the same answers and stay related. -/
def Simulates (step : σ → α → Option (β × σ)) (spec : τ → α → Option (β × τ)) (R : σ → τ → Prop) :
    Prop :=
  ∀ s t a b s', R s t → step s a = some (b, s') → ∃ t', spec t a = some (b, t') ∧ R s' t'

/-- The simulation rule for a list of operations. -/
theorem Simulates.exec {R : σ → τ → Prop} (h : Simulates step spec R) {s s' : σ} {t : τ}
    {as : List α} {answers : List β} (hR : R s t)
    (hexec : Refinement.exec step s as = some (answers, s')) :
    ∃ t', Refinement.exec spec t as = some (answers, t') ∧ R s' t' := by
  induction as generalizing s t answers with
  | nil =>
    cases hexec
    exact ⟨t, rfl, hR⟩
  | cons a as ih =>
    obtain ⟨b, u, bs, hstep, hrest, rfl⟩ := exec_cons_eq_some.mp hexec
    obtain ⟨v, hspec, hR'⟩ := h s t a b u hR hstep
    obtain ⟨t', hexec', hlast⟩ := ih hR' hrest
    exact ⟨t', exec_cons_eq_some.mpr ⟨b, v, bs, hspec, hexec', rfl⟩, hlast⟩

end Lib.Refinement
