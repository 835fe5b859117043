import Mathlib.Tactic
import Mathlib.Data.List.Basic

/-!
# Runs of a partial step function

`runOps step s ops` applies the operations `ops` one after another and stops with `none` at the first one that is not
enabled. `Along step Ok s ops` says that every operation of the run meets `Ok` in the state it is applied to.
The invariant rule `Along.invariant` turns a step lemma into a statement about whole runs.
-/

namespace TSpider.Lib

variable {σ α : Type*} {step : σ → α → Option σ} {Ok : σ → α → Prop}

/-- The state after the operations `ops`, or `none` if one of them is not enabled. -/
def runOps (step : σ → α → Option σ) : σ → List α → Option σ
  | s, [] => some s
  | s, a :: ops => (step s a).bind fun t => runOps step t ops

/-- Every operation of the run meets `Ok` in the state it is applied to. -/
def Along (step : σ → α → Option σ) (Ok : σ → α → Prop) : σ → List α → Prop
  | _, [] => True
  | s, a :: ops => Ok s a ∧ match step s a with
    | some t => Along step Ok t ops
    | none => True

instance Along.decidable [∀ s a, Decidable (Ok s a)] : ∀ s ops, Decidable (Along step Ok s ops)
  | _, [] => isTrue trivial
  | s, a :: ops => by
    unfold Along
    exact @instDecidableAnd _ _ _ (match step s a with
      | some t => Along.decidable t ops
      | none => isTrue trivial)

@[simp] theorem runOps_nil (s : σ) : runOps step s [] = some s := rfl

theorem runOps_cons_eq_some {s u : σ} {a : α} {ops : List α} :
    runOps step s (a :: ops) = some u ↔ ∃ t, step s a = some t ∧ runOps step t ops = some u := by
  simp [runOps, Option.bind_eq_some_iff]

/-- **Invariant rule.** What every enabled step that meets `Ok` preserves holds after every run of such steps. -/
theorem Along.invariant (Inv : σ → Prop)
    (hstep : ∀ s a t, Inv s → Ok s a → step s a = some t → Inv t) :
    ∀ {ops : List α} {s t : σ}, Inv s → Along step Ok s ops → runOps step s ops = some t → Inv t
  | [], s, t, hs, _, hrun => by
    obtain rfl : s = t := by simpa using hrun
    exact hs
  | a :: ops, s, t, hs, hok, hrun => by
    obtain ⟨u, hu, hrest⟩ := runOps_cons_eq_some.mp hrun
    have hnext := hok.2
    rw [hu] at hnext
    exact Along.invariant Inv hstep (hstep s a u hs hok.1 hu) hnext hrest

theorem runOps_invariant (Inv : σ → Prop) (hstep : ∀ s a t, Inv s → step s a = some t → Inv t) {ops : List α} {s t : σ}
    (hs : Inv s) (hrun : runOps step s ops = some t) : Inv t := by
  induction ops generalizing s with
  | nil => exact Option.some.inj hrun ▸ hs
  | cons a ops ih =>
    obtain ⟨u, hu, hrest⟩ := runOps_cons_eq_some.mp hrun
    exact ih (hstep s a u hs hu) hrest

end TSpider.Lib
