import Mathlib.Algebra.BigOperators.Ring.Finset
import Mathlib.Algebra.Order.BigOperators.Group.Finset
import Mathlib.Algebra.Order.BigOperators.Group.List
import Mathlib.Algebra.BigOperators.Group.List.Basic
import Mathlib.Logic.Relation
import Mathlib.Tactic.Ring

/-!
# Systems that pay for their steps

A state holds a potential, and every step takes its price out of it. The runs of such a system are
no longer than their first potential allows, and each of them leads on to a state in which no step
is possible. The potential is a relation, since it may depend on a choice that the state leaves
open.

The last part prices a tree in which every node has boundedly many children.
-/

namespace ReplayBackoff.Potential

variable {σ : Type*} {step : σ → σ → Prop} {holds : σ → ℕ → Prop} {price n p : ℕ} {s t u : σ}

inductive Steps (step : σ → σ → Prop) : ℕ → σ → σ → Prop
  | refl (s : σ) : Steps step 0 s s
  | tail {n : ℕ} {s t u : σ} : Steps step n s t → step t u → Steps step (n + 1) s u

def Final (step : σ → σ → Prop) (s : σ) : Prop := ∀ t, ¬ step s t

/-- Every step leaves a potential that is lower by the price. -/
def Pays (step : σ → σ → Prop) (price : ℕ) (holds : σ → ℕ → Prop) : Prop :=
  ∀ s t p, holds s p → step s t → ∃ q, holds t q ∧ q + price ≤ p

theorem Steps.reflTransGen (h : Steps step n s t) : Relation.ReflTransGen step s t := by
  induction h with
  | refl s => exact .refl
  | tail _ hstep ih => exact ih.tail hstep

theorem exists_steps (h : Relation.ReflTransGen step s t) : ∃ n, Steps step n s t := by
  induction h with
  | refl => exact ⟨0, .refl s⟩
  | tail _ hstep ih =>
    obtain ⟨n, hn⟩ := ih
    exact ⟨n + 1, hn.tail hstep⟩

theorem Steps.mono {step' : σ → σ → Prop} (hsub : ∀ s t, step' s t → step s t)
    (h : Steps step' n s t) : Steps step n s t := by
  induction h with
  | refl s => exact .refl s
  | tail _ hstep ih => exact ih.tail (hsub _ _ hstep)

theorem Pays.mono {step' : σ → σ → Prop} (hpays : Pays step price holds)
    (hsub : ∀ s t, step' s t → step s t) : Pays step' price holds :=
  fun s t p hs hstep => hpays s t p hs (hsub s t hstep)

theorem Pays.run (hpays : Pays step price holds) (hs : holds s p) (hrun : Steps step n s t) :
    ∃ q, holds t q ∧ q + n * price ≤ p := by
  induction hrun with
  | refl s => exact ⟨p, hs, by omega⟩
  | tail _ hstep ih =>
    obtain ⟨q, hq, hle⟩ := ih hs
    obtain ⟨q', hq', hle'⟩ := hpays _ _ q hq hstep
    refine ⟨q', hq', ?_⟩
    rw [Nat.succ_mul]
    omega

theorem Pays.length_le (hpays : Pays step 1 holds) (hs : holds s p) (hrun : Steps step n s t) :
    n ≤ p := by
  obtain ⟨q, -, hle⟩ := hpays.run hs hrun
  omega

/-- Every state leads on to a final one. -/
theorem Pays.exists_final (hpays : Pays step 1 holds) (hs : holds s p) :
    ∃ t, Relation.ReflTransGen step s t ∧ Final step t := by
  induction p using Nat.strong_induction_on generalizing s with
  | _ p ih =>
    by_cases hfinal : Final step s
    · exact ⟨s, .refl, hfinal⟩
    · obtain ⟨t, hstep⟩ : ∃ t, step s t := by simpa [Final] using hfinal
      obtain ⟨q, hq, hle⟩ := hpays s t p hs hstep
      obtain ⟨u, hrun, hu⟩ := ih q (by omega) hq
      exact ⟨u, .head hstep hrun, hu⟩

/-- The price of a tree of the given height whose nodes have `branching` children each. -/
def treePrice (node branching : ℕ) : ℕ → ℕ
  | 0 => node
  | height + 1 => node + branching * treePrice node branching height

theorem treePrice_eq (node branching height : ℕ) :
    treePrice node branching height = node * ∑ i ∈ Finset.range (height + 1), branching ^ i := by
  induction height with
  | zero => simp [treePrice]
  | succ height ih =>
    have hshift : ∑ i ∈ Finset.range (height + 1 + 1), branching ^ i =
        1 + branching * ∑ i ∈ Finset.range (height + 1), branching ^ i := by
      rw [Finset.sum_range_succ', Finset.mul_sum, pow_zero, Nat.add_comm]
      simp only [pow_succ']
    rw [treePrice, ih, hshift]
    ring

variable {α : Type*}

theorem sum_range_length (l : List α) (f : ℕ → ℕ) (g : α → ℕ)
    (h : ∀ i a, l[i]? = some a → f i = g a) :
    ∑ i ∈ Finset.range l.length, f i = (l.map g).sum := by
  induction l generalizing f with
  | nil => rfl
  | cons a l ih =>
    rw [List.length_cons, Finset.sum_range_succ', List.map_cons, List.sum_cons,
      ih (fun i => f (i + 1)) (fun i b hb => h (i + 1) b hb), h 0 a rfl, Nat.add_comm]

theorem sum_map_flatMap {β : Type*} (l : List α) (g : α → List β) (f : β → ℕ) :
    ((l.flatMap g).map f).sum = (l.map (fun a => ((g a).map f).sum)).sum := by
  rw [List.map_flatMap, List.flatMap_def, List.sum_flatten, List.map_map]
  rfl

theorem sum_add_le_of_mem {s : Finset ℕ} {f g : ℕ → ℕ} {i : ℕ} (hi : i ∈ s)
    (hlt : g i + price ≤ f i) (hle : ∀ j ∈ s, j ≠ i → g j ≤ f j) :
    ∑ j ∈ s, g j + price ≤ ∑ j ∈ s, f j := by
  rw [← Finset.add_sum_erase s f hi, ← Finset.add_sum_erase s g hi]
  have hrest : ∑ j ∈ s.erase i, g j ≤ ∑ j ∈ s.erase i, f j :=
    Finset.sum_le_sum (fun j hj => hle j (Finset.mem_of_mem_erase hj) (Finset.ne_of_mem_erase hj))
  omega

theorem sum_insert_le {s : Finset ℕ} {f g : ℕ → ℕ} {i : ℕ} (hle : ∀ j ∈ s, j ≠ i → g j ≤ f j) :
    ∑ j ∈ insert i s, g j ≤ g i + ∑ j ∈ s, f j := by
  rw [← Finset.add_sum_erase _ g (Finset.mem_insert_self i s), Finset.erase_insert_eq_erase]
  have hrest : ∑ j ∈ s.erase i, g j ≤ ∑ j ∈ s.erase i, f j :=
    Finset.sum_le_sum (fun j hj => hle j (Finset.mem_of_mem_erase hj) (Finset.ne_of_mem_erase hj))
  have hsub : ∑ j ∈ s.erase i, f j ≤ ∑ j ∈ s, f j :=
    Finset.sum_le_sum_of_subset (Finset.erase_subset i s)
  omega

end ReplayBackoff.Potential
