import Mathlib.Order.Nat
import Mathlib.Data.List.Basic

/-!
# Lineages of numbered nodes

Nodes are numbered in the order in which they appear, and each knows its ancestors. A node is
covered while it or one of its descendants is held. Nodes may be let go of in any number at a time,
as long as each of them has a descendant: the descendant with the largest number that is still
covered cannot have been let go of.
-/

namespace ReplayBackoff.Lineage

variable {ancestors ancestors' : ℕ → List ℕ} {n n' : ℕ} {held held' : ℕ → Prop}

/-- Ancestors come before their descendants, and an ancestor's ancestors are ancestors. -/
structure Ordered (ancestors : ℕ → List ℕ) (n : ℕ) : Prop where
  below : ∀ v < n, ∀ u ∈ ancestors v, u < v
  closed : ∀ v < n, ∀ u ∈ ancestors v, ancestors u ⊆ ancestors v

def Descends (ancestors : ℕ → List ℕ) (u v : ℕ) : Prop := u = v ∨ u ∈ ancestors v

def Covered (ancestors : ℕ → List ℕ) (n : ℕ) (held : ℕ → Prop) (u : ℕ) : Prop :=
  ∃ v < n, Descends ancestors u v ∧ held v

theorem Descends.trans (h : Ordered ancestors n) {u v w : ℕ} (hw : w < n)
    (huv : Descends ancestors u v) (hvw : Descends ancestors v w) : Descends ancestors u w := by
  rcases hvw with rfl | hvw
  · exact huv
  · rcases huv with rfl | huv
    · exact Or.inr hvw
    · exact Or.inr (h.closed w hw v hvw huv)

theorem Covered.of_held {u : ℕ} (hu : u < n) (h : held u) : Covered ancestors n held u :=
  ⟨u, hu, Or.inl rfl, h⟩

theorem Covered.mono (h : Covered ancestors n held u) (hheld : ∀ v < n, held v → held' v) :
    Covered ancestors n held' u := by
  obtain ⟨v, hv, hdesc, hv'⟩ := h
  exact ⟨v, hv, hdesc, hheld v hv hv'⟩

theorem covered_of_held (h : Ordered ancestors n) (hcovered : ∀ u < n, Covered ancestors n held u)
    (hrelease : ∀ v < n, held v → ¬ held' v → ∃ w < n, v ∈ ancestors w) (v : ℕ) (hv : v < n)
    (hheld : held v) : Covered ancestors n held' v := by
  induction hk : n - v using Nat.strong_induction_on generalizing v with
  | _ k ih =>
    by_cases hstill : held' v
    · exact Covered.of_held hv hstill
    · obtain ⟨w, hw, hvw⟩ := hrelease v hv hheld hstill
      obtain ⟨x, hx, hwx, hheldx⟩ := hcovered w hw
      have hvx : Descends ancestors v x := Descends.trans h hx (Or.inr hvw) hwx
      have hlt : v < x := by
        have hvw' := h.below w hw v hvw
        rcases hwx with rfl | hwx
        · exact hvw'
        · exact hvw'.trans (h.below x hx w hwx)
      obtain ⟨y, hy, hxy, hheldy⟩ := ih (n - x) (by omega) x hx hheldx rfl
      exact ⟨y, hy, Descends.trans h hy hvx hxy, hheldy⟩

/-- Letting go of nodes that have descendants leaves every node covered. -/
theorem covered_of_release (h : Ordered ancestors n)
    (hcovered : ∀ u < n, Covered ancestors n held u)
    (hrelease : ∀ v < n, held v → ¬ held' v → ∃ w < n, v ∈ ancestors w) (u : ℕ) (hu : u < n) :
    Covered ancestors n held' u := by
  obtain ⟨v, hv, huv, hheld⟩ := hcovered u hu
  obtain ⟨x, hx, hvx, hheldx⟩ := covered_of_held h hcovered hrelease v hv hheld
  exact ⟨x, hx, Descends.trans h hx huv hvx, hheldx⟩

/-- New nodes keep the ancestors of the old ones, and each has the ancestors of an old node with
that node added. -/
structure Extends (ancestors ancestors' : ℕ → List ℕ) (n n' : ℕ) : Prop where
  le : n ≤ n'
  old : ∀ v < n, ancestors' v = ancestors v
  new : ∀ v, n ≤ v → v < n' → ∃ p < n, ancestors' v = p :: ancestors p

theorem Extends.ordered (hext : Extends ancestors ancestors' n n') (h : Ordered ancestors n) :
    Ordered ancestors' n' where
  below v hv u hu := by
    by_cases hold : v < n
    · rw [hext.old v hold] at hu
      exact h.below v hold u hu
    · obtain ⟨p, hp, hnew⟩ := hext.new v (Nat.not_lt.mp hold) hv
      rw [hnew] at hu
      rcases List.mem_cons.mp hu with rfl | hu
      · exact hp.trans_le (Nat.not_lt.mp hold)
      · exact (h.below p hp u hu).trans (hp.trans_le (Nat.not_lt.mp hold))
  closed v hv u hu := by
    by_cases hold : v < n
    · rw [hext.old v hold] at hu ⊢
      rw [hext.old u ((h.below v hold u hu).trans hold)]
      exact h.closed v hold u hu
    · obtain ⟨p, hp, hnew⟩ := hext.new v (Nat.not_lt.mp hold) hv
      rw [hnew] at hu ⊢
      rcases List.mem_cons.mp hu with rfl | hu
      · rw [hext.old u hp]
        exact List.subset_cons_self _ _
      · rw [hext.old u ((h.below p hp u hu).trans hp)]
        exact List.Subset.trans (h.closed p hp u hu) (List.subset_cons_self _ _)

theorem Extends.covered (hext : Extends ancestors ancestors' n n')
    (hcovered : ∀ u < n, Covered ancestors n held u) (hold : ∀ v < n, held v → held' v)
    (hnew : ∀ v, n ≤ v → v < n' → held' v) (u : ℕ) (hu : u < n') :
    Covered ancestors' n' held' u := by
  by_cases hlt : u < n
  · obtain ⟨v, hv, hdesc, hheld⟩ := hcovered u hlt
    refine ⟨v, hv.trans_le hext.le, ?_, hold v hv hheld⟩
    rw [Descends, hext.old v hv]
    exact hdesc
  · exact Covered.of_held hu (hnew u (Nat.not_lt.mp hlt) hu)

end ReplayBackoff.Lineage
