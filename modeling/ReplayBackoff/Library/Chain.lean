import ReplayBackoff.Library.Lineage

/-!
# Lineages without branches

A node's ancestors are its parent and the ancestors of its parent. Where no node has two children,
the descendants of a node form a chain, and the chain ends in exactly one node without a child.
-/

namespace ReplayBackoff.Lineage

variable {ancestors ancestors' : ℕ → List ℕ} {n n' : ℕ} {u v w p : ℕ}

def IsParent (ancestors : ℕ → List ℕ) (p v : ℕ) : Prop := ancestors v = p :: ancestors p

structure Forest (ancestors : ℕ → List ℕ) (n : ℕ) : Prop where
  parent : ∀ v < n, ancestors v = [] ∨ ∃ p < v, IsParent ancestors p v

def Unary (ancestors : ℕ → List ℕ) (n : ℕ) : Prop :=
  ∀ p v w, v < n → w < n → IsParent ancestors p v → IsParent ancestors p w → v = w

def Leaf (ancestors : ℕ → List ℕ) (n : ℕ) (v : ℕ) : Prop := ∀ w < n, v ∉ ancestors w

theorem IsParent.descends (h : IsParent ancestors p v) (hup : Descends ancestors u p) :
    Descends ancestors u v := by
  right
  rw [h]
  rcases hup with rfl | hup
  · exact List.mem_cons_self
  · exact List.mem_cons_of_mem p hup

theorem IsParent.of_mem (h : IsParent ancestors p v) (hu : u ∈ ancestors v) :
    Descends ancestors u p := by
  rw [h] at hu
  rcases List.mem_cons.mp hu with rfl | hu
  · exact Or.inl rfl
  · exact Or.inr hu

theorem Forest.exists_parent (h : Forest ancestors n) (hv : v < n) (hu : u ∈ ancestors v) :
    ∃ p < v, IsParent ancestors p v ∧ Descends ancestors u p := by
  rcases h.parent v hv with hnil | ⟨p, hp, hparent⟩
  · rw [hnil] at hu
    cases hu
  · exact ⟨p, hp, hparent, hparent.of_mem hu⟩

/-- The way from an ancestor to a node goes through a child of the ancestor. -/
theorem Forest.exists_child (h : Forest ancestors n) (hw : w < n) (hp : p ∈ ancestors w) :
    ∃ c < n, IsParent ancestors p c ∧ Descends ancestors c w := by
  induction w using Nat.strong_induction_on with
  | _ w ih =>
    obtain ⟨q, hq, hparent, hdesc⟩ := h.exists_parent hw hp
    rcases hdesc with rfl | hpq
    · exact ⟨w, hw, hparent, Or.inl rfl⟩
    · obtain ⟨c, hc, hpc, hcq⟩ := ih q hq (hq.trans hw) hpq
      exact ⟨c, hc, hpc, hparent.descends hcq⟩

theorem Forest.chain (h : Forest ancestors n) (hunary : Unary ancestors n) (hv : v < n) (hw : w < n)
    (huv : Descends ancestors u v) (huw : Descends ancestors u w) :
    Descends ancestors v w ∨ Descends ancestors w v := by
  induction v using Nat.strong_induction_on with
  | _ v ih =>
    rcases huv with rfl | huv
    · exact Or.inl huw
    · obtain ⟨p, hp, hparent, hup⟩ := h.exists_parent hv huv
      rcases ih p hp (hp.trans hv) hup with hpw | hwp
      · rcases hpw with rfl | hpw
        · exact Or.inr (hparent.descends (Or.inl rfl))
        · obtain ⟨c, hc, hpc, hcw⟩ := h.exists_child hw hpw
          obtain rfl := hunary p c v hc hv hpc hparent
          exact Or.inl hcw
      · exact Or.inr (hparent.descends hwp)

theorem Leaf.eq_of_descends (h : Leaf ancestors n v) (hw : w < n) (hvw : Descends ancestors v w) :
    v = w := by
  rcases hvw with rfl | hvw
  · rfl
  · exact absurd hvw (h w hw)

theorem exists_leaf (hordered : Ordered ancestors n) (hu : u < n) :
    ∃ v < n, Descends ancestors u v ∧ Leaf ancestors n v := by
  induction hk : n - u using Nat.strong_induction_on generalizing u with
  | _ k ih =>
    by_cases hleaf : Leaf ancestors n u
    · exact ⟨u, hu, Or.inl rfl, hleaf⟩
    · obtain ⟨w, hw, huw⟩ : ∃ w < n, u ∈ ancestors w := by simpa [Leaf] using hleaf
      have hlt := hordered.below w hw u huw
      obtain ⟨v, hv, hwv, hleaf⟩ := ih (n - w) (by omega) hw rfl
      exact ⟨v, hv, Descends.trans hordered hv (Or.inr huw) hwv, hleaf⟩

theorem existsUnique_leaf (hordered : Ordered ancestors n) (hforest : Forest ancestors n)
    (hunary : Unary ancestors n) (hu : u < n) :
    ∃! v, v < n ∧ Descends ancestors u v ∧ Leaf ancestors n v := by
  obtain ⟨v, hv, huv, hleaf⟩ := exists_leaf hordered hu
  refine ⟨v, ⟨hv, huv, hleaf⟩, ?_⟩
  rintro w ⟨hw, huw, hleafw⟩
  rcases hforest.chain hunary hv hw huv huw with hvw | hwv
  · exact (hleaf.eq_of_descends hw hvw).symm
  · exact hleafw.eq_of_descends hv hwv

theorem Extends.isParent_old (hext : Extends ancestors ancestors' n n')
    (hordered : Ordered ancestors n) (hv : v < n) :
    IsParent ancestors' p v ↔ IsParent ancestors p v := by
  unfold IsParent
  rw [hext.old v hv]
  constructor
  · intro h
    have hp : p < n := (hordered.below v hv p (h ▸ List.mem_cons_self)).trans hv
    rwa [hext.old p hp] at h
  · intro h
    have hp : p < n := (hordered.below v hv p (h ▸ List.mem_cons_self)).trans hv
    rwa [hext.old p hp]

theorem Extends.forest (hext : Extends ancestors ancestors' n n') (h : Forest ancestors n)
    (hordered : Ordered ancestors n) : Forest ancestors' n' where
  parent v hv := by
    by_cases hold : v < n
    · rcases h.parent v hold with hnil | ⟨p, hp, hparent⟩
      · exact Or.inl ((hext.old v hold).trans hnil)
      · exact Or.inr ⟨p, hp, (hext.isParent_old hordered hold).mpr hparent⟩
    · obtain ⟨p, hp, hnew⟩ := hext.new v (Nat.not_lt.mp hold) hv
      refine Or.inr ⟨p, hp.trans_le (Nat.not_lt.mp hold), ?_⟩
      rw [IsParent, hnew, hext.old p hp]

/-- New nodes with parents of their own, which had no child. -/
theorem Extends.unary (hext : Extends ancestors ancestors' n n') (h : Unary ancestors n)
    (hordered : Ordered ancestors n)
    (hfresh : ∀ v, n ≤ v → v < n' → ∀ p, IsParent ancestors' p v →
      ∀ w < n, ¬ IsParent ancestors p w)
    (hown : ∀ v w p, n ≤ v → v < n' → n ≤ w → w < n' → IsParent ancestors' p v →
      IsParent ancestors' p w → v = w) : Unary ancestors' n' := by
  intro p v w hv hw hpv hpw
  by_cases hv' : v < n
  · rw [hext.isParent_old hordered hv'] at hpv
    by_cases hw' : w < n
    · rw [hext.isParent_old hordered hw'] at hpw
      exact h p v w hv' hw' hpv hpw
    · exact absurd hpv (hfresh w (Nat.not_lt.mp hw') hw p hpw v hv')
  · by_cases hw' : w < n
    · rw [hext.isParent_old hordered hw'] at hpw
      exact absurd hpw (hfresh v (Nat.not_lt.mp hv') hv p hpv w hw')
    · exact hown v w p (Nat.not_lt.mp hv') hv (Nat.not_lt.mp hw') hw hpv hpw

end ReplayBackoff.Lineage
