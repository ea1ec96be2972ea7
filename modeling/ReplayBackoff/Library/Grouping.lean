import ReplayBackoff.Library.HashMap
import Mathlib.Data.List.Perm.Basic

/-!
# Grouping a list by a key

`groupBy key l` pushes every item of `l` onto the group of its key, in the order of `l`. A group
is exactly the sublist of the items with its key, and visiting the groups in any order lists every
item exactly once.
-/

namespace ReplayBackoff.Grouping

variable {κ α : Type*} [DecidableEq κ] (key : α → κ)

def push (groups : HashMap κ (List α)) (a : α) : HashMap κ (List α) :=
  groups.insert (key a) ((groups.lookup (key a)).getD [] ++ [a])

def groupBy (l : List α) : HashMap κ (List α) := l.foldl (push key) ∅

theorem groupBy_concat (l : List α) (a : α) :
    groupBy key (l ++ [a]) = push key (groupBy key l) a := by
  simp only [groupBy, List.foldl_append, List.foldl_cons, List.foldl_nil]

theorem lookup_groupBy (l : List α) (k : κ) :
    (groupBy key l).lookup k =
      if k ∈ l.map key then some (l.filter (fun a => key a = k)) else none := by
  induction l using List.reverseRecOn with
  | nil => simp [groupBy]
  | append_singleton l a ih =>
    rw [groupBy_concat, push, HashMap.lookup_insert_eq_ite]
    by_cases hk : k = key a
    · subst hk
      rw [if_pos rfl, ih]
      by_cases hmem : key a ∈ l.map key
      · simp [hmem]
      · have hnil : l.filter (fun b => decide (key b = key a)) = [] := by
          rw [List.filter_eq_nil_iff]
          intro b hb hba
          exact hmem (List.mem_map.mpr ⟨b, hb, by simpa using hba⟩)
        simp [hmem, hnil]
    · have hne : ¬ key a = k := fun h => hk h.symm
      simp [hk, hne, ih]

theorem mem_groupBy_entries {l : List α} {k : κ} {group : List α}
    (h : (⟨k, group⟩ : Sigma fun _ : κ => List α) ∈ (groupBy key l).entries) :
    k ∈ l.map key ∧ group = l.filter (fun a => key a = k) := by
  rw [HashMap.mem_entries_iff_lookup, lookup_groupBy] at h
  split_ifs at h with hk
  exact ⟨hk, (Option.some.inj h).symm⟩

theorem key_of_mem_group {l : List α} {k : κ} {group : List α} {a : α}
    (h : (⟨k, group⟩ : Sigma fun _ : κ => List α) ∈ (groupBy key l).entries) (ha : a ∈ group) :
    key a = k := by
  rw [(mem_groupBy_entries key h).2] at ha
  simpa using (List.mem_filter.mp ha).2

theorem push_flatMap_perm (groups : HashMap κ (List α)) (a : α) :
    ((push key groups a).entries.flatMap (·.2)).Perm (a :: groups.entries.flatMap (·.2)) := by
  rw [push, AList.entries_insert, List.flatMap_cons]
  by_cases hmem : key a ∈ groups.entries.keys
  · obtain ⟨old, before, after, -, hsplit, herase⟩ := List.exists_of_kerase hmem
    have hlook : groups.lookup (key a) = some old := by
      rw [← HashMap.mem_entries_iff_lookup, hsplit]
      simp
    rw [hlook, herase, hsplit]
    simp only [Option.getD_some, List.flatMap_append, List.flatMap_cons]
    calc
      (old ++ [a]) ++ (before.flatMap (·.2) ++ after.flatMap (·.2))
      _ = old ++ a :: (before.flatMap (·.2) ++ after.flatMap (·.2)) := by simp
      _ |>.Perm (a :: (old ++ (before.flatMap (·.2) ++ after.flatMap (·.2)))) :=
        List.perm_middle
      _ |>.Perm (a :: (before.flatMap (·.2) ++ (old ++ after.flatMap (·.2)))) :=
        List.Perm.cons a (List.perm_append_comm_assoc ..)
  · have hlook : groups.lookup (key a) = none := AList.lookup_eq_none.mpr hmem
    rw [hlook, List.kerase_of_notMem_keys hmem]
    exact List.Perm.refl _

theorem groupBy_flatMap_perm (l : List α) :
    ((groupBy key l).entries.flatMap (·.2)).Perm l := by
  induction l using List.reverseRecOn with
  | nil => exact List.Perm.refl _
  | append_singleton l a ih =>
    rw [groupBy_concat]
    exact ((push_flatMap_perm key _ a).trans (ih.cons a)).trans
      (List.perm_append_singleton a l).symm

theorem arrange_flatMap_perm (order : IterationOrder (Sigma fun _ : κ => List α)) (l : List α) :
    ((order.arrange (groupBy key l).entries).flatMap (·.2)).Perm l :=
  ((order.perm _).flatMap_right _).trans (groupBy_flatMap_perm key l)

section

variable {β : Type*} {groups : List (Sigma fun _ : κ => List α)} {k : κ}

theorem flatMap_eq_nil_of_key (f : List α → List β) (hne : ∀ g ∈ groups, g.1 ≠ k) :
    groups.flatMap (fun g => if g.1 = k then f g.2 else []) = [] := by
  rw [List.flatMap_eq_nil_iff]
  intro g hg
  exact if_neg (hne g hg)

/-- When no key repeats, the items of a group are those of the groups with its key. -/
theorem flatMap_of_key (f : List α → List β) (hnodup : (groups.map (·.1)).Nodup) {group : List α}
    (hmem : (⟨k, group⟩ : Sigma fun _ : κ => List α) ∈ groups) :
    groups.flatMap (fun g => if g.1 = k then f g.2 else []) = f group := by
  induction groups with
  | nil => cases hmem
  | cons g groups ih =>
    rw [List.map_cons, List.nodup_cons] at hnodup
    rw [List.flatMap_cons]
    rcases List.mem_cons.mp hmem with rfl | hmem
    · have hrest : ∀ g ∈ groups, g.1 ≠ k := by
        rintro g hg rfl
        exact hnodup.1 (List.mem_map.mpr ⟨g, hg, rfl⟩)
      rw [if_pos rfl, flatMap_eq_nil_of_key f hrest, List.append_nil]
    · have hne : g.1 ≠ k := by
        intro heq
        apply hnodup.1
        exact List.mem_map.mpr ⟨_, hmem, heq.symm⟩
      rw [if_neg hne, List.nil_append, ih hnodup.2 hmem]

end

theorem arrange_keys_nodup (order : IterationOrder (Sigma fun _ : κ => List α)) (l : List α) :
    ((order.arrange (groupBy key l).entries).map (·.1)).Nodup :=
  (((order.perm _).map _).nodup_iff).mpr (groupBy key l).nodupKeys

/-- In any order of the groups, what is made of the group of a key is made of the items with that
key. -/
theorem arrange_flatMap_key {β : Type*} (order : IterationOrder (Sigma fun _ : κ => List α))
    (l : List α) (k : κ) (f : List α → List β) (hf : f [] = []) :
    (order.arrange (groupBy key l).entries).flatMap (fun g => if g.1 = k then f g.2 else []) =
      f (l.filter (fun a => key a = k)) := by
  by_cases hk : k ∈ l.map key
  · apply flatMap_of_key f (arrange_keys_nodup key order l)
    rw [IterationOrder.mem_arrange, HashMap.mem_entries_iff_lookup, lookup_groupBy, if_pos hk]
  · have hnil : l.filter (fun a => decide (key a = k)) = [] := by
      rw [List.filter_eq_nil_iff]
      intro a ha heq
      exact hk (List.mem_map.mpr ⟨a, ha, by simpa using heq⟩)
    rw [hnil, hf]
    apply flatMap_eq_nil_of_key
    rintro ⟨k', group⟩ hg rfl
    rw [IterationOrder.mem_arrange] at hg
    exact hk (mem_groupBy_entries key hg).1

end ReplayBackoff.Grouping
