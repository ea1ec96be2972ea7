import Mathlib.Data.List.AList
import Mathlib.Data.List.Induction

/-!
# Hash maps as association lists with distinct keys

`HashMap κ α` is Mathlib's `AList` at a constant family. Its list of entries stands for one
iteration order, so a statement about every `HashMap` is a statement about every order in which
the entries may be visited. `collect` inserts a list of pairs from left to right, and the last
pair of a key is the one that stays. `IterationOrder` is an arbitrary rearrangement of what an
iteration visits.
-/

namespace ReplayBackoff

abbrev HashMap (κ : Type*) (α : Type*) := AList (fun _ : κ => α)

/-- A rearrangement of the items an iteration visits. -/
structure IterationOrder (α : Type*) where
  arrange : List α → List α
  perm : ∀ l, (arrange l).Perm l

namespace IterationOrder

variable {α : Type*}

def listed : IterationOrder α := ⟨id, fun _ => List.Perm.refl _⟩

instance : Inhabited (IterationOrder α) := ⟨listed⟩

@[simp] theorem mem_arrange (order : IterationOrder α) (l : List α) (a : α) :
    a ∈ order.arrange l ↔ a ∈ l := (order.perm l).mem_iff

end IterationOrder

namespace HashMap

variable {κ α β : Type*} [DecidableEq κ]

theorem lookup_insert_eq_ite (m : HashMap κ α) (k k' : κ) (a : α) :
    (m.insert k a).lookup k' = if k' = k then some a else m.lookup k' := by
  by_cases h : k' = k
  · subst h
    rw [AList.lookup_insert, if_pos rfl]
  · rw [AList.lookup_insert_ne h, if_neg h]

theorem mem_entries_iff_lookup (m : HashMap κ α) (k : κ) (a : α) :
    (⟨k, a⟩ : Sigma fun _ : κ => α) ∈ m.entries ↔ m.lookup k = some a := by
  rw [← Option.mem_def, AList.mem_lookup_iff]

theorem mem_iff_exists_lookup (m : HashMap κ α) (k : κ) : k ∈ m ↔ ∃ a, m.lookup k = some a := by
  rw [← AList.lookup_isSome, Option.isSome_iff_exists]

def insertAll (m : HashMap κ α) (pairs : List (κ × α)) : HashMap κ α :=
  pairs.foldl (fun m p => m.insert p.1 p.2) m

def collect (pairs : List (κ × α)) : HashMap κ α := insertAll ∅ pairs

@[simp] theorem insertAll_nil (m : HashMap κ α) : m.insertAll [] = m := rfl

@[simp] theorem insertAll_cons (m : HashMap κ α) (p : κ × α) (pairs : List (κ × α)) :
    m.insertAll (p :: pairs) = insertAll (m.insert p.1 p.2) pairs := rfl

theorem insertAll_append (m : HashMap κ α) (xs ys : List (κ × α)) :
    m.insertAll (xs ++ ys) = (m.insertAll xs).insertAll ys := by
  simp only [insertAll, List.foldl_append]

theorem insertAll_concat (m : HashMap κ α) (xs : List (κ × α)) (p : κ × α) :
    m.insertAll (xs ++ [p]) = (m.insertAll xs).insert p.1 p.2 := by
  rw [insertAll_append, insertAll_cons, insertAll_nil]

def lastValue (pairs : List (κ × α)) (k : κ) : Option α :=
  ((pairs.filter (fun p => p.1 = k)).getLast?).map Prod.snd

theorem lastValue_concat (pairs : List (κ × α)) (p : κ × α) (k : κ) :
    lastValue (pairs ++ [p]) k = if k = p.1 then some p.2 else lastValue pairs k := by
  by_cases h : p.1 = k
  · simp [lastValue, h]
  · simp [lastValue, h, Ne.symm h]

theorem lookup_insertAll (m : HashMap κ α) (pairs : List (κ × α)) (k : κ) :
    (m.insertAll pairs).lookup k = (lastValue pairs k).or (m.lookup k) := by
  induction pairs using List.reverseRecOn with
  | nil => simp [lastValue]
  | append_singleton pairs p ih =>
    rw [insertAll_concat, lookup_insert_eq_ite, ih, lastValue_concat]
    split_ifs <;> simp

theorem lookup_collect (pairs : List (κ × α)) (k : κ) :
    (collect pairs).lookup k = lastValue pairs k := by
  rw [collect, lookup_insertAll, AList.lookup_empty, Option.or_none]

/-- Rewrites every value, keeping the keys and their order. -/
def mapValues (m : HashMap κ α) (f : α → β) : HashMap κ β :=
  collect (m.entries.map (fun e => (e.1, f e.2)))

theorem lastValue_map_entries (m : HashMap κ α) (f : α → β) (k : κ) :
    lastValue (m.entries.map (fun e => (e.1, f e.2))) k = (m.lookup k).map f := by
  cases hk : m.lookup k with
  | none =>
    have hnone : ∀ e ∈ m.entries, e.1 ≠ k := by
      intro e he hek
      have hmem : (⟨e.1, e.2⟩ : Sigma fun _ : κ => α) ∈ m.entries := he
      rw [mem_entries_iff_lookup, hek, hk] at hmem
      cases hmem
    have hempty : (m.entries.map (fun e => (e.1, f e.2))).filter (fun p => decide (p.1 = k)) = [] := by
      rw [List.filter_eq_nil_iff]
      intro p hp
      obtain ⟨e, he, rfl⟩ := List.mem_map.mp hp
      simpa using hnone e he
    simp [lastValue, hempty]
  | some a =>
    have hmem : (k, f a) ∈ (m.entries.map (fun e => (e.1, f e.2))).filter
        (fun p => decide (p.1 = k)) := by
      have he := (mem_entries_iff_lookup m k a).mpr hk
      simp only [List.mem_filter, List.mem_map, decide_true, and_true]
      exact ⟨_, he, rfl⟩
    have hall : ∀ p ∈ (m.entries.map (fun e => (e.1, f e.2))).filter (fun p => decide (p.1 = k)),
        p.2 = f a := by
      intro p hp
      obtain ⟨hp, hpk⟩ := List.mem_filter.mp hp
      obtain ⟨e, he, rfl⟩ := List.mem_map.mp hp
      have hek : e.1 = k := by simpa using hpk
      have hlook := (mem_entries_iff_lookup m e.1 e.2).mp he
      rw [hek, hk] at hlook
      exact congrArg f (Option.some.inj hlook).symm
    have hne := List.ne_nil_of_mem hmem
    rw [lastValue, List.getLast?_eq_some_getLast hne, Option.map_some, Option.map_some,
      hall _ (List.getLast_mem hne)]

@[simp] theorem lookup_mapValues (m : HashMap κ α) (f : α → β) (k : κ) :
    (m.mapValues f).lookup k = (m.lookup k).map f := by
  rw [mapValues, lookup_collect, lastValue_map_entries]

end HashMap
end ReplayBackoff
