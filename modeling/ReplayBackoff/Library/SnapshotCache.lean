import Mathlib.Data.List.Induction
import Mathlib.Order.Nat

/-!
# A cache of one snapshot

The slot of a cache holds at most one loaded value with the time its load completed. A use of the
cache is answered from the slot while its age is below the time to live; otherwise the value is
loaded again, and a load that fails leaves the slot alone. Every slot a run reaches therefore holds
what one load of the run produced.
-/

namespace ReplayBackoff.SnapshotCache

variable {ε α β : Type*}

abbrev Slot (α : Type*) := Option (ℕ × α)

/-- When the cache is checked, what a load would give then, and when that load completes. -/
structure Use (ε α : Type*) where
  checkedAt : ℕ
  load : Except ε α
  loadedAt : ℕ

def mapSlot (f : α → β) (slot : Slot α) : Slot β := slot.map (fun s => (s.1, f s.2))

def hit (ttl : ℕ) (slot : Slot α) (now : ℕ) : Slot α :=
  slot.filter (fun s => decide (now - s.1 < ttl))

def use (ttl : ℕ) (slot : Slot α) (u : Use ε α) : Except ε (ℕ × α) × Slot α :=
  match hit ttl slot u.checkedAt with
  | some s => (.ok s, slot)
  | none =>
    match u.load with
    | .ok a => (.ok (u.loadedAt, a), some (u.loadedAt, a))
    | .error e => (.error e, slot)

def run (ttl : ℕ) (slot : Slot α) (us : List (Use ε α)) : Slot α :=
  us.foldl (fun slot u => (use ttl slot u).2) slot

/-- The uses do not go back in time, and each load ends after its check. -/
def Ordered : ℕ → List (Use ε α) → Prop
  | _, [] => True
  | now, u :: us => now ≤ u.checkedAt ∧ u.checkedAt ≤ u.loadedAt ∧ Ordered u.loadedAt us

def endTime (now : ℕ) (us : List (Use ε α)) : ℕ := us.foldl (fun _ u => u.loadedAt) now

theorem hit_eq_some_iff {ttl : ℕ} {slot : Slot α} {now : ℕ} {s : ℕ × α} :
    hit ttl slot now = some s ↔ slot = some s ∧ now - s.1 < ttl := by
  simp [hit, Option.filter_eq_some_iff]

theorem use_of_hit {ttl : ℕ} {slot : Slot α} {u : Use ε α} {s : ℕ × α}
    (h : hit ttl slot u.checkedAt = some s) : use ttl slot u = (.ok s, slot) := by
  rw [use, h]

theorem use_of_load {ttl : ℕ} {slot : Slot α} {u : Use ε α} {a : α}
    (h : hit ttl slot u.checkedAt = none) (hload : u.load = .ok a) :
    use ttl slot u = (.ok (u.loadedAt, a), some (u.loadedAt, a)) := by
  rw [use, h, hload]

theorem use_of_error {ttl : ℕ} {slot : Slot α} {u : Use ε α} {e : ε}
    (h : hit ttl slot u.checkedAt = none) (hload : u.load = .error e) :
    use ttl slot u = (.error e, slot) := by
  rw [use, h, hload]

theorem use_ok {ttl : ℕ} {slot : Slot α} {u : Use ε α} {s : ℕ × α}
    (h : (use ttl slot u).1 = .ok s) :
    (use ttl slot u).2 = some s ∧
      ((slot = some s ∧ u.checkedAt - s.1 < ttl) ∨ (s.1 = u.loadedAt ∧ u.load = .ok s.2)) := by
  cases hh : hit ttl slot u.checkedAt with
  | some s' =>
    rw [use_of_hit hh] at h ⊢
    obtain rfl := Except.ok.inj h
    have hslot := hit_eq_some_iff.mp hh
    exact ⟨hslot.1, Or.inl hslot⟩
  | none =>
    cases hload : u.load with
    | ok a =>
      rw [use_of_load hh hload] at h ⊢
      obtain rfl := Except.ok.inj h
      exact ⟨rfl, Or.inr ⟨rfl, rfl⟩⟩
    | error e =>
      rw [use_of_error hh hload] at h
      cases h

theorem use_slot (ttl : ℕ) (slot : Slot α) (u : Use ε α) :
    (use ttl slot u).2 = slot ∨
      ∃ a, hit ttl slot u.checkedAt = none ∧ u.load = .ok a ∧
        (use ttl slot u).2 = some (u.loadedAt, a) := by
  cases hh : hit ttl slot u.checkedAt with
  | some s =>
    rw [use_of_hit hh]
    exact Or.inl rfl
  | none =>
    cases hload : u.load with
    | ok a =>
      rw [use_of_load hh hload]
      exact Or.inr ⟨a, rfl, rfl, rfl⟩
    | error e =>
      rw [use_of_error hh hload]
      exact Or.inl rfl

theorem run_concat (ttl : ℕ) (slot : Slot α) (us : List (Use ε α)) (u : Use ε α) :
    run ttl slot (us ++ [u]) = (use ttl (run ttl slot us) u).2 := by
  simp only [run, List.foldl_append, List.foldl_cons, List.foldl_nil]

/-- What a run leaves in an empty cache was loaded by one of its uses, which found the cache stale. -/
theorem run_origin {ttl : ℕ} {us : List (Use ε α)} {s : ℕ × α} (h : run ttl none us = some s) :
    ∃ before u after, us = before ++ u :: after ∧
      hit ttl (run ttl none before) u.checkedAt = none ∧ u.load = .ok s.2 ∧ u.loadedAt = s.1 := by
  induction us using List.reverseRecOn with
  | nil => cases h
  | append_singleton us u ih =>
    rw [run_concat] at h
    rcases use_slot ttl (run ttl none us) u with hslot | ⟨a, hhit, hload, hslot⟩
    · rw [hslot] at h
      obtain ⟨before, v, after, rfl, hhit, hload, ht⟩ := ih h
      exact ⟨before, v, after ++ [u], by simp, hhit, hload, ht⟩
    · rw [hslot] at h
      obtain rfl := Option.some.inj h
      exact ⟨us, u, [], rfl, hhit, hload, rfl⟩

theorem ordered_append {now : ℕ} {us vs : List (Use ε α)} :
    Ordered now (us ++ vs) ↔ Ordered now us ∧ Ordered (endTime now us) vs := by
  induction us generalizing now with
  | nil => simp [Ordered, endTime]
  | cons u us ih => simp [Ordered, endTime, ih, and_assoc]

theorem le_endTime {now : ℕ} {us : List (Use ε α)} (h : Ordered now us) : now ≤ endTime now us := by
  induction us generalizing now with
  | nil => exact le_rfl
  | cons u us ih => exact (h.1.trans h.2.1).trans (ih h.2.2)

theorem run_le_endTime {ttl now : ℕ} {us : List (Use ε α)} (hordered : Ordered now us)
    {s : ℕ × α} (h : run ttl none us = some s) : s.1 ≤ endTime now us := by
  obtain ⟨before, u, after, rfl, -, -, ht⟩ := run_origin h
  have hafter := (ordered_append.mp hordered).2.2.2
  rw [← ht, endTime, List.foldl_append, List.foldl_cons]
  exact le_endTime hafter

/-- When the successful loads of a run completed. -/
def loadTimes (ttl : ℕ) : Slot α → List (Use ε α) → List ℕ
  | _, [] => []
  | slot, u :: us =>
    match hit ttl slot u.checkedAt, u.load with
    | none, .ok a => u.loadedAt :: loadTimes ttl (some (u.loadedAt, a)) us
    | _, _ => loadTimes ttl slot us

/-- Times of which each is at least the gap later than those before it. -/
def Spaced (gap : ℕ) (times : List ℕ) : Prop := times.Pairwise (fun t t' => t + gap ≤ t')

/-- In an ordered run a value is loaded again only when the time to live is over. -/
theorem loadTimes_spaced {ttl now : ℕ} {slot : Slot α} {us : List (Use ε α)}
    (hordered : Ordered now us) (hslot : ∀ s, slot = some s → s.1 ≤ now) :
    Spaced ttl (loadTimes ttl slot us) ∧
      ∀ t ∈ loadTimes ttl slot us, now ≤ t ∧ ∀ s, slot = some s → s.1 + ttl ≤ t := by
  induction us generalizing now slot with
  | nil => exact ⟨List.Pairwise.nil, fun _ h => by cases h⟩
  | cons u us ih =>
    obtain ⟨hcheck, hload, hrest⟩ := hordered
    -- when nothing is loaded the slot is as it was, and the run goes on later
    have hkeep : Spaced ttl (loadTimes ttl slot us) ∧
        ∀ t ∈ loadTimes ttl slot us, now ≤ t ∧ ∀ s, slot = some s → s.1 + ttl ≤ t := by
      obtain ⟨hspaced, hlater⟩ := ih hrest
        (fun s hs => (hslot s hs).trans (hcheck.trans hload))
      exact ⟨hspaced, fun t ht => ⟨(hcheck.trans hload).trans (hlater t ht).1, (hlater t ht).2⟩⟩
    cases hhit : hit ttl slot u.checkedAt with
    | some s => simpa only [loadTimes, hhit] using hkeep
    | none =>
      cases hresult : u.load with
      | error e => simpa only [loadTimes, hhit, hresult] using hkeep
      | ok a =>
        have hstale : ∀ s, slot = some s → s.1 + ttl ≤ u.loadedAt := by
          intro s hs
          have hold : ¬ u.checkedAt - s.1 < ttl := fun hlt =>
            Option.some_ne_none s ((hit_eq_some_iff.mpr ⟨hs, hlt⟩).symm.trans hhit)
          have hle := hslot s hs
          omega
        obtain ⟨hspaced, hlater⟩ := @ih u.loadedAt (some (u.loadedAt, a)) hrest
          (fun s hs => (congrArg Prod.fst (Option.some.inj hs)).ge)
        simp only [loadTimes, hhit, hresult]
        refine ⟨List.pairwise_cons.mpr ⟨fun t ht => (hlater t ht).2 _ rfl, hspaced⟩, ?_⟩
        intro t ht
        rcases List.mem_cons.mp ht with rfl | ht
        · exact ⟨hcheck.trans hload, hstale⟩
        · refine ⟨(hcheck.trans hload).trans (hlater t ht).1, fun s hs => ?_⟩
          have hnext := (hlater t ht).1
          exact (hstale s hs).trans hnext

theorem Spaced.length_le {gap low high : ℕ} {times : List ℕ} (h : Spaced gap times)
    (hgap : 0 < gap) (hwithin : ∀ t ∈ times, low ≤ t ∧ t ≤ high) :
    times.length ≤ (high - low) / gap + 1 := by
  have hspan : ∀ (times : List ℕ) (low : ℕ), Spaced gap times →
      (∀ t ∈ times, low ≤ t ∧ t ≤ high) → times ≠ [] → low + (times.length - 1) * gap ≤ high := by
    intro times
    induction times with
    | nil => exact fun _ _ _ hne => absurd rfl hne
    | cons t times ih =>
      intro low hspaced hwithin _
      obtain ⟨hlow, hhigh⟩ := hwithin t List.mem_cons_self
      obtain ⟨hlater, hspaced⟩ := List.pairwise_cons.mp hspaced
      cases times with
      | nil => simpa using hlow.trans hhigh
      | cons t' times =>
        have hrest := ih (t + gap) hspaced
          (fun t'' ht'' => ⟨hlater t'' ht'', (hwithin t'' (List.mem_cons_of_mem t ht'')).2⟩)
          (List.cons_ne_nil _ _)
        simp only [List.length_cons, Nat.add_sub_cancel, Nat.succ_mul] at hrest ⊢
        omega
  by_cases hne : times = []
  · rw [hne]
    exact Nat.zero_le _
  · have hle := hspan times low h hwithin hne
    have hdiv : times.length - 1 ≤ (high - low) / gap := by
      rw [Nat.le_div_iff_mul_le hgap]
      omega
    omega

/-- The value satisfies the condition, unless it was loaded by the given time. -/
def Since (time : ℕ) (P : α → Prop) (s : ℕ × α) : Prop := time < s.1 → P s.2

/-- Once a time to live has passed since then, a use is not answered with an older value. -/
theorem answer_since {ttl time : ℕ} {P : α → Prop} {slot : Slot α} {u : Use ε α} {s : ℕ × α}
    (hslot : ∀ s, slot = some s → Since time P s) (hlate : time + ttl ≤ u.checkedAt)
    (hload : ∀ a, u.load = .ok a → P a) (h : (use ttl slot u).1 = .ok s) : P s.2 := by
  obtain ⟨-, ⟨hs, hage⟩ | ⟨-, ha⟩⟩ := use_ok h
  · apply hslot s hs
    omega
  · exact hload s.2 ha

end ReplayBackoff.SnapshotCache
