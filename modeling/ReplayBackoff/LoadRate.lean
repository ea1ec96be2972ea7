import ReplayBackoff.CacheSnapshot

/-!
# How often the configurations are loaded

Whatever calls are made on a store, in order on a clock that does not go back, two loads that
succeed are at least the time to live apart. A load that fails leaves the store as it was, so
nothing is said about how often it is tried again.
-/

namespace ReplayBackoff

open SnapshotCache

namespace ConfigStore

def loadTimes (store : ConfigStore) : List (Lookup × String) → List Instant
  | [] => []
  | (io, arn) :: calls =>
    let later := loadTimes (store.configFor io arn).store calls
    if store.isFresh io.checkedAt then later
    else
      match (store.refresh io).result with
      | .ok () => io.loadedAt :: later
      | .error _ => later

variable {store : ConfigStore} {slot : Slot (List Parameter)}

/-- The store loads when the abstract cache does. -/
theorem loadTimes_refines (h : store.Represents slot) (calls : List (Lookup × String)) :
    store.loadTimes calls = SnapshotCache.loadTimes store.ttl slot (usesOf calls) := by
  induction calls generalizing store slot with
  | nil => rfl
  | cons call calls ih =>
    obtain ⟨io, arn⟩ := call
    have hfresh := isFresh_eq_hit h io.checkedAt
    have hlater := ih (configFor_represents h io arn)
    rw [configFor_ttl h io arn] at hlater
    have hcons : usesOf ((io, arn) :: calls) = io.use :: usesOf calls := rfl
    rw [hcons, SnapshotCache.loadTimes, loadTimes]
    cases hhit : hit store.ttl slot io.use.checkedAt with
    | some s =>
      rw [show hit store.ttl slot io.checkedAt = some s from hhit] at hfresh
      rw [use_of_hit (u := io.use) hhit] at hlater
      exact (if_pos hfresh).trans hlater
    | none =>
      rw [show hit store.ttl slot io.checkedAt = none from hhit] at hfresh
      have hstale : ¬ store.isFresh io.checkedAt = true := by simp [hfresh]
      rw [if_neg hstale]
      cases hload : io.answers.parameters with
      | ok parameters =>
        rw [use_of_load (u := io.use) hhit hload] at hlater
        rw [(refresh_of_ok store hload).1, hlater, show io.use.load = .ok parameters from hload]
        rfl
      | error e =>
        rw [use_of_error (u := io.use) hhit hload] at hlater
        rw [(refresh_of_error hload).1, hlater, show io.use.load = .error e from hload]

end ConfigStore

/-- In a run of the store two successful loads are at least a minute apart, so an interval holds at
most one for each of its minutes and one more. -/
theorem loads_a_minute_apart (path : String) (calls : List (Lookup × String))
    (horder : InOrder calls) :
    ((ConfigStore.new path).loadTimes calls).Pairwise (fun t t' => t + 60000000000 ≤ t') ∧
    ∀ low high, (((ConfigStore.new path).loadTimes calls).filter
      (fun t => decide (low ≤ t ∧ t ≤ high))).length ≤ (high - low) / 60000000000 + 1 := by
  have hspaced : Spaced 60000000000 ((ConfigStore.new path).loadTimes calls) := by
    rw [ConfigStore.loadTimes_refines (ConfigStore.new_represents path)]
    exact (loadTimes_spaced horder (fun s hs => by cases hs)).1
  refine ⟨hspaced, fun low high => ?_⟩
  have hwindow : Spaced 60000000000 (((ConfigStore.new path).loadTimes calls).filter
      (fun t => decide (low ≤ t ∧ t ≤ high))) := List.Pairwise.filter _ hspaced
  apply hwindow.length_le (by decide)
  intro t ht
  simpa using (List.mem_filter.mp ht).2

theorem loads_a_minute_apart_sample :
    ((ConfigStore.new "/sqs-replay/queues/").loadTimes
      [(⟨0, .last none, 5⟩, "arn"), (⟨60000000004, .last none, 60000000005⟩, "arn"),
        (⟨60000000005, .last none, 60000000007⟩, "arn")]).Pairwise
          (fun t t' => t + 60000000000 ≤ t') ∧
    ∀ low high, (((ConfigStore.new "/sqs-replay/queues/").loadTimes
      [(⟨0, .last none, 5⟩, "arn"), (⟨60000000004, .last none, 60000000005⟩, "arn"),
        (⟨60000000005, .last none, 60000000007⟩, "arn")]).filter
          (fun t => decide (low ≤ t ∧ t ≤ high))).length ≤ (high - low) / 60000000000 + 1 :=
  loads_a_minute_apart _ _ (by simp [InOrder, ConfigStore.usesOf, Lookup.use, Ordered])

end ReplayBackoff
