import ReplayBackoff.ConfigCache

/-!
# The cache is a complete snapshot

Whatever calls were made on a store, its cache is empty or the map of all pages of one load, dated
with the end of that load. A call that has to load and fails leaves the cache as it was, and a call
that answers does so from a map that is younger than the time to live or that it loaded itself.
-/

namespace ReplayBackoff

open SnapshotCache

def storeAfter (path : String) (calls : List (Lookup × String)) : ConfigStore :=
  (ConfigStore.new path).runCalls calls

/-- The map was built from all pages of one successful load among the calls, which found the cache
stale and ended at the given time. -/
def LoadedBy (path : String) (calls : List (Lookup × String)) (loadedAt : Instant)
    (configs : Configs) : Prop :=
  ∃ before io arn after parameters, calls = before ++ (io, arn) :: after ∧
    (storeAfter path before).isFresh io.checkedAt = false ∧
    io.answers.parameters = .ok parameters ∧ io.loadedAt = loadedAt ∧
    configs = loadMap parameters

/-- The calls are made one after the other on a clock that does not go back. -/
def InOrder (calls : List (Lookup × String)) : Prop := Ordered 0 (ConfigStore.usesOf calls)

variable {path : String} {calls : List (Lookup × String)}

theorem storeAfter_represents (path : String) (calls : List (Lookup × String)) :
    (storeAfter path calls).Represents
      (SnapshotCache.run (ConfigStore.new path).ttl none (ConfigStore.usesOf calls)) :=
  (ConfigStore.runCalls_represents (ConfigStore.new_represents path) calls).1

theorem storeAfter_ttl (path : String) (calls : List (Lookup × String)) :
    (storeAfter path calls).ttl = 60000000000 :=
  (ConfigStore.runCalls_represents (ConfigStore.new_represents path) calls).2

theorem slot_of_cache {loadedAt : Instant} {configs : Configs}
    (h : (storeAfter path calls).cache = some (loadedAt, configs)) :
    ∃ parameters, configs = loadMap parameters ∧
      SnapshotCache.run (ConfigStore.new path).ttl none (ConfigStore.usesOf calls) =
        some (loadedAt, parameters) := by
  rw [storeAfter_represents path calls, mapSlot, Option.map_eq_some_iff] at h
  obtain ⟨⟨t, parameters⟩, hrun, hpair⟩ := h
  obtain ⟨rfl, rfl⟩ := Prod.mk.inj hpair
  exact ⟨parameters, rfl, hrun⟩

theorem cache_loadedBy {loadedAt : Instant} {configs : Configs}
    (h : (storeAfter path calls).cache = some (loadedAt, configs)) :
    LoadedBy path calls loadedAt configs := by
  obtain ⟨parameters, rfl, hrun⟩ := slot_of_cache h
  obtain ⟨before, u, after, hsplit, hhit, hload, ht⟩ := run_origin hrun
  obtain ⟨before', rest, rfl, rfl, hrest⟩ := List.map_eq_append_iff.mp hsplit
  obtain ⟨call, after', rfl, rfl, rfl⟩ := List.map_eq_cons_iff.mp hrest
  refine ⟨before', call.1, call.2, after', parameters, rfl, ?_, hload, ht, rfl⟩
  rw [ConfigStore.isFresh_eq_hit (storeAfter_represents path before'), storeAfter_ttl]
  exact congrArg Option.isSome hhit

theorem key_of_loadedBy {loadedAt : Instant} {configs : Configs}
    (h : LoadedBy path calls loadedAt configs) {key : String} {config : QueueConfig}
    (hlookup : configs.lookup key = some config) : config.replayQueueArn = key := by
  obtain ⟨-, -, -, -, parameters, -, -, -, -, rfl⟩ := h
  rw [lookup_loadMap] at hlookup
  exact replayQueueArn_of_lastConfig hlookup

theorem cache_le_checkedAt {io : Lookup} {arn : String} (horder : InOrder (calls ++ [(io, arn)]))
    {loadedAt : Instant} {configs : Configs}
    (h : (storeAfter path calls).cache = some (loadedAt, configs)) : loadedAt ≤ io.checkedAt := by
  obtain ⟨parameters, -, hrun⟩ := slot_of_cache h
  rw [InOrder, ConfigStore.usesOf, List.map_append, ordered_append] at horder
  exact (run_le_endTime horder.1 hrun).trans horder.2.1

theorem configFor_error_iff {store : ConfigStore} {io : Lookup} {arn : String} {e : ConfigError} :
    (store.configFor io arn).result = .error e ↔
      store.isFresh io.checkedAt = false ∧
        ∃ error, io.answers.parameters = .error error ∧ e = .load error := by
  cases hfresh : store.isFresh io.checkedAt with
  | true => simp [ConfigStore.configFor_of_fresh hfresh]
  | false =>
    rw [(ConfigStore.configFor_of_stale _ hfresh).1]
    cases h : io.answers.parameters with
    | ok parameters => simp [(ConfigStore.refresh_of_ok _ h).1, Except.map]
    | error error => simp [(ConfigStore.refresh_of_error h).1, Except.map, eq_comm]

theorem configFor_error_store {store : ConfigStore} {io : Lookup} {arn : String} {e : ConfigError}
    (h : (store.configFor io arn).result = .error e) : (store.configFor io arn).store = store := by
  obtain ⟨hstale, error, hload, -⟩ := configFor_error_iff.mp h
  rw [(ConfigStore.configFor_of_stale _ hstale).2, (ConfigStore.refresh_of_error hload).2]

theorem configFor_answer {io : Lookup} {arn : String} (horder : InOrder (calls ++ [(io, arn)]))
    {answer : Option QueueConfig}
    (hanswer : ((storeAfter path calls).configFor io arn).result = .ok answer) :
    ∃ loadedAt configs, answer = configs.lookup arn ∧
      ((storeAfter path calls).configFor io arn).store.cache = some (loadedAt, configs) ∧
      (((storeAfter path calls).cache = some (loadedAt, configs) ∧ loadedAt ≤ io.checkedAt ∧
          io.checkedAt < loadedAt + 60000000000) ∨
        (io.loadedAt = loadedAt ∧ io.checkedAt ≤ loadedAt ∧
          ∃ parameters, io.answers.parameters = .ok parameters ∧
            configs = loadMap parameters)) := by
  cases hfresh : (storeAfter path calls).isFresh io.checkedAt with
  | true =>
    rw [ConfigStore.configFor_of_fresh hfresh] at hanswer ⊢
    obtain ⟨loadedAt, configs, hcache, hage⟩ := ConfigStore.isFresh_iff.mp hfresh
    have hle := cache_le_checkedAt horder hcache
    rw [storeAfter_ttl] at hage
    refine ⟨loadedAt, configs, ?_, hcache,
      Or.inl ⟨hcache, hle, (Nat.sub_lt_iff_lt_add' hle).mp hage⟩⟩
    rw [← Except.ok.inj hanswer, ConfigStore.cached, hcache]
    rfl
  | false =>
    obtain ⟨hresult, hstore⟩ := ConfigStore.configFor_of_stale arn hfresh
    rw [hresult] at hanswer
    rw [hstore]
    cases hload : io.answers.parameters with
    | error error =>
      rw [(ConfigStore.refresh_of_error hload).1] at hanswer
      cases hanswer
    | ok parameters =>
      obtain ⟨hok, hnew⟩ := ConfigStore.refresh_of_ok (storeAfter path calls) hload
      rw [hok, hnew] at hanswer
      rw [hnew]
      have hlate : io.checkedAt ≤ io.loadedAt := by
        rw [InOrder, ConfigStore.usesOf, List.map_append, ordered_append] at horder
        exact horder.2.2.1
      exact ⟨io.loadedAt, loadMap parameters, (Except.ok.inj hanswer).symm, rfl,
        Or.inr ⟨rfl, hlate, parameters, rfl, rfl⟩⟩

/-- The cache is always a complete snapshot. After any calls in order it is empty or the map of all
pages of one successful load, keyed by replay queue ARN. The next call fails only when it has to
load and a page fails, and then changes nothing; it answers from a map that is younger than sixty
seconds at its check, or that it loaded itself; and while the cache is fresh it asks nothing of SSM
and changes nothing. -/
theorem cache_is_snapshot (path : String) (calls : List (Lookup × String)) (io : Lookup)
    (arn : String) (horder : InOrder (calls ++ [(io, arn)])) :
    ((storeAfter path calls).cache = none ∨
      ∃ loadedAt configs, (storeAfter path calls).cache = some (loadedAt, configs) ∧
        LoadedBy path calls loadedAt configs ∧
        ∀ key config, configs.lookup key = some config → config.replayQueueArn = key) ∧
    (∀ e, (((storeAfter path calls).configFor io arn).result = .error e ↔
        (storeAfter path calls).isFresh io.checkedAt = false ∧
          ∃ error, io.answers.parameters = .error error ∧ e = .load error) ∧
      (((storeAfter path calls).configFor io arn).result = .error e →
        ((storeAfter path calls).configFor io arn).store = storeAfter path calls)) ∧
    (∀ answer, ((storeAfter path calls).configFor io arn).result = .ok answer →
      ∃ loadedAt configs, answer = configs.lookup arn ∧
        ((storeAfter path calls).configFor io arn).store.cache = some (loadedAt, configs) ∧
        (((storeAfter path calls).cache = some (loadedAt, configs) ∧ loadedAt ≤ io.checkedAt ∧
            io.checkedAt < loadedAt + 60000000000) ∨
          (io.loadedAt = loadedAt ∧ io.checkedAt ≤ loadedAt ∧
            ∃ parameters, io.answers.parameters = .ok parameters ∧
              configs = loadMap parameters))) ∧
    ((storeAfter path calls).isFresh io.checkedAt = true →
      ((storeAfter path calls).configFor io arn).requests = [] ∧
        ((storeAfter path calls).configFor io arn).store = storeAfter path calls) := by
  refine ⟨?_, ?_, ?_, ?_⟩
  · cases h : (storeAfter path calls).cache with
    | none => exact Or.inl rfl
    | some entry =>
      have hloaded := cache_loadedBy h
      exact Or.inr ⟨entry.1, entry.2, rfl, hloaded, fun key config => key_of_loadedBy hloaded⟩
  · exact fun e => ⟨configFor_error_iff, configFor_error_store⟩
  · exact fun answer => configFor_answer horder
  · intro hfresh
    rw [ConfigStore.configFor_of_fresh hfresh]
    exact ⟨rfl, rfl⟩

theorem cache_is_snapshot_sample :
    ((storeAfter "/queues/" [(⟨1, .last none, 2⟩, "arn")]).configFor
      ⟨3, .error ⟨"throttled"⟩, 4⟩ "arn").requests = [] :=
  ((cache_is_snapshot "/queues/" [(⟨1, .last none, 2⟩, "arn")] ⟨3, .error ⟨"throttled"⟩, 4⟩ "arn"
    ⟨by decide, by decide, by decide, by decide, trivial⟩).2.2.2 rfl).1

end ReplayBackoff
