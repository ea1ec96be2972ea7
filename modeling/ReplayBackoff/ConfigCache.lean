import ReplayBackoff.ConfigStore
import ReplayBackoff.Library.SnapshotCache

/-!
# The configuration cache as a snapshot cache

The abstract cache keeps the parameters of one load. The store keeps the map built from them, in
which the last well-formed configuration of an ARN stays. `configFor_refines` says that a call on
the store is a use of the abstract cache, so the store inherits the results about its runs.
-/

namespace ReplayBackoff

open SnapshotCache

def Parameter.config (parameter : Parameter) : Option QueueConfig :=
  parameter.value.bind QueueConfig.fromStr

/-- The well-formed configurations of a load, in order. -/
def configsOf (parameters : List Parameter) : List QueueConfig :=
  parameters.filterMap (·.config)

def byArn (config : QueueConfig) : String × QueueConfig := (config.replayQueueArn, config)

def loadMap (parameters : List Parameter) : Configs :=
  HashMap.collect ((configsOf parameters).map byArn)

/-- The last well-formed configuration stored for an ARN. -/
def lastConfig (parameters : List Parameter) (arn : String) : Option QueueConfig :=
  ((configsOf parameters).filter (fun config => config.replayQueueArn = arn)).getLast?

theorem lookup_loadMap (parameters : List Parameter) (arn : String) :
    (loadMap parameters).lookup arn = lastConfig parameters arn := by
  rw [loadMap, HashMap.lookup_collect, HashMap.lastValue, List.filter_map, List.getLast?_map,
    Option.map_map]
  exact Option.map_id'

theorem replayQueueArn_of_lastConfig {parameters : List Parameter} {arn : String}
    {config : QueueConfig} (h : lastConfig parameters arn = some config) :
    config.replayQueueArn = arn := by
  have hmem := (List.mem_filter.mp (List.mem_of_getLast? h)).2
  simpa using hmem

def Lookup.use (io : Lookup) : Use SdkError (List Parameter) :=
  ⟨io.checkedAt, io.answers.parameters, io.loadedAt⟩

namespace ConfigStore

theorem insertParameter_eq (configs : Configs) (parameter : Parameter) :
    insertParameter configs parameter =
      configs.insertAll (parameter.config.toList.map byArn) := by
  unfold insertParameter Parameter.config
  cases parameter.value with
  | none => rfl
  | some value => cases hdecode : QueueConfig.fromStr value <;> simp [hdecode, byArn]

theorem foldl_insertParameter (configs : Configs) (parameters : List Parameter) :
    parameters.foldl insertParameter configs =
      configs.insertAll ((configsOf parameters).map byArn) := by
  induction parameters generalizing configs with
  | nil => rfl
  | cons parameter parameters ih =>
    rw [List.foldl_cons, ih, insertParameter_eq, ← HashMap.insertAll_append, ← List.map_append]
    congr 2
    cases hconfig : parameter.config <;> simp [configsOf, hconfig]

theorem insertPage_eq (configs : Configs) (parameters : Option (List Parameter)) :
    insertPage configs parameters =
      configs.insertAll ((configsOf (parameters.getD [])).map byArn) := by
  cases parameters with
  | none => rfl
  | some parameters => exact foldl_insertParameter configs parameters

theorem refreshLoop_result (path : String) (configs : Configs) (nextToken : Option String)
    (answers : Answers) :
    (refreshLoop path configs nextToken answers).1 =
      match answers.parameters with
      | .ok parameters => .ok (configs.insertAll ((configsOf parameters).map byArn))
      | .error e => .error (.load e) := by
  induction answers generalizing configs nextToken with
  | error e => rfl
  | last parameters => exact congrArg Except.ok (insertPage_eq configs parameters)
  | page parameters token rest ih =>
    simp only [refreshLoop, ih, Answers.parameters, insertPage_eq]
    cases rest.parameters with
    | error e => rfl
    | ok later =>
      simp only [Except.map, configsOf, List.filterMap_append, List.map_append,
        HashMap.insertAll_append]

/-- The store keeps the map of the load that the abstract cache keeps. -/
def Represents (store : ConfigStore) (slot : Slot (List Parameter)) : Prop :=
  store.cache = mapSlot loadMap slot

theorem new_represents (path : String) : (ConfigStore.new path).Represents none := rfl

variable {store : ConfigStore} {slot : Slot (List Parameter)} {io : Lookup} {arn : String}

theorem isFresh_iff {now : Instant} :
    store.isFresh now = true ↔
      ∃ loadedAt configs, store.cache = some (loadedAt, configs) ∧ now - loadedAt < store.ttl := by
  unfold isFresh
  cases store.cache with
  | none => simp
  | some entry =>
    obtain ⟨loadedAt, configs⟩ := entry
    simp

theorem isFresh_eq_hit (h : store.Represents slot) (now : Instant) :
    store.isFresh now = (hit store.ttl slot now).isSome := by
  unfold isFresh
  rw [h]
  cases slot with
  | none => rfl
  | some s => by_cases hlt : now - s.1 < store.ttl <;> simp [mapSlot, hit, hlt]

theorem refresh_eq (store : ConfigStore) (io : Lookup) :
    store.refresh io =
      ⟨(refreshLoop store.path ∅ none io.answers).1.map (fun _ => ()),
        match (refreshLoop store.path ∅ none io.answers).1 with
        | .ok configs => { store with cache := some (io.loadedAt, configs) }
        | .error _ => store,
        (refreshLoop store.path ∅ none io.answers).2⟩ := by
  unfold refresh
  generalize refreshLoop store.path ∅ none io.answers = loop
  obtain ⟨result | configs, requests⟩ := loop <;> rfl

theorem refresh_of_ok (store : ConfigStore) {parameters : List Parameter}
    (h : io.answers.parameters = .ok parameters) :
    (store.refresh io).result = .ok () ∧
      (store.refresh io).store = { store with cache := some (io.loadedAt, loadMap parameters) } := by
  have hloop := refreshLoop_result store.path ∅ none io.answers
  rw [h] at hloop
  rw [refresh_eq, hloop]
  exact ⟨rfl, rfl⟩

theorem refresh_of_error {e : SdkError} (h : io.answers.parameters = .error e) :
    (store.refresh io).result = .error (.load e) ∧ (store.refresh io).store = store := by
  have hloop := refreshLoop_result store.path ∅ none io.answers
  rw [h] at hloop
  rw [refresh_eq, hloop]
  exact ⟨rfl, rfl⟩

theorem configFor_eq :
    store.configFor io arn =
      ⟨(store.refreshIfStale io).result.map (fun _ => (store.refreshIfStale io).store.cached arn),
        (store.refreshIfStale io).store, (store.refreshIfStale io).requests⟩ := by
  unfold configFor
  generalize store.refreshIfStale io = call
  obtain ⟨result | result, store', requests⟩ := call <;> rfl

theorem configFor_of_fresh (h : store.isFresh io.checkedAt = true) :
    store.configFor io arn = ⟨.ok (store.cached arn), store, []⟩ := by
  rw [configFor_eq, refreshIfStale, if_pos h]
  rfl

theorem configFor_of_stale (arn : String) (h : store.isFresh io.checkedAt = false) :
    (store.configFor io arn).result =
        (store.refresh io).result.map (fun _ => (store.refresh io).store.cached arn) ∧
      (store.configFor io arn).store = (store.refresh io).store := by
  rw [configFor_eq, refreshIfStale, h]
  exact ⟨rfl, rfl⟩

theorem configFor_refines (h : store.Represents slot) (io : Lookup) (arn : String) :
    (store.configFor io arn).store =
        { store with cache := mapSlot loadMap (use store.ttl slot io.use).2 } ∧
      (store.configFor io arn).result =
        match (use store.ttl slot io.use).1 with
        | .ok s => .ok (lastConfig s.2 arn)
        | .error e => .error (.load e) := by
  have hfresh := isFresh_eq_hit h io.checkedAt
  cases hhit : hit store.ttl slot io.checkedAt with
  | some s =>
    rw [hhit] at hfresh
    have hslot := (hit_eq_some_iff.mp hhit).1
    rw [use_of_hit (u := io.use) hhit, configFor_of_fresh hfresh]
    refine ⟨?_, ?_⟩
    · rw [← h]
    · rw [Represents, hslot] at h
      rw [cached, h]
      exact congrArg Except.ok (lookup_loadMap s.2 arn)
  | none =>
    rw [hhit] at hfresh
    obtain ⟨hresult, hstore⟩ := configFor_of_stale arn hfresh
    rw [hresult, hstore]
    cases hload : io.answers.parameters with
    | ok parameters =>
      obtain ⟨hok, hnew⟩ := refresh_of_ok store hload
      rw [use_of_load (u := io.use) hhit hload, hok, hnew]
      exact ⟨rfl, congrArg Except.ok (lookup_loadMap parameters arn)⟩
    | error e =>
      rw [use_of_error (u := io.use) hhit hload, (refresh_of_error hload).1,
        (refresh_of_error hload).2, ← h]
      exact ⟨rfl, rfl⟩

theorem configFor_represents (h : store.Represents slot) (io : Lookup) (arn : String) :
    (store.configFor io arn).store.Represents (use store.ttl slot io.use).2 := by
  rw [(configFor_refines h io arn).1]
  rfl

theorem configFor_ttl (h : store.Represents slot) (io : Lookup) (arn : String) :
    (store.configFor io arn).store.ttl = store.ttl := by
  rw [(configFor_refines h io arn).1]

def runCalls (store : ConfigStore) (calls : List (Lookup × String)) : ConfigStore :=
  calls.foldl (fun store call => (store.configFor call.1 call.2).store) store

def usesOf (calls : List (Lookup × String)) : List (Use SdkError (List Parameter)) :=
  calls.map (fun call => call.1.use)

theorem runCalls_represents (h : store.Represents slot) (calls : List (Lookup × String)) :
    (store.runCalls calls).Represents (SnapshotCache.run store.ttl slot (usesOf calls)) ∧
      (store.runCalls calls).ttl = store.ttl := by
  induction calls generalizing store slot with
  | nil => exact ⟨h, rfl⟩
  | cons call calls ih =>
    obtain ⟨hrep, httl⟩ := ih (configFor_represents h call.1 call.2)
    rw [configFor_ttl h call.1 call.2] at hrep httl
    exact ⟨hrep, httl⟩

end ConfigStore

theorem resolveConfig_eq (env : Environment) (store : ConfigStore) (io : Lookup) (arn : String) :
    resolveConfig env store io (some arn) =
      ⟨(store.configFor io arn).result.map (Option.map (·.resolve env)),
        (store.configFor io arn).store, (store.configFor io arn).requests⟩ := by
  unfold resolveConfig
  dsimp only
  generalize store.configFor io arn = call
  obtain ⟨result | result, store', requests⟩ := call <;> rfl

end ReplayBackoff
