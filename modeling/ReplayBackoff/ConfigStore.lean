import ReplayBackoff.QueueConfig

/-!
# Configuration store

The store loads every parameter under its path from SSM and keeps the decoded configurations for
the time to live. One load is a loop over the pages of the answer: a page's parameters are decoded
and inserted under their replay queue ARN, a parameter without a decodable value is skipped, and
the token of a page is sent with the next request. The cache is written after the last page only.

`Answers` is what SSM says to the successive requests of one load, up to the answer that ends the
loop. `Lookup` is what the world gives to one call of `configFor`.
-/

namespace ReplayBackoff

/-- An error of an SDK call. Only its text is ever used. -/
structure SdkError where
  message : String
  deriving DecidableEq, Repr

inductive ConfigError where
  | missing (name : String)
  | load (error : SdkError)
  deriving DecidableEq, Repr

def ConfigError.display : ConfigError → String
  | .missing name => "missing " ++ name
  | .load error => "failed to load replay configs from SSM: " ++ error.message

structure Parameter where
  name : Option String
  value : Option String
  deriving DecidableEq, Repr

structure GetParametersByPathInput where
  path : String
  recursive : Bool
  nextToken : Option String
  deriving DecidableEq, Repr

/-- The answers to the requests of one load. Only an error or a page without a token ends it. -/
inductive Answers where
  | error (error : SdkError)
  | last (parameters : Option (List Parameter))
  | page (parameters : Option (List Parameter)) (nextToken : String) (rest : Answers)

/-- All parameters of a load in the order of its pages, or the error that ended it. -/
def Answers.parameters : Answers → Except SdkError (List Parameter)
  | .error e => .error e
  | .last ps => .ok (ps.getD [])
  | .page ps _ rest => rest.parameters.map (ps.getD [] ++ ·)

/-- A reading of the monotonic clock in nanoseconds. -/
abbrev Instant := ℕ

structure Lookup where
  checkedAt : Instant
  answers : Answers
  loadedAt : Instant

abbrev Configs := HashMap String QueueConfig

structure ConfigStore where
  path : String
  cache : Option (Instant × Configs)
  ttl : ℕ

/-- What a call on the store returns, leaves behind, and asked of SSM. -/
structure StoreCall (α : Type) where
  result : Except ConfigError α
  store : ConfigStore
  requests : List GetParametersByPathInput

namespace ConfigStore

def secondsToNanos (seconds : ℕ) : ℕ := seconds * 1000000000

def new (path : String) : ConfigStore := ⟨path, none, secondsToNanos 60⟩

def insertParameter (configs : Configs) (parameter : Parameter) : Configs :=
  match parameter.value with
  | none => configs
  | some value =>
    match QueueConfig.fromStr value with
    | some config => configs.insert config.replayQueueArn config
    | none => configs

def insertPage (configs : Configs) (parameters : Option (List Parameter)) : Configs :=
  match parameters with
  | none => configs
  | some parameters => parameters.foldl insertParameter configs

def request (path : String) (nextToken : Option String) : GetParametersByPathInput :=
  ⟨path, true, nextToken⟩

def refreshLoop (path : String) (configs : Configs) (nextToken : Option String) :
    Answers → Except ConfigError Configs × List GetParametersByPathInput
  | .error e => (.error (.load e), [request path nextToken])
  | .last parameters => (.ok (insertPage configs parameters), [request path nextToken])
  | .page parameters token rest =>
    let (result, requests) := refreshLoop path (insertPage configs parameters) (some token) rest
    (result, request path nextToken :: requests)

def refresh (store : ConfigStore) (io : Lookup) : StoreCall Unit :=
  match refreshLoop store.path ∅ none io.answers with
  | (.error e, requests) => ⟨.error e, store, requests⟩
  | (.ok configs, requests) => ⟨.ok (), { store with cache := some (io.loadedAt, configs) }, requests⟩

def isFresh (store : ConfigStore) (now : Instant) : Bool :=
  match store.cache with
  | some (loadedAt, _) => decide (now - loadedAt < store.ttl)
  | none => false

def refreshIfStale (store : ConfigStore) (io : Lookup) : StoreCall Unit :=
  if store.isFresh io.checkedAt then ⟨.ok (), store, []⟩ else store.refresh io

def cached (store : ConfigStore) (replayArn : String) : Option QueueConfig :=
  store.cache.bind (fun entry => entry.2.lookup replayArn)

def configFor (store : ConfigStore) (io : Lookup) (replayArn : String) :
    StoreCall (Option QueueConfig) :=
  match store.refreshIfStale io with
  | ⟨.error e, store', requests⟩ => ⟨.error e, store', requests⟩
  | ⟨.ok (), store', requests⟩ => ⟨.ok (store'.cached replayArn), store', requests⟩

end ConfigStore

def resolveConfig (env : Environment) (store : ConfigStore) (io : Lookup)
    (eventSourceArn : Option String) : StoreCall (Option ResolvedQueueConfig) :=
  match eventSourceArn with
  | none => ⟨.error (.missing "eventSourceARN"), store, []⟩
  | some arn =>
    match store.configFor io arn with
    | ⟨.error e, store', requests⟩ => ⟨.error e, store', requests⟩
    | ⟨.ok config, store', requests⟩ => ⟨.ok (config.map (·.resolve env)), store', requests⟩

end ReplayBackoff
