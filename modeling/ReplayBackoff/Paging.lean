import ReplayBackoff.ConfigCache

/-!
# Loading page by page

A load asks SSM for pages until one comes without a token. `loadFrom` is the loop against a service
that answers each request, with a bound on the number of requests, and `refreshLoop` is the same
loop over the answers it gets. When the service serves finitely many pages, the bound is reached by
their number and the two agree.

The map that a load leaves behind is the map of the whole list of parameters. How the list was cut
into pages does not matter, and neither do parameters that cannot be read.
-/

namespace ReplayBackoff

structure GetParametersByPathOutput where
  parameters : Option (List Parameter)
  nextToken : Option String
  deriving DecidableEq, Repr

abbrev Ssm := ℕ → GetParametersByPathInput → Except SdkError GetParametersByPathOutput

def Answers.tokens : Answers → List String
  | .error _ => []
  | .last _ => []
  | .page _ token rest => token :: rest.tokens

/-- The service gives these answers to the requests of the loop, from the `i`th on. -/
def Serves (ssm : Ssm) (path : String) : ℕ → Option String → Answers → Prop
  | i, nextToken, .error e => ssm i (ConfigStore.request path nextToken) = .error e
  | i, nextToken, .last parameters =>
    ssm i (ConfigStore.request path nextToken) = .ok ⟨parameters, none⟩
  | i, nextToken, .page parameters token rest =>
    ssm i (ConfigStore.request path nextToken) = .ok ⟨parameters, some token⟩ ∧
      Serves ssm path (i + 1) (some token) rest

/-- The list with parameters that have no value, or none that can be decoded, put in anywhere. -/
inductive Padded : List Parameter → List Parameter → Prop
  | nil : Padded [] []
  | keep {l l' : List Parameter} (parameter : Parameter) : Padded l l' →
      Padded (parameter :: l) (parameter :: l')
  | unreadable {l l' : List Parameter} (parameter : Parameter) :
      (∀ value, parameter.value = some value → QueueConfig.fromStr value = none) → Padded l l' →
      Padded l (parameter :: l')

theorem Padded.configsOf_eq {l l' : List Parameter} (h : Padded l l') :
    configsOf l' = configsOf l := by
  induction h with
  | nil => rfl
  | keep parameter _ ih =>
    simp only [configsOf, List.filterMap_cons] at ih ⊢
    rw [ih]
  | unreadable parameter hbad _ ih =>
    have hnone : parameter.config = none := by
      unfold Parameter.config
      cases hvalue : parameter.value with
      | none => rfl
      | some value => exact hbad value hvalue
    rw [← ih, configsOf, List.filterMap_cons_none hnone, configsOf]

theorem Padded.loadMap_eq {l l' : List Parameter} (h : Padded l l') : loadMap l' = loadMap l := by
  rw [loadMap, loadMap, h.configsOf_eq]

namespace ConfigStore

/-- The loop against a service, with at most `fuel` requests. -/
def loadFrom (ssm : Ssm) (path : String) : ℕ → ℕ → Configs → Option String →
    Option (Except ConfigError Configs × List GetParametersByPathInput)
  | 0, _, _, _ => none
  | fuel + 1, i, configs, nextToken =>
    let input := request path nextToken
    match ssm i input with
    | .error e => some (.error (.load e), [input])
    | .ok output =>
      let configs := insertPage configs output.parameters
      match output.nextToken with
      | none => some (.ok configs, [input])
      | some token =>
        (loadFrom ssm path fuel (i + 1) configs (some token)).map
          (fun loaded => (loaded.1, input :: loaded.2))

theorem loadFrom_of_serves {ssm : Ssm} {path : String} {i fuel : ℕ} {configs : Configs}
    {nextToken : Option String} {answers : Answers} (h : Serves ssm path i nextToken answers)
    (hfuel : answers.tokens.length < fuel) :
    loadFrom ssm path fuel i configs nextToken =
      some (refreshLoop path configs nextToken answers) := by
  obtain ⟨fuel, rfl⟩ := Nat.exists_eq_add_one_of_ne_zero (Nat.ne_zero_of_lt hfuel)
  induction answers generalizing i fuel configs nextToken with
  | error e =>
    have hanswer : ssm i (request path nextToken) = .error e := h
    simp only [loadFrom, hanswer, refreshLoop]
  | last parameters =>
    have hanswer : ssm i (request path nextToken) = .ok ⟨parameters, none⟩ := h
    simp only [loadFrom, hanswer, refreshLoop]
  | page parameters token rest ih =>
    obtain ⟨hanswer, hrest⟩ := h
    rw [Answers.tokens, List.length_cons] at hfuel
    have hless : rest.tokens.length < fuel := Nat.lt_of_succ_lt_succ hfuel
    obtain ⟨fuel, rfl⟩ := Nat.exists_eq_add_one_of_ne_zero (Nat.ne_zero_of_lt hless)
    rw [loadFrom]
    simp only [hanswer]
    rw [ih hrest fuel hless, Option.map_some]
    rfl

theorem refreshLoop_requests (path : String) (configs : Configs) (nextToken : Option String)
    (answers : Answers) :
    (refreshLoop path configs nextToken answers).2 =
      (nextToken :: answers.tokens.map some).map (request path) := by
  induction answers generalizing configs nextToken with
  | error e => rfl
  | last parameters => rfl
  | page parameters token rest ih =>
    simp only [refreshLoop, ih, Answers.tokens, List.map_cons]

theorem refresh_requests (store : ConfigStore) (io : Lookup) :
    (store.refresh io).requests =
      (none :: io.answers.tokens.map some).map (request store.path) := by
  rw [refresh_eq, refreshLoop_requests]

end ConfigStore

open ConfigStore in
/-- Loading does not depend on the pages. For a load whose pages hold a list of parameters, the loop
ends, asks for the first page without a token and for each further page with the token of the one
before, and leaves the map of the last well-formed configurations of the list. Another way of
cutting the list into pages leaves the same map, and so does a list with unreadable parameters put
in. -/
theorem load_independent_of_pages (store : ConfigStore) (io : Lookup)
    (parameters : List Parameter) (hpages : io.answers.parameters = .ok parameters) :
    (∀ ssm, Serves ssm store.path 0 none io.answers → ∀ fuel, io.answers.tokens.length < fuel →
      loadFrom ssm store.path fuel 0 ∅ none = some (refreshLoop store.path ∅ none io.answers)) ∧
    (store.refresh io).result = .ok () ∧
    (store.refresh io).requests =
      (none :: io.answers.tokens.map some).map (fun token => ⟨store.path, true, token⟩) ∧
    (∃ configs, (store.refresh io).store = { store with cache := some (io.loadedAt, configs) } ∧
      ∀ arn, configs.lookup arn = lastConfig parameters arn) ∧
    (∀ other : Lookup, other.answers.parameters = .ok parameters →
      (store.refresh other).store.cache.map Prod.snd =
        (store.refresh io).store.cache.map Prod.snd) ∧
    ∀ padded, Padded parameters padded → ∀ other : Lookup, other.answers.parameters = .ok padded →
      (store.refresh other).store.cache.map Prod.snd =
        (store.refresh io).store.cache.map Prod.snd := by
  obtain ⟨hok, hstore⟩ := refresh_of_ok store hpages
  refine ⟨?_, hok, refresh_requests store io, ?_, ?_, ?_⟩
  · intro ssm hserves fuel hfuel
    exact loadFrom_of_serves hserves hfuel
  · exact ⟨loadMap parameters, hstore, lookup_loadMap parameters⟩
  · intro other hother
    rw [hstore, (refresh_of_ok store hother).2]
    rfl
  · intro padded hpadded other hother
    rw [hstore, (refresh_of_ok store hother).2, hpadded.loadMap_eq]
    rfl

def earlierParameter : Parameter := ⟨some "/queues/App/A", some "[\"arn\",\"url\",3]"⟩

def laterParameter : Parameter := ⟨some "/queues/App/C", some "[\"arn\",\"url\",5]"⟩

def brokenParameter : Parameter := ⟨some "/queues/App/B", some "[\"arn\""⟩

/-- A load over two pages, and one of the readable parameters alone over a single page. -/
def twoPages : Lookup :=
  ⟨1, .page (some [earlierParameter, brokenParameter]) "next" (.last (some [laterParameter])), 2⟩

def onePage : Lookup := ⟨3, .last (some [earlierParameter, laterParameter]), 4⟩

theorem earlierParameter_config :
    earlierParameter.config = some ⟨"arn", "url", some 3, none, none, none⟩ := by rfl

theorem laterParameter_config :
    laterParameter.config = some ⟨"arn", "url", some 5, none, none, none⟩ := by rfl

theorem brokenParameter_unreadable (value : String) (hvalue : brokenParameter.value = some value) :
    QueueConfig.fromStr value = none := by
  obtain rfl := Option.some.inj hvalue
  rfl

theorem load_independent_of_pages_sample :
    ((ConfigStore.new "/queues/").refresh twoPages).requests =
        [⟨"/queues/", true, none⟩, ⟨"/queues/", true, some "next"⟩] ∧
      (∃ configs, ((ConfigStore.new "/queues/").refresh twoPages).store =
          { ConfigStore.new "/queues/" with cache := some (2, configs) } ∧
        configs.lookup "arn" = some ⟨"arn", "url", some 5, none, none, none⟩) ∧
      ((ConfigStore.new "/queues/").refresh twoPages).store.cache.map Prod.snd =
        ((ConfigStore.new "/queues/").refresh onePage).store.cache.map Prod.snd := by
  obtain ⟨-, -, hrequests, ⟨configs, hstore, hlookup⟩, -⟩ :=
    load_independent_of_pages (ConfigStore.new "/queues/") twoPages
      [earlierParameter, brokenParameter, laterParameter] rfl
  have hbroken : brokenParameter.config = none := brokenParameter_unreadable _ rfl
  have hpadded : Padded [earlierParameter, laterParameter]
      [earlierParameter, brokenParameter, laterParameter] :=
    .keep _ (.unreadable _ brokenParameter_unreadable (.keep _ .nil))
  refine ⟨hrequests, ⟨configs, hstore, ?_⟩, ?_⟩
  · rw [hlookup, lastConfig, configsOf]
    simp [earlierParameter_config, hbroken, laterParameter_config]
  · exact (load_independent_of_pages (ConfigStore.new "/queues/") onePage _ rfl).2.2.2.2.2 _ hpadded
      twoPages rfl

end ReplayBackoff
