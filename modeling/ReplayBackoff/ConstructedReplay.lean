import ReplayBackoff.Registration
import ReplayBackoff.Routing
import ReplayBackoff.StageResources

/-!
# From the constructs to the replay

The constructs of an app decide how the deployed function of a stage replays a message: it goes back
to the source queue of the replayer whose event source delivered it, under the options of that
replayer, then the variables in the environment option of the replayer that created the function,
then the defaults of the Lambda. The configurations of all stages may be stored side by side, as
long as a replay queue belongs to one replayer.
-/

namespace ReplayBackoff

open StageResources

def SqsReplayerProps.environmentValue (props : SqsReplayerProps) (name : String) : Option String :=
  props.variables.lookup name

/-- The option of a replayer comes before the variable of its function, and that before the
default. -/
def Effective (provided : Option JsNumber) (text : Option String) (default used : UInt32) : Prop :=
  match provided, text with
  | some x, _ => x.value? = some (used.toNat : ℚ)
  | none, some text => DecimalText.parseU32 text = some used
  | none, none => used = default

def EffectiveFlag (provided : Option Bool) (text : Option String) (default used : Bool) : Prop :=
  match provided, text with
  | some b, _ => used = b
  | none, some text =>
    if used then Environment.toAsciiLowercase text = "true"
    else Environment.toAsciiLowercase text = "false"
  | none, none => used = default

/-- What a replayer's messages are replayed under, when `first` created the function. -/
structure Settings (first own : SqsReplayerProps) (used : ResolvedQueueConfig) : Prop where
  queueUrl : used.queueUrl = own.sourceQueue.queueUrl
  maxAttempts : Effective own.maxAttempts (first.environmentValue "MAX_ATTEMPTS") 5 used.maxAttempts
  backoffRate : Effective (own.backoffRate.map (·.toSeconds))
    (first.environmentValue "BACKOFF_RATE") 30
    used.backoffRateSeconds
  maximumDelay : Effective (own.maximumDelay.map (·.toSeconds))
    (first.environmentValue "MAXIMUM_DELAY")
    900 used.maximumDelaySeconds
  useJitter : EffectiveFlag own.useJitter (first.environmentValue "BACKOFF_JITTER") false
    used.useJitter

theorem effective_of_uses {provided : Option JsNumber} {text : Option String}
    {values : Environment.Variables} {name : String} {default global used : UInt32}
    (htext : values.lookup name = text)
    (hglobal : Environment.positiveInt values name default = .ok global)
    (huses : Uses provided global used) : Effective provided text default used := by
  cases provided with
  | some x => exact huses
  | none =>
    obtain rfl : used = global := huses
    rcases (Environment.positiveInt_ok_iff values name default used).mp hglobal with
      ⟨hnone, rfl⟩ | ⟨value, hvalue, hparse, -⟩
    · rw [← htext, hnone]
      rfl
    · rw [← htext, hvalue]
      exact hparse

theorem effectiveFlag_of_boolFlag {provided : Option Bool} {text : Option String}
    {values : Environment.Variables} {name : String} {default global : Bool}
    (htext : values.lookup name = text)
    (hglobal : Environment.boolFlag values name default = .ok global) :
    EffectiveFlag provided text default (provided.getD global) := by
  cases provided with
  | some b => rfl
  | none =>
    unfold Environment.boolFlag at hglobal
    rw [htext] at hglobal
    cases text with
    | none => exact (Except.ok.inj hglobal).symm
    | some text =>
      dsimp only at hglobal
      split_ifs at hglobal with htrue hfalse
      · obtain rfl := Except.ok.inj hglobal
        exact htrue
      · obtain rfl := Except.ok.inj hglobal
        exact hfalse

theorem settings_of_resolvesTo {first own : SqsReplayerProps} {env : Environment}
    {used : ResolvedQueueConfig}
    (henv : Environment.parse (SqsReplayerSingleton.create first).environment = .ok env)
    (h : ResolvesTo own env used) : Settings first own used := by
  obtain ⟨-, -, hattempts, hrate, hdelay, hjitter⟩ := (Environment.parse_ok_iff _ _).mp henv
  refine ⟨h.queueUrl, ?_, ?_, ?_, ?_⟩
  · exact effective_of_uses (lookup_variable first (by decide) (by decide)) hattempts h.maxAttempts
  · exact effective_of_uses (lookup_variable first (by decide) (by decide)) hrate h.backoffRate
  · exact effective_of_uses (lookup_variable first (by decide) (by decide))
      ((Environment.maximumDelay_ok_iff _ _).mp hdelay).1 h.maximumDelay
  · rw [h.useJitter]
    exact effectiveFlag_of_boolFlag (lookup_variable first (by decide) (by decide)) hjitter

/-- The accepted replayers of a stage from the one that creates the function. -/
def replayersOf (names : QueueNames) (calls : List Call) (stage : ℕ) : List Registration :=
  effective (ofStage stage (registrations names calls))

def Registration.arn (r : Registration) : String := r.props.replayQueue.queueArn

def Writer (names : QueueNames) (calls : List Call) (r : Registration) : Prop :=
  ∃ stage, r ∈ replayersOf names calls stage ∧ r.writes = true

def storedParameters (names : QueueNames) (calls : List Call) : List Parameter :=
  (appAfter names calls).parameters.map (·.2)

section

variable {names : QueueNames} {calls : List Call} {stage : ℕ} {r first : Registration}
  {rest : List Registration}

theorem accepted_of_mem_replayersOf (h : r ∈ replayersOf names calls stage) :
    checkProps r.props = .ok () := by
  have hfilter := (List.dropWhile_sublist _).subset h
  have haccepted := (Bool.and_eq_true_iff.mp (List.mem_filter.mp hfilter).2).2
  cases hcheck : checkProps r.props with
  | error e => simp [hcheck] at haccepted
  | ok _ => rfl

theorem resources_of_replayersOf (h : replayersOf names calls stage = first :: rest) :
    (appAfter names calls).resources stage =
      ofReplayers (.create first.props) (first :: rest) :=
  ((appAfter_follows names calls).resources stage).trans (expected_of_cons h)

theorem exists_writer {parameter : Parameter} (h : parameter ∈ storedParameters names calls) :
    ∃ r, Writer names calls r ∧ parameter.value = some r.props.stringValue := by
  obtain ⟨p, hp, rfl⟩ := List.mem_map.mp h
  have hfollows := appAfter_follows names calls
  obtain ⟨stage, hstage⟩ := hfollows.wellFormed.written p hp
  have hown : p.2 ∈ ((appAfter names calls).resources stage).parameters :=
    List.mem_map.mpr ⟨p, List.mem_filter.mpr ⟨hp, by simpa using hstage⟩, rfl⟩
  cases hrs : replayersOf names calls stage with
  | nil =>
    rw [hfollows.resources stage, expected_of_nil hrs] at hown
    cases hown
  | cons first rest =>
    rw [resources_of_replayersOf hrs] at hown
    obtain ⟨r, hr, hparameter⟩ := List.mem_map.mp hown
    obtain ⟨hmem, hwrites⟩ := List.mem_filter.mp hr
    refine ⟨r, ⟨stage, by rw [hrs]; exact hmem, hwrites⟩, ?_⟩
    rw [← hparameter]
    rfl

theorem mem_storedParameters (h : replayersOf names calls stage = first :: rest)
    (hr : r ∈ first :: rest) (hwrites : r.writes = true) :
    r.parameter (.create first.props) ∈ storedParameters names calls := by
  have hown : r.parameter (.create first.props) ∈
      ((appAfter names calls).resources stage).parameters := by
    rw [resources_of_replayersOf h]
    exact List.mem_map.mpr ⟨r, List.mem_filter.mpr ⟨hr, hwrites⟩, rfl⟩
  obtain ⟨p, hp, hparameter⟩ := List.mem_map.mp hown
  exact List.mem_map.mpr ⟨p, (List.mem_filter.mp hp).1, hparameter⟩

section

variable {path : String} {load : List Parameter} {config config' : QueueConfig}
  (harns : ∀ r r', Writer names calls r → Writer names calls r' → r.arn = r'.arn → r = r')

include harns

/-- A replay queue has at most one configuration in the whole app. -/
theorem config_unique (h : config ∈ configsOf (visible path (storedParameters names calls)))
    (h' : config' ∈ configsOf (visible path (storedParameters names calls)))
    (harn : config.replayQueueArn = config'.replayQueueArn) : config = config' := by
  obtain ⟨parameter, hparameter, hread⟩ := mem_configsOf.mp h
  obtain ⟨parameter', hparameter', hread'⟩ := mem_configsOf.mp h'
  obtain ⟨r, hwriter, hvalue⟩ := exists_writer (List.mem_filter.mp hparameter).1
  obtain ⟨r', hwriter', hvalue'⟩ := exists_writer (List.mem_filter.mp hparameter').1
  rw [Parameter.config, hvalue, Option.bind_some] at hread
  rw [Parameter.config, hvalue', Option.bind_some] at hread'
  have hsame : r = r' := by
    apply harns r r' hwriter hwriter'
    exact (replayQueueArn_of_stringValue hread).symm.trans
      (harn.trans (replayQueueArn_of_stringValue hread'))
  rw [hsame, hread'] at hread
  exact (Option.some.inj hread).symm

theorem lastConfig_of_perm (hload : load.Perm (visible path (storedParameters names calls)))
    (arn : String) :
    lastConfig load arn = lastConfig (visible path (storedParameters names calls)) arn := by
  have hmem : ∀ c, c ∈ configsOf load ↔
      c ∈ configsOf (visible path (storedParameters names calls)) :=
    fun c => (hload.filterMap _).mem_iff
  cases hstored : lastConfig (visible path (storedParameters names calls)) arn with
  | none =>
    rw [Option.eq_none_iff_forall_ne_some]
    intro c hc
    obtain ⟨last, hlast⟩ := exists_lastConfig ((hmem c).mp (mem_of_lastConfig hc))
    rw [replayQueueArn_of_lastConfig hc, hstored] at hlast
    cases hlast
  | some c =>
    obtain ⟨last, hlast⟩ := exists_lastConfig ((hmem c).mpr (mem_of_lastConfig hstored))
    have hsame := config_unique harns ((hmem last).mp (mem_of_lastConfig hlast))
      (mem_of_lastConfig hstored) (replayQueueArn_of_lastConfig hlast)
    rw [replayQueueArn_of_lastConfig hstored] at hlast
    rw [hlast, hsame]

theorem lastConfig_of_replayer (hrs : replayersOf names calls stage = first :: rest)
    (hr : r ∈ first :: rest) (hwrites : r.writes = true)
    (hcovered : InHierarchy path
      ((SqsReplayerSingleton.create first.props).configPath ++ sanitize r.scope.path))
    (hconfig : QueueConfig.fromStr r.props.stringValue = some config) :
    lastConfig (visible path (storedParameters names calls)) r.arn = some config := by
  have hmem : r.parameter (.create first.props) ∈ visible path (storedParameters names calls) := by
    refine List.mem_filter.mpr ⟨mem_storedParameters hrs hr hwrites, ?_⟩
    simpa [Registration.parameter, configParameter] using hcovered
  have hown : (r.parameter (.create first.props)).config = some config := by
    rw [Parameter.config, Registration.parameter, configParameter, Option.bind_some, hconfig]
  have hstored := mem_configsOf.mpr ⟨_, hmem, hown⟩
  obtain ⟨last, hlast⟩ := exists_lastConfig hstored
  have hsame := config_unique harns (mem_of_lastConfig hlast) hstored
    (replayQueueArn_of_lastConfig hlast)
  rw [replayQueueArn_of_stringValue hconfig] at hlast
  exact hlast.trans (congrArg some hsame)

omit harns in
/-- Nothing is configured for a queue without a replayer. -/
theorem lastConfig_of_stranger {arn : String} (h : ∀ r, Writer names calls r → r.arn ≠ arn) :
    lastConfig (visible path (storedParameters names calls)) arn = none := by
  rw [Option.eq_none_iff_forall_ne_some]
  intro c hc
  obtain ⟨parameter, hparameter, hread⟩ := mem_configsOf.mp (mem_of_lastConfig hc)
  obtain ⟨r, hwriter, hvalue⟩ := exists_writer (List.mem_filter.mp hparameter).1
  rw [Parameter.config, hvalue, Option.bind_some] at hread
  exact h r hwriter ((replayQueueArn_of_stringValue hread).symm.trans
    (replayQueueArn_of_lastConfig hc))

end

end

/-- The request of a record under the settings of its queue, if it has any. -/
def requestUnder (used : String → Option ResolvedQueueConfig) (rng : Rng) (record : SqsMessage) :
    Option ReplayRequest :=
  record.eventSourceArn.bind (fun arn => (used arn).bind (fun config =>
    match buildReplayRequest rng config record with
    | .ok request => request
    | .error _ => none))

def sendsUnder (used : String → Option ResolvedQueueConfig) (inv : Invocation) : List Entry :=
  inv.records.zipIdx.filterMap (fun item =>
    (requestUnder used (inv.rng item.2) item.1).bind (fun request =>
      item.1.messageId.map (fun id => (id, request))))

def failuresUnder (used : String → Option ResolvedQueueConfig) (inv : Invocation) : List String :=
  inv.records.zipIdx.filterMap (fun item =>
    if (requestUnder used (inv.rng item.2) item.1).isSome then none else item.1.messageId)

/-- The first pass resolved the settings of every ARN of the event. -/
def Resolves (resolved : Resolved) (used : String → Option ResolvedQueueConfig)
    (inv : Invocation) : Prop :=
  ∀ record ∈ inv.records, ∀ arn, record.eventSourceArn = some arn →
    resolved.lookup arn = some (used arn)

section

variable {resolved : Resolved} {used : String → Option ResolvedQueueConfig} {inv : Invocation}

theorem disposition_eq (h : Resolves resolved used inv) {record : SqsMessage}
    (hrecord : record ∈ inv.records) (rng : Rng) :
    sendOf resolved rng record =
        (requestUnder used rng record).bind (fun request =>
          record.messageId.map (fun id => (id, request))) ∧
      failureOf resolved rng record =
        if (requestUnder used rng record).isSome then none else record.messageId := by
  unfold sendOf failureOf disposition requestUnder
  cases harn : record.eventSourceArn with
  | none => exact ⟨rfl, rfl⟩
  | some arn =>
    have hlookup := h record hrecord arn harn
    cases hused : used arn with
    | none =>
      rw [hused] at hlookup
      simp [hlookup, hused]
    | some config =>
      rw [hused] at hlookup
      simp only [hlookup, hused, Option.bind_some]
      cases buildReplayRequest rng config record with
      | error e => simp
      | ok request => cases request <;> simp

theorem passSends_eq (h : Resolves resolved used inv) :
    passSends resolved inv = sendsUnder used inv := by
  refine List.filterMap_congr ?_
  rintro ⟨record, i⟩ hitem
  exact (disposition_eq h (List.fst_mem_of_mem_zipIdx hitem) _).1

theorem passFailures_eq (h : Resolves resolved used inv) :
    passFailures resolved inv = failuresUnder used inv := by
  refine List.filterMap_congr ?_
  rintro ⟨record, i⟩ hitem
  exact (disposition_eq h (List.fst_mem_of_mem_zipIdx hitem) _).2

/-- An entry was built from a record under the settings of its queue. -/
theorem built_of_sendsUnder {id : String} {request : ReplayRequest}
    (h : (id, request) ∈ sendsUnder used inv) :
    ∃ record ∈ inv.records, ∃ rng arn config, record.eventSourceArn = some arn ∧
      used arn = some config ∧ buildReplayRequest rng config record = .ok (some request) := by
  obtain ⟨⟨record, i⟩, hitem, hrequest⟩ := List.mem_filterMap.mp h
  obtain ⟨request', hunder, hid⟩ := Option.bind_eq_some_iff.mp hrequest
  obtain ⟨id', -, heq⟩ := Option.map_eq_some_iff.mp hid
  obtain ⟨rfl, rfl⟩ := Prod.mk.inj heq
  obtain ⟨arn, harn, hsome⟩ := Option.bind_eq_some_iff.mp hunder
  obtain ⟨config, hconfig, hbuild⟩ := Option.bind_eq_some_iff.mp hsome
  refine ⟨record, List.fst_mem_of_mem_zipIdx hitem, inv.rng i, arn, config, harn, hconfig, ?_⟩
  cases hresult : buildReplayRequest (inv.rng i) config record with
  | error e =>
    rw [hresult] at hbuild
    cases hbuild
  | ok built =>
    rw [hresult] at hbuild
    exact congrArg Except.ok hbuild

theorem built_of_call {call : SendCall}
    (hcall : call ∈ sendCalls inv.sqs inv.order (sendsUnder used inv))
    {entry : SendMessageBatchRequestEntry} (hentry : entry ∈ call.input.entries) :
    ∃ record ∈ inv.records, ∃ rng arn config id request, record.eventSourceArn = some arn ∧
      used arn = some config ∧ call.input.queueUrl = config.queueUrl ∧
      buildReplayRequest rng config record = .ok (some request) ∧
      entry = toBatchEntry id request := by
  obtain ⟨id, request, hsend, hentry, hurl⟩ := sendCalls_entry hcall hentry
  obtain ⟨record, hrecord, rng, arn, config, harn, hconfig, hbuild⟩ := built_of_sendsUnder hsend
  exact ⟨record, hrecord, rng, arn, config, id, request, harn, hconfig,
    hurl.trans (buildReplayRequest_queueUrl hbuild), hbuild, hentry⟩

end

/-- The function of the stage has the event source of the replayer, finds its parameter, and can
read its options. -/
structure Served (first : Registration) (rs : List Registration) (env : Environment)
    (r : Registration) : Prop where
  mem : r ∈ rs
  attached : r.attaches = true
  covered : InHierarchy env.configPath
    ((SqsReplayerSingleton.create first.props).configPath ++ sanitize r.scope.path)
  maxAttempts : ∀ attempts, r.props.maxAttempts = some attempts → FitsU32 attempts
  backoffRate : ∀ rate, r.props.backoffRate = some rate →
    rate.toSeconds.greaterThan 4294967295 = false

theorem Served.exists_config {first r : Registration} {rs : List Registration} {env : Environment}
    (h : Served first rs env r) (hcheck : checkProps r.props = .ok ()) :
    ∃ config, QueueConfig.fromStr r.props.stringValue = some config ∧
      ResolvesTo r.props env (config.resolve env) := by
  have hvalid := validateTuning_of_checkProps hcheck
  have hrate : ∀ x, r.props.backoffRate.map (·.toSeconds) = some x → FitsU32 x := by
    intro x hx
    obtain ⟨rate, hrate, rfl⟩ := Option.map_eq_some_iff.mp hx
    exact (duration_fits_iff rate).mpr (h.backoffRate rate hrate)
  obtain ⟨config, hconfig, hagrees⟩ := (fromStr_agrees_iff r.props).mpr
    ⟨h.maxAttempts, hrate, maximumDelay_fits hvalid⟩
  exact ⟨config, hconfig, hagrees.resolvesTo hvalid env⟩

/-- The settings under which the deployed functions replay the messages of a queue. -/
def settingsOf (names : QueueNames) (calls : List Call) (env : Environment) (arn : String) :
    Option ResolvedQueueConfig :=
  (lastConfig (visible env.configPath (storedParameters names calls)) arn).map (·.resolve env)

section

variable {names : QueueNames} {calls : List Call} {stage : ℕ} {first r : Registration}
  {rest : List Registration} {env : Environment}
  (harns : ∀ r r', Writer names calls r → Writer names calls r' → r.arn = r'.arn → r = r')

include harns

theorem settings_of_served (hrs : replayersOf names calls stage = first :: rest)
    (henv : Environment.parse (SqsReplayerSingleton.create first.props).environment = .ok env)
    (hr : Served first (first :: rest) env r) :
    ∃ settings, settingsOf names calls env r.arn = some settings ∧
      Settings first.props r.props settings := by
  obtain ⟨config, hconfig, hresolves⟩ :=
    hr.exists_config (accepted_of_mem_replayersOf (hrs ▸ hr.mem))
  have hwrites : r.writes = true := (Bool.and_eq_true_iff.mp hr.attached).1
  refine ⟨config.resolve env, ?_, settings_of_resolvesTo henv hresolves⟩
  rw [settingsOf, lastConfig_of_replayer harns hrs hr.mem hwrites hr.covered hconfig,
    Option.map_some]

theorem resolves_settingsOf {history : List Invocation} {inv : Invocation} {resolved : Resolved}
    (hloads : ∀ load, LoadOf (history ++ [inv]) load →
      load.Perm (visible env.configPath (storedParameters names calls)))
    (hresolve : (resolvePass env (storeFor env env.configPath history) inv).result = .ok resolved) :
    Resolves resolved (settingsOf names calls env) inv := by
  intro record hrecord arn harn
  have hagree := agree_eventLoads env.configPath history hresolve
  have hmem := resolvePass_covers hresolve record hrecord arn harn
  obtain ⟨load, hload⟩ := (HashMap.mem_iff_exists_lookup _ arn).mp ((hagree.mem_iff arn).mp hmem)
  rw [hagree arn, hload, Option.map_some, settingsOf,
    lastConfig_of_perm harns (hloads load (eventLoads_loadOf history inv hload))]

end

/-- Once deployed, the function of a stage treats every event as the constructs say. The messages of
a served replayer are replayed under its settings, a queue without a replayer has none, and every
record is sent or reported accordingly. Where the records come from served replayers that have their
grants, the function may make each of its calls. -/
theorem replayed_as_constructed {names : QueueNames} {calls : List Call} {stage : ℕ}
    {first : Registration} {rest : List Registration} {function : ReplayerFunction}
    {env : Environment} {history : List Invocation} {inv : Invocation} {response : BatchResponse}
    (hrs : replayersOf names calls stage = first :: rest)
    (hfunction : ((appAfter names calls).resources stage).function = some function)
    (henv : Environment.parse function.environment = .ok env)
    (harns : ∀ r r', Writer names calls r → Writer names calls r' → r.arn = r'.arn → r = r')
    (hloads : ∀ load, LoadOf (history ++ [inv]) load →
      load.Perm (visible env.configPath (storedParameters names calls)))
    (hok : (handle env (storeFor env env.configPath history) inv).result = .ok response) :
    ∃ used : String → Option ResolvedQueueConfig,
      (∀ r, Served first (first :: rest) env r →
        ∃ settings, used r.arn = some settings ∧ Settings first.props r.props settings) ∧
      (∀ arn, (∀ r, Writer names calls r → r.arn ≠ arn) → used arn = none) ∧
      (handle env (storeFor env env.configPath history) inv).calls =
        sendCalls inv.sqs inv.order (sendsUnder used inv) ∧
      response = ⟨(failuresUnder used inv ++
        (sendCalls inv.sqs inv.order (sendsUnder used inv)).flatMap (·.reported)).map
          BatchItemFailure.mk⟩ ∧
      ((∀ record ∈ inv.records, ∀ arn, record.eventSourceArn = some arn →
          ∃ r, Served first (first :: rest) env r ∧ r.completes = true ∧ r.arn = arn) →
        ∀ call ∈ (handle env (storeFor env env.configPath history) inv).calls,
          ∀ entry ∈ call.input.entries,
            ∃ queue ∈ function.sendGrants, queue.queueUrl = call.input.queueUrl) := by
  rw [resources_of_replayersOf hrs] at hfunction
  obtain rfl := Option.some.inj hfunction
  obtain ⟨resolved, hresolve⟩ := handle_ok_iff_resolve_ok.mp ⟨response, hok⟩
  have hresolves := resolves_settingsOf harns hloads hresolve
  obtain ⟨hcalls, hresult⟩ := handle_of_resolve_ok hresolve
  rw [passSends_eq hresolves] at hcalls hresult
  rw [passFailures_eq hresolves, hok] at hresult
  refine ⟨settingsOf names calls env, fun r => settings_of_served harns hrs henv, ?_, hcalls,
    Except.ok.inj hresult, ?_⟩
  · intro arn hstranger
    rw [settingsOf, lastConfig_of_stranger hstranger, Option.map_none]
  · intro hevent call hcall entry hentry
    rw [hcalls] at hcall
    obtain ⟨record, hrecord, -, arn, config, -, -, harn, hconfig, hurl, -⟩ :=
      built_of_call hcall hentry
    obtain ⟨r, hr, hcompletes, rfl⟩ := hevent record hrecord arn harn
    obtain ⟨settings, hsettings, hown⟩ := settings_of_served harns hrs henv hr
    obtain rfl : settings = config := Option.some.inj (hsettings.symm.trans hconfig)
    refine ⟨r.props.sourceQueue, ?_, by rw [hurl, hown.queueUrl]⟩
    exact List.mem_map.mpr ⟨r, List.mem_filter.mpr ⟨hr.mem, hcompletes⟩, rfl⟩

def sampleRegistration : Registration :=
  ⟨SqsQueueWithReplay.replayerScope sampleScope,
    SqsQueueWithReplay.replayerProps sampleQueueProps "App/Orders" sampleNames, .willing⟩

def constructedInvocation : Invocation :=
  { sampleInvocation [⟨some "id-1", some "hello", ∅, ∅, some sampleRegistration.arn⟩] with
    lookups := fun _ => ⟨0, .last (some (visible "/sqs-replay/queues/"
      (storedParameters sampleNames sampleCalls))), 0⟩ }

theorem registrations_sample : registrations sampleNames sampleCalls = [sampleRegistration] := rfl

theorem replayersOf_sample : replayersOf sampleNames sampleCalls 0 = [sampleRegistration] := rfl

theorem mem_registrations {names : QueueNames} {calls : List Call} {r : Registration}
    (h : Writer names calls r) : r ∈ registrations names calls := by
  obtain ⟨stage, hr, -⟩ := h
  have hfilter := (List.dropWhile_sublist _).subset hr
  exact (List.mem_filter.mp (List.mem_filter.mp hfilter).1).1

theorem served_sample :
    Served sampleRegistration [sampleRegistration] sampleEnvironment sampleRegistration where
  mem := List.mem_singleton.mpr rfl
  attached := rfl
  covered := by decide
  maxAttempts := by simp [sampleRegistration, SqsQueueWithReplay.replayerProps, sampleQueueProps]
  backoffRate := by simp [sampleRegistration, SqsQueueWithReplay.replayerProps, sampleQueueProps]

theorem replayed_as_constructed_sample :
    ∃ used : String → Option ResolvedQueueConfig,
      (∃ settings, used sampleRegistration.arn = some settings ∧
        Settings sampleRegistration.props sampleRegistration.props settings) ∧
      (handle sampleEnvironment (storeFor sampleEnvironment sampleEnvironment.configPath [])
          constructedInvocation).calls =
        sendCalls constructedInvocation.sqs constructedInvocation.order
          (sendsUnder used constructedInvocation) := by
  have hpass := resolvePass_refines sampleEnvironment
    (ConfigStore.new_represents "/sqs-replay/queues/") rfl constructedInvocation
  obtain ⟨resolved, hresolved, -⟩ := hpass.ok _ rfl
  have hstore : storeFor sampleEnvironment sampleEnvironment.configPath [] =
      ConfigStore.new "/sqs-replay/queues/" := rfl
  rw [← hstore] at hresolved
  have hok := (handle_of_resolve_ok hresolved).2
  have henv : Environment.parse (SqsReplayerSingleton.create sampleRegistration.props).environment =
      .ok sampleEnvironment := by decide
  obtain ⟨used, hserved, -, hcalls, -⟩ := replayed_as_constructed replayersOf_sample
    (congrArg StageResources.function (resources_of_replayersOf replayersOf_sample)) henv
    (by
      intro r r' hr hr' _
      have h := mem_registrations hr
      have h' := mem_registrations hr'
      rw [registrations_sample] at h h'
      rw [List.mem_singleton.mp h, List.mem_singleton.mp h'])
    (by
      rintro load ⟨inv, hinv, k, hk⟩
      obtain rfl := List.mem_singleton.mp hinv
      obtain rfl := Except.ok.inj hk
      exact List.Perm.refl _)
    hok
  exact ⟨used, hserved _ served_sample, hcalls⟩

end ReplayBackoff
