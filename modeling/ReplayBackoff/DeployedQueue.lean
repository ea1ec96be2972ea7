import ReplayBackoff.AllAttempts
import ReplayBackoff.ConstructedReplay
import ReplayBackoff.QueueLoop

/-!
# A deployed queue with replay

A constructor of a queue with replay returned, and the app was deployed. Invocations of the function
of its stage may run in any number of processes, each with the store that its own history has left.
The queue system around them then is the one of the construct: its invocations send to the queue of
the construct only, under one limit of attempts, which is given by the options.
-/

namespace ReplayBackoff

open Lineage Potential StageResources

def SqsQueueWithReplay.registration (names : QueueNames) (scope : Scope)
    (props : SqsQueueWithReplayProps) (cdk : Cdk) : Registration :=
  ⟨replayerScope scope, replayerProps props scope.path names, cdk⟩

theorem effective_append {rs : List Registration} (rs' : List Registration) {r : Registration}
    (h : r ∈ effective rs) : r ∈ effective (rs ++ rs') := by
  unfold effective at h ⊢
  rw [List.filter_append, List.dropWhile_append, if_neg]
  · exact List.mem_append_left _ h
  · rw [List.isEmpty_iff]
    exact List.ne_nil_of_mem h

theorem of_ok {app : App} {r : Registration} {entry : ℕ × SqsReplayerSingleton}
    (h : (SqsReplayerSingleton.of app r.scope r.props r.cdk).result = .ok entry) :
    ∃ stage, r.scope.stage = some stage ∧
      (r.creates = true ∨ ∃ existing, app.singletons.lookup stage = some existing) := by
  unfold SqsReplayerSingleton.of at h
  cases hstage : r.scope.stage with
  | none => simp [hstage] at h
  | some stage =>
    refine ⟨stage, rfl, ?_⟩
    cases hlookup : app.singletons.lookup stage with
    | some existing => exact Or.inr ⟨existing, rfl⟩
    | none =>
      cases hfunction : r.cdk.function with
      | error e => simp [hstage, hlookup, hfunction] at h
      | ok _ => exact Or.inl (by rw [Registration.creates, hfunction, isOk_ok])

theorem completes_of_construct {app : App} {r : Registration} {replayer : ℕ}
    (h : (SqsReplayer.construct app r.scope r.props r.cdk).result = .ok replayer) :
    r.accepted = true ∧ r.completes = true ∧ ∃ stage, r.scope.stage = some stage ∧
      (r.creates = true ∨ ∃ existing, app.singletons.lookup stage = some existing) := by
  unfold SqsReplayer.construct at h
  cases hnode : r.cdk.node with
  | error e => simp [hnode] at h
  | ok _ =>
    cases hcheck : checkProps r.props with
    | error e => simp [hnode, hcheck] at h
    | ok _ =>
      have hof := @of_ok app r
      simp only [hnode, hcheck] at h
      generalize SqsReplayerSingleton.of app r.scope r.props r.cdk = built at h hof
      obtain ⟨e | entry, app'⟩ := built
      · cases h
      · refine ⟨?_, (register_ok h).2, hof rfl⟩
        simp [Registration.accepted, hnode, hcheck]

/-- A queue with replay whose constructor returned, among the other calls of its program. -/
structure ConstructedQueue (names : QueueNames) where
  before : List Call
  scope : Scope
  props : SqsQueueWithReplayProps
  cdk : Cdk
  built : SqsQueueWithReplay
  after : List Call
  returned : (SqsQueueWithReplay.construct names (appAfter names before) scope props cdk).result =
    .ok built

namespace ConstructedQueue

variable {names : QueueNames} (q : ConstructedQueue names)

def call : Call := .sqsQueueWithReplay q.scope q.props q.cdk

def calls : List Call := q.before ++ q.call :: q.after

def registration : Registration := SqsQueueWithReplay.registration names q.scope q.props q.cdk

def arn : String := names.queueArn q.built.replayQueue.path

def queueUrl : String := names.queueUrl q.built.queue.path

theorem registration_of_call : q.call.registration names = some q.registration := by
  obtain ⟨hnode, hfifo, hqueues, -⟩ := construct_ok q.returned
  exact registration_of_queues names hnode hfifo hqueues

theorem completes : q.registration.accepted = true ∧ q.registration.completes = true ∧
    ∃ stage, q.scope.stage = some stage ∧ (q.registration.creates = true ∨
      ∃ existing, (appAfter names q.before).singletons.lookup stage = some existing) := by
  obtain ⟨-, -, -, replayer, hreplayer, -⟩ := construct_ok q.returned
  obtain ⟨haccepted, hcompletes, hstage⟩ := @completes_of_construct _ q.registration _ hreplayer
  exact ⟨haccepted, hcompletes, hstage⟩

theorem registration_arn : q.registration.arn = q.arn := by
  obtain ⟨-, -, -, replayer, -, hbuilt⟩ := construct_ok q.returned
  rw [arn, hbuilt]
  rfl

theorem registration_queueUrl : q.registration.props.sourceQueue.queueUrl = q.queueUrl := by
  obtain ⟨-, -, -, replayer, -, hbuilt⟩ := construct_ok q.returned
  rw [queueUrl, hbuilt]
  rfl

theorem mem_replayersOf {stage : ℕ} (hstage : q.scope.stage = some stage) :
    q.registration ∈ replayersOf names q.calls stage := by
  obtain ⟨haccepted, -, stage', hstage', hfunction⟩ := q.completes
  obtain rfl : stage' = stage := Option.some.inj (hstage'.symm.trans hstage)
  have hregistrations : registrations names q.calls =
      (registrations names q.before ++ [q.registration]) ++ registrations names q.after := by
    rw [calls, registrations, List.filterMap_append, List.filterMap_cons,
      q.registration_of_call]
    simp [registrations]
  have hown : q.registration.scope.stage = some stage' := hstage
  rw [replayersOf, hregistrations, ofStage, List.filter_append]
  apply effective_append
  rw [← ofStage, ofStage_concat_own hown, effective_concat, haccepted, Bool.true_and]
  rcases hfunction with hcreates | ⟨existing, hexisting⟩
  · rw [hcreates, Bool.or_true, if_pos rfl]
    exact List.mem_append_right _ (List.mem_singleton.mpr rfl)
  · have hresources := (appAfter_follows names q.before).resources stage'
    have hne : effective (ofStage stage' (registrations names q.before)) ≠ [] := by
      rw [ne_eq, ← expected_singleton_eq_none_iff, ← hresources, App.resources, hexisting]
      simp
    rw [if_pos (by simp [hne])]
    exact List.mem_append_right _ (List.mem_singleton.mpr rfl)

end ConstructedQueue

/-- The app is deployed. The function of the stage parses its environment, finds the parameter of
the queue below its path, and can read its options. No two replayers share a replay queue, and the
receive count is a natural number. -/
structure Deployment (names : QueueNames) extends ConstructedQueue names where
  stage : ℕ
  inStage : scope.stage = some stage
  first : Registration
  rest : List Registration
  replayers : replayersOf names toConstructedQueue.calls stage = first :: rest
  env : Environment
  parsed : Environment.parse (SqsReplayerSingleton.create first.props).environment = .ok env
  separate : ∀ r r', Writer names toConstructedQueue.calls r →
    Writer names toConstructedQueue.calls r' → r.arn = r'.arn → r = r'
  covered : InHierarchy env.configPath ((SqsReplayerSingleton.create first.props).configPath ++
    sanitize toConstructedQueue.registration.scope.path)
  maxAttempts : ∀ attempts, props.maxAttempts = some attempts → FitsU32 attempts
  backoffRate : ∀ rate, props.backoffRate = some rate →
    rate.toSeconds.greaterThan 4294967295 = false
  maxReceiveCount : ℕ
  receives : (props.maxReceiveCount.getD defaultMaxReceiveCount).value? = some maxReceiveCount

namespace Deployment

variable {names : QueueNames} (d : Deployment names)

theorem exists_settings : ∃ settings, settingsOf names d.calls d.env d.arn = some settings ∧
    Settings d.first.props d.registration.props settings := by
  obtain ⟨-, hcompletes, -⟩ := d.completes
  have hserved : Served d.first (d.first :: d.rest) d.env d.registration := by
    refine ⟨?_, (Bool.and_eq_true_iff.mp hcompletes).1, d.covered, d.maxAttempts, d.backoffRate⟩
    rw [← d.replayers]
    exact d.mem_replayersOf d.inStage
  rw [← d.registration_arn]
  exact settings_of_served d.separate d.replayers d.parsed hserved

/-- An invocation of the deployed function, in a process with any history. -/
structure Invokes (r : Running) : Prop where
  env : r.env = d.env
  process : ∃ history, r.store = storeFor d.env d.env.configPath history ∧
    ∀ load, LoadOf (history ++ [r.inv]) load →
      load.Perm (visible d.env.configPath (storedParameters names d.calls))

/-- A step of the queues in which only the deployed function is invoked. Nothing is asked of the
limit, which an invocation takes from what it loads. -/
structure Step (m m' : Metered) : Prop where
  step : ∃ limit, MeteredStep .asSent d.arn limit d.maxReceiveCount m m'
  invokes : ∀ k r, m.state.running k = none → m'.state.running k = some r → d.Invokes r

abbrev Run : Metered → Metered → Prop := Relation.ReflTransGen d.Step

/-- Visibility timeouts hold, loads succeed, SQS accepts what it is sent, and reports are whole. -/
structure HealthyStep (m m' : Metered) : Prop where
  step : d.Step m m'
  visible : Visible m.state m'.state
  starts : ∀ k r, m.state.running k = none → m'.state.running k = some r → r.Healthy d.arn

abbrev HealthyRun : Metered → Metered → Prop := Relation.ReflTransGen d.HealthyStep

end Deployment

section

variable {names : QueueNames} {d : Deployment names} {r : Running} {s : State} {arn : String}
  {settings : ResolvedQueueConfig}

theorem eventSourceArn_of_carries
    (h : List.Forall₂ (s.Carries arn) r.batch r.inv.records) :
    ∀ record ∈ r.inv.records, record.eventSourceArn = some arn := by
  intro record hrecord
  obtain ⟨u, hu⟩ := exists_mem_zip_right h hrecord
  obtain ⟨copy, -, -, -, harn⟩ := List.forall₂_zip h hu
  exact harn

namespace Deployment.Invokes

theorem resolves (h : d.Invokes r) {resolved : Resolved}
    (hresolve : (resolvePass r.env r.store r.inv).result = .ok resolved) :
    Resolves resolved (settingsOf names d.calls d.env) r.inv := by
  obtain ⟨henv, history, hstore, hloads⟩ := h
  rw [henv, hstore] at hresolve
  exact resolves_settingsOf d.separate hloads hresolve

theorem limited (h : d.Invokes r)
    (hsettings : settingsOf names d.calls d.env d.arn = some settings) (hne : r.batch ≠ [])
    (hrecords : List.Forall₂ (s.Carries d.arn) r.batch r.inv.records) :
    r.Limited d.arn settings.maxAttempts := by
  intro resolved config hresolve hconfig
  have hnonempty : r.inv.records ≠ [] := by
    intro hnil
    rw [hnil, List.forall₂_nil_right_iff] at hrecords
    exact hne hrecords
  obtain ⟨record, hrecord⟩ := List.exists_mem_of_ne_nil _ hnonempty
  have hlookup := h.resolves hresolve record hrecord d.arn
    (eventSourceArn_of_carries hrecords record hrecord)
  rw [hsettings, hconfig] at hlookup
  obtain rfl : config = settings := Option.some.inj (Option.some.inj hlookup)
  rfl

theorem sends (h : d.Invokes r)
    (hsettings : settingsOf names d.calls d.env d.arn = some settings)
    (hrecords : List.Forall₂ (s.Carries d.arn) r.batch r.inv.records) {call : SendCall}
    (hcall : call ∈ r.handled.calls) :
    call.input.queueUrl = settings.queueUrl ∧
      ∀ entry ∈ call.input.entries, ∃ record ∈ r.inv.records, ∃ rng id request,
        buildReplayRequest rng settings record = .ok (some request) ∧
          entry = toBatchEntry id request := by
  obtain ⟨resolved, hresolve⟩ := exists_resolved_of_call hcall
  have hids := entryIds_ne_nil hcall
  rw [Running.handled, (handle_of_resolve_ok hresolve).1, passSends_eq (h.resolves hresolve)]
    at hcall
  have hentries : ∀ entry ∈ call.input.entries, call.input.queueUrl = settings.queueUrl ∧
      ∃ record ∈ r.inv.records, ∃ rng id request,
        buildReplayRequest rng settings record = .ok (some request) ∧
          entry = toBatchEntry id request := by
    intro entry hentry
    obtain ⟨record, hrecord, rng, arn, config, id, request, harn, hconfig, hurl, hbuild, heq⟩ :=
      built_of_call hcall hentry
    rw [eventSourceArn_of_carries hrecords record hrecord] at harn
    obtain rfl := Option.some.inj harn
    obtain rfl : settings = config := Option.some.inj (hsettings.symm.trans hconfig)
    exact ⟨hurl, record, hrecord, rng, id, request, hbuild, heq⟩
  obtain ⟨entry, hentry⟩ : ∃ entry, entry ∈ call.input.entries := by
    apply List.exists_mem_of_ne_nil
    intro hnil
    exact hids (by rw [SendCall.entryIds, hnil, List.map_nil])
  exact ⟨(hentries entry hentry).1, fun entry hentry => (hentries entry hentry).2⟩

end Deployment.Invokes

end

section

variable {arn : String} {limit limit' : UInt32} {maxReceiveCount : ℕ} {m m' : Metered}

/-- A step is one under another limit when the invocation it starts, if any, is under that one. -/
theorem MeteredStep.relimit (hstep : MeteredStep .asSent arn limit maxReceiveCount m m')
    (hlimited : ∀ k r, m.state.running k = none → m'.state.running k = some r →
      m.state.Delivery arn limit r → r.batch ≠ [] → r.Limited arn limit') :
    MeteredStep .asSent arn limit' maxReceiveCount m m' := by
  cases hstep with
  | receive u hu hplace hcount => exact .receive u hu hplace hcount
  | consume u hu hplace hcount => exact .consume u hu hplace hcount
  | redrive u ids hu hplace hcount hrest hids => exact .redrive u ids hu hplace hcount hrest hids
  | bury u ids hu hplace hcount hrest hids => exact .bury u ids hu hplace hcount hrest hids
  | deliver k r hidle hdelivery hne hcount =>
    have hlimit := hlimited k r hidle start_running_self hdelivery hne
    exact .deliver k r hidle { hdelivery with limited := hlimit } hne hcount
  | send k r i call ids hr hi hcall hrest hids => exact .send k r i call ids hr hi hcall hrest hids
  | finish k r hr hall => exact .finish k r hr hall

theorem MeteredStep.running_origin (hstep : MeteredStep .asSent arn limit maxReceiveCount m m')
    {k : ℕ} {r : Running} (hr : m'.state.running k = some r) :
    m.state.running k = none ∨
      ∃ r₀ sent, m.state.running k = some r₀ ∧ r = { r₀ with sent := sent } := by
  have hkept : m.state.running k = some r → m.state.running k = none ∨
      ∃ r₀ sent, m.state.running k = some r₀ ∧ r = { r₀ with sent := sent } :=
    fun hsame => Or.inr ⟨r, r.sent, hsame, rfl⟩
  cases hstep with
  | deliver j r' hidle hdelivery hne hcount =>
    rcases start_cases hr with ⟨rfl, -⟩ | ⟨-, hr⟩
    · exact Or.inl hidle
    · exact hkept hr
  | send j r' i call ids hr' hi hcall hrest hids =>
    rcases send_cases hr with ⟨rfl, rfl⟩ | ⟨-, hr⟩
    · exact Or.inr ⟨r', i :: r'.sent, hr', rfl⟩
    · exact hkept hr
  | finish j r' hr' hall => exact hkept (finish_cases hr).2
  | _ => exact hkept hr

end

namespace Deployment

variable {names : QueueNames} {d : Deployment names} {settings : ResolvedQueueConfig}
  {m₀ m m' : Metered}

theorem Step.metered (hstep : d.Step m m')
    (hsettings : settingsOf names d.calls d.env d.arn = some settings) :
    MeteredStep .asSent d.arn settings.maxAttempts d.maxReceiveCount m m' := by
  obtain ⟨⟨limit, hlimit⟩, hinvokes⟩ := hstep
  apply hlimit.relimit
  intro k r hidle hr hdelivery hne
  exact (hinvokes k r hidle hr).limited hsettings hne (hdelivery.records.imp fun _ _ h => h.1)

theorem Run.metered (hrun : d.Run m₀ m)
    (hsettings : settingsOf names d.calls d.env d.arn = some settings) :
    MeteredRun .asSent d.arn settings.maxAttempts d.maxReceiveCount m₀ m := by
  induction hrun with
  | refl => exact .refl
  | tail _ hstep ih => exact ih.tail (hstep.metered hsettings)

theorem invokes_of_run (h₀ : Initial m₀.state) (hrun : d.Run m₀ m) :
    ∀ k r, m.state.running k = some r → d.Invokes r := by
  induction hrun with
  | refl =>
    intro k r hr
    rw [h₀.idle k] at hr
    cases hr
  | tail _ hstep ih =>
    intro k r hr
    obtain ⟨limit, hlimit⟩ := hstep.step
    rcases hlimit.running_origin hr with hidle | ⟨r₀, sent, hr₀, rfl⟩
    · exact hstep.invokes k r hidle hr
    · exact ⟨(ih k r₀ hr₀).env, (ih k r₀ hr₀).process⟩

theorem HealthyRun.healthy (hrun : d.HealthyRun m₀ m)
    (hsettings : settingsOf names d.calls d.env d.arn = some settings) :
    ReplayBackoff.HealthyRun d.arn settings.maxAttempts d.maxReceiveCount m₀ m := by
  induction hrun with
  | refl => exact .refl
  | tail _ hstep ih =>
    exact ih.tail ⟨hstep.step.metered hsettings, hstep.visible, hstep.starts⟩

theorem calls_of_run (h₀ : Initial m₀.state) (hrun : d.Run m₀ m)
    (hsettings : settingsOf names d.calls d.env d.arn = some settings) {k : ℕ} {r : Running}
    (hr : m.state.running k = some r) {call : SendCall} (hcall : call ∈ r.handled.calls) :
    call.input.queueUrl = settings.queueUrl ∧
      ∀ entry ∈ call.input.entries, ∃ record ∈ r.inv.records, ∃ rng id request,
        buildReplayRequest rng settings record = .ok (some request) ∧
          entry = toBatchEntry id request := by
  have hinv := (QueueInv.of_initial h₀).run (hrun.metered hsettings).run
  exact (invokes_of_run h₀ hrun k r hr).sends hsettings (hinv.running k r hr).records hcall

end Deployment

/-- A deployed queue with replay keeps to its options, which come before the variables of the
function and the defaults. In every run of its queues in which only the deployed function is
invoked, in processes of any history, nothing is lost and every call goes to the queue of the
construct with requests built under the options. Unless the limit or a count is the largest, no
message is replayed beyond the limit, and the run is bounded by the limit and the receive count. If
the run is healthy, messages without a count come to the dead letter queue after exactly as many
replays. -/
theorem deployed_queue_keeps_to_options {names : QueueNames} (d : Deployment names) (m₀ : Metered)
    (h₀ : Initial m₀.state) :
    ∃ settings, Settings d.first.props d.registration.props settings ∧
      (∀ m, d.Run m₀ m → NothingLost m₀.state m.state ∧
        ∀ k r, m.state.running k = some r → ∀ call ∈ r.handled.calls,
          call.input.queueUrl = d.queueUrl ∧
          ∀ entry ∈ call.input.entries, ∃ record ∈ r.inv.records, ∃ rng id request,
            buildReplayRequest rng settings record = .ok (some request) ∧
              entry = toBatchEntry id request) ∧
      (settings.maxAttempts ≠ 4294967295 →
        ((∀ copy ∈ m₀.state.copies, ¬ copy.Counts 4294967295) → ∀ n m, Steps d.Step n m₀ m →
          ReplaysWithin settings.maxAttempts m.state ∧
          n ≤ m₀.state.copies.length *
            ((2 + 4 * d.maxReceiveCount) * branches d.maxReceiveCount settings.maxAttempts)) ∧
        (0 < d.maxReceiveCount → Unreceived m₀ → (∀ copy ∈ m₀.state.copies, copy.Counts 0) →
          ∀ m, d.HealthyRun m₀ m → ∀ v < m.state.copies.length, m.state.place v = .dead →
            (m.state.ancestors v).length = settings.maxAttempts.toNat)) := by
  obtain ⟨settings, hsettings, hown⟩ := d.exists_settings
  refine ⟨settings, hown, ?_, fun hlimit => ⟨?_, ?_⟩⟩
  · intro m hrun
    refine ⟨nothingLost_of_run h₀ (hrun.metered hsettings).run, fun k r hr call hcall => ?_⟩
    obtain ⟨hurl, hentries⟩ := Deployment.calls_of_run h₀ hrun hsettings hr hcall
    exact ⟨hurl.trans (hown.queueUrl.trans d.registration_queueUrl), hentries⟩
  · intro hcounts n m hsteps
    have hsteps' := hsteps.mono (fun _ _ hstep => hstep.metered hsettings)
    have hrun : MeteredRun .asSent d.arn settings.maxAttempts d.maxReceiveCount m₀ m :=
      hsteps'.reflTransGen
    exact ⟨replaysWithin_of_originals h₀ hlimit hcounts hrun.run,
      steps_le ⟨h₀, hlimit, hcounts⟩ hsteps'⟩
  · intro hpositive hunreceived huncounted m hrun
    have hhealthy := Deployment.HealthyRun.healthy hrun hsettings
    have hinv := (HealthyInv.of_unreceived hunreceived).run hpositive hhealthy
    exact length_of_dead hinv h₀ hlimit huncounted hhealthy

theorem value_defaultMaxReceiveCount : defaultMaxReceiveCount.value? = some ((5 : ℕ) : ℚ) := by
  have hvalue : (⟨5, 1, by decide⟩ : ShortestDecimal).value = 5 := by
    have hlength : (⟨5, 1, by decide⟩ : ShortestDecimal).length = 1 := by decide
    rw [ShortestDecimal.value, hlength]
    norm_num
  simp [defaultMaxReceiveCount, JsNumber.value?, hvalue]

def sampleDeployment : Deployment sampleNames where
  before := []
  scope := sampleScope
  props := sampleQueueProps
  cdk := .willing
  built := ⟨SqsQueueWithReplay.deadLetterQueueAt "App/Orders",
    SqsQueueWithReplay.replayQueueAt sampleQueueProps "App/Orders",
    SqsQueueWithReplay.queueAt sampleQueueProps "App/Orders", 0⟩
  after := []
  returned := rfl
  stage := 0
  inStage := rfl
  first := sampleRegistration
  rest := []
  replayers := rfl
  env := sampleEnvironment
  parsed := by decide
  separate := by
    intro r r' hr hr' _
    have h := mem_registrations hr
    have h' := mem_registrations hr'
    rw [List.mem_singleton.mp h, List.mem_singleton.mp h']
  covered := by decide
  maxAttempts := by simp [sampleQueueProps]
  backoffRate := by simp [sampleQueueProps]
  maxReceiveCount := 5
  receives := value_defaultMaxReceiveCount

theorem deployed_queue_keeps_to_options_sample :
    ∃ settings, Settings sampleRegistration.props sampleRegistration.props settings ∧
      ∀ m, sampleDeployment.Run sampleMetered m → NothingLost sampleMetered.state m.state ∧
        ∀ k r, m.state.running k = some r → ∀ call ∈ r.handled.calls,
          call.input.queueUrl = "https://sqs/App/Orders/Queue" := by
  obtain ⟨settings, hsettings, hruns, -⟩ :=
    deployed_queue_keeps_to_options sampleDeployment sampleMetered (sampleQueue_initial ∅)
  have hurl : sampleDeployment.queueUrl = "https://sqs/App/Orders/Queue" := by decide
  refine ⟨settings, hsettings, fun m hrun => ⟨(hruns m hrun).1, fun k r hr call hcall => ?_⟩⟩
  rw [((hruns m hrun).2 k r hr call hcall).1, hurl]

end ReplayBackoff
