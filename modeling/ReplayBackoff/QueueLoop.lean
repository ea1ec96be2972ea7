import ReplayBackoff.StageResources

/-!
# The loop of a queue with replay

`SqsQueueWithReplay` closes a loop: its queue redrives to the replay queue, the shared function
receives from that one, and the configuration it finds sends the messages back to the queue. What a
message cannot be replayed for goes to the dead letter queue. An app only ever grows, so that later
constructors, also those that throw, leave the loop as it was built.
-/

namespace ReplayBackoff

structure ReplayerFunction.Extends (f f' : ReplayerFunction) : Prop where
  environment : f'.environment = f.environment
  policyResource : f'.policyResource = f.policyResource
  eventSources : f.eventSources <+: f'.eventSources
  sendGrants : f.sendGrants <+: f'.sendGrants

structure App.Extends (app app' : App) : Prop where
  functions : ∀ (i : ℕ) (f : ReplayerFunction), app.functions[i]? = some f →
    ∃ f', app'.functions[i]? = some f' ∧ f.Extends f'
  singletons : ∀ stage entry, app.singletons.lookup stage = some entry →
    app'.singletons.lookup stage = some entry
  parameters : app.parameters <+: app'.parameters
  queues : app.queues <+: app'.queues

theorem ReplayerFunction.Extends.refl (f : ReplayerFunction) : f.Extends f :=
  ⟨rfl, rfl, List.prefix_refl _, List.prefix_refl _⟩

theorem ReplayerFunction.Extends.trans {f f' f'' : ReplayerFunction} (h : f.Extends f')
    (h' : f'.Extends f'') : f.Extends f'' where
  environment := h'.environment.trans h.environment
  policyResource := h'.policyResource.trans h.policyResource
  eventSources := List.IsPrefix.trans h.eventSources h'.eventSources
  sendGrants := List.IsPrefix.trans h.sendGrants h'.sendGrants

theorem Registration.attach_extends (r : Registration) (f : ReplayerFunction) :
    f.Extends (r.attach f) :=
  ⟨rfl, rfl, List.prefix_append _ _, List.prefix_append _ _⟩

namespace App.Extends

variable {app app' app'' : App}

theorem refl (app : App) : app.Extends app :=
  ⟨fun _ f h => ⟨f, h, .refl f⟩, fun _ _ h => h, List.prefix_refl _, List.prefix_refl _⟩

theorem trans (h : app.Extends app') (h' : app'.Extends app'') : app.Extends app'' where
  functions := by
    intro i f hf
    obtain ⟨f', hf', hextends⟩ := h.functions i f hf
    obtain ⟨f'', hf'', hextends'⟩ := h'.functions i f' hf'
    exact ⟨f'', hf'', hextends.trans hextends'⟩
  singletons := fun stage entry hentry =>
    h'.singletons stage entry (h.singletons stage entry hentry)
  parameters := List.IsPrefix.trans h.parameters h'.parameters
  queues := List.IsPrefix.trans h.queues h'.queues

theorem registered (app : App) (r : Registration) (entry : ℕ × SqsReplayerSingleton) :
    app.Extends (app.registered r entry) := by
  refine ⟨?_, fun _ _ h => h, List.prefix_append _ _, List.prefix_refl _⟩
  intro i f hf
  by_cases heq : entry.1 = i
  · refine ⟨r.attach f, ?_, r.attach_extends f⟩
    rw [App.registered, heq, List.getElem?_modify_eq, hf]
    rfl
  · refine ⟨f, ?_, .refl f⟩
    rw [App.registered, List.getElem?_modify_ne _ _ heq, hf]

theorem withFunction {stage : ℕ} (hnone : app.singletons.lookup stage = none)
    (singleton : SqsReplayerSingleton) : app.Extends (app.withFunction stage singleton) := by
  refine ⟨?_, ?_, List.prefix_refl _, List.prefix_refl _⟩
  · intro i f hf
    refine ⟨f, ?_, .refl f⟩
    have hlt : i < app.functions.length := (List.getElem?_eq_some_iff.mp hf).1
    rw [App.withFunction, List.getElem?_append_left hlt, hf]
  · intro stage' entry hentry
    rw [App.withFunction, HashMap.lookup_insert_eq_ite, if_neg, hentry]
    rintro rfl
    rw [hnone] at hentry
    cases hentry

end App.Extends

theorem of_extends (app : App) (scope : Scope) (props : SqsReplayerProps) (cdk : Cdk) :
    app.Extends (SqsReplayerSingleton.of app scope props cdk).app ∧
      ∀ entry, (SqsReplayerSingleton.of app scope props cdk).result = .ok entry →
        ∃ stage, scope.stage = some stage ∧
          (SqsReplayerSingleton.of app scope props cdk).app.singletons.lookup stage =
            some entry := by
  unfold SqsReplayerSingleton.of
  cases hstage : scope.stage with
  | none => exact ⟨.refl app, by simp⟩
  | some stage =>
    dsimp only
    cases hlookup : app.singletons.lookup stage with
    | some existing =>
      refine ⟨.refl app, ?_⟩
      intro entry h
      obtain rfl := Except.ok.inj h
      exact ⟨stage, rfl, hlookup⟩
    | none =>
      cases hfunction : cdk.function with
      | error e => exact ⟨.refl app, by simp⟩
      | ok _ =>
        refine ⟨App.Extends.withFunction hlookup (.create props), ?_⟩
        intro entry h
        obtain rfl := Except.ok.inj h
        exact ⟨stage, rfl, by simp⟩

theorem perform_extends (app : App) (r : Registration) : app.Extends (r.perform app) := by
  cases haccepted : r.accepted with
  | false =>
    rw [perform_of_rejected app haccepted]
    exact .refl app
  | true =>
    rw [perform_of_accepted app haccepted]
    have hof := (of_extends app r.scope r.props r.cdk).1
    generalize SqsReplayerSingleton.of app r.scope r.props r.cdk = built at hof
    obtain ⟨e | entry, app'⟩ := built
    · exact hof
    · exact hof.trans (.registered app' r entry)

theorem App.Extends.withQueues (app : App) (created : List Queue) :
    app.Extends { app with queues := app.queues ++ created } :=
  ⟨fun _ f h => ⟨f, h, .refl f⟩, fun _ _ h => h, List.prefix_refl _, List.prefix_append _ _⟩

theorem call_extends (names : QueueNames) (app : App) (call : Call) :
    app.Extends (call.perform names app) := by
  obtain ⟨created, hperform⟩ := perform_call names app call
  rw [hperform]
  cases call.registration names with
  | none => exact .withQueues app created
  | some r => exact (App.Extends.withQueues app created).trans (perform_extends _ r)

theorem calls_extend (names : QueueNames) (app : App) (calls : List Call) :
    app.Extends (calls.foldl (fun app call => call.perform names app) app) := by
  induction calls generalizing app with
  | nil => exact .refl app
  | cons call calls ih => exact (call_extends names app call).trans (ih _)

/-- The function of a replayer receives from its replay queue, may send to its source queue, and can
find the parameter that joins them. -/
structure Connected (app : App) (scope : Scope) (props : SqsReplayerProps) (replayer : ℕ) :
    Prop where
  function : ∃ f, app.functions[replayer]? = some f ∧ props.eventSource ∈ f.eventSources ∧
    props.sourceQueue ∈ f.sendGrants
  parameter : ∃ stage singleton, scope.stage = some stage ∧
    app.singletons.lookup stage = some (replayer, singleton) ∧
    (some stage, configParameter singleton scope.path props) ∈ app.parameters

theorem Connected.mono {app app' : App} {scope : Scope} {props : SqsReplayerProps} {replayer : ℕ}
    (h : Connected app scope props replayer) (hextends : app.Extends app') :
    Connected app' scope props replayer := by
  obtain ⟨f, hf, hsource, hgrant⟩ := h.function
  obtain ⟨f', hf', hgrown⟩ := hextends.functions _ f hf
  obtain ⟨stage, singleton, hstage, hlookup, hparameter⟩ := h.parameter
  exact ⟨⟨f', hf', List.IsPrefix.subset hgrown.eventSources hsource,
      List.IsPrefix.subset hgrown.sendGrants hgrant⟩,
    ⟨stage, singleton, hstage, hextends.singletons _ _ hlookup,
      List.IsPrefix.subset hextends.parameters hparameter⟩⟩

theorem of_wellFormed {app : App} (h : app.WellFormed) (scope : Scope) (props : SqsReplayerProps)
    (cdk : Cdk) : (SqsReplayerSingleton.of app scope props cdk).app.WellFormed := by
  unfold SqsReplayerSingleton.of
  cases scope.stage with
  | none => exact h
  | some stage =>
    dsimp only
    cases hlookup : app.singletons.lookup stage with
    | some existing => exact h
    | none =>
      cases cdk.function with
      | error e => exact h
      | ok _ => exact h.withFunction hlookup (.create props)

theorem connected_of_registered {app : App} (hwf : app.WellFormed) {r : Registration} {stage : ℕ}
    {entry : ℕ × SqsReplayerSingleton} (hstage : r.scope.stage = some stage)
    (hlookup : app.singletons.lookup stage = some entry) (hcompletes : r.completes = true) :
    Connected (app.registered r entry) r.scope r.props entry.1 := by
  have hattaches : r.attaches = true := (Bool.and_eq_true_iff.mp hcompletes).1
  have hwrites : r.writes = true := (Bool.and_eq_true_iff.mp hattaches).1
  obtain ⟨f, hf⟩ : ∃ f, app.functions[entry.1]? = some f :=
    ⟨_, List.getElem?_eq_getElem (hwf.bound stage entry hlookup)⟩
  refine ⟨⟨r.attach f, ?_, ?_, ?_⟩, ⟨stage, entry.2, hstage, hlookup, ?_⟩⟩
  · rw [App.registered, List.getElem?_modify_eq, hf]
    rfl
  · simp [Registration.attach, hattaches]
  · simp [Registration.attach, hcompletes]
  · simp [App.registered, hwrites, hstage, Registration.parameter]

theorem register_ok {app : App} {r : Registration} {entry : ℕ × SqsReplayerSingleton}
    {replayer : ℕ}
    (h : (SqsReplayer.register app r.scope r.props r.cdk entry).result = .ok replayer) :
    replayer = entry.1 ∧ r.completes = true := by
  unfold SqsReplayer.register at h
  cases hp : r.cdk.parameter with
  | error e => simp [hp] at h
  | ok _ =>
    cases hs : r.cdk.eventSource with
    | error e => simp [hp, hs] at h
    | ok _ =>
      cases hg : r.cdk.grant with
      | error e => simp [hp, hs, hg] at h
      | ok _ =>
        simp only [hp, hs, hg, Except.ok.injEq] at h
        exact ⟨h.symm, by simp [Registration.completes, Registration.attaches,
          Registration.writes, hp, hs, hg]⟩

theorem construct_connected {app : App} (hwf : app.WellFormed) {r : Registration} {replayer : ℕ}
    (h : (SqsReplayer.construct app r.scope r.props r.cdk).result = .ok replayer) :
    Connected (r.perform app) r.scope r.props replayer := by
  have hof := (of_extends app r.scope r.props r.cdk).2
  have hwf' := of_wellFormed hwf r.scope r.props r.cdk
  unfold Registration.perform
  unfold SqsReplayer.construct at h ⊢
  cases hnode : r.cdk.node with
  | error e => simp [hnode] at h
  | ok _ =>
    cases hcheck : checkProps r.props with
    | error e => simp [hnode, hcheck] at h
    | ok _ =>
      simp only [hnode, hcheck] at h ⊢
      generalize SqsReplayerSingleton.of app r.scope r.props r.cdk = built at h hof hwf'
      obtain ⟨e | entry, app'⟩ := built
      · cases h
      · obtain ⟨stage, hstage, hlookup⟩ := hof entry rfl
        obtain ⟨rfl, hcompletes⟩ := register_ok h
        change Connected (SqsReplayer.register app' r.scope r.props r.cdk entry).app _ _ _
        rw [register_app]
        exact connected_of_registered hwf' hstage hlookup hcompletes

/-- The queues redrive from one to the next and share their options, and the replayer joins the
replay queue to the queue. -/
structure Loop (names : QueueNames) (app : App) (scope : Scope) (props : SqsQueueWithReplayProps)
    (built : SqsQueueWithReplay) : Prop where
  queues : built.queue ∈ app.queues ∧ built.replayQueue ∈ app.queues ∧
    built.deadLetterQueue ∈ app.queues
  redrive : ∃ count, count = props.maxReceiveCount.getD defaultMaxReceiveCount ∧
    built.queue.deadLetterQueue = some (built.replayQueue.path, count) ∧
    built.replayQueue.deadLetterQueue = some (built.deadLetterQueue.path, count) ∧
    built.deadLetterQueue.deadLetterQueue = none
  visibilityTimeout : built.queue.visibilityTimeout = built.replayQueue.visibilityTimeout
  routing : (SqsQueueWithReplay.replayerProps props scope.path names).sourceQueue =
      ⟨names.queueUrl built.queue.path, false⟩ ∧
    (SqsQueueWithReplay.replayerProps props scope.path names).replayQueue =
      ⟨names.queueArn built.replayQueue.path⟩
  replay : Connected app (SqsQueueWithReplay.replayerScope scope)
    (SqsQueueWithReplay.replayerProps props scope.path names) built.replayer

theorem Loop.mono {names : QueueNames} {app app' : App} {scope : Scope}
    {props : SqsQueueWithReplayProps} {built : SqsQueueWithReplay}
    (h : Loop names app scope props built) (hextends : app.Extends app') :
    Loop names app' scope props built := by
  obtain ⟨hqueue, hreplay, hdead⟩ := h.queues
  have hsub := List.IsPrefix.subset hextends.queues
  exact ⟨⟨hsub hqueue, hsub hreplay, hsub hdead⟩, h.redrive, h.visibilityTimeout,
    h.routing, h.replay.mono hextends⟩

theorem construct_ok {names : QueueNames} {app : App} {scope : Scope}
    {props : SqsQueueWithReplayProps} {cdk : Cdk} {built : SqsQueueWithReplay}
    (h : (SqsQueueWithReplay.construct names app scope props cdk).result = .ok built) :
    cdk.node = .ok () ∧ props.fifo ≠ some true ∧
      queueIds.all (fun id => (cdk.queue id).isOk) = true ∧
      ∃ replayer, (SqsReplayer.construct
          { app with queues := app.queues ++
            (SqsQueueWithReplay.queues props scope.path).map (·.2) }
          (SqsQueueWithReplay.replayerScope scope)
          (SqsQueueWithReplay.replayerProps props scope.path names) cdk).result = .ok replayer ∧
        built = ⟨SqsQueueWithReplay.deadLetterQueueAt scope.path,
          SqsQueueWithReplay.replayQueueAt props scope.path,
          SqsQueueWithReplay.queueAt props scope.path, replayer⟩ := by
  cases hnode : cdk.node with
  | error e => simp [SqsQueueWithReplay.construct, hnode] at h
  | ok _ =>
    by_cases hfifo : props.fifo = some true
    · simp [SqsQueueWithReplay.construct, hnode, hfifo] at h
    · rw [SqsQueueWithReplay.construct_eq names app hnode hfifo] at h
      by_cases hall : ∀ c ∈ SqsQueueWithReplay.queues props scope.path,
          (cdk.queue c.1).isOk = true
      · refine ⟨rfl, hfifo, (SqsQueueWithReplay.queues_ok_iff scope.path).mpr hall, ?_⟩
        rw [createQueues_of_ok _ hall] at h
        dsimp only at h
        generalize SqsReplayer.construct _ (SqsQueueWithReplay.replayerScope scope)
          (SqsQueueWithReplay.replayerProps props scope.path names) cdk = inner at h ⊢
        obtain ⟨e | replayer, app'⟩ := inner
        · cases h
        · exact ⟨replayer, rfl, (Except.ok.inj h).symm⟩
      · push Not at hall
        obtain ⟨c, hc, hfail⟩ := hall
        obtain ⟨e, created, hcreate⟩ := @createQueues_of_error app cdk _
          ⟨c, hc, by simpa using hfail⟩
        rw [hcreate] at h
        cases h

theorem loop_of_construct {names : QueueNames} {app : App} (hwf : app.WellFormed) {scope : Scope}
    {props : SqsQueueWithReplayProps} {cdk : Cdk} {built : SqsQueueWithReplay}
    (h : (SqsQueueWithReplay.construct names app scope props cdk).result = .ok built) :
    Loop names (SqsQueueWithReplay.construct names app scope props cdk).app scope props built := by
  obtain ⟨hnode, hfifo, hqueues, replayer, hreplayer, rfl⟩ := construct_ok h
  rw [SqsQueueWithReplay.construct_of_queues names app hnode hfifo hqueues]
  let r : Registration := ⟨SqsQueueWithReplay.replayerScope scope,
    SqsQueueWithReplay.replayerProps props scope.path names, cdk⟩
  let created := (SqsQueueWithReplay.queues props scope.path).map (·.2)
  have hwf' : ({ app with queues := app.queues ++ created } : App).WellFormed :=
    ⟨hwf.bound, hwf.injective, hwf.onto, hwf.written⟩
  have hgrown := List.IsPrefix.subset
    (perform_extends { app with queues := app.queues ++ created } r).queues
  have hcreated : ∀ queue ∈ created, queue ∈ (r.perform
      { app with queues := app.queues ++ created }).queues :=
    fun queue hqueue => hgrown (List.mem_append_right _ hqueue)
  refine ⟨⟨hcreated _ ?_, hcreated _ ?_, hcreated _ ?_⟩, ⟨_, rfl, rfl, rfl, rfl⟩, rfl,
    ⟨rfl, rfl⟩, @construct_connected _ hwf' r replayer hreplayer⟩
  · simp [created, SqsQueueWithReplay.queues]
  · simp [created, SqsQueueWithReplay.queues]
  · simp [created, SqsQueueWithReplay.queues]

/-- What a constructor of a queue with replay returned is a closed loop, and stays one whatever
constructors are called later. -/
theorem loop_persists (names : QueueNames) (before after : List Call) (scope : Scope)
    (props : SqsQueueWithReplayProps) (cdk : Cdk) (built : SqsQueueWithReplay)
    (h : (SqsQueueWithReplay.construct names (appAfter names before) scope props cdk).result =
      .ok built) :
    Loop names (appAfter names (before ++ .sqsQueueWithReplay scope props cdk :: after)) scope props
      built := by
  have hloop := loop_of_construct (appAfter_follows names before).wellFormed h
  have hafter : appAfter names (before ++ .sqsQueueWithReplay scope props cdk :: after) =
      after.foldl (fun app call => call.perform names app)
        (SqsQueueWithReplay.construct names (appAfter names before) scope props cdk).app := by
    rw [appAfter, List.foldl_append]
    rfl
  rw [hafter]
  exact hloop.mono (calls_extend names _ after)

theorem loop_persists_sample :
    Loop sampleNames (appAfter sampleNames (sampleCalls ++ [])) sampleScope sampleQueueProps
      ⟨SqsQueueWithReplay.deadLetterQueueAt "App/Orders",
        SqsQueueWithReplay.replayQueueAt sampleQueueProps "App/Orders",
        SqsQueueWithReplay.queueAt sampleQueueProps "App/Orders", 0⟩ :=
  loop_persists sampleNames [] [] sampleScope sampleQueueProps .willing _ rfl

end ReplayBackoff
