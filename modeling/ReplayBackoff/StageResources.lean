import ReplayBackoff.Synthesis

/-!
# One function for each stage

Whatever constructors are called in whatever stages, and wherever they throw, a stage has the
resources that its own replayers give it. The first of them that passes its checks and whose
function is created fixes the function and the prefix of the parameter names. From it on every
replayer that passes its checks adds its parameter, its event source and its grant, in this order
and up to the first that is refused. What came before has left nothing.
-/

namespace ReplayBackoff

/-- The replayer that a constructor call sets out to create. -/
structure Registration where
  scope : Scope
  props : SqsReplayerProps
  cdk : Cdk

namespace Registration

variable (r : Registration)

/-- The constructor gets as far as the singleton. -/
def accepted : Bool := r.cdk.node.isOk && (checkProps r.props).isOk

def creates : Bool := r.cdk.function.isOk

def writes : Bool := r.cdk.parameter.isOk

def attaches : Bool := r.writes && r.cdk.eventSource.isOk

def completes : Bool := r.attaches && r.cdk.grant.isOk

def parameter (singleton : SqsReplayerSingleton) : Parameter :=
  configParameter singleton r.scope.path r.props

def perform (app : App) : App := (SqsReplayer.construct app r.scope r.props r.cdk).app

/-- What the replayer adds to the function. -/
def attach (f : ReplayerFunction) : ReplayerFunction :=
  { f with
    eventSources := f.eventSources ++ if r.attaches then [r.props.eventSource] else []
    sendGrants := f.sendGrants ++ if r.completes then [r.props.sourceQueue] else [] }

end Registration

def queueIds : List String := ["DeadLetterQueue", "ReplayQueue", "Queue"]

def Call.registration (names : QueueNames) : Call → Option Registration
  | .sqsReplayer scope props cdk => some ⟨scope, props, cdk⟩
  | .sqsQueueWithReplay scope props cdk =>
    if cdk.node.isOk && props.fifo != some true && queueIds.all (fun id => (cdk.queue id).isOk) then
      some ⟨SqsQueueWithReplay.replayerScope scope,
        SqsQueueWithReplay.replayerProps props scope.path names, cdk⟩
    else none

def registrations (names : QueueNames) (calls : List Call) : List Registration :=
  calls.filterMap (·.registration names)

def ofStage (stage : ℕ) (rs : List Registration) : List Registration :=
  rs.filter (fun r => r.scope.stage = some stage)

/-- What an app has for one stage. -/
structure StageResources where
  singleton : Option SqsReplayerSingleton
  function : Option ReplayerFunction
  parameters : List Parameter

def App.resources (app : App) (stage : ℕ) : StageResources where
  singleton := (app.singletons.lookup stage).map (·.2)
  function := (app.singletons.lookup stage).bind (fun entry => app.functions[entry.1]?)
  parameters := (app.parameters.filter (fun p => p.1 = some stage)).map (·.2)

/-- The accepted replayers of a stage from the one that creates the function. -/
def effective (rs : List Registration) : List Registration :=
  (rs.filter (·.accepted)).dropWhile (fun r => !r.creates)

namespace StageResources

def nothing : StageResources := ⟨none, none, []⟩

def ofReplayers (singleton : SqsReplayerSingleton) (rs : List Registration) : StageResources where
  singleton := some singleton
  function := some { singleton.function with
    eventSources := (rs.filter (·.attaches)).map (·.props.eventSource)
    sendGrants := (rs.filter (·.completes)).map (·.props.sourceQueue) }
  parameters := (rs.filter (·.writes)).map (·.parameter singleton)

def expected (rs : List Registration) : StageResources :=
  match effective rs with
  | [] => nothing
  | first :: rest => ofReplayers (.create first.props) (first :: rest)

def add (resources : StageResources) (singleton : SqsReplayerSingleton) (r : Registration) :
    StageResources :=
  { resources with
    function := resources.function.map r.attach
    parameters := resources.parameters ++ if r.writes then [r.parameter singleton] else [] }

theorem effective_concat (rs : List Registration) (r : Registration) :
    effective (rs ++ [r]) =
      effective rs ++ if r.accepted && (!(effective rs).isEmpty || r.creates) then [r] else [] := by
  unfold effective
  rw [List.filter_append, List.dropWhile_append]
  cases hr : r.accepted <;> cases hc : r.creates <;>
    cases he : ((rs.filter (·.accepted)).dropWhile (fun r => !r.creates)).isEmpty <;>
      simp_all

theorem ofReplayers_concat (singleton : SqsReplayerSingleton) (rs : List Registration)
    (r : Registration) :
    ofReplayers singleton (rs ++ [r]) = (ofReplayers singleton rs).add singleton r := by
  cases hw : r.writes <;> cases ha : r.attaches <;> cases hc : r.completes <;>
    simp [ofReplayers, add, Registration.attach, List.filter_append, hw, ha, hc]

theorem expected_of_nil {rs : List Registration} (h : effective rs = []) :
    expected rs = nothing := by
  rw [expected, h]

theorem expected_of_cons {rs rest : List Registration} {first : Registration}
    (h : effective rs = first :: rest) :
    expected rs = ofReplayers (.create first.props) (first :: rest) := by
  rw [expected, h]

theorem expected_singleton_eq_none_iff (rs : List Registration) :
    (expected rs).singleton = none ↔ effective rs = [] := by
  cases h : effective rs with
  | nil => simp [expected_of_nil h, nothing]
  | cons first rest => simp [expected_of_cons h, ofReplayers]

variable {rs : List Registration} {r : Registration}

theorem expected_concat_rejected (h : r.accepted = false) :
    expected (rs ++ [r]) = expected rs := by
  have heffective : effective (rs ++ [r]) = effective rs := by
    rw [effective_concat, h, Bool.false_and, if_neg Bool.false_ne_true, List.append_nil]
  rw [expected, heffective]
  rfl

theorem expected_concat_uncreated (h : (expected rs).singleton = none)
    (hcreates : r.creates = false) : expected (rs ++ [r]) = expected rs := by
  have hnil := (expected_singleton_eq_none_iff rs).mp h
  have heffective : effective (rs ++ [r]) = effective rs := by
    rw [effective_concat, hnil, hcreates]
    simp
  rw [expected, heffective]
  rfl

theorem expected_concat_first (h : (expected rs).singleton = none) (haccepted : r.accepted = true)
    (hcreates : r.creates = true) :
    expected (rs ++ [r]) = ofReplayers (.create r.props) [r] := by
  have hnil := (expected_singleton_eq_none_iff rs).mp h
  have heffective : effective (rs ++ [r]) = [r] := by
    rw [effective_concat, hnil, hcreates, haccepted]
    simp
  rw [expected, heffective]

theorem expected_concat_add {singleton : SqsReplayerSingleton}
    (h : (expected rs).singleton = some singleton) (haccepted : r.accepted = true) :
    expected (rs ++ [r]) = (expected rs).add singleton r := by
  cases hrs : effective rs with
  | nil =>
    rw [expected_of_nil hrs] at h
    cases h
  | cons first rest =>
    have heffective : effective (rs ++ [r]) = first :: (rest ++ [r]) := by
      rw [effective_concat, hrs, haccepted]
      simp
    rw [expected_of_cons hrs] at h ⊢
    obtain rfl := Option.some.inj h
    rw [expected_of_cons heffective, ← List.cons_append, ofReplayers_concat]

end StageResources

@[simp] theorem isOk_ok {ε α : Type} (a : α) : (Except.ok a : Except ε α).isOk = true := rfl

@[simp] theorem isOk_error {ε α : Type} (e : ε) : (Except.error e : Except ε α).isOk = false := rfl

namespace App

def withFunction (app : App) (stage : ℕ) (singleton : SqsReplayerSingleton) : App :=
  { app with
    functions := app.functions ++ [singleton.function]
    singletons := app.singletons.insert stage (app.functions.length, singleton) }

def registered (app : App) (r : Registration) (entry : ℕ × SqsReplayerSingleton) : App :=
  { app with
    functions := app.functions.modify entry.1 r.attach
    parameters := app.parameters ++
      if r.writes then [(r.scope.stage, r.parameter entry.2)] else [] }

end App

open StageResources

theorem register_app (app : App) (r : Registration) (entry : ℕ × SqsReplayerSingleton) :
    (SqsReplayer.register app r.scope r.props r.cdk entry).app = app.registered r entry := by
  have hkeep : (∀ f, r.attach f = f) → app.functions.modify entry.1 r.attach = app.functions := by
    intro h
    rw [show r.attach = id from funext h, List.modify_id]
  unfold SqsReplayer.register App.registered
  cases hp : r.cdk.parameter with
  | error e =>
    have hattach : ∀ f, r.attach f = f := by
      simp [Registration.attach, Registration.attaches, Registration.completes,
        Registration.writes, hp]
    simp [hkeep hattach, Registration.writes, hp]
  | ok _ =>
    cases hs : r.cdk.eventSource with
    | error e =>
      have hattach : ∀ f, r.attach f = f := by
        simp [Registration.attach, Registration.attaches, Registration.completes, hs]
      simp [hkeep hattach, Registration.writes, hp, Registration.parameter]
    | ok _ =>
      cases hg : r.cdk.grant with
      | error e =>
        have hattach : r.attach = fun f =>
            { f with eventSources := f.eventSources ++ [r.props.eventSource] } := by
          funext f
          simp [Registration.attach, Registration.attaches, Registration.completes,
            Registration.writes, hp, hs, hg]
        simp [hattach, Registration.writes, hp, Registration.parameter, App.addEventSource]
      | ok _ =>
        have hattach : r.attach = (fun f : ReplayerFunction =>
              { f with sendGrants := f.sendGrants ++ [r.props.sourceQueue] }) ∘
            fun f => { f with eventSources := f.eventSources ++ [r.props.eventSource] } := by
          funext f
          simp [Registration.attach, Registration.attaches, Registration.completes,
            Registration.writes, hp, hs, hg]
        simp [hattach, Registration.writes, hp, Registration.parameter, App.addEventSource,
          App.grantSendMessages, List.modify_modify_eq]

theorem perform_of_rejected (app : App) {r : Registration} (h : r.accepted = false) :
    r.perform app = app := by
  unfold Registration.perform SqsReplayer.construct
  cases hnode : r.cdk.node with
  | error e => rfl
  | ok _ =>
    cases hcheck : checkProps r.props with
    | error e => rfl
    | ok _ => simp [Registration.accepted, hnode, hcheck] at h

theorem perform_of_accepted (app : App) {r : Registration} (h : r.accepted = true) :
    r.perform app =
      match SqsReplayerSingleton.of app r.scope r.props r.cdk with
      | ⟨.error _, app⟩ => app
      | ⟨.ok entry, app⟩ => app.registered r entry := by
  unfold Registration.perform SqsReplayer.construct
  obtain ⟨hnode, hcheck⟩ := Bool.and_eq_true_iff.mp h
  cases hn : r.cdk.node with
  | error e => simp [hn] at hnode
  | ok _ =>
    cases hc : checkProps r.props with
    | error e => simp [hc] at hcheck
    | ok _ =>
      dsimp only
      rcases SqsReplayerSingleton.of app r.scope r.props r.cdk with ⟨e | entry, app⟩
      · rfl
      · exact register_app app r entry

section

variable {app : App} {r : Registration} {stage : ℕ} {entry : ℕ × SqsReplayerSingleton}

theorem perform_without_stage (haccepted : r.accepted = true) (h : r.scope.stage = none) :
    r.perform app = app := by
  rw [perform_of_accepted app haccepted, SqsReplayerSingleton.of, h]

theorem perform_existing (haccepted : r.accepted = true) (hstage : r.scope.stage = some stage)
    (h : app.singletons.lookup stage = some entry) : r.perform app = app.registered r entry := by
  rw [perform_of_accepted app haccepted, SqsReplayerSingleton.of, hstage]
  dsimp only
  rw [h]

theorem perform_uncreated (haccepted : r.accepted = true) (hstage : r.scope.stage = some stage)
    (h : app.singletons.lookup stage = none) (hcreates : r.creates = false) :
    r.perform app = app := by
  rw [perform_of_accepted app haccepted, SqsReplayerSingleton.of, hstage]
  dsimp only
  rw [h]
  cases hf : r.cdk.function with
  | error e => rfl
  | ok _ => simp [Registration.creates, hf] at hcreates

theorem perform_first (haccepted : r.accepted = true) (hstage : r.scope.stage = some stage)
    (h : app.singletons.lookup stage = none) (hcreates : r.creates = true) :
    r.perform app = (app.withFunction stage (.create r.props)).registered r
      (app.functions.length, .create r.props) := by
  rw [perform_of_accepted app haccepted, SqsReplayerSingleton.of, hstage]
  dsimp only
  rw [h]
  cases hf : r.cdk.function with
  | error e => simp [Registration.creates, hf] at hcreates
  | ok _ => rfl

end

/-- Every function is that of one stage, and every parameter was written in a stage. -/
structure App.WellFormed (app : App) : Prop where
  bound : ∀ stage entry, app.singletons.lookup stage = some entry →
    entry.1 < app.functions.length
  injective : ∀ stage stage' entry entry', app.singletons.lookup stage = some entry →
    app.singletons.lookup stage' = some entry' → entry.1 = entry'.1 → stage = stage'
  onto : ∀ i < app.functions.length, ∃ stage entry,
    app.singletons.lookup stage = some entry ∧ entry.1 = i
  written : ∀ p ∈ app.parameters, ∃ stage, p.1 = some stage

namespace App.WellFormed

variable {app : App}

theorem empty : App.empty.WellFormed where
  bound := by simp [App.empty]
  injective := by simp [App.empty]
  onto := by simp [App.empty]
  written := by simp [App.empty]

theorem registered (h : app.WellFormed) {r : Registration} {stage : ℕ}
    (hstage : r.scope.stage = some stage) (entry : ℕ × SqsReplayerSingleton) :
    (app.registered r entry).WellFormed := by
  refine ⟨?_, h.injective, ?_, ?_⟩
  · simpa [App.registered] using h.bound
  · simpa [App.registered] using h.onto
  · intro p hp
    rcases List.mem_append.mp hp with hold | hnew
    · exact h.written p hold
    · split_ifs at hnew
      · exact ⟨stage, by rw [List.mem_singleton.mp hnew, hstage]⟩
      · cases hnew

theorem withFunction (h : app.WellFormed) {stage : ℕ} (hnone : app.singletons.lookup stage = none)
    (singleton : SqsReplayerSingleton) : (app.withFunction stage singleton).WellFormed := by
  have hlookup : ∀ stage' entry, (app.withFunction stage singleton).singletons.lookup stage' =
      some entry → (stage' = stage ∧ entry = (app.functions.length, singleton)) ∨
        app.singletons.lookup stage' = some entry := by
    intro stage' entry hentry
    rw [App.withFunction, HashMap.lookup_insert_eq_ite] at hentry
    split_ifs at hentry with heq
    · exact Or.inl ⟨heq, (Option.some.inj hentry).symm⟩
    · exact Or.inr hentry
  have hlength : (app.withFunction stage singleton).functions.length =
      app.functions.length + 1 := by simp [App.withFunction]
  refine ⟨?_, ?_, ?_, h.written⟩
  · intro stage' entry hentry
    rw [hlength]
    rcases hlookup stage' entry hentry with ⟨-, rfl⟩ | hold
    · exact Nat.lt_succ_self _
    · exact (h.bound stage' entry hold).trans (Nat.lt_succ_self _)
  · intro stage₁ stage₂ entry₁ entry₂ h₁ h₂ heq
    rcases hlookup stage₁ entry₁ h₁ with ⟨rfl, rfl⟩ | hold₁ <;>
      rcases hlookup stage₂ entry₂ h₂ with ⟨rfl, rfl⟩ | hold₂
    · rfl
    · exact absurd heq (h.bound stage₂ entry₂ hold₂).ne'
    · exact absurd heq (h.bound stage₁ entry₁ hold₁).ne
    · exact h.injective _ _ _ _ hold₁ hold₂ heq
  · intro i hi
    rw [hlength] at hi
    rcases Nat.lt_succ_iff_lt_or_eq.mp hi with hlt | rfl
    · obtain ⟨stage', entry, hentry, rfl⟩ := h.onto i hlt
      have hne : stage' ≠ stage := by
        rintro rfl
        rw [hnone] at hentry
        cases hentry
      exact ⟨stage', entry, by rw [App.withFunction, HashMap.lookup_insert_eq_ite, if_neg hne,
        hentry], rfl⟩
    · exact ⟨stage, _, by rw [App.withFunction, HashMap.lookup_insert_eq_ite, if_pos rfl], rfl⟩

end App.WellFormed

section

variable {app : App} {r : Registration} {stage : ℕ} {entry : ℕ × SqsReplayerSingleton}

theorem resources_registered_own (hstage : r.scope.stage = some stage)
    (h : app.singletons.lookup stage = some entry) :
    (app.registered r entry).resources stage = (app.resources stage).add entry.2 r := by
  cases hw : r.writes <;>
    simp [App.resources, App.registered, add, h, hw, hstage, List.filter_append]

theorem resources_registered_other (hwf : app.WellFormed) (hstage : r.scope.stage = some stage)
    (h : app.singletons.lookup stage = some entry) {other : ℕ} (hother : other ≠ stage) :
    (app.registered r entry).resources other = app.resources other := by
  have hfunction : (app.singletons.lookup other).bind
        (fun e => (app.functions.modify entry.1 r.attach)[e.1]?) =
      (app.singletons.lookup other).bind (fun e => app.functions[e.1]?) := by
    cases hentry : app.singletons.lookup other with
    | none => rfl
    | some e =>
      have hne : entry.1 ≠ e.1 := fun heq => hother (hwf.injective _ _ _ _ h hentry heq).symm
      rw [Option.bind_some, Option.bind_some, List.getElem?_modify_ne _ _ hne]
  have hne : ¬ stage = other := fun h => hother h.symm
  cases hw : r.writes <;>
    simp [App.resources, App.registered, hfunction, hw, hstage, List.filter_append, hne]

theorem resources_withFunction_own (singleton : SqsReplayerSingleton)
    (hparameters : (app.resources stage).parameters = []) :
    (app.withFunction stage singleton).resources stage = ofReplayers singleton [] := by
  have hlookup : (app.withFunction stage singleton).singletons.lookup stage =
      some (app.functions.length, singleton) := by
    rw [App.withFunction, HashMap.lookup_insert_eq_ite, if_pos rfl]
  unfold App.resources
  rw [hlookup]
  have hparameters : ((app.withFunction stage singleton).parameters.filter
      (fun p => decide (p.1 = some stage))).map (·.2) = [] := hparameters
  rw [hparameters]
  simp [App.withFunction, ofReplayers, SqsReplayerSingleton.function]

theorem resources_withFunction_other (hwf : app.WellFormed) (singleton : SqsReplayerSingleton)
    {other : ℕ} (hother : other ≠ stage) :
    (app.withFunction stage singleton).resources other = app.resources other := by
  have hlookup : (app.withFunction stage singleton).singletons.lookup other =
      app.singletons.lookup other := by
    rw [App.withFunction, HashMap.lookup_insert_eq_ite, if_neg hother]
  unfold App.resources
  rw [hlookup]
  cases hentry : app.singletons.lookup other with
  | none => rfl
  | some e =>
    have hlt := hwf.bound other e hentry
    simp [App.withFunction, List.getElem?_append_left hlt]

end

section

variable {app : App} {cdk : Cdk}

theorem createQueues_of_ok (cs : List (String × Queue))
    (h : ∀ c ∈ cs, (cdk.queue c.1).isOk = true) :
    SqsQueueWithReplay.createQueues app cdk cs =
      ⟨.ok (), { app with queues := app.queues ++ cs.map (·.2) }⟩ := by
  induction cs generalizing app with
  | nil => simp [SqsQueueWithReplay.createQueues]
  | cons c cs ih =>
    have hc := h c List.mem_cons_self
    unfold SqsQueueWithReplay.createQueues
    cases hq : cdk.queue c.1 with
    | error e => simp [hq] at hc
    | ok _ =>
      simp only [ih (fun c' hc' => h c' (List.mem_cons_of_mem c hc')), List.map_cons,
        List.append_assoc, List.singleton_append]

theorem createQueues_of_error (cs : List (String × Queue))
    (h : ∃ c ∈ cs, (cdk.queue c.1).isOk = false) :
    ∃ e created, SqsQueueWithReplay.createQueues app cdk cs =
      ⟨.error e, { app with queues := app.queues ++ created }⟩ := by
  induction cs generalizing app with
  | nil => simp at h
  | cons c cs ih =>
    unfold SqsQueueWithReplay.createQueues
    cases hq : cdk.queue c.1 with
    | error e => exact ⟨e, [], by rw [List.append_nil]⟩
    | ok _ =>
      obtain ⟨c', hc', hfail⟩ := h
      rcases List.mem_cons.mp hc' with rfl | hc'
      · simp [hq] at hfail
      · obtain ⟨e, created, hcreate⟩ := @ih { app with queues := app.queues ++ [c.2] }
          ⟨c', hc', hfail⟩
        exact ⟨e, c.2 :: created, by rw [hcreate, List.append_assoc, List.singleton_append]⟩

end

namespace SqsQueueWithReplay

variable (names : QueueNames) (app : App) {scope : Scope} {props : SqsQueueWithReplayProps}
  {cdk : Cdk}

/-- The queues in the order of their construction, by their ids. -/
def queues (props : SqsQueueWithReplayProps) (path : String) : List (String × Queue) :=
  [("DeadLetterQueue", deadLetterQueueAt path), ("ReplayQueue", replayQueueAt props path),
    ("Queue", queueAt props path)]

theorem queues_ok_iff (path : String) :
    queueIds.all (fun id => (cdk.queue id).isOk) = true ↔
      ∀ c ∈ queues props path, (cdk.queue c.1).isOk = true := by
  simp [queueIds, queues]

theorem construct_eq (hnode : cdk.node = .ok ()) (hfifo : props.fifo ≠ some true) :
    construct names app scope props cdk =
      match createQueues app cdk (queues props scope.path) with
      | ⟨.error e, app⟩ => ⟨.error e, app⟩
      | ⟨.ok (), app⟩ =>
        match SqsReplayer.construct app (replayerScope scope)
          (replayerProps props scope.path names) cdk with
        | ⟨.error e, app⟩ => ⟨.error e, app⟩
        | ⟨.ok replayer, app⟩ => ⟨.ok ⟨deadLetterQueueAt scope.path, replayQueueAt props scope.path,
            queueAt props scope.path, replayer⟩, app⟩ := by
  rw [construct, hnode]
  dsimp only
  rw [if_neg hfifo]
  rfl

/-- With its queues the constructor is that of its replayer. -/
theorem construct_of_queues (hnode : cdk.node = .ok ()) (hfifo : props.fifo ≠ some true)
    (hqueues : queueIds.all (fun id => (cdk.queue id).isOk) = true) :
    (construct names app scope props cdk).app =
      (⟨replayerScope scope, replayerProps props scope.path names, cdk⟩ : Registration).perform
        { app with queues := app.queues ++ (queues props scope.path).map (·.2) } := by
  rw [construct_eq names app hnode hfifo,
    createQueues_of_ok _ ((queues_ok_iff scope.path).mp hqueues), Registration.perform]
  dsimp only
  rcases SqsReplayer.construct _ (replayerScope scope) (replayerProps props scope.path names) cdk
    with ⟨e | replayer, app'⟩
  · rfl
  · rfl

end SqsQueueWithReplay

theorem registration_of_queues (names : QueueNames) {scope : Scope}
    {props : SqsQueueWithReplayProps} {cdk : Cdk} (hnode : cdk.node = .ok ())
    (hfifo : props.fifo ≠ some true)
    (hqueues : queueIds.all (fun id => (cdk.queue id).isOk) = true) :
    (Call.sqsQueueWithReplay scope props cdk).registration names =
      some ⟨SqsQueueWithReplay.replayerScope scope,
        SqsQueueWithReplay.replayerProps props scope.path names, cdk⟩ := by
  rw [Call.registration, hnode, hqueues]
  exact if_pos (by simpa using hfifo)

/-- The queues of a constructor aside, a call is its replayer or nothing. -/
theorem perform_call (names : QueueNames) (app : App) (call : Call) :
    ∃ created, call.perform names app =
      match call.registration names with
      | some r => r.perform { app with queues := app.queues ++ created }
      | none => { app with queues := app.queues ++ created } := by
  cases call with
  | sqsReplayer scope props cdk =>
    refine ⟨[], ?_⟩
    rw [List.append_nil]
    rfl
  | sqsQueueWithReplay scope props cdk =>
    cases hnode : cdk.node with
    | error e =>
      exact ⟨[], by simp [Call.perform, Call.registration, SqsQueueWithReplay.construct, hnode]⟩
    | ok _ =>
      by_cases hfifo : props.fifo = some true
      · exact ⟨[], by
          simp [Call.perform, Call.registration, SqsQueueWithReplay.construct, hnode, hfifo]⟩
      · cases hqueues : queueIds.all (fun id => (cdk.queue id).isOk) with
        | true =>
          rw [registration_of_queues names hnode hfifo hqueues]
          exact ⟨_, SqsQueueWithReplay.construct_of_queues names app hnode hfifo hqueues⟩
        | false =>
          have hregistration :
              (Call.sqsQueueWithReplay scope props cdk).registration names = none := by
            rw [Call.registration, hqueues, Bool.and_false, if_neg Bool.false_ne_true]
          have hfail : ∃ c ∈ SqsQueueWithReplay.queues props scope.path,
              (cdk.queue c.1).isOk = false := by
            by_contra hnone
            push Not at hnone
            have hall : ∀ c ∈ SqsQueueWithReplay.queues props scope.path,
                (cdk.queue c.1).isOk = true := fun c hc => by simpa using hnone c hc
            rw [← SqsQueueWithReplay.queues_ok_iff, hqueues] at hall
            cases hall
          obtain ⟨e, created, hcreate⟩ := @createQueues_of_error app cdk _ hfail
          refine ⟨created, ?_⟩
          rw [hregistration, Call.perform, SqsQueueWithReplay.construct_eq names app hnode hfifo,
            hcreate]

/-- The app is well formed, and every stage has what its replayers should give it. -/
structure App.Follows (app : App) (rs : List Registration) : Prop where
  wellFormed : app.WellFormed
  resources : ∀ stage, app.resources stage = expected (ofStage stage rs)

theorem ofStage_concat_own {rs : List Registration} {r : Registration} {stage : ℕ}
    (h : r.scope.stage = some stage) : ofStage stage (rs ++ [r]) = ofStage stage rs ++ [r] := by
  simp [ofStage, List.filter_append, h]

theorem ofStage_concat_other {rs : List Registration} {r : Registration} {stage : ℕ}
    (h : r.scope.stage ≠ some stage) : ofStage stage (rs ++ [r]) = ofStage stage rs := by
  simp [ofStage, List.filter_append, h]

theorem App.Follows.perform {app : App} {rs : List Registration} (h : app.Follows rs)
    (r : Registration) : (r.perform app).Follows (rs ++ [r]) := by
  -- a step that changes nothing leaves out a replayer that nothing is expected of
  have hskip : r.perform app = app →
      (∀ stage, r.scope.stage = some stage →
        expected (ofStage stage rs ++ [r]) = expected (ofStage stage rs)) →
      (r.perform app).Follows (rs ++ [r]) := by
    intro happ hexpected
    rw [happ]
    refine ⟨h.wellFormed, fun stage => ?_⟩
    by_cases hstage : r.scope.stage = some stage
    · rw [ofStage_concat_own hstage, hexpected stage hstage, h.resources stage]
    · rw [ofStage_concat_other hstage, h.resources stage]
  cases haccepted : r.accepted with
  | false =>
    exact hskip (perform_of_rejected app haccepted)
      (fun stage _ => expected_concat_rejected haccepted)
  | true =>
    cases hstage : r.scope.stage with
    | none =>
      apply hskip (perform_without_stage haccepted hstage)
      intro stage hsome
      rw [hstage] at hsome
      cases hsome
    | some stage =>
      have hother : ∀ other, other ≠ stage → r.scope.stage ≠ some other := by
        intro other hne heq
        exact hne (Option.some.inj (heq.symm.trans hstage))
      have hown := h.resources stage
      cases hlookup : app.singletons.lookup stage with
      | some entry =>
        rw [perform_existing haccepted hstage hlookup]
        refine ⟨h.wellFormed.registered hstage entry, fun other => ?_⟩
        by_cases heq : other = stage
        · have hsingleton : (expected (ofStage stage rs)).singleton = some entry.2 := by
            rw [← hown, App.resources, hlookup, Option.map_some]
          rw [heq, ofStage_concat_own hstage, expected_concat_add hsingleton haccepted,
            resources_registered_own hstage hlookup, hown]
        · rw [ofStage_concat_other (hother other heq), ← h.resources other,
            resources_registered_other h.wellFormed hstage hlookup heq]
      | none =>
        have hnone : (expected (ofStage stage rs)).singleton = none := by
          rw [← hown, App.resources, hlookup, Option.map_none]
        cases hcreates : r.creates with
        | false =>
          apply hskip (perform_uncreated haccepted hstage hlookup hcreates)
          intro stage' hstage'
          obtain rfl : stage' = stage := Option.some.inj (hstage'.symm.trans hstage)
          exact expected_concat_uncreated hnone hcreates
        | true =>
          have hwf := h.wellFormed.withFunction hlookup (.create r.props)
          have hnew : (app.withFunction stage (.create r.props)).singletons.lookup stage =
              some (app.functions.length, .create r.props) := by
            rw [App.withFunction, HashMap.lookup_insert_eq_ite, if_pos rfl]
          rw [perform_first haccepted hstage hlookup hcreates]
          refine ⟨hwf.registered hstage _, fun other => ?_⟩
          by_cases heq : other = stage
          · have hparameters : (app.resources stage).parameters = [] := by
              rw [hown, expected_of_nil ((expected_singleton_eq_none_iff _).mp hnone)]
              rfl
            rw [heq, ofStage_concat_own hstage, expected_concat_first hnone haccepted hcreates,
              resources_registered_own hstage hnew, resources_withFunction_own _ hparameters,
              ← ofReplayers_concat, List.nil_append]
          · rw [ofStage_concat_other (hother other heq), ← h.resources other,
              resources_registered_other hwf hstage hnew heq,
              resources_withFunction_other h.wellFormed _ heq]

theorem App.Follows.withQueues {app : App} {rs : List Registration} (h : app.Follows rs)
    (queues : List Queue) : ({ app with queues := queues } : App).Follows rs :=
  ⟨⟨h.wellFormed.bound, h.wellFormed.injective, h.wellFormed.onto, h.wellFormed.written⟩,
    h.resources⟩

theorem registrations_concat_none {names : QueueNames} (calls : List Call) {call : Call}
    (h : call.registration names = none) :
    registrations names (calls ++ [call]) = registrations names calls := by
  simp [registrations, List.filterMap_append, h]

theorem registrations_concat_some {names : QueueNames} (calls : List Call) {call : Call}
    {r : Registration} (h : call.registration names = some r) :
    registrations names (calls ++ [call]) = registrations names calls ++ [r] := by
  simp [registrations, List.filterMap_append, h]

theorem appAfter_follows (names : QueueNames) (calls : List Call) :
    (appAfter names calls).Follows (registrations names calls) := by
  induction calls using List.reverseRecOn with
  | nil => exact ⟨App.WellFormed.empty, fun _ => rfl⟩
  | append_singleton calls call ih =>
    obtain ⟨created, hperform⟩ := perform_call names (appAfter names calls) call
    rw [appAfter_concat, hperform]
    cases hcall : call.registration names with
    | none =>
      rw [registrations_concat_none calls hcall]
      exact ih.withQueues _
    | some r =>
      rw [registrations_concat_some calls hcall]
      exact (ih.withQueues _).perform r

/-- After any calls of constructors, in any stages and with any of them throwing, each stage has
exactly what its own replayers should give it, and every function is that of one stage. -/
theorem function_of_stage (names : QueueNames) (calls : List Call) :
    (∀ stage, (appAfter names calls).resources stage =
      expected (ofStage stage (registrations names calls))) ∧
    ∀ i < (appAfter names calls).functions.length, ∃! stage, ∃ singleton,
      (appAfter names calls).singletons.lookup stage = some (i, singleton) := by
  have h := appAfter_follows names calls
  refine ⟨h.resources, fun i hi => ?_⟩
  obtain ⟨stage, entry, hentry, rfl⟩ := h.wellFormed.onto i hi
  refine ⟨stage, ⟨entry.2, hentry⟩, ?_⟩
  rintro stage' ⟨singleton, hstage'⟩
  exact h.wellFormed.injective _ _ _ _ hstage' hentry rfl

end ReplayBackoff
