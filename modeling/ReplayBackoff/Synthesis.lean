import ReplayBackoff.Construct

/-!
# Building an app

A program calls constructors one after the other, in any stages, and a constructor may throw. What
it created before it threw stays in the app, also when the program goes on. `Cdk` is what the AWS
CDK says to the node of a constructor and to the constructs it creates: nothing, or the error it
throws. A construct that was refused is not in the app.

The shared function of a stage is known by its position among the functions. The singletons are kept
by stage, so the options of a replayer reach the function only when its stage has none.
-/

namespace ReplayBackoff

/-- A constructor call's place: the enclosing stage, if there is one, and the path. -/
structure Scope where
  stage : Option ℕ
  path : String
  relative : Environment.startsWithSlash path = false

structure Cdk where
  node : Except JsError Unit
  queue : String → Except JsError Unit
  function : Except JsError Unit
  parameter : Except JsError Unit
  eventSource : Except JsError Unit
  grant : Except JsError Unit

structure SqsEventSource where
  queueArn : String
  batchSize : JsNumber
  reportBatchItemFailures : Bool
  deriving DecidableEq

structure Queue where
  path : String
  visibilityTimeout : Option Duration
  deadLetterQueue : Option (String × JsNumber)

/-- A function with what is attached to it and what its role allows. -/
structure ReplayerFunction where
  environment : Environment.Variables
  policyResource : String
  eventSources : List SqsEventSource
  sendGrants : List SourceQueue

structure App where
  functions : List ReplayerFunction
  singletons : HashMap ℕ (ℕ × SqsReplayerSingleton)
  parameters : List (Option ℕ × Parameter)
  queues : List Queue

/-- What a constructor returns or throws, and the app it leaves. -/
structure Built (α : Type) where
  result : Except JsError α
  app : App

namespace App

def empty : App := ⟨[], ∅, [], []⟩

def addEventSource (app : App) (replayer : ℕ) (source : SqsEventSource) : App :=
  { app with
    functions := app.functions.modify replayer
      (fun f => { f with eventSources := f.eventSources ++ [source] }) }

def grantSendMessages (app : App) (replayer : ℕ) (queue : SourceQueue) : App :=
  { app with
    functions := app.functions.modify replayer
      (fun f => { f with sendGrants := f.sendGrants ++ [queue] }) }

end App

namespace SqsReplayerSingleton

def withoutLeadingSlash (path : String) : String :=
  if Environment.startsWithSlash path then String.ofList path.toList.tail else path

/-- The resource of the policy that lets the function load the configurations. -/
def pathResource (configPath : String) : String :=
  "parameter/" ++ (withoutLeadingSlash configPath ++ "*")

def function (singleton : SqsReplayerSingleton) : ReplayerFunction :=
  ⟨singleton.environment, pathResource singleton.configPath, [], []⟩

/-- Returns the singleton of the stage, creating it on first use. -/
def of (app : App) (scope : Scope) (props : SqsReplayerProps) (cdk : Cdk) :
    Built (ℕ × SqsReplayerSingleton) :=
  match scope.stage with
  | none => ⟨.error ⟨"SqsReplayerSingleton must be used within an AWS CDK App"⟩, app⟩
  | some stage =>
    match app.singletons.lookup stage with
    | some existing => ⟨.ok existing, app⟩
    | none =>
      match cdk.function with
      | .error e => ⟨.error e, app⟩
      | .ok () =>
        let singleton := create props
        let created := (app.functions.length, singleton)
        ⟨.ok created, { app with
          functions := app.functions ++ [singleton.function]
          singletons := app.singletons.insert stage created }⟩

end SqsReplayerSingleton

/-- Ten, five and eighteen. -/
def defaultBatchSize : JsNumber := .finite false ⟨1, 2, by decide⟩

def defaultMaxReceiveCount : JsNumber := .finite false ⟨5, 1, by decide⟩

def defaultVisibilitySeconds : ShortestDecimal := ⟨18, 2, by decide⟩

theorem value_defaultVisibilitySeconds : defaultVisibilitySeconds.value = (18 : ℕ) := by
  have hlength : defaultVisibilitySeconds.length = 2 := by decide
  rw [ShortestDecimal.value, hlength]
  norm_num [defaultVisibilitySeconds]

def defaultVisibilityTimeout : Duration where
  toSeconds := .finite false defaultVisibilitySeconds
  whole := ⟨18, congrArg some value_defaultVisibilitySeconds⟩

namespace SqsReplayerProps

def eventSource (props : SqsReplayerProps) : SqsEventSource :=
  ⟨props.replayQueue.queueArn, props.batchSize.getD defaultBatchSize, true⟩

end SqsReplayerProps

/-- The parameter that a replayer at a path writes. -/
def configParameter (singleton : SqsReplayerSingleton) (path : String) (props : SqsReplayerProps) :
    Parameter :=
  ⟨some (singleton.configPath ++ sanitize path), some props.stringValue⟩

namespace SqsReplayer

/-- What the constructor does with the singleton of its stage. -/
def register (app : App) (scope : Scope) (props : SqsReplayerProps) (cdk : Cdk)
    (singleton : ℕ × SqsReplayerSingleton) : Built ℕ :=
  match cdk.parameter with
  | .error e => ⟨.error e, app⟩
  | .ok () =>
    let app := { app with
      parameters := app.parameters ++
        [(scope.stage, configParameter singleton.2 scope.path props)] }
    match cdk.eventSource with
    | .error e => ⟨.error e, app⟩
    | .ok () =>
      let app := app.addEventSource singleton.1 props.eventSource
      match cdk.grant with
      | .error e => ⟨.error e, app⟩
      | .ok () => ⟨.ok singleton.1, app.grantSendMessages singleton.1 props.sourceQueue⟩

/-- The constructor. It returns the shared function. -/
def construct (app : App) (scope : Scope) (props : SqsReplayerProps) (cdk : Cdk) : Built ℕ :=
  match cdk.node with
  | .error e => ⟨.error e, app⟩
  | .ok () =>
    match checkProps props with
    | .error e => ⟨.error e, app⟩
    | .ok () =>
      match SqsReplayerSingleton.of app scope props cdk with
      | ⟨.error e, app⟩ => ⟨.error e, app⟩
      | ⟨.ok singleton, app⟩ => register app scope props cdk singleton

end SqsReplayer

structure SqsQueueWithReplayProps where
  fifo : Option Bool
  visibilityTimeout : Option Duration
  maxReceiveCount : Option JsNumber
  maxAttempts : Option JsNumber
  backoffRate : Option Duration
  maximumDelay : Option Duration
  useJitter : Option Bool
  batchSize : Option JsNumber
  environment : Option (HashMap String String)
  configPath : Option String

/-- What the deployment calls the queue at a path. -/
structure QueueNames where
  queueArn : String → String
  queueUrl : String → String

structure SqsQueueWithReplay where
  deadLetterQueue : Queue
  replayQueue : Queue
  queue : Queue
  replayer : ℕ

def queueFifoMessage : String :=
  "SqsQueueWithReplay does not support FIFO queues: SQS does not support per-message delays on " ++
  "FIFO queues and its 5-minute deduplication window silently drops replayed copies. " ++
  "Use a standard queue."

/-- The path of a child. The root of the tree has no id. -/
def childPath (path id : String) : String := if path = "" then id else path ++ "/" ++ id

theorem childPath_relative {path id : String} (hpath : Environment.startsWithSlash path = false)
    (hid : Environment.startsWithSlash id = false) :
    Environment.startsWithSlash (childPath path id) = false := by
  unfold childPath
  split_ifs with hempty
  · exact hid
  · have hne : path.toList ≠ [] := fun h => hempty (String.toList_eq_nil_iff.mp h)
    rw [Environment.startsWithSlash, String.toList_append, String.toList_append, List.append_assoc,
      List.head?_append_of_ne_nil _ hne]
    exact hpath

namespace SqsQueueWithReplay

def replayerScope (scope : Scope) : Scope :=
  ⟨scope.stage, childPath scope.path "Replayer", childPath_relative scope.relative (by decide)⟩

section

variable (props : SqsQueueWithReplayProps) (path : String)

def deadLetterQueueAt : Queue := ⟨childPath path "DeadLetterQueue", none, none⟩

/-- A queue that redrives to another one after `maxReceiveCount` receives. -/
def redrivingQueue (id : String) (target : Queue) : Queue :=
  ⟨childPath path id, some (props.visibilityTimeout.getD defaultVisibilityTimeout),
    some (target.path, props.maxReceiveCount.getD defaultMaxReceiveCount)⟩

def replayQueueAt : Queue := redrivingQueue props path "ReplayQueue" (deadLetterQueueAt path)

def queueAt : Queue := redrivingQueue props path "Queue" (replayQueueAt props path)

def replayerProps (names : QueueNames) : SqsReplayerProps where
  sourceQueue := ⟨names.queueUrl (queueAt props path).path, false⟩
  replayQueue := ⟨names.queueArn (replayQueueAt props path).path⟩
  maxAttempts := props.maxAttempts
  backoffRate := props.backoffRate
  maximumDelay := props.maximumDelay
  useJitter := props.useJitter
  batchSize := props.batchSize
  environment := props.environment
  configPath := props.configPath

end

/-- The queues are created up to the first one that is refused. -/
def createQueues (app : App) (cdk : Cdk) : List (String × Queue) → Built Unit
  | [] => ⟨.ok (), app⟩
  | (id, queue) :: rest =>
    match cdk.queue id with
    | .error e => ⟨.error e, app⟩
    | .ok () => createQueues { app with queues := app.queues ++ [queue] } cdk rest

/-- The constructor. It returns the queues and the shared function. -/
def construct (names : QueueNames) (app : App) (scope : Scope) (props : SqsQueueWithReplayProps)
    (cdk : Cdk) : Built SqsQueueWithReplay :=
  match cdk.node with
  | .error e => ⟨.error e, app⟩
  | .ok () =>
    if props.fifo = some true then ⟨.error ⟨queueFifoMessage⟩, app⟩
    else
      let deadLetterQueue := deadLetterQueueAt scope.path
      let replayQueue := replayQueueAt props scope.path
      let queue := queueAt props scope.path
      match createQueues app cdk [("DeadLetterQueue", deadLetterQueue),
        ("ReplayQueue", replayQueue), ("Queue", queue)] with
      | ⟨.error e, app⟩ => ⟨.error e, app⟩
      | ⟨.ok (), app⟩ =>
        match SqsReplayer.construct app (replayerScope scope)
          (replayerProps props scope.path names) cdk with
        | ⟨.error e, app⟩ => ⟨.error e, app⟩
        | ⟨.ok replayer, app⟩ => ⟨.ok ⟨deadLetterQueue, replayQueue, queue, replayer⟩, app⟩

end SqsQueueWithReplay

inductive Call where
  | sqsReplayer (scope : Scope) (props : SqsReplayerProps) (cdk : Cdk)
  | sqsQueueWithReplay (scope : Scope) (props : SqsQueueWithReplayProps) (cdk : Cdk)

def Call.perform (names : QueueNames) (app : App) : Call → App
  | .sqsReplayer scope props cdk => (SqsReplayer.construct app scope props cdk).app
  | .sqsQueueWithReplay scope props cdk =>
    (SqsQueueWithReplay.construct names app scope props cdk).app

def appAfter (names : QueueNames) (calls : List Call) : App :=
  calls.foldl (fun app call => call.perform names app) .empty

theorem appAfter_concat (names : QueueNames) (calls : List Call) (call : Call) :
    appAfter names (calls ++ [call]) = call.perform names (appAfter names calls) := by
  simp only [appAfter, List.foldl_append, List.foldl_cons, List.foldl_nil]

def sampleNames : QueueNames := ⟨("arn:aws:sqs:" ++ ·), ("https://sqs/" ++ ·)⟩

def Cdk.willing : Cdk := ⟨.ok (), fun _ => .ok (), .ok (), .ok (), .ok (), .ok ()⟩

def sampleScope : Scope := ⟨some 0, "App/Orders", by decide⟩

def sampleQueueProps : SqsQueueWithReplayProps :=
  ⟨none, none, none, none, none, none, none, none, none, none⟩

def sampleCalls : List Call := [.sqsQueueWithReplay sampleScope sampleQueueProps .willing]

end ReplayBackoff
