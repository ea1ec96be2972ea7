import ReplayBackoff.ConfigStore
import ReplayBackoff.Library.JsNumber

/-!
# The construct

`SqsReplayer` validates its options, writes the configuration of its replay queue to a parameter,
and shares one Lambda function per stage. The options of the first replayer of a stage fix the
environment of the function and the prefix of every parameter name.

A duration is known by the number `toSeconds` returns, which is a whole one. The path of a construct
is relative: its components are joined by slashes and none of them is empty.
-/

namespace ReplayBackoff

structure JsError where
  message : String
  deriving DecidableEq, Repr

structure Duration where
  toSeconds : JsNumber
  whole : ∃ n : ℕ, toSeconds.value? = some n

structure SourceQueue where
  queueUrl : String
  fifo : Bool
  deriving DecidableEq, Repr

structure ReplayQueue where
  queueArn : String
  deriving DecidableEq, Repr

structure SqsReplayerProps where
  sourceQueue : SourceQueue
  replayQueue : ReplayQueue
  maxAttempts : Option JsNumber
  backoffRate : Option Duration
  maximumDelay : Option Duration
  useJitter : Option Bool
  batchSize : Option JsNumber
  environment : Option (HashMap String String)
  configPath : Option String

def fifoMessage : String :=
  "SqsReplayer does not support FIFO queues: SQS does not support per-message delays on FIFO " ++
  "queues and its 5-minute deduplication window silently drops replayed copies. " ++
  "Use a standard queue."

def outside (x : JsNumber) (low high : ℕ) : Bool := x.lessThan low || x.greaterThan high

/-- Validates the backoff tuning options the construct writes to SSM. -/
def validateTuning (props : SqsReplayerProps) : Except JsError Unit := do
  if props.maxAttempts.any (·.lessThan 1) then
    throw ⟨"maxAttempts must be at least 1"⟩
  if props.backoffRate.any (·.toSeconds.lessThan 1) then
    throw ⟨"backoffRate must be at least 1 second"⟩
  if props.maximumDelay.any (fun delay => outside delay.toSeconds 1 900) then
    throw ⟨"maximumDelay must be between 1 second and 15 minutes"⟩
  if props.batchSize.any (fun size => outside size 1 10000) then
    throw ⟨"batchSize must be between 1 and 10000"⟩

def checkProps (props : SqsReplayerProps) : Except JsError Unit := do
  if props.sourceQueue.fifo then throw ⟨fifoMessage⟩
  validateTuning props

def optionalMember (name : String) (value : Option Json) : List (String × Json) :=
  (value.map (Prod.mk name)).toList

namespace SqsReplayerProps

def config (props : SqsReplayerProps) : List (String × Json) :=
  [("replayQueueArn", .string props.replayQueue.queueArn),
    ("destinationQueueUrl", .string props.sourceQueue.queueUrl)] ++
  (optionalMember "maxAttempts" (props.maxAttempts.map (·.toJson)) ++
    (optionalMember "backoffRate" (props.backoffRate.map (·.toSeconds.toJson)) ++
      (optionalMember "maximumDelay" (props.maximumDelay.map (·.toSeconds.toJson)) ++
        optionalMember "useJitter" (props.useJitter.map Json.bool))))

def stringValue (props : SqsReplayerProps) : String := Json.stringify (.object props.config)

end SqsReplayerProps

/-- A character that may stand in a parameter name. -/
def keeps (c : Char) : Bool := c.isAlphanum || c = '_' || c = '.' || c = '/' || c = '-'

/-- The number of UTF-16 units of a character. Each of them is replaced on its own. -/
def utf16Length (c : Char) : ℕ := if c.toNat < 65536 then 1 else 2

/-- Keeps construct paths valid as SSM parameter names. -/
def sanitize (value : String) : String :=
  String.ofList (value.toList.flatMap
    (fun c => if keeps c then [c] else List.replicate (utf16Length c) '-'))

/-- The shared Lambda function of a stage. -/
structure SqsReplayerSingleton where
  configPath : String
  environment : Environment.Variables

namespace SqsReplayerSingleton

/-- Default SSM parameter path holding per-queue replay configs. -/
def defaultConfigPath : String := "/sqs-replay/queues/"

/-- The options of the replayer that creates the function are used, and `environment` is spread over
the two variables of the construct. -/
def create (props : SqsReplayerProps) : SqsReplayerSingleton :=
  let configPath := props.configPath.getD defaultConfigPath
  ⟨configPath, HashMap.insertAll
    (HashMap.collect [("SSM_PARAMETER_PATH", configPath), ("RUST_LOG", "info")])
    ((props.environment.getD ∅).entries.map (fun e => (e.1, e.2)))⟩

end SqsReplayerSingleton

structure SqsReplayer where
  path : String
  props : SqsReplayerProps
  relative : Environment.startsWithSlash path = false
  accepted : checkProps props = .ok ()

def SqsReplayer.parameterName (replayer : SqsReplayer) (singleton : SqsReplayerSingleton) :
    String :=
  singleton.configPath ++ sanitize replayer.path

def SqsReplayer.parameter (replayer : SqsReplayer) (singleton : SqsReplayerSingleton) :
    Parameter :=
  ⟨some (replayer.parameterName singleton), some replayer.props.stringValue⟩

/-- The replayers of one stage in the order of their construction. -/
structure Stage where
  first : SqsReplayer
  rest : List SqsReplayer

namespace Stage

def replayers (stage : Stage) : List SqsReplayer := stage.first :: stage.rest

def singleton (stage : Stage) : SqsReplayerSingleton := .create stage.first.props

def parameters (stage : Stage) : List Parameter :=
  stage.replayers.map (·.parameter stage.singleton)

end Stage

theorem validateTuning_ok_iff (props : SqsReplayerProps) :
    validateTuning props = .ok () ↔
      props.maxAttempts.any (·.lessThan 1) = false ∧
      props.backoffRate.any (·.toSeconds.lessThan 1) = false ∧
      props.maximumDelay.any (fun delay => outside delay.toSeconds 1 900) = false ∧
      props.batchSize.any (fun size => outside size 1 10000) = false := by
  unfold validateTuning
  cases props.maxAttempts.any (·.lessThan 1) <;>
    cases props.backoffRate.any (·.toSeconds.lessThan 1) <;>
      cases props.maximumDelay.any (fun delay => outside delay.toSeconds 1 900) <;>
        cases props.batchSize.any (fun size => outside size 1 10000) <;>
          simp [bind, Except.bind, pure, Except.pure, throw, throwThe, MonadExceptOf.throw]

end ReplayBackoff
