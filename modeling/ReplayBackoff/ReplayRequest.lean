import ReplayBackoff.Backoff
import ReplayBackoff.QueueConfig

/-!
# Replay requests

A record that comes out of the replay queue becomes a request for its source queue. The number of
earlier replays is read from the `sqs-dlq-replay-num` attribute and increased by one; beyond the
attempt limit there is no request. The increment wraps, as it does in the release profile. All
message attributes are forwarded with the new count in place of the old one. Of the system
attributes only the trace header is sent, next to the deduplication and group ids.
-/

namespace ReplayBackoff

open DecimalText

/-- Message attribute tracking how many times a message has been replayed. -/
def replayNumPropertyName : String := "sqs-dlq-replay-num"

/-- SQS system attribute carrying the X-Ray trace header. -/
def traceHeaderPropertyName : String := "AWSTraceHeader"

abbrev Bytes := List UInt8

structure SqsMessageAttribute where
  stringValue : Option String
  binaryValue : Option Bytes
  stringListValues : List String
  binaryListValues : List Bytes
  dataType : Option String
  deriving DecidableEq, Repr

structure SqsMessage where
  messageId : Option String
  body : Option String
  attributes : HashMap String String
  messageAttributes : HashMap String SqsMessageAttribute
  eventSourceArn : Option String
  deriving DecidableEq

structure MessageAttributeValue where
  stringValue : Option String
  binaryValue : Option Bytes
  stringListValues : Option (List String)
  binaryListValues : Option (List Bytes)
  dataType : String
  deriving DecidableEq, Repr

inductive MessageSystemAttributeNameForSends where
  | awsTraceHeader
  deriving DecidableEq, Repr

structure MessageSystemAttributeValue where
  stringValue : Option String
  dataType : String
  deriving DecidableEq, Repr

structure ReplayRequest where
  queueUrl : String
  messageBody : String
  delaySeconds : UInt32
  messageAttributes : HashMap String MessageAttributeValue
  messageSystemAttributes : HashMap MessageSystemAttributeNameForSends MessageSystemAttributeValue
  messageDeduplicationId : Option String
  messageGroupId : Option String
  deriving DecidableEq

structure SendMessageBatchRequestEntry where
  id : String
  messageBody : String
  delaySeconds : Option Int32
  messageAttributes : Option (HashMap String MessageAttributeValue)
  messageSystemAttributes :
    Option (HashMap MessageSystemAttributeNameForSends MessageSystemAttributeValue)
  messageDeduplicationId : Option String
  messageGroupId : Option String
  deriving DecidableEq

inductive ReplayError where
  | missingBody
  | invalidReplayNum
  deriving DecidableEq, Repr

def ReplayError.display : ReplayError → String
  | .missingBody => "message has no body"
  | .invalidReplayNum => "sqs-dlq-replay-num attribute is not a number"

def replayNum (record : SqsMessage) : Except ReplayError UInt32 :=
  let value := ((record.messageAttributes.lookup replayNumPropertyName).bind (·.stringValue)).getD "0"
  match parseU32 value with
  | some n => .ok n
  | none => .error .invalidReplayNum

def delaySeconds (rng : Rng) (config : ResolvedQueueConfig) (attempt : UInt32) : UInt32 :=
  let base := config.backoffRateSeconds
  let max := config.maximumDelaySeconds
  if config.useJitter then backoffWithJitter rng base max attempt else backoff base max attempt

def mapAttribute (attr : SqsMessageAttribute) : MessageAttributeValue where
  stringValue := attr.stringValue
  binaryValue := attr.binaryValue
  stringListValues :=
    if attr.stringListValues.isEmpty then none else some attr.stringListValues
  binaryListValues :=
    if attr.binaryListValues.isEmpty then none else some attr.binaryListValues
  dataType := attr.dataType.getD ""

def countAttribute (replayNum : UInt32) : MessageAttributeValue :=
  ⟨some (formatU32 replayNum), none, none, none, "Number"⟩

def mapMessageAttributes (input : HashMap String SqsMessageAttribute) (replayNum : UInt32) :
    HashMap String MessageAttributeValue :=
  (input.mapValues mapAttribute).insert replayNumPropertyName (countAttribute replayNum)

def mapMessageSystemAttributes (input : HashMap String String) :
    HashMap MessageSystemAttributeNameForSends MessageSystemAttributeValue :=
  match input.lookup traceHeaderPropertyName with
  | some traceHeader => AList.singleton .awsTraceHeader ⟨some traceHeader, "String"⟩
  | none => ∅

/-- The request for an attempt within the limit. -/
def requestFor (rng : Rng) (config : ResolvedQueueConfig) (record : SqsMessage) (body : String)
    (replayNum : UInt32) : ReplayRequest where
  queueUrl := config.queueUrl
  messageBody := body
  delaySeconds := delaySeconds rng config replayNum
  messageAttributes := mapMessageAttributes record.messageAttributes replayNum
  messageSystemAttributes := mapMessageSystemAttributes record.attributes
  messageDeduplicationId := record.attributes.lookup "MessageDeduplicationId"
  messageGroupId := record.attributes.lookup "MessageGroupId"

def buildReplayRequest (rng : Rng) (config : ResolvedQueueConfig) (record : SqsMessage) :
    Except ReplayError (Option ReplayRequest) :=
  match replayNum record with
  | .error e => .error e
  | .ok n =>
    if config.maxAttempts < n + 1 then .ok none
    else
      match record.body with
      | none => .error .missingBody
      | some body => .ok (some (requestFor rng config record body (n + 1)))

def toBatchEntry (id : String) (request : ReplayRequest) : SendMessageBatchRequestEntry where
  id := id
  messageBody := request.messageBody
  delaySeconds := some request.delaySeconds.toInt32
  messageAttributes := some request.messageAttributes
  messageSystemAttributes :=
    if request.messageSystemAttributes.entries.isEmpty then none
    else some request.messageSystemAttributes
  messageDeduplicationId := request.messageDeduplicationId
  messageGroupId := request.messageGroupId

theorem lookup_mapMessageAttributes (input : HashMap String SqsMessageAttribute) (n : UInt32)
    (name : String) :
    (mapMessageAttributes input n).lookup name =
      if name = replayNumPropertyName then some (countAttribute n)
      else (input.lookup name).map mapAttribute := by
  rw [mapMessageAttributes, HashMap.lookup_insert_eq_ite, HashMap.lookup_mapValues]

theorem lookup_count (input : HashMap String SqsMessageAttribute) (n : UInt32) :
    (mapMessageAttributes input n).lookup replayNumPropertyName = some (countAttribute n) := by
  rw [lookup_mapMessageAttributes, if_pos rfl]

theorem mapAttribute_of_lists_empty {attr : SqsMessageAttribute}
    (hs : attr.stringListValues = []) (hb : attr.binaryListValues = []) :
    mapAttribute attr =
      ⟨attr.stringValue, attr.binaryValue, none, none, attr.dataType.getD ""⟩ := by
  simp [mapAttribute, hs, hb]

variable {rng : Rng} {config : ResolvedQueueConfig} {record : SqsMessage}

theorem buildReplayRequest_some_iff {request : ReplayRequest} :
    buildReplayRequest rng config record = .ok (some request) ↔
      ∃ n body, replayNum record = .ok n ∧ n + 1 ≤ config.maxAttempts ∧ record.body = some body ∧
        request = requestFor rng config record body (n + 1) := by
  unfold buildReplayRequest
  cases replayNum record with
  | error e => simp
  | ok n =>
    by_cases hlimit : config.maxAttempts < n + 1
    · have hnot : ¬ n + 1 ≤ config.maxAttempts := UInt32.not_le.mpr hlimit
      simp [hlimit, hnot]
    · have hle : n + 1 ≤ config.maxAttempts := UInt32.not_lt.mp hlimit
      cases record.body with
      | none => simp [hlimit]
      | some body => simp [hlimit, hle, eq_comm]

theorem buildReplayRequest_none_iff :
    buildReplayRequest rng config record = .ok none ↔
      ∃ n, replayNum record = .ok n ∧ config.maxAttempts < n + 1 := by
  unfold buildReplayRequest
  cases replayNum record with
  | error e => simp
  | ok n =>
    by_cases hlimit : config.maxAttempts < n + 1
    · simp [hlimit]
    · cases record.body <;> simp [hlimit]

theorem buildReplayRequest_queueUrl {request : ReplayRequest}
    (h : buildReplayRequest rng config record = .ok (some request)) :
    request.queueUrl = config.queueUrl := by
  obtain ⟨n, body, -, -, -, rfl⟩ := buildReplayRequest_some_iff.mp h
  rfl

end ReplayBackoff
