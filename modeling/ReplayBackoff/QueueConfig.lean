import ReplayBackoff.Environment
import ReplayBackoff.Library.JsonText

/-!
# Per-queue replay configuration

A stored configuration is JSON text. `QueueConfig.fromStr` follows the derived deserializer: an
object whose known members appear at most once and whose other members are ignored, or an array
with the fields in order. The two routing fields are required, a tuning field may be missing or
null. `resolve` fills the missing tuning values in from the environment and clamps the delay.
-/

namespace ReplayBackoff

structure QueueConfig where
  replayQueueArn : String
  destinationQueueUrl : String
  maxAttempts : Option UInt32
  backoffRateSeconds : Option UInt32
  maximumDelaySeconds : Option UInt32
  useJitter : Option Bool
  deriving DecidableEq, Repr

/-- A stored configuration with the global defaults applied. -/
structure ResolvedQueueConfig where
  queueUrl : String
  maxAttempts : UInt32
  backoffRateSeconds : UInt32
  maximumDelaySeconds : UInt32
  useJitter : Bool
  deriving DecidableEq, Repr

namespace QueueConfig

def resolve (config : QueueConfig) (defaults : Environment) : ResolvedQueueConfig where
  queueUrl := config.destinationQueueUrl
  maxAttempts := config.maxAttempts.getD defaults.maxAttempts
  backoffRateSeconds := config.backoffRateSeconds.getD defaults.backoffRateSeconds
  maximumDelaySeconds :=
    match config.maximumDelaySeconds with
    | none => defaults.maximumDelaySeconds
    | some delay => min delay maximumDelayLimitSeconds
  useJitter := config.useJitter.getD defaults.useJitter

def readString : Json → Option String
  | .string s => some s
  | _ => none

def readBool : Json → Option Bool
  | .bool b => some b
  | _ => none

/-- A number fits a `u32` only when it is written as an integer in range. -/
def readU32 : Json → Option UInt32
  | .number lexeme => (DecimalText.digitsValue lexeme).bind DecimalText.toU32
  | _ => none

def readOption {α : Type} (read : Json → Option α) : Json → Option (Option α)
  | .null => some none
  | j => (read j).map some

/-- The fields seen so far. A field is `none` until its member is visited. -/
structure Fields where
  replayQueueArn : Option String
  destinationQueueUrl : Option String
  maxAttempts : Option (Option UInt32)
  backoffRate : Option (Option UInt32)
  maximumDelay : Option (Option UInt32)
  useJitter : Option (Option Bool)

def Fields.unseen : Fields := ⟨none, none, none, none, none, none⟩

/-- A member that is visited a second time is an error. -/
def readOnce {α : Type} (seen : Option α) (read : Json → Option α) (value : Json) :
    Option (Option α) :=
  if seen.isSome then none else (read value).map some

def visitMember (fields : Fields) (member : String × Json) : Option Fields :=
  let (key, value) := member
  if key = "replayQueueArn" then
    (readOnce fields.replayQueueArn readString value).map
      (fun seen => { fields with replayQueueArn := seen })
  else if key = "destinationQueueUrl" then
    (readOnce fields.destinationQueueUrl readString value).map
      (fun seen => { fields with destinationQueueUrl := seen })
  else if key = "maxAttempts" then
    (readOnce fields.maxAttempts (readOption readU32) value).map
      (fun seen => { fields with maxAttempts := seen })
  else if key = "backoffRate" then
    (readOnce fields.backoffRate (readOption readU32) value).map
      (fun seen => { fields with backoffRate := seen })
  else if key = "maximumDelay" then
    (readOnce fields.maximumDelay (readOption readU32) value).map
      (fun seen => { fields with maximumDelay := seen })
  else if key = "useJitter" then
    (readOnce fields.useJitter (readOption readBool) value).map
      (fun seen => { fields with useJitter := seen })
  else some fields

def Fields.finish (fields : Fields) : Option QueueConfig := do
  let replayQueueArn ← fields.replayQueueArn
  let destinationQueueUrl ← fields.destinationQueueUrl
  return {
    replayQueueArn
    destinationQueueUrl
    maxAttempts := fields.maxAttempts.getD none
    backoffRateSeconds := fields.backoffRate.getD none
    maximumDelaySeconds := fields.maximumDelay.getD none
    useJitter := fields.useJitter.getD none }

def visitMap (members : List (String × Json)) : Option QueueConfig := do
  let fields ← members.foldlM visitMember Fields.unseen
  fields.finish

/-- The names of the fields in the order of the struct. -/
def fieldNames : List String :=
  ["replayQueueArn", "destinationQueueUrl", "maxAttempts", "backoffRate", "maximumDelay",
    "useJitter"]

/-- An array gives the fields by position, and only the optional ones may be cut off. -/
def visitSeq (items : List Json) : Option QueueConfig :=
  if items.length ≤ fieldNames.length then visitMap (fieldNames.zip items) else none

def deserialize : Json → Option QueueConfig
  | .object members => visitMap members
  | .array items => visitSeq items
  | _ => none

def fromStr (text : String) : Option QueueConfig := (Json.parse text).bind deserialize

theorem resolve_maximumDelaySeconds_le (config : QueueConfig) {defaults : Environment}
    (h : defaults.maximumDelaySeconds ≤ maximumDelayLimitSeconds) :
    (config.resolve defaults).maximumDelaySeconds ≤ maximumDelayLimitSeconds := by
  unfold resolve
  cases config.maximumDelaySeconds with
  | none => exact h
  | some delay =>
    change min delay maximumDelayLimitSeconds ≤ maximumDelayLimitSeconds
    rw [Std.min_eq_if]
    split_ifs with hle
    · exact hle
    · exact UInt32.le_refl _

example : fromStr "[\"arn\",\"url\",3]" = some ⟨"arn", "url", some 3, none, none, none⟩ := by rfl

end QueueConfig
end ReplayBackoff
