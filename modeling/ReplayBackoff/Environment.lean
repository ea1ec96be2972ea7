import ReplayBackoff.Library.HashMap
import ReplayBackoff.Library.DecimalText

/-!
# Environment of the Lambda

The global defaults are parsed from a map of environment variables. Every numeric variable has to
be a positive integer, the delay is capped at the SQS message timer limit, and the configuration
path has to be absolute. `Acceptable` lists what the parser asks of the variables, and
`parse_isOk_iff` says that it asks nothing else.
-/

namespace ReplayBackoff

open DecimalText

/-- Default SSM parameter path under which per-queue replay configs are stored. -/
def defaultConfigPath : String := "/sqs-replay/queues/"

/-- The SQS message timer limit of 15 minutes. -/
def maximumDelayLimitSeconds : UInt32 := 15 * 60

structure Environment where
  configPath : String
  maxAttempts : UInt32
  backoffRateSeconds : UInt32
  maximumDelaySeconds : UInt32
  useJitter : Bool
  deriving DecidableEq, Repr

namespace Environment

inductive ConfigError where
  | invalid (message : String)
  deriving DecidableEq, Repr

def ConfigError.display : ConfigError → String
  | .invalid message => "invalid configuration: " ++ message

abbrev Variables := HashMap String String

def startsWithSlash (s : String) : Bool := s.toList.head? = some '/'

def positiveInt (values : Variables) (name : String) (default : UInt32) :
    Except ConfigError UInt32 :=
  match values.lookup name with
  | none => .ok default
  | some value =>
    match parseU32 value with
    | none => .error (.invalid (name ++ " must be a positive integer"))
    | some parsed =>
      if parsed = 0 then .error (.invalid (name ++ " must be a positive integer")) else .ok parsed

def toAsciiLowercase (s : String) : String := String.ofList (s.toList.map Char.toLower)

def boolFlag (values : Variables) (name : String) (default : Bool) : Except ConfigError Bool :=
  match values.lookup name with
  | none => .ok default
  | some value =>
    if toAsciiLowercase value = "true" then .ok true
    else if toAsciiLowercase value = "false" then .ok false
    else .error (.invalid (name ++ " must be either 'true' or 'false'"))

def maximumDelay (values : Variables) : Except ConfigError UInt32 := do
  let delay ← positiveInt values "MAXIMUM_DELAY" maximumDelayLimitSeconds
  if maximumDelayLimitSeconds < delay then
    throw (.invalid ("MAXIMUM_DELAY must be at most " ++ formatU32 maximumDelayLimitSeconds ++
      " seconds"))
  return delay

def parse (values : Variables) : Except ConfigError Environment := do
  let configPath := (values.lookup "SSM_PARAMETER_PATH").getD defaultConfigPath
  if !startsWithSlash configPath then
    throw (.invalid "SSM_PARAMETER_PATH must start with '/'")
  let maxAttempts ← positiveInt values "MAX_ATTEMPTS" 5
  let backoffRateSeconds ← positiveInt values "BACKOFF_RATE" 30
  let maximumDelaySeconds ← maximumDelay values
  let useJitter ← boolFlag values "BACKOFF_JITTER" false
  return { configPath, maxAttempts, backoffRateSeconds, maximumDelaySeconds, useJitter }

/-- The variable is unset or a positive 32-bit integer up to the bound. -/
def PositiveUpTo (values : Variables) (name : String) (bound : UInt32) : Prop :=
  ∀ value, values.lookup name = some value → ∃ n, parseU32 value = some n ∧ n ≠ 0 ∧ n ≤ bound

def FlagText (values : Variables) (name : String) : Prop :=
  ∀ value, values.lookup name = some value →
    toAsciiLowercase value = "true" ∨ toAsciiLowercase value = "false"

structure Acceptable (values : Variables) : Prop where
  path : ∀ value, values.lookup "SSM_PARAMETER_PATH" = some value → startsWithSlash value = true
  maxAttempts : PositiveUpTo values "MAX_ATTEMPTS" (UInt32.ofNat (UInt32.size - 1))
  backoffRate : PositiveUpTo values "BACKOFF_RATE" (UInt32.ofNat (UInt32.size - 1))
  maximumDelay : PositiveUpTo values "MAXIMUM_DELAY" maximumDelayLimitSeconds
  jitter : FlagText values "BACKOFF_JITTER"

theorem le_maxU32 (n : UInt32) : n ≤ UInt32.ofNat (UInt32.size - 1) := by
  rw [UInt32.le_iff_toNat_le]
  have h := n.toNat_lt_size
  change n.toNat ≤ 4294967295
  change n.toNat < 4294967296 at h
  omega

theorem positiveInt_ok_iff (values : Variables) (name : String) (default n : UInt32) :
    positiveInt values name default = .ok n ↔
      (values.lookup name = none ∧ n = default) ∨
        ∃ value, values.lookup name = some value ∧ parseU32 value = some n ∧ n ≠ 0 := by
  unfold positiveInt
  cases hv : values.lookup name with
  | none => simp [eq_comm]
  | some value =>
    cases hp : parseU32 value with
    | none => simp [hp]
    | some parsed =>
      simp only [hp, reduceCtorEq, false_and, Option.some.injEq, false_or, exists_eq_left']
      by_cases hz : parsed = 0
      · simp only [hz, if_true, reduceCtorEq, false_iff, not_and]
        rintro rfl hne
        exact hne rfl
      · simp only [hz, if_false, Except.ok.injEq]
        constructor
        · rintro rfl
          exact ⟨rfl, hz⟩
        · exact fun h => h.1

theorem exists_positiveInt_le_iff (values : Variables) (name : String) {default limit : UInt32}
    (hdefault : default ≤ limit) :
    (∃ n, positiveInt values name default = .ok n ∧ n ≤ limit) ↔
      PositiveUpTo values name limit := by
  constructor
  · rintro ⟨n, hn, hle⟩ value hv
    rcases (positiveInt_ok_iff values name default n).mp hn with ⟨hnone, -⟩ | ⟨value', hv', hp, hz⟩
    · rw [hnone] at hv
      cases hv
    · obtain rfl : value' = value := Option.some.inj (hv'.symm.trans hv)
      exact ⟨n, hp, hz, hle⟩
  · intro h
    cases hv : values.lookup name with
    | none => exact ⟨default, (positiveInt_ok_iff ..).mpr (Or.inl ⟨hv, rfl⟩), hdefault⟩
    | some value =>
      obtain ⟨n, hp, hz, hle⟩ := h value hv
      exact ⟨n, (positiveInt_ok_iff ..).mpr (Or.inr ⟨value, hv, hp, hz⟩), hle⟩

theorem exists_positiveInt_iff (values : Variables) (name : String) (default : UInt32) :
    (∃ n, positiveInt values name default = .ok n) ↔
      PositiveUpTo values name (UInt32.ofNat (UInt32.size - 1)) := by
  rw [← exists_positiveInt_le_iff values name (le_maxU32 default)]
  simp only [le_maxU32, and_true]

theorem maximumDelay_ok_iff (values : Variables) (n : UInt32) :
    maximumDelay values = .ok n ↔
      positiveInt values "MAXIMUM_DELAY" maximumDelayLimitSeconds = .ok n ∧
        n ≤ maximumDelayLimitSeconds := by
  unfold maximumDelay
  cases hp : positiveInt values "MAXIMUM_DELAY" maximumDelayLimitSeconds with
  | error e => simp [bind, Except.bind]
  | ok delay =>
    by_cases hlt : maximumDelayLimitSeconds < delay
    · simp only [bind, Except.bind, hlt, if_true, throw, throwThe, MonadExceptOf.throw,
        reduceCtorEq, Except.ok.injEq, false_iff, not_and]
      rintro rfl
      exact UInt32.not_le.mpr hlt
    · simp only [bind, Except.bind, hlt, if_false, pure, Except.pure, Except.ok.injEq]
      constructor
      · rintro rfl
        exact ⟨rfl, UInt32.not_lt.mp hlt⟩
      · exact fun h => h.1

theorem exists_maximumDelay_iff (values : Variables) :
    (∃ n, maximumDelay values = .ok n) ↔
      PositiveUpTo values "MAXIMUM_DELAY" maximumDelayLimitSeconds := by
  simp only [maximumDelay_ok_iff]
  exact exists_positiveInt_le_iff values "MAXIMUM_DELAY" (UInt32.le_refl _)

theorem exists_boolFlag_iff (values : Variables) (name : String) (default : Bool) :
    (∃ b, boolFlag values name default = .ok b) ↔ FlagText values name := by
  unfold boolFlag FlagText
  cases hv : values.lookup name with
  | none => simp
  | some value =>
    simp only [Option.some.injEq, forall_eq']
    by_cases ht : toAsciiLowercase value = "true"
    · simp [ht]
    · by_cases hf : toAsciiLowercase value = "false" <;> simp [ht, hf]

theorem parse_ok_iff (values : Variables) (env : Environment) :
    parse values = .ok env ↔
      env.configPath = (values.lookup "SSM_PARAMETER_PATH").getD defaultConfigPath ∧
      startsWithSlash env.configPath = true ∧
      positiveInt values "MAX_ATTEMPTS" 5 = .ok env.maxAttempts ∧
      positiveInt values "BACKOFF_RATE" 30 = .ok env.backoffRateSeconds ∧
      maximumDelay values = .ok env.maximumDelaySeconds ∧
      boolFlag values "BACKOFF_JITTER" false = .ok env.useJitter := by
  obtain ⟨path, attempts, rate, delay, jitter⟩ := env
  unfold parse
  generalize (values.lookup "SSM_PARAMETER_PATH").getD defaultConfigPath = p
  cases hs : startsWithSlash p with
  | false =>
    simp only [hs, Bool.not_false, if_true, bind, Except.bind, throw, throwThe,
      MonadExceptOf.throw, reduceCtorEq, false_iff, not_and]
    rintro rfl hs'
    rw [hs] at hs'
    cases hs'
  | true =>
    simp only [hs, Bool.not_true, Bool.false_eq_true, if_false]
    cases ha : positiveInt values "MAX_ATTEMPTS" 5 with
    | error e => simp [bind, Except.bind]
    | ok a =>
      cases hr : positiveInt values "BACKOFF_RATE" 30 with
      | error e => simp [bind, Except.bind]
      | ok r =>
        cases hd : maximumDelay values with
        | error e => simp [bind, Except.bind]
        | ok d =>
          cases hj : boolFlag values "BACKOFF_JITTER" false with
          | error e => simp [bind, Except.bind]
          | ok j =>
            simp only [bind, Except.bind, pure, Except.pure, Except.ok.injEq, mk.injEq]
            constructor
            · rintro ⟨rfl, rfl, rfl, rfl, rfl⟩
              exact ⟨rfl, hs, rfl, rfl, rfl, rfl⟩
            · rintro ⟨rfl, -, rfl, rfl, rfl, rfl⟩
              exact ⟨rfl, rfl, rfl, rfl, rfl⟩

theorem parse_isOk_iff (values : Variables) :
    (∃ env, parse values = .ok env) ↔ Acceptable values := by
  have hdefault : startsWithSlash defaultConfigPath = true := by decide
  simp only [parse_ok_iff]
  constructor
  · rintro ⟨env, hpath, hslash, ha, hr, hd, hj⟩
    refine ⟨?_, (exists_positiveInt_iff ..).mp ⟨_, ha⟩, (exists_positiveInt_iff ..).mp ⟨_, hr⟩,
      (exists_maximumDelay_iff _).mp ⟨_, hd⟩, (exists_boolFlag_iff ..).mp ⟨_, hj⟩⟩
    intro value hv
    rw [hpath, hv] at hslash
    exact hslash
  · rintro ⟨hpath, ha, hr, hd, hj⟩
    obtain ⟨a, ha⟩ := (exists_positiveInt_iff values "MAX_ATTEMPTS" 5).mpr ha
    obtain ⟨r, hr⟩ := (exists_positiveInt_iff values "BACKOFF_RATE" 30).mpr hr
    obtain ⟨d, hd⟩ := (exists_maximumDelay_iff values).mpr hd
    obtain ⟨j, hj⟩ := (exists_boolFlag_iff values "BACKOFF_JITTER" false).mpr hj
    refine ⟨⟨_, a, r, d, j⟩, rfl, ?_, ha, hr, hd, hj⟩
    cases hv : values.lookup "SSM_PARAMETER_PATH" with
    | none => exact hdefault
    | some value => exact hpath value hv

example : parse ∅ = .ok ⟨"/sqs-replay/queues/", 5, 30, 900, false⟩ := by decide

end Environment
end ReplayBackoff
