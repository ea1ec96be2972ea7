import ReplayBackoff.Construct

/-!
# What the Lambda decodes of the tuning options

The construct writes a number as `JSON.stringify` does, the Lambda reads it as an optional 32-bit
integer. `decodeNumber` is the composition. It returns the number that was written exactly when
that number is whole and fits; a number that is not finite is written as null and becomes no value
at all, and any other number makes the whole configuration unreadable. Validation checks the lower
bounds only, except for the maximum delay.
-/

namespace ReplayBackoff

open QueueConfig

/-- What becomes of an option that is written when it is provided. -/
def readOptional {α : Type} (read : Json → Option α) (value : Option Json) :
    Option (Option (Option α)) :=
  match value with
  | none => some none
  | some j => (readOption read j).map some

theorem foldlM_optionalMember {α : Type} {fields : Fields} {name : String}
    {read : Json → Option α} (set : Option (Option α) → Fields)
    (hvisit : ∀ j, visitMember fields (name, j) =
      (readOnce none (readOption read) j).map set)
    (hset : set none = fields) (value : Option Json) :
    (optionalMember name value).foldlM visitMember fields = (readOptional read value).map set := by
  cases value with
  | none => exact congrArg some hset.symm
  | some j =>
    simp only [optionalMember, Option.map_some, Option.toList_some, List.foldlM_cons,
      List.foldlM_nil, hvisit, readOnce, readOptional]
    cases readOption read j <;> rfl

/-- A number written by the construct, as the Lambda decodes it. -/
def decodeNumber (provided : Option JsNumber) : Option (Option UInt32) :=
  match provided with
  | none => some none
  | some x => readOption readU32 x.toJson

theorem readOptional_number (provided : Option JsNumber) :
    (readOptional readU32 (provided.map (·.toJson))).map (·.getD none) = decodeNumber provided := by
  cases provided with
  | none => rfl
  | some x =>
    simp only [Option.map_some, readOptional, decodeNumber]
    cases readOption readU32 x.toJson <;> rfl

theorem readOptional_bool (provided : Option Bool) :
    readOptional readBool (provided.map Json.bool) = some (provided.map some) := by
  cases provided <;> rfl

theorem wellFormed_append {xs ys : List (String × Json)} (hx : Json.WellFormedMembers xs)
    (hy : Json.WellFormedMembers ys) : Json.WellFormedMembers (xs ++ ys) := by
  induction xs with
  | nil => exact hy
  | cons x xs ih => exact ⟨hx.1, ih hx.2⟩

theorem wellFormed_optionalMember {α : Type} (name : String) (value : Option α) {f : α → Json}
    (h : ∀ a, Json.WellFormed (f a)) :
    Json.WellFormedMembers (optionalMember name (value.map f)) := by
  cases value with
  | none => trivial
  | some a => exact ⟨h a, trivial⟩

theorem parse_stringValue (props : SqsReplayerProps) :
    Json.parse props.stringValue = some (.object props.config) := by
  apply Json.parse_stringify
  refine wellFormed_append ⟨trivial, trivial, trivial⟩ ?_
  apply wellFormed_append (wellFormed_optionalMember _ _ JsNumber.toJson_wellFormed)
  refine wellFormed_append (wellFormed_optionalMember _ _ (fun d => d.toSeconds.toJson_wellFormed))
    ?_
  refine wellFormed_append (wellFormed_optionalMember _ _ (fun d => d.toSeconds.toJson_wellFormed))
    ?_
  exact wellFormed_optionalMember _ _ (fun _ => trivial)

section

variable (arn url : String) (value : Option Json)

theorem foldlM_routing :
    [("replayQueueArn", Json.string arn), ("destinationQueueUrl", Json.string url)].foldlM
      visitMember Fields.unseen = some ⟨some arn, some url, none, none, none, none⟩ := rfl

theorem foldlM_maxAttempts :
    (optionalMember "maxAttempts" value).foldlM visitMember
        ⟨some arn, some url, none, none, none, none⟩ =
      (readOptional readU32 value).map (fun a => ⟨some arn, some url, a, none, none, none⟩) :=
  foldlM_optionalMember (fun a => ⟨some arn, some url, a, none, none, none⟩) (fun _ => rfl) rfl value

theorem foldlM_backoffRate (a : Option (Option UInt32)) :
    (optionalMember "backoffRate" value).foldlM visitMember
        ⟨some arn, some url, a, none, none, none⟩ =
      (readOptional readU32 value).map (fun r => ⟨some arn, some url, a, r, none, none⟩) :=
  foldlM_optionalMember (fun r => ⟨some arn, some url, a, r, none, none⟩) (fun _ => rfl) rfl value

theorem foldlM_maximumDelay (a r : Option (Option UInt32)) :
    (optionalMember "maximumDelay" value).foldlM visitMember
        ⟨some arn, some url, a, r, none, none⟩ =
      (readOptional readU32 value).map (fun d => ⟨some arn, some url, a, r, d, none⟩) :=
  foldlM_optionalMember (fun d => ⟨some arn, some url, a, r, d, none⟩) (fun _ => rfl) rfl value

theorem foldlM_useJitter (a r d : Option (Option UInt32)) :
    (optionalMember "useJitter" value).foldlM visitMember
        ⟨some arn, some url, a, r, d, none⟩ =
      (readOptional readBool value).map (fun j => ⟨some arn, some url, a, r, d, j⟩) :=
  foldlM_optionalMember (fun j => ⟨some arn, some url, a, r, d, j⟩) (fun _ => rfl) rfl value

end

theorem fromStr_stringValue (props : SqsReplayerProps) :
    fromStr props.stringValue =
      (decodeNumber props.maxAttempts).bind (fun attempts =>
        (decodeNumber (props.backoffRate.map (·.toSeconds))).bind (fun rate =>
          (decodeNumber (props.maximumDelay.map (·.toSeconds))).map (fun delay =>
            ⟨props.replayQueue.queueArn, props.sourceQueue.queueUrl, attempts, rate, delay,
              props.useJitter⟩))) := by
  have hrate : props.backoffRate.map (·.toSeconds.toJson) =
      (props.backoffRate.map (·.toSeconds)).map (·.toJson) := by rw [Option.map_map]; rfl
  have hdelay : props.maximumDelay.map (·.toSeconds.toJson) =
      (props.maximumDelay.map (·.toSeconds)).map (·.toJson) := by rw [Option.map_map]; rfl
  rw [fromStr, parse_stringValue, Option.bind_some, deserialize, visitMap, SqsReplayerProps.config,
    List.foldlM_append, foldlM_routing, hrate, hdelay]
  simp only [Option.bind_eq_bind, Option.bind_some, List.foldlM_append, foldlM_maxAttempts,
    ← readOptional_number]
  cases readOptional readU32 (props.maxAttempts.map (·.toJson)) with
  | none => rfl
  | some a =>
    simp only [Option.map_some, Option.bind_some, foldlM_backoffRate]
    cases readOptional readU32 ((props.backoffRate.map (·.toSeconds)).map (·.toJson)) with
    | none => rfl
    | some r =>
      simp only [Option.map_some, Option.bind_some, foldlM_maximumDelay]
      cases readOptional readU32 ((props.maximumDelay.map (·.toSeconds)).map (·.toJson)) with
      | none => rfl
      | some d =>
        simp only [Option.map_some, Option.bind_some, foldlM_useJitter, readOptional_bool]
        cases props.useJitter <;> rfl

/-- The number is whole and fits 32 bits. -/
def FitsU32 (x : JsNumber) : Prop := ∃ n : ℕ, n ≤ 4294967295 ∧ x.value? = some (n : ℚ)

theorem toNat_le_max (m : UInt32) : m.toNat ≤ 4294967295 := Nat.le_of_lt_succ m.toNat_lt_size

theorem readU32_number (lexeme : List Char) :
    readOption readU32 (.number lexeme) =
      ((DecimalText.digitsValue lexeme).bind DecimalText.toU32).map some := rfl

theorem decodeNumber_eq_value_iff (x : JsNumber) (m : UInt32) :
    decodeNumber (some x) = some (some m) ↔ x.value? = some (m.toNat : ℚ) := by
  cases x with
  | nan => simp [decodeNumber, JsNumber.toJson, readOption, JsNumber.value?]
  | infinity negative => simp [decodeNumber, JsNumber.toJson, readOption, JsNumber.value?]
  | zero negative =>
    have hzero : (DecimalText.digitsValue ['0']).bind DecimalText.toU32 = some 0 := by decide
    rw [decodeNumber, JsNumber.toJson, readU32_number, hzero, JsNumber.value?]
    simp only [Option.map_some, Option.some.injEq]
    constructor
    · rintro rfl
      simp
    · intro h
      have hnat : m.toNat = 0 := by exact_mod_cast h.symm
      exact (UInt32.toNat_inj.mp hnat).symm
  | finite negative d =>
    rw [decodeNumber, JsNumber.toJson, readU32_number, d.digitsValue_text, JsNumber.value?,
      Option.some.injEq]
    split_ifs with hint hneg hneg
    · rw [hint.1] at hneg
      cases hneg
    · rw [Option.bind_some, Option.map_eq_some_iff, d.value_of_length_le hint.2.1]
      simp only [Option.some.injEq, exists_eq_right, DecimalText.toU32_eq_some]
      exact Nat.cast_inj.symm
    · simp only [Option.bind_none, Option.map_none, reduceCtorEq, false_iff]
      have hpos := d.value_pos
      have hnonneg : (0 : ℚ) ≤ (m.toNat : ℚ) := Nat.cast_nonneg _
      linarith
    · simp only [Option.bind_none, Option.map_none, reduceCtorEq, false_iff]
      intro hvalue
      have hlength := d.length_le_of_whole hvalue
      have hpoint : 21 < d.point := by
        by_contra hle
        exact hint ⟨by simpa using hneg, hlength, by omega⟩
      have hlarge := d.pow_le_value_of_point hlength hpoint
      rw [d.value_of_length_le hlength] at hvalue
      have hnat := Nat.cast_injective hvalue
      have hmax := toNat_le_max m
      rw [hnat] at hlarge
      omega

/-- An option that is provided decodes to its value, and one that is omitted to no value. -/
def Decodes (provided : Option JsNumber) (decoded : Option UInt32) : Prop :=
  match provided with
  | none => decoded = none
  | some x => ∃ m, decoded = some m ∧ x.value? = some (m.toNat : ℚ)

/-- An option that is provided is used with its value, and one that is omitted as the default. -/
def Uses (provided : Option JsNumber) (default used : UInt32) : Prop :=
  match provided with
  | none => used = default
  | some x => x.value? = some (used.toNat : ℚ)

theorem Decodes.uses {provided : Option JsNumber} {decoded : Option UInt32}
    (h : Decodes provided decoded) (default : UInt32) :
    Uses provided default (decoded.getD default) := by
  cases provided with
  | none =>
    obtain rfl : decoded = none := h
    rfl
  | some x =>
    obtain ⟨m, rfl, hvalue⟩ := h
    exact hvalue

theorem exists_decodes_iff (provided : Option JsNumber) :
    (∃ decoded, decodeNumber provided = some decoded ∧ Decodes provided decoded) ↔
      ∀ x, provided = some x → FitsU32 x := by
  cases provided with
  | none => simp [decodeNumber, Decodes]
  | some x =>
    simp only [Option.some.injEq, forall_eq', Decodes]
    constructor
    · rintro ⟨decoded, -, m, -, hvalue⟩
      exact ⟨m.toNat, toNat_le_max m, hvalue⟩
    · rintro ⟨n, hn, hvalue⟩
      have htoNat : (UInt32.ofNat n).toNat = n := UInt32.toNat_ofNat_of_lt' (Nat.lt_succ_of_le hn)
      have hvalue' : x.value? = some ((UInt32.ofNat n).toNat : ℚ) := by rw [htoNat, hvalue]
      exact ⟨_, (decodeNumber_eq_value_iff x _).mpr hvalue', _, rfl, hvalue'⟩

/-- The Lambda decodes exactly what the construct was given. -/
structure Agrees (props : SqsReplayerProps) (config : QueueConfig) : Prop where
  replayQueueArn : config.replayQueueArn = props.replayQueue.queueArn
  destinationQueueUrl : config.destinationQueueUrl = props.sourceQueue.queueUrl
  maxAttempts : Decodes props.maxAttempts config.maxAttempts
  backoffRate : Decodes (props.backoffRate.map (·.toSeconds)) config.backoffRateSeconds
  maximumDelay : Decodes (props.maximumDelay.map (·.toSeconds)) config.maximumDelaySeconds
  useJitter : config.useJitter = props.useJitter

/-- The Lambda works with the options that were given and its own values for the others. -/
structure ResolvesTo (props : SqsReplayerProps) (env : Environment)
    (resolved : ResolvedQueueConfig) : Prop where
  queueUrl : resolved.queueUrl = props.sourceQueue.queueUrl
  maxAttempts : Uses props.maxAttempts env.maxAttempts resolved.maxAttempts
  backoffRate : Uses (props.backoffRate.map (·.toSeconds)) env.backoffRateSeconds
    resolved.backoffRateSeconds
  maximumDelay : Uses (props.maximumDelay.map (·.toSeconds)) env.maximumDelaySeconds
    resolved.maximumDelaySeconds
  useJitter : resolved.useJitter = props.useJitter.getD env.useJitter

variable {props : SqsReplayerProps}

theorem greaterThan_eq_false_iff {x : JsNumber} {n : ℕ} (hn : x.value? = some (n : ℚ))
    (bound : ℕ) : x.greaterThan bound = false ↔ n ≤ bound := by
  cases x with
  | nan => cases hn
  | infinity negative => cases hn
  | zero negative =>
    simp only [JsNumber.greaterThan, hn, Option.any_some, decide_eq_false_iff_not, not_lt,
      Nat.cast_le]
  | finite negative d =>
    simp only [JsNumber.greaterThan, hn, Option.any_some, decide_eq_false_iff_not, not_lt,
      Nat.cast_le]

theorem duration_fits_iff (d : Duration) :
    FitsU32 d.toSeconds ↔ d.toSeconds.greaterThan 4294967295 = false := by
  obtain ⟨n, hn⟩ := d.whole
  rw [greaterThan_eq_false_iff hn]
  constructor
  · rintro ⟨m, hm, hvalue⟩
    obtain rfl : m = n := Nat.cast_injective (Option.some.inj (hvalue.symm.trans hn))
    exact hm
  · exact fun hle => ⟨n, hle, hn⟩

theorem maximumDelay_le (hvalid : validateTuning props = .ok ()) {delay : Duration}
    (hdelay : props.maximumDelay = some delay) {n : ℕ}
    (hn : delay.toSeconds.value? = some (n : ℚ)) : n ≤ 900 := by
  obtain ⟨-, -, hcheck, -⟩ := (validateTuning_ok_iff props).mp hvalid
  rw [hdelay, Option.any_some, outside, Bool.or_eq_false_iff] at hcheck
  exact (greaterThan_eq_false_iff hn 900).mp hcheck.2

theorem maximumDelay_fits (hvalid : validateTuning props = .ok ()) (x : JsNumber)
    (hx : props.maximumDelay.map (·.toSeconds) = some x) : FitsU32 x := by
  obtain ⟨delay, hdelay, rfl⟩ := Option.map_eq_some_iff.mp hx
  obtain ⟨n, hn⟩ := delay.whole
  have hle := maximumDelay_le hvalid hdelay hn
  exact ⟨n, by omega, hn⟩

/-- What validation lets through is never clamped by the Lambda. -/
theorem Agrees.resolvesTo (hvalid : validateTuning props = .ok ()) {config : QueueConfig}
    (h : Agrees props config) (env : Environment) : ResolvesTo props env (config.resolve env) where
  queueUrl := h.destinationQueueUrl
  maxAttempts := h.maxAttempts.uses _
  backoffRate := h.backoffRate.uses _
  maximumDelay := by
    have hdecodes := h.maximumDelay
    unfold resolve
    cases hdelay : props.maximumDelay with
    | none =>
      rw [hdelay] at hdecodes
      have hnone : config.maximumDelaySeconds = none := hdecodes
      rw [hnone]
      rfl
    | some delay =>
      rw [hdelay] at hdecodes
      obtain ⟨m, hm, hvalue⟩ := hdecodes
      have hle : m ≤ maximumDelayLimitSeconds := by
        rw [UInt32.le_iff_toNat_le]
        exact maximumDelay_le hvalid hdelay hvalue
      rw [hm]
      change delay.toSeconds.value? = some ((min m maximumDelayLimitSeconds).toNat : ℚ)
      rw [Std.min_eq_if, if_pos hle, hvalue]
  useJitter := by
    rw [← h.useJitter]
    rfl

theorem fromStr_agrees_iff (props : SqsReplayerProps) :
    (∃ config, fromStr props.stringValue = some config ∧ Agrees props config) ↔
      (∀ x, props.maxAttempts = some x → FitsU32 x) ∧
        (∀ x, props.backoffRate.map (·.toSeconds) = some x → FitsU32 x) ∧
        ∀ x, props.maximumDelay.map (·.toSeconds) = some x → FitsU32 x := by
  rw [← exists_decodes_iff, ← exists_decodes_iff, ← exists_decodes_iff]
  simp only [fromStr_stringValue, Option.bind_eq_some_iff, Option.map_eq_some_iff]
  constructor
  · rintro ⟨_, ⟨a, ha, r, hr, d, hd, rfl⟩, hagrees⟩
    exact ⟨⟨a, ha, hagrees.maxAttempts⟩, ⟨r, hr, hagrees.backoffRate⟩, d, hd,
      hagrees.maximumDelay⟩
  · rintro ⟨⟨a, ha, hattempts⟩, ⟨r, hr, hrate⟩, d, hd, hdelay⟩
    exact ⟨_, ⟨a, ha, r, hr, d, hd, rfl⟩, rfl, rfl, hattempts, hrate, hdelay, rfl⟩

/-- The construct and the Lambda agree on the validated options exactly when the number of attempts
is a whole 32-bit number, if it is given, and the backoff rate is at most the largest one. -/
theorem tuning_agrees_iff (props : SqsReplayerProps) (hvalid : validateTuning props = .ok ()) :
    (∃ config, QueueConfig.fromStr props.stringValue = some config ∧ Agrees props config ∧
      ∀ env, ResolvesTo props env (config.resolve env)) ↔
      (∀ attempts, props.maxAttempts = some attempts →
        ∃ n : ℕ, n ≤ 4294967295 ∧ attempts.value? = some (n : ℚ)) ∧
      ∀ rate, props.backoffRate = some rate → rate.toSeconds.greaterThan 4294967295 = false := by
  have hdelay := maximumDelay_fits hvalid
  have hrate : (∀ x, props.backoffRate.map (·.toSeconds) = some x → FitsU32 x) ↔
      ∀ rate, props.backoffRate = some rate → rate.toSeconds.greaterThan 4294967295 = false := by
    cases props.backoffRate with
    | none => simp
    | some rate => simp [duration_fits_iff]
  rw [← hrate]
  constructor
  · rintro ⟨config, hconfig, hagrees, -⟩
    obtain ⟨hattempts, hrate, -⟩ := (fromStr_agrees_iff props).mp ⟨config, hconfig, hagrees⟩
    exact ⟨hattempts, hrate⟩
  · rintro ⟨hattempts, hrate⟩
    obtain ⟨config, hconfig, hagrees⟩ := (fromStr_agrees_iff props).mpr ⟨hattempts, hrate, hdelay⟩
    exact ⟨config, hconfig, hagrees, hagrees.resolvesTo hvalid⟩

/-- A replayer with a number of attempts and nothing else. -/
def attemptsProps (attempts : JsNumber) : SqsReplayerProps :=
  ⟨⟨"https://sqs/Queue", false⟩, ⟨"arn:aws:sqs:ReplayQueue"⟩, some attempts, none, none, none, none,
    none, none⟩

theorem attemptsProps_valid {attempts : JsNumber} (h : attempts.lessThan 1 = false) :
    validateTuning (attemptsProps attempts) = .ok () :=
  (validateTuning_ok_iff _).mpr ⟨h, rfl, rfl, rfl⟩

def three : ShortestDecimal := ⟨3, 1, by decide⟩

def oneAndAHalf : ShortestDecimal := ⟨15, 1, by decide⟩

theorem value_three : three.value = 3 := by
  have hlength : three.length = 1 := by decide
  rw [ShortestDecimal.value, hlength]
  norm_num [three]

theorem value_oneAndAHalf : oneAndAHalf.value = 3 / 2 := by
  have hlength : oneAndAHalf.length = 2 := by decide
  rw [ShortestDecimal.value, hlength]
  norm_num [oneAndAHalf]

theorem tuning_agrees_iff_sample :
    ∃ config, QueueConfig.fromStr (attemptsProps (.finite false three)).stringValue = some config ∧
      Agrees (attemptsProps (.finite false three)) config := by
  have hvalid : validateTuning (attemptsProps (.finite false three)) = .ok () :=
    attemptsProps_valid (by norm_num [JsNumber.lessThan, JsNumber.value?, value_three])
  obtain ⟨config, hconfig, hagrees, -⟩ := (tuning_agrees_iff _ hvalid).mpr
    ⟨by
      rintro attempts ⟨rfl⟩
      exact ⟨3, by decide, by norm_num [JsNumber.value?, value_three]⟩, by simp [attemptsProps]⟩
  exact ⟨config, hconfig, hagrees⟩

/-- One and a half attempts pass validation, and the whole configuration is unreadable. -/
theorem fractional_attempts_unreadable :
    validateTuning (attemptsProps (.finite false oneAndAHalf)) = .ok () ∧
      QueueConfig.fromStr (attemptsProps (.finite false oneAndAHalf)).stringValue = none := by
  refine ⟨attemptsProps_valid (by norm_num [JsNumber.lessThan, JsNumber.value?, value_oneAndAHalf]),
    ?_⟩
  have hnone : decodeNumber (some (.finite false oneAndAHalf)) = none := by
    rw [decodeNumber, JsNumber.toJson, readU32_number, ShortestDecimal.digitsValue_text,
      if_neg (by decide)]
    rfl
  rw [fromStr_stringValue, attemptsProps, hnone]
  rfl

end ReplayBackoff
