import ReplayBackoff.TuningAgreement
import ReplayBackoff.Library.JsonReader

/-!
# The format of a stored configuration

The deserializer folds over the members of an object. What it accepts can be said of the members as
a whole: each field looks at the values stored under its own name only, of which there must be
exactly one, or at most one when the field is optional. So neither the order of the members nor the
other members matter, and a name that is given twice is never resolved one way or the other.
-/

namespace ReplayBackoff.QueueConfig

def valuesOf (members : List (String × Json)) (name : String) : List Json :=
  (members.filter (fun member => member.1 = name)).map (·.2)

/-- A field after some of its values were visited. -/
def visitValues {α : Type} (read : Json → Option α) (seen : Option α) (values : List Json) :
    Option (Option α) :=
  values.foldlM (fun seen value => readOnce seen read value) seen

/-- Every field was visited with the values of its own name. -/
@[mk_iff]
structure Visited (values : String → List Json) (fields fields' : Fields) : Prop where
  replayQueueArn : visitValues readString fields.replayQueueArn (values "replayQueueArn") =
    some fields'.replayQueueArn
  destinationQueueUrl : visitValues readString fields.destinationQueueUrl
    (values "destinationQueueUrl") = some fields'.destinationQueueUrl
  maxAttempts : visitValues (readOption readU32) fields.maxAttempts (values "maxAttempts") =
    some fields'.maxAttempts
  backoffRate : visitValues (readOption readU32) fields.backoffRate (values "backoffRate") =
    some fields'.backoffRate
  maximumDelay : visitValues (readOption readU32) fields.maximumDelay (values "maximumDelay") =
    some fields'.maximumDelay
  useJitter : visitValues (readOption readBool) fields.useJitter (values "useJitter") =
    some fields'.useJitter

section

variable {α : Type} {read : Json → Option α} {seen seen' : Option α} {key name : String}
  {value : Json} {fields fields' : Fields}

theorem visitValues_member : visitValues read seen (valuesOf [(key, value)] name) =
    if key = name then readOnce seen read value else some seen := by
  by_cases h : key = name <;> simp [visitValues, valuesOf, h]

/-- A visit to a member changes its field and no other. -/
theorem visitMember_eq_some_iff (member : String × Json) :
    visitMember fields member = some fields' ↔ Visited (valuesOf [member]) fields fields' := by
  obtain ⟨key, value⟩ := member
  rw [visited_iff]
  simp only [visitValues_member]
  obtain ⟨a, u, m, b, d, j⟩ := fields
  obtain ⟨a', u', m', b', d', j'⟩ := fields'
  by_cases hknown : key ∈ fieldNames
  · simp only [fieldNames, List.mem_cons, List.not_mem_nil, or_false] at hknown
    rcases hknown with rfl | rfl | rfl | rfl | rfl | rfl <;>
      simp [visitMember] <;> tauto
  · simp only [fieldNames, List.mem_cons, List.not_mem_nil, or_false, not_or] at hknown
    obtain ⟨h1, h2, h3, h4, h5, h6⟩ := hknown
    simp [visitMember, h1, h2, h3, h4, h5, h6]

theorem Visited.exists_append_iff {values later : String → List Json} :
    (∃ middle, Visited values fields middle ∧ Visited later middle fields') ↔
      Visited (fun name => values name ++ later name) fields fields' := by
  simp only [visited_iff, visitValues, List.foldlM_append, Option.bind_eq_bind,
    Option.bind_eq_some_iff]
  constructor
  · rintro ⟨middle, ⟨ha, hu, hm, hb, hd, hj⟩, ha', hu', hm', hb', hd', hj'⟩
    exact ⟨⟨_, ha, ha'⟩, ⟨_, hu, hu'⟩, ⟨_, hm, hm'⟩, ⟨_, hb, hb'⟩, ⟨_, hd, hd'⟩, ⟨_, hj, hj'⟩⟩
  · rintro ⟨⟨a, ha, ha'⟩, ⟨u, hu, hu'⟩, ⟨m, hm, hm'⟩, ⟨b, hb, hb'⟩, ⟨d, hd, hd'⟩, ⟨j, hj, hj'⟩⟩
    exact ⟨⟨a, u, m, b, d, j⟩, ⟨ha, hu, hm, hb, hd, hj⟩, ha', hu', hm', hb', hd', hj'⟩

/-- The fold over the members of an object visits every field with its values. -/
theorem foldlM_visitMember_eq_some_iff (members : List (String × Json)) :
    members.foldlM visitMember fields = some fields' ↔
      Visited (valuesOf members) fields fields' := by
  induction members generalizing fields with
  | nil =>
    obtain ⟨a, u, m, b, d, j⟩ := fields
    obtain ⟨a', u', m', b', d', j'⟩ := fields'
    simp [visited_iff, valuesOf, visitValues]
  | cons member members ih =>
    have happend : valuesOf (member :: members) =
        fun name => valuesOf [member] name ++ valuesOf members name := by
      funext name
      rw [valuesOf, ← List.singleton_append, List.filter_append, List.map_append]
      rfl
    rw [List.foldlM_cons, Option.bind_eq_bind, Option.bind_eq_some_iff, happend,
      ← Visited.exists_append_iff]
    simp only [ih, visitMember_eq_some_iff]

end

def HasOne {α : Type} (read : Json → Option α) (values : List Json) (a : α) : Prop :=
  ∃ value, values = [value] ∧ read value = some a

/-- The only value of an optional field, which may also be null or missing. -/
def HasAtMostOne {α : Type} (read : Json → Option α) (values : List Json) (a : Option α) : Prop :=
  (values = [] ∧ a = none) ∨ HasOne (readOption read) values a

/-- The values by name describe the configuration. -/
structure Describes (values : String → List Json) (config : QueueConfig) : Prop where
  replayQueueArn : HasOne readString (values "replayQueueArn") config.replayQueueArn
  destinationQueueUrl : HasOne readString (values "destinationQueueUrl") config.destinationQueueUrl
  maxAttempts : HasAtMostOne readU32 (values "maxAttempts") config.maxAttempts
  backoffRate : HasAtMostOne readU32 (values "backoffRate") config.backoffRateSeconds
  maximumDelay : HasAtMostOne readU32 (values "maximumDelay") config.maximumDelaySeconds
  useJitter : HasAtMostOne readBool (values "useJitter") config.useJitter

section

variable {α : Type} {read : Json → Option α} {values : List Json}

theorem visitValues_none_eq_some_iff {seen : Option α} :
    visitValues read none values = some seen ↔
      (values = [] ∧ seen = none) ∨ ∃ a, HasOne read values a ∧ seen = some a := by
  rcases values with _ | ⟨value, _ | ⟨value', values⟩⟩
  · simp [visitValues, HasOne, @eq_comm _ none seen]
  · cases hread : read value <;> simp [visitValues, readOnce, HasOne, hread, @eq_comm _ _ seen]
  · cases hread : read value <;> simp [visitValues, readOnce, HasOne, hread]

theorem hasOne_iff {a : α} :
    HasOne read values a ↔ visitValues read none values = some (some a) := by
  simp [visitValues_none_eq_some_iff]

theorem hasAtMostOne_iff {a : Option α} :
    HasAtMostOne read values a ↔
      ∃ seen, visitValues (readOption read) none values = some seen ∧ seen.getD none = a := by
  simp only [HasAtMostOne, visitValues_none_eq_some_iff]
  constructor
  · rintro (⟨hnil, rfl⟩ | hone)
    · exact ⟨none, Or.inl ⟨hnil, rfl⟩, rfl⟩
    · exact ⟨some a, Or.inr ⟨a, hone, rfl⟩, rfl⟩
  · rintro ⟨seen, ⟨hnil, rfl⟩ | ⟨b, hone, rfl⟩, rfl⟩
    · exact Or.inl ⟨hnil, rfl⟩
    · exact Or.inr hone

end

theorem Fields.finish_eq_some_iff (fields : Fields) (config : QueueConfig) :
    fields.finish = some config ↔
      fields.replayQueueArn = some config.replayQueueArn ∧
      fields.destinationQueueUrl = some config.destinationQueueUrl ∧
      fields.maxAttempts.getD none = config.maxAttempts ∧
      fields.backoffRate.getD none = config.backoffRateSeconds ∧
      fields.maximumDelay.getD none = config.maximumDelaySeconds ∧
      fields.useJitter.getD none = config.useJitter := by
  obtain ⟨a, u, m, b, d, j⟩ := fields
  obtain ⟨arn, url, attempts, rate, delay, jitter⟩ := config
  cases a <;> cases u <;> simp [finish]

theorem visitMap_eq_some_iff (members : List (String × Json)) (config : QueueConfig) :
    visitMap members = some config ↔ Describes (valuesOf members) config := by
  rw [visitMap, Option.bind_eq_bind, Option.bind_eq_some_iff]
  simp only [foldlM_visitMember_eq_some_iff, Fields.finish_eq_some_iff]
  constructor
  · rintro ⟨fields, ⟨ha, hu, hm, hb, hd, hj⟩, ha', hu', hm', hb', hd', hj'⟩
    rw [ha'] at ha
    rw [hu'] at hu
    exact ⟨hasOne_iff.mpr ha, hasOne_iff.mpr hu, hasAtMostOne_iff.mpr ⟨_, hm, hm'⟩,
      hasAtMostOne_iff.mpr ⟨_, hb, hb'⟩, hasAtMostOne_iff.mpr ⟨_, hd, hd'⟩,
      hasAtMostOne_iff.mpr ⟨_, hj, hj'⟩⟩
  · rintro ⟨ha, hu, hm, hb, hd, hj⟩
    obtain ⟨m, hm, hm'⟩ := hasAtMostOne_iff.mp hm
    obtain ⟨b, hb, hb'⟩ := hasAtMostOne_iff.mp hb
    obtain ⟨d, hd, hd'⟩ := hasAtMostOne_iff.mp hd
    obtain ⟨j, hj, hj'⟩ := hasAtMostOne_iff.mp hj
    exact ⟨⟨_, _, m, b, d, j⟩, ⟨hasOne_iff.mp ha, hasOne_iff.mp hu, hm, hb, hd, hj⟩, rfl, rfl,
      hm', hb', hd', hj'⟩

/-- The JSON value describes the configuration, as an object or by position. -/
def DescribedBy (config : QueueConfig) : Json → Prop
  | .object members => Describes (valuesOf members) config
  | .array items =>
      items.length ≤ fieldNames.length ∧ Describes (valuesOf (fieldNames.zip items)) config
  | _ => False

theorem deserialize_eq_some_iff (json : Json) (config : QueueConfig) :
    deserialize json = some config ↔ DescribedBy config json := by
  cases json with
  | object members => exact visitMap_eq_some_iff members config
  | array items =>
    rw [deserialize, visitSeq, DescribedBy]
    split_ifs with hlength
    · simp [hlength, visitMap_eq_some_iff]
    · simp [hlength]
  | null => simp [deserialize, DescribedBy]
  | bool b => simp [deserialize, DescribedBy]
  | number lexeme => simp [deserialize, DescribedBy]
  | string s => simp [deserialize, DescribedBy]
  | undecodable => simp [deserialize, DescribedBy]

section

variable {α : Type} {read : Json → Option α} {values values' : List Json}

theorem HasOne.of_perm {a : α} (h : HasOne read values' a) (hperm : values.Perm values') :
    HasOne read values a := by
  obtain ⟨value, rfl, hread⟩ := h
  exact ⟨value, List.perm_singleton.mp hperm, hread⟩

theorem HasAtMostOne.of_perm {a : Option α} (h : HasAtMostOne read values' a)
    (hperm : values.Perm values') : HasAtMostOne read values a := by
  rcases h with ⟨rfl, ha⟩ | hone
  · exact Or.inl ⟨hperm.eq_nil, ha⟩
  · exact Or.inr (hone.of_perm hperm)

end

variable {config : QueueConfig}

theorem Describes.of_perm {values values' : String → List Json} (h : Describes values' config)
    (hperm : ∀ name ∈ fieldNames, (values name).Perm (values' name)) : Describes values config where
  replayQueueArn := h.replayQueueArn.of_perm (hperm _ (by simp [fieldNames]))
  destinationQueueUrl := h.destinationQueueUrl.of_perm (hperm _ (by simp [fieldNames]))
  maxAttempts := h.maxAttempts.of_perm (hperm _ (by simp [fieldNames]))
  backoffRate := h.backoffRate.of_perm (hperm _ (by simp [fieldNames]))
  maximumDelay := h.maximumDelay.of_perm (hperm _ (by simp [fieldNames]))
  useJitter := h.useJitter.of_perm (hperm _ (by simp [fieldNames]))

def number (n : UInt32) : Json := .number (Nat.toDigits 10 n.toNat)

/-- The members of a configuration in the order of the struct, without those that are not set. -/
def encode (config : QueueConfig) : List (String × Json) :=
  [("replayQueueArn", .string config.replayQueueArn),
    ("destinationQueueUrl", .string config.destinationQueueUrl)] ++
  (optionalMember "maxAttempts" (config.maxAttempts.map number) ++
    (optionalMember "backoffRate" (config.backoffRateSeconds.map number) ++
      (optionalMember "maximumDelay" (config.maximumDelaySeconds.map number) ++
        optionalMember "useJitter" (config.useJitter.map Json.bool))))

theorem readU32_encoded (n : UInt32) : readU32 (number n) = some n := by
  rw [number, readU32, DecimalText.digitsValue_toDigits, Option.bind_some, DecimalText.toU32_toNat]

theorem valuesOf_cons (key name : String) (value : Json) (members : List (String × Json)) :
    valuesOf ((key, value) :: members) name =
      if key = name then value :: valuesOf members name else valuesOf members name := by
  by_cases h : key = name <;> simp [valuesOf, h]

theorem valuesOf_append (members members' : List (String × Json)) (name : String) :
    valuesOf (members ++ members') name = valuesOf members name ++ valuesOf members' name := by
  rw [valuesOf, List.filter_append, List.map_append]
  rfl

theorem valuesOf_optionalMember (key name : String) (value : Option Json) :
    valuesOf (optionalMember key value) name = if key = name then value.toList else [] := by
  cases value <;> by_cases h : key = name <;> simp [valuesOf, optionalMember, h]

theorem hasAtMostOne_encoded {α : Type} {read : Json → Option α} {write : α → Json}
    (hread : ∀ a, readOption read (write a) = some (some a)) (a : Option α) :
    HasAtMostOne read (a.map write).toList a := by
  cases a with
  | none => exact Or.inl ⟨rfl, rfl⟩
  | some a => exact Or.inr ⟨write a, rfl, hread a⟩

theorem describes_encode (config : QueueConfig) : Describes (valuesOf config.encode) config := by
  have hnumber : ∀ n, readOption readU32 (number n) = some (some n) :=
    fun n => congrArg (Option.map some) (readU32_encoded n)
  have hbool : ∀ b, readOption readBool (Json.bool b) = some (some b) := fun _ => rfl
  constructor <;>
    simp [encode, valuesOf_cons, valuesOf_append, valuesOf_optionalMember, HasOne, readString,
      hasAtMostOne_encoded, hnumber, hbool]

theorem number_wellFormed (n : UInt32) : Json.WellFormed (number n) := by
  have hint : Json.IsInteger (Nat.toDigits 10 n.toNat) := by
    rcases Nat.eq_zero_or_pos n.toNat with hzero | hpos
    · exact Or.inl (by rw [hzero]; rfl)
    · exact Or.inr ⟨Nat.toDigits_ne_nil, ShortestDecimal.head_toDigits_ne_zero _ hpos,
        DecimalText.toDigits_all_isDigit _⟩
  have hnumber := (Json.isNumber_of_parts hint (Or.inl rfl) (Or.inl rfl)).1
  rw [List.append_nil, List.append_nil] at hnumber
  exact hnumber

theorem encode_wellFormed (config : QueueConfig) : Json.WellFormedMembers config.encode := by
  refine wellFormed_append ⟨trivial, trivial, trivial⟩ ?_
  refine wellFormed_append (wellFormed_optionalMember _ _ number_wellFormed) ?_
  refine wellFormed_append (wellFormed_optionalMember _ _ number_wellFormed) ?_
  refine wellFormed_append (wellFormed_optionalMember _ _ number_wellFormed) ?_
  exact wellFormed_optionalMember _ _ (fun _ => trivial)

def known (members : List (String × Json)) : List (String × Json) :=
  members.filter (fun member => decide (member.1 ∈ fieldNames))

theorem valuesOf_known {members : List (String × Json)} {name : String} (h : name ∈ fieldNames) :
    valuesOf (known members) name = valuesOf members name := by
  rw [valuesOf, known, List.filter_filter, valuesOf]
  congr 1
  refine List.filter_congr ?_
  intro member _
  by_cases hname : member.1 = name <;> simp [hname, h]

theorem fromStr_of_known_perm {members : List (String × Json)}
    (hwf : Json.WellFormedMembers members) (hperm : (known members).Perm config.encode) :
    fromStr (Json.stringify (.object members)) = some config := by
  rw [fromStr, Json.parse_stringify (.object members) hwf, Option.bind_some,
    deserialize_eq_some_iff]
  refine (describes_encode config).of_perm ?_
  intro name hname
  rw [← valuesOf_known hname]
  exact (hperm.filter _).map _

/-- The format of a stored configuration. A text is accepted exactly when it is a JSON object in
which each field finds one readable value under its name, or at most one when it is optional, or an
array that gives them by position. Every configuration can be stored, its members in any order and
between other members, and a text that is accepted can be replaced by any other text of the same
JSON value. -/
theorem config_format :
    (∀ text config, fromStr text = some config ↔
      ∃ json, Json.parse text = some json ∧ DescribedBy config json) ∧
    (∀ config : QueueConfig, fromStr (Json.stringify (.object config.encode)) = some config) ∧
    (∀ (config : QueueConfig) members, Json.WellFormedMembers members →
      (known members).Perm config.encode →
      fromStr (Json.stringify (.object members)) = some config) ∧
    ∀ text json, Json.parse text = some json → fromStr (Json.stringify json) = fromStr text := by
  refine ⟨?_, ?_, fun config members => fromStr_of_known_perm, ?_⟩
  · intro text config
    simp only [fromStr, Option.bind_eq_some_iff, deserialize_eq_some_iff]
  · intro config
    rw [fromStr, Json.parse_stringify (.object config.encode) config.encode_wellFormed,
      Option.bind_some, deserialize_eq_some_iff]
    exact describes_encode config
  · intro text json h
    rw [fromStr, fromStr, Json.parse_stringify_of_parse h, h]

/-- Members in the other order, after one that the deserializer skips. -/
def reversedMembers : List (String × Json) :=
  [("note", .undecodable), ("useJitter", .bool true), ("maxAttempts", number 3),
    ("destinationQueueUrl", .string "url"), ("replayQueueArn", .string "arn")]

theorem config_format_sample :
    fromStr (Json.stringify (.object reversedMembers)) =
      some ⟨"arn", "url", some 3, none, none, some true⟩ := by
  have hwf : Json.WellFormedMembers reversedMembers :=
    ⟨trivial, trivial, number_wellFormed 3, trivial, trivial, trivial⟩
  refine config_format.2.2.1 _ _ hwf ?_
  have hknown : known reversedMembers =
      (encode ⟨"arn", "url", some 3, none, none, some true⟩).reverse := by
    simp [known, reversedMembers, fieldNames, encode, optionalMember]
  rw [hknown]
  exact List.reverse_perm _

end ReplayBackoff.QueueConfig
