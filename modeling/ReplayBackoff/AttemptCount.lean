import ReplayBackoff.ReplayChain

/-!
# The attempt counter

The counter is a 32-bit number that the producer of a message can set. Its increment wraps in the
release profile and panics in a debug build. `buildReplayRequestIn` is the build of a request under
either profile, with `none` for a panic, and the release profile is `buildReplayRequest`.

Over the natural numbers a record with count `n` has another attempt exactly when `n + 1` is within
the limit. The build agrees under both profiles, except at the largest count.
-/

namespace ReplayBackoff

open DecimalText

/-- The build profiles. Only a debug build checks its arithmetic for overflow. -/
inductive Profile where
  | release
  | debug
  deriving DecidableEq, Repr

def increment : Profile → UInt32 → Option UInt32
  | .release, n => some (n + 1)
  | .debug, n => if n.toNat + 1 < UInt32.size then some (n + 1) else none

def buildReplayRequestIn (profile : Profile) (rng : Rng) (config : ResolvedQueueConfig)
    (record : SqsMessage) : Option (Except ReplayError (Option ReplayRequest)) :=
  match replayNum record with
  | .error e => some (.error e)
  | .ok n =>
    (increment profile n).map (fun attempt =>
      if config.maxAttempts < attempt then .ok none
      else
        match record.body with
        | none => .error .missingBody
        | some body => .ok (some (requestFor rng config record body attempt)))

/-- The outcome for a record with count `n` is the one of the natural numbers: no panic, a request
with the count `n + 1` when that is within the limit, and no request otherwise. -/
structure CountsUp (profile : Profile) (rng : Rng) (config : ResolvedQueueConfig)
    (record : SqsMessage) (n : UInt32) : Prop where
  returns : ∃ outcome, buildReplayRequestIn profile rng config record = some outcome
  request_iff :
    (∃ request, buildReplayRequestIn profile rng config record = some (.ok (some request))) ↔
      n.toNat + 1 ≤ config.maxAttempts.toNat
  count : ∀ request, buildReplayRequestIn profile rng config record = some (.ok (some request)) →
    request.messageAttributes.lookup "sqs-dlq-replay-num" =
      some ⟨some (toString (n.toNat + 1)), none, none, none, "Number"⟩
  exhausted : ¬ n.toNat + 1 ≤ config.maxAttempts.toNat →
    buildReplayRequestIn profile rng config record = some (.ok none)

theorem buildReplayRequestIn_release (rng : Rng) (config : ResolvedQueueConfig)
    (record : SqsMessage) :
    buildReplayRequestIn .release rng config record =
      some (buildReplayRequest rng config record) := by
  unfold buildReplayRequestIn buildReplayRequest
  cases replayNum record <;> rfl

theorem toNat_lt_of_ne_max {n : UInt32} (h : n ≠ 4294967295) : n.toNat < 4294967295 := by
  have hsize := n.toNat_lt_size
  change n.toNat < 4294967296 at hsize
  have hne : n.toNat ≠ 4294967295 := fun heq => h (UInt32.toNat_inj.mp heq)
  omega

variable {profile : Profile} {rng : Rng} {config : ResolvedQueueConfig} {record : SqsMessage}
  {n : UInt32}

theorem increment_of_ne_max (profile : Profile) (h : n ≠ 4294967295) :
    increment profile n = some (n + 1) := by
  have hlt := toNat_lt_of_ne_max h
  cases profile with
  | release => rfl
  | debug =>
    have hfits : n.toNat + 1 < UInt32.size := by
      change n.toNat + 1 < 4294967296
      omega
    rw [increment, if_pos hfits]

theorem buildReplayRequestIn_of_ne_max (profile : Profile) (rng : Rng)
    (config : ResolvedQueueConfig) (hcount : CarriesCount record n) (h : n ≠ 4294967295) :
    buildReplayRequestIn profile rng config record =
      some (buildReplayRequest rng config record) := by
  unfold buildReplayRequestIn buildReplayRequest
  rw [replayNum_ok_iff.mpr hcount]
  dsimp only
  rw [increment_of_ne_max profile h]
  rfl

theorem countsUp_of_ne_max {body : String} (profile : Profile) (hbody : record.body = some body)
    (hcount : CarriesCount record n) (h : n ≠ 4294967295) :
    CountsUp profile rng config record n := by
  have hbuild := buildReplayRequestIn_of_ne_max profile rng config hcount h
  have hnum := replayNum_ok_iff.mpr hcount
  have hsucc := toNat_add_one (toNat_lt_of_ne_max h)
  refine ⟨⟨_, hbuild⟩, ?_, ?_, ?_⟩
  · simp only [hbuild, Option.some.injEq, buildReplayRequest_some_iff, ← hsucc,
      ← UInt32.le_iff_toNat_le]
    constructor
    · rintro ⟨request, m, body', hm, hle, -, -⟩
      obtain rfl := Except.ok.inj (hnum.symm.trans hm)
      exact hle
    · intro hle
      exact ⟨_, n, body, hnum, hle, hbody, rfl⟩
  · intro request hrequest
    rw [hbuild] at hrequest
    obtain ⟨m, body', hm, -, -, rfl⟩ := buildReplayRequest_some_iff.mp (Option.some.inj hrequest)
    obtain rfl := Except.ok.inj (hnum.symm.trans hm)
    change (mapMessageAttributes record.messageAttributes (n + 1)).lookup replayNumPropertyName = _
    rw [lookup_count, countAttribute, formatU32, hsucc]
  · intro hgt
    rw [hbuild, buildReplayRequest_none_iff.mpr ⟨n, hnum, ?_⟩]
    rw [UInt32.lt_iff_toNat_lt, hsucc]
    omega

/-- At the largest count no attempt is left, but the wrapped counter is within every limit. -/
theorem not_countsUp_max (hcount : CarriesCount record 4294967295) :
    ¬ CountsUp profile rng config record 4294967295 := by
  intro h
  have hlimit := config.maxAttempts.toNat_lt_size
  have hgt : ¬ (4294967295 : UInt32).toNat + 1 ≤ config.maxAttempts.toNat := Nat.not_le.mpr hlimit
  have hnone := h.exhausted hgt
  unfold buildReplayRequestIn at hnone
  rw [replayNum_ok_iff.mpr hcount] at hnone
  cases profile with
  | release =>
    have hzero : ¬ config.maxAttempts < 4294967295 + 1 := UInt32.not_lt.mpr UInt32.zero_le
    simp only [increment, Option.map_some, if_neg hzero] at hnone
    cases hbody : record.body <;> simp [hbody] at hnone
  | debug => cases hnone

/-- The counter is right under both profiles exactly below the largest count. -/
theorem countsUp_iff (profile : Profile) (rng : Rng) (config : ResolvedQueueConfig)
    (record : SqsMessage) (body : String) (hbody : record.body = some body) (n : UInt32)
    (hcount : CarriesCount record n) :
    CountsUp profile rng config record n ↔ n ≠ 4294967295 := by
  constructor
  · rintro h rfl
    exact not_countsUp_max hcount h
  · intro h
    exact countsUp_of_ne_max profile hbody hcount h

def recordCountedAs (text : String) : SqsMessage where
  messageId := some "id-1"
  body := some "hello"
  attributes := ∅
  messageAttributes :=
    HashMap.collect [(replayNumPropertyName, ⟨some text, none, [], [], some "Number"⟩)]
  eventSourceArn := none

theorem countsUp_iff_sample :
    CountsUp .debug default ⟨"url", 5, 30, 900, false⟩ (recordCountedAs "4") 4 :=
  (countsUp_iff .debug default ⟨"url", 5, 30, 900, false⟩ (recordCountedAs "4") "hello" rfl 4
    (replayNum_ok_iff.mp (by decide))).mpr (by decide)

/-- The largest count is replayed as a first message in the release profile, and a debug build
panics. -/
theorem largest_count_starts_over :
    CarriesCount (recordCountedAs "4294967295") 4294967295 ∧
      (∃ request, buildReplayRequestIn .release default ⟨"url", 5, 30, 900, false⟩
          (recordCountedAs "4294967295") = some (.ok (some request)) ∧
        request.messageAttributes.lookup "sqs-dlq-replay-num" =
          some ⟨some "0", none, none, none, "Number"⟩) ∧
      buildReplayRequestIn .debug default ⟨"url", 5, 30, 900, false⟩
        (recordCountedAs "4294967295") = none ∧
      ∀ profile, ¬ CountsUp profile default ⟨"url", 5, 30, 900, false⟩
        (recordCountedAs "4294967295") 4294967295 := by
  have hcount : CarriesCount (recordCountedAs "4294967295") 4294967295 :=
    replayNum_ok_iff.mp (by decide)
  refine ⟨hcount, ⟨_, rfl, by decide⟩, by decide, ?_⟩
  intro profile
  exact not_countsUp_max hcount

end ReplayBackoff
