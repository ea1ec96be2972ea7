import ReplayBackoff.ReplayChain

/-!
# The delay of a sent entry

The documented delay of an attempt is the capped exponential over the natural numbers, with each
setting taken from the stored configuration or else from the environment. The parser bounds the
delay of the environment and `resolve` clamps the stored one, so the delay of every request fits
the message timer limit. The cast to a signed number then leaves it as it is.
-/

namespace ReplayBackoff

/-- The cap on the delay: the stored one up to 900 seconds, or else the one of the environment. -/
def documentedMaximum (config : QueueConfig) (env : Environment) : ℕ :=
  match config.maximumDelaySeconds with
  | some delay => min delay.toNat 900
  | none => env.maximumDelaySeconds.toNat

def documentedDelay (config : QueueConfig) (env : Environment) (attempt : ℕ) : ℕ :=
  min (documentedMaximum config env)
    ((config.backoffRateSeconds.getD env.backoffRateSeconds).toNat * 2 ^ attempt)

variable {env : Environment}

theorem maximumDelaySeconds_le_of_parse {values : Environment.Variables}
    (h : Environment.parse values = .ok env) :
    env.maximumDelaySeconds ≤ maximumDelayLimitSeconds := by
  obtain ⟨-, -, -, -, hdelay, -⟩ := (Environment.parse_ok_iff values env).mp h
  exact ((Environment.maximumDelay_ok_iff values _).mp hdelay).2

theorem toNat_resolve_maximumDelaySeconds (config : QueueConfig) (env : Environment) :
    (config.resolve env).maximumDelaySeconds.toNat = documentedMaximum config env := by
  unfold QueueConfig.resolve documentedMaximum
  cases config.maximumDelaySeconds with
  | none => rfl
  | some delay =>
    change (min delay maximumDelayLimitSeconds).toNat = _
    rw [toNat_min]
    rfl

theorem toInt_toInt32 {n : UInt32} (h : n.toNat < 2147483648) : n.toInt32.toInt = n.toNat := by
  have hsmall : 2 * n.toBitVec.toNat < 2 ^ 32 := by
    change 2 * n.toNat < 2 ^ 32
    omega
  rw [← Int32.toInt_toBitVec, UInt32.toBitVec_toInt32, BitVec.toInt_eq_toNat_of_lt hsmall]
  rfl

section

variable (rng : Rng) (config : QueueConfig) (attempt : UInt32)

theorem delaySeconds_resolve_le_limit (h : env.maximumDelaySeconds ≤ maximumDelayLimitSeconds) :
    (delaySeconds rng (config.resolve env) attempt).toNat ≤ 900 := by
  have hmaximum := delaySeconds_le_maximum rng (config.resolve env) attempt
  have hlimit := config.resolve_maximumDelaySeconds_le h
  exact UInt32.le_iff_toNat_le.mp (UInt32.le_trans hmaximum hlimit)

theorem delaySeconds_resolve_eq (hjitter : config.useJitter.getD env.useJitter = false) :
    (delaySeconds rng (config.resolve env) attempt).toNat =
      documentedDelay config env attempt.toNat := by
  rw [toNat_delaySeconds hjitter, toNat_resolve_maximumDelaySeconds]
  rfl

theorem delaySeconds_resolve_le :
    (delaySeconds rng (config.resolve env) attempt).toNat ≤
      documentedDelay config env attempt.toNat := by
  have hexact : (backoff (config.resolve env).backoffRateSeconds
      (config.resolve env).maximumDelaySeconds attempt).toNat =
        documentedDelay config env attempt.toNat := by
    rw [toNat_backoff, toNat_resolve_maximumDelaySeconds]
    rfl
  rw [← hexact, ← UInt32.le_iff_toNat_le]
  unfold delaySeconds
  dsimp only
  split_ifs
  · apply backoffWithJitter_le
  · apply UInt32.le_refl

end

/-- Every delay sent is valid and is the documented one. The batch entry of a request for attempt
`k` carries the delay of the request, at most 900 seconds. Without jitter it is the documented delay
of attempt `k`, with jitter at most that. -/
theorem sent_delay_documented (values : Environment.Variables) (env : Environment)
    (hparse : Environment.parse values = .ok env) (config : QueueConfig) (rng : Rng)
    (record : SqsMessage) (id : String) (request : ReplayRequest)
    (hbuild : buildReplayRequest rng (config.resolve env) record = .ok (some request)) :
    ∃ n k : UInt32, CarriesCount record n ∧ k = n + 1 ∧
      request.messageAttributes.lookup "sqs-dlq-replay-num" = some (countAttribute k) ∧
      ∃ delay, (toBatchEntry id request).delaySeconds = some delay ∧
        0 ≤ delay.toInt ∧ delay.toInt ≤ 900 ∧ delay.toInt = request.delaySeconds.toNat ∧
        (config.useJitter.getD env.useJitter = false →
          request.delaySeconds.toNat = documentedDelay config env k.toNat) ∧
        (config.useJitter.getD env.useJitter = true →
          request.delaySeconds.toNat ≤ documentedDelay config env k.toNat) := by
  obtain ⟨n, body, hn, -, -, rfl⟩ := buildReplayRequest_some_iff.mp hbuild
  have hlimit := delaySeconds_resolve_le_limit rng config (n + 1)
    (maximumDelaySeconds_le_of_parse hparse)
  have hcast := toInt_toInt32 (hlimit.trans_lt (show 900 < 2147483648 by decide))
  refine ⟨n, n + 1, replayNum_ok_iff.mp hn, rfl, lookup_count record.messageAttributes (n + 1), _,
    rfl, ?_, ?_, hcast, ?_, ?_⟩
  · change 0 ≤ (delaySeconds rng (config.resolve env) (n + 1)).toInt32.toInt
    rw [hcast]
    omega
  · change (delaySeconds rng (config.resolve env) (n + 1)).toInt32.toInt ≤ 900
    rw [hcast]
    omega
  · exact delaySeconds_resolve_eq rng config (n + 1)
  · intro _
    exact delaySeconds_resolve_le rng config (n + 1)

theorem sent_delay_documented_sample :
    ∃ delay, (toBatchEntry "m" (requestFor default
        (QueueConfig.resolve ⟨"arn", "url", none, none, some 5000, none⟩
          ⟨"/sqs-replay/queues/", 5, 30, 900, false⟩)
        ⟨none, some "hello", ∅, ∅, none⟩ "hello" 1)).delaySeconds = some delay ∧
      delay.toInt = 60 := by
  obtain ⟨n, k, hn, hk, -, delay, hdelay, -, -, hsame, hexact, -⟩ :=
    sent_delay_documented ∅ ⟨"/sqs-replay/queues/", 5, 30, 900, false⟩ (by decide)
      ⟨"arn", "url", none, none, some 5000, none⟩ default ⟨none, some "hello", ∅, ∅, none⟩ "m"
      (requestFor default
        (QueueConfig.resolve ⟨"arn", "url", none, none, some 5000, none⟩
          ⟨"/sqs-replay/queues/", 5, 30, 900, false⟩)
        ⟨none, some "hello", ∅, ∅, none⟩ "hello" 1) (by rfl)
  have hn : n = 0 := hn
  subst hn
  subst hk
  refine ⟨delay, hdelay, ?_⟩
  rw [hsame, hexact rfl]
  rfl

end ReplayBackoff
