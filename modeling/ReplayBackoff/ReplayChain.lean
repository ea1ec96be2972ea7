import ReplayBackoff.Hops

/-!
# Length and schedule of a replay chain

A record with count `n` under an attempt limit `M` goes through `M - n` hops. The request of hop
`i` carries the count `n + i + 1`, and without jitter its delay is the exact capped exponential of
that count. After the last hop every redelivery is exhausted.

The increment wraps at the largest 32-bit count, so both `n` and `M` have to be below it.
-/

namespace ReplayBackoff

open DecimalText

/-- The count of a record. A missing attribute, or one without a string value, counts as zero. -/
def CarriesCount (record : SqsMessage) (n : UInt32) : Prop :=
  match (record.messageAttributes.lookup replayNumPropertyName).bind (·.stringValue) with
  | none => n = 0
  | some value => parseU32 value = some n

theorem replayNum_ok_iff {record : SqsMessage} {n : UInt32} :
    replayNum record = .ok n ↔ CarriesCount record n := by
  unfold replayNum CarriesCount
  cases (record.messageAttributes.lookup replayNumPropertyName).bind (·.stringValue) with
  | none =>
    have hzero : parseU32 "0" = some 0 := by decide
    simp [hzero, eq_comm]
  | some value =>
    cases hparse : parseU32 value <;> simp [hparse]

theorem delaySeconds_le_maximum (rng : Rng) (config : ResolvedQueueConfig) (attempt : UInt32) :
    delaySeconds rng config attempt ≤ config.maximumDelaySeconds := by
  unfold delaySeconds
  dsimp only
  split_ifs
  · exact UInt32.le_trans (backoffWithJitter_le rng _ _ _) (backoff_le_max _ _ _)
  · exact backoff_le_max _ _ _

theorem toNat_delaySeconds {config : ResolvedQueueConfig} (hjitter : config.useJitter = false)
    (rng : Rng) (attempt : UInt32) :
    (delaySeconds rng config attempt).toNat =
      min config.maximumDelaySeconds.toNat
        (config.backoffRateSeconds.toNat * 2 ^ attempt.toNat) := by
  simp only [delaySeconds, hjitter, Bool.false_eq_true, if_false, toNat_backoff]

theorem toNat_add_one {n : UInt32} (hn : n.toNat < 4294967295) : (n + 1).toNat = n.toNat + 1 := by
  rw [UInt32.toNat_add]
  exact Nat.mod_eq_of_lt (by simpa using Nat.succ_lt_succ hn)

namespace Hops

variable {h : Hops} {first record : SqsMessage} {n : UInt32} {i : ℕ}

/-- The number of requests the chain produces. -/
def length (h : Hops) (n : UInt32) : ℕ := h.config.maxAttempts.toNat - n.toNat

section

variable (hret : h.ReturnsMessages) (hlimit : h.config.maxAttempts.toNat < 4294967295)
  (hcount : CarriesCount first n) (hn : n.toNat < 4294967295)

include hret hlimit hcount hn

theorem count_recordAt (hi : i ≤ h.length n) (hrecord : h.recordAt first i = some record) :
    ∃ m, replayNum record = .ok m ∧ m.toNat = n.toNat + i ∧ m.toNat < 4294967295 := by
  have hlt : n.toNat + i < 4294967295 := by
    rw [length] at hi
    omega
  refine ⟨_, replayNum_recordAt hret (replayNum_ok_iff.mpr hcount) hrecord, ?_⟩
  have htoNat : (n + UInt32.ofNat i).toNat = n.toNat + i := by
    rw [UInt32.toNat_add, UInt32.toNat_ofNat']
    omega
  rw [htoNat]
  exact ⟨rfl, hlt⟩

theorem build_of_lt {body : String} (hbody : first.body = some body) (hi : i < h.length n)
    (hrecord : h.recordAt first i = some record) :
    ∃ m, m.toNat = n.toNat + (i + 1) ∧
      buildReplayRequest (h.rng i) h.config record =
        .ok (some (requestFor (h.rng i) h.config record body m)) := by
  obtain ⟨m, hm, hmn, hmlt⟩ := count_recordAt hret hlimit hcount hn hi.le hrecord
  have hsucc := toNat_add_one hmlt
  refine ⟨m + 1, by omega, buildReplayRequest_some_iff.mpr ⟨m, body, hm, ?_, ?_, rfl⟩⟩
  · rw [UInt32.le_iff_toNat_le, hsucc, hmn]
    rw [length] at hi
    omega
  · rw [body_recordAt hret hrecord, hbody]

theorem build_at_length (rng : Rng) (hrecord : h.recordAt first (h.length n) = some record) :
    buildReplayRequest rng h.config record = .ok none := by
  obtain ⟨m, hm, hmn, hmlt⟩ := count_recordAt hret hlimit hcount hn le_rfl hrecord
  refine buildReplayRequest_none_iff.mpr ⟨m, hm, ?_⟩
  rw [UInt32.lt_iff_toNat_lt, toNat_add_one hmlt, hmn, length]
  omega

theorem exists_recordAt {body : String} (hbody : first.body = some body) (hi : i ≤ h.length n) :
    ∃ record, h.recordAt first i = some record := by
  induction i with
  | zero => exact ⟨first, rfl⟩
  | succ i ih =>
    obtain ⟨record, hrecord⟩ := ih (Nat.le_of_succ_le hi)
    obtain ⟨m, -, hbuild⟩ := build_of_lt hret hlimit hcount hn hbody hi hrecord
    exact ⟨_, h.recordAt_succ_eq_some_iff.mpr
      ⟨_, h.requestAt_eq_some_iff.mpr ⟨record, hrecord, hbuild⟩, rfl⟩⟩

theorem le_length_of_recordAt (hrecord : h.recordAt first i = some record) : i ≤ h.length n := by
  induction i generalizing record with
  | zero => exact Nat.zero_le _
  | succ i ih =>
    obtain ⟨request, hrequest, rfl⟩ := h.recordAt_succ_eq_some_iff.mp hrecord
    obtain ⟨previous, hprevious, hbuild⟩ := h.requestAt_eq_some_iff.mp hrequest
    rcases (ih hprevious).lt_or_eq with hlt | rfl
    · exact hlt
    · rw [build_at_length hret hlimit hcount hn _ hprevious] at hbuild
      cases hbuild

theorem exists_requestAt_iff {body : String} (hbody : first.body = some body) :
    (∃ request, h.requestAt first i = some request) ↔ i < h.length n := by
  constructor
  · rintro ⟨request, hrequest⟩
    exact le_length_of_recordAt hret hlimit hcount hn
      (h.recordAt_succ_eq_some_iff.mpr ⟨request, hrequest, rfl⟩)
  · intro hi
    obtain ⟨record, hrecord⟩ := exists_recordAt hret hlimit hcount hn hbody hi.le
    obtain ⟨m, -, hbuild⟩ := build_of_lt hret hlimit hcount hn hbody hi hrecord
    exact ⟨_, h.requestAt_eq_some_iff.mpr ⟨record, hrecord, hbuild⟩⟩

theorem requestAt_eq {body : String} (hbody : first.body = some body) {request : ReplayRequest}
    (hrequest : h.requestAt first i = some request) :
    ∃ m record, m.toNat = n.toNat + (i + 1) ∧
      request = requestFor (h.rng i) h.config record body m := by
  have hi := (exists_requestAt_iff hret hlimit hcount hn hbody).mp ⟨request, hrequest⟩
  obtain ⟨record, hrecord, hbuild⟩ := h.requestAt_eq_some_iff.mp hrequest
  obtain ⟨m, hm, hbuild'⟩ := build_of_lt hret hlimit hcount hn hbody hi hrecord
  rw [hbuild'] at hbuild
  exact ⟨m, record, hm, (Option.some.inj (Except.ok.inj hbuild)).symm⟩

end

/-- The delays of the schedule never decrease. -/
theorem schedule_mono (maximum rate : ℕ) {a b : ℕ} (hab : a ≤ b) :
    min maximum (rate * 2 ^ a) ≤ min maximum (rate * 2 ^ b) :=
  min_le_min_left _ (Nat.mul_le_mul_left _ (Nat.pow_le_pow_right (by decide) hab))

end Hops

open Hops in
/-- Length and schedule of a replay chain. The chain produces exactly `M - n` requests and is then
exhausted for good; request `i` carries the count `n + i + 1` as a decimal number, and without
jitter its delay is the capped exponential of that count, so the delays never decrease. -/
theorem replay_chain (h : Hops) (hret : h.ReturnsMessages)
    (hlimit : h.config.maxAttempts.toNat < 4294967295) (first : SqsMessage) (body : String)
    (hbody : first.body = some body) (n : UInt32) (hcount : CarriesCount first n)
    (hn : n.toNat < 4294967295) :
    (∀ i, (∃ request, h.requestAt first i = some request) ↔
      i < h.config.maxAttempts.toNat - n.toNat) ∧
    (∃ last, h.recordAt first (h.config.maxAttempts.toNat - n.toNat) = some last ∧
      ∀ rng again, again.messageAttributes = last.messageAttributes →
        buildReplayRequest rng h.config again = .ok none) ∧
    (∀ i request, h.requestAt first i = some request →
      request.messageAttributes.lookup "sqs-dlq-replay-num" =
        some ⟨some (toString (n.toNat + (i + 1))), none, none, none, "Number"⟩ ∧
      request.delaySeconds ≤ h.config.maximumDelaySeconds ∧
      (h.config.useJitter = false → request.delaySeconds.toNat =
        min h.config.maximumDelaySeconds.toNat
          (h.config.backoffRateSeconds.toNat * 2 ^ (n.toNat + (i + 1))))) ∧
    (h.config.useJitter = false → ∀ i j request later, i ≤ j →
      h.requestAt first i = some request → h.requestAt first j = some later →
      request.delaySeconds ≤ later.delaySeconds) := by
  have hdelay : h.config.useJitter = false → ∀ i request, h.requestAt first i = some request →
      request.delaySeconds.toNat = min h.config.maximumDelaySeconds.toNat
        (h.config.backoffRateSeconds.toNat * 2 ^ (n.toNat + (i + 1))) := by
    intro hjitter i request hrequest
    obtain ⟨m, record, hm, rfl⟩ := requestAt_eq hret hlimit hcount hn hbody hrequest
    rw [requestFor, toNat_delaySeconds hjitter, hm]
  refine ⟨fun i => exists_requestAt_iff hret hlimit hcount hn hbody, ?_, ?_, ?_⟩
  · obtain ⟨last, hlast⟩ :=
      exists_recordAt hret hlimit hcount hn hbody (le_refl (h.length n))
    refine ⟨last, hlast, ?_⟩
    intro rng again hagain
    obtain ⟨m, hm, hlt⟩ :=
      buildReplayRequest_none_iff.mp (build_at_length hret hlimit hcount hn rng hlast)
    refine buildReplayRequest_none_iff.mpr ⟨m, ?_, hlt⟩
    rw [← hm, replayNum, replayNum, hagain]
  · intro i request hrequest
    refine ⟨?_, ?_, fun hjitter => hdelay hjitter i request hrequest⟩
    · obtain ⟨m, record, hm, rfl⟩ := requestAt_eq hret hlimit hcount hn hbody hrequest
      change (mapMessageAttributes record.messageAttributes m).lookup replayNumPropertyName = _
      rw [lookup_count, countAttribute, formatU32, hm]
    · obtain ⟨m, record, -, rfl⟩ := requestAt_eq hret hlimit hcount hn hbody hrequest
      exact delaySeconds_le_maximum _ _ _
  · intro hjitter i j request later hij hrequest hlater
    rw [UInt32.le_iff_toNat_le, hdelay hjitter i request hrequest, hdelay hjitter j later hlater]
    exact schedule_mono _ _ (by omega)

theorem replay_chain_sample :
    (∀ i, (∃ request, sampleHops.requestAt ⟨none, some "hello", ∅, ∅, none⟩ i = some request) ↔
      i < 3) ∧
    ∀ request, sampleHops.requestAt ⟨none, some "hello", ∅, ∅, none⟩ 0 = some request →
      request.delaySeconds.toNat = 60 := by
  obtain ⟨hlength, -, hschedule, -⟩ := replay_chain sampleHops
    sampleHops_returnsEntries.returnsMessages (by decide) ⟨none, some "hello", ∅, ∅, none⟩ "hello"
    rfl 0 rfl (by decide)
  exact ⟨hlength, fun request hrequest => (hschedule 0 request hrequest).2.2 rfl⟩

end ReplayBackoff
