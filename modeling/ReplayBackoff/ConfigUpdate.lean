import ReplayBackoff.ConstructedReplay

/-!
# When an update takes effect

The parameters under the path change while the Lambda runs, and a load may see an older state of
them than a later one does. Once every load that starts agrees about an ARN, the invocations go on
with the configurations of older loads until the cache is over its time to live, and no longer: from
then on each of them replays under the new configuration, or not at all when there is none.
-/

namespace ReplayBackoff

open SnapshotCache

def LoadsWithin (duration : ℕ) (invs : List Invocation) : Prop :=
  ∀ inv ∈ invs, ∀ k load, (inv.lookups k).answers.parameters = .ok load →
    (inv.lookups k).loadedAt ≤ (inv.lookups k).checkedAt + duration

/-- What the successful loads give that start at a time or later. -/
def LoadsFrom (time : Instant) (P : List Parameter → Prop) (invs : List Invocation) : Prop :=
  ∀ inv ∈ invs, ∀ k load, time ≤ (inv.lookups k).checkedAt →
    (inv.lookups k).answers.parameters = .ok load → P load

/-- From the given time on every load has the same configuration for the ARN, or none. -/
def UpdatedFrom (time : Instant) (arn : String) (config : Option QueueConfig)
    (invs : List Invocation) : Prop :=
  LoadsFrom time (fun load => lastConfig load arn = config) invs

variable {env : Environment} {path arn : String} {history invs : List Invocation}
  {inv : Invocation} {time : Instant} {duration : ℕ} {P : List Parameter → Prop}
  {resolved : Resolved}

theorem loaded_since (hwithin : LoadsWithin duration invs) (hfrom : LoadsFrom time P invs)
    (hinv : inv ∈ invs) {k : ℕ} {load : List Parameter}
    (hload : (inv.lookups k).answers.parameters = .ok load) :
    Since (time + duration) P ((inv.lookups k).loadedAt, load) := by
  intro hlate
  have hdone := hwithin inv hinv k load hload
  have hstart : time < (inv.lookups k).checkedAt :=
    Nat.lt_of_add_lt_add_right (hlate.trans_le hdone)
  exact hfrom inv hinv k load hstart.le hload

/-- The cache holds a value from before the update has reached the loads, or an updated one. -/
theorem slotFor_since (hwithin : LoadsWithin duration history) (hfrom : LoadsFrom time P history) :
    ∀ s, slotFor history = some s → Since (time + duration) P s := by
  induction history using List.reverseRecOn with
  | nil => simp [slotFor]
  | append_singleton history last ih =>
    have hslot := ih (fun i hi => hwithin i (List.mem_append_left _ hi))
      (fun i hi => hfrom i (List.mem_append_left _ hi))
    have hlast : last ∈ history ++ [last] := List.mem_append_right _ (List.mem_singleton.mpr rfl)
    rw [slotFor, List.foldl_append]
    refine (@answerRecords_keeps (fun _ => True) _ last.lookups cacheTtl 0 last.records _ ∅ hslot
      (fun k load hload => loaded_since hwithin hfrom hlast hload) ?_ ?_).1
    · exact fun _ _ _ _ _ => trivial
    · exact fun _ _ _ => trivial

theorem eventLoads_updated (hwithin : LoadsWithin duration (history ++ [inv]))
    (hfrom : LoadsFrom time P (history ++ [inv]))
    (hlate : ∀ k, time + duration + cacheTtl ≤ (inv.lookups k).checkedAt) {load : List Parameter}
    (h : (eventLoads history inv).lookup arn = some load) : P load := by
  have hinv : inv ∈ history ++ [inv] := List.mem_append_right _ (List.mem_singleton.mpr rfl)
  have hslot := slotFor_since (fun i hi => hwithin i (List.mem_append_left _ hi))
    (fun i hi => hfrom i (List.mem_append_left _ hi))
  have hnew : ∀ k load, (inv.lookups k).answers.parameters = .ok load → P load := by
    intro k load hload
    have hstart : time ≤ (inv.lookups k).checkedAt :=
      (Nat.le_add_right time _).trans ((Nat.le_add_right _ _).trans (hlate k))
    exact hfrom inv hinv k load hstart hload
  have hpass := @answerRecords_keeps P _ inv.lookups cacheTtl 0 inv.records _ ∅ hslot
    (fun k load hload => loaded_since hwithin hfrom hinv hload)
    (fun k slot s hs hanswer => answer_since hs (hlate k) (hnew k) hanswer)
    (fun arn load hnone => by cases hnone)
  unfold eventLoads at h
  cases hanswer : (answerPass (slotFor history) inv).1 with
  | ok answering =>
    rw [hanswer] at h
    exact hpass.2 answering hanswer arn load h
  | error e =>
    rw [hanswer] at h
    cases h

def usedBy (resolved : Resolved) (arn : String) : Option ResolvedQueueConfig :=
  (resolved.lookup arn).join

theorem resolves_usedBy {store : ConfigStore}
    (h : (resolvePass env store inv).result = .ok resolved) :
    Resolves resolved (usedBy resolved) inv := by
  intro record hrecord arn harn
  obtain ⟨settings, hsettings⟩ :=
    (HashMap.mem_iff_exists_lookup _ arn).mp (resolvePass_covers h record hrecord arn harn)
  rw [usedBy, hsettings]
  rfl

/-- An update takes effect. When loads take no longer than `duration` and those that start at `time`
or later agree about an ARN, every successful invocation that checks the cache sixty seconds after
`time + duration` or later treats its records under settings in which the ARN has the new
configuration, whatever the loads before have given, and whatever they give for other ARNs. -/
theorem updates_take_effect {env : Environment} {path : String} {history : List Invocation}
    {inv : Invocation} {response : BatchResponse} {duration : ℕ}
    (hwithin : LoadsWithin duration (history ++ [inv]))
    (hok : (handle env (storeFor env path history) inv).result = .ok response) :
    ∃ used : String → Option ResolvedQueueConfig,
      (∀ record ∈ inv.records, ∀ arn time config, record.eventSourceArn = some arn →
        UpdatedFrom time arn config (history ++ [inv]) →
        (∀ k, time + duration + 60000000000 ≤ (inv.lookups k).checkedAt) →
        used arn = config.map (·.resolve env)) ∧
      (handle env (storeFor env path history) inv).calls =
        sendCalls inv.sqs inv.order (sendsUnder used inv) ∧
      response = ⟨(failuresUnder used inv ++
        (sendCalls inv.sqs inv.order (sendsUnder used inv)).flatMap (·.reported)).map
          BatchItemFailure.mk⟩ := by
  obtain ⟨resolved, hresolve⟩ := handle_ok_iff_resolve_ok.mp ⟨response, hok⟩
  have hresolves := resolves_usedBy hresolve
  obtain ⟨hcalls, hresult⟩ := handle_of_resolve_ok hresolve
  rw [passSends_eq hresolves] at hcalls hresult
  rw [passFailures_eq hresolves, hok] at hresult
  refine ⟨usedBy resolved, ?_, hcalls, Except.ok.inj hresult⟩
  intro record hrecord arn time config harn hupdated hlate
  have hagree := agree_eventLoads path history hresolve
  have hmem := resolvePass_covers hresolve record hrecord arn harn
  obtain ⟨load, hload⟩ := (HashMap.mem_iff_exists_lookup _ arn).mp ((hagree.mem_iff arn).mp hmem)
  have hconfig : lastConfig load arn = config := eventLoads_updated hwithin hupdated hlate hload
  rw [usedBy, hagree arn, hload, Option.map_some, hconfig]
  rfl

def earlyInvocation : Invocation :=
  { sampleInvocation [sampleRecord (some "id-1")] with lookups := fun _ => ⟨0, .last none, 5⟩ }

def lateInvocation : Invocation :=
  { sampleInvocation [sampleRecord (some "id-1")] with
    lookups := fun _ => ⟨60000000006, .last (some [storedParameter]), 60000000008⟩ }

theorem updates_take_effect_sample :
    ∃ used : String → Option ResolvedQueueConfig,
      used "arn:aws:sqs:ReplayQueue" = some (storedConfig.resolve sampleEnvironment) ∧
      (handle sampleEnvironment
        (storeFor sampleEnvironment "/sqs-replay/queues/" [earlyInvocation]) lateInvocation).calls =
          sendCalls lateInvocation.sqs lateInvocation.order (sendsUnder used lateInvocation) := by
  obtain ⟨hrep, httl⟩ := handle_history_represents sampleEnvironment
    (ConfigStore.new_represents "/sqs-replay/queues/") rfl [earlyInvocation]
  have hpass := resolvePass_refines sampleEnvironment hrep httl lateInvocation
  obtain ⟨resolved, hresolved, -⟩ := hpass.ok _ rfl
  have hok := (handle_of_resolve_ok hresolved).2
  have hwithin : LoadsWithin 5 ([earlyInvocation] ++ [lateInvocation]) := by
    intro inv hinv k load _
    rcases List.mem_pair.mp hinv with rfl | rfl <;>
      simp [earlyInvocation, lateInvocation]
  have hupdated : UpdatedFrom 1 "arn:aws:sqs:ReplayQueue" (some storedConfig)
      ([earlyInvocation] ++ [lateInvocation]) := by
    intro inv hinv k load hstart hload
    rcases List.mem_pair.mp hinv with rfl | rfl
    · exact absurd hstart (by simp [earlyInvocation])
    · obtain rfl := Except.ok.inj hload
      exact lastConfig_stored
  obtain ⟨used, hused, hcalls, -⟩ := updates_take_effect hwithin hok
  exact ⟨used, hused _ (List.mem_singleton.mpr rfl) _ 1 _ rfl hupdated (fun _ => le_rfl), hcalls⟩

end ReplayBackoff
