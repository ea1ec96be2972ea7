import ReplayBackoff.ReplayBatch

/-!
# One invocation of the Lambda

`handle` resolves the configuration of each distinct replay queue ARN in order of first occurrence,
then decides for every record what becomes of it, then sends the requests. A record without a
request is a batch item failure, and so is an entry that SQS did not accept.

`Invocation` holds the event and everything the world decides while the invocation runs: the
lookups of the first pass in order, the random draws of the records by position, the order in which
the groups are visited, and the answers of SQS.
-/

namespace ReplayBackoff

structure Invocation where
  records : List SqsMessage
  lookups : ℕ → Lookup
  rng : ℕ → Rng
  order : GroupOrder
  sqs : Sqs

structure BatchItemFailure where
  itemIdentifier : String
  deriving DecidableEq, Repr

structure BatchResponse where
  batchItemFailures : List BatchItemFailure
  deriving DecidableEq, Repr

/-- Resolved configurations by ARN. An ARN without a stored configuration is kept with `none`. -/
abbrev Resolved := HashMap String (Option ResolvedQueueConfig)

/-- The first pass. The `k`th distinct ARN is looked up with the `k`th lookup. -/
def resolveRecords (env : Environment) (lookups : ℕ → Lookup) :
    ℕ → List SqsMessage → ConfigStore → Resolved → StoreCall Resolved
  | _, [], store, resolved => ⟨.ok resolved, store, []⟩
  | k, record :: rest, store, resolved =>
    match record.eventSourceArn with
    | none => resolveRecords env lookups k rest store resolved
    | some arn =>
      if arn ∈ resolved then resolveRecords env lookups k rest store resolved
      else
        match resolveConfig env store (lookups k) (some arn) with
        | ⟨.error e, store', requests⟩ => ⟨.error e, store', requests⟩
        | ⟨.ok config, store', requests⟩ =>
          let next := resolveRecords env lookups (k + 1) rest store' (resolved.insert arn config)
          { next with requests := requests ++ next.requests }

/-- What the second pass decides about a record. -/
inductive Disposition where
  | noArn
  | noConfig
  | exhausted
  | malformed (error : ReplayError)
  | replay (request : ReplayRequest)
  | unreachable
  deriving DecidableEq

def disposition (resolved : Resolved) (rng : Rng) (record : SqsMessage) : Disposition :=
  match record.eventSourceArn with
  | none => .noArn
  | some arn =>
    match resolved.lookup arn with
    | some (some config) =>
      match buildReplayRequest rng config record with
      | .ok (some request) => .replay request
      | .ok none => .exhausted
      | .error error => .malformed error
    | some none => .noConfig
    | none => .unreachable

/-- The id the second pass pushes onto the failures, if any. -/
def failureOf (resolved : Resolved) (rng : Rng) (record : SqsMessage) : Option String :=
  match disposition resolved rng record with
  | .replay _ => none
  | .unreachable => none
  | _ => record.messageId

/-- The entry the second pass pushes onto the sends. A record without an id is skipped. -/
def sendOf (resolved : Resolved) (rng : Rng) (record : SqsMessage) : Option Entry :=
  match disposition resolved rng record with
  | .replay request => record.messageId.map (fun id => (id, request))
  | _ => none

def passFailures (resolved : Resolved) (inv : Invocation) : List String :=
  inv.records.zipIdx.filterMap (fun item => failureOf resolved (inv.rng item.2) item.1)

def passSends (resolved : Resolved) (inv : Invocation) : List Entry :=
  inv.records.zipIdx.filterMap (fun item => sendOf resolved (inv.rng item.2) item.1)

def passUnreachable (resolved : Resolved) (inv : Invocation) : Bool :=
  inv.records.zipIdx.any (fun item => disposition resolved (inv.rng item.2) item.1 == .unreachable)

inductive HandleError where
  | config (error : ConfigError)
  | unreachable
  deriving DecidableEq, Repr

/-- What an invocation returns, the store it leaves behind, and its calls to SQS and SSM. -/
structure Handled where
  result : Except HandleError BatchResponse
  store : ConfigStore
  calls : List SendCall
  requests : List GetParametersByPathInput

def resolvePass (env : Environment) (store : ConfigStore) (inv : Invocation) : StoreCall Resolved :=
  resolveRecords env inv.lookups 0 inv.records store ∅

def handle (env : Environment) (store : ConfigStore) (inv : Invocation) : Handled :=
  match resolvePass env store inv with
  | ⟨.error e, store', requests⟩ => ⟨.error (.config e), store', [], requests⟩
  | ⟨.ok resolved, store', requests⟩ =>
    if passUnreachable resolved inv then ⟨.error .unreachable, store', [], requests⟩
    else
      let (calls, rejected) := sendReplayBatch inv.sqs inv.order (passSends resolved inv)
      let failures := passFailures resolved inv ++ rejected
      ⟨.ok ⟨failures.map BatchItemFailure.mk⟩, store', calls, requests⟩

section

variable {env : Environment} {lookups : ℕ → Lookup} {k : ℕ} {record : SqsMessage}
  {rest : List SqsMessage} {store : ConfigStore} {resolved : Resolved} {arn : String}

theorem resolveRecords_of_none (h : record.eventSourceArn = none) :
    resolveRecords env lookups k (record :: rest) store resolved =
      resolveRecords env lookups k rest store resolved := by
  rw [resolveRecords, h]

theorem resolveRecords_of_mem (h : record.eventSourceArn = some arn) (hmem : arn ∈ resolved) :
    resolveRecords env lookups k (record :: rest) store resolved =
      resolveRecords env lookups k rest store resolved := by
  rw [resolveRecords, h]
  exact if_pos hmem

theorem resolveRecords_of_error {e : ConfigError} (rest : List SqsMessage)
    (h : record.eventSourceArn = some arn) (hmem : arn ∉ resolved)
    (herror : (resolveConfig env store (lookups k) (some arn)).result = .error e) :
    (resolveRecords env lookups k (record :: rest) store resolved).result = .error e ∧
      (resolveRecords env lookups k (record :: rest) store resolved).store =
        (resolveConfig env store (lookups k) (some arn)).store := by
  rw [resolveRecords, h]
  dsimp only
  rw [if_neg hmem]
  generalize resolveConfig env store (lookups k) (some arn) = call at herror
  obtain ⟨result, store', requests⟩ := call
  obtain rfl : result = .error e := herror
  exact ⟨rfl, rfl⟩

theorem resolveRecords_of_ok {config : Option ResolvedQueueConfig} (rest : List SqsMessage)
    (h : record.eventSourceArn = some arn) (hmem : arn ∉ resolved)
    (hok : (resolveConfig env store (lookups k) (some arn)).result = .ok config) :
    (resolveRecords env lookups k (record :: rest) store resolved).result =
        (resolveRecords env lookups (k + 1) rest
          (resolveConfig env store (lookups k) (some arn)).store
          (resolved.insert arn config)).result ∧
      (resolveRecords env lookups k (record :: rest) store resolved).store =
        (resolveRecords env lookups (k + 1) rest
          (resolveConfig env store (lookups k) (some arn)).store
          (resolved.insert arn config)).store := by
  rw [resolveRecords, h]
  dsimp only
  rw [if_neg hmem]
  generalize resolveConfig env store (lookups k) (some arn) = call at hok
  obtain ⟨result, store', requests⟩ := call
  obtain rfl : result = .ok config := hok
  exact ⟨rfl, rfl⟩

end

theorem resolveRecords_covers {env : Environment} {lookups : ℕ → Lookup} {k : ℕ}
    {records : List SqsMessage} {store : ConfigStore} {resolved out : Resolved}
    (h : (resolveRecords env lookups k records store resolved).result = .ok out) :
    (∀ arn ∈ resolved, arn ∈ out) ∧
      ∀ record ∈ records, ∀ arn, record.eventSourceArn = some arn → arn ∈ out := by
  induction records generalizing k store resolved with
  | nil =>
    obtain rfl : resolved = out := by simpa [resolveRecords] using h
    exact ⟨fun _ h => h, by simp⟩
  | cons record rest ih =>
    simp only [List.forall_mem_cons]
    cases harn : record.eventSourceArn with
    | none =>
      rw [resolveRecords_of_none harn] at h
      obtain ⟨hkeep, hrest⟩ := ih h
      exact ⟨hkeep, by simp, hrest⟩
    | some a =>
      by_cases hmem : a ∈ resolved
      · rw [resolveRecords_of_mem harn hmem] at h
        obtain ⟨hkeep, hrest⟩ := ih h
        refine ⟨hkeep, ?_, hrest⟩
        intro arn hra
        exact hkeep arn (Option.some.inj hra ▸ hmem)
      · cases hlookup : (resolveConfig env store (lookups k) (some a)).result with
        | error e =>
          rw [(resolveRecords_of_error rest harn hmem hlookup).1] at h
          cases h
        | ok config =>
          rw [(resolveRecords_of_ok rest harn hmem hlookup).1] at h
          obtain ⟨hkeep, hrest⟩ := ih h
          refine ⟨fun arn hin => hkeep arn ((AList.mem_insert _).mpr (Or.inr hin)), ?_, hrest⟩
          intro arn hra
          exact hkeep arn ((AList.mem_insert _).mpr (Or.inl (Option.some.inj hra).symm))

theorem resolvePass_covers {env : Environment} {store : ConfigStore} {inv : Invocation}
    {resolved : Resolved} (h : (resolvePass env store inv).result = .ok resolved) :
    ∀ record ∈ inv.records, ∀ arn, record.eventSourceArn = some arn → arn ∈ resolved :=
  (resolveRecords_covers h).2

section

variable {resolved : Resolved} {rng : Rng} {record : SqsMessage}

theorem disposition_ne_unreachable (rng : Rng)
    (h : ∀ arn, record.eventSourceArn = some arn → arn ∈ resolved) :
    disposition resolved rng record ≠ .unreachable := by
  unfold disposition
  cases harn : record.eventSourceArn with
  | none => simp
  | some arn =>
    obtain ⟨config, hconfig⟩ := (HashMap.mem_iff_exists_lookup resolved arn).mp (h arn harn)
    simp only [hconfig]
    cases config with
    | none => simp
    | some config =>
      dsimp only
      split <;> simp

theorem passUnreachable_eq_false {inv : Invocation}
    (h : ∀ record ∈ inv.records, ∀ arn, record.eventSourceArn = some arn → arn ∈ resolved) :
    passUnreachable resolved inv = false := by
  rw [passUnreachable, List.any_eq_false]
  rintro ⟨record, i⟩ hmem
  have hrecord : record ∈ inv.records := List.fst_mem_of_mem_zipIdx hmem
  simpa using disposition_ne_unreachable (inv.rng i) (h record hrecord)

theorem disposition_replay_iff {request : ReplayRequest} :
    disposition resolved rng record = .replay request ↔
      ∃ arn config, record.eventSourceArn = some arn ∧ resolved.lookup arn = some (some config) ∧
        buildReplayRequest rng config record = .ok (some request) := by
  unfold disposition
  cases record.eventSourceArn with
  | none => simp
  | some arn =>
    cases hlook : resolved.lookup arn with
    | none => simp [hlook]
    | some entry =>
      cases entry with
      | none => simp [hlook]
      | some config =>
        simp only [Option.some.injEq, exists_and_left, exists_eq_left', hlook]
        cases hbuild : buildReplayRequest rng config record with
        | error e => simp
        | ok built => cases built <;> simp

theorem sendOf_eq_some_iff {id : String} {request : ReplayRequest} :
    sendOf resolved rng record = some (id, request) ↔
      record.messageId = some id ∧ disposition resolved rng record = .replay request := by
  unfold sendOf
  cases disposition resolved rng record with
  | replay request' =>
    cases record.messageId with
    | none => simp
    | some id' => simp
  | _ => simp

/-- The record leaves the second pass without a request. -/
def Unsent (resolved : Resolved) (rng : Rng) (record : SqsMessage) : Prop :=
  record.eventSourceArn = none ∨
    ∃ arn, record.eventSourceArn = some arn ∧
      (resolved.lookup arn = some none ∨
        ∃ config, resolved.lookup arn = some (some config) ∧
          (buildReplayRequest rng config record = .ok none ∨
            ∃ error, buildReplayRequest rng config record = .error error))

theorem unsent_or_replay (rng : Rng)
    (h : ∀ arn, record.eventSourceArn = some arn → arn ∈ resolved) :
    (Unsent resolved rng record ∧ failureOf resolved rng record = record.messageId ∧
        sendOf resolved rng record = none) ∨
      (¬ Unsent resolved rng record ∧ failureOf resolved rng record = none ∧
        ∃ request, disposition resolved rng record = .replay request) := by
  unfold Unsent failureOf sendOf disposition
  cases harn : record.eventSourceArn with
  | none => simp
  | some arn =>
    obtain ⟨config, hconfig⟩ := (HashMap.mem_iff_exists_lookup resolved arn).mp (h arn harn)
    cases config with
    | none => simp [hconfig]
    | some config =>
      cases hbuild : buildReplayRequest rng config record with
      | error e => simp [hconfig, hbuild]
      | ok built => cases built <;> simp [hconfig, hbuild]

end

variable {env : Environment} {store : ConfigStore} {inv : Invocation}

theorem handle_of_resolve_error {e : ConfigError}
    (h : (resolvePass env store inv).result = .error e) :
    (handle env store inv).result = .error (.config e) ∧ (handle env store inv).calls = [] := by
  unfold handle
  generalize resolvePass env store inv = pass at h
  obtain ⟨result, store', requests⟩ := pass
  obtain rfl : result = .error e := h
  exact ⟨rfl, rfl⟩

theorem handle_of_resolve_ok {resolved : Resolved}
    (h : (resolvePass env store inv).result = .ok resolved) :
    (handle env store inv).calls = sendCalls inv.sqs inv.order (passSends resolved inv) ∧
      (handle env store inv).result = .ok ⟨(passFailures resolved inv ++
        (sendCalls inv.sqs inv.order (passSends resolved inv)).flatMap (·.reported)).map
          BatchItemFailure.mk⟩ := by
  have hreach := passUnreachable_eq_false (resolvePass_covers h)
  unfold handle
  generalize resolvePass env store inv = pass at h
  obtain ⟨result, store', requests⟩ := pass
  obtain rfl : result = .ok resolved := h
  simp only [hreach, Bool.false_eq_true, if_false, sendReplayBatch_eq, and_self]

theorem handle_store (env : Environment) (store : ConfigStore) (inv : Invocation) :
    (handle env store inv).store = (resolvePass env store inv).store := by
  unfold handle
  split
  · rename_i h
    rw [h]
  · rename_i h
    rw [h]
    split_ifs <;> rfl

theorem handle_ok_iff_resolve_ok :
    (∃ response, (handle env store inv).result = .ok response) ↔
      ∃ resolved, (resolvePass env store inv).result = .ok resolved := by
  cases h : (resolvePass env store inv).result with
  | error e => simp [(handle_of_resolve_error h).1]
  | ok resolved => simp [(handle_of_resolve_ok h).2]

theorem mem_passSends {resolved : Resolved} {id : String} {request : ReplayRequest} :
    (id, request) ∈ passSends resolved inv ↔
      ∃ record i, (record, i) ∈ inv.records.zipIdx ∧ record.messageId = some id ∧
        disposition resolved (inv.rng i) record = .replay request := by
  simp only [passSends, List.mem_filterMap, Prod.exists, sendOf_eq_some_iff]

theorem mem_passFailures {resolved : Resolved} {id : String} :
    id ∈ passFailures resolved inv ↔
      ∃ record i, (record, i) ∈ inv.records.zipIdx ∧
        failureOf resolved (inv.rng i) record = some id := by
  simp only [passFailures, List.mem_filterMap, Prod.exists]

def sampleEnvironment : Environment := ⟨"/sqs-replay/queues/", 5, 30, 900, false⟩

def sampleConfig : QueueConfig :=
  ⟨"arn:aws:sqs:ReplayQueue", "https://sqs/Queue", some 3, none, none, none⟩

def sampleStore : ConfigStore :=
  { ConfigStore.new "/sqs-replay/queues/" with
    cache := some (0, AList.singleton "arn:aws:sqs:ReplayQueue" sampleConfig) }

def sampleRecord (id : Option String) : SqsMessage :=
  ⟨id, some "hello", ∅, ∅, some "arn:aws:sqs:ReplayQueue"⟩

/-- Every call is answered by SQS, which accepts all of its entries. -/
def sampleInvocation (records : List SqsMessage) : Invocation where
  records
  lookups := fun _ => ⟨0, .last none, 0⟩
  rng := default
  order := default
  sqs := fun _ _ => .ok ⟨[]⟩

def sampleResolved : Resolved :=
  AList.singleton "arn:aws:sqs:ReplayQueue" (some (sampleConfig.resolve sampleEnvironment))

def countedRecord (id text : String) : SqsMessage :=
  { sampleRecord (some id) with
    messageAttributes :=
      AList.singleton replayNumPropertyName ⟨some text, none, [], [], some "Number"⟩ }

/-- SQS answers every call, and refuses the entry `id-1`. -/
def refusingInvocation (records : List SqsMessage) : Invocation :=
  { sampleInvocation records with sqs := fun _ _ => .ok ⟨[⟨"id-1"⟩]⟩ }

theorem refusingInvocation_wellAnswered {records : List SqsMessage} {ids : List String}
    (hids : "id-1" ∈ ids)
    (hcalls : (handle sampleEnvironment sampleStore (refusingInvocation records)).calls.map
      (·.entryIds) = [ids]) {call : SendCall}
    (hcall : call ∈ (handle sampleEnvironment sampleStore (refusingInvocation records)).calls) :
    call.WellAnswered := by
  have hentries : call.entryIds ∈ [ids] := hcalls ▸ List.mem_map.mpr ⟨call, hcall, rfl⟩
  cases h : (resolvePass sampleEnvironment sampleStore (refusingInvocation records)).result with
  | error e =>
    rw [(handle_of_resolve_error h).2] at hcall
    cases hcall
  | ok resolved =>
    rw [(handle_of_resolve_ok h).1] at hcall
    obtain ⟨i, chunk, -, rfl⟩ := mem_sendCalls hcall
    rintro output houtput
    obtain rfl : (⟨[⟨"id-1"⟩]⟩ : SendMessageBatchOutput) = output := Except.ok.inj houtput
    refine ⟨List.nodup_singleton _, ?_⟩
    rw [List.mem_singleton.mp hentries]
    exact List.cons_subset.mpr ⟨hids, List.nil_subset _⟩

end ReplayBackoff
