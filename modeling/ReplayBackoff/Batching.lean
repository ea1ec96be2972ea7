import ReplayBackoff.Chunks
import ReplayBackoff.ConstructedReplay

/-!
# How records are batched into events

A record is treated the same in whatever event it arrives. While the cache is fresh, one event for
all records sends the entries of each queue in the order in which several events for parts of them
would, and reports the same records when SQS decides about each entry by itself. For a queue the one
event makes no more calls than the several, and saves at most one for each further event. Nothing of
this depends on the order in which the groups are visited.
-/

namespace ReplayBackoff

/-- The records with their draws. -/
def Invocation.drawn (inv : Invocation) : List (SqsMessage × Rng) :=
  inv.records.zipIdx.map (fun item => (item.1, inv.rng item.2))

/-- The invocation answers all of its lookups from the cache. -/
def FreshFor (store : ConfigStore) (inv : Invocation) : Prop :=
  ∀ k, store.isFresh (inv.lookups k).checkedAt = true

/-- SQS answers every call and decides about an entry by its queue and the entry alone. -/
def Separate (rejects : String → SendMessageBatchRequestEntry → Bool) (sqs : Sqs) : Prop :=
  ∀ i input, ∃ output, sqs i input = .ok output ∧
    (output.failed.map (·.id)).Perm ((input.entries.filter (rejects input.queueUrl)).map (·.id))

def handleAll (env : Environment) : ConfigStore → List Invocation → List Handled
  | _, [] => []
  | store, inv :: invs =>
    let handled := handle env store inv
    handled :: handleAll env handled.store invs

def inputsTo (queueUrl : String) (calls : List SendCall) : List SendMessageBatchInput :=
  (calls.map (·.input)).filter (fun input => input.queueUrl = queueUrl)

def cachedSettings (env : Environment) (store : ConfigStore) (arn : String) :
    Option ResolvedQueueConfig :=
  (store.cached arn).map (·.resolve env)

def responseUnder (used : String → Option ResolvedQueueConfig) (inv : Invocation) :
    BatchResponse :=
  let reported := (sendCalls inv.sqs inv.order (sendsUnder used inv)).flatMap (·.reported)
  ⟨(failuresUnder used inv ++ reported).map BatchItemFailure.mk⟩

/-- The ids of the entries that SQS rejects. -/
def rejectedIds (rejects : String → SendMessageBatchRequestEntry → Bool)
    (entries : List Entry) : List String :=
  (entries.filter
    (fun entry => rejects (entryUrl entry) (toBatchEntry entry.1 entry.2))).map (·.1)

section

variable {env : Environment} {store : ConfigStore} {inv : Invocation}

theorem resolveRecords_of_fresh {lookups : ℕ → Lookup}
    (h : ∀ k, store.isFresh (lookups k).checkedAt = true) (k : ℕ) (records : List SqsMessage)
    {resolved : Resolved}
    (hresolved : ∀ arn ∈ resolved, resolved.lookup arn = some (cachedSettings env store arn)) :
    ∃ out, (resolveRecords env lookups k records store resolved).result = .ok out ∧
      (resolveRecords env lookups k records store resolved).store = store ∧
      ∀ arn ∈ out, out.lookup arn = some (cachedSettings env store arn) := by
  induction records generalizing k resolved with
  | nil => exact ⟨resolved, rfl, rfl, hresolved⟩
  | cons record rest ih =>
    cases harn : record.eventSourceArn with
    | none =>
      rw [resolveRecords_of_none harn]
      exact ih k hresolved
    | some arn =>
      by_cases hmem : arn ∈ resolved
      · rw [resolveRecords_of_mem harn hmem]
        exact ih k hresolved
      · have hconfig : resolveConfig env store (lookups k) (some arn) =
            ⟨.ok (cachedSettings env store arn), store, []⟩ := by
          rw [resolveConfig_eq, ConfigStore.configFor_of_fresh (h k)]
          rfl
        have hinsert : ∀ a ∈ resolved.insert arn (cachedSettings env store arn),
            (resolved.insert arn (cachedSettings env store arn)).lookup a =
              some (cachedSettings env store a) := by
          intro a ha
          rw [HashMap.lookup_insert_eq_ite]
          split_ifs with heq
          · rw [heq]
          · exact hresolved a (((AList.mem_insert _).mp ha).resolve_left heq)
        obtain ⟨hresult, hstore⟩ :=
          resolveRecords_of_ok rest harn hmem (congrArg StoreCall.result hconfig)
        rw [hresult, hstore, hconfig]
        exact ih (k + 1) hinsert

theorem handle_of_fresh (env : Environment) (h : FreshFor store inv) :
    (handle env store inv).store = store ∧
      (handle env store inv).calls =
        sendCalls inv.sqs inv.order (sendsUnder (cachedSettings env store) inv) ∧
      (handle env store inv).result = .ok (responseUnder (cachedSettings env store) inv) := by
  obtain ⟨resolved, hresolve, hstore, hlookup⟩ :=
    @resolveRecords_of_fresh env store inv.lookups h 0 inv.records ∅ (by simp)
  have hresolves : Resolves resolved (cachedSettings env store) inv := by
    intro record hrecord arn harn
    exact hlookup arn (resolvePass_covers hresolve record hrecord arn harn)
  obtain ⟨hcalls, hresult⟩ := handle_of_resolve_ok hresolve
  rw [passSends_eq hresolves] at hcalls hresult
  rw [passFailures_eq hresolves] at hresult
  exact ⟨(handle_store env store inv).trans hstore, hcalls, hresult⟩

theorem handleAll_of_fresh (env : Environment) {invs : List Invocation}
    (h : ∀ inv ∈ invs, FreshFor store inv) :
    handleAll env store invs = invs.map (handle env store) := by
  induction invs with
  | nil => rfl
  | cons inv invs ih =>
    obtain ⟨hinv, hinvs⟩ := List.forall_mem_cons.mp h
    rw [handleAll, (handle_of_fresh env hinv).1, ih hinvs, List.map_cons]

end

section

variable (sqs : Sqs) (order : GroupOrder) (entries : List Entry) (queueUrl : String)

theorem inputsTo_sendCalls :
    inputsTo queueUrl (sendCalls sqs order entries) =
      (chunksFor order entries queueUrl).map chunkInput := by
  have hinputs : (sendCalls sqs order entries).map (·.input) =
      (chunkEntries order entries).map chunkInput := by
    rw [sendCalls, List.mapIdx_eq_zipIdx_map, List.map_map]
    conv_rhs => rw [← List.zipIdx_map_fst 0 (chunkEntries order entries), List.map_map]
    rfl
  rw [inputsTo, hinputs, List.filter_map]
  rfl

theorem entries_inputsTo :
    (inputsTo queueUrl (sendCalls sqs order entries)).flatMap (·.entries) =
      (entriesFor entries queueUrl).map (fun entry => toBatchEntry entry.1 entry.2) := by
  rw [inputsTo_sendCalls, List.flatMap_map, ← chunksFor_flatten order, List.map_flatMap]
  rfl

theorem length_inputsTo :
    (inputsTo queueUrl (sendCalls sqs order entries)).length =
      GreedySplit.pieceCount chunkLimits bodyBytes (entriesFor entries queueUrl) := by
  rw [inputsTo_sendCalls, List.length_map, chunksFor_eq, chunkGroup, List.length_map]
  rfl

end

section

variable {rejects : String → SendMessageBatchRequestEntry → Bool} {sqs : Sqs}

theorem callOf_reported_perm (h : Separate rejects sqs) (i : ℕ) {chunk : ReplayChunk}
    (hurl : ∀ entry ∈ chunk.entries, entryUrl entry = chunk.queueUrl) :
    (callOf sqs i chunk).reported.Perm (rejectedIds rejects chunk.entries) := by
  obtain ⟨output, houtput, hfailed⟩ := h i (chunkInput chunk)
  have hreported : (callOf sqs i chunk).reported = output.failed.map (·.id) := by
    rw [SendCall.reported, callOf, houtput]
  have hsame : chunk.entries.filter (rejects chunk.queueUrl ∘ fun entry =>
      toBatchEntry entry.1 entry.2) = chunk.entries.filter (fun entry =>
        rejects (entryUrl entry) (toBatchEntry entry.1 entry.2)) := by
    refine List.filter_congr (fun entry hentry => ?_)
    rw [hurl entry hentry]
    rfl
  rw [hreported]
  refine hfailed.trans (List.Perm.of_eq ?_)
  rw [chunkInput, List.filter_map, List.map_map, rejectedIds, ← hsame]
  rfl

theorem reported_perm (h : Separate rejects sqs) (order : GroupOrder) (entries : List Entry) :
    ((sendCalls sqs order entries).flatMap (·.reported)).Perm (rejectedIds rejects entries) := by
  have hchunks : ((sendCalls sqs order entries).flatMap (·.reported)).Perm
      ((chunkEntries order entries).flatMap (fun chunk => rejectedIds rejects chunk.entries)) := by
    rw [sendCalls, List.mapIdx_eq_zipIdx_map, List.flatMap_map]
    conv_rhs => rw [← List.zipIdx_map_fst 0 (chunkEntries order entries), List.flatMap_map]
    apply List.Perm.flatMap_left
    rintro ⟨chunk, i⟩ hitem
    have hchunk : chunk ∈ chunkEntries order entries := List.fst_mem_of_mem_zipIdx hitem
    exact callOf_reported_perm h i (fun entry hentry => chunkEntries_url hchunk hentry)
  have hall := ((chunkEntries_perm order entries).filter (fun entry =>
    rejects (entryUrl entry) (toBatchEntry entry.1 entry.2))).map (·.1)
  rw [List.filter_flatMap, List.map_flatMap] at hall
  exact hchunks.trans hall

theorem responseUnder_perm {inv : Invocation} (h : Separate rejects inv.sqs)
    (used : String → Option ResolvedQueueConfig) :
    (responseUnder used inv).identifiers.Perm
      (failuresUnder used inv ++ rejectedIds rejects (sendsUnder used inv)) := by
  rw [responseUnder, identifiers_mk]
  exact (reported_perm h inv.order _).append_left _

end

section

variable {whole : Invocation} {parts : List Invocation}

theorem filterMap_drawn {β : Type*} (inv : Invocation) (f : SqsMessage × Rng → Option β) :
    inv.drawn.filterMap f = inv.records.zipIdx.filterMap (fun item => f (item.1, inv.rng item.2)) :=
  List.filterMap_map

theorem sendsUnder_parts (h : whole.drawn = parts.flatMap (·.drawn))
    (used : String → Option ResolvedQueueConfig) :
    sendsUnder used whole = parts.flatMap (sendsUnder used) ∧
      failuresUnder used whole = parts.flatMap (failuresUnder used) := by
  have hparts {β : Type} (f : SqsMessage × Rng → Option β) :
      whole.drawn.filterMap f = parts.flatMap (fun inv => inv.drawn.filterMap f) := by
    rw [h, List.filterMap_flatMap]
  simp only [filterMap_drawn] at hparts
  exact ⟨hparts (fun item => (requestUnder used item.2 item.1).bind (fun request =>
      item.1.messageId.map (fun id => (id, request)))),
    hparts (fun item => if (requestUnder used item.2 item.1).isSome then none
      else item.1.messageId)⟩

theorem entriesFor_flatMap (f : Invocation → List Entry) (queueUrl : String) :
    entriesFor (parts.flatMap f) queueUrl =
      (parts.map (fun inv => entriesFor (f inv) queueUrl)).flatten := by
  rw [entriesFor, List.filter_flatMap, List.flatMap_def]
  rfl

end

/-- How records are batched into events is not observable while the cache is fresh. To each queue
the event of all records sends what the events of its parts send, in the same order, in at most as
many calls, saving at most one call for each part but the first. If SQS decides about each entry by
itself, the same ids are reported. -/
theorem batching_unobservable {env : Environment} {store : ConfigStore} {whole : Invocation}
    {parts : List Invocation} (hbatches : whole.drawn = parts.flatMap (·.drawn))
    (hfresh : ∀ inv ∈ whole :: parts, FreshFor store inv) :
    (∀ queueUrl, (inputsTo queueUrl (handle env store whole).calls).flatMap (·.entries) =
      (handleAll env store parts).flatMap
        (fun handled => (inputsTo queueUrl handled.calls).flatMap (·.entries))) ∧
    (∀ queueUrl, (inputsTo queueUrl (handle env store whole).calls).length ≤
        ((handleAll env store parts).map
          (fun handled => (inputsTo queueUrl handled.calls).length)).sum ∧
      ((handleAll env store parts).map
          (fun handled => (inputsTo queueUrl handled.calls).length)).sum ≤
        (inputsTo queueUrl (handle env store whole).calls).length + (parts.length - 1)) ∧
    ∀ rejects, (∀ inv ∈ whole :: parts, Separate rejects inv.sqs) →
      ∃ (response : BatchResponse) (responses : List BatchResponse),
        (handle env store whole).result = .ok response ∧
        (handleAll env store parts).map (·.result) = responses.map .ok ∧
        response.identifiers.Perm (responses.flatMap (·.identifiers)) := by
  obtain ⟨hwhole, hparts⟩ := List.forall_mem_cons.mp hfresh
  obtain ⟨-, hcalls, hresult⟩ := handle_of_fresh env hwhole
  let used := cachedSettings env store
  obtain ⟨hsends, hfailures⟩ := sendsUnder_parts hbatches used
  rw [handleAll_of_fresh env hparts]
  refine ⟨?_, ?_, ?_⟩
  · intro queueUrl
    rw [hcalls, entries_inputsTo, hsends, entriesFor_flatMap, List.map_flatten, List.map_map,
      ← List.flatMap_def, List.flatMap_map]
    refine List.flatMap_congr (fun inv hinv => ?_)
    rw [(handle_of_fresh env (hparts inv hinv)).2.1, entries_inputsTo]
    rfl
  · intro queueUrl
    have hcounts : (parts.map (handle env store)).map
        (fun handled => (inputsTo queueUrl handled.calls).length) =
          (parts.map (fun inv => entriesFor (sendsUnder used inv) queueUrl)).map
            (GreedySplit.pieceCount chunkLimits bodyBytes) := by
      rw [List.map_map, List.map_map]
      refine List.map_congr_left (fun inv hinv => ?_)
      dsimp only [Function.comp_apply]
      rw [(handle_of_fresh env (hparts inv hinv)).2.1, length_inputsTo]
    have hbound := GreedySplit.pieceCount_flatten chunkLimits bodyBytes
      (parts.map (fun inv => entriesFor (sendsUnder used inv) queueUrl))
    rw [List.length_map] at hbound
    rw [hcounts, hcalls, length_inputsTo, hsends, entriesFor_flatMap]
    exact hbound
  · intro rejects hsqs
    obtain ⟨hwhole, hsqs⟩ := List.forall_mem_cons.mp hsqs
    refine ⟨responseUnder used whole, parts.map (responseUnder used), hresult, ?_, ?_⟩
    · rw [List.map_map, List.map_map]
      exact List.map_congr_left (fun inv hinv => (handle_of_fresh env (hparts inv hinv)).2.2)
    · have hrejected : rejectedIds rejects (sendsUnder used whole) =
          parts.flatMap (fun inv => rejectedIds rejects (sendsUnder used inv)) := by
        rw [hsends, rejectedIds, List.filter_flatMap, List.map_flatMap]
        rfl
      have hreports := responseUnder_perm hwhole used
      rw [hfailures, hrejected] at hreports
      rw [List.flatMap_map]
      refine (hreports.trans (List.flatMap_append_perm parts _ _)).trans ?_
      apply List.Perm.flatMap_left
      intro inv hinv
      exact (responseUnder_perm (hsqs inv hinv) used).symm

theorem batching_unobservable_sample :
    ∃ (response : BatchResponse) (responses : List BatchResponse),
      (handle sampleEnvironment sampleStore (sampleInvocation
        [sampleRecord (some "id-1"), sampleRecord (some "id-2")])).result = .ok response ∧
      (handleAll sampleEnvironment sampleStore [sampleInvocation [sampleRecord (some "id-1")],
        sampleInvocation [sampleRecord (some "id-2")]]).map (·.result) = responses.map .ok ∧
      response.identifiers.Perm (responses.flatMap (·.identifiers)) := by
  have hbatches : (sampleInvocation
      [sampleRecord (some "id-1"), sampleRecord (some "id-2")]).drawn =
      [sampleInvocation [sampleRecord (some "id-1")],
        sampleInvocation [sampleRecord (some "id-2")]].flatMap (·.drawn) := rfl
  have hfresh : ∀ records, FreshFor sampleStore (sampleInvocation records) := fun _ _ => rfl
  have hsqs : ∀ records, Separate (fun _ _ => false) (sampleInvocation records).sqs :=
    fun _ _ _ => ⟨⟨[]⟩, rfl, by simp⟩
  obtain ⟨-, -, hreports⟩ := @batching_unobservable sampleEnvironment sampleStore _ _ hbatches
    (by simp [hfresh])
  exact hreports (fun _ _ => false) (by simp [hsqs])

end ReplayBackoff
