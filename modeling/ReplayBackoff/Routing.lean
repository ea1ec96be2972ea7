import ReplayBackoff.ConfigCache
import ReplayBackoff.Accounting
import ReplayBackoff.Library.JsonRoundTrip

/-!
# Every message under its own configuration

The abstract first pass only keeps which load answered the lookup of each ARN. The first pass of
the code refines it: what it resolves for an ARN is the last well-formed configuration of that load,
completed from the environment. The load is a function of the ARN for the whole event, although the
cache may be loaded again between two lookups.
-/

namespace ReplayBackoff

open SnapshotCache

/-- The parameters of the load that answered the lookup of each ARN. -/
abbrev Answering := HashMap String (List Parameter)

def answerRecords (ttl : ℕ) (lookups : ℕ → Lookup) :
    ℕ → List SqsMessage → Slot (List Parameter) → Answering →
      Except SdkError Answering × Slot (List Parameter)
  | _, [], slot, answering => (.ok answering, slot)
  | k, record :: rest, slot, answering =>
    match record.eventSourceArn with
    | none => answerRecords ttl lookups k rest slot answering
    | some arn =>
      if arn ∈ answering then answerRecords ttl lookups k rest slot answering
      else
        match use ttl slot (lookups k).use with
        | (.error e, slot') => (.error e, slot')
        | (.ok s, slot') =>
          answerRecords ttl lookups (k + 1) rest slot' (answering.insert arn s.2)

/-- Each ARN is resolved from the load that answered its lookup. -/
def Agree (env : Environment) (resolved : Resolved) (answering : Answering) : Prop :=
  ∀ arn, resolved.lookup arn =
    (answering.lookup arn).map (fun load => (lastConfig load arn).map (·.resolve env))

theorem Agree.mem_iff {env : Environment} {resolved : Resolved} {answering : Answering}
    (h : Agree env resolved answering) (arn : String) : arn ∈ resolved ↔ arn ∈ answering := by
  rw [← AList.lookup_isSome, ← AList.lookup_isSome, h arn, Option.isSome_map]

theorem Agree.insert {env : Environment} {resolved : Resolved} {answering : Answering}
    (h : Agree env resolved answering) (arn : String) (load : List Parameter) :
    Agree env (resolved.insert arn ((lastConfig load arn).map (·.resolve env)))
      (answering.insert arn load) := by
  intro arn'
  rw [HashMap.lookup_insert_eq_ite, HashMap.lookup_insert_eq_ite]
  by_cases heq : arn' = arn
  · rw [if_pos heq, if_pos heq, heq]
    rfl
  · rw [if_neg heq, if_neg heq, h arn']

/-- What the two first passes have in common. -/
structure PassRefines (env : Environment) (ttl : ℕ) (pass : StoreCall Resolved)
    (abstract : Except SdkError Answering × Slot (List Parameter)) : Prop where
  store : pass.store.Represents abstract.2
  ttl : pass.store.ttl = ttl
  ok : ∀ answering, abstract.1 = .ok answering →
    ∃ resolved, pass.result = .ok resolved ∧ Agree env resolved answering
  error : ∀ e, abstract.1 = .error e → pass.result = .error (.load e)

theorem resolveRecords_refines {env : Environment} {lookups : ℕ → Lookup} {ttl k : ℕ}
    {records : List SqsMessage} {store : ConfigStore} {slot : Slot (List Parameter)}
    {resolved : Resolved} {answering : Answering} (hrep : store.Represents slot)
    (httl : store.ttl = ttl) (hagree : Agree env resolved answering) :
    PassRefines env ttl (resolveRecords env lookups k records store resolved)
      (answerRecords ttl lookups k records slot answering) := by
  induction records generalizing k store slot resolved answering with
  | nil =>
    refine ⟨hrep, httl, ?_, by simp [answerRecords]⟩
    intro answering' h
    obtain rfl := Except.ok.inj h
    exact ⟨resolved, rfl, hagree⟩
  | cons record rest ih =>
    unfold resolveRecords answerRecords
    cases harn : record.eventSourceArn with
    | none => exact ih hrep httl hagree
    | some arn =>
      dsimp only
      by_cases hmem : arn ∈ resolved
      · rw [if_pos hmem, if_pos ((hagree.mem_iff arn).mp hmem)]
        exact ih hrep httl hagree
      · rw [if_neg hmem, if_neg (fun h => hmem ((hagree.mem_iff arn).mpr h)), resolveConfig_eq]
        obtain ⟨hstore, hresult⟩ := ConfigStore.configFor_refines hrep (lookups k) arn
        have hrep' := ConfigStore.configFor_represents hrep (lookups k) arn
        have httl' := ConfigStore.configFor_ttl hrep (lookups k) arn
        rw [httl] at hresult hrep' httl'
        generalize store.configFor (lookups k) arn = call at hresult hrep' httl'
        obtain ⟨result, store', requests⟩ := call
        generalize use ttl slot (lookups k).use = answer at hresult hrep'
        obtain ⟨result' | s, slot'⟩ := answer
        · obtain rfl : result = .error (.load result') := hresult
          refine ⟨hrep', httl', by simp, ?_⟩
          intro e he
          obtain rfl := Except.error.inj he
          rfl
        · obtain rfl : result = .ok (lastConfig s.2 arn) := hresult
          obtain ⟨h1, h2, h3, h4⟩ := ih (k := k + 1) hrep' httl' (hagree.insert arn s.2)
          exact ⟨h1, h2, h3, h4⟩

def cacheTtl : ℕ := ConfigStore.secondsToNanos 60

def answerPass (slot : Slot (List Parameter)) (inv : Invocation) :
    Except SdkError Answering × Slot (List Parameter) :=
  answerRecords cacheTtl inv.lookups 0 inv.records slot ∅

def storeFor (env : Environment) (path : String) (history : List Invocation) : ConfigStore :=
  history.foldl (fun store inv => (handle env store inv).store) (ConfigStore.new path)

def slotFor (history : List Invocation) : Slot (List Parameter) :=
  history.foldl (fun slot inv => (answerPass slot inv).2) none

/-- The loads that answered the lookups of an event; none when one of its loads failed. -/
def eventLoads (history : List Invocation) (inv : Invocation) : Answering :=
  match (answerPass (slotFor history) inv).1 with
  | .ok answering => answering
  | .error _ => ∅

theorem resolvePass_refines (env : Environment) {store : ConfigStore}
    {slot : Slot (List Parameter)} (hrep : store.Represents slot) (httl : store.ttl = cacheTtl)
    (inv : Invocation) :
    PassRefines env cacheTtl (resolvePass env store inv) (answerPass slot inv) :=
  resolveRecords_refines hrep httl (fun _ => rfl)

theorem handle_history_represents (env : Environment) {store : ConfigStore}
    {slot : Slot (List Parameter)} (hrep : store.Represents slot) (httl : store.ttl = cacheTtl)
    (history : List Invocation) :
    (history.foldl (fun store inv => (handle env store inv).store) store).Represents
        (history.foldl (fun slot inv => (answerPass slot inv).2) slot) ∧
      (history.foldl (fun store inv => (handle env store inv).store) store).ttl = cacheTtl := by
  induction history generalizing store slot with
  | nil => exact ⟨hrep, httl⟩
  | cons inv history ih =>
    have hpass := resolvePass_refines env hrep httl inv
    have hstore := handle_store env store inv
    have hrep' : (handle env store inv).store.Represents (answerPass slot inv).2 := by
      rw [hstore]
      exact hpass.store
    have httl' : (handle env store inv).store.ttl = cacheTtl := by
      rw [hstore]
      exact hpass.ttl
    exact ih hrep' httl'

theorem agree_eventLoads {env : Environment} (path : String) (history : List Invocation)
    {inv : Invocation} {resolved : Resolved}
    (h : (resolvePass env (storeFor env path history) inv).result = .ok resolved) :
    Agree env resolved (eventLoads history inv) := by
  obtain ⟨hrep, httl⟩ :=
    handle_history_represents env (ConfigStore.new_represents path) rfl history
  have hpass := resolvePass_refines env hrep httl inv
  unfold eventLoads slotFor
  cases hanswer : (answerPass (history.foldl (fun slot inv => (answerPass slot inv).2) none)
    inv).1 with
  | ok answering =>
    obtain ⟨resolved', hresolved', hagree⟩ := hpass.ok answering hanswer
    obtain rfl : resolved' = resolved := Except.ok.inj (hresolved'.symm.trans h)
    exact hagree
  | error e =>
    have hfail := hpass.error e hanswer
    have hcontra := hfail.symm.trans h
    cases hcontra

section

variable {P : List Parameter → Prop} {Q : ℕ × List Parameter → Prop} {lookups : ℕ → Lookup}
  {ttl k : ℕ} {records : List SqsMessage} {slot : Slot (List Parameter)} {answering : Answering}

/-- The slot keeps what every load satisfies, and every load of an event satisfies what all answers
of such slots do. -/
theorem answerRecords_keeps (hslot : ∀ s, slot = some s → Q s)
    (hload : ∀ k load, (lookups k).answers.parameters = .ok load → Q ((lookups k).loadedAt, load))
    (hanswer : ∀ k slot s, (∀ s, slot = some s → Q s) →
      (use ttl slot (lookups k).use).1 = .ok s → P s.2)
    (hanswering : ∀ arn load, answering.lookup arn = some load → P load) :
    (∀ s, (answerRecords ttl lookups k records slot answering).2 = some s → Q s) ∧
      ∀ answering', (answerRecords ttl lookups k records slot answering).1 = .ok answering' →
        ∀ arn load, answering'.lookup arn = some load → P load := by
  induction records generalizing k slot answering with
  | nil =>
    refine ⟨hslot, ?_⟩
    intro answering' h
    obtain rfl := Except.ok.inj h
    exact hanswering
  | cons record rest ih =>
    unfold answerRecords
    cases harn : record.eventSourceArn with
    | none => exact ih hslot hanswering
    | some arn =>
      dsimp only
      by_cases hmem : arn ∈ answering
      · rw [if_pos hmem]
        exact ih hslot hanswering
      · rw [if_neg hmem]
        have hslot' : ∀ s, (use ttl slot (lookups k).use).2 = some s → Q s := by
          intro s hs
          rcases use_slot ttl slot (lookups k).use with hsame | ⟨load, -, hl, hnew⟩
          · exact hslot s (hsame.symm.trans hs)
          · obtain rfl := Option.some.inj (hnew.symm.trans hs)
            exact hload k load hl
        cases hresult : (use ttl slot (lookups k).use).1 with
        | error e =>
          rw [show use ttl slot (lookups k).use = (.error e, (use ttl slot (lookups k).use).2) from
            Prod.ext hresult rfl]
          exact ⟨hslot', by simp⟩
        | ok s =>
          rw [show use ttl slot (lookups k).use = (.ok s, (use ttl slot (lookups k).use).2) from
            Prod.ext hresult rfl]
          apply ih hslot'
          intro arn' load hlookup
          rw [HashMap.lookup_insert_eq_ite] at hlookup
          split_ifs at hlookup with heq
          · obtain rfl := Option.some.inj hlookup
            exact hanswer k slot s hslot hresult
          · exact hanswering arn' load hlookup

theorem answerRecords_invariant (hslot : ∀ s, slot = some s → P s.2)
    (hload : ∀ k load, (lookups k).answers.parameters = .ok load → P load)
    (hanswering : ∀ arn load, answering.lookup arn = some load → P load) :
    (∀ s, (answerRecords ttl lookups k records slot answering).2 = some s → P s.2) ∧
      ∀ answering', (answerRecords ttl lookups k records slot answering).1 = .ok answering' →
        ∀ arn load, answering'.lookup arn = some load → P load := by
  refine answerRecords_keeps hslot hload ?_ hanswering
  intro k slot s hs hanswer
  rcases (use_ok hanswer).2 with ⟨hsame, -⟩ | ⟨-, hl⟩
  · exact hs s hsame
  · exact hload k s.2 hl

end

/-- The parameters of a successful load that some lookup of the invocations makes. -/
def LoadOf (invs : List Invocation) (load : List Parameter) : Prop :=
  ∃ inv ∈ invs, ∃ k, (inv.lookups k).answers.parameters = .ok load

theorem LoadOf.mono {invs invs' : List Invocation} (hsub : invs ⊆ invs') {load : List Parameter}
    (h : LoadOf invs load) : LoadOf invs' load := by
  obtain ⟨inv, hinv, hk⟩ := h
  exact ⟨inv, hsub hinv, hk⟩

theorem answerPass_loadOf {invs : List Invocation} {slot : Slot (List Parameter)}
    {inv : Invocation} (hinv : inv ∈ invs) (hslot : ∀ s, slot = some s → LoadOf invs s.2) :
    (∀ s, (answerPass slot inv).2 = some s → LoadOf invs s.2) ∧
      ∀ answering, (answerPass slot inv).1 = .ok answering →
        ∀ arn load, answering.lookup arn = some load → LoadOf invs load := by
  refine answerRecords_invariant hslot (fun k load hload => ⟨inv, hinv, k, hload⟩) ?_
  intro arn load h
  cases h

theorem slotFor_loadOf (history : List Invocation) :
    ∀ s, slotFor history = some s → LoadOf history s.2 := by
  induction history using List.reverseRecOn with
  | nil => simp [slotFor]
  | append_singleton history inv ih =>
    rw [slotFor, List.foldl_append]
    exact (answerPass_loadOf (List.mem_append_right _ (List.mem_singleton.mpr rfl))
      (fun s hs => (ih s hs).mono (List.subset_append_left _ _))).1

theorem eventLoads_loadOf (history : List Invocation) (inv : Invocation) {arn : String}
    {load : List Parameter} (h : (eventLoads history inv).lookup arn = some load) :
    LoadOf (history ++ [inv]) load := by
  have hinv : inv ∈ history ++ [inv] := List.mem_append_right _ (List.mem_singleton.mpr rfl)
  have hslot : ∀ s, slotFor history = some s → LoadOf (history ++ [inv]) s.2 :=
    fun s hs => (slotFor_loadOf history s hs).mono (List.subset_append_left _ _)
  have hpass := answerPass_loadOf hinv hslot
  unfold eventLoads at h
  cases hanswer : (answerPass (slotFor history) inv).1 with
  | ok answering =>
    rw [hanswer] at h
    exact hpass.2 answering hanswer arn load h
  | error e =>
    rw [hanswer] at h
    cases h

variable {env : Environment} {path : String} {history : List Invocation} {inv : Invocation}

theorem config_of_replay {resolved : Resolved} {rng : Rng} {record : SqsMessage}
    {request : ReplayRequest} (hagree : Agree env resolved (eventLoads history inv))
    (hreplay : disposition resolved rng record = .replay request) :
    ∃ arn load config, record.eventSourceArn = some arn ∧
      (eventLoads history inv).lookup arn = some load ∧ lastConfig load arn = some config ∧
      buildReplayRequest rng (config.resolve env) record = .ok (some request) := by
  obtain ⟨arn, resolvedConfig, harn, hlookup, hbuild⟩ := disposition_replay_iff.mp hreplay
  rw [hagree arn, Option.map_eq_some_iff] at hlookup
  obtain ⟨load, hload, hconfig⟩ := hlookup
  obtain ⟨config, hlast, rfl⟩ := Option.map_eq_some_iff.mp hconfig
  exact ⟨arn, load, config, harn, hload, hlast, hbuild⟩

theorem resolve_ok_of_call {store : ConfigStore} {call : SendCall}
    (hcall : call ∈ (handle env store inv).calls) :
    ∃ resolved, (resolvePass env store inv).result = .ok resolved := by
  cases h : (resolvePass env store inv).result with
  | ok resolved => exact ⟨resolved, rfl⟩
  | error e =>
    rw [(handle_of_resolve_error h).2] at hcall
    cases hcall

theorem config_of_entry {call : SendCall}
    (hcall : call ∈ (handle env (storeFor env path history) inv).calls)
    {entry : SendMessageBatchRequestEntry} (hentry : entry ∈ call.input.entries) :
    ∃ record i id arn load config request, (record, i) ∈ inv.records.zipIdx ∧
      record.messageId = some id ∧ record.eventSourceArn = some arn ∧
      (eventLoads history inv).lookup arn = some load ∧ lastConfig load arn = some config ∧
      config.replayQueueArn = arn ∧ call.input.queueUrl = config.destinationQueueUrl ∧
      buildReplayRequest (inv.rng i) (config.resolve env) record = .ok (some request) ∧
      entry = toBatchEntry id request := by
  obtain ⟨resolved, h⟩ := resolve_ok_of_call hcall
  rw [(handle_of_resolve_ok h).1] at hcall
  obtain ⟨id, request, hsend, rfl, hurl⟩ := sendCalls_entry hcall hentry
  obtain ⟨record, i, hmem, hid, hreplay⟩ := mem_passSends.mp hsend
  obtain ⟨arn, load, config, harn, hload, hlast, hbuild⟩ :=
    config_of_replay (agree_eventLoads path history h) hreplay
  refine ⟨record, i, id, arn, load, config, request, hmem, hid, harn, hload, hlast,
    replayQueueArn_of_lastConfig hlast, ?_, hbuild, rfl⟩
  rw [hurl, buildReplayRequest_queueUrl hbuild]
  rfl

def entryOf (resolved : Resolved) (inv : Invocation) (item : SqsMessage × ℕ) :
    Option SendMessageBatchRequestEntry :=
  (sendOf resolved (inv.rng item.2) item.1).map (fun entry => toBatchEntry entry.1 entry.2)

theorem handle_entries_perm {store : ConfigStore} {resolved : Resolved}
    (h : (resolvePass env store inv).result = .ok resolved) :
    ((handle env store inv).calls.flatMap (·.input.entries)).Perm
      (inv.records.zipIdx.filterMap (entryOf resolved inv)) := by
  have hperm := sendCalls_entries_perm inv.sqs inv.order (passSends resolved inv)
  rw [passSends, List.map_filterMap] at hperm
  rw [(handle_of_resolve_ok h).1]
  exact hperm

theorem entryOf_eq_none {resolved : Resolved} (hagree : Agree env resolved (eventLoads history inv))
    {record : SqsMessage} {i : ℕ} {arn : String} (harn : record.eventSourceArn = some arn)
    (hnone : ∀ load, (eventLoads history inv).lookup arn = some load →
      lastConfig load arn = none) : entryOf resolved inv (record, i) = none := by
  rw [entryOf, Option.map_eq_none_iff, Option.eq_none_iff_forall_ne_some]
  rintro ⟨id, request⟩ hsend
  obtain ⟨arn', load, config, harn', hload, hlast, -⟩ :=
    config_of_replay hagree (sendOf_eq_some_iff.mp hsend).2
  obtain rfl : arn' = arn := Option.some.inj (harn'.symm.trans harn)
  rw [hnone load hload] at hlast
  cases hlast

/-- A message is only ever replayed under its own queue's configuration. Every entry of a call was
built from a record with some ARN, under the last well-formed configuration of that ARN in the load
that answered its lookup, completed from the environment, and goes to the destination of that
configuration. The load is one that the earlier invocations or this one made. The entries of all
calls are those the records give, one at most for each, and a record whose load has no such
configuration gives none. -/
theorem replayed_under_own_config (env : Environment) (path : String) (history : List Invocation)
    (inv : Invocation) :
    (∀ call ∈ (handle env (storeFor env path history) inv).calls,
      ∀ entry ∈ call.input.entries,
        ∃ record i id arn load config request, (record, i) ∈ inv.records.zipIdx ∧
          record.messageId = some id ∧ record.eventSourceArn = some arn ∧
          (eventLoads history inv).lookup arn = some load ∧ lastConfig load arn = some config ∧
          config.replayQueueArn = arn ∧ call.input.queueUrl = config.destinationQueueUrl ∧
          buildReplayRequest (inv.rng i) (config.resolve env) record = .ok (some request) ∧
          entry = toBatchEntry id request) ∧
    (∀ arn load, (eventLoads history inv).lookup arn = some load →
      LoadOf (history ++ [inv]) load) ∧
    ∀ resolved, (resolvePass env (storeFor env path history) inv).result = .ok resolved →
      ((handle env (storeFor env path history) inv).calls.flatMap (·.input.entries)).Perm
          (inv.records.zipIdx.filterMap (entryOf resolved inv)) ∧
        ∀ record i arn, record.eventSourceArn = some arn →
          (∀ load, (eventLoads history inv).lookup arn = some load → lastConfig load arn = none) →
          entryOf resolved inv (record, i) = none := by
  refine ⟨fun call hcall entry => config_of_entry hcall,
    fun arn load => eventLoads_loadOf history inv, ?_⟩
  intro resolved h
  refine ⟨handle_entries_perm h, ?_⟩
  intro record i arn harn hnone
  exact entryOf_eq_none (agree_eventLoads path history h) harn hnone

def storedJson : Json :=
  .object [("replayQueueArn", .string "arn:aws:sqs:ReplayQueue"),
    ("destinationQueueUrl", .string "https://sqs/Queue")]

def storedConfig : QueueConfig :=
  ⟨"arn:aws:sqs:ReplayQueue", "https://sqs/Queue", none, none, none, none⟩

def storedParameter : Parameter :=
  ⟨some "/sqs-replay/queues/Queue", some (Json.stringify storedJson)⟩

/-- The load of the lookup finds one parameter. -/
def loadingInvocation : Invocation :=
  { sampleInvocation [sampleRecord (some "id-1")] with
    lookups := fun _ => ⟨0, .last (some [storedParameter]), 0⟩ }

theorem lastConfig_stored :
    lastConfig [storedParameter] "arn:aws:sqs:ReplayQueue" = some storedConfig := by
  have hwf : Json.WellFormed storedJson := ⟨trivial, trivial, trivial⟩
  have hread : QueueConfig.fromStr (Json.stringify storedJson) = some storedConfig := by
    rw [QueueConfig.fromStr, Json.parse_stringify storedJson hwf]
    rfl
  have hconfig : storedParameter.config = some storedConfig := by
    rw [Parameter.config, storedParameter, Option.bind_some, hread]
  have hconfigs : configsOf [storedParameter] = [storedConfig] := by
    rw [configsOf, List.filterMap_cons_some hconfig, List.filterMap_nil]
  rw [lastConfig, hconfigs]
  rfl

theorem lookup_loading :
    (eventLoads [] loadingInvocation).lookup "arn:aws:sqs:ReplayQueue" = some [storedParameter] :=
  rfl

theorem disposition_loading {resolved : Resolved}
    (h : Agree sampleEnvironment resolved (eventLoads [] loadingInvocation)) :
    disposition resolved default (sampleRecord (some "id-1")) =
      .replay (requestFor default (storedConfig.resolve sampleEnvironment)
        (sampleRecord (some "id-1")) "hello" 1) := by
  have hlookup : resolved.lookup "arn:aws:sqs:ReplayQueue" =
      some (some (storedConfig.resolve sampleEnvironment)) := by
    rw [h "arn:aws:sqs:ReplayQueue", lookup_loading, Option.map_some, lastConfig_stored,
      Option.map_some]
  exact disposition_replay_iff.mpr ⟨_, _, rfl, hlookup, rfl⟩

theorem replayed_under_own_config_sample :
    ∃ call ∈ (handle sampleEnvironment (storeFor sampleEnvironment "/sqs-replay/queues/" [])
      loadingInvocation).calls, call.input.queueUrl = "https://sqs/Queue" := by
  have hpass := resolvePass_refines sampleEnvironment
    (ConfigStore.new_represents "/sqs-replay/queues/") rfl loadingInvocation
  obtain ⟨resolved, hresolved, -⟩ := hpass.ok _ rfl
  have hagree : Agree sampleEnvironment resolved (eventLoads [] loadingInvocation) :=
    agree_eventLoads "/sqs-replay/queues/" [] hresolved
  have hreplay := disposition_loading hagree
  have hsend : ("id-1", requestFor default (storedConfig.resolve sampleEnvironment)
      (sampleRecord (some "id-1")) "hello" 1) ∈ passSends resolved loadingInvocation :=
    mem_passSends.mpr ⟨sampleRecord (some "id-1"), 0, List.mem_singleton.mpr rfl, rfl, hreplay⟩
  obtain ⟨call, hcall, hentry⟩ :=
    exists_sendCalls_entry loadingInvocation.sqs loadingInvocation.order hsend
  rw [← (handle_of_resolve_ok hresolved).1] at hcall
  obtain ⟨record, i, id, arn, load, config, request, hmem, -, harn, hload, hlast, -, hurl, -⟩ :=
    (replayed_under_own_config sampleEnvironment "/sqs-replay/queues/" []
      loadingInvocation).1 call hcall _ hentry
  obtain rfl := List.mem_singleton.mp (List.fst_mem_of_mem_zipIdx hmem)
  obtain rfl := Option.some.inj harn
  rw [lookup_loading, Option.some.injEq] at hload
  rw [← hload, lastConfig_stored, Option.some.injEq] at hlast
  exact ⟨call, hcall, by rw [hurl, ← hlast]; rfl⟩

end ReplayBackoff
