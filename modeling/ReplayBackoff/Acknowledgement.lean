import ReplayBackoff.Accounting

/-!
# What an acknowledgement stands for

The event source mapping deletes every record an `Ok` response does not name. For a record with a
message id this is safe, whatever the ids are and whatever SQS answers: an entry built from the
record was accepted, or the record is named. A record without an id can be neither sent nor named;
the second pass skips it.
-/

namespace ReplayBackoff

/-- The entry carries what the record becomes under some configuration. -/
def BuiltFrom (rng : Rng) (record : SqsMessage) (entry : SendMessageBatchRequestEntry) : Prop :=
  ∃ config id request, record.messageId = some id ∧
    buildReplayRequest rng config record = .ok (some request) ∧ entry = toBatchEntry id request

def SentAndAccepted (calls : List SendCall) (rng : Rng) (record : SqsMessage) : Prop :=
  ∃ call ∈ calls, ∃ entry ∈ call.input.entries, BuiltFrom rng record entry ∧ call.Accepts entry.id

def NamedIn (response : BatchResponse) (record : SqsMessage) : Prop :=
  ∃ id, record.messageId = some id ∧ id ∈ response.identifiers

variable {env : Environment} {store : ConfigStore} {inv : Invocation} {resolved : Resolved}

theorem builtFrom_of_replay {rng : Rng} {record : SqsMessage} {id : String}
    {request : ReplayRequest} (hid : record.messageId = some id)
    (hreplay : disposition resolved rng record = .replay request) :
    BuiltFrom rng record (toBatchEntry id request) := by
  obtain ⟨arn, config, -, -, hbuild⟩ := disposition_replay_iff.mp hreplay
  exact ⟨config, id, request, hid, hbuild, rfl⟩

/-- A record with an id was accepted, or its id was reported. -/
theorem accepted_or_reported (h : (resolvePass env store inv).result = .ok resolved)
    {record : SqsMessage} {i : ℕ} {id : String} (hmem : (record, i) ∈ inv.records.zipIdx)
    (hid : record.messageId = some id) :
    SentAndAccepted (handle env store inv).calls (inv.rng i) record ∨
      id ∈ passFailures resolved inv ++ (handle env store inv).calls.flatMap (·.reported) := by
  by_cases hunsent : Unsent resolved (inv.rng i) record
  · exact Or.inr (List.mem_append_left _
      ((mem_passFailures_iff_unsent h id).mpr ⟨record, i, hmem, hid, hunsent⟩))
  · obtain ⟨request, hreplay, call, hcall, hentry⟩ := exists_call_of_sent h hmem hid hunsent
    by_cases hrep : id ∈ call.reported
    · exact Or.inr (List.mem_append_right _ (List.mem_flatMap.mpr ⟨call, hcall, hrep⟩))
    · refine Or.inl ⟨call, hcall, _, hentry, builtFrom_of_replay hid hreplay, ?_⟩
      exact (call.accepts_iff_not_reported (mem_entryIds_of_entry hentry)).mpr hrep

/-- When an invocation returns `Ok`, the records it accounts for are those that carry an id. -/
theorem acknowledged_iff_has_id (env : Environment) (store : ConfigStore) (inv : Invocation)
    (response : BatchResponse) (hresponse : (handle env store inv).result = .ok response)
    (record : SqsMessage) (i : ℕ) (hmem : (record, i) ∈ inv.records.zipIdx) :
    (SentAndAccepted (handle env store inv).calls (inv.rng i) record ∨ NamedIn response record) ↔
      ∃ id, record.messageId = some id := by
  obtain ⟨resolved, h⟩ := handle_ok_iff_resolve_ok.mp ⟨response, hresponse⟩
  constructor
  · rintro (⟨call, -, entry, -, ⟨config, id, request, hid, -⟩, -⟩ | ⟨id, hid, -⟩)
    · exact ⟨id, hid⟩
    · exact ⟨id, hid⟩
  · rintro ⟨id, hid⟩
    rcases accepted_or_reported h hmem hid with haccepted | hreported
    · exact Or.inl haccepted
    · refine Or.inr ⟨id, hid, ?_⟩
      have heq := handle_result_eq h
      rw [hresponse] at heq
      rw [Except.ok.inj heq, identifiers_mk]
      exact hreported

theorem acknowledged_iff_has_id_sample :
    SentAndAccepted (handle sampleEnvironment sampleStore
        (sampleInvocation [sampleRecord (some "id-1")])).calls default
        (sampleRecord (some "id-1")) ∨ NamedIn ⟨[]⟩ (sampleRecord (some "id-1")) :=
  (acknowledged_iff_has_id sampleEnvironment sampleStore
    (sampleInvocation [sampleRecord (some "id-1")]) ⟨[]⟩ rfl (sampleRecord (some "id-1")) 0
    (List.mem_singleton.mpr rfl)).mpr ⟨"id-1", rfl⟩

/-- A record without an id is acknowledged, though it was neither sent nor named. -/
theorem record_without_id_acknowledged :
    (handle sampleEnvironment sampleStore (sampleInvocation [sampleRecord none])).result =
        .ok ⟨[]⟩ ∧
      (handle sampleEnvironment sampleStore (sampleInvocation [sampleRecord none])).calls = [] ∧
      ¬ (SentAndAccepted (handle sampleEnvironment sampleStore
            (sampleInvocation [sampleRecord none])).calls default (sampleRecord none) ∨
          NamedIn ⟨[]⟩ (sampleRecord none)) := by
  refine ⟨rfl, rfl, ?_⟩
  rintro (⟨call, hcall, -⟩ | ⟨id, hid, -⟩)
  · cases hcall
  · cases hid

end ReplayBackoff
