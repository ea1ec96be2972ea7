import ReplayBackoff.Handle

/-!
# Accounting of a batch

Every record with an id leaves an invocation in exactly one of two ways: its id is pushed onto the
failures by the second pass, or it is an entry of exactly one call. The first way is taken by the
records without a request. An entry is reported again when its call errors or lists it as failed.
-/

namespace ReplayBackoff

def BatchResponse.identifiers (response : BatchResponse) : List String :=
  response.batchItemFailures.map (·.itemIdentifier)

theorem identifiers_mk (ids : List String) :
    BatchResponse.identifiers ⟨ids.map BatchItemFailure.mk⟩ = ids := by
  simp [BatchResponse.identifiers, Function.comp_def]

/-- Every record carries an id, and the ids are non-empty and pairwise distinct. -/
structure DistinctIds (records : List SqsMessage) : Prop where
  present : ∀ record ∈ records, ∃ id, record.messageId = some id ∧ id ≠ ""
  nodup : (records.map (·.messageId)).Nodup

def SendCall.Rejects (call : SendCall) (id : String) : Prop :=
  id ∈ call.entryIds ∧ ((∃ error, call.answer = .error error) ∨
    ∃ output, call.answer = .ok output ∧ id ∈ output.failed.map (·.id))

theorem SendCall.rejects_iff (call : SendCall) (id : String) :
    call.Rejects id ↔ id ∈ call.entryIds ∧ id ∈ call.reported := by
  unfold SendCall.Rejects SendCall.reported
  cases call.answer with
  | ok output => simp
  | error e => simp

theorem SendCall.accepts_of_not_rejects {call : SendCall} {id : String} (hid : id ∈ call.entryIds)
    (h : ¬ call.Rejects id) : call.Accepts id := by
  rw [call.accepts_iff_not_reported hid]
  exact fun hrep => h ((call.rejects_iff id).mpr ⟨hid, hrep⟩)

section

variable {α β : Type*}

/-- Two ways of listing that take turns list together what both draw from. -/
theorem filterMap_append_perm {l : List α} {f g h : α → Option β}
    (hturn : ∀ a ∈ l, (f a = h a ∧ g a = none) ∨ (f a = none ∧ g a = h a)) :
    (l.filterMap f ++ l.filterMap g).Perm (l.filterMap h) := by
  induction l with
  | nil => exact List.Perm.refl _
  | cons a l ih =>
    have htail := ih (fun b hb => hturn b (List.mem_cons_of_mem a hb))
    rcases hturn a List.mem_cons_self with ⟨hf, hg⟩ | ⟨hf, hg⟩
    · cases hh : h a with
      | none => simpa [List.filterMap_cons, hf, hg, hh] using htail
      | some b => simpa [List.filterMap_cons, hf, hg, hh] using htail
    · cases hh : h a with
      | none => simpa [List.filterMap_cons, hf, hg, hh] using htail
      | some b =>
        simp only [List.filterMap_cons, hf, hg, hh]
        exact List.perm_middle.trans (htail.cons b)

theorem nodup_flatMap_of_subset {l : List α} {f g : α → List β} (hf : (l.flatMap f).Nodup)
    (hsub : ∀ a ∈ l, g a ⊆ f a) (hg : ∀ a ∈ l, (g a).Nodup) : (l.flatMap g).Nodup := by
  rw [List.nodup_flatMap] at hf ⊢
  refine ⟨hg, hf.2.imp_of_mem ?_⟩
  intro a b ha hb hdisj x hxa hxb
  exact hdisj (hsub a ha hxa) (hsub b hb hxb)

/-- In a list of lists without repetition, a value determines the position that holds it. -/
theorem position_unique {l : List α} {f : α → List β} (hf : (l.flatMap f).Nodup) {i j : ℕ}
    {a b : α} (hi : l[i]? = some a) (hj : l[j]? = some b) {x : β} (ha : x ∈ f a) (hb : x ∈ f b) :
    i = j := by
  have hpair := (List.nodup_flatMap.mp hf).2
  obtain ⟨hilt, rfl⟩ := List.getElem?_eq_some_iff.mp hi
  obtain ⟨hjlt, rfl⟩ := List.getElem?_eq_some_iff.mp hj
  rw [List.pairwise_iff_getElem] at hpair
  rcases lt_trichotomy i j with hlt | heq | hgt
  · exact absurd hb (hpair i j hilt hjlt hlt ha)
  · exact heq
  · exact absurd ha (hpair j i hjlt hilt hgt hb)

end

variable {env : Environment} {store : ConfigStore} {inv : Invocation} {resolved : Resolved}

theorem covered_of_zipIdx (h : (resolvePass env store inv).result = .ok resolved)
    {record : SqsMessage} {i : ℕ} (hmem : (record, i) ∈ inv.records.zipIdx) :
    ∀ arn, record.eventSourceArn = some arn → arn ∈ resolved :=
  resolvePass_covers h record (List.fst_mem_of_mem_zipIdx hmem)

theorem zipIdx_filterMap_messageId (records : List SqsMessage) :
    records.zipIdx.filterMap (fun item => item.1.messageId) =
      records.filterMap (·.messageId) := by
  conv_rhs => rw [← List.zipIdx_map_fst 0 records, List.filterMap_map]
  rfl

/-- The ids pushed onto the failures and the ids of the requests are the ids of the records. -/
theorem pass_ids_perm (h : (resolvePass env store inv).result = .ok resolved) :
    (passFailures resolved inv ++ (passSends resolved inv).map (·.1)).Perm
      (inv.records.filterMap (·.messageId)) := by
  rw [← zipIdx_filterMap_messageId, passFailures, passSends, List.map_filterMap]
  apply filterMap_append_perm
  rintro ⟨record, i⟩ hmem
  rcases unsent_or_replay (inv.rng i) (covered_of_zipIdx h hmem) with
    ⟨-, hfail, hsend⟩ | ⟨-, hfail, request, hreplay⟩
  · exact Or.inl ⟨hfail, by simp [hsend]⟩
  · refine Or.inr ⟨hfail, ?_⟩
    simp only [sendOf, hreplay, Option.map_map]
    cases record.messageId <;> rfl

theorem DistinctIds.ids_nodup {records : List SqsMessage} (h : DistinctIds records) :
    (records.filterMap (·.messageId)).Nodup := by
  have hmap : records.filterMap (·.messageId) = (records.map (·.messageId)).filterMap id := by
    rw [List.filterMap_map]
    rfl
  rw [hmap]
  apply h.nodup.filterMap
  rintro a b c ha hb
  exact (show a = some c from ha).trans (show b = some c from hb).symm

theorem mem_passFailures_iff_unsent (h : (resolvePass env store inv).result = .ok resolved)
    (id : String) :
    id ∈ passFailures resolved inv ↔
      ∃ record i, (record, i) ∈ inv.records.zipIdx ∧ record.messageId = some id ∧
        Unsent resolved (inv.rng i) record := by
  rw [mem_passFailures]
  constructor
  · rintro ⟨record, i, hmem, hfail⟩
    rcases unsent_or_replay (inv.rng i) (covered_of_zipIdx h hmem) with
      ⟨hunsent, hf, -⟩ | ⟨-, hf, -⟩
    · exact ⟨record, i, hmem, hf.symm.trans hfail, hunsent⟩
    · rw [hf] at hfail
      cases hfail
  · rintro ⟨record, i, hmem, hid, hunsent⟩
    rcases unsent_or_replay (inv.rng i) (covered_of_zipIdx h hmem) with
      ⟨-, hf, -⟩ | ⟨hnot, -, -⟩
    · exact ⟨record, i, hmem, hf.trans hid⟩
    · exact absurd hunsent hnot

theorem exists_call_of_sent (h : (resolvePass env store inv).result = .ok resolved)
    {record : SqsMessage} {i : ℕ} {id : String} (hmem : (record, i) ∈ inv.records.zipIdx)
    (hid : record.messageId = some id) (hsent : ¬ Unsent resolved (inv.rng i) record) :
    ∃ request, disposition resolved (inv.rng i) record = .replay request ∧
      ∃ call ∈ (handle env store inv).calls, toBatchEntry id request ∈ call.input.entries := by
  rcases unsent_or_replay (inv.rng i) (covered_of_zipIdx h hmem) with
    ⟨hunsent, -, -⟩ | ⟨-, -, request, hreplay⟩
  · exact absurd hunsent hsent
  · refine ⟨request, hreplay, ?_⟩
    rw [(handle_of_resolve_ok h).1]
    exact exists_sendCalls_entry _ _ (mem_passSends.mpr ⟨record, i, hmem, hid, hreplay⟩)

theorem mem_entryIds_of_entry {call : SendCall} {id : String} {request : ReplayRequest}
    (h : toBatchEntry id request ∈ call.input.entries) : id ∈ call.entryIds :=
  List.mem_map.mpr ⟨_, h, rfl⟩

/-- With distinct ids, no id is in two calls, and none is both a failure of the second pass and an
entry of a call. -/
theorem call_ids_nodup (h : (resolvePass env store inv).result = .ok resolved)
    (hids : DistinctIds inv.records) :
    (passFailures resolved inv ++ (handle env store inv).calls.flatMap (·.entryIds)).Nodup := by
  rw [(handle_of_resolve_ok h).1]
  have hcalls := sendCalls_ids_perm inv.sqs inv.order (passSends resolved inv)
  exact (((List.Perm.refl _).append hcalls).trans (pass_ids_perm h)).nodup_iff.mpr hids.ids_nodup

theorem mem_call_ids_of_event (h : (resolvePass env store inv).result = .ok resolved) {id : String}
    (hid : id ∈ (handle env store inv).calls.flatMap (·.entryIds)) :
    ∃ record i, (record, i) ∈ inv.records.zipIdx ∧ record.messageId = some id := by
  rw [(handle_of_resolve_ok h).1] at hid
  have hsend := (sendCalls_ids_perm inv.sqs inv.order (passSends resolved inv)).mem_iff.mp hid
  obtain ⟨⟨id', request⟩, hmem, rfl⟩ := List.mem_map.mp hsend
  obtain ⟨record, i, hrecord, hmid, -⟩ := mem_passSends.mp hmem
  exact ⟨record, i, hrecord, hmid⟩

/-- The record has no request, or its entry was rejected. -/
def Unreplayed (resolved : Resolved) (calls : List SendCall) (rng : Rng) (record : SqsMessage) :
    Prop :=
  Unsent resolved rng record ∨
    ∃ id, record.messageId = some id ∧ ∃ call ∈ calls, call.Rejects id

theorem mem_rejected_iff {calls : List SendCall} (hsqs : ∀ call ∈ calls, call.WellAnswered)
    (id : String) : id ∈ calls.flatMap (·.reported) ↔ ∃ call ∈ calls, call.Rejects id := by
  rw [List.mem_flatMap]
  constructor
  · rintro ⟨call, hcall, hrep⟩
    exact ⟨call, hcall, (call.rejects_iff id).mpr
      ⟨call.reported_subset (hsqs call hcall) hrep, hrep⟩⟩
  · rintro ⟨call, hcall, hrej⟩
    exact ⟨call, hcall, ((call.rejects_iff id).mp hrej).2⟩

theorem mem_reported_iff_unreplayed (h : (resolvePass env store inv).result = .ok resolved)
    (hsqs : ∀ call ∈ (handle env store inv).calls, call.WellAnswered) (id : String) :
    id ∈ passFailures resolved inv ++ (handle env store inv).calls.flatMap (·.reported) ↔
      ∃ record i, (record, i) ∈ inv.records.zipIdx ∧ record.messageId = some id ∧
        Unreplayed resolved (handle env store inv).calls (inv.rng i) record := by
  rw [List.mem_append, mem_passFailures_iff_unsent h, mem_rejected_iff hsqs]
  constructor
  · rintro (⟨record, i, hmem, hid, hunsent⟩ | ⟨call, hcall, hrej⟩)
    · exact ⟨record, i, hmem, hid, Or.inl hunsent⟩
    · obtain ⟨record, i, hmem, hid⟩ :=
        mem_call_ids_of_event h (List.mem_flatMap.mpr ⟨call, hcall, hrej.1⟩)
      exact ⟨record, i, hmem, hid, Or.inr ⟨id, hid, call, hcall, hrej⟩⟩
  · rintro ⟨record, i, hmem, hid, hunsent | ⟨id', hid', hrej⟩⟩
    · exact Or.inl ⟨record, i, hmem, hid, hunsent⟩
    · obtain rfl : id = id' := Option.some.inj (hid.symm.trans hid')
      exact Or.inr hrej

theorem reported_ids_nodup (h : (resolvePass env store inv).result = .ok resolved)
    (hids : DistinctIds inv.records)
    (hsqs : ∀ call ∈ (handle env store inv).calls, call.WellAnswered) :
    (passFailures resolved inv ++ (handle env store inv).calls.flatMap (·.reported)).Nodup := by
  obtain ⟨hfail, hcalls, hdisj⟩ := List.nodup_append'.mp (call_ids_nodup h hids)
  refine List.nodup_append'.mpr ⟨hfail, ?_, ?_⟩
  · exact nodup_flatMap_of_subset hcalls
      (fun call hcall => call.reported_subset (hsqs call hcall))
      (fun call hcall => call.reported_nodup (hsqs call hcall)
        ((List.nodup_flatMap.mp hcalls).1 call hcall))
  · intro id hid hrep
    obtain ⟨call, hcall, hrej⟩ := (mem_rejected_iff hsqs id).mp hrep
    exact hdisj hid (List.mem_flatMap.mpr ⟨call, hcall, hrej.1⟩)

/-- A record that was replayed is one entry of one call, which accepted it. -/
theorem replayed_in_one_call (h : (resolvePass env store inv).result = .ok resolved)
    (hids : DistinctIds inv.records) {record : SqsMessage} {i : ℕ} {id : String}
    (hmem : (record, i) ∈ inv.records.zipIdx) (hid : record.messageId = some id)
    (hrep : ¬ Unreplayed resolved (handle env store inv).calls (inv.rng i) record) :
    ∃ (k : ℕ) (call : SendCall), (handle env store inv).calls[k]? = some call ∧
      call.entryIds.count id = 1 ∧ call.Accepts id ∧
      ∀ (k' : ℕ) (call' : SendCall), (handle env store inv).calls[k']? = some call' →
        id ∈ call'.entryIds → k' = k := by
  obtain ⟨-, hnodup, -⟩ := List.nodup_append'.mp (call_ids_nodup h hids)
  obtain ⟨request, -, call, hcall, hentry⟩ :=
    exists_call_of_sent h hmem hid (fun hunsent => hrep (Or.inl hunsent))
  have hin := mem_entryIds_of_entry hentry
  have hnot : ¬ call.Rejects id := fun hrej => hrep (Or.inr ⟨id, hid, call, hcall, hrej⟩)
  obtain ⟨k, hk⟩ := List.mem_iff_getElem?.mp hcall
  refine ⟨k, call, hk, ?_, SendCall.accepts_of_not_rejects hin hnot, ?_⟩
  · exact List.count_eq_one_of_mem ((List.nodup_flatMap.mp hnodup).1 call hcall) hin
  · intro k' call' hk' hin'
    exact position_unique hnodup hk' hk hin' hin

theorem handle_result_eq (h : (resolvePass env store inv).result = .ok resolved) :
    (handle env store inv).result = .ok ⟨(passFailures resolved inv ++
      (handle env store inv).calls.flatMap (·.reported)).map BatchItemFailure.mk⟩ := by
  rw [(handle_of_resolve_ok h).1, (handle_of_resolve_ok h).2]

/-- Exact accounting. With distinct ids and loads that succeed, the invocation returns `Ok`; its
failures are, each once, the ids of the records without a request or with a rejected entry; every
other record is an entry of exactly one call, which accepted it; no id is in two calls, and no id
comes from outside the event. -/
theorem handle_accounting (env : Environment) (store : ConfigStore) (inv : Invocation)
    (resolved : Resolved) (hload : (resolvePass env store inv).result = .ok resolved)
    (hids : DistinctIds inv.records)
    (hsqs : ∀ call ∈ (handle env store inv).calls, call.WellAnswered) :
    ∃ response, (handle env store inv).result = .ok response ∧
      (response.identifiers.Nodup ∧
        ∀ id, id ∈ response.identifiers ↔
          ∃ record i, (record, i) ∈ inv.records.zipIdx ∧ record.messageId = some id ∧
            Unreplayed resolved (handle env store inv).calls (inv.rng i) record) ∧
      (∀ record i id, (record, i) ∈ inv.records.zipIdx → record.messageId = some id →
        ¬ Unreplayed resolved (handle env store inv).calls (inv.rng i) record →
        ∃ (k : ℕ) (call : SendCall), (handle env store inv).calls[k]? = some call ∧
          call.entryIds.count id = 1 ∧ call.Accepts id ∧
          ∀ (k' : ℕ) (call' : SendCall), (handle env store inv).calls[k']? = some call' →
            id ∈ call'.entryIds → k' = k) ∧
      ((handle env store inv).calls.flatMap (·.entryIds)).Nodup ∧
      (∀ id ∈ (handle env store inv).calls.flatMap (·.entryIds),
        some id ∈ inv.records.map (·.messageId)) ∧
      ∀ id ∈ response.identifiers, some id ∈ inv.records.map (·.messageId) := by
  refine ⟨_, handle_result_eq hload, ?_, ?_, ?_, ?_, ?_⟩
  · rw [identifiers_mk]
    exact ⟨reported_ids_nodup hload hids hsqs, mem_reported_iff_unreplayed hload hsqs⟩
  · intro record i id hmem hid hrep
    exact replayed_in_one_call hload hids hmem hid hrep
  · exact (List.nodup_append'.mp (call_ids_nodup hload hids)).2.1
  · intro id hid
    obtain ⟨record, i, hmem, hmid⟩ := mem_call_ids_of_event hload hid
    exact List.mem_map.mpr ⟨record, List.fst_mem_of_mem_zipIdx hmem, hmid⟩
  · intro id hid
    rw [identifiers_mk, mem_reported_iff_unreplayed hload hsqs] at hid
    obtain ⟨record, i, hmem, hmid, -⟩ := hid
    exact List.mem_map.mpr ⟨record, List.fst_mem_of_mem_zipIdx hmem, hmid⟩

/-- A record whose entry is refused, one without an attempt left, and one that is replayed. -/
def sampleBatch : List SqsMessage :=
  [sampleRecord (some "id-1"), countedRecord "id-2" "3", sampleRecord (some "id-3")]

theorem handle_accounting_sample :
    (handle sampleEnvironment sampleStore (refusingInvocation sampleBatch)).result =
        .ok ⟨[⟨"id-2"⟩, ⟨"id-1"⟩]⟩ ∧
      ∃ (k : ℕ) (call : SendCall),
        (handle sampleEnvironment sampleStore (refusingInvocation sampleBatch)).calls[k]? =
          some call ∧ call.entryIds.count "id-3" = 1 ∧ call.Accepts "id-3" ∧
        ∀ (k' : ℕ) (call' : SendCall),
          (handle sampleEnvironment sampleStore (refusingInvocation sampleBatch)).calls[k']? =
            some call' → "id-3" ∈ call'.entryIds → k' = k := by
  have hids : DistinctIds sampleBatch :=
    ⟨by simp [sampleBatch, sampleRecord, countedRecord],
      by simp [sampleBatch, sampleRecord, countedRecord]⟩
  have hresult : (handle sampleEnvironment sampleStore (refusingInvocation sampleBatch)).result =
      .ok ⟨[⟨"id-2"⟩, ⟨"id-1"⟩]⟩ := rfl
  have hcalls : (handle sampleEnvironment sampleStore
      (refusingInvocation sampleBatch)).calls.map (·.entryIds) = [["id-1", "id-3"]] := rfl
  obtain ⟨response, hresponse, ⟨-, hreported⟩, hreplayed, -⟩ :=
    handle_accounting sampleEnvironment sampleStore (refusingInvocation sampleBatch)
      sampleResolved rfl hids
      (fun _ => refusingInvocation_wellAnswered List.mem_cons_self hcalls)
  obtain rfl := Except.ok.inj (hresult.symm.trans hresponse)
  have hmem : (sampleRecord (some "id-3"), 2) ∈ sampleBatch.zipIdx :=
    List.mem_zipIdx_iff_getElem?.mpr rfl
  refine ⟨hresult, hreplayed _ 2 "id-3" hmem rfl ?_⟩
  intro hunreplayed
  have hnamed := (hreported "id-3").mpr ⟨_, 2, hmem, rfl, hunreplayed⟩
  simp [BatchResponse.identifiers] at hnamed

end ReplayBackoff
