import ReplayBackoff.Accounting
import ReplayBackoff.Library.JsonRoundTrip

/-!
# The partial-failure report on the wire

`encode` is the JSON text of the derived serializers: the response renames its field to camel case,
the item does not. `decodeReport` is the contract of the event source mapping, which takes the
identifiers from the `itemIdentifier` members and redelivers the whole batch when one of them cannot
be read. The two agree on the empty report only.
-/

namespace ReplayBackoff

namespace BatchItemFailure

def toJson (failure : BatchItemFailure) : Json :=
  .object [("item_identifier", .string failure.itemIdentifier)]

end BatchItemFailure

namespace BatchResponse

def toJson (response : BatchResponse) : Json :=
  .object [("batchItemFailures", .array (response.batchItemFailures.map BatchItemFailure.toJson))]

def encode (response : BatchResponse) : String := Json.stringify response.toJson

end BatchResponse

/-- What the event source mapping makes of a report. -/
inductive Redelivery where
  | only (ids : List String)
  | wholeBatch
  deriving DecidableEq, Repr

def member? (members : List (String × Json)) (name : String) : Option Json :=
  (members.find? (fun m => m.1 = name)).map (·.2)

/-- The identifier of an item. It has to be present, a string, and non-empty. -/
def itemIdentifier? : Json → Option String
  | .object members =>
    match member? members "itemIdentifier" with
    | some (.string id) => if id = "" then none else some id
    | _ => none
  | _ => none

def redeliveryOf : List Json → Redelivery
  | items =>
    match items.mapM itemIdentifier? with
    | some ids => .only ids
    | none => .wholeBatch

def decodeReport (text : String) : Redelivery :=
  match Json.parse text with
  | some (.object members) =>
    match member? members "batchItemFailures" with
    | some (.array items) => redeliveryOf items
    | some .null => .only []
    | none => .only []
    | some _ => .wholeBatch
  | some .null => .only []
  | _ => .wholeBatch

/-- The records that return to the queue. -/
def redelivered (report : Redelivery) (records : List SqsMessage) : List SqsMessage :=
  match report with
  | .wholeBatch => records
  | .only ids => records.filter (fun record => record.messageId.any (fun id => id ∈ ids))

theorem wellFormed_failures (failures : List BatchItemFailure) :
    Json.WellFormedItems (failures.map BatchItemFailure.toJson) := by
  induction failures with
  | nil => trivial
  | cons failure failures ih => exact ⟨⟨trivial, trivial⟩, ih⟩

theorem parse_encode (response : BatchResponse) :
    Json.parse response.encode = some response.toJson :=
  Json.parse_stringify _ ⟨wellFormed_failures _, trivial⟩

theorem itemIdentifier?_toJson (failure : BatchItemFailure) :
    itemIdentifier? failure.toJson = none := by
  simp [itemIdentifier?, BatchItemFailure.toJson, member?]

theorem decodeReport_encode (response : BatchResponse) :
    decodeReport response.encode =
      if response.batchItemFailures = [] then .only [] else .wholeBatch := by
  have hmember : member? [("batchItemFailures",
      Json.array (response.batchItemFailures.map BatchItemFailure.toJson))] "batchItemFailures" =
        some (.array (response.batchItemFailures.map BatchItemFailure.toJson)) := by
    simp [member?]
  simp only [decodeReport, parse_encode, BatchResponse.toJson, hmember]
  cases response.batchItemFailures with
  | nil => rfl
  | cons failure failures =>
    simp [redeliveryOf, itemIdentifier?_toJson]

theorem redelivered_whole_iff {records : List SqsMessage} {P : SqsMessage → ℕ → Prop} :
    (∀ record i, (record, i) ∈ records.zipIdx →
      (record ∈ redelivered .wholeBatch records ↔ P record i)) ↔
      ∀ record i, (record, i) ∈ records.zipIdx → P record i := by
  constructor
  · intro h record i hmem
    exact (h record i hmem).mp (List.fst_mem_of_mem_zipIdx hmem)
  · intro h record i hmem
    exact ⟨fun _ => h record i hmem, fun _ => List.fst_mem_of_mem_zipIdx hmem⟩

theorem redelivered_none_iff {records : List SqsMessage} {P : SqsMessage → ℕ → Prop} :
    (∀ record i, (record, i) ∈ records.zipIdx →
      (record ∈ redelivered (.only []) records ↔ P record i)) ↔
      ∀ record i, (record, i) ∈ records.zipIdx → ¬ P record i := by
  have hnone : redelivered (.only []) records = [] := by simp [redelivered]
  simp [hnone]

variable {env : Environment} {store : ConfigStore} {inv : Invocation} {resolved : Resolved}

/-- A response without failures belongs to an event whose records were all replayed. -/
theorem failures_eq_nil_iff (hload : (resolvePass env store inv).result = .ok resolved)
    (hids : DistinctIds inv.records)
    (hsqs : ∀ call ∈ (handle env store inv).calls, call.WellAnswered) {response : BatchResponse}
    (hresponse : (handle env store inv).result = .ok response) :
    response.batchItemFailures = [] ↔
      ∀ record i, (record, i) ∈ inv.records.zipIdx →
        ¬ Unreplayed resolved (handle env store inv).calls (inv.rng i) record := by
  have heq := handle_result_eq hload
  rw [hresponse] at heq
  obtain rfl := Except.ok.inj heq
  have hmem := mem_reported_iff_unreplayed hload hsqs
  rw [List.map_eq_nil_iff, List.eq_nil_iff_forall_not_mem]
  simp only [hmem]
  constructor
  · intro h record i hrecord hun
    obtain ⟨id, hid, -⟩ := hids.present record (List.fst_mem_of_mem_zipIdx hrecord)
    exact h id ⟨record, i, hrecord, hid, hun⟩
  · rintro h id ⟨record, i, hrecord, -, hun⟩
    exact h record i hrecord hun

/-- The report means what it says exactly when it is empty, and the records redelivered after an
invocation are those that were not replayed exactly when none or all of them are. -/
theorem report_decodes_iff (response : BatchResponse) :
    ((∀ id ∈ response.identifiers, id ≠ "") →
      (decodeReport response.encode = .only response.identifiers ↔
        response.batchItemFailures = [])) ∧
    ∀ (env : Environment) (store : ConfigStore) (inv : Invocation) (resolved : Resolved),
      (resolvePass env store inv).result = .ok resolved →
      DistinctIds inv.records → (∀ call ∈ (handle env store inv).calls, call.WellAnswered) →
      (handle env store inv).result = .ok response →
      ((∀ record i, (record, i) ∈ inv.records.zipIdx →
          (record ∈ redelivered (decodeReport response.encode) inv.records ↔
            Unreplayed resolved (handle env store inv).calls (inv.rng i) record)) ↔
        (∀ record i, (record, i) ∈ inv.records.zipIdx →
          ¬ Unreplayed resolved (handle env store inv).calls (inv.rng i) record) ∨
        ∀ record i, (record, i) ∈ inv.records.zipIdx →
          Unreplayed resolved (handle env store inv).calls (inv.rng i) record) := by
  constructor
  · intro _
    rw [decodeReport_encode]
    split_ifs with hnil
    · simp [BatchResponse.identifiers, hnil]
    · simp [hnil]
  · intro env store inv resolved hload hids hsqs hresponse
    have hnil := failures_eq_nil_iff hload hids hsqs hresponse
    rw [decodeReport_encode]
    by_cases hempty : response.batchItemFailures = []
    · rw [if_pos hempty, redelivered_none_iff]
      exact ⟨Or.inl, fun _ => hnil.mp hempty⟩
    · rw [if_neg hempty, redelivered_whole_iff]
      refine ⟨Or.inr, ?_⟩
      rintro (hnone | hall)
      · exact absurd (hnil.mpr hnone) hempty
      · exact hall

/-- A record whose entry is refused, one without an attempt left, one with a count that cannot be
read, and one without an ARN. -/
def failingBatch : List SqsMessage :=
  [sampleRecord (some "id-1"), countedRecord "id-2" "3", countedRecord "id-3" "many",
    { sampleRecord (some "id-4") with eventSourceArn := none }]

def failingReport : BatchResponse := ⟨[⟨"id-2"⟩, ⟨"id-3"⟩, ⟨"id-4"⟩, ⟨"id-1"⟩]⟩

theorem failingBatch_unreplayed : ∀ record i, (record, i) ∈ failingBatch.zipIdx →
    Unreplayed sampleResolved
      (handle sampleEnvironment sampleStore (refusingInvocation failingBatch)).calls
      ((refusingInvocation failingBatch).rng i) record := by
  intro record i hmem
  simp only [failingBatch, List.zipIdx_cons, List.zipIdx_nil, List.mem_cons, Prod.mk.injEq,
    List.not_mem_nil, or_false] at hmem
  rcases hmem with ⟨rfl, rfl⟩ | ⟨rfl, rfl⟩ | ⟨rfl, rfl⟩ | ⟨rfl, rfl⟩
  · exact Or.inr ⟨"id-1", rfl, _, List.mem_of_getElem? (i := 0) rfl, List.mem_cons_self,
      Or.inr ⟨_, rfl, List.mem_cons_self⟩⟩
  · exact Or.inl (Or.inr ⟨_, rfl, Or.inr ⟨_, rfl, Or.inl rfl⟩⟩)
  · exact Or.inl (Or.inr ⟨_, rfl, Or.inr ⟨_, rfl, Or.inr ⟨_, rfl⟩⟩⟩)
  · exact Or.inl (Or.inl rfl)

theorem report_decodes_iff_sample :
    decodeReport (BatchResponse.encode ⟨[]⟩) = .only [] ∧
      ∀ record ∈ failingBatch,
        record ∈ redelivered (decodeReport failingReport.encode) failingBatch := by
  constructor
  · exact ((report_decodes_iff ⟨[]⟩).1 (by simp [BatchResponse.identifiers])).mpr rfl
  · have hids : DistinctIds failingBatch :=
      ⟨by simp [failingBatch, sampleRecord, countedRecord],
        by simp [failingBatch, sampleRecord, countedRecord]⟩
    have hcalls : (handle sampleEnvironment sampleStore
        (refusingInvocation failingBatch)).calls.map (·.entryIds) = [["id-1"]] := rfl
    have hiff := (report_decodes_iff failingReport).2 sampleEnvironment sampleStore
      (refusingInvocation failingBatch) sampleResolved rfl hids
      (fun _ => refusingInvocation_wellAnswered List.mem_cons_self hcalls) rfl
    intro record hrecord
    obtain ⟨i, hi⟩ := List.mem_iff_getElem?.mp hrecord
    have hmem : (record, i) ∈ failingBatch.zipIdx := List.mem_zipIdx_iff_getElem?.mpr hi
    exact (hiff.mpr (Or.inr failingBatch_unreplayed) record i hmem).mpr
      (failingBatch_unreplayed record i hmem)

/-- One failed message brings the whole batch back. -/
theorem report_of_one_failure :
    decodeReport (BatchResponse.encode ⟨[⟨"id-1"⟩]⟩) = .wholeBatch ∧
      decodeReport (BatchResponse.encode ⟨[⟨"id-1"⟩]⟩) ≠ .only ["id-1"] := by
  simp [decodeReport_encode]

end ReplayBackoff
