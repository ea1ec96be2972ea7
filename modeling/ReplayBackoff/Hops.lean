import ReplayBackoff.ReplayRequest

/-!
# Hops of a replay chain

One hop builds the request for a record, turns it into a batch entry and receives the entry back
as the next record. SQS is an arbitrary function from entries to records that returns the body and
the message attributes of the entry. The stronger `ReturnsEntry` also has it return the trace
header and the deduplication and group ids.

The count carried by a record grows by one with every hop, and everything else that SQS returns
stays what it was in the first record.
-/

namespace ReplayBackoff

open DecimalText

/-- A message attribute as the consumer receives it. -/
def deliverAttribute (value : MessageAttributeValue) : SqsMessageAttribute where
  stringValue := value.stringValue
  binaryValue := value.binaryValue
  stringListValues := value.stringListValues.getD []
  binaryListValues := value.binaryListValues.getD []
  dataType := some value.dataType

namespace SendMessageBatchRequestEntry

def sentAttribute (entry : SendMessageBatchRequestEntry) (name : String) :
    Option MessageAttributeValue :=
  entry.messageAttributes.bind (·.lookup name)

/-- The trace header sent with an entry. -/
def traceHeader (entry : SendMessageBatchRequestEntry) : Option String :=
  entry.messageSystemAttributes.bind (fun attributes =>
    (attributes.lookup .awsTraceHeader).bind (·.stringValue))

end SendMessageBatchRequestEntry

structure ReturnsMessage (entry : SendMessageBatchRequestEntry) (record : SqsMessage) : Prop where
  body : record.body = some entry.messageBody
  messageAttributes : ∀ name,
    record.messageAttributes.lookup name = (entry.sentAttribute name).map deliverAttribute

structure ReturnsEntry (entry : SendMessageBatchRequestEntry) (record : SqsMessage) : Prop
    extends ReturnsMessage entry record where
  traceHeader : record.attributes.lookup traceHeaderPropertyName = entry.traceHeader
  deduplicationId :
    record.attributes.lookup "MessageDeduplicationId" = entry.messageDeduplicationId
  groupId : record.attributes.lookup "MessageGroupId" = entry.messageGroupId

/-- The record SQS delivers for an entry when it adds nothing of its own. -/
def returnRecord (entry : SendMessageBatchRequestEntry) : SqsMessage where
  messageId := some entry.id
  body := some entry.messageBody
  attributes := HashMap.collect
    (entry.traceHeader.toList.map (Prod.mk traceHeaderPropertyName) ++
      entry.messageDeduplicationId.toList.map (Prod.mk "MessageDeduplicationId") ++
      entry.messageGroupId.toList.map (Prod.mk "MessageGroupId"))
  messageAttributes := (entry.messageAttributes.getD ∅).mapValues deliverAttribute
  eventSourceArn := none

theorem returnRecord_returns (entry : SendMessageBatchRequestEntry) :
    ReturnsEntry entry (returnRecord entry) where
  body := rfl
  messageAttributes name := by
    rw [returnRecord, HashMap.lookup_mapValues, SendMessageBatchRequestEntry.sentAttribute]
    cases entry.messageAttributes <;> rfl
  traceHeader := by
    rw [returnRecord, HashMap.lookup_collect]
    cases entry.traceHeader <;> cases entry.messageDeduplicationId <;>
      cases entry.messageGroupId <;> rfl
  deduplicationId := by
    rw [returnRecord, HashMap.lookup_collect]
    cases entry.traceHeader <;> cases entry.messageDeduplicationId <;>
      cases entry.messageGroupId <;> rfl
  groupId := by
    rw [returnRecord, HashMap.lookup_collect]
    cases entry.traceHeader <;> cases entry.messageDeduplicationId <;>
      cases entry.messageGroupId <;> rfl

/-- A configuration with the draws, the message ids and the deliveries of the hops. -/
structure Hops where
  config : ResolvedQueueConfig
  rng : ℕ → Rng
  id : ℕ → String
  deliver : ℕ → SendMessageBatchRequestEntry → SqsMessage

namespace Hops

variable (h : Hops)

def hop (i : ℕ) (record : SqsMessage) : Option ReplayRequest :=
  match buildReplayRequest (h.rng i) h.config record with
  | .ok request => request
  | .error _ => none

def entry (i : ℕ) (request : ReplayRequest) : SendMessageBatchRequestEntry :=
  toBatchEntry (h.id i) request

/-- The record the chain has reached after some hops, as long as every hop produced a request. -/
def recordAt (first : SqsMessage) : ℕ → Option SqsMessage
  | 0 => some first
  | i + 1 => (recordAt first i).bind (fun record =>
      (h.hop i record).map (fun request => h.deliver i (h.entry i request)))

def requestAt (first : SqsMessage) (i : ℕ) : Option ReplayRequest :=
  (h.recordAt first i).bind (h.hop i)

theorem hop_eq_some_iff {i : ℕ} {record : SqsMessage} {request : ReplayRequest} :
    h.hop i record = some request ↔
      buildReplayRequest (h.rng i) h.config record = .ok (some request) := by
  unfold hop
  cases buildReplayRequest (h.rng i) h.config record <;> simp

theorem requestAt_eq_some_iff {first : SqsMessage} {i : ℕ} {request : ReplayRequest} :
    h.requestAt first i = some request ↔
      ∃ record, h.recordAt first i = some record ∧
        buildReplayRequest (h.rng i) h.config record = .ok (some request) := by
  simp only [requestAt, Option.bind_eq_some_iff, hop_eq_some_iff]

theorem recordAt_succ_eq_some_iff {first record : SqsMessage} {i : ℕ} :
    h.recordAt first (i + 1) = some record ↔
      ∃ request, h.requestAt first i = some request ∧
        record = h.deliver i (h.entry i request) := by
  simp only [recordAt, requestAt, Option.bind_eq_some_iff, Option.map_eq_some_iff]
  constructor
  · rintro ⟨previous, hprevious, request, hhop, rfl⟩
    exact ⟨request, ⟨previous, hprevious, hhop⟩, rfl⟩
  · rintro ⟨request, ⟨previous, hprevious, hhop⟩, rfl⟩
    exact ⟨previous, hprevious, request, hhop, rfl⟩

theorem recordAt_induction {first : SqsMessage} {P : ℕ → SqsMessage → Prop} (hzero : P 0 first)
    (hstep : ∀ i record request, P i record →
      buildReplayRequest (h.rng i) h.config record = .ok (some request) →
      P (i + 1) (h.deliver i (h.entry i request)))
    {i : ℕ} {record : SqsMessage} (hrecord : h.recordAt first i = some record) : P i record := by
  induction i generalizing record with
  | zero =>
    obtain rfl : first = record := Option.some.inj hrecord
    exact hzero
  | succ i ih =>
    obtain ⟨request, hrequest, rfl⟩ := h.recordAt_succ_eq_some_iff.mp hrecord
    obtain ⟨previous, hprevious, hbuild⟩ := h.requestAt_eq_some_iff.mp hrequest
    exact hstep i previous request (ih hprevious) hbuild

end Hops

section

variable {rng : Rng} {config : ResolvedQueueConfig} {record next : SqsMessage}
  {request : ReplayRequest} {id : String} {n : UInt32}

theorem sentAttribute_toBatchEntry (id : String) (request : ReplayRequest) (name : String) :
    (toBatchEntry id request).sentAttribute name = request.messageAttributes.lookup name := rfl

theorem systemAttributes_toBatchEntry
    (hbuild : buildReplayRequest rng config record = .ok (some request)) :
    (toBatchEntry id request).messageSystemAttributes =
      (record.attributes.lookup traceHeaderPropertyName).map
        (fun header => AList.singleton .awsTraceHeader ⟨some header, "String"⟩) := by
  obtain ⟨n, body, -, -, -, rfl⟩ := buildReplayRequest_some_iff.mp hbuild
  simp only [toBatchEntry, requestFor]
  cases hheader : record.attributes.lookup traceHeaderPropertyName with
  | none => simp [mapMessageSystemAttributes, hheader]
  | some header =>
    simp only [mapMessageSystemAttributes, hheader]
    rfl

theorem traceHeader_toBatchEntry
    (hbuild : buildReplayRequest rng config record = .ok (some request)) :
    (toBatchEntry id request).traceHeader = record.attributes.lookup traceHeaderPropertyName := by
  rw [SendMessageBatchRequestEntry.traceHeader, systemAttributes_toBatchEntry hbuild]
  cases record.attributes.lookup traceHeaderPropertyName <;> rfl

theorem replayNum_of_string {attr : SqsMessageAttribute} {value : String}
    (hattr : record.messageAttributes.lookup replayNumPropertyName = some attr)
    (hvalue : attr.stringValue = some value) (hparse : parseU32 value = some n) :
    replayNum record = .ok n := by
  unfold replayNum
  simp only [hattr, Option.bind_some, hvalue, Option.getD_some, hparse]

theorem replayNum_of_hop (hnum : replayNum record = .ok n)
    (hbuild : buildReplayRequest rng config record = .ok (some request))
    (hret : ReturnsMessage (toBatchEntry id request) next) : replayNum next = .ok (n + 1) := by
  obtain ⟨m, body, hm, -, -, rfl⟩ := buildReplayRequest_some_iff.mp hbuild
  obtain rfl : m = n := Except.ok.inj (hm.symm.trans hnum)
  have hattr := hret.messageAttributes replayNumPropertyName
  rw [sentAttribute_toBatchEntry, requestFor, lookup_count] at hattr
  exact replayNum_of_string hattr rfl (parseU32_formatU32 (m + 1))

theorem body_of_hop (hbuild : buildReplayRequest rng config record = .ok (some request))
    (hret : ReturnsMessage (toBatchEntry id request) next) : next.body = record.body := by
  obtain ⟨m, body, -, -, hbody, rfl⟩ := buildReplayRequest_some_iff.mp hbuild
  rw [hret.body, hbody]
  rfl

end

namespace Hops

variable (h : Hops)

/-- SQS returns the body and the attributes of every entry. -/
def ReturnsMessages : Prop := ∀ i entry, ReturnsMessage entry (h.deliver i entry)

def ReturnsEntries : Prop := ∀ i entry, ReturnsEntry entry (h.deliver i entry)

variable {h}

theorem ReturnsEntries.returnsMessages (hret : h.ReturnsEntries) : h.ReturnsMessages :=
  fun i entry => (hret i entry).toReturnsMessage

theorem ReturnsMessages.hop (hret : h.ReturnsMessages) (i : ℕ) (request : ReplayRequest) :
    ReturnsMessage (toBatchEntry (h.id i) request) (h.deliver i (h.entry i request)) := hret i _

theorem ReturnsEntries.hop (hret : h.ReturnsEntries) (i : ℕ) (request : ReplayRequest) :
    ReturnsEntry (toBatchEntry (h.id i) request) (h.deliver i (h.entry i request)) := hret i _

theorem replayNum_recordAt (hret : h.ReturnsMessages) {first record : SqsMessage} {n : UInt32}
    (hnum : replayNum first = .ok n) {i : ℕ} (hrecord : h.recordAt first i = some record) :
    replayNum record = .ok (n + UInt32.ofNat i) := by
  refine h.recordAt_induction (P := fun i record => replayNum record = .ok (n + UInt32.ofNat i))
    ?_ ?_ hrecord
  · simpa using hnum
  · intro i record request hprevious hbuild
    have hnext := replayNum_of_hop hprevious hbuild (hret.hop i request)
    rw [hnext, UInt32.ofNat_add, UInt32.add_assoc]
    rfl

theorem body_recordAt (hret : h.ReturnsMessages) {first record : SqsMessage} {i : ℕ}
    (hrecord : h.recordAt first i = some record) : record.body = first.body := by
  refine h.recordAt_induction (P := fun _ record => record.body = first.body) rfl ?_ hrecord
  intro i record request hprevious hbuild
  rw [body_of_hop hbuild (hret.hop i request), hprevious]

end Hops

def sampleHops : Hops where
  config := ⟨"https://sqs/Queue", 3, 30, 900, false⟩
  rng := fun _ => default
  id := fun i => "id-" ++ toString i
  deliver := fun _ entry => returnRecord entry

theorem sampleHops_returnsEntries : sampleHops.ReturnsEntries := fun _ => returnRecord_returns

end ReplayBackoff
