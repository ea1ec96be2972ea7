import ReplayBackoff.ReplayChain

/-!
# What a replay leaves unchanged

`SameMessage first record` says that the record differs from the first one in its count alone, as
far as SQS returns what it is sent. It holds of every record of a chain, so every entry carries the
body, the attributes, the trace header and the two ids of the first record.
-/

namespace ReplayBackoff

/-- Message attributes as SQS delivers them: each has a data type and empty lists. -/
def DeliveredAttributes (record : SqsMessage) : Prop :=
  ∀ name attr, record.messageAttributes.lookup name = some attr →
    attr.dataType.isSome ∧ attr.stringListValues = [] ∧ attr.binaryListValues = []

structure SameMessage (first record : SqsMessage) : Prop where
  body : record.body = first.body
  messageAttributes : ∀ name, name ≠ replayNumPropertyName →
    record.messageAttributes.lookup name = first.messageAttributes.lookup name
  traceHeader : record.attributes.lookup traceHeaderPropertyName =
    first.attributes.lookup traceHeaderPropertyName
  deduplicationId : record.attributes.lookup "MessageDeduplicationId" =
    first.attributes.lookup "MessageDeduplicationId"
  groupId : record.attributes.lookup "MessageGroupId" = first.attributes.lookup "MessageGroupId"

theorem SameMessage.refl (record : SqsMessage) : SameMessage record record :=
  ⟨rfl, fun _ _ => rfl, rfl, rfl, rfl⟩

theorem deliverAttribute_mapAttribute {attr : SqsMessageAttribute} (htype : attr.dataType.isSome)
    (hstrings : attr.stringListValues = []) (hbinaries : attr.binaryListValues = []) :
    deliverAttribute (mapAttribute attr) = attr := by
  obtain ⟨dataType, hdataType⟩ := Option.isSome_iff_exists.mp htype
  rw [mapAttribute_of_lists_empty hstrings hbinaries, hdataType]
  obtain ⟨stringValue, binaryValue, strings, binaries, type⟩ := attr
  obtain rfl : strings = [] := hstrings
  obtain rfl : binaries = [] := hbinaries
  obtain rfl : type = some dataType := hdataType
  rfl

section

variable {rng : Rng} {config : ResolvedQueueConfig} {first record next : SqsMessage}
  {request : ReplayRequest} {id : String}

theorem sentAttribute_of_ne (hsame : SameMessage first record)
    (hbuild : buildReplayRequest rng config record = .ok (some request)) {name : String}
    (hname : name ≠ replayNumPropertyName) :
    request.messageAttributes.lookup name =
      (first.messageAttributes.lookup name).map mapAttribute := by
  obtain ⟨n, body, -, -, -, rfl⟩ := buildReplayRequest_some_iff.mp hbuild
  rw [requestFor, lookup_mapMessageAttributes, if_neg hname, hsame.messageAttributes name hname]

theorem lookup_count_of_build {n : UInt32} (hn : replayNum record = .ok n)
    (hbuild : buildReplayRequest rng config record = .ok (some request)) :
    request.messageAttributes.lookup replayNumPropertyName = some (countAttribute (n + 1)) := by
  obtain ⟨m, body, hm, -, -, rfl⟩ := buildReplayRequest_some_iff.mp hbuild
  obtain rfl : m = n := Except.ok.inj (hm.symm.trans hn)
  exact lookup_count _ _

theorem mem_sentAttributes_iff (hsame : SameMessage first record)
    (hbuild : buildReplayRequest rng config record = .ok (some request)) (name : String) :
    name ∈ request.messageAttributes ↔
      name ∈ first.messageAttributes ∨ name = replayNumPropertyName := by
  by_cases hname : name = replayNumPropertyName
  · subst hname
    obtain ⟨n, body, hn, -⟩ := buildReplayRequest_some_iff.mp hbuild
    have hcount := lookup_count_of_build hn hbuild
    exact ⟨fun _ => Or.inr rfl, fun _ => (HashMap.mem_iff_exists_lookup _ _).mpr ⟨_, hcount⟩⟩
  · rw [or_iff_left hname, HashMap.mem_iff_exists_lookup, HashMap.mem_iff_exists_lookup,
      sentAttribute_of_ne hsame hbuild hname]
    simp [Option.map_eq_some_iff]

theorem sentAttribute_values (hdelivered : DeliveredAttributes first)
    (hsame : SameMessage first record)
    (hbuild : buildReplayRequest rng config record = .ok (some request)) {name : String}
    (hname : name ≠ replayNumPropertyName) {attr : SqsMessageAttribute}
    (hattr : first.messageAttributes.lookup name = some attr) :
    ∃ value, request.messageAttributes.lookup name = some value ∧
      value.stringValue = attr.stringValue ∧ value.binaryValue = attr.binaryValue ∧
      some value.dataType = attr.dataType ∧ value.stringListValues = none ∧
      value.binaryListValues = none := by
  obtain ⟨htype, hstrings, hbinaries⟩ := hdelivered name attr hattr
  obtain ⟨dataType, hdataType⟩ := Option.isSome_iff_exists.mp htype
  refine ⟨mapAttribute attr, ?_, ?_⟩
  · rw [sentAttribute_of_ne hsame hbuild hname, hattr]
    rfl
  · rw [mapAttribute_of_lists_empty hstrings hbinaries, hdataType]
    exact ⟨rfl, rfl, rfl, rfl, rfl⟩

theorem sameMessage_of_hop (hdelivered : DeliveredAttributes first)
    (hsame : SameMessage first record)
    (hbuild : buildReplayRequest rng config record = .ok (some request))
    (hret : ReturnsEntry (toBatchEntry id request) next) : SameMessage first next where
  body := (body_of_hop hbuild hret.toReturnsMessage).trans hsame.body
  messageAttributes name hname := by
    rw [hret.messageAttributes, sentAttribute_toBatchEntry, sentAttribute_of_ne hsame hbuild hname,
      Option.map_map]
    cases hattr : first.messageAttributes.lookup name with
    | none => rfl
    | some attr =>
      obtain ⟨htype, hstrings, hbinaries⟩ := hdelivered name attr hattr
      exact congrArg some (deliverAttribute_mapAttribute htype hstrings hbinaries)
  traceHeader := by
    rw [hret.traceHeader, traceHeader_toBatchEntry hbuild, hsame.traceHeader]
  deduplicationId := by
    obtain ⟨n, body, -, -, -, rfl⟩ := buildReplayRequest_some_iff.mp hbuild
    exact hret.deduplicationId.trans hsame.deduplicationId
  groupId := by
    obtain ⟨n, body, -, -, -, rfl⟩ := buildReplayRequest_some_iff.mp hbuild
    exact hret.groupId.trans hsame.groupId

end

theorem Hops.sameMessage_recordAt {h : Hops} (hret : h.ReturnsEntries) {first record : SqsMessage}
    (hdelivered : DeliveredAttributes first) {i : ℕ} (hrecord : h.recordAt first i = some record) :
    SameMessage first record :=
  h.recordAt_induction (P := fun _ => SameMessage first) (SameMessage.refl first)
    (fun i _ request hsame hbuild => sameMessage_of_hop hdelivered hsame hbuild (hret.hop i request))
    hrecord

/-- The count of a later record goes back to a count of the first one. -/
theorem Hops.exists_count_first {h : Hops} (hret : h.ReturnsMessages) {first record : SqsMessage}
    {m : UInt32} {i : ℕ} (hrecord : h.recordAt first i = some record)
    (hm : replayNum record = .ok m) :
    ∃ n, replayNum first = .ok n ∧ m = n + UInt32.ofNat i := by
  refine h.recordAt_induction (P := fun i record => ∀ m, replayNum record = .ok m →
    ∃ n, replayNum first = .ok n ∧ m = n + UInt32.ofNat i) ?_ ?_ hrecord m hm
  · intro m hm
    exact ⟨m, hm, by simp⟩
  · intro i record request hprevious hbuild m' hm'
    obtain ⟨m, body, hm, -⟩ := buildReplayRequest_some_iff.mp hbuild
    obtain ⟨n, hn, rfl⟩ := hprevious m hm
    rw [replayNum_of_hop hm hbuild (hret.hop i request)] at hm'
    refine ⟨n, hn, (Except.ok.inj hm').symm.trans ?_⟩
    rw [UInt32.ofNat_add, UInt32.add_assoc]
    rfl

/-- A replay never changes what the producer sent. The entry of every hop has the body of the first
record; its attribute names are those of the first record and the count; every other attribute has
the values and the data type it had; the count is there once and holds nothing but the number of
replays; and the trace header, the group id and the deduplication id are those of the first record,
with no further system attribute. -/
theorem replay_frame (h : Hops) (hret : h.ReturnsEntries) (first : SqsMessage)
    (hdelivered : DeliveredAttributes first) (i : ℕ) (request : ReplayRequest)
    (hrequest : h.requestAt first i = some request) :
    first.body = some (h.entry i request).messageBody ∧
    (∃ attributes, (h.entry i request).messageAttributes = some attributes ∧
      (∀ name, name ∈ attributes ↔
        name ∈ first.messageAttributes ∨ name = "sqs-dlq-replay-num") ∧
      (∀ name attr, name ≠ "sqs-dlq-replay-num" →
        first.messageAttributes.lookup name = some attr →
        ∃ value, attributes.lookup name = some value ∧ value.stringValue = attr.stringValue ∧
          value.binaryValue = attr.binaryValue ∧ some value.dataType = attr.dataType ∧
          value.stringListValues = none ∧ value.binaryListValues = none) ∧
      attributes.keys.count "sqs-dlq-replay-num" = 1 ∧
      ∃ n, CarriesCount first n ∧ attributes.lookup "sqs-dlq-replay-num" =
        some ⟨some (DecimalText.formatU32 (n + UInt32.ofNat (i + 1))), none, none, none,
          "Number"⟩) ∧
    (h.entry i request).messageSystemAttributes =
      (first.attributes.lookup "AWSTraceHeader").map
        (fun header => AList.singleton .awsTraceHeader ⟨some header, "String"⟩) ∧
    (h.entry i request).messageGroupId = first.attributes.lookup "MessageGroupId" ∧
    (h.entry i request).messageDeduplicationId =
      first.attributes.lookup "MessageDeduplicationId" := by
  obtain ⟨record, hrecord, hbuild⟩ := h.requestAt_eq_some_iff.mp hrequest
  have hsame := Hops.sameMessage_recordAt hret hdelivered hrecord
  obtain ⟨m, body, hm, -, hbody, hreq⟩ := buildReplayRequest_some_iff.mp hbuild
  have hcount := lookup_count_of_build hm hbuild
  refine ⟨?_, ⟨request.messageAttributes, rfl, mem_sentAttributes_iff hsame hbuild, ?_, ?_, ?_⟩, ?_,
    ?_, ?_⟩
  · rw [← hsame.body, hbody, hreq]
    rfl
  · exact fun name attr hname hattr => sentAttribute_values hdelivered hsame hbuild hname hattr
  · apply List.count_eq_one_of_mem request.messageAttributes.keys_nodup
    exact AList.mem_keys.mpr ((HashMap.mem_iff_exists_lookup _ _).mpr ⟨_, hcount⟩)
  · obtain ⟨n, hn, rfl⟩ := Hops.exists_count_first hret.returnsMessages hrecord hm
    refine ⟨n, replayNum_ok_iff.mp hn, hcount.trans ?_⟩
    rw [countAttribute, UInt32.ofNat_add, ← UInt32.add_assoc]
    rfl
  · rw [Hops.entry, systemAttributes_toBatchEntry hbuild, hsame.traceHeader]
    rfl
  · rw [← hsame.groupId, hreq]
    rfl
  · rw [← hsame.deduplicationId, hreq]
    rfl

/-- A traced message of a producer that already uses the name of the count. -/
def tracedMessage : SqsMessage where
  messageId := some "id-1"
  body := some "hello"
  attributes := AList.singleton "AWSTraceHeader" "Root=1"
  messageAttributes := AList.singleton "sqs-dlq-replay-num" ⟨some "1", none, [], [], some "String"⟩
  eventSourceArn := none

theorem tracedMessage_delivered : DeliveredAttributes tracedMessage := by
  intro name attr hattr
  have hmem := (HashMap.mem_entries_iff_lookup _ _ _).mpr hattr
  cases List.mem_singleton.mp hmem
  exact ⟨rfl, rfl, rfl⟩

theorem replay_frame_sample :
    ∃ request, sampleHops.requestAt tracedMessage 1 = some request ∧
      (sampleHops.entry 1 request).messageBody = "hello" ∧
      (sampleHops.entry 1 request).messageSystemAttributes =
        some (AList.singleton .awsTraceHeader ⟨some "Root=1", "String"⟩) := by
  obtain ⟨request, hrequest⟩ := Option.isSome_iff_exists.mp
    (show (sampleHops.requestAt tracedMessage 1).isSome by decide)
  obtain ⟨hbody, -, hsystem, -⟩ := replay_frame sampleHops sampleHops_returnsEntries tracedMessage
    tracedMessage_delivered 1 request hrequest
  exact ⟨request, hrequest, (Option.some.inj hbody).symm, hsystem⟩

end ReplayBackoff
