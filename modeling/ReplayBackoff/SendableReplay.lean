import ReplayBackoff.ChunkPayload
import ReplayBackoff.ReplayChain

/-!
# Whether a replay can be sent

SQS limits the number of message attributes and the bytes of body and attributes together. A record
that obeyed these limits is sent again with its attributes and the replay count. The count takes the
place of an older one, so an eleventh attribute appears only when there was none. The bytes of the
count come on top of the rest of the record.
-/

namespace ReplayBackoff

open DecimalText

/-- What the limits of SQS see of a message attribute. -/
structure SizedAttribute where
  name : String
  dataType : String
  valueBytes : ℕ
  deriving DecidableEq, Repr

def SizedAttribute.bytes (attr : SizedAttribute) : ℕ :=
  attr.name.utf8ByteSize + attr.dataType.utf8ByteSize + attr.valueBytes

structure WithinMessageLimits (body : String) (attributes : List SizedAttribute) : Prop where
  count_le : attributes.length ≤ 10
  named : ∀ attr ∈ attributes, attr.name ≠ "" ∧ attr.dataType ≠ ""
  bytes_le : body.utf8ByteSize + (attributes.map SizedAttribute.bytes).sum ≤ 262144

def listBytes (strings : List String) (binaries : List Bytes) : ℕ :=
  (strings.map String.utf8ByteSize).sum + (binaries.map List.length).sum

def SqsMessageAttribute.sized (name : String) (attr : SqsMessageAttribute) : SizedAttribute where
  name := name
  dataType := attr.dataType.getD ""
  valueBytes := valueBytes attr.stringValue attr.binaryValue +
    listBytes attr.stringListValues attr.binaryListValues

def MessageAttributeValue.sized (name : String) (value : MessageAttributeValue) :
    SizedAttribute where
  name := name
  dataType := value.dataType
  valueBytes := valueBytes value.stringValue value.binaryValue +
    listBytes (value.stringListValues.getD []) (value.binaryListValues.getD [])

def SqsMessage.sizedAttributes (record : SqsMessage) : List SizedAttribute :=
  record.messageAttributes.entries.map (fun e => e.2.sized e.1)

def SqsMessage.WithinLimits (record : SqsMessage) : Prop :=
  WithinMessageLimits (record.body.getD "") record.sizedAttributes

def SendMessageBatchRequestEntry.sizedAttributes (entry : SendMessageBatchRequestEntry) :
    List SizedAttribute :=
  (entry.messageAttributes.getD ∅).entries.map (fun e => e.2.sized e.1)

def SendMessageBatchRequestEntry.WithinLimits (entry : SendMessageBatchRequestEntry) : Prop :=
  WithinMessageLimits entry.messageBody entry.sizedAttributes

/-- The attributes of a record apart from an earlier replay count. -/
def SqsMessage.otherAttributes (record : SqsMessage) : List SizedAttribute :=
  record.sizedAttributes.filter (fun attr => attr.name ≠ replayNumPropertyName)

def sizedCount (replayNum : UInt32) : SizedAttribute :=
  ⟨replayNumPropertyName, "Number", (formatU32 replayNum).utf8ByteSize⟩

theorem sized_mapAttribute (name : String) (attr : SqsMessageAttribute) :
    (mapAttribute attr).sized name = attr.sized name := by
  have hstrings : (mapAttribute attr).stringListValues.getD [] = attr.stringListValues := by
    unfold mapAttribute
    cases attr.stringListValues <;> rfl
  have hbinaries : (mapAttribute attr).binaryListValues.getD [] = attr.binaryListValues := by
    unfold mapAttribute
    cases attr.binaryListValues <;> rfl
  rw [MessageAttributeValue.sized, hstrings, hbinaries]
  rfl

theorem sized_countAttribute (n : UInt32) :
    (countAttribute n).sized replayNumPropertyName = sizedCount n := rfl

theorem sizedCount_named (n : UInt32) :
    (sizedCount n).name ≠ "" ∧ (sizedCount n).dataType ≠ "" := by
  have hname : replayNumPropertyName ≠ "" := by decide
  have htype : "Number" ≠ "" := by decide
  exact ⟨hname, htype⟩

section

variable {α : Type} (m : HashMap String α) {sized : String → α → SizedAttribute}
  (hname : ∀ name value, (sized name value).name = name)

include hname

theorem mem_map_sized {attr : SizedAttribute} :
    attr ∈ m.entries.map (fun e => sized e.1 e.2) ↔
      ∃ value, m.lookup attr.name = some value ∧ attr = sized attr.name value := by
  constructor
  · intro h
    obtain ⟨⟨name, value⟩, he, rfl⟩ := List.mem_map.mp h
    rw [hname]
    exact ⟨value, (HashMap.mem_entries_iff_lookup m name value).mp he, rfl⟩
  · rintro ⟨value, hlookup, hattr⟩
    have hmem := (HashMap.mem_entries_iff_lookup m attr.name value).mpr hlookup
    exact List.mem_map.mpr ⟨_, hmem, hattr.symm⟩

theorem nodup_map_sized : (m.entries.map (fun e => sized e.1 e.2)).Nodup := by
  apply List.Nodup.of_map SizedAttribute.name
  rw [List.map_map]
  have hkeys : m.entries.map (SizedAttribute.name ∘ fun e => sized e.1 e.2) = m.keys :=
    List.map_congr_left (fun e _ => hname e.1 e.2)
  rw [hkeys]
  exact m.keys_nodup

end

section

variable {record : SqsMessage} {attr : SizedAttribute}

theorem mem_sizedAttributes :
    attr ∈ record.sizedAttributes ↔
      ∃ value, record.messageAttributes.lookup attr.name = some value ∧
        attr = value.sized attr.name :=
  mem_map_sized record.messageAttributes (fun _ _ => rfl)

theorem mem_otherAttributes :
    attr ∈ record.otherAttributes ↔
      attr.name ≠ replayNumPropertyName ∧ attr ∈ record.sizedAttributes := by
  rw [SqsMessage.otherAttributes, List.mem_filter, and_comm, decide_eq_true_iff]

theorem sizedAttributes_nodup (record : SqsMessage) : record.sizedAttributes.Nodup :=
  nodup_map_sized record.messageAttributes (fun _ _ => rfl)

theorem exists_count_iff (record : SqsMessage) :
    (∃ attr ∈ record.sizedAttributes, attr.name = replayNumPropertyName) ↔
      replayNumPropertyName ∈ record.messageAttributes := by
  rw [HashMap.mem_iff_exists_lookup]
  constructor
  · rintro ⟨attr, hattr, hname⟩
    obtain ⟨value, hlookup, -⟩ := mem_sizedAttributes.mp hattr
    exact ⟨value, hname ▸ hlookup⟩
  · rintro ⟨value, hlookup⟩
    exact ⟨value.sized replayNumPropertyName, mem_sizedAttributes.mpr ⟨value, hlookup, rfl⟩, rfl⟩

end

section

variable (rng : Rng) (config : ResolvedQueueConfig) (record : SqsMessage) (body id : String)
  (n : UInt32)

theorem mem_entry_sizedAttributes {attr : SizedAttribute} :
    attr ∈ (toBatchEntry id (requestFor rng config record body n)).sizedAttributes ↔
      ∃ value, (mapMessageAttributes record.messageAttributes n).lookup attr.name = some value ∧
        attr = value.sized attr.name :=
  mem_map_sized (mapMessageAttributes record.messageAttributes n) (fun _ _ => rfl)

theorem entry_sizedAttributes_perm :
    ((toBatchEntry id (requestFor rng config record body n)).sizedAttributes).Perm
      (sizedCount n :: record.otherAttributes) := by
  have hentry : ((toBatchEntry id (requestFor rng config record body n)).sizedAttributes).Nodup :=
    nodup_map_sized (mapMessageAttributes record.messageAttributes n) (fun _ _ => rfl)
  have hothers : (sizedCount n :: record.otherAttributes).Nodup := by
    refine List.nodup_cons.mpr ⟨?_, (sizedAttributes_nodup record).filter _⟩
    intro h
    exact (mem_otherAttributes.mp h).1 rfl
  rw [List.perm_ext_iff_of_nodup hentry hothers]
  intro attr
  rw [mem_entry_sizedAttributes, List.mem_cons, mem_otherAttributes, mem_sizedAttributes,
    lookup_mapMessageAttributes]
  by_cases hname : attr.name = replayNumPropertyName
  · simp only [hname, if_true, Option.some.injEq, exists_eq_left', sized_countAttribute, ne_eq,
      not_true_eq_false, false_and, or_false]
  · have hne : attr ≠ sizedCount n := fun h => hname (congrArg SizedAttribute.name h)
    simp only [hname, hne, if_false, Option.map_eq_some_iff, ne_eq, not_false_eq_true, true_and,
      false_or]
    constructor
    · rintro ⟨-, ⟨value, hlookup, rfl⟩, hattr⟩
      rw [sized_mapAttribute] at hattr
      exact ⟨value, hlookup, hattr⟩
    · rintro ⟨value, hlookup, hattr⟩
      exact ⟨_, ⟨value, hlookup, rfl⟩, by rwa [sized_mapAttribute]⟩

end

/-- A record with at most ten attributes gets an eleventh one only when it has ten and none of
them is a replay count. -/
theorem others_length_lt_iff {record : SqsMessage} (hcount : record.sizedAttributes.length ≤ 10) :
    record.otherAttributes.length + 1 ≤ 10 ↔
      replayNumPropertyName ∈ record.messageAttributes ∨
        record.messageAttributes.entries.length ≤ 9 := by
  have hlength : record.sizedAttributes.length = record.messageAttributes.entries.length :=
    List.length_map _
  by_cases hmem : replayNumPropertyName ∈ record.messageAttributes
  · obtain ⟨attr, hattr, hname⟩ := (exists_count_iff record).mpr hmem
    have hshorter : record.otherAttributes.length < record.sizedAttributes.length :=
      List.length_filter_lt_length_iff_exists.mpr ⟨attr, hattr, by simpa using hname⟩
    have hfits : record.otherAttributes.length + 1 ≤ 10 := by omega
    exact ⟨fun _ => Or.inl hmem, fun _ => hfits⟩
  · have hall : record.otherAttributes = record.sizedAttributes := by
      apply List.filter_eq_self.mpr
      intro attr hattr
      exact decide_eq_true (fun hname => hmem ((exists_count_iff record).mp ⟨attr, hattr, hname⟩))
    rw [hall, hlength]
    simp only [hmem, false_or]
    omega

/-- A replay of a deliverable record is within the limits of SQS exactly when the record has room
for the replay count, as an attribute and in bytes. -/
theorem replay_within_limits_iff (rng : Rng) (config : ResolvedQueueConfig) (record : SqsMessage)
    (hrecord : record.WithinLimits) (n : UInt32) (hcount : CarriesCount record n)
    (request : ReplayRequest)
    (hbuild : buildReplayRequest rng config record = .ok (some request)) (id : String) :
    (toBatchEntry id request).WithinLimits ↔
      ("sqs-dlq-replay-num" ∈ record.messageAttributes ∨
        record.messageAttributes.entries.length ≤ 9) ∧
      (record.body.getD "").utf8ByteSize + (record.otherAttributes.map SizedAttribute.bytes).sum +
        24 + (formatU32 (n + 1)).utf8ByteSize ≤ 262144 := by
  obtain ⟨m, body, hm, -, hbody, rfl⟩ := buildReplayRequest_some_iff.mp hbuild
  obtain rfl := Except.ok.inj ((replayNum_ok_iff.mpr hcount).symm.trans hm)
  have hperm := entry_sizedAttributes_perm rng config record body id (n + 1)
  have hlength := hperm.length_eq
  have hbytes := (hperm.map SizedAttribute.bytes).sum_eq
  rw [List.length_cons] at hlength
  rw [List.map_cons, List.sum_cons] at hbytes
  have hown : (sizedCount (n + 1)).bytes = 24 + (formatU32 (n + 1)).utf8ByteSize := rfl
  rw [hown] at hbytes
  rw [hbody, Option.getD_some]
  have hfits := others_length_lt_iff hrecord.count_le
  constructor
  · intro h
    have hsize := h.bytes_le
    rw [hbytes] at hsize
    change body.utf8ByteSize + _ ≤ _ at hsize
    refine ⟨hfits.mp ?_, by omega⟩
    rw [← hlength]
    exact h.count_le
  · rintro ⟨hroom, hsize⟩
    refine ⟨?_, ?_, ?_⟩
    · rw [hlength]
      exact hfits.mpr hroom
    · intro attr hattr
      rcases List.mem_cons.mp (hperm.mem_iff.mp hattr) with rfl | hother
      · exact sizedCount_named (n + 1)
      · exact hrecord.named attr (mem_otherAttributes.mp hother).2
    · rw [hbytes]
      change body.utf8ByteSize + _ ≤ _
      omega

def recordWithAttributes (names : List String) : SqsMessage where
  messageId := some "id-1"
  body := some "hello"
  attributes := ∅
  messageAttributes :=
    HashMap.collect (names.map (fun name => (name, ⟨some "v", none, [], [], some "String"⟩)))
  eventSourceArn := none

theorem replay_within_limits_iff_sample :
    (toBatchEntry "id-1" (requestFor default ⟨"url", 5, 30, 900, false⟩
      (recordWithAttributes ["a", "b"]) "hello" 1)).WithinLimits :=
  (replay_within_limits_iff default ⟨"url", 5, 30, 900, false⟩ (recordWithAttributes ["a", "b"])
    ⟨by decide, by decide, by decide⟩ 0 rfl _ rfl "id-1").mpr ⟨Or.inr (by decide), by decide⟩

/-- The replay of a record with ten attributes has eleven. -/
theorem replay_has_eleven_attributes :
    (recordWithAttributes ["a", "b", "c", "d", "e", "f", "g", "h", "i", "j"]).WithinLimits ∧
      ∃ request, buildReplayRequest default ⟨"url", 5, 30, 900, false⟩
          (recordWithAttributes ["a", "b", "c", "d", "e", "f", "g", "h", "i", "j"]) =
            .ok (some request) ∧
        ¬ (toBatchEntry "id-1" request).WithinLimits := by
  refine ⟨⟨by decide, by decide, by decide⟩, _, rfl, ?_⟩
  intro h
  exact absurd h.count_le (by decide)

end ReplayBackoff
