import ReplayBackoff.ReplayRequest
import ReplayBackoff.ConfigStore
import ReplayBackoff.Library.Grouping
import ReplayBackoff.Library.GreedySplit

/-!
# Sending replay requests in batches

Requests are grouped by destination queue and each group is cut greedily into chunks of at most ten
entries and 240 KiB of message bodies. Every chunk is one `SendMessageBatch` call. A call that
errors reports all of its entries, a call that answers reports the entries it lists as failed.

The order in which the groups are visited is an argument, and so is SQS, whose answer to a call may
depend on the position of the call and on its input.
-/

namespace ReplayBackoff

abbrev Entry := String × ReplayRequest

structure ReplayChunk where
  queueUrl : String
  entries : List Entry

structure SendMessageBatchInput where
  queueUrl : String
  entries : List SendMessageBatchRequestEntry

structure BatchResultErrorEntry where
  id : String
  deriving DecidableEq, Repr

structure SendMessageBatchOutput where
  failed : List BatchResultErrorEntry
  deriving DecidableEq, Repr

abbrev Sqs := ℕ → SendMessageBatchInput → Except SdkError SendMessageBatchOutput

structure SendCall where
  input : SendMessageBatchInput
  answer : Except SdkError SendMessageBatchOutput

def maxEntries : ℕ := 10

/-- Headroom below the hard 256 KB payload limit. -/
def maxBodyBytes : ℕ := 240 * 1024

def chunkLimits : GreedySplit.Limits := ⟨maxEntries, maxBodyBytes, by decide⟩

def bodyBytes (entry : Entry) : ℕ := entry.2.messageBody.utf8ByteSize

abbrev GroupOrder := IterationOrder (Sigma fun _ : String => List Entry)

def entryUrl (entry : Entry) : String := entry.2.queueUrl

def chunkGroup (queueUrl : String) (group : List Entry) : List ReplayChunk :=
  (GreedySplit.split chunkLimits bodyBytes group [] 0).map (ReplayChunk.mk queueUrl)

def chunkEntries (order : GroupOrder) (entries : List Entry) : List ReplayChunk :=
  (order.arrange (Grouping.groupBy entryUrl entries).entries).flatMap
    (fun group => chunkGroup group.1 group.2)

def chunkInput (chunk : ReplayChunk) : SendMessageBatchInput :=
  ⟨chunk.queueUrl, chunk.entries.map (fun entry => toBatchEntry entry.1 entry.2)⟩

def sendChunk (sqs : Sqs) (i : ℕ) (chunk : ReplayChunk) : SendCall × List String :=
  let batch := chunkInput chunk
  match sqs i batch with
  | .ok output => (⟨batch, .ok output⟩, output.failed.map (·.id))
  | .error error => (⟨batch, .error error⟩, chunk.entries.map (·.1))

def sendReplayBatch (sqs : Sqs) (order : GroupOrder) (entries : List Entry) :
    List SendCall × List String :=
  let sent := (chunkEntries order entries).mapIdx (sendChunk sqs)
  (sent.map (·.1), sent.flatMap (·.2))

theorem chunkGroup_flatten (queueUrl : String) (group : List Entry) :
    (chunkGroup queueUrl group).flatMap (·.entries) = group := by
  rw [chunkGroup, List.flatMap_map]
  change (GreedySplit.split chunkLimits bodyBytes group [] 0).flatMap id = group
  rw [List.flatMap_id, GreedySplit.split_nil_flatten]

theorem chunkEntries_flatten (order : GroupOrder) (entries : List Entry) :
    (chunkEntries order entries).flatMap (·.entries) =
      (order.arrange (Grouping.groupBy entryUrl entries).entries).flatMap (·.2) := by
  rw [chunkEntries, List.flatMap_assoc]
  simp only [chunkGroup_flatten]

theorem chunkEntries_perm (order : GroupOrder) (entries : List Entry) :
    ((chunkEntries order entries).flatMap (·.entries)).Perm entries := by
  rw [chunkEntries_flatten]
  exact Grouping.arrange_flatMap_perm entryUrl order entries

theorem chunkEntries_url {order : GroupOrder} {entries : List Entry} {chunk : ReplayChunk}
    (hchunk : chunk ∈ chunkEntries order entries) {entry : Entry} (hentry : entry ∈ chunk.entries) :
    entryUrl entry = chunk.queueUrl := by
  obtain ⟨⟨url, group⟩, hgroup, hchunk⟩ := List.mem_flatMap.mp hchunk
  rw [IterationOrder.mem_arrange] at hgroup
  have hflat := chunkGroup_flatten url group
  have hmem : entry ∈ group := by
    rw [← hflat]
    exact List.mem_flatMap.mpr ⟨chunk, hchunk, hentry⟩
  obtain ⟨piece, -, rfl⟩ := List.mem_map.mp hchunk
  exact Grouping.key_of_mem_group entryUrl hgroup hmem

/-- A chunk is non-empty and within both limits, unless it is one entry on its own. -/
theorem chunkEntries_legal {order : GroupOrder} {entries : List Entry} {chunk : ReplayChunk}
    (hchunk : chunk ∈ chunkEntries order entries) :
    GreedySplit.Legal chunkLimits bodyBytes chunk.entries := by
  obtain ⟨⟨url, group⟩, -, hchunk⟩ := List.mem_flatMap.mp hchunk
  obtain ⟨piece, hpiece, rfl⟩ := List.mem_map.mp hchunk
  exact GreedySplit.split_nil_legal chunkLimits bodyBytes group piece hpiece

namespace SendCall

def entryIds (call : SendCall) : List String := call.input.entries.map (·.id)

/-- The ids a call hands back as batch item failures. -/
def reported (call : SendCall) : List String :=
  match call.answer with
  | .ok output => output.failed.map (·.id)
  | .error _ => call.entryIds

/-- SQS answered the call and did not list the id as failed. -/
def Accepts (call : SendCall) (id : String) : Prop :=
  ∃ output, call.answer = .ok output ∧ id ∉ output.failed.map (·.id)

/-- An answered call lists a part of its own entries, each once. -/
def WellAnswered (call : SendCall) : Prop :=
  ∀ output, call.answer = .ok output →
    (output.failed.map (·.id)).Nodup ∧ output.failed.map (·.id) ⊆ call.entryIds

theorem accepts_iff_not_reported (call : SendCall) {id : String} (hid : id ∈ call.entryIds) :
    call.Accepts id ↔ id ∉ call.reported := by
  unfold Accepts reported
  cases call.answer with
  | ok output => simp
  | error e => simp [hid]

theorem reported_subset (call : SendCall) (h : call.WellAnswered) :
    call.reported ⊆ call.entryIds := by
  unfold reported
  cases ha : call.answer with
  | ok output => exact (h output ha).2
  | error e => exact List.Subset.refl _

theorem reported_nodup (call : SendCall) (h : call.WellAnswered) (hids : call.entryIds.Nodup) :
    call.reported.Nodup := by
  unfold reported
  cases ha : call.answer with
  | ok output => exact (h output ha).1
  | error e => exact hids

end SendCall

def callOf (sqs : Sqs) (i : ℕ) (chunk : ReplayChunk) : SendCall :=
  ⟨chunkInput chunk, sqs i (chunkInput chunk)⟩

theorem callOf_entryIds (sqs : Sqs) (i : ℕ) (chunk : ReplayChunk) :
    (callOf sqs i chunk).entryIds = chunk.entries.map (·.1) := by
  simp only [SendCall.entryIds, callOf, chunkInput, List.map_map]
  rfl

theorem sendChunk_eq (sqs : Sqs) (i : ℕ) (chunk : ReplayChunk) :
    sendChunk sqs i chunk = (callOf sqs i chunk, (callOf sqs i chunk).reported) := by
  have hids := callOf_entryIds sqs i chunk
  unfold sendChunk callOf SendCall.reported at *
  cases hs : sqs i (chunkInput chunk) with
  | ok output => simp only [hs]
  | error e =>
    rw [hs] at hids
    simp only [hs, hids]

def sendCalls (sqs : Sqs) (order : GroupOrder) (entries : List Entry) : List SendCall :=
  (chunkEntries order entries).mapIdx (callOf sqs)

theorem sendReplayBatch_eq (sqs : Sqs) (order : GroupOrder) (entries : List Entry) :
    sendReplayBatch sqs order entries =
      (sendCalls sqs order entries, (sendCalls sqs order entries).flatMap (·.reported)) := by
  simp only [sendReplayBatch, sendCalls, List.mapIdx_eq_zipIdx_map,
    List.flatMap_map, List.map_map, sendChunk_eq, Function.comp_def]

theorem mem_sendCalls {sqs : Sqs} {order : GroupOrder} {entries : List Entry} {call : SendCall}
    (h : call ∈ sendCalls sqs order entries) :
    ∃ i, ∃ chunk ∈ chunkEntries order entries, call = callOf sqs i chunk := by
  obtain ⟨i, hi, rfl⟩ := List.mem_mapIdx.mp h
  exact ⟨i, _, List.getElem_mem hi, rfl⟩

theorem sendCalls_entries_eq (sqs : Sqs) (order : GroupOrder) (entries : List Entry) :
    (sendCalls sqs order entries).flatMap (·.input.entries) =
      ((chunkEntries order entries).flatMap (·.entries)).map
        (fun entry => toBatchEntry entry.1 entry.2) := by
  simp only [sendCalls, List.mapIdx_eq_zipIdx_map, List.flatMap_map, callOf, chunkInput,
    List.map_flatMap]
  conv_rhs => rw [← List.zipIdx_map_fst 0 (chunkEntries order entries), List.flatMap_map]

theorem sendCalls_entries_perm (sqs : Sqs) (order : GroupOrder) (entries : List Entry) :
    ((sendCalls sqs order entries).flatMap (·.input.entries)).Perm
      (entries.map (fun entry => toBatchEntry entry.1 entry.2)) := by
  rw [sendCalls_entries_eq]
  exact (chunkEntries_perm order entries).map _

theorem sendCalls_ids_perm (sqs : Sqs) (order : GroupOrder) (entries : List Entry) :
    ((sendCalls sqs order entries).flatMap (·.entryIds)).Perm (entries.map (·.1)) := by
  have hperm := (sendCalls_entries_perm sqs order entries).map (·.id)
  rw [List.map_flatMap, List.map_map] at hperm
  exact hperm

theorem sendCalls_entry {sqs : Sqs} {order : GroupOrder} {entries : List Entry} {call : SendCall}
    (hcall : call ∈ sendCalls sqs order entries) {entry : SendMessageBatchRequestEntry}
    (hentry : entry ∈ call.input.entries) :
    ∃ id request, (id, request) ∈ entries ∧ entry = toBatchEntry id request ∧
      call.input.queueUrl = request.queueUrl := by
  obtain ⟨i, chunk, hchunk, rfl⟩ := mem_sendCalls hcall
  obtain ⟨⟨id, request⟩, hmem, rfl⟩ := List.mem_map.mp hentry
  refine ⟨id, request, ?_, rfl, (chunkEntries_url hchunk hmem).symm⟩
  exact (chunkEntries_perm order entries).mem_iff.mp (List.mem_flatMap.mpr ⟨chunk, hchunk, hmem⟩)

theorem exists_sendCalls_entry (sqs : Sqs) (order : GroupOrder) {entries : List Entry}
    {id : String} {request : ReplayRequest} (h : (id, request) ∈ entries) :
    ∃ call ∈ sendCalls sqs order entries, toBatchEntry id request ∈ call.input.entries := by
  obtain ⟨chunk, hchunk, hmem⟩ := List.mem_flatMap.mp ((chunkEntries_perm order entries).mem_iff.mpr h)
  obtain ⟨i, hi, rfl⟩ := List.mem_iff_getElem.mp hchunk
  refine ⟨callOf sqs i (chunkEntries order entries)[i], List.mem_mapIdx.mpr ⟨i, hi, rfl⟩, ?_⟩
  exact List.mem_map.mpr ⟨(id, request), hmem, rfl⟩

end ReplayBackoff
