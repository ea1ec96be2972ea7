import ReplayBackoff.Chunks
import Mathlib.Algebra.Order.BigOperators.Group.List
import Mathlib.Algebra.Order.Ring.Nat
import Mathlib.Algebra.Group.Action.Defs

/-!
# The payload of a chunk

SQS counts the message attributes of an entry towards the size of a request. The split counts the
bodies alone and leaves the rest of the limit to everything else. Whether that is enough is decided
by the runs of entries for a queue that the split may put into one call: those of two to ten entries
with at most 240 KiB of bodies.
-/

namespace ReplayBackoff

/-- The bytes of a string or binary value. -/
def valueBytes (stringValue : Option String) (binaryValue : Option Bytes) : ℕ :=
  (stringValue.map String.utf8ByteSize).getD 0 + (binaryValue.map List.length).getD 0

def attributeBytes (name : String) (value : MessageAttributeValue) : ℕ :=
  name.utf8ByteSize + value.dataType.utf8ByteSize + valueBytes value.stringValue value.binaryValue

def attributesBytes (entry : Entry) : ℕ :=
  (entry.2.messageAttributes.entries.map (fun e => attributeBytes e.1 e.2)).sum

def payloadBytes (entry : Entry) : ℕ := entry.2.messageBody.utf8ByteSize + attributesBytes entry

/-- The limits of SQS on one request, with the payload as SQS counts it. -/
def WithinRequestLimits (entries : List Entry) : Prop :=
  entries.length ≤ 10 ∧ (entries.map payloadBytes).sum ≤ 262144

/-- Entries for a queue that follow each other there and may share a call. -/
structure SharedRun (entries : List Entry) (queueUrl : String) (run : List Entry) : Prop where
  consecutive : run <:+: entriesFor entries queueUrl
  many : 2 ≤ run.length
  count : run.length ≤ 10
  bodies : (run.map (fun entry => entry.2.messageBody.utf8ByteSize)).sum ≤ 240 * 1024

/-- Entries that may share a call fit into one request. -/
def RunsFit (entries : List Entry) : Prop :=
  ∀ queueUrl run, SharedRun entries queueUrl run → (run.map payloadBytes).sum ≤ 262144

theorem payloadBytes_sum (entries : List Entry) :
    (entries.map payloadBytes).sum =
      (entries.map (fun entry => entry.2.messageBody.utf8ByteSize)).sum +
        (entries.map attributesBytes).sum := by
  induction entries with
  | nil => rfl
  | cons entry entries ih =>
    simp only [List.map_cons, List.sum_cons, ih, payloadBytes]
    omega

section

variable {order : GroupOrder} {entries : List Entry}

theorem mem_chunkEntries_iff {chunk : ReplayChunk} :
    chunk ∈ chunkEntries order entries ↔
      chunk.entries ∈ GreedySplit.split chunkLimits bodyBytes
        (entriesFor entries chunk.queueUrl) [] 0 := by
  have hchunks := chunksFor_eq order entries chunk.queueUrl
  constructor
  · intro hchunk
    have hmem := mem_chunksFor hchunk
    rw [hchunks, chunkGroup] at hmem
    obtain ⟨piece, hpiece, heq⟩ := List.mem_map.mp hmem
    rwa [← heq]
  · intro hpiece
    have hmem : chunk ∈ chunksFor order entries chunk.queueUrl := by
      rw [hchunks, chunkGroup]
      exact List.mem_map.mpr ⟨chunk.entries, hpiece, rfl⟩
    exact List.mem_of_mem_filter hmem

theorem chunk_consecutive {chunk : ReplayChunk} (hchunk : chunk ∈ chunkEntries order entries) :
    chunk.entries <:+: entriesFor entries chunk.queueUrl := by
  have hinfix := List.infix_of_mem_flatten (mem_chunkEntries_iff.mp hchunk)
  rwa [GreedySplit.split_nil_flatten] at hinfix

namespace SharedRun

variable {queueUrl : String} {run : List Entry}

theorem mem (h : SharedRun entries queueUrl run) {entry : Entry} (hentry : entry ∈ run) :
    entry ∈ entries :=
  List.mem_of_mem_filter (h.consecutive.subset hentry)

theorem legal (h : SharedRun entries queueUrl run) : LegalPiece run := by
  refine ⟨?_, Or.inr ⟨h.count, h.bodies⟩⟩
  rintro rfl
  exact absurd h.many (by decide)

theorem exists_part (h : SharedRun entries queueUrl run) :
    ∃ part, part <:+: entries ∧ entriesFor part queueUrl = run := by
  obtain ⟨before, after, heq⟩ := h.consecutive
  obtain ⟨front, rest, rfl, hfront, -⟩ := List.filter_eq_append_iff.mp heq.symm
  obtain ⟨skipped, part, rfl, -, hpart⟩ := List.filter_eq_append_iff.mp hfront
  exact ⟨part, ⟨skipped, rest, rfl⟩, hpart⟩

end SharedRun

/-- The headroom of 16 KiB is enough for ten entries with up to 1638 bytes of attributes each. -/
theorem runsFit_of_small (hsmall : ∀ entry ∈ entries, attributesBytes entry ≤ 1638) :
    RunsFit entries := by
  intro queueUrl run hrun
  have hmapped : ∀ size ∈ run.map attributesBytes, size ≤ 1638 := by
    intro size hsize
    obtain ⟨entry, hentry, rfl⟩ := List.mem_map.mp hsize
    exact hsmall entry (hrun.mem hentry)
  have hsum := List.sum_le_card_nsmul _ _ hmapped
  rw [List.length_map, smul_eq_mul] at hsum
  have hcount := hrun.count
  have hbodies := hrun.bodies
  rw [payloadBytes_sum]
  omega

theorem withinRequestLimits_of_runsFit (hentries : ∀ entry ∈ entries, payloadBytes entry ≤ 262144)
    (h : RunsFit entries) {chunk : ReplayChunk} (hchunk : chunk ∈ chunkEntries order entries) :
    WithinRequestLimits chunk.entries := by
  obtain ⟨hne, hcount, hbodies⟩ := chunkEntries_legal hchunk
  refine ⟨hcount, ?_⟩
  by_cases hone : chunk.entries.length = 1
  · obtain ⟨entry, hentry⟩ := List.length_eq_one_iff.mp hone
    have hmem : entry ∈ entries := by
      apply (chunk_sublist hchunk).subset
      rw [hentry]
      exact List.mem_cons_self
    simpa [hentry] using hentries entry hmem
  · have hpos := List.length_pos_iff.mpr hne
    exact h chunk.queueUrl chunk.entries
      ⟨chunk_consecutive hchunk, by omega, hcount, hbodies.resolve_left hone⟩

end

/-- Every chunk is within the limits of a request if the runs of entries that may share a call fit
into one. If a run does not fit, a part of the entries has a chunk that is not within the limits. -/
theorem chunks_within_limits (order : GroupOrder) (entries : List Entry)
    (hentries : ∀ entry ∈ entries, payloadBytes entry ≤ 262144) :
    (RunsFit entries → ∀ chunk ∈ chunkEntries order entries, WithinRequestLimits chunk.entries) ∧
    (¬ RunsFit entries → ∃ part, part <:+: entries ∧
      ∃ chunk ∈ chunkEntries order part, ¬ WithinRequestLimits chunk.entries) := by
  refine ⟨fun h chunk hchunk => withinRequestLimits_of_runsFit hentries h hchunk, fun h => ?_⟩
  simp only [RunsFit, not_forall] at h
  obtain ⟨queueUrl, run, hrun, hsize⟩ := h
  obtain ⟨part, hpart, hfor⟩ := hrun.exists_part
  refine ⟨part, hpart, ⟨queueUrl, run⟩, ?_, fun hwithin => hsize hwithin.2⟩
  rw [mem_chunkEntries_iff, hfor, GreedySplit.split_of_legal (legalPiece_iff.mp hrun.legal)]
  exact List.mem_cons_self

/-- An entry with a one-byte body and a binary attribute of some size. -/
def bulkyEntry (id : String) (size : ℕ) : Entry :=
  (id, ⟨"url", "x", 60,
    AList.singleton "bulk" ⟨none, some (List.replicate size 0), none, none, "Binary"⟩,
    ∅, none, none⟩)

theorem attributesBytes_bulkyEntry (id : String) (size : ℕ) :
    attributesBytes (bulkyEntry id size) = 10 + size := by
  change (4 + 6 + (0 + (List.replicate size (0 : UInt8)).length)) + 0 = _
  rw [List.length_replicate]
  omega

theorem payloadBytes_bulkyEntry (id : String) (size : ℕ) :
    payloadBytes (bulkyEntry id size) = 11 + size := by
  rw [payloadBytes, attributesBytes_bulkyEntry]
  change 1 + (10 + size) = _
  omega

theorem bulky_chunk (order : GroupOrder) (size : ℕ) :
    ⟨"url", [bulkyEntry "id-1" size, bulkyEntry "id-2" size]⟩ ∈
      chunkEntries order [bulkyEntry "id-1" size, bulkyEntry "id-2" size] := by
  apply mem_chunkEntries_iff.mpr
  exact List.mem_singleton.mpr rfl

theorem chunks_within_limits_sample :
    WithinRequestLimits [bulkyEntry "id-1" 1000, bulkyEntry "id-2" 1000] := by
  have hsmall : ∀ entry ∈ [bulkyEntry "id-1" 1000, bulkyEntry "id-2" 1000],
      attributesBytes entry ≤ 1638 := by
    simp [attributesBytes_bulkyEntry]
  exact (chunks_within_limits default _ (by simp [payloadBytes_bulkyEntry])).1
    (runsFit_of_small hsmall) _ (bulky_chunk default 1000)

/-- Two entries of two hundred kilobytes of attributes each are sent in one request. -/
theorem bulky_chunk_exceeds_limit :
    (∀ entry ∈ [bulkyEntry "id-1" 200000, bulkyEntry "id-2" 200000],
      payloadBytes entry ≤ 262144) ∧
    ∀ order, ∃ chunk ∈ chunkEntries order [bulkyEntry "id-1" 200000, bulkyEntry "id-2" 200000],
      ¬ WithinRequestLimits chunk.entries := by
  constructor
  · simp [payloadBytes_bulkyEntry]
  · intro order
    refine ⟨_, bulky_chunk order 200000, ?_⟩
    simp [WithinRequestLimits, payloadBytes_bulkyEntry]

end ReplayBackoff
