import ReplayBackoff.ReplayBatch
import ReplayBackoff.Library.GreedyCut

/-!
# The chunks of a queue

The chunks for a queue are cut from the entries for that queue, in their order, and from nothing
else. Every entry is in one of them, none breaks a limit unless it is one entry on its own, and no
other way of cutting these entries into legal pieces needs fewer of them.
-/

namespace ReplayBackoff

def entriesFor (entries : List Entry) (queueUrl : String) : List Entry :=
  entries.filter (fun entry => entryUrl entry = queueUrl)

def chunksFor (order : GroupOrder) (entries : List Entry) (queueUrl : String) :
    List ReplayChunk :=
  (chunkEntries order entries).filter (fun chunk => chunk.queueUrl = queueUrl)

/-- One entry, or at most ten entries whose bodies have at most 240 KiB. -/
def LegalPiece (piece : List Entry) : Prop :=
  piece ≠ [] ∧ (piece.length = 1 ∨
    piece.length ≤ 10 ∧
      (piece.map (fun entry => entry.2.messageBody.utf8ByteSize)).sum ≤ 240 * 1024)

theorem legalPiece_iff {piece : List Entry} :
    LegalPiece piece ↔ GreedySplit.Legal chunkLimits bodyBytes piece := by
  constructor
  · rintro ⟨hne, hone | ⟨hcount, hsize⟩⟩
    · exact ⟨hne, hone.le.trans (by decide), Or.inl hone⟩
    · exact ⟨hne, hcount, Or.inr hsize⟩
  · rintro ⟨hne, hcount, hone | hsize⟩
    · exact ⟨hne, Or.inl hone⟩
    · exact ⟨hne, Or.inr ⟨hcount, hsize⟩⟩

section

variable (order : GroupOrder) (entries : List Entry) (queueUrl : String)

theorem filter_chunkGroup (url : String) (group : List Entry) :
    (chunkGroup url group).filter (fun chunk => chunk.queueUrl = queueUrl) =
      if url = queueUrl then chunkGroup queueUrl group else [] := by
  split_ifs with heq
  · subst heq
    rw [List.filter_eq_self]
    intro chunk hchunk
    obtain ⟨piece, -, rfl⟩ := List.mem_map.mp hchunk
    exact decide_eq_true rfl
  · rw [List.filter_eq_nil_iff]
    intro chunk hchunk
    obtain ⟨piece, -, rfl⟩ := List.mem_map.mp hchunk
    simpa using heq

/-- The chunks for a queue depend on the entries for it alone. -/
theorem chunksFor_eq :
    chunksFor order entries queueUrl = chunkGroup queueUrl (entriesFor entries queueUrl) := by
  have hkey :=
    Grouping.arrange_flatMap_key entryUrl order entries queueUrl (chunkGroup queueUrl) rfl
  rw [chunksFor, chunkEntries, List.filter_flatMap]
  simp only [filter_chunkGroup]
  exact hkey

theorem chunksFor_flatten :
    (chunksFor order entries queueUrl).flatMap (·.entries) = entriesFor entries queueUrl := by
  rw [chunksFor_eq, chunkGroup_flatten]

end

variable {order : GroupOrder} {entries : List Entry} {chunk : ReplayChunk}

theorem mem_chunksFor (hchunk : chunk ∈ chunkEntries order entries) :
    chunk ∈ chunksFor order entries chunk.queueUrl :=
  List.mem_filter.mpr ⟨hchunk, decide_eq_true rfl⟩

theorem chunk_sublist (hchunk : chunk ∈ chunkEntries order entries) :
    chunk.entries.Sublist entries := by
  have hflatten := chunksFor_flatten order entries chunk.queueUrl
  have hmem : chunk.entries ∈ (chunksFor order entries chunk.queueUrl).map (·.entries) :=
    List.mem_map.mpr ⟨chunk, mem_chunksFor hchunk, rfl⟩
  have hpart := List.sublist_flatten_of_mem hmem
  rw [← List.flatMap_def, hflatten] at hpart
  exact hpart.trans List.filter_sublist

/-- Grouping and chunking lose nothing, duplicate nothing and keep queues apart. Every chunk is a
legal piece for its queue, the chunks of a queue concatenate to its entries in their order, and they
stay the same when the entries for other queues or the order of the groups change. -/
theorem chunkEntries_partition (order : GroupOrder) (entries : List Entry) :
    (∀ chunk ∈ chunkEntries order entries,
      chunk.entries ≠ [] ∧ chunk.entries.length ≤ 10 ∧
        (∀ entry ∈ chunk.entries, entry.2.queueUrl = chunk.queueUrl) ∧
        (chunk.entries.length = 1 ∨
          (chunk.entries.map (fun entry => entry.2.messageBody.utf8ByteSize)).sum ≤ 240 * 1024)) ∧
    (∀ queueUrl, (chunksFor order entries queueUrl).flatMap (·.entries) =
      entriesFor entries queueUrl) ∧
    (∀ queueUrl order' entries', entriesFor entries' queueUrl = entriesFor entries queueUrl →
      chunksFor order' entries' queueUrl = chunksFor order entries queueUrl) ∧
    ((entries.map (·.1)).Nodup →
      ∀ chunk ∈ chunkEntries order entries, (chunk.entries.map (·.1)).Nodup) := by
  refine ⟨?_, chunksFor_flatten order entries, ?_, ?_⟩
  · intro chunk hchunk
    obtain ⟨hne, hcount, hsize⟩ := chunkEntries_legal hchunk
    exact ⟨hne, hcount, fun entry hentry => chunkEntries_url hchunk hentry, hsize⟩
  · intro queueUrl order' entries' hentries
    rw [chunksFor_eq, chunksFor_eq, hentries]
  · intro hids chunk hchunk
    exact hids.sublist ((chunk_sublist hchunk).map _)

/-- The greedy split makes the fewest calls. -/
theorem chunksFor_isLeast (order : GroupOrder) (entries : List Entry) (queueUrl : String) :
    IsLeast {n | ∃ pieces : List (List Entry), pieces.flatten = entriesFor entries queueUrl ∧
      (∀ piece ∈ pieces, LegalPiece piece) ∧ pieces.length = n}
      (chunksFor order entries queueUrl).length := by
  have hleast := GreedySplit.split_isLeast chunkLimits bodyBytes (entriesFor entries queueUrl)
  simp only [legalPiece_iff]
  rw [chunksFor_eq, chunkGroup, List.length_map]
  exact hleast

end ReplayBackoff
