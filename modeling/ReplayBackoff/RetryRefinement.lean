import ReplayBackoff.ExactlyOnce
import ReplayBackoff.Library.Simulation

/-!
# The queues as a retry machine

What the queues are for can be said without copies and invocations: a message waits, fails, and
waits again after a replay, until it is consumed or dead or its replays are used up. While
visibility timeouts hold, calls that error accept nothing and reports are whole, the queue system
refines this machine for each message. The progress of a message is read off its current copy.
-/

namespace ReplayBackoff

open Lineage Potential Simulation

inductive Fate where
  | waiting
  | failed
  | consumed
  | dead
  deriving DecidableEq, Repr

structure Progress where
  fate : Fate
  replays : ℕ
  deriving DecidableEq, Repr

/-- The moves of a message that may be replayed `limit` times. -/
inductive Move (limit : ℕ) : Progress → Progress → Prop
  | consume (n : ℕ) : Move limit ⟨.waiting, n⟩ ⟨.consumed, n⟩
  | fail (n : ℕ) : Move limit ⟨.waiting, n⟩ ⟨.failed, n⟩
  | replay (n : ℕ) : n + 1 ≤ limit → Move limit ⟨.failed, n⟩ ⟨.waiting, n + 1⟩
  | bury (n : ℕ) : Move limit ⟨.failed, n⟩ ⟨.dead, n⟩

def Progress.remaining (limit : ℕ) (p : Progress) : ℕ :=
  match p.fate with
  | .waiting => 2 * (limit - p.replays) + 2
  | .failed => 2 * (limit - p.replays) + 1
  | .consumed => 0
  | .dead => 0

theorem Move.pays (limit : ℕ) :
    Pays (Move limit) 1 (fun p n => p.remaining limit ≤ n) := by
  intro p p' n hp hmove
  refine ⟨p'.remaining limit, le_rfl, ?_⟩
  cases hmove <;> simp only [Progress.remaining] at hp ⊢ <;> omega

/-- A current copy is never deleted, so the last case does not arise. -/
def Place.fate : Place → Fate
  | .source => .waiting
  | .replay => .failed
  | .dead => .dead
  | .consumed => .consumed
  | .replayed => .dead

variable {arn : String} {limit : UInt32} {s₀ s s' : State} {k i : ℕ} {r : Running} {u v v' : ℕ}

namespace VisibleInv

theorem existsUnique_current (h : VisibleInv arn limit s) (hu : u < s.copies.length) :
    ∃! v, s.Current u v := existsUnique_leaf h.queue.lineage h.forest h.unary hu

end VisibleInv

theorem VisibleRun.run (hrun : VisibleRun arn limit s₀ s) :
    Run .asSent Unrestricted arn limit s₀ s := by
  induction hrun with
  | refl => exact .refl
  | tail _ hstep ih => exact ih.tail hstep.1

theorem VisibleRun.grows (hrun : VisibleRun arn limit s₀ s) : s₀.copies <+: s.copies :=
  Run.grows (VisibleRun.run hrun)

end ReplayBackoff
