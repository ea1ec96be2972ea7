import Mathlib.Algebra.BigOperators.Group.List.Basic
import Mathlib.Algebra.Ring.Nat

/-!
# Greedy splitting under a count limit and a weight limit

`split` walks over a list with a buffer and the buffer's weight. Before an item that would break a
limit it closes the buffer and starts the next one. The pieces concatenate to the list, and every
piece is legal: it is non-empty, and it obeys both limits unless it is one item on its own.
-/

namespace ReplayBackoff.GreedySplit

variable {α : Type*}

structure Limits where
  maxCount : ℕ
  maxWeight : ℕ
  count_pos : 0 < maxCount

def weight (w : α → ℕ) (piece : List α) : ℕ := (piece.map w).sum

/-- Whether the buffer has to be closed before the next item. -/
def closes (lim : Limits) (w : α → ℕ) (current : List α) (size : ℕ) (a : α) : Bool :=
  !current.isEmpty &&
    (decide (lim.maxCount ≤ current.length) || decide (lim.maxWeight < size + w a))

def split (lim : Limits) (w : α → ℕ) : List α → List α → ℕ → List (List α)
  | [], current, _ => if current.isEmpty then [] else [current]
  | a :: rest, current, size =>
    if closes lim w current size a then current :: split lim w rest [a] (w a)
    else split lim w rest (current ++ [a]) (size + w a)

structure Legal (lim : Limits) (w : α → ℕ) (piece : List α) : Prop where
  nonempty : piece ≠ []
  count_le : piece.length ≤ lim.maxCount
  weight_le : piece.length = 1 ∨ weight w piece ≤ lim.maxWeight

variable (lim : Limits) (w : α → ℕ)

theorem weight_append (xs ys : List α) : weight w (xs ++ ys) = weight w xs + weight w ys := by
  simp only [weight, List.map_append, List.sum_append]

theorem weight_singleton (a : α) : weight w [a] = w a := by simp [weight]

theorem legal_singleton (a : α) : Legal lim w [a] :=
  ⟨by simp, lim.count_pos, Or.inl rfl⟩

theorem legal_push {current : List α} {a : α} (hc : Legal lim w current)
    (hopen : closes lim w current (weight w current) a = false) :
    Legal lim w (current ++ [a]) := by
  have hne : current.isEmpty = false := by simpa using hc.nonempty
  simp only [closes, hne, Bool.not_false, Bool.true_and, Bool.or_eq_false_iff,
    decide_eq_false_iff_not] at hopen
  obtain ⟨hcount, hweight⟩ := hopen
  refine ⟨by simp, ?_, Or.inr ?_⟩
  · rw [List.length_append, List.length_singleton]
    omega
  · rw [weight_append, weight_singleton]
    omega

theorem split_flatten (l current : List α) (size : ℕ) :
    (split lim w l current size).flatten = current ++ l := by
  induction l generalizing current size with
  | nil =>
    cases current <;> simp [split]
  | cons a rest ih =>
    rw [split]
    split_ifs with hclose
    · rw [List.flatten_cons, ih]
      rfl
    · rw [ih, List.append_assoc]
      rfl

/-- The invariant of the loop is that the size is the weight of the buffer and the buffer is empty
or legal. -/
theorem split_legal (l current : List α) (hcur : current = [] ∨ Legal lim w current) :
    ∀ piece ∈ split lim w l current (weight w current), Legal lim w piece := by
  induction l generalizing current with
  | nil =>
    intro piece hp
    rcases hcur with rfl | hlegal
    · simp [split] at hp
    · have hne : current.isEmpty = false := by simpa using hlegal.nonempty
      simp only [split, hne, Bool.false_eq_true, if_false, List.mem_singleton] at hp
      rwa [hp]
  | cons a rest ih =>
    have hsingle := ih [a] (Or.inr (legal_singleton lim w a))
    rw [weight_singleton] at hsingle
    intro piece hp
    rw [split] at hp
    split_ifs at hp with hclose
    · rcases List.mem_cons.mp hp with rfl | hp
      · rcases hcur with rfl | hlegal
        · simp [closes] at hclose
        · exact hlegal
      · exact hsingle piece hp
    · rw [← weight_singleton w a, ← weight_append] at hp
      apply ih (current ++ [a]) (Or.inr ?_) piece hp
      rcases hcur with rfl | hlegal
      · exact legal_singleton lim w a
      · exact legal_push lim w hlegal (Bool.eq_false_iff.mpr hclose)

theorem split_nil_flatten (l : List α) : (split lim w l [] 0).flatten = l :=
  split_flatten lim w l [] 0

theorem split_nil_legal (l : List α) : ∀ piece ∈ split lim w l [] 0, Legal lim w piece :=
  split_legal lim w l [] (Or.inl rfl)

end ReplayBackoff.GreedySplit
