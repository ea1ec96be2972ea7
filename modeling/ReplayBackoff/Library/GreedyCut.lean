import ReplayBackoff.Library.GreedySplit
import Mathlib.Data.List.Infix
import Mathlib.Order.Bounds.Defs

/-!
# Greedy cuts

A cut of a list is greedy when each piece is legal and would not be with the next item. `split`
makes such a cut. Its first piece is the longest legal prefix, so against any other cut into legal
pieces it stays ahead: after as many pieces it has at most the same suffix left. It therefore has
the fewest pieces.

A cut of a concatenation breaks at most one piece where two parts meet. Splitting the parts one by
one therefore makes at least as many pieces as splitting all at once, and at most one more for each
place where parts meet.
-/

namespace ReplayBackoff.GreedySplit

variable {α : Type*} {lim : Limits} {w : α → ℕ}

inductive Greedy (lim : Limits) (w : α → ℕ) : List (List α) → Prop
  | nil : Greedy lim w []
  | last {p : List α} : Legal lim w p → Greedy lim w [p]
  | cons {p : List α} {a : α} {q : List α} {ps : List (List α)} : Legal lim w p →
      ¬ Legal lim w (p ++ [a]) → Greedy lim w ((a :: q) :: ps) →
      Greedy lim w (p :: (a :: q) :: ps)

theorem Legal.of_part {p q : List α} (hq : Legal lim w q) (hne : p ≠ []) (h : p <:+: q) :
    Legal lim w p := by
  obtain ⟨before, after, rfl⟩ := h
  have hcount := hq.count_le
  simp only [List.length_append] at hcount
  have hpos : 0 < p.length := List.length_pos_iff.mpr hne
  refine ⟨hne, by omega, ?_⟩
  rcases hq.weight_le with hone | hweight
  · simp only [List.length_append] at hone
    exact Or.inl (by omega)
  · rw [weight_append, weight_append] at hweight
    exact Or.inr (by omega)

theorem not_legal_of_closes {current : List α} {a : α}
    (h : closes lim w current (weight w current) a = true) : ¬ Legal lim w (current ++ [a]) := by
  intro hlegal
  simp only [closes, Bool.and_eq_true, Bool.or_eq_true, decide_eq_true_eq] at h
  obtain ⟨hne, hlimit⟩ := h
  have hpos : 0 < current.length := List.length_pos_iff.mpr (by simpa using hne)
  have hcount := hlegal.count_le
  have hweight := hlegal.weight_le
  rw [List.length_append, List.length_singleton] at hcount hweight
  rw [weight_append, weight_singleton] at hweight
  omega

/-- The first piece of a split starts with the buffer. -/
theorem split_head (lim : Limits) (w : α → ℕ) (l current : List α) (hne : current ≠ [])
    (size : ℕ) : ∃ q ps, split lim w l current size = (current ++ q) :: ps := by
  induction l generalizing current size with
  | nil => exact ⟨[], [], by simp [split, hne]⟩
  | cons a rest ih =>
    rw [split]
    split_ifs with hclose
    · exact ⟨[], split lim w rest [a] (w a), by rw [List.append_nil]⟩
    · obtain ⟨q, ps, hsplit⟩ := ih (current ++ [a]) (by simp) (size + w a)
      exact ⟨a :: q, ps, by rw [hsplit, List.append_assoc, List.singleton_append]⟩

theorem split_greedy (l current : List α) (hcur : current = [] ∨ Legal lim w current) :
    Greedy lim w (split lim w l current (weight w current)) := by
  induction l generalizing current with
  | nil =>
    rcases hcur with rfl | hlegal
    · exact .nil
    · have hne : current.isEmpty = false := by simpa using hlegal.nonempty
      rw [split, hne]
      exact .last hlegal
  | cons a rest ih =>
    rw [split]
    split_ifs with hclose
    · have hlegal : Legal lim w current := by
        rcases hcur with rfl | hlegal
        · simp [closes] at hclose
        · exact hlegal
      have htail := ih [a] (Or.inr (legal_singleton lim w a))
      rw [weight_singleton] at htail
      obtain ⟨q, ps, hsplit⟩ := split_head lim w rest [a] (List.cons_ne_nil a []) (w a)
      rw [hsplit] at htail ⊢
      exact .cons hlegal (not_legal_of_closes hclose) htail
    · rw [← weight_singleton w a, ← weight_append]
      apply ih
      rcases hcur with rfl | hlegal
      · exact Or.inr (legal_singleton lim w a)
      · exact Or.inr (legal_push lim w hlegal (Bool.eq_false_iff.mpr hclose))

theorem split_nil_greedy (lim : Limits) (w : α → ℕ) (l : List α) :
    Greedy lim w (split lim w l [] 0) :=
  split_greedy l [] (Or.inl rfl)

theorem Greedy.tail {p : List α} {ps : List (List α)} (h : Greedy lim w (p :: ps)) :
    Greedy lim w ps := by
  cases h with
  | last _ => exact .nil
  | cons _ _ htail => exact htail

theorem Greedy.head_legal {p : List α} {ps : List (List α)} (h : Greedy lim w (p :: ps)) :
    Legal lim w p := by
  cases h with
  | last hp => exact hp
  | cons hp _ _ => exact hp

/-- The first piece is the longest legal prefix. -/
theorem Greedy.prefix_head {p x : List α} {ps : List (List α)} (h : Greedy lim w (p :: ps))
    (hx : Legal lim w x) (hpre : x <+: (p :: ps).flatten) : x <+: p := by
  have hp : p <+: (p :: ps).flatten := List.prefix_append p ps.flatten
  rcases List.prefix_or_prefix_of_prefix hpre hp with hle | ⟨t, rfl⟩
  · exact hle
  · cases h with
    | last _ => simpa using hpre
    | @cons _ a q ps' _ hnot _ =>
      rw [List.flatten_cons, List.prefix_append_right_inj, List.flatten_cons, List.cons_append]
        at hpre
      rcases List.prefix_cons_iff.mp hpre with rfl | ⟨t', rfl, -⟩
      · rw [List.append_nil]
      · exfalso
        apply hnot
        apply hx.of_part (by simp)
        exact ⟨[], t', by simp⟩

theorem Greedy.eq_nil_of_flatten {ps : List (List α)} (h : Greedy lim w ps)
    (hnil : ps.flatten = []) : ps = [] := by
  cases ps with
  | nil => rfl
  | cons p ps =>
    rw [List.flatten_cons, List.append_eq_nil_iff] at hnil
    exact absurd hnil.1 h.head_legal.nonempty

/-- A greedy cut has at most as many pieces as a cut into legal pieces of a list that ends with the
same items. The induction is on the other cut: after each of its pieces the greedy cut has no more
left than it has. -/
theorem Greedy.length_le {qs : List (List α)} (hqs : ∀ q ∈ qs, Legal lim w q)
    {ps : List (List α)} (h : Greedy lim w ps) (hsuffix : ps.flatten <:+ qs.flatten) :
    ps.length ≤ qs.length := by
  induction qs generalizing ps with
  | nil =>
    rw [List.flatten_nil, List.suffix_nil] at hsuffix
    rw [h.eq_nil_of_flatten hsuffix]
  | cons q qs ih =>
    have hrest : ∀ q ∈ qs, Legal lim w q := fun r hr => hqs r (List.mem_cons_of_mem q hr)
    have hqsuffix : qs.flatten <:+ (q :: qs).flatten := List.suffix_append q qs.flatten
    cases ps with
    | nil => exact Nat.zero_le _
    | cons p ps =>
      apply Nat.succ_le_succ
      rcases List.suffix_or_suffix_of_suffix hsuffix hqsuffix with hle | ⟨x, hx⟩
      · apply ih hrest h.tail
        exact (List.suffix_append p ps.flatten).trans hle
      · apply ih hrest h.tail
        by_cases hnil : x = []
        · subst hnil
          rw [List.nil_append] at hx
          rw [hx]
          exact List.suffix_append p ps.flatten
        · have hxq : x <:+ q := by
            obtain ⟨before, hbefore⟩ := hsuffix
            rw [← hx, List.flatten_cons, ← List.append_assoc, List.append_left_inj] at hbefore
            exact ⟨before, hbefore⟩
          have hlegal := (hqs q List.mem_cons_self).of_part hnil hxq.isInfix
          obtain ⟨c, rfl⟩ := h.prefix_head hlegal ⟨qs.flatten, hx⟩
          rw [List.flatten_cons, List.append_assoc, List.append_cancel_left_eq] at hx
          exact ⟨c, hx.symm⟩

theorem split_isLeast (lim : Limits) (w : α → ℕ) (l : List α) :
    IsLeast {n | ∃ pieces : List (List α), pieces.flatten = l ∧
      (∀ piece ∈ pieces, Legal lim w piece) ∧ pieces.length = n} (split lim w l [] 0).length := by
  constructor
  · exact ⟨_, split_nil_flatten lim w l, split_nil_legal lim w l, rfl⟩
  · rintro n ⟨pieces, hflatten, hlegal, rfl⟩
    apply (split_nil_greedy lim w l).length_le hlegal
    rw [split_nil_flatten, hflatten]

theorem split_of_legal {l : List α} (h : Legal lim w l) : split lim w l [] 0 = [l] := by
  have hlegal : ∀ piece ∈ [l], Legal lim w piece := by
    intro piece hpiece
    rwa [List.mem_singleton.mp hpiece]
  have hle := (split_isLeast lim w l).2 ⟨[l], List.flatten_singleton, hlegal, rfl⟩
  have hflatten := split_nil_flatten lim w l
  match hsplit : split lim w l [] 0, hle, hflatten with
  | [], _, hflatten => exact absurd hflatten.symm h.nonempty
  | [p], _, hflatten => rw [← hflatten, List.flatten_singleton]
  | _ :: _ :: _, hle, _ => simp at hle

theorem exists_cut_append {pieces : List (List α)} (hlegal : ∀ piece ∈ pieces, Legal lim w piece)
    {xs ys : List α} (hflatten : pieces.flatten = xs ++ ys) :
    ∃ left right : List (List α), left.flatten = xs ∧ right.flatten = ys ∧
      (∀ piece ∈ left ++ right, Legal lim w piece) ∧
      left.length + right.length ≤ pieces.length + 1 := by
  induction pieces generalizing xs with
  | nil =>
    obtain ⟨rfl, rfl⟩ := List.append_eq_nil_iff.mp hflatten.symm
    exact ⟨[], [], rfl, rfl, by simp, Nat.zero_le _⟩
  | cons p ps ih =>
    obtain ⟨hp, hps⟩ := List.forall_mem_cons.mp hlegal
    rw [List.flatten_cons] at hflatten
    rcases List.append_eq_append_iff.mp hflatten with ⟨rest, rfl, hrest⟩ | ⟨part, hpart, rfl⟩
    · obtain ⟨left, right, rfl, rfl, hboth, hlength⟩ := ih hps hrest
      refine ⟨p :: left, right, rfl, rfl, List.forall_mem_cons.mpr ⟨hp, hboth⟩, ?_⟩
      rw [List.length_cons, List.length_cons]
      omega
    · -- the piece is the one that the cut breaks, unless one of its halves is empty
      by_cases hx : xs = []
      · subst hx
        obtain rfl : p = part := hpart
        exact ⟨[], p :: ps, rfl, rfl, hlegal, by simp⟩
      · by_cases hy : part = []
        · subst hy
          rw [List.append_nil] at hpart
          subst hpart
          exact ⟨[p], ps, by simp, rfl, hlegal, by simp [Nat.add_comm]⟩
        · have hleft := hp.of_part hx ⟨[], part, by simp [hpart]⟩
          have hright := hp.of_part hy ⟨xs, [], by simp [hpart]⟩
          refine ⟨[xs], part :: ps, by simp, rfl, ?_, by simp; omega⟩
          exact List.forall_mem_cons.mpr ⟨hleft, List.forall_mem_cons.mpr ⟨hright, hps⟩⟩

def pieceCount (lim : Limits) (w : α → ℕ) (l : List α) : ℕ := (split lim w l [] 0).length

theorem pieceCount_le {pieces : List (List α)} (hlegal : ∀ piece ∈ pieces, Legal lim w piece) :
    pieceCount lim w pieces.flatten ≤ pieces.length :=
  (split_isLeast lim w pieces.flatten).2 ⟨pieces, rfl, hlegal, rfl⟩

theorem pieceCount_append (lim : Limits) (w : α → ℕ) (xs ys : List α) :
    pieceCount lim w (xs ++ ys) ≤ pieceCount lim w xs + pieceCount lim w ys ∧
      pieceCount lim w xs + pieceCount lim w ys ≤ pieceCount lim w (xs ++ ys) + 1 := by
  constructor
  · have hboth : ∀ piece ∈ split lim w xs [] 0 ++ split lim w ys [] 0, Legal lim w piece :=
      List.forall_mem_append.mpr ⟨split_nil_legal lim w xs, split_nil_legal lim w ys⟩
    have hle := pieceCount_le hboth
    rwa [List.flatten_append, split_nil_flatten, split_nil_flatten, List.length_append] at hle
  · obtain ⟨left, right, rfl, rfl, hboth, hlength⟩ :=
      exists_cut_append (split_nil_legal lim w (xs ++ ys)) (split_nil_flatten lim w (xs ++ ys))
    obtain ⟨hleft, hright⟩ := List.forall_mem_append.mp hboth
    exact (Nat.add_le_add (pieceCount_le hleft) (pieceCount_le hright)).trans hlength

/-- Splitting all at once saves at most one piece for each place where parts meet. -/
theorem pieceCount_flatten (lim : Limits) (w : α → ℕ) (parts : List (List α)) :
    pieceCount lim w parts.flatten ≤ (parts.map (pieceCount lim w)).sum ∧
      (parts.map (pieceCount lim w)).sum ≤ pieceCount lim w parts.flatten + (parts.length - 1) := by
  induction parts with
  | nil => exact ⟨le_rfl, Nat.zero_le _⟩
  | cons part parts ih =>
    obtain ⟨hle, hge⟩ := pieceCount_append lim w part parts.flatten
    rw [List.flatten_cons, List.map_cons, List.sum_cons, List.length_cons]
    cases parts with
    | nil => simp
    | cons next parts =>
      rw [List.length_cons] at ih ⊢
      omega

end ReplayBackoff.GreedySplit
