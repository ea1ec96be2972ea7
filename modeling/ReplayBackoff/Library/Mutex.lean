import Mathlib.Logic.Function.Basic
import Mathlib.Logic.Relation
import Mathlib.Data.List.Nodup

/-!
# Critical sections under a lock

Clients share a value that each of them works on, step by step, while it holds a lock. The world may
answer every step as it likes, and the answers that were asked for are logged. Only entering is
guarded by the lock: that no two clients are inside at once is a result. In every run the shared
value and what each client takes out of its section are those of a serial run, in which the sections
are executed one after the other in the order of entry, each with the answers it was given. So the
log is made of one block of answers for each section.
-/

namespace ReplayBackoff.Mutex

variable {ι σ α ω : Type*}

/-- A section starts with a local value. Each step uses the local value, the shared value and, if it
asks for one, an answer of the world. -/
structure Code (ι σ α ω : Type*) where
  start : ι → α
  next : α → σ → ω → α × σ
  asks : α → Bool
  done : α → Bool

def Code.asked (c : Code ι σ α ω) (a : α) (w : ω) : List ω := if c.asks a then [w] else []

inductive Status (α : Type*) where
  | waiting
  | inside (a : α)
  | left (a : α)

def Status.isLeft : Status α → Bool
  | .left _ => true
  | _ => false

structure State (ι σ α ω : Type*) where
  shared : σ
  holder : Option ι
  status : ι → Status α
  entered : List ι
  log : List (ι × ω)

def initial (s : σ) : State ι σ α ω := ⟨s, none, fun _ => .waiting, [], []⟩

def State.finished (s : State ι σ α ω) : List ι :=
  s.entered.filter (fun i => (s.status i).isLeft)

section

variable [DecidableEq ι]

def answersIn (log : List (ι × ω)) (i : ι) : List ω := (log.filter (fun e => e.1 = i)).map (·.2)

def State.answersOf (s : State ι σ α ω) (i : ι) : List ω := answersIn s.log i

def State.enter (c : Code ι σ α ω) (s : State ι σ α ω) (i : ι) : State ι σ α ω :=
  ⟨s.shared, some i, Function.update s.status i (.inside (c.start i)), s.entered ++ [i], s.log⟩

def State.advance (c : Code ι σ α ω) (s : State ι σ α ω) (i : ι) (a : α) (w : ω) : State ι σ α ω :=
  { s with
    shared := (c.next a s.shared w).2
    status := Function.update s.status i (.inside (c.next a s.shared w).1)
    log := s.log ++ (c.asked a w).map (i, ·) }

def State.leave (s : State ι σ α ω) (i : ι) (a : α) : State ι σ α ω :=
  { s with holder := none, status := Function.update s.status i (.left a) }

inductive Step (c : Code ι σ α ω) : State ι σ α ω → State ι σ α ω → Prop
  | enter {s : State ι σ α ω} (i : ι) : s.holder = none → s.status i = .waiting →
      Step c s (s.enter c i)
  | advance {s : State ι σ α ω} (i : ι) (a : α) (w : ω) : s.status i = .inside a →
      c.done a = false → Step c s (s.advance c i a w)
  | leave {s : State ι σ α ω} (i : ι) (a : α) : s.status i = .inside a → c.done a = true →
      Step c s (s.leave i a)

end

/-- Some steps of a section without interruption, with the answers they ask for. -/
inductive Exec (c : Code ι σ α ω) : α → σ → List ω → α → σ → Prop
  | refl (a : α) (s : σ) : Exec c a s [] a s
  | step {a b : α} {s s' : σ} {ws : List ω} (w : ω) : c.done a = false →
      Exec c (c.next a s w).1 (c.next a s w).2 ws b s' → Exec c a s (c.asked a w ++ ws) b s'

theorem Exec.concat {c : Code ι σ α ω} {a b : α} {s s' : σ} {ws : List ω}
    (h : Exec c a s ws b s') (w : ω) (hdone : c.done b = false) :
    Exec c a s (ws ++ c.asked b w) (c.next b s' w).1 (c.next b s' w).2 := by
  induction h with
  | refl a s =>
    have hstep := Exec.step w hdone (.refl (c.next a s w).1 (c.next a s w).2)
    rwa [List.append_nil] at hstep
  | step v hfirst _ ih =>
    rw [List.append_assoc]
    exact .step v hfirst (ih hdone)

theorem Exec.eq_of_done {c : Code ι σ α ω} {a b : α} {s s' : σ} {ws : List ω}
    (h : Exec c a s ws b s') (hdone : c.done a = true) : b = a ∧ s' = s := by
  cases h with
  | refl => exact ⟨rfl, rfl⟩
  | step _ hmore _ =>
    rw [hdone] at hmore
    cases hmore

/-- A section that ended, with the answers it was given. -/
structure Turn (ι α ω : Type*) where
  client : ι
  answers : List ω
  final : α

def Turn.log (t : Turn ι α ω) : List (ι × ω) := t.answers.map (t.client, ·)

/-- The sections, executed one after the other, leave this shared value. -/
inductive Serial (c : Code ι σ α ω) (s₀ : σ) : List (Turn ι α ω) → σ → Prop
  | nil : Serial c s₀ [] s₀
  | concat {turns : List (Turn ι α ω)} {s s' : σ} {i : ι} {a : α} {ws : List ω} :
      Serial c s₀ turns s → Exec c (c.start i) s ws a s' → c.done a = true →
      Serial c s₀ (turns ++ [⟨i, ws, a⟩]) s'

/-- The sections that ended are those of the serial run, and a client inside is in the middle of the
next one. -/
structure Inv (c : Code ι σ α ω) (s₀ : σ) (s : State ι σ α ω) (turns : List (Turn ι α ω)) :
    Prop where
  left : ∀ i a, s.status i = .left a → ∃ ws, ⟨i, ws, a⟩ ∈ turns
  ended : ∀ t ∈ turns, s.status t.client = .left t.final
  free : s.holder = none → s.entered = turns.map (·.client) ∧ s.log = turns.flatMap Turn.log ∧
    Serial c s₀ turns s.shared ∧ ∀ j a, s.status j ≠ .inside a
  held : ∀ i, s.holder = some i → s.entered = turns.map (·.client) ++ [i] ∧
    (∀ j a, s.status j = .inside a → j = i) ∧
    ∃ a ws s₁, s.status i = .inside a ∧ s.log = turns.flatMap Turn.log ++ ws.map (i, ·) ∧
      Serial c s₀ turns s₁ ∧ Exec c (c.start i) s₁ ws a s.shared
  waiting : ∀ i ∈ s.entered, s.status i ≠ .waiting
  nodup : s.entered.Nodup

section

variable {c : Code ι σ α ω} {s₀ : σ} {s s' : State ι σ α ω} {turns : List (Turn ι α ω)} {i : ι}
  {a : α}

theorem Inv.of_initial (c : Code ι σ α ω) (s₀ : σ) : Inv c s₀ (initial s₀) [] where
  left _ _ h := by cases h
  ended _ h := by cases h
  free _ := ⟨rfl, rfl, .nil, fun _ _ h => by cases h⟩
  held _ h := by cases h
  waiting _ h := by cases h
  nodup := List.nodup_nil

theorem Inv.holder_of_inside (h : Inv c s₀ s turns) (hi : s.status i = .inside a) :
    s.holder = some i := by
  cases hholder : s.holder with
  | none => exact absurd hi ((h.free hholder).2.2.2 i a)
  | some j => rw [(h.held j hholder).2.1 i a hi]

theorem Inv.finished_eq (h : Inv c s₀ s turns) : s.finished = turns.map (·.client) := by
  have hleft : (turns.map (·.client)).filter (fun i => (s.status i).isLeft) =
      turns.map (·.client) := by
    rw [List.filter_eq_self]
    intro i hi
    obtain ⟨t, ht, rfl⟩ := List.mem_map.mp hi
    rw [h.ended t ht]
    rfl
  cases hholder : s.holder with
  | none => rw [State.finished, (h.free hholder).1, hleft]
  | some i =>
    obtain ⟨hentered, -, a, ws, s₁, hinside, -⟩ := h.held i hholder
    rw [State.finished, hentered, List.filter_append, hleft, List.filter_singleton, hinside]
    exact List.append_nil _

/-- The sections that ended are a serial run, which left the shared value if the lock is free. -/
theorem Inv.exists_serial (h : Inv c s₀ s turns) : ∃ s₁, Serial c s₀ turns s₁ ∧
    (s.holder = none → s.finished = s.entered ∧ s.shared = s₁) := by
  cases hholder : s.holder with
  | none =>
    obtain ⟨hentered, -, hserial, -⟩ := h.free hholder
    exact ⟨_, hserial, fun _ => ⟨h.finished_eq.trans hentered.symm, rfl⟩⟩
  | some i =>
    obtain ⟨-, -, a, ws, s₁, -, -, hserial, -⟩ := h.held i hholder
    refine ⟨s₁, hserial, ?_⟩
    intro hnone
    cases hnone

variable [DecidableEq ι]

theorem answersIn_append (log log' : List (ι × ω)) (i : ι) :
    answersIn (log ++ log') i = answersIn log i ++ answersIn log' i := by
  rw [answersIn, List.filter_append, List.map_append]
  rfl

theorem answersIn_block (ws : List ω) (i j : ι) :
    answersIn (ws.map (i, ·)) j = if i = j then ws else [] := by
  by_cases h : i = j
  · subst h
    simp [answersIn, List.filter_map, Function.comp_def]
  · simp [answersIn, List.filter_map, Function.comp_def, h]

theorem answersIn_of_notMem (hi : i ∉ turns.map (·.client)) :
    answersIn (turns.flatMap Turn.log) i = [] := by
  induction turns with
  | nil => rfl
  | cons t turns ih =>
    rw [List.map_cons, List.mem_cons, not_or] at hi
    rw [List.flatMap_cons, answersIn_append, ih hi.2, Turn.log, answersIn_block,
      if_neg (Ne.symm hi.1), List.append_nil]

theorem answersIn_of_mem (hnodup : (turns.map (·.client)).Nodup) {t : Turn ι α ω}
    (ht : t ∈ turns) : answersIn (turns.flatMap Turn.log) t.client = t.answers := by
  induction turns with
  | nil => cases ht
  | cons u turns ih =>
    obtain ⟨hu, hnodup⟩ := List.nodup_cons.mp hnodup
    rw [List.flatMap_cons, answersIn_append, Turn.log, answersIn_block]
    rcases List.mem_cons.mp ht with rfl | ht
    · rw [if_pos rfl, answersIn_of_notMem hu, List.append_nil]
    · have hne : u.client ≠ t.client := fun heq => hu (List.mem_map.mpr ⟨t, ht, heq.symm⟩)
      rw [if_neg hne, ih hnodup ht, List.nil_append]

theorem Inv.answersOf_eq (h : Inv c s₀ s turns) {t : Turn ι α ω} (ht : t ∈ turns) :
    s.answersOf t.client = t.answers := by
  have hnodup := h.nodup
  cases hholder : s.holder with
  | none =>
    obtain ⟨hentered, hlog, -⟩ := h.free hholder
    rw [hentered] at hnodup
    rw [State.answersOf, hlog, answersIn_of_mem hnodup ht]
  | some i =>
    obtain ⟨hentered, -, a, ws, s₁, -, hlog, -⟩ := h.held i hholder
    rw [hentered, List.nodup_append'] at hnodup
    have hne : i ≠ t.client := by
      rintro rfl
      exact hnodup.2.2 (List.mem_map_of_mem ht) List.mem_cons_self
    rw [State.answersOf, hlog, answersIn_append, answersIn_of_mem hnodup.1 ht, answersIn_block,
      if_neg hne, List.append_nil]

/-- The log has one block for each client that entered, in the order of entry. -/
theorem Inv.log_eq (h : Inv c s₀ s turns) :
    s.log = s.entered.flatMap (fun i => (s.answersOf i).map (i, ·)) := by
  have hturns : turns.flatMap Turn.log =
      (turns.map (·.client)).flatMap (fun i => (s.answersOf i).map (i, ·)) := by
    rw [List.flatMap_map]
    apply List.flatMap_congr
    intro t ht
    rw [h.answersOf_eq ht]
    rfl
  cases hholder : s.holder with
  | none =>
    obtain ⟨hentered, hlog, -⟩ := h.free hholder
    rw [hlog, hturns, hentered]
  | some i =>
    obtain ⟨hentered, -, a, ws, s₁, -, hlog, -⟩ := h.held i hholder
    have hnodup := h.nodup
    rw [hentered, List.nodup_append', List.disjoint_singleton] at hnodup
    have hself : s.answersOf i = ws := by
      rw [State.answersOf, hlog, answersIn_append, answersIn_of_notMem hnodup.2.2, answersIn_block,
        if_pos rfl, List.nil_append]
    rw [hentered, List.flatMap_append, ← hturns, List.flatMap_singleton, hself, hlog]

theorem Inv.enter (h : Inv c s₀ s turns) (hfree : s.holder = none) (hi : s.status i = .waiting) :
    Inv c s₀ (s.enter c i) turns := by
  obtain ⟨hentered, hlog, hserial, houtside⟩ := h.free hfree
  have hself : (s.enter c i).status i = .inside (c.start i) := Function.update_self _ _ _
  have hother : ∀ {j}, j ≠ i → (s.enter c i).status j = s.status j :=
    fun hj => Function.update_of_ne hj _ _
  refine ⟨?_, ?_, ?_, ?_, ?_, ?_⟩
  · intro j b hj
    by_cases hji : j = i
    · rw [hji, hself] at hj
      cases hj
    · exact h.left j b ((hother hji).symm.trans hj)
  · intro t ht
    have hti : t.client ≠ i := by
      rintro rfl
      cases hi.symm.trans (h.ended t ht)
    exact (hother hti).trans (h.ended t ht)
  · intro hnone
    cases hnone
  · intro j hj
    obtain rfl : i = j := Option.some.inj hj
    refine ⟨congrArg (· ++ [i]) hentered, ?_, c.start i, [], s.shared, hself, ?_, hserial,
      .refl _ _⟩
    · intro k b hk
      by_contra hki
      exact houtside k b ((hother hki).symm.trans hk)
    · exact hlog.trans (List.append_nil _).symm
  · intro j hj hwaiting
    by_cases hji : j = i
    · rw [hji, hself] at hwaiting
      cases hwaiting
    · rcases List.mem_append.mp hj with hj | hj
      · exact h.waiting j hj ((hother hji).symm.trans hwaiting)
      · exact hji (List.mem_singleton.mp hj)
  · refine List.nodup_append'.mpr ⟨h.nodup, List.nodup_singleton i, ?_⟩
    rw [List.disjoint_singleton]
    exact fun hmem => h.waiting i hmem hi

theorem Inv.advance (h : Inv c s₀ s turns) (hi : s.status i = .inside a) (hdone : c.done a = false)
    (w : ω) : Inv c s₀ (s.advance c i a w) turns := by
  have hholder := h.holder_of_inside hi
  obtain ⟨hentered, hsole, b, ws, s₁, hb, hlog, hserial, hexec⟩ := h.held i hholder
  obtain rfl : a = b := Status.inside.inj (hi.symm.trans hb)
  have hself : (s.advance c i a w).status i = .inside (c.next a s.shared w).1 :=
    Function.update_self _ _ _
  have hother : ∀ {j}, j ≠ i → (s.advance c i a w).status j = s.status j :=
    fun hj => Function.update_of_ne hj _ _
  refine ⟨?_, ?_, ?_, ?_, ?_, h.nodup⟩
  · intro j b hj
    by_cases hji : j = i
    · rw [hji, hself] at hj
      cases hj
    · exact h.left j b ((hother hji).symm.trans hj)
  · intro t ht
    have hti : t.client ≠ i := by
      rintro rfl
      cases hi.symm.trans (h.ended t ht)
    exact (hother hti).trans (h.ended t ht)
  · intro hfree
    cases hholder.symm.trans hfree
  · intro j hj
    obtain rfl : i = j := Option.some.inj (hholder.symm.trans hj)
    refine ⟨hentered, ?_, _, ws ++ c.asked a w, s₁, hself, ?_, hserial, hexec.concat w hdone⟩
    · intro k b hk
      by_cases hki : k = i
      · exact hki
      · exact hsole k b ((hother hki).symm.trans hk)
    · rw [List.map_append, ← List.append_assoc, ← hlog]
      rfl
  · intro j hj hwaiting
    by_cases hji : j = i
    · rw [hji, hself] at hwaiting
      cases hwaiting
    · exact h.waiting j hj ((hother hji).symm.trans hwaiting)

theorem Inv.leave (h : Inv c s₀ s turns) (hi : s.status i = .inside a) (hdone : c.done a = true) :
    ∃ ws, Inv c s₀ (s.leave i a) (turns ++ [⟨i, ws, a⟩]) := by
  obtain ⟨hentered, hsole, b, ws, s₁, hb, hlog, hserial, hexec⟩ :=
    h.held i (h.holder_of_inside hi)
  obtain rfl : a = b := Status.inside.inj (hi.symm.trans hb)
  have hself : (s.leave i a).status i = .left a := Function.update_self _ _ _
  have hother : ∀ {j}, j ≠ i → (s.leave i a).status j = s.status j :=
    fun hj => Function.update_of_ne hj _ _
  refine ⟨ws, ?_, ?_, ?_, ?_, ?_, h.nodup⟩
  · intro j b hj
    by_cases hji : j = i
    · subst hji
      obtain rfl : a = b := Status.left.inj (hself.symm.trans hj)
      exact ⟨ws, List.mem_append_right turns (List.mem_singleton.mpr rfl)⟩
    · obtain ⟨ws', hmem⟩ := h.left j b ((hother hji).symm.trans hj)
      exact ⟨ws', List.mem_append_left _ hmem⟩
  · intro t ht
    rcases List.mem_append.mp ht with hold | hnew
    · have hti : t.client ≠ i := by
        rintro rfl
        cases hi.symm.trans (h.ended t hold)
      exact (hother hti).trans (h.ended t hold)
    · obtain rfl := List.mem_singleton.mp hnew
      exact hself
  · intro _
    refine ⟨?_, ?_, .concat hserial hexec hdone, ?_⟩
    · rw [List.map_append]
      exact hentered
    · rw [List.flatMap_append, List.flatMap_singleton]
      exact hlog
    · intro j b hj
      by_cases hji : j = i
      · rw [hji, hself] at hj
        cases hj
      · exact hji (hsole j b ((hother hji).symm.trans hj))
  · intro j hj
    cases hj
  · intro j hj hwaiting
    by_cases hji : j = i
    · rw [hji, hself] at hwaiting
      cases hwaiting
    · exact h.waiting j hj ((hother hji).symm.trans hwaiting)

theorem Inv.step (h : Inv c s₀ s turns) (hstep : Step c s s') : ∃ turns', Inv c s₀ s' turns' := by
  cases hstep with
  | enter i hfree hi => exact ⟨turns, h.enter hfree hi⟩
  | advance i a w hi hdone => exact ⟨turns, h.advance hi hdone w⟩
  | leave i a hi hdone =>
    obtain ⟨ws, h'⟩ := h.leave hi hdone
    exact ⟨_, h'⟩

/-- Every run is equivalent to a serial one. -/
theorem exists_turns (hrun : Relation.ReflTransGen (Step c) (initial s₀) s) :
    ∃ turns, Inv c s₀ s turns := by
  induction hrun with
  | refl => exact ⟨[], Inv.of_initial c s₀⟩
  | tail _ hstep ih =>
    obtain ⟨turns, h⟩ := ih
    exact h.step hstep

end

end ReplayBackoff.Mutex
