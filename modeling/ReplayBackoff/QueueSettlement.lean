import ReplayBackoff.MeteredQueues
import ReplayBackoff.ConfigFailure

/-!
# Every run of the queues comes to an end

Below the largest attempt limit the runs of the metered system are bounded: every original may
branch into at most `maxReceiveCount` copies at each of its attempts, and every copy takes part in
boundedly many steps. While a copy is in the source or the replay queue or an invocation is at work,
some step is possible. So every run goes on to a state in which each message was consumed or is in
the dead letter queue.
-/

namespace ReplayBackoff

open Lineage Potential

/-- Nothing is under way, and of every copy a copy with its content has come to rest. -/
structure Settled (s : State) : Prop where
  idle : ∀ k, s.running k = none
  rest : ∀ u < s.copies.length, s.place u ≠ .source ∧ s.place u ≠ .replay
  ended : ∀ u < s.copies.length, ∃ v a b, Descends s.ancestors u v ∧ s.copies[u]? = some a ∧
    s.copies[v]? = some b ∧ SameContent a b ∧ (s.place v = .consumed ∨ s.place v = .dead)

/-- The copies that an original may branch into. -/
def branches (maxReceiveCount : ℕ) (limit : UInt32) : ℕ :=
  ∑ i ∈ Finset.range (limit.toNat + 1), maxReceiveCount ^ i

/-- The default receive count and attempt limit. -/
example : branches 5 5 = 3906 := by decide

/-- Originals in the queues, none of which carries the largest count, and no invocation at work. -/
structure Sound (limit : UInt32) (s : State) : Prop where
  initial : Initial s
  limit : limit ≠ 4294967295
  counts : ∀ copy ∈ s.copies, ¬ copy.Counts 4294967295

variable {rule : DeletionRule} {arn : String} {limit : UInt32} {maxReceiveCount : ℕ}
  {m₀ m m' : Metered}

theorem Sound.inv (h : Sound limit m₀.state)
    (hrun : MeteredRun rule arn limit maxReceiveCount m₀ m) :
    QueueInv Unrestricted arn limit m.state :=
  (QueueInv.of_initial h.initial).run hrun.run

theorem Sound.within (h : Sound limit m₀.state)
    (hrun : MeteredRun rule arn limit maxReceiveCount m₀ m) :
    ReplaysWithin limit m.state :=
  replaysWithin_of_originals h.initial h.limit h.counts hrun.run

namespace Tariff

def Holds (t : Tariff) (rule : DeletionRule) (arn : String) (limit : UInt32) (m₀ m : Metered)
    (p : ℕ) : Prop :=
  MeteredRun rule arn limit t.maxReceiveCount m₀ m ∧
    ∃ active, m.state.Active active ∧ t.price m active = p

theorem pays (t : Tariff) (h : Sound limit m₀.state) (hlimit : t.attempts = limit.toNat) :
    Pays (MeteredStep rule arn limit t.maxReceiveCount) t.step (t.Holds rule arn limit m₀) := by
  rintro m m' p ⟨hrun, active, hactive, rfl⟩ hstep
  have hrun' := hrun.tail hstep
  obtain ⟨active', hactive', hle⟩ :=
    t.price_step (h.inv hrun) hstep (h.within hrun') hlimit hactive
  exact ⟨_, ⟨hrun', active', hactive', rfl⟩, hle⟩

theorem price_initial_le (t : Tariff) (h : Initial m.state) :
    t.price m ∅ ≤ m.state.copies.length * t.tree t.attempts := by
  have hcopy : ∀ u ∈ Finset.range m.state.copies.length,
      t.copy + t.copyPrice m u ≤ t.tree t.attempts := by
    intro u hu
    have hlevel : t.level m.state u = t.attempts := by
      have hcopy := List.getElem?_eq_getElem (Finset.mem_range.mp hu)
      rw [level, State.ancestors_eq hcopy, h.original _ (List.mem_of_getElem? hcopy)]
      rfl
    rw [copyPrice, hlevel]
    exact t.weight_le_tree _ _ (Nat.sub_le _ _)
  have hsum := Finset.sum_le_sum hcopy
  rw [Finset.sum_add_distrib, Finset.sum_const_nat (fun _ _ => rfl),
    Finset.sum_const_nat (fun _ _ => rfl), Finset.card_range] at hsum
  rw [price, Finset.sum_empty, Nat.mul_comm t.copy]
  exact hsum

theorem holds_initial (t : Tariff) (h : Initial m₀.state) :
    t.Holds rule arn limit m₀ m₀ (t.price m₀ ∅) :=
  ⟨.refl, ∅, fun k hk => absurd (h.idle k) hk, rfl⟩

end Tariff

theorem steps_le (h : Sound limit m₀.state) {n : ℕ}
    (hrun : Steps (MeteredStep rule arn limit maxReceiveCount) n m₀ m) :
    n ≤ m₀.state.copies.length * ((2 + 4 * maxReceiveCount) * branches maxReceiveCount limit) := by
  let t : Tariff := ⟨1, 0, maxReceiveCount, limit.toNat⟩
  have hpays : Pays (MeteredStep rule arn limit maxReceiveCount) 1 (t.Holds rule arn limit m₀) :=
    t.pays h rfl
  have hnode : t.node = 2 + 4 * maxReceiveCount := by
    change 0 + (2 + 4 * maxReceiveCount) * 1 = _
    omega
  have htree : t.tree t.attempts = (2 + 4 * maxReceiveCount) * branches maxReceiveCount limit := by
    rw [Tariff.tree, treePrice_eq, hnode]
    rfl
  rw [← htree]
  exact (hpays.length_le (t.holds_initial h.initial) hrun).trans (t.price_initial_le h.initial)

def freshIds (s : State) (u : ℕ) : String :=
  if u < s.copies.length then s.messageId u
  else sampleId (u + ∑ v ∈ Finset.range s.copies.length, (s.messageId v).toList.length)

theorem length_sampleId (u : ℕ) : (sampleId u).toList.length = u + 1 := by
  rw [sampleId, String.toList_ofList, List.length_replicate]

theorem sampleId_ne_empty (u : ℕ) : sampleId u ≠ "" := by
  intro h
  have hlength := length_sampleId u
  rw [h] at hlength
  cases hlength

theorem freshIds_ne (s : State) {u v : ℕ} (hu : s.copies.length ≤ u) (hne : v ≠ u) :
    freshIds s v ≠ freshIds s u := by
  intro heq
  have hlength := congrArg (fun id => id.toList.length) heq
  simp only [freshIds, if_neg (Nat.not_lt.mpr hu), length_sampleId] at hlength
  by_cases hv : v < s.copies.length
  · have hterm : (s.messageId v).toList.length ≤
        ∑ w ∈ Finset.range s.copies.length, (s.messageId w).toList.length :=
      Finset.single_le_sum (f := fun w => (s.messageId w).toList.length)
        (fun _ _ => Nat.zero_le _) (Finset.mem_range.mpr hv)
    rw [if_pos hv] at hlength
    omega
  · rw [if_neg hv, length_sampleId] at hlength
    omega

/-- A call can always be made under fresh ids. -/
theorem send_queueIds {s : State} (hids : s.QueueIds) (k : ℕ) (r : Running) (i : ℕ)
    (call : SendCall) : (s.send k r i call (freshIds s)).QueueIds := by
  have hqueue : ∀ u < s.copies.length,
      (s.send k r i call (freshIds s)).InQueue u → s.InQueue u := by
    rintro u hu ⟨-, hqueued⟩
    rw [send_place_old hu] at hqueued
    exact ⟨hu, hqueued⟩
  constructor
  · intro u hu
    change freshIds s u ≠ ""
    by_cases hold : u < s.copies.length
    · rw [freshIds, if_pos hold]
      exact hids.nonempty u (hqueue u hold hu)
    · rw [freshIds, if_neg hold]
      exact sampleId_ne_empty _
  · intro u v hu hv heq
    change freshIds s u = freshIds s v at heq
    by_contra hne
    by_cases hu' : u < s.copies.length
    · by_cases hv' : v < s.copies.length
      · rw [freshIds, freshIds, if_pos hu', if_pos hv'] at heq
        exact hne (hids.distinct u v (hqueue u hu' hu) (hqueue v hv' hv) heq)
      · exact freshIds_ne s (Nat.not_lt.mp hv') hne heq
    · exact freshIds_ne s (Nat.not_lt.mp hu') (Ne.symm hne) heq.symm

theorem move_queueIds {s : State} (hids : s.QueueIds) {u : ℕ} {place : Place}
    (hqueued : (s.place u).queued = true) : (s.move u place s.messageId).QueueIds := by
  have hqueue : ∀ v, (s.move u place s.messageId).InQueue v → s.InQueue v := by
    rintro v ⟨hv, hplace⟩
    refine ⟨hv, ?_⟩
    by_cases hvu : v = u
    · rw [hvu]
      exact hqueued
    · simpa [State.move, hvu] using hplace
  exact ⟨fun v hv => hids.nonempty v (hqueue v hv),
    fun v w hv hw => hids.distinct v w (hqueue v hv) (hqueue w hw)⟩

/-- An invocation with one copy, whose configurations cannot be loaded. -/
def failingRun (arn : String) (s : State) (u : ℕ) (copy : Copy) : Running where
  batch := [u]
  env := sampleEnvironment
  store := ConfigStore.new "/sqs-replay/queues/"
  inv := { sampleInvocation [⟨some (s.messageId u), some copy.body, ∅, copy.messageAttributes,
    some arn⟩] with lookups := fun _ => ⟨0, .error ⟨"unavailable"⟩, 0⟩ }
  accepted := fun _ _ => false
  sent := []

theorem failingRun_fails (arn : String) (s : State) (u : ℕ) (copy : Copy) :
    ∃ e, (resolvePass (failingRun arn s u copy).env (failingRun arn s u copy).store
      (failingRun arn s u copy).inv).result = .error e := by
  have hfirst : FirstFailure (failingRun arn s u copy).store (failingRun arn s u copy).inv 0 :=
    ⟨Nat.zero_lt_one, fun j hj => absurd hj (Nat.not_lt_zero j), rfl, ⟨"unavailable"⟩, rfl⟩
  obtain ⟨error, -, hresult, -⟩ := resolvePass_of_firstFailure (failingRun arn s u copy).env hfirst
  exact ⟨_, hresult⟩

theorem failingRun_delivery {arn : String} (limit : UInt32) {s : State} {u : ℕ} {copy : Copy}
    (hcopy : s.copies[u]? = some copy) (hplace : s.place u = .replay) :
    s.Delivery arn limit (failingRun arn s u copy) := by
  obtain ⟨e, he⟩ := failingRun_fails arn s u copy
  refine ⟨List.nodup_singleton u, ?_, ?_, ?_, ?_, rfl⟩
  · intro v hv
    obtain rfl := List.mem_singleton.mp hv
    exact ⟨(List.getElem?_eq_some_iff.mp hcopy).1, hplace⟩
  · exact List.Forall₂.cons ⟨⟨copy, hcopy, rfl, rfl, rfl⟩, rfl⟩ List.Forall₂.nil
  · intro i call output hcall
    rw [Running.handled, (handle_of_resolve_error he).2] at hcall
    cases hcall
  · intro resolved config hresolved
    cases he.symm.trans hresolved

/-- A state without a possible step has come to rest. -/
theorem settled_of_final (h : Sound limit m₀.state)
    (hrun : MeteredRun rule arn limit maxReceiveCount m₀ m)
    (hfinal : Final (MeteredStep rule arn limit maxReceiveCount) m) : Settled m.state := by
  have hinv := h.inv hrun
  have hidle : ∀ k, m.state.running k = none := by
    intro k
    by_contra hsome
    obtain ⟨r, hr⟩ := Option.ne_none_iff_exists'.mp hsome
    by_cases hall : ∀ i < r.handled.calls.length, i ∈ r.sent
    · exact hfinal _ (.finish k r hr hall)
    · push Not at hall
      obtain ⟨i, hi, hsent⟩ := hall
      exact hfinal _ (.send k r i _ (freshIds m.state) hr hsent (List.getElem?_eq_getElem hi)
        (fun v hv => if_pos hv) (send_queueIds hinv.ids k r i _))
  have hrest : ∀ u < m.state.copies.length,
      m.state.place u ≠ .source ∧ m.state.place u ≠ .replay := by
    intro u hu
    constructor
    · intro hplace
      by_cases hcount : m.receives u < maxReceiveCount
      · exact hfinal _ (.receive u hu hplace hcount)
      · exact hfinal _ (.redrive u m.state.messageId hu hplace (Nat.not_lt.mp hcount)
          (fun _ _ => rfl) (move_queueIds hinv.ids (by rw [hplace]; rfl)))
    · intro hplace
      by_cases hcount : m.receives u < maxReceiveCount
      · exact hfinal _ (.deliver 0 _ (hidle 0)
          (failingRun_delivery limit (List.getElem?_eq_getElem hu) hplace) (List.cons_ne_nil _ _)
          (fun v hv => List.mem_singleton.mp hv ▸ hcount))
      · exact hfinal _ (.bury u m.state.messageId hu hplace (Nat.not_lt.mp hcount)
          (fun _ _ => rfl) (move_queueIds hinv.ids (by rw [hplace]; rfl)))
  refine ⟨hidle, hrest, ?_⟩
  intro u hu
  obtain ⟨v, a, b, hdesc, ha, hb, hsame, hheld⟩ := hinv.survives hu
  obtain ⟨hsource, hreplay⟩ := hrest v (List.getElem?_eq_some_iff.mp hb).1
  refine ⟨v, a, b, hdesc, ha, hb, hsame, ?_⟩
  cases hplace : m.state.place v with
  | source => exact absurd hplace hsource
  | replay => exact absurd hplace hreplay
  | dead => exact Or.inr rfl
  | consumed => exact Or.inl rfl
  | replayed =>
    rw [hplace] at hheld
    cases hheld

/-- Every run is bounded and goes on to a state without a possible step. There every message was
consumed or is in the dead letter queue. -/
theorem queue_settles (rule : DeletionRule) (arn : String) (limit : UInt32)
    (maxReceiveCount : ℕ) (m₀ : Metered) (h : Sound limit m₀.state) :
    (∀ n m, Steps (MeteredStep rule arn limit maxReceiveCount) n m₀ m →
      n ≤ m₀.state.copies.length * ((2 + 4 * maxReceiveCount) * branches maxReceiveCount limit)) ∧
    (∀ m, MeteredRun rule arn limit maxReceiveCount m₀ m →
      ∃ m', MeteredRun rule arn limit maxReceiveCount m m' ∧
        Final (MeteredStep rule arn limit maxReceiveCount) m') ∧
    ∀ m, MeteredRun rule arn limit maxReceiveCount m₀ m →
      Final (MeteredStep rule arn limit maxReceiveCount) m →
        m₀.state.copies <+: m.state.copies ∧ Settled m.state := by
  refine ⟨fun n m => steps_le h, ?_, ?_⟩
  · intro m hrun
    let t : Tariff := ⟨1, 0, maxReceiveCount, limit.toNat⟩
    have hpays : Pays (MeteredStep rule arn limit maxReceiveCount) 1 (t.Holds rule arn limit m₀) :=
      t.pays h rfl
    obtain ⟨n, hsteps⟩ := exists_steps hrun
    obtain ⟨p, hp, -⟩ := hpays.run (t.holds_initial h.initial) hsteps
    exact hpays.exists_final hp
  · intro m hrun hfinal
    exact ⟨hrun.run.grows, settled_of_final h hrun hfinal⟩

def sampleMetered : Metered := ⟨sampleQueue ∅, fun _ => 0⟩

theorem sampleMetered_sound : Sound 1 sampleMetered.state where
  initial := sampleQueue_initial ∅
  limit := by decide
  counts copy hcopy hcounts := by
    obtain rfl := List.mem_singleton.mp hcopy
    have hcount := hcounts ⟨none, none, ∅, ∅, none⟩ rfl
    exact absurd hcount (by decide)

theorem queue_settles_sample :
    (∀ n m, Steps (MeteredStep .asSent "arn:aws:sqs:ReplayQueue" 1 5) n sampleMetered m →
      n ≤ 1 * ((2 + 4 * 5) * branches 5 1)) ∧
    (∀ m, MeteredRun .asSent "arn:aws:sqs:ReplayQueue" 1 5 sampleMetered m →
      ∃ m', MeteredRun .asSent "arn:aws:sqs:ReplayQueue" 1 5 m m' ∧
        Final (MeteredStep .asSent "arn:aws:sqs:ReplayQueue" 1 5) m') ∧
    ∀ m, MeteredRun .asSent "arn:aws:sqs:ReplayQueue" 1 5 sampleMetered m →
      Final (MeteredStep .asSent "arn:aws:sqs:ReplayQueue" 1 5) m →
        sampleMetered.state.copies <+: m.state.copies ∧ Settled m.state :=
  queue_settles .asSent "arn:aws:sqs:ReplayQueue" 1 5 sampleMetered sampleMetered_sound

/-- The message is delivered to an invocation, which replays it. -/
def sampleStarted : Metered :=
  { sampleMetered.receive [0] with state := sampleMetered.state.start 0 (sampleRunning 0 ∅) }

def sampleSent : Metered :=
  ⟨sampleStarted.state.send 0 (sampleRunning 0 ∅) 0 (sampleCall 0 ∅ 0) sampleId,
    fun u => if u < 1 then sampleStarted.receives u else 0⟩

def sampleReplayed : Metered := { sampleSent with state := sampleSent.state.finish 0 [0] }

theorem sampleSent_step (maxReceiveCount : ℕ) :
    MeteredStep .asSent "arn:aws:sqs:ReplayQueue" 1 maxReceiveCount sampleStarted sampleSent :=
  .send 0 (sampleRunning 0 ∅) 0 (sampleCall 0 ∅ 0) sampleId start_running_self List.not_mem_nil rfl
    (fun _ _ => rfl) (queueIds_of_sampleId rfl)

theorem sampleReplayed_step (maxReceiveCount : ℕ) :
    MeteredStep .asSent "arn:aws:sqs:ReplayQueue" 1 maxReceiveCount sampleSent sampleReplayed := by
  let r : Running := { sampleRunning 0 ∅ with sent := [0] }
  have hresult : r.handled.result = .ok ⟨[]⟩ := rfl
  have hdeleted : DeletionRule.asSent.deleted r = [0] := by
    rw [DeletionRule.asSent_deleted, Running.released_of_ok hresult, if_pos rfl]
    rfl
  have hrunning : sampleSent.state.running 0 = some r := send_running_self
  have hall : ∀ i < r.handled.calls.length, i ∈ r.sent := by
    intro i hi
    have hlength : r.handled.calls.length = 1 := rfl
    rw [hlength, Nat.lt_one_iff] at hi
    exact List.mem_singleton.mpr hi
  rw [sampleReplayed, ← hdeleted]
  exact .finish 0 r hrunning hall

end ReplayBackoff
