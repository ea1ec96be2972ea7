import ReplayBackoff.QueueSafety
import ReplayBackoff.Library.Potential

/-!
# The queues under a maximum receive count

Both queues redrive a message after `maxReceiveCount` receives. A copy is received from the source
queue by the consumer and from the replay queue by an invocation, and its receives are counted anew
when it enters the replay queue. A redriven copy has used its receives up, and an invocation is
never started without a record. Every step is otherwise one of the queue system.

A tariff prices what may still happen. A copy with `level` attempts left pays for its receives, and
for the copies that each of its deliveries to an invocation may add; these have one attempt less.
-/

namespace ReplayBackoff

open Potential

structure Metered where
  state : State
  receives : ℕ → ℕ

def Metered.receive (m : Metered) (batch : List ℕ) : Metered :=
  { m with receives := fun u => if u ∈ batch then m.receives u + 1 else m.receives u }

inductive MeteredStep (rule : DeletionRule) (arn : String) (limit : UInt32)
    (maxReceiveCount : ℕ) : Metered → Metered → Prop
  | receive {m : Metered} (u : ℕ) : u < m.state.copies.length → m.state.place u = .source →
      m.receives u < maxReceiveCount → MeteredStep rule arn limit maxReceiveCount m (m.receive [u])
  | consume {m : Metered} (u : ℕ) : u < m.state.copies.length → m.state.place u = .source →
      0 < m.receives u → MeteredStep rule arn limit maxReceiveCount m
        { m with state := m.state.move u .consumed m.state.messageId }
  | redrive {m : Metered} (u : ℕ) (ids : ℕ → String) : u < m.state.copies.length →
      m.state.place u = .source → maxReceiveCount ≤ m.receives u →
      (∀ v, v ≠ u → ids v = m.state.messageId v) → (m.state.move u .replay ids).QueueIds →
      MeteredStep rule arn limit maxReceiveCount m
        ⟨m.state.move u .replay ids, Function.update m.receives u 0⟩
  | bury {m : Metered} (u : ℕ) (ids : ℕ → String) : u < m.state.copies.length →
      m.state.place u = .replay → maxReceiveCount ≤ m.receives u →
      (∀ v, v ≠ u → ids v = m.state.messageId v) → (m.state.move u .dead ids).QueueIds →
      MeteredStep rule arn limit maxReceiveCount m { m with state := m.state.move u .dead ids }
  | deliver {m : Metered} (k : ℕ) (r : Running) : m.state.running k = none →
      m.state.Delivery arn limit r → r.batch ≠ [] →
      (∀ u ∈ r.batch, m.receives u < maxReceiveCount) →
      MeteredStep rule arn limit maxReceiveCount m
        { m.receive r.batch with state := m.state.start k r }
  | send {m : Metered} (k : ℕ) (r : Running) (i : ℕ) (call : SendCall) (ids : ℕ → String) :
      m.state.running k = some r → i ∉ r.sent → r.handled.calls[i]? = some call →
      (∀ v < m.state.copies.length, ids v = m.state.messageId v) →
      (m.state.send k r i call ids).QueueIds →
      MeteredStep rule arn limit maxReceiveCount m
        ⟨m.state.send k r i call ids,
          fun u => if u < m.state.copies.length then m.receives u else 0⟩
  | finish {m : Metered} (k : ℕ) (r : Running) : m.state.running k = some r →
      (∀ i < r.handled.calls.length, i ∈ r.sent) →
      MeteredStep rule arn limit maxReceiveCount m
        { m with state := m.state.finish k (rule.deleted r) }

abbrev MeteredRun (rule : DeletionRule) (arn : String) (limit : UInt32) (maxReceiveCount : ℕ) :
    Metered → Metered → Prop :=
  Relation.ReflTransGen (MeteredStep rule arn limit maxReceiveCount)

variable {rule : DeletionRule} {arn : String} {limit : UInt32} {maxReceiveCount : ℕ}
  {m₀ m m' : Metered}

theorem MeteredStep.run (hstep : MeteredStep rule arn limit maxReceiveCount m m') :
    Run rule Unrestricted arn limit m.state m'.state := by
  cases hstep with
  | receive u _ _ _ => exact .refl
  | consume u hu hplace _ => exact .single (.consume u hu hplace)
  | redrive u ids hu hplace _ hrest hids => exact .single (.redrive u ids hu hplace hrest hids)
  | bury u ids hu hplace _ hrest hids => exact .single (.bury u ids hu hplace hrest hids)
  | deliver k r hidle hdelivery _ _ => exact .single (.deliver k r hidle hdelivery trivial)
  | send k r i call ids hr hi hcall hrest hids =>
    exact .single (.send k r i call ids hr hi hcall hrest hids)
  | finish k r hr hall => exact .single (.finish k r hr hall)

theorem MeteredRun.run (hrun : MeteredRun rule arn limit maxReceiveCount m m') :
    Run rule Unrestricted arn limit m.state m'.state := by
  induction hrun with
  | refl => exact .refl
  | tail _ hstep ih => exact ih.trans hstep.run

/-- The price of a step and of a new copy, under a maximum receive count and an attempt limit. -/
structure Tariff where
  step : ℕ
  copy : ℕ
  maxReceiveCount : ℕ
  attempts : ℕ

namespace Tariff

variable (t : Tariff)

def node : ℕ := t.copy + (2 + 4 * t.maxReceiveCount) * t.step

/-- A new copy with all that may come of it. -/
def tree (level : ℕ) : ℕ := treePrice t.node t.maxReceiveCount level

def offspring : ℕ → ℕ
  | 0 => 0
  | level + 1 => t.tree level

/-- One delivery: it starts an invocation, is in at most one call, and may be the last to end. -/
def delivery (level : ℕ) : ℕ := 3 * t.step + t.offspring level

/-- A copy with `left` receives in its queue. -/
def weight (place : Place) (level left : ℕ) : ℕ :=
  match place with
  | .source => (left + 2) * t.step + t.maxReceiveCount * t.delivery level
  | .replay => t.step + left * t.delivery level
  | .dead => 0
  | .consumed => 0
  | .replayed => 0

theorem copy_add_weight (level : ℕ) :
    t.copy + t.weight .source level t.maxReceiveCount = t.tree level := by
  cases level with
  | zero =>
    simp only [weight, tree, treePrice, node, delivery, offspring]
    ring
  | succ level =>
    simp only [weight, tree, treePrice, node, delivery, offspring]
    ring

theorem weight_le_tree (place : Place) (level : ℕ) {left : ℕ} (hleft : left ≤ t.maxReceiveCount) :
    t.copy + t.weight place level left ≤ t.tree level := by
  rw [← t.copy_add_weight level]
  have hdeliveries := Nat.mul_le_mul_right (t.delivery level) hleft
  have hsteps := Nat.mul_le_mul_right t.step (Nat.add_le_add_right hleft 2)
  have hone : t.step ≤ (t.maxReceiveCount + 2) * t.step := Nat.le_mul_of_pos_left _ (by omega)
  cases place <;> simp only [weight] <;> omega

def level (s : State) (u : ℕ) : ℕ := t.attempts - (s.ancestors u).length

def left (m : Metered) (u : ℕ) : ℕ := t.maxReceiveCount - m.receives u

def copyPrice (m : Metered) (u : ℕ) : ℕ :=
  t.weight (m.state.place u) (t.level m.state u) (t.left m u)

/-- The copy that the entry with an id may become. -/
def idPrice (s : State) (r : Running) (id : String) : ℕ :=
  ((r.parent id).map (fun u => t.offspring (t.level s u))).getD 0

def callPrice (s : State) (r : Running) (call : SendCall) : ℕ :=
  t.step + (call.entryIds.map (t.idPrice s r)).sum

def callPriceAt (s : State) (r : Running) (i : ℕ) : ℕ :=
  ((r.handled.calls[i]?).map (t.callPrice s r)).getD 0

def unsent (r : Running) : Finset ℕ := (Finset.range r.handled.calls.length).filter (· ∉ r.sent)

/-- The end of an invocation and the calls it has not made. -/
def runningPrice (s : State) (running : Option Running) : ℕ :=
  match running with
  | some r => t.step + ∑ i ∈ unsent r, t.callPriceAt s r i
  | none => 0

def price (m : Metered) (active : Finset ℕ) : ℕ :=
  t.copy * m.state.copies.length + ∑ u ∈ Finset.range m.state.copies.length, t.copyPrice m u +
    ∑ k ∈ active, t.runningPrice m.state (m.state.running k)

end Tariff

def State.Active (s : State) (active : Finset ℕ) : Prop := ∀ k, s.running k ≠ none → k ∈ active

theorem RunningInv.batch_lt {admits : Invocation → Prop} {s : State} {r : Running}
    (h : RunningInv admits arn limit s r) {u : ℕ} (hu : u ∈ r.batch) : u < s.copies.length := by
  obtain ⟨record, hmem⟩ : ∃ record, (u, record) ∈ r.batch.zip r.inv.records := by
    rw [← List.map_fst_zip h.records.length_eq.le] at hu
    obtain ⟨⟨u, record⟩, hmem, rfl⟩ := List.mem_map.mp hu
    exact ⟨record, hmem⟩
  obtain ⟨copy, hcopy, -⟩ := List.forall₂_zip h.records hmem
  exact (List.getElem?_eq_some_iff.mp hcopy).1

theorem Running.mem_batch_of_parent {r : Running} {id : String} {u : ℕ}
    (h : r.parent id = some u) : u ∈ r.batch := by
  obtain ⟨delivery, hfound, rfl⟩ := Option.map_eq_some_iff.mp h
  exact (List.of_mem_zip (List.mem_of_find?_eq_some hfound)).1

namespace Tariff

variable (t : Tariff) {s s' : State} {r : Running} {active : Finset ℕ}

theorem level_of_grows (hgrows : s.copies <+: s'.copies) {u : ℕ} (hu : u < s.copies.length) :
    t.level s' u = t.level s u := by
  rw [level, level, State.ancestors_of_prefix hgrows hu]

theorem callPrice_of_grows (hgrows : s.copies <+: s'.copies)
    (h : RunningInv Unrestricted arn limit s r) : t.callPrice s' r = t.callPrice s r := by
  have hid : t.idPrice s' r = t.idPrice s r := by
    funext id
    rw [idPrice, idPrice]
    cases hparent : r.parent id with
    | none => rfl
    | some u =>
      have hlt := h.batch_lt (r.mem_batch_of_parent hparent)
      simp only [Option.map_some, t.level_of_grows hgrows hlt]
  funext call
  rw [callPrice, callPrice, hid]

theorem runningPrice_of_grows (hgrows : s.copies <+: s'.copies)
    (hinv : QueueInv Unrestricted arn limit s) (k : ℕ) :
    t.runningPrice s' (s.running k) = t.runningPrice s (s.running k) := by
  cases hr : s.running k with
  | none => rfl
  | some r =>
    simp only [runningPrice, callPriceAt, t.callPrice_of_grows hgrows (hinv.running k r hr)]

/-- A step that only one copy pays for. -/
theorem price_of_copy (hinv : QueueInv Unrestricted arn limit m.state) {u : ℕ}
    (hcopies : m'.state.copies = m.state.copies) (hrunning : m'.state.running = m.state.running)
    (hu : u < m.state.copies.length) (hprice : t.copyPrice m' u + t.step ≤ t.copyPrice m u)
    (hrest : ∀ v, v ≠ u → t.copyPrice m' v = t.copyPrice m v) :
    t.price m' active + t.step ≤ t.price m active := by
  have hcopy := sum_add_le_of_mem (Finset.mem_range.mpr hu) hprice (fun v _ hv => (hrest v hv).le)
  have hgrows : m.state.copies <+: m'.state.copies := by rw [hcopies]
  simp only [price, hrunning, t.runningPrice_of_grows hgrows hinv, hcopies]
  omega

theorem price_receive (hinv : QueueInv Unrestricted arn limit m.state) {u : ℕ}
    (hu : u < m.state.copies.length) (hplace : m.state.place u = .source)
    (hcount : m.receives u < t.maxReceiveCount) :
    t.price (m.receive [u]) active + t.step ≤ t.price m active := by
  refine t.price_of_copy hinv rfl rfl hu ?_ ?_
  · have hleft : t.left m u = t.left (m.receive [u]) u + 1 := by
      have hnext : (m.receive [u]).receives u = m.receives u + 1 := if_pos List.mem_cons_self
      rw [left, left, hnext]
      omega
    have hplace' : (m.receive [u]).state.place u = .source := hplace
    have hlevel : t.level (m.receive [u]).state u = t.level m.state u := rfl
    rw [copyPrice, copyPrice, hplace, hplace', hlevel, hleft, weight, weight,
      Nat.add_right_comm _ 1 2, Nat.succ_mul (t.left (m.receive [u]) u + 2)]
    omega
  · intro v hv
    have hnext : (m.receive [u]).receives v = m.receives v := if_neg (by simpa using hv)
    rw [copyPrice, copyPrice, left, left, hnext]
    rfl

theorem price_move (hinv : QueueInv Unrestricted arn limit m.state) {u : ℕ} {place : Place}
    {ids : ℕ → String} {receives : ℕ → ℕ} (hu : u < m.state.copies.length)
    (hreceives : ∀ v, v ≠ u → receives v = m.receives v)
    (hprice : t.weight place (t.level m.state u) (t.maxReceiveCount - receives u) + t.step ≤
      t.copyPrice m u) :
    t.price ⟨m.state.move u place ids, receives⟩ active + t.step ≤ t.price m active := by
  refine t.price_of_copy hinv rfl rfl hu ?_ ?_
  · have hplace : (m.state.move u place ids).place u = place := Function.update_self _ _ _
    rw [copyPrice, left, hplace]
    exact hprice
  · intro v hv
    have hplace : (m.state.move u place ids).place v = m.state.place v :=
      Function.update_of_ne hv _ _
    have hleft : t.left ⟨m.state.move u place ids, receives⟩ v = t.left m v :=
      congrArg (t.maxReceiveCount - ·) (hreceives v hv)
    rw [copyPrice, copyPrice, hplace, hleft]
    rfl

end Tariff

theorem exists_resolved_of_call {env : Environment} {store : ConfigStore} {inv : Invocation}
    {call : SendCall} (hcall : call ∈ (handle env store inv).calls) :
    ∃ resolved, (resolvePass env store inv).result = .ok resolved := by
  cases hpass : (resolvePass env store inv).result with
  | ok resolved => exact ⟨resolved, rfl⟩
  | error e =>
    rw [(handle_of_resolve_error hpass).2] at hcall
    cases hcall

theorem entryIds_ne_nil {env : Environment} {store : ConfigStore} {inv : Invocation}
    {call : SendCall} (hcall : call ∈ (handle env store inv).calls) : call.entryIds ≠ [] := by
  obtain ⟨resolved, hresolved⟩ := exists_resolved_of_call hcall
  rw [(handle_of_resolve_ok hresolved).1] at hcall
  obtain ⟨i, chunk, hchunk, rfl⟩ := mem_sendCalls hcall
  rw [callOf_entryIds]
  exact List.map_eq_nil_iff.not.mpr (chunkEntries_legal hchunk).1

theorem sum_entryIds_le {env : Environment} {store : ConfigStore} {inv : Invocation}
    (f : String → ℕ) :
    (((handle env store inv).calls.flatMap (·.entryIds)).map f).sum ≤
      ((inv.records.filterMap (·.messageId)).map f).sum := by
  cases hpass : (resolvePass env store inv).result with
  | error e =>
    rw [(handle_of_resolve_error hpass).2]
    exact Nat.zero_le _
  | ok resolved =>
    rw [(handle_of_resolve_ok hpass).1,
      ((sendCalls_ids_perm inv.sqs inv.order (passSends resolved inv)).map f).sum_eq,
      ← ((pass_ids_perm hpass).map f).sum_eq, List.map_append, List.sum_append]
    exact Nat.le_add_left _ _

namespace Tariff

variable (t : Tariff) {s : State} {r : Running}

/-- Each id of the records stands for the copy that was delivered under it. -/
theorem sum_ids_eq (h : RunningInv Unrestricted arn limit s r) :
    ((r.inv.records.filterMap (·.messageId)).map (fun id => t.step + t.idPrice s r id)).sum =
      (r.batch.map (fun u => t.step + t.offspring (t.level s u))).sum := by
  have hbatch : r.deliveries.map Prod.fst = r.batch := List.map_fst_zip h.records.length_eq.le
  have hrecords : r.deliveries.map Prod.snd = r.inv.records :=
    List.map_snd_zip h.records.length_eq.ge
  rw [← hbatch, ← hrecords, List.filterMap_map, List.map_filterMap, List.map_map,
    ← List.filterMap_eq_map]
  congr 1
  apply List.filterMap_congr
  intro delivery hdelivery
  obtain ⟨id, hid, -⟩ := h.ids.present delivery.2 (List.of_mem_zip hdelivery).2
  simp only [Function.comp_apply, hid, Option.map_some, idPrice, h.parent_eq hdelivery hid,
    Option.getD_some]

/-- The records of a batch pay for all calls. -/
theorem sum_callPriceAt_le (h : RunningInv Unrestricted arn limit s r) :
    ∑ i ∈ Finset.range r.handled.calls.length, t.callPriceAt s r i ≤
      (r.batch.map (fun u => t.step + t.offspring (t.level s u))).sum := by
  have hcall : ∀ call ∈ r.handled.calls, t.callPrice s r call ≤
      (call.entryIds.map (fun id => t.step + t.idPrice s r id)).sum := by
    intro call hcall
    have hpos := List.length_pos_iff.mpr (entryIds_ne_nil hcall)
    have hstep := Nat.le_mul_of_pos_left t.step hpos
    rw [callPrice, List.sum_map_add, List.map_const', List.sum_replicate_nat]
    omega
  calc ∑ i ∈ Finset.range r.handled.calls.length, t.callPriceAt s r i
      = (r.handled.calls.map (t.callPrice s r)).sum := by
        apply sum_range_length
        intro i call hcall
        rw [callPriceAt, hcall]
        rfl
    _ ≤ (r.handled.calls.map (fun call =>
          (call.entryIds.map (fun id => t.step + t.idPrice s r id)).sum)).sum :=
        List.sum_le_sum hcall
    _ = ((r.handled.calls.flatMap (·.entryIds)).map (fun id => t.step + t.idPrice s r id)).sum :=
        (sum_map_flatMap _ _ _).symm
    _ ≤ ((r.inv.records.filterMap (·.messageId)).map (fun id => t.step + t.idPrice s r id)).sum :=
        sum_entryIds_le _
    _ = (r.batch.map (fun u => t.step + t.offspring (t.level s u))).sum := t.sum_ids_eq h

variable {m : Metered} {active : Finset ℕ}

theorem sum_active_insert (hinv : QueueInv Unrestricted arn limit m.state) {s' : State} {k : ℕ}
    (hgrows : m.state.copies <+: s'.copies)
    (hothers : ∀ j, j ≠ k → s'.running j = m.state.running j) :
    ∑ j ∈ insert k active, t.runningPrice s' (s'.running j) ≤
      t.runningPrice s' (s'.running k) +
        ∑ j ∈ active, t.runningPrice m.state (m.state.running j) := by
  apply sum_insert_le
  intro j _ hj
  rw [hothers j hj, t.runningPrice_of_grows hgrows hinv]

theorem price_deliver (hinv : QueueInv Unrestricted arn limit m.state) {k : ℕ} {r : Running}
    (hdelivery : m.state.Delivery arn limit r) (hne : r.batch ≠ [])
    (hcount : ∀ u ∈ r.batch, m.receives u < t.maxReceiveCount) :
    t.price { m.receive r.batch with state := m.state.start k r } (insert k active) + t.step ≤
      t.price m active := by
  set m' : Metered := { m.receive r.batch with state := m.state.start k r }
  have hrunning : RunningInv Unrestricted arn limit m.state r :=
    runningInv_of_delivery hinv.ids hdelivery trivial
  have hcopy : ∀ u, t.copyPrice m u = t.copyPrice m' u +
      if u ∈ r.batch.toFinset then t.delivery (t.level m.state u) else 0 := by
    intro u
    by_cases hu : u ∈ r.batch
    · have hplace : m.state.place u = .replay := (hdelivery.inReplay u hu).2
      have hplace' : m'.state.place u = .replay := hplace
      have hlevel : t.level m'.state u = t.level m.state u := rfl
      have hleft : t.left m u = t.left m' u + 1 := by
        have hnext : m'.receives u = m.receives u + 1 := if_pos hu
        have hlt := hcount u hu
        rw [left, left, hnext]
        omega
      rw [if_pos (List.mem_toFinset.mpr hu), copyPrice, copyPrice, hplace, hplace', hlevel, hleft,
        weight, weight, Nat.succ_mul, Nat.add_assoc]
    · have hleft : t.left m' u = t.left m u := by
        have hnext : m'.receives u = m.receives u := if_neg hu
        rw [left, left, hnext]
      rw [if_neg (by simpa using hu), copyPrice, copyPrice, hleft]
      rfl
  have hsub : r.batch.toFinset ⊆ Finset.range m.state.copies.length := by
    intro u hu
    exact Finset.mem_range.mpr (hdelivery.inReplay u (List.mem_toFinset.mp hu)).1
  have hcopies : ∑ u ∈ Finset.range m.state.copies.length, t.copyPrice m u =
      ∑ u ∈ Finset.range m.state.copies.length, t.copyPrice m' u +
        (r.batch.map (fun u => t.delivery (t.level m.state u))).sum := by
    rw [Finset.sum_congr rfl (fun u _ => hcopy u), Finset.sum_add_distrib, Finset.sum_ite_mem,
      Finset.inter_eq_right.mpr hsub, List.sum_toFinset _ hdelivery.nodup]
  have hbatch : (r.batch.map (fun u => t.step + t.offspring (t.level m.state u))).sum + 2 * t.step ≤
      (r.batch.map (fun u => t.delivery (t.level m.state u))).sum := by
    have hpos := Nat.le_mul_of_pos_left (2 * t.step) (List.length_pos_iff.mpr hne)
    have hsplit : ∀ u, t.delivery (t.level m.state u) =
        t.step + t.offspring (t.level m.state u) + 2 * t.step := by
      intro u
      rw [delivery]
      omega
    simp only [hsplit]
    rw [List.sum_map_add (g := fun _ => 2 * t.step), List.map_const', List.sum_replicate_nat]
    omega
  have hactive : ∑ j ∈ insert k active, t.runningPrice m'.state (m'.state.running j) ≤
      t.runningPrice m'.state (m'.state.running k) +
        ∑ j ∈ active, t.runningPrice m.state (m.state.running j) :=
    t.sum_active_insert hinv (List.prefix_refl _) (fun j hj => Function.update_of_ne hj _ _)
  have hnew : t.runningPrice m'.state (m'.state.running k) ≤ t.step +
      (r.batch.map (fun u => t.step + t.offspring (t.level m.state u))).sum := by
    have hself : m'.state.running k = some r := Function.update_self _ _ _
    have hcalls := t.sum_callPriceAt_le (hrunning.of_copies_eq m'.state rfl)
    rw [hself, runningPrice]
    apply Nat.add_le_add_left
    exact (Finset.sum_le_sum_of_subset (Finset.filter_subset _ _)).trans hcalls
  have hlength : m'.state.copies.length = m.state.copies.length := rfl
  rw [price, price, hcopies, hlength]
  omega

theorem unsent_cons {r : Running} {i : ℕ} :
    unsent { r with sent := i :: r.sent } = (unsent r).erase i := by
  ext j
  simp only [unsent, List.mem_cons, not_or, Finset.mem_filter, Finset.mem_range, Finset.mem_erase]
  constructor
  · rintro ⟨hj, hne, hsent⟩
    exact ⟨hne, hj, hsent⟩
  · rintro ⟨hne, hj, hsent⟩
    exact ⟨hj, hne, hsent⟩

theorem runningPrice_send (hinv : QueueInv Unrestricted arn limit s) {k i : ℕ} {r : Running}
    {call : SendCall} {ids : ℕ → String} (hr : s.running k = some r) (hi : i ∉ r.sent)
    (hcall : r.handled.calls[i]? = some call) :
    t.runningPrice (s.send k r i call ids) ((s.send k r i call ids).running k) +
      t.callPrice s r call = t.runningPrice s (some r) := by
  have hself : (s.send k r i call ids).running k = some { r with sent := i :: r.sent } :=
    Function.update_self _ _ _
  have hat : t.callPriceAt s r i = t.callPrice s r call := by
    rw [callPriceAt, hcall]
    rfl
  have hmem : i ∈ unsent r := by
    rw [unsent, Finset.mem_filter, Finset.mem_range]
    exact ⟨(List.getElem?_eq_some_iff.mp hcall).1, hi⟩
  have hprice : ∀ j, t.callPriceAt (s.send k r i call ids) { r with sent := i :: r.sent } j =
      t.callPriceAt s r j := by
    intro j
    have hgrows : s.copies <+: (s.send k r i call ids).copies := send_grows
    rw [callPriceAt, callPriceAt, ← t.callPrice_of_grows hgrows (hinv.running k r hr)]
    rfl
  rw [hself, runningPrice, runningPrice, unsent_cons, Finset.sum_congr rfl (fun j _ => hprice j),
    ← hat, ← Finset.sum_erase_add _ _ hmem, Nat.add_assoc]

theorem copy_add_copyPrice (hinv : QueueInv Unrestricted arn limit m.state) {k i j : ℕ}
    {r : Running} {call : SendCall} {ids : ℕ → String} {receives : ℕ → ℕ}
    {entry : SendMessageBatchRequestEntry}
    (hr : m.state.running k = some r) (hcall : r.handled.calls[i]? = some call)
    (hwithin : ReplaysWithin limit (m.state.send k r i call ids))
    (hlimit : t.attempts = limit.toNat)
    (hreceives : ∀ u, m.state.copies.length ≤ u → receives u = 0)
    (hentry : (r.acceptedEntries i call)[j]? = some entry) :
    t.copy + t.copyPrice ⟨m.state.send k r i call ids, receives⟩ (m.state.copies.length + j) =
      t.idPrice m.state r entry.id := by
  have hnew := send_getElem? m.state k r i call ids j
  rw [hentry, Option.map_some] at hnew
  have hmem := (List.mem_filter.mp (List.mem_of_getElem? hentry)).1
  obtain ⟨delivery, copy, n, horigin⟩ :=
    (hinv.running k r hr).entry_origin (List.mem_of_getElem? hcall) hmem
  have hlength : ((m.state.send k r i call ids).ancestors (m.state.copies.length + j)).length =
      (m.state.ancestors delivery.1).length + 1 := by
    rw [State.ancestors_eq hnew, horigin.child_ancestors, List.length_cons]
  have hle := hwithin _ (List.mem_of_getElem? hnew)
  rw [← State.ancestors_eq hnew, hlength, ← hlimit] at hle
  have hlevel : t.level m.state delivery.1 =
      t.level (m.state.send k r i call ids) (m.state.copies.length + j) + 1 := by
    rw [level, level, hlength]
    omega
  have hplace : (m.state.send k r i call ids).place (m.state.copies.length + j) = .source :=
    send_place_new (Nat.le_add_right _ _)
  have hleft : t.left ⟨m.state.send k r i call ids, receives⟩ (m.state.copies.length + j) =
      t.maxReceiveCount :=
    congrArg (t.maxReceiveCount - ·) (hreceives _ (Nat.le_add_right _ _))
  rw [copyPrice, hplace, hleft, copy_add_weight, idPrice, horigin.parent, Option.map_some,
    Option.getD_some, hlevel, offspring]

theorem price_send (hinv : QueueInv Unrestricted arn limit m.state) {k i : ℕ} {r : Running}
    {call : SendCall} {ids : ℕ → String} (hactive : m.state.Active active)
    (hr : m.state.running k = some r) (hi : i ∉ r.sent) (hcall : r.handled.calls[i]? = some call)
    (hwithin : ReplaysWithin limit (m.state.send k r i call ids))
    (hlimit : t.attempts = limit.toNat) :
    t.price ⟨m.state.send k r i call ids,
      fun u => if u < m.state.copies.length then m.receives u else 0⟩ active + t.step ≤
        t.price m active := by
  set m' : Metered := ⟨m.state.send k r i call ids,
    fun u => if u < m.state.copies.length then m.receives u else 0⟩
  have hlength : m'.state.copies.length =
      m.state.copies.length + (r.acceptedEntries i call).length := by
    rw [← List.length_map (m.state.child r), ← List.length_append]
    rfl
  have hold : ∑ u ∈ Finset.range m.state.copies.length, t.copyPrice m' u =
      ∑ u ∈ Finset.range m.state.copies.length, t.copyPrice m u := by
    apply Finset.sum_congr rfl
    intro u hu
    have hlt := Finset.mem_range.mp hu
    have hplace : m'.state.place u = m.state.place u := send_place_old hlt
    have hlevel : t.level m'.state u = t.level m.state u := t.level_of_grows send_grows hlt
    have hreceives : m'.receives u = m.receives u := if_pos hlt
    rw [copyPrice, copyPrice, left, left, hplace, hlevel, hreceives]
  have hnew : ∑ j ∈ Finset.range (r.acceptedEntries i call).length,
      (t.copy + t.copyPrice m' (m.state.copies.length + j)) =
        ((r.acceptedEntries i call).map (fun entry => t.idPrice m.state r entry.id)).sum := by
    apply sum_range_length
    intro j entry hentry
    exact t.copy_add_copyPrice hinv hr hcall hwithin hlimit (fun u hu => if_neg (by omega)) hentry
  have haccepted :
      ((r.acceptedEntries i call).map (fun entry => t.idPrice m.state r entry.id)).sum ≤
        (call.entryIds.map (t.idPrice m.state r)).sum := by
    rw [SendCall.entryIds, List.map_map]
    exact (List.filter_sublist.map _).sum_le_sum (fun _ _ => Nat.zero_le _)
  have hrunning : ∑ j ∈ active, t.runningPrice m'.state (m'.state.running j) +
      t.callPrice m.state r call ≤ ∑ j ∈ active, t.runningPrice m.state (m.state.running j) := by
    apply sum_add_le_of_mem (hactive k (hr ▸ Option.some_ne_none r))
    · rw [hr]
      exact (t.runningPrice_send hinv hr hi hcall).le
    · intro j _ hj
      have hgrows : m.state.copies <+: m'.state.copies := send_grows
      have hother : m'.state.running j = m.state.running j := Function.update_of_ne hj _ _
      rw [hother, t.runningPrice_of_grows hgrows hinv]
  rw [Finset.sum_add_distrib, Finset.sum_const_nat (fun _ _ => rfl), Finset.card_range] at hnew
  rw [callPrice] at hrunning
  rw [price, price, hlength, Finset.sum_range_add, hold, Nat.mul_add,
    Nat.mul_comm t.copy (r.acceptedEntries i call).length]
  omega

theorem price_finish (hinv : QueueInv Unrestricted arn limit m.state) {k : ℕ} {r : Running}
    (hactive : m.state.Active active) (hr : m.state.running k = some r) (deleted : List ℕ) :
    t.price { m with state := m.state.finish k deleted } active + t.step ≤ t.price m active := by
  set m' : Metered := { m with state := m.state.finish k deleted }
  have hcopies : ∑ u ∈ Finset.range m.state.copies.length, t.copyPrice m' u ≤
      ∑ u ∈ Finset.range m.state.copies.length, t.copyPrice m u := by
    apply Finset.sum_le_sum
    intro u _
    by_cases hgone : u ∈ deleted ∧ m.state.place u = .replay
    · have hplace : m'.state.place u = .replayed := if_pos hgone
      rw [copyPrice, hplace]
      exact Nat.zero_le _
    · have hplace : m'.state.place u = m.state.place u := if_neg hgone
      rw [copyPrice, copyPrice, hplace]
      rfl
  have hrunning : ∑ j ∈ active, t.runningPrice m'.state (m'.state.running j) + t.step ≤
      ∑ j ∈ active, t.runningPrice m.state (m.state.running j) := by
    apply sum_add_le_of_mem (hactive k (hr ▸ Option.some_ne_none r))
    · have hself : m'.state.running k = none := Function.update_self _ _ _
      rw [hself, hr, runningPrice, runningPrice]
      omega
    · intro j _ hj
      have hgrows : m.state.copies <+: m'.state.copies := List.prefix_refl _
      have hother : m'.state.running j = m.state.running j := Function.update_of_ne hj _ _
      rw [hother, t.runningPrice_of_grows hgrows hinv]
  have hlength : m'.state.copies.length = m.state.copies.length := rfl
  rw [price, price, hlength]
  omega

/-- Every step is paid for. -/
theorem price_step (hinv : QueueInv Unrestricted arn limit m.state)
    (hstep : MeteredStep rule arn limit t.maxReceiveCount m m')
    (hwithin : ReplaysWithin limit m'.state) (hlimit : t.attempts = limit.toNat) (hactive : m.state.Active active) :
    ∃ active', m'.state.Active active' ∧ t.price m' active' + t.step ≤ t.price m active := by
  cases hstep with
  | receive u hu hplace hcount => exact ⟨active, hactive, t.price_receive hinv hu hplace hcount⟩
  | consume u hu hplace _ =>
    refine ⟨active, hactive, t.price_move hinv hu (fun _ _ => rfl) ?_⟩
    rw [copyPrice, hplace, weight, weight, Nat.add_mul]
    omega
  | redrive u ids hu hplace _ _ _ =>
    refine ⟨active, hactive, t.price_move hinv hu (fun v hv => Function.update_of_ne hv _ _) ?_⟩
    rw [copyPrice, hplace, Function.update_self, weight, weight, Nat.sub_zero, Nat.add_mul]
    omega
  | bury u ids hu hplace _ _ _ =>
    refine ⟨active, hactive, t.price_move hinv hu (fun _ _ => rfl) ?_⟩
    rw [copyPrice, hplace, weight, weight]
    omega
  | deliver k r hidle hdelivery hne hcount =>
    refine ⟨insert k active, ?_, t.price_deliver hinv hdelivery hne hcount⟩
    intro j hj
    by_cases hjk : j = k
    · exact Finset.mem_insert.mpr (Or.inl hjk)
    · exact Finset.mem_insert_of_mem (hactive j (start_running_of_ne hjk ▸ hj))
  | send k r i call ids hr hi hcall _ _ =>
    refine ⟨active, ?_, t.price_send hinv hactive hr hi hcall hwithin hlimit⟩
    intro j hj
    by_cases hjk : j = k
    · exact hactive j (by rw [hjk, hr]; exact Option.some_ne_none r)
    · exact hactive j (send_running_of_ne hjk ▸ hj)
  | finish k r hr _ =>
    refine ⟨active, ?_, t.price_finish hinv hactive hr _⟩
    intro j hj
    by_cases hjk : j = k
    · exact hactive j (by rw [hjk, hr]; exact Option.some_ne_none r)
    · exact hactive j (finish_running_of_ne hjk ▸ hj)

end Tariff

end ReplayBackoff
