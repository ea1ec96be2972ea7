import ReplayBackoff.QueueSettlement
import ReplayBackoff.Library.Chain

/-!
# No message is duplicated while visibility timeouts hold and reports are whole

SQS may deliver a copy again, and redrive it, while an invocation is at work on it, a call may error
although SQS accepted its entries, and a report that names a part of its batch brings all of it
back. Each of these adds a second copy of the message. In the runs without them a copy has at most
one child: a child is made of an entry that was accepted, and from then on the copy is in the batch
of the same invocation until the end of the invocation deletes it.

A report that names none of its batch or all of it has on the queues the effect of the response
itself. With one record in a batch every report is of this kind.
-/

namespace ReplayBackoff

open Lineage

/-- A call that errors has accepted nothing. -/
def Running.Honest (r : Running) : Prop :=
  ∀ i call error, r.handled.calls[i]? = some call → call.answer = .error error →
    ∀ id, r.accepted i id = false

/-- The response names no record of the batch, or each of them. -/
def Running.Whole (r : Running) : Prop :=
  ∀ response, r.handled.result = .ok response → response.batchItemFailures = [] ∨
    ∀ record ∈ r.inv.records, ∃ id ∈ response.identifiers, record.messageId = some id

def State.InFlight (s : State) (u : ℕ) : Prop := ∃ k r, s.running k = some r ∧ u ∈ r.batch

/-- What a step does not do: start an invocation with a copy of another one, with calls that accept
and error or with a report on a part of its batch, or redrive a copy that an invocation is at work
on. -/
structure Visible (s s' : State) : Prop where
  starts : ∀ k r, s.running k = none → s'.running k = some r →
    r.Honest ∧ r.Whole ∧ ∀ u ∈ r.batch, ¬ s.InFlight u
  buries : ∀ u, s.place u = .replay → s'.place u = .dead → ¬ s.InFlight u

def VisibleStep (arn : String) (limit : UInt32) (s s' : State) : Prop :=
  Step .asSent Unrestricted arn limit s s' ∧ Visible s s'

abbrev VisibleRun (arn : String) (limit : UInt32) : State → State → Prop :=
  Relation.ReflTransGen (VisibleStep arn limit)

/-- The copy is the last of its lineage. -/
def State.Current (s : State) (u v : ℕ) : Prop :=
  v < s.copies.length ∧ Descends s.ancestors u v ∧ Leaf s.ancestors s.copies.length v

structure Running.AcceptedIn (r : Running) (u i : ℕ) (call : SendCall) (record : SqsMessage)
    (id : String) : Prop where
  sent : i ∈ r.sent
  made : r.handled.calls[i]? = some call
  delivered : (u, record) ∈ r.deliveries
  messageId : record.messageId = some id
  entry : id ∈ call.entryIds
  accepted : r.accepted i id = true

def Running.Accepted (r : Running) (u : ℕ) : Prop :=
  ∃ i call record id, r.AcceptedIn u i call record id

structure VisibleInv (arn : String) (limit : UInt32) (s : State) : Prop where
  queue : QueueInv Unrestricted arn limit s
  forest : Forest s.ancestors s.copies.length
  unary : Unary s.ancestors s.copies.length
  nodup : ∀ k r, s.running k = some r → r.batch.Nodup
  inReplay : ∀ k r, s.running k = some r → ∀ u ∈ r.batch, s.place u = .replay
  exclusive : ∀ k k' r r' u, s.running k = some r → s.running k' = some r' → u ∈ r.batch →
    u ∈ r'.batch → k = k'
  honest : ∀ k r, s.running k = some r → r.Honest
  whole : ∀ k r, s.running k = some r → r.Whole
  parents : ∀ p v, v < s.copies.length → IsParent s.ancestors p v →
    s.place p = .replayed ∨ ∃ k r, s.running k = some r ∧ r.Accepted p

variable {arn : String} {limit : UInt32} {s₀ s s' : State} {k i : ℕ} {r : Running} {u : ℕ}

/-- A whole report is read as it was meant. -/
theorem Running.Whole.released_eq (h : r.Whole) : r.released = r.acknowledged := by
  cases hresult : r.handled.result with
  | error e => rw [Running.released, Running.acknowledged, hresult]
  | ok response =>
    rw [Running.released_of_ok hresult, Running.acknowledged, hresult]
    by_cases hnil : response.batchItemFailures = []
    · simp [hnil, BatchResponse.identifiers]
    · have hall := (h response hresult).resolve_left hnil
      rw [if_neg hnil, eq_comm, List.map_eq_nil_iff, List.filter_eq_nil_iff]
      intro delivery hdelivery
      obtain ⟨id, hid, hrecord⟩ := hall delivery.2 (List.of_mem_zip hdelivery).2
      simp [hrecord, hid]

theorem Running.Consistent.mem_entryIds (h : r.Consistent) {call : SendCall}
    (hcall : call ∈ r.handled.calls) {id : String} (hid : id ∈ call.reported) :
    id ∈ call.entryIds := by
  obtain ⟨i, hi⟩ := List.mem_iff_getElem?.mp hcall
  cases hanswer : call.answer with
  | ok output =>
    rw [SendCall.reported, hanswer] at hid
    exact ((h i call output hi hanswer id).mp hid).1
  | error error =>
    rw [SendCall.reported, hanswer] at hid
    exact hid

theorem Running.Consistent.exists_record (h : r.Consistent) {response : BatchResponse}
    (hresult : r.handled.result = .ok response) {id : String} (hid : id ∈ response.identifiers) :
    ∃ record ∈ r.inv.records, record.messageId = some id := by
  obtain ⟨resolved, hresolved⟩ := handle_ok_iff_resolve_ok.mp ⟨response, hresult⟩
  obtain rfl : response = _ := Except.ok.inj (hresult.symm.trans (handle_result_eq hresolved))
  rw [identifiers_mk] at hid
  rcases List.mem_append.mp hid with hfailed | hreported
  · have hmem := (pass_ids_perm hresolved).subset (List.mem_append_left _ hfailed)
    exact List.mem_filterMap.mp hmem
  · obtain ⟨call, hcall, hreport⟩ := List.mem_flatMap.mp hreported
    have hentry := List.mem_flatMap.mpr ⟨call, hcall, h.mem_entryIds hcall hreport⟩
    obtain ⟨record, i, hmem, hrecord⟩ := mem_call_ids_of_event hresolved hentry
    exact ⟨record, List.fst_mem_of_mem_zipIdx hmem, hrecord⟩

/-- With one record in the batch the report is whole. -/
theorem Running.whole_of_singleton {record : SqsMessage} (h : r.Consistent)
    (hrecords : r.inv.records = [record]) : r.Whole := by
  intro response hresult
  by_cases hnil : response.batchItemFailures = []
  · exact Or.inl hnil
  · right
    obtain ⟨failure, hfailure⟩ := List.exists_mem_of_ne_nil _ hnil
    have hid : failure.itemIdentifier ∈ response.identifiers := List.mem_map.mpr ⟨_, hfailure, rfl⟩
    obtain ⟨named, hnamed, hrecord⟩ := h.exists_record hresult hid
    rw [hrecords, List.mem_singleton] at hnamed
    intro other hother
    rw [hrecords, List.mem_singleton] at hother
    exact ⟨_, hid, by rw [hother, ← hnamed, hrecord]⟩

theorem Running.mem_batch_of_acknowledged (r : Running) {v : ℕ} (hv : v ∈ r.acknowledged) :
    v ∈ r.batch := by
  unfold Running.acknowledged at hv
  split at hv
  · obtain ⟨delivery, hdelivery, rfl⟩ := List.mem_map.mp hv
    exact (List.of_mem_zip (List.mem_filter.mp hdelivery).1).1
  · cases hv

theorem Running.Accepted.mem_batch (h : r.Accepted u) : u ∈ r.batch := by
  obtain ⟨i, call, record, id, h⟩ := h
  exact (List.of_mem_zip h.delivered).1

theorem Running.Accepted.cons (h : r.Accepted u) (i : ℕ) :
    Running.Accepted { r with sent := i :: r.sent } u := by
  obtain ⟨j, call, record, id, h⟩ := h
  exact ⟨j, call, record, id, List.mem_cons_of_mem i h.sent, h.made, h.delivered, h.messageId,
    h.entry, h.accepted⟩

theorem RunningInv.record_unique (h : RunningInv Unrestricted arn limit s r)
    (hnodup : r.batch.Nodup) {a b : SqsMessage} (ha : (u, a) ∈ r.deliveries)
    (hb : (u, b) ∈ r.deliveries) : a = b := by
  have hbatch : r.deliveries.map Prod.fst = r.batch := List.map_fst_zip h.records.length_eq.le
  have hpair := List.inj_on_of_nodup_map (hbatch.symm ▸ hnodup) ha hb rfl
  exact (Prod.mk.inj hpair).2

theorem RunningInv.entryIds_nodup (h : RunningInv Unrestricted arn limit s r) :
    (r.handled.calls.flatMap (·.entryIds)).Nodup := by
  cases hpass : (resolvePass r.env r.store r.inv).result with
  | ok resolved => exact (List.nodup_append'.mp (call_ids_nodup hpass h.ids)).2.1
  | error e =>
    rw [Running.handled, (handle_of_resolve_error hpass).2]
    exact List.nodup_nil

theorem RunningInv.call_unique (h : RunningInv Unrestricted arn limit s r) {j : ℕ}
    {call call' : SendCall} {id : String} (hi : r.handled.calls[i]? = some call)
    (hj : r.handled.calls[j]? = some call') (hid : id ∈ call.entryIds)
    (hid' : id ∈ call'.entryIds) : i = j :=
  position_unique h.entryIds_nodup hi hj hid hid'

theorem RunningInv.acknowledged_of_accepted (h : RunningInv Unrestricted arn limit s r)
    (hhonest : r.Honest) (hu : r.Accepted u) : u ∈ r.acknowledged := by
  obtain ⟨i, call, record, id, haccepted⟩ := hu
  have hcall := List.mem_of_getElem? haccepted.made
  obtain ⟨resolved, hresolved⟩ := exists_resolved_of_call hcall
  obtain ⟨-, -, hdisjoint⟩ := List.nodup_append'.mp (call_ids_nodup hresolved h.ids)
  have hids : id ∈ r.handled.calls.flatMap (·.entryIds) :=
    List.mem_flatMap.mpr ⟨call, hcall, haccepted.entry⟩
  have hunnamed : id ∉ passFailures resolved r.inv ++
      (handle r.env r.store r.inv).calls.flatMap (·.reported) := by
    intro hnamed
    rcases List.mem_append.mp hnamed with hfail | hreported
    · exact hdisjoint hfail hids
    · obtain ⟨call', hcall', hreport⟩ := List.mem_flatMap.mp hreported
      obtain ⟨j, hj⟩ := List.mem_iff_getElem?.mp hcall'
      cases hanswer : call'.answer with
      | ok output =>
        rw [SendCall.reported, hanswer] at hreport
        obtain ⟨hentry, hrefused⟩ := (h.consistent j call' output hj hanswer id).mp hreport
        obtain rfl := h.call_unique haccepted.made hj haccepted.entry hentry
        rw [haccepted.accepted] at hrefused
        cases hrefused
      | error error =>
        rw [SendCall.reported, hanswer] at hreport
        obtain rfl := h.call_unique haccepted.made hj haccepted.entry hreport
        have hrefused := hhonest i call' error hj hanswer id
        rw [haccepted.accepted] at hrefused
        cases hrefused
  rw [Running.acknowledged, Running.handled, handle_result_eq hresolved]
  refine List.mem_map.mpr ⟨(u, record), List.mem_filter.mpr ⟨haccepted.delivered, ?_⟩, rfl⟩
  rw [haccepted.messageId, Option.any_some, identifiers_mk]
  simpa using hunnamed

theorem RunningInv.new_parent (h : RunningInv Unrestricted arn limit s r) {call : SendCall}
    {ids : ℕ → String} (hcall : r.handled.calls[i]? = some call) {p v : ℕ}
    (hold : s.copies.length ≤ v) (hv : v < (s.send k r i call ids).copies.length)
    (hparent : IsParent (s.send k r i call ids).ancestors p v) :
    ∃ j entry record, v = s.copies.length + j ∧ (r.acceptedEntries i call)[j]? = some entry ∧
      (p, record) ∈ r.deliveries ∧ record.messageId = some entry.id := by
  obtain ⟨j, rfl⟩ := Nat.exists_eq_add_of_le hold
  have hnew := send_getElem? s k r i call ids j
  cases hentry : (r.acceptedEntries i call)[j]? with
  | none =>
    rw [hentry, Option.map_none, List.getElem?_eq_none_iff] at hnew
    exact absurd hv (Nat.not_lt.mpr hnew)
  | some entry =>
    rw [hentry, Option.map_some] at hnew
    have hmem := (List.mem_filter.mp (List.mem_of_getElem? hentry)).1
    obtain ⟨delivery, copy, n, hfrom⟩ := h.entry_origin (List.mem_of_getElem? hcall) hmem
    rw [IsParent, State.ancestors_eq hnew, hfrom.child_ancestors] at hparent
    obtain rfl := (List.cons.inj hparent).1
    exact ⟨j, entry, delivery.2, rfl, hentry, hfrom.delivered, hfrom.id⟩

namespace VisibleInv

theorem of_initial (h : Initial s) : VisibleInv arn limit s := by
  have hnone : ∀ u < s.copies.length, s.ancestors u = [] := by
    intro u hu
    have hcopy := List.getElem?_eq_getElem hu
    rw [State.ancestors_eq hcopy]
    exact h.original _ (List.mem_of_getElem? hcopy)
  have hidle : ∀ {P : Prop} {k r}, s.running k = some r → P := by
    intro P k r hr
    rw [h.idle k] at hr
    cases hr
  have hparent : ∀ {P : Prop} {p v}, v < s.copies.length → IsParent s.ancestors p v → P := by
    intro P p v hv hparent
    rw [IsParent, hnone v hv] at hparent
    cases hparent
  exact ⟨QueueInv.of_initial h, ⟨fun v hv => Or.inl (hnone v hv)⟩,
    fun p v w hv _ hpv _ => hparent hv hpv, fun k r hr => hidle hr, fun k r hr => hidle hr,
    fun k k' r r' u hr => hidle hr, fun k r hr => hidle hr, fun k r hr => hidle hr,
    fun p v hv hpv => hparent hv hpv⟩

theorem move (h : VisibleInv arn limit s) {place : Place} {ids : ℕ → String}
    (hqueue : QueueInv Unrestricted arn limit (s.move u place ids)) (hfree : ¬ s.InFlight u)
    (hplace : s.place u ≠ .replayed) : VisibleInv arn limit (s.move u place ids) where
  queue := hqueue
  forest := h.forest
  unary := h.unary
  nodup := h.nodup
  inReplay k r hr v hv := by
    have hvu : v ≠ u := by
      rintro rfl
      exact hfree ⟨k, r, hr, hv⟩
    exact (Function.update_of_ne hvu _ _).trans (h.inReplay k r hr v hv)
  exclusive := h.exclusive
  honest := h.honest
  whole := h.whole
  parents p v hv hparent := by
    rcases h.parents p v hv hparent with hreplayed | haccepted
    · have hpu : p ≠ u := by
        rintro rfl
        exact hplace hreplayed
      exact Or.inl ((Function.update_of_ne hpu _ _).trans hreplayed)
    · exact Or.inr haccepted

theorem not_inFlight (h : VisibleInv arn limit s) (hplace : s.place u = .source) :
    ¬ s.InFlight u := by
  rintro ⟨k, r, hr, hu⟩
  rw [h.inReplay k r hr u hu] at hplace
  cases hplace

theorem start (h : VisibleInv arn limit s) (hqueue : QueueInv Unrestricted arn limit (s.start k r))
    (hidle : s.running k = none) (hdelivery : s.Delivery arn limit r) (hhonest : r.Honest)
    (hwhole : r.Whole) (hfree : ∀ u ∈ r.batch, ¬ s.InFlight u) :
    VisibleInv arn limit (s.start k r) := by
  refine ⟨hqueue, h.forest, h.unary, ?_, ?_, ?_, ?_, ?_, ?_⟩
  · intro j q hq
    rcases start_cases hq with ⟨-, rfl⟩ | ⟨-, hq⟩
    · exact hdelivery.nodup
    · exact h.nodup j q hq
  · intro j q hq v hv
    rcases start_cases hq with ⟨-, rfl⟩ | ⟨-, hq⟩
    · exact (hdelivery.inReplay v hv).2
    · exact h.inReplay j q hq v hv
  · intro j j' q q' v hq hq' hv hv'
    rcases start_cases hq with ⟨rfl, rfl⟩ | ⟨-, hold⟩
    · rcases start_cases hq' with ⟨rfl, rfl⟩ | ⟨-, hold'⟩
      · rfl
      · exact absurd ⟨j', q', hold', hv'⟩ (hfree v hv)
    · rcases start_cases hq' with ⟨rfl, rfl⟩ | ⟨-, hold'⟩
      · exact absurd ⟨j, q, hold, hv⟩ (hfree v hv')
      · exact h.exclusive j j' q q' v hold hold' hv hv'
  · intro j q hq
    rcases start_cases hq with ⟨-, rfl⟩ | ⟨-, hq⟩
    · exact hhonest
    · exact h.honest j q hq
  · intro j q hq
    rcases start_cases hq with ⟨-, rfl⟩ | ⟨-, hq⟩
    · exact hwhole
    · exact h.whole j q hq
  · intro p v hv hparent
    rcases h.parents p v hv hparent with hreplayed | ⟨j, q, hq, haccepted⟩
    · exact Or.inl hreplayed
    · have hj : j ≠ k := by
        rintro rfl
        rw [hidle] at hq
        cases hq
      exact Or.inr ⟨j, q, (start_running_of_ne hj).trans hq, haccepted⟩

/-- A new copy is the only child of the copy that was delivered. -/
theorem send_unary (h : VisibleInv arn limit s) {call : SendCall} {ids : ℕ → String}
    (hr : s.running k = some r) (hi : i ∉ r.sent) (hcall : r.handled.calls[i]? = some call) :
    Unary (s.send k r i call ids).ancestors (s.send k r i call ids).copies.length := by
  have hrunning := h.queue.running k r hr
  apply (hrunning.extends hcall).unary h.unary h.queue.lineage
  · intro v hold hv p hparent w hw hchild
    obtain ⟨j, entry, record, -, hentry, hdelivered, hid⟩ :=
      hrunning.new_parent hcall hold hv hparent
    have hbatch : p ∈ r.batch := (List.of_mem_zip hdelivered).1
    rcases h.parents p w hw hchild with hreplayed | ⟨k', r', hr', haccepted⟩
    · rw [h.inReplay k r hr p hbatch] at hreplayed
      cases hreplayed
    · obtain rfl := h.exclusive k k' r r' p hr hr' hbatch haccepted.mem_batch
      obtain rfl : r = r' := Option.some.inj (hr.symm.trans hr')
      obtain ⟨i', call', record', id, haccepted⟩ := haccepted
      obtain rfl := hrunning.record_unique (h.nodup k r hr) hdelivered haccepted.delivered
      obtain rfl := Option.some.inj (hid.symm.trans haccepted.messageId)
      have hmem := (List.mem_filter.mp (List.mem_of_getElem? hentry)).1
      obtain rfl := hrunning.call_unique hcall haccepted.made (List.mem_map.mpr ⟨entry, hmem, rfl⟩)
        haccepted.entry
      exact hi haccepted.sent
  · intro v w p hold hv hold' hw hpv hpw
    obtain ⟨j, entry, record, rfl, hentry, hdelivered, hid⟩ := hrunning.new_parent hcall hold hv hpv
    obtain ⟨j', entry', record', rfl, hentry', hdelivered', hid'⟩ :=
      hrunning.new_parent hcall hold' hw hpw
    obtain rfl := hrunning.record_unique (h.nodup k r hr) hdelivered hdelivered'
    have hsame : entry.id = entry'.id := Option.some.inj (hid.symm.trans hid')
    have hnodup : ((r.acceptedEntries i call).map (·.id)).Nodup := by
      have hcalls := (List.nodup_flatMap.mp hrunning.entryIds_nodup).1 call
        (List.mem_of_getElem? hcall)
      exact hcalls.sublist (List.filter_sublist.map _)
    have hj : ((r.acceptedEntries i call).map (·.id))[j]? = some entry.id := by
      rw [List.getElem?_map, hentry, Option.map_some]
    have hj' : ((r.acceptedEntries i call).map (·.id))[j']? = some entry.id := by
      rw [List.getElem?_map, hentry', Option.map_some, hsame]
    have hlt : j < ((r.acceptedEntries i call).map (·.id)).length :=
      (List.getElem?_eq_some_iff.mp hj).1
    rw [(List.getElem?_inj hlt hnodup).mp (hj.trans hj'.symm)]

theorem send (h : VisibleInv arn limit s) {call : SendCall} {ids : ℕ → String}
    (hqueue : QueueInv Unrestricted arn limit (s.send k r i call ids))
    (hr : s.running k = some r) (hi : i ∉ r.sent) (hcall : r.handled.calls[i]? = some call) :
    VisibleInv arn limit (s.send k r i call ids) := by
  have hrunning := h.queue.running k r hr
  have hext : Extends s.ancestors (s.send k r i call ids).ancestors s.copies.length
      (s.send k r i call ids).copies.length := hrunning.extends hcall
  -- an invocation was at work before, and all but its calls made is as it was
  have hcases : ∀ {j q}, (s.send k r i call ids).running j = some q →
      ∃ q', s.running j = some q' ∧ (q = q' ∨ q = { q' with sent := i :: q'.sent }) := by
    intro j q hq
    rcases send_cases hq with ⟨rfl, rfl⟩ | ⟨-, hq⟩
    · exact ⟨r, hr, Or.inr rfl⟩
    · exact ⟨q, hq, Or.inl rfl⟩
  have hbatch : ∀ {q q' : Running}, (q = q' ∨ q = { q' with sent := i :: q'.sent }) →
      q.batch = q'.batch := by
    rintro q q' (rfl | rfl) <;> rfl
  refine ⟨hqueue, hext.forest h.forest h.queue.lineage, h.send_unary hr hi hcall,
    ?_, ?_, ?_, ?_, ?_, ?_⟩
  · intro j q hq
    obtain ⟨q', hq', hsame⟩ := hcases hq
    rw [hbatch hsame]
    exact h.nodup j q' hq'
  · intro j q hq v hv
    obtain ⟨q', hq', hsame⟩ := hcases hq
    rw [hbatch hsame] at hv
    rw [send_place_old ((h.queue.running j q' hq').batch_lt hv)]
    exact h.inReplay j q' hq' v hv
  · intro j j' q₁ q₂ v hq₁ hq₂ hv₁ hv₂
    obtain ⟨q₁', hq₁', hsame₁⟩ := hcases hq₁
    obtain ⟨q₂', hq₂', hsame₂⟩ := hcases hq₂
    exact h.exclusive j j' q₁' q₂' v hq₁' hq₂' (hbatch hsame₁ ▸ hv₁) (hbatch hsame₂ ▸ hv₂)
  · intro j q hq
    obtain ⟨q', hq', rfl | rfl⟩ := hcases hq
    · exact h.honest j q hq'
    · exact h.honest j q' hq'
  · intro j q hq
    obtain ⟨q', hq', rfl | rfl⟩ := hcases hq
    · exact h.whole j q hq'
    · exact h.whole j q' hq'
  · intro p v hv hparent
    by_cases hold : v < s.copies.length
    · rw [hext.isParent_old h.queue.lineage hold] at hparent
      have hp : p < s.copies.length :=
        (h.queue.lineage.below v hold p (hparent ▸ List.mem_cons_self)).trans hold
      rcases h.parents p v hold hparent with hreplayed | ⟨j, q, hq, haccepted⟩
      · exact Or.inl ((send_place_old hp).trans hreplayed)
      · right
        by_cases hj : j = k
        · subst hj
          obtain rfl : r = q := Option.some.inj (hr.symm.trans hq)
          exact ⟨j, _, send_running_self, haccepted.cons i⟩
        · exact ⟨j, q, (send_running_of_ne hj).trans hq, haccepted⟩
    · obtain ⟨j, entry, record, -, hentry, hdelivered, hid⟩ :=
        hrunning.new_parent hcall (Nat.not_lt.mp hold) hv hparent
      obtain ⟨hmem, haccepted⟩ := List.mem_filter.mp (List.mem_of_getElem? hentry)
      exact Or.inr ⟨k, _, send_running_self, i, call, record, entry.id, List.mem_cons_self, hcall,
        hdelivered, hid, List.mem_map.mpr ⟨entry, hmem, rfl⟩, haccepted⟩

theorem finish (h : VisibleInv arn limit s)
    (hqueue : QueueInv Unrestricted arn limit (s.finish k r.released)) (hr : s.running k = some r) :
    VisibleInv arn limit (s.finish k r.released) := by
  have hrunning := h.queue.running k r hr
  have hbatch : ∀ {v}, v ∈ r.released → v ∈ r.batch :=
    fun hv => r.mem_batch_of_acknowledged (r.released_subset _ hv)
  refine ⟨hqueue, h.forest, h.unary, ?_, ?_, ?_, ?_, ?_, ?_⟩
  · intro j q hq
    exact h.nodup j q (finish_cases hq).2
  · intro j q hq v hv
    obtain ⟨hj, hq⟩ := finish_cases hq
    have hfree : ¬ (v ∈ r.released ∧ s.place v = .replay) := by
      rintro ⟨hgone, -⟩
      exact hj (h.exclusive j k q r v hq hr hv (hbatch hgone))
    exact (if_neg hfree).trans (h.inReplay j q hq v hv)
  · intro j j' q q' v hq hq'
    exact h.exclusive j j' q q' v (finish_cases hq).2 (finish_cases hq').2
  · intro j q hq
    exact h.honest j q (finish_cases hq).2
  · intro j q hq
    exact h.whole j q (finish_cases hq).2
  · intro p v hv hparent
    rcases h.parents p v hv hparent with hreplayed | ⟨j, q, hq, haccepted⟩
    · refine Or.inl ((if_neg ?_).trans hreplayed)
      rintro ⟨-, hplace⟩
      rw [hreplayed] at hplace
      cases hplace
    · by_cases hj : j = k
      · subst hj
        obtain rfl : r = q := Option.some.inj (hr.symm.trans hq)
        have hack := hrunning.acknowledged_of_accepted (h.honest j r hr) haccepted
        rw [← (h.whole j r hr).released_eq] at hack
        exact Or.inl (if_pos ⟨hack, h.inReplay j r hr p haccepted.mem_batch⟩)
      · exact Or.inr ⟨j, q, (finish_running_of_ne hj).trans hq, haccepted⟩

theorem step (h : VisibleInv arn limit s) (hstep : VisibleStep arn limit s s') :
    VisibleInv arn limit s' := by
  obtain ⟨hstep, hvisible⟩ := hstep
  have hqueue := h.queue.step hstep
  cases hstep with
  | consume u _ hplace => exact h.move hqueue (h.not_inFlight hplace) (by rw [hplace]; simp)
  | redrive u ids _ hplace _ _ => exact h.move hqueue (h.not_inFlight hplace) (by rw [hplace]; simp)
  | bury u ids _ hplace _ _ =>
    exact h.move hqueue (hvisible.buries u hplace (Function.update_self _ _ _))
      (by rw [hplace]; simp)
  | deliver k r hidle hdelivery _ =>
    obtain ⟨hhonest, hwhole, hfree⟩ := hvisible.starts k r hidle start_running_self
    exact h.start hqueue hidle hdelivery hhonest hwhole hfree
  | send k r i call ids hr hi hcall _ _ => exact h.send hqueue hr hi hcall
  | finish k r hr _ => exact h.finish hqueue hr

theorem run (h : VisibleInv arn limit s) (hrun : VisibleRun arn limit s s') :
    VisibleInv arn limit s' := by
  induction hrun with
  | refl => exact h
  | tail _ hstep ih => exact ih.step hstep

theorem held_of_current (h : VisibleInv arn limit s) {u v : ℕ} (hv : s.Current u v) :
    (s.place v).held = true := by
  obtain ⟨hlt, -, hleaf⟩ := hv
  obtain ⟨w, hw, hdesc, hheld⟩ := h.queue.covered v hlt
  obtain rfl := hleaf.eq_of_descends hw hdesc
  exact hheld

end VisibleInv

theorem Visible.of_quiet (hstarts : ∀ k, s.running k = none → s'.running k = none)
    (hburies : ∀ v, s.place v = .replay → s'.place v = .dead → ¬ s.InFlight v) :
    Visible s s' where
  starts k r hidle hr := by cases (hstarts k hidle).symm.trans hr
  buries := hburies

theorem Visible.of_send {call : SendCall} {ids : ℕ → String} (hr : s.running k = some r) :
    Visible s (s.send k r i call ids) := by
  refine .of_quiet (fun _ hj => send_idle hr hj) ?_
  intro v hreplay hdead
  by_cases hv : v < s.copies.length
  · cases hreplay.symm.trans ((send_place_old hv).symm.trans hdead)
  · cases (send_place_new (Nat.not_lt.mp hv)).symm.trans hdead

theorem Visible.of_finish (k : ℕ) (deleted : List ℕ) : Visible s (s.finish k deleted) := by
  refine .of_quiet (fun _ hj => finish_idle hj) ?_
  intro v hreplay hdead
  cases hreplay.symm.trans (dead_of_finish hdead)

theorem eq_of_started (hidle : ∀ k, s.running k = none) {j : ℕ} {q : Running}
    (hq : (s.start k r).running j = some q) : q = r := by
  rcases start_cases hq with ⟨-, rfl⟩ | ⟨-, hq⟩
  · rfl
  · cases (hidle j).symm.trans hq

theorem Visible.of_start (hidle : ∀ k, s.running k = none) (hhonest : r.Honest)
    (hwhole : r.Whole) : Visible s (s.start k r) where
  starts j q _ hq := by
    obtain rfl := eq_of_started hidle hq
    refine ⟨hhonest, hwhole, ?_⟩
    rintro v - ⟨j', q', hq', -⟩
    cases (hidle j').symm.trans hq'
  buries v hreplay hdead := by cases hreplay.symm.trans hdead

theorem MeteredStep.visibleRun {maxReceiveCount : ℕ} {m m' : Metered}
    (hstep : MeteredStep .asSent arn limit maxReceiveCount m m')
    (hvisible : Visible m.state m'.state) : VisibleRun arn limit m.state m'.state := by
  cases hstep with
  | receive u _ _ _ => exact .refl
  | consume u hu hplace _ => exact .single ⟨.consume u hu hplace, hvisible⟩
  | redrive u ids hu hplace _ hrest hids =>
    exact .single ⟨.redrive u ids hu hplace hrest hids, hvisible⟩
  | bury u ids hu hplace _ hrest hids => exact .single ⟨.bury u ids hu hplace hrest hids, hvisible⟩
  | deliver k r hidle hdelivery _ _ =>
    exact .single ⟨.deliver k r hidle hdelivery trivial, hvisible⟩
  | send k r i call ids hr hi hcall hrest hids =>
    exact .single ⟨.send k r i call ids hr hi hcall hrest hids, hvisible⟩
  | finish k r hr hall => exact .single ⟨.finish k r hr hall, hvisible⟩

theorem sampleRunning_whole (u : ℕ) (attrs : HashMap String SqsMessageAttribute) :
    (sampleRunning u attrs).Whole :=
  Running.whole_of_singleton (sampleRunning_consistent u attrs) rfl

end ReplayBackoff
