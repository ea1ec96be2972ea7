import ReplayBackoff.RetryRefinement

/-!
# No message is given up early

Visibility timeouts may hold, loads succeed and find the configuration, SQS accept what the Lambda
sends, and the batches be whole: none of the records is reported or all of them are. Then a copy
that was received from the replay queue is deleted when the invocation ends, unless its attempts are
used up. So only a message without attempts is ever received a second time, and only such a message
is redriven to the dead letter queue.
-/

namespace ReplayBackoff

open Lineage Potential

/-- The loads succeed and find the queue, and SQS answers every call and accepts its entries. -/
structure Running.Healthy (arn : String) (r : Running) : Prop where
  configured : ∃ resolved config, (resolvePass r.env r.store r.inv).result = .ok resolved ∧
    resolved.lookup arn = some (some config)
  answered : ∀ call ∈ r.handled.calls, ∃ output, call.answer = .ok output
  accepted : ∀ i call, r.handled.calls[i]? = some call → ∀ id ∈ call.entryIds,
    r.accepted i id = true

structure HealthyStep (arn : String) (limit : UInt32) (maxReceiveCount : ℕ) (m m' : Metered) :
    Prop where
  step : MeteredStep .asSent arn limit maxReceiveCount m m'
  visible : Visible m.state m'.state
  starts : ∀ k r, m.state.running k = none → m'.state.running k = some r → r.Healthy arn

abbrev HealthyRun (arn : String) (limit : UInt32) (maxReceiveCount : ℕ) :
    Metered → Metered → Prop :=
  Relation.ReflTransGen (HealthyStep arn limit maxReceiveCount)

/-- The copy has a count with an attempt left. -/
def Copy.Replayable (limit : UInt32) (copy : Copy) : Prop := ∃ n, copy.Counts n ∧ n + 1 ≤ limit

/-- Messages in the queues that no invocation has received, none of them in the dead letter
queue. -/
structure Unreceived (m : Metered) : Prop where
  initial : Initial m.state
  alive : ∀ u < m.state.copies.length, m.state.place u ≠ .dead
  receives : ∀ u, m.state.place u = .replay → m.receives u = 0

structure HealthyInv (arn : String) (limit : UInt32) (m : Metered) : Prop where
  visible : VisibleInv arn limit m.state
  healthy : ∀ k r, m.state.running k = some r → r.Healthy arn
  received : ∀ u copy, m.state.copies[u]? = some copy → m.state.place u = .replay →
    0 < m.receives u → ¬ m.state.InFlight u → ¬ copy.Replayable limit
  dead : ∀ u copy, m.state.copies[u]? = some copy → m.state.place u = .dead →
    ¬ copy.Replayable limit

variable {arn : String} {limit : UInt32} {maxReceiveCount : ℕ} {m₀ m m' : Metered} {s : State}
  {r : Running} {u : ℕ}

theorem Running.Healthy.honest (h : r.Healthy arn) : r.Honest := by
  intro i call error hcall hanswer
  obtain ⟨output, houtput⟩ := h.answered call (List.mem_of_getElem? hcall)
  rw [hanswer] at houtput
  cases houtput

theorem Copy.Replayable.build {copy : Copy} (h : copy.Replayable limit) {record : SqsMessage}
    {config : ResolvedQueueConfig} (hbody : record.body = some copy.body)
    (hattrs : record.messageAttributes = copy.messageAttributes)
    (hlimit : config.maxAttempts = limit) (rng : Rng) :
    ∃ request, buildReplayRequest rng config record = .ok (some request) := by
  obtain ⟨n, hcounts, hle⟩ := h
  exact ⟨_, buildReplayRequest_some_iff.mpr
    ⟨n, copy.body, hcounts record hattrs, hlimit ▸ hle, hbody, rfl⟩⟩

/-- At its end a healthy invocation acknowledges every copy with an attempt left. -/
theorem RunningInv.acknowledged_of_replayable (h : RunningInv Unrestricted arn limit s r)
    (hhealthy : r.Healthy arn) (hall : ∀ i < r.handled.calls.length, i ∈ r.sent) {copy : Copy}
    (hu : u ∈ r.batch) (hcopy : s.copies[u]? = some copy) (hreplayable : copy.Replayable limit) :
    u ∈ r.acknowledged := by
  obtain ⟨resolved, config, hresolved, hconfig⟩ := hhealthy.configured
  obtain ⟨record, hdelivered⟩ : ∃ record, (u, record) ∈ r.deliveries := by
    rw [← List.map_fst_zip h.records.length_eq.le] at hu
    obtain ⟨⟨v, record⟩, hmem, rfl⟩ := List.mem_map.mp hu
    exact ⟨record, hmem⟩
  obtain ⟨copy', hcopy', hbody, hattrs, harn⟩ := List.forall₂_zip h.records hdelivered
  obtain rfl : copy = copy' := Option.some.inj (hcopy.symm.trans hcopy')
  have hrecord : record ∈ r.inv.records := (List.of_mem_zip hdelivered).2
  obtain ⟨id, hid, -⟩ := h.ids.present record hrecord
  obtain ⟨j, hj⟩ := List.mem_iff_getElem?.mp hrecord
  have hlimit := h.limited resolved config hresolved hconfig
  obtain ⟨request, hbuild⟩ := hreplayable.build hbody hattrs hlimit (r.inv.rng j)
  have hsend : (id, request) ∈ passSends resolved r.inv :=
    mem_passSends.mpr ⟨record, j, List.mem_zipIdx_iff_getElem?.mpr hj, hid,
      disposition_replay_iff.mpr ⟨arn, config, harn, hconfig, hbuild⟩⟩
  obtain ⟨call, hcall, hentry⟩ := exists_sendCalls_entry r.inv.sqs r.inv.order hsend
  rw [← (handle_of_resolve_ok hresolved).1] at hcall
  obtain ⟨i, hi⟩ := List.mem_iff_getElem?.mp hcall
  have hentryId := mem_entryIds_of_entry hentry
  exact h.acknowledged_of_accepted hhealthy.honest ⟨i, call, record, id,
    hall i (List.getElem?_eq_some_iff.mp hi).1, hi, hdelivered, hid, hentryId,
    hhealthy.accepted i call hi id hentryId⟩

theorem HealthyRun.run (hrun : HealthyRun arn limit maxReceiveCount m m') :
    VisibleRun arn limit m.state m'.state := by
  induction hrun with
  | refl => exact .refl
  | tail _ hstep ih => exact ih.trans (hstep.step.visibleRun hstep.visible)

namespace HealthyInv

theorem of_unreceived (h : Unreceived m) : HealthyInv arn limit m where
  visible := .of_initial h.initial
  healthy k r hr := by
    rw [h.initial.idle k] at hr
    cases hr
  received u copy _ hplace hreceived := by
    rw [h.receives u hplace] at hreceived
    cases hreceived
  dead u copy hcopy hplace := absurd hplace (h.alive u (List.getElem?_eq_some_iff.mp hcopy).1)

theorem receive (h : HealthyInv arn limit m) (hplace : m.state.place u = .source) :
    HealthyInv arn limit (m.receive [u]) where
  visible := h.visible
  healthy := h.healthy
  received v copy hcopy hreplay hreceived := by
    have hvu : v ≠ u := by
      rintro rfl
      cases hplace.symm.trans hreplay
    refine h.received v copy hcopy hreplay ?_
    simpa [Metered.receive, hvu] using hreceived
  dead := h.dead

theorem move (h : HealthyInv arn limit m) {place : Place} {names : ℕ → String}
    {receives : ℕ → ℕ} (hvisible : VisibleInv arn limit (m.state.move u place names))
    (hreceives : ∀ v, v ≠ u → receives v = m.receives v)
    (hreplay : place = .replay → receives u = 0)
    (hdead : place = .dead → ∀ copy, m.state.copies[u]? = some copy → ¬ copy.Replayable limit) :
    HealthyInv arn limit ⟨m.state.move u place names, receives⟩ where
  visible := hvisible
  healthy := h.healthy
  received v copy hcopy hplace hreceived := by
    by_cases hvu : v = u
    · subst hvu
      have hnone := hreplay ((Function.update_self _ _ _).symm.trans hplace)
      exact absurd hreceived (Nat.not_lt.mpr hnone.le)
    · have hold : m.state.place v = .replay := (Function.update_of_ne hvu _ _).symm.trans hplace
      exact h.received v copy hcopy hold (hreceived.trans_eq (hreceives v hvu))
  dead v copy hcopy hplace := by
    by_cases hvu : v = u
    · subst hvu
      exact hdead ((Function.update_self _ _ _).symm.trans hplace) copy hcopy
    · exact h.dead v copy hcopy ((Function.update_of_ne hvu _ _).symm.trans hplace)

variable {k i : ℕ}

theorem start (h : HealthyInv arn limit m) (hvisible : VisibleInv arn limit (m.state.start k r))
    (hidle : m.state.running k = none) (hhealthy : r.Healthy arn) :
    HealthyInv arn limit { m.receive r.batch with state := m.state.start k r } where
  visible := hvisible
  healthy j q hq := by
    rcases start_cases hq with ⟨-, rfl⟩ | ⟨-, hq⟩
    · exact hhealthy
    · exact h.healthy j q hq
  received v copy hcopy hplace hreceived hfree := by
    have hout : v ∉ r.batch := fun hv => hfree ⟨k, r, start_running_self, hv⟩
    refine h.received v copy hcopy hplace ?_ ?_
    · simpa [Metered.receive, hout] using hreceived
    · rintro ⟨j, q, hq, hv⟩
      have hj : j ≠ k := by
        rintro rfl
        cases hidle.symm.trans hq
      exact hfree ⟨j, q, (start_running_of_ne hj).trans hq, hv⟩
  dead := h.dead

theorem send (h : HealthyInv arn limit m) {call : SendCall} {names : ℕ → String}
    (hvisible : VisibleInv arn limit (m.state.send k r i call names))
    (hr : m.state.running k = some r) :
    HealthyInv arn limit ⟨m.state.send k r i call names,
      fun u => if u < m.state.copies.length then m.receives u else 0⟩ where
  visible := hvisible
  healthy j q hq := by
    rcases send_cases hq with ⟨-, rfl⟩ | ⟨-, hq⟩
    · have hold := h.healthy k r hr
      exact ⟨hold.configured, hold.answered, hold.accepted⟩
    · exact h.healthy j q hq
  received v copy hcopy hplace hreceived hfree := by
    by_cases hv : v < m.state.copies.length
    · refine h.received v copy ((State.getElem?_of_prefix send_grows hv).symm.trans hcopy)
        ((send_place_old hv).symm.trans hplace) (hreceived.trans_eq (if_pos hv)) ?_
      rintro ⟨j, q, hq, hmem⟩
      by_cases hj : j = k
      · subst hj
        obtain rfl : r = q := Option.some.inj (hr.symm.trans hq)
        exact hfree ⟨j, _, send_running_self, hmem⟩
      · exact hfree ⟨j, q, (send_running_of_ne hj).trans hq, hmem⟩
    · cases (send_place_new (Nat.not_lt.mp hv)).symm.trans hplace
  dead v copy hcopy hplace := by
    by_cases hv : v < m.state.copies.length
    · exact h.dead v copy ((State.getElem?_of_prefix send_grows hv).symm.trans hcopy)
        ((send_place_old hv).symm.trans hplace)
    · cases (send_place_new (Nat.not_lt.mp hv)).symm.trans hplace

/-- What stays in the replay queue at the end of an invocation has no attempt left. -/
theorem finish (h : HealthyInv arn limit m)
    (hvisible : VisibleInv arn limit (m.state.finish k r.released))
    (hr : m.state.running k = some r) (hall : ∀ i < r.handled.calls.length, i ∈ r.sent) :
    HealthyInv arn limit { m with state := m.state.finish k r.released } where
  visible := hvisible
  healthy j q hq := h.healthy j q (finish_cases hq).2
  received v copy hcopy hplace hreceived hfree hreplayable := by
    change (if v ∈ r.released ∧ m.state.place v = .replay then Place.replayed
      else m.state.place v) = .replay at hplace
    split_ifs at hplace with hdeleted
    refine h.received v copy hcopy hplace hreceived ?_ hreplayable
    rintro ⟨j, q, hq, hv⟩
    by_cases hj : j = k
    · subst hj
      obtain rfl : r = q := Option.some.inj (hr.symm.trans hq)
      have hack := (h.visible.queue.running j r hr).acknowledged_of_replayable (h.healthy j r hr)
        hall hv hcopy hreplayable
      rw [← (h.visible.whole j r hr).released_eq] at hack
      exact hdeleted ⟨hack, hplace⟩
    · exact hfree ⟨j, q, (finish_running_of_ne hj).trans hq, hv⟩
  dead v copy hcopy hplace := h.dead v copy hcopy (dead_of_finish hplace)

theorem step (h : HealthyInv arn limit m) (hpositive : 0 < maxReceiveCount)
    (hstep : HealthyStep arn limit maxReceiveCount m m') : HealthyInv arn limit m' := by
  obtain ⟨hstep, hvisible, hstarts⟩ := hstep
  have hinv := h.visible.run (hstep.visibleRun hvisible)
  cases hstep with
  | receive u _ hplace _ => exact h.receive hplace
  | consume u _ _ _ => exact h.move hinv (fun _ _ => rfl) (by simp) (by simp)
  | redrive u ids _ _ _ _ _ =>
    exact h.move hinv (fun v hv => Function.update_of_ne hv _ _)
      (fun _ => Function.update_self _ _ _) (by simp)
  | bury u ids _ hplace hspent _ _ =>
    have hfree : ¬ m.state.InFlight u := hvisible.buries u hplace (Function.update_self _ _ _)
    exact h.move hinv (fun _ _ => rfl) (by simp)
      (fun _ copy hcopy => h.received u copy hcopy hplace (hpositive.trans_le hspent) hfree)
  | deliver k r hidle _ _ _ => exact h.start hinv hidle (hstarts k r hidle start_running_self)
  | send k r i call ids hr _ _ _ _ => exact h.send hinv hr
  | finish k r hr hall => exact h.finish hinv hr hall

theorem run (h : HealthyInv arn limit m) (hpositive : 0 < maxReceiveCount)
    (hrun : HealthyRun arn limit maxReceiveCount m m') : HealthyInv arn limit m' := by
  induction hrun with
  | refl => exact h
  | tail _ hstep ih => exact ih.step hpositive hstep

end HealthyInv

/-- The count of the copy is the number of its replays. -/
def Copy.Exact (limit : UInt32) (copy : Copy) : Prop :=
  ∃ n, copy.Counts n ∧ n.toNat = copy.ancestors.length ∧ n ≤ limit

theorem exact_of_run {s₀ : State} (h₀ : Initial s₀) (hlimit : limit ≠ 4294967295)
    (huncounted : ∀ copy ∈ s₀.copies, copy.Counts 0)
    (hrun : Run .asSent Unrestricted arn limit s₀ s) :
    ∀ copy ∈ s.copies, copy.Exact limit := by
  refine forall_copies_of_run h₀ ?_ ?_ hrun
  · intro copy hcopy
    exact ⟨0, huncounted copy hcopy, by rw [h₀.original copy hcopy]; rfl, UInt32.zero_le⟩
  · rintro s r entry delivery copy n - horigin hcounts ⟨n', hcounts', hlength, hle⟩
    obtain rfl := Copy.counts_unique hcounts hcounts'
    have hmax := limit.toNat_lt
    have hne : limit.toNat ≠ 4294967295 := fun heq => hlimit (UInt32.toNat_inj.mp heq)
    have hle' := UInt32.le_iff_toNat_le.mp hle
    refine ⟨n + 1, horigin.counts, ?_, horigin.within⟩
    rw [horigin.child_ancestors, State.ancestors_eq horigin.source, List.length_cons,
      toNat_add_one (by omega), hlength]

theorem Copy.Exact.length_eq {copy : Copy} (h : copy.Exact limit) (hlimit : limit ≠ 4294967295)
    (hspent : ¬ copy.Replayable limit) : copy.ancestors.length = limit.toNat := by
  obtain ⟨n, hcounts, hlength, hle⟩ := h
  have hmax := limit.toNat_lt
  have hne : limit.toNat ≠ 4294967295 := fun heq => hlimit (UInt32.toNat_inj.mp heq)
  have hle' := UInt32.le_iff_toNat_le.mp hle
  have hlast : ¬ n + 1 ≤ limit := fun hle => hspent ⟨n, hcounts, hle⟩
  rw [UInt32.le_iff_toNat_le, toNat_add_one (by omega)] at hlast
  omega

theorem HealthyStep.of_quiet (hstep : MeteredStep .asSent arn limit maxReceiveCount m m')
    (hstarts : ∀ k, m.state.running k = none → m'.state.running k = none)
    (hvisible : Visible m.state m'.state) : HealthyStep arn limit maxReceiveCount m m' where
  step := hstep
  visible := hvisible
  starts k r hidle hr := by cases (hstarts k hidle).symm.trans hr

theorem HealthyStep.of_move {place : Place} {names : ℕ → String} {receives : ℕ → ℕ}
    (hstep : MeteredStep .asSent arn limit maxReceiveCount m ⟨m.state.move u place names, receives⟩)
    (hbury : place = .dead → ¬ m.state.InFlight u) :
    HealthyStep arn limit maxReceiveCount m ⟨m.state.move u place names, receives⟩ := by
  refine .of_quiet hstep (fun _ hidle => hidle) (.of_quiet (fun _ hidle => hidle) ?_)
  intro v hreplay hdead
  by_cases hvu : v = u
  · subst hvu
    exact hbury ((Function.update_self _ _ _).symm.trans hdead)
  · cases hreplay.symm.trans ((Function.update_of_ne hvu _ _).symm.trans hdead)

theorem HealthyStep.of_send {k i : ℕ} {call : SendCall} {names : ℕ → String} {receives : ℕ → ℕ}
    (hr : m.state.running k = some r)
    (hstep : MeteredStep .asSent arn limit maxReceiveCount m
      ⟨m.state.send k r i call names, receives⟩) :
    HealthyStep arn limit maxReceiveCount m ⟨m.state.send k r i call names, receives⟩ :=
  .of_quiet hstep (fun _ hj => send_idle hr hj) (.of_send hr)

theorem HealthyStep.of_finish {k : ℕ} {deleted : List ℕ}
    (hstep : MeteredStep .asSent arn limit maxReceiveCount m
      { m with state := m.state.finish k deleted }) :
    HealthyStep arn limit maxReceiveCount m { m with state := m.state.finish k deleted } :=
  .of_quiet hstep (fun _ hj => finish_idle hj) (.of_finish k deleted)

theorem HealthyStep.of_deliver (k : ℕ) (hidle : ∀ k, m.state.running k = none)
    (hdelivery : m.state.Delivery arn limit r) (hne : r.batch ≠ [])
    (hcount : ∀ u ∈ r.batch, m.receives u < maxReceiveCount) (hhealthy : r.Healthy arn)
    (hwhole : r.Whole) :
    HealthyStep arn limit maxReceiveCount m
      { m.receive r.batch with state := m.state.start k r } where
  step := .deliver k r (hidle k) hdelivery hne hcount
  visible := .of_start hidle hhealthy.honest hwhole
  starts j q _ hq := by
    obtain rfl := eq_of_started hidle hq
    exact hhealthy

def healthyRunning (arn : String) (limit : UInt32) (s : State) (u : ℕ) (copy : Copy) : Running where
  batch := [u]
  env := sampleEnvironment
  store :=
    { ConfigStore.new "/sqs-replay/queues/" with
      cache := some (0, (∅ : Configs).insert arn
        ⟨arn, "https://sqs/Queue", some limit, none, none, none⟩) }
  inv := sampleInvocation
    [⟨some (s.messageId u), some copy.body, ∅, copy.messageAttributes, some arn⟩]
  accepted := fun _ _ => true
  sent := []

section

variable (arn : String) (limit : UInt32) (s : State) (u : ℕ) (copy : Copy)

theorem healthyRunning_resolves : ∃ config,
    (resolvePass (healthyRunning arn limit s u copy).env (healthyRunning arn limit s u copy).store
      (healthyRunning arn limit s u copy).inv).result =
        .ok ((∅ : Resolved).insert arn (some config)) ∧ config.maxAttempts = limit := by
  have hcached : (healthyRunning arn limit s u copy).store.cached arn =
      some ⟨arn, "https://sqs/Queue", some limit, none, none, none⟩ := AList.lookup_insert _
  have hlookup : (resolveConfig sampleEnvironment (healthyRunning arn limit s u copy).store
      ((healthyRunning arn limit s u copy).inv.lookups 0) (some arn)).result =
        .ok (some (QueueConfig.resolve ⟨arn, "https://sqs/Queue", some limit, none, none, none⟩
          sampleEnvironment)) := by
    rw [resolveConfig_eq, ConfigStore.configFor_of_fresh rfl, hcached]
    rfl
  have harn : (⟨some (s.messageId u), some copy.body, ∅, copy.messageAttributes, some arn⟩ :
      SqsMessage).eventSourceArn = some arn := rfl
  exact ⟨_, (resolveRecords_of_ok [] harn (AList.notMem_empty arn) hlookup).1, rfl⟩

theorem healthyRunning_answered :
    ∀ call ∈ (healthyRunning arn limit s u copy).handled.calls, call.answer = .ok ⟨[]⟩ := by
  obtain ⟨config, hresolved, -⟩ := healthyRunning_resolves arn limit s u copy
  intro call hcall
  rw [Running.handled, (handle_of_resolve_ok hresolved).1] at hcall
  obtain ⟨i, chunk, -, rfl⟩ := mem_sendCalls hcall
  rfl

theorem healthyRunning_healthy : (healthyRunning arn limit s u copy).Healthy arn where
  configured := by
    obtain ⟨config, hresolved, -⟩ := healthyRunning_resolves arn limit s u copy
    exact ⟨_, config, hresolved, AList.lookup_insert _⟩
  answered call hcall := ⟨⟨[]⟩, healthyRunning_answered arn limit s u copy call hcall⟩
  accepted _ _ _ _ _ := rfl

theorem healthyRunning_consistent : (healthyRunning arn limit s u copy).Consistent := by
  intro i call output hcall houtput id
  have hanswer := healthyRunning_answered arn limit s u copy call (List.mem_of_getElem? hcall)
  obtain rfl : (⟨[]⟩ : SendMessageBatchOutput) = output :=
    Except.ok.inj (hanswer.symm.trans houtput)
  simp [healthyRunning]

theorem healthyRunning_whole : (healthyRunning arn limit s u copy).Whole :=
  Running.whole_of_singleton (healthyRunning_consistent arn limit s u copy) rfl

variable {s u copy}

theorem healthyRunning_delivery (hcopy : s.copies[u]? = some copy) (hplace : s.place u = .replay) :
    s.Delivery arn limit (healthyRunning arn limit s u copy) := by
  refine ⟨List.nodup_singleton u, ?_, ?_, healthyRunning_consistent arn limit s u copy, ?_, rfl⟩
  · intro v hv
    obtain rfl := List.mem_singleton.mp hv
    exact ⟨(List.getElem?_eq_some_iff.mp hcopy).1, hplace⟩
  · exact List.Forall₂.cons ⟨⟨copy, hcopy, rfl, rfl, rfl⟩, rfl⟩ List.Forall₂.nil
  · intro resolved config hresolved hconfig
    obtain ⟨config', hresolved', hlimit⟩ := healthyRunning_resolves arn limit s u copy
    obtain rfl := Except.ok.inj (hresolved.symm.trans hresolved')
    rw [AList.lookup_insert] at hconfig
    obtain rfl := Option.some.inj (Option.some.inj hconfig)
    exact hlimit

end

theorem HealthyInv.rest_of_final (h : HealthyInv arn limit m)
    (hfinal : Final (HealthyStep arn limit maxReceiveCount) m) :
    (∀ k, m.state.running k = none) ∧
      ∀ v < m.state.copies.length, m.state.place v ≠ .source ∧ m.state.place v ≠ .replay := by
  have hids := h.visible.queue.ids
  have hidle : ∀ k, m.state.running k = none := by
    intro k
    by_contra hsome
    obtain ⟨r, hr⟩ := Option.ne_none_iff_exists'.mp hsome
    by_cases hall : ∀ i < r.handled.calls.length, i ∈ r.sent
    · exact hfinal _ (.of_finish (.finish k r hr hall))
    · push Not at hall
      obtain ⟨i, hi, hsent⟩ := hall
      exact hfinal _ (.of_send hr (.send k r i _ (freshIds m.state) hr hsent
        (List.getElem?_eq_getElem hi) (fun v hv => if_pos hv) (send_queueIds hids k r i _)))
  have hfree : ∀ v, ¬ m.state.InFlight v := by
    rintro v ⟨k, r, hr, -⟩
    cases (hidle k).symm.trans hr
  refine ⟨hidle, fun v hv => ⟨?_, ?_⟩⟩
  · intro hplace
    by_cases hcount : m.receives v < maxReceiveCount
    · exact hfinal _ (.of_quiet (.receive v hv hplace hcount) (fun _ hj => hj)
        (.of_quiet (fun _ hj => hj) (fun w hreplay hdead => by cases hreplay.symm.trans hdead)))
    · exact hfinal _ (.of_move (.redrive v m.state.messageId hv hplace (Nat.not_lt.mp hcount)
        (fun _ _ => rfl) (move_queueIds hids (by rw [hplace]; rfl))) (by simp))
  · intro hplace
    by_cases hcount : m.receives v < maxReceiveCount
    · exact hfinal _ (.of_deliver 0 hidle
        (healthyRunning_delivery arn limit (List.getElem?_eq_getElem hv) hplace)
        (List.cons_ne_nil _ _) (fun w hw => List.mem_singleton.mp hw ▸ hcount)
        (healthyRunning_healthy arn limit _ _ _) (healthyRunning_whole arn limit _ _ _))
    · exact hfinal _ (.of_move (.bury v m.state.messageId hv hplace (Nat.not_lt.mp hcount)
        (fun _ _ => rfl) (move_queueIds hids (by rw [hplace]; rfl))) (fun _ => hfree v))

theorem HealthyRun.metered (hrun : HealthyRun arn limit maxReceiveCount m m') :
    MeteredRun .asSent arn limit maxReceiveCount m m' := by
  induction hrun with
  | refl => exact .refl
  | tail _ hstep ih => exact ih.tail hstep.step

theorem exists_final_of_sound (h : Sound limit m₀.state)
    (hrun : HealthyRun arn limit maxReceiveCount m₀ m) :
    ∃ m', HealthyRun arn limit maxReceiveCount m m' ∧
      Final (HealthyStep arn limit maxReceiveCount) m' := by
  let t : Tariff := ⟨1, 0, maxReceiveCount, limit.toNat⟩
  have hpays : Pays (MeteredStep .asSent arn limit maxReceiveCount) 1 (t.Holds .asSent arn limit m₀) :=
    t.pays h rfl
  obtain ⟨n, hsteps⟩ := exists_steps hrun.metered
  obtain ⟨p, hp, -⟩ := hpays.run (t.holds_initial h.initial) hsteps
  exact (hpays.mono (fun _ _ hstep => hstep.step)).exists_final hp

theorem length_of_dead (hinv : HealthyInv arn limit m) (h : Initial m₀.state)
    (hlimit : limit ≠ 4294967295) (huncounted : ∀ copy ∈ m₀.state.copies, copy.Counts 0)
    (hrun : HealthyRun arn limit maxReceiveCount m₀ m) :
    ∀ v < m.state.copies.length, m.state.place v = .dead →
      (m.state.ancestors v).length = limit.toNat := by
  intro v hv hplace
  have hexact := exact_of_run h hlimit huncounted (VisibleRun.run (HealthyRun.run hrun))
  have hcopy := List.getElem?_eq_getElem hv
  rw [State.ancestors_eq hcopy]
  exact (hexact _ (List.mem_of_getElem? hcopy)).length_eq hlimit (hinv.dead v _ hcopy hplace)

/-- While visibility timeouts hold, loads succeed, SQS accepts what it is sent and reports are
whole, only a message without an attempt left comes to the dead letter queue. Messages that were
sent without a count have then been replayed exactly as often as the limit allows; every run goes on
until nothing is left to do, and then every one of them was consumed or is in the dead letter queue
after all its replays. -/
theorem attempts_used_up (arn : String) (limit : UInt32) (maxReceiveCount : ℕ) (m₀ m : Metered)
    (hpositive : 0 < maxReceiveCount) (h : Unreceived m₀)
    (hrun : HealthyRun arn limit maxReceiveCount m₀ m) :
    (∀ v copy, m.state.copies[v]? = some copy → m.state.place v = .dead →
      ¬ copy.Replayable limit) ∧
    (limit ≠ 4294967295 → (∀ copy ∈ m₀.state.copies, copy.Counts 0) →
      (∀ v < m.state.copies.length, m.state.place v = .dead →
        (m.state.ancestors v).length = limit.toNat) ∧
      (∃ m', HealthyRun arn limit maxReceiveCount m m' ∧
        Final (HealthyStep arn limit maxReceiveCount) m') ∧
      (Final (HealthyStep arn limit maxReceiveCount) m →
        (∀ k, m.state.running k = none) ∧
        ∀ u < m.state.copies.length, ∃! v, m.state.Current u v ∧
          (m.state.place v = .consumed ∨
            m.state.place v = .dead ∧ (m.state.ancestors v).length = limit.toNat))) := by
  have hinv : HealthyInv arn limit m := (HealthyInv.of_unreceived h).run hpositive hrun
  refine ⟨hinv.dead, fun hlimit huncounted => ?_⟩
  have hdead := length_of_dead hinv h.initial hlimit huncounted hrun
  have hsound : Sound limit m₀.state := by
    refine ⟨h.initial, hlimit, fun copy hcopy hmax => ?_⟩
    exact absurd (Copy.counts_unique hmax (huncounted copy hcopy)) (by decide)
  refine ⟨hdead, exists_final_of_sound hsound hrun, fun hfinal => ?_⟩
  obtain ⟨hidle, hrest⟩ := hinv.rest_of_final hfinal
  refine ⟨hidle, fun u hu => ?_⟩
  obtain ⟨v, hv, honly⟩ := hinv.visible.existsUnique_current hu
  refine ⟨v, ⟨hv, ?_⟩, fun w hw => honly w hw.1⟩
  obtain ⟨hsource, hreplay⟩ := hrest v hv.1
  cases hplace : m.state.place v with
  | source => exact absurd hplace hsource
  | replay => exact absurd hplace hreplay
  | dead => exact Or.inr ⟨rfl, hdead v hv.1 hplace⟩
  | consumed => exact Or.inl rfl
  | replayed =>
    have hheld := hinv.visible.held_of_current hv
    rw [hplace] at hheld
    cases hheld

theorem sampleRunning_healthy (u : ℕ) (attrs : HashMap String SqsMessageAttribute) :
    (sampleRunning u attrs).Healthy "arn:aws:sqs:ReplayQueue" where
  configured := ⟨_, _, rfl, rfl⟩
  answered _ hcall := ⟨_, sampleRunning_answered hcall⟩
  accepted _ _ _ _ _ := rfl

def sampleRedriven : Metered :=
  ⟨(sampleReplayed.receive [1]).state.move 1 .replay sampleId,
    Function.update (sampleReplayed.receive [1]).receives 1 0⟩

/-- It is delivered with its only replay behind it, and its invocation makes no call. -/
def sampleSpent : Metered :=
  { sampleRedriven.receive [1] with
    state := sampleRedriven.state.start 0 (sampleRunning 1 (countedAs "1")) }

def sampleReported : Metered := { sampleSpent with state := sampleSpent.state.finish 0 [] }

def sampleBuried : Metered :=
  { sampleReported with state := sampleReported.state.move 1 .dead sampleId }

theorem sampleReplayed_idle (k : ℕ) : sampleReplayed.state.running k = none := by
  by_cases hk : k = 0
  · subst hk
    exact finish_running_self
  · exact (finish_running_of_ne hk).trans ((send_running_of_ne hk).trans (start_running_of_ne hk))

theorem sampleReported_idle (k : ℕ) : sampleReported.state.running k = none := by
  by_cases hk : k = 0
  · subst hk
    exact finish_running_self
  · exact (finish_running_of_ne hk).trans ((start_running_of_ne hk).trans (sampleReplayed_idle k))

theorem sampleReplayed_healthyRun :
    HealthyRun "arn:aws:sqs:ReplayQueue" 1 1 sampleMetered sampleReplayed := by
  have hstart : HealthyStep "arn:aws:sqs:ReplayQueue" 1 1 sampleMetered sampleStarted :=
    .of_deliver 0 (fun _ => rfl) (sampleRunning_delivery rfl rfl rfl) (List.cons_ne_nil _ _)
      (fun _ _ => Nat.zero_lt_one) (sampleRunning_healthy 0 ∅) (sampleRunning_whole 0 ∅)
  have hsend : HealthyStep "arn:aws:sqs:ReplayQueue" 1 1 sampleStarted sampleSent :=
    .of_send start_running_self (sampleSent_step 1)
  exact ((Relation.ReflTransGen.single hstart).tail hsend).tail (.of_finish (sampleReplayed_step 1))

theorem sampleReported_step :
    MeteredStep .asSent "arn:aws:sqs:ReplayQueue" 1 1 sampleSpent sampleReported := by
  have hresult : (sampleRunning 1 (countedAs "1")).handled.result = .ok ⟨[⟨sampleId 1⟩]⟩ := rfl
  have hdeleted : DeletionRule.asSent.deleted (sampleRunning 1 (countedAs "1")) = [] := by
    rw [DeletionRule.asSent_deleted, Running.released_of_ok hresult, if_neg (List.cons_ne_nil _ _)]
  have hcalls : (sampleRunning 1 (countedAs "1")).handled.calls = [] := rfl
  have hall : ∀ i < (sampleRunning 1 (countedAs "1")).handled.calls.length,
      i ∈ (sampleRunning 1 (countedAs "1")).sent := by
    rw [hcalls]
    exact fun i hi => absurd hi (Nat.not_lt_zero i)
  rw [sampleReported, ← hdeleted]
  exact .finish 0 (sampleRunning 1 (countedAs "1")) start_running_self hall

theorem sampleBuried_run :
    HealthyRun "arn:aws:sqs:ReplayQueue" 1 1 sampleMetered sampleBuried := by
  have hreceive : HealthyStep "arn:aws:sqs:ReplayQueue" 1 1 sampleReplayed
      (sampleReplayed.receive [1]) :=
    .of_quiet (.receive 1 (by decide) rfl Nat.zero_lt_one) (fun _ hidle => hidle)
      (.of_quiet (fun _ hidle => hidle) (fun v hreplay hdead => by cases hreplay.symm.trans hdead))
  have hredrive : HealthyStep "arn:aws:sqs:ReplayQueue" 1 1 (sampleReplayed.receive [1])
      sampleRedriven :=
    .of_move (.redrive 1 sampleId (by decide) rfl le_rfl (fun _ _ => rfl)
      (queueIds_of_sampleId rfl)) (by simp)
  have hdeliver : HealthyStep "arn:aws:sqs:ReplayQueue" 1 1 sampleRedriven sampleSpent := by
    refine .of_deliver 0 sampleReplayed_idle (sampleRunning_delivery rfl rfl rfl)
      (List.cons_ne_nil _ _) ?_ (sampleRunning_healthy 1 _) (sampleRunning_whole 1 _)
    intro v hv
    obtain rfl := List.mem_singleton.mp hv
    exact Nat.zero_lt_one
  have hbury : HealthyStep "arn:aws:sqs:ReplayQueue" 1 1 sampleReported sampleBuried := by
    refine .of_move (.bury 1 sampleId (by decide) rfl le_rfl (fun _ _ => rfl)
      (queueIds_of_sampleId rfl)) ?_
    rintro - ⟨k, r, hr, -⟩
    cases (sampleReported_idle k).symm.trans hr
  exact ((((sampleReplayed_healthyRun.tail hreceive).tail hredrive).tail hdeliver).tail
    (.of_finish sampleReported_step)).tail hbury

theorem sampleBuried_final :
    Final (HealthyStep "arn:aws:sqs:ReplayQueue" 1 1) sampleBuried := by
  have hplace : ∀ u < 2, sampleBuried.state.place u ≠ .source ∧
      sampleBuried.state.place u ≠ .replay := by decide
  have hrunning : ∀ {k r}, sampleBuried.state.running k = some r → False := by
    intro k r hr
    cases (sampleReported_idle k).symm.trans hr
  rintro m' ⟨hstep, -, -⟩
  cases hstep with
  | receive u hu hsource _ => exact (hplace u hu).1 hsource
  | consume u hu hsource _ => exact (hplace u hu).1 hsource
  | redrive u ids hu hsource _ _ _ => exact (hplace u hu).1 hsource
  | bury u ids hu hreplay _ _ _ => exact (hplace u hu).2 hreplay
  | deliver k r _ hdelivery hne _ =>
    obtain ⟨u, hu⟩ := List.exists_mem_of_ne_nil _ hne
    obtain ⟨hlt, hreplay⟩ := hdelivery.inReplay u hu
    exact (hplace u hlt).2 hreplay
  | send k r i call ids hr _ _ _ _ => exact hrunning hr
  | finish k r hr _ => exact hrunning hr

theorem attempts_used_up_sample :
    (∀ v copy, sampleBuried.state.copies[v]? = some copy → sampleBuried.state.place v = .dead →
      ¬ copy.Replayable 1) ∧
    ∀ u < 2, ∃! v, sampleBuried.state.Current u v ∧ (sampleBuried.state.place v = .consumed ∨
      sampleBuried.state.place v = .dead ∧ (sampleBuried.state.ancestors v).length = 1) := by
  have hunreceived : Unreceived sampleMetered := by
    refine ⟨sampleQueue_initial _, ?_, fun _ _ => rfl⟩
    rintro u - hdead
    cases hdead
  have huncounted : ∀ copy ∈ sampleMetered.state.copies, copy.Counts 0 := by
    intro copy hcopy record hattrs
    obtain rfl := List.mem_singleton.mp hcopy
    rw [replayNum, hattrs]
    rfl
  obtain ⟨hdead, hused⟩ := attempts_used_up "arn:aws:sqs:ReplayQueue" 1 1 sampleMetered sampleBuried
    Nat.zero_lt_one hunreceived sampleBuried_run
  exact ⟨hdead, ((hused (by decide) huncounted).2.2 sampleBuried_final).2⟩

end ReplayBackoff
