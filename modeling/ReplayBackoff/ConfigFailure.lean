import ReplayBackoff.CacheSnapshot
import ReplayBackoff.Handle

/-!
# A configuration failure is all or nothing

The first pass looks the distinct ARNs of an event up in order of first occurrence. A lookup fails
when it finds the cache stale and its load fails. The first failing lookup ends the invocation
before anything is sent, and the store is what the lookups before it made of it. Without a failing
lookup every ARN of the event is resolved, and nothing in the records makes the invocation fail.
-/

namespace ReplayBackoff

/-- The distinct ARNs of an event in order of first occurrence. -/
def distinctArns (records : List SqsMessage) : List String :=
  (records.filterMap (·.eventSourceArn)).eraseDups

/-- The store that the `k`th lookup finds. It does not depend on the ARNs. -/
def storeBefore (store : ConfigStore) (lookups : ℕ → Lookup) : ℕ → ConfigStore
  | 0 => store
  | k + 1 => ((storeBefore store lookups k).refreshIfStale (lookups k)).store

/-- The `k`th lookup finds the cache stale, and its load fails. -/
def FailsAt (store : ConfigStore) (lookups : ℕ → Lookup) (k : ℕ) : Prop :=
  (storeBefore store lookups k).isFresh (lookups k).checkedAt = false ∧
    ∃ error, (lookups k).answers.parameters = .error error

/-- The `k`th lookup finds the cache stale and loads these parameters. -/
def RefreshesAt (store : ConfigStore) (lookups : ℕ → Lookup) (k : ℕ)
    (parameters : List Parameter) : Prop :=
  (storeBefore store lookups k).isFresh (lookups k).checkedAt = false ∧
    (lookups k).answers.parameters = .ok parameters

/-- The first lookup of an event that fails. -/
structure FirstFailure (store : ConfigStore) (inv : Invocation) (k : ℕ) : Prop where
  arn : k < (distinctArns inv.records).length
  earlier : ∀ j < k, ¬ FailsAt store inv.lookups j
  fails : FailsAt store inv.lookups k

/-- A store as the last successful load before the `k`th lookup left it, or unchanged when there
was none. -/
def LeftByLastLoad (store : ConfigStore) (lookups : ℕ → Lookup) (k : ℕ)
    (after : ConfigStore) : Prop :=
  ((∀ j < k, ∀ parameters, ¬ RefreshesAt store lookups j parameters) ∧ after = store) ∨
    ∃ j < k, ∃ parameters, RefreshesAt store lookups j parameters ∧
      (∀ i < k, j < i → ∀ later, ¬ RefreshesAt store lookups i later) ∧
      after = { store with cache := some ((lookups j).loadedAt, loadMap parameters) }

section

variable {store : ConfigStore} {lookups : ℕ → Lookup} {k : ℕ}

theorem storeBefore_of_not_refreshes (h : ∀ parameters, ¬ RefreshesAt store lookups k parameters) :
    storeBefore store lookups (k + 1) = storeBefore store lookups k := by
  rw [storeBefore, ConfigStore.refreshIfStale]
  cases hfresh : (storeBefore store lookups k).isFresh (lookups k).checkedAt with
  | true => rfl
  | false =>
    cases hload : (lookups k).answers.parameters with
    | ok parameters => exact absurd ⟨hfresh, hload⟩ (h parameters)
    | error error => exact (ConfigStore.refresh_of_error hload).2

theorem storeBefore_of_refreshes {parameters : List Parameter}
    (h : RefreshesAt store lookups k parameters) :
    storeBefore store lookups (k + 1) =
      { storeBefore store lookups k with
        cache := some ((lookups k).loadedAt, loadMap parameters) } := by
  rw [storeBefore, ConfigStore.refreshIfStale, h.1]
  exact (ConfigStore.refresh_of_ok _ h.2).2

theorem storeBefore_leftByLastLoad (store : ConfigStore) (lookups : ℕ → Lookup) (k : ℕ) :
    LeftByLastLoad store lookups k (storeBefore store lookups k) := by
  induction k with
  | zero => exact Or.inl ⟨by simp, rfl⟩
  | succ k ih =>
    by_cases hload : ∃ parameters, RefreshesAt store lookups k parameters
    · obtain ⟨parameters, hload⟩ := hload
      refine Or.inr ⟨k, Nat.lt_succ_self k, parameters, hload, ?_, ?_⟩
      · intro i hi hki
        omega
      · rw [storeBefore_of_refreshes hload]
        rcases ih with ⟨-, hsame⟩ | ⟨j, -, later, -, -, hleft⟩
        · rw [hsame]
        · rw [hleft]
    · have hno : ∀ parameters, ¬ RefreshesAt store lookups k parameters := not_exists.mp hload
      rw [storeBefore_of_not_refreshes hno]
      rcases ih with ⟨hnone, hsame⟩ | ⟨j, hj, parameters, hrefresh, hlast, hleft⟩
      · refine Or.inl ⟨?_, hsame⟩
        intro j hj
        rcases Nat.lt_succ_iff_lt_or_eq.mp hj with hlt | rfl
        · exact hnone j hlt
        · exact hno
      · refine Or.inr ⟨j, Nat.lt_succ_of_lt hj, parameters, hrefresh, ?_, hleft⟩
        intro i hi hji
        rcases Nat.lt_succ_iff_lt_or_eq.mp hi with hlt | rfl
        · exact hlast i hlt hji
        · exact hno

theorem resolveConfig_of_not_fails (env : Environment) (arn : String)
    (h : ¬ FailsAt store lookups k) :
    ∃ config, (resolveConfig env (storeBefore store lookups k) (lookups k) (some arn)).result =
        .ok config ∧
      (resolveConfig env (storeBefore store lookups k) (lookups k) (some arn)).store =
        storeBefore store lookups (k + 1) := by
  rw [resolveConfig_eq, ConfigStore.configFor_eq, storeBefore]
  cases hresult : ((storeBefore store lookups k).configFor (lookups k) arn).result with
  | error e =>
    obtain ⟨hstale, error, hload, -⟩ := configFor_error_iff.mp hresult
    exact absurd ⟨hstale, error, hload⟩ h
  | ok config =>
    rw [ConfigStore.configFor_eq] at hresult
    exact ⟨_, congrArg (Except.map _) hresult, rfl⟩

theorem resolveConfig_of_fails (env : Environment) (arn : String) (h : FailsAt store lookups k) :
    ∃ error, (lookups k).answers.parameters = .error error ∧
      (resolveConfig env (storeBefore store lookups k) (lookups k) (some arn)).result =
        .error (.load error) ∧
      (resolveConfig env (storeBefore store lookups k) (lookups k) (some arn)).store =
        storeBefore store lookups k := by
  obtain ⟨hstale, error, hload⟩ := h
  have hresult : ((storeBefore store lookups k).configFor (lookups k) arn).result =
      .error (.load error) := configFor_error_iff.mpr ⟨hstale, error, hload, rfl⟩
  rw [resolveConfig_eq]
  exact ⟨error, hload, congrArg (Except.map _) hresult, configFor_error_store hresult⟩

end

def newArns (resolved : Resolved) (records : List SqsMessage) : List String :=
  ((records.filterMap (·.eventSourceArn)).filter (fun arn => arn ∉ resolved)).eraseDups

theorem newArns_empty (records : List SqsMessage) : newArns ∅ records = distinctArns records := by
  have hall : (records.filterMap (·.eventSourceArn)).filter (fun arn => arn ∉ (∅ : Resolved)) =
      records.filterMap (·.eventSourceArn) := by
    apply List.filter_eq_self.mpr
    intro arn _
    exact decide_eq_true (AList.notMem_empty arn)
  rw [newArns, hall, distinctArns]

section

variable {resolved : Resolved} {record : SqsMessage} {rest : List SqsMessage}

theorem newArns_of_none (h : record.eventSourceArn = none) :
    newArns resolved (record :: rest) = newArns resolved rest := by
  rw [newArns, List.filterMap_cons_none h, newArns]

theorem newArns_of_mem {arn : String} (h : record.eventSourceArn = some arn)
    (hmem : arn ∈ resolved) : newArns resolved (record :: rest) = newArns resolved rest := by
  have hskip : ¬ decide (arn ∉ resolved) = true := by simpa using hmem
  rw [newArns, List.filterMap_cons_some h, List.filter_cons, if_neg hskip, newArns]

theorem newArns_of_not_mem {arn : String} (h : record.eventSourceArn = some arn)
    (hmem : arn ∉ resolved) (config : Option ResolvedQueueConfig) :
    newArns resolved (record :: rest) = arn :: newArns (resolved.insert arn config) rest := by
  have hkeep : decide (arn ∉ resolved) = true := decide_eq_true hmem
  rw [newArns, List.filterMap_cons_some h, List.filter_cons, if_pos hkeep,
    List.eraseDups_cons, List.filter_filter, newArns]
  congr 3
  funext other
  simp [AList.mem_insert, beq_eq_decide]

end

section

variable (env : Environment) {store : ConfigStore} {lookups : ℕ → Lookup}

theorem resolveRecords_of_no_failure {k : ℕ} {records : List SqsMessage} {resolved : Resolved}
    (h : ∀ j < (newArns resolved records).length, ¬ FailsAt store lookups (k + j)) :
    ∃ out, (resolveRecords env lookups k records (storeBefore store lookups k) resolved).result =
      .ok out := by
  induction records generalizing k resolved with
  | nil => exact ⟨resolved, rfl⟩
  | cons record rest ih =>
    cases harn : record.eventSourceArn with
    | none =>
      rw [newArns_of_none harn] at h
      rw [resolveRecords_of_none harn]
      exact ih h
    | some arn =>
      by_cases hmem : arn ∈ resolved
      · rw [newArns_of_mem harn hmem] at h
        rw [resolveRecords_of_mem harn hmem]
        exact ih h
      · have hfirst : ¬ FailsAt store lookups k := by
          apply h 0
          rw [newArns_of_not_mem harn hmem none]
          exact Nat.zero_lt_succ _
        obtain ⟨config, hresult, hstore⟩ := resolveConfig_of_not_fails env arn hfirst
        rw [newArns_of_not_mem harn hmem config, List.length_cons] at h
        rw [(resolveRecords_of_ok rest harn hmem hresult).1, hstore]
        apply ih
        intro j hj
        have hnext := h (j + 1) (Nat.succ_lt_succ hj)
        rwa [← Nat.add_assoc, Nat.add_right_comm] at hnext

/-- The first failing lookup ends the pass, with the store that it found. -/
theorem resolveRecords_of_failure {k j : ℕ} {records : List SqsMessage} {resolved : Resolved}
    (hj : j < (newArns resolved records).length)
    (hearlier : ∀ i < j, ¬ FailsAt store lookups (k + i)) (hfails : FailsAt store lookups (k + j)) :
    ∃ error, (lookups (k + j)).answers.parameters = .error error ∧
      (resolveRecords env lookups k records (storeBefore store lookups k) resolved).result =
        .error (.load error) ∧
      (resolveRecords env lookups k records (storeBefore store lookups k) resolved).store =
        storeBefore store lookups (k + j) := by
  induction records generalizing k j resolved with
  | nil => exact absurd hj (Nat.not_lt_zero j)
  | cons record rest ih =>
    cases harn : record.eventSourceArn with
    | none =>
      rw [newArns_of_none harn] at hj
      rw [resolveRecords_of_none harn]
      exact ih hj hearlier hfails
    | some arn =>
      by_cases hmem : arn ∈ resolved
      · rw [newArns_of_mem harn hmem] at hj
        rw [resolveRecords_of_mem harn hmem]
        exact ih hj hearlier hfails
      · cases j with
        | zero =>
          obtain ⟨error, hload, hresult, hstore⟩ := resolveConfig_of_fails env arn hfails
          obtain ⟨hpass, hleft⟩ := resolveRecords_of_error rest harn hmem hresult
          exact ⟨error, hload, hpass, hleft.trans hstore⟩
        | succ j =>
          have hfirst : ¬ FailsAt store lookups k := hearlier 0 (Nat.zero_lt_succ j)
          obtain ⟨config, hresult, hstore⟩ := resolveConfig_of_not_fails env arn hfirst
          rw [newArns_of_not_mem harn hmem config, List.length_cons] at hj
          obtain ⟨hpass, hleft⟩ := resolveRecords_of_ok rest harn hmem hresult
          have hindex : k + (j + 1) = k + 1 + j := by omega
          rw [hpass, hleft, hstore, hindex]
          rw [hindex] at hfails
          apply ih (Nat.lt_of_succ_lt_succ hj) _ hfails
          intro i hi
          have hnext := hearlier (i + 1) (Nat.succ_lt_succ hi)
          rwa [← Nat.add_assoc, Nat.add_right_comm] at hnext

end

section

variable (env : Environment) {store : ConfigStore} {inv : Invocation}

theorem resolvePass_of_firstFailure {k : ℕ} (h : FirstFailure store inv k) :
    ∃ error, (inv.lookups k).answers.parameters = .error error ∧
      (resolvePass env store inv).result = .error (.load error) ∧
      (resolvePass env store inv).store = storeBefore store inv.lookups k := by
  obtain ⟨hk, hearlier, hfails⟩ := h
  rw [← newArns_empty] at hk
  have hzero : ∀ j, 0 + j = j := Nat.zero_add
  have hpass := resolveRecords_of_failure env (k := 0) hk
    (by simpa only [hzero] using hearlier) (by rwa [hzero])
  rwa [hzero] at hpass

theorem resolvePass_of_no_failure (h : ¬ ∃ k, FirstFailure store inv k) :
    ∃ resolved, (resolvePass env store inv).result = .ok resolved := by
  change ∃ resolved, (resolveRecords env inv.lookups 0 inv.records
    (storeBefore store inv.lookups 0) ∅).result = .ok resolved
  apply resolveRecords_of_no_failure
  intro j hj hfails
  rw [newArns_empty] at hj
  rw [Nat.zero_add] at hfails
  -- a failing lookup has a first one at or before it
  classical
  have hexists : ∃ k, FailsAt store inv.lookups k := ⟨j, hfails⟩
  apply h
  refine ⟨Nat.find hexists, ?_, ?_, Nat.find_spec hexists⟩
  · exact (Nat.find_min' hexists hfails).trans_lt hj
  · intro i hi
    exact Nat.find_min hexists hi

theorem handle_error_iff :
    (∃ e, (handle env store inv).result = .error e) ↔ ∃ k, FirstFailure store inv k := by
  constructor
  · rintro ⟨e, he⟩
    by_contra hnone
    obtain ⟨resolved, hresolved⟩ := resolvePass_of_no_failure env hnone
    rw [(handle_of_resolve_ok hresolved).2] at he
    cases he
  · rintro ⟨k, hk⟩
    obtain ⟨error, -, hresult, -⟩ := resolvePass_of_firstFailure env hk
    exact ⟨_, (handle_of_resolve_error hresult).1⟩

theorem handle_of_error {e : HandleError} (h : (handle env store inv).result = .error e) :
    (handle env store inv).calls = [] ∧
      ∃ k, FirstFailure store inv k ∧
        (∃ error, (inv.lookups k).answers.parameters = .error error ∧ e = .config (.load error)) ∧
        LeftByLastLoad store inv.lookups k (handle env store inv).store := by
  obtain ⟨k, hk⟩ := (handle_error_iff env).mp ⟨e, h⟩
  obtain ⟨error, hload, hresult, hstore⟩ := resolvePass_of_firstFailure env hk
  obtain ⟨herror, hcalls⟩ := handle_of_resolve_error hresult
  refine ⟨hcalls, k, hk, ⟨error, hload, Except.error.inj (h.symm.trans herror)⟩, ?_⟩
  rw [handle_store, hstore]
  exact storeBefore_leftByLastLoad store inv.lookups k

theorem distinctArns_congr {records records' : List SqsMessage}
    (h : records'.map (·.eventSourceArn) = records.map (·.eventSourceArn)) :
    distinctArns records' = distinctArns records := by
  have hmapped := congrArg (List.filterMap id) h
  rw [List.filterMap_map, List.filterMap_map] at hmapped
  exact congrArg List.eraseDups hmapped

theorem FirstFailure.congr {inv' : Invocation} {k : ℕ} (h : FirstFailure store inv k)
    (harns : distinctArns inv'.records = distinctArns inv.records)
    (hlookups : inv'.lookups = inv.lookups) : FirstFailure store inv' k := by
  refine ⟨?_, ?_, ?_⟩
  · rw [harns]
    exact h.arn
  · rw [hlookups]
    exact h.earlier
  · rw [hlookups]
    exact h.fails

end

/-- A configuration failure is all or nothing. An invocation returns an error exactly when a lookup
of its distinct ARNs fails. It has then sent nothing, and the store is what the last successful load
left or unchanged. Without a failing lookup every ARN is resolved and the invocation returns a
response. The unreachable branch is never taken, and of the records only their ARNs decide whether
there is an error. -/
theorem config_failure_all_or_nothing (env : Environment) (store : ConfigStore)
    (inv : Invocation) :
    ((∃ e, (handle env store inv).result = .error e) ↔ ∃ k, FirstFailure store inv k) ∧
    (∀ e, (handle env store inv).result = .error e →
      (handle env store inv).calls = [] ∧
        ∃ k, FirstFailure store inv k ∧
          (∃ error, (inv.lookups k).answers.parameters = .error error ∧
            e = .config (.load error)) ∧
          LeftByLastLoad store inv.lookups k (handle env store inv).store) ∧
    ((¬ ∃ k, FirstFailure store inv k) →
      (∃ response, (handle env store inv).result = .ok response) ∧
        ∃ resolved, (resolvePass env store inv).result = .ok resolved ∧
          ∀ record ∈ inv.records, ∀ arn, record.eventSourceArn = some arn → arn ∈ resolved) ∧
    (handle env store inv).result ≠ .error .unreachable ∧
    ∀ env' inv', inv'.records.map (·.eventSourceArn) = inv.records.map (·.eventSourceArn) →
      inv'.lookups = inv.lookups →
        ((∃ e, (handle env' store inv').result = .error e) ↔
          ∃ e, (handle env store inv).result = .error e) := by
  refine ⟨handle_error_iff env, fun e => handle_of_error env, ?_, ?_, ?_⟩
  · intro hnone
    obtain ⟨resolved, hresolved⟩ := resolvePass_of_no_failure env hnone
    exact ⟨⟨_, (handle_of_resolve_ok hresolved).2⟩, resolved, hresolved,
      resolvePass_covers hresolved⟩
  · intro hunreachable
    obtain ⟨-, k, -, ⟨error, -, hload⟩, -⟩ := handle_of_error env hunreachable
    cases hload
  · intro env' inv' harns hlookups
    have hdistinct := distinctArns_congr harns
    rw [handle_error_iff, handle_error_iff]
    constructor
    · rintro ⟨k, hk⟩
      exact ⟨k, hk.congr hdistinct.symm hlookups.symm⟩
    · rintro ⟨k, hk⟩
      exact ⟨k, hk.congr hdistinct hlookups⟩

end ReplayBackoff
