import ReplayBackoff.Routing
import ReplayBackoff.Library.Mutex

/-!
# Invocations that share the configuration store

The process holds one store behind a lock. An invocation holds the lock during its first pass and
gives it back before it sends, so lookups, loads and calls of different invocations interleave. One
iteration of the first pass is one step, and what the clock and SSM say is only decided then. The
calls of an invocation are made at once and answered in any order.

Every run is equivalent to handling the events one after the other, in the order in which they got
the lock, each with the lookups that its first pass has used in the run.
-/

namespace ReplayBackoff

/-- An event with the random draws and the iteration order its invocation will meet. -/
structure Event where
  records : List SqsMessage
  rng : ℕ → Rng
  order : GroupOrder

def Event.invocation (event : Event) (lookups : ℕ → Lookup) (sqs : Sqs) : Invocation :=
  ⟨event.records, lookups, event.rng, event.order, sqs⟩

/-- Where the first pass is: the records it has not seen, or the error it returns. -/
inductive Pass where
  | loop (rest : List SqsMessage) (resolved : Resolved)
  | failed (error : ConfigError)

namespace Pass

def done : Pass → Bool
  | .loop rest _ => rest.isEmpty
  | .failed _ => true

/-- One iteration. The lookup is used when the record has a new ARN. -/
def next (env : Environment) (pass : Pass) (store : ConfigStore) (io : Lookup) :
    Pass × ConfigStore :=
  match pass with
  | .failed e => (.failed e, store)
  | .loop [] resolved => (.loop [] resolved, store)
  | .loop (record :: rest) resolved =>
    match record.eventSourceArn with
    | none => (.loop rest resolved, store)
    | some arn =>
      if arn ∈ resolved then (.loop rest resolved, store)
      else
        match resolveConfig env store io (some arn) with
        | ⟨.error e, store', _⟩ => (.failed e, store')
        | ⟨.ok config, store', _⟩ => (.loop rest (resolved.insert arn config), store')

/-- Whether the next iteration uses its lookup. -/
def asks : Pass → Bool
  | .loop (record :: _) resolved => record.eventSourceArn.any (fun arn => arn ∉ resolved)
  | _ => false

def result : Pass → Except ConfigError Resolved
  | .loop _ resolved => .ok resolved
  | .failed e => .error e

end Pass

def firstPass (env : Environment) (events : ℕ → Event) : Mutex.Code ℕ ConfigStore Pass Lookup where
  start i := .loop (events i).records ∅
  next := Pass.next env
  asks := Pass.asks
  done := Pass.done

/-- The lock with the store, and the answers to the calls of each invocation so far. -/
structure Process where
  lock : Mutex.State ℕ ConfigStore Pass Lookup
  answers : ℕ → ℕ → Option (Except SdkError SendMessageBatchOutput)

namespace Process

def initial (path : String) : Process := ⟨Mutex.initial (ConfigStore.new path), fun _ _ => none⟩

def sqs (p : Process) (i : ℕ) : Sqs := fun j _ => (p.answers i j).getD (.ok ⟨[]⟩)

def answer (p : Process) (i j : ℕ) (answer : Except SdkError SendMessageBatchOutput) : Process :=
  { p with answers := Function.update p.answers i (Function.update (p.answers i) j (some answer)) }

end Process

namespace Event

variable (event : Event)

def sends (resolved : Resolved) : List Entry :=
  event.records.zipIdx.filterMap (fun item => sendOf resolved (event.rng item.2) item.1)

def failures (resolved : Resolved) : List String :=
  event.records.zipIdx.filterMap (fun item => failureOf resolved (event.rng item.2) item.1)

def unreachable (resolved : Resolved) : Bool :=
  event.records.zipIdx.any
    (fun item => disposition resolved (event.rng item.2) item.1 == .unreachable)

def chunks (resolved : Resolved) : List ReplayChunk :=
  chunkEntries event.order (event.sends resolved)

end Event

inductive ProcessStep (env : Environment) (events : ℕ → Event) : Process → Process → Prop
  | lock {p : Process} (lock : Mutex.State ℕ ConfigStore Pass Lookup) :
      Mutex.Step (firstPass env events) p.lock lock → ProcessStep env events p { p with lock }
  | answer {p : Process} (i j : ℕ) (resolved : Resolved)
      (answer : Except SdkError SendMessageBatchOutput) :
      p.lock.status i = .left (.loop [] resolved) → j < ((events i).chunks resolved).length →
      p.answers i j = none → ProcessStep env events p (p.answer i j answer)

abbrev ProcessRun (env : Environment) (events : ℕ → Event) : Process → Process → Prop :=
  Relation.ReflTransGen (ProcessStep env events)

namespace Process

def calls (events : ℕ → Event) (p : Process) (i : ℕ) : List SendCall :=
  match p.lock.status i with
  | .left (.loop _ resolved) =>
    if (events i).unreachable resolved then []
    else ((events i).chunks resolved).mapIdx (callOf (p.sqs i))
  | _ => []

/-- What an invocation has returned. It waits for the answers to all its calls, and puts them
together in the order of the calls. -/
def returned (events : ℕ → Event) (p : Process) (i : ℕ) :
    Option (Except HandleError BatchResponse) :=
  match p.lock.status i with
  | .left (.failed e) => some (.error (.config e))
  | .left (.loop _ resolved) =>
    if (events i).unreachable resolved then some (.error .unreachable)
    else if ∀ j < ((events i).chunks resolved).length, (p.answers i j).isSome then
      some (.ok ⟨((events i).failures resolved ++
        (p.calls events i).flatMap (·.reported)).map BatchItemFailure.mk⟩)
    else none
  | _ => none

/-- The lookups of each invocation begin with those that it has used. -/
def Used (p : Process) (lookups : ℕ → ℕ → Lookup) : Prop :=
  ∀ i j io, (p.lock.answersOf i)[j]? = some io → lookups i j = io

/-- An event as an invocation of the sequential model, with the answers of the process. -/
def invocation (events : ℕ → Event) (p : Process) (lookups : ℕ → ℕ → Lookup) (i : ℕ) : Invocation :=
  (events i).invocation (lookups i) (p.sqs i)

end Process

section

variable {env : Environment} {events : ℕ → Event}

theorem Pass.next_of_ok {store : ConfigStore} {io : Lookup} {record : SqsMessage}
    {rest : List SqsMessage} {resolved : Resolved} {arn : String}
    {config : Option ResolvedQueueConfig} (harn : record.eventSourceArn = some arn)
    (hmem : arn ∉ resolved) (hok : (resolveConfig env store io (some arn)).result = .ok config) :
    Pass.next env (.loop (record :: rest) resolved) store io =
      (.loop rest (resolved.insert arn config), (resolveConfig env store io (some arn)).store) := by
  simp only [Pass.next, harn, if_neg hmem]
  generalize resolveConfig env store io (some arn) = call at hok
  obtain ⟨result, store', requests⟩ := call
  obtain rfl : result = .ok config := hok
  rfl

theorem Pass.next_of_error {store : ConfigStore} {io : Lookup} {record : SqsMessage}
    {rest : List SqsMessage} {resolved : Resolved} {arn : String} {e : ConfigError}
    (harn : record.eventSourceArn = some arn) (hmem : arn ∉ resolved)
    (herror : (resolveConfig env store io (some arn)).result = .error e) :
    Pass.next env (.loop (record :: rest) resolved) store io =
      (.failed e, (resolveConfig env store io (some arn)).store) := by
  simp only [Pass.next, harn, if_neg hmem]
  generalize resolveConfig env store io (some arn) = call at herror
  obtain ⟨result, store', requests⟩ := call
  obtain rfl : result = .error e := herror
  rfl

theorem Pass.next_of_skip {store : ConfigStore} {io : Lookup} {record : SqsMessage}
    {rest : List SqsMessage} {resolved : Resolved}
    (h : Pass.asks (.loop (record :: rest) resolved) = false) :
    Pass.next env (.loop (record :: rest) resolved) store io = (.loop rest resolved, store) := by
  unfold Pass.asks at h
  cases harn : record.eventSourceArn with
  | none => simp only [Pass.next, harn]
  | some arn =>
    have hmem : arn ∈ resolved := by simpa [harn] using h
    simp only [Pass.next, harn, if_pos hmem]

theorem resolveRecords_of_skip {lookups : ℕ → Lookup} {k : ℕ} {store : ConfigStore}
    {record : SqsMessage} {rest : List SqsMessage} {resolved : Resolved}
    (h : Pass.asks (.loop (record :: rest) resolved) = false) :
    resolveRecords env lookups k (record :: rest) store resolved =
      resolveRecords env lookups k rest store resolved := by
  unfold Pass.asks at h
  cases harn : record.eventSourceArn with
  | none => exact resolveRecords_of_none harn
  | some arn => exact resolveRecords_of_mem harn (by simpa [harn] using h)

/-- The iterations up to the end of the pass are the first pass of the code, with any lookups that
begin with those that were used. -/
theorem resolveRecords_of_exec {lookups : ℕ → Lookup} {k : ℕ} {start pass : Pass}
    {store store' : ConfigStore} {ios : List Lookup} {records : List SqsMessage}
    {resolved : Resolved} (hexec : Mutex.Exec (firstPass env events) start store ios pass store')
    (hstart : start = .loop records resolved) (hdone : pass.done = true)
    (hused : ∀ j io, ios[j]? = some io → lookups (k + j) = io) :
    (resolveRecords env lookups k records store resolved).result = pass.result ∧
      (resolveRecords env lookups k records store resolved).store = store' := by
  induction hexec generalizing k records resolved with
  | refl pass store =>
    subst hstart
    obtain rfl := List.isEmpty_iff.mp hdone
    exact ⟨rfl, rfl⟩
  | @step start pass store store' ios io hmore hrest ih =>
    subst hstart
    cases records with
    | nil => cases hmore
    | cons record rest =>
      cases hasks : Pass.asks (.loop (record :: rest) resolved) with
      | false =>
        have hasked : (firstPass env events).asked (.loop (record :: rest) resolved) io = [] :=
          if_neg (by rw [show (firstPass env events).asks = Pass.asks from rfl, hasks]; simp)
        rw [hasked, List.nil_append] at hused
        have hnext : (firstPass env events).next (.loop (record :: rest) resolved) store io =
            (.loop rest resolved, store) := Pass.next_of_skip hasks
        rw [hnext] at ih
        rw [resolveRecords_of_skip hasks]
        exact ih rfl hdone hused
      | true =>
        have hasked : (firstPass env events).asked (.loop (record :: rest) resolved) io = [io] :=
          if_pos hasks
        rw [hasked, List.singleton_append] at hused
        have hio : lookups k = io := hused 0 io rfl
        have hlater : ∀ j io, ios[j]? = some io → lookups (k + 1 + j) = io := by
          intro j io' hj
          rw [Nat.add_assoc, Nat.add_comm 1 j]
          exact hused (j + 1) io' hj
        obtain ⟨arn, harn, hmem⟩ : ∃ arn, record.eventSourceArn = some arn ∧ arn ∉ resolved := by
          simpa [Pass.asks, Option.any_eq_true] using hasks
        cases hlookup : (resolveConfig env store io (some arn)).result with
        | error e =>
          have hnext : (firstPass env events).next (.loop (record :: rest) resolved) store io =
              (.failed e, (resolveConfig env store io (some arn)).store) :=
            Pass.next_of_error harn hmem hlookup
          rw [hnext] at hrest
          obtain ⟨rfl, rfl⟩ := hrest.eq_of_done rfl
          rw [← hio] at hlookup ⊢
          exact resolveRecords_of_error rest harn hmem hlookup
        | ok config =>
          have hnext : (firstPass env events).next (.loop (record :: rest) resolved) store io =
              (.loop rest (resolved.insert arn config),
                (resolveConfig env store io (some arn)).store) :=
            Pass.next_of_ok harn hmem hlookup
          rw [hnext] at ih
          obtain ⟨hresult, hstore⟩ := ih rfl hdone hlater
          rw [← hio] at hlookup hresult hstore
          have hpass := resolveRecords_of_ok rest harn hmem hlookup
          exact ⟨hpass.1.trans hresult, hpass.2.trans hstore⟩

end

section

variable {env : Environment} {path : String} {events : ℕ → Event} {p : Process}

theorem storeFor_concat (history : List Invocation) (inv : Invocation) :
    storeFor env path (history ++ [inv]) = (handle env (storeFor env path history) inv).store := by
  simp only [storeFor, List.foldl_append, List.foldl_cons, List.foldl_nil]

/-- The event was handled at its place in an order, and its first pass gave this. -/
def HandledIn (env : Environment) (path : String) (events : ℕ → Event) (p : Process)
    (lookups : ℕ → ℕ → Lookup) (order : List ℕ) (i : ℕ) (pass : Pass) : Prop :=
  ∃ before after, order = before ++ i :: after ∧
    (resolvePass env (storeFor env path (before.map (p.invocation events lookups)))
      (p.invocation events lookups i)).result = pass.result

/-- A serial run of the first passes is a history of the sequential model. -/
theorem history_of_serial {lookups : ℕ → ℕ → Lookup} {turns : List (Mutex.Turn ℕ Pass Lookup)}
    {store : ConfigStore}
    (h : Mutex.Serial (firstPass env events) (ConfigStore.new path) turns store)
    (hused : ∀ turn ∈ turns, ∀ j io, turn.answers[j]? = some io → lookups turn.client j = io) :
    storeFor env path ((turns.map (·.client)).map (p.invocation events lookups)) = store ∧
      ∀ turn ∈ turns, HandledIn env path events p lookups (turns.map (·.client)) turn.client
        turn.final := by
  induction h with
  | nil => exact ⟨rfl, fun _ hmem => by cases hmem⟩
  | @concat turns store store' i pass ios _ hexec hdone ih =>
    obtain ⟨hstore, hpasses⟩ := ih (fun turn hmem => hused turn (List.mem_append_left _ hmem))
    have hown := hused ⟨i, ios, pass⟩ (List.mem_append_right _ (List.mem_singleton.mpr rfl))
    have hown' : ∀ j io, ios[j]? = some io → lookups i (0 + j) = io := by
      intro j io hj
      rw [Nat.zero_add]
      exact hown j io hj
    obtain ⟨hresult, hleft⟩ := resolveRecords_of_exec hexec rfl hdone hown'
    rw [List.map_append, List.map_append]
    refine ⟨?_, ?_⟩
    · rw [List.map_singleton, List.map_singleton, storeFor_concat, handle_store, hstore]
      exact hleft
    · intro turn hmem
      rcases List.mem_append.mp hmem with hmem | hmem
      · obtain ⟨before, after, heq, hpass⟩ := hpasses turn hmem
        exact ⟨before, after ++ [i], by simp [heq], hpass⟩
      · obtain rfl := List.mem_singleton.mp hmem
        refine ⟨turns.map (·.client), [], rfl, ?_⟩
        rw [hstore]
        exact hresult

theorem ProcessRun.lock_run (hrun : ProcessRun env events (Process.initial path) p) :
    Relation.ReflTransGen (Mutex.Step (firstPass env events))
      (Mutex.initial (ConfigStore.new path)) p.lock := by
  induction hrun with
  | refl => exact .refl
  | tail _ hstep ih =>
    cases hstep with
    | lock lock hlock => exact ih.tail hlock
    | answer i j resolved answer _ _ _ => exact ih

theorem ProcessRun.of_lock {lock : Mutex.State ℕ ConfigStore Pass Lookup}
    (hrun : Relation.ReflTransGen (Mutex.Step (firstPass env events)) p.lock lock) :
    ProcessRun env events p { p with lock } := by
  induction hrun with
  | refl => exact .refl
  | tail _ hstep ih => exact ih.tail (.lock _ hstep)

/-- What an invocation of the process returned is what it returns in the order. -/
theorem handle_of_returned {lookups : ℕ → ℕ → Lookup} {order : List ℕ}
    (hpass : ∀ i pass, p.lock.status i = .left pass →
      HandledIn env path events p lookups order i pass)
    {i : ℕ} {result : Except HandleError BatchResponse} (h : p.returned events i = some result) :
    ∃ before after, order = before ++ i :: after ∧
      (handle env (storeFor env path (before.map (p.invocation events lookups)))
        (p.invocation events lookups i)).result = result ∧
      (handle env (storeFor env path (before.map (p.invocation events lookups)))
        (p.invocation events lookups i)).calls = p.calls events i := by
  unfold Process.returned at h
  unfold Process.calls at h ⊢
  cases hstatus : p.lock.status i with
  | waiting => simp [hstatus] at h
  | inside pass => simp [hstatus] at h
  | left pass =>
    obtain ⟨before, after, hsplit, hresult⟩ := hpass i pass hstatus
    refine ⟨before, after, hsplit, ?_⟩
    cases pass with
    | failed e =>
      simp only [hstatus, Option.some.injEq] at h
      exact ⟨(handle_of_resolve_error hresult).1.trans h, (handle_of_resolve_error hresult).2⟩
    | loop rest resolved =>
      have hreach : (events i).unreachable resolved = false :=
        passUnreachable_eq_false (resolvePass_covers hresult)
      simp only [hstatus, hreach, Bool.false_eq_true, if_false] at h ⊢
      split at h
      · obtain ⟨hcalls, hok⟩ := handle_of_resolve_ok hresult
        exact ⟨hok.trans (Option.some.inj h), hcalls⟩
      · cases h

end

/-- At most one invocation is in its first pass, and only then it has the lock. The lookups of the
process do not interleave: they come invocation by invocation, in the order in which these got the
lock. Handling the events that gave it back one after the other in this order, each with the lookups
it has used, gives the store of the process, and gives each of them the same response and calls. -/
structure Serializable (env : Environment) (path : String) (events : ℕ → Event) (p : Process) :
    Prop where
  distinct : p.lock.entered.Nodup
  holder : ∀ i, p.lock.holder = some i ↔ ∃ pass, p.lock.status i = .inside pass
  uninterrupted :
    p.lock.log = p.lock.entered.flatMap (fun i => (p.lock.answersOf i).map (i, ·))
  store : ∀ lookups, p.Used lookups → p.lock.holder = none →
    p.lock.finished = p.lock.entered ∧
      storeFor env path (p.lock.finished.map (p.invocation events lookups)) = p.lock.shared
  responses : ∀ lookups, p.Used lookups → ∀ i result, p.returned events i = some result →
    ∃ before after, p.lock.finished = before ++ i :: after ∧
      (handle env (storeFor env path (before.map (p.invocation events lookups)))
        (p.invocation events lookups i)).result = result ∧
      (handle env (storeFor env path (before.map (p.invocation events lookups)))
        (p.invocation events lookups i)).calls = p.calls events i

/-- However the steps of concurrent invocations interleave, they are serializable. -/
theorem concurrent_invocations_serializable (env : Environment) (path : String)
    (events : ℕ → Event) (p : Process) (hrun : ProcessRun env events (Process.initial path) p) :
    Serializable env path events p := by
  obtain ⟨turns, hinv⟩ := Mutex.exists_turns hrun.lock_run
  obtain ⟨store, hserial, hfree⟩ := hinv.exists_serial
  have hhistory : ∀ lookups, p.Used lookups →
      storeFor env path (p.lock.finished.map (p.invocation events lookups)) = store ∧
        ∀ turn ∈ turns,
          HandledIn env path events p lookups p.lock.finished turn.client turn.final := by
    intro lookups hused
    rw [hinv.finished_eq]
    apply history_of_serial hserial
    intro turn hmem j io hj
    rw [← hinv.answersOf_eq hmem] at hj
    exact hused turn.client j io hj
  refine ⟨hinv.nodup, ?_, hinv.log_eq, ?_, ?_⟩
  · intro i
    constructor
    · intro hi
      obtain ⟨-, -, pass, ios, store, hinside, -⟩ := hinv.held i hi
      exact ⟨pass, hinside⟩
    · rintro ⟨pass, hpass⟩
      exact hinv.holder_of_inside hpass
  · intro lookups hused hnone
    obtain ⟨hall, hshared⟩ := hfree hnone
    exact ⟨hall, (hhistory lookups hused).1.trans hshared.symm⟩
  · intro lookups hused i result h
    refine handle_of_returned ?_ h
    intro j pass hj
    obtain ⟨ios, hmem⟩ := hinv.left j pass hj
    exact (hhistory lookups hused).2 _ hmem

def sampleEvents (_ : ℕ) : Event := ⟨[sampleRecord (some "m")], default, default⟩

def sampleCode : Mutex.Code ℕ ConfigStore Pass Lookup := firstPass sampleEnvironment sampleEvents

def storedSettings : Resolved :=
  (∅ : Resolved).insert "arn:aws:sqs:ReplayQueue" (some (storedConfig.resolve sampleEnvironment))

def loadedStore : ConfigStore :=
  { ConfigStore.new "/sqs-replay/queues/" with cache := some (0, loadMap [storedParameter]) }

def loadingLookup : Lookup := ⟨0, .last (some [storedParameter]), 0⟩

def cachedLookup : Lookup := ⟨ConfigStore.secondsToNanos 1, .error ⟨"unavailable"⟩, 0⟩

theorem resolveConfig_loading :
    (resolveConfig sampleEnvironment (ConfigStore.new "/sqs-replay/queues/") loadingLookup
      (some "arn:aws:sqs:ReplayQueue")).result =
        .ok (some (storedConfig.resolve sampleEnvironment)) ∧
    (resolveConfig sampleEnvironment (ConfigStore.new "/sqs-replay/queues/") loadingLookup
      (some "arn:aws:sqs:ReplayQueue")).store = loadedStore := by
  obtain ⟨hstore, hresult⟩ := ConfigStore.configFor_refines
    (ConfigStore.new_represents "/sqs-replay/queues/") loadingLookup "arn:aws:sqs:ReplayQueue"
  rw [resolveConfig_eq]
  refine ⟨?_, hstore⟩
  simp only [hresult]
  exact congrArg (fun config => Except.ok (config.map (·.resolve sampleEnvironment)))
    lastConfig_stored

theorem resolveConfig_cached :
    (resolveConfig sampleEnvironment loadedStore cachedLookup
      (some "arn:aws:sqs:ReplayQueue")).result =
        .ok (some (storedConfig.resolve sampleEnvironment)) := by
  have hcached : loadedStore.cached "arn:aws:sqs:ReplayQueue" = some storedConfig := by
    rw [ConfigStore.cached, loadedStore, Option.bind_some, lookup_loadMap, lastConfig_stored]
  have hfresh : loadedStore.isFresh cachedLookup.checkedAt = true :=
    ConfigStore.isFresh_iff.mpr ⟨0, _, rfl, by
      simp [loadedStore, cachedLookup, ConfigStore.new, ConfigStore.secondsToNanos]⟩
  rw [resolveConfig_eq, ConfigStore.configFor_of_fresh hfresh, hcached]
  rfl

/-- An invocation gets the lock, looks up its ARN, and gives the lock back. -/
def sampleTurn (p : Process) (i : ℕ) (io : Lookup) : Process :=
  { p with
    lock := ((p.lock.enter sampleCode i).advance sampleCode i (sampleCode.start i) io).leave i
      (.loop [] storedSettings) }

section

variable {p : Process} {i : ℕ} {io : Lookup}
  (hok : (resolveConfig sampleEnvironment p.lock.shared io (some "arn:aws:sqs:ReplayQueue")).result =
    .ok (some (storedConfig.resolve sampleEnvironment)))

include hok

theorem sampleCode_next : sampleCode.next (sampleCode.start i) p.lock.shared io =
    (.loop [] storedSettings, (resolveConfig sampleEnvironment p.lock.shared io
      (some "arn:aws:sqs:ReplayQueue")).store) := by
  have harn : (sampleRecord (some "m")).eventSourceArn = some "arn:aws:sqs:ReplayQueue" := rfl
  exact Pass.next_of_ok harn (AList.notMem_empty _) hok

theorem sampleTurn_run (hfree : p.lock.holder = none) (hwaiting : p.lock.status i = .waiting) :
    ProcessRun sampleEnvironment sampleEvents p (sampleTurn p i io) := by
  have hinside : ((p.lock.enter sampleCode i).advance sampleCode i (sampleCode.start i) io).status i =
      .inside (.loop [] storedSettings) :=
    (Function.update_self _ _ _).trans
      (congrArg (fun out => Mutex.Status.inside out.1) (sampleCode_next hok))
  exact .of_lock (((Relation.ReflTransGen.single (.enter i hfree hwaiting)).tail
    (.advance i _ io (Function.update_self _ _ _) rfl)).tail (.leave i _ hinside rfl))

theorem sampleTurn_shared : (sampleTurn p i io).lock.shared =
    (resolveConfig sampleEnvironment p.lock.shared io (some "arn:aws:sqs:ReplayQueue")).store :=
  congrArg Prod.snd (sampleCode_next (i := i) hok)

end

/-- The second invocation finds the configuration that the first one has loaded. Its call is
answered first. -/
def sampleProcess : Process :=
  ((sampleTurn (sampleTurn (.initial "/sqs-replay/queues/") 0 loadingLookup) 1
    cachedLookup).answer 1 0 (.ok ⟨[]⟩)).answer 0 0 (.ok ⟨[]⟩)

theorem length_sampleChunks (i : ℕ) : ((sampleEvents i).chunks storedSettings).length = 1 := rfl

theorem sampleProcess_run : ProcessRun sampleEnvironment sampleEvents
    (.initial "/sqs-replay/queues/") sampleProcess := by
  obtain ⟨hload, hstore⟩ := resolveConfig_loading
  have hfirst : ProcessRun sampleEnvironment sampleEvents (.initial "/sqs-replay/queues/")
      (sampleTurn (.initial "/sqs-replay/queues/") 0 loadingLookup) :=
    sampleTurn_run hload rfl rfl
  have hshared : (sampleTurn (.initial "/sqs-replay/queues/") 0 loadingLookup).lock.shared =
      loadedStore := (sampleTurn_shared hload).trans hstore
  have hcached := resolveConfig_cached
  rw [← hshared] at hcached
  have hsecond := hfirst.trans (sampleTurn_run (i := 1) hcached rfl rfl)
  have hanswer := hsecond.tail (.answer 1 0 storedSettings (.ok ⟨[]⟩) rfl
    (by rw [length_sampleChunks]; exact Nat.zero_lt_one) rfl)
  exact hanswer.tail (.answer 0 0 storedSettings (.ok ⟨[]⟩) rfl
    (by rw [length_sampleChunks]; exact Nat.zero_lt_one) rfl)

theorem sampleEvents_returned {p : Process} {i : ℕ}
    (hstatus : p.lock.status i = .left (.loop [] storedSettings))
    (hanswer : p.answers i 0 = some (.ok ⟨[]⟩)) :
    p.returned sampleEvents i = some (.ok ⟨[]⟩) := by
  have hreach : (sampleEvents i).unreachable storedSettings = false := rfl
  have hfailures : (sampleEvents i).failures storedSettings = [] := rfl
  have hanswered : ∀ j < ((sampleEvents i).chunks storedSettings).length,
      (p.answers i j).isSome = true := by
    intro j hj
    obtain rfl : j = 0 := by rw [length_sampleChunks] at hj; omega
    rw [hanswer, Option.isSome_some]
  have hreported : (p.calls sampleEvents i).flatMap (·.reported) = [] := by
    obtain ⟨chunk, hchunk⟩ := List.length_eq_one_iff.mp (length_sampleChunks i)
    simp [Process.calls, hstatus, hreach, hchunk, callOf, Process.sqs, hanswer, SendCall.reported]
  simp only [Process.returned, hstatus, hreach, Bool.false_eq_true, if_false, if_pos hanswered,
    hfailures, hreported]
  rfl

theorem concurrent_invocations_serializable_sample :
    Serializable sampleEnvironment "/sqs-replay/queues/" sampleEvents sampleProcess ∧
      sampleProcess.returned sampleEvents 0 = some (.ok ⟨[]⟩) ∧
      sampleProcess.returned sampleEvents 1 = some (.ok ⟨[]⟩) :=
  ⟨concurrent_invocations_serializable sampleEnvironment "/sqs-replay/queues/" sampleEvents
    sampleProcess sampleProcess_run, sampleEvents_returned rfl rfl, sampleEvents_returned rfl rfl⟩

end ReplayBackoff
