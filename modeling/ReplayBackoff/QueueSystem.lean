import ReplayBackoff.Hops
import ReplayBackoff.WireFormat

/-!
# The queues around the Lambda

Copies of messages move between the source queue, the replay queue and the dead letter queue. Any
copies in the replay queue may be delivered to an invocation, also while another one is at work on
them. An invocation makes its calls one at a time in any order; of each call SQS accepts a part, and
every accepted entry becomes a new copy in the source queue. When all calls are made the invocation
ends, and delivered copies are deleted from the replay queue.

Which of them are deleted is a parameter, since the report on the wire is not the response: by the
in-memory rule those that an `Ok` response does not name, by the rule of the report as it is sent
those that do not return to the queue. Neither rule deletes a copy that the response names.

What the world decides about an invocation is fixed when it starts: its store and lookups, the
answers of SQS, and what SQS accepts of each call. An answered call lists as failed the entries it
did not accept, a call that errors may have accepted any of them. The destination of every
configuration is the source queue.

The number of a copy is its position in the list of all copies. Copies that were deleted stay in
the list.
-/

namespace ReplayBackoff

inductive Place where
  | source
  | replay
  | dead
  | consumed
  | replayed
  deriving DecidableEq, Repr

def Place.queued : Place → Bool
  | .source => true
  | .replay => true
  | .dead => true
  | .consumed => false
  | .replayed => false

/-- The copy is in a queue, or the consumer deleted it. -/
def Place.held : Place → Bool
  | .replayed => false
  | _ => true

structure Copy where
  ancestors : List ℕ
  body : String
  messageAttributes : HashMap String SqsMessageAttribute

/-- An invocation at work, with what SQS accepts of its calls and the calls it has made. -/
structure Running where
  batch : List ℕ
  env : Environment
  store : ConfigStore
  inv : Invocation
  accepted : ℕ → String → Bool
  sent : List ℕ

namespace Running

def handled (r : Running) : Handled := handle r.env r.store r.inv

def deliveries (r : Running) : List (ℕ × SqsMessage) := r.batch.zip r.inv.records

/-- The delivered copy with a message id. -/
def parent (r : Running) (id : String) : Option ℕ :=
  (r.deliveries.find? (fun delivery => delivery.2.messageId = some id)).map (·.1)

def acceptedEntries (r : Running) (i : ℕ) (call : SendCall) : List SendMessageBatchRequestEntry :=
  call.input.entries.filter (fun entry => r.accepted i entry.id)

/-- The copies that an `Ok` response does not name. -/
def acknowledged (r : Running) : List ℕ :=
  match r.handled.result with
  | .ok response =>
    (r.deliveries.filter (fun delivery =>
      !delivery.2.messageId.any (fun id => response.identifiers.contains id))).map (·.1)
  | .error _ => []

/-- The copies that do not return to the queue when the encoded response is read. -/
def released (r : Running) : List ℕ :=
  match r.handled.result with
  | .ok response =>
    (r.deliveries.filter (fun delivery =>
      delivery.2 ∉ redelivered (decodeReport response.encode) r.inv.records)).map (·.1)
  | .error _ => []

/-- An answered call lists exactly the entries it did not accept. -/
def Consistent (r : Running) : Prop :=
  ∀ i call output, r.handled.calls[i]? = some call → call.answer = .ok output →
    ∀ id, id ∈ output.failed.map (·.id) ↔ id ∈ call.entryIds ∧ r.accepted i id = false

/-- The configuration of the replay queue, if there is one, has the attempt limit. -/
def Limited (arn : String) (limit : UInt32) (r : Running) : Prop :=
  ∀ resolved config, (resolvePass r.env r.store r.inv).result = .ok resolved →
    resolved.lookup arn = some (some config) → config.maxAttempts = limit

/-- Only an empty report is read as it was meant. -/
theorem released_of_ok {r : Running} {response : BatchResponse}
    (h : r.handled.result = .ok response) :
    r.released = if response.batchItemFailures = [] then r.deliveries.map (·.1) else [] := by
  simp only [released, h, decodeReport_encode]
  split_ifs with hnil
  · simp [redelivered]
  · rw [List.map_eq_nil_iff, List.filter_eq_nil_iff]
    intro delivery hdelivery
    rw [decide_eq_true_eq, not_not]
    exact (List.of_mem_zip hdelivery).2

theorem released_subset (r : Running) : ∀ u ∈ r.released, u ∈ r.acknowledged := by
  intro u hu
  cases hresult : r.handled.result with
  | error e =>
    rw [released, hresult] at hu
    cases hu
  | ok response =>
    rw [released_of_ok hresult] at hu
    split_ifs at hu with hnil
    · simpa [acknowledged, hresult, BatchResponse.identifiers, hnil] using hu
    · cases hu

end Running

/-- The delivered copies that are deleted when an invocation ends. -/
structure DeletionRule where
  deleted : Running → List ℕ
  sparing : ∀ r, ∀ u ∈ deleted r, u ∈ r.acknowledged

namespace DeletionRule

/-- The response is read as the Lambda holds it in memory. -/
def inMemory : DeletionRule := ⟨Running.acknowledged, fun _ _ hu => hu⟩

/-- The event source mapping reads the report that the Lambda sends. -/
def asSent : DeletionRule := ⟨Running.released, Running.released_subset⟩

theorem asSent_deleted (r : Running) : asSent.deleted r = r.released := rfl

end DeletionRule

structure State where
  copies : List Copy
  place : ℕ → Place
  messageId : ℕ → String
  running : ℕ → Option Running

namespace State

def ancestors (s : State) (u : ℕ) : List ℕ := ((s.copies[u]?).map (·.ancestors)).getD []

def InQueue (s : State) (u : ℕ) : Prop := u < s.copies.length ∧ (s.place u).queued = true

/-- Copies in a queue have distinct non-empty ids. -/
structure QueueIds (s : State) : Prop where
  nonempty : ∀ u, s.InQueue u → s.messageId u ≠ ""
  distinct : ∀ u v, s.InQueue u → s.InQueue v → s.messageId u = s.messageId v → u = v

/-- The record has the content of the copy. -/
def Carries (s : State) (arn : String) (u : ℕ) (record : SqsMessage) : Prop :=
  ∃ copy, s.copies[u]? = some copy ∧ record.body = some copy.body ∧
    record.messageAttributes = copy.messageAttributes ∧ record.eventSourceArn = some arn

/-- What may start as an invocation: copies of the replay queue, delivered under their ids. -/
structure Delivery (s : State) (arn : String) (limit : UInt32) (r : Running) : Prop where
  nodup : r.batch.Nodup
  inReplay : ∀ u ∈ r.batch, u < s.copies.length ∧ s.place u = .replay
  records : List.Forall₂ (fun u record => s.Carries arn u record ∧
    record.messageId = some (s.messageId u)) r.batch r.inv.records
  consistent : r.Consistent
  limited : r.Limited arn limit
  unsent : r.sent = []

def move (s : State) (u : ℕ) (place : Place) (ids : ℕ → String) : State :=
  { s with place := Function.update s.place u place, messageId := ids }

def start (s : State) (k : ℕ) (r : Running) : State :=
  { s with running := Function.update s.running k (some r) }

/-- The copy an accepted entry becomes. -/
def child (s : State) (r : Running) (entry : SendMessageBatchRequestEntry) : Copy where
  ancestors :=
    match r.parent entry.id with
    | some u => u :: s.ancestors u
    | none => []
  body := entry.messageBody
  messageAttributes := (entry.messageAttributes.getD ∅).mapValues deliverAttribute

def send (s : State) (k : ℕ) (r : Running) (i : ℕ) (call : SendCall) (ids : ℕ → String) :
    State where
  copies := s.copies ++ (r.acceptedEntries i call).map (s.child r)
  place := fun u => if u < s.copies.length then s.place u else .source
  messageId := ids
  running := Function.update s.running k (some { r with sent := i :: r.sent })

def finish (s : State) (k : ℕ) (deleted : List ℕ) : State :=
  { s with
    place := fun u => if u ∈ deleted ∧ s.place u = .replay then .replayed else s.place u
    running := Function.update s.running k none }

end State

/-- One step of the system. `admits` restricts the invocations a run may start. -/
inductive Step (rule : DeletionRule) (admits : Invocation → Prop) (arn : String) (limit : UInt32) :
    State → State → Prop
  | consume {s : State} (u : ℕ) : u < s.copies.length → s.place u = .source →
      Step rule admits arn limit s (s.move u .consumed s.messageId)
  | redrive {s : State} (u : ℕ) (ids : ℕ → String) : u < s.copies.length → s.place u = .source →
      (∀ v, v ≠ u → ids v = s.messageId v) → (s.move u .replay ids).QueueIds →
      Step rule admits arn limit s (s.move u .replay ids)
  | bury {s : State} (u : ℕ) (ids : ℕ → String) : u < s.copies.length → s.place u = .replay →
      (∀ v, v ≠ u → ids v = s.messageId v) → (s.move u .dead ids).QueueIds →
      Step rule admits arn limit s (s.move u .dead ids)
  | deliver {s : State} (k : ℕ) (r : Running) : s.running k = none → s.Delivery arn limit r →
      admits r.inv → Step rule admits arn limit s (s.start k r)
  | send {s : State} (k : ℕ) (r : Running) (i : ℕ) (call : SendCall) (ids : ℕ → String) :
      s.running k = some r → i ∉ r.sent → r.handled.calls[i]? = some call →
      (∀ v < s.copies.length, ids v = s.messageId v) → (s.send k r i call ids).QueueIds →
      Step rule admits arn limit s (s.send k r i call ids)
  | finish {s : State} (k : ℕ) (r : Running) : s.running k = some r →
      (∀ i < r.handled.calls.length, i ∈ r.sent) →
      Step rule admits arn limit s (s.finish k (rule.deleted r))

abbrev Run (rule : DeletionRule) (admits : Invocation → Prop) (arn : String) (limit : UInt32) :
    State → State → Prop :=
  Relation.ReflTransGen (Step rule admits arn limit)

/-- Original messages in the queues, and no invocation at work. -/
structure Initial (s : State) : Prop where
  original : ∀ copy ∈ s.copies, copy.ancestors = []
  queued : ∀ u < s.copies.length, (s.place u).queued = true
  idle : ∀ k, s.running k = none
  distinct : s.QueueIds

namespace State

theorem ancestors_eq {s : State} {u : ℕ} {copy : Copy} (h : s.copies[u]? = some copy) :
    s.ancestors u = copy.ancestors := by
  rw [ancestors, h]
  rfl

theorem getElem?_of_prefix {s s' : State} (h : s.copies <+: s'.copies) {u : ℕ}
    (hu : u < s.copies.length) : s'.copies[u]? = s.copies[u]? := by
  obtain ⟨new, hnew⟩ := h
  rw [← hnew, List.getElem?_append_left hu]

theorem ancestors_of_prefix {s s' : State} (h : s.copies <+: s'.copies) {u : ℕ}
    (hu : u < s.copies.length) : s'.ancestors u = s.ancestors u := by
  rw [ancestors, ancestors, getElem?_of_prefix h hu]

end State

end ReplayBackoff
