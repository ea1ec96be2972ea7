import ReplayBackoff.QueueInvariant
import ReplayBackoff.ReplayChain

/-!
# No message is lost, and no lineage is replayed beyond the limit

The first part holds of every run: whatever is delivered twice, accepted in part, answered late or
not at all, every copy survives in a copy with its content. The second part needs the count of a
delivered record to be below the largest 32-bit number, where the increment wraps to zero and the
attempts start again. A copy with `k` ancestors carries a count of at least `k` until then.

A producer may write any count. Below the largest attempt limit a run in which no original carries
the largest number never gets there.
-/

namespace ReplayBackoff

open Lineage

/-- The count that a record with the attributes of the copy has. -/
def Copy.Counts (copy : Copy) (n : UInt32) : Prop :=
  ∀ record : SqsMessage, record.messageAttributes = copy.messageAttributes →
    replayNum record = .ok n

def CountsBelowWrap (inv : Invocation) : Prop :=
  ∀ record ∈ inv.records, replayNum record ≠ .ok 4294967295

def Unrestricted (_ : Invocation) : Prop := True

/-- A copy descending from the copy, with its content, is in a queue or was consumed. -/
def Survives (s : State) (u : ℕ) : Prop :=
  ∃ v a b, Descends s.ancestors u v ∧ s.copies[u]? = some a ∧ s.copies[v]? = some b ∧
    SameContent a b ∧ (s.place v).held = true

structure NothingLost (s₀ s : State) : Prop where
  kept : s₀.copies <+: s.copies
  survives : ∀ u < s.copies.length, Survives s u

/-- No copy is more than `limit` replays away from its original. -/
def ReplaysWithin (limit : UInt32) (s : State) : Prop :=
  ∀ copy ∈ s.copies, copy.ancestors.length ≤ limit.toNat

theorem SameContent.refl (a : Copy) : SameContent a a := ⟨rfl, fun _ _ => rfl⟩

theorem replayNum_congr {a b : SqsMessage} (h : a.messageAttributes = b.messageAttributes) :
    replayNum a = replayNum b := by
  rw [replayNum, replayNum, h]

theorem Copy.counts_of_replayNum {copy : Copy} {record : SqsMessage} {n : UInt32}
    (hattrs : record.messageAttributes = copy.messageAttributes) (h : replayNum record = .ok n) :
    copy.Counts n := by
  intro record' hattrs'
  rw [replayNum_congr (hattrs'.trans hattrs.symm), h]

/-- The record a copy is delivered as, without an id and a queue. -/
def Copy.record (copy : Copy) : SqsMessage :=
  ⟨none, some copy.body, ∅, copy.messageAttributes, none⟩

theorem Copy.counts_unique {copy : Copy} {n m : UInt32} (hn : copy.Counts n) (hm : copy.Counts m) :
    n = m :=
  Except.ok.inj ((hn copy.record rfl).symm.trans (hm copy.record rfl))

variable {rule : DeletionRule} {admits : Invocation → Prop} {arn : String} {limit : UInt32}
  {s₀ s s' : State}

theorem Step.grows (hstep : Step rule admits arn limit s s') : s.copies <+: s'.copies := by
  cases hstep with
  | send k r i call ids _ _ _ _ _ => exact send_grows
  | _ => exact List.prefix_refl _

theorem Run.grows (hrun : Run rule admits arn limit s₀ s) : s₀.copies <+: s.copies := by
  induction hrun with
  | refl => exact List.prefix_refl _
  | tail _ hstep ih => exact ih.trans hstep.grows

theorem QueueInv.survives (h : QueueInv admits arn limit s) {u : ℕ} (hu : u < s.copies.length) :
    Survives s u := by
  obtain ⟨v, hv, hdesc, hheld⟩ := h.covered u hu
  have ha := List.getElem?_eq_getElem hu
  have hb := List.getElem?_eq_getElem hv
  refine ⟨v, s.copies[u], s.copies[v], hdesc, ha, hb, ?_, hheld⟩
  rcases hdesc with rfl | hdesc
  · exact SameContent.refl _
  · exact h.content u v _ _ hdesc ha hb

theorem nothingLost_of_run (h₀ : Initial s₀) (hrun : Run rule admits arn limit s₀ s) :
    NothingLost s₀ s where
  kept := hrun.grows
  survives _ hu := ((QueueInv.of_initial h₀).run hrun).survives hu

theorem EntryOrigin.counts {r : Running} {entry : SendMessageBatchRequestEntry}
    {delivery : ℕ × SqsMessage} {copy : Copy} {n : UInt32}
    (h : EntryOrigin s r limit entry delivery copy n) : (s.child r entry).Counts (n + 1) := by
  intro record hattrs
  have hlookup : record.messageAttributes.lookup replayNumPropertyName =
      some (deliverAttribute (countAttribute (n + 1))) := by
    rw [hattrs, State.child, h.messageAttributes, Option.getD_some, HashMap.lookup_mapValues,
      lookup_count]
    rfl
  exact replayNum_of_string hlookup rfl (DecimalText.parseU32_formatU32 (n + 1))

theorem RunningInv.source_counts {r : Running} (h : RunningInv admits arn limit s r)
    {entry : SendMessageBatchRequestEntry} {delivery : ℕ × SqsMessage} {copy : Copy} {n : UInt32}
    (horigin : EntryOrigin s r limit entry delivery copy n) : copy.Counts n := by
  obtain ⟨copy', hcopy', -, hattrs, -⟩ := List.forall₂_zip h.records horigin.delivered
  obtain rfl : copy' = copy := Option.some.inj (hcopy'.symm.trans horigin.source)
  exact Copy.counts_of_replayNum hattrs horigin.count

/-- An original, or a copy whose count is at least the number of its replays. -/
def Copy.Tallied (limit : UInt32) (copy : Copy) : Prop :=
  copy.ancestors = [] ∨ ∃ n, copy.Counts n ∧ copy.ancestors.length ≤ n.toNat ∧ n ≤ limit

theorem Copy.Tallied.length_le {copy : Copy} (h : copy.Tallied limit) :
    copy.ancestors.length ≤ limit.toNat := by
  rcases h with hnil | ⟨n, -, hlength, hn⟩
  · rw [hnil]
    exact Nat.zero_le _
  · exact hlength.trans (UInt32.le_iff_toNat_le.mp hn)

theorem Copy.Tallied.length_le_count {copy : Copy} (h : copy.Tallied limit) {n : UInt32}
    (hn : copy.Counts n) : copy.ancestors.length ≤ n.toNat := by
  rcases h with hnil | ⟨m, hm, hlength, -⟩
  · rw [hnil]
    exact Nat.zero_le _
  · rwa [Copy.counts_unique hn hm]

/-- A property of copies that the copies of accepted entries inherit holds of every copy. -/
theorem forall_copies_of_run {P : Copy → Prop} (h₀ : Initial s₀)
    (horiginal : ∀ copy ∈ s₀.copies, P copy)
    (hchild : ∀ (s : State) (r : Running) entry delivery copy n, admits r.inv →
      EntryOrigin s r limit entry delivery copy n → copy.Counts n → P copy →
      P (s.child r entry))
    (hrun : Run rule admits arn limit s₀ s) : ∀ copy ∈ s.copies, P copy := by
  induction hrun with
  | refl => exact horiginal
  | tail hrun hstep ih =>
    have hinv := (QueueInv.of_initial h₀).run hrun
    cases hstep with
    | send k r i call ids hr _ hcall _ _ =>
      have hrunning := hinv.running k r hr
      intro copy hcopy
      rcases List.mem_append.mp hcopy with hcopy | hcopy
      · exact ih copy hcopy
      · obtain ⟨entry, hentry, rfl⟩ := List.mem_map.mp hcopy
        obtain ⟨delivery, copy, n, horigin⟩ :=
          hrunning.entry_origin (List.mem_of_getElem? hcall) (List.mem_filter.mp hentry).1
        exact hchild _ r entry delivery copy n hrunning.admitted horigin
          (hrunning.source_counts horigin) (ih copy (List.mem_of_getElem? horigin.source))
    | _ => exact ih

theorem tallied_child {r : Running} {entry : SendMessageBatchRequestEntry}
    {delivery : ℕ × SqsMessage} {copy : Copy} {n : UInt32} (hbelow : CountsBelowWrap r.inv)
    (horigin : EntryOrigin s r limit entry delivery copy n) (hcounts : copy.Counts n)
    (h : copy.Tallied limit) : (s.child r entry).Tallied limit := by
  have hrecord : delivery.2 ∈ r.inv.records := (List.of_mem_zip horigin.delivered).2
  have hne : n ≠ 4294967295 := by
    rintro rfl
    exact hbelow delivery.2 hrecord horigin.count
  have hlt : n.toNat < 4294967295 := by
    have hmax := n.toNat_lt
    have hnat : n.toNat ≠ 4294967295 := fun heq => hne (UInt32.toNat_inj.mp heq)
    omega
  refine Or.inr ⟨n + 1, horigin.counts, ?_, horigin.within⟩
  rw [horigin.child_ancestors, State.ancestors_eq horigin.source, List.length_cons,
    toNat_add_one hlt]
  exact Nat.succ_le_succ (h.length_le_count hcounts)

theorem replaysWithin_of_run (h₀ : Initial s₀) (hrun : Run rule CountsBelowWrap arn limit s₀ s) :
    ReplaysWithin limit s := by
  have htallied : ∀ copy ∈ s.copies, copy.Tallied limit := by
    refine forall_copies_of_run h₀ (fun copy hcopy => Or.inl (h₀.original copy hcopy)) ?_ hrun
    intro s r entry delivery copy n hbelow horigin hcounts h
    exact tallied_child hbelow horigin hcounts h
  exact fun copy hcopy => (htallied copy hcopy).length_le

theorem countsBelowWrap_of_delivery {r : Running} (h : s.Delivery arn limit r)
    (hcopies : ∀ copy ∈ s.copies, ¬ copy.Counts 4294967295) : CountsBelowWrap r.inv := by
  intro record hrecord hnum
  obtain ⟨u, hu⟩ := exists_mem_zip_right h.records hrecord
  obtain ⟨⟨copy, hcopy, -, hattrs, -⟩, -⟩ := List.forall₂_zip h.records hu
  exact hcopies copy (List.mem_of_getElem? hcopy) (Copy.counts_of_replayNum hattrs hnum)

/-- A step is one of the restricted system when its delivery, if it is one, is admitted there. -/
theorem Step.readmit {admits' : Invocation → Prop} (hstep : Step rule admits arn limit s s')
    (hdeliver : ∀ r, s.Delivery arn limit r → admits' r.inv) :
    Step rule admits' arn limit s s' := by
  cases hstep with
  | consume u hu hplace => exact .consume u hu hplace
  | redrive u ids hu hplace hrest hids => exact .redrive u ids hu hplace hrest hids
  | bury u ids hu hplace hrest hids => exact .bury u ids hu hplace hrest hids
  | deliver k r hidle hdelivery _ => exact .deliver k r hidle hdelivery (hdeliver r hdelivery)
  | send k r i call ids hr hi hcall hrest hids => exact .send k r i call ids hr hi hcall hrest hids
  | finish k r hr hall => exact .finish k r hr hall

/-- Under a limit below the largest count, only an original can carry the largest count. -/
theorem run_countsBelowWrap (h₀ : Initial s₀) (hlimit : limit ≠ 4294967295)
    (horiginal : ∀ copy ∈ s₀.copies, ¬ copy.Counts 4294967295)
    (hrun : Run rule Unrestricted arn limit s₀ s) : Run rule CountsBelowWrap arn limit s₀ s := by
  induction hrun with
  | refl => exact .refl
  | @tail s s' hrun hstep ih =>
    have hcopies : ∀ copy ∈ s.copies, ¬ copy.Counts 4294967295 := by
      refine forall_copies_of_run h₀ horiginal ?_ hrun
      intro s r entry delivery copy n _ horigin _ _ hcounts
      have hmax : n + 1 = 4294967295 := Copy.counts_unique horigin.counts hcounts
      have hwithin := horigin.within
      rw [hmax, UInt32.le_iff_toNat_le] at hwithin
      have hlt := limit.toNat_lt
      exact hlimit (UInt32.toNat_inj.mp (Nat.le_antisymm (Nat.le_of_lt_succ hlt) hwithin))
    exact ih.tail (hstep.readmit (fun r hdelivery => countsBelowWrap_of_delivery hdelivery hcopies))

theorem replaysWithin_of_originals (h₀ : Initial s₀) (hlimit : limit ≠ 4294967295)
    (horiginal : ∀ copy ∈ s₀.copies, ¬ copy.Counts 4294967295)
    (hrun : Run rule Unrestricted arn limit s₀ s) : ReplaysWithin limit s :=
  replaysWithin_of_run h₀ (run_countsBelowWrap h₀ hlimit horiginal hrun)

/-- In every run nothing is lost. In every run whose deliveries carry counts below the largest, no
copy is replayed beyond the limit either. -/
theorem queue_safe (arn : String) (limit : UInt32) (s₀ s : State) (h₀ : Initial s₀) :
    (Run .inMemory Unrestricted arn limit s₀ s → NothingLost s₀ s) ∧
      (Run .inMemory CountsBelowWrap arn limit s₀ s → NothingLost s₀ s ∧ ReplaysWithin limit s) :=
  ⟨nothingLost_of_run h₀, fun hrun => ⟨nothingLost_of_run h₀ hrun, replaysWithin_of_run h₀ hrun⟩⟩

def sampleId (u : ℕ) : String := String.ofList (List.replicate (u + 1) 'm')

theorem queueIds_of_sampleId {s : State} (h : s.messageId = sampleId) : s.QueueIds where
  nonempty u _ hu := by
    have hlist := congrArg String.toList ((congrFun h u).symm.trans hu)
    rw [sampleId, String.toList_ofList] at hlist
    cases hlist
  distinct u v _ _ huv := by
    rw [h] at huv
    have hlength := congrArg (fun text => text.toList.length) huv
    simpa [sampleId] using hlength

def sampleQueue (attrs : HashMap String SqsMessageAttribute) : State where
  copies := [⟨[], "hello", attrs⟩]
  place := fun _ => .replay
  messageId := sampleId
  running := fun _ => none

/-- An invocation with one copy, whose entry SQS accepts. -/
def sampleRunning (u : ℕ) (attrs : HashMap String SqsMessageAttribute) : Running where
  batch := [u]
  env := sampleEnvironment
  store :=
    { sampleStore with
      cache := some (0, AList.singleton "arn:aws:sqs:ReplayQueue"
        { sampleConfig with maxAttempts := some 1 }) }
  inv := sampleInvocation
    [⟨some (sampleId u), some "hello", ∅, attrs, some "arn:aws:sqs:ReplayQueue"⟩]
  accepted := fun _ _ => true
  sent := []

def countedAs (text : String) : HashMap String SqsMessageAttribute :=
  AList.singleton replayNumPropertyName ⟨some text, none, [], [], some "Number"⟩

def sampleCall (u : ℕ) (attrs : HashMap String SqsMessageAttribute) (n : UInt32) : SendCall :=
  ⟨⟨"https://sqs/Queue", [⟨sampleId u, "hello", some (backoff 30 900 (n + 1)).toInt32,
    some (mapMessageAttributes attrs (n + 1)), none, none, none⟩]⟩, .ok ⟨[]⟩⟩

def State.attempt (s : State) (k u : ℕ) (attrs : HashMap String SqsMessageAttribute)
    (call : SendCall) : State :=
  (s.start k (sampleRunning u attrs)).send k (sampleRunning u attrs) 0 call s.messageId

theorem sampleRunning_answered {u : ℕ} {attrs : HashMap String SqsMessageAttribute}
    {call : SendCall} (hcall : call ∈ (sampleRunning u attrs).handled.calls) : call.answer = .ok ⟨[]⟩ := by
  obtain ⟨resolved, hresolved⟩ : ∃ resolved, (resolvePass (sampleRunning u attrs).env
      (sampleRunning u attrs).store (sampleRunning u attrs).inv).result = .ok resolved :=
    ⟨_, rfl⟩
  rw [Running.handled, (handle_of_resolve_ok hresolved).1] at hcall
  obtain ⟨j, chunk, -, rfl⟩ := mem_sendCalls hcall
  rfl

theorem sampleRunning_consistent (u : ℕ) (attrs : HashMap String SqsMessageAttribute) :
    (sampleRunning u attrs).Consistent := by
  intro i call output hcall houtput id
  have hanswered := sampleRunning_answered (List.mem_of_getElem? hcall)
  obtain rfl : (⟨[]⟩ : SendMessageBatchOutput) = output :=
    Except.ok.inj (hanswered.symm.trans houtput)
  simp [sampleRunning]

theorem sampleRunning_limited (u : ℕ) (attrs : HashMap String SqsMessageAttribute) :
    (sampleRunning u attrs).Limited "arn:aws:sqs:ReplayQueue" 1 := by
  intro resolved config hresolved hconfig
  obtain rfl : AList.singleton "arn:aws:sqs:ReplayQueue"
      (some (QueueConfig.resolve { sampleConfig with maxAttempts := some 1 } sampleEnvironment)) =
        resolved := Except.ok.inj hresolved
  have hresolve : some (QueueConfig.resolve { sampleConfig with maxAttempts := some 1 }
      sampleEnvironment) = some config := Option.some.inj hconfig
  obtain rfl := Option.some.inj hresolve
  rfl

theorem sampleRunning_delivery {s : State} {u : ℕ} {ancestors : List ℕ}
    {attrs : HashMap String SqsMessageAttribute}
    (hcopy : s.copies[u]? = some ⟨ancestors, "hello", attrs⟩) (hplace : s.place u = .replay)
    (hids : s.messageId = sampleId) :
    s.Delivery "arn:aws:sqs:ReplayQueue" 1 (sampleRunning u attrs) := by
  refine ⟨List.nodup_singleton u, ?_, ?_, sampleRunning_consistent u attrs,
    sampleRunning_limited u attrs, rfl⟩
  · intro v hv
    obtain rfl := List.mem_singleton.mp hv
    exact ⟨(List.getElem?_eq_some_iff.mp hcopy).1, hplace⟩
  · refine List.Forall₂.cons ⟨⟨_, hcopy, rfl, rfl, rfl⟩, ?_⟩ List.Forall₂.nil
    rw [hids]

theorem run_attempt {admits : Invocation → Prop} {s : State} {k u : ℕ} {ancestors : List ℕ}
    {attrs : HashMap String SqsMessageAttribute} {call : SendCall} (hidle : s.running k = none)
    (hcopy : s.copies[u]? = some ⟨ancestors, "hello", attrs⟩) (hplace : s.place u = .replay)
    (hids : s.messageId = sampleId) (hadmits : admits (sampleRunning u attrs).inv)
    (hcall : (sampleRunning u attrs).handled.calls[0]? = some call) :
    Run .inMemory admits "arn:aws:sqs:ReplayQueue" 1 s (s.attempt k u attrs call) := by
  have hdelivery := sampleRunning_delivery hcopy hplace hids
  refine (Relation.ReflTransGen.single (.deliver k _ hidle hdelivery hadmits)).tail ?_
  refine .send k _ 0 call s.messageId start_running_self List.not_mem_nil hcall
    (fun _ _ => rfl) (queueIds_of_sampleId hids)

theorem sampleQueue_initial (attrs : HashMap String SqsMessageAttribute) :
    Initial (sampleQueue attrs) where
  original copy hcopy := by
    obtain rfl := List.mem_singleton.mp hcopy
    rfl
  queued _ _ := rfl
  idle _ := rfl
  distinct := queueIds_of_sampleId rfl

theorem queue_safe_sample :
    NothingLost (sampleQueue ∅) ((sampleQueue ∅).attempt 0 0 ∅ (sampleCall 0 ∅ 0)) ∧
      ReplaysWithin 1 ((sampleQueue ∅).attempt 0 0 ∅ (sampleCall 0 ∅ 0)) := by
  refine (queue_safe "arn:aws:sqs:ReplayQueue" 1 _ _ (sampleQueue_initial ∅)).2 ?_
  refine run_attempt rfl rfl rfl rfl ?_ rfl
  intro record hrecord
  obtain rfl := List.mem_singleton.mp hrecord
  decide

def replayedOnce : State :=
  (sampleQueue (countedAs "4294967295")).attempt 0 0 (countedAs "4294967295")
    (sampleCall 0 (countedAs "4294967295") 4294967295)

def replayedTwice : State :=
  (replayedOnce.move 1 .replay sampleId).attempt 1 1 (countedAs "0")
    (sampleCall 1 (countedAs "0") 0)

/-- The largest count wraps to zero, and the message is replayed twice under a limit of one. -/
theorem wrapped_count_replayed_again :
    Initial (sampleQueue (countedAs "4294967295")) ∧
      Run .inMemory Unrestricted "arn:aws:sqs:ReplayQueue" 1 (sampleQueue (countedAs "4294967295"))
        replayedTwice ∧
      ¬ ReplaysWithin 1 replayedTwice := by
  refine ⟨sampleQueue_initial _, ?_, ?_⟩
  · have hfirst : Run .inMemory Unrestricted "arn:aws:sqs:ReplayQueue" 1
        (sampleQueue (countedAs "4294967295")) replayedOnce :=
      run_attempt rfl rfl rfl rfl trivial rfl
    have hredrive : Step .inMemory Unrestricted "arn:aws:sqs:ReplayQueue" 1 replayedOnce
        (replayedOnce.move 1 .replay sampleId) :=
      .redrive 1 sampleId (by decide) rfl (fun _ _ => rfl) (queueIds_of_sampleId rfl)
    have hsecond : Run .inMemory Unrestricted "arn:aws:sqs:ReplayQueue" 1
        (replayedOnce.move 1 .replay sampleId) replayedTwice :=
      run_attempt rfl rfl rfl rfl trivial rfl
    exact (hfirst.tail hredrive).trans hsecond
  · intro hwithin
    have hlast : replayedTwice.copies[2]? = some ⟨[1, 0], "hello", countedAs "1"⟩ := rfl
    have hlength := hwithin _ (List.mem_of_getElem? hlast)
    exact absurd hlength (by decide)

end ReplayBackoff
