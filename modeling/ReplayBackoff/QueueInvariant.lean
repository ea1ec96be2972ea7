import ReplayBackoff.QueueSystem
import ReplayBackoff.Acknowledgement
import ReplayBackoff.Library.Lineage

/-!
# Invariant of the queue system

Every copy that was ever made is covered: it or a copy descending from it is in a queue or was
deleted by the consumer. The critical step is the end of an invocation. A delivered copy that the
response does not name was an entry of some call, and SQS accepted it there; the invariant of a
running invocation keeps the child that was made of it. No deletion rule deletes any other copy.
-/

namespace ReplayBackoff

open Lineage

/-- The same body, and the same values of every attribute but the count. -/
structure SameContent (a b : Copy) : Prop where
  body : b.body = a.body
  values : ∀ name, name ≠ replayNumPropertyName →
    (b.messageAttributes.lookup name).map (fun attr => (attr.stringValue, attr.binaryValue)) =
      (a.messageAttributes.lookup name).map (fun attr => (attr.stringValue, attr.binaryValue))

theorem SameContent.trans {a b c : Copy} (hab : SameContent a b) (hbc : SameContent b c) :
    SameContent a c :=
  ⟨hbc.body.trans hab.body, fun name hname => (hbc.values name hname).trans (hab.values name hname)⟩

structure RunningInv (admits : Invocation → Prop) (arn : String) (limit : UInt32) (s : State)
    (r : Running) : Prop where
  records : List.Forall₂ (s.Carries arn) r.batch r.inv.records
  ids : DistinctIds r.inv.records
  consistent : r.Consistent
  limited : r.Limited arn limit
  admitted : admits r.inv
  children : ∀ i ∈ r.sent, ∀ call, r.handled.calls[i]? = some call → ∀ id ∈ call.entryIds,
    r.accepted i id = true → ∀ delivery ∈ r.deliveries, delivery.2.messageId = some id →
      ∃ w < s.copies.length, delivery.1 ∈ s.ancestors w

structure QueueInv (admits : Invocation → Prop) (arn : String) (limit : UInt32) (s : State) :
    Prop where
  lineage : Lineage.Ordered s.ancestors s.copies.length
  covered : ∀ u < s.copies.length,
    Covered s.ancestors s.copies.length (fun v => (s.place v).held = true) u
  ids : s.QueueIds
  content : ∀ u v a b, u ∈ s.ancestors v → s.copies[u]? = some a → s.copies[v]? = some b →
    SameContent a b
  running : ∀ k r, s.running k = some r → RunningInv admits arn limit s r

theorem exists_mem_zip_right {α β : Type*} {R : α → β → Prop} {l : List α} {l' : List β}
    (h : List.Forall₂ R l l') {b : β} (hb : b ∈ l') : ∃ a, (a, b) ∈ l.zip l' := by
  rw [← List.map_snd_zip h.length_eq.ge] at hb
  obtain ⟨⟨a, b'⟩, hmem, rfl⟩ := List.mem_map.mp hb
  exact ⟨a, hmem⟩

section

variable {admits : Invocation → Prop} {arn : String} {limit : UInt32} {s s' : State} {r : Running}

theorem Carries.mono (hgrows : s.copies <+: s'.copies) {u : ℕ} {record : SqsMessage}
    (h : s.Carries arn u record) : s'.Carries arn u record := by
  obtain ⟨copy, hcopy, hrest⟩ := h
  have hu : u < s.copies.length := (List.getElem?_eq_some_iff.mp hcopy).1
  exact ⟨copy, (State.getElem?_of_prefix hgrows hu).trans hcopy, hrest⟩

theorem RunningInv.mono (hgrows : s.copies <+: s'.copies) (h : RunningInv admits arn limit s r) :
    RunningInv admits arn limit s' r where
  records := h.records.imp (fun _ _ => Carries.mono hgrows)
  ids := h.ids
  consistent := h.consistent
  limited := h.limited
  admitted := h.admitted
  children i hi call hcall id hid hacc delivery hdelivery hmid := by
    obtain ⟨w, hw, hmem⟩ := h.children i hi call hcall id hid hacc delivery hdelivery hmid
    refine ⟨w, hw.trans_le hgrows.length_le, ?_⟩
    rwa [State.ancestors_of_prefix hgrows hw]

theorem RunningInv.of_copies_eq (h : RunningInv admits arn limit s r) (s' : State)
    (hcopies : s'.copies = s.copies) : RunningInv admits arn limit s' r :=
  h.mono (by rw [hcopies])

theorem RunningInv.delivery_unique (h : RunningInv admits arn limit s r)
    {d d' : ℕ × SqsMessage} (hd : d ∈ r.deliveries) (hd' : d' ∈ r.deliveries)
    (hid : d.2.messageId = d'.2.messageId) : d = d' := by
  have hmap : r.deliveries.map (fun delivery => delivery.2.messageId) =
      r.inv.records.map (·.messageId) := by
    have hsnd : r.deliveries.map Prod.snd = r.inv.records :=
      List.map_snd_zip h.records.length_eq.ge
    conv_rhs => rw [← hsnd, List.map_map]
    rfl
  have hnodup : (r.deliveries.map (fun delivery => delivery.2.messageId)).Nodup := by
    rw [hmap]
    exact h.ids.nodup
  exact List.inj_on_of_nodup_map hnodup hd hd' hid

theorem RunningInv.exists_delivery (h : RunningInv admits arn limit s r) {record : SqsMessage}
    (hrecord : record ∈ r.inv.records) : ∃ u, (u, record) ∈ r.deliveries :=
  exists_mem_zip_right h.records hrecord

theorem RunningInv.parent_eq (h : RunningInv admits arn limit s r) {delivery : ℕ × SqsMessage}
    (hdelivery : delivery ∈ r.deliveries) {id : String} (hid : delivery.2.messageId = some id) :
    r.parent id = some delivery.1 := by
  have hfound : (r.deliveries.find? (fun d => decide (d.2.messageId = some id))).isSome := by
    rw [List.find?_isSome]
    exact ⟨delivery, hdelivery, by simpa using hid⟩
  obtain ⟨d, hd⟩ := Option.isSome_iff_exists.mp hfound
  have hid' : d.2.messageId = some id := by simpa using List.find?_some hd
  have hsame := h.delivery_unique (List.mem_of_find?_eq_some hd) hdelivery (hid'.trans hid.symm)
  rw [Running.parent, hd, hsame]
  rfl

/-- Where an entry of a call comes from. -/
structure EntryOrigin (s : State) (r : Running) (limit : UInt32)
    (entry : SendMessageBatchRequestEntry) (delivery : ℕ × SqsMessage) (copy : Copy) (n : UInt32) :
    Prop where
  delivered : delivery ∈ r.deliveries
  id : delivery.2.messageId = some entry.id
  parent : r.parent entry.id = some delivery.1
  source : s.copies[delivery.1]? = some copy
  count : replayNum delivery.2 = .ok n
  within : n + 1 ≤ limit
  body : entry.messageBody = copy.body
  messageAttributes : entry.messageAttributes =
    some (mapMessageAttributes copy.messageAttributes (n + 1))

theorem RunningInv.entry_origin (h : RunningInv admits arn limit s r) {call : SendCall}
    (hcall : call ∈ r.handled.calls) {entry : SendMessageBatchRequestEntry}
    (hentry : entry ∈ call.input.entries) :
    ∃ delivery copy n, EntryOrigin s r limit entry delivery copy n := by
  obtain ⟨resolved, hresolved⟩ : ∃ resolved,
      (resolvePass r.env r.store r.inv).result = .ok resolved := by
    cases hpass : (resolvePass r.env r.store r.inv).result with
    | ok resolved => exact ⟨resolved, rfl⟩
    | error e =>
      rw [Running.handled, (handle_of_resolve_error hpass).2] at hcall
      cases hcall
  rw [Running.handled, (handle_of_resolve_ok hresolved).1] at hcall
  obtain ⟨id, request, hsend, rfl, -⟩ := sendCalls_entry hcall hentry
  obtain ⟨record, i, hmem, hid, hreplay⟩ := mem_passSends.mp hsend
  obtain ⟨arn', config, harn', hlookup, hbuild⟩ := disposition_replay_iff.mp hreplay
  obtain ⟨n, body, hn, hwithin, hbody, rfl⟩ := buildReplayRequest_some_iff.mp hbuild
  obtain ⟨u, hdelivery⟩ := h.exists_delivery (List.fst_mem_of_mem_zipIdx hmem)
  obtain ⟨copy, hcopy, hcopyBody, hattrs, harn⟩ := List.forall₂_zip h.records hdelivery
  obtain rfl : arn' = arn := Option.some.inj (harn'.symm.trans harn)
  rw [h.limited resolved config hresolved hlookup] at hwithin
  refine ⟨(u, record), copy, n, hdelivery, hid, h.parent_eq hdelivery hid, hcopy, hn, hwithin, ?_,
    ?_⟩
  · exact Option.some.inj (hbody.symm.trans hcopyBody)
  · change some (mapMessageAttributes record.messageAttributes (n + 1)) = _
    rw [show record.messageAttributes = copy.messageAttributes from hattrs]

theorem EntryOrigin.sameContent {entry : SendMessageBatchRequestEntry} {delivery : ℕ × SqsMessage}
    {copy : Copy} {n : UInt32} (h : EntryOrigin s r limit entry delivery copy n) :
    SameContent copy (s.child r entry) where
  body := h.body
  values name hname := by
    rw [State.child, h.messageAttributes, Option.getD_some, HashMap.lookup_mapValues,
      lookup_mapMessageAttributes, if_neg hname]
    cases copy.messageAttributes.lookup name <;> rfl

theorem EntryOrigin.child_ancestors {entry : SendMessageBatchRequestEntry}
    {delivery : ℕ × SqsMessage} {copy : Copy} {n : UInt32}
    (h : EntryOrigin s r limit entry delivery copy n) :
    (s.child r entry).ancestors = delivery.1 :: s.ancestors delivery.1 := by
  rw [State.child, h.parent]

theorem EntryOrigin.lt {entry : SendMessageBatchRequestEntry} {delivery : ℕ × SqsMessage}
    {copy : Copy} {n : UInt32} (h : EntryOrigin s r limit entry delivery copy n) :
    delivery.1 < s.copies.length :=
  (List.getElem?_eq_some_iff.mp h.source).1

/-- A delivered copy that is acknowledged has a child. -/
theorem RunningInv.exists_child (h : RunningInv admits arn limit s r)
    (hall : ∀ i < r.handled.calls.length, i ∈ r.sent) {u : ℕ} (hu : u ∈ r.acknowledged) :
    ∃ w < s.copies.length, u ∈ s.ancestors w := by
  cases hresult : r.handled.result with
  | error e =>
    rw [Running.acknowledged, hresult] at hu
    cases hu
  | ok response =>
    rw [Running.acknowledged, hresult] at hu
    obtain ⟨delivery, hdelivery, rfl⟩ := List.mem_map.mp hu
    obtain ⟨hdelivery, hunnamed⟩ := List.mem_filter.mp hdelivery
    have hrecord : delivery.2 ∈ r.inv.records := (List.of_mem_zip hdelivery).2
    obtain ⟨id, hid, -⟩ := h.ids.present delivery.2 hrecord
    obtain ⟨j, hj⟩ := List.mem_iff_getElem?.mp hrecord
    have hmem : (delivery.2, j) ∈ r.inv.records.zipIdx := List.mem_zipIdx_iff_getElem?.mpr hj
    obtain ⟨resolved, hresolved⟩ := handle_ok_iff_resolve_ok.mp ⟨response, hresult⟩
    rcases accepted_or_reported hresolved hmem hid with haccepted | hreported
    · obtain ⟨call, hcall, entry, hentry, ⟨config, id', request, hid', -, rfl⟩, haccepts⟩ :=
        haccepted
      obtain rfl : id = id' := Option.some.inj (hid.symm.trans hid')
      obtain ⟨i, hi⟩ := List.mem_iff_getElem?.mp hcall
      have hin := mem_entryIds_of_entry hentry
      have hacc : r.accepted i id = true := by
        by_contra hrefused
        obtain ⟨output, houtput, hnot⟩ := haccepts
        exact hnot ((h.consistent i call output hi houtput id).mpr ⟨hin, by simpa using hrefused⟩)
      have hsent := hall i (List.getElem?_eq_some_iff.mp hi).1
      exact h.children i hsent call hi id hin hacc delivery hdelivery hid
    · exfalso
      have heq : response = _ := Except.ok.inj (hresult.symm.trans (handle_result_eq hresolved))
      have hnamed : id ∈ response.identifiers := by
        rw [heq, identifiers_mk]
        exact hreported
      simp [hid, hnamed] at hunnamed

/-- Delivered copies are in the replay queue, so their ids are distinct and non-empty. -/
theorem runningInv_of_delivery (hids : s.QueueIds) (h : s.Delivery arn limit r)
    (hadmits : admits r.inv) : RunningInv admits arn limit s r where
  records := h.records.imp (fun _ _ hr => hr.1)
  ids := by
    have hqueue : ∀ u ∈ r.batch, s.InQueue u := by
      intro u hu
      obtain ⟨hlt, hplace⟩ := h.inReplay u hu
      exact ⟨hlt, by rw [hplace]; rfl⟩
    have hmap : r.inv.records.map (·.messageId) = r.batch.map (fun u => some (s.messageId u)) := by
      have hrecords := h.records
      generalize r.batch = batch at hrecords
      generalize r.inv.records = records at hrecords
      induction hrecords with
      | nil => rfl
      | cons hr _ ih => rw [List.map_cons, List.map_cons, ih, hr.2]
    constructor
    · intro record hrecord
      obtain ⟨u, hu⟩ := exists_mem_zip_right h.records hrecord
      exact ⟨_, (List.forall₂_zip h.records hu).2, hids.nonempty u (hqueue u (List.of_mem_zip hu).1)⟩
    · rw [hmap]
      apply h.nodup.map_on
      intro u hu v hv heq
      exact hids.distinct u v (hqueue u hu) (hqueue v hv) (Option.some.inj heq)
  consistent := h.consistent
  limited := h.limited
  admitted := hadmits
  children i hi := by
    rw [h.unsent] at hi
    cases hi

end

section

variable {admits : Invocation → Prop} {arn : String} {limit : UInt32} {s : State} {r : Running}
  {k i : ℕ} {call : SendCall} {ids : ℕ → String}

theorem send_grows : s.copies <+: (s.send k r i call ids).copies :=
  List.prefix_append _ _

theorem send_getElem? (s : State) (k : ℕ) (r : Running) (i : ℕ) (call : SendCall)
    (ids : ℕ → String) (j : ℕ) :
    (s.send k r i call ids).copies[s.copies.length + j]? =
      ((r.acceptedEntries i call)[j]?).map (s.child r) := by
  rw [State.send, List.getElem?_append_right (Nat.le_add_right _ _), Nat.add_sub_cancel_left,
    List.getElem?_map]

theorem send_place_old {u : ℕ} (hu : u < s.copies.length) :
    (s.send k r i call ids).place u = s.place u :=
  if_pos hu

theorem send_place_new {u : ℕ} (hu : s.copies.length ≤ u) :
    (s.send k r i call ids).place u = .source :=
  if_neg (Nat.not_lt.mpr hu)

theorem exists_new_of_accepted (s : State) (k : ℕ) (ids : ℕ → String)
    {entry : SendMessageBatchRequestEntry}
    (hentry : entry ∈ call.input.entries) (hacc : r.accepted i entry.id = true) :
    ∃ w < (s.send k r i call ids).copies.length,
      (s.send k r i call ids).copies[w]? = some (s.child r entry) := by
  have hmem : entry ∈ r.acceptedEntries i call := List.mem_filter.mpr ⟨hentry, hacc⟩
  obtain ⟨j, hj⟩ := List.mem_iff_getElem?.mp hmem
  have hnew := send_getElem? s k r i call ids j
  rw [hj, Option.map_some] at hnew
  exact ⟨_, (List.getElem?_eq_some_iff.mp hnew).1, hnew⟩

theorem RunningInv.new_origin (h : RunningInv admits arn limit s r)
    (hcall : r.handled.calls[i]? = some call) {v : ℕ} (hold : s.copies.length ≤ v)
    (hv : v < (s.send k r i call ids).copies.length) :
    ∃ entry delivery copy n, EntryOrigin s r limit entry delivery copy n ∧
      (s.send k r i call ids).copies[v]? = some (s.child r entry) := by
  obtain ⟨j, rfl⟩ := Nat.exists_eq_add_of_le hold
  have hnew := send_getElem? s k r i call ids j
  cases hentry : (r.acceptedEntries i call)[j]? with
  | none =>
    rw [hentry, Option.map_none, List.getElem?_eq_none_iff] at hnew
    exact absurd hv (Nat.not_lt.mpr hnew)
  | some entry =>
    rw [hentry, Option.map_some] at hnew
    have hmem := (List.mem_filter.mp (List.mem_of_getElem? hentry)).1
    obtain ⟨delivery, copy, n, horigin⟩ := h.entry_origin (List.mem_of_getElem? hcall) hmem
    exact ⟨entry, delivery, copy, n, horigin, hnew⟩

theorem RunningInv.extends (h : RunningInv admits arn limit s r)
    (hcall : r.handled.calls[i]? = some call) :
    Lineage.Extends s.ancestors (s.send k r i call ids).ancestors s.copies.length
      (s.send k r i call ids).copies.length where
  le := send_grows.length_le
  old v hv := State.ancestors_of_prefix send_grows hv
  new v hold hv := by
    obtain ⟨entry, delivery, copy, n, horigin, hchild⟩ := h.new_origin hcall hold hv
    exact ⟨delivery.1, horigin.lt, (State.ancestors_eq hchild).trans horigin.child_ancestors⟩

theorem RunningInv.sent (h : RunningInv admits arn limit s r)
    (hcall : r.handled.calls[i]? = some call) :
    RunningInv admits arn limit (s.send k r i call ids) { r with sent := i :: r.sent } where
  records := h.records.imp (fun _ _ => Carries.mono send_grows)
  ids := h.ids
  consistent := h.consistent
  limited := h.limited
  admitted := h.admitted
  children := by
    intro i' hi' call' hcall' id hid hacc delivery hdelivery hmid
    rcases List.mem_cons.mp hi' with rfl | hi'
    · obtain rfl : call = call' := Option.some.inj (hcall.symm.trans hcall')
      obtain ⟨entry, hentry, rfl⟩ := List.mem_map.mp hid
      obtain ⟨w, hw, hchild⟩ := exists_new_of_accepted (r := r) s k ids hentry hacc
      obtain ⟨delivery', copy, n, horigin⟩ := h.entry_origin (List.mem_of_getElem? hcall) hentry
      have hsame := h.delivery_unique hdelivery horigin.delivered (hmid.trans horigin.id.symm)
      refine ⟨w, hw, ?_⟩
      rw [State.ancestors_eq hchild, horigin.child_ancestors, hsame]
      exact List.mem_cons_self
    · exact (h.mono send_grows).children i' hi' call' hcall' id hid hacc delivery hdelivery hmid

end

section

variable {s : State} {r : Running} {j k i u : ℕ} {call : SendCall} {names : ℕ → String}
  {deleted : List ℕ}

theorem start_running_self : (s.start k r).running k = some r := Function.update_self _ _ _

theorem start_running_of_ne (hj : j ≠ k) : (s.start k r).running j = s.running j :=
  Function.update_of_ne hj _ _

theorem send_running_self :
    (s.send k r i call names).running k = some { r with sent := i :: r.sent } :=
  Function.update_self _ _ _

theorem send_running_of_ne (hj : j ≠ k) :
    (s.send k r i call names).running j = s.running j := Function.update_of_ne hj _ _

theorem finish_running_self : (s.finish k deleted).running k = none := Function.update_self _ _ _

theorem finish_running_of_ne (hj : j ≠ k) : (s.finish k deleted).running j = s.running j :=
  Function.update_of_ne hj _ _

/-- The invocations at work after a start are the one that started and those that were. -/
theorem start_cases {q : Running} (hq : (s.start k r).running j = some q) :
    (j = k ∧ q = r) ∨ (j ≠ k ∧ s.running j = some q) := by
  by_cases hj : j = k
  · subst hj
    exact Or.inl ⟨rfl, (Option.some.inj (start_running_self.symm.trans hq)).symm⟩
  · exact Or.inr ⟨hj, (start_running_of_ne hj).symm.trans hq⟩

theorem send_cases {q : Running} (hq : (s.send k r i call names).running j = some q) :
    (j = k ∧ q = { r with sent := i :: r.sent }) ∨ (j ≠ k ∧ s.running j = some q) := by
  by_cases hj : j = k
  · subst hj
    exact Or.inl ⟨rfl, (Option.some.inj (send_running_self.symm.trans hq)).symm⟩
  · exact Or.inr ⟨hj, (send_running_of_ne hj).symm.trans hq⟩

theorem finish_cases {q : Running} (hq : (s.finish k deleted).running j = some q) :
    j ≠ k ∧ s.running j = some q := by
  by_cases hj : j = k
  · subst hj
    cases finish_running_self.symm.trans hq
  · exact ⟨hj, (finish_running_of_ne hj).symm.trans hq⟩

theorem send_idle (hr : s.running k = some r) (hj : s.running j = none) :
    (s.send k r i call names).running j = none := by
  have hjk : j ≠ k := by
    rintro rfl
    cases hj.symm.trans hr
  exact (send_running_of_ne hjk).trans hj

theorem finish_idle (hj : s.running j = none) : (s.finish k deleted).running j = none := by
  by_cases hjk : j = k
  · subst hjk
    exact finish_running_self
  · exact (finish_running_of_ne hjk).trans hj

theorem dead_of_finish (hplace : (s.finish k deleted).place u = .dead) : s.place u = .dead := by
  change (if u ∈ deleted ∧ s.place u = .replay then Place.replayed else s.place u) = .dead at hplace
  split_ifs at hplace
  exact hplace

end

namespace QueueInv

variable {rule : DeletionRule} {admits : Invocation → Prop} {arn : String} {limit : UInt32}
  {s : State}

theorem of_initial (h : Initial s) : QueueInv admits arn limit s := by
  have hnone : ∀ u, s.ancestors u = [] := by
    intro u
    cases hcopy : s.copies[u]? with
    | none => rw [State.ancestors, hcopy]; rfl
    | some copy =>
      rw [State.ancestors_eq hcopy]
      exact h.original copy (List.mem_of_getElem? hcopy)
  refine ⟨⟨?_, ?_⟩, ?_, h.distinct, ?_, ?_⟩
  · intro v _ u hu
    rw [hnone] at hu
    cases hu
  · intro v _ u hu
    rw [hnone] at hu
    cases hu
  · intro u hu
    apply Covered.of_held hu
    have hqueued := h.queued u hu
    cases hplace : s.place u <;> rw [hplace] at hqueued <;> first | rfl | cases hqueued
  · intro u v a b hu
    rw [hnone] at hu
    cases hu
  · intro k r hr
    rw [h.idle k] at hr
    cases hr

theorem move (h : QueueInv admits arn limit s) (u : ℕ) {place : Place} {ids : ℕ → String}
    (hheld : place.held = true) (hids : (s.move u place ids).QueueIds) :
    QueueInv admits arn limit (s.move u place ids) where
  lineage := h.lineage
  covered v hv := by
    apply (h.covered v hv).mono
    intro w _ hw
    by_cases hwu : w = u
    · subst hwu
      simpa [State.move] using hheld
    · simpa [State.move, hwu] using hw
  ids := hids
  content := h.content
  running k r hr := (h.running k r hr).of_copies_eq _ rfl

theorem consume_ids (hids : s.QueueIds) (u : ℕ) :
    (s.move u .consumed s.messageId).QueueIds := by
  have hsub : ∀ v, (s.move u .consumed s.messageId).InQueue v → s.InQueue v := by
    rintro v ⟨hv, hqueued⟩
    refine ⟨hv, ?_⟩
    by_cases hvu : v = u
    · subst hvu
      simp [State.move, Place.queued] at hqueued
    · simpa [State.move, hvu] using hqueued
  exact ⟨fun v hv => hids.nonempty v (hsub v hv),
    fun v w hv hw => hids.distinct v w (hsub v hv) (hsub w hw)⟩

theorem start (h : QueueInv admits arn limit s) (k : ℕ) {r : Running}
    (hdelivery : s.Delivery arn limit r) (hadmits : admits r.inv) :
    QueueInv admits arn limit (s.start k r) where
  lineage := h.lineage
  covered := h.covered
  ids := ⟨h.ids.nonempty, h.ids.distinct⟩
  content := h.content
  running j q hq := by
    rcases start_cases hq with ⟨-, rfl⟩ | ⟨-, hq⟩
    · exact (runningInv_of_delivery h.ids hdelivery hadmits).of_copies_eq _ rfl
    · exact (h.running j q hq).of_copies_eq _ rfl

theorem send_content (h : QueueInv admits arn limit s) {k i : ℕ} {r : Running} {call : SendCall}
    {ids : ℕ → String} (hr : s.running k = some r) (hcall : r.handled.calls[i]? = some call)
    {u v : ℕ} {a b : Copy} (hu : u ∈ (s.send k r i call ids).ancestors v)
    (ha : (s.send k r i call ids).copies[u]? = some a)
    (hb : (s.send k r i call ids).copies[v]? = some b) : SameContent a b := by
  have hv : v < (s.send k r i call ids).copies.length := (List.getElem?_eq_some_iff.mp hb).1
  by_cases hold : v < s.copies.length
  · rw [State.ancestors_of_prefix send_grows hold] at hu
    rw [State.getElem?_of_prefix send_grows hold] at hb
    rw [State.getElem?_of_prefix send_grows ((h.lineage.below v hold u hu).trans hold)] at ha
    exact h.content u v a b hu ha hb
  · obtain ⟨entry, delivery, copy, n, horigin, hchild⟩ :=
      (h.running k r hr).new_origin hcall (Nat.not_lt.mp hold) hv
    obtain rfl : s.child r entry = b := Option.some.inj (hchild.symm.trans hb)
    rw [State.ancestors_eq hchild, horigin.child_ancestors] at hu
    rcases List.mem_cons.mp hu with rfl | hu
    · rw [State.getElem?_of_prefix send_grows horigin.lt, horigin.source] at ha
      obtain rfl := Option.some.inj ha
      exact horigin.sameContent
    · have hlt := (h.lineage.below _ horigin.lt u hu).trans horigin.lt
      rw [State.getElem?_of_prefix send_grows hlt] at ha
      exact (h.content u _ a copy hu ha horigin.source).trans horigin.sameContent

theorem send (h : QueueInv admits arn limit s) (k : ℕ) {r : Running} {i : ℕ} {call : SendCall}
    {ids : ℕ → String} (hr : s.running k = some r) (hcall : r.handled.calls[i]? = some call)
    (hids : (s.send k r i call ids).QueueIds) :
    QueueInv admits arn limit (s.send k r i call ids) where
  lineage := ((h.running k r hr).extends hcall).ordered h.lineage
  covered := by
    apply ((h.running k r hr).extends hcall).covered h.covered
    · intro v hv hheld
      rwa [send_place_old hv]
    · intro v hv _
      rw [send_place_new hv]
      rfl
  ids := hids
  content _ _ _ _ := h.send_content hr hcall
  running j q hq := by
    rcases send_cases hq with ⟨-, rfl⟩ | ⟨-, hq⟩
    · exact (h.running k r hr).sent hcall
    · exact (h.running j q hq).mono send_grows

theorem finish (h : QueueInv admits arn limit s) (k : ℕ) {r : Running} (hr : s.running k = some r)
    (hall : ∀ i < r.handled.calls.length, i ∈ r.sent) {deleted : List ℕ}
    (hdeleted : ∀ u ∈ deleted, u ∈ r.acknowledged) :
    QueueInv admits arn limit (s.finish k deleted) where
  lineage := h.lineage
  covered := by
    apply covered_of_release h.lineage h.covered
    intro v _ hheld hreleased
    by_cases hgone : v ∈ deleted ∧ s.place v = .replay
    · exact (h.running k r hr).exists_child hall (hdeleted v hgone.1)
    · simp only [State.finish, if_neg hgone] at hreleased
      exact absurd hheld hreleased
  ids := by
    have hsub : ∀ v, (s.finish k deleted).InQueue v → s.InQueue v := by
      rintro v ⟨hv, hqueued⟩
      refine ⟨hv, ?_⟩
      by_cases hgone : v ∈ deleted ∧ s.place v = .replay
      · simp [State.finish, if_pos hgone, Place.queued] at hqueued
      · simpa [State.finish, if_neg hgone] using hqueued
    exact ⟨fun v hv => h.ids.nonempty v (hsub v hv),
      fun v w hv hw => h.ids.distinct v w (hsub v hv) (hsub w hw)⟩
  content := h.content
  running j q hq := (h.running j q (finish_cases hq).2).of_copies_eq _ rfl

theorem step (h : QueueInv admits arn limit s) {s' : State}
    (hstep : Step rule admits arn limit s s') : QueueInv admits arn limit s' := by
  cases hstep with
  | consume u _ _ => exact h.move u rfl (consume_ids h.ids u)
  | redrive u ids _ _ _ hids => exact h.move u rfl hids
  | bury u ids _ _ _ hids => exact h.move u rfl hids
  | deliver k r _ hdelivery hadmits => exact h.start k hdelivery hadmits
  | send k r i call ids hr _ hcall _ hids => exact h.send k hr hcall hids
  | finish k r hr hall => exact h.finish k hr hall (rule.sparing r)

theorem run (h : QueueInv admits arn limit s) {s' : State}
    (hrun : Run rule admits arn limit s s') : QueueInv admits arn limit s' := by
  induction hrun with
  | refl => exact h
  | tail _ hstep ih => exact ih.step hstep

end QueueInv

end ReplayBackoff
