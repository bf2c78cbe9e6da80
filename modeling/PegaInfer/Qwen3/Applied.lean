import PegaInfer.Qwen3.Entries

namespace PegaInfer.Qwen3

open Frontend
open SwapRemove

section

variable {telling : Telling} {submitted : List Submission} {machine : Machine} {entries : Multiset Entry}

/-- An event a request may see where it stands. -/
theorem Kept.note {entry : Entry} {next : Machine} {event : Event}
    (kept : Kept telling submitted machine entries)
    (member : entry ∈ entries) (did : Did entry.id machine next [event])
    (notes : entry.stage.notes event = true)
    (standing : entry.stage.Standing (next.ledger.accounts entry.id)) :
    Kept telling submitted next entries := by
  obtain ⟨rest, rfl⟩ := Multiset.exists_cons_of_mem member
  refine kept.move did entry rfl ?_ standing
  intro submission _ own agrees life
  exact ⟨agrees, life.noted event notes (own ▸ did.about event (by simp))⟩

theorem Kept.record {entry : Entry} {event : Event} (kept : Kept telling submitted machine entries)
    (member : entry ∈ entries)
    (about : event.about = some entry.id) (notes : entry.stage.notes event = true) :
    Kept telling submitted (machine.record event) entries :=
  kept.note member (machine.record_did about) notes (kept.standing member)

/-- Events recorded for some of the entries, one after the other. -/
theorem Kept.recordAll {event : RequestId → Event} {ids : List RequestId}
    (kept : Kept telling submitted machine entries)
    (about : ∀ id, (event id).about = some id)
    (known : ∀ id ∈ ids, ∃ entry ∈ entries, entry.id = id ∧ entry.stage.notes (event id) = true) :
    Kept telling submitted (ids.foldl (fun machine id => machine.record (event id)) machine) entries ∧
      (ids.foldl (fun machine id => machine.record (event id)) machine).scheduler = machine.scheduler := by
  induction ids generalizing machine with
  | nil => exact ⟨kept, rfl⟩
  | cons id ids ih =>
    obtain ⟨entry, member, own, notes⟩ := known id List.mem_cons_self
    have first := kept.record member (by rw [about, own]) notes
    exact ih first fun other later => known other (List.mem_cons_of_mem _ later)

/-- A retirement closes whatever is at hand. -/
theorem Kept.retireAborted {entry : Entry} (kept : Kept telling submitted machine (entry ::ₘ entries))
    (running : entry.stage = .waiting ∨ entry.stage.isRunning = true) :
    Kept telling submitted (machine.retireAborted entry.id) entries ∧
      (machine.retireAborted entry.id).scheduler = machine.scheduler := by
  have held := Stage.Standing.isSome (kept.standing (Multiset.mem_cons_self entry entries))
  obtain ⟨called, closed⟩ := @Machine.call_did machine (.retire entry.id) held
  have did := called.trans ((machine.call (.retire entry.id)).dropRequest_did entry.id)
  refine ⟨kept.close did ?_ closed, did.scheduler⟩
  intro submission own life
  have ended := life.retired running
  rwa [own] at ended

theorem Kept.rejectPending {req : PendingRequest}
    (kept : Kept telling submitted machine (.waiting req ::ₘ entries))
    (reason : RejectReason) :
    Kept telling submitted (machine.rejectPending req reason) entries ∧
      (machine.rejectPending req reason).scheduler = machine.scheduler := by
  have queued : Queued (machine.ledger.accounts req.requestId) :=
    kept.standing (Multiset.mem_cons_self _ entries)
  obtain ⟨called, closed⟩ := @Machine.call_did machine (.reject req.requestId reason) queued
  have did := called.trans ((machine.call (.reject req.requestId reason)).dropRequest_did req.requestId)
  refine ⟨@Kept.close _ _ _ _ _ (.waiting req) _ kept did ?_ closed, did.scheduler⟩
  intro submission own life
  have ended := life.rejected reason
  rwa [own] at ended

theorem Kept.rejectAll {items : List (PendingRequest × RejectReason)}
    (kept : Kept telling submitted machine (every (fun item => .waiting item.1) items + entries)) :
    Kept telling submitted (items.foldl (fun machine item =>
      machine.rejectPending item.1 item.2) machine) entries ∧
      (items.foldl (fun machine item => machine.rejectPending item.1 item.2) machine).scheduler =
        machine.scheduler := by
  induction items generalizing machine with
  | nil => exact ⟨by simpa using kept, rfl⟩
  | cons item items ih =>
    rw [every_cons, Multiset.cons_add] at kept
    obtain ⟨first, same⟩ := kept.rejectPending item.2
    obtain ⟨rest, later⟩ := ih first
    exact ⟨rest, later.trans same⟩

/-- `fail_touched_requests` on one target that runs. -/
theorem Kept.failOne {entry : Entry} (kept : Kept telling submitted machine (entry ::ₘ entries))
    (running : entry.stage.isRunning = true)
    (message : String) :
    Kept telling submitted ((machine.callIfActive (.fail entry.id message)).dropRequest entry.id) entries ∧
      ((machine.callIfActive (.fail entry.id message)).dropRequest entry.id).scheduler =
        machine.scheduler := by
  have standing := kept.standing (Multiset.mem_cons_self entry entries)
  have active : Admitted (machine.ledger.accounts entry.id) := by
    cases entry with
    | filling | decoding => exact standing
    | held | waiting | finishing => simp [Entry.stage, Stage.isRunning] at running
  have same : machine.callIfActive (.fail entry.id message) = machine.call (.fail entry.id message) := by
    simp [Machine.callIfActive, LedgerCall.id, active.isActive]
  obtain ⟨called, closed⟩ := @Machine.call_did machine (.fail entry.id message)
    (Stage.Standing.isSome standing)
  have did := called.trans ((machine.call (.fail entry.id message)).dropRequest_did entry.id)
  rw [same]
  refine ⟨kept.close did ?_ closed, did.scheduler⟩
  intro submission own life
  have ended := life.failed message running
  rwa [own] at ended

theorem Kept.failAll {items : List Entry}
    (kept : Kept telling submitted machine ((items : Multiset Entry) + entries))
    (running : ∀ entry ∈ items, entry.stage.isRunning = true) (message : String) :
    Kept telling submitted ((items.map Entry.id).foldl
        (fun machine id => (machine.callIfActive (.fail id message)).dropRequest id) machine) entries ∧
      ((items.map Entry.id).foldl
        (fun machine id => (machine.callIfActive (.fail id message)).dropRequest id)
          machine).scheduler = machine.scheduler := by
  induction items generalizing machine with
  | nil => exact ⟨by simpa using kept, rfl⟩
  | cons entry items ih =>
    rw [← Multiset.cons_coe, Multiset.cons_add] at kept
    obtain ⟨first, same⟩ := kept.failOne (running entry List.mem_cons_self) message
    obtain ⟨rest, later⟩ := ih first fun other member => running other (List.mem_cons_of_mem _ member)
    exact ⟨rest, later.trans same⟩

/-- The calls that write to a request being prefilled. -/
theorem Kept.callsIfActive {calls : List LedgerCall} (kept : Kept telling submitted machine entries)
    (known : ∀ call ∈ calls, ∃ req, Entry.filling req ∈ entries ∧ req.requestId = call.id)
    (writes : ∀ call ∈ calls, Stage.filling.notes (.called call) = true) :
    Kept telling submitted (calls.foldl Machine.callIfActive machine) entries ∧
      (calls.foldl Machine.callIfActive machine).scheduler = machine.scheduler ∧
      (calls.foldl Machine.callIfActive machine).events = machine.events ++ calls.map .called := by
  induction calls generalizing machine with
  | nil => exact ⟨kept, rfl, by simp⟩
  | cons call calls ih =>
    obtain ⟨req, member, own⟩ := known call List.mem_cons_self
    have active : Admitted (machine.ledger.accounts call.id) := own ▸ kept.standing member
    have allowed : LedgerCall.Allowed (machine.ledger.accounts call.id) call := by
      have notes := writes call List.mem_cons_self
      cases call <;> first | exact active | simp [Stage.notes] at notes
    have stays : LedgerCall.closes call = false := by
      have notes := writes call List.mem_cons_self
      cases call <;> first | rfl | simp [Stage.notes] at notes
    have same : machine.callIfActive call = machine.call call := by
      simp [Machine.callIfActive, active.isActive]
    obtain ⟨did, left⟩ := Machine.call_did allowed
    rw [stays] at left
    have named : (Entry.filling req).id = call.id := own
    have first : Kept telling submitted (machine.call call) entries :=
      kept.note member (by rwa [named]) (writes call List.mem_cons_self) (by rw [named]; exact left)
    rw [List.foldl_cons, same]
    obtain ⟨rest, later, events⟩ := ih first (fun other member => known other (List.mem_cons_of_mem _ member))
      (fun other member => writes other (List.mem_cons_of_mem _ member))
    exact ⟨rest, later.trans did.scheduler, by rw [events, did.events]; simp⟩

/-- The finishes collected over a step are resolved at its end. -/
theorem Kept.finishAll {finishes : List (RequestId × FinishReason)} (withholdsFinishes : Bool)
    (kept : Kept telling submitted machine (every .finishing finishes + entries)) :
    Kept telling submitted (finishes.foldl (fun machine ended =>
        machine.call (if withholdsFinishes then .deferFinish ended.1 ended.2
          else .finish ended.1 ended.2)) machine) entries ∧
      (finishes.foldl (fun machine ended =>
        machine.call (if withholdsFinishes then .deferFinish ended.1 ended.2
          else .finish ended.1 ended.2)) machine).scheduler =
        machine.scheduler := by
  induction finishes generalizing machine with
  | nil => exact ⟨by simpa using kept, rfl⟩
  | cons ended finishes ih =>
    rw [every_cons, Multiset.cons_add] at kept
    have active : Admitted (machine.ledger.accounts ended.1) := kept.standing (Multiset.mem_cons_self _ _)
    have first : ∃ call : LedgerCall, call =
      (if withholdsFinishes then .deferFinish ended.1 ended.2 else .finish ended.1 ended.2) ∧
        Kept telling submitted (machine.call call) (every .finishing finishes + entries) ∧
        (machine.call call).scheduler = machine.scheduler := by
      cases withholdsFinishes with
      | true =>
        obtain ⟨did, closed⟩ := @Machine.call_did machine (.deferFinish ended.1 ended.2) active
        refine ⟨_, rfl, @Kept.close _ _ _ _ _ (.finishing ended) _ kept did ?_ closed, did.scheduler⟩
        intro submission own life
        have over_ := life.deferred
        rwa [own] at over_
      | false =>
        obtain ⟨did, closed⟩ := @Machine.call_did machine (.finish ended.1 ended.2) active
        refine ⟨_, rfl, @Kept.close _ _ _ _ _ (.finishing ended) _ kept did ?_ closed, did.scheduler⟩
        intro submission own life
        have over_ := life.finished
        rwa [own] at over_
    obtain ⟨call, rfl, closed, same⟩ := first
    obtain ⟨rest, later⟩ := ih closed
    exact ⟨rest, later.trans same⟩

/-- What admission makes of one request. -/
theorem Kept.admitOrRetire {req : PendingRequest}
    (kept : Kept telling submitted machine (.waiting req ::ₘ entries))
    (aborted : RequestId → Bool) (now : Instant) :
    ∃ admitted, (machine.admitOrRetire aborted now req).scheduler =
        { machine.scheduler with prefilling := machine.scheduler.prefilling ++ admitted } ∧
      Kept telling submitted (machine.admitOrRetire aborted now req) (every .filling admitted + entries) := by
  have queued : Queued (machine.ledger.accounts req.requestId) :=
    kept.standing (Multiset.mem_cons_self _ entries)
  have probed : machine.probe req.requestId = machine := Machine.probe_eq (by
    obtain ⟨held, opened, -⟩ := queued
    simp [opened])
  by_cases flag : aborted req.requestId = true
  · obtain ⟨closed, same⟩ := kept.retireAborted (.inl rfl)
    have run : machine.admitOrRetire aborted now req = machine.retireAborted req.requestId := by
      simp [Machine.admitOrRetire, probed, flag]
    refine ⟨[], ?_, ?_⟩
    · rw [run, List.append_nil]
      exact same
    · rw [run, every_nil, zero_add]
      exact closed
  · obtain ⟨did, active⟩ := @Machine.call_did machine (.admitRequest req.requestId now) queued
    have moved : Kept telling submitted (machine.call (.admitRequest req.requestId now))
        (.filling req ::ₘ entries) := by
      refine @Kept.move _ _ _ _ _ (.waiting req) _ kept did (.filling req) rfl ?_ active
      intro submission _ own agrees life
      refine ⟨agrees, ?_⟩
      have admitted := life.admitted now
      rwa [own] at admitted
    refine ⟨[req], ?_, ?_⟩
    · simp [Machine.admitOrRetire, probed, flag, Machine.update, did.scheduler]
    · simpa [Machine.admitOrRetire, probed, flag] using moved.update _

theorem Kept.admitMany {items : List PendingRequest} (aborted : RequestId → Bool) (now : Instant)
    (kept : Kept telling submitted machine (every .waiting items + entries)) :
    ∃ admitted, (items.foldl (fun machine req => machine.admitOrRetire aborted now req) machine).scheduler =
        { machine.scheduler with prefilling := machine.scheduler.prefilling ++ admitted } ∧
      Kept telling submitted (items.foldl (fun machine req => machine.admitOrRetire aborted now req) machine)
        (every .filling admitted + entries) := by
  induction items generalizing machine entries with
  | nil => exact ⟨[], by simp, by simpa using kept⟩
  | cons req items ih =>
    rw [every_cons, Multiset.cons_add] at kept
    obtain ⟨one, same, first⟩ := kept.admitOrRetire aborted now
    have regroup : every .filling one + (every .waiting items + entries) =
        every .waiting items + (every .filling one + entries) := by
      abel
    rw [regroup] at first
    obtain ⟨more, later, rest⟩ := ih first
    refine ⟨one ++ more, ?_, ?_⟩
    · rw [List.foldl_cons, later, same]
      simp
    · have regroup : every .filling (one ++ more) + entries =
        every .filling more + (every .filling one + entries) := by
        rw [every_append]
        abel
      rw [regroup]
      exact rest

end

end PegaInfer.Qwen3
