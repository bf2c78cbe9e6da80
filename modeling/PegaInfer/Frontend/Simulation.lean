import PegaInfer.Frontend.Driver
import PegaInfer.Frontend.History

namespace PegaInfer.Frontend

open Relation

namespace Holder

def envelopes : Holder → List Envelope
  | .envelope held => [held]
  | _ => []

def openAccount : Holder → Option Account
  | .account held _ => some held
  | _ => none

def buffered : Holder → Option RequestUpdate
  | .account _ held => held
  | .statement held => some held
  | _ => none

def handedOut : Holder → List RequestUpdate
  | .deferred held => [held]
  | _ => []

theorem openAccount_eq_some {holder : Holder} {held : Account} (isOpen : holder.openAccount = some held) :
    holder = .account held holder.buffered := by
  cases holder <;> simp_all [openAccount, buffered]

end Holder

/-- A finish handed out carries the id of the request it finishes. -/
theorem CallEffect.handed_id {id : RequestId} {account : Account}
    {record : Option RequestUpdate} {call : LedgerCall}
    {account' : Option Account} {record' : Option RequestUpdate} {update : RequestUpdate}
    (effect : CallEffect id account record call account' record' (some update))
    (named : ∀ held, record = some held → held.id = id) : update.id = id := by
  cases effect
  cases record with
  | none => rfl
  | some held => exact named held rfl

/-- The updates a request has had on the step stream. -/
def Engine.shipped (engine : Engine) (id : RequestId) : List RequestUpdate :=
  (engine.stream.flatMap StepOutputs.updates).filter fun update => update.id = id

/-- One request's life, read off the engine: every place that could hold its
answer holds exactly what the life says. -/
structure Engine.Represents (engine : Engine) (id : RequestId) (life : Life) : Prop where
  shipped : engine.shipped id = life.shipped
  channel : engine.channel.filter (fun envelope => envelope.id = id) = life.holder.envelopes
  account : engine.ledger.accounts id = life.holder.openAccount
  record : engine.ledger.statement.record id = life.holder.buffered
  deferred : engine.deferred.filter (fun update => update.id = id) = life.holder.handedOut
  retired : id ∈ engine.retired ↔ life.holder = .retired
  born : id < engine.nextId ↔ life.holder ≠ .unborn

/-- What the driver's place in its loop says about the channel and the ledger. -/
structure Engine.InPhase (engine : Engine) : Prop where
  committed : engine.phase ≠ .stepping → ∀ id, engine.ledger.statement.record id = none
  swept : engine.phase = .ledgerDown ∨ engine.phase = .gone → ∀ id, engine.ledger.accounts id = none
  drained : engine.phase = .gone → engine.channel = []

theorem Engine.shipped_append (engine : Engine) (messages : List StepOutputs) (id : RequestId) :
    { engine with stream := engine.stream ++ messages }.shipped id =
      engine.shipped id ++ (messages.flatMap StepOutputs.updates).filter fun update => update.id = id := by
  simp [shipped]

namespace Engine

variable {engine : Engine} {id : RequestId} {life : Life}

theorem submit_represents (represents : engine.Represents id life) (promptLen : Nat) (now : Instant) :
    ∃ life', (engine.submit promptLen now).Represents id life' ∧ ReflTransGen (HandOver id) life life' := by
  obtain ⟨holder, out⟩ := life
  obtain ⟨shipped, channel, account, record, deferred, retired, born⟩ := represents
  by_cases mine : id = engine.nextId
  · subst mine
    have unborn : holder = .unborn := by simpa using born
    subst unborn
    by_cases gone : engine.phase = .gone
    · refine ⟨_, ?_, .single ⟨.refuse ⟨engine.nextId, promptLen, now⟩ rfl, .bomb rfl (by simp) _ _⟩⟩
      simp only [submit, if_pos gone]
      refine ⟨?_, channel, account, record, deferred, by simpa using retired, by simp⟩
      rw [shipped_append { engine with nextId := engine.nextId + 1 }]
      change engine.shipped _ ++ _ = _
      rw [shipped]
      simp [Envelope.bomb, RequestUpdate.empty]
    · refine ⟨_, ?_, .single ⟨.submit ⟨engine.nextId, promptLen, now⟩ rfl, fun _ told =>
        told.hand (by simp) rfl (by simp)⟩⟩
      simp only [submit, if_neg gone]
      refine ⟨shipped, ?_, account, record, deferred, by simpa using retired, by simp⟩
      simp only [List.filter_append, channel]
      simp [Holder.envelopes]
  · refine ⟨⟨holder, out⟩, ?_, .refl⟩
    have later : id < engine.nextId + 1 ↔ id < engine.nextId :=
      ⟨fun below => Nat.lt_of_le_of_ne (Nat.lt_succ_iff.mp below) mine, fun below => Nat.lt_succ_of_lt below⟩
    have other : ¬ engine.nextId = id := fun same => mine same.symm
    unfold submit
    split
    · refine ⟨?_, channel, account, record, deferred, retired, later.trans born⟩
      rw [shipped_append { engine with nextId := engine.nextId + 1 }]
      change engine.shipped _ ++ _ = _
      rw [shipped]
      simp [Envelope.bomb, RequestUpdate.empty, other]
    · refine ⟨shipped, ?_, account, record, deferred, retired, later.trans born⟩
      simp only [List.filter_append, channel]
      simp [other]

theorem register_represents {envelope : Envelope} {rest : List Envelope} {ledger : RequestLedger}
    (represents : engine.Represents id life) (queue : engine.channel = envelope :: rest)
    (run : engine.ledger.register envelope = .returned ledger none) :
    ∃ life', { engine with channel := rest, ledger }.Represents id life' ∧
      ReflTransGen (HandOver id) life life' := by
  obtain ⟨holder, out⟩ := life
  obtain ⟨shipped, channel, account, record, deferred, retired, born⟩ := represents
  simp only [RequestLedger.register] at run
  split at run
  · cases run
  cases run
  rw [queue] at channel
  by_cases mine : envelope.id = id
  · have only : holder = .envelope envelope ∧ rest.filter (fun envelope => envelope.id = id) = [] := by
      rw [List.filter_cons_of_pos (by simpa using mine)] at channel
      cases holder <;> simp_all [Holder.envelopes]
    obtain ⟨rfl, empty⟩ := only
    refine ⟨_, ?_, .single ⟨.register, fun _ told => told.hand (by simp) rfl (by simp)⟩⟩
    refine ⟨shipped, empty, ?_, record, deferred, by simpa using retired, by simpa using born⟩
    simp [mine, Holder.openAccount]
  · rw [List.filter_cons_of_neg (by simpa using mine)] at channel
    refine ⟨⟨holder, out⟩, ⟨shipped, channel, ?_, record, deferred, retired, born⟩, .refl⟩
    rw [← account]
    exact Function.update_of_ne (fun same => mine same.symm) _ _

theorem retiredBy_of_writes {call : LedgerCall} (writes : call.writes = true) : retiredBy call = [] := by
  cases call <;> first | rfl | cases writes

theorem retiredBy_of_settles {call : LedgerCall} (settles : call.settles = true) : retiredBy call = [] := by
  cases call <;> first | rfl | cases settles

theorem retiredBy_id {call : LedgerCall} (member : id ∈ retiredBy call) : call.id = id := by
  cases call with
  | retire owner => exact (List.mem_singleton.mp member).symm
  | _ => cases member

/-- A returning call, on the request it names. -/
theorem call_represents_self {call : LedgerCall} {ledger : RequestLedger} {handed : Option RequestUpdate}
    (represents : engine.Represents id life) (run : engine.ledger.call call = .returned ledger handed)
    (mine : call.id = id) :
    ∃ account, life.holder = .account account life.holder.buffered ∧
      CallEffect id account life.holder.buffered call (ledger.accounts id)
        (ledger.statement.record id) handed ∧
      (engine.afterCall call ledger handed).Represents id
        ⟨.afterCall (ledger.accounts id) (ledger.statement.record id) handed, life.shipped⟩ := by
  obtain ⟨account, isOpen, effect, same⟩ := RequestLedger.call_effect run
  rw [mine] at isOpen effect same
  obtain ⟨holder, out⟩ := life
  obtain ⟨shipped, channel, accounts, record, deferred, retired, born⟩ := represents
  have held := Holder.openAccount_eq_some (accounts.symm.trans isOpen)
  obtain ⟨buffered, rfl⟩ : ∃ buffered, holder = .account account buffered := ⟨_, held⟩
  have named : ((engine.ledger.statement.record id).getD (.empty id)).id = id := by
    cases recorded : engine.ledger.statement.record id with
    | none => rfl
    | some update => exact StepStatement.record_id recorded
  refine ⟨account, rfl, record ▸ effect, ?_⟩
  simp only [Holder.handedOut] at deferred
  have unretired : id ∉ engine.retired := by simpa using retired
  have alive : id < engine.nextId := by simpa using born
  clear run mine
  generalize after : ledger.accounts id = account' at effect ⊢
  generalize recorded : ledger.statement.record id = record' at effect ⊢
  cases effect with
  | admitRequest queued =>
    exact ⟨shipped, channel, after,
      recorded, by simp [afterCall, deferred, Holder.handedOut, Holder.afterCall],
      by simp [afterCall, retiredBy, Holder.afterCall, unretired], by
        simp [afterCall, alive, Holder.afterCall]⟩
  | write change writes active only =>
    have kept := retiredBy_of_writes writes
    exact ⟨shipped, channel, after,
      recorded, by simp [afterCall, deferred, Holder.handedOut, Holder.afterCall],
      by simp [afterCall, kept, Holder.afterCall, unretired], by simp [afterCall, alive, Holder.afterCall]⟩
  | settle settles counted =>
    have kept := retiredBy_of_settles settles
    exact ⟨shipped, channel, after,
      recorded, by simp [afterCall, deferred, Holder.handedOut, Holder.afterCall],
      by simp [afterCall, kept, Holder.afterCall, unretired], by simp [afterCall, alive, Holder.afterCall]⟩
  | retire =>
    exact ⟨shipped, channel, after,
      recorded, by simp [afterCall, deferred, Holder.handedOut, Holder.afterCall],
      by simp [afterCall, retiredBy, Holder.afterCall], by simp [afterCall, alive, Holder.afterCall]⟩
  | defer active =>
    refine ⟨shipped, channel, after, recorded,
      ?_, by simp [afterCall, retiredBy, Holder.afterCall, unretired],
      by simp [afterCall, alive, Holder.afterCall]⟩
    simp only [afterCall, List.filter_append, deferred, Holder.handedOut, Holder.afterCall]
    simp [named]

/-- A returning call, on every other request. -/
theorem call_represents_other {call : LedgerCall} {ledger : RequestLedger} {handed : Option RequestUpdate}
    (represents : engine.Represents id life) (run : engine.ledger.call call = .returned ledger handed)
    (apart : call.id ≠ id) : (engine.afterCall call ledger handed).Represents id life := by
  obtain ⟨account, isOpen, effect, same⟩ := RequestLedger.call_effect run
  obtain ⟨sameAccount, sameRecord⟩ := same id (Ne.symm apart)
  have others : handed.toList.filter (fun update => update.id = id) = [] := by
    cases handed with
    | none => rfl
    | some update =>
      have named := effect.handed_id (fun _ recorded => StepStatement.record_id recorded)
      simp [named, apart]
  have kept : id ∉ retiredBy call := fun member => apart (retiredBy_id member)
  exact ⟨represents.shipped, represents.channel, sameAccount.trans represents.account,
    sameRecord.trans represents.record, by simp [afterCall, others, represents.deferred],
    by simp [afterCall, kept, represents.retired], represents.born⟩

theorem call_represents (call : LedgerCall) {ledger : RequestLedger} {handed : Option RequestUpdate}
    (represents : engine.Represents id life) (run : engine.ledger.call call = .returned ledger handed) :
    ∃ life', (engine.afterCall call ledger handed).Represents id life' ∧
      ReflTransGen (LifeStep id) life life' := by
  by_cases mine : call.id = id
  · obtain ⟨account, holds, effect, after⟩ := call_represents_self represents run mine
    refine ⟨_, after, .single ?_⟩
    obtain ⟨holder, out⟩ := life
    have step : LifeStep id ⟨.account account holder.buffered, out⟩ _ := .call effect
    rwa [← holds] at step
  · exact ⟨life, call_represents_other represents run mine, .refl⟩

theorem commitStep_updates (ledger : RequestLedger) (id : RequestId) :
    (ledger.commitStep.2.flatMap StepOutputs.updates).filter (fun update => update.id = id) =
      (ledger.statement.record id).toList.filter fun update => !update.isVacant := by
  rw [← StepStatement.takeUpdates_filter_id]
  simp only [RequestLedger.commitStep]
  split
  · rename_i nothing
    simp [nothing]
  · simp

theorem commitStep_represents (represents : engine.Represents id life) (ok : life.Ok) :
    ∃ life', engine.commitStep.Represents id life' ∧ ReflTransGen (HandOver id) life life' := by
  obtain ⟨holder, out⟩ := life
  obtain ⟨shipped, channel, account, record, deferred, retired, born⟩ := represents
  have ships : engine.commitStep.shipped id =
      out ++ holder.buffered.toList.filter fun update => !update.isVacant := by
    change ({ engine with ledger := engine.ledger.commitStep.1, stream := _ ++ _ } : Engine).shipped id = _
    rw [shipped_append { engine with ledger := engine.ledger.commitStep.1 }, commitStep_updates, record]
    exact congrArg (· ++ _) shipped
  cases holder with
  | account held buffered =>
    refine ⟨_, ?_, .single ⟨.commit, .commit _ _ _⟩⟩
    exact ⟨ships, channel, account, rfl, deferred, retired.trans (by simp), born.trans (by simp)⟩
  | statement buffered =>
    obtain ⟨⟨front, last, terminal, joined, quiet, ends, counts⟩, _⟩ := ok
    obtain ⟨_, same⟩ := List.append_inj' joined rfl
    cases List.singleton_inj.mp same
    have kept : (Holder.statement buffered).buffered.toList.filter
        (fun update => !update.isVacant) = [buffered] := by
      simp [Holder.buffered, RequestUpdate.not_isVacant_of_terminal ends]
    rw [kept] at ships
    refine ⟨_, ?_, .single ⟨.commitClosed, .send rfl (by simp) rfl _⟩⟩
    exact ⟨ships, channel, account, rfl, deferred, retired.trans (by simp), born.trans (by simp)⟩
  | _ =>
    exact ⟨_, ⟨by simpa [Holder.buffered] using ships, channel, account, rfl, deferred, retired, born⟩, .refl⟩

theorem fail_represents {owner : RequestId} {message : String} {ledger : RequestLedger}
    {handed : Option RequestUpdate}
    (represents : engine.Represents id life)
    (run : engine.ledger.fail owner message = .returned ledger handed) :
    ∃ life', { engine with ledger }.Represents id life' ∧ ReflTransGen (HandOver id) life life' := by
  have none : handed = none := by
    simp only [RequestLedger.fail] at run
    split at run <;> cases run
    rfl
  subst none
  by_cases mine : owner = id
  · obtain ⟨account, holds, effect, after⟩ :=
      @call_represents_self _ _ _ (.fail owner message) _ _ represents run mine
    refine ⟨_, by simpa [afterCall, retiredBy] using after, .single ?_⟩
    obtain ⟨holder, out⟩ := life
    have step : LifeStep id ⟨.account account holder.buffered, out⟩ _ := .call effect
    rw [← holds] at step
    refine ⟨step, ?_⟩
    generalize ledger.accounts id = account' at effect
    generalize ledger.statement.record id = record' at effect
    simp only at holds
    rw [holds]
    cases effect with
    | settle settles counted => exact .settle id account _ _ out
    | write change writes active only => cases writes
  · have stays := @call_represents_other _ _ _ (.fail owner message) _ _ represents run mine
    exact ⟨life, by simpa [afterCall, retiredBy] using stays, .refl⟩

theorem failAll_represents {message : String} {order : List RequestId} {ledger : RequestLedger}
    {handed : Option RequestUpdate} (represents : engine.Represents id life)
    (run : engine.ledger.failAll message order = .returned ledger handed) :
    ∃ life', { engine with ledger }.Represents id life' ∧ ReflTransGen (HandOver id) life life' := by
  induction order generalizing engine life with
  | nil =>
    cases run
    exact ⟨life, represents, .refl⟩
  | cons owner order ih =>
    rw [RequestLedger.failAll] at run
    split at run
    · rename_i next handed' first
      obtain ⟨middle, failed, steps⟩ := fail_represents represents first
      obtain ⟨last, done, more⟩ := @ih { engine with ledger := next } _ failed run
      exact ⟨last, done, steps.trans more⟩
    · cases run

theorem sweep_updates {ledger : RequestLedger} {order : List RequestId} (drains : ledger.Enumerates order)
    (id : RequestId) :
    ((ledger.drop order).flatMap StepOutputs.updates).filter (fun update => update.id = id) =
      ((ledger.accounts id).map (RequestLedger.sweepUpdate id)).toList := by
  have swept : ∀ ids : List RequestId, ids.Nodup →
      (ids.filterMap fun owner => (ledger.accounts owner).map (RequestLedger.sweepUpdate owner)).filter
        (fun update => update.id = id) =
      if id ∈ ids then ((ledger.accounts id).map (RequestLedger.sweepUpdate id)).toList else [] := by
    intro ids distinct
    induction ids with
    | nil => rfl
    | cons owner ids ih =>
      obtain ⟨fresh, rest⟩ := List.nodup_cons.mp distinct
      cases held : ledger.accounts owner with
      | none =>
        rw [List.filterMap_cons_none (by simp [held]), ih rest]
        by_cases same : id = owner
        · subst same
          simp [held]
        · simp [same]
      | some account =>
        rw [@List.filterMap_cons_some _ _ _ _ _ (RequestLedger.sweepUpdate owner account)
          (by simp [held]), List.filter_cons,
          ih rest]
        by_cases same : id = owner
        · subst same
          simp [held, fresh, RequestLedger.sweepUpdate, RequestUpdate.empty]
        · have other : ¬ owner = id := fun eq => same eq.symm
          simp [same, other, RequestLedger.sweepUpdate, RequestUpdate.empty]
  have visits := drains.2 id
  unfold RequestLedger.drop
  split
  · rename_i empty
    subst empty
    cases held : ledger.accounts id with
    | none => rfl
    | some account => simp [held] at visits
  · simp only [List.flatMap_cons, List.flatMap_nil, List.append_nil]
    rw [swept order drains.1]
    cases held : ledger.accounts id with
    | none => simp
    | some account => simp [visits, held]

theorem dropLedger_represents {order : List RequestId} (represents : engine.Represents id life)
    (committed : engine.ledger.statement.record id = none) (drains : engine.ledger.Enumerates order) :
    ∃ life', (engine.dropLedger order).Represents id life' ∧ ReflTransGen (HandOver id) life life' := by
  obtain ⟨holder, out⟩ := life
  obtain ⟨shipped, channel, account, record, deferred, retired, born⟩ := represents
  have ships : (engine.dropLedger order).shipped id =
      out ++ (holder.openAccount.map (RequestLedger.sweepUpdate id)).toList := by
    change ({ engine with ledger := .new, phase := .ledgerDown, stream := _ ++ _ } : Engine).shipped id = _
    rw [shipped_append { engine with ledger := .new, phase := .ledgerDown }, sweep_updates drains, account]
    exact congrArg (· ++ _) shipped
  cases holder with
  | account held buffered =>
    have none : buffered = none := record.symm.trans committed
    subst none
    refine ⟨_, ?_, .single ⟨.sweep, .sweep _ _ _⟩⟩
    exact ⟨ships, channel, rfl, rfl, deferred, retired.trans (by simp), born.trans (by simp)⟩
  | statement buffered => cases record.symm.trans committed
  | _ =>
    exact ⟨_, ⟨by simpa [Holder.openAccount] using ships, channel, rfl, rfl, deferred, retired, born⟩, .refl⟩

theorem dropSubmissions_represents (represents : engine.Represents id life) :
    ∃ life', engine.dropSubmissions.Represents id life' ∧ ReflTransGen (HandOver id) life life' := by
  obtain ⟨holder, out⟩ := life
  obtain ⟨shipped, channel, account, record, deferred, retired, born⟩ := represents
  have bombs : ∀ queue : List Envelope,
      ((queue.map fun envelope => (⟨[envelope.bomb]⟩ : StepOutputs)).flatMap StepOutputs.updates).filter
        (fun update => update.id = id) =
      (queue.filter fun envelope => envelope.id = id).map Envelope.bomb := by
    intro queue
    induction queue with
    | nil => rfl
    | cons envelope queue ih =>
      simp only [List.map_cons, List.flatMap_cons, List.filter_append, ih, List.filter_cons]
      by_cases mine : envelope.id = id
      · simp [mine, Envelope.bomb, RequestUpdate.empty]
      · simp [mine, Envelope.bomb, RequestUpdate.empty]
  have ships : engine.dropSubmissions.shipped id = out ++ holder.envelopes.map Envelope.bomb := by
    change ({ engine with channel := [], phase := .gone, stream := _ ++ _ } : Engine).shipped id = _
    rw [shipped_append { engine with channel := [], phase := .gone }, bombs, channel]
    exact congrArg (· ++ _) shipped
  cases holder with
  | envelope held =>
    refine ⟨_, ?_, .single ⟨.bomb, .bomb rfl (by simp) _ _⟩⟩
    exact ⟨ships, rfl, account, record, deferred, retired.trans (by simp), born.trans (by simp)⟩
  | _ =>
    exact ⟨_, ⟨by simpa [Holder.envelopes] using ships, rfl, account, record, deferred, retired, born⟩, .refl⟩

/-- A finish leaves its holder as `sent`: itself, or its failed rewriting. -/
theorem deliver_represents {before after : List RequestUpdate} {update sent : RequestUpdate}
    (represents : engine.Represents id life) (held : engine.deferred = before ++ update :: after)
    (named : sent.id = update.id) (delivers : sent = update ∨ sent = dropDeferred update) :
    ∃ life', { engine with
      deferred := before ++ after
      stream := engine.stream ++ [StepOutputs.mk [sent]] }.Represents id life' ∧
      ReflTransGen (HandOver id) life life' := by
  obtain ⟨holder, out⟩ := life
  obtain ⟨shipped, channel, account, record, deferred, retired, born⟩ := represents
  have ships : ({ engine with deferred := before ++ after, stream := engine.stream ++ [⟨[sent]⟩] } :
    Engine).shipped id =
      out ++ [sent].filter fun update => update.id = id := by
    rw [shipped_append { engine with deferred := before ++ after }]
    simp only [List.flatMap_cons, List.flatMap_nil, List.append_nil]
    exact congrArg (· ++ _) shipped
  rw [held, List.filter_append] at deferred
  by_cases mine : update.id = id
  · rw [List.filter_cons_of_pos (by simpa using mine)] at deferred
    have only : holder = .deferred update ∧ (before ++ after).filter (fun update => update.id = id) = [] := by
      rw [List.filter_append]
      cases holder <;> simp_all [Holder.handedOut, List.append_eq_cons_iff]
    obtain ⟨rfl, empty⟩ := only
    rw [List.filter_cons_of_pos (by simpa using named.trans mine)] at ships
    rcases delivers with rfl | rfl
    · refine ⟨_, ?_, .single ⟨.send, .send rfl (by simp) rfl _⟩⟩
      exact ⟨ships, channel, account, record, empty, retired.trans (by simp), born.trans (by simp)⟩
    · refine ⟨_, ?_, .single ⟨.dropped, .dropped update out⟩⟩
      exact ⟨ships, channel, account, record, empty, retired.trans (by simp), born.trans (by simp)⟩
  · rw [List.filter_cons_of_neg (by simpa using mine), ← List.filter_append] at deferred
    rw [List.filter_cons_of_neg (by simpa [named] using mine), List.filter_nil, List.append_nil] at ships
    exact ⟨_, ⟨ships, channel, account, record, deferred, retired, born⟩, .refl⟩

end Engine

end PegaInfer.Frontend
