import PegaInfer.Frontend.Effect

namespace PegaInfer.Frontend

/-- Tokens carried by a request's updates. -/
def shippedTokens (updates : List RequestUpdate) : Nat := (updates.map fun update => update.tokens.length).sum

@[simp]
theorem shippedTokens_nil : shippedTokens [] = 0 := rfl

@[simp]
theorem shippedTokens_append (first second : List RequestUpdate) :
    shippedTokens (first ++ second) = shippedTokens first + shippedTokens second := by
  simp [shippedTokens]

@[simp]
theorem shippedTokens_singleton (update : RequestUpdate) : shippedTokens [update] = update.tokens.length := by
  simp [shippedTokens]

/-- No terminal has been sent. -/
def Quiet (updates : List RequestUpdate) : Prop := ∀ update ∈ updates, update.terminal = none

/-- Only the first update may carry the admission facts. -/
def ScheduledFirst (updates : List RequestUpdate) : Prop := ∀ update ∈ updates.tail, update.scheduled = none

/-- The last update, and only it, is the terminal, and it counts the tokens. -/
def Closing (updates : List RequestUpdate) : Prop :=
  ∃ front last terminal, updates = front ++ [last] ∧ Quiet front ∧ last.terminal = some terminal ∧
    terminal.completionTokens = shippedTokens updates

theorem quiet_append {first second : List RequestUpdate} :
    Quiet (first ++ second) ↔ Quiet first ∧ Quiet second := by
  simp only [Quiet, List.mem_append]
  exact ⟨fun all => ⟨fun update member => all update (.inl member), fun update member =>
    all update (.inr member)⟩,
    fun both update member => member.elim (both.1 update) (both.2 update)⟩

theorem quiet_singleton {update : RequestUpdate} : Quiet [update] ↔ update.terminal = none := by
  simp [Quiet]

theorem scheduledFirst_concat {updates : List RequestUpdate} {update : RequestUpdate} :
    ScheduledFirst (updates ++ [update]) ↔ ScheduledFirst updates ∧
      (updates ≠ [] → update.scheduled = none) := by
  cases updates with
  | nil => simp [ScheduledFirst]
  | cons first rest =>
    simp only [ScheduledFirst, List.cons_append, List.tail_cons, List.mem_append, List.mem_singleton]
    constructor
    · intro all
      exact ⟨fun other member => all other (.inl member), fun _ => all update (.inr rfl)⟩
    · rintro ⟨front, last⟩ other (member | rfl)
      · exact front other member
      · exact last (by simp)

theorem Closing.of_concat {front : List RequestUpdate} {last : RequestUpdate} {terminal : Terminal}
    (quiet : Quiet front) (ends : last.terminal = some terminal)
    (counts : terminal.completionTokens = shippedTokens (front ++ [last])) : Closing (front ++ [last]) :=
  ⟨front, last, terminal, rfl, quiet, ends, counts⟩

theorem Closing.terminal_count {updates : List RequestUpdate} (closing : Closing updates) :
    (updates.filter fun update => update.terminal.isSome).length = 1 := by
  obtain ⟨front, last, terminal, rfl, quiet, ends, _⟩ := closing
  have none : front.filter (fun update => update.terminal.isSome) = [] := by
    rw [List.filter_eq_nil_iff]
    intro update member
    simp [quiet update member]
  rw [List.filter_append, none]
  simp [ends]

theorem Quiet.terminal_count {updates : List RequestUpdate} (quiet : Quiet updates) :
    (updates.filter fun update => update.terminal.isSome).length = 0 := by
  rw [List.length_eq_zero_iff, List.filter_eq_nil_iff]
  intro update member
  simp [quiet update member]

/-- Who owes a request its answer. The five holders hand the duty from one to
the next; before submission and after the answer nobody holds it. -/
inductive Holder
  | unborn
  | envelope (envelope : Envelope)
  | account (account : Account) (record : Option RequestUpdate)
  | statement (record : RequestUpdate)
  | deferred (update : RequestUpdate)
  | answered
  | retired

/-- One request as the step stream sees it. -/
structure Life where
  holder : Holder
  shipped : List RequestUpdate

/-- Who holds the duty after a call that found the account open. -/
def Holder.afterCall : Option Account → Option RequestUpdate → Option RequestUpdate → Holder
  | some stillOpen, buffered, _ => .account stillOpen buffered
  | none, _, some handedOut => .deferred handedOut
  | none, some buffered, none => .statement buffered
  | none, none, none => .retired

/-- `Drop for RequestEnvelope`. -/
def Envelope.bomb (envelope : Envelope) : RequestUpdate :=
  { RequestUpdate.empty envelope.id with
    terminal := some (.failed "request dropped by the engine before it was answered" envelope.promptLen 0) }

/-- `Drop for DeferredFinish`: the record still ships, as a failure. -/
def dropDeferred (update : RequestUpdate) : RequestUpdate :=
  let counts := match update.terminal with
    | some (.finished _ promptTokens completionTokens) => (promptTokens, completionTokens)
    | _ => (0, update.tokens.length)
  { update with
    terminal := some (.failed "deferred finish dropped by the engine before delivery" counts.1 counts.2) }

/-- The life of one request, one hand-over at a time. -/
inductive LifeStep (id : RequestId) : Life → Life → Prop
  | submit {shipped} (envelope : Envelope) : envelope.id = id →
      LifeStep id ⟨.unborn, shipped⟩ ⟨.envelope envelope, shipped⟩
  | refuse {shipped} (envelope : Envelope) : envelope.id = id →
      LifeStep id ⟨.unborn, shipped⟩ ⟨.answered, shipped ++ [envelope.bomb]⟩
  | bomb {envelope shipped} :
      LifeStep id ⟨.envelope envelope, shipped⟩ ⟨.answered, shipped ++ [envelope.bomb]⟩
  | register {envelope shipped} : LifeStep id ⟨.envelope envelope, shipped⟩
      ⟨.account ⟨envelope.promptLen, envelope.queuedAt, .queued⟩ none, shipped⟩
  | call {account record shipped call account' record' deferred} :
      CallEffect id account record call account' record' deferred →
      LifeStep id ⟨.account account record, shipped⟩ ⟨.afterCall account' record' deferred, shipped⟩
  | commit {account record shipped} : LifeStep id ⟨.account account record, shipped⟩
      ⟨.account account none, shipped ++ record.toList.filter fun update => !update.isVacant⟩
  | commitClosed {record shipped} : LifeStep id ⟨.statement record, shipped⟩ ⟨.answered, shipped ++ [record]⟩
  | send {update shipped} : LifeStep id ⟨.deferred update, shipped⟩ ⟨.answered, shipped ++ [update]⟩
  | dropped {update shipped} :
      LifeStep id ⟨.deferred update, shipped⟩ ⟨.answered, shipped ++ [dropDeferred update]⟩
  | sweep {account shipped} : LifeStep id ⟨.account account none, shipped⟩
      ⟨.answered, shipped ++ [RequestLedger.sweepUpdate id account]⟩

/-- What holds of a life at every point of it. -/
def Life.Ok (life : Life) : Prop :=
  match life.holder with
  | .unborn | .envelope _ => life.shipped = []
  | .account account record =>
    Quiet (life.shipped ++ record.toList) ∧ ScheduledFirst (life.shipped ++ record.toList) ∧
      account.completionTokens = shippedTokens (life.shipped ++ record.toList) ∧
      (account.state = .queued → life.shipped = [] ∧ record = none)
  | .statement record => Closing (life.shipped ++ [record]) ∧ ScheduledFirst (life.shipped ++ [record])
  | .deferred update => Closing (life.shipped ++ [update]) ∧ ScheduledFirst (life.shipped ++ [update]) ∧
      ∃ reason promptTokens completionTokens,
        update.terminal = some (.finished reason promptTokens completionTokens)
  | .answered => Closing life.shipped ∧ ScheduledFirst life.shipped
  | .retired => Quiet life.shipped ∧ ScheduledFirst life.shipped

theorem quiet_record {shipped : List RequestUpdate} {record : Option RequestUpdate} (id : RequestId)
    (quiet : Quiet (shipped ++ record.toList)) : (record.getD (.empty id)).terminal = none := by
  cases record with
  | none => rfl
  | some update => exact (quiet_append.mp quiet).2 update (by simp)

theorem scheduledFirst_record {shipped : List RequestUpdate} {record : Option RequestUpdate} (id : RequestId)
    (first : ScheduledFirst (shipped ++ record.toList)) :
    ScheduledFirst shipped ∧ (shipped ≠ [] → (record.getD (.empty id)).scheduled = none) := by
  cases record with
  | none => exact ⟨by simpa using first, fun _ => rfl⟩
  | some update => exact scheduledFirst_concat.mp first

theorem shippedTokens_record (shipped : List RequestUpdate) (record : Option RequestUpdate) (id : RequestId) :
    shippedTokens (shipped ++ record.toList) =
      shippedTokens shipped + (record.getD (.empty id)).tokens.length := by
  cases record <;> simp [RequestUpdate.empty]

/-- A call keeps the life in order, whichever holder it leaves the duty with. -/
theorem CallEffect.ok {id : RequestId} {account : Account} {record : Option RequestUpdate} {call : LedgerCall}
    {account' : Option Account} {record' deferred : Option RequestUpdate} {shipped : List RequestUpdate}
    (effect : CallEffect id account record call account' record' deferred)
    (ok : Life.Ok ⟨.account account record, shipped⟩) :
    Life.Ok ⟨.afterCall account' record' deferred, shipped⟩ := by
  obtain ⟨quiet, first, counts, waiting⟩ := ok
  have shippedQuiet := (quiet_append.mp quiet).1
  have recordQuiet := quiet_record id quiet
  obtain ⟨shippedFirst, recordFirst⟩ := scheduledFirst_record id first
  rw [shippedTokens_record shipped record id] at counts
  have closes : ∀ terminal, terminal.completionTokens = account.completionTokens →
      Closing (shipped ++ [{ record.getD (.empty id) with terminal := some terminal }]) ∧
      ScheduledFirst (shipped ++ [{ record.getD (.empty id) with terminal := some terminal }]) := by
    intro terminal counted
    refine ⟨.of_concat shippedQuiet rfl ?_, scheduledFirst_concat.mpr ⟨shippedFirst, recordFirst⟩⟩
    rw [counted, counts, shippedTokens_append, shippedTokens_singleton]
  cases effect with
  | admitRequest queued =>
    obtain ⟨unshipped, unrecorded⟩ := waiting queued
    subst unshipped unrecorded
    exact ⟨by simp [Quiet, RequestUpdate.empty], by simp [ScheduledFirst],
      by simp [Account.completionTokens, RequestUpdate.empty], by simp⟩
  | write change writes active only =>
    obtain ⟨scheduled, terminal, tokens⟩ := only (record.getD (.empty id))
    refine ⟨quiet_append.mpr ⟨shippedQuiet, quiet_singleton.mpr (terminal.trans recordQuiet)⟩,
      scheduledFirst_concat.mpr ⟨shippedFirst, fun started =>
        scheduled.trans (recordFirst started)⟩, ?_, by simp⟩
    simp only [Account.completionTokens, active] at counts
    simp only [Account.completionTokens, Option.toList_some, shippedTokens_append,
      shippedTokens_singleton, tokens]
    omega
  | @settle call terminal settles counted => exact closes terminal counted
  | retire => exact ⟨shippedQuiet, shippedFirst⟩
  | @defer reason completionTokens active =>
    have counted : Terminal.completionTokens (.finished reason account.promptLen completionTokens) =
        account.completionTokens := by simp [Terminal.completionTokens, Account.completionTokens, active]
    obtain ⟨closing, scheduled⟩ := closes _ counted
    exact ⟨closing, scheduled, reason, account.promptLen, completionTokens, rfl⟩

theorem Envelope.bomb_closing (envelope : Envelope) : Closing [envelope.bomb] :=
  ⟨[], _, _, rfl, by simp [Quiet], rfl, rfl⟩

theorem LifeStep.ok {id : RequestId} {life next : Life} (step : LifeStep id life next)
    (ok : life.Ok) : next.Ok := by
  cases step with
  | submit envelope named => exact ok
  | refuse envelope named =>
    cases (show _ = [] from ok)
    exact ⟨envelope.bomb_closing, by simp [ScheduledFirst]⟩
  | @bomb envelope shipped =>
    cases (show _ = [] from ok)
    exact ⟨envelope.bomb_closing, by simp [ScheduledFirst]⟩
  | register =>
    cases (show _ = [] from ok)
    exact ⟨by simp [Quiet], by simp [ScheduledFirst], by simp [Account.completionTokens], fun _ => ⟨rfl, rfl⟩⟩
  | call effect => exact effect.ok ok
  | @commit account record shipped =>
    obtain ⟨quiet, first, counts, waiting⟩ := ok
    cases record with
    | none => exact ⟨by simpa using quiet, by simpa using first, by simpa using counts, fun queued =>
        ⟨by simpa using (waiting queued).1, rfl⟩⟩
    | some update =>
      have active : account.state ≠ .queued := fun queued => by simpa using (waiting queued).2
      by_cases vacant : update.isVacant = true
      · have untouched : (some update).toList.filter (fun update => !update.isVacant) = [] := by simp [vacant]
        rw [untouched, List.append_nil]
        simp only [Option.toList_some, shippedTokens_append, shippedTokens_singleton,
          RequestUpdate.tokens_of_isVacant vacant, List.length_nil, Nat.add_zero] at counts
        exact ⟨by simpa using (quiet_append.mp quiet).1, by simpa using (scheduledFirst_concat.mp first).1,
          by simpa using counts, fun queued => absurd queued active⟩
      · have kept : (some update).toList.filter (fun update => !update.isVacant) =
          [update] := by simp [vacant]
        rw [kept]
        exact ⟨by simpa using quiet, by simpa using first, by simpa using counts,
          fun queued => absurd queued active⟩
  | commitClosed => exact ok
  | send => exact ⟨ok.1, ok.2.1⟩
  | @dropped update shipped =>
    obtain ⟨⟨front, last, terminal, joined, quiet, ends, counts⟩, first, reason, prompt,
      completion, finished⟩ := ok
    obtain ⟨rfl, same⟩ := List.append_inj' joined rfl
    cases List.singleton_inj.mp same
    rw [finished, Option.some.injEq] at ends
    subst ends
    refine ⟨⟨_, _, .failed "deferred finish dropped by the engine before delivery" prompt
      completion, rfl, quiet, ?_, ?_⟩,
      scheduledFirst_concat.mpr ⟨(scheduledFirst_concat.mp first).1, (scheduledFirst_concat.mp first).2⟩⟩
    · simp [dropDeferred, finished]
    · simpa [Terminal.completionTokens, dropDeferred] using counts
  | @sweep account shipped =>
    obtain ⟨quiet, first, counts, waiting⟩ := ok
    simp only [Option.toList_none, List.append_nil] at quiet first counts
    refine ⟨.of_concat quiet rfl ?_, scheduledFirst_concat.mpr ⟨first, fun _ => rfl⟩⟩
    simpa [Terminal.completionTokens, RequestLedger.sweepUpdate, RequestUpdate.empty] using counts

end PegaInfer.Frontend
