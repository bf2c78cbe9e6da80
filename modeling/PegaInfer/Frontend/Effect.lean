import PegaInfer.Frontend.Ledger

namespace PegaInfer.Frontend

/-- Tokens a call appends to its request. -/
def LedgerCall.pushed : LedgerCall → Nat
  | .pushTokens _ ids _ => ids.length
  | _ => 0

/-- The calls that write a section of an open account's record. -/
def LedgerCall.writes : LedgerCall → Bool
  | .pushTokens _ _ _ | .setCachedTokens _ _ | .echoPrompt _ _ | .kvTransfer _ _ => true
  | _ => false

/-- The calls that close an account by buffering its terminal. -/
def LedgerCall.settles : LedgerCall → Bool
  | .reject _ _ | .finish _ _ | .fail _ _ => true
  | _ => false

/-- Everything a returning call can do to the one request it names: from its
open account and this step's record to what is left of both, and the finish
handed out, if any. -/
inductive CallEffect (id : RequestId) (account : Account) (record : Option RequestUpdate) :
    LedgerCall → Option Account → Option RequestUpdate → Option RequestUpdate → Prop
  | admitRequest {now} : account.state = .queued →
      CallEffect id account record (.admitRequest id now) (some { account with state := .active 0 })
        (some { record.getD (.empty id) with
          scheduled := some ⟨account.queuedAt, now, account.promptLen⟩ }) none
  | write {call completionTokens} (change : RequestUpdate → RequestUpdate) : call.writes = true →
      account.state = .active completionTokens →
      (∀ update, (change update).scheduled = update.scheduled ∧ (change update).terminal = update.terminal ∧
        (change update).tokens.length = update.tokens.length + call.pushed) →
      CallEffect id account record call
        (some { account with state := .active (completionTokens + call.pushed) })
        (some (change (record.getD (.empty id)))) none
  | settle {call terminal} : call.settles = true → terminal.completionTokens = account.completionTokens →
      CallEffect id account record call none
        (some { record.getD (.empty id) with terminal := some terminal }) none
  | retire : CallEffect id account record (.retire id) none none none
  | defer {reason completionTokens} : account.state = .active completionTokens →
      CallEffect id account record (.deferFinish id reason) none none
        (some { record.getD (.empty id) with
          terminal := some (.finished reason account.promptLen completionTokens) })

/-- A call leaves every other request alone. -/
def RequestLedger.SameElsewhere (ledger next : RequestLedger) (id : RequestId) : Prop :=
  ∀ other, other ≠ id →
    next.accounts other = ledger.accounts other ∧ next.statement.record other = ledger.statement.record other

namespace RequestLedger

theorem settle_effect (ledger : RequestLedger) (id : RequestId) (terminal : Terminal) :
    ((ledger.close id).settle id terminal).accounts id = none ∧
    ((ledger.close id).settle id terminal).statement.record id =
      some { (ledger.statement.record id).getD (.empty id) with terminal := some terminal } ∧
    ledger.SameElsewhere ((ledger.close id).settle id terminal) id := by
  refine ⟨Function.update_self _ _ _, ?_, fun other apart => ⟨Function.update_of_ne apart _ _, ?_⟩⟩
  · simp [settle, StepStatement.record_entry, close]
  · simp [settle, StepStatement.record_entry, close, apart]

theorem extract_effect (ledger : RequestLedger) (id : RequestId) :
    let next : RequestLedger := { ledger.close id with statement := (ledger.statement.extract id).1 }
    next.accounts id = none ∧ next.statement.record id = none ∧ ledger.SameElsewhere next id := by
  refine ⟨Function.update_self _ _ _, ?_, fun other apart => ⟨Function.update_of_ne apart _ _, ?_⟩⟩
  · simp [StepStatement.record_extract]
  · simp [StepStatement.record_extract, apart]

theorem writeActive_effect {ledger next : RequestLedger} {id : RequestId} {call : LedgerCall}
    {change : RequestUpdate → RequestUpdate} {keeps : ∀ update, (change update).id = update.id}
    {deferred : Option RequestUpdate} (run : ledger.writeActive id change keeps = .returned next deferred)
    (writes : call.writes = true) (pushed : call.pushed = 0)
    (only : ∀ update, (change update).scheduled = update.scheduled ∧
      (change update).terminal = update.terminal ∧
      (change update).tokens = update.tokens) :
    ∃ account, ledger.accounts id = some account ∧
      CallEffect id account (ledger.statement.record id) call (next.accounts id)
        (next.statement.record id) deferred ∧
      ledger.SameElsewhere next id := by
  unfold writeActive at run
  split at run
  · rename_i active
    cases run
    unfold isActive at active
    split at active
    · rename_i promptLen queuedAt completionTokens opened
      refine ⟨_, opened, ?_, fun other apart => ⟨rfl, ?_⟩⟩
      · have effect := @CallEffect.write id ⟨promptLen, queuedAt, .active completionTokens⟩
          (ledger.statement.record id) call completionTokens change writes rfl fun update =>
            ⟨(only update).1, (only update).2.1, by rw [(only update).2.2, pushed]; rfl⟩
        simpa [StepStatement.record_entry, opened, pushed] using effect
      · simp [StepStatement.record_entry, apart]
    · cases active
  · cases run

theorem pushTokens_effect {ledger next : RequestLedger} {id : RequestId} {ids : List Token}
    {logprobs : List (Option TokenLogprob)} {deferred : Option RequestUpdate}
    (run : ledger.pushTokens id ids logprobs = .returned next deferred) :
    ∃ account, ledger.accounts id = some account ∧
      CallEffect id account (ledger.statement.record id) (.pushTokens id ids logprobs) (next.accounts id)
        (next.statement.record id) deferred ∧ ledger.SameElsewhere next id := by
  unfold pushTokens at run
  split at run
  · cases run
  split at run
  · cases run
  rename_i account opened
  split at run
  · cases run
  rename_i completionTokens active
  cases run
  refine ⟨account, opened, ?_, fun other apart => ⟨Function.update_of_ne apart _ _, ?_⟩⟩
  · simp only [Function.update_self, StepStatement.record_entry, if_true]
    refine CallEffect.write
      (fun update => { update with
        tokens := update.tokens ++ ids
        logprobs := update.logprobs ++ if logprobs = [] then ids.map fun _ => none else logprobs })
      rfl active fun update => ⟨rfl, rfl, ?_⟩
    exact List.length_append
  · simp [StepStatement.record_entry, apart]

theorem admitRequest_effect {ledger next : RequestLedger} {id : RequestId} {now : Instant}
    {deferred : Option RequestUpdate} (run : ledger.admitRequest id now = .returned next deferred) :
    ∃ account, ledger.accounts id = some account ∧
      CallEffect id account (ledger.statement.record id) (.admitRequest id now) (next.accounts id)
        (next.statement.record id) deferred ∧ ledger.SameElsewhere next id := by
  unfold admitRequest at run
  split at run
  · cases run
  rename_i account opened
  split at run
  · cases run
  rename_i queued
  cases run
  refine ⟨account, opened, ?_, fun other apart => ⟨Function.update_of_ne apart _ _, ?_⟩⟩
  · simp only [Function.update_self, StepStatement.record_entry, if_true]
    exact .admitRequest queued
  · simp [StepStatement.record_entry, apart]

/-- The inversion of every call that returns. -/
theorem call_effect {ledger next : RequestLedger} {call : LedgerCall} {deferred : Option RequestUpdate}
    (run : ledger.call call = .returned next deferred) :
    ∃ account, ledger.accounts call.id = some account ∧
      CallEffect call.id account (ledger.statement.record call.id) call (next.accounts call.id)
        (next.statement.record call.id) deferred ∧ ledger.SameElsewhere next call.id := by
  cases call with
  | admitRequest id now => exact admitRequest_effect run
  | pushTokens id ids logprobs => exact pushTokens_effect run
  | setCachedTokens id cachedTokens => exact writeActive_effect run rfl rfl fun _ => ⟨rfl, rfl, rfl⟩
  | echoPrompt id echo => exact writeActive_effect run rfl rfl fun _ => ⟨rfl, rfl, rfl⟩
  | kvTransfer id params => exact writeActive_effect run rfl rfl fun _ => ⟨rfl, rfl, rfl⟩
  | reject id reason =>
    simp only [call, reject] at run
    split at run
    · cases run
    rename_i account opened
    split at run
    · cases run
    rename_i queued
    cases run
    obtain ⟨closed, recorded, same⟩ := settle_effect ledger id
      (.rejected reason account.promptLen)
    refine ⟨account, opened, ?_, same⟩
    rw [LedgerCall.id, closed, recorded]
    exact .settle rfl (by simp [Terminal.completionTokens, Account.completionTokens, queued])
  | finish id reason =>
    simp only [call, finish] at run
    split at run
    · cases run
    rename_i account opened
    split at run
    · cases run
    rename_i completionTokens active
    cases run
    obtain ⟨closed, recorded, same⟩ := settle_effect ledger id
      (.finished reason account.promptLen completionTokens)
    refine ⟨account, opened, ?_, same⟩
    rw [LedgerCall.id, closed, recorded]
    exact .settle rfl (by simp [Terminal.completionTokens, Account.completionTokens, active])
  | fail id message =>
    simp only [call, fail] at run
    split at run
    · cases run
    rename_i account opened
    cases run
    obtain ⟨closed, recorded, same⟩ := settle_effect ledger id
      (.failed message account.promptLen account.completionTokens)
    refine ⟨account, opened, ?_, same⟩
    rw [LedgerCall.id, closed, recorded]
    exact .settle rfl rfl
  | retire id =>
    simp only [call, retire] at run
    split at run
    · cases run
    rename_i account opened
    cases run
    obtain ⟨closed, recorded, same⟩ := ledger.extract_effect id
    refine ⟨account, opened, ?_, same⟩
    rw [LedgerCall.id, closed, recorded]
    exact .retire
  | deferFinish id reason =>
    simp only [call, deferFinish] at run
    split at run
    · cases run
    rename_i account opened
    split at run
    · cases run
    rename_i completionTokens active
    cases run
    obtain ⟨closed, recorded, same⟩ := ledger.extract_effect id
    refine ⟨account, opened, ?_, same⟩
    rw [LedgerCall.id, closed, recorded, StepStatement.extract_snd]
    exact .defer active

end RequestLedger

end PegaInfer.Frontend
