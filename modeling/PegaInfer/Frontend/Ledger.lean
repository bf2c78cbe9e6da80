import PegaInfer.Frontend.Statement

namespace PegaInfer.Frontend

inductive AccountState
  | queued
  | active (completionTokens : Nat)
  deriving DecidableEq

/-- `Account`; the shared abort flag is kept by the system. -/
structure Account where
  promptLen : Nat
  queuedAt : Instant
  state : AccountState
  deriving DecidableEq

def Account.completionTokens (account : Account) : Nat :=
  match account.state with
  | .queued => 0
  | .active completionTokens => completionTokens

/-- `EnvelopeInner`: what a submission carries to `register`. -/
structure Envelope where
  id : RequestId
  promptLen : Nat
  queuedAt : Instant
  deriving DecidableEq

structure RequestLedger where
  accounts : RequestId → Option Account
  statement : StepStatement

/-- How a ledger call ends. A panic unwinds with the ledger as the call left
it, which is not always as it found it: some calls close before they assert. -/
inductive Ran
  | returned (ledger : RequestLedger) (deferred : Option RequestUpdate)
  | panicked (ledger : RequestLedger)

namespace RequestLedger

def new : RequestLedger := ⟨fun _ => none, .default⟩

def close (ledger : RequestLedger) (id : RequestId) : RequestLedger :=
  { ledger with accounts := Function.update ledger.accounts id none }

def isActive (ledger : RequestLedger) (id : RequestId) : Bool :=
  match ledger.accounts id with
  | some { state := .active _, .. } => true
  | _ => false

def admitRequest (ledger : RequestLedger) (id : RequestId) (now : Instant) : Ran :=
  match ledger.accounts id with
  | none => .panicked ledger
  | some account =>
    match account.state with
    | .active _ => .panicked ledger
    | .queued =>
      .returned
        { accounts := Function.update ledger.accounts id (some { account with state := .active 0 })
          statement := ledger.statement.entry id
            (fun update => { update with scheduled := some ⟨account.queuedAt, now, account.promptLen⟩ })
            (fun _ => rfl) } none

/-- Buffer a terminal for a request whose account is already closed. -/
def settle (ledger : RequestLedger) (id : RequestId) (terminal : Terminal) : RequestLedger :=
  { ledger with
    statement := ledger.statement.entry id (fun update =>
      { update with terminal := some terminal }) (fun _ => rfl) }

def reject (ledger : RequestLedger) (id : RequestId) (reason : RejectReason) : Ran :=
  match ledger.accounts id with
  | none => .panicked ledger
  | some account =>
    match account.state with
    | .active _ => .panicked (ledger.close id)
    | .queued => .returned ((ledger.close id).settle id (.rejected reason account.promptLen)) none

def pushTokens (ledger : RequestLedger) (id : RequestId) (ids : List Token)
    (logprobs : List (Option TokenLogprob)) : Ran :=
  if ¬ (logprobs = [] ∨ logprobs.length = ids.length) then .panicked ledger
  else
    match ledger.accounts id with
    | none => .panicked ledger
    | some account =>
      match account.state with
      | .queued => .panicked ledger
      | .active completionTokens =>
        let parallel := if logprobs = [] then ids.map fun _ => none else logprobs
        .returned
          { accounts := Function.update ledger.accounts id
              (some { account with state := .active (completionTokens + ids.length) })
            statement := ledger.statement.entry id
              (fun update => { update with
                tokens := update.tokens ++ ids
                logprobs := update.logprobs ++ parallel })
              (fun _ => rfl) } none

/-- The calls that only assert `is_active` and write one section of the record. -/
def writeActive (ledger : RequestLedger) (id : RequestId) (change : RequestUpdate → RequestUpdate)
    (keeps : ∀ update, (change update).id = update.id) : Ran :=
  if ledger.isActive id then .returned
    { ledger with statement := ledger.statement.entry id change keeps } none
  else .panicked ledger

def setCachedTokens (ledger : RequestLedger) (id : RequestId) (cachedTokens : Nat) : Ran :=
  ledger.writeActive id (fun update => { update with cachedTokens := some cachedTokens }) fun _ => rfl

def echoPrompt (ledger : RequestLedger) (id : RequestId) (echo : PromptEcho) : Ran :=
  ledger.writeActive id (fun update => { update with promptEcho := some echo }) fun _ => rfl

def kvTransfer (ledger : RequestLedger) (id : RequestId) (params : String) : Ran :=
  ledger.writeActive id (fun update => { update with kvTransfer := some params }) fun _ => rfl

def finish (ledger : RequestLedger) (id : RequestId) (reason : FinishReason) : Ran :=
  match ledger.accounts id with
  | none => .panicked ledger
  | some account =>
    match account.state with
    | .queued => .panicked (ledger.close id)
    | .active completionTokens =>
      .returned ((ledger.close id).settle id (.finished reason account.promptLen completionTokens)) none

def fail (ledger : RequestLedger) (id : RequestId) (message : String) : Ran :=
  match ledger.accounts id with
  | none => .panicked ledger
  | some account =>
    .returned ((ledger.close id).settle id (.failed message account.promptLen account.completionTokens)) none

def retire (ledger : RequestLedger) (id : RequestId) : Ran :=
  match ledger.accounts id with
  | none => .panicked ledger
  | some _ => .returned { ledger.close id with statement := (ledger.statement.extract id).1 } none

def deferFinish (ledger : RequestLedger) (id : RequestId) (reason : FinishReason) : Ran :=
  match ledger.accounts id with
  | none => .panicked ledger
  | some account =>
    match account.state with
    | .queued => .panicked (ledger.close id)
    | .active completionTokens =>
      let update := (ledger.statement.extract id).2.getD (.empty id)
      .returned { ledger.close id with statement := (ledger.statement.extract id).1 }
        (some { update with terminal := some (.finished reason account.promptLen completionTokens) })

/-- `register`. The account is inserted before the duplicate assert. -/
def register (ledger : RequestLedger) (envelope : Envelope) : Ran :=
  let account : Account := ⟨envelope.promptLen, envelope.queuedAt, .queued⟩
  let opened := { ledger with accounts := Function.update ledger.accounts envelope.id (some account) }
  if (ledger.accounts envelope.id).isSome then .panicked opened else .returned opened none

/-- `commit_step`: nothing is sent for a step that touched nothing. -/
def commitStep (ledger : RequestLedger) : RequestLedger × List StepOutputs :=
  let updates := ledger.statement.takeUpdates
  ({ ledger with statement := .default }, if updates = [] then [] else [⟨updates⟩])

/-- `fail_all` over the keys of the account map, in the map's own order. -/
def failAll (ledger : RequestLedger) (message : String) : List RequestId → Ran
  | [] => .returned ledger none
  | id :: rest =>
    match ledger.fail id message with
    | .returned next _ => next.failAll message rest
    | .panicked next => .panicked next

def sweepMessage (account : Account) : String :=
  match account.state with
  | .queued => "request dropped by the engine before it was answered"
  | .active _ => "request dropped by the engine mid-stream"

def sweepUpdate (id : RequestId) (account : Account) : RequestUpdate :=
  { RequestUpdate.empty id with
    terminal := some (.failed (sweepMessage account) account.promptLen account.completionTokens) }

/-- `Drop for RequestLedger` over the drained map. The statement's buffer is
dropped with the ledger and never sent. -/
def drop (ledger : RequestLedger) (order : List RequestId) : List StepOutputs :=
  if order = [] then []
  else [⟨order.filterMap fun id => (ledger.accounts id).map (sweepUpdate id)⟩]

/-- An order in which a drain of the account map may visit its keys. -/
def Enumerates (ledger : RequestLedger) (order : List RequestId) : Prop :=
  order.Nodup ∧ ∀ id, id ∈ order ↔ (ledger.accounts id).isSome

end RequestLedger

/-- The calls a scheduler may make on the ledger inside its `step`. -/
inductive LedgerCall
  | admitRequest (id : RequestId) (now : Instant)
  | reject (id : RequestId) (reason : RejectReason)
  | pushTokens (id : RequestId) (ids : List Token) (logprobs : List (Option TokenLogprob))
  | setCachedTokens (id : RequestId) (cachedTokens : Nat)
  | echoPrompt (id : RequestId) (echo : PromptEcho)
  | kvTransfer (id : RequestId) (params : String)
  | finish (id : RequestId) (reason : FinishReason)
  | fail (id : RequestId) (message : String)
  | retire (id : RequestId)
  | deferFinish (id : RequestId) (reason : FinishReason)
  deriving DecidableEq

def LedgerCall.id : LedgerCall → RequestId
  | .admitRequest id _ | .reject id _ | .pushTokens id _ _ | .setCachedTokens id _ | .echoPrompt
    id _ | .kvTransfer id _
  | .finish id _ | .fail id _ | .retire id | .deferFinish id _ => id

def RequestLedger.call (ledger : RequestLedger) : LedgerCall → Ran
  | .admitRequest id now => ledger.admitRequest id now
  | .reject id reason => ledger.reject id reason
  | .pushTokens id ids logprobs => ledger.pushTokens id ids logprobs
  | .setCachedTokens id cachedTokens => ledger.setCachedTokens id cachedTokens
  | .echoPrompt id echo => ledger.echoPrompt id echo
  | .kvTransfer id params => ledger.kvTransfer id params
  | .finish id reason => ledger.finish id reason
  | .fail id message => ledger.fail id message
  | .retire id => ledger.retire id
  | .deferFinish id reason => ledger.deferFinish id reason

end PegaInfer.Frontend
