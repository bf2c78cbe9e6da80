import PegaInfer.Qwen3.Plan
import PegaInfer.Frontend.Ledger
import PegaInfer.Lib.SwapRemove

namespace PegaInfer.Qwen3

open Frontend
open SwapRemove

/-- A LoRA command; `load` and `unload` name the adapter they are about. -/
inductive LoraControl
  | load (name : String)
  | unload (name : String)
  | list
  deriving DecidableEq

/-- What is fixed when the scheduler starts. -/
structure Config where
  maxPrefillTokens : Nat
  requestLocal : Bool
  blockSize : Nat
  maxRequestBlocks : Nat
  maxContextTokens : Nat
  maxDecodeBatchSize : Nat
  hasDecodeOverlap : Bool
  withholdsFinishes : Bool
  speculativeEnabled : Bool
  isStopToken : Token → Bool

structure Qwen3Scheduler where
  deferred : List PendingRequest
  loading : List PendingRequest
  prefilling : List PendingRequest
  active : List ActiveRequestState
  inflightPrefillPending : Option (List PendingRequest)
  pendingControl : List LoraControl
  postControlDeferred : List PendingRequest

def Qwen3Scheduler.new : Qwen3Scheduler :=
  { deferred := [], loading := [], prefilling := [], active := [], inflightPrefillPending := none,
    pendingControl := [],
    postControlDeferred := [] }

def Qwen3Scheduler.idle (scheduler : Qwen3Scheduler) : Bool :=
  scheduler.active.isEmpty && scheduler.deferred.isEmpty && scheduler.prefilling.isEmpty &&
    scheduler.inflightPrefillPending.isNone

/-- What happened to a request inside a step, for the record. -/
inductive Event
  | called (call : LedgerCall)
  | dropped (id : RequestId)
  | applied (control : LoraControl)
  | offered (id : RequestId)
  | validated (id : RequestId)
  | ran (id : RequestId)
  deriving DecidableEq

/-- The scheduler with the ledger and the adapters loaded in its executor. `events`
is a history, and a panic stays recorded. -/
structure Machine where
  scheduler : Qwen3Scheduler
  ledger : RequestLedger
  adapters : List String
  events : List Event
  panicked : Bool

namespace Machine

def new : Machine :=
  { scheduler := .new, ledger := .new, adapters := [], events := [], panicked := false }

def record (machine : Machine) (event : Event) : Machine :=
  { machine with events := machine.events ++ [event] }

def panic (machine : Machine) : Machine := { machine with panicked := true }

def call (machine : Machine) (call : LedgerCall) : Machine :=
  match machine.ledger.call call with
  | .returned ledger _ => { machine with ledger }.record (.called call)
  | .panicked ledger => { machine with ledger }.panic

def dropRequest (machine : Machine) (id : RequestId) : Machine := machine.record (.dropped id)

/-- `is_aborted` looks up the account before it reads the flag. -/
def probe (machine : Machine) (id : RequestId) : Machine :=
  if (machine.ledger.accounts id).isSome then machine else machine.panic

def update (machine : Machine) (change : Qwen3Scheduler → Qwen3Scheduler) : Machine :=
  { machine with scheduler := change machine.scheduler }

/-- `retire_aborted`. -/
def retireAborted (machine : Machine) (id : RequestId) : Machine := (machine.call (.retire id)).dropRequest id

end Machine

/-- What the loops of `apply_effects` carry: the machine, the finishes to resolve at
the end, the indices to retire and the prefills to go on with. -/
structure Applying where
  machine : Machine
  finishes : List (RequestId × FinishReason)
  toRetire : List Nat
  continued : List PendingRequest

section

variable (aborted : RequestId → Bool)

/-- The end of a request that is active on the ledger: retired if this pass reads its abort
flag as set, else its tokens are pushed and its finish is collected. -/
def Applying.finishOne (state : Applying) (id : RequestId) (push : Option LedgerCall)
    (reason : FinishReason) : Applying :=
  if state.machine.ledger.isActive id then
    let machine := state.machine.probe id
    if aborted id then { state with machine := machine.call (.retire id) }
    else
      let machine := match push with
        | none => machine
        | some call => machine.call call
      { state with machine, finishes := state.finishes ++ [(id, reason)] }
  else state

/-- A running request that ends. -/
def Applying.endOne (state : Applying) (id : RequestId) (push : Option LedgerCall)
    (reason : FinishReason) (index : Nat) : Applying :=
  let state := state.finishOne aborted id push reason
  { state with machine := state.machine.dropRequest id, toRetire := state.toRetire ++ [index] }

/-- A running request that goes on with `tokens` pushed. -/
def Applying.continueOne (state : Applying) (id : RequestId) (push : LedgerCall)
    (advance : ActiveRequestState → ActiveRequestState)
    (index : Nat) : Applying :=
  let machine := state.machine.probe id
  if aborted id then { state with machine := machine.retireAborted id, toRetire := state.toRetire ++ [index] }
  else
    { state with
      machine := (machine.call push).update fun scheduler =>
        { scheduler with active := scheduler.active.modify index advance } }

def Applying.decodeOne (state : Applying) (effect : DecodeEffect) : Applying :=
  match state.machine.scheduler.active.findIdx? (·.requestId = effect.requestId) with
  | none => state
  | some index =>
    match effect with
    | .finish id reason => state.endOne aborted id none reason index
    | .emitAndFinish id token logprob reason =>
      state.endOne aborted id (some (.pushTokens id [token] [logprob])) reason index
    | .emitAndContinue id token logprob completionTokens =>
      state.continueOne aborted id (.pushTokens id [token] [logprob])
        (fun req => { req with lastToken := token, generatedCount := completionTokens }) index
    | .emitManyAndContinue id tokens completionTokens =>
      state.continueOne aborted id (.pushTokens id tokens [])
        (fun req => match tokens.getLast? with
          | none => req
          | some last => { req with lastToken := last, generatedCount := completionTokens }) index
    | .emitManyAndFinish id tokens reason =>
      state.endOne aborted id (some (.pushTokens id tokens [])) reason index

def Applying.pendingOne (state : Applying) : PendingEffect → Applying
  | .continuePrefill req =>
    let machine := state.machine.probe req.requestId
    if aborted req.requestId then { state with machine := machine.retireAborted req.requestId }
    else { state with machine, continued := state.continued ++ [req] }
  | .finish id reason =>
    let state := state.finishOne aborted id none reason
    { state with machine := state.machine.dropRequest id }
  | .emitAndFinish id token logprob reason =>
    let state := state.finishOne aborted id (some (.pushTokens id [token] [logprob])) reason
    { state with machine := state.machine.dropRequest id }
  | .promote active firstToken logprob =>
    let machine := state.machine.probe active.requestId
    if aborted active.requestId then { state with machine := machine.retireAborted active.requestId }
    else
      { state with
        machine := (machine.call (.pushTokens active.requestId [firstToken] [logprob])).update
          fun scheduler =>
          { scheduler with active := scheduler.active ++ [active] } }

def Machine.callIfActive (machine : Machine) (call : LedgerCall) : Machine :=
  if machine.ledger.isActive call.id then machine.call call else machine

/-- `apply_effects`. -/
def Machine.applyEffects (machine : Machine) (withholdsFinishes : Bool) (effects : StepEffects) : Machine :=
  let machine := effects.cached.foldl (fun machine (id, cachedTokens) =>
    machine.callIfActive (.setCachedTokens id cachedTokens)) machine
  let machine := effects.promptEchoes.foldl (fun machine (id, echo) =>
    machine.callIfActive (.echoPrompt id echo)) machine
  let state : Applying := { machine, finishes := [], toRetire := [], continued := [] }
  let state := effects.decode.foldl (Applying.decodeOne aborted) state
  let state := { state with machine := state.machine.update fun scheduler =>
    { scheduler with active := swapRemoveAll scheduler.active state.toRetire } }
  let state := effects.pending.foldl (Applying.pendingOne aborted) state
  let machine := state.machine.update fun scheduler =>
    { scheduler with prefilling := state.continued ++ scheduler.prefilling }
  state.finishes.foldl (fun machine (id, reason) =>
    machine.call (if withholdsFinishes then .deferFinish id reason else .finish id reason)) machine

end

/-- Everything the executor and the frontend answer during one `step`: the commands
on the channel, the prefill in flight if it is over, the prefetches settled before
and during the wait, those that start, the free blocks and the credits admission
reads, the execution, and the abort flags as each pass reads them. -/
structure StepEnv where
  controls : List LoraControl
  polled : Option (RequestId → PrefillAnswer)
  drained : List RequestId
  starts : RequestId → Bool
  adaptersAfter : LoraControl → List String → List String
  waited : List RequestId
  availableBlocks : Nat
  prefetchedBlocks : RequestId → Nat
  ready : RequestId → Bool
  execution : Execution
  abortedAtPoll : RequestId → Bool
  abortedAtAdmit : RequestId → Bool
  abortedAtApply : RequestId → Bool
  now : Instant

/-- The chunk of a request in this step, if it runs. -/
def chunkOf (maxPrefillTokens : Nat) (requestLocal : Bool) (budget : Nat)
    (req : PendingRequest) : Option Nat :=
  let remaining := req.promptTokens.length - req.prefillPos
  if req.echo then if budget < remaining then none else some remaining
  else if requestLocal then
    let desired := min remaining maxPrefillTokens
    if budget < desired then none else some desired
  else some (min remaining budget)

/-- The loop of `take_prefill_chunks`: what is taken and what stays. -/
def takeChunks (maxPrefillTokens : Nat) (requestLocal : Bool) : (budget : Nat) → List PendingRequest →
    List PendingRequest × List PendingRequest
  | _, [] => ([], [])
  | budget, req :: rest =>
    if budget = 0 then ([], req :: rest)
    else
      match chunkOf maxPrefillTokens requestLocal budget req with
      | none =>
        let (taken, kept) := takeChunks maxPrefillTokens requestLocal budget rest
        (taken, req :: kept)
      | some chunk =>
        let (taken, kept) := takeChunks maxPrefillTokens requestLocal (budget - chunk) rest
        ({ req with stepChunk := chunk } :: taken, kept)

/-- `take_prefill_chunks`. -/
def takePrefillChunks (maxPrefillTokens : Nat) (requestLocal : Bool) (prefilling : List PendingRequest) :
    List PendingRequest × List PendingRequest :=
  let (taken, kept) := takeChunks maxPrefillTokens requestLocal maxPrefillTokens prefilling
  (sortById (·.requestId) taken, kept)

/-- `promote_ready` on the deferred and the loading list. -/
def promoteReady : List RequestId → (deferred loading : List PendingRequest) →
    List PendingRequest × List PendingRequest
  | [], deferred, loading => (deferred, loading)
  | id :: ready, deferred, loading =>
    match loading.find? (·.requestId = id) with
    | none => promoteReady ready deferred loading
    | some req => promoteReady ready (req :: deferred) (loading.eraseP (·.requestId = id))

/-- `offer_prefetch`: the requests kept, those that load, and the ids offered. -/
def offerPrefetch (starts : RequestId → Bool) :
    List PendingRequest → List PendingRequest × List PendingRequest × List RequestId
  | [] => ([], [], [])
  | req :: rest =>
    let (kept, started, offered) := offerPrefetch starts rest
    if !req.prefetchOffered && !req.echo then
      let req := { req with prefetchOffered := true }
      if starts req.requestId then (kept, req :: started, req.requestId :: offered)
      else (req :: kept, started, req.requestId :: offered)
    else (req :: kept, started, offered)

def requestLifetimeBlocks (promptLen maxTokens blockSize : Nat) : Nat :=
  let lifetimeTokens := if maxTokens ≤ 1 then promptLen else promptLen + maxTokens
  max (lifetimeTokens ⌈/⌉ blockSize) 1

def pendingLifetimeBlocks (req : PendingRequest) (blockSize : Nat) : Nat :=
  requestLifetimeBlocks req.promptTokens.length req.maxTokens blockSize

def currentActiveTokens (req : ActiveRequestState) : Nat := req.promptLen + (req.generatedCount - 1)

def activeFutureBlocks (active : List ActiveRequestState) (blockSize : Nat) : Nat :=
  (active.map fun req =>
    requestLifetimeBlocks req.promptLen req.maxTokens blockSize - currentActiveTokens req ⌈/⌉ blockSize).sum

def prefillingFutureBlocks (prefilling : List PendingRequest) (blockSize : Nat)
    (prefetchCredit : RequestId → Nat) : Nat :=
  (prefilling.map fun req =>
    pendingLifetimeBlocks req blockSize - req.prefillPos ⌈/⌉ blockSize - prefetchCredit req.requestId).sum

def maxRequestTokens (req : PendingRequest) : Nat := req.promptTokens.length + (req.maxTokens - 1)

structure AdmissionOutcome where
  pending : List PendingRequest
  deferred : List PendingRequest
  rejected : List (PendingRequest × RejectReason)

/-- The reason a request can never be served, as the contract reports it. -/
def neverServed (config : Config) (req : PendingRequest) : Option RejectReason :=
  if config.maxContextTokens < req.promptTokens.length + req.maxTokens then
    some (.contextLength req.promptTokens.length req.maxTokens config.maxContextTokens)
  else if req.echo && decide (config.maxPrefillTokens < req.promptTokens.length) then
    some (.echoPrefillTokens req.promptTokens.length config.maxPrefillTokens)
  else if config.maxRequestBlocks < pendingLifetimeBlocks req config.blockSize then
    some (.kvBudget req.promptTokens.length (maxRequestTokens req))
  else none

/-- The loop of `admit_deferred_requests`. -/
def admitLoop (config : Config) (prefetchCredit : RequestId → Nat) :
    (budget decodeSlots : Nat) → List PendingRequest → AdmissionOutcome
  | _, _, [] => { pending := [], deferred := [], rejected := [] }
  | budget, decodeSlots, req :: rest =>
    match neverServed config req with
    | some reason =>
      let outcome := admitLoop config prefetchCredit budget decodeSlots rest
      { outcome with rejected := (req, reason) :: outcome.rejected }
    | none =>
      let freshNeeded := pendingLifetimeBlocks req config.blockSize - prefetchCredit req.requestId
      if freshNeeded ≤ budget ∧ 0 < decodeSlots then
        let outcome := admitLoop config prefetchCredit (budget - freshNeeded) (decodeSlots - 1) rest
        { outcome with pending := req :: outcome.pending }
      else
        let outcome := admitLoop config prefetchCredit budget decodeSlots rest
        { outcome with deferred := req :: outcome.deferred }

def admitDeferredRequests (config : Config) (deferred : List PendingRequest)
    (active : List ActiveRequestState)
    (prefilling : List PendingRequest) (availableBlocks : Nat) (prefetchCredit : RequestId → Nat) :
    AdmissionOutcome :=
  let budget := availableBlocks - activeFutureBlocks active config.blockSize -
    prefillingFutureBlocks prefilling config.blockSize prefetchCredit
  let decodeSlots := config.maxDecodeBatchSize - active.length - prefilling.length
  admitLoop config prefetchCredit budget decodeSlots deferred

/-- Whether `reject_unknown_lora_requests` lets a request through. -/
def knownAdapter (adapters : List String) (req : PendingRequest) : Bool :=
  req.loraAdapter.all (adapters.contains ·)

namespace Machine

def submit (machine : Machine) (req : PendingRequest) : Machine :=
  machine.update fun scheduler =>
    if scheduler.pendingControl.isEmpty then { scheduler with deferred := scheduler.deferred ++ [req] }
    else { scheduler with postControlDeferred := scheduler.postControlDeferred ++ [req] }

/-- Resolve and apply; `none` is a panic of `resolve_step`. -/
def settle (machine : Machine) (config : Config) (aborted : RequestId → Bool)
    (artifacts : ExecutionArtifacts) : Machine :=
  match resolveStep config.isStopToken machine.scheduler.active artifacts with
  | none => machine.panic
  | some effects => machine.applyEffects aborted config.withholdsFinishes effects

/-- Step 1: the prefill in flight, if it is over. -/
def poll (machine : Machine) (config : Config) (env : StepEnv) : Machine :=
  match machine.scheduler.inflightPrefillPending, env.polled with
  | some pending, some answer =>
    (machine.update fun scheduler => { scheduler with inflightPrefillPending := none }).settle
      config env.abortedAtPoll
      (.prefill pending (pending.map fun req => (answer req.requestId).result req.requestId))
  | _, _ => machine

def reclaim (machine : Machine) (ready : List RequestId) : Machine :=
  machine.update fun scheduler =>
    let (deferred, loading) := promoteReady ready scheduler.deferred scheduler.loading
    { scheduler with deferred, loading }

/-- Step 2: requests are offered to prefetch while no command is pending. -/
def offer (machine : Machine) (starts : RequestId → Bool) : Machine :=
  if machine.scheduler.pendingControl.isEmpty then
    let (kept, started, offered) := offerPrefetch starts machine.scheduler.deferred
    offered.foldl (fun machine id => machine.record (.offered id)) (machine.update fun scheduler =>
      { scheduler with deferred := kept, loading := scheduler.loading ++ started })
  else machine

/-- `drain_idle_control`. -/
def drainIdleControl (machine : Machine) (adaptersAfter : LoraControl → List String → List String) :
    Machine :=
  machine.scheduler.pendingControl.foldl
    (fun machine control =>
      { machine with adapters := adaptersAfter control machine.adapters }.record (.applied control))
    (machine.update fun scheduler => { scheduler with pendingControl := [] })

/-- Step 3: commands wait for the scheduler to be idle. -/
def applyControl (machine : Machine) (env : StepEnv) : Machine :=
  if machine.scheduler.idle then
    (machine.drainIdleControl env.adaptersAfter).update fun scheduler =>
      { scheduler with
        deferred := scheduler.deferred ++ scheduler.postControlDeferred
        postControlDeferred := [] }
  else machine

def rejectPending (machine : Machine) (req : PendingRequest) (reason : RejectReason) : Machine :=
  (machine.call (.reject req.requestId reason)).dropRequest req.requestId

/-- `admit_or_retire`, and the queue it feeds. -/
def admitOrRetire (machine : Machine) (aborted : RequestId → Bool) (now : Instant)
    (req : PendingRequest) : Machine :=
  let machine := machine.probe req.requestId
  if aborted req.requestId then machine.retireAborted req.requestId
  else
    (machine.call (.admitRequest req.requestId now)).update fun scheduler =>
      { scheduler with prefilling := scheduler.prefilling ++ [req] }

/-- Step 5: validation and admission. -/
def validate (machine : Machine) : Machine :=
  let deferred := machine.scheduler.deferred
  let machine := deferred.foldl (fun machine req => machine.record (.validated req.requestId)) machine
  let rejected := deferred.filter fun req => !knownAdapter machine.adapters req
  let accepted := deferred.filter fun req => knownAdapter machine.adapters req
  rejected.foldl (fun machine req =>
    machine.rejectPending req (.unknownLoraAdapter (req.loraAdapter.getD "")))
    (machine.update fun scheduler => { scheduler with deferred := accepted })

def admitAll (machine : Machine) (config : Config) (env : StepEnv) : Machine :=
  let outcome := admitDeferredRequests config machine.scheduler.deferred machine.scheduler.active
    machine.scheduler.prefilling
    env.availableBlocks env.prefetchedBlocks
  let machine := outcome.rejected.foldl (fun machine (req, reason) => machine.rejectPending req reason)
    (machine.update fun scheduler => { scheduler with deferred := outcome.deferred })
  outcome.pending.foldl (fun machine req => machine.admitOrRetire env.abortedAtAdmit env.now req) machine

/-- `fail_touched_requests`. -/
def failTouchedRequests (machine : Machine) (targets : List RequestId) (message : String) : Machine :=
  (targets.foldl (fun machine id => (machine.callIfActive (.fail id message)).dropRequest id) machine).update
    fun scheduler => { scheduler with active := [] }

/-- Steps 7 and 8: execute, resolve, apply. Under decode overlap the prefill of a
unified step is left in flight. -/
def execute (machine : Machine) (config : Config) (env : StepEnv) (plan : ExecutionPlan) : Machine :=
  let targets := failureTargetIds machine.scheduler.active plan
  let machine := targets.foldl (fun machine id => machine.record (.ran id)) machine
  match executePlan env.execution config.hasDecodeOverlap machine.scheduler.active plan with
  | .panicked => machine.panic
  | .error message => machine.failTouchedRequests targets message
  | .ok artifacts =>
    let machine := machine.settle config env.abortedAtApply artifacts
    match plan with
    | .unified pending =>
      if config.hasDecodeOverlap && machine.scheduler.inflightPrefillPending.isNone then
        machine.update fun scheduler => { scheduler with inflightPrefillPending := some pending }
      else machine
    | _ => machine

/-- Step 6: the chunks of this step; none while a prefill is in flight. -/
def takeStep (machine : Machine) (config : Config) : List PendingRequest × Machine :=
  if machine.scheduler.inflightPrefillPending.isSome then ([], machine)
  else
    let (taken, kept) := takePrefillChunks config.maxPrefillTokens config.requestLocal
      machine.scheduler.prefilling
    (taken, machine.update fun scheduler => { scheduler with prefilling := kept })

/-- `Scheduler::step`. -/
def step (machine : Machine) (config : Config) (env : StepEnv) : Machine :=
  let machine := machine.update fun scheduler =>
    { scheduler with pendingControl := scheduler.pendingControl ++ env.controls }
  let machine := (((machine.poll config env).reclaim env.drained).offer env.starts).applyControl env
  if machine.scheduler.idle then if machine.scheduler.loading.isEmpty then machine
    else machine.reclaim env.waited
  else
    let (pending, machine) := ((machine.validate).admitAll config env).takeStep config
    match runtimePlan config.speculativeEnabled env.ready machine.scheduler.active pending with
    | none => machine
    | some plan => machine.execute config env plan

end Machine

end PegaInfer.Qwen3
