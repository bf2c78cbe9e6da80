import PegaInfer.Frontend.Reduce
import PegaInfer.Frontend.TerminalOnce

namespace PegaInfer.Frontend

/-- `EngineCoreSamplingParams`, as far as `start_request` looks at it: the stop
tokens, and what the two checks of the wire parameters find. -/
structure EngineCoreSamplingParams where
  eosTokenId : Option Token
  stopTokenIds : List Token
  unsupportedRequestParams : Option String
  loraAdapter : Except String (Option String)

structure EngineCoreRequest where
  requestId : String
  promptTokenIds : Option (List Token)
  samplingParams : Option EngineCoreSamplingParams

/-- The early returns of `start_request`, with the stop reason they send. -/
def EngineCoreRequest.check (request : EngineCoreRequest) :
    Except (Option StopReason) (List Token × EngineCoreSamplingParams) :=
  match request.promptTokenIds, request.samplingParams with
  | none, _ => .error none
  | some _, none => .error none
  | some promptTokens, some params =>
    match params.unsupportedRequestParams, params.loraAdapter with
    | some _, _ => .error none
    | none, .error message => .error (some (.text message))
    | none, .ok _ => .ok (promptTokens, params)

/-- `RequestBatchOutputs`, as far as it is about requests. Each output is kept
with the request it was made for, which the wire does not show; a request that
was refused on arrival has no id. -/
structure RequestBatchOutputs where
  outputs : List (Option RequestId × EngineCoreOutput)
  finishedRequests : Option (Finset String)

/-- `send_terminal_output`, as `start_request` uses it. -/
def sendTerminalOutput (requestId : String) (finishReason : EngineCoreFinishReason)
    (stopReason : Option StopReason) :
    RequestBatchOutputs :=
  { outputs := [(none, { Draft.empty with
    finishReason := some finishReason
    stopReason }.engineOutput requestId none none none)]
    finishedRequests := some {requestId} }

/-- The locals of `dispatch_step`. -/
structure Dispatch where
  streams : RequestId → Option SteppedStream
  names : String → Option RequestId
  outputs : List (Option RequestId × EngineCoreOutput)
  finishedRequests : Finset String

/-- One turn of its loop. A record without a stream entry is dropped. -/
def Dispatch.onUpdate (unix : Instant → UnixSeconds) (dispatch : Dispatch)
    (update : RequestUpdate) : Dispatch :=
  match dispatch.streams update.id with
  | none => dispatch
  | some state =>
    let reduced := reduceUpdate unix state update
    let outputs := dispatch.outputs ++ reduced.output.toList.map fun output => (some update.id, output)
    if reduced.terminated then
      { streams := Function.update dispatch.streams update.id none
        names := Function.update dispatch.names reduced.state.requestId none
        outputs
        finishedRequests := insert reduced.state.requestId dispatch.finishedRequests }
    else { dispatch with streams := Function.update dispatch.streams update.id (some reduced.state), outputs }

/-- `SteppedEngineBridge` at the head of its loop. The step stream is read from
`received` on. `sent` is what went out on the wire; `opened` and `calls` are
the history: what each request was added with, and the ledger calls made. -/
structure SteppedEngineBridge where
  scheduler : Engine
  received : Nat
  streams : RequestId → Option SteppedStream
  names : String → Option RequestId
  sent : List RequestBatchOutputs
  opened : RequestId → Option (String × Option Token)
  calls : List LedgerCall

namespace SteppedEngineBridge

def start : SteppedEngineBridge :=
  { scheduler := .start, received := 0, streams := fun _ => none, names := fun _ => none, sent := [],
    opened := fun _ => none, calls := [] }

/-- `dispatch_step`. Without outputs no batch goes out, stats aside. -/
def dispatchStep (unix : Instant → UnixSeconds) (bridge : SteppedEngineBridge)
    (step : StepOutputs) : SteppedEngineBridge :=
  let dispatch := step.updates.foldl (Dispatch.onUpdate unix) ⟨bridge.streams, bridge.names, [], ∅⟩
  { bridge with
    received := bridge.received + 1
    streams := dispatch.streams
    names := dispatch.names
    sent := if dispatch.outputs.isEmpty then bridge.sent
      else bridge.sent ++ [{ outputs := dispatch.outputs
                             finishedRequests :=
                              if dispatch.finishedRequests = ∅ then none
                                else some dispatch.finishedRequests }] }

/-- `start_request`. -/
def startRequest (bridge : SteppedEngineBridge) (request : EngineCoreRequest) (now : Instant) :
    SteppedEngineBridge :=
  match request.check with
  | .error stopReason =>
    { bridge with sent := bridge.sent ++ [sendTerminalOutput request.requestId .error stopReason] }
  | .ok (promptTokens, params) =>
    let id := bridge.scheduler.nextId
    let sentinel := stopSentinelId params.eosTokenId params.stopTokenIds
    { bridge with
      scheduler := bridge.scheduler.submit promptTokens.length now
      names := Function.update bridge.names request.requestId (some id)
      streams := Function.update bridge.streams id (some (.new request.requestId sentinel))
      opened := Function.update bridge.opened id (some (request.requestId, sentinel)) }

/-- One name of an `Abort` message. -/
def abortRequest (bridge : SteppedEngineBridge) (requestId : String) : SteppedEngineBridge :=
  match bridge.names requestId with
  | none => bridge
  | some id =>
    let unnamed := { bridge with names := Function.update bridge.names requestId none }
    match bridge.streams id with
    | none => unnamed
    | some _ =>
      { unnamed with
        streams := Function.update bridge.streams id none
        scheduler := { bridge.scheduler with aborted := Function.update bridge.scheduler.aborted id true } }

/-- The outputs sent for one request. -/
def sentFor (bridge : SteppedEngineBridge) (id : RequestId) : List EngineCoreOutput :=
  (bridge.sent.flatMap RequestBatchOutputs.outputs).filterMap fun entry =>
    if entry.1 = some id then some entry.2 else none

end SteppedEngineBridge

/-- What the scheduler and the holders of its finishes do on their own, with the
ledger calls made. Only a request whose abort flag is up is retired. -/
inductive SchedulerStep : Engine → List LedgerCall → Engine → Prop
  | call {engine ledger deferred} (call : LedgerCall) : engine.phase = .stepping →
      engine.ledger.call call = .returned ledger deferred →
      (∀ id, call = .retire id → engine.aborted id = true) →
      SchedulerStep engine [call] (engine.afterCall call ledger deferred)
  | send {engine} (before : List RequestUpdate) (update : RequestUpdate) (after : List RequestUpdate) :
      engine.deferred = before ++ update :: after →
      SchedulerStep engine []
        { engine with deferred := before ++ after, stream := engine.stream ++ [⟨[update]⟩] }
  | drop {engine} (before : List RequestUpdate) (update : RequestUpdate) (after : List RequestUpdate) :
      engine.deferred = before ++ update :: after →
      SchedulerStep engine []
        { engine with deferred := before ++ after, stream := engine.stream ++ [⟨[dropDeferred update]⟩] }
  | register {engine envelope rest ledger} : engine.phase = .between → engine.channel = envelope :: rest →
      engine.ledger.register envelope = .returned ledger none →
      SchedulerStep engine [] { engine with channel := rest, ledger }
  | step {engine} : engine.phase = .between → engine.channel = [] →
      SchedulerStep engine [] { engine with phase := .stepping }
  | commit {engine} : engine.phase = .stepping →
      SchedulerStep engine [] { engine.commitStep with phase := .between }
  | fatal {engine ledger} (message : String) (order rest : List RequestId) : engine.phase = .stepping →
      engine.commitStep.ledger.Enumerates order →
      engine.commitStep.ledger.failAll message order = .returned ledger none → ledger.Enumerates rest →
      SchedulerStep engine [] ({ engine.commitStep with ledger }.commitStep.dropLedger rest)
  | teardown {engine} (order : List RequestId) : engine.phase = .between → engine.ledger.Enumerates order →
      SchedulerStep engine [] (engine.dropLedger order)
  | close {engine} : engine.phase = .ledgerDown → SchedulerStep engine [] engine.dropSubmissions

/-- One step of bridge and scheduler together. Requests in flight have distinct
names; the bridge alone holds the submitting end. -/
inductive BridgeStep (unix : Instant → UnixSeconds) : SteppedEngineBridge → SteppedEngineBridge → Prop
  | add {bridge} (request : EngineCoreRequest) (now : Instant) : bridge.names request.requestId = none →
      BridgeStep unix bridge (bridge.startRequest request now)
  | abort {bridge} (requestIds : List String) :
      BridgeStep unix bridge (requestIds.foldl SteppedEngineBridge.abortRequest bridge)
  | dispatch {bridge step} : bridge.scheduler.stream[bridge.received]? = some step →
      BridgeStep unix bridge (bridge.dispatchStep unix step)
  | scheduler {bridge calls next} : SchedulerStep bridge.scheduler calls next →
      BridgeStep unix bridge { bridge with scheduler := next, calls := bridge.calls ++ calls }

inductive BridgeReach (unix : Instant → UnixSeconds) : SteppedEngineBridge → Prop
  | start : BridgeReach unix .start
  | next {bridge next} : BridgeReach unix bridge → BridgeStep unix bridge next → BridgeReach unix next

end PegaInfer.Frontend
