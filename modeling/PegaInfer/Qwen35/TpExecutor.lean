import PegaInfer.Qwen35.TpEffect

namespace PegaInfer.Qwen35

variable {P L : Type}

structure TpWorkerResponse (L : Type) where
  rank : Nat
  result : Except TpError (TpWorkerReply L)

inductive DropExpectation
  | mustBeAbsent
  | mustExist
  deriving DecidableEq

/-- A call of the executor that mutates its ranks. -/
inductive TpCall (P : Type)
  | executePrefillChunks (chunks : List (TpPrefillChunkItem P)) (sampleSeed : UInt64)
  | executeDecodeItems (requests : List (TpDecodeStepItem P)) (sampleSeed : UInt64)
  | executeUnified (plan : TpUnifiedPlan P)
  | dropRequest (id : RequestId) (expectation : DropExpectation)

namespace TpCall

def command : TpCall P → TpCommand P
  | .executePrefillChunks chunks sampleSeed => .runPrefillChunks chunks sampleSeed
  | .executeDecodeItems requests sampleSeed => .runDecodeStep requests sampleSeed
  | .executeUnified plan => .runUnifiedStep plan
  | .dropRequest id _ => .dropRequest id

/-- What a call checks before it dispatches anything. -/
def validate (maxBatch : Nat) : TpCall P → Except TpError Unit
  | .executePrefillChunks chunks _ => if chunks = [] then .error .emptyPrefill
    else validatePrefillChunks chunks
  | .executeDecodeItems requests _ => if requests = [] then .error .emptyDecode
    else validateDecodeRequests requests
  | .executeUnified plan => validateUnifiedPlan plan maxBatch
  | .dropRequest _ _ => .ok ()

end TpCall

/-- The loop of `validate_exact_rank_responses`. -/
def exactRanks (worldSize : Nat) (seen : List Nat) :
    List (TpWorkerResponse L) → Except TpError (List (Nat × TpWorkerReply L))
  | [] => if (List.range worldSize).all seen.contains then .ok [] else .error .missingRank
  | response :: responses =>
    if response.rank ≥ worldSize then .error (.outOfRange response.rank)
    else if response.rank ∈ seen then .error (.duplicateRank response.rank)
    else
      match response.result with
      | .error error => .error error
      | .ok reply =>
        (exactRanks worldSize (response.rank :: seen) responses).map fun replies =>
          (response.rank, reply) :: replies

def validateExactRankResponses (responses : List (TpWorkerResponse L)) (worldSize : Nat) :
    Except TpError (List (Nat × TpWorkerReply L)) :=
  if responses.length ≠ worldSize then .error (.responseCount responses.length)
  else (exactRanks worldSize [] responses).map fun replies => replies.mergeSort fun one two => one.1 ≤ two.1

/-- The loop of `validate_prefill_responses`, `validate_decode_responses` and
`validate_unified_responses`; `picks` says which reply is the primary's. -/
def primaryReply (picks : TpWorkerReply L → Bool) (found : Option (TpWorkerReply L)) :
    List (Nat × TpWorkerReply L) → Except TpError (TpWorkerReply L)
  | [] =>
    match found with
    | some reply => .ok reply
    | none => .error .noPrimary
  | (rank, reply) :: replies =>
    if rank = 0 then if picks reply then primaryReply picks (some reply) replies else .error (.wrongReply 0)
    else
      match reply with
      | .ack => primaryReply picks found replies
      | _ => .error (.wrongReply rank)

/-- The loop of `validate_drop_responses`. -/
def dropExistence : List (Nat × TpWorkerReply L) → Except TpError (List (Nat × Bool))
  | [] => .ok []
  | (rank, .dropAck existed) :: replies => (dropExistence replies).map fun rest => (rank, existed) :: rest
  | (rank, _) :: _ => .error (.wrongReply rank)

/-- What a call makes of its ranks' responses: the primary's reply, nothing for a
drop. -/
def TpCall.validateResponses (responses : List (TpWorkerResponse L)) (worldSize : Nat) (call : TpCall P) :
    Except TpError (Option (TpWorkerReply L)) := do
  let replies ← validateExactRankResponses responses worldSize
  match call with
  | .dropRequest _ expectation =>
    let existence ← dropExistence replies
    if existence.all fun entry => entry.2 == decide (expectation = .mustExist) then pure none
      else throw .existence
  | _ =>
    let reply ← primaryReply (call.command.expects 0) none replies
    pure (some reply)

inductive TpCommandDecision
  | pending
  | execute
  | cancel
  deriving DecidableEq

/-- Where a worker's `run` is: at `recv`, at the start gate, or with a result to
respond with. -/
inductive WorkerStage (P L : Type)
  | idle
  | atGate (dispatch : Nat) (command : TpCommand P)
  | responding (dispatch : Nat) (command : TpCommand P) (result : Except TpError (TpWorkerReply L))

/-- A rank. The last two fields are histories: the commands it began to execute, and
its replies to those that succeeded, each with the dispatch it came by. -/
structure TpWorker (P L : Type) where
  inbox : List (Nat × TpCommand P)
  stage : WorkerStage P L
  alive : Bool
  requests : List TpRequestState
  executed : List (Nat × TpCommand P)
  produced : List (Nat × TpWorkerReply L)

inductive CallStage (L : Type)
  | sending (rank : Nat)
  | collecting (collected : List (TpWorkerResponse L))

structure CallUnderway (P L : Type) where
  call : TpCall P
  dispatch : Nat
  stage : CallStage L

/-- A call that has returned. `dispatch` is missing where it returned before it
dispatched. -/
structure ReturnedCall (P L : Type) where
  call : TpCall P
  dispatch : Option Nat
  outcome : Except TpError (Option (TpWorkerReply L))

/-- `Qwen35TpExecutor` with its ranks, the start gate and the response channel of each
dispatch, and the calls it has answered. -/
structure TpExecutor (P L : Type) where
  worldSize : Nat
  maxBatch : Nat
  workers : Nat → TpWorker P L
  poison : Option TpError
  gates : Nat → TpCommandDecision
  channels : Nat → List (TpWorkerResponse L)
  dispatches : Nat
  underway : Option (CallUnderway P L)
  history : List (ReturnedCall P L)

namespace TpExecutor

def new (worldSize maxBatch : Nat) : TpExecutor P L :=
  { worldSize
    maxBatch
    workers := fun _ =>
      { inbox := [], stage := .idle, alive := true, requests := [], executed := [], produced := [] }
    poison := none
    gates := fun _ => .pending
    channels := fun _ => []
    dispatches := 0
    underway := none
    history := [] }

/-- `TpRuntimePoison::poison`: the first reason stays. -/
def poisonWith (executor : TpExecutor P L) (reason : TpError) : TpExecutor P L :=
  { executor with poison := some (executor.poison.getD reason) }

/-- The call in hand returns. -/
def return_ (executor : TpExecutor P L) (call : TpCall P) (dispatch : Option Nat)
    (outcome : Except TpError (Option (TpWorkerReply L))) : TpExecutor P L :=
  { executor with underway := none, history := executor.history ++ [{ call, dispatch, outcome }] }

/-- A call returns the reason the executor is poisoned with. -/
def failWith (executor : TpExecutor P L) (current : CallUnderway P L) (reason : TpError) : TpExecutor P L :=
  (executor.poisonWith reason).return_ current.call (some current.dispatch)
    (.error (executor.poison.getD reason))

/-- A dispatch starts with a gate and a channel of its own. -/
def beginDispatch (executor : TpExecutor P L) (call : TpCall P) : TpExecutor P L :=
  { executor with
    dispatches := executor.dispatches + 1
    gates := Function.update executor.gates executor.dispatches .pending
    channels := Function.update executor.channels executor.dispatches []
    underway := some { call, dispatch := executor.dispatches, stage := .sending 0 } }

def setWorker (executor : TpExecutor P L) (rank : Nat) (worker : TpWorker P L) : TpExecutor P L :=
  { executor with workers := Function.update executor.workers rank worker }

def setStage (executor : TpExecutor P L) (current : CallUnderway P L)
    (stage : CallStage L) : TpExecutor P L :=
  { executor with underway := some { current with stage } }

def resolveGate (executor : TpExecutor P L) (dispatch : Nat)
    (decision : TpCommandDecision) : TpExecutor P L :=
  { executor with gates := Function.update executor.gates dispatch decision }

def post (executor : TpExecutor P L) (dispatch : Nat) (messages : List (TpWorkerResponse L)) :
    TpExecutor P L :=
  { executor with
    channels := Function.update executor.channels dispatch (executor.channels dispatch ++ messages) }

end TpExecutor

/-- What may arrive in place of a rank's reply: the reply itself, an error, a reply of a
kind the rank does not owe, or anything under a rank that does not exist. -/
def MayArrive (worldSize rank : Nat) (command : TpCommand P) (reply : TpWorkerReply L)
    (message : TpWorkerResponse L) :
    Prop :=
  worldSize ≤ message.rank ∨ message.rank = rank ∧
    match message.result with
    | .ok other => other = reply ∨ command.expects rank other = false
    | .error _ => True

/-- The calling thread: start a call, send, resolve the gate, collect, return. -/
inductive CallerStep : TpExecutor P L → TpExecutor P L → Prop
  | poisoned {executor : TpExecutor P L} {reason : TpError} (call : TpCall P) : executor.underway = none →
      executor.poison = some reason →
      CallerStep executor (executor.return_ call none (.error (.poisoned reason)))
  | refuse {executor : TpExecutor P L} {call : TpCall P} {error : TpError} : executor.underway = none →
      executor.poison = none → call.validate executor.maxBatch = .error error →
      CallerStep executor (executor.return_ call none (.error error))
  | begin {executor : TpExecutor P L} {call : TpCall P} : executor.underway = none → executor.poison = none →
      call.validate executor.maxBatch = .ok () → CallerStep executor (executor.beginDispatch call)
  | send {executor : TpExecutor P L} {current : CallUnderway P L} {rank : Nat} :
      executor.underway = some current →
      current.stage = .sending rank → rank < executor.worldSize → (executor.workers rank).alive = true →
      CallerStep executor
        ((executor.setWorker rank
          { executor.workers rank with
            inbox := (executor.workers rank).inbox ++
              [(current.dispatch, current.call.command)] }).setStage current
          (.sending (rank + 1)))
  | sendFails {executor : TpExecutor P L} {current : CallUnderway P L} {rank : Nat} :
      executor.underway = some current →
      current.stage = .sending rank → rank < executor.worldSize →
      CallerStep executor
        ((executor.resolveGate current.dispatch .cancel).failWith current (.dispatchFailed rank))
  | release {executor : TpExecutor P L} {current : CallUnderway P L} : executor.underway = some current →
      current.stage = .sending executor.worldSize →
      CallerStep executor ((executor.resolveGate current.dispatch .execute).setStage current (.collecting []))
  | collect {executor : TpExecutor P L} {current : CallUnderway P L}
      {collected rest : List (TpWorkerResponse L)}
      {response : TpWorkerResponse L} {reply : TpWorkerReply L} : executor.underway = some current →
      current.stage = .collecting collected → collected.length < executor.worldSize →
      executor.channels current.dispatch = response :: rest → response.result = .ok reply →
      CallerStep executor
        ({ executor with
          channels := Function.update executor.channels current.dispatch rest }.setStage current
          (.collecting (collected ++ [response])))
  | collectError {executor : TpExecutor P L} {current : CallUnderway P L}
      {collected rest : List (TpWorkerResponse L)}
      {response : TpWorkerResponse L} {error : TpError} : executor.underway = some current →
      current.stage = .collecting collected → collected.length < executor.worldSize →
      executor.channels current.dispatch = response :: rest → response.result = .error error →
      CallerStep executor (executor.failWith current (.rankFailed response.rank error))
  | disconnected {executor : TpExecutor P L} {current : CallUnderway P L}
      {collected : List (TpWorkerResponse L)} :
      executor.underway = some current → current.stage = .collecting collected →
      collected.length < executor.worldSize →
      CallerStep executor (executor.failWith current .disconnected)
  | succeed {executor : TpExecutor P L} {current : CallUnderway P L} {collected : List (TpWorkerResponse L)}
      {answer : Option (TpWorkerReply L)} : executor.underway = some current →
      current.stage = .collecting collected → collected.length = executor.worldSize →
      current.call.validateResponses collected executor.worldSize = .ok answer →
      CallerStep executor (executor.return_ current.call (some current.dispatch) (.ok answer))
  | invalid {executor : TpExecutor P L} {current : CallUnderway P L} {collected : List (TpWorkerResponse L)}
      {error : TpError} : executor.underway = some current →
      current.stage = .collecting collected → collected.length = executor.worldSize →
      current.call.validateResponses collected executor.worldSize = .error error →
      CallerStep executor (executor.failWith current (.invalidResponses error))

/-- A worker thread: `run` with `respond`, and a panic at any point. A panic inside a
command may leave any states behind. -/
inductive WorkerStep (rank : Nat) : TpExecutor P L → TpExecutor P L → Prop
  | take {executor : TpExecutor P L} {dispatch : Nat} {command : TpCommand P}
      {rest : List (Nat × TpCommand P)} :
      (executor.workers rank).alive = true → (executor.workers rank).stage = .idle →
      (executor.workers rank).inbox = (dispatch, command) :: rest →
      WorkerStep rank executor
        (executor.setWorker rank
          { executor.workers rank with inbox := rest, stage := .atGate dispatch command })
  | skip {executor : TpExecutor P L} {dispatch : Nat} {command : TpCommand P} :
      (executor.workers rank).alive = true → (executor.workers rank).stage = .atGate dispatch command →
      executor.gates dispatch = .cancel →
      WorkerStep rank executor (executor.setWorker rank { executor.workers rank with stage := .idle })
  | run {executor : TpExecutor P L} {dispatch : Nat} {command : TpCommand P} (device : Device P L)
      {requests : List TpRequestState} {result : Except TpError (TpWorkerReply L)} :
      (executor.workers rank).alive = true → (executor.workers rank).stage = .atGate dispatch command →
      executor.gates dispatch = .execute →
      executeCommand rank executor.maxBatch device (executor.workers rank).requests command =
        (requests, result) →
      WorkerStep rank executor
        (executor.setWorker rank
          { executor.workers rank with
            stage := .responding dispatch command result
            requests
            executed := (executor.workers rank).executed ++ [(dispatch, command)] })
  | respond {executor : TpExecutor P L} {dispatch : Nat} {command : TpCommand P} {reply : TpWorkerReply L}
      {messages : List (TpWorkerResponse L)} :
      (executor.workers rank).alive = true →
        (executor.workers rank).stage = .responding dispatch command (.ok reply) →
      (∀ message ∈ messages, MayArrive executor.worldSize rank command reply message) →
      WorkerStep rank executor
        ((executor.setWorker rank
          { executor.workers rank with
            stage := .idle
            produced := (executor.workers rank).produced ++ [(dispatch, reply)] }).post dispatch messages)
  | fail {executor : TpExecutor P L} {dispatch : Nat} {command : TpCommand P} {error : TpError}
      {messages : List (TpWorkerResponse L)} :
      (executor.workers rank).alive = true →
        (executor.workers rank).stage = .responding dispatch command (.error error) →
      (∀ message ∈ messages, (executor.worldSize ≤ message.rank ∨ message.rank = rank) ∧
        ∀ reply, message.result ≠ .ok reply) →
      WorkerStep rank executor
        (((executor.setWorker rank { executor.workers rank with inbox := [], alive := false }).poisonWith
          (.rankFailed rank error)).post dispatch messages)
  | panic {executor : TpExecutor P L} : (executor.workers rank).alive = true →
      WorkerStep rank executor
        ((executor.setWorker rank { executor.workers rank with inbox := [], alive := false }).poisonWith
          (.panicked rank))
  | panicInside {executor : TpExecutor P L} {dispatch : Nat} {command : TpCommand P}
      (requests : List TpRequestState) :
      (executor.workers rank).alive = true → (executor.workers rank).stage = .atGate dispatch command →
      executor.gates dispatch = .execute →
      WorkerStep rank executor
        ((executor.setWorker rank
          { executor.workers rank with
            inbox := []
            alive := false
            requests
            executed := (executor.workers rank).executed ++ [(dispatch, command)] }).poisonWith
              (.panicked rank))

inductive TpStep : TpExecutor P L → TpExecutor P L → Prop
  | caller {executor next : TpExecutor P L} : CallerStep executor next → TpStep executor next
  | worker {executor next : TpExecutor P L} {rank : Nat} :
      rank < executor.worldSize → WorkerStep rank executor next →
      TpStep executor next

inductive TpReach (worldSize maxBatch : Nat) : TpExecutor P L → Prop
  | start : TpReach worldSize maxBatch (.new worldSize maxBatch)
  | next {executor next : TpExecutor P L} : TpReach worldSize maxBatch executor → TpStep executor next →
      TpReach worldSize maxBatch next

end PegaInfer.Qwen35
