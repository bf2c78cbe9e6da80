import PegaInfer.Basic
import PegaInfer.Lib.SwapRemove

namespace PegaInfer.Qwen35

open SwapRemove

abbrev RequestId := Nat

inductive TpRequestPhase
  | prefilling
  | decoding
  deriving DecidableEq

/-- `TpRequestState`. The paged KV and the recurrent state are the tokens they have
absorbed. -/
structure TpRequestState where
  requestId : RequestId
  phase : TpRequestPhase
  absorbed : List Token
  deriving DecidableEq

/-- What a call of the executor or a worker's command can fail with. -/
inductive TpError
  | emptyPrefill
  | emptyDecode
  | emptyChunk (id : RequestId)
  | duplicatePrefill (id : RequestId)
  | duplicateDecode (id : RequestId)
  | unifiedRows (rows : Nat)
  | unifiedBoth (id : RequestId)
  | capacity (maxBatch : Nat)
  | decodeBatch (rows maxBatch : Nat)
  | alreadyDecoding (id : RequestId)
  | noWorkerState (id : RequestId)
  | notReady (id : RequestId)
  | device
  | panicked (rank : Nat)
  | rankFailed (rank : Nat) (error : TpError)
  | dispatchFailed (rank : Nat)
  | disconnected
  | responseCount (count : Nat)
  | outOfRange (rank : Nat)
  | duplicateRank (rank : Nat)
  | missingRank
  | wrongReply (rank : Nat)
  | noPrimary
  | existence
  | invalidResponses (error : TpError)
  | poisoned (reason : TpError)

variable {P L : Type}

structure TpPrefillChunkItem (P : Type) where
  requestId : RequestId
  promptTokens : List Token
  logprobs : Nat
  samplingParams : P
  finishPrefill : Bool

structure TpDecodeStepItem (P : Type) where
  requestId : RequestId
  tokenId : Token
  logprobs : Nat
  samplingParams : P

structure TpUnifiedPlan (P : Type) where
  prefill : List (TpPrefillChunkItem P)
  decode : List (TpDecodeStepItem P)
  prefillSampleSeed : UInt64
  decodeSampleSeed : UInt64

/-- The state-mutating commands of `TpWorkerCommand`. -/
inductive TpCommand (P : Type)
  | runPrefillChunks (chunks : List (TpPrefillChunkItem P)) (sampleSeed : UInt64)
  | runDecodeStep (requests : List (TpDecodeStepItem P)) (sampleSeed : UInt64)
  | runUnifiedStep (plan : TpUnifiedPlan P)
  | dropRequest (id : RequestId)

/-- `PrefillRequestResult` and `DecodeRequestResult`. -/
structure RequestResult (L : Type) where
  requestId : RequestId
  token : Token
  logprob : Option L

inductive TpWorkerReply (L : Type)
  | ack
  | dropAck (existed : Bool)
  | prefill (requests : List (RequestResult L))
  | decode (requests : List (RequestResult L))
  | unified (prefill decode : List (RequestResult L))

/-- What a rank's device answers while the rows of a command run: whether a state can be
allocated, whether the forward succeeds, and what is sampled. -/
structure RowDevice (P L : Type) where
  allocates : Nat → Bool
  forwards : Nat → Bool
  samples : Nat → List Token → P → Nat → UInt64 → Option (Token × Option L)

structure Device (P L : Type) where
  prefill : RowDevice P L
  decode : RowDevice P L

def requestIndex (requests : List TpRequestState) (id : RequestId) : Option Nat :=
  requests.findIdx? fun state => state.requestId == id

def phaseOf (requests : List TpRequestState) (id : RequestId) : Option TpRequestPhase :=
  (requests.find? fun state => state.requestId == id).map TpRequestState.phase

def validatePrefillChunks (chunks : List (TpPrefillChunkItem P)) : Except TpError Unit :=
  go [] chunks
where
  go (seen : List RequestId) : List (TpPrefillChunkItem P) → Except TpError Unit
    | [] => .ok ()
    | chunk :: chunks =>
      if chunk.promptTokens = [] then .error (.emptyChunk chunk.requestId)
      else if chunk.requestId ∈ seen then .error (.duplicatePrefill chunk.requestId)
      else go (chunk.requestId :: seen) chunks

def validateDecodeRequests (requests : List (TpDecodeStepItem P)) : Except TpError Unit :=
  go [] requests
where
  go (seen : List RequestId) : List (TpDecodeStepItem P) → Except TpError Unit
    | [] => .ok ()
    | request :: requests =>
      if request.requestId ∈ seen then .error (.duplicateDecode request.requestId)
      else go (request.requestId :: seen) requests

def validateUnifiedPlan (plan : TpUnifiedPlan P) (maxBatch : Nat) : Except TpError Unit := do
  if plan.prefill = [] then throw .emptyPrefill
  if plan.decode = [] then throw .emptyDecode
  validatePrefillChunks plan.prefill
  validateDecodeRequests plan.decode
  if plan.prefill.length + plan.decode.length > maxBatch then
    throw (.unifiedRows (plan.prefill.length + plan.decode.length))
  match plan.decode.find? fun item =>
    (plan.prefill.map TpPrefillChunkItem.requestId).contains item.requestId with
  | some item => throw (.unifiedBoth item.requestId)
  | none => pure ()

/-- `validate_unified_worker_layout`. -/
def validateUnifiedWorkerLayout (plan : TpUnifiedPlan P) (maxBatch : Nat) (requests : List TpRequestState) :
    Except TpError Unit := do
  validateUnifiedPlan plan maxBatch
  let newPrefills := (plan.prefill.filter fun item => (phaseOf requests item.requestId).isNone).length
  if requests.length + newPrefills > maxBatch then throw (.capacity maxBatch)
  match plan.prefill.find? fun item => phaseOf requests item.requestId == some .decoding with
  | some item => throw (.alreadyDecoding item.requestId)
  | none => pure ()
  match plan.decode.find? fun item => phaseOf requests item.requestId != some .decoding with
  | some item =>
    match phaseOf requests item.requestId with
    | none => throw (.noWorkerState item.requestId)
    | some _ => throw (.notReady item.requestId)
  | none => pure ()

/-- `ensure_prefill_state`; `none` where the device cannot hold another state. -/
def ensurePrefillState (device : RowDevice P L) (row : Nat)
    (requests : List TpRequestState) (id : RequestId) :
    Option (List TpRequestState × Nat) :=
  match requestIndex requests id with
  | some index => some (requests, index)
  | none =>
    if device.allocates row then
      some (requests ++ [{ requestId := id, phase := .prefilling, absorbed := [] }], requests.length)
    else none

def TpRequestState.absorb (state : TpRequestState) (tokens : List Token) : TpRequestState :=
  { state with absorbed := state.absorbed ++ tokens }

def TpRequestState.finishPrefill (state : TpRequestState) (finish : Bool) : TpRequestState :=
  if finish then { state with phase := .decoding } else state

/-- The loop of `execute_prefill_rows`, from its `row`-th chunk on. The states are as
the loop left them, also where it failed. -/
def prefillLoop (rank : Nat) (device : RowDevice P L) (sampleSeed : UInt64) (row finalRow : Nat)
    (requests : List TpRequestState) :
    List (TpPrefillChunkItem P) → List TpRequestState × Except TpError (List (RequestResult L))
  | [] => (requests, .ok [])
  | chunk :: chunks =>
    match ensurePrefillState device row requests chunk.requestId with
    | none => (requests, .error .device)
    | some (held, index) =>
      match held[index]? with
      | none => (held, .error .device)
      | some state =>
        if state.phase ≠ .prefilling then (held, .error (.alreadyDecoding chunk.requestId))
        else if !device.forwards row then (held, .error .device)
        else
          let absorbed := state.absorb chunk.promptTokens
          let after := held.set index (absorbed.finishPrefill chunk.finishPrefill)
          if chunk.finishPrefill && rank == 0 then
            match device.samples row absorbed.absorbed chunk.samplingParams chunk.logprobs
                (sampleSeed + UInt64.ofNat finalRow) with
            | none => (held.set index absorbed, .error .device)
            | some (token, logprob) =>
              let rest := prefillLoop rank device sampleSeed (row + 1) (finalRow + 1) after chunks
              (rest.1, rest.2.map fun results => { requestId := chunk.requestId, token, logprob } :: results)
          else
            prefillLoop rank device sampleSeed (row + 1)
              (if chunk.finishPrefill then finalRow + 1 else finalRow)
              after chunks

def executePrefillRows (rank maxBatch : Nat) (device : RowDevice P L) (requests : List TpRequestState)
    (chunks : List (TpPrefillChunkItem P)) (sampleSeed : UInt64) :
    List TpRequestState × Except TpError (List (RequestResult L)) :=
  if chunks = [] then (requests, .error .emptyPrefill)
  else
    match validatePrefillChunks chunks with
    | .error error => (requests, .error error)
    | .ok () =>
      let newRequests := (chunks.filter fun chunk => (requestIndex requests chunk.requestId).isNone).length
      if requests.length + newRequests > maxBatch then (requests, .error (.capacity maxBatch))
      else prefillLoop rank device sampleSeed 0 0 requests chunks

/-- The loop of `execute_decode_rows`. -/
def decodeLoop (rank : Nat) (device : RowDevice P L) (sampleSeed : UInt64) (row : Nat)
    (requests : List TpRequestState) :
    List (TpDecodeStepItem P) → List TpRequestState × Except TpError (List (RequestResult L))
  | [] => (requests, .ok [])
  | item :: items =>
    match requestIndex requests item.requestId with
    | none => (requests, .error (.noWorkerState item.requestId))
    | some index =>
      match requests[index]? with
      | none => (requests, .error .device)
      | some state =>
        if state.phase ≠ .decoding then (requests, .error (.notReady item.requestId))
        else if !device.forwards row then (requests, .error .device)
        else
          let absorbed := state.absorb [item.tokenId]
          let after := requests.set index absorbed
          if rank == 0 then
            match device.samples row absorbed.absorbed item.samplingParams item.logprobs
                (sampleSeed + UInt64.ofNat row) with
            | none => (after, .error .device)
            | some (token, logprob) =>
              let rest := decodeLoop rank device sampleSeed (row + 1) after items
              (rest.1, rest.2.map fun results => { requestId := item.requestId, token, logprob } :: results)
          else decodeLoop rank device sampleSeed (row + 1) after items

def executeDecodeRows (rank maxBatch : Nat) (device : RowDevice P L) (requests : List TpRequestState)
    (items : List (TpDecodeStepItem P)) (sampleSeed : UInt64) :
    List TpRequestState × Except TpError (List (RequestResult L)) :=
  if items = [] then (requests, .error .emptyDecode)
  else
    match validateDecodeRequests items with
    | .error error => (requests, .error error)
    | .ok () =>
      if items.length > maxBatch then (requests, .error (.decodeBatch items.length maxBatch))
      else decodeLoop rank device sampleSeed 0 requests items

/-- What a rank replies with the rows of a step: rank 0 sends them, the others an
acknowledgement. -/
def primary (rank : Nat) (reply : TpWorkerReply L) : TpWorkerReply L := if rank = 0 then reply else .ack

/-- `drop_request`. -/
def dropRequest (requests : List TpRequestState) (id : RequestId) : List TpRequestState × Bool :=
  match requestIndex requests id with
  | some index => (swapRemove requests index, true)
  | none => (requests, false)

/-- One command on one rank, past its gate: the states it leaves and what the rank has
to reply. -/
def executeCommand (rank maxBatch : Nat) (device : Device P L) (requests : List TpRequestState) :
    TpCommand P → List TpRequestState × Except TpError (TpWorkerReply L)
  | .runPrefillChunks chunks sampleSeed =>
    let ran := executePrefillRows rank maxBatch device.prefill requests chunks sampleSeed
    (ran.1, ran.2.map fun rows => primary rank (.prefill rows))
  | .runDecodeStep items sampleSeed =>
    let ran := executeDecodeRows rank maxBatch device.decode requests items sampleSeed
    (ran.1, ran.2.map fun rows => primary rank (.decode rows))
  | .runUnifiedStep plan =>
    match validateUnifiedWorkerLayout plan maxBatch requests with
    | .error error => (requests, .error error)
    | .ok () =>
      match executePrefillRows rank maxBatch device.prefill requests plan.prefill plan.prefillSampleSeed with
      | (middle, .error error) => (middle, .error error)
      | (middle, .ok prefillRows) =>
        let ran := executeDecodeRows rank maxBatch device.decode middle plan.decode plan.decodeSampleSeed
        (ran.1, ran.2.map fun decodeRows => primary rank (.unified prefillRows decodeRows))
  | .dropRequest id =>
    let dropped := dropRequest requests id
    (dropped.1, .ok (.dropAck dropped.2))

end PegaInfer.Qwen35
