import PegaInfer.DeepSeekV2Lite.Grouping

namespace PegaInfer.DeepSeekV2Lite

open Frontend

inductive AdmissionDecision
  | admit_
  | reject (message : String)
  | finish (reason : FinishReason)
  deriving DecidableEq

/-- `FinishReason` as `{:?}` prints it. -/
def debugFinishReason : FinishReason → String
  | .length => "Length"
  | .stop => "Stop"
  | .error => "Error"

/-- `admission_decision`; the first text goes without the sampling parameters it prints. -/
def admissionDecision (req : GenerateRequest) (supportedContext : Nat) : AdmissionDecision :=
  let promptTokens := req.promptTokens.length
  let requestedContext := promptTokens + req.maxTokens
  if ¬ req.params.isGreedy then
    .reject "DeepSeek-V2-Lite EP=2 mixed serving gate supports greedy decoding only"
  else if 0 < req.logprobs then
    .reject "DeepSeek-V2-Lite EP=2 mixed serving gate does not return logprobs yet"
  else if req.loraAdapter.isSome then
    .reject "DeepSeek-V2-Lite EP=2 mixed serving gate does not support LoRA adapters"
  else if req.promptTokens = [] then
    .reject "DeepSeek-V2-Lite EP=2 mixed serving gate requires a non-empty prompt"
  else if req.maxTokens = 0 then .finish .length
  else if 2 ^ 64 ≤ requestedContext then
    .reject (s!"DeepSeek-V2-Lite EP=2 mixed serving gate context length overflow: " ++
      s!"prompt_tokens={promptTokens} max_new_tokens={req.maxTokens}")
  else if supportedContext < requestedContext then
    .reject ("DeepSeek-V2-Lite EP=2 mixed serving gate supports plain RoPE context <= " ++
      s!"{supportedContext} tokens; " ++
      s!"requested prompt_tokens={promptTokens} max_new_tokens={req.maxTokens} total={requestedContext}. " ++
      "YaRN rope_scaling long context is not implemented yet.")
  else .admit_

structure AdmissionBatch where
  admitted : List PendingRequest
  rejected : List (PendingRequest × String)
  finished : List PendingRequest
  deriving DecidableEq

/-- `take_admission_batch`: the batch, and what stays pending. -/
def takeAdmissionBatch (activeLen maxActiveRequests supportedContext : Nat) (batch : AdmissionBatch) :
    List PendingRequest → AdmissionBatch × List PendingRequest
  | [] => (batch, [])
  | req :: pending =>
    match admissionDecision req.toGenerateRequest supportedContext with
    | .admit_ =>
      if activeLen + batch.admitted.length < maxActiveRequests then
        takeAdmissionBatch activeLen maxActiveRequests supportedContext
          { batch with admitted := batch.admitted ++ [req] } pending
      else (batch, req :: pending)
    | .reject message =>
      takeAdmissionBatch activeLen maxActiveRequests supportedContext
        { batch with rejected := batch.rejected ++ [(req, message)] } pending
    | .finish .length =>
      takeAdmissionBatch activeLen maxActiveRequests supportedContext
        { batch with finished := batch.finished ++ [req] } pending
    | .finish reason =>
      takeAdmissionBatch activeLen maxActiveRequests supportedContext
        { batch with
          rejected := batch.rejected ++
            [(req, "DeepSeek-V2-Lite unsupported admission finish reason: " ++
              debugFinishReason reason)] } pending

/-- The scheduler, with the requests it has received and the numbers of those it has tried to prefill. -/
structure MixedRequestScheduler where
  outside : Outside
  received : List GenerateRequest
  prefilled : List Nat
  pending : List PendingRequest
  active : List ActiveRequestState

namespace MixedRequestScheduler

def new : MixedRequestScheduler where
  outside := { sinks := fun _ => ⟨[], false⟩, sends := [], calls := [] }
  received := []
  prefilled := []
  pending := []
  active := []

end MixedRequestScheduler

namespace World

variable (world : World)

/-- `block_until_work` and `drain_pending_submissions`. -/
def receive (s : MixedRequestScheduler) : List GenerateRequest → MixedRequestScheduler
  | [] => s
  | req :: reqs =>
    receive { s with
      received := s.received ++ [req]
      pending := s.pending ++ [{ toGenerateRequest := req, tokenTx := s.received.length }] } reqs

/-- The events of a request that is answered without a prefill. -/
def answer (o : Outside) (pending : PendingRequest) (event : TokenEvent) : Outside :=
  match world.sendScheduled o pending with
  | (o, false) => o
  | (o, true) => (world.send (world.sendPromptEcho o pending).1 pending.tokenTx event).1

def reject (o : Outside) : List (PendingRequest × String) → Outside
  | [] => o
  | (pending, message) :: rejected =>
    reject (world.answer o pending (.rejected message pending.promptTokens.length 0)) rejected

def finish (o : Outside) : List PendingRequest → Outside
  | [] => o
  | pending :: finished =>
    finish (world.answer o pending (.finished .length pending.promptTokens.length 0)) finished

/-- `prefill_request`. -/
def prefillRequest (o : Outside) (pending : PendingRequest) : Outside × Option ActiveRequestState :=
  match world.sendScheduled o pending with
  | (o, false) => (o, none)
  | (o, true) =>
    match world.sendPromptEcho o pending with
    | (o, false) => (o, none)
    | (o, true) =>
      let o' := { o with calls := o.calls ++ [.prefillNextToken pending.tokenTx pending.promptTokens] }
      match world.fails o.calls.length with
      | some message =>
        ((world.send o' pending.tokenTx (.error message pending.promptTokens.length 0)).1, none)
      | none =>
        let next := world.next pending.promptTokens
        let active : ActiveRequestState :=
          { tokenTx := pending.tokenTx
            promptLen := pending.promptTokens.length
            maxTokens := pending.maxTokens
            generated := 0
            lastToken := next
            finishPolicy := { eosTokenId := world.eosTokenId, ignoreEos := pending.params.ignoreEos }
            cache := pending.promptTokens }
        match world.emitTokenOrFinish o' active next with
        | (o, _, true) => (o, none)
        | (o, active, false) => (o, some active)

/-- The loop over the admitted requests. The early break puts the request at hand back and drops
those behind it. -/
def prefillAdmitted (s : MixedRequestScheduler) : List PendingRequest → MixedRequestScheduler
  | [] => s
  | pending :: admitted =>
    if world.maxActiveRequests ≤ s.active.length then { s with pending := pending :: s.pending }
    else
      let (outside, active) := world.prefillRequest s.outside pending
      prefillAdmitted { s with
        outside,
        prefilled := s.prefilled ++ [pending.tokenTx],
        active := s.active ++ active.toList } admitted

def admitReadyRequests (s : MixedRequestScheduler) : MixedRequestScheduler :=
  let (batch, pending) :=
    takeAdmissionBatch s.active.length world.maxActiveRequests world.supportedContext ⟨[], [], []⟩ s.pending
  let outside := world.finish (world.reject s.outside batch.rejected) batch.finished
  world.prefillAdmitted { s with outside, pending } batch.admitted

/-- `retire_bad_cache_positions`; the text goes without the request's id. -/
def retireBadCachePositions (o : Outside) : List ActiveRequestState → Outside × List ActiveRequestState
  | [] => (o, [])
  | row :: active =>
    if row.cache.length = row.nextDecodePosition then
      let (o, survivors) := retireBadCachePositions o active
      (o, row :: survivors)
    else
      retireBadCachePositions
        (world.emitError o row ("DeepSeek-V2-Lite request cache position mismatch: " ++
          s!"cache_len={row.cache.length}, expected={row.nextDecodePosition}")) active

/-- The decode of every group of a mixed round. -/
def decodeGroups (o : Outside) : List DecodePositionGroup → Outside × List (Nat × ActiveRequestState)
  | [] => (o, [])
  | group :: groups =>
    if 1 < group.rows.length then
      let (o, survivors) := world.decodeBatchGroup o group.position group.rows
      let (o, rest) := decodeGroups o groups
      (o, survivors ++ rest)
    else
      match group.rows.getLast? with
      | none => decodeGroups o groups
      | some row =>
        let (o, survivor) := world.decodeSingleRow o row
        let (o, rest) := decodeGroups o groups
        (o, survivor.toList ++ rest)

/-- The rows of a round; `none` is a panic. -/
def decodeActive (o : Outside) (active : List ActiveRequestState) :
    Option (Outside × List ActiveRequestState) :=
  match active with
  | [] => some (o, [])
  | [row] =>
    let (o, survivor) := world.decodeSingleRow o (0, row)
    some (o, survivor.toList.map Prod.snd)
  | active =>
    match commonDecodePosition active with
    | some position =>
      let (o, survivors) := world.decodeBatchGroup o position (enumerateRows active)
      some (o, restoreSurvivingRows survivors)
    | none =>
      match takeDecodePositionGroups active with
      | none => none
      | some groups =>
        let (o, survivors) := world.decodeGroups o groups
        some (o, restoreSurvivingRows survivors)

def decodeRound (s : MixedRequestScheduler) : Option MixedRequestScheduler :=
  let (outside, active) := world.retireBadCachePositions s.outside s.active
  match world.decodeActive outside active with
  | none => none
  | some (outside, active) => some { s with outside, active }

/-- One turn of `run`'s loop, `arrivals` having come in. -/
def iterate (s : MixedRequestScheduler) (arrivals : List GenerateRequest) : Option MixedRequestScheduler :=
  let s := world.admitReadyRequests (receive s arrivals)
  if s.active = [] then some s else world.decodeRound s

def run (s : MixedRequestScheduler) : List (List GenerateRequest) → Option MixedRequestScheduler
  | [] => some s
  | arrivals :: rest =>
    match world.iterate s arrivals with
    | none => none
    | some s => run s rest

end World

end PegaInfer.DeepSeekV2Lite
