import PegaInfer.Qwen3.Resolve

namespace PegaInfer.Qwen3

open Frontend

inductive ExecutionPlan
  | prefill (pending : List PendingRequest)
  | decode
  | speculativeDecode
  | unified (pending : List PendingRequest)

def buildNextPlan (haveActive : Bool) (pending : List PendingRequest) (speculative : Bool) :
    Option ExecutionPlan :=
  let needsPromptLogprobs := pending.any fun req => req.echo && decide (0 < req.logprobs)
  let needsDflashCapture := speculative && pending.any fun req =>
    req.loraAdapter.isNone && decide (req.logprobs = 0)
  if !pending.isEmpty && haveActive && !needsPromptLogprobs && !needsDflashCapture
    then some (.unified pending)
  else if !pending.isEmpty then some (.prefill pending)
  else if haveActive then some .decode
  else none

/-- The whole active batch is draft-ready. -/
def shouldSpeculativeDecode (speculativeEnabled : Bool) (ready : RequestId → Bool)
    (active : List ActiveRequestState) : Bool :=
  speculativeEnabled && !active.isEmpty &&
    active.all fun req => ready req.requestId && req.loraAdapter.isNone && decide (req.logprobs = 0)

def runtimePlan (speculativeEnabled : Bool) (ready : RequestId → Bool) (active : List ActiveRequestState)
    (pending : List PendingRequest) : Option ExecutionPlan :=
  if shouldSpeculativeDecode speculativeEnabled ready active then
    if pending.isEmpty then some .speculativeDecode else some (.prefill pending)
  else buildNextPlan (!active.isEmpty) pending speculativeEnabled

/-- The requests a failed execution of the plan kills. -/
def failureTargetIds (active : List ActiveRequestState) : ExecutionPlan → List RequestId
  | .prefill pending => pending.map (·.requestId)
  | .decode | .speculativeDecode => active.map (·.requestId)
  | .unified pending => active.map (·.requestId) ++ pending.map (·.requestId)

/-- What the executor makes of a request's chunk. -/
structure PrefillAnswer where
  firstToken : Token
  firstTokenLogprob : Option TokenLogprob
  promptLogprobs : Option (List (Option TokenLogprob))
  completed : Bool
  prefillPos : Nat
  cachedTokens : Nat

def PrefillAnswer.result (answer : PrefillAnswer) (id : RequestId) : PrefillRequestResult :=
  { requestId := id
    firstToken := answer.firstToken
    firstTokenLogprob := answer.firstTokenLogprob
    promptLogprobs := answer.promptLogprobs
    completed := answer.completed
    prefillPos := answer.prefillPos
    cachedTokens := answer.cachedTokens }

/-- How the executor answers the calls of one step. It gives one result for each
request of a plan, in whatever order, or fails the call. -/
structure Execution where
  error : Option String
  prefill : RequestId → PrefillAnswer
  decode : RequestId → Token × Option TokenLogprob
  draft : RequestId → List Token
  lane : HedgeLane
  target : RequestId → List Token → List Token

/-- A verify span clamped to what the request may still emit. -/
def verifyItem (active : List ActiveRequestState)
    (draft : RequestId × List Token) : Option VerifyStepItem := do
  let req ← active.find? (·.requestId = draft.1)
  return { requestId := draft.1, tokenIds := draft.2.take (req.maxTokens - req.generatedCount),
           params := req.params }

/-- `build_speculative_verify_items`; `none` is its `expect`. -/
def buildSpeculativeVerifyItems (active : List ActiveRequestState) (drafts : List (RequestId × List Token)) :
    Option (List VerifyStepItem) :=
  drafts.mapM (verifyItem active)

def sortById {α : Type} (id : α → RequestId) (items : List α) : List α :=
  items.mergeSort fun one two => decide (id one ≤ id two)

def Execution.prefillResults (execution : Execution) (pending : List PendingRequest) :
    List PrefillRequestResult :=
  sortById (·.requestId) (pending.map fun req => (execution.prefill req.requestId).result req.requestId)

def Execution.decodeResults (execution : Execution) (active : List ActiveRequestState) :
    List DecodeRequestResult :=
  sortById (·.requestId) (active.map fun req =>
    { requestId := req.requestId, token := (execution.decode req.requestId).1,
      logprob := (execution.decode req.requestId).2 })

/-- The drafts of a step, each behind the token the request stands at. -/
def Execution.drafts (execution : Execution) (active : List ActiveRequestState) :
    List (RequestId × List Token) :=
  sortById (·.1) (active.map fun req => (req.requestId, req.lastToken :: execution.draft req.requestId))

/-- How `execute_plan` ends. -/
inductive Executed
  | ok (artifacts : ExecutionArtifacts)
  | error (message : String)
  | panicked

/-- Draft, clamp and verify. -/
def Execution.speculate (execution : Execution) (active : List ActiveRequestState) : Executed :=
  match buildSpeculativeVerifyItems active (execution.drafts active) with
  | none => .panicked
  | some items =>
    match executeVerify execution.target execution.lane items with
    | .error message => .error message
    | .ok results => .ok (.speculativeDecode (sortById (·.requestId) results))

/-- `execute_plan`. Under decode overlap a unified step leaves its prefill in flight
and returns no prefill result. -/
def executePlan (execution : Execution) (overlap : Bool) (active : List ActiveRequestState)
    (plan : ExecutionPlan) : Executed :=
  match execution.error with
  | some message => .error message
  | none =>
    match plan with
    | .prefill pending => .ok (.prefill pending (execution.prefillResults pending))
    | .decode => .ok (.decode (execution.decodeResults active))
    | .speculativeDecode => execution.speculate active
    | .unified pending =>
      .ok (.unified pending (if overlap then [] else execution.prefillResults pending)
        (execution.decodeResults active))

end PegaInfer.Qwen3
