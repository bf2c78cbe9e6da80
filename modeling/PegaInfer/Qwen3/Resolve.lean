import PegaInfer.Qwen3.Speculative

namespace PegaInfer.Qwen3

open Frontend

/-- A request between its submission and its first token. -/
structure PendingRequest where
  requestId : RequestId
  loraAdapter : Option String
  promptTokens : List Token
  params : SamplingParams
  maxTokens : Nat
  logprobs : Nat
  echo : Bool
  prefetchOffered : Bool
  prefillPos : Nat
  stepChunk : Nat
  cachedTokens : Nat
  deriving DecidableEq

/-- An in-flight request being decoded. -/
structure ActiveRequestState where
  requestId : RequestId
  loraAdapter : Option String
  lastToken : Token
  generatedCount : Nat
  maxTokens : Nat
  promptLen : Nat
  params : SamplingParams
  logprobs : Nat
  deriving DecidableEq

structure PrefillRequestResult where
  requestId : RequestId
  firstToken : Token
  firstTokenLogprob : Option TokenLogprob
  promptLogprobs : Option (List (Option TokenLogprob))
  completed : Bool
  prefillPos : Nat
  cachedTokens : Nat
  deriving DecidableEq

structure DecodeRequestResult where
  requestId : RequestId
  token : Token
  logprob : Option TokenLogprob
  deriving DecidableEq

inductive PendingEffect
  | finish (requestId : RequestId) (finishReason : FinishReason)
  | emitAndFinish (requestId : RequestId) (token : Token) (logprob : Option TokenLogprob)
      (finishReason : FinishReason)
  | promote (state : ActiveRequestState) (firstToken : Token) (logprob : Option TokenLogprob)
  | continuePrefill (req : PendingRequest)

inductive DecodeEffect
  | finish (requestId : RequestId) (finishReason : FinishReason)
  | emitAndFinish (requestId : RequestId) (token : Token) (logprob : Option TokenLogprob)
      (finishReason : FinishReason)
  | emitAndContinue (requestId : RequestId) (token : Token) (logprob : Option TokenLogprob)
      (completionTokens : Nat)
  | emitManyAndContinue (requestId : RequestId) (tokens : List Token) (completionTokens : Nat)
  | emitManyAndFinish (requestId : RequestId) (tokens : List Token) (finishReason : FinishReason)
  deriving DecidableEq

def DecodeEffect.requestId : DecodeEffect → RequestId
  | .finish id _ | .emitAndFinish id _ _ _ | .emitAndContinue id _ _ _ | .emitManyAndContinue id _ _
  | .emitManyAndFinish id _ _ => id

def PendingEffect.requestId : PendingEffect → RequestId
  | .finish id _ | .emitAndFinish id _ _ _ => id
  | .promote state _ _ => state.requestId
  | .continuePrefill req => req.requestId

structure StepEffects where
  cached : List (RequestId × Nat)
  promptEchoes : List (RequestId × PromptEcho)
  pending : List PendingEffect
  decode : List DecodeEffect

section

variable (isStopToken : Token → Bool)

/-- The walk of `resolve_speculative_outputs` over an accepted span. -/
def resolveAccepted (req : ActiveRequestState) (emitted : List Token) (completionTokens : Nat) :
    List Token → DecodeEffect
  | [] => .emitManyAndContinue req.requestId emitted completionTokens
  | token :: tokens =>
    if !req.params.ignoreEos && isStopToken token then .emitManyAndFinish req.requestId emitted .stop
    else if req.maxTokens ≤ completionTokens + 1
      then .emitManyAndFinish req.requestId (emitted ++ [token]) .length
    else resolveAccepted req (emitted ++ [token]) (completionTokens + 1) tokens

/-- `none` is the `expect` on a result without an active request. -/
def resolveSpeculativeOutputs (active : List ActiveRequestState) (results : List VerifyRequestResult) :
    Option (List DecodeEffect) :=
  results.mapM fun result => do
    let req ← active.find? (·.requestId = result.requestId)
    return resolveAccepted isStopToken req [] req.generatedCount result.acceptedTokens

def resolveDecoded (req : ActiveRequestState) (result : DecodeRequestResult) : DecodeEffect :=
  let completionTokens := req.generatedCount + 1
  if !req.params.ignoreEos && isStopToken result.token then .finish result.requestId .stop
  else if req.maxTokens ≤ completionTokens
    then .emitAndFinish result.requestId result.token result.logprob .length
  else .emitAndContinue result.requestId result.token result.logprob completionTokens

def resolveDecodeOutputs (active : List ActiveRequestState) (results : List DecodeRequestResult) :
    Option (List DecodeEffect) :=
  results.mapM fun result => do
    let req ← active.find? (·.requestId = result.requestId)
    return resolveDecoded isStopToken req result

/-- What a prefill result makes of its request. -/
def resolvePrefilled (req : PendingRequest) (result : PrefillRequestResult) : PendingEffect :=
  if !result.completed then
    .continuePrefill { req with
      prefillPos := result.prefillPos
      cachedTokens := max req.cachedTokens result.cachedTokens }
  else if !req.params.ignoreEos && isStopToken result.firstToken then .finish req.requestId .stop
  else if req.maxTokens ≤ 1 then .emitAndFinish req.requestId result.firstToken
    result.firstTokenLogprob .length
  else
    .promote
      { requestId := req.requestId
        loraAdapter := req.loraAdapter
        lastToken := result.firstToken
        generatedCount := 1
        maxTokens := req.maxTokens
        promptLen := req.promptTokens.length
        params := req.params
        logprobs := req.logprobs } result.firstToken result.firstTokenLogprob

/-- `resolve_prefill_outputs`. Its first chunk reports a request's cache hit, and
`none` is the `assert_eq` on a result out of place. -/
def resolvePrefillOutputs (pending : List PendingRequest) (results : List PrefillRequestResult) :
    Option StepEffects :=
  let pairs := pending.zip results
  if pairs.all fun (req, result) => req.requestId = result.requestId then
    some
      { cached := (pairs.filter fun (req, _) => req.prefillPos = 0).map fun (req, result) =>
          (req.requestId, result.cachedTokens)
        promptEchoes := (pairs.filter fun (req, result) =>
          result.completed && req.echo).map fun (req, result) =>
          (req.requestId,
            { ids := req.promptTokens
              logprobs := result.promptLogprobs.getD (List.replicate req.promptTokens.length none) })
        pending := pairs.map fun (req, result) => resolvePrefilled isStopToken req result
        decode := [] }
  else none

inductive ExecutionArtifacts
  | prefill (pending : List PendingRequest) (result : List PrefillRequestResult)
  | decode (result : List DecodeRequestResult)
  | speculativeDecode (verify : List VerifyRequestResult)
  | unified (pending : List PendingRequest) (prefill : List PrefillRequestResult)
      (decode : List DecodeRequestResult)

def StepEffects.ofDecode (decode : List DecodeEffect) : StepEffects :=
  { cached := [], promptEchoes := [], pending := [], decode }

def resolveStep (active : List ActiveRequestState) : ExecutionArtifacts → Option StepEffects
  | .prefill pending result => resolvePrefillOutputs isStopToken pending result
  | .decode result => (resolveDecodeOutputs isStopToken active result).map .ofDecode
  | .speculativeDecode verify => (resolveSpeculativeOutputs isStopToken active verify).map .ofDecode
  | .unified pending prefill decode => do
    let effects ← resolvePrefillOutputs isStopToken pending prefill
    let decode ← resolveDecodeOutputs isStopToken active decode
    return { effects with decode }

end

end PegaInfer.Qwen3
