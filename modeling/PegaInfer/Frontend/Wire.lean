import PegaInfer.Frontend.Update

namespace PegaInfer.Frontend

/-- A wall-clock `f64`, kept as its bits. -/
abbrev UnixSeconds := UInt64

inductive EngineCoreFinishReason
  | stop
  | length
  | error
  deriving DecidableEq

inductive StopReason
  | text (message : String)
  deriving DecidableEq

inductive EngineCoreEventType
  | queued
  | scheduled
  deriving DecidableEq

structure EngineCoreEvent where
  type : EngineCoreEventType
  timestamp : UnixSeconds
  deriving DecidableEq

structure PrefillStats where
  numPromptTokens : UInt32
  numComputedTokens : UInt32
  numCachedTokens : UInt32
  numLocalCachedTokens : UInt32
  numExternalCachedTokens : UInt32
  numCacheCreationTokens : UInt32
  deriving DecidableEq

structure WireTokenLogprob where
  tokenId : Token
  logprob : UInt32
  rank : UInt32
  deriving DecidableEq

structure PositionLogprobs where
  entries : List WireTokenLogprob
  deriving DecidableEq

/-- `EngineCoreOutput`, with the fields a bridge ever fills. -/
structure EngineCoreOutput where
  requestId : String
  newTokenIds : List Token
  newLogprobs : Option (List PositionLogprobs)
  finishReason : Option EngineCoreFinishReason
  stopReason : Option StopReason
  events : Option (List EngineCoreEvent)
  prefillStats : Option PrefillStats
  kvTransferParams : Option String
  deriving DecidableEq

def convertFinishReason : FinishReason → EngineCoreFinishReason
  | .length => .length
  | .stop => .stop
  | .error => .error

/-- The sampled token first, then the alternatives that are not it, ranked by
their place in the reported list. -/
def toWirePositionLogprobs (tokenId : Token) (logprob : Option TokenLogprob) : Option PositionLogprobs :=
  logprob.map fun lp =>
    { entries := ⟨tokenId, lp.logprob, 1⟩ ::
        lp.topLogprobs.zipIdx.filterMap fun ((altId, altLogprob), index) =>
          if altId = tokenId then none else some ⟨altId, altLogprob, UInt32.ofNat (index + 1)⟩ }

/-- `saturating_add` on `usize`. -/
def saturatingAdd (first second : Nat) : Nat := min (first + second) (2 ^ 64 - 1)

/-- `Display for RejectReason`, the client-facing message. -/
def RejectReason.render : RejectReason → String
  | .contextLength promptTokens maxTokens limit =>
    s!"request exceeds this model's maximum context length of {limit} tokens: " ++
      s!"requested {saturatingAdd promptTokens maxTokens} (prompt={promptTokens} + max_tokens={maxTokens})"
  | .echoPrefillTokens promptTokens limit =>
    s!"echo request prompt exceeds the profiled prefill limit of {limit} tokens: " ++
      s!"prompt_tokens={promptTokens}"
  | .kvBudget promptTokens worstCaseTokens =>
    "request requires more KV blocks than this model instance can provide: " ++
      s!"prompt_tokens={promptTokens}, max_request_tokens={worstCaseTokens}"
  | .unknownLoraAdapter name => s!"LoRA adapter is not loaded: {name}"
  | .unsupported feature => s!"this engine does not support {feature}"

/-- `stop_sentinel_id`: the model's EOS, or the first explicit stop token. -/
def stopSentinelId (eosTokenId : Option Token) (stopTokenIds : List Token) : Option Token :=
  eosTokenId.or stopTokenIds.head?

/-- Both folds build these stats from the prompt length and the cached count. -/
def PrefillStats.of (promptTokens cachedTokens : Nat) : PrefillStats :=
  { numPromptTokens := UInt32.ofNat promptTokens
    numComputedTokens := UInt32.ofNat (promptTokens - cachedTokens)
    numCachedTokens := UInt32.ofNat cachedTokens
    numLocalCachedTokens := UInt32.ofNat cachedTokens
    numExternalCachedTokens := 0
    numCacheCreationTokens := 0 }

/-- The locals of one fold: what the output in the making has so far. -/
structure Draft where
  tokenIds : List Token
  positions : List PositionLogprobs
  hasLogprobs : Bool
  finishReason : Option EngineCoreFinishReason
  stopReason : Option StopReason
  terminated : Bool
  deriving DecidableEq

namespace Draft

def empty : Draft :=
  { tokenIds := [], positions := [], hasLogprobs := false, finishReason := none, stopReason := none,
    terminated := false }

def pushToken (draft : Draft) (id : Token) (logprob : Option TokenLogprob) : Draft :=
  match toWirePositionLogprobs id logprob with
  | some position =>
    { draft with
      tokenIds := draft.tokenIds ++ [id]
      positions := draft.positions ++ [position]
      hasLogprobs := true }
  | none => { draft with tokenIds := draft.tokenIds ++ [id], positions := draft.positions ++ [⟨[]⟩] }

/-- The decoder on the other side removes the last token of a stop-finished
output, so one is put there for it. -/
def pushSentinel (draft : Draft) (stopSentinelId : Option Token) (reason : FinishReason) : Draft :=
  match reason, stopSentinelId with
  | .stop, some sentinel =>
    { draft with tokenIds := draft.tokenIds ++ [sentinel], positions := draft.positions ++ [⟨[]⟩] }
  | _, _ => draft

def finish (draft : Draft) (stopSentinelId : Option Token) (reason : FinishReason) : Draft :=
  { draft.pushSentinel stopSentinelId reason with
    finishReason := some (convertFinishReason reason)
    terminated := true }

def fail (draft : Draft) (message : String) : Draft :=
  { draft with finishReason := some .error, stopReason := some (.text message), terminated := true }

/-- Nothing to ship: no token and no terminal. -/
def isSilent (draft : Draft) : Bool := draft.tokenIds.isEmpty && !draft.terminated

/-- `engine_output`, with the hand-off metadata put in place after it. -/
def engineOutput (draft : Draft) (requestId : String) (events : Option (List EngineCoreEvent))
    (prefillStats : Option PrefillStats) (kvTransferParams : Option String) : EngineCoreOutput :=
  { requestId
    newTokenIds := draft.tokenIds
    newLogprobs := if draft.hasLogprobs then some draft.positions else none
    finishReason := draft.finishReason
    stopReason := draft.stopReason
    events
    prefillStats
    kvTransferParams }

end Draft

/-- What one fold returns: the state it leaves, at most one output, and whether
the request has ended. -/
structure Reduced (State : Type) where
  state : State
  output : Option EngineCoreOutput
  terminated : Bool

end PegaInfer.Frontend
