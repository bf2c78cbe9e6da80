import PegaInfer.Frontend.BurstCut
import PegaInfer.Frontend.Sampler
import PegaInfer.KvStore.Delivered
import PegaInfer.Lib.SwapRemove

namespace PegaInfer.KimiK2

open Frontend Kvbm

/-- `KIMI_MAX_REQUEST_TOKENS`. -/
abbrev kimiMaxRequestTokens : Nat := 8192

/-- `GenerateRequest`; `tokenTx` names its sink. -/
structure GenerateRequest where
  tokenTx : Nat
  queuedAtUnixS : Option UnixSeconds
  promptTokens : List Token
  maxTokens : Nat
  echo : Bool
  params : SamplingParams
  deriving DecidableEq

namespace GenerateRequest

variable (req : GenerateRequest)

def requestMaxKvTokens : Nat := req.promptTokens.length + (req.maxTokens - 1)

def requestLifetimeBlocks (blockSize : Nat) : Nat :=
  max ((req.promptTokens.length + req.maxTokens) ⌈/⌉ blockSize) 1

def validateKvCapacity (blockSize maxRequestBlocks : Nat) (maxPromptTokens : Option Nat) :
    Except String Unit :=
  if maxPromptTokens.any (· < req.promptTokens.length) then
    .error (s!"prompt of {req.promptTokens.length} tokens exceeds the per-request prompt cap of " ++
      s!"{maxPromptTokens.getD 0} tokens on this serving path")
  else if kimiMaxRequestTokens < req.requestMaxKvTokens then
    .error (s!"prompt_tokens ({req.promptTokens.length}) + max_tokens ({req.maxTokens}) needs " ++
      s!"{req.requestMaxKvTokens} KV tokens, exceeding the per-request capacity of " ++
      s!"{kimiMaxRequestTokens} tokens")
  else if maxRequestBlocks < req.requestLifetimeBlocks blockSize then
    .error (s!"request needs {req.requestLifetimeBlocks blockSize} KV blocks " ++
      s!"({req.requestMaxKvTokens} KV tokens), exceeding the pool capacity of " ++
      s!"{maxRequestBlocks} blocks")
  else .ok ()

/-- `validate_sampling_params`; the texts go without the floats they print. -/
def validateSamplingParams : Except String Unit :=
  if ¬ req.params.temperature.value.any (0 ≤ ·) then .error "temperature must be finite and >= 0"
  else if ¬ req.params.topP.value.any (fun topP => 0 < topP ∧ topP ≤ 1) then .error "top_p must be in (0, 1]"
  else if req.params.topK < -1 ∨ req.params.topK = 0
    then .error s!"top_k must be -1 (disabled) or >= 1, got {req.params.topK}"
  else .ok ()

end GenerateRequest

inductive UnschedulableVerdict
  | finish
  | reject (message : String)

def GenerateRequest.unschedulableVerdict (req : GenerateRequest) : Option UnschedulableVerdict :=
  if req.maxTokens = 0 then some .finish
  else if req.promptTokens = [] then some (.reject "Kimi-K2 forward requires at least one prompt token")
  else if req.echo then
    some (.reject ("echo is not supported on the Kimi-K2 serving path: prompt logprobs are not " ++
      "computed; set echo=false"))
  else
    match req.validateSamplingParams with
    | .error message => some (.reject message)
    | .ok () => none

/-- One row of a forward's result. -/
structure ForwardReport where
  localNextTokenGlobalId : Token
  logprob : Option TokenLogprob

/-- A call of the executor, less the row options it passes through. -/
inductive ForwardCall
  | ensureDecodeBatch (decodeBatchSize : Nat)
  | prefill (inputIds : List Token) (slot decodeBatchSize cachedTokens : Nat) (kvRowPages : List BlockId)
  | decodeBatch (tokenIds : List Token) (appendPositions slots : List Nat) (decodeBatchSize : Nat)
      (kvRowPages : List (List BlockId))

/-- What the scheduler does not decide: the executor's outcome of its n-th call, the clock, and
which sinks still have a listener at the n-th send. A forward that succeeds reports on every row
it was given. -/
structure World where
  stopTokenIds : List Token
  salt : Option SaltHash
  forward : Nat → ForwardCall → Option (Nat → ForwardReport)
  listens : Nat → Nat → Bool
  unixNow : Nat → UnixSeconds

/-- The pool, what the sinks have received, and how often the executor and the sinks have been called. -/
structure Wave (H : Type) where
  store : BlockStore H
  events : List (Nat × TokenEvent)
  sends : Nat
  calls : Nat

variable {H : Type}

namespace World

variable (world : World)

/-- `token_tx.send`, and whether it was received. -/
def send (w : Wave H) (tokenTx : Nat) (event : TokenEvent) : Wave H × Bool :=
  if world.listens w.sends tokenTx
    then ({ w with events := w.events ++ [(tokenTx, event)], sends := w.sends + 1 }, true)
  else ({ w with sends := w.sends + 1 }, false)

def sendScheduled (w : Wave H) (req : GenerateRequest) : Wave H :=
  let scheduledAt := world.unixNow w.sends
  (world.send w req.tokenTx (.scheduled (req.queuedAtUnixS.getD scheduledAt) scheduledAt
    req.promptTokens.length 0)).1

def preflightPrefillCandidate (w : Wave H) (req : GenerateRequest) : Wave H × Option GenerateRequest :=
  match req.unschedulableVerdict with
  | none => (w, some req)
  | some .finish =>
    ((world.send (world.sendScheduled w req) req.tokenTx
      (.finished .length req.promptTokens.length 0)).1, none)
  | some (.reject message) =>
    ((world.send (world.sendScheduled w req) req.tokenTx
      (.rejected message req.promptTokens.length 0)).1, none)

/-- The scheduled event, then the refusal. -/
def sendRejected (w : Wave H) (req : GenerateRequest) (message : String) : Wave H :=
  (world.send (world.sendScheduled w req) req.tokenTx (.rejected message req.promptTokens.length 0)).1

/-- The same failure sent to every request. -/
def sendErrors (w : Wave H) (message : String) : List GenerateRequest → Wave H
  | [] => w
  | req :: reqs => sendErrors (world.send w req.tokenTx
    (.error message req.promptTokens.length 0)).1 message reqs

end World

end PegaInfer.KimiK2
