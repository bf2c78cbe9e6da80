import PegaInfer.Frontend.Reduce
import PegaInfer.Frontend.Sampler

namespace PegaInfer.DeepSeekV2Lite

open Frontend

/-- `GenerateRequest`, less its id and its sink. -/
structure GenerateRequest where
  queuedAtUnixS : Option UnixSeconds
  promptTokens : List Token
  params : SamplingParams
  maxTokens : Nat
  loraAdapter : Option String
  logprobs : Nat
  echo : Bool
  deriving DecidableEq

/-- `token_tx` is the number under which the request was received. -/
structure PendingRequest extends GenerateRequest where
  tokenTx : Nat
  deriving DecidableEq

structure FinishPolicy where
  eosTokenId : Token
  ignoreEos : Bool
  deriving DecidableEq

/-- A cache is the tokens it has absorbed. -/
abbrev DecodeCache := List Token

/-- `ActiveRequestState`, less its trace and its statistics. -/
structure ActiveRequestState where
  tokenTx : Nat
  promptLen : Nat
  maxTokens : Nat
  generated : Nat
  lastToken : Token
  finishPolicy : FinishPolicy
  cache : DecodeCache
  deriving DecidableEq

def ActiveRequestState.nextDecodePosition (row : ActiveRequestState) : Nat :=
  row.promptLen + row.generated - 1

/-- What a request's client has received, and whether a send to it has failed. -/
structure TokenSink where
  events : List TokenEvent
  lost : Bool
  deriving DecidableEq

/-- A call of the generator, and the requests it is made for. -/
inductive GeneratorCall
  | prefillNextToken (tokenTx : Nat) (promptTokens : List Token)
  | decodeNextToken (tokenTx : Nat) (token : Token) (position : Nat) (cache : DecodeCache)
  | decodeNextTokensBatch (tokenTxs : List Nat) (tokens : List Token) (position : Nat)
      (caches : List DecodeCache)
  deriving DecidableEq

/-- The rows a call decodes: token, position and cache. -/
def GeneratorCall.rows : GeneratorCall → List (Token × Nat × DecodeCache)
  | .prefillNextToken _ _ => []
  | .decodeNextToken _ token position cache => [(token, position, cache)]
  | .decodeNextTokensBatch _ tokens position caches => (tokens.zip caches).map fun row =>
    (row.1, position, row.2)

def GeneratorCall.tokenTxs : GeneratorCall → List Nat
  | .prefillNextToken tokenTx _ => [tokenTx]
  | .decodeNextToken tokenTx _ _ _ => [tokenTx]
  | .decodeNextTokensBatch tokenTxs _ _ _ => tokenTxs

/-- What the scheduler does not decide: the greedy choice after the absorbed tokens, what a
token fed at another position than its cache's would give, which of the generator's calls fail,
which sends are received, and the clock. A batched result of the right length is the batch's. -/
structure World where
  next : List Token → Token
  skewed : List Token → Nat → Token
  eosTokenId : Token
  supportedContext : Nat
  maxActiveRequests : Nat
  fails : Nat → Option String
  batch : Nat → List Token → Except String (List Token)
  batch_whole : ∀ call rows rows', batch call rows = .ok rows' → rows'.length = rows.length → rows' = rows
  listens : Nat → Bool
  unixNow : Nat → UnixSeconds

/-- The clients, to whom each send went, and what the generator was called for. -/
structure Outside where
  sinks : Nat → TokenSink
  sends : List Nat
  calls : List GeneratorCall

namespace World

variable (world : World)

/-- `token_tx.send`, and whether it was received. -/
def send (o : Outside) (tokenTx : Nat) (event : TokenEvent) : Outside × Bool :=
  let sink := o.sinks tokenTx
  let sends := o.sends ++ [tokenTx]
  if world.listens o.sends.length then
    ({ o with
      sinks := Function.update o.sinks tokenTx { sink with events := sink.events ++ [event] }
      sends }, true)
  else ({ o with sinks := Function.update o.sinks tokenTx { sink with lost := true }, sends }, false)

/-- What the generator samples for `token` fed at `position`. -/
def sample (cache : DecodeCache) (token : Token) (position : Nat) : Token :=
  if position = cache.length then world.next (cache ++ [token]) else world.skewed (cache ++ [token]) position

def sendScheduled (o : Outside) (pending : PendingRequest) : Outside × Bool :=
  let now := world.unixNow o.sends.length
  world.send o pending.tokenTx (.scheduled (pending.queuedAtUnixS.getD now) now pending.promptTokens.length 0)

def sendPromptEcho (o : Outside) (pending : PendingRequest) : Outside × Bool :=
  if pending.echo then world.send o pending.tokenTx
    (.promptTokens pending.promptTokens (pending.promptTokens.map fun _ => none)) else (o, true)

/-- `emit_token_or_finish`: the row after it, and whether the row is done. -/
def emitTokenOrFinish (o : Outside) (row : ActiveRequestState) (token : Token) :
    Outside × ActiveRequestState × Bool :=
  let row := { row with lastToken := token }
  if ¬ row.finishPolicy.ignoreEos ∧ token = row.finishPolicy.eosTokenId then
    ((world.send o row.tokenTx (.finished .stop row.promptLen row.generated)).1, row, true)
  else
    match world.send o row.tokenTx (.token token none) with
    | (o, false) => (o, row, true)
    | (o, true) =>
      let row := { row with generated := row.generated + 1 }
      if row.generated = row.maxTokens then
        ((world.send o row.tokenTx (.finished .length row.promptLen row.generated)).1, row, true)
      else (o, row, false)

def emitError (o : Outside) (row : ActiveRequestState) (message : String) : Outside :=
  (world.send o row.tokenTx (.error message row.promptLen row.generated)).1

/-- `retire_rows_with_error`. -/
def retireRowsWithError (o : Outside) (message : String) : List (Nat × ActiveRequestState) → Outside
  | [] => o
  | (_, row) :: rows => retireRowsWithError (world.emitError o row message) message rows

/-- `apply_decoded_tokens_to_rows`, each row with its new cache. -/
def applyDecodedTokensToRows (o : Outside) : List (Nat × ActiveRequestState) → List Token →
    Outside × List (Nat × ActiveRequestState)
  | (idx, row) :: rows, token :: tokens =>
    let (o, row, done) := world.emitTokenOrFinish o row token
    let (o, survivors) := applyDecodedTokensToRows o rows tokens
    (o, if done then survivors else (idx, row) :: survivors)
  | _, _ => (o, [])

/-- `decode_batch_group`. The generator appends every fed token to its cache. -/
def decodeBatchGroup (o : Outside) (position : Nat) (rows : List (Nat × ActiveRequestState)) :
    Outside × List (Nat × ActiveRequestState) :=
  let tokenTxs := rows.map fun row => row.2.tokenTx
  let tokens := rows.map fun row => row.2.lastToken
  let caches := rows.map fun row => row.2.cache
  let o' := { o with calls := o.calls ++ [.decodeNextTokensBatch tokenTxs tokens position caches] }
  match world.batch o.calls.length (rows.map fun row =>
    world.sample row.2.cache row.2.lastToken position) with
  | .ok nextTokens =>
    if nextTokens.length = rows.length then
      let rows := rows.map fun row => (row.1, { row.2 with cache := row.2.cache ++ [row.2.lastToken] })
      world.applyDecodedTokensToRows o' rows nextTokens
    else
      (world.retireRowsWithError o'
        (s!"DeepSeek-V2-Lite batched decode returned {nextTokens.length} rows for {rows.length} " ++
          "active requests") rows, [])
  | .error err =>
    (world.retireRowsWithError o'
      s!"DeepSeek-V2-Lite batched decode failed for {rows.length} active requests: {err}" rows, [])

def decodeSingleRow (o : Outside) (row : Nat × ActiveRequestState) :
    Outside × Option (Nat × ActiveRequestState) :=
  let (idx, state) := row
  let position := state.nextDecodePosition
  let o' := { o with
    calls := o.calls ++ [.decodeNextToken state.tokenTx state.lastToken position state.cache] }
  match world.fails o.calls.length with
  | some err => (world.emitError o' state err, none)
  | none =>
    let next := world.sample state.cache state.lastToken position
    let (o, state, done) := world.emitTokenOrFinish o'
      { state with cache := state.cache ++ [state.lastToken] } next
    (o, if done then none else some (idx, state))

end World

end PegaInfer.DeepSeekV2Lite
