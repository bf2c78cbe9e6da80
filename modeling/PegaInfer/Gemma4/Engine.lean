import PegaInfer.Gemma4.Arena
import PegaInfer.Frontend.Ledger

namespace PegaInfer.Gemma4

open Frontend (RequestId Instant TokenLogprob RejectReason AccountState LedgerCall)
open SwapRemove

/-- The part of a request the engine reads. `greedy` is `effectively_greedy` of its sampling
parameters. -/
structure Request where
  id : RequestId
  promptTokens : List Token
  maxTokens : Nat
  ignoreEos : Bool
  logprobs : Nat
  greedy : Bool
  loraAdapter : Bool
  echo : Bool
  kvTransferParams : Bool
  deriving DecidableEq

/-- `validate_request`. -/
def validateRequest (request : Request) (maxContext : Nat) : Except RejectReason Nat :=
  let promptTokens := request.promptTokens.length
  if promptTokens = 0 then .error (.unsupported "empty prompts")
  else if request.maxTokens = 0 then .error (.unsupported "zero max_tokens")
  else if maxContext < promptTokens + request.maxTokens
    then .error (.contextLength promptTokens request.maxTokens maxContext)
  else if request.loraAdapter then .error (.unsupported "LoRA")
  else if request.echo then .error (.unsupported "echo")
  else if request.kvTransferParams then .error (.unsupported "kv_transfer")
  else .ok (promptTokens + request.maxTokens)

/-- What the scheduler runs against: the pick for a request's context and its score at each moment,
the tokens the embedding takes, the checkpoint's stop ids, and the abort flags and the clock at
each reading. Picks are never suppressed, so they always embed. -/
structure World where
  oracle : Nat → Request → List Token → Token
  score : Nat → Request → List Token → TokenLogprob
  embeds : Token → Bool
  eos : List Token
  aborted : Nat → RequestId → Bool
  now : Nat → Instant

/-- `GenerationPolicy::stops`. -/
def World.stops (world : World) (id : Token) (ignoreEos : Bool) : Bool := !ignoreEos && world.eos.contains id

/-- `validate_tokens`. -/
def World.validTokens (world : World) (tokens : List Token) : Bool := tokens.all world.embeds

/-- A request and its KV; `fed` are the tokens the KV was computed from. -/
structure Seat where
  request : Request
  kv : GemmaKv
  fed : List Token

structure Newcomer where
  seat : Seat
  resumed : Option Nat

structure Active where
  seat : Seat
  next : Token
  stopping : Bool

structure Walker where
  seat : Seat
  resumed : Option Nat
  offset : Nat
  first : Option (Token × Option TokenLogprob)
  failed : Bool

structure Walk where
  walkers : List Walker
  chunk : Nat
  firstRound : Bool

structure InflightPrefill where
  seat : Seat
  resumed : Option Nat

structure PendingDecode where
  rows : Nat
  slot : Nat
  deriving DecidableEq

structure CoalesceDoor where
  window : Nat
  since : Option Instant

/-- A decode step as it was planned: the batch, the bucket, whether the tables were kept, and
what they held when the step ran, unless planning was refused. -/
structure Launch where
  kvs : List GemmaKv
  padded : Nat
  regular : Bool
  tables : Option Tables

/-- Why a step did not return: a ledger call panicked, or an error reached the driver. -/
inductive Halt
  | panicked
  | fatal
  deriving DecidableEq

/-- The places where `admit_tokens` was refused, or a request for want of pages. -/
inductive Refusal
  | readyRows
  | pinnedRows
  | walkSegment
  | plainSegment
  | kvBudget
  deriving DecidableEq

/-- The ledger's accounts. -/
abbrev Book := RequestId → Option AccountState

/-- What a ledger call does to the accounts; `none` is a failed precondition. -/
def Book.call (book : Book) : LedgerCall → Option Book
  | .admitRequest id _ =>
    match book id with
    | some .queued => some (Function.update book id (some (.active 0)))
    | _ => none
  | .reject id _ =>
    match book id with
    | some .queued => some (Function.update book id none)
    | _ => none
  | .pushTokens id ids logprobs =>
    match book id with
    | some (.active completionTokens) =>
      if logprobs = [] ∨ logprobs.length = ids.length then
        some (Function.update book id (some (.active (completionTokens + ids.length))))
      else none
    | _ => none
  | .setCachedTokens id _ | .echoPrompt id _ | .kvTransfer id _ =>
    match book id with
    | some (.active _) => some book
    | _ => none
  | .finish id _ | .deferFinish id _ =>
    match book id with
    | some (.active _) => some (Function.update book id none)
    | _ => none
  | .fail id _ | .retire id =>
    match book id with
    | some _ => some (Function.update book id none)
    | none => none

/-- `EngineState` and the scheduler's own fields. `newcomers` is the local list of an
admission, empty between steps; `staged` are the pinned readback slots. `submitted`, `calls`,
`launches`, `mixedRows` and `refusals` remember the requests by id, what the ledger was told, the
decode steps, the rows of the mixed steps and the refused admissions; `tick` counts the readings of
abort flags. -/
structure Sched where
  pools : Pools
  cache : Option PrefixCache
  steady : Option SteadyDecode
  tables : Tables
  ids : List Token
  staged : Nat → List Token
  pipeline : Option PendingDecode
  inflight : Option InflightPrefill
  door : Option CoalesceDoor
  pending : List Request
  newcomers : List Newcomer
  active : List Active
  walk : Option Walk
  book : Book
  submitted : List Request
  calls : List LedgerCall
  launches : List Launch
  mixedRows : List Nat
  refusals : List Refusal
  tick : Nat
  halted : Option Halt

def Sched.new (config : EngineConfig) : Sched :=
  { pools := ⟨Pool.new config.localPoolPages, Pool.new config.globalPoolPages⟩
    cache := config.cacheCap.map (PrefixCache.new · config.window)
    steady := none, tables := .blank, ids := [], staged := fun _ => [], pipeline := none, inflight := none
    door := config.coalesce.map (⟨·, none⟩), pending := [], newcomers := [], active := [], walk := none
    book := fun _ => none, submitted := [], calls := [], launches := [], mixedRows :=
      [], refusals := [], tick := 0, halted := none }

namespace Sched

/-- Go on, unless an error or a panic is on its way to the driver. -/
def next (s : Sched) (rest : Sched → Sched) : Sched := if s.halted.isSome then s else rest s

def halt (s : Sched) (why : Halt) : Sched := { s with halted := s.halted.or (some why) }

def tell (s : Sched) (call : LedgerCall) : Sched :=
  match s.book.call call with
  | some book => { s with book, calls := s.calls ++ [call] }
  | none => s.halt .panicked

/-- `ledger.is_aborted`. -/
def isAborted (world : World) (s : Sched) (id : RequestId) : Bool × Sched :=
  match s.book id with
  | some _ => (world.aborted s.tick id, { s with tick := s.tick + 1 })
  | none => (false, s.halt .panicked)

/-- `ledger.completion_tokens`. -/
def completionTokens (s : Sched) (id : RequestId) : Nat :=
  match s.book id with
  | some (.active completionTokens) => completionTokens
  | _ => 0

/-- `ledger.is_active`. -/
def isActive (s : Sched) (id : RequestId) : Bool :=
  match s.book id with
  | some (.active _) => true
  | _ => false

/-- The accounts `completion_tokens` is asked about have to be open. -/
def requireOpen (s : Sched) (ids : List RequestId) : Sched :=
  if ids.all fun id => (s.book id).isSome then s else s.halt .panicked

def refuse (s : Sched) (refusal : Refusal) : Sched := { s with refusals := s.refusals ++ [refusal] }

def dropSeat (s : Sched) (seat : Seat) : Sched := { s with pools := s.pools.drop seat.kv }

/-- `active.swap_remove(row)`, and the row's pages go back. -/
def dropRow (s : Sched) (row : Nat) (entry : Active) : Sched :=
  { s with active := swapRemove s.active row }.dropSeat entry.seat

def failIfActive (s : Sched) (id : RequestId) (message : String) : Sched :=
  if s.isActive id then s.tell (.fail id message) else s

/-- `fail_active_batch`. -/
def failActiveBatch (s : Sched) (message : String) : Sched :=
  let failed := s.active.foldl (fun s entry =>
    (s.failIfActive entry.seat.request.id message).dropSeat entry.seat) s
  { failed with active := [] }

/-- `capture_prefix`. -/
def capturePrefix (config : EngineConfig) (s : Sched) (kv : GemmaKv) (prompt : List Token)
    (resumed : Option Nat) : Sched :=
  match s.cache with
  | none => s
  | some cache =>
    match capturePages config.maxContext s.pools kv prompt config.bf16 with
    | (none, pools) => { s with pools }
    | (some entry, pools) =>
      let inserted := cache.insert pools entry resumed
      { s with pools := inserted.2, cache := some inserted.1 }

/-- What a step's pass yields for a row: its pick, and whether it stops the request. -/
structure Sample where
  id : Token
  logprob : Option TokenLogprob
  stop : Bool

/-- `sample_logits_rows` for the row whose KV ends in `fed`. -/
def sample (world : World) (tick : Nat) (request : Request) (fed : List Token) : Sample :=
  let id := world.oracle tick request fed
  let stop := world.stops id request.ignoreEos
  ⟨id, if 0 < request.logprobs ∧ stop = false then some (world.score tick request fed) else none, stop⟩

/-- `deliver_decode_row`. The first component says that the row is done. -/
def deliverDecodeRow (world : World) (s : Sched) (entry : Active) (token : Sample) : Bool × Active × Sched :=
  let id := entry.seat.request.id
  let probe := s.isAborted world id
  if probe.1 then (true, entry, probe.2.tell (.retire id))
  else if token.stop then (true, entry, probe.2.tell (.finish id .stop))
  else
    let pushed := probe.2.tell (.pushTokens id [token.id] [token.logprob])
    if entry.seat.request.maxTokens ≤ pushed.completionTokens id
      then (true, entry, pushed.tell (.finish id .length))
    else (false, { entry with next := token.id }, pushed)

/-- `settle_first_token`. A request that is done gives its pages back. -/
def settleFirstToken (world : World) (s : Sched) (seat : Seat) (next : Token)
    (logprob : Option TokenLogprob) : Sched :=
  let id := seat.request.id
  let probe := s.isAborted world id
  if probe.1 then (probe.2.tell (.retire id)).dropSeat seat
  else if world.stops next seat.request.ignoreEos then (probe.2.tell (.finish id .stop)).dropSeat seat
  else
    let pushed := probe.2.tell (.pushTokens id [next] [logprob])
    if seat.request.maxTokens ≤ 1 then (pushed.tell (.finish id .length)).dropSeat seat
    else { pushed with active := pushed.active ++ [⟨seat, next, false⟩] }

end Sched

end PegaInfer.Gemma4
