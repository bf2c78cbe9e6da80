import PegaInfer.Frontend.Wire

namespace PegaInfer.Frontend

/-- `SteppedStream`, less its abort handle and its span. -/
structure SteppedStream where
  requestId : String
  firstTokenEvents : Option (List EngineCoreEvent)
  promptTokens : Option Nat
  cachedTokens : Nat
  prefillStatsSent : Bool
  kvTransferParams : Option String
  stopSentinelId : Option Token
  deriving DecidableEq

namespace SteppedStream

def new (requestId : String) (stopSentinelId : Option Token) : SteppedStream :=
  { requestId, firstTokenEvents := none, promptTokens := none, cachedTokens := 0, prefillStatsSent := false,
    kvTransferParams := none, stopSentinelId }

def takePrefillStats (state : SteppedStream) : SteppedStream × Option PrefillStats :=
  if state.prefillStatsSent then (state, none)
  else
    match state.promptTokens with
    | none => (state, none)
    | some promptTokens =>
      ({ state with prefillStatsSent := true }, some (.of promptTokens state.cachedTokens))

/-- The facts of a record are parked until an output takes them along. -/
def park (unix : Instant → UnixSeconds) (state : SteppedStream) (update : RequestUpdate) : SteppedStream :=
  let scheduled := match update.scheduled with
    | some info =>
      { state with
        firstTokenEvents := some [⟨.queued, unix info.queuedAt⟩, ⟨.scheduled, unix info.scheduledAt⟩]
        promptTokens := some info.promptTokens }
    | none => state
  { scheduled with
    cachedTokens := update.cachedTokens.getD scheduled.cachedTokens
    kvTransferParams := update.kvTransfer.or scheduled.kvTransferParams }

end SteppedStream

/-- The logprob of each token of a record; a short list leaves the rest bare. -/
def RequestUpdate.scored (update : RequestUpdate) : List (Token × Option TokenLogprob) :=
  update.tokens.zipIdx.map fun (id, index) => (id, (update.logprobs[index]?).join)

def Draft.pushTokens (draft : Draft) (scored : List (Token × Option TokenLogprob)) : Draft :=
  scored.foldl (fun draft token => draft.pushToken token.1 token.2) draft

def Draft.terminate (draft : Draft) (stopSentinelId : Option Token) : Option Terminal → Draft
  | none => draft
  | some (.finished reason _ _) => draft.finish stopSentinelId reason
  | some (.rejected reason _) => draft.fail reason.render
  | some (.failed message _ _) => draft.fail message

/-- `reduce_update`; the anchor's rendering of an instant is a parameter. -/
def reduceUpdate (unix : Instant → UnixSeconds) (state : SteppedStream) (update : RequestUpdate) :
    Reduced SteppedStream :=
  let parked := state.park unix update
  let draft := (Draft.empty.pushTokens update.scored).terminate parked.stopSentinelId update.terminal
  if draft.isSilent then ⟨parked, none, false⟩
  else
    let taken := parked.takePrefillStats
    ⟨{ taken.1 with firstTokenEvents := none, kvTransferParams := none },
      some (draft.engineOutput parked.requestId parked.firstTokenEvents taken.2 parked.kvTransferParams),
      draft.terminated⟩

inductive TokenEvent
  | scheduled (queuedAtUnixS scheduledAtUnixS : UnixSeconds) (promptTokens cachedTokens : Nat)
  | token (id : Token) (logprob : Option TokenLogprob)
  | promptTokens (ids : List Token) (logprobs : List (Option TokenLogprob))
  | kvTransfer (params : String)
  | finished (finishReason : FinishReason) (promptTokens completionTokens : Nat)
  | error (message : String) (promptTokens completionTokens : Nat)
  | rejected (message : String) (promptTokens completionTokens : Nat)
  deriving DecidableEq

/-- `RequestStreamState`, less its abort cell, its span and the flag that only
the shutdown path reads. -/
structure RequestStreamState where
  firstTokenEvents : Option (List EngineCoreEvent)
  firstTokenPrefillStats : Option PrefillStats
  kvTransferParams : Option String
  stopSentinelId : Option Token
  deriving DecidableEq

namespace RequestStreamState

def new (stopSentinelId : Option Token) : RequestStreamState :=
  { firstTokenEvents := none, firstTokenPrefillStats := none, kvTransferParams := none, stopSentinelId }

/-- One turn of the fold's loop, on the state and the output in the making. -/
def onEvent : RequestStreamState × Draft → TokenEvent → RequestStreamState × Draft
  | (state, draft), .scheduled queuedAt scheduledAt promptTokens cachedTokens =>
    ({ state with
        firstTokenEvents := some [⟨.queued, queuedAt⟩, ⟨.scheduled, scheduledAt⟩]
        firstTokenPrefillStats := some (.of promptTokens cachedTokens) }, draft)
  | (state, draft), .token id logprob => (state, draft.pushToken id logprob)
  | (state, draft), .promptTokens _ _ => (state, draft)
  | (state, draft), .kvTransfer params => ({ state with kvTransferParams := some params }, draft)
  | (state, draft), .finished reason _ _ => (state, draft.finish state.stopSentinelId reason)
  | (state, draft), .error message _ _ => (state, draft.fail message)
  | (state, draft), .rejected message _ _ => (state, draft.fail message)

end RequestStreamState

/-- `reduce_request`. -/
def reduceRequest (requestId : String) (state : RequestStreamState) (events : List TokenEvent) :
    Reduced RequestStreamState :=
  let (folded, draft) := events.foldl RequestStreamState.onEvent (state, .empty)
  if draft.isSilent then ⟨folded, none, false⟩
  else
    ⟨{ folded with firstTokenEvents := none, firstTokenPrefillStats := none, kvTransferParams := none },
      some (draft.engineOutput requestId folded.firstTokenEvents folded.firstTokenPrefillStats
        folded.kvTransferParams),
      draft.terminated⟩

/-- One request's bursts, as `dispatch_burst` feeds them: the outputs in order,
until the terminal takes the stream entry away. -/
def reduceBursts (requestId : String) : RequestStreamState → List (List TokenEvent) → List EngineCoreOutput
  | _, [] => []
  | state, burst :: rest =>
    let reduced := reduceRequest requestId state burst
    if reduced.terminated then reduced.output.toList
    else reduced.output.toList ++ reduceBursts requestId reduced.state rest

/-- One request's records, as `dispatch_step` feeds them. -/
def reduceUpdates (unix : Instant → UnixSeconds) : SteppedStream → List RequestUpdate → List EngineCoreOutput
  | _, [] => []
  | state, update :: rest =>
    let reduced := reduceUpdate unix state update
    if reduced.terminated then reduced.output.toList
    else reduced.output.toList ++ reduceUpdates unix reduced.state rest

namespace Draft

@[simp]
theorem pushToken_tokenIds (draft : Draft) (id : Token) (logprob : Option TokenLogprob) :
    (draft.pushToken id logprob).tokenIds = draft.tokenIds ++ [id] := by
  unfold pushToken
  split <;> rfl

@[simp]
theorem pushToken_finishReason (draft : Draft) (id : Token) (logprob : Option TokenLogprob) :
    (draft.pushToken id logprob).finishReason = draft.finishReason := by
  unfold pushToken
  split <;> rfl

@[simp]
theorem pushToken_stopReason (draft : Draft) (id : Token) (logprob : Option TokenLogprob) :
    (draft.pushToken id logprob).stopReason = draft.stopReason := by
  unfold pushToken
  split <;> rfl

@[simp]
theorem pushToken_terminated (draft : Draft) (id : Token) (logprob : Option TokenLogprob) :
    (draft.pushToken id logprob).terminated = draft.terminated := by
  unfold pushToken
  split <;> rfl

/-- What the sentinel adds to a finished output. -/
def sentinelOf (stopSentinelId : Option Token) : FinishReason → List Token
  | .stop => stopSentinelId.toList
  | _ => []

@[simp]
theorem finish_tokenIds (draft : Draft) (stopSentinelId : Option Token) (reason : FinishReason) :
    (draft.finish stopSentinelId reason).tokenIds = draft.tokenIds ++ sentinelOf stopSentinelId reason := by
  cases reason <;> cases stopSentinelId <;> simp [finish, pushSentinel, sentinelOf]

@[simp]
theorem finish_stopReason (draft : Draft) (stopSentinelId : Option Token) (reason : FinishReason) :
    (draft.finish stopSentinelId reason).stopReason = draft.stopReason := by
  cases reason <;> cases stopSentinelId <;> simp [finish, pushSentinel]

@[simp]
theorem finish_finishReason (draft : Draft) (stopSentinelId : Option Token) (reason : FinishReason) :
    (draft.finish stopSentinelId reason).finishReason = some (convertFinishReason reason) := rfl

@[simp]
theorem finish_terminated (draft : Draft) (stopSentinelId : Option Token) (reason : FinishReason) :
    (draft.finish stopSentinelId reason).terminated = true := rfl

theorem pushTokens_terminated (draft : Draft) (scored : List (Token × Option TokenLogprob)) :
    (draft.pushTokens scored).terminated = draft.terminated := by
  induction scored generalizing draft with
  | nil => rfl
  | cons token scored ih => rw [pushTokens, List.foldl_cons, ← pushTokens, ih, pushToken_terminated]

theorem pushTokens_finishReason (draft : Draft) (scored : List (Token × Option TokenLogprob)) :
    (draft.pushTokens scored).finishReason = draft.finishReason := by
  induction scored generalizing draft with
  | nil => rfl
  | cons token scored ih => rw [pushTokens, List.foldl_cons, ← pushTokens, ih, pushToken_finishReason]

theorem pushTokens_tokenIds (draft : Draft) (scored : List (Token × Option TokenLogprob)) :
    (draft.pushTokens scored).tokenIds = draft.tokenIds ++ scored.map Prod.fst := by
  induction scored generalizing draft with
  | nil => simp [pushTokens]
  | cons token scored ih =>
    rw [pushTokens, List.foldl_cons, ← pushTokens, ih, pushToken_tokenIds, List.map_cons, List.append_assoc,
      List.singleton_append]

end Draft

theorem RequestUpdate.scored_tokens (update : RequestUpdate) :
    update.scored.map Prod.fst = update.tokens := by
  rw [scored, List.map_map]
  exact List.zipIdx_map_fst 0 update.tokens

/-- A record ships an output unless it has neither token nor terminal. -/
theorem terminate_isSilent (update : RequestUpdate) (stopSentinelId : Option Token) :
    ((Draft.empty.pushTokens update.scored).terminate stopSentinelId update.terminal).isSilent = true ↔
      update.tokens = [] ∧ update.terminal = none := by
  have tokens := Draft.pushTokens_tokenIds .empty update.scored
  have running := Draft.pushTokens_terminated .empty update.scored
  rw [RequestUpdate.scored_tokens] at tokens
  cases ends : update.terminal with
  | none =>
    simp only [Draft.terminate, Draft.isSilent, tokens, running]
    simp [Draft.empty]
  | some terminal => cases terminal <;> simp [Draft.terminate, Draft.isSilent, Draft.fail]

end PegaInfer.Frontend
