import PegaInfer.DeepSeekV2Lite.Scheduler
import PegaInfer.Frontend.BurstCut

namespace PegaInfer.DeepSeekV2Lite

open Frontend

/-- A request decoded on its own: what it generates after the absorbed tokens, at most `budget`
of it, and why it ends. -/
def decodeAlone (next : List Token → Token) (policy : FinishPolicy) :
    (budget : Nat) → (absorbed : List Token) → List Token × FinishReason
  | 0, _ => ([], .length)
  | budget + 1, absorbed =>
    if ¬ policy.ignoreEos ∧ next absorbed = policy.eosTokenId then ([], .stop)
    else
      let (tokens, reason) := decodeAlone next policy budget (absorbed ++ [next absorbed])
      (next absorbed :: tokens, reason)

def opening (req : GenerateRequest) (queuedAt scheduledAt : UnixSeconds) : List TokenEvent :=
  .scheduled queuedAt scheduledAt req.promptTokens.length 0 ::
    if req.echo then [.promptTokens req.promptTokens (req.promptTokens.map fun _ => none)] else []

abbrev tokenEvents (tokens : List Token) : List TokenEvent := tokens.map fun token => .token token none

theorem error_notMem_told (req : GenerateRequest) (queuedAt scheduledAt : UnixSeconds)
    (tokens : List Token) (message : String)
    (prompt completion : Nat) :
    TokenEvent.error message prompt completion ∉ opening req queuedAt scheduledAt ++ tokenEvents tokens := by
  intro member
  rcases List.mem_append.mp member with opened | told
  · unfold opening at opened
    split at opened <;> simp at opened
  · obtain ⟨token, -, clash⟩ := List.mem_map.mp told
    cases clash

/-- The tokens of a request and its end. -/
def closing (req : GenerateRequest) (outcome : List Token × FinishReason) : List TokenEvent :=
  tokenEvents outcome.1 ++ [.finished outcome.2 req.promptTokens.length outcome.1.length]

def TokenSink.terminals (sink : TokenSink) : Nat := sink.events.countP TokenEvent.isTerminal

theorem terminals_opening (req : GenerateRequest) (queuedAt scheduledAt : UnixSeconds) :
    (opening req queuedAt scheduledAt).countP TokenEvent.isTerminal = 0 := by
  unfold opening
  split <;> rfl

theorem terminals_tokenEvents (tokens : List Token) :
    (tokenEvents tokens).countP TokenEvent.isTerminal = 0 := by
  induction tokens with
  | nil => rfl
  | cons token tokens ih =>
    rwa [tokenEvents, List.map_cons, List.countP_cons_of_neg (by simp [TokenEvent.isTerminal])]

/-- What has been sent and asked for in `o` has been in `o'`. -/
structure Outside.Leads (o o' : Outside) : Prop where
  sends : o.sends <+: o'.sends
  calls : o.calls <+: o'.calls

theorem Outside.Leads.refl (o : Outside) : o.Leads o := ⟨List.prefix_refl _, List.prefix_refl _⟩

theorem Outside.Leads.trans {o o' o'' : Outside} (first : o.Leads o') (second : o'.Leads o'') : o.Leads o'' :=
  ⟨first.sends.trans second.sends, first.calls.trans second.calls⟩

/-- The generator has been called. -/
theorem Outside.Leads.call (o : Outside)
    (call : GeneratorCall) : o.Leads { o with calls := o.calls ++ [call] } :=
  ⟨List.prefix_refl _, List.prefix_append ..⟩

namespace World

variable (world : World)

def policy (req : GenerateRequest) : FinishPolicy :=
  { eosTokenId := world.eosTokenId, ignoreEos := req.params.ignoreEos }

/-- What a request's client is told when nothing fails, after the opening. -/
def reply (req : GenerateRequest) : List TokenEvent :=
  match admissionDecision req world.supportedContext with
  | .reject message => [.rejected message req.promptTokens.length 0]
  | _ => closing req (decodeAlone world.next (world.policy req) req.maxTokens req.promptTokens)

/-- The `index`-th call of the generator does not fail, and a batched one returns a token for each row. -/
def Fulfils (index : Nat) : GeneratorCall → Prop
  | .prefillNextToken _ _ => world.fails index = none
  | .decodeNextToken _ _ _ _ => world.fails index = none
  | .decodeNextTokensBatch _ tokens position caches =>
    ∃ rows, world.batch index (tokens.zipWith
      (fun token cache => world.sample cache token position) caches) = .ok rows ∧
      rows.length = tokens.length

/-- Every send to the client of the request is received, and no call made for the request fails. -/
structure MeetsNoFailure (o : Outside) (n : Nat) : Prop where
  heard : ∀ i, o.sends[i]? = some n → world.listens i = true
  fulfilled : ∀ i call, o.calls[i]? = some call → n ∈ call.tokenTxs → world.Fulfils i call

/-- A closed request: told its end once unless its client left. Told what it would have been
told alone unless that end is an error, and that end is one only where the request met a
failure. -/
structure Answered (req : GenerateRequest) (o : Outside) (n : Nat) : Prop where
  most : (o.sinks n).terminals ≤ 1
  once : (o.sinks n).lost = false → (o.sinks n).terminals = 1
  alone : (o.sinks n).lost = false →
    (∀ message prompt completion, TokenEvent.error message prompt completion ∉ (o.sinks n).events) →
    ∃ queuedAt scheduledAt, (o.sinks n).events = opening req queuedAt scheduledAt ++ world.reply req
  unharmed : world.MeetsNoFailure o n →
    (o.sinks n).lost = false ∧ ∀ message prompt completion,
      TokenEvent.error message prompt completion ∉ (o.sinks n).events

/-- A row whose client has received `tokens`, with more of its own to come. -/
structure Emitted (req : GenerateRequest) (sink : TokenSink) (row : ActiveRequestState)
    (tokens : List Token) : Prop where
  received : sink.lost = false
  events : ∃ queuedAt scheduledAt, sink.events = opening req queuedAt scheduledAt ++ tokenEvents tokens
  promptLen : row.promptLen = req.promptTokens.length
  maxTokens : row.maxTokens = req.maxTokens
  policy : row.finishPolicy = world.policy req
  generated : row.generated = tokens.length
  decision : admissionDecision req world.supportedContext = .admit_
  left : tokens.length < req.maxTokens
  sofar : decodeAlone world.next (world.policy req) req.maxTokens req.promptTokens =
    (tokens ++ (decodeAlone world.next (world.policy req) (req.maxTokens - tokens.length)
      (req.promptTokens ++ tokens)).1,
      (decodeAlone world.next (world.policy req) (req.maxTokens - tokens.length)
        (req.promptTokens ++ tokens)).2)

/-- A row between two rounds: all it was told but the last token is in its cache. -/
def Serving (req : GenerateRequest) (sink : TokenSink) (row : ActiveRequestState) : Prop :=
  ∃ tokens, world.Emitted req sink row tokens ∧ row.cache ++ [row.lastToken] = req.promptTokens ++ tokens

variable {world : World} {o : Outside} {req : GenerateRequest} {row : ActiveRequestState}
  {tokens : List Token} {tokenTx : Nat} {event : TokenEvent}

theorem send_sinks_other {n : Nat} (apart : n ≠ tokenTx) :
    (world.send o tokenTx event).1.sinks n = o.sinks n := by
  unfold send
  split <;> exact Function.update_of_ne apart _ _

@[simp] theorem send_calls : (world.send o tokenTx event).1.calls = o.calls := by
  unfold send
  split <;> rfl

theorem send_sends : (world.send o tokenTx event).1.sends = o.sends ++ [tokenTx] := by
  unfold send
  split <;> rfl

theorem leads_send : o.Leads (world.send o tokenTx event).1 :=
  ⟨send_sends ▸ List.prefix_append .., send_calls ▸ List.prefix_refl _⟩

theorem MeetsNoFailure.before {o' : Outside} {n : Nat} (leads : o.Leads o')
    (clean : world.MeetsNoFailure o' n) :
    world.MeetsNoFailure o n := by
  obtain ⟨⟨sends, sent⟩, ⟨calls, called⟩⟩ := leads
  constructor
  · intro i known
    refine clean.heard i ?_
    rw [← sent, List.getElem?_append_left (List.getElem?_eq_some_iff.mp known).1, known]
  · intro i call known mine
    refine clean.fulfilled i call ?_ mine
    rw [← called, List.getElem?_append_left (List.getElem?_eq_some_iff.mp known).1, known]

/-- The last send to the client has been received. -/
theorem MeetsNoFailure.sent (clean : world.MeetsNoFailure (world.send o tokenTx event).1 tokenTx) :
    (world.send o tokenTx event).2 = true := by
  have listens := clean.heard o.sends.length (by rw [send_sends, List.getElem?_concat_length])
  rw [send, if_pos listens]

/-- The last call has not failed the requests it was made for. -/
theorem MeetsNoFailure.called {n : Nat} {call : GeneratorCall} (mine : n ∈ call.tokenTxs)
    (clean : world.MeetsNoFailure { o with calls := o.calls ++ [call] } n) :
    world.Fulfils o.calls.length call :=
  clean.fulfilled o.calls.length call List.getElem?_concat_length mine

theorem Answered.congr {o' : Outside} {n : Nat} (answered : world.Answered req o n)
    (same : o'.sinks n = o.sinks n)
    (leads : o.Leads o') : world.Answered req o' n := by
  obtain ⟨most, once, alone, unharmed⟩ := answered
  exact ⟨same ▸ most, same ▸ once, same ▸ alone, fun clean => same ▸ unharmed (clean.before leads)⟩

theorem send_received (got : (world.send o tokenTx event).2 = true) :
    (world.send o tokenTx event).1.sinks tokenTx =
      { o.sinks tokenTx with events := (o.sinks tokenTx).events ++ [event] } := by
  unfold send at got ⊢
  split
  · exact Function.update_self ..
  · next deaf => simp [deaf] at got

theorem send_lost (missed : (world.send o tokenTx event).2 = false) :
    (world.send o tokenTx event).1.sinks tokenTx = { o.sinks tokenTx with lost := true } := by
  unfold send at missed ⊢
  split
  · next heard => simp [heard] at missed
  · exact Function.update_self ..

theorem Serving.position {sink : TokenSink} (serving : world.Serving req sink row) :
    row.cache.length = row.nextDecodePosition := by
  obtain ⟨tokens, emitted, absorbed⟩ := serving
  have length := congrArg List.length absorbed
  rw [List.length_append, List.length_singleton, List.length_append] at length
  rw [ActiveRequestState.nextDecodePosition, emitted.promptLen, emitted.generated]
  omega

theorem answered_of_lost (quiet : (o.sinks tokenTx).terminals = 0)
    (missed : (world.send o tokenTx event).2 = false) :
    world.Answered req (world.send o tokenTx event).1 tokenTx := by
  have sink := send_lost missed
  refine ⟨?_, fun kept => ?_, fun kept => ?_, fun clean => ?_⟩
  · rw [sink]
    exact quiet.le.trans (Nat.zero_le 1)
  · rw [sink] at kept
    cases kept
  · rw [sink] at kept
    cases kept
  · rw [clean.sent] at missed
    cases missed

/-- A client that is told its end now, having been told nothing of the kind. -/
theorem answered_of_terminal (terminal : event.isTerminal = true) (quiet : (o.sinks tokenTx).terminals = 0)
    (alone : (o.sinks tokenTx).lost = false →
      (∀ message prompt completion, event ≠ .error message prompt completion) →
      ∃ queuedAt scheduledAt, (o.sinks tokenTx).events ++ [event] =
        opening req queuedAt scheduledAt ++ world.reply req)
    (unharmed : world.MeetsNoFailure o tokenTx → (o.sinks tokenTx).lost = false ∧
      ∀ message prompt completion, TokenEvent.error message prompt completion ∉
        (o.sinks tokenTx).events ++ [event]) :
    world.Answered req (world.send o tokenTx event).1 tokenTx := by
  cases told : (world.send o tokenTx event).2 with
  | true =>
    have sink := send_received told
    have one : ((world.send o tokenTx event).1.sinks tokenTx).terminals = 1 := by
      rw [TokenSink.terminals] at quiet
      rw [sink, TokenSink.terminals, List.countP_append, quiet, List.countP_singleton, if_pos terminal]
    refine ⟨one.le, fun _ => one, fun kept noError => ?_, fun clean => ?_⟩
    · rw [sink] at kept noError ⊢
      refine alone kept ?_
      rintro message prompt completion rfl
      exact noError message prompt completion (by simp)
    · rw [sink]
      exact unharmed (clean.before leads_send)
  | false => exact answered_of_lost quiet told

theorem Emitted.quiet {sink : TokenSink} (emitted : world.Emitted req sink row tokens) :
    sink.terminals = 0 := by
  obtain ⟨queuedAt, scheduledAt, events⟩ := emitted.events
  rw [TokenSink.terminals, events, List.countP_append, terminals_opening, terminals_tokenEvents]

theorem reply_admitted (decision : admissionDecision req world.supportedContext = .admit_) :
    world.reply req = closing req
      (decodeAlone world.next (world.policy req) req.maxTokens req.promptTokens) := by
  rw [reply, decision]

/-- A client that has been told of its opening and tokens only is told of no error by another event. -/
theorem calm_of_told {sink : TokenSink} {queuedAt scheduledAt : UnixSeconds} (kept : sink.lost = false)
    (events : sink.events = opening req queuedAt scheduledAt ++ tokenEvents tokens)
    (harmless : ∀ message prompt completion, event ≠ .error message prompt completion) :
    sink.lost = false ∧ ∀ message prompt completion,
      TokenEvent.error message prompt completion ∉ sink.events ++ [event] := by
  refine ⟨kept, fun message prompt completion member => ?_⟩
  rcases List.mem_append.mp member with before | now
  · rw [events] at before
    exact error_notMem_told _ _ _ _ _ _ _ before
  · exact harmless _ _ _ (List.mem_singleton.mp now).symm

/-- A token that is received is the next one the client has been told. -/
theorem Emitted.tell (emitted : world.Emitted req (o.sinks row.tokenTx) row tokens) {token : Token}
    (received : (world.send o row.tokenTx (.token token none)).2 = true) :
    ∃ queuedAt scheduledAt, ∃ sink, (world.send o row.tokenTx (.token token none)).1.sinks row.tokenTx = sink ∧
      sink.lost = false ∧ sink.terminals = 0 ∧
      sink.events = opening req queuedAt scheduledAt ++ tokenEvents (tokens ++ [token]) ∧
      sink.events = (o.sinks row.tokenTx).events ++ tokenEvents [token] := by
  obtain ⟨queuedAt, scheduledAt, events⟩ := emitted.events
  have further : (o.sinks row.tokenTx).events ++ tokenEvents [token] =
      opening req queuedAt scheduledAt ++ tokenEvents (tokens ++ [token]) := by
    rw [events, tokenEvents, tokenEvents, tokenEvents, List.map_append, List.append_assoc]
  refine ⟨queuedAt, scheduledAt, _, send_received received, emitted.received, ?_, further, rfl⟩
  rw [TokenSink.terminals]
  dsimp only
  rw [show (o.sinks row.tokenTx).events ++ [TokenEvent.token token none] = _ from further,
    List.countP_append, terminals_opening, terminals_tokenEvents]

theorem emitError_answered (emitted : world.Emitted req (o.sinks row.tokenTx) row tokens)
    (hurt : ¬ world.MeetsNoFailure o row.tokenTx)
    (message : String) : world.Answered req (world.emitError o row message) row.tokenTx :=
  answered_of_terminal rfl emitted.quiet (fun _ noError => absurd rfl (noError _ _ _)) fun clean =>
    absurd clean hurt

/-- What a row's next token does: it ends the request as its run alone ends, or the row goes on
as that run does, a token further. -/
theorem emitTokenOrFinish_spec (emitted : world.Emitted req (o.sinks row.tokenTx) row tokens)
    (absorbed : row.cache = req.promptTokens ++ tokens) :
    ∃ o' row' done, world.emitTokenOrFinish o row (world.next row.cache) = (o', row', done) ∧
      row'.tokenTx = row.tokenTx ∧
      o'.calls = o.calls ∧ o.Leads o' ∧ (∀ n, n ≠ row.tokenTx → o'.sinks n = o.sinks n) ∧
      (done = true → world.Answered req o' row.tokenTx) ∧
      (done = false → world.Serving req (o'.sinks row.tokenTx) row' ∧
        ∃ token, (o'.sinks row.tokenTx).events = (o.sinks row.tokenTx).events ++ tokenEvents [token]) := by
  obtain ⟨budget, remaining⟩ : ∃ budget, req.maxTokens - tokens.length = budget + 1 :=
    ⟨req.maxTokens - tokens.length - 1, by have left := emitted.left; omega⟩
  have generated := emitted.generated
  have maxTokens := emitted.maxTokens
  have sofar := emitted.sofar
  rw [remaining, decodeAlone, ← absorbed] at sofar
  unfold emitTokenOrFinish
  dsimp only
  rw [emitted.policy]
  split
  · next stops =>
    obtain ⟨queuedAt, scheduledAt, events⟩ := emitted.events
    rw [if_pos stops, List.append_nil] at sofar
    refine ⟨_, _, true, rfl, rfl, send_calls, leads_send, fun n apart => send_sinks_other apart,
      fun _ => ?_, fun clash => by cases clash⟩
    refine answered_of_terminal rfl emitted.quiet (fun _ _ => ⟨queuedAt, scheduledAt, ?_⟩) fun _ =>
      calm_of_told emitted.received events fun _ _ _ clash => by cases clash
    rw [reply_admitted emitted.decision, sofar, closing, events, emitted.promptLen, generated,
      List.append_assoc]
  · next goes =>
    rw [if_neg goes] at sofar
    cases told : world.send o row.tokenTx (.token (world.next row.cache) none) with
    | mk o₁ heard =>
      have first : (world.send o row.tokenTx (.token (world.next row.cache) none)).1 = o₁ := by rw [told]
      have calls : o₁.calls = o.calls := by rw [← first, send_calls]
      have leads : o.Leads o₁ := first ▸ leads_send
      have frame : ∀ n, n ≠ row.tokenTx → o₁.sinks n = o.sinks n :=
        fun n apart => by rw [← first, send_sinks_other apart]
      cases heard with
      | false =>
        refine ⟨_, _, true, rfl, rfl, calls, leads, frame, fun _ => ?_, fun clash => by cases clash⟩
        rw [← first]
        exact answered_of_lost emitted.quiet (by rw [told])
      | true =>
        obtain ⟨queuedAt, scheduledAt, sink, same, kept, quiet, events, more⟩ := emitted.tell (by rw [told])
        rw [first] at same
        have count : (tokens ++ [world.next row.cache]).length = tokens.length + 1 := by simp
        dsimp only
        split
        · next ends =>
          obtain rfl : budget = 0 := by omega
          refine ⟨_, _, true, rfl, rfl, by rw [send_calls, calls], leads.trans leads_send,
            fun n apart => by rw [send_sinks_other apart, frame n apart], fun _ => ?_,
            fun clash => by cases clash⟩
          refine answered_of_terminal rfl (same ▸ quiet) (fun _ _ => ⟨queuedAt, scheduledAt, ?_⟩) fun _ =>
            same ▸ calm_of_told kept events fun _ _ _ clash => by cases clash
          rw [same, reply_admitted emitted.decision, sofar, closing, events, emitted.promptLen, generated,
            decodeAlone, List.append_assoc, count]
        · next goesOn =>
          have remaining' : req.maxTokens - (tokens ++ [world.next row.cache]).length = budget := by omega
          refine ⟨_, _, false, rfl, rfl, calls, leads, frame, fun clash => (by cases clash),
            fun _ => ⟨⟨tokens ++ [world.next row.cache], ?_, ?_⟩, world.next row.cache, same ▸ more⟩⟩
          · refine ⟨same ▸ kept, ⟨queuedAt, scheduledAt, same ▸ events⟩, emitted.promptLen,
              emitted.maxTokens, rfl, ?_, emitted.decision, ?_, ?_⟩
            · rw [count]
              exact congrArg (· + 1) generated
            · have left := emitted.left
              omega
            · rw [remaining', sofar, ← List.append_assoc req.promptTokens, ← absorbed, List.append_assoc]
              rfl
          · dsimp only
            rw [absorbed, List.append_assoc]

end World

end PegaInfer.DeepSeekV2Lite
