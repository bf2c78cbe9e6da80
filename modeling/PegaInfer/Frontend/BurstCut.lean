import PegaInfer.Frontend.Reduce

namespace PegaInfer.Frontend

namespace TokenEvent

def isScheduled : TokenEvent → Bool
  | .scheduled _ _ _ _ => true
  | _ => false

/-- What streams between admission and the end. -/
def isStreamed : TokenEvent → Bool
  | .token _ _ | .kvTransfer _ => true
  | _ => false

def isTerminal : TokenEvent → Bool
  | .finished _ _ _ | .error _ _ _ | .rejected _ _ _ => true
  | _ => false

end TokenEvent

/-- A request's whole event stream: at most one admission, first; then tokens
and hand-off metadata in any mix; then one terminal. -/
def EventStream (events : List TokenEvent) : Prop :=
  ∃ (opening : Option TokenEvent) (body : List TokenEvent) (terminal : TokenEvent),
    events = opening.toList ++ body ++ [terminal] ∧ (∀ event ∈ opening, event.isScheduled = true) ∧
    (∀ event ∈ body, event.isStreamed = true) ∧ terminal.isTerminal = true

/-- What a client can tell of the outputs without seeing where they were cut. -/
structure Seen where
  tokens : List Token
  finishReason : Option EngineCoreFinishReason
  stopReason : Option StopReason
  events : Option (List EngineCoreEvent)
  prefillStats : Option PrefillStats

/-- What one event adds to it. -/
def Seen.onEvent (stopSentinelId : Option Token) (seen : Seen) : TokenEvent → Seen
  | .scheduled queuedAt scheduledAt promptTokens cachedTokens =>
    { seen with
      events := some [⟨.queued, queuedAt⟩, ⟨.scheduled, scheduledAt⟩]
      prefillStats := some (.of promptTokens cachedTokens) }
  | .token id _ => { seen with tokens := seen.tokens ++ [id] }
  | .promptTokens _ _ | .kvTransfer _ => seen
  | .finished reason _ _ =>
    { seen with
      tokens := seen.tokens ++ Draft.sentinelOf stopSentinelId reason
      finishReason := some (convertFinishReason reason) }
  | .error message _ _ | .rejected message _ _ =>
    { seen with finishReason := some .error, stopReason := some (.text message) }

/-- A client's view in the middle of a fold. The facts parked in the state are
on the first output, once there is one. -/
def seenWith (state : RequestStreamState) (sent : List EngineCoreOutput) (draft : Draft) : Seen :=
  { tokens := sent.flatMap EngineCoreOutput.newTokenIds ++ draft.tokenIds
    finishReason := draft.finishReason
    stopReason := draft.stopReason
    events := (sent.head?.map EngineCoreOutput.events).getD state.firstTokenEvents
    prefillStats := (sent.head?.map EngineCoreOutput.prefillStats).getD state.firstTokenPrefillStats }

variable {requestId : String}

theorem onEvent_seen {state : RequestStreamState} {sent : List EngineCoreOutput}
    {draft : Draft} {event : TokenEvent}
    (first : event.isScheduled = true → sent = []) :
    seenWith (RequestStreamState.onEvent (state, draft) event).1 sent
      (RequestStreamState.onEvent (state, draft) event).2 =
        (seenWith state sent draft).onEvent state.stopSentinelId event ∧
      (RequestStreamState.onEvent (state, draft) event).1.stopSentinelId = state.stopSentinelId ∧
      (RequestStreamState.onEvent (state, draft) event).2.terminated =
        (draft.terminated || event.isTerminal) := by
  cases event with
  | scheduled queuedAt scheduledAt promptTokens cachedTokens =>
    cases first rfl
    exact ⟨rfl, rfl, by simp [RequestStreamState.onEvent, TokenEvent.isTerminal]⟩
  | token id logprob =>
    exact ⟨by simp [RequestStreamState.onEvent, seenWith, Seen.onEvent], rfl,
      by simp [RequestStreamState.onEvent, TokenEvent.isTerminal]⟩
  | promptTokens ids logprobs => exact ⟨rfl, rfl, by simp [RequestStreamState.onEvent, TokenEvent.isTerminal]⟩
  | kvTransfer params => exact ⟨rfl, rfl, by simp [RequestStreamState.onEvent, TokenEvent.isTerminal]⟩
  | finished reason prompt completion =>
    exact ⟨by simp [RequestStreamState.onEvent, seenWith, Seen.onEvent], rfl,
      by simp [RequestStreamState.onEvent, TokenEvent.isTerminal]⟩
  | error message prompt completion =>
    exact ⟨rfl, rfl, by simp [RequestStreamState.onEvent, TokenEvent.isTerminal, Draft.fail]⟩
  | rejected message prompt completion =>
    exact ⟨rfl, rfl, by simp [RequestStreamState.onEvent, TokenEvent.isTerminal, Draft.fail]⟩

/-- The loop of one burst moves the view by the burst's events, one at a time. -/
theorem foldl_onEvent_seen {state : RequestStreamState} {sent : List EngineCoreOutput} {draft : Draft}
    {burst : List TokenEvent} (first : ∀ event ∈ burst, event.isScheduled = true → sent = []) :
    let folded := burst.foldl RequestStreamState.onEvent (state, draft)
    seenWith folded.1 sent folded.2 = burst.foldl (Seen.onEvent state.stopSentinelId)
      (seenWith state sent draft) ∧
      folded.1.stopSentinelId = state.stopSentinelId ∧
      folded.2.terminated = (draft.terminated || burst.any TokenEvent.isTerminal) := by
  induction burst generalizing state draft with
  | nil => exact ⟨rfl, rfl, by simp⟩
  | cons event burst ih =>
    obtain ⟨seen, sentinel, terminated⟩ :=
      @onEvent_seen state sent draft event fun scheduled => first event (by simp) scheduled
    obtain ⟨rest, kept, ended⟩ := @ih (RequestStreamState.onEvent (state, draft) event).1
      (RequestStreamState.onEvent (state, draft) event).2 fun later member => first later (by simp [member])
    refine ⟨?_, kept.trans sentinel, ?_⟩
    · rw [List.foldl_cons, List.foldl_cons, ← seen, ← sentinel]
      exact rest
    · rw [List.foldl_cons, List.any_cons, ← Bool.or_assoc, ← terminated]
      exact ended

theorem reduceRequest_terminated (state : RequestStreamState) (burst : List TokenEvent) :
    (reduceRequest requestId state burst).terminated = burst.any TokenEvent.isTerminal := by
  have ended : (burst.foldl RequestStreamState.onEvent (state, .empty)).2.terminated =
      burst.any TokenEvent.isTerminal := by
    simpa [Draft.empty] using (@foldl_onEvent_seen state [] .empty burst fun _ _ _ => rfl).2.2
  simp only [reduceRequest]
  split
  · rename_i silent
    simp only [Draft.isSilent, Bool.and_eq_true, Bool.not_eq_true'] at silent
    rw [← ended, silent.2]
  · exact ended

/-- Until a terminal comes, no reason is written. -/
theorem foldl_onEvent_reasons {state : RequestStreamState} {burst : List TokenEvent}
    (running : burst.any TokenEvent.isTerminal = false) :
    (burst.foldl RequestStreamState.onEvent (state, .empty)).2.finishReason = none ∧
      (burst.foldl RequestStreamState.onEvent (state, .empty)).2.stopReason = none := by
  have all : ∀ draft : Draft,
    (burst.foldl RequestStreamState.onEvent (state, draft)).2.finishReason = draft.finishReason ∧
      (burst.foldl RequestStreamState.onEvent (state, draft)).2.stopReason = draft.stopReason := by
    induction burst generalizing state with
    | nil => exact fun _ => ⟨rfl, rfl⟩
    | cons event burst ih =>
      intro draft
      rw [List.any_cons, Bool.or_eq_false_iff] at running
      rw [List.foldl_cons]
      obtain ⟨finish, stop⟩ := @ih (RequestStreamState.onEvent (state, draft) event).1 running.2
        (RequestStreamState.onEvent (state, draft) event).2
      have kept : (RequestStreamState.onEvent (state, draft) event).2.finishReason = draft.finishReason ∧
          (RequestStreamState.onEvent (state, draft) event).2.stopReason = draft.stopReason := by
        cases event <;> simp_all [RequestStreamState.onEvent, TokenEvent.isTerminal]
      exact ⟨finish.trans kept.1, stop.trans kept.2⟩
  exact all .empty

/-- A burst, shipped or parked, leaves the view where its events take it. A
view with no output in the making is the one between two bursts. -/
theorem reduceRequest_seen {state : RequestStreamState} {sent : List EngineCoreOutput}
    {burst : List TokenEvent}
    (first : ∀ event ∈ burst, event.isScheduled = true → sent = [])
    (running : burst.any TokenEvent.isTerminal = false) :
    let reduced := reduceRequest requestId state burst
    seenWith reduced.state (sent ++ reduced.output.toList) .empty =
        burst.foldl (Seen.onEvent state.stopSentinelId) (seenWith state sent .empty) ∧
      reduced.state.stopSentinelId = state.stopSentinelId := by
  obtain ⟨seen, sentinel, terminated⟩ := @foldl_onEvent_seen state sent .empty burst first
  obtain ⟨unfinished, unstopped⟩ := @foldl_onEvent_reasons state burst running
  rw [← seen]
  simp only [reduceRequest]
  generalize burst.foldl RequestStreamState.onEvent (state, .empty) = folded at *
  split
  · rename_i silent
    simp only [Draft.isSilent, Bool.and_eq_true, List.isEmpty_iff] at silent
    refine ⟨?_, sentinel⟩
    simp [seenWith, silent.1, unfinished, unstopped, Draft.empty]
  · refine ⟨?_, sentinel⟩
    cases sent with
    | nil => simp [seenWith, Draft.engineOutput, unfinished, unstopped, Draft.empty]
    | cons output sent => simp [seenWith, Draft.engineOutput, unfinished, unstopped, Draft.empty]

/-- The burst with the terminal always ships, and the view is then the one of
the outputs alone. -/
theorem reduceRequest_last {state : RequestStreamState} {sent : List EngineCoreOutput}
    {burst : List TokenEvent}
    (first : ∀ event ∈ burst, event.isScheduled = true → sent = [])
    (ends : burst.any TokenEvent.isTerminal = true) :
    ∃ output, (reduceRequest requestId state burst).output = some output ∧
      let final := burst.foldl (Seen.onEvent state.stopSentinelId) (seenWith state sent .empty)
      (sent ++ [output]).flatMap EngineCoreOutput.newTokenIds = final.tokens ∧
      output.finishReason = final.finishReason ∧ output.stopReason = final.stopReason ∧
      (sent ++ [output]).head?.map (fun output => (output.events, output.prefillStats)) =
        some (final.events, final.prefillStats) := by
  obtain ⟨seen, sentinel, terminated⟩ := @foldl_onEvent_seen state sent .empty burst first
  rw [ends, Bool.or_true] at terminated
  have ships : (burst.foldl RequestStreamState.onEvent (state, .empty)).2.isSilent = false := by
    simp [Draft.isSilent, terminated]
  simp only [reduceRequest, ships, ← seen]
  refine ⟨_, rfl, ?_, rfl, rfl, ?_⟩
  · simp [seenWith, Draft.engineOutput]
  · cases sent with
    | nil => simp [seenWith, Draft.engineOutput]
    | cons output sent => simp [seenWith]

/-- Where the first burst of a cut ends: before the terminal, or with it. -/
theorem cut_first_burst {burst rest front : List TokenEvent} {terminal : TokenEvent}
    (cut : burst ++ rest = front ++ [terminal]) :
    (∃ middle, front = burst ++ middle ∧ rest = middle ++ [terminal]) ∨
      (burst = front ++ [terminal] ∧ rest = []) := by
  rcases List.append_eq_append_iff.mp cut with before | ⟨middle, rfl, after⟩
  · exact .inl before
  · rcases List.append_eq_singleton_iff.mp after.symm with ⟨rfl, rfl⟩ | ⟨rfl, rfl⟩
    · exact .inl ⟨[], by simp⟩
    · exact .inr ⟨rfl, rfl⟩

theorem reduceRequest_nil (state : RequestStreamState) : reduceRequest requestId state [] =
    ⟨state, none, false⟩ := rfl

/-- However the rest of a stream is cut, its outputs show what its events say. -/
theorem reduceBursts_seen {state : RequestStreamState} {sent : List EngineCoreOutput}
    {bursts : List (List TokenEvent)}
    {front : List TokenEvent} {terminal : TokenEvent} (cut : bursts.flatten = front ++ [terminal])
    (running : front.any TokenEvent.isTerminal = false) (ends : terminal.isTerminal = true)
    (once : ∀ event ∈ (front ++ [terminal]).tail, event.isScheduled = false)
    (first : ∀ event ∈ front ++ [terminal], event.isScheduled = true → sent = []) :
    let outputs := sent ++ reduceBursts requestId state bursts
    let final := (front ++ [terminal]).foldl (Seen.onEvent state.stopSentinelId) (seenWith state sent .empty)
    outputs.flatMap EngineCoreOutput.newTokenIds = final.tokens ∧
      outputs.getLast?.map (fun output => (output.finishReason, output.stopReason)) =
        some (final.finishReason, final.stopReason) ∧
      outputs.head?.map (fun output => (output.events, output.prefillStats)) =
        some (final.events, final.prefillStats) := by
  induction bursts generalizing state sent front with
  | nil => simp at cut
  | cons burst rest ih =>
    rw [List.flatten_cons] at cut
    simp only [reduceBursts, reduceRequest_terminated]
    rcases cut_first_burst cut with ⟨middle, rfl, after⟩ | ⟨rfl, after⟩
    · rw [List.any_append, Bool.or_eq_false_iff] at running
      obtain ⟨seen, sentinel⟩ := @reduceRequest_seen requestId state sent burst
        (fun event member => first event (by simp [member])) running.1
      have laterOnce : ∀ event ∈ (middle ++ [terminal]).tail, event.isScheduled = false := by
        intro event member
        refine once event ?_
        cases burst with
        | nil => exact member
        | cons opening burst => simpa using Or.inr (List.mem_append.mp (List.mem_of_mem_tail member))
      have laterFirst : ∀ event ∈ middle ++ [terminal], event.isScheduled = true →
          sent ++ (reduceRequest requestId state burst).output.toList = [] := by
        intro event member scheduled
        cases burst with
        | nil =>
          rw [reduceRequest_nil, Option.toList_none, List.append_nil]
          exact first event member scheduled
        | cons opening burst =>
          have unscheduled := once event (by simpa using Or.inr (List.mem_append.mp member))
          rw [scheduled] at unscheduled
          cases unscheduled
      obtain ⟨tokens, last, head⟩ := ih after running.2 laterOnce laterFirst
      rw [running.1, if_neg (by decide), ← List.append_assoc]
      rw [seen, sentinel, ← List.foldl_append, ← List.append_assoc] at tokens last head
      exact ⟨tokens, last, head⟩
    · have ended : (front ++ [terminal]).any TokenEvent.isTerminal = true := by simp [ends]
      obtain ⟨output, ships, tokens, finish, stop, head⟩ :=
        @reduceRequest_last requestId state sent _ first ended
      rw [ended, if_pos rfl, ships]
      refine ⟨tokens, ?_, head⟩
      simp [finish, stop]

/-- The tokens of a burst with their logprobs. -/
def scoredOf (burst : List TokenEvent) : List (Token × Option TokenLogprob) :=
  burst.filterMap fun
    | .token id logprob => some (id, logprob)
    | _ => none

/-- The hand-off metadata a burst leaves behind. -/
def kvOf (burst : List TokenEvent) : Option String :=
  (burst.filterMap fun
    | .kvTransfer params => some params
    | _ => none).getLast?

/-- The admission facts of a burst, less the cached count. -/
def openingOf (burst : List TokenEvent) : Option (UnixSeconds × UnixSeconds × Nat) :=
  (burst.filterMap fun
    | .scheduled queuedAt scheduledAt promptTokens _ => some (queuedAt, scheduledAt, promptTokens)
    | _ => none).getLast?

/-- The terminal a burst ends with. -/
def terminalOf (burst : List TokenEvent) : Option TokenEvent := burst.getLast?.filter TokenEvent.isTerminal

/-- A record and a burst end a request for the same reason, or neither does. -/
def EndsAlike : Option Terminal → Option TokenEvent → Prop
  | none, none => True
  | some (.finished reason _ _), some (.finished reason' _ _) => reason = reason'
  | some (.rejected reason _), some (.rejected message _ _) => reason.render = message
  | some (.failed message _ _), some (.error message' _ _) => message = message'
  | _, _ => False

/-- A step record that says what a burst agrees. The cached count is not compared
here: the events have it in `Scheduled`, the records where it became known. -/
structure Corresponds (unix : Instant → UnixSeconds) (burst : List TokenEvent)
    (update : RequestUpdate) : Prop where
  scheduled : update.scheduled.map (fun info =>
    (unix info.queuedAt, unix info.scheduledAt, info.promptTokens)) =
    openingOf burst
  tokens : update.tokens = (scoredOf burst).map Prod.fst
  logprobs : update.logprobs = (scoredOf burst).map Prod.snd
  kvTransfer : update.kvTransfer = kvOf burst
  terminal : EndsAlike update.terminal (terminalOf burst)

/-- The cached count the records report in the end. -/
def reportedCached (updates : List RequestUpdate) : Nat :=
  (updates.filterMap RequestUpdate.cachedTokens).getLast?.getD 0

/-- Every report of the count comes no later than the first token. -/
def ReportedInTime (updates : List RequestUpdate) : Prop :=
  updates.Pairwise fun earlier later => later.cachedTokens.isSome = true → earlier.tokens = []

/-- The two folds hold the same facts. The legacy one has the stats already
built, with the count that is reported in the end. -/
structure Alike (requestId : String) (cached : Nat) (stepped : SteppedStream)
    (legacy : RequestStreamState) : Prop where
  named : stepped.requestId = requestId
  events : stepped.firstTokenEvents = legacy.firstTokenEvents
  kvTransfer : stepped.kvTransferParams = legacy.kvTransferParams
  sentinel : stepped.stopSentinelId = legacy.stopSentinelId
  stats : legacy.firstTokenPrefillStats =
    if stepped.prefillStatsSent then none else stepped.promptTokens.map (PrefillStats.of · cached)

/-- The admission facts as the legacy fold writes them. -/
def eventsOf (opening : UnixSeconds × UnixSeconds × Nat) : List EngineCoreEvent :=
  [⟨.queued, opening.1⟩, ⟨.scheduled, opening.2.1⟩]

theorem getLast?_cons_or {α : Type} (first : α) (rest : List α) :
    (first :: rest).getLast? = rest.getLast?.or (some first) := by
  rw [List.getLast?_cons]
  cases rest.getLast? <;> rfl

/-- The legacy loop in closed form, over events that do not end the request. -/
theorem foldl_onEvent_closed {cached : Nat} {burst : List TokenEvent}
    (running : burst.any TokenEvent.isTerminal = false)
    (counted : ∀ queuedAt scheduledAt promptTokens count,
      .scheduled queuedAt scheduledAt promptTokens count ∈ burst → count = cached)
    (state : RequestStreamState) (draft : Draft) :
    burst.foldl RequestStreamState.onEvent (state, draft) =
      ({ state with
          firstTokenEvents := ((openingOf burst).map eventsOf).or state.firstTokenEvents
          firstTokenPrefillStats :=
            ((openingOf burst).map fun opening =>
              PrefillStats.of opening.2.2 cached).or state.firstTokenPrefillStats
          kvTransferParams := (kvOf burst).or state.kvTransferParams },
        draft.pushTokens (scoredOf burst)) := by
  induction burst generalizing state draft with
  | nil => rfl
  | cons event burst ih =>
    rw [List.any_cons, Bool.or_eq_false_iff] at running
    rw [List.foldl_cons, ih running.2 fun queuedAt scheduledAt promptTokens count member =>
      counted queuedAt scheduledAt promptTokens count (by simp [member])]
    cases event with
    | scheduled queuedAt scheduledAt promptTokens count =>
      cases counted queuedAt scheduledAt promptTokens count (by simp)
      have last : openingOf (.scheduled queuedAt scheduledAt promptTokens cached :: burst) =
          (openingOf burst).or (some (queuedAt, scheduledAt, promptTokens)) := getLast?_cons_or _ _
      rw [last]
      cases openingOf burst <;> rfl
    | token id logprob => simp [RequestStreamState.onEvent, openingOf, kvOf, scoredOf, Draft.pushTokens]
    | promptTokens ids logprobs => simp [RequestStreamState.onEvent, openingOf, kvOf, scoredOf]
    | kvTransfer params =>
      simp [RequestStreamState.onEvent, openingOf, kvOf, scoredOf, getLast?_cons_or]
    | finished reason prompt completion => cases running.1
    | error message prompt completion => cases running.1
    | rejected message prompt completion => cases running.1

theorem scored_of_parallel {update : RequestUpdate} {scored : List (Token × Option TokenLogprob)}
    (tokens : update.tokens = scored.map Prod.fst) (logprobs : update.logprobs = scored.map Prod.snd) :
    update.scored = scored := by
  rw [RequestUpdate.scored, tokens, logprobs]
  refine List.ext_getElem? fun index => ?_
  simp only [List.getElem?_map, List.getElem?_zipIdx]
  cases found : scored[index]? with
  | none => rfl
  | some token => simp [found]

theorem terminate_alike {terminal : Option Terminal} {event : Option TokenEvent}
    (alike : EndsAlike terminal event)
    (state : RequestStreamState) (draft : Draft) :
    event.toList.foldl RequestStreamState.onEvent (state, draft) =
      (state, draft.terminate state.stopSentinelId terminal) := by
  match terminal, event with
  | none, none => rfl
  | some (.finished _ _ _), some (.finished _ _ _) => cases alike; rfl
  | some (.rejected _ _), some (.rejected _ _ _) => cases alike; rfl
  | some (.failed _ _ _), some (.error _ _ _) => cases alike; rfl

/-- A burst that can occur in a cut: at most its last event is a terminal. -/
theorem burst_split {burst : List TokenEvent} (last : ∀ event ∈ burst.dropLast, event.isTerminal = false) :
    ∃ front, burst = front ++ (terminalOf burst).toList ∧ front.any TokenEvent.isTerminal = false := by
  rcases List.eq_nil_or_concat burst with rfl | ⟨front, event, rfl⟩
  · exact ⟨[], rfl, rfl⟩
  · rw [List.concat_eq_append, List.dropLast_concat] at last
    have quiet : front.any TokenEvent.isTerminal = false := by simpa using last
    by_cases ends : event.isTerminal = true
    · exact ⟨front, by simp [terminalOf, Option.filter, ends], quiet⟩
    · refine ⟨front ++ [event], by simp [terminalOf, Option.filter, ends], ?_⟩
      simp [quiet, ends]

/-- A terminal adds nothing to the rest of its burst. -/
theorem projections_terminal (front : List TokenEvent) {event : TokenEvent} (ends : event.isTerminal = true) :
    scoredOf (front ++ [event]) = scoredOf front ∧ kvOf (front ++ [event]) = kvOf front ∧
      openingOf (front ++ [event]) = openingOf front := by
  cases event <;> simp [scoredOf, kvOf, openingOf] <;> cases ends

/-- The legacy loop in closed form, over a burst of a cut. -/
theorem foldl_burst_closed {cached : Nat} {burst : List TokenEvent} {terminal : Option Terminal}
    (last : ∀ event ∈ burst.dropLast, event.isTerminal = false)
    (counted : ∀ queuedAt scheduledAt promptTokens count,
      .scheduled queuedAt scheduledAt promptTokens count ∈ burst → count = cached)
    (alike : EndsAlike terminal (terminalOf burst)) (state : RequestStreamState) :
    burst.foldl RequestStreamState.onEvent (state, .empty) =
      ({ state with
          firstTokenEvents := ((openingOf burst).map eventsOf).or state.firstTokenEvents
          firstTokenPrefillStats :=
            ((openingOf burst).map fun opening =>
              PrefillStats.of opening.2.2 cached).or state.firstTokenPrefillStats
          kvTransferParams := (kvOf burst).or state.kvTransferParams },
        (Draft.empty.pushTokens (scoredOf burst)).terminate state.stopSentinelId terminal) := by
  obtain ⟨front, split, quiet⟩ := burst_split last
  have same : scoredOf burst = scoredOf front ∧ kvOf burst = kvOf front ∧
      openingOf burst = openingOf front := by
    cases ended : terminalOf burst with
    | none =>
      rw [ended, Option.toList_none, List.append_nil] at split
      simp [split]
    | some event =>
      rw [ended, Option.toList_some] at split
      rw [split]
      exact projections_terminal front (Option.filter_eq_some_iff.mp ended).2
  have counted' : ∀ queuedAt scheduledAt promptTokens count,
      .scheduled queuedAt scheduledAt promptTokens count ∈ front → count = cached := by
    intro queuedAt scheduledAt promptTokens count member
    exact counted queuedAt scheduledAt promptTokens count (by rw [split]; simp [member])
  rw [same.1, same.2.1, same.2.2]
  conv => lhs; rw [split]
  rw [List.foldl_append, foldl_onEvent_closed quiet counted', terminate_alike alike]

/-- What a record parks, in the terms of its burst. -/
theorem park_corresponds {unix : Instant → UnixSeconds} {burst : List TokenEvent} {update : RequestUpdate}
    (agrees : Corresponds unix burst update) (state : SteppedStream) :
    state.park unix update =
      { state with
        firstTokenEvents := ((openingOf burst).map eventsOf).or state.firstTokenEvents
        promptTokens := ((openingOf burst).map fun opening => opening.2.2).or state.promptTokens
        cachedTokens := update.cachedTokens.getD state.cachedTokens
        kvTransferParams := (kvOf burst).or state.kvTransferParams } := by
  rw [← agrees.kvTransfer, ← agrees.scheduled]
  cases scheduled : update.scheduled with
  | none => simp [SteppedStream.park, scheduled]
  | some info => simp [SteppedStream.park, scheduled, eventsOf]

/-- One burst and its record: the same output, and the same facts held after. -/
theorem reduce_alike {unix : Instant → UnixSeconds} {cached : Nat} {stepped : SteppedStream}
    {legacy : RequestStreamState} {burst : List TokenEvent} {update : RequestUpdate}
    (alike : Alike requestId cached stepped legacy) (agrees : Corresponds unix burst update)
    (last : ∀ event ∈ burst.dropLast, event.isTerminal = false)
    (counted : ∀ queuedAt scheduledAt promptTokens count,
      .scheduled queuedAt scheduledAt promptTokens count ∈ burst → count = cached)
    (fresh : (openingOf burst).isSome = true → stepped.prefillStatsSent = false)
    (timely : update.tokens ≠ [] ∨ update.terminal ≠ none → stepped.prefillStatsSent = false →
      update.cachedTokens.getD stepped.cachedTokens = cached) :
    (reduceUpdate unix stepped update).output = (reduceRequest requestId legacy burst).output ∧
      (reduceUpdate unix stepped update).terminated = (reduceRequest requestId legacy burst).terminated ∧
      Alike requestId cached (reduceUpdate unix stepped update).state
        (reduceRequest requestId legacy burst).state := by
  obtain ⟨named, events, kvTransfer, sentinel, stats⟩ := alike
  have silence := terminate_isSilent update legacy.stopSentinelId
  simp only [reduceUpdate, reduceRequest, foldl_burst_closed last counted agrees.terminal legacy,
    park_corresponds agrees, sentinel]
  rw [scored_of_parallel agrees.tokens agrees.logprobs] at silence ⊢
  have parked : ((openingOf burst).map fun opening =>
    PrefillStats.of opening.2.2 cached).or legacy.firstTokenPrefillStats =
      if stepped.prefillStatsSent then none
      else (((openingOf burst).map fun opening => opening.2.2).or stepped.promptTokens).map
        (PrefillStats.of · cached) := by
    cases opens : openingOf burst with
    | none => simpa using stats
    | some opening => simp [fresh (by simp [opens])]
  split
  · exact ⟨rfl, rfl, ⟨named, by simp [events], by simp [kvTransfer], rfl, parked⟩⟩
  · rename_i ships
    rw [silence] at ships
    have counts := timely (by tauto)
    rw [parked, events, kvTransfer, named]
    generalize ((openingOf burst).map fun opening => opening.2.2).or stepped.promptTokens = promptTokens
    cases sent : stepped.prefillStatsSent with
    | true => exact ⟨rfl, rfl, ⟨rfl, rfl, rfl, rfl, rfl⟩⟩
    | false =>
      rw [counts sent]
      cases promptTokens with
      | none => exact ⟨rfl, rfl, ⟨rfl, rfl, rfl, rfl, rfl⟩⟩
      | some count => exact ⟨rfl, rfl, ⟨rfl, rfl, rfl, rfl, rfl⟩⟩

theorem reduceUpdate_cachedTokens (unix : Instant → UnixSeconds) (state : SteppedStream)
    (update : RequestUpdate) :
    (reduceUpdate unix state update).state.cachedTokens = update.cachedTokens.getD state.cachedTokens := by
  have parked : (state.park unix update).cachedTokens = update.cachedTokens.getD state.cachedTokens := by
    unfold SteppedStream.park
    cases update.scheduled <;> rfl
  have taken : (state.park unix update).takePrefillStats.1.cachedTokens =
      (state.park unix update).cachedTokens := by
    unfold SteppedStream.takePrefillStats
    repeat' split <;> try rfl
  simp only [reduceUpdate]
  split
  · exact parked
  · exact taken.trans parked

/-- Once a token has shipped, no record reports the count any more. -/
theorem ReportedInTime.none_after {update : RequestUpdate} {rest : List RequestUpdate}
    (timely : ReportedInTime (update :: rest)) (streamed : update.tokens ≠ []) :
    rest.filterMap RequestUpdate.cachedTokens = [] := by
  rw [List.filterMap_eq_nil_iff]
  intro later member
  by_contra reported
  exact streamed ((List.pairwise_cons.mp timely).1 later member (Option.isSome_iff_ne_none.mpr reported))

theorem openingOf_isSome {burst : List TokenEvent} (opens : (openingOf burst).isSome = true) :
    ∃ event ∈ burst, event.isScheduled = true := by
  obtain ⟨opening, found⟩ := Option.isSome_iff_exists.mp opens
  obtain ⟨event, member, extracted⟩ := List.mem_filterMap.mp (List.mem_of_getLast? found)
  refine ⟨event, member, ?_⟩
  cases event <;> first | rfl | cases extracted

/-- The records of a cut give the outputs of the bursts, one by one. -/
theorem reduceUpdates_alike {unix : Instant → UnixSeconds} {cached : Nat} {stepped : SteppedStream}
    {legacy : RequestStreamState} {bursts : List (List TokenEvent)} {updates : List RequestUpdate}
    {front : List TokenEvent} {terminal : TokenEvent} (alike : Alike requestId cached stepped legacy)
    (agree : List.Forall₂ (Corresponds unix) bursts updates) (cut : bursts.flatten = front ++ [terminal])
    (nonempty : ∀ burst ∈ bursts, burst ≠ []) (running : front.any TokenEvent.isTerminal = false)
    (once : ∀ event ∈ (front ++ [terminal]).tail, event.isScheduled = false)
    (first : ∀ event ∈ front ++ [terminal], event.isScheduled = true → stepped.prefillStatsSent = false)
    (counted : ∀ queuedAt scheduledAt promptTokens count,
      .scheduled queuedAt scheduledAt promptTokens count ∈ front ++ [terminal] → count = cached)
    (reported : (updates.filterMap RequestUpdate.cachedTokens).getLast?.getD stepped.cachedTokens = cached)
    (timely : ReportedInTime updates) :
    reduceUpdates unix stepped updates = reduceBursts requestId legacy bursts := by
  induction agree generalizing stepped legacy front with
  | nil => simp at cut
  | @cons burst update bursts updates agrees agree ih =>
    rw [List.flatten_cons] at cut
    have inside : ∀ event ∈ burst, event ∈ front ++ [terminal] := fun event member => by
      rw [← cut]
      exact List.mem_append_left _ member
    have remaining : (updates.filterMap RequestUpdate.cachedTokens).getLast?.getD
        (update.cachedTokens.getD stepped.cachedTokens) = cached := by
      rw [← reported]
      cases said : update.cachedTokens with
      | none => simp [said]
      | some count =>
        rw [List.filterMap_cons_some said, getLast?_cons_or]
        cases (updates.filterMap RequestUpdate.cachedTokens).getLast? <;> rfl
    have counted' : ∀ queuedAt scheduledAt promptTokens count,
        .scheduled queuedAt scheduledAt promptTokens count ∈ burst → count = cached :=
      fun queuedAt scheduledAt promptTokens count member =>
        counted queuedAt scheduledAt promptTokens count (inside _ member)
    have fresh : (openingOf burst).isSome = true → stepped.prefillStatsSent = false := by
      intro opens
      obtain ⟨event, member, scheduled⟩ := openingOf_isSome opens
      exact first event (inside event member) scheduled
    rcases cut_first_burst cut with ⟨middle, rfl, after⟩ | ⟨rfl, after⟩
    · rw [List.any_append, Bool.or_eq_false_iff] at running
      have quiet : ∀ event ∈ burst, event.isTerminal = false := by simpa using running.1
      have unended : terminalOf burst = none := by
        rw [terminalOf, Option.filter_eq_none_iff]
        exact fun event found => by simp [quiet event (List.mem_of_getLast? found)]
      have unfinished : update.terminal = none := by
        have ends := agrees.terminal
        rw [unended] at ends
        cases held : update.terminal with
        | none => rfl
        | some held' => rw [held] at ends; cases held' <;> exact ends.elim
      obtain ⟨output, terminated, kept⟩ := reduce_alike alike agrees
        (fun event member => quiet event (List.mem_of_mem_dropLast member)) counted' fresh (by
          rintro (streamed | ended) _
          · simpa [timely.none_after streamed] using remaining
          · exact absurd unfinished ended)
      have later : ∀ event ∈ middle ++ [terminal], event.isScheduled = false := by
        intro event member
        obtain ⟨opening, rest, rfl⟩ := List.exists_cons_of_ne_nil (nonempty burst (by simp))
        exact once event (by simpa using Or.inr (List.mem_append.mp member))
      rw [reduceUpdates, reduceBursts, terminated, output, reduceRequest_terminated, running.1]
      simp only [Bool.false_eq_true, if_false]
      congr 1
      refine ih kept after (fun burst member => nonempty burst (by simp [member])) running.2
        (fun event member => later event (List.mem_of_mem_tail member)) ?_ ?_ ?_
          (List.pairwise_cons.mp timely).2
      · intro event member scheduled
        rw [later event member] at scheduled
        cases scheduled
      · intro queuedAt scheduledAt promptTokens count member
        cases later _ member
      · rwa [reduceUpdate_cachedTokens]
    · have alone : bursts = [] := by
        rcases bursts with _ | ⟨next, rest⟩
        · rfl
        · rw [List.flatten_cons, List.append_eq_nil_iff] at after
          exact absurd after.1 (nonempty next (by simp))
      subst alone
      cases agree
      obtain ⟨output, terminated, _⟩ := reduce_alike alike agrees
        (fun event member => by
          rw [List.dropLast_concat] at member
          simpa using List.any_eq_false.mp running event member) counted' fresh (fun _ _ => remaining)
      rw [reduceUpdates, reduceBursts, terminated, output]
      rfl

theorem TokenEvent.not_terminal_of_scheduled {event : TokenEvent} (scheduled : event.isScheduled = true) :
    event.isTerminal = false := by
  cases event <;> first | rfl | cases scheduled

theorem TokenEvent.of_isStreamed {event : TokenEvent} (streamed : event.isStreamed = true) :
    event.isTerminal = false ∧ event.isScheduled = false := by
  cases event <;> first | exact ⟨rfl, rfl⟩ | cases streamed

theorem TokenEvent.not_scheduled_of_terminal {event : TokenEvent} (ends : event.isTerminal = true) :
    event.isScheduled = false := by
  cases event <;> first | rfl | cases ends

/-- However a request's event stream is cut into bursts, the legacy fold tells
the client the same; and the stepped fold gives its very outputs for records
that say what the bursts say and report the cached count in time. -/
theorem burst_cut_invariant (requestId : String) (stopSentinelId : Option Token) {events : List TokenEvent}
    (stream : EventStream events) {bursts : List (List TokenEvent)} (nonempty : ∀ burst ∈ bursts, burst ≠ [])
    (cut : bursts.flatten = events) :
    let outputs := reduceBursts requestId (.new stopSentinelId) bursts
    let whole := reduceBursts requestId (.new stopSentinelId) [events]
    outputs.flatMap EngineCoreOutput.newTokenIds = whole.flatMap EngineCoreOutput.newTokenIds ∧
    outputs.getLast?.map (fun output => (output.finishReason, output.stopReason)) =
      whole.getLast?.map (fun output => (output.finishReason, output.stopReason)) ∧
    outputs.head?.map (fun output => (output.events, output.prefillStats)) =
      whole.head?.map (fun output => (output.events, output.prefillStats)) ∧
    ∀ (unix : Instant → UnixSeconds) (updates : List RequestUpdate),
      List.Forall₂ (Corresponds unix) bursts updates →
      (∀ queuedAt scheduledAt promptTokens count,
        .scheduled queuedAt scheduledAt promptTokens count ∈ events → count = reportedCached updates) →
      ReportedInTime updates → reduceUpdates unix (.new requestId stopSentinelId) updates = outputs := by
  obtain ⟨opening, body, terminal, rfl, opens, streams, ends⟩ := stream
  have running : (opening.toList ++ body).any TokenEvent.isTerminal = false := by
    rw [List.any_eq_false]
    intro event member
    rcases List.mem_append.mp member with inOpening | inBody
    · simp [TokenEvent.not_terminal_of_scheduled (opens event (by simpa using inOpening))]
    · simp [(TokenEvent.of_isStreamed (streams event inBody)).1]
  have rest : ∀ event ∈ body ++ [terminal], event.isScheduled = false := by
    intro event member
    rcases List.mem_append.mp member with inBody | isLast
    · exact (TokenEvent.of_isStreamed (streams event inBody)).2
    · cases List.mem_singleton.mp isLast
      exact TokenEvent.not_scheduled_of_terminal ends
  have once : ∀ event ∈ (opening.toList ++ body ++ [terminal]).tail, event.isScheduled = false := by
    intro event member
    rw [List.append_assoc] at member
    cases opening with
    | none => exact rest event (List.mem_of_mem_tail member)
    | some first => exact rest event member
  obtain ⟨tokens, last, head⟩ :=
    @reduceBursts_seen requestId (.new stopSentinelId) [] bursts _ _ cut running ends once
    fun _ _ _ => rfl
  obtain ⟨tokens', last', head'⟩ := @reduceBursts_seen requestId (.new stopSentinelId) []
    [opening.toList ++ body ++ [terminal]] _ _ (by simp) running ends once fun _ _ _ => rfl
  refine ⟨tokens.trans tokens'.symm, last.trans last'.symm, head.trans head'.symm, ?_⟩
  intro unix updates agree counted timely
  exact reduceUpdates_alike ⟨rfl, rfl, rfl, rfl, rfl⟩ agree cut nonempty running once
    (fun _ _ _ => rfl) counted rfl timely

/-- An admission alone in its burst, a token, and a stop in the burst after; the
record of the second burst is the first to report the cached count. -/
theorem burst_cut_invariant_late_count :
    let bursts : List (List TokenEvent) :=
      [[.scheduled 3 4 6 2], [.token 7 none, .kvTransfer "k"], [.finished .stop 6 1]]
    let updates : List RequestUpdate :=
      [{ RequestUpdate.empty 0 with scheduled := some ⟨3, 4, 6⟩ },
        { RequestUpdate.empty 0 with
          tokens := [7]
          logprobs := [none]
          cachedTokens := some 2
          kvTransfer := some "k" },
        { RequestUpdate.empty 0 with terminal := some (.finished .stop 6 1) }]
    reduceUpdates UInt64.ofNat (.new "r" (some 1)) updates = reduceBursts "r" (.new (some 1)) bursts ∧
      (reduceBursts "r" (.new (some 1)) bursts).flatMap EngineCoreOutput.newTokenIds = [7, 1] := by
  intro bursts updates
  have stream : EventStream bursts.flatten :=
    ⟨some (.scheduled 3 4 6 2), [.token 7 none, .kvTransfer "k"], .finished .stop 6 1,
      rfl, by simp [TokenEvent.isScheduled],
      by simp [TokenEvent.isStreamed], rfl⟩
  obtain ⟨tokens, _, _, agree⟩ := burst_cut_invariant "r" (some 1) stream (by simp [bursts]) rfl
  refine ⟨agree UInt64.ofNat updates ?_ ?_ ?_, tokens.trans rfl⟩
  · exact .cons ⟨rfl, rfl, rfl, rfl, trivial⟩
      (.cons ⟨rfl, rfl, rfl, rfl, trivial⟩ (.cons ⟨rfl, rfl, rfl, rfl, rfl⟩ .nil))
  · simp [bursts, reportedCached, updates, RequestUpdate.empty]
  · simp [ReportedInTime, updates, RequestUpdate.empty]

end PegaInfer.Frontend
