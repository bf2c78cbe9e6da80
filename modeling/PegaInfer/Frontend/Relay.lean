import PegaInfer.Frontend.Reduce
import PegaInfer.Frontend.History

namespace PegaInfer.Frontend

/-- How a terminal reads on the wire. -/
def Terminal.wireReason : Terminal → EngineCoreFinishReason
  | .finished reason _ _ => convertFinishReason reason
  | .rejected _ _ | .failed _ _ _ => .error

/-- The token put behind the others for the decoder to remove. -/
def sentinelFor (stopSentinelId : Option Token) (finishReason : Option EngineCoreFinishReason) : List Token :=
  if finishReason = some .stop then stopSentinelId.toList else []

/-- An output tells exactly these facts. -/
structure Renders (stopSentinelId : Option Token) (facts : Facts) (output : EngineCoreOutput) : Prop where
  tokens : output.newTokenIds = facts.tokens ++ sentinelFor stopSentinelId output.finishReason
  kvTransfer : output.kvTransferParams = facts.kvTransfer
  events : output.events.isSome = facts.admitted
  prefillStats : output.prefillStats.isSome = facts.admitted

/-- Stats that the next output will take along. -/
def SteppedStream.owesStats (state : SteppedStream) : Bool :=
  !state.prefillStatsSent && state.promptTokens.isSome

/-- A stream holds the facts of the records that shipped nothing. -/
structure Parked (requestId : String) (stopSentinelId : Option Token) (facts : Facts)
    (state : SteppedStream) : Prop where
  named : state.requestId = requestId
  sentinel : state.stopSentinelId = stopSentinelId
  tokens : facts.tokens = []
  kvTransfer : state.kvTransferParams = facts.kvTransfer
  events : state.firstTokenEvents.isSome = facts.admitted
  stats : state.owesStats = facts.admitted

/-- A record that ships: it brings tokens, or ends the request. -/
def RequestUpdate.ships (update : RequestUpdate) : Bool := !update.tokens.isEmpty || update.terminal.isSome

/-- A stretch of records that becomes one output: only the last of it ships. -/
def ShipsLast (updates : List RequestUpdate) : Prop :=
  ∃ waiting last, updates = waiting ++ [last] ∧ last.ships = true ∧ ∀ update ∈ waiting, update.ships = false

theorem ShipsLast.ne_nil {updates : List RequestUpdate} (ships : ShipsLast updates) : updates ≠ [] := by
  obtain ⟨waiting, last, rfl, _⟩ := ships
  simp

theorem RequestUpdate.not_ships {update : RequestUpdate} :
    update.ships = false ↔ update.tokens = [] ∧ update.terminal = none := by
  simp [ships]

/-- One request's records and the outputs they became. The records are cut into
stretches, one for each output; the last stretch is still parked, unless the
terminal has closed the stream. -/
structure Relay (requestId : String) (stopSentinelId : Option Token) (updates : List RequestUpdate)
    (state : Option SteppedStream) (outputs : List EngineCoreOutput) : Prop where
  cut : ∃ spans rest, updates = spans.flatten ++ rest ∧ (∀ span ∈ spans, ShipsLast span) ∧
    (∀ update ∈ rest, update.ships = false) ∧
    List.Forall₂ (fun span => Renders stopSentinelId (factsOf RequestUpdate.facts span)) spans outputs ∧
    (∀ held, state = some held → Parked requestId stopSentinelId (factsOf RequestUpdate.facts rest) held) ∧
    (state = none → rest = [])
  named : ∀ output ∈ outputs, output.requestId = requestId
  fresh : updates = [] → state = some (.new requestId stopSentinelId)
  running : state ≠ none → (∀ output ∈ outputs, output.finishReason = none) ∧ Quiet updates
  ended : state = none → ∃ front last before update terminal, outputs = front ++ [last] ∧
    (∀ output ∈ front, output.finishReason = none) ∧ updates = before ++ [update] ∧
    update.terminal = some terminal ∧ last.finishReason = some terminal.wireReason

namespace Draft

variable (update : RequestUpdate) (stopSentinelId : Option Token)

theorem terminate_finishReason :
    ((empty.pushTokens update.scored).terminate stopSentinelId update.terminal).finishReason =
      update.terminal.map Terminal.wireReason := by
  have open_ := pushTokens_finishReason empty update.scored
  cases update.terminal with
  | none => exact open_
  | some terminal => cases terminal <;> rfl

theorem terminate_terminated :
    ((empty.pushTokens update.scored).terminate stopSentinelId update.terminal).terminated =
      update.terminal.isSome := by
  have open_ := pushTokens_terminated empty update.scored
  cases update.terminal with
  | none => exact open_
  | some terminal => cases terminal <;> rfl

theorem terminate_tokenIds :
    ((empty.pushTokens update.scored).terminate stopSentinelId update.terminal).tokenIds =
      update.tokens ++ sentinelFor stopSentinelId (update.terminal.map Terminal.wireReason) := by
  have pushed : (empty.pushTokens update.scored).tokenIds = update.tokens := by
    rw [pushTokens_tokenIds, RequestUpdate.scored_tokens]
    rfl
  cases update.terminal with
  | none => simpa [terminate, sentinelFor] using pushed
  | some terminal =>
    cases terminal with
    | finished reason prompt completion =>
      rw [terminate, finish_tokenIds, pushed]
      cases reason <;> rfl
    | rejected reason prompt => simpa [terminate, fail, sentinelFor, Terminal.wireReason] using pushed
    | failed message prompt completion =>
      simpa [terminate, fail, sentinelFor, Terminal.wireReason] using pushed

end Draft

theorem takePrefillStats_owes (state : SteppedStream) :
    state.takePrefillStats.2.isSome = state.owesStats ∧ state.takePrefillStats.1.owesStats = false := by
  unfold SteppedStream.takePrefillStats SteppedStream.owesStats
  cases sent : state.prefillStatsSent with
  | true => simp [sent]
  | false => cases prompt : state.promptTokens <;> simp [sent, prompt]

theorem takePrefillStats_keeps (state : SteppedStream) :
    state.takePrefillStats.1.requestId = state.requestId ∧
      state.takePrefillStats.1.stopSentinelId = state.stopSentinelId := by
  unfold SteppedStream.takePrefillStats
  split
  · exact ⟨rfl, rfl⟩
  · split <;> exact ⟨rfl, rfl⟩

/-- What a record parks is added to what was parked already. -/
theorem Parked.park {requestId : String} {stopSentinelId : Option Token} {facts : Facts}
    {state : SteppedStream}
    (parked : Parked requestId stopSentinelId facts state) (unix : Instant → UnixSeconds)
    (update : RequestUpdate)
    (fresh : update.scheduled.isSome = true → state.prefillStatsSent = false) :
    (state.park unix update).requestId = requestId ∧
      (state.park unix update).stopSentinelId = stopSentinelId ∧
      (state.park unix update).kvTransferParams = (facts.then_ update.facts).kvTransfer ∧
      (state.park unix update).firstTokenEvents.isSome = (facts.then_ update.facts).admitted ∧
      (state.park unix update).owesStats = (facts.then_ update.facts).admitted := by
  obtain ⟨named, sentinel, _, kvTransfer, events, stats⟩ := parked
  cases scheduled : update.scheduled with
  | none =>
    simp only [SteppedStream.park, scheduled, Facts.then_, RequestUpdate.facts,
      Option.isSome_none, Bool.or_false]
    exact ⟨named, sentinel, by rw [kvTransfer], events, stats⟩
  | some info =>
    have unsent := fresh (by simp [scheduled])
    simp only [SteppedStream.park, scheduled, Facts.then_, RequestUpdate.facts,
      Option.isSome_some, Bool.or_true]
    exact ⟨named, sentinel, by rw [kvTransfer], trivial, by simp [SteppedStream.owesStats, unsent]⟩

/-- One more record: it ships with everything parked, or is parked itself. -/
theorem Relay.next {requestId : String} {stopSentinelId : Option Token} {updates : List RequestUpdate}
    {state : SteppedStream} {outputs : List EngineCoreOutput}
    (relay : Relay requestId stopSentinelId updates (some state) outputs) (unix : Instant → UnixSeconds)
    (update : RequestUpdate) (first : update.scheduled.isSome = true → updates = []) :
    let reduced := reduceUpdate unix state update
    Relay requestId stopSentinelId (updates ++ [update]) (if reduced.terminated then none
      else some reduced.state)
      (outputs ++ reduced.output.toList) := by
  obtain ⟨⟨spans, rest, cut, filled, waits, rendered, held, _⟩, named, fresh, running, _⟩ := relay
  obtain ⟨unfinished, quiet⟩ := running (by simp)
  have parked := held state rfl
  have unsent : update.scheduled.isSome = true → state.prefillStatsSent = false := by
    intro scheduled
    have new := fresh (first scheduled)
    cases new
    rfl
  obtain ⟨sameName, sameSentinel, kvTransfer, events, stats⟩ := parked.park unix update unsent
  have facts : factsOf RequestUpdate.facts (rest ++ [update]) =
      (factsOf RequestUpdate.facts rest).then_ update.facts := by
    rw [factsOf_append, factsOf_singleton]
  rw [← facts] at kvTransfer events stats
  have silence := terminate_isSilent update stopSentinelId
  have finish := Draft.terminate_finishReason update stopSentinelId
  have ends := Draft.terminate_terminated update stopSentinelId
  have tokens := Draft.terminate_tokenIds update stopSentinelId
  simp only [reduceUpdate, sameSentinel]
  generalize (Draft.empty.pushTokens update.scored).terminate stopSentinelId update.terminal = draft at *
  split
  · rename_i silent
    obtain ⟨noTokens, noTerminal⟩ := silence.mp silent
    have waits' : ∀ other ∈ rest ++ [update], other.ships = false := by
      rw [List.forall_mem_append]
      exact ⟨waits, List.forall_mem_singleton.mpr (RequestUpdate.not_ships.mpr ⟨noTokens, noTerminal⟩)⟩
    refine ⟨⟨spans, rest ++ [update], by simp [cut], filled, waits', by simpa using rendered, ?_, by simp⟩,
      by simpa using named, by simp, fun _ =>
        ⟨by simpa using unfinished, quiet_append.mpr ⟨quiet, quiet_singleton.mpr noTerminal⟩⟩, by simp⟩
    intro held' same
    cases same
    refine ⟨sameName, sameSentinel, ?_, kvTransfer, events, stats⟩
    rw [facts]
    simp [Facts.then_, parked.tokens, RequestUpdate.facts, noTokens]
  · rename_i loud
    have ships : update.ships = true := by
      by_contra quiet
      exact loud (silence.mpr (RequestUpdate.not_ships.mp (Bool.eq_false_iff.mpr quiet)))
    obtain ⟨owes, paid⟩ := takePrefillStats_owes (state.park unix update)
    obtain ⟨keptName, keptSentinel⟩ := takePrefillStats_keeps (state.park unix update)
    have renders : Renders stopSentinelId (factsOf RequestUpdate.facts (rest ++ [update]))
        (draft.engineOutput (state.park unix update).requestId (state.park unix update).firstTokenEvents
          (state.park unix update).takePrefillStats.2 (state.park unix update).kvTransferParams) := by
      refine ⟨?_, kvTransfer, events, owes.trans stats⟩
      simp only [Draft.engineOutput, tokens, finish, facts, Facts.then_, parked.tokens, RequestUpdate.facts,
        List.nil_append]
    have allNamed : ∀ output ∈ outputs ++ [draft.engineOutput (state.park unix update).requestId
        (state.park unix update).firstTokenEvents (state.park unix update).takePrefillStats.2
        (state.park unix update).kvTransferParams], output.requestId = requestId := by
      rw [List.forall_mem_append]
      exact ⟨named, List.forall_mem_singleton.mpr sameName⟩
    have filled' : ∀ span ∈ spans ++ [rest ++ [update]], ShipsLast span := by
      rw [List.forall_mem_append]
      exact ⟨filled, List.forall_mem_singleton.mpr ⟨rest, update, rfl, ships, waits⟩⟩
    cases terminal : update.terminal with
    | none =>
      rw [terminal] at ends finish
      simp only [ends, Option.isSome_none]
      refine ⟨⟨spans ++ [rest ++ [update]], [], by simp [cut], filled', by simp,
        List.rel_append rendered (.cons renders .nil), ?_, by
          simp⟩, allNamed, by simp, fun _ =>
            ⟨?_, quiet_append.mpr ⟨quiet, quiet_singleton.mpr terminal⟩⟩, by simp⟩
      · intro held' same
        cases same
        exact ⟨keptName.trans sameName, keptSentinel.trans sameSentinel, rfl, rfl, rfl, paid⟩
      · rw [Option.toList_some, List.forall_mem_append]
        exact ⟨unfinished, List.forall_mem_singleton.mpr finish⟩
    | some reason =>
      rw [terminal] at ends finish
      simp only [ends, Option.isSome_some, if_true]
      exact ⟨⟨spans ++ [rest ++ [update]], [], by simp [cut], filled', by simp,
        List.rel_append rendered (.cons renders .nil), by simp, by
          simp⟩, allNamed, by simp, by simp, fun _ =>
            ⟨outputs, _, updates, update, reason, rfl, unfinished, rfl, terminal, finish⟩⟩

/-- A stream keeps its name, an output has it, and the finish reason is what
closes the stream. -/
theorem reduceUpdate_wire (unix : Instant → UnixSeconds) (state : SteppedStream) (update : RequestUpdate) :
    (reduceUpdate unix state update).state.requestId = state.requestId ∧
      (∀ output, (reduceUpdate unix state update).output = some output →
        output.requestId = state.requestId ∧ output.finishReason.isSome =
          (reduceUpdate unix state update).terminated) ∧
      ((reduceUpdate unix state update).output = none →
        (reduceUpdate unix state update).terminated = false) := by
  have named : (state.park unix update).requestId = state.requestId := by
    unfold SteppedStream.park
    cases update.scheduled <;> rfl
  have kept := (takePrefillStats_keeps (state.park unix update)).1
  have finish := Draft.terminate_finishReason update (state.park unix update).stopSentinelId
  have ends := Draft.terminate_terminated update (state.park unix update).stopSentinelId
  simp only [reduceUpdate]
  generalize (Draft.empty.pushTokens update.scored).terminate
    (state.park unix update).stopSentinelId update.terminal =
    draft at *
  split
  · exact ⟨named, by simp, fun _ => rfl⟩
  · refine ⟨kept.trans named, fun output same => ?_, by simp⟩
    cases same
    refine ⟨named, ?_⟩
    change draft.finishReason.isSome = draft.terminated
    rw [finish, ends, Option.isSome_map]

theorem Relay.new (requestId : String) (stopSentinelId : Option Token) :
    Relay requestId stopSentinelId [] (some (.new requestId stopSentinelId)) [] := by
  refine ⟨⟨[], [], rfl, by simp, by simp, .nil, fun held same => ?_, by simp⟩, by simp, fun _ => rfl,
    fun _ => ⟨by simp, by simp [Quiet]⟩, by simp⟩
  cases same
  exact ⟨rfl, rfl, rfl, rfl, rfl, rfl⟩

end PegaInfer.Frontend
