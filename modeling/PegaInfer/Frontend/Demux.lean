import PegaInfer.Frontend.Bridge
import PegaInfer.Frontend.Relay

namespace PegaInfer.Frontend

open Relation

namespace RequestLedger

theorem writeActive_record {ledger next : RequestLedger} {id : RequestId}
    {change : RequestUpdate → RequestUpdate}
    {keeps : ∀ update, (change update).id = update.id} {deferred : Option RequestUpdate}
    (run : ledger.writeActive id change keeps = .returned next deferred) :
    next.statement.record id = some (change ((ledger.statement.record id).getD (.empty id))) ∧
      deferred = none := by
  unfold writeActive at run
  split at run
  · cases run
    exact ⟨by simp [StepStatement.record_entry], rfl⟩
  · cases run

theorem pushTokens_record {ledger next : RequestLedger} {id : RequestId} {ids : List Token}
    {logprobs : List (Option TokenLogprob)} {deferred : Option RequestUpdate}
    (run : ledger.pushTokens id ids logprobs = .returned next deferred) :
    ∃ update, next.statement.record id = some update ∧ deferred = none ∧
      update.facts = (((ledger.statement.record id).getD (.empty id)).facts).then_
        { Facts.none with tokens := ids } := by
  unfold pushTokens at run
  split at run
  · cases run
  split at run
  · cases run
  split at run
  · cases run
  cases run
  simp only [StepStatement.record_entry, if_true]
  refine ⟨_, rfl, trivial, ?_⟩
  ext <;> simp [RequestUpdate.facts, Facts.then_, Facts.none]

theorem facts_record (record : Option RequestUpdate) (id : RequestId) :
    factsOf RequestUpdate.facts record.toList = (record.getD (.empty id)).facts := by
  cases record with
  | none => rfl
  | some update => exact factsOf_singleton update

/-- A returning call adds its own facts to its request's record, wherever that
record is then kept. -/
theorem call_facts {ledger next : RequestLedger} {call : LedgerCall} {handed : Option RequestUpdate}
    (run : ledger.call call = .returned next handed) (stays : ∀ id, call ≠ .retire id) :
    factsOf RequestUpdate.facts ((next.statement.record call.id).toList ++ handed.toList) =
      (factsOf RequestUpdate.facts (ledger.statement.record call.id).toList).then_ call.facts := by
  rw [facts_record _ call.id]
  by_cases writes : call.writes = true
  · cases call with
    | pushTokens id ids logprobs =>
      obtain ⟨update, recorded, rfl, facts⟩ := pushTokens_record run
      simpa [LedgerCall.id, LedgerCall.facts, recorded] using facts
    | setCachedTokens id cachedTokens =>
      obtain ⟨recorded, rfl⟩ := writeActive_record run
      simp [LedgerCall.id, recorded, LedgerCall.facts, RequestUpdate.facts]
    | echoPrompt id echo =>
      obtain ⟨recorded, rfl⟩ := writeActive_record run
      simp [LedgerCall.id, recorded, LedgerCall.facts, RequestUpdate.facts]
    | kvTransfer id params =>
      obtain ⟨recorded, rfl⟩ := writeActive_record run
      simp [LedgerCall.id, recorded, LedgerCall.facts, RequestUpdate.facts, Facts.then_, Facts.none]
    | _ => cases writes
  · obtain ⟨account, _, effect, _⟩ := call_effect run
    generalize call.id = id at effect ⊢
    generalize ledger.statement.record id = record at effect ⊢
    generalize next.accounts id = account' at effect
    generalize next.statement.record id = record' at effect ⊢
    cases effect with
    | write change doesWrite => exact absurd doesWrite writes
    | retire => exact absurd rfl (stays _)
    | settle settles counted => simp [LedgerCall.facts_of_settles settles, RequestUpdate.facts]
    | admitRequest queued =>
      ext <;> simp [LedgerCall.facts, RequestUpdate.facts, Facts.then_, Facts.none]
    | defer active => simp [LedgerCall.facts, RequestUpdate.facts]

end RequestLedger

/-- A request's own calls. -/
def callsOf (calls : List LedgerCall) (id : RequestId) : List LedgerCall :=
  calls.filter fun call => call.id = id

/-- Whoever holds the duty after a call has what the call left of the record. -/
theorem CallEffect.unshipped {id : RequestId} {account : Account}
    {record : Option RequestUpdate} {call : LedgerCall}
    {account' : Option Account} {record' handed : Option RequestUpdate}
    (effect : CallEffect id account record call account' record' handed) :
    (Holder.afterCall account' record' handed).unshipped = record'.toList ++ handed.toList ∧
      Holder.afterCall account' record' handed ≠ .answered ∧
      (Holder.afterCall account' record' handed ≠ .retired → ∀ owner, call ≠ .retire owner) := by
  cases effect with
  | admitRequest queued =>
    exact ⟨by simp [Holder.afterCall, Holder.unshipped], by simp [Holder.afterCall], by simp⟩
  | write change writes active only =>
    refine ⟨by simp [Holder.afterCall, Holder.unshipped], by simp [Holder.afterCall], ?_⟩
    rintro _ owner rfl
    cases writes
  | settle settles counted =>
    refine ⟨by simp [Holder.afterCall, Holder.unshipped], by simp [Holder.afterCall], ?_⟩
    rintro _ owner rfl
    cases settles
  | retire => exact ⟨rfl, by simp [Holder.afterCall], fun kept => absurd rfl kept⟩
  | defer active => exact ⟨rfl, by simp [Holder.afterCall], by simp⟩

namespace SchedulerStep

variable {engine next : Engine} {calls : List LedgerCall} {id : RequestId} {life : Life}

theorem driverStep (step : SchedulerStep engine calls next) : DriverStep engine next := by
  cases step with
  | call call stepping run _ => exact .call call stepping run
  | send before update after held => exact .outside (.send before update after held)
  | drop before update after held => exact .outside (.drop before update after held)
  | register between queue run => exact .register between queue run
  | step between empty => exact .step between empty
  | commit stepping => exact .commit stepping
  | fatal message order rest stepping drains run left =>
    exact .fatal message order rest stepping drains run left
  | teardown order between drains => exact .teardown order between drains
  | close down => exact .close down

/-- The bridge's end of the wiring is not touched, the step stream only grows,
and only an aborted request is retired. -/
theorem frame (step : SchedulerStep engine calls next) :
    next.nextId = engine.nextId ∧ next.aborted = engine.aborted ∧
      (∃ more, next.stream = engine.stream ++ more) ∧
      ∀ id ∈ next.retired, id ∈ engine.retired ∨ engine.aborted id = true := by
  cases step with
  | call call stepping run aborted =>
    refine ⟨rfl, rfl, ⟨[], (List.append_nil _).symm⟩, fun id member => ?_⟩
    rcases List.mem_append.mp member with already | now
    · exact .inl already
    · cases call with
      | retire owner =>
        cases List.mem_singleton.mp now
        exact .inr (aborted id rfl)
      | _ => cases now
  | send before update after held => exact ⟨rfl, rfl, ⟨_, rfl⟩, fun id member => .inl member⟩
  | drop before update after held => exact ⟨rfl, rfl, ⟨_, rfl⟩, fun id member => .inl member⟩
  | register between queue run =>
    exact ⟨rfl, rfl, ⟨[], (List.append_nil _).symm⟩, fun id member => .inl member⟩
  | step between empty => exact ⟨rfl, rfl, ⟨[], (List.append_nil _).symm⟩, fun id member => .inl member⟩
  | commit stepping => exact ⟨rfl, rfl, ⟨_, rfl⟩, fun id member => .inl member⟩
  | @fatal ledger message order rest stepping drains run left =>
    refine ⟨rfl, rfl, ⟨engine.ledger.commitStep.2 ++
      (ledger.commitStep.2 ++ ledger.commitStep.1.drop rest), ?_⟩,
      fun id member => .inl member⟩
    simp only [Engine.dropLedger, Engine.commitStep, List.append_assoc]
  | teardown order between drains => exact ⟨rfl, rfl, ⟨_, rfl⟩, fun id member => .inl member⟩
  | close down => exact ⟨rfl, rfl, ⟨_, rfl⟩, fun id member => .inl member⟩

theorem call_told {history : List LedgerCall} {call : LedgerCall} {ledger : RequestLedger}
    {handed : Option RequestUpdate}
    (represents : engine.Represents id life) (ok : life.Ok) (told : Told (callsOf history id) life)
    (run : engine.ledger.call call = .returned ledger handed) :
    ∃ life', (engine.afterCall call ledger handed).Represents id life' ∧ life'.Ok ∧
      Told (callsOf (history ++ [call]) id) life' := by
  by_cases mine : call.id = id
  · obtain ⟨account, holds, effect, after⟩ := Engine.call_represents_self represents run mine
    refine ⟨_, after, effect.ok (by rwa [← holds]), ?_⟩
    have grown : callsOf (history ++ [call]) id = callsOf history id ++ [call] := by simp [callsOf, mine]
    obtain ⟨held, unanswered, stays⟩ := effect.unshipped
    have running : life.holder ≠ .retired := by
      rw [holds]
      simp
    have before : life.holder.unshipped = (engine.ledger.statement.record id).toList := by
      rw [represents.record, holds]
      rfl
    rw [grown]
    refine @Told.call _ life.holder _ life.shipped call told running (fun kept => ?_) unanswered
    rw [held, before, ← mine]
    exact RequestLedger.call_facts run (stays kept)
  · refine ⟨life, Engine.call_represents_other represents run mine, ok, ?_⟩
    have same : callsOf (history ++ [call]) id = callsOf history id := by simp [callsOf, mine]
    rwa [same]

/-- Whatever the scheduler's side does, every request's records go on telling
what its calls have to tell. -/
theorem told {history : List LedgerCall} (step : SchedulerStep engine calls next) (inPhase : engine.InPhase)
    (represents : engine.Represents id life) (ok : life.Ok) (told : Told (callsOf history id) life) :
    ∃ life', next.Represents id life' ∧ life'.Ok ∧ Told (callsOf (history ++ calls) id) life' := by
  have handed : (∃ life', next.Represents id life' ∧ ReflTransGen (HandOver id) life life') →
      ∃ life', next.Represents id life' ∧ life'.Ok ∧ Told (callsOf (history ++ []) id) life' := by
    rintro ⟨life', after, steps⟩
    exact ⟨life', after, LifeStep.run_ok (HandOver.run_life steps)
      ok, by simpa using HandOver.run_keeps steps _ told⟩
  cases step with
  | call call stepping run aborted => exact call_told represents ok told run
  | send before update after held => exact handed (Engine.deliver_represents represents held rfl (.inl rfl))
  | drop before update after held => exact handed (Engine.deliver_represents represents held rfl (.inr rfl))
  | register between queue run => exact handed (Engine.register_represents represents queue run)
  | step between empty =>
    exact handed ⟨life, ⟨represents.shipped, represents.channel, represents.account, represents.record,
      represents.deferred, represents.retired, represents.born⟩, .refl⟩
  | commit stepping =>
    obtain ⟨life', after, steps⟩ := Engine.commitStep_represents represents ok
    exact handed ⟨life', ⟨after.shipped, after.channel, after.account, after.record,
      after.deferred, after.retired,
      after.born⟩, steps⟩
  | fatal message order rest stepping drains run left =>
    exact handed (Engine.fatal_represents represents ok run left)
  | teardown order between drains =>
    exact handed (Engine.dropLedger_represents represents (inPhase.committed (by simp [between]) id) drains)
  | close down => exact handed (Engine.dropSubmissions_represents represents)

end SchedulerStep

/-- Only the first record can be the admission, and only the last the terminal. -/
def Ordered (updates : List RequestUpdate) : Prop :=
  ∀ before update after, updates = before ++ update :: after →
    (update.terminal.isSome = true → after = []) ∧ (update.scheduled.isSome = true → before = [])

theorem Ordered.of_append {first second : List RequestUpdate}
    (ordered : Ordered (first ++ second)) : Ordered first := by
  rintro before update after rfl
  obtain ⟨last, opening⟩ := ordered before update (after ++ second) (by simp)
  exact ⟨fun ends => (List.append_eq_nil_iff.mp (last ends)).1, opening⟩

theorem Life.Ok.scheduledFirst {life : Life} (ok : life.Ok) : ScheduledFirst life.shipped := by
  obtain ⟨holder, shipped⟩ := life
  cases holder with
  | unborn =>
    cases (show shipped = [] from ok)
    simp [ScheduledFirst]
  | envelope held =>
    cases (show shipped = [] from ok)
    simp [ScheduledFirst]
  | account held buffered => exact (scheduledFirst_record 0 ok.2.1).1
  | statement buffered => exact (scheduledFirst_concat.mp ok.2).1
  | deferred update => exact (scheduledFirst_concat.mp ok.2.1).1
  | answered => exact ok.2
  | retired => exact ok.2

theorem Life.Ok.ordered {life : Life} (ok : life.Ok) : Ordered life.shipped := fun before update after cut =>
  ⟨ok.streamOk.nothingAfter before update after cut, ok.scheduledFirst.once.2 before update after cut⟩

/-- The outputs among these that were made for one request. -/
def outputsFor (outputs : List (Option RequestId × EngineCoreOutput)) (id : RequestId) :
    List EngineCoreOutput :=
  outputs.filterMap fun entry => if entry.1 = some id then some entry.2 else none

theorem outputsFor_append (first second : List (Option RequestId × EngineCoreOutput)) (id : RequestId) :
    outputsFor (first ++ second) id = outputsFor first id ++ outputsFor second id := List.filterMap_append

theorem outputsFor_self (output : Option EngineCoreOutput) (id : RequestId) :
    outputsFor (output.toList.map fun output => (some id, output)) id = output.toList := by
  cases output <;> simp [outputsFor]

theorem outputsFor_other (output : Option EngineCoreOutput) {id other : RequestId} (apart : id ≠ other) :
    outputsFor (output.toList.map fun output => (some id, output)) other = [] := by
  cases output <;> simp [outputsFor, apart]

namespace Dispatch

variable {unix : Instant → UnixSeconds} {dispatch : Dispatch} {update : RequestUpdate} {id : RequestId}

theorem onUpdate_other (apart : update.id ≠ id) :
    (dispatch.onUpdate unix update).streams id = dispatch.streams id ∧
      outputsFor (dispatch.onUpdate unix update).outputs id = outputsFor dispatch.outputs id := by
  unfold onUpdate
  split
  · exact ⟨rfl, rfl⟩
  · simp only
    split
    · exact ⟨Function.update_of_ne (Ne.symm apart) _ _, by simp [outputsFor_append, outputsFor_other _ apart]⟩
    · exact ⟨Function.update_of_ne (Ne.symm apart) _ _, by simp [outputsFor_append, outputsFor_other _ apart]⟩

theorem onUpdate_self {state : SteppedStream} (mine : update.id = id)
    (streaming : dispatch.streams id = some state) :
    let reduced := reduceUpdate unix state update
    (dispatch.onUpdate unix update).streams id = (if reduced.terminated then none else some reduced.state) ∧
      outputsFor (dispatch.onUpdate unix update).outputs id =
        outputsFor dispatch.outputs id ++ reduced.output.toList := by
  subst mine
  simp only [onUpdate, streaming]
  split
  · exact ⟨Function.update_self _ _ _, by rw [outputsFor_append, outputsFor_self]⟩
  · exact ⟨Function.update_self _ _ _, by rw [outputsFor_append, outputsFor_self]⟩

theorem onUpdate_silent (closed : dispatch.streams id = none) :
    (dispatch.onUpdate unix update).streams id = none ∧
      outputsFor (dispatch.onUpdate unix update).outputs id = outputsFor dispatch.outputs id := by
  by_cases mine : update.id = id
  · subst mine
    simp only [onUpdate, closed]
    exact ⟨trivial, trivial⟩
  · obtain ⟨streams, outputs⟩ := @onUpdate_other unix dispatch update id mine
    exact ⟨streams.trans closed, outputs⟩

/-- A request without a stream entry gets nothing out of a message. -/
theorem run_silent {updates : List RequestUpdate} (closed : dispatch.streams id = none) :
    (updates.foldl (onUpdate unix) dispatch).streams id = none ∧
      outputsFor (updates.foldl (onUpdate unix) dispatch).outputs id = outputsFor dispatch.outputs id := by
  induction updates generalizing dispatch with
  | nil => exact ⟨closed, rfl⟩
  | cons update updates ih =>
    obtain ⟨streams, outputs⟩ := @onUpdate_silent unix dispatch update id closed
    obtain ⟨rest, more⟩ := ih streams
    exact ⟨rest, more.trans outputs⟩

/-- A message relays its records to each request it names. -/
theorem run_relay {requestId : String} {stopSentinelId : Option Token} {earlier updates : List RequestUpdate}
    {sent : List EngineCoreOutput}
    (relay : Relay requestId stopSentinelId earlier (dispatch.streams id)
      (sent ++ outputsFor dispatch.outputs id))
    (ordered : Ordered (earlier ++ updates.filter fun update => update.id = id)) :
    let final := updates.foldl (onUpdate unix) dispatch
    Relay requestId stopSentinelId (earlier ++ updates.filter fun update => update.id = id) (final.streams id)
      (sent ++ outputsFor final.outputs id) := by
  induction updates generalizing dispatch earlier with
  | nil => simpa using relay
  | cons update updates ih =>
    by_cases mine : update.id = id
    · have split : earlier ++ (update :: updates).filter (fun update => update.id = id) =
          (earlier ++ [update]) ++ updates.filter fun update => update.id = id := by simp [mine]
      rw [split] at ordered ⊢
      cases streaming : dispatch.streams id with
      | none =>
        rw [streaming] at relay
        obtain ⟨_, _, before, last, terminal, _, _, rfl, ends, _⟩ := relay.ended rfl
        have after := (ordered before last ([update] ++ updates.filter fun update => update.id = id)
          (by simp)).1 (by simp [ends])
        simp at after
      | some state =>
        rw [streaming] at relay
        obtain ⟨streams, outputs⟩ := @onUpdate_self unix dispatch update id state mine streaming
        have opening := (ordered earlier update (updates.filter fun update => update.id = id) (by simp)).2
        have next := relay.next unix update opening
        simp only at next
        rw [← streams, List.append_assoc, ← outputs] at next
        exact ih next ordered
    · obtain ⟨streams, outputs⟩ := @onUpdate_other unix dispatch update id mine
      have same : (update :: updates).filter (fun update => update.id = id) =
          updates.filter fun update => update.id = id := by simp [mine]
      rw [same] at ordered ⊢
      exact ih (by rwa [streams, outputs]) ordered

end Dispatch

/-- Every name leads to its stream, and every stream to its name. -/
def Inverse (names : String → Option RequestId) (streams : RequestId → Option SteppedStream) : Prop :=
  ∀ name id, names name = some id ↔ ∃ state, streams id = some state ∧ state.requestId = name

/-- A batch lists as finished the requests it has a finish reason for. -/
def ListsFinished (outputs : List (Option RequestId × EngineCoreOutput))
    (finishedRequests : Finset String) : Prop :=
  ∀ name, name ∈ finishedRequests ↔ ∃ entry ∈ outputs, entry.2.requestId = name ∧
    entry.2.finishReason.isSome = true

namespace Inverse

variable {names : String → Option RequestId} {streams : RequestId → Option SteppedStream}

/-- Closing a stream under its own name. -/
theorem close (inverse : Inverse names streams) {id : RequestId} {state : SteppedStream}
    (held : streams id = some state) :
    Inverse (Function.update names state.requestId none) (Function.update streams id none) := by
  intro name other
  by_cases sameName : name = state.requestId
  · subst sameName
    simp only [Function.update_self, reduceCtorEq, false_iff, not_exists, not_and]
    intro found streaming named
    by_cases same : other = id
    · subst same
      simp at streaming
    · rw [Function.update_of_ne same] at streaming
      have first := (inverse state.requestId id).mpr ⟨state, held, rfl⟩
      have second := (inverse state.requestId other).mpr ⟨found, streaming, named⟩
      rw [first, Option.some.injEq] at second
      exact same second.symm
  · rw [Function.update_of_ne sameName, inverse]
    by_cases same : other = id
    · subst same
      simp only [Function.update_self, reduceCtorEq, false_and, exists_false, iff_false, not_exists, not_and]
      intro found streaming named
      rw [held, Option.some.injEq] at streaming
      rw [← streaming] at named
      exact sameName named.symm
    · rw [Function.update_of_ne same]

/-- A stream may change, as long as it keeps its name. -/
theorem change (inverse : Inverse names streams) {id : RequestId} {state next : SteppedStream}
    (held : streams id = some state) (named : next.requestId = state.requestId) :
    Inverse names (Function.update streams id (some next)) := by
  intro name other
  rw [inverse]
  by_cases same : other = id
  · subst same
    simp [held, named]
  · rw [Function.update_of_ne same]

/-- A new stream under a name not in use. -/
theorem insert (inverse : Inverse names streams) {id : RequestId} {state : SteppedStream}
    (unnamed : names state.requestId = none) (closed : streams id = none) :
    Inverse (Function.update names state.requestId (some id)) (Function.update streams id (some state)) := by
  intro name other
  by_cases same : other = id
  · subst same
    by_cases sameName : name = state.requestId
    · subst sameName
      simp
    · rw [Function.update_of_ne sameName, inverse]
      simp [closed, Ne.symm sameName]
  · rw [Function.update_of_ne same]
    by_cases sameName : name = state.requestId
    · subst sameName
      rw [Function.update_self, ← inverse, unnamed]
      simp [Ne.symm same]
    · rw [Function.update_of_ne sameName, inverse]

end Inverse

theorem Dispatch.onUpdate_inverse {unix : Instant → UnixSeconds} {dispatch : Dispatch}
    {update : RequestUpdate}
    (inverse : Inverse dispatch.names dispatch.streams) :
    Inverse (dispatch.onUpdate unix update).names (dispatch.onUpdate unix update).streams := by
  unfold onUpdate
  split
  · exact inverse
  · rename_i state held
    have named := (reduceUpdate_wire unix state update).1
    simp only
    split
    · rw [named]
      exact inverse.close held
    · exact inverse.change held named

theorem Dispatch.onUpdate_finished {unix : Instant → UnixSeconds} {dispatch : Dispatch}
    {update : RequestUpdate}
    (lists : ListsFinished dispatch.outputs dispatch.finishedRequests) :
    ListsFinished (dispatch.onUpdate unix update).outputs
      (dispatch.onUpdate unix update).finishedRequests := by
  unfold onUpdate
  split
  · exact lists
  · rename_i state held
    obtain ⟨named, rendered, silent⟩ := reduceUpdate_wire unix state update
    simp only
    generalize reduceUpdate unix state update = reduced at *
    cases made : reduced.output with
    | none =>
      rw [silent made]
      simpa using lists
    | some output =>
      obtain ⟨outputNamed, closes⟩ := rendered output made
      split
      · rename_i terminated
        intro name
        rw [Finset.mem_insert, lists name]
        constructor
        · rintro (rfl | ⟨entry, member, rest⟩)
          · exact ⟨(some update.id, output), by simp,
              outputNamed.trans named.symm, by rw [closes, terminated]⟩
          · exact ⟨entry, List.mem_append_left _ member, rest⟩
        · rintro ⟨entry, member, same, finish⟩
          rcases List.mem_append.mp member with old | new
          · exact .inr ⟨entry, old, same, finish⟩
          · cases List.mem_singleton.mp new
            exact .inl (same.symm.trans (outputNamed.trans named.symm))
      · rename_i running
        intro name
        rw [lists name]
        simp [or_and_right, exists_or, closes, running]

end PegaInfer.Frontend
