import PegaInfer.Frontend.Demux

namespace PegaInfer.Frontend

open Relation

namespace SteppedEngineBridge

/-- The records of one request that the bridge has read. -/
def dispatchedFor (bridge : SteppedEngineBridge) (id : RequestId) : List RequestUpdate :=
  ((bridge.scheduler.stream.take bridge.received).flatMap StepOutputs.updates).filter fun update =>
    update.id = id

/-- What holds of bridge and scheduler at every point of a run. -/
structure Ok (bridge : SteppedEngineBridge) : Prop where
  reach : DriverReach bridge.scheduler
  inverse : Inverse bridge.names bridge.streams
  received : bridge.received ≤ bridge.scheduler.stream.length
  lives : ∀ id, ∃ life, bridge.scheduler.Represents id life ∧ life.Ok ∧ Told (callsOf bridge.calls id) life
  retired : ∀ id ∈ bridge.scheduler.retired, bridge.scheduler.aborted id = true
  unborn : ∀ id, bridge.scheduler.nextId ≤ id →
    bridge.streams id = none ∧ bridge.sentFor id = [] ∧ bridge.scheduler.aborted id = false
  aborted : ∀ id, bridge.scheduler.aborted id = true → bridge.streams id = none
  relay : ∀ id < bridge.scheduler.nextId, ∃ requestId sentinel, bridge.opened id =
    some (requestId, sentinel) ∧
    (bridge.scheduler.aborted id = false →
      Relay requestId sentinel (bridge.dispatchedFor id) (bridge.streams id) (bridge.sentFor id))
  finished : ∀ batch ∈ bridge.sent, ListsFinished batch.outputs (batch.finishedRequests.getD ∅)
  refused : ∀ batch ∈ bridge.sent, ∀ entry ∈ batch.outputs, entry.1 = none →
    batch.outputs = [entry] ∧ entry.2.newTokenIds = [] ∧ entry.2.finishReason = some .error
  distinct : ∀ batch ∈ bridge.sent, ∀ first ∈ batch.outputs, ∀ second ∈ batch.outputs,
    first.2.requestId = second.2.requestId → first.1 = second.1

/-- A message's streams and outputs go back to streams open before it. -/
structure Origin (before : RequestId → Option SteppedStream) (dispatch : Dispatch) : Prop where
  streams : ∀ id state, dispatch.streams id = some state →
    ∃ opening, before id = some opening ∧ opening.requestId = state.requestId
  outputs : ∀ entry ∈ dispatch.outputs, ∃ id opening, entry.1 = some id ∧ before id = some opening ∧
    opening.requestId = entry.2.requestId

variable {bridge : SteppedEngineBridge} {id : RequestId}

theorem shipped_eq (bridge : SteppedEngineBridge) (id : RequestId) :
    bridge.scheduler.shipped id = bridge.dispatchedFor id ++
      ((bridge.scheduler.stream.drop bridge.received).flatMap StepOutputs.updates).filter
        fun update => update.id = id := by
  rw [dispatchedFor, Engine.shipped, ← List.filter_append, ← List.flatMap_append, List.take_append_drop]

theorem dispatchedFor_begins (bridge : SteppedEngineBridge) (id : RequestId) :
    ∃ later, bridge.scheduler.shipped id = bridge.dispatchedFor id ++ later := ⟨_, bridge.shipped_eq id⟩

theorem sentFor_append (bridge : SteppedEngineBridge) (batch : RequestBatchOutputs) (id : RequestId) :
    { bridge with sent := bridge.sent ++ [batch] }.sentFor id =
      bridge.sentFor id ++ outputsFor batch.outputs id := by
  simp [sentFor, outputsFor]

theorem Ok.ordered (ok : bridge.Ok) (id : RequestId) : Ordered (bridge.scheduler.shipped id) := by
  obtain ⟨life, represents, fine, _⟩ := ok.lives id
  rw [represents.shipped]
  exact fine.ordered

theorem start_ok : Ok start := by
  refine ⟨.start, fun name id => by simp [start], by simp [start],
    fun id => ?_, by simp [start, Engine.start],
    fun id _ => ⟨rfl, rfl, rfl⟩, fun id _ => rfl, fun id below => by simp [start, Engine.start] at below,
    by simp [start], by simp [start], by simp [start]⟩
  exact ⟨_, Engine.start_represents id, rfl, [], [], rfl, .nil, fun _ => rfl, fun _ => rfl⟩

/-- The scheduler's side moves. -/
theorem Ok.scheduler {calls : List LedgerCall} {next : Engine} (ok : bridge.Ok)
    (step : SchedulerStep bridge.scheduler calls next) :
    Ok { bridge with scheduler := next, calls := bridge.calls ++ calls } := by
  obtain ⟨minted, flags, ⟨more, grown⟩, retires⟩ := step.frame
  have reach := ok.reach.next step.driverStep
  have read : ∀ id, { bridge with scheduler := next, calls := bridge.calls ++ calls }.dispatchedFor id =
      bridge.dispatchedFor id := by
    intro id
    simp only [dispatchedFor, grown]
    rw [List.take_append_of_le_length ok.received]
  refine ⟨reach, ok.inverse, ?_, fun id => ?_, fun id member => ?_, fun id later => ?_, fun id raised => ?_,
    fun id below => ?_, ok.finished, ok.refused, ok.distinct⟩
  · simp only [grown, List.length_append]
    exact Nat.le_add_right_of_le ok.received
  · obtain ⟨life, represents, fine, told⟩ := ok.lives id
    exact step.told ok.reach.represents.1 represents fine told
  · simp only [flags]
    rcases retires id member with already | now
    · exact ok.retired id already
    · exact now
  · simp only [minted] at later
    simp only [flags]
    exact ok.unborn id later
  · simp only [flags] at raised
    exact ok.aborted id raised
  · simp only [minted] at below
    obtain ⟨requestId, sentinel, opened, relay⟩ := ok.relay id below
    refine ⟨requestId, sentinel, opened, fun lowered => ?_⟩
    simp only [flags] at lowered
    rw [read]
    exact relay lowered

theorem Origin.onUpdate {streams : RequestId → Option SteppedStream} {dispatch : Dispatch}
    (origin : Origin streams dispatch)
    (unix : Instant → UnixSeconds) (update : RequestUpdate) :
    Origin streams (dispatch.onUpdate unix update) := by
  unfold Dispatch.onUpdate
  split
  · exact origin
  · rename_i state held
    obtain ⟨named, rendered, _⟩ := reduceUpdate_wire unix state update
    obtain ⟨opening, opened, sameName⟩ := origin.streams update.id state held
    have outputs : ∀ entry ∈ dispatch.outputs ++ (reduceUpdate unix state update).output.toList.map
        (fun output => (some update.id, output)), ∃ id opening, entry.1 = some id ∧
          streams id = some opening ∧
          opening.requestId = entry.2.requestId := by
      intro entry member
      rcases List.mem_append.mp member with old | new
      · exact origin.outputs entry old
      · obtain ⟨output, made, rfl⟩ := List.mem_map.mp new
        have shown := (rendered output (Option.mem_toList.mp made)).1
        exact ⟨update.id, opening, rfl, opened, sameName.trans shown.symm⟩
    simp only
    split
    · refine ⟨fun other found streaming => ?_, outputs⟩
      by_cases same : other = update.id
      · simp [same] at streaming
      · simp only [Function.update_of_ne same] at streaming
        exact origin.streams other found streaming
    · refine ⟨fun other found streaming => ?_, outputs⟩
      by_cases same : other = update.id
      · simp only [same, Function.update_self, Option.some.injEq] at streaming
        exact ⟨opening, same ▸ opened, by rw [← streaming, named, sameName]⟩
      · simp only [Function.update_of_ne same] at streaming
        exact origin.streams other found streaming

/-- The loop of `dispatch_step`, as far as it is about the batch. -/
theorem run_batch {unix : Instant → UnixSeconds} {streams : RequestId → Option SteppedStream}
    {dispatch : Dispatch}
    {updates : List RequestUpdate} (inverse : Inverse dispatch.names dispatch.streams)
    (lists : ListsFinished dispatch.outputs dispatch.finishedRequests) (origin : Origin streams dispatch) :
    let final := updates.foldl (Dispatch.onUpdate unix) dispatch
    Inverse final.names final.streams ∧ ListsFinished final.outputs final.finishedRequests ∧
      Origin streams final := by
  induction updates generalizing dispatch with
  | nil => exact ⟨inverse, lists, origin⟩
  | cons update updates ih =>
    exact ih (Dispatch.onUpdate_inverse inverse) (Dispatch.onUpdate_finished lists)
      (origin.onUpdate unix update)

theorem dispatchStep_sentFor (bridge : SteppedEngineBridge)
    (unix : Instant → UnixSeconds) (step : StepOutputs)
    (id : RequestId) :
    (bridge.dispatchStep unix step).sentFor id = bridge.sentFor id ++
      outputsFor (step.updates.foldl (Dispatch.onUpdate unix)
        ⟨bridge.streams, bridge.names, [], ∅⟩).outputs id := by
  simp only [dispatchStep]
  split
  · rename_i empty
    rw [List.isEmpty_iff.mp empty]
    simp [outputsFor, sentFor]
  · exact sentFor_append bridge _ id

/-- A step message is read and demultiplexed. -/
theorem Ok.dispatch {unix : Instant → UnixSeconds} {step : StepOutputs} (ok : bridge.Ok)
    (next : bridge.scheduler.stream[bridge.received]? = some step) : Ok (bridge.dispatchStep unix step) := by
  have room : bridge.received < bridge.scheduler.stream.length := (List.getElem?_eq_some_iff.mp next).1
  obtain ⟨inverse, lists, origin⟩ :=
    @run_batch unix bridge.streams ⟨bridge.streams, bridge.names, [], ∅⟩ step.updates
    ok.inverse (by simp [ListsFinished]) ⟨fun _ state streaming => ⟨state, streaming, rfl⟩, by simp⟩
  have read : ∀ id, (bridge.dispatchStep unix step).dispatchedFor id =
      bridge.dispatchedFor id ++ step.updates.filter fun update => update.id = id := by
    intro id
    simp only [dispatchedFor, dispatchStep]
    rw [List.take_add_one, next]
    simp
  have sends := bridge.dispatchStep_sentFor unix step
  have batches : ∀ batch ∈ (bridge.dispatchStep unix step).sent, batch ∈ bridge.sent ∨
      (batch.outputs = (step.updates.foldl (Dispatch.onUpdate unix)
        ⟨bridge.streams, bridge.names, [], ∅⟩).outputs ∧
        batch.finishedRequests.getD ∅ =
          (step.updates.foldl (Dispatch.onUpdate unix)
            ⟨bridge.streams, bridge.names, [], ∅⟩).finishedRequests) := by
    intro batch member
    simp only [dispatchStep] at member
    split at member
    · exact .inl member
    · rcases List.mem_append.mp member with old | new
      · exact .inl old
      · cases List.mem_singleton.mp new
        refine .inr ⟨rfl, ?_⟩
        simp only
        split
        · rename_i empty
          rw [empty]
          rfl
        · rfl
  refine ⟨ok.reach, inverse, room, ok.lives, ok.retired, fun id later => ?_,
    fun id raised => ?_, fun id below => ?_,
    fun batch member => ?_, fun batch member entry inside refused => ?_,
    fun batch member first inFirst second inSecond same => ?_⟩
  · obtain ⟨closed, silent, lowered⟩ := ok.unborn id later
    obtain ⟨streams, outputs⟩ :=
      @Dispatch.run_silent unix ⟨bridge.streams, bridge.names, [], ∅⟩ id step.updates closed
    refine ⟨streams, ?_, lowered⟩
    rw [sends, silent, outputs]
    rfl
  · exact (@Dispatch.run_silent unix ⟨bridge.streams, bridge.names, [], ∅⟩ id step.updates
      (ok.aborted id raised)).1
  · obtain ⟨requestId, sentinel, opened, relay⟩ := ok.relay id below
    refine ⟨requestId, sentinel, opened, fun lowered => ?_⟩
    rw [read, sends]
    refine @Dispatch.run_relay unix ⟨bridge.streams, bridge.names, [], ∅⟩ id requestId sentinel
      (bridge.dispatchedFor id)
      step.updates (bridge.sentFor id) ?_ ?_
    · rw [show outputsFor [] id = [] from rfl, List.append_nil]
      exact relay lowered
    · obtain ⟨later, shipped⟩ := (bridge.dispatchStep unix step).dispatchedFor_begins id
      rw [read] at shipped
      exact (shipped ▸ ok.ordered id : Ordered _).of_append
  · rcases batches batch member with old | ⟨outputs, finished⟩
    · exact ok.finished batch old
    · rw [outputs, finished]
      exact lists
  · rcases batches batch member with old | ⟨outputs, finished⟩
    · exact ok.refused batch old entry inside refused
    · rw [outputs] at inside
      obtain ⟨_, _, tagged, _⟩ := origin.outputs entry inside
      rw [refused] at tagged
      cases tagged
  · rcases batches batch member with old | ⟨outputs, finished⟩
    · exact ok.distinct batch old first inFirst second inSecond same
    · rw [outputs] at inFirst inSecond
      obtain ⟨id, opening, tagged, streaming, named⟩ := origin.outputs first inFirst
      obtain ⟨id', opening', tagged', streaming', named'⟩ := origin.outputs second inSecond
      have found := (ok.inverse _ id).mpr ⟨opening, streaming, named⟩
      have found' := (ok.inverse _ id').mpr ⟨opening', streaming', named'⟩
      rw [same, found'] at found
      rw [tagged, tagged', found]

/-- One name of an abort: its stream goes, and its flag is up from then on. -/
theorem Ok.abortRequest (ok : bridge.Ok) (requestId : String) : Ok (bridge.abortRequest requestId) := by
  unfold SteppedEngineBridge.abortRequest
  split
  · exact ok
  · rename_i id named
    obtain ⟨state, held, sameName⟩ := (ok.inverse requestId id).mp named
    subst sameName
    simp only [held]
    have reach := ok.reach.next (.outside (.abort id))
    have known : id < bridge.scheduler.nextId := by
      by_contra later
      rw [(ok.unborn id (Nat.le_of_not_lt later)).1] at held
      cases held
    refine ⟨reach, ok.inverse.close held, ok.received, fun other => ?_, fun other member => ?_,
      fun other later => ?_,
      fun other raised => ?_, fun other below => ?_, ok.finished, ok.refused, ok.distinct⟩
    · obtain ⟨life, represents, fine, told⟩ := ok.lives other
      exact ⟨life, ⟨represents.shipped, represents.channel, represents.account,
        represents.record, represents.deferred,
        represents.retired, represents.born⟩, fine, told⟩
    · have flag := ok.retired other member
      by_cases same : other = id
      · simp [same]
      · simpa [same] using flag
    · obtain ⟨closed, silent, lowered⟩ := ok.unborn other later
      have apart : other ≠ id := fun same => Nat.not_lt_of_le later (same ▸ known)
      exact ⟨(Function.update_of_ne apart _ _).trans closed, silent,
        (Function.update_of_ne apart _ _).trans lowered⟩
    · by_cases same : other = id
      · simp [same]
      · simp only [Function.update_of_ne same] at raised
        exact (Function.update_of_ne same _ _).trans (ok.aborted other raised)
    · obtain ⟨requestId, sentinel, opened, relay⟩ := ok.relay other below
      refine ⟨requestId, sentinel, opened, fun lowered => ?_⟩
      by_cases same : other = id
      · simp [same] at lowered
      · simp only [Function.update_of_ne same] at lowered ⊢
        exact relay lowered

theorem submit_stream (engine : Engine) (promptLen : Nat) (now : Instant) :
    (engine.submit promptLen now).nextId = engine.nextId + 1 ∧
      (engine.submit promptLen now).aborted = engine.aborted ∧
      (engine.submit promptLen now).retired = engine.retired ∧
      ∃ more, (engine.submit promptLen now).stream = engine.stream ++ more := by
  unfold Engine.submit
  split
  · exact ⟨rfl, rfl, rfl, _, rfl⟩
  · exact ⟨rfl, rfl, rfl, [], (List.append_nil _).symm⟩

/-- A request arrives: it is refused at once, or submitted under a new id. -/
theorem Ok.startRequest (ok : bridge.Ok) (request : EngineCoreRequest) (now : Instant)
    (distinct : bridge.names request.requestId = none) : Ok (bridge.startRequest request now) := by
  unfold SteppedEngineBridge.startRequest
  split
  · rename_i stopReason _
    have silent : ∀ id, { bridge with
        sent := bridge.sent ++ [sendTerminalOutput request.requestId .error stopReason] }.sentFor
          id = bridge.sentFor id := by
      intro id
      rw [sentFor_append]
      simp [sendTerminalOutput, outputsFor]
    refine ⟨ok.reach, ok.inverse, ok.received, ok.lives, ok.retired, fun id later => ?_, ok.aborted,
      fun id below => ?_, ?_, ?_, ?_⟩
    · rw [silent]
      exact ok.unborn id later
    · simp only [silent]
      exact ok.relay id below
    · rw [List.forall_mem_append]
      refine ⟨ok.finished, List.forall_mem_singleton.mpr fun name => ?_⟩
      simp only [sendTerminalOutput, Draft.engineOutput, Option.getD_some,
        Finset.mem_singleton, List.mem_singleton,
        exists_eq_left, Option.isSome_some, and_true]
      exact eq_comm
    · rw [List.forall_mem_append]
      refine ⟨ok.refused, List.forall_mem_singleton.mpr fun entry member _ => ?_⟩
      cases List.mem_singleton.mp member
      exact ⟨rfl, rfl, rfl⟩
    · rw [List.forall_mem_append]
      refine ⟨ok.distinct, List.forall_mem_singleton.mpr fun first inFirst second inSecond _ => ?_⟩
      rw [List.mem_singleton.mp inFirst, List.mem_singleton.mp inSecond]
  · rename_i promptTokens params _
    obtain ⟨minted, flags, retired, more, grown⟩ := submit_stream bridge.scheduler promptTokens.length now
    obtain ⟨closed, silent, lowered⟩ := ok.unborn bridge.scheduler.nextId le_rfl
    have reach := ok.reach.next (.outside (.submit promptTokens.length now))
    have read : ∀ id, (((bridge.scheduler.submit promptTokens.length now).stream.take bridge.received).flatMap
        StepOutputs.updates).filter (fun update => update.id = id) = bridge.dispatchedFor id := by
      intro id
      rw [grown, List.take_append_of_le_length ok.received, dispatchedFor]
    have named := @Inverse.insert _ _ ok.inverse bridge.scheduler.nextId
      (.new request.requestId (stopSentinelId params.eosTokenId params.stopTokenIds)) distinct closed
    refine ⟨reach, named, ?_, fun id => ?_, ?_, fun id later => ?_, fun id raised => ?_,
      fun id below => ?_, ok.finished, ok.refused, ok.distinct⟩
    · simp only [grown, List.length_append]
      exact Nat.le_add_right_of_le ok.received
    · obtain ⟨life, represents, fine, told⟩ := ok.lives id
      obtain ⟨life', after, steps⟩ := Engine.submit_represents represents promptTokens.length now
      exact ⟨life', after, LifeStep.run_ok (HandOver.run_life steps) fine, HandOver.run_keeps steps _ told⟩
    · simp only [retired, flags]
      exact ok.retired
    · simp only [minted] at later
      obtain ⟨closed', silent', lowered'⟩ := ok.unborn id (Nat.le_of_succ_le later)
      have apart : id ≠ bridge.scheduler.nextId := (Nat.ne_of_lt later).symm
      simp only [flags, Function.update_of_ne apart]
      exact ⟨closed', silent', lowered'⟩
    · simp only [flags] at raised
      have apart : id ≠ bridge.scheduler.nextId := by
        rintro rfl
        rw [lowered] at raised
        cases raised
      simp only [Function.update_of_ne apart]
      exact ok.aborted id raised
    · simp only [minted] at below
      by_cases same : id = bridge.scheduler.nextId
      · subst same
        refine ⟨_, _, Function.update_self _ _ _, fun _ => ?_⟩
        obtain ⟨life, represents, fine, _⟩ := ok.lives bridge.scheduler.nextId
        obtain ⟨later, shipped⟩ := bridge.dispatchedFor_begins bridge.scheduler.nextId
        have unborn : life.holder = .unborn := by
          by_contra born
          exact absurd (represents.born.mpr born) (Nat.lt_irrefl _)
        have nothing : bridge.scheduler.shipped bridge.scheduler.nextId = [] := by
          rw [represents.shipped]
          obtain ⟨holder, out⟩ := life
          cases unborn
          exact fine
        have unread : bridge.dispatchedFor bridge.scheduler.nextId = [] := by
          rw [nothing] at shipped
          exact (List.append_eq_nil_iff.mp shipped.symm).1
        have here := read bridge.scheduler.nextId
        rw [unread] at here
        simp only [dispatchedFor, here, Function.update_self]
        exact silent ▸ Relay.new request.requestId _
      · obtain ⟨requestId, sentinel, opened, relay⟩ :=
          ok.relay id (Nat.lt_of_le_of_ne (Nat.lt_succ_iff.mp below) same)
        refine ⟨requestId, sentinel, (Function.update_of_ne same _ _).trans opened, fun lowered' => ?_⟩
        simp only [flags] at lowered'
        simp only [dispatchedFor, read, Function.update_of_ne same]
        exact relay lowered'

theorem Ok.abort (ok : bridge.Ok) (requestIds : List String) :
    Ok (requestIds.foldl SteppedEngineBridge.abortRequest bridge) := by
  induction requestIds generalizing bridge with
  | nil => exact ok
  | cons requestId requestIds ih => exact ih (ok.abortRequest requestId)

end SteppedEngineBridge

theorem BridgeStep.ok {unix : Instant → UnixSeconds} {bridge next : SteppedEngineBridge}
    (step : BridgeStep unix bridge next) (ok : bridge.Ok) : next.Ok := by
  cases step with
  | add request now distinct => exact ok.startRequest request now distinct
  | abort requestIds => exact ok.abort requestIds
  | dispatch message => exact ok.dispatch message
  | scheduler step => exact ok.scheduler step

theorem BridgeReach.ok {unix : Instant → UnixSeconds} {bridge : SteppedEngineBridge}
    (reach : BridgeReach unix bridge) :
    bridge.Ok := by
  induction reach with
  | start => exact SteppedEngineBridge.start_ok
  | next _ step ih => exact step.ok ih

/-- Nothing is sent any more for a request whose abort was handled. -/
theorem BridgeStep.aborted_silent {unix : Instant → UnixSeconds}
    {bridge next : SteppedEngineBridge} {id : RequestId}
    (step : BridgeStep unix bridge next) (ok : bridge.Ok) (aborted : bridge.scheduler.aborted id = true) :
    next.scheduler.aborted id = true ∧ next.sentFor id = bridge.sentFor id := by
  cases step with
  | add request now distinct =>
    unfold SteppedEngineBridge.startRequest
    split
    · refine ⟨aborted, ?_⟩
      rw [SteppedEngineBridge.sentFor_append]
      simp [sendTerminalOutput, outputsFor]
    · exact ⟨by rw [(SteppedEngineBridge.submit_stream bridge.scheduler _ now).2.1]; exact aborted, rfl⟩
  | abort requestIds =>
    clear ok
    induction requestIds generalizing bridge with
    | nil => exact ⟨aborted, rfl⟩
    | cons requestId requestIds ih =>
      have first : (bridge.abortRequest requestId).scheduler.aborted id = true ∧
          (bridge.abortRequest requestId).sentFor id = bridge.sentFor id := by
        unfold SteppedEngineBridge.abortRequest
        split
        · exact ⟨aborted, rfl⟩
        · rename_i owner _
          simp only
          split
          · exact ⟨aborted, rfl⟩
          · refine ⟨?_, rfl⟩
            by_cases same : id = owner
            · simp [same]
            · simpa [same] using aborted
      obtain ⟨raised, silent⟩ := ih first.1
      exact ⟨raised, silent.trans first.2⟩
  | @dispatch message next =>
    refine ⟨aborted, ?_⟩
    have silent := (@Dispatch.run_silent unix ⟨bridge.streams, bridge.names, [], ∅⟩ id message.updates
      (ok.aborted id aborted)).2
    rw [bridge.dispatchStep_sentFor, silent]
    exact List.append_nil _
  | scheduler step => exact ⟨by rw [step.frame.2.1]; exact aborted, rfl⟩

theorem BridgeStep.run_aborted_silent {unix : Instant → UnixSeconds}
    {bridge later : SteppedEngineBridge} {id : RequestId}
    (steps : ReflTransGen (BridgeStep unix) bridge later) (ok : bridge.Ok)
    (aborted : bridge.scheduler.aborted id = true) : later.sentFor id = bridge.sentFor id := by
  have all : later.Ok ∧ later.scheduler.aborted id = true ∧ later.sentFor id = bridge.sentFor id := by
    induction steps with
    | refl => exact ⟨ok, aborted, rfl⟩
    | tail _ step ih =>
      obtain ⟨fine, raised, same⟩ := ih
      obtain ⟨still, silent⟩ := step.aborted_silent fine raised
      exact ⟨step.ok fine, still, silent.trans same⟩
  exact all.2.2

/-- The tokens pushed by a run of calls, in order. -/
def pushedTokens (calls : List LedgerCall) : List Token :=
  calls.flatMap fun
    | .pushTokens _ ids _ => ids
    | _ => []

theorem factsOf_pushedTokens (calls : List LedgerCall) :
    (factsOf LedgerCall.facts calls).tokens = pushedTokens calls := by
  induction calls with
  | nil => rfl
  | cons call calls ih =>
    rw [factsOf_cons, Facts.then_, ih, pushedTokens, pushedTokens, List.flatMap_cons]
    cases call <;> rfl

/-- What no record tells that was read so far: the messages on their way, the
running step's record, a finish handed out. -/
def SteppedEngineBridge.underway (bridge : SteppedEngineBridge) (id : RequestId) : List RequestUpdate :=
  ((bridge.scheduler.stream.drop bridge.received).flatMap StepOutputs.updates).filter
    (fun update => update.id = id) ++
    ((bridge.scheduler.ledger.statement.record id).toList ++
      bridge.scheduler.deferred.filter fun update => update.id = id)

/-- One request's calls cut at the records that were read, and these cut at the
outputs. Each record tells its own stretch of calls; each output ships with the
first record that can ship and tells everything since the output before, the
hand-off metadata last set included. What no output tells is parked or
underway, and nothing is once the terminal is out. -/
structure Cut (bridge : SteppedEngineBridge) (id : RequestId) (stopSentinelId : Option Token)
    (spans : List (List (List LedgerCall × RequestUpdate))) (parked : List (List LedgerCall × RequestUpdate))
    (unread : List LedgerCall) : Prop where
  records : bridge.dispatchedFor id = (spans.flatten ++ parked).map Prod.snd
  calls : callsOf bridge.calls id = ((spans.flatten ++ parked).map Prod.fst).flatten ++ unread
  told : ∀ entry ∈ spans.flatten ++ parked, factsOf LedgerCall.facts entry.1 = entry.2.facts
  ships : ∀ span ∈ spans, ShipsLast (span.map Prod.snd)
  waits : ∀ entry ∈ parked, entry.2.ships = false
  rendered : List.Forall₂ (fun span =>
    Renders stopSentinelId (factsOf LedgerCall.facts (span.map Prod.fst).flatten))
    spans (bridge.sentFor id)
  underway : factsOf LedgerCall.facts unread = factsOf RequestUpdate.facts (bridge.underway id)
  ended : ∀ output ∈ bridge.sentFor id, output.finishReason.isSome = true → parked = [] ∧ unread = []

/-- What the wire shows of one request, against its ledger calls. -/
structure Faithful (bridge : SteppedEngineBridge) (id : RequestId) (requestId : String)
    (stopSentinelId : Option Token) :
    Prop where
  named : ∀ output ∈ bridge.sentFor id, output.requestId = requestId
  cut : ∃ spans parked unread, Cut bridge id stopSentinelId spans parked unread
  admittedFirst : ∀ output ∈ (bridge.sentFor id).tail, output.events = none ∧ output.prefillStats = none
  finishLast : ∀ before output after, bridge.sentFor id = before ++ output :: after →
    output.finishReason.isSome = true → after = []
  whole : ∀ output ∈ bridge.sentFor id, ∀ reason, output.finishReason = some reason →
    (bridge.sentFor id).flatMap EngineCoreOutput.newTokenIds =
      pushedTokens (callsOf bridge.calls id) ++ sentinelFor stopSentinelId (some reason) ∧
    ∃ update ∈ bridge.scheduler.shipped id, ∃ terminal, update.terminal = some terminal ∧
      terminal.wireReason = reason
  answered : bridge.scheduler.phase = .gone → bridge.scheduler.deferred = [] →
    bridge.received = bridge.scheduler.stream.length →
    ((bridge.sentFor id).filter fun output => output.finishReason.isSome).length = 1

/-- Records that say what their stretches of calls say do so together. -/
theorem factsOf_flatten {spans : List (List LedgerCall)} {updates : List RequestUpdate}
    (told : List.Forall₂ (fun span update => factsOf LedgerCall.facts span = update.facts) spans updates) :
    factsOf LedgerCall.facts spans.flatten = factsOf RequestUpdate.facts updates := by
  induction told with
  | nil => rfl
  | cons same _ ih => rw [List.flatten_cons, factsOf_append, factsOf_cons, same, ih]

/-- A cut of the second halves of some pairs is a cut of the pairs. -/
theorem cut_pairs {α β : Type} {entries : List (α × β)} {spans : List (List β)} {rest : List β}
    (cut : entries.map Prod.snd = spans.flatten ++ rest) :
    ∃ (groups : List (List (α × β))) (left : List (α × β)), entries = groups.flatten ++ left ∧
      groups.map (List.map Prod.snd) = spans ∧ left.map Prod.snd = rest := by
  induction spans generalizing entries with
  | nil => exact ⟨[], entries, rfl, rfl, cut⟩
  | cons span spans ih =>
    rw [List.flatten_cons, List.append_assoc] at cut
    obtain ⟨first, more, rfl, same, later⟩ := List.map_eq_append_iff.mp cut
    obtain ⟨groups, left, rfl, grouped, remaining⟩ := ih later
    exact ⟨first :: groups, left, by simp, by rw [List.map_cons, same, grouped], remaining⟩

/-- Records and the calls they tell of, paired up along a cut of the records. -/
theorem cut_calls {spans : List (List RequestUpdate)} {parked more : List RequestUpdate}
    {calls : List (List LedgerCall)}
    (told : List.Forall₂ (fun span update => factsOf LedgerCall.facts span = update.facts) calls
      (spans.flatten ++ parked ++ more)) :
    ∃ (groups : List (List (List LedgerCall × RequestUpdate))) (left : List (List LedgerCall × RequestUpdate))
      (rest : List (List LedgerCall)), calls = (groups.flatten ++ left).map Prod.fst ++ rest ∧
      groups.map (List.map Prod.snd) = spans ∧ left.map Prod.snd = parked ∧
      (∀ entry ∈ groups.flatten ++ left, factsOf LedgerCall.facts entry.1 = entry.2.facts) ∧
      List.Forall₂ (fun span update => factsOf LedgerCall.facts span = update.facts) rest more := by
  have first := List.forall₂_take_append calls _ _ told
  have later := List.forall₂_drop_append calls _ _ told
  obtain ⟨paired, same⟩ := List.forall₂_iff_zip.mp first
  generalize read : calls.take (spans.flatten ++ parked).length = early at first paired same
  have cut : (early.zip (spans.flatten ++ parked)).map Prod.snd = spans.flatten ++ parked :=
    List.map_snd_zip paired.ge
  obtain ⟨groups, left, joined, grouped, remaining⟩ := cut_pairs cut
  refine ⟨groups, left, calls.drop (spans.flatten ++ parked).length, ?_, grouped, remaining, ?_, later⟩
  · rw [← joined, List.map_fst_zip paired.le, ← read, List.take_append_drop]
  · rintro ⟨span, update⟩ member
    rw [← joined] at member
    exact same member

/-- What a life still has to tell is underway to the bridge. -/
theorem Engine.Represents.unshipped {engine : Engine} {id : RequestId} {life : Life}
    (represents : engine.Represents id life) :
    life.holder.unshipped =
      (engine.ledger.statement.record id).toList ++ engine.deferred.filter fun update => update.id = id := by
  rw [represents.record, represents.deferred]
  cases life.holder <;> simp [Holder.unshipped, Holder.buffered, Holder.handedOut]

/-- Once a terminal is on the stream, the request is answered. -/
theorem Life.Ok.answered_of_terminal {life : Life} (ok : life.Ok) (ended : ¬ Quiet life.shipped) :
    life.holder = .answered := by
  obtain ⟨holder, shipped⟩ := life
  have front : ∀ update, Closing (shipped ++ [update]) → Quiet shipped := by
    rintro update ⟨front, last, terminal, joined, quiet, _⟩
    obtain ⟨rfl, _⟩ := List.append_inj' joined rfl
    exact quiet
  cases holder with
  | unborn =>
    cases (show shipped = [] from ok)
    exact absurd (by simp [Quiet]) ended
  | envelope held =>
    cases (show shipped = [] from ok)
    exact absurd (by simp [Quiet]) ended
  | account held buffered => exact absurd (quiet_append.mp ok.1).1 ended
  | statement buffered => exact absurd (front _ ok.1) ended
  | deferred update => exact absurd (front _ ok.1) ended
  | answered => rfl
  | retired => exact absurd ok.1 ended

/-- The tokens of the outputs up to one that may finish the request. -/
theorem renders_tokens {stopSentinelId : Option Token} {spans : List (List LedgerCall)}
    {front : List EngineCoreOutput}
    {last : EngineCoreOutput}
    (rendered : List.Forall₂ (fun span => Renders stopSentinelId (factsOf LedgerCall.facts span))
      spans (front ++ [last]))
    (unfinished : ∀ output ∈ front, output.finishReason = none) :
    (front ++ [last]).flatMap EngineCoreOutput.newTokenIds =
      pushedTokens spans.flatten ++ sentinelFor stopSentinelId last.finishReason := by
  induction front generalizing spans with
  | nil =>
    cases rendered with
    | cons shows rest =>
      cases rest
      simp [shows.tokens, factsOf_pushedTokens]
  | cons output front ih =>
    cases rendered with
    | @cons span _ spans _ shows rest =>
      have more := ih rest fun other member => unfinished other (by simp [member])
      rw [List.cons_append, List.flatMap_cons, more, shows.tokens, unfinished output (by simp),
        factsOf_pushedTokens,
        List.flatten_cons]
      simp [sentinelFor, pushedTokens]

theorem factsOf_unscheduled {updates : List RequestUpdate}
    (none : ∀ update ∈ updates, update.scheduled = none) :
    (factsOf RequestUpdate.facts updates).admitted = false := by
  induction updates with
  | nil => rfl
  | cons update updates ih =>
    rw [factsOf_cons, Facts.then_, ih fun other member => none other (by simp [member])]
    simp [RequestUpdate.facts, none update (by simp)]

/-- Admission facts are in the first record, so in the first stretch, so on the
first output. -/
theorem Relay.admitted_first {requestId : String} {stopSentinelId : Option Token}
    {updates : List RequestUpdate}
    {state : Option SteppedStream} {outputs : List EngineCoreOutput}
    (relay : Relay requestId stopSentinelId updates state outputs) (ordered : Ordered updates) :
    ∀ output ∈ outputs.tail, output.events = none ∧ output.prefillStats = none := by
  obtain ⟨spans, rest, cut, filled, _, rendered, _, _⟩ := relay.cut
  cases rendered with
  | nil => simp
  | @cons span first spans outputs _ rendered =>
    have unscheduled : ∀ update ∈ spans.flatten, update.scheduled = none := by
      intro update member
      obtain ⟨before, after, split⟩ := List.append_of_mem member
      by_contra scheduled
      have opening := (ordered (span ++ before) update (after ++ rest) (by simp [cut, split])).2
        (Option.isSome_iff_ne_none.mpr scheduled)
      exact (filled span (by simp)).ne_nil (List.append_eq_nil_iff.mp opening).1
    clear cut filled relay
    induction rendered with
    | nil => simp
    | @cons span output spans outputs shows _ ih =>
      rw [List.tail_cons, List.forall_mem_cons]
      refine ⟨?_, ih fun update member => unscheduled update (by simp [member])⟩
      have plain := factsOf_unscheduled fun update member => unscheduled update
        (List.mem_flatten.mpr ⟨span, by simp, member⟩)
      have events := shows.events
      have stats := shows.prefillStats
      rw [plain] at events stats
      exact ⟨Option.isSome_eq_false_iff.mp events |> Option.isNone_iff_eq_none.mp,
        Option.isSome_eq_false_iff.mp stats |> Option.isNone_iff_eq_none.mp⟩

/-- The outputs of an ended request: one finish reason, on the last of them. -/
theorem Relay.finish {requestId : String} {stopSentinelId : Option Token} {updates : List RequestUpdate}
    {state : Option SteppedStream} {outputs : List EngineCoreOutput}
    (relay : Relay requestId stopSentinelId updates state outputs) {output : EngineCoreOutput}
    (member : output ∈ outputs)
    (finishes : output.finishReason.isSome = true) :
    state = none ∧ ∃ front, outputs = front ++ [output] ∧ ∀ other ∈ front, other.finishReason = none := by
  by_cases running : state = none
  · obtain ⟨front, last, _, _, _, rfl, unfinished, _⟩ := relay.ended running
    refine ⟨running, front, ?_, unfinished⟩
    rcases List.mem_append.mp member with inside | final
    · rw [unfinished output inside] at finishes
      cases finishes
    · rw [List.mem_singleton.mp final]
  · rw [(relay.running running).1 output member] at finishes
    cases finishes

/-- The output that finishes a request is the last one, sent on the record that ends it. -/
theorem Relay.closing {requestId : String} {stopSentinelId : Option Token}
    {updates later : List RequestUpdate} {state : Option SteppedStream} {outputs : List EngineCoreOutput}
    (relay : Relay requestId stopSentinelId updates state outputs) (ordered : Ordered (updates ++ later))
    {output : EngineCoreOutput} (member : output ∈ outputs) (finishes : output.finishReason.isSome = true) :
    state = none ∧ later = [] ∧ ∃ front update terminal, outputs = front ++ [output] ∧
      (∀ other ∈ front, other.finishReason = none) ∧ update ∈ updates ∧
      update.terminal = some terminal ∧ output.finishReason = some terminal.wireReason := by
  obtain ⟨closed, front, sent, unfinished⟩ := relay.finish member finishes
  obtain ⟨_, last, before, update, terminal, joined, _, ends, terminated, rendering⟩ := relay.ended closed
  have final : last = output := by
    rw [sent] at joined
    exact (List.singleton_inj.mp (List.append_inj' joined rfl).2).symm
  refine ⟨closed, ?_, front, update, terminal, sent, unfinished, by simp [ends],
    terminated, final ▸ rendering⟩
  rw [ends] at ordered
  exact (ordered before update later (by simp)).1 (by simp [terminated])

theorem Relay.finish_last {requestId : String} {stopSentinelId : Option Token} {updates : List RequestUpdate}
    {state : Option SteppedStream} {before after : List EngineCoreOutput} {output : EngineCoreOutput}
    (relay : Relay requestId stopSentinelId updates state (before ++ output :: after))
    (finishes : output.finishReason.isSome = true) : after = [] := by
  obtain ⟨_, front, joined, unfinished⟩ := relay.finish (by simp) finishes
  rcases List.eq_nil_or_concat after with empty | ⟨after', last, rfl⟩
  · exact empty
  · rw [List.concat_eq_append, ← List.cons_append, ← List.append_assoc] at joined
    obtain ⟨same, _⟩ := List.append_inj' joined rfl
    rw [unfinished output (by simp [← same])] at finishes
    cases finishes

/-- A request whose records end it gets one finish reason. -/
theorem Relay.one_finish {requestId : String} {stopSentinelId : Option Token} {updates : List RequestUpdate}
    {state : Option SteppedStream} {outputs : List EngineCoreOutput}
    (relay : Relay requestId stopSentinelId updates state outputs) (closing : Closing updates) :
    (outputs.filter fun output => output.finishReason.isSome).length = 1 := by
  have closed : state = none := by
    by_contra running
    have one := closing.terminal_count
    rw [(relay.running running).2.terminal_count] at one
    cases one
  obtain ⟨front, last, _, _, terminal, joined, unfinished, _, _, finish⟩ := relay.ended closed
  have empty : front.filter (fun output => output.finishReason.isSome) = [] := by
    rw [List.filter_eq_nil_iff]
    exact fun output member => by simp [unfinished output member]
  rw [joined, List.filter_append, empty]
  simp [finish]

/-- Grouped with the calls they tell of, the records of an output say what the calls say. -/
theorem renders_calls {stopSentinelId : Option Token} {spans : List (List (List LedgerCall × RequestUpdate))}
    {outputs : List EngineCoreOutput}
    (told : ∀ span ∈ spans, ∀ entry ∈ span, factsOf LedgerCall.facts entry.1 = entry.2.facts)
    (rendered : List.Forall₂ (fun span => Renders stopSentinelId (factsOf RequestUpdate.facts span))
      (spans.map (List.map Prod.snd)) outputs) :
    List.Forall₂ (fun span => Renders stopSentinelId (factsOf LedgerCall.facts (span.map Prod.fst).flatten))
      spans outputs := by
  induction spans generalizing outputs with
  | nil =>
    cases rendered
    exact .nil
  | cons span spans ih =>
    cases rendered with
    | cons shows rest =>
      have same : factsOf LedgerCall.facts (span.map Prod.fst).flatten =
          factsOf RequestUpdate.facts (span.map Prod.snd) := by
        refine factsOf_flatten ?_
        rw [List.forall₂_map_left_iff, List.forall₂_map_right_iff, List.forall₂_same]
        exact told span List.mem_cons_self
      exact .cons (same ▸ shows) (ih (fun other member => told other (List.mem_cons_of_mem _ member)) rest)

/-- Every output is true to the ledger, for a request that is not aborted. -/
theorem SteppedEngineBridge.Ok.faithful {bridge : SteppedEngineBridge} (ok : bridge.Ok) {id : RequestId}
    {requestId : String} {stopSentinelId : Option Token}
    (opened : bridge.opened id = some (requestId, stopSentinelId))
    (known : id < bridge.scheduler.nextId) (lowered : bridge.scheduler.aborted id = false) :
    Faithful bridge id requestId stopSentinelId := by
  obtain ⟨_, _, same, relay⟩ := ok.relay id known
  rw [opened, Option.some.injEq, Prod.mk.injEq] at same
  obtain ⟨rfl, rfl⟩ := same
  have relay := relay lowered
  obtain ⟨life, represents, fine, spansOf, unshipped, callsCut, told, held, done⟩ := ok.lives id
  have shipped := bridge.shipped_eq id
  have still := represents.unshipped
  have unretired : id ∉ bridge.scheduler.retired := fun member => by
    rw [ok.retired id member] at lowered
    cases lowered
  have running : life.holder ≠ .retired := fun retired => unretired (represents.retired.mpr retired)
  have underway : bridge.underway id =
    ((bridge.scheduler.stream.drop bridge.received).flatMap StepOutputs.updates).filter
      (fun update => update.id = id) ++ life.holder.unshipped := by
    rw [still]
    rfl
  generalize ((bridge.scheduler.stream.drop bridge.received).flatMap StepOutputs.updates).filter
    (fun update => update.id = id) = later at shipped underway
  have ordered : Ordered (bridge.dispatchedFor id ++ later) := shipped ▸ ok.ordered id
  obtain ⟨recordSpans, waiting, cut, filled, waits, rendered, _, none⟩ := relay.cut
  rw [← represents.shipped, shipped, cut] at told
  obtain ⟨spans, parked, rest, joined, rfl, rfl, same, left⟩ := cut_calls told
  have shown := renders_calls (fun span member entry inside =>
    same entry (List.mem_append_left _ (List.mem_flatten.mpr ⟨span, member, inside⟩))) rendered
  have ended : ∀ output ∈ bridge.sentFor id, output.finishReason.isSome = true →
      parked = [] ∧ rest = [] ∧ unshipped = [] := by
    intro output member finishes
    obtain ⟨closed, nothing, _, update, terminal, _, _, inside, terminated, _⟩ :=
      relay.closing ordered member finishes
    have answered : life.holder = .answered := by
      refine fine.answered_of_terminal fun quiet => ?_
      rw [quiet update (by rw [← represents.shipped, shipped]; exact List.mem_append_left _ inside)]
        at terminated
      cases terminated
    rw [nothing] at left
    cases left
    exact ⟨List.map_eq_nil_iff.mp (none closed), rfl, done answered⟩
  refine ⟨relay.named, ⟨spans, parked, rest.flatten ++ unshipped, ?_⟩,
    relay.admitted_first ordered.of_append, ?_, ?_, ?_⟩
  · refine ⟨?_, ?_, same, fun span member => filled _ (List.mem_map_of_mem member),
      fun entry member => waits _ (List.mem_map_of_mem member), shown, ?_, fun output member finishes => ?_⟩
    · rw [cut, List.map_append, List.map_flatten]
    · rw [callsCut, joined, List.flatten_append, List.append_assoc]
    · rw [factsOf_append, factsOf_flatten left, held running, underway, factsOf_append]
    · obtain ⟨empty, read, sent⟩ := ended output member finishes
      rw [read, sent]
      exact ⟨empty, rfl⟩
  · intro before output after split finishes
    exact Relay.finish_last (split ▸ relay) finishes
  · intro output member reason finish
    obtain ⟨empty, read, sent⟩ := ended output member (by simp [finish])
    obtain ⟨_, _, front, update, terminal, outputs, unfinished, inside, terminated, rendering⟩ :=
      relay.closing ordered member (by simp [finish])
    have groups := (@List.forall₂_map_left_iff _ _ _ (fun span =>
      Renders stopSentinelId (factsOf LedgerCall.facts span))
      (fun span : List (List LedgerCall × RequestUpdate) => (span.map Prod.fst).flatten) _ _).mpr shown
    rw [outputs] at groups
    refine ⟨?_, update, by rw [shipped]; exact List.mem_append_left _ inside, terminal, terminated, ?_⟩
    · have flat : (spans.map fun span => (span.map Prod.fst).flatten).flatten = callsOf bridge.calls id := by
        rw [callsCut, joined, empty, read, sent, List.append_nil, List.append_nil, List.append_nil,
          List.map_flatten, List.flatten_flatten, List.map_map]
        rfl
      rw [outputs, renders_tokens groups unfinished, flat, finish]
    · rw [finish] at rendering
      exact (Option.some.inj rendering).symm
  · intro gone settled drained
    have answered := ok.reach.answered represents gone settled known unretired
    have everything : bridge.dispatchedFor id = life.shipped := by
      rw [← represents.shipped, SteppedEngineBridge.dispatchedFor, drained, List.take_length]
      rfl
    refine relay.one_finish ?_
    rw [everything]
    obtain ⟨holder, out⟩ := life
    simp only at answered
    subst answered
    exact fine.1

/-- Ledger-to-wire fidelity of the stepped bridge. Names and streams are inverse
throughout; a batch lists exactly the requests it has finish reasons for, and
never two requests of one name; a request refused on arrival gets one output,
without tokens. What the wire shows of every other request is true to the
ledger until its abort is handled, and from then on nothing is sent for it. -/
theorem BridgeReach.wire_fidelity {unix : Instant → UnixSeconds} {bridge : SteppedEngineBridge}
    (reach : BridgeReach unix bridge) :
    Inverse bridge.names bridge.streams ∧
    (∀ batch ∈ bridge.sent, ListsFinished batch.outputs (batch.finishedRequests.getD ∅) ∧
      (∀ first ∈ batch.outputs, ∀ second ∈ batch.outputs,
        first.2.requestId = second.2.requestId → first.1 = second.1) ∧
      ∀ entry ∈ batch.outputs, entry.1 = none →
        batch.outputs = [entry] ∧ entry.2.newTokenIds = [] ∧ entry.2.finishReason = some .error) ∧
    ∀ id < bridge.scheduler.nextId, ∃ requestId stopSentinelId, bridge.opened id =
      some (requestId, stopSentinelId) ∧
      (bridge.scheduler.aborted id = false → Faithful bridge id requestId stopSentinelId) ∧
      (bridge.scheduler.aborted id = true → ∀ later, ReflTransGen (BridgeStep unix) bridge later →
        later.sentFor id = bridge.sentFor id) := by
  have ok := reach.ok
  refine ⟨ok.inverse, fun batch member => ⟨ok.finished batch member, ok.distinct batch member,
    ok.refused batch member⟩,
    fun id known => ?_⟩
  obtain ⟨requestId, stopSentinelId, opened, _⟩ := ok.relay id known
  exact ⟨requestId, stopSentinelId, opened, ok.faithful opened known,
    fun aborted later steps => BridgeStep.run_aborted_silent steps ok aborted⟩

/-- A request that is admitted in one step, gets its hand-off metadata in the
next, pushes a token in the third and stops in the fourth. The metadata waits
for the token's output and is not sent again. -/
theorem BridgeReach.wire_fidelity_handoff :
    ∃ bridge, BridgeReach UInt64.ofNat bridge ∧
      (bridge.sentFor 0).map (fun output =>
        (output.newTokenIds, output.kvTransferParams, output.finishReason)) =
        [([7], some "a", none), ([1], none, some .stop)] ∧
      Faithful bridge 0 "r" (some 1) := by
  let request : EngineCoreRequest := ⟨"r", some [3], some ⟨some 1, [], none, .ok none⟩⟩
  have added := (@BridgeReach.start UInt64.ofNat).next (.add request 5 rfl)
  have registered := added.next (.scheduler (.register rfl rfl rfl))
  have stepping := registered.next (.scheduler (.step rfl rfl))
  have admitted := stepping.next (.scheduler (.call (.admitRequest 0 6) rfl rfl (by simp)))
  have scheduled := ((admitted.next (.scheduler (.commit rfl))).next (.dispatch rfl)).next
    (.scheduler (.step rfl rfl))
  have handed := scheduled.next (.scheduler (.call (.kvTransfer 0 "a") rfl rfl (by simp)))
  have waiting := ((handed.next (.scheduler (.commit rfl))).next (.dispatch rfl)).next
    (.scheduler (.step rfl rfl))
  have pushed := waiting.next (.scheduler (.call (.pushTokens 0 [7] []) rfl rfl (by simp)))
  have shipped := ((pushed.next (.scheduler (.commit rfl))).next (.dispatch rfl)).next
    (.scheduler (.step rfl rfl))
  have finished := shipped.next (.scheduler (.call (.finish 0 .stop) rfl rfl (by simp)))
  have done := (finished.next (.scheduler (.commit rfl))).next (.dispatch rfl)
  have facts : ∃ bridge, BridgeReach UInt64.ofNat bridge ∧ bridge.scheduler.nextId = 1 ∧
      bridge.scheduler.aborted 0 = false ∧ bridge.opened 0 = some ("r", some 1) ∧
      (bridge.sentFor 0).map (fun output =>
        (output.newTokenIds, output.kvTransferParams, output.finishReason)) =
        [([7], some "a", none), ([1], none, some .stop)] :=
    ⟨_, done, by decide +kernel, by decide +kernel, by decide +kernel, by decide +kernel⟩
  obtain ⟨bridge, reach, minted, lowered, named, sent⟩ := facts
  obtain ⟨requestId, stopSentinelId, opened, faithful, _⟩ := reach.wire_fidelity.2.2 0 (minted ▸ Nat.one_pos)
  rw [named, Option.some.injEq, Prod.mk.injEq] at opened
  obtain ⟨rfl, rfl⟩ := opened
  exact ⟨bridge, reach, sent, faithful lowered⟩

end PegaInfer.Frontend
