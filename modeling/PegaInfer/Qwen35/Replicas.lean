import PegaInfer.Qwen35.TpExecutor

namespace PegaInfer.Qwen35

variable {P L : Type}

theorem exactRanks_ok {worldSize : Nat} {seen : List Nat} {responses : List (TpWorkerResponse L)}
    {replies : List (Nat × TpWorkerReply L)} (exact_ : exactRanks worldSize seen responses = .ok replies) :
    (∀ entry ∈ replies, ∃ response ∈ responses, response.rank = entry.1 ∧ response.result = .ok entry.2) ∧
    (∀ rank < worldSize, rank ∈ seen ∨ ∃ response ∈ responses, response.rank = rank ∧
      ∃ reply, response.result = .ok reply) := by
  induction responses generalizing seen replies with
  | nil =>
    unfold exactRanks at exact_
    split at exact_
    · rename_i complete
      cases exact_
      refine ⟨by simp, fun rank below => .inl ?_⟩
      have member := List.all_eq_true.mp complete rank (List.mem_range.mpr below)
      simpa using member
    · cases exact_
  | cons response responses ih =>
    unfold exactRanks at exact_
    split at exact_
    · cases exact_
    split at exact_
    · cases exact_
    split at exact_
    · cases exact_
    rename_i reply replied
    generalize rest : exactRanks worldSize (response.rank :: seen) responses = later at exact_
    cases later with
    | error error => cases exact_
    | ok entries =>
      cases exact_
      obtain ⟨given, complete⟩ := ih rest
      constructor
      · intro entry member
        rcases List.mem_cons.mp member with rfl | old
        · exact ⟨response, List.mem_cons_self, rfl, replied⟩
        · obtain ⟨other, inside, same⟩ := given entry old
          exact ⟨other, List.mem_cons_of_mem _ inside, same⟩
      · intro rank below
        rcases complete rank below with early | ⟨other, inside, same⟩
        · rcases List.mem_cons.mp early with rfl | old
          · exact .inr ⟨response, List.mem_cons_self, rfl, reply, replied⟩
          · exact .inl old
        · exact .inr ⟨other, List.mem_cons_of_mem _ inside, same⟩

theorem validateExactRankResponses_ok {worldSize : Nat} {responses : List (TpWorkerResponse L)}
    {replies : List (Nat × TpWorkerReply L)}
    (valid : validateExactRankResponses responses worldSize = .ok replies) :
    (∀ entry ∈ replies, ∃ response ∈ responses, response.rank = entry.1 ∧ response.result = .ok entry.2) ∧
    (∀ rank < worldSize, ∃ response ∈ responses, response.rank = rank ∧
      ∃ reply, response.result = .ok reply) := by
  unfold validateExactRankResponses at valid
  split at valid
  · cases valid
  generalize ranks : exactRanks worldSize [] responses = outcome at valid
  cases outcome with
  | error error => cases valid
  | ok entries =>
    cases valid
    obtain ⟨given, complete⟩ := exactRanks_ok ranks
    refine ⟨fun entry member => given entry (List.mem_mergeSort.mp member), fun rank below => ?_⟩
    rcases complete rank below with none_ | answered
    · cases none_
    · exact answered

theorem primaryReply_ok {picks : TpWorkerReply L → Bool} {found : Option (TpWorkerReply L)}
    {replies : List (Nat × TpWorkerReply L)} {reply : TpWorkerReply L}
    (valid : primaryReply picks found replies = .ok reply) :
    found = some reply ∨ (0, reply) ∈ replies ∧ picks reply = true := by
  induction replies generalizing found with
  | nil =>
    unfold primaryReply at valid
    split at valid
    · cases valid
      exact .inl rfl
    · cases valid
  | cons entry replies ih =>
    obtain ⟨rank, other⟩ := entry
    unfold primaryReply at valid
    split at valid
    · rename_i zero
      subst zero
      split at valid
      · rename_i picked
        rcases ih valid with same | ⟨member, later⟩
        · cases same
          exact .inr ⟨List.mem_cons_self, picked⟩
        · exact .inr ⟨List.mem_cons_of_mem _ member, later⟩
      · cases valid
    · split at valid
      · rcases ih valid with same | ⟨member, later⟩
        · exact .inl same
        · exact .inr ⟨List.mem_cons_of_mem _ member, later⟩
      · cases valid

/-- A call that accepts its responses has one good response of every rank, and returns
what rank 0 sent. -/
theorem TpCall.validateResponses_ok {worldSize : Nat}
    {responses : List (TpWorkerResponse L)} {call : TpCall P}
    {answer : Option (TpWorkerReply L)} (valid : call.validateResponses responses worldSize = .ok answer) :
    (∀ rank < worldSize, ∃ response ∈ responses, response.rank = rank ∧
      ∃ reply, response.result = .ok reply) ∧
    (∀ reply, answer = some reply → call.command.expects 0 reply = true ∧
      ∃ response ∈ responses, response.rank = 0 ∧ response.result = .ok reply) := by
  unfold TpCall.validateResponses at valid
  generalize ranks : validateExactRankResponses responses worldSize = outcome at valid
  cases outcome with
  | error error => cases valid
  | ok replies =>
    obtain ⟨given, complete⟩ := validateExactRankResponses_ok ranks
    refine ⟨complete, fun reply isReply => ?_⟩
    subst isReply
    have picked : primaryReply (call.command.expects 0) none replies = .ok reply := by
      cases call with
      | dropRequest id expectation =>
        simp only [bind, Except.bind] at valid
        split at valid
        · cases valid
        · split at valid <;> cases valid
      | executePrefillChunks chunks sampleSeed | executeDecodeItems requests sampleSeed
      | executeUnified plan =>
        simp only [bind, Except.bind] at valid
        split at valid
        · cases valid
        · rename_i picked
          cases valid
          exact picked
    rcases primaryReply_ok picked with nothing | ⟨member, expected⟩
    · cases nothing
    · obtain ⟨response, inside, zero, same⟩ := given _ member
      exact ⟨expected, response, inside, zero, same⟩

/-- The call got as far as a dispatch and returned an error. -/
def ReturnedCall.Failed (returned : ReturnedCall P L) : Prop :=
  returned.dispatch.isSome = true ∧ ∃ error, returned.outcome = .error error

/-- The command of a call that returned Ok, with its dispatch. -/
def ReturnedCall.succeeded (returned : ReturnedCall P L) : Option (Nat × TpCommand P) :=
  match returned.dispatch, returned.outcome with
  | some dispatch, .ok _ => some (dispatch, returned.call.command)
  | _, _ => none

/-- The states after a list of commands that all succeeded. -/
def replay (commands : List (Nat × TpCommand P)) : List TpRequestState :=
  commands.foldl (fun requests entry => entry.2.effect requests) []

theorem replay_append (commands : List (Nat × TpCommand P)) (dispatch : Nat) (command : TpCommand P) :
    replay (commands ++ [(dispatch, command)]) = command.effect (replay commands) := by
  simp [replay]

namespace TpWorker

/-- The rank has run these commands and no other. -/
def HasRun (worker : TpWorker P L) (commands : List (Nat × TpCommand P)) : Prop :=
  worker.executed = commands ∧ worker.requests = replay commands

def Quiet (worker : TpWorker P L) : Prop :=
  worker.alive = true → worker.inbox = [] ∧ worker.stage = .idle

/-- The rank has one command before it. -/
def Waits (worker : TpWorker P L) (dispatch : Nat) (command : TpCommand P) : Prop :=
  worker.alive = true → worker.inbox = [(dispatch, command)] ∧ worker.stage = .idle ∨
    worker.inbox = [] ∧ worker.stage = .atGate dispatch command

/-- No good response of the rank is among these. -/
def Silent (rank : Nat) (messages : List (TpWorkerResponse L)) : Prop :=
  ∀ message ∈ messages, message.rank = rank → ∀ reply, message.result ≠ .ok reply

/-- A reply worth returning: it is the one the rank owes and has a row for each request
of the plan. -/
def Owes (rank : Nat) (command : TpCommand P) (reply : TpWorkerReply L) : Prop :=
  command.expects rank reply = true ∧ (rank = 0 → reply.rowIds = command.rowIds)

/-- How far a rank is with the command whose gate is open, and what can have arrived
from it. -/
inductive Progress (worker : TpWorker P L) (rank : Nat) (commands : List (Nat × TpCommand P)) (dispatch : Nat)
    (command : TpCommand P) (messages : List (TpWorkerResponse L)) : Prop
  | waits : worker.HasRun commands → worker.Waits dispatch command → Silent rank messages →
      Progress worker rank commands dispatch command messages
  | ran (result : Except TpError (TpWorkerReply L)) : worker.alive = true → worker.inbox = [] →
      worker.stage = .responding dispatch command result →
      (∀ reply, result = .ok reply → worker.HasRun (commands ++ [(dispatch, command)]) ∧
        Owes rank command reply) →
      Silent rank messages → Progress worker rank commands dispatch command messages
  | answered (reply : TpWorkerReply L) : worker.HasRun (commands ++ [(dispatch, command)]) → worker.Quiet →
      (dispatch, reply) ∈ worker.produced → Owes rank command reply →
      (∀ message ∈ messages, message.rank = rank → ∀ other, message.result = .ok other →
        other = reply ∨ command.expects rank other = false) →
      Progress worker rank commands dispatch command messages
  | dead : worker.alive = false → Silent rank messages →
      Progress worker rank commands dispatch command messages

theorem Progress.silent_or_answered {worker : TpWorker P L} {rank dispatch : Nat}
    {commands : List (Nat × TpCommand P)}
    {command : TpCommand P} {messages : List (TpWorkerResponse L)}
    (progress : worker.Progress rank commands dispatch command messages) :
    Silent rank messages ∨ worker.HasRun (commands ++ [(dispatch, command)]) ∧ worker.Quiet ∧
      ∃ reply, (dispatch, reply) ∈ worker.produced ∧ Owes rank command reply ∧
        ∀ message ∈ messages, message.rank = rank → ∀ other, message.result = .ok other →
          other = reply ∨ command.expects rank other = false := by
  cases progress with
  | waits _ _ silent => exact .inl silent
  | ran _ _ _ _ _ silent => exact .inl silent
  | answered reply ran quiet made owes arrived => exact .inr ⟨ran, quiet, reply, made, owes, arrived⟩
  | dead _ silent => exact .inl silent

/-- What a rank can be at depends on its own messages only. -/
theorem Progress.mono {worker : TpWorker P L} {rank dispatch : Nat} {commands : List (Nat × TpCommand P)}
    {command : TpCommand P} {messages others : List (TpWorkerResponse L)}
    (progress : worker.Progress rank commands dispatch command messages)
    (fewer : ∀ message ∈ others, message.rank = rank → message ∈ messages) :
    worker.Progress rank commands dispatch command others := by
  cases progress with
  | waits ran waits silent =>
    exact .waits ran waits fun message member same => silent message (fewer message member same) same
  | ran result alive inbox stage ok silent =>
    exact .ran result alive inbox stage ok fun message member same =>
      silent message (fewer message member same) same
  | answered reply ran quiet made owes arrived =>
    exact .answered reply ran quiet made owes fun message member same =>
      arrived message (fewer message member same) same
  | dead gone silent =>
    exact .dead gone fun message member same => silent message (fewer message member same) same

end TpWorker

namespace TpExecutor

/-- The commands of the calls that returned Ok, in order. -/
def agreed (executor : TpExecutor P L) : List (Nat × TpCommand P) :=
  executor.history.filterMap ReturnedCall.succeeded

def Healthy (executor : TpExecutor P L) : Prop := ∀ returned ∈ executor.history, ¬ returned.Failed

/-- How the ranks stand to each other while no call has failed. -/
structure Agrees (executor : TpExecutor P L) : Prop where
  idle : executor.underway = none → ∀ rank < executor.worldSize,
    (executor.workers rank).HasRun executor.agreed ∧ (executor.workers rank).Quiet
  sending : ∀ current, executor.underway = some current → ∀ reached, current.stage = .sending reached →
    executor.gates current.dispatch = .pending ∧ executor.channels current.dispatch = [] ∧
    ∀ rank < executor.worldSize, (executor.workers rank).HasRun executor.agreed ∧
      (rank < reached → (executor.workers rank).Waits current.dispatch current.call.command) ∧
      (reached ≤ rank → (executor.workers rank).Quiet)
  collecting : ∀ current, executor.underway = some current →
    ∀ collected, current.stage = .collecting collected →
    executor.gates current.dispatch = .execute ∧
    ∀ rank < executor.worldSize, (executor.workers rank).Progress rank executor.agreed current.dispatch
      current.call.command (executor.channels current.dispatch ++ collected)

/-- What the gates, the poison and the answered calls keep in every state. -/
structure Recorded (executor : TpExecutor P L) : Prop where
  fresh : ∀ dispatch, executor.dispatches ≤ dispatch → executor.gates dispatch = .pending
  begun : ∀ current, executor.underway = some current → current.dispatch < executor.dispatches
  opened : ∀ rank dispatch command, (dispatch, command) ∈ (executor.workers rank).executed →
    executor.gates dispatch = .execute
  poisoned : ¬ executor.Healthy → executor.poison.isSome = true
  over_ : ¬ executor.Healthy → executor.underway = none
  order : executor.history.Pairwise fun early late =>
    early.Failed → late.dispatch = none ∧ ∃ error, late.outcome = .error error
  rows : ∀ returned ∈ executor.history, ∀ answer, returned.outcome = .ok answer →
    ∃ dispatch, returned.dispatch = some dispatch ∧ ∀ reply, answer = some reply →
      (dispatch, reply) ∈ (executor.workers 0).produced ∧ reply.rowIds = returned.call.command.rowIds

structure Sound (executor : TpExecutor P L) : Prop extends Recorded executor where
  agrees : executor.Healthy → executor.Agrees

variable {executor : TpExecutor P L}

theorem Sound.new (worldSize maxBatch : Nat) :
    (TpExecutor.new worldSize maxBatch : TpExecutor P L).Sound where
  fresh := fun _ _ => rfl
  begun := by intro current is; cases is
  opened := by intro rank dispatch command member; cases member
  poisoned := by
    intro unhealthy
    exact absurd (fun returned member => nomatch member) unhealthy
  over_ := fun _ => rfl
  order := List.Pairwise.nil
  rows := by intro returned member; cases member
  agrees := by
    intro _
    refine ⟨fun _ rank _ => ⟨⟨rfl, rfl⟩, fun _ => ⟨rfl, rfl⟩⟩, ?_, ?_⟩
    · intro current is
      cases is
    · intro current is
      cases is

theorem Recorded.healthy (recorded : executor.Recorded) {current : CallUnderway P L}
    (is : executor.underway = some current) :
    executor.Healthy := by
  by_contra unhealthy
  have none_ := recorded.over_ unhealthy
  rw [is] at none_
  cases none_

theorem agreed_return (call : TpCall P) (dispatch : Option Nat)
    (outcome : Except TpError (Option (TpWorkerReply L))) :
    (executor.return_ call dispatch outcome).agreed =
      executor.agreed ++ (ReturnedCall.succeeded { call, dispatch, outcome }).toList := by
  simp only [agreed, return_, List.filterMap_append, List.filterMap_cons, List.filterMap_nil]
  cases ReturnedCall.succeeded { call, dispatch, outcome } <;> rfl

/-- A call that returns before it dispatched changes nothing but the history. -/
theorem Sound.returnEarly (sound : executor.Sound) (idle : executor.underway = none)
    (call : TpCall P) (error : TpError) :
    (executor.return_ call none (.error error)).Sound := by
  have unfailed : ¬ ReturnedCall.Failed
      { call, dispatch := none, outcome := (.error error : Except TpError (Option (TpWorkerReply L))) } := by
    rintro ⟨dispatched, -⟩
    cases dispatched
  have same : (executor.return_ call none (.error error)).Healthy ↔ executor.Healthy := by
    constructor
    · intro healthy returned member
      exact healthy returned (List.mem_append_left _ member)
    · intro healthy returned member
      rcases List.mem_append.mp member with old | new
      · exact healthy returned old
      · rw [List.mem_singleton.mp new]
        exact unfailed
  refine ⟨⟨sound.fresh, ?_, sound.opened, ?_, fun _ => rfl, ?_, ?_⟩, ?_⟩
  · intro current is
    cases is
  · intro unhealthy
    exact sound.poisoned fun healthy => unhealthy (same.mpr healthy)
  · refine List.pairwise_append.mpr ⟨sound.order, List.pairwise_singleton _ _, ?_⟩
    intro early _ late member _
    rw [List.mem_singleton.mp member]
    exact ⟨rfl, error, rfl⟩
  · intro returned member answer isOk
    rcases List.mem_append.mp member with old | new
    · exact sound.rows returned old answer isOk
    · rw [List.mem_singleton.mp new] at isOk
      cases isOk
  · intro healthy
    have agrees := sound.agrees (same.mp healthy)
    have sameAgreed : (executor.return_ call none (.error error)).agreed = executor.agreed := by
      rw [agreed_return]
      exact List.append_nil _
    refine ⟨fun _ rank below => ?_, ?_, ?_⟩
    · rw [sameAgreed]
      exact agrees.idle idle rank below
    · intro current is
      cases is
    · intro current is
      cases is

/-- A call that fails once it has dispatched leaves the executor poisoned. -/
theorem Recorded.failWith (recorded : executor.Recorded) {current : CallUnderway P L}
    (is : executor.underway = some current) (reason : TpError) :
    (executor.failWith current reason).Sound := by
  have healthy := recorded.healthy is
  have failed : ¬ (executor.failWith current reason).Healthy := by
    intro next
    exact next _ (List.mem_append_right _ (List.mem_singleton_self _)) ⟨rfl, _, rfl⟩
  refine ⟨⟨recorded.fresh, ?_, recorded.opened, fun _ => rfl, fun _ => rfl, ?_, ?_⟩,
    fun next => absurd next failed⟩
  · intro other none_
    cases none_
  · refine List.pairwise_append.mpr ⟨recorded.order, List.pairwise_singleton _ _, ?_⟩
    intro early member late _ earlyFailed
    exact absurd earlyFailed (healthy early member)
  · intro returned member answer isOk
    rcases List.mem_append.mp member with old | new
    · exact recorded.rows returned old answer isOk
    · rw [List.mem_singleton.mp new] at isOk
      cases isOk

theorem Sound.beginDispatch (sound : executor.Sound) (idle : executor.underway = none)
    (clean : executor.poison = none)
    (call : TpCall P) : (executor.beginDispatch call).Sound := by
  have healthy : executor.Healthy := by
    by_contra unhealthy
    have poisoned := sound.poisoned unhealthy
    rw [clean] at poisoned
    cases poisoned
  have agrees := sound.agrees healthy
  refine ⟨⟨?_, ?_, ?_, fun unhealthy => absurd healthy unhealthy,
    fun unhealthy => absurd healthy unhealthy, sound.order,
    sound.rows⟩, fun _ => ⟨?_, ?_, ?_⟩⟩
  · intro dispatch later
    by_cases same : dispatch = executor.dispatches
    · subst same
      exact Function.update_self _ _ _
    · rw [TpExecutor.beginDispatch]
      dsimp only
      rw [Function.update_of_ne same]
      exact sound.fresh dispatch (Nat.le_of_succ_le later)
  · intro current is
    cases is
    exact Nat.lt_succ_self _
  · intro rank dispatch command member
    have open_ := sound.opened rank dispatch command member
    have different : dispatch ≠ executor.dispatches := by
      rintro rfl
      rw [sound.fresh _ le_rfl] at open_
      cases open_
    exact (Function.update_of_ne different _ _).trans open_
  · intro none_
    cases none_
  · intro current is reached stage
    cases is
    cases stage
    refine ⟨Function.update_self _ _ _, Function.update_self _ _ _, fun rank below => ?_⟩
    obtain ⟨ran, quiet⟩ := agrees.idle idle rank below
    exact ⟨ran, fun early => absurd early (Nat.not_lt_zero _), fun _ => quiet⟩
  · intro current is collected stage
    cases is
    cases stage

theorem Sound.send (sound : executor.Sound) {current : CallUnderway P L} {rank : Nat}
    (is : executor.underway = some current)
    (stage : current.stage = .sending rank) (below : rank < executor.worldSize)
    (alive : (executor.workers rank).alive = true) :
    ((executor.setWorker rank
      { executor.workers rank with
        inbox := (executor.workers rank).inbox ++
          [(current.dispatch, current.call.command)] }).setStage current
      (.sending (rank + 1))).Sound := by
  have healthy := sound.healthy is
  obtain ⟨pending, empty, ranks⟩ := (sound.agrees healthy).sending current is rank stage
  refine ⟨⟨sound.fresh, ?_, ?_, fun unhealthy => absurd healthy unhealthy,
    fun unhealthy => absurd healthy unhealthy,
    sound.order, ?_⟩, fun _ => ⟨?_, ?_, ?_⟩⟩
  · intro other is'
    cases is'
    exact sound.begun current is
  · intro other dispatch command member
    by_cases same : other = rank
    · subst same
      exact sound.opened other dispatch command
        (by simpa [TpExecutor.setWorker, TpExecutor.setStage] using member)
    · exact sound.opened other dispatch command
        (by simpa [TpExecutor.setWorker, TpExecutor.setStage, Function.update_of_ne same] using member)
  · intro returned member answer isOk
    obtain ⟨dispatch, has, rows⟩ := sound.rows returned member answer isOk
    refine ⟨dispatch, has, fun reply isReply => ?_⟩
    obtain ⟨made, ids⟩ := rows reply isReply
    refine ⟨?_, ids⟩
    by_cases same : 0 = rank
    · subst same
      simpa [TpExecutor.setWorker, TpExecutor.setStage] using made
    · simpa [TpExecutor.setWorker, TpExecutor.setStage, Function.update_of_ne same] using made
  · intro none_
    cases none_
  · intro other is' reached stage'
    cases is'
    cases stage'
    refine ⟨pending, empty, fun other inWorld => ?_⟩
    obtain ⟨ran, waits, quiet⟩ := ranks other inWorld
    by_cases same : other = rank
    · subst same
      obtain ⟨noInbox, atRest⟩ := quiet le_rfl alive
      simp only [TpExecutor.setStage, TpExecutor.setWorker, Function.update_self]
      refine ⟨ran, fun _ _ => .inl ⟨?_, atRest⟩, fun later => absurd later (by omega)⟩
      rw [noInbox]
      rfl
    · simp only [TpExecutor.setStage, TpExecutor.setWorker, Function.update_of_ne same]
      exact ⟨ran, fun early => waits (by omega), fun later => quiet (by omega)⟩
  · intro other is' collected stage'
    cases is'
    cases stage'

/-- A gate that is still closed has let no command through. -/
theorem Sound.resolveGate (sound : executor.Sound) {current : CallUnderway P L} {reached : Nat}
    (is : executor.underway = some current) (stage : current.stage = .sending reached)
    (decision : TpCommandDecision) :
    (executor.resolveGate current.dispatch decision).Recorded := by
  have healthy := sound.healthy is
  obtain ⟨pending, -, -⟩ := (sound.agrees healthy).sending current is reached stage
  refine ⟨?_, sound.begun, ?_, sound.poisoned, sound.over_, sound.order, sound.rows⟩
  · intro dispatch later
    have different : dispatch ≠ current.dispatch := by
      have earlier := sound.begun current is
      have beyond : executor.dispatches ≤ dispatch := later
      omega
    exact (Function.update_of_ne different _ _).trans (sound.fresh dispatch later)
  · intro rank dispatch command member
    have open_ := sound.opened rank dispatch command member
    have different : dispatch ≠ current.dispatch := by
      rintro rfl
      rw [pending] at open_
      cases open_
    exact (Function.update_of_ne different _ _).trans open_

theorem Sound.release (sound : executor.Sound) {current : CallUnderway P L}
    (is : executor.underway = some current)
    (stage : current.stage = .sending executor.worldSize) :
    ((executor.resolveGate current.dispatch .execute).setStage current (.collecting [])).Sound := by
  have healthy := sound.healthy is
  obtain ⟨-, empty, ranks⟩ := (sound.agrees healthy).sending current is _ stage
  have recorded := sound.resolveGate is stage .execute
  refine ⟨⟨recorded.fresh, ?_, recorded.opened, fun unhealthy => absurd healthy unhealthy,
    fun unhealthy => absurd healthy unhealthy, recorded.order, recorded.rows⟩, fun _ => ⟨?_, ?_, ?_⟩⟩
  · intro other is'
    cases is'
    exact sound.begun current is
  · intro none_
    cases none_
  · intro other is' reached stage'
    cases is'
    cases stage'
  · intro other is' collected stage'
    cases is'
    cases stage'
    refine ⟨Function.update_self _ _ _, fun rank below => ?_⟩
    obtain ⟨ran, waits, -⟩ := ranks rank below
    refine .waits ran (waits below) ?_
    intro message member
    have nothing : (executor.resolveGate current.dispatch .execute).channels current.dispatch ++ [] = [] := by
      rw [List.append_nil]
      exact empty
    rw [show ((executor.resolveGate current.dispatch .execute).setStage current (.collecting [])).channels =
      (executor.resolveGate current.dispatch .execute).channels from rfl, nothing] at member
    cases member

theorem Sound.collect (sound : executor.Sound) {current : CallUnderway P L}
    {collected rest : List (TpWorkerResponse L)}
    {response : TpWorkerResponse L} (is : executor.underway = some current)
    (stage : current.stage = .collecting collected)
    (arrived : executor.channels current.dispatch = response :: rest) :
    ({ executor with channels := Function.update executor.channels current.dispatch rest }.setStage current
      (.collecting (collected ++ [response]))).Sound := by
  have healthy := sound.healthy is
  obtain ⟨open_, ranks⟩ := (sound.agrees healthy).collecting current is collected stage
  refine ⟨⟨sound.fresh, ?_, sound.opened, fun unhealthy => absurd healthy unhealthy,
    fun unhealthy => absurd healthy unhealthy, sound.order, sound.rows⟩, fun _ => ⟨?_, ?_, ?_⟩⟩
  · intro other is'
    cases is'
    exact sound.begun current is
  · intro none_
    cases none_
  · intro other is' reached stage'
    cases is'
    cases stage'
  · intro other is' collected' stage'
    cases is'
    cases stage'
    refine ⟨open_, fun rank below => (ranks rank below).mono ?_⟩
    intro message member _
    simp only [TpExecutor.setStage, Function.update_self] at member
    rw [arrived]
    simp only [List.mem_append, List.mem_cons] at member ⊢
    tauto

theorem Sound.succeed (sound : executor.Sound) {current : CallUnderway P L}
    {collected : List (TpWorkerResponse L)}
    {answer : Option (TpWorkerReply L)} (is : executor.underway = some current)
    (stage : current.stage = .collecting collected) (all : collected.length = executor.worldSize)
    (valid : current.call.validateResponses collected executor.worldSize = .ok answer) :
    (executor.return_ current.call (some current.dispatch) (.ok answer)).Sound := by
  have healthy := sound.healthy is
  obtain ⟨-, ranks⟩ := (sound.agrees healthy).collecting current is collected stage
  obtain ⟨complete, returned⟩ := TpCall.validateResponses_ok valid
  have past : ∀ rank < executor.worldSize, ∀ response ∈ collected, response.rank = rank →
      ∀ given, response.result = .ok given →
      (executor.workers rank).HasRun (executor.agreed ++ [(current.dispatch, current.call.command)]) ∧
      (executor.workers rank).Quiet ∧ ∃ reply, (current.dispatch, reply) ∈ (executor.workers rank).produced ∧
        TpWorker.Owes rank current.call.command reply ∧
        (given = reply ∨ current.call.command.expects rank given = false) := by
    intro rank below response member ofRank given isOk
    rcases (ranks rank below).silent_or_answered with silent | ⟨ran, quiet, reply, made, owes, only⟩
    · exact absurd isOk (silent response (List.mem_append_right _ member) ofRank given)
    · exact ⟨ran, quiet, reply, made, owes, only response (List.mem_append_right _ member) ofRank given isOk⟩
  have stillHealthy : (executor.return_ current.call (some current.dispatch) (.ok answer)).Healthy := by
    intro other member
    rcases List.mem_append.mp member with old | new
    · exact healthy other old
    · rw [List.mem_singleton.mp new]
      rintro ⟨-, error, isError⟩
      cases isError
  refine ⟨⟨sound.fresh, ?_, sound.opened, fun unhealthy => absurd stillHealthy unhealthy,
    fun _ => rfl, ?_, ?_⟩,
    fun _ => ⟨?_, ?_, ?_⟩⟩
  · intro other none_
    cases none_
  · refine List.pairwise_append.mpr ⟨sound.order, List.pairwise_singleton _ _, ?_⟩
    intro early member late _ earlyFailed
    exact absurd earlyFailed (healthy early member)
  · intro other member answer' isOk
    rcases List.mem_append.mp member with old | new
    · exact sound.rows other old answer' isOk
    · rw [List.mem_singleton.mp new] at isOk ⊢
      cases isOk
      refine ⟨current.dispatch, rfl, fun reply isReply => ?_⟩
      obtain ⟨expected, response, inside, zero, given⟩ := returned reply isReply
      have below : 0 < executor.worldSize := by
        rw [← all]
        exact List.length_pos_of_mem inside
      obtain ⟨-, -, own, made, owes, same | wrong⟩ := past 0 below response inside zero reply given
      · subst same
        exact ⟨made, owes.2 rfl⟩
      · rw [expected] at wrong
        cases wrong
  · intro _ rank below
    obtain ⟨response, inside, ofRank, given, isOk⟩ := complete rank below
    obtain ⟨ran, quiet, -⟩ := past rank below response inside ofRank given isOk
    rw [agreed_return]
    exact ⟨ran, quiet⟩
  · intro other none_
    cases none_
  · intro other none_
    cases none_

theorem Sound.caller {next : TpExecutor P L} (sound : executor.Sound)
    (step : CallerStep executor next) : next.Sound := by
  cases step with
  | poisoned call idle _ => exact sound.returnEarly idle call _
  | refuse idle _ _ => exact sound.returnEarly idle _ _
  | begin idle clean _ => exact sound.beginDispatch idle clean _
  | send is stage below alive => exact sound.send is stage below alive
  | sendFails is stage _ => exact (sound.resolveGate is stage .cancel).failWith is _
  | release is stage => exact sound.release is stage
  | collect is stage _ arrived _ => exact sound.collect is stage arrived
  | collectError is _ _ _ _ => exact sound.toRecorded.failWith is _
  | disconnected is _ _ => exact sound.toRecorded.failWith is _
  | succeed is stage all valid => exact sound.succeed is stage all valid
  | invalid is _ _ _ => exact sound.toRecorded.failWith is _

/-- A rank moves: what it has executed came through an open gate, and what it has
produced stays. -/
theorem Recorded.work (recorded : executor.Recorded) {rank : Nat} {worker : TpWorker P L}
    {poison : Option TpError}
    {channels : Nat → List (TpWorkerResponse L)}
    (opened : ∀ dispatch command, (dispatch, command) ∈ worker.executed →
      (dispatch, command) ∈ (executor.workers rank).executed ∨ executor.gates dispatch = .execute)
    (produced : ∀ entry ∈ (executor.workers rank).produced, entry ∈ worker.produced)
    (poisoned : executor.poison.isSome = true → poison.isSome = true) :
    { executor.setWorker rank worker with poison, channels }.Recorded := by
  refine ⟨recorded.fresh, recorded.begun, ?_,
    fun unhealthy => poisoned (recorded.poisoned unhealthy), recorded.over_,
    recorded.order, ?_⟩
  · intro other dispatch command member
    by_cases same : other = rank
    · subst same
      simp only [setWorker, Function.update_self] at member
      rcases opened dispatch command member with old | open_
      · exact recorded.opened other dispatch command old
      · exact open_
    · simp only [setWorker, Function.update_of_ne same] at member
      exact recorded.opened other dispatch command member
  · intro returned member answer isOk
    obtain ⟨dispatch, has, rows⟩ := recorded.rows returned member answer isOk
    refine ⟨dispatch, has, fun reply isReply => ?_⟩
    obtain ⟨made, ids⟩ := rows reply isReply
    refine ⟨?_, ids⟩
    by_cases same : 0 = rank
    · subst same
      simp only [setWorker, Function.update_self]
      exact produced _ made
    · simp only [setWorker, Function.update_of_ne same]
      exact made

/-- A rank moves, and only its own messages or nobody's arrive. -/
theorem Agrees.work (agrees : executor.Agrees) {rank : Nat} {worker : TpWorker P L} {poison : Option TpError}
    {channels : Nat → List (TpWorkerResponse L)} (below : rank < executor.worldSize)
    (idle : (executor.workers rank).HasRun executor.agreed → (executor.workers rank).Quiet →
      worker.HasRun executor.agreed ∧ worker.Quiet)
    (sending : ∀ dispatch command, executor.gates dispatch = .pending →
      (executor.workers rank).HasRun executor.agreed →
      (executor.workers rank).Waits dispatch command ∨ (executor.workers rank).Quiet →
      worker.HasRun executor.agreed ∧ channels = executor.channels ∧
      ((executor.workers rank).Waits dispatch command → worker.Waits dispatch command) ∧
      ((executor.workers rank).Quiet → worker.Quiet))
    (collecting : ∀ dispatch command collected, executor.gates dispatch = .execute →
      (executor.workers rank).Progress rank executor.agreed dispatch command
      (executor.channels dispatch ++ collected) →
      worker.Progress rank executor.agreed dispatch command (channels dispatch ++ collected) ∧
      ∀ message ∈ channels dispatch, message.rank ≠ rank → message.rank < executor.worldSize →
        message ∈ executor.channels dispatch) :
    { executor.setWorker rank worker with poison, channels }.Agrees := by
  refine ⟨?_, ?_, ?_⟩
  · intro none_ other inWorld
    by_cases same : other = rank
    · subst same
      simp only [setWorker, Function.update_self]
      obtain ⟨ran, quiet⟩ := agrees.idle none_ other inWorld
      exact idle ran quiet
    · simp only [setWorker, Function.update_of_ne same]
      exact agrees.idle none_ other inWorld
  · intro current is reached stage
    obtain ⟨pending, empty, ranks⟩ := agrees.sending current is reached stage
    have mine := ranks rank below
    have either : (executor.workers rank).Waits current.dispatch current.call.command ∨
        (executor.workers rank).Quiet := by
      rcases Nat.lt_or_ge rank reached with early | late
      · exact .inl (mine.2.1 early)
      · exact .inr (mine.2.2 late)
    obtain ⟨ran, sameChannels, waits, quiet⟩ :=
      sending current.dispatch current.call.command pending mine.1 either
    refine ⟨pending, by rw [← empty, ← sameChannels], fun other inWorld => ?_⟩
    by_cases same : other = rank
    · subst same
      simp only [setWorker, Function.update_self]
      exact ⟨ran, fun early => waits (mine.2.1 early), fun late => quiet (mine.2.2 late)⟩
    · simp only [setWorker, Function.update_of_ne same]
      exact ranks other inWorld
  · intro current is collected stage
    obtain ⟨open_, ranks⟩ := agrees.collecting current is collected stage
    obtain ⟨progress, foreign⟩ :=
      collecting current.dispatch current.call.command collected open_ (ranks rank below)
    refine ⟨open_, fun other inWorld => ?_⟩
    by_cases same : other = rank
    · subst same
      simp only [setWorker, Function.update_self]
      exact progress
    · simp only [setWorker, Function.update_of_ne same]
      refine (ranks other inWorld).mono fun message member ofOther => ?_
      rcases List.mem_append.mp member with posted | old
      · exact List.mem_append_left _ (foreign message posted (by omega) (by rw [ofOther]; exact inWorld))
      · exact List.mem_append_right _ old

/-- A rank dies; what it has answered is answered. -/
theorem Sound.die (sound : executor.Sound) {rank : Nat} (below : rank < executor.worldSize)
    (reason : TpError) :
    ((executor.setWorker rank { executor.workers rank with inbox := [], alive := false }).poisonWith
      reason).Sound := by
  refine ⟨sound.toRecorded.work (fun dispatch command member => .inl member)
    (fun entry member => member) (fun _ => rfl),
    fun healthy => (sound.agrees healthy).work below ?_ ?_ ?_⟩
  · intro ran _
    exact ⟨ran, fun alive => nomatch alive⟩
  · intro dispatch command _ ran _
    exact ⟨ran, rfl, fun _ alive => (nomatch alive), fun _ alive => (nomatch alive)⟩
  · intro dispatch command collected _ progress
    refine ⟨?_, fun message member _ _ => member⟩
    cases progress with
    | waits _ _ silent => exact .dead rfl silent
    | ran _ _ _ _ _ silent => exact .dead rfl silent
    | answered reply ran _ made owes arrived =>
      exact .answered reply ran (fun alive => nomatch alive) made owes arrived
    | dead _ silent => exact .dead rfl silent

end TpExecutor

namespace TpWorker

variable {worker : TpWorker P L} {rank : Nat} {commands : List (Nat × TpCommand P)} {dispatch : Nat}
  {command : TpCommand P}
  {messages : List (TpWorkerResponse L)}

/-- A rank at its gate is at this one, and has not run the command yet. -/
theorem Progress.of_atGate {other : Nat} {given : TpCommand P}
    (progress : worker.Progress rank commands dispatch command messages) (alive : worker.alive = true)
    (stage : worker.stage = .atGate other given) :
    other = dispatch ∧ given = command ∧ worker.inbox = [] ∧ worker.HasRun commands ∧
      Silent rank messages := by
  cases progress with
  | waits ran waits silent =>
    rcases waits alive with ⟨-, idle⟩ | ⟨inbox, at_⟩
    · rw [stage] at idle
      cases idle
    · rw [stage] at at_
      cases at_
      exact ⟨rfl, rfl, inbox, ran, silent⟩
  | ran result _ _ responding _ _ =>
    rw [stage] at responding
    cases responding
  | answered _ _ quiet _ _ _ =>
    have idle := (quiet alive).2
    rw [stage] at idle
    cases idle
  | dead gone _ =>
    rw [alive] at gone
    cases gone

theorem Progress.of_responding {other : Nat} {given : TpCommand P} {result : Except TpError (TpWorkerReply L)}
    (progress : worker.Progress rank commands dispatch command messages) (alive : worker.alive = true)
    (stage : worker.stage = .responding other given result) :
    other = dispatch ∧ given = command ∧ worker.inbox = [] ∧ Silent rank messages ∧
      ∀ reply, result = .ok reply → worker.HasRun (commands ++ [(dispatch, command)]) ∧
        Owes rank command reply := by
  cases progress with
  | waits _ waits _ =>
    rcases waits alive with ⟨-, idle⟩ | ⟨-, at_⟩
    · rw [stage] at idle
      cases idle
    · rw [stage] at at_
      cases at_
  | ran result' _ inbox responding owes silent =>
    rw [stage] at responding
    cases responding
    exact ⟨rfl, rfl, inbox, silent, owes⟩
  | answered _ _ quiet _ _ _ =>
    have idle := (quiet alive).2
    rw [stage] at idle
    cases idle
  | dead gone _ =>
    rw [alive] at gone
    cases gone

/-- Away from `recv`, a rank of an executor that is not collecting is at its gate. -/
theorem Waits.of_atGate {other : Nat} {given : TpCommand P} (waits : worker.Waits dispatch command)
    (alive : worker.alive = true) (stage : worker.stage = .atGate other given) : other = dispatch := by
  rcases waits alive with ⟨-, idle⟩ | ⟨-, at_⟩
  · rw [stage] at idle
    cases idle
  · rw [stage] at at_
    cases at_
    rfl

theorem Waits.not_responding {other : Nat} {given : TpCommand P} {result : Except TpError (TpWorkerReply L)}
    (waits : worker.Waits dispatch command) (alive : worker.alive = true) :
    worker.stage ≠ .responding other given result := by
  intro stage
  rcases waits alive with ⟨-, idle⟩ | ⟨-, at_⟩
  · rw [stage] at idle
    cases idle
  · rw [stage] at at_
    cases at_

theorem Quiet.not_stage (quiet : worker.Quiet) (alive : worker.alive = true)
    (busy : worker.stage ≠ .idle) : False :=
  busy (quiet alive).2

end TpWorker

namespace TpExecutor

variable {executor : TpExecutor P L}

theorem Sound.worker {next : TpExecutor P L} {rank : Nat} (sound : executor.Sound)
    (below : rank < executor.worldSize)
    (step : WorkerStep rank executor next) : next.Sound := by
  cases step with
  | @take dispatch command rest alive stage inbox =>
    refine ⟨sound.toRecorded.work (fun dispatch command member => .inl member)
      (fun entry member => member) id,
      fun healthy => (sound.agrees healthy).work below ?_ ?_ ?_⟩
    · intro _ quiet
      have empty := (quiet alive).1
      rw [inbox] at empty
      cases empty
    · intro other given _ ran either
      rcases either with waits | quiet
      · refine ⟨ran, rfl, fun _ _ => .inr ?_, fun quiet => ?_⟩
        · rcases waits alive with ⟨one, -⟩ | ⟨none_, -⟩
          · rw [inbox] at one
            cases one
            exact ⟨rfl, rfl⟩
          · rw [inbox] at none_
            cases none_
        · have empty := (quiet alive).1
          rw [inbox] at empty
          cases empty
      · have empty := (quiet alive).1
        rw [inbox] at empty
        cases empty
    · intro other given collected _ progress
      refine ⟨?_, fun message member _ _ => member⟩
      cases progress with
      | waits ran waits silent =>
        refine .waits ran (fun _ => .inr ?_) silent
        rcases waits alive with ⟨one, -⟩ | ⟨none_, -⟩
        · rw [inbox] at one
          cases one
          exact ⟨rfl, rfl⟩
        · rw [inbox] at none_
          cases none_
      | ran _ _ empty _ _ _ =>
        rw [inbox] at empty
        cases empty
      | answered _ _ quiet _ _ _ =>
        have empty := (quiet alive).1
        rw [inbox] at empty
        cases empty
      | dead gone _ =>
        rw [alive] at gone
        cases gone
  | @skip dispatch command alive stage cancelled =>
    refine ⟨sound.toRecorded.work (fun dispatch command member => .inl member)
      (fun entry member => member) id,
      fun healthy => (sound.agrees healthy).work below ?_ ?_ ?_⟩
    · intro _ quiet
      exact (quiet.not_stage alive (by rw [stage]; nofun)).elim
    · intro other given pending _ either
      rcases either with waits | quiet
      · rw [waits.of_atGate alive stage, pending] at cancelled
        cases cancelled
      · exact (quiet.not_stage alive (by rw [stage]; nofun)).elim
    · intro other given collected open_ progress
      rw [(progress.of_atGate alive stage).1, open_] at cancelled
      cases cancelled
  | @run dispatch command device requests result alive stage open_ executes =>
    refine ⟨sound.toRecorded.work ?_ (fun entry member => member) id, fun healthy =>
      (sound.agrees healthy).work below ?_ ?_ ?_⟩
    · intro other given member
      rcases List.mem_append.mp member with old | new
      · exact .inl old
      · cases List.mem_singleton.mp new
        exact .inr open_
    · intro _ quiet
      exact (quiet.not_stage alive (by rw [stage]; nofun)).elim
    · intro other given pending _ either
      rcases either with waits | quiet
      · rw [waits.of_atGate alive stage, pending] at open_
        cases open_
      · exact (quiet.not_stage alive (by rw [stage]; nofun)).elim
    · intro other given collected _ progress
      refine ⟨?_, fun message member _ _ => member⟩
      obtain ⟨rfl, rfl, inbox, ⟨executed, states⟩, silent⟩ := progress.of_atGate alive stage
      refine .ran result alive inbox rfl ?_ silent
      rintro reply rfl
      obtain ⟨after, expected, ids⟩ := executeCommand_ok executes
      refine ⟨⟨by rw [executed], ?_⟩, expected, ids⟩
      rw [replay_append, ← states]
      exact after
  | @respond dispatch command reply messages alive stage arrive =>
    refine ⟨sound.toRecorded.work (fun dispatch command member => .inl member)
      (fun entry member => List.mem_append_left _ member) id,
      fun healthy => (sound.agrees healthy).work below ?_ ?_ ?_⟩
    · intro _ quiet
      exact (quiet.not_stage alive (by rw [stage]; nofun)).elim
    · intro other given _ _ either
      rcases either with waits | quiet
      · exact absurd stage (waits.not_responding alive)
      · exact (quiet.not_stage alive (by rw [stage]; nofun)).elim
    · intro other given collected _ progress
      obtain ⟨rfl, rfl, inbox, silent, done⟩ := progress.of_responding alive stage
      obtain ⟨ran, owes⟩ := done reply rfl
      constructor
      · refine .answered reply ran (fun _ => ⟨inbox, rfl⟩)
          (List.mem_append_right _ (List.mem_singleton_self _)) owes ?_
        intro message member ofRank given isOk
        simp only [setWorker, Function.update_self, List.append_assoc, List.mem_append] at member
        have fresh : message ∈ messages → given = reply ∨ TpCommand.expects rank command given = false := by
          intro posted
          rcases arrive message posted with outside | ⟨-, allowed⟩
          · omega
          · rw [isOk] at allowed
            exact allowed
        rcases member with old | posted | old
        · exact absurd isOk (silent message (List.mem_append_left _ old) ofRank given)
        · exact fresh posted
        · exact absurd isOk (silent message (List.mem_append_right _ old) ofRank given)
      · intro message member notMine inWorld
        simp only [setWorker, Function.update_self, List.mem_append] at member
        rcases member with old | posted
        · exact old
        · rcases arrive message posted with outside | ⟨mine, -⟩
          · omega
          · exact absurd mine notMine
  | @fail dispatch command error messages alive stage errors =>
    refine ⟨sound.toRecorded.work (fun dispatch command member => .inl member)
      (fun entry member => member) (fun _ => rfl),
      fun healthy => (sound.agrees healthy).work below ?_ ?_ ?_⟩
    · intro _ quiet
      exact (quiet.not_stage alive (by rw [stage]; nofun)).elim
    · intro other given _ _ either
      rcases either with waits | quiet
      · exact absurd stage (waits.not_responding alive)
      · exact (quiet.not_stage alive (by rw [stage]; nofun)).elim
    · intro other given collected _ progress
      obtain ⟨rfl, rfl, -, silent, -⟩ := progress.of_responding alive stage
      constructor
      · refine .dead rfl ?_
        intro message member ofRank reply isOk
        simp only [setWorker, poisonWith, Function.update_self, List.append_assoc, List.mem_append] at member
        rcases member with old | posted | old
        · exact silent message (List.mem_append_left _ old) ofRank reply isOk
        · exact (errors message posted).2 reply isOk
        · exact silent message (List.mem_append_right _ old) ofRank reply isOk
      · intro message member notMine inWorld
        simp only [setWorker, poisonWith, Function.update_self, List.mem_append] at member
        rcases member with old | posted
        · exact old
        · rcases (errors message posted).1 with outside | mine
          · omega
          · exact absurd mine notMine
  | panic alive => exact sound.die below _
  | @panicInside dispatch command requests alive stage open_ =>
    refine ⟨sound.toRecorded.work ?_ (fun entry member => member) (fun _ => rfl),
      fun healthy => (sound.agrees healthy).work below ?_ ?_ ?_⟩
    · intro other given member
      rcases List.mem_append.mp member with old | new
      · exact .inl old
      · cases List.mem_singleton.mp new
        exact .inr open_
    · intro _ quiet
      exact (quiet.not_stage alive (by rw [stage]; nofun)).elim
    · intro other given pending _ either
      rcases either with waits | quiet
      · rw [waits.of_atGate alive stage, pending] at open_
        cases open_
      · exact (quiet.not_stage alive (by rw [stage]; nofun)).elim
    · intro other given collected _ progress
      exact ⟨.dead rfl (progress.of_atGate alive stage).2.2.2.2, fun message member _ _ => member⟩

end TpExecutor

theorem TpReach.sound {worldSize maxBatch : Nat} {executor : TpExecutor P L}
    (reach : TpReach worldSize maxBatch executor) :
    executor.Sound ∧ executor.worldSize = worldSize := by
  induction reach with
  | start => exact ⟨.new worldSize maxBatch, rfl⟩
  | next _ step ih =>
    cases step with
    | caller move => exact ⟨ih.1.caller move, by cases move <;> exact ih.2⟩
    | worker below move => exact ⟨ih.1.worker below move, by cases move <;> exact ih.2⟩

/-- A call that returns without a dispatch reaches no worker. -/
theorem TpStep.untouched {executor next : TpExecutor P L} {returned : ReturnedCall P L}
    (step : TpStep executor next)
    (grown : next.history = executor.history ++ [returned]) (early : returned.dispatch = none) :
    next.workers = executor.workers ∧ next.poison = executor.poison ∧ next.gates = executor.gates ∧
      next.channels = executor.channels := by
  have unchanged : next.history ≠ executor.history := by
    intro same
    rw [same] at grown
    simp at grown
  have dispatched : ∀ {call : TpCall P} {dispatch : Nat} {outcome : Except TpError
    (Option (TpWorkerReply L))},
      next.history = executor.history ++ [{ call, dispatch := some dispatch, outcome }] → False := by
    intro call dispatch outcome same
    rw [grown] at same
    cases List.append_cancel_left same
    cases early
  cases step with
  | worker _ move => cases move <;> exact absurd rfl unchanged
  | caller move =>
    cases move with
    | poisoned call _ _ => exact ⟨rfl, rfl, rfl, rfl⟩
    | refuse _ _ _ => exact ⟨rfl, rfl, rfl, rfl⟩
    | begin _ _ _ => exact absurd rfl unchanged
    | send _ _ _ _ => exact absurd rfl unchanged
    | sendFails _ _ _ => exact (dispatched rfl).elim
    | release _ _ => exact absurd rfl unchanged
    | collect _ _ _ _ _ => exact absurd rfl unchanged
    | collectError _ _ _ _ _ => exact (dispatched rfl).elim
    | disconnected _ _ _ => exact (dispatched rfl).elim
    | succeed _ _ _ _ => exact (dispatched rfl).elim
    | invalid _ _ _ _ => exact (dispatched rfl).elim

/-- A gate once cancelled stays cancelled. -/
theorem TpStep.cancelled {executor next : TpExecutor P L} (sound : executor.Sound)
    (step : TpStep executor next) {dispatch : Nat}
    (gate : executor.gates dispatch = .cancel) : next.gates dispatch = .cancel := by
  cases step with
  | worker _ move => cases move <;> exact gate
  | caller move =>
    cases move with
    | poisoned | refuse | send | collect | collectError | disconnected | succeed | invalid => exact gate
    | begin _ _ _ =>
      have apart : dispatch ≠ executor.dispatches := by
        rintro rfl
        rw [sound.fresh _ le_rfl] at gate
        cases gate
      exact (Function.update_of_ne apart _ _).trans gate
    | @sendFails current rank is _ _ =>
      by_cases same : dispatch = current.dispatch
      · subst same
        exact Function.update_self _ _ _
      · exact (Function.update_of_ne same _ _).trans gate
    | @release current is stage =>
      have apart : dispatch ≠ current.dispatch := by
        rintro rfl
        rw [((sound.agrees (sound.healthy is)).sending current is _ stage).1] at gate
        cases gate
      exact (Function.update_of_ne apart _ _).trans gate

/-- A call that returns while it is still sending has cancelled its gate. -/
theorem TpStep.cut_short {executor next : TpExecutor P L} {current : CallUnderway P L}
    {reached : Nat} (step : TpStep executor next)
    (is : executor.underway = some current) (stage : current.stage = .sending reached)
    (over_ : next.underway = none) :
    next.gates current.dispatch = .cancel := by
  cases step with
  | worker _ move =>
    have still : next.underway = executor.underway := by cases move <;> rfl
    rw [still, is] at over_
    cases over_
  | caller move =>
    cases move with
    | poisoned _ idle _ | refuse idle _ _ | begin idle _ _ =>
      rw [is] at idle
      cases idle
    | send _ _ _ _ | release _ _ | collect _ _ _ _ _ => cases over_
    | sendFails same _ _ =>
      rw [is] at same
      cases same
      exact Function.update_self _ _ _
    | collectError same at_ _ _ _ | disconnected same at_ _ | succeed same at_ _ _ | invalid same at_ _ _ =>
      rw [is] at same
      cases same
      rw [stage] at at_
      cases at_

/-- A call that returned `dispatchFailed` has cancelled its gate; no call is under way
once that is the reason the executor is poisoned with. -/
structure TpExecutor.CutShort (executor : TpExecutor P L) : Prop where
  over_ : ∀ rank, executor.poison = some (.dispatchFailed rank) → executor.underway = none
  gates : ∀ returned ∈ executor.history, ∀ dispatch rank, returned.dispatch = some dispatch →
    returned.outcome = .error (.dispatchFailed rank) → executor.gates dispatch = .cancel

theorem TpReach.cutShort {worldSize maxBatch : Nat} {executor : TpExecutor P L}
    (reach : TpReach worldSize maxBatch executor) :
    executor.CutShort := by
  induction reach with
  | start => exact ⟨fun _ _ => rfl, by simp [TpExecutor.new]⟩
  | @next executor next reach step ih =>
    obtain ⟨sound, -⟩ := reach.sound
    have old : ∀ returned ∈ executor.history, ∀ dispatch rank, returned.dispatch = some dispatch →
        returned.outcome = .error (.dispatchFailed rank) → next.gates dispatch = .cancel :=
      fun returned member dispatch rank has isError =>
        step.cancelled sound (ih.gates returned member dispatch rank has isError)
    cases step with
    | worker _ move =>
      refine ⟨?_, by cases move <;> exact old⟩
      intro rank poisoned
      have before : executor.poison = some (.dispatchFailed rank) := by
        cases move with
        | take | skip | run | respond => exact poisoned
        | fail | panic | panicInside =>
          cases held : executor.poison with
          | none => simp [TpExecutor.poisonWith, TpExecutor.setWorker, TpExecutor.post, held] at poisoned
          | some reason =>
            simpa [TpExecutor.poisonWith, TpExecutor.setWorker, TpExecutor.post, held] using poisoned
      have idle := ih.over_ rank before
      cases move <;> exact idle
    | caller move =>
      have added : ∀ {call : TpCall P} {dispatch : Option Nat} {outcome : Except TpError
        (Option (TpWorkerReply L))},
          next.history = executor.history ++ [⟨call, dispatch, outcome⟩] →
          (∀ number rank, dispatch = some number → outcome = .error (.dispatchFailed rank) →
            next.gates number = .cancel) →
          ∀ returned ∈ next.history, ∀ number rank, returned.dispatch = some number →
            returned.outcome = .error (.dispatchFailed rank) → next.gates number = .cancel := by
        intro call dispatch outcome grown fresh returned member
        rw [grown] at member
        rcases List.mem_append.mp member with before | now
        · exact old returned before
        · rw [List.mem_singleton.mp now]
          exact fresh
      have other : ∀ {current : CallUnderway P L} {reason : TpError}, executor.underway = some current →
          (∀ rank, reason ≠ .dispatchFailed rank) →
            ∀ rank, executor.poison.getD reason ≠ .dispatchFailed rank := by
        intro current reason is apart rank same
        cases held : executor.poison with
        | none =>
          rw [held] at same
          exact apart rank same
        | some found =>
          rw [held] at same
          have idle := ih.over_ rank (held.trans (congrArg some same))
          rw [is] at idle
          cases idle
      cases move with
      | poisoned call idle _ => exact ⟨fun _ _ => rfl, added rfl (by simp)⟩
      | refuse idle _ _ => exact ⟨fun _ _ => rfl, added rfl (by simp)⟩
      | begin _ healthy _ =>
        refine ⟨fun rank poisoned => ?_, old⟩
        simp only [TpExecutor.beginDispatch, healthy] at poisoned
        cases poisoned
      | send is _ _ _ | release is _ | collect is _ _ _ _ =>
        refine ⟨fun rank poisoned => ?_, old⟩
        have idle := ih.over_ rank poisoned
        rw [is] at idle
        cases idle
      | sendFails is _ _ =>
        refine ⟨fun _ _ => rfl, added rfl ?_⟩
        rintro number rank same -
        cases same
        exact Function.update_self _ _ _
      | collectError is _ _ _ _ | disconnected is _ _ | invalid is _ _ _ =>
        refine ⟨fun _ _ => rfl, added rfl ?_⟩
        intro number rank _ isError
        exact absurd (Except.error.inj isError) (other is (by simp) rank)
      | succeed is _ _ _ => exact ⟨fun _ _ => rfl, added rfl (by simp)⟩

theorem TpReach.run {worldSize maxBatch : Nat} {executor later : TpExecutor P L}
    (reach : TpReach worldSize maxBatch executor)
    (steps : Relation.ReflTransGen TpStep executor later) : TpReach worldSize maxBatch later := by
  induction steps with
  | refl => exact reach
  | tail _ step ih => exact ih.next step

theorem TpReach.cancelled {worldSize maxBatch : Nat} {executor later : TpExecutor P L}
    (reach : TpReach worldSize maxBatch executor)
    (steps : Relation.ReflTransGen TpStep executor later) {dispatch : Nat}
    (gate : executor.gates dispatch = .cancel) :
    later.gates dispatch = .cancel := by
  induction steps with
  | refl => exact gate
  | tail before step ih => exact step.cancelled (reach.run before).sound.1 ih

/-- Whatever any rank has executed came by a gate that is open, so nothing of a
cancelled dispatch is executed. -/
theorem TpReach.unexecuted {worldSize maxBatch : Nat} {executor : TpExecutor P L}
    (reach : TpReach worldSize maxBatch executor)
    {dispatch : Nat} (gate : executor.gates dispatch = .cancel) (rank : Nat) (command : TpCommand P) :
    (dispatch, command) ∉ (executor.workers rank).executed := by
  intro member
  have open_ := reach.sound.1.opened rank dispatch command member
  rw [gate] at open_
  cases open_

/-- Tensor-parallel replicas never diverge unnoticed. Where the last call returned Ok and none
is under way, every rank has executed the commands of the calls that returned Ok, in their order
and no other, all ranks hold the same requests, and the rows returned are those rank 0 made for
that command, in plan order. A call that returns without dispatching reaches no rank and does
not poison. A dispatch that fails before every rank has its command is executed by no rank, then
or later. After a call that failed past its dispatch the executor is poisoned, and every later
call returns an error without dispatching. -/
theorem TpReach.replicas_agree {worldSize maxBatch : Nat} {executor : TpExecutor P L}
    (reach : TpReach worldSize maxBatch executor) :
    (∀ last answer, executor.underway = none → executor.history.getLast? = some last →
      last.outcome = .ok answer →
      (∀ rank < worldSize, (executor.workers rank).executed = executor.agreed ∧
        (executor.workers rank).requests = (executor.workers 0).requests) ∧
      ∀ reply, answer = some reply → ∃ dispatch, last.dispatch = some dispatch ∧
        (dispatch, reply) ∈ (executor.workers 0).produced ∧ reply.rowIds = last.call.command.rowIds) ∧
    (∀ next returned, TpStep executor next → next.history = executor.history ++ [returned] →
      returned.dispatch = none →
      next.workers = executor.workers ∧ next.poison = executor.poison ∧ next.gates = executor.gates ∧
      next.channels = executor.channels) ∧
    (∀ dispatch, executor.gates dispatch = .cancel →
      ∀ rank command, (dispatch, command) ∉ (executor.workers rank).executed) ∧
    (∀ returned ∈ executor.history, ∀ dispatch sent, returned.dispatch = some dispatch →
      returned.outcome = .error (.dispatchFailed sent) →
        ∀ rank command, (dispatch, command) ∉ (executor.workers rank).executed) ∧
    (∀ current sent, executor.underway = some current → current.stage = .sending sent →
      ∀ next, TpStep executor next →
      next.underway = none → ∀ later, Relation.ReflTransGen TpStep next later →
        ∀ rank command, (current.dispatch, command) ∉ (later.workers rank).executed) ∧
    ((∃ returned ∈ executor.history, returned.Failed) →
      executor.poison.isSome = true ∧ executor.underway = none) ∧
    executor.history.Pairwise fun early late =>
      early.Failed → late.dispatch = none ∧ ∃ error, late.outcome = .error error := by
  obtain ⟨sound, world⟩ := reach.sound
  refine ⟨?_, fun next returned step => step.untouched, fun dispatch gate => reach.unexecuted gate,
    ?_, ?_, ?_, sound.order⟩
  · intro last answer idle isLast isOk
    have member : last ∈ executor.history := List.mem_of_getLast? isLast
    obtain ⟨dispatch, has, rows⟩ := sound.rows last member answer isOk
    have healthy : executor.Healthy := by
      intro early isEarly failed
      obtain ⟨before, split⟩ := List.getLast?_eq_some_iff.mp isLast
      have order := sound.order
      rw [split] at isEarly order
      rcases List.mem_append.mp isEarly with old | new
      · obtain ⟨none_, -⟩ := (List.pairwise_append.mp order).2.2 early old last
          (List.mem_singleton_self _) failed
        rw [has] at none_
        cases none_
      · obtain ⟨-, error, isError⟩ := failed
        rw [List.mem_singleton.mp new, isOk] at isError
        cases isError
    have ranks := (sound.agrees healthy).idle idle
    rw [world] at ranks
    refine ⟨fun rank below => ?_, fun reply isReply => ⟨dispatch, has, rows reply isReply⟩⟩
    have zero := (ranks 0 (by omega)).1
    have mine := (ranks rank below).1
    exact ⟨mine.1, mine.2.trans zero.2.symm⟩
  · intro returned member dispatch sent has isError
    exact reach.unexecuted (reach.cutShort.gates returned member dispatch sent has isError)
  · intro current sent is stage next step over_ later steps
    have after := reach.next step
    exact (after.run steps).unexecuted (after.cancelled steps (step.cut_short is stage over_))
  · rintro ⟨returned, member, failed⟩
    have unhealthy : ¬ executor.Healthy := fun healthy => healthy returned member failed
    exact ⟨sound.poisoned unhealthy, sound.over_ unhealthy⟩

/-- A chunk that is a whole prompt, and what a device that never fails makes of it. -/
def wholePrompt : TpCall Unit :=
  .executePrefillChunks
    [{ requestId := 5, promptTokens := [1, 2], logprobs := 0, samplingParams := (), finishPrefill := true }] 0

def steadyRows : RowDevice Unit Unit :=
  { allocates := fun _ => true, forwards := fun _ => true, samples := fun _ _ _ _ _ => some (9, none) }

def steadyDevice : Device Unit Unit := { prefill := steadyRows, decode := steadyRows }

def firstRow : TpWorkerReply Unit := .prefill [{ requestId := 5, token := 9, logprob := none }]

theorem wholePrompt_accepts :
    wholePrompt.validateResponses [{ rank := 0, result := .ok firstRow },
      { rank := 1, result := .ok .ack }] 2 =
      .ok (some firstRow) := by
  have sorted : [(0, firstRow), (1, .ack)].mergeSort (fun one two => decide (one.1 ≤ two.1)) =
      [(0, firstRow), (1, .ack)] := by
    apply List.mergeSort_of_pairwise
    simp
  have ranks : validateExactRankResponses [{ rank := 0, result := .ok firstRow },
    { rank := 1, result := .ok .ack }] 2 =
      .ok [(0, firstRow), (1, .ack)] := by
    rw [← sorted]
    rfl
  unfold TpCall.validateResponses
  rw [ranks]
  rfl

/-- Two ranks run one prefill call to its end. -/
theorem TpReach.prefilled :
    ∃ executor : TpExecutor Unit Unit, TpReach 2 4 executor ∧ executor.underway = none ∧
      executor.history = [{ call := wholePrompt, dispatch := some 0,
                            outcome := .ok (some firstRow) }] := by
  have begun := TpReach.start.next (.caller (@CallerStep.begin Unit Unit (.new 2 4) wholePrompt rfl rfl rfl))
  have sent := (begun.next (.caller (.send rfl rfl (by decide) rfl))).next
    (.caller (.send rfl rfl (by decide) rfl))
  have released := sent.next (.caller (.release rfl rfl))
  have taken := (released.next (@TpStep.worker _ _ _ _ 0 (by decide) (.take rfl rfl rfl))).next
    (@TpStep.worker _ _ _ _ 1 (by decide) (.take rfl rfl rfl))
  have ran := (taken.next (@TpStep.worker _ _ _ _ 0 (by decide) (.run steadyDevice rfl rfl rfl rfl))).next
    (@TpStep.worker _ _ _ _ 1 (by decide) (.run steadyDevice rfl rfl rfl rfl))
  have first := ran.next (@TpStep.worker _ _ _ _ 0 (by decide)
    (@WorkerStep.respond Unit Unit 0 _ _ _ _
      [{ rank := 0, result := .ok firstRow }] rfl rfl (by
        intro message member
        cases List.mem_singleton.mp member
        exact .inr ⟨rfl, .inl rfl⟩)))
  have second := first.next (@TpStep.worker _ _ _ _ 1 (by decide)
    (@WorkerStep.respond Unit Unit 1 _ _ _ _ [{ rank := 1, result := .ok .ack }] rfl rfl (by
        intro message member
        cases List.mem_singleton.mp member
        exact .inr ⟨rfl, .inl rfl⟩)))
  have collected := (second.next (.caller (.collect rfl rfl (by decide) rfl rfl))).next
    (.caller (.collect rfl rfl (by decide) rfl rfl))
  exact ⟨_, collected.next (.caller (.succeed rfl rfl rfl wholePrompt_accepts)), rfl, rfl⟩

theorem TpReach.replicas_agree_prefilled :
    ∃ executor : TpExecutor Unit Unit, TpReach 2 4 executor ∧ ∀ rank < 2,
      (executor.workers rank).executed = [(0, wholePrompt.command)] ∧
      (executor.workers rank).requests = (executor.workers 0).requests := by
  obtain ⟨executor, reach, idle, answered⟩ := TpReach.prefilled
  have last : executor.history.getLast? =
      some { call := wholePrompt, dispatch := some 0, outcome := .ok (some firstRow) } := by
    rw [answered]
    rfl
  have agreed : executor.agreed = [(0, wholePrompt.command)] := by
    unfold TpExecutor.agreed
    rw [answered]
    rfl
  obtain ⟨ranks, -⟩ := reach.replicas_agree.1 _ _ idle last rfl
  rw [agreed] at ranks
  exact ⟨executor, reach, ranks⟩

end PegaInfer.Qwen35
