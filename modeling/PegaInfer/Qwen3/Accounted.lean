import PegaInfer.Qwen3.Queues
import PegaInfer.Qwen3.Calm

namespace PegaInfer.Qwen3

open Frontend

theorem pushedBy_history_silent (submission : Submission) {events new : List Event}
    (past : submission.since ≤ events.length)
    (silent : ∀ event ∈ new, event.tokens = []) :
    pushedBy (submission.history (events ++ new)) = pushedBy (submission.history events) := by
  have none : pushedBy (new.filter (·.concerns submission.id)) = [] := by
    rw [pushedBy, List.flatMap_eq_nil_iff]
    intro event member
    exact silent event (List.mem_of_mem_filter member)
  rw [submission.history_append _ past, pushedBy_append, none, List.append_nil]

/-- A plan runs the requests at hand and no others. -/
theorem runtimePlan_pending {speculativeEnabled : Bool} {ready : RequestId → Bool}
    {active : List ActiveRequestState}
    {pending : List PendingRequest} {plan : ExecutionPlan}
    (planned : runtimePlan speculativeEnabled ready active pending = some plan) :
    plan.pending = pending := by
  unfold runtimePlan buildNextPlan at planned
  dsimp only at planned
  split_ifs at planned <;> (cases planned; simp_all [ExecutionPlan.pending])

theorem runtimePlan_none {speculativeEnabled : Bool} {ready : RequestId → Bool}
    {active : List ActiveRequestState}
    {pending : List PendingRequest}
    (planned : runtimePlan speculativeEnabled ready active pending = none) : pending = [] := by
  unfold runtimePlan buildNextPlan at planned
  dsimp only at planned
  split_ifs at planned
  simp_all

/-- The requests a failed plan takes with it: all it ran. -/
def ExecutionPlan.targets (active : List ActiveRequestState) : ExecutionPlan → List Entry
  | .prefill pending => pending.map .filling
  | .decode | .speculativeDecode => active.map .decoding
  | .unified pending => active.map .decoding ++ pending.map .filling

theorem ExecutionPlan.targets_ids (active : List ActiveRequestState) (plan : ExecutionPlan) :
    (plan.targets active).map Entry.id = failureTargetIds active plan := by
  cases plan <;> simp [targets, failureTargetIds, Function.comp_def, Entry.id]

theorem ExecutionPlan.targets_running (active : List ActiveRequestState) (plan : ExecutionPlan) :
    ∀ entry ∈ plan.targets active, entry.stage.isRunning = true := by
  intro entry member
  cases plan <;> simp [targets] at member <;> aesop

section

variable {telling : Telling} {submitted : List Submission} {machine : Machine} {entries : Multiset Entry}

/-- The events that mark a plan's requests as run. -/
def Machine.ranTargets (machine : Machine) (plan : ExecutionPlan) : Machine :=
  (failureTargetIds machine.scheduler.active plan).foldl (fun machine id => machine.record (.ran id)) machine

theorem Machine.ranTargets_events (machine : Machine) (plan : ExecutionPlan) :
    (machine.ranTargets plan).events = machine.events ++
      (failureTargetIds machine.scheduler.active plan).map .ran := by
  unfold ranTargets
  generalize failureTargetIds machine.scheduler.active plan = ids
  induction ids generalizing machine with
  | nil => simp
  | cons id ids ih =>
    rw [List.foldl_cons, ih]
    simp [Machine.record]

theorem Kept.ranTargets {plan : ExecutionPlan}
    (kept : Kept telling submitted machine
      (machine.scheduler.placed + (every .filling plan.pending + entries))) :
    Kept telling submitted (machine.ranTargets plan)
        ((machine.ranTargets plan).scheduler.placed + (every .filling plan.pending + entries)) ∧
      (machine.ranTargets plan).scheduler = machine.scheduler := by
  obtain ⟨ran, same⟩ := @Kept.recordAll _ _ _ _ Event.ran
    (failureTargetIds machine.scheduler.active plan) kept (fun _ => rfl) (by
    intro id member
    rw [← plan.targets_ids] at member
    obtain ⟨entry, known, rfl⟩ := List.mem_map.mp member
    refine ⟨entry, ?_, rfl, ?_⟩
    · have running : ∀ req ∈ machine.scheduler.active, Entry.decoding req ∈
          machine.scheduler.placed + (every .filling plan.pending + entries) := by
        intro req held
        simp only [Qwen3Scheduler.placed, Multiset.mem_add]
        exact .inl (.inl (mem_every _ held))
      have filling : ∀ req ∈ plan.pending, Entry.filling req ∈
          machine.scheduler.placed + (every .filling plan.pending + entries) := by
        intro req held
        simp only [Multiset.mem_add]
        exact .inr (.inl (mem_every _ held))
      cases plan with
      | prefill pending =>
        obtain ⟨req, held, rfl⟩ := List.mem_map.mp known
        exact filling req held
      | decode | speculativeDecode =>
        obtain ⟨req, held, rfl⟩ := List.mem_map.mp known
        exact running req held
      | unified pending =>
        rcases List.mem_append.mp known with known | known
        · obtain ⟨req, held, rfl⟩ := List.mem_map.mp known
          exact running req held
        · obtain ⟨req, held, rfl⟩ := List.mem_map.mp known
          exact filling req held
    · have running := plan.targets_running _ entry known
      cases entry with
      | filling | decoding => rfl
      | held | waiting | finishing => simp [Entry.stage, Stage.isRunning] at running)
  have run : machine.ranTargets plan =
      (failureTargetIds machine.scheduler.active plan).foldl
        (fun machine id => machine.record (.ran id)) machine := rfl
  rw [run, same]
  exact ⟨ran, rfl⟩

/-- What a failed plan ran is failed. The running batch beside a prefill on its own is
lost. -/
theorem Kept.failTouchedRequests {plan : ExecutionPlan}
    (kept : Kept telling submitted machine
      (machine.scheduler.placed + (every .filling plan.pending + entries))) (message : String) :
    ∃ lost, (((∃ pending, plan = .prefill pending) → machine.scheduler.active = []) → lost = 0) ∧
      Kept telling submitted (machine.failTouchedRequests
        (failureTargetIds machine.scheduler.active plan) message)
        ((machine.failTouchedRequests (failureTargetIds machine.scheduler.active plan)
          message).scheduler.placed + (lost + entries)) := by
  obtain ⟨lost, none, shape⟩ :
      ∃ lost, (((∃ pending, plan = .prefill pending) → machine.scheduler.active = []) → lost = 0) ∧
      machine.scheduler.placed + (every .filling plan.pending + entries) =
        ((plan.targets machine.scheduler.active : List Entry) : Multiset Entry) +
          (machine.scheduler.aside + (lost + entries)) := by
    cases plan with
    | prefill pending =>
      refine ⟨every .decoding machine.scheduler.active, fun spared => by rw [spared ⟨pending, rfl⟩]; rfl, ?_⟩
      change every .decoding machine.scheduler.active + machine.scheduler.aside +
        (every .filling pending + entries) =
        every .filling pending +
          (machine.scheduler.aside + (every .decoding machine.scheduler.active + entries))
      abel
    | decode | speculativeDecode =>
      refine ⟨0, fun _ => rfl, ?_⟩
      change every .decoding machine.scheduler.active + machine.scheduler.aside + (0 + entries) =
        every .decoding machine.scheduler.active + (machine.scheduler.aside + (0 + entries))
      abel
    | unified pending =>
      refine ⟨0, fun _ => rfl, ?_⟩
      simp only [Qwen3Scheduler.placed, ExecutionPlan.pending, ExecutionPlan.targets, ← Multiset.coe_add]
      change every .decoding machine.scheduler.active + machine.scheduler.aside +
        (every .filling pending + entries) =
        every .decoding machine.scheduler.active + every .filling pending +
          (machine.scheduler.aside + (0 + entries))
      abel
  rw [shape] at kept
  obtain ⟨failed, same⟩ := kept.failAll (plan.targets_running _) message
  rw [plan.targets_ids] at failed same
  refine ⟨lost, none, ?_⟩
  unfold Machine.failTouchedRequests
  simp only [Machine.update, Qwen3Scheduler.placed, same, every_nil, zero_add]
  exact failed.congr rfl rfl rfl

/-- Under decode overlap the prefill of a unified step stays in flight. -/
def Machine.leaveInFlight (machine : Machine) (config : Config) : ExecutionPlan → Machine
  | .unified pending =>
    if config.hasDecodeOverlap && machine.scheduler.inflightPrefillPending.isNone then
      machine.update fun scheduler => { scheduler with inflightPrefillPending := some pending }
    else machine
  | _ => machine

/-- The requests a plan leaves in flight. -/
def ExecutionPlan.inFlight (plan : ExecutionPlan) (overlap : Bool) : Multiset Entry :=
  match plan with
  | .unified pending => if overlap then every .filling pending else 0
  | _ => 0

theorem Machine.execute_error {config : Config} {env : StepEnv} {plan : ExecutionPlan} {message : String}
    (failed : executePlan env.execution config.hasDecodeOverlap
      (machine.ranTargets plan).scheduler.active plan = .error message) :
    machine.execute config env plan =
      (machine.ranTargets plan).failTouchedRequests
        (failureTargetIds machine.scheduler.active plan) message := by
  simp only [Machine.ranTargets] at failed
  simp only [Machine.execute, failed, Machine.ranTargets]

theorem Machine.execute_ok {config : Config} {env : StepEnv} {plan : ExecutionPlan}
    {artifacts : ExecutionArtifacts}
    (run : executePlan env.execution config.hasDecodeOverlap
      (machine.ranTargets plan).scheduler.active plan = .ok artifacts) :
    machine.execute config env plan =
      ((machine.ranTargets plan).settle config env.abortedAtApply artifacts).leaveInFlight
        config plan := by
  simp only [Machine.ranTargets] at run
  simp only [Machine.execute, run, Machine.ranTargets]
  cases plan <;> rfl

theorem Kept.leaveInFlight (config : Config) (plan : ExecutionPlan)
    (kept : Kept telling submitted machine
      (machine.scheduler.placed + (plan.inFlight config.hasDecodeOverlap + entries)))
    (free : plan.pending ≠ [] → machine.scheduler.inflightPrefillPending = none) :
    Kept telling submitted (machine.leaveInFlight config plan)
      ((machine.leaveInFlight config plan).scheduler.placed + entries) := by
  cases plan with
  | prefill | decode | speculativeDecode => simpa [ExecutionPlan.inFlight, Machine.leaveInFlight] using kept
  | unified pending =>
    unfold Machine.leaveInFlight
    dsimp only
    split_ifs with overlap
    · rw [Bool.and_eq_true, Option.isNone_iff_eq_none] at overlap
      have shape : (machine.update fun scheduler =>
        { scheduler with inflightPrefillPending := some pending }).scheduler.placed =
          machine.scheduler.placed + (ExecutionPlan.unified pending).inFlight config.hasDecodeOverlap := by
        simp only [ExecutionPlan.inFlight, overlap.1, if_true, Machine.update,
          Qwen3Scheduler.placed, Qwen3Scheduler.aside, overlap.2,
          Option.getD_some, Option.getD_none, every_nil]
        abel
      rw [shape, add_assoc]
      exact kept.update _
    · have none : (ExecutionPlan.unified pending).inFlight config.hasDecodeOverlap = 0 := by
        unfold ExecutionPlan.inFlight
        dsimp only
        split_ifs with shared
        · by_cases empty : pending = []
          · simp [empty]
          · exact absurd (by simp [shared, free empty]) overlap
        · rfl
      rw [none, zero_add] at kept
      exact kept

theorem Machine.ranTargets_pushed {plan : ExecutionPlan} {submission : Submission}
    (past : submission.since ≤ machine.events.length) :
    pushedBy (submission.history (machine.ranTargets plan).events) =
      pushedBy (submission.history machine.events) := by
  rw [machine.ranTargets_events]
  refine pushedBy_history_silent submission past ?_
  intro event member
  obtain ⟨id, -, rfl⟩ := List.mem_map.mp member
  rfl

theorem Machine.ranTargets_calm (machine : Machine) (plan : ExecutionPlan) :
    Calm machine (machine.ranTargets plan) :=
  .foldl (fun machine _ => machine.record_calm rfl) machine _

theorem Machine.leaveInFlight_calm (machine : Machine) (config : Config) (plan : ExecutionPlan) :
    Calm machine (machine.leaveInFlight config plan) := by
  cases plan with
  | prefill | decode | speculativeDecode => exact .refl machine
  | unified pending =>
    unfold leaveInFlight
    dsimp only
    split_ifs
    · exact .same rfl rfl rfl rfl
    · exact .refl machine

theorem Told.ranTargets {execution : Execution} {pending : List PendingRequest}
    (told : Told telling submitted machine execution pending)
    (past : ∀ submission ∈ submitted, submission.since ≤ machine.events.length) {plan : ExecutionPlan}
    (same : (machine.ranTargets plan).scheduler = machine.scheduler) :
    Told telling submitted (machine.ranTargets plan) execution pending := by
  refine ⟨told.prefill, ?_, ?_⟩
  · rw [same]
    intro req running submission known own
    rw [machine.ranTargets_pushed (past submission known)]
    exact told.decode req running submission known own
  · rw [same]
    intro results run result member req running own submission known named
    rw [machine.ranTargets_pushed (past submission known)]
    exact told.verify results run result member req running own submission known named

/-- What a plan prefills is settled with it or left in flight. -/
theorem ExecutionPlan.items_inFlight (plan : ExecutionPlan) (overlap : Bool)
    (answer : RequestId → PrefillAnswer) :
    every (fun item => .filling item.1) (plan.items overlap answer) + plan.inFlight overlap =
      every .filling plan.pending := by
  cases plan with
  | prefill pending =>
    simp [ExecutionPlan.items, ExecutionPlan.inFlight, ExecutionPlan.pending, every_prefillItems]
  | decode | speculativeDecode => rfl
  | unified pending =>
    cases overlap <;> simp [ExecutionPlan.items, ExecutionPlan.inFlight,
      ExecutionPlan.pending, every_prefillItems]

/-- The requests a plan moves on, if it does not fail: those it decodes or verifies,
and those whose prefill it completes. -/
def ExecutionPlan.rows (plan : ExecutionPlan) (active : List ActiveRequestState) (overlap : Bool)
    (answer : RequestId → PrefillAnswer) :
    List RequestId :=
  (plan.decodes active).map (·.requestId) ++
    ((plan.items overlap answer).filter (·.2.completed)).map (·.1.requestId)

/-- What a plan needs to move all its rows on: no failure, room for a token in every
verified request, and a token in every effect that goes on. -/
structure Productive (telling : Telling) (submitted : List Submission) (machine : Machine)
    (execution : Execution) : Prop where
  fine : execution.error = none
  answered : ∀ id span, (execution.target id span).length = span.length
  room : ∀ req ∈ machine.scheduler.active, req.generatedCount < req.maxTokens
  emits : ∀ req ∈ machine.scheduler.active, ∀ submission ∈ submitted, submission.id =
    req.requestId → ∀ effect,
    telling.decodes submission.req (pushedBy (submission.history machine.events)) req effect →
      effect.reason = none → effect.emits ≠ []

/-- One execution moves every request of its plan on, or fails it; nothing is lost
unless a prefill on its own fails beside a running batch. -/
theorem Kept.execute {config : Config} {env : StepEnv} {plan : ExecutionPlan}
    (stops : config.isStopToken = telling.isStopToken)
    (kept : Kept telling submitted machine
      (machine.scheduler.placed + (every .filling plan.pending + entries)))
    (sorted : plan.pending.Pairwise fun one two => one.requestId ≤ two.requestId)
    (free : plan.pending ≠ [] → machine.scheduler.inflightPrefillPending = none)
    (told : Told telling submitted machine env.execution plan.pending) :
    (∃ lost, (((∃ pending, plan = .prefill pending) → env.execution.error ≠ none →
      machine.scheduler.active = []) → lost = 0) ∧
      Kept telling submitted (machine.execute config env plan)
        ((machine.execute config env plan).scheduler.placed + (lost + entries))) ∧
    (Productive telling submitted machine env.execution →
      ∀ id ∈ plan.rows machine.scheduler.active config.hasDecodeOverlap env.execution.prefill,
        env.abortedAtApply id = false →
        MovedOn id machine (machine.execute config env plan)) := by
  obtain ⟨ran, same⟩ := kept.ranTargets
  have distinct : (machine.scheduler.active.map (·.requestId)).Nodup := by
    rw [Qwen3Scheduler.placed, add_assoc] at kept
    exact kept.active_distinct
  have telling' := told.ranTargets kept.past same
  rcases @executePlan_cases _ _ _ _ plan config.hasDecodeOverlap (by rwa [same]) sorted telling' with
    ⟨message, failed⟩ | ⟨artifacts, effects, run, resolved, effective, ids⟩
  · refine ⟨?_, ?_⟩
    · rw [Machine.execute_error failed, ← same]
      obtain ⟨lost, none, kept⟩ := ran.failTouchedRequests message
      refine ⟨lost, fun spared => none ?_, kept⟩
      rintro ⟨pending, rfl⟩
      refine spared ⟨pending, rfl⟩ ?_
      intro fine
      simp [executePlan, fine] at failed
    · intro productive
      exfalso
      rw [same] at failed
      cases plan with
      | prefill | decode | unified => simp [executePlan, productive.fine] at failed
      | speculativeDecode =>
        simp only [executePlan, productive.fine] at failed
        exact speculate_ok distinct productive.answered productive.room message failed
  · rw [Machine.execute_ok run]
    rw [← plan.items_inFlight config.hasDecodeOverlap env.execution.prefill, add_assoc] at ran
    obtain ⟨active, continued, scheduler, settled, moves⟩ :=
      Kept.settle stops env.abortedAtApply ran resolved effective
    refine ⟨⟨0, fun _ => rfl, ?_⟩, ?_⟩
    · rw [zero_add]
      refine settled.leaveInFlight config plan ?_
      intro busy
      rw [scheduler, same]
      exact free busy
    · intro productive id row lowered
      have serves : effects.serves (plan.items config.hasDecodeOverlap env.execution.prefill) id := by
        rcases List.mem_append.mp row with decodes | fills
        · rw [same] at ids
          obtain ⟨effect, member, own⟩ := List.mem_map.mp (ids.symm.subset decodes)
          refine .inl ⟨effect, member, own, ?_⟩
          obtain ⟨req, running, named, decoded⟩ := effective.decoded effect member
          rw [same] at running
          obtain ⟨submission, known, owner, -⟩ := kept.lives (.decoding req) (by
            simp only [Qwen3Scheduler.placed, Multiset.mem_add]
            exact .inl (.inl (mem_every _ running)))
          have owner : submission.id = req.requestId := owner
          have answer := decoded submission known (owner.trans named)
          rw [machine.ranTargets_pushed (kept.past submission known)] at answer
          exact productive.emits req running submission known owner effect answer
        · obtain ⟨item, member, own⟩ := List.mem_map.mp fills
          rw [List.mem_filter] at member
          exact .inr ⟨item, member.1, own, member.2⟩
      exact ((moves id serves lowered).after (machine.ranTargets_calm plan)).before
        (Machine.leaveInFlight_calm _ config plan)

end

end PegaInfer.Qwen3
