import PegaInfer.Qwen3.Accounted

namespace PegaInfer.Qwen3

open Frontend

section

variable {telling : Telling} {submitted : List Submission} {machine : Machine} {entries : Multiset Entry}

theorem Submission.history_applied (submission : Submission) {events : List Event} (control : LoraControl)
    (past : submission.since ≤ events.length) :
    submission.history (events ++ [.applied control]) = submission.history events ++ [.applied control] := by
  rw [submission.history_append _ past]
  simp [Event.concerns, Event.about]

/-- A command is applied: every request is where it may be applied. -/
theorem Kept.applied (kept : Kept telling submitted machine entries)
    (quiet : ∀ entry ∈ entries, telling.quiet entry.stage)
    (control : LoraControl) (adapters : List String) :
    Kept telling submitted ({ machine with adapters }.record (.applied control)) entries := by
  refine ⟨kept.sound, kept.fresh, ?_, kept.distinct, ?_, ?_⟩
  · intro submission known
    have before := kept.past submission known
    simp only [Machine.record, List.length_append]
    omega
  · intro entry member
    obtain ⟨submission, known, own, agrees, life, standing⟩ := kept.lives entry member
    refine ⟨submission, known, own, agrees, ?_, standing⟩
    simp only [Machine.record]
    rw [submission.history_applied control (kept.past submission known)]
    exact life.applied control (quiet entry member)
  · intro submission known absent
    obtain ⟨life, account⟩ := kept.over_ submission known absent
    refine ⟨?_, account⟩
    simp only [Machine.record]
    rw [submission.history_applied control (kept.past submission known)]
    exact life.applied control trivial

/-- The commands pending at its submission that a request still has to wait for are
pending still. -/
def Behind (submitted : List Submission) (machine : Machine) : Prop :=
  ∀ submission ∈ submitted, submission.ahead ≤
    (submission.history machine.events).countP Event.isApplied + machine.scheduler.pendingControl.length

theorem Behind.calm {next : Machine} (behind : Behind submitted machine) (calm : Calm machine next)
    (past : ∀ submission ∈ submitted, submission.since ≤ machine.events.length) : Behind submitted next := by
  intro submission known
  obtain ⟨new, events, silent⟩ := calm.events
  have none : (new.filter (·.concerns submission.id)).countP Event.isApplied = 0 := by
    rw [List.countP_eq_zero]
    intro event member
    simp [silent event (List.mem_of_mem_filter member)]
  have before := behind submission known
  rw [events, submission.history_append new (past submission known), List.countP_append, none, calm.control]
  omega

/-- The commands applied to a machine, in order. -/
def Event.command : Event → Option LoraControl
  | .applied control => some control
  | _ => none

def commands (events : List Event) : List LoraControl := events.filterMap Event.command

theorem Calm.commands {next : Machine} (calm : Calm machine next) :
    commands next.events = commands machine.events := by
  obtain ⟨new, events, silent⟩ := calm.events
  have none : new.filterMap Event.command = [] := by
    rw [List.filterMap_eq_nil_iff]
    intro event member
    have other := silent event member
    cases event <;> first | rfl | simp [Event.isApplied] at other
  rw [events, Qwen3.commands, Qwen3.commands, List.filterMap_append, none, List.append_nil]

/-- Applying the commands one after the other. -/
theorem Kept.drain (adaptersAfter : LoraControl → List String → List String) {controls : List LoraControl}
    (kept : Kept telling submitted machine entries)
    (quiet : controls ≠ [] → ∀ entry ∈ entries, telling.quiet entry.stage) :
    ∃ drained, controls.foldl (fun machine control =>
        { machine with adapters := adaptersAfter control machine.adapters }.record
          (.applied control)) machine = drained ∧
      Kept telling submitted drained entries ∧ drained.scheduler = machine.scheduler ∧
      drained.events = machine.events ++ controls.map .applied := by
  induction controls generalizing machine with
  | nil => exact ⟨machine, rfl, kept, rfl, by simp⟩
  | cons control controls ih =>
    have first := kept.applied (quiet (by simp)) control (adaptersAfter control machine.adapters)
    obtain ⟨drained, run, rest, scheduler, events⟩ := ih first fun _ => quiet (by simp)
    refine ⟨drained, run, rest, scheduler, ?_⟩
    rw [events]
    simp [Machine.record]

/-- The requests behind the commands are let through once these are applied. -/
theorem Kept.release {items : List PendingRequest}
    (kept : Kept telling submitted machine (every .held items + entries))
    (ready : ∀ submission ∈ submitted, submission.ahead ≤
      (submission.history machine.events).countP Event.isApplied) :
    Kept telling submitted machine (every .waiting items + entries) := by
  induction items generalizing entries with
  | nil => exact kept
  | cons req items ih =>
    rw [every_cons, Multiset.cons_add] at kept
    have still : Did req.requestId machine machine [] :=
      ⟨rfl, fun calm => calm, by simp, by simp, fun _ _ => rfl⟩
    have moved := kept.move still (.waiting req) rfl (by
      intro submission known _ agrees life
      rw [List.append_nil]
      exact ⟨agrees, life.released (ready submission known)⟩) (kept.standing (Multiset.mem_cons_self _ _))
    rw [← Multiset.add_cons] at moved
    have rest := ih moved
    rw [Multiset.add_cons] at rest
    rwa [every_cons, Multiset.cons_add]

theorem Telling.quiet_of_parked (telling : Telling) (parked : telling.parked) (stage : Stage) :
    telling.quiet stage := by
  cases stage <;> trivial

/-- Idleness leaves only the requests parked on a prefetch and those behind a
command. -/
theorem Qwen3Scheduler.idle_placed {scheduler : Qwen3Scheduler} (idle : scheduler.idle = true) :
    scheduler.active = [] ∧ scheduler.deferred = [] ∧ scheduler.prefilling = [] ∧
      scheduler.inflightPrefillPending = none := by
  simp only [Qwen3Scheduler.idle, Bool.and_eq_true, List.isEmpty_iff, Option.isNone_iff_eq_none] at idle
  exact ⟨idle.1.1.1, idle.1.1.2, idle.1.2, idle.2⟩

theorem Kept.applyControl {env : StepEnv}
    (kept : Kept telling submitted machine (machine.scheduler.placed + entries))
    (behind : Behind submitted machine) (quiet : telling.parked ∨ entries = 0)
    (undisturbed : machine.scheduler.idle = true → machine.scheduler.pendingControl ≠ [] →
      telling.parked ∨ machine.scheduler.loading = []) :
    Kept telling submitted (machine.applyControl env)
      ((machine.applyControl env).scheduler.placed + entries) ∧
      Behind submitted (machine.applyControl env) ∧
      commands (machine.applyControl env).events ++ (machine.applyControl env).scheduler.pendingControl =
        commands machine.events ++ machine.scheduler.pendingControl := by
  unfold Machine.applyControl
  split_ifs with idle
  · obtain ⟨active, deferred, prefilling, inflight⟩ := Qwen3Scheduler.idle_placed idle
    have shape : machine.scheduler.placed + entries =
        every .held machine.scheduler.postControlDeferred +
          (every .waiting machine.scheduler.loading + entries) := by
      simp [Qwen3Scheduler.placed, Qwen3Scheduler.aside, active, deferred, prefilling, inflight, add_assoc]
    rw [shape] at kept
    obtain ⟨drained, run, rest, scheduler, events⟩ :=
      @Kept.drain _ _ _ _ env.adaptersAfter machine.scheduler.pendingControl
      (kept.update fun scheduler => { scheduler with pendingControl := [] }) (by
        intro pending entry member
        rw [Multiset.mem_add, Multiset.mem_add] at member
        rcases member with held | waiting | lost
        · obtain ⟨req, -, rfl⟩ := List.mem_map.mp (Multiset.mem_coe.mp held)
          trivial
        · obtain ⟨req, known, rfl⟩ := List.mem_map.mp (Multiset.mem_coe.mp waiting)
          rcases undisturbed idle pending with parked | empty
          · exact parked
          · simp [empty] at known
        · rcases quiet with parked | none
          · exact telling.quiet_of_parked parked entry.stage
          · simp [none] at lost)
    have same : machine.drainIdleControl env.adaptersAfter = drained := run
    rw [same]
    have logged : drained.events = machine.events ++ machine.scheduler.pendingControl.map .applied := events
    have counted : ∀ submission ∈ submitted, submission.ahead ≤
        (submission.history drained.events).countP Event.isApplied := by
      intro submission known
      have before := behind submission known
      have all : ((machine.scheduler.pendingControl.map Event.applied).filter
        (·.concerns submission.id)).countP Event.isApplied =
          machine.scheduler.pendingControl.length := by
        have stays : (machine.scheduler.pendingControl.map Event.applied).filter (·.concerns submission.id) =
            machine.scheduler.pendingControl.map Event.applied := by
          rw [List.filter_eq_self]
          intro event member
          obtain ⟨control, -, rfl⟩ := List.mem_map.mp member
          rfl
        rw [stays, List.countP_map, List.countP_eq_length.mpr (by simp [Event.isApplied])]
      rw [logged, submission.history_append _ (kept.past submission known), List.countP_append, all]
      exact before
    refine ⟨?_, ?_, ?_⟩
    · have final : (drained.update fun scheduler =>
            { scheduler with
              deferred := scheduler.deferred ++ scheduler.postControlDeferred,
                postControlDeferred := [] }).scheduler.placed +
            entries = every .waiting machine.scheduler.postControlDeferred +
              (every .waiting machine.scheduler.loading + entries) := by
        simp [Machine.update, scheduler, Qwen3Scheduler.placed, Qwen3Scheduler.aside, active,
          deferred, prefilling, inflight, add_assoc]
      rw [final]
      exact (rest.release counted).update _
    · intro submission known
      exact (counted submission known).trans (Nat.le_add_right _ _)
    · simp [Machine.update, scheduler, logged, commands, Function.comp_def, Event.command]
  · exact ⟨kept, behind, rfl⟩

end

namespace Machine

variable (machine : Machine) (config : Config) (env : StepEnv)

/-- The commands on the channel are queued. -/
def arrive : Machine := machine.update fun scheduler =>
    { scheduler with pendingControl := scheduler.pendingControl ++ env.controls }

/-- A step up to where it may apply commands. -/
def beforeControl : Machine := (((machine.arrive env).poll config env).reclaim env.drained).offer env.starts

/-- The requests a step runs and the machine it runs them on. -/
def prepared : List PendingRequest × Machine :=
  ((((machine.beforeControl config env).applyControl env).validate).admitAll config env).takeStep config

/-- The plan a step executes, if any. -/
def plan : Option ExecutionPlan :=
  if ((machine.beforeControl config env).applyControl env).scheduler.idle then none
  else runtimePlan config.speculativeEnabled env.ready
    (machine.prepared config env).2.scheduler.active (machine.prepared config env).1

theorem step_idle (idle : ((machine.beforeControl config env).applyControl env).scheduler.idle = true) :
    machine.step config env =
      if ((machine.beforeControl config env).applyControl env).scheduler.loading.isEmpty then
        (machine.beforeControl config env).applyControl env
      else ((machine.beforeControl config env).applyControl env).reclaim env.waited := by
  exact if_pos idle

theorem step_busy (busy : ((machine.beforeControl config env).applyControl env).scheduler.idle = false) :
    machine.step config env =
      match runtimePlan config.speculativeEnabled env.ready (machine.prepared config env).2.scheduler.active
        (machine.prepared config env).1 with
      | none => (machine.prepared config env).2
      | some plan => (machine.prepared config env).2.execute config env plan :=
  if_neg (ne_true_of_eq_false busy)

theorem step_none (busy : ((machine.beforeControl config env).applyControl env).scheduler.idle = false)
    (planned : runtimePlan config.speculativeEnabled env.ready
      (machine.prepared config env).2.scheduler.active
      (machine.prepared config env).1 = none) :
    machine.step config env = (machine.prepared config env).2 := by
  rw [machine.step_busy config env busy, planned]

theorem step_some {plan : ExecutionPlan}
    (busy : ((machine.beforeControl config env).applyControl env).scheduler.idle = false)
    (planned : runtimePlan config.speculativeEnabled env.ready
      (machine.prepared config env).2.scheduler.active
      (machine.prepared config env).1 = some plan) :
    machine.step config env = (machine.prepared config env).2.execute config env plan := by
  rw [machine.step_busy config env busy, planned]

end Machine

/-- What one step may assume: the executor answers as told, commands find no request
where they may not be applied, and no prefill on its own fails beside a running
batch. -/
structure Allowed (telling : Telling) (config : Config) (submitted : List Submission)
    (machine : Machine) (env : StepEnv) : Prop where
  polled : ∀ answer, env.polled = some answer →
    ∀ pending, machine.scheduler.inflightPrefillPending = some pending → ∀ req ∈ pending,
    (answer req.requestId).completed = true → ∀ submission ∈ submitted, submission.id = req.requestId →
      telling.prefills submission.req (answer req.requestId).firstToken
  undisturbed : (machine.beforeControl config env).scheduler.idle = true →
    (machine.beforeControl config env).scheduler.pendingControl ≠ [] →
    telling.parked ∨ (machine.beforeControl config env).scheduler.loading = []
  spared : telling.spares → ∀ pending, runtimePlan config.speculativeEnabled env.ready
    (machine.prepared config env).2.scheduler.active
      (machine.prepared config env).1 = some (.prefill pending) → env.execution.error ≠ none →
    (machine.prepared config env).2.scheduler.active = []
  told : ((machine.prepared config env).2.scheduler.active.map (·.requestId)).Nodup →
    Told telling submitted (machine.prepared config env).2 env.execution (machine.prepared config env).1

/-- The invariant of a run. The requests lost by a prefill that failed on its own stay
where they were lost. -/
structure Inv (telling : Telling) (submitted : List Submission) (arrived : List LoraControl)
    (machine : Machine) : Prop where
  kept : ∃ lost, (telling.spares → lost = 0) ∧
    Kept telling submitted machine (machine.scheduler.placed + lost)
  behind : Behind submitted machine
  inOrder : commands machine.events ++ machine.scheduler.pendingControl = arrived

section

variable {telling : Telling} {config : Config} {submitted : List Submission}
  {arrived : List LoraControl} {machine : Machine} {env : StepEnv}

theorem Inv.past (inv : Inv telling submitted arrived machine) :
    ∀ submission ∈ submitted, submission.since ≤ machine.events.length := by
  obtain ⟨lost, -, kept⟩ := inv.kept
  exact kept.past

theorem Inv.calm {next : Machine} (inv : Inv telling submitted arrived machine) (calm : Calm machine next)
    (kept : ∃ lost, (telling.spares → lost = 0) ∧
      Kept telling submitted next (next.scheduler.placed + lost)) :
    Inv telling submitted arrived next :=
  ⟨kept, inv.behind.calm calm inv.past, by rw [calm.commands, calm.control, inv.inOrder]⟩

theorem Inv.arrive (inv : Inv telling submitted arrived machine) :
    Inv telling submitted (arrived ++ env.controls) (machine.arrive env) := by
  obtain ⟨lost, vain, kept⟩ := inv.kept
  refine ⟨⟨lost, vain, kept.update _⟩, ?_, ?_⟩
  · intro submission known
    have before := inv.behind submission known
    simp only [Machine.arrive, Machine.update, List.length_append]
    omega
  · rw [← inv.inOrder, List.append_assoc]
    rfl

theorem Inv.beforeControl (stops : config.isStopToken = telling.isStopToken)
    (inv : Inv telling submitted arrived machine)
    (allowed : Allowed telling config submitted machine env) :
    Inv telling submitted (arrived ++ env.controls) (machine.beforeControl config env) := by
  have arrives : Inv telling submitted (arrived ++ env.controls) (machine.arrive env) := inv.arrive
  obtain ⟨lost, vain, kept⟩ := arrives.kept
  have offered := ((kept.poll stops allowed.polled).1.reclaim env.drained).offer env.starts
  exact arrives.calm (((Machine.poll_calm _ config env).trans (Machine.reclaim_calm _ _)).trans
    (Machine.offer_calm _ _))
    ⟨lost, vain, offered⟩

/-- Where the machine stands when a step has something to execute. -/
theorem Inv.prepared (stops : config.isStopToken = telling.isStopToken)
    (spares : telling.parked ∨ telling.spares)
    (inv : Inv telling submitted arrived machine) (allowed : Allowed telling config submitted machine env) :
    ∃ lost, (telling.spares → lost = 0) ∧
      Inv telling submitted (arrived ++ env.controls) ((machine.beforeControl config env).applyControl env) ∧
      Kept telling submitted ((machine.beforeControl config env).applyControl env)
        (((machine.beforeControl config env).applyControl env).scheduler.placed + lost) ∧
      Kept telling submitted (machine.prepared config env).2
        ((machine.prepared config env).2.scheduler.placed +
        (every .filling (machine.prepared config env).1 + lost)) ∧
      ((machine.prepared config env).1.Pairwise fun one two => one.requestId ≤ two.requestId) ∧
      ((machine.prepared config env).1 ≠ [] →
        (machine.prepared config env).2.scheduler.inflightPrefillPending = none) ∧
      Told telling submitted (machine.prepared config env).2 env.execution
        (machine.prepared config env).1 := by
  have before := inv.beforeControl stops allowed
  obtain ⟨lost, vain, kept⟩ := before.kept
  obtain ⟨kept, behind, inOrder⟩ :=
    @Kept.applyControl _ _ _ _ env kept before.behind (spares.imp_right vain) allowed.undisturbed
  obtain ⟨admitted, -⟩ := kept.validate.admitAll config env
  obtain ⟨taken, sorted, free⟩ := admitted.takeStep config
  change Kept telling submitted (machine.prepared config env).2
    ((machine.prepared config env).2.scheduler.placed +
    (every .filling (machine.prepared config env).1 + lost)) at taken
  refine ⟨lost, vain, ⟨⟨lost, vain, kept⟩, behind, inOrder.trans before.inOrder⟩, kept,
    taken, sorted, free, ?_⟩
  refine allowed.told ?_
  rw [Qwen3Scheduler.placed, add_assoc] at taken
  exact taken.active_distinct

/-- One step keeps the invariant. -/
theorem Inv.step (stops : config.isStopToken = telling.isStopToken) (spares : telling.parked ∨ telling.spares)
    (inv : Inv telling submitted arrived machine) (allowed : Allowed telling config submitted machine env) :
    Inv telling submitted (arrived ++ env.controls) (machine.step config env) := by
  obtain ⟨lost, vain, controlled, kept, taken, sorted, free, told⟩ := inv.prepared stops spares allowed
  cases idle : ((machine.beforeControl config env).applyControl env).scheduler.idle with
  | true =>
    rw [machine.step_idle config env idle]
    split_ifs
    · exact controlled
    · exact controlled.calm (Machine.reclaim_calm _ _) ⟨lost, vain, kept.reclaim env.waited⟩
  | false =>
    have calm : Calm ((machine.beforeControl config env).applyControl env) (machine.prepared config env).2 :=
      ((Machine.validate_calm _).trans (Machine.admitAll_calm _ config env)).trans
        (Machine.takeStep_calm _ config)
    cases planned : runtimePlan config.speculativeEnabled env.ready
      (machine.prepared config env).2.scheduler.active
        (machine.prepared config env).1 with
    | none =>
      rw [machine.step_none config env idle planned]
      have empty : (machine.prepared config env).1 = [] := runtimePlan_none planned
      refine controlled.calm calm ⟨lost, vain, ?_⟩
      rwa [empty, every_nil, zero_add] at taken
    | some plan =>
      rw [machine.step_some config env idle planned]
      have pending := runtimePlan_pending planned
      rw [← pending] at taken sorted free told
      obtain ⟨⟨more, spared, executed⟩, -⟩ := Kept.execute stops taken sorted free told
      refine controlled.calm (calm.trans (Machine.execute_calm _ config env plan)) ⟨more + lost, ?_, executed⟩
      intro safe
      rw [vain safe, add_zero]
      apply spared
      rintro ⟨alone, rfl⟩ failed
      exact allowed.spared safe alone planned failed

/-- A step that executes a plan moves on every row of it. -/
theorem Inv.moves (stops : config.isStopToken = telling.isStopToken)
    (spares : telling.parked ∨ telling.spares)
    (inv : Inv telling submitted arrived machine)
    (allowed : Allowed telling config submitted machine env) {plan : ExecutionPlan}
    (planned : machine.plan config env = some plan)
    (productive : Productive telling submitted (machine.prepared config env).2 env.execution) :
    ∀ id ∈ plan.rows (machine.prepared config
      env).2.scheduler.active config.hasDecodeOverlap env.execution.prefill,
      env.abortedAtApply id = false →
        MovedOn id (machine.prepared config env).2 (machine.step config env) := by
  obtain ⟨lost, -, -, -, taken, sorted, free, told⟩ := inv.prepared stops spares allowed
  unfold Machine.plan at planned
  split_ifs at planned with idle
  have pending := runtimePlan_pending planned
  rw [← pending] at taken sorted free told
  rw [machine.step_some config env (Bool.eq_false_iff.mpr idle) planned]
  exact (Kept.execute stops taken sorted free told).2 productive

/-- The requests whose prefill in flight is completed are moved on by the poll. -/
theorem Inv.polls (stops : config.isStopToken = telling.isStopToken)
    (inv : Inv telling submitted arrived machine)
    (allowed : Allowed telling config submitted machine env) {answer : RequestId → PrefillAnswer}
    (polled : env.polled = some answer)
    {pending : List PendingRequest} (inflight : machine.scheduler.inflightPrefillPending = some pending) :
    ∀ req ∈ pending, (answer req.requestId).completed = true → env.abortedAtPoll req.requestId = false →
      MovedOn req.requestId machine ((machine.arrive env).poll config env) := by
  intro req member completed lowered
  have arrives : Inv telling submitted (arrived ++ env.controls) (machine.arrive env) := inv.arrive
  obtain ⟨lost, -, kept⟩ := arrives.kept
  obtain ⟨new, events, moves⟩ :=
    (kept.poll stops allowed.polled).2 answer polled pending inflight req member completed lowered
  exact ⟨new, events, moves⟩

end

/-- A run of the scheduler: what was submitted and which commands arrived, in order. -/
structure Run where
  machine : Machine
  submitted : List Submission
  arrived : List LoraControl

namespace Run

def start : Run := { machine := .new, submitted := [], arrived := [] }

/-- A request whose account the driver has opened in `ledger`. -/
def submit (run : Run) (req : PendingRequest) (ledger : RequestLedger) : Run :=
  { run with
    machine := { run.machine with ledger }.submit req
    submitted := run.submitted ++
      [{ req, since := run.machine.events.length, ahead := run.machine.scheduler.pendingControl.length }] }

def step (run : Run) (config : Config) (env : StepEnv) : Run :=
  { run with machine := run.machine.step config env, arrived := run.arrived ++ env.controls }

/-- The driver commits the step on the ledger. -/
def commit (run : Run) : Run :=
  { run with machine := { run.machine with ledger := run.machine.ledger.commitStep.1 } }

end Run

/-- The runs whose steps are all `allowed`. The driver submits requests with fresh ids,
steps and commits. -/
inductive Reach (config : Config) (allowed : Run → StepEnv → Prop) : Run → Prop
  | start : Reach config allowed .start
  | submit {run ledger} (req : PendingRequest) (queuedAt : Instant) :
      Reach config allowed run → req.asSubmitted = req →
      (∀ submission ∈ run.submitted, submission.id ≠ req.requestId) →
      run.machine.ledger.register ⟨req.requestId, req.promptTokens.length, queuedAt⟩ = .returned ledger none →
      Reach config allowed (run.submit req ledger)
  | step {run} (env : StepEnv) : Reach config allowed run → allowed run env →
      Reach config allowed (run.step config env)
  | commit {run} : Reach config allowed run → Reach config allowed run.commit

/-- A request with a fresh id takes its place beside the others. -/
theorem Kept.enter {telling : Telling} {submitted : List Submission} {machine next : Machine}
    {entries : Multiset Entry} {entry : Entry}
    {submission : Submission} (kept : Kept telling submitted machine entries)
    (named : entry.id = submission.id)
    (fresh : ∀ other ∈ submitted, other.id ≠ submission.id) (since : submission.since = machine.events.length)
    (agrees : entry.Agrees submission.req) (life : Life telling submission [] entry.stage)
    (standing : entry.stage.Standing (next.ledger.accounts submission.id))
    (sound : next.panicked = machine.panicked)
    (events : next.events = machine.events)
    (elsewhere : ∀ id, id ≠ submission.id → next.ledger.accounts id = machine.ledger.accounts id) :
    Kept telling (submitted ++ [submission]) next (entry ::ₘ entries) := by
  have new : submission.history next.events = [] := by
    rw [events, Submission.history, since, List.drop_length]
    rfl
  have apart : ∀ other ∈ entries, other.id ≠ submission.id := by
    intro other member
    obtain ⟨owner, known, own, -⟩ := kept.lives other member
    rw [← own]
    exact fresh owner known
  refine ⟨sound.trans kept.sound, ?_, ?_, ?_, ?_, ?_⟩
  · rw [List.map_append, List.nodup_append]
    refine ⟨kept.fresh, by simp, ?_⟩
    intro id member other single
    obtain ⟨owner, known, rfl⟩ := List.mem_map.mp member
    obtain rfl : other = submission.id := by simpa using single
    exact fresh owner known
  · intro other member
    rw [events]
    rcases List.mem_append.mp member with known | single
    · exact kept.past other known
    · obtain rfl : other = submission := by simpa using single
      exact since.le
  · rw [Multiset.map_cons, Multiset.nodup_cons]
    refine ⟨?_, kept.distinct⟩
    intro member
    obtain ⟨other, known, same⟩ := Multiset.mem_map.mp member
    exact apart other known (same.trans named)
  · intro other member
    rcases Multiset.mem_cons.mp member with rfl | member
    · refine ⟨submission, by simp, named.symm, agrees, ?_, by rwa [named]⟩
      rw [new]
      exact life
    · obtain ⟨owner, known, own, held, lived, stands⟩ := kept.lives other member
      refine ⟨owner, List.mem_append_left _ known, own, held, by rwa [events], ?_⟩
      rw [elsewhere _ (apart other member)]
      exact stands
  · intro other member absent
    rw [Multiset.map_cons, Multiset.mem_cons, not_or] at absent
    rcases List.mem_append.mp member with known | single
    · obtain ⟨lived, account⟩ := kept.over_ other known absent.2
      exact ⟨by rwa [events], by rwa [elsewhere _ (fresh other known)]⟩
    · obtain rfl : other = submission := by simpa using single
      exact absurd named.symm absent.1

/-- A new request stands where `submit` puts it. -/
theorem Inv.submit {telling : Telling} {run : Run} {req : PendingRequest} {queuedAt : Instant}
    {ledger : RequestLedger}
    (inv : Inv telling run.submitted run.arrived run.machine) (own : req.asSubmitted = req)
    (fresh : ∀ submission ∈ run.submitted, submission.id ≠ req.requestId)
    (registered : run.machine.ledger.register ⟨req.requestId, req.promptTokens.length, queuedAt⟩ =
      .returned ledger none) :
    Inv telling (run.submit req ledger).submitted (run.submit req ledger).arrived
      (run.submit req ledger).machine := by
  have accounts : ledger.accounts = Function.update run.machine.ledger.accounts req.requestId
      (some ⟨req.promptTokens.length, queuedAt, .queued⟩) := by
    unfold RequestLedger.register at registered
    dsimp only at registered
    split_ifs at registered
    cases registered
    rfl
  have elsewhere : ∀ id, id ≠ req.requestId → ledger.accounts id = run.machine.ledger.accounts id := by
    intro id apart
    rw [accounts, Function.update_of_ne apart]
  have queued : Queued (ledger.accounts req.requestId) := by
    rw [accounts, Function.update_self]
    exact ⟨_, rfl, rfl⟩
  have behind : Behind (run.submit req ledger).submitted (run.submit req ledger).machine := by
    have control : (run.submit req ledger).machine.scheduler.pendingControl =
        run.machine.scheduler.pendingControl := by
      simp only [Run.submit, Machine.submit, Machine.update]
      split_ifs <;> rfl
    intro submission member
    rw [control]
    rcases List.mem_append.mp member with known | single
    · exact inv.behind submission known
    · obtain rfl := List.mem_singleton.mp single
      exact Nat.le_add_left _ _
  have inOrder : commands (run.submit req ledger).machine.events ++
    (run.submit req ledger).machine.scheduler.pendingControl =
      (run.submit req ledger).arrived := by
    have control : (run.submit req ledger).machine.scheduler.pendingControl =
        run.machine.scheduler.pendingControl := by
      simp only [Run.submit, Machine.submit, Machine.update]
      split_ifs <;> rfl
    rw [control]
    exact inv.inOrder
  obtain ⟨lost, vain, kept⟩ := inv.kept
  refine ⟨⟨lost, vain, ?_⟩, behind, inOrder⟩
  cases idle : run.machine.scheduler.pendingControl.isEmpty with
  | true =>
    have none : run.machine.scheduler.pendingControl.length = 0 := by simpa using idle
    have place : (run.submit req ledger).machine.scheduler.placed =
        .waiting req ::ₘ run.machine.scheduler.placed := by
      simp only [Run.submit, Machine.submit, Machine.update, idle, if_true, Qwen3Scheduler.placed,
        Qwen3Scheduler.aside, every_append,
        every_cons, every_nil, ← Multiset.singleton_add]
      abel
    rw [place, Multiset.cons_add]
    exact kept.enter rfl fresh rfl own (.waiting none) queued rfl rfl elsewhere
  | false =>
    have some_ : run.machine.scheduler.pendingControl.length ≠ 0 := by
      intro none
      rw [List.isEmpty_iff.mpr (List.length_eq_zero_iff.mp none)] at idle
      cases idle
    have place : (run.submit req ledger).machine.scheduler.placed =
        .held req ::ₘ run.machine.scheduler.placed := by
      simp only [Run.submit, Machine.submit, Machine.update, idle, Bool.false_eq_true, if_false,
        Qwen3Scheduler.placed,
        Qwen3Scheduler.aside, every_append, every_cons, every_nil, ← Multiset.singleton_add]
      abel
    rw [place, Multiset.cons_add]
    exact kept.enter rfl fresh rfl own (.held some_) queued rfl rfl elsewhere

theorem Inv.commit {telling : Telling} {run : Run} (inv : Inv telling run.submitted run.arrived run.machine) :
    Inv telling run.commit.submitted run.commit.arrived run.commit.machine := by
  obtain ⟨lost, none, kept⟩ := inv.kept
  exact ⟨⟨lost, none, kept.congr rfl rfl rfl⟩, inv.behind, inv.inOrder⟩

theorem Inv.start (telling : Telling) :
    Inv telling Run.start.submitted Run.start.arrived Run.start.machine := by
  refine ⟨⟨0, fun _ => rfl, rfl, .nil, by simp [Run.start], ?_,
    ?_, by simp [Run.start]⟩, by simp [Behind, Run.start], rfl⟩
  · simp [Run.start, Machine.new, Qwen3Scheduler.new, Qwen3Scheduler.placed, Qwen3Scheduler.aside]
  · simp [Run.start, Machine.new, Qwen3Scheduler.new, Qwen3Scheduler.placed, Qwen3Scheduler.aside]

/-- The invariant holds in every run whose steps are allowed. -/
theorem Reach.inv {telling : Telling} {config : Config} {allowed : Run → StepEnv → Prop} {run : Run}
    (stops : config.isStopToken = telling.isStopToken) (spares : telling.parked ∨ telling.spares)
    (grants : ∀ run env, allowed run env → Allowed telling config run.submitted run.machine env)
    (reach : Reach config allowed run) : Inv telling run.submitted run.arrived run.machine := by
  induction reach with
  | start => exact .start telling
  | submit req queuedAt _ own fresh registered ih => exact ih.submit own fresh registered
  | step env _ may ih => exact ih.step stops spares (grants _ _ may)
  | commit _ ih => exact ih.commit

end PegaInfer.Qwen3
