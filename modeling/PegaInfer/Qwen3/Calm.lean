import PegaInfer.Qwen3.Life

namespace PegaInfer.Qwen3

open Frontend
open SwapRemove

/-- No command arrives or is applied, and no request behind one is let through. -/
structure Calm (machine next : Machine) : Prop where
  events : ∃ new : List Event, next.events = machine.events ++ new ∧ ∀ event ∈ new, event.isApplied = false
  adapters : next.adapters = machine.adapters
  control : next.scheduler.pendingControl = machine.scheduler.pendingControl
  held : next.scheduler.postControlDeferred = machine.scheduler.postControlDeferred

theorem Calm.refl (machine : Machine) : Calm machine machine := ⟨⟨[], by simp, by simp⟩, rfl, rfl, rfl⟩

/-- Where neither history nor command changes. -/
theorem Calm.same {machine next : Machine} (events : next.events = machine.events)
    (adapters : next.adapters = machine.adapters)
    (control : next.scheduler.pendingControl = machine.scheduler.pendingControl)
    (held : next.scheduler.postControlDeferred = machine.scheduler.postControlDeferred) : Calm machine next :=
  ⟨⟨[], by rw [events, List.append_nil], by simp⟩, adapters, control, held⟩

theorem Calm.trans {first second third : Machine} (early : Calm first second)
    (late : Calm second third) : Calm first third := by
  obtain ⟨one, earlier, calm⟩ := early.events
  obtain ⟨two, later, still⟩ := late.events
  refine ⟨⟨one ++ two, by rw [later, earlier, List.append_assoc], ?_⟩, late.adapters.trans early.adapters,
    late.control.trans early.control, late.held.trans early.held⟩
  intro event member
  exact (List.mem_append.mp member).elim (calm event) (still event)

theorem Calm.foldl {α : Type} {turn : Machine → α → Machine}
    (calm : ∀ machine item, Calm machine (turn machine item))
    (machine : Machine) (items : List α) : Calm machine (items.foldl turn machine) := by
  induction items generalizing machine with
  | nil => exact .refl machine
  | cons item items ih => exact (calm machine item).trans (ih _)

namespace Machine

variable (machine : Machine)

theorem record_calm {event : Event} (other : event.isApplied = false) : Calm machine (machine.record event) :=
  ⟨⟨[event], rfl, by simpa using other⟩, rfl, rfl, rfl⟩

theorem call_calm (call : LedgerCall) : Calm machine (machine.call call) := by
  unfold Machine.call
  cases machine.ledger.call call with
  | returned ledger deferred => exact ⟨⟨[.called call], rfl, by simp [Event.isApplied]⟩, rfl, rfl, rfl⟩
  | panicked ledger => exact ⟨⟨[], by simp [Machine.panic], by simp⟩, rfl, rfl, rfl⟩

theorem dropRequest_calm (id : RequestId) : Calm machine (machine.dropRequest id) := machine.record_calm rfl

theorem panic_calm : Calm machine machine.panic := ⟨⟨[], by simp [Machine.panic], by simp⟩, rfl, rfl, rfl⟩

theorem probe_calm (id : RequestId) : Calm machine (machine.probe id) := by
  unfold Machine.probe
  split_ifs
  · exact .refl machine
  · exact machine.panic_calm

theorem update_calm {change : Qwen3Scheduler → Qwen3Scheduler}
    (control : ∀ scheduler, (change scheduler).pendingControl = scheduler.pendingControl)
    (held : ∀ scheduler, (change scheduler).postControlDeferred = scheduler.postControlDeferred) :
    Calm machine (machine.update change) :=
  .same rfl rfl (control _) (held _)

theorem retireAborted_calm (id : RequestId) : Calm machine (machine.retireAborted id) :=
  (machine.call_calm _).trans (dropRequest_calm _ _)

theorem callIfActive_calm (call : LedgerCall) : Calm machine (machine.callIfActive call) := by
  unfold Machine.callIfActive
  split_ifs
  · exact machine.call_calm call
  · exact .refl machine

end Machine

namespace Applying

variable (aborted : RequestId → Bool) (state : Applying)

theorem finishOne_calm (id : RequestId) (push : Option LedgerCall) (reason : FinishReason) :
    Calm state.machine (state.finishOne aborted id push reason).machine := by
  unfold finishOne
  dsimp only
  split_ifs
  · exact (state.machine.probe_calm id).trans (Machine.call_calm _ _)
  · cases push with
    | none => exact state.machine.probe_calm id
    | some call => exact (state.machine.probe_calm id).trans (Machine.call_calm _ _)
  · exact .refl _

theorem continueOne_calm (id : RequestId) (push : LedgerCall)
    (advance : ActiveRequestState → ActiveRequestState) (index : Nat) :
    Calm state.machine (state.continueOne aborted id push advance index).machine := by
  unfold continueOne
  dsimp only
  split_ifs
  · exact (state.machine.probe_calm id).trans (Machine.retireAborted_calm _ _)
  · exact ((state.machine.probe_calm id).trans (Machine.call_calm _ _)).trans (.same rfl rfl rfl rfl)

theorem endOne_calm (id : RequestId) (push : Option LedgerCall) (reason : FinishReason) (index : Nat) :
    Calm state.machine (state.endOne aborted id push reason index).machine :=
  (finishOne_calm aborted state id push reason).trans (Machine.dropRequest_calm _ _)

theorem decodeOne_calm (effect : DecodeEffect) :
    Calm state.machine (state.decodeOne aborted effect).machine := by
  unfold decodeOne
  split
  · exact .refl _
  · cases effect with
    | finish | emitAndFinish | emitManyAndFinish => exact endOne_calm aborted state _ _ _ _
    | emitAndContinue | emitManyAndContinue => exact continueOne_calm aborted state _ _ _ _

theorem pendingOne_calm (effect : PendingEffect) :
    Calm state.machine (state.pendingOne aborted effect).machine := by
  cases effect with
  | finish | emitAndFinish => exact (finishOne_calm aborted state _ _ _).trans (Machine.dropRequest_calm _ _)
  | promote active firstToken logprob =>
    simp only [pendingOne]
    split_ifs
    · exact (state.machine.probe_calm _).trans (Machine.retireAborted_calm _ _)
    · exact ((state.machine.probe_calm _).trans (Machine.call_calm _ _)).trans (.same rfl rfl rfl rfl)
  | continuePrefill req =>
    simp only [pendingOne]
    split_ifs
    · exact (state.machine.probe_calm _).trans (Machine.retireAborted_calm _ _)
    · exact state.machine.probe_calm _

theorem foldl_calm {α : Type} {turn : Applying → α → Applying}
    (calm : ∀ state item, Calm state.machine (turn state item).machine)
    (items : List α) : Calm state.machine (items.foldl turn state).machine := by
  induction items generalizing state with
  | nil => exact .refl _
  | cons item items ih => exact (calm state item).trans (ih _)

end Applying

namespace Machine

variable (machine : Machine)

theorem applyEffects_calm (aborted : RequestId → Bool) (withholdsFinishes : Bool) (effects : StepEffects) :
    Calm machine (machine.applyEffects aborted withholdsFinishes effects) := by
  unfold Machine.applyEffects
  dsimp only
  refine Calm.trans ?_ (Calm.foldl (fun machine ended => machine.call_calm _) _ _)
  refine Calm.trans ?_ (update_calm _ (by intro; rfl) (by intro; rfl))
  refine Calm.trans ?_ (Applying.foldl_calm _ (Applying.pendingOne_calm aborted) _)
  refine Calm.trans ?_ (@Calm.same
    (List.foldl (Applying.decodeOne aborted) _ effects.decode).machine _ rfl rfl rfl rfl)
  refine Calm.trans ?_ (Applying.foldl_calm _ (Applying.decodeOne_calm aborted) _)
  refine Calm.trans ?_ (Calm.foldl (fun machine pair => machine.callIfActive_calm _) _ _)
  exact Calm.foldl (fun machine pair => machine.callIfActive_calm _) _ _

variable (config : Config) (env : StepEnv)

theorem settle_calm (aborted : RequestId → Bool) (artifacts : ExecutionArtifacts) :
    Calm machine (machine.settle config aborted artifacts) := by
  unfold Machine.settle
  split
  · exact machine.panic_calm
  · exact machine.applyEffects_calm _ _ _

theorem poll_calm : Calm machine (machine.poll config env) := by
  unfold Machine.poll
  split
  · exact (update_calm _ (by intro; rfl) (by intro; rfl)).trans (settle_calm _ _ _ _)
  · exact .refl machine

theorem reclaim_calm (ready : List RequestId) : Calm machine (machine.reclaim ready) := .same rfl rfl rfl rfl

theorem offer_calm (starts : RequestId → Bool) : Calm machine (machine.offer starts) := by
  unfold Machine.offer
  split_ifs
  · exact (update_calm _ (by intro; rfl) (by intro; rfl)).trans
      (Calm.foldl (fun machine id => machine.record_calm (by rfl)) _ _)
  · exact .refl machine

theorem rejectPending_calm (req : PendingRequest) (reason : RejectReason) :
    Calm machine (machine.rejectPending req reason) :=
  (machine.call_calm _).trans (dropRequest_calm _ _)

theorem admitOrRetire_calm (aborted : RequestId → Bool) (now : Instant) (req : PendingRequest) :
    Calm machine (machine.admitOrRetire aborted now req) := by
  unfold Machine.admitOrRetire
  dsimp only
  split_ifs
  · exact (machine.probe_calm _).trans (retireAborted_calm _ _)
  · exact ((machine.probe_calm _).trans (call_calm _ _)).trans (.same rfl rfl rfl rfl)

theorem validate_calm : Calm machine machine.validate := by
  unfold Machine.validate
  dsimp only
  refine Calm.trans ?_ (Calm.foldl (fun machine req => machine.rejectPending_calm _ _) _ _)
  refine Calm.trans ?_ (update_calm _ (by intro; rfl) (by intro; rfl))
  exact Calm.foldl (fun machine req => machine.record_calm (by rfl)) _ _

theorem admitAll_calm : Calm machine (machine.admitAll config env) := by
  unfold Machine.admitAll
  dsimp only
  refine Calm.trans ?_ (Calm.foldl (fun machine req => machine.admitOrRetire_calm _ _ _) _ _)
  refine Calm.trans ?_ (Calm.foldl (fun machine pair => machine.rejectPending_calm _ _) _ _)
  exact .same rfl rfl rfl rfl

theorem takeStep_calm : Calm machine (machine.takeStep config).2 := by
  unfold Machine.takeStep
  split_ifs
  · exact .refl machine
  · exact .same rfl rfl rfl rfl

theorem failTouchedRequests_calm (targets : List RequestId) (message : String) :
    Calm machine (machine.failTouchedRequests targets message) := by
  unfold Machine.failTouchedRequests
  refine Calm.trans ?_ (update_calm _ (by intro; rfl) (by intro; rfl))
  exact Calm.foldl (fun machine id => (machine.callIfActive_calm _).trans (dropRequest_calm _ _)) _ _

theorem execute_calm (plan : ExecutionPlan) : Calm machine (machine.execute config env plan) := by
  have ran := Calm.foldl (fun machine id => @record_calm machine (.ran id) rfl) machine
    (failureTargetIds machine.scheduler.active plan)
  unfold Machine.execute
  dsimp only
  refine ran.trans ?_
  split
  · exact panic_calm _
  · exact failTouchedRequests_calm _ _ _
  · rename_i artifacts _
    refine Calm.trans (settle_calm _ config env.abortedAtApply artifacts) ?_
    split
    · split_ifs
      · exact .same rfl rfl rfl rfl
      · exact .refl _
    · exact .refl _

end Machine

end PegaInfer.Qwen3
