import PegaInfer.Qwen3.NoneLost

namespace PegaInfer.Qwen3

open Frontend

/-- Each event of a history may follow what was there before it. -/
def Follows (may : List Event → Event → Prop) (events : List Event) : Prop :=
  ∀ before event rest, events = before ++ event :: rest → may before event

theorem Follows.nil {may : List Event → Event → Prop} : Follows may [] := by
  intro before event rest shape
  simp at shape

theorem Follows.append {may : List Event → Event → Prop} {events new : List Event} (old : Follows may events)
    (later : ∀ before event rest, new = before ++ event :: rest → may (events ++ before) event) :
    Follows may (events ++ new) := by
  intro before event rest shape
  rcases List.append_eq_append_iff.mp shape with ⟨middle, rfl, tail⟩ | ⟨middle, front, tail⟩
  · exact later middle event rest tail
  · cases middle with
    | nil =>
      rw [List.append_nil] at front
      subst front
      have first := later [] event rest tail.symm
      rwa [List.append_nil] at first
    | cons head middle =>
      obtain ⟨rfl, rfl⟩ := List.cons_eq_cons.mp tail
      exact old before event middle front

/-- An event about a request comes after the commands it was submitted behind. -/
def comesAfter (submission : Submission) (before : List Event) (event : Event) : Prop :=
  event.about = some submission.id → submission.ahead ≤ before.countP Event.isApplied

/-- A command is applied before a request is let through or after it is closed. -/
def leavesAlone (submission : Submission) (before : List Event) (event : Event) : Prop :=
  event.isApplied = true → submission.ahead = 0 ∨ (∃ earlier ∈ before, earlier.about = some submission.id) →
    ∃ earlier ∈ before, earlier.closes = true

section

variable {telling : Telling} {submission : Submission} {events new : List Event} {stage : Stage}

theorem isApplied_of_about {event : Event} {id : RequestId} (about : event.about = some id) :
    event.isApplied = false := by
  cases event <;> first | rfl | simp [Event.about] at about

/-- A request behind commands has seen nothing but commands. -/
theorem Life.held_sees (life : Life telling submission events stage) (held : stage = .held) :
    submission.ahead ≠ 0 ∧ ∀ event ∈ events, event.about = none := by
  induction life with
  | held behind => exact ⟨behind, by simp⟩
  | applied control _ _ ih =>
    obtain ⟨behind, none⟩ := ih held
    refine ⟨behind, ?_⟩
    intro event member
    rcases List.mem_append.mp member with old | last
    · exact none event old
    · obtain rfl := List.mem_singleton.mp last
      rfl
  | noted event _ notes _ _ =>
    subst held
    simp [Stage.notes] at notes
  | waiting _ | released _ _ _ | rejected _ _ _ | retired _ _ _ | admitted _ _ _
  | filledOut _ _ _ _ _ _ | filledLast _ _ _ _ _ _ | promoted _ _ _ _ _ _
  | decodedOn _ _ _ _ _ _ _ | decodedLast _ _ _ _ _ _ | finished _ _ | deferred _ _
  | failed _ _ _ _ =>
    cases held

/-- What happens after the commands ahead and is no command keeps the order. -/
theorem Follows.comesAfter_append (old : Follows (comesAfter submission) events)
    (ready : submission.ahead ≤ events.countP Event.isApplied) :
    Follows (comesAfter submission) (events ++ new) :=
  old.append fun before event rest shape _ => by
    rw [List.countP_append]
    omega

theorem Follows.leavesAlone_append (old : Follows (leavesAlone submission) events)
    (about : ∀ event ∈ new, event.about = some submission.id) :
    Follows (leavesAlone submission) (events ++ new) :=
  old.append fun before event rest shape command => by
    have calm := isApplied_of_about (about event (by simp [shape]))
    rw [calm] at command
    cases command

/-- The order of commands in a life whose request is never parked under one. -/
theorem Life.ordered (life : Life telling submission events stage) (strict : ¬ telling.parked) :
    Follows (comesAfter submission) events ∧ Follows (leavesAlone submission) events ∧
      (stage ≠ .held → submission.ahead ≤ events.countP Event.isApplied) := by
  induction life with
  | held _ => exact ⟨.nil, .nil, fun other => absurd rfl other⟩
  | waiting none => exact ⟨.nil, .nil, fun _ => by simp [none]⟩
  | released _ ready ih => exact ⟨ih.1, ih.2.1, fun _ => ready⟩
  | @applied events stage control life quiet ih =>
    obtain ⟨after, alone, ready⟩ := ih
    refine ⟨?_, ?_, ?_⟩
    · refine after.append ?_
      intro before event rest shape about
      have command : event = .applied control := by
        have member : event ∈ [Event.applied control] := by simp [shape]
        exact List.mem_singleton.mp member
      rw [command] at about
      cases about
    · refine alone.append ?_
      intro before event rest shape _ opened
      have first : before = [] := by
        have length := congrArg List.length shape
        simp only [List.length_cons, List.length_nil, List.length_append] at length
        exact List.length_eq_zero_iff.mp (by omega)
      rw [first, List.append_nil] at opened ⊢
      cases stage with
      | held =>
        obtain ⟨behind, none⟩ := life.held_sees rfl
        rcases opened with zero | ⟨earlier, member, about⟩
        · exact absurd zero behind
        · rw [none earlier member] at about
          cases about
      | waiting | filling | decoding | finishing => exact absurd quiet strict
      | closed =>
        have once := life.closings
        have some_ : 0 < events.countP Event.closes := by
          rw [once]
          exact Nat.one_pos
        obtain ⟨earlier, member, closes⟩ := List.countP_pos_iff.mp some_
        exact ⟨earlier, member, closes⟩
    · intro other
      have before := ready other
      rw [List.countP_append]
      omega
  | @noted events stage event life notes about ih =>
    have free : stage ≠ .held := by
      rintro rfl
      simp [Stage.notes] at notes
    have ready := ih.2.2 free
    exact ⟨ih.1.comesAfter_append ready, ih.2.1.leavesAlone_append (by simpa using about), fun _ => by
      rw [List.countP_append]
      omega⟩
  | @retired events stage life running ih =>
    have free : stage ≠ .held := by
      rintro rfl
      simp [Stage.isRunning] at running
    have ready := ih.2.2 free
    exact ⟨ih.1.comesAfter_append ready,
      ih.2.1.leavesAlone_append (by simp [Event.about, LedgerCall.id]), fun _ => by
      rw [List.countP_append]
      omega⟩
  | @failed events stage message life running ih =>
    have free : stage ≠ .held := by
      rintro rfl
      simp [Stage.isRunning] at running
    have ready := ih.2.2 free
    exact ⟨ih.1.comesAfter_append ready,
      ih.2.1.leavesAlone_append (by simp [Event.about, LedgerCall.id]), fun _ => by
      rw [List.countP_append]
      omega⟩
  | decodedOn effect life told own _ push ih =>
    have ready := ih.2.2 (by simp)
    have named := (effect.push_fits _ push).1
    exact ⟨ih.1.comesAfter_append ready,
      ih.2.1.leavesAlone_append (by simp [Event.about, named, own]), fun _ => by
      rw [List.countP_append]
      omega⟩
  | decodedLast effect life told own _ ih =>
    have ready := ih.2.2 (by simp)
    refine ⟨ih.1.comesAfter_append ready, ih.2.1.leavesAlone_append ?_, fun _ => by
      rw [List.countP_append]
      omega⟩
    intro event member
    rcases List.mem_append.mp member with pushed | last
    · obtain ⟨call, known, rfl⟩ := List.mem_map.mp pushed
      have named := (effect.push_fits call (by simpa using known)).1
      simp [Event.about, named, own]
    · obtain rfl := List.mem_singleton.mp last
      rfl
  | rejected _ _ ih | admitted _ _ ih | filledOut _ _ _ _ _ ih | filledLast _ _ _ _ _ ih
  | promoted _ _ _ _ _ ih | finished _ ih | deferred _ ih =>
    have ready := ih.2.2 (by simp)
    exact ⟨ih.1.comesAfter_append ready,
      ih.2.1.leavesAlone_append (by simp [Event.about, LedgerCall.id]), fun _ => by
      rw [List.countP_append]
      omega⟩

end

/-- Nothing is known of the executor's answers, and no command finds a request that
waits. -/
def Telling.strict (isStopToken : Token → Bool) : Telling :=
  { isStopToken, prefills := fun _ _ => True, decodes := fun _ _ _ _ => True, parked := False,
    spares := True }

/-- Commands are applied while a request is parked on its prefetch. -/
def DrainsParked (config : Config) (run : Run) (env : StepEnv) : Prop :=
  (run.machine.beforeControl config env).scheduler.idle = true ∧
    (run.machine.beforeControl config env).scheduler.pendingControl ≠ [] ∧
    (run.machine.beforeControl config env).scheduler.loading ≠ []

/-- The order of commands around one request. -/
structure Ordered (run : Run) (submission : Submission) : Prop where
  comesAfter : Follows (comesAfter submission) (submission.history run.machine.events)
  leavesAlone : Follows (leavesAlone submission) (submission.history run.machine.events)

theorem Inv.ordered {telling : Telling} {run : Run}
    (inv : Inv telling run.submitted run.arrived run.machine) (strict : ¬ telling.parked)
    (spares : telling.spares) {submission : Submission} (known : submission ∈ run.submitted) :
    Ordered run submission := by
  have kept := inv.spared spares
  by_cases placed : submission.id ∈ run.machine.scheduler.placed.map Entry.id
  · obtain ⟨entry, member, own⟩ := Multiset.mem_map.mp placed
    obtain ⟨other, asked, same, -, life, -⟩ := kept.lives entry member
    obtain rfl := same_submission kept.fresh known asked (own.symm.trans same.symm)
    exact ⟨(life.ordered strict).1, (life.ordered strict).2.1⟩
  · obtain ⟨life, -⟩ := kept.over_ submission known placed
    exact ⟨(life.ordered strict).1, (life.ordered strict).2.1⟩

/-- Commands are applied in arrival order, no request is touched before the commands
ahead of it, and none is applied to a request that is under way. -/
theorem Reach.commands_in_order {config : Config} {run : Run}
    (reach : Reach config (fun run env => ¬ FailsBeside config run env ∧ ¬ DrainsParked config run env) run) :
    commands run.machine.events ++ run.machine.scheduler.pendingControl = run.arrived ∧
      ∀ submission ∈ run.submitted, Ordered run submission := by
  have inv := @Reach.inv (.strict config.isStopToken) config _ run rfl (.inr trivial)
      (fun run env spared => by
    refine ⟨fun _ _ _ _ _ _ _ _ _ _ => trivial, ?_, ?_,
      fun _ => ⟨fun _ _ _ _ _ _ => trivial, fun _ _ _ _ _ => trivial, fun _ _ _ _ _ _ _ _ _ _ => trivial⟩⟩
    · intro idle pending
      by_contra parked
      exact spared.2 ⟨idle, pending, fun empty => parked (.inr empty)⟩
    · intro _ pending planned failed
      by_contra running
      exact spared.1 ⟨pending, planned, failed, running⟩) reach
  exact ⟨inv.inOrder, fun submission known => inv.ordered id trivial known⟩

/-- A step on whose channel the adapter "a" is unloaded. -/
def unloadStep : StepEnv := { plainStep none with controls := [.unload "a"] }

/-- Request 1 is answered to its end before the command that arrives meanwhile is
applied, and request 2, submitted behind the command, after it. -/
theorem Reach.commands_in_order_one_command : ∃ run :
    Run, run.arrived = [.unload "a"] ∧ run.machine.scheduler.ids = [2] ∧
    commands run.machine.events = [.unload "a"] ∧ ∀ submission ∈ run.submitted, Ordered run submission := by
  have registered := @Reach.submit smallConfig
    (fun run env => ¬ FailsBeside smallConfig run env ∧ ¬ DrainsParked smallConfig run env)
      _ _ (smallRequest 1 false) 0
    .start rfl (by simp [Run.start]) (register_opened rfl)
  have free : ∀ run : Run, ¬ FailsBeside smallConfig run (plainStep none) := by
    rintro run ⟨pending, -, failed, -⟩
    exact failed rfl
  have one := registered.step (plainStep none) ⟨free _, by
    rintro ⟨-, -, parked⟩
    exact parked (by decide +kernel)⟩
  have two := one.step unloadStep ⟨by
      rintro ⟨pending, -, failed, -⟩
      exact failed rfl, by
    rintro ⟨-, -, parked⟩
    exact parked (by decide +kernel)⟩
  have behind := two.submit (smallRequest 2 false) 0 rfl (by decide +kernel)
    (register_opened (by decide +kernel))
  have three := behind.step (plainStep none) ⟨free _, by
    rintro ⟨-, -, parked⟩
    exact parked (by decide +kernel)⟩
  have four := three.step (plainStep none) ⟨free _, by
    rintro ⟨-, -, parked⟩
    exact parked (by decide +kernel)⟩
  have five := four.step (plainStep none) ⟨free _, by
    rintro ⟨-, -, parked⟩
    exact parked (by decide +kernel)⟩
  exact ⟨_, by decide +kernel, by decide +kernel, by decide +kernel, five.commands_in_order.2⟩

/-- Request 1 is parked on its prefetch when the command arrives. -/
def parkedUnder : Run :=
  ((Run.start.submit (smallRequest 1 false) (opened .new 1)).step smallConfig
    { plainStep none with starts := fun _ => true }).step
    smallConfig unloadStep

/-- The command is applied under it: accepted while none was pending, it is still
open. -/
theorem Reach.command_applied_under_parked :
    ∃ run submission, Reach smallConfig (fun _ _ => True) run ∧ submission ∈ run.submitted ∧
    submission.ahead = 0 ∧ submission.history run.machine.events = [.offered 1, .applied (.unload "a")] ∧
    submission.id ∈ run.machine.scheduler.loading.map (·.requestId) ∧ ¬ Ordered run submission := by
  have registered := @Reach.submit smallConfig
    (fun _ _ => True) _ _ (smallRequest 1 false) 0 .start rfl (by simp [Run.start])
    (register_opened rfl)
  have parked := registered.step { plainStep none with starts := fun _ => true } trivial
  have applied := parked.step unloadStep trivial
  have seen : Submission.history ⟨smallRequest 1 false, 0, 0⟩ parkedUnder.machine.events =
      [.offered 1, .applied (.unload "a")] := by
    decide +kernel
  refine ⟨parkedUnder, ⟨smallRequest 1 false, 0, 0⟩, applied, by decide +kernel, rfl,
    seen, by decide +kernel, ?_⟩
  intro ordered
  obtain ⟨earlier, member, closes⟩ :=
    ordered.leavesAlone [.offered 1] (.applied (.unload "a")) [] seen rfl (.inl rfl)
  obtain rfl := List.mem_singleton.mp member
  cases closes

end PegaInfer.Qwen3
