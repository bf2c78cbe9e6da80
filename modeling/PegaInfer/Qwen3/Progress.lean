import PegaInfer.Qwen3.Applied
import PegaInfer.Qwen3.Calm

namespace PegaInfer.Qwen3

open Frontend

theorem DecodeEffect.push_of_continues {effect : DecodeEffect} (continues : effect.reason = none) :
    ∃ call, effect.push = some call := by
  cases effect with
  | finish | emitAndFinish | emitManyAndFinish => cases continues
  | emitAndContinue | emitManyAndContinue => exact ⟨_, rfl⟩

/-- The push of an effect fits any admitted account and leaves it open. -/
def Fits (push : Option LedgerCall) (id : RequestId) : Prop :=
  ∀ call, push = some call → call.id = id ∧ LedgerCall.closes call = false ∧
    ∀ account, Admitted account → LedgerCall.Allowed account call

theorem DecodeEffect.push_fits (effect : DecodeEffect) : Fits effect.push effect.requestId := by
  intro call push
  cases effect <;> cases push <;> exact ⟨rfl, rfl, fun account active => ⟨active, by simp⟩⟩

namespace Applying

variable {aborted : RequestId → Bool} {state : Applying} {effect : DecodeEffect} {index : Nat}

theorem decodeOne_ends (found : state.machine.scheduler.active.findIdx?
    (·.requestId = effect.requestId) = some index)
    {reason : FinishReason} (ends : effect.reason = some reason) :
    state.decodeOne aborted effect = state.endOne aborted effect.requestId effect.push reason index := by
  cases effect <;> cases ends <;> simp only [decodeOne, found] <;> rfl

theorem decodeOne_continues (found : state.machine.scheduler.active.findIdx?
    (·.requestId = effect.requestId) = some index)
    {call : LedgerCall} (continues : effect.reason = none) (push : effect.push = some call) :
    state.decodeOne aborted effect =
      state.continueOne aborted effect.requestId call effect.advance index := by
  cases effect <;> cases continues <;> cases push <;> simp only [decodeOne, found] <;> rfl

end Applying

theorem Admitted.probe {machine : Machine} {id : RequestId} (active : Admitted (machine.ledger.accounts id)) :
    machine.probe id = machine := by
  obtain ⟨held, completionTokens, opened, -⟩ := active
  exact Machine.probe_eq (by simp [opened])

/-- An event that moves a request on: it gets a token, or its answer is over. -/
def Event.movesOn (id : RequestId) : Event → Bool
  | .called (.pushTokens owner ids _) => decide (owner = id) && !ids.isEmpty
  | .called (.finish owner _) | .called (.deferFinish owner _) => decide (owner = id)
  | _ => false

/-- What happened between the two moves the request on. -/
def MovedOn (id : RequestId) (machine next : Machine) : Prop :=
  ∃ new : List Event, next.events = machine.events ++ new ∧ ∃ event ∈ new, event.movesOn id = true

theorem MovedOn.after {id : RequestId} {first second third : Machine} (moved : MovedOn id second third)
    (calm : Calm first second) : MovedOn id first third := by
  obtain ⟨new, later, event, member, moves⟩ := moved
  obtain ⟨old, earlier, -⟩ := calm.events
  exact ⟨old ++ new, by rw [later, earlier, List.append_assoc], event,
    List.mem_append_right old member, moves⟩

theorem MovedOn.before {id : RequestId} {first second third : Machine} (moved : MovedOn id first second)
    (calm : Calm second third) : MovedOn id first third := by
  obtain ⟨old, earlier, event, member, moves⟩ := moved
  obtain ⟨new, later, -⟩ := calm.events
  exact ⟨old ++ new, by rw [later, earlier, List.append_assoc], event, List.mem_append_left new member, moves⟩

/-- The loops of `apply_effects` have moved a request on, or have collected its
finish. -/
def Served (id : RequestId) (machine : Machine) (state : Applying) : Prop :=
  MovedOn id machine state.machine ∨ ∃ reason, (id, reason) ∈ state.finishes

/-- A turn of these loops: the history grows, and so do the finishes. -/
structure Grows (state next : Applying) : Prop where
  calm : Calm state.machine next.machine
  finishes : state.finishes <+: next.finishes

theorem Grows.trans {first second third : Applying} (early : Grows first second)
    (late : Grows second third) : Grows first third :=
  ⟨early.calm.trans late.calm, early.finishes.trans late.finishes⟩

theorem Grows.foldl {α : Type} {turn : Applying → α → Applying}
    (grows : ∀ state item, Grows state (turn state item))
    (state : Applying) (items : List α) : Grows state (items.foldl turn state) := by
  induction items generalizing state with
  | nil => exact ⟨.refl _, List.prefix_rfl⟩
  | cons item items ih => exact (grows state item).trans (ih _)

theorem Served.before {id : RequestId} {machine : Machine} {state next : Applying}
    (served : Served id machine state)
    (grows : Grows state next) : Served id machine next := by
  rcases served with moved | ⟨reason, collected⟩
  · exact .inl (moved.before grows.calm)
  · exact .inr ⟨reason, grows.finishes.subset collected⟩

theorem Served.after {id : RequestId} {first second : Machine} {state : Applying}
    (served : Served id second state)
    (calm : Calm first second) : Served id first state :=
  served.imp_left fun moved => moved.after calm

namespace Applying

variable (aborted : RequestId → Bool) (state : Applying)

theorem finishOne_finishes (id : RequestId) (push : Option LedgerCall) (reason : FinishReason) :
    state.finishes <+: (state.finishOne aborted id push reason).finishes := by
  unfold finishOne
  dsimp only
  split_ifs
  · exact List.prefix_rfl
  · exact List.prefix_append _ _
  · exact List.prefix_rfl

theorem decodeOne_grows (effect : DecodeEffect) : Grows state (state.decodeOne aborted effect) := by
  refine ⟨decodeOne_calm aborted state effect, ?_⟩
  unfold decodeOne
  split
  · exact List.prefix_rfl
  · cases effect with
    | finish | emitAndFinish | emitManyAndFinish => exact finishOne_finishes aborted state _ _ _
    | emitAndContinue | emitManyAndContinue =>
      simp only [continueOne]
      split_ifs <;> exact List.prefix_rfl

theorem pendingOne_grows (effect : PendingEffect) : Grows state (state.pendingOne aborted effect) := by
  refine ⟨pendingOne_calm aborted state effect, ?_⟩
  cases effect with
  | finish | emitAndFinish => exact finishOne_finishes aborted state _ _ _
  | promote | continuePrefill =>
    simp only [pendingOne]
    split_ifs <;> exact List.prefix_rfl

variable {aborted state}

theorem finishOne_served {id : RequestId} (active : Admitted (state.machine.ledger.accounts id))
    (lowered : aborted id = false)
    (push : Option LedgerCall) (reason : FinishReason) :
    (id, reason) ∈ (state.finishOne aborted id push reason).finishes := by
  simp [finishOne, active.isActive, lowered]

/-- A decode effect serves its request, unless that is aborted. -/
theorem decodeOne_served {effect : DecodeEffect} {index : Nat}
    (found : state.machine.scheduler.active.findIdx? (·.requestId = effect.requestId) = some index)
    (active : Admitted (state.machine.ledger.accounts effect.requestId))
    (lowered : aborted effect.requestId = false)
    (emits : effect.reason = none → effect.emits ≠ []) :
    Served effect.requestId state.machine (state.decodeOne aborted effect) := by
  cases ends : effect.reason with
  | some reason =>
    rw [decodeOne_ends found ends]
    exact .inr ⟨reason, finishOne_served active lowered effect.push reason⟩
  | none =>
    obtain ⟨call, push⟩ := DecodeEffect.push_of_continues ends
    obtain ⟨own, -, allowed⟩ := effect.push_fits call push
    have filled := emits ends
    rw [decodeOne_continues found ends push]
    have run : state.continueOne aborted effect.requestId call effect.advance index =
        { state with
          machine := (state.machine.call call).update fun scheduler =>
            { scheduler with active := scheduler.active.modify index effect.advance } } := by
      simp [continueOne, active.probe, lowered]
    obtain ⟨did, -⟩ := @Machine.call_did state.machine call (allowed _ (own ▸ active))
    rw [run]
    refine .inl ⟨[.called call], did.events, .called call, List.mem_cons_self, ?_⟩
    have pushes : DecodeEffect.emits effect = LedgerCall.tokens call := by simp [DecodeEffect.emits, push]
    rw [pushes] at filled
    cases call with
    | pushTokens owner ids logprobs =>
      have named : owner = effect.requestId := own
      simpa [Event.movesOn, LedgerCall.tokens, named] using filled
    | _ => exact absurd rfl filled

/-- The effect of a completed prefill serves its request, unless that is aborted. -/
theorem pendingOne_served {effect : PendingEffect} (completes : ∀ req, effect ≠ .continuePrefill req)
    (active : Admitted (state.machine.ledger.accounts effect.requestId))
    (lowered : aborted effect.requestId = false) :
    Served effect.requestId state.machine (state.pendingOne aborted effect) := by
  cases effect with
  | continuePrefill req => exact absurd rfl (completes req)
  | finish id reason => exact .inr ⟨reason, finishOne_served active lowered none reason⟩
  | emitAndFinish id token logprob reason =>
    exact .inr ⟨reason, finishOne_served active lowered (some (.pushTokens id [token] [logprob])) reason⟩
  | promote running firstToken logprob =>
    have run : state.pendingOne aborted (.promote running firstToken logprob) =
        { state with
          machine := (state.machine.call
            (.pushTokens running.requestId [firstToken] [logprob])).update fun scheduler =>
            { scheduler with active := scheduler.active ++ [running] } } := by
      have opened : state.machine.probe running.requestId = state.machine := active.probe
      have flag : aborted running.requestId = false := lowered
      simp [pendingOne, opened, flag]
    obtain ⟨did, -⟩ := @Machine.call_did state.machine (.pushTokens running.requestId [firstToken] [logprob])
      ⟨active, by simp⟩
    rw [run]
    refine .inl ⟨_, did.events, _, List.mem_cons_self, ?_⟩
    simp [Event.movesOn, PendingEffect.requestId]

end Applying

/-- Every finish that was collected moves its request on. -/
theorem Kept.finishAll_moved {telling : Telling} {submitted : List Submission} {machine : Machine}
    {entries : Multiset Entry}
    {finishes : List (RequestId × FinishReason)} (withholdsFinishes : Bool)
    (kept : Kept telling submitted machine (every .finishing finishes + entries)) :
    ∀ ended ∈ finishes, MovedOn ended.1 machine (finishes.foldl (fun machine ended =>
      machine.call (if withholdsFinishes then .deferFinish ended.1 ended.2
        else .finish ended.1 ended.2)) machine) := by
  induction finishes generalizing machine with
  | nil => simp
  | cons ended finishes ih =>
    have active : Admitted (machine.ledger.accounts ended.1) :=
      kept.standing (Multiset.mem_add.mpr (.inl (mem_every .finishing List.mem_cons_self)))
    have alone : Kept telling submitted machine
        (every .finishing [ended] + (every .finishing finishes + entries)) := by
      rwa [← add_assoc, ← every_append]
    have first := (alone.finishAll withholdsFinishes).1
    intro other member
    rcases List.mem_cons.mp member with rfl | later
    · have moved : MovedOn other.1 machine (machine.call
          (if withholdsFinishes then .deferFinish other.1 other.2 else .finish other.1 other.2)) := by
        cases withholdsFinishes with
        | true =>
          obtain ⟨did, -⟩ := @Machine.call_did machine (.deferFinish other.1 other.2) active
          exact ⟨_, did.events, _, List.mem_cons_self, by simp [Event.movesOn]⟩
        | false =>
          obtain ⟨did, -⟩ := @Machine.call_did machine (.finish other.1 other.2) active
          exact ⟨_, did.events, _, List.mem_cons_self, by simp [Event.movesOn]⟩
      exact moved.before (Calm.foldl (fun machine ended => machine.call_calm _) _ finishes)
    · exact (ih first other later).after (machine.call_calm _)

end PegaInfer.Qwen3
