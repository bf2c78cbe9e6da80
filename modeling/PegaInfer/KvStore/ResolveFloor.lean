import PegaInfer.KvStore.Delivered
import PegaInfer.KvStore.Floor

namespace PegaInfer.KvStore

open PegaInfer.Kvbm

variable {H : Type} [DecidableEq H] [SequenceHashing H]

/-- An admission that is granted is covered without the pinned blocks it was
credited with. -/
def System.uncredited (s : System H) : Action → Bool
  | .admitDecide =>
    match s.gate with
    | .admitting k credited available =>
      match s.holders[k]? with
      | some (.request request) =>
        !request.covered credited available s.pool.entitledBlocks ||
          request.covered 0 available s.pool.entitledBlocks
      | _ => true
    | _ => true
  | _ => true

/-- The moves of the others: sparing ones, with nothing credited. -/
def UncreditedCalls (s : System H) (a : Action) : Bool := SparingCalls s (fun _ => 0) a && s.uncredited a

/-- The turns that take blocks out of the pools stay above the floor: the
probe, the commit, and what the others do. -/
def Resolve.sparing (call : ResolveCall) (w : Resolve H) : Turn → Bool
  | .pool a => UncreditedCalls w.system a
  | .begin false => w.system.spares (fun _ => 0) (.probe call.prompt call.salt)
  | .loadJoined =>
    match w.phase, w.load with
    | .loading p, some (r, .loaded) => w.system.spares (fun _ => 0) (.commit p r)
    | _, _ => true
  | _ => true

/-- A resolve beside the scheduler and other resolves, every turn sparing. It
starts from any pool that has what it promised, whatever moves led there, with
no stale reading under the gate. -/
inductive SparingResolve (call : ResolveCall) (blockSize numBlocks : Nat) : Resolve H → Prop
  | start {s : System H} {credits : Credits}
      (reach : EntitledReach (fun _ _ a => a.unpadded) blockSize numBlocks s credits)
      (above : s.pool.entitledBlocks ≤ s.pool.availableBlocks) (gate : s.GateOk fun _ => 0) :
      SparingResolve call blockSize numBlocks (.new s)
  | next {w w' : Resolve H} {turn : Turn} (before : SparingResolve call blockSize numBlocks w)
      (allowed : w.sparing call turn = true) (went : w.step call turn = some w') :
      SparingResolve call blockSize numBlocks w'

section Uncredited

variable {s s' : System H} {a : Action}

omit [DecidableEq H] [SequenceHashing H] in
theorem System.outstanding_none (counted : Counted s) : s.outstanding (fun _ => 0) = s.pool.entitled := by
  simp only [System.outstanding, counted.settled, Nat.cast_zero, sub_zero]

omit [DecidableEq H] [SequenceHashing H] in
theorem System.creditsAfter_none (other : a ≠ .admitDecide) :
    s.creditsAfter (fun _ => 0) s' a = fun _ => 0 := by
  cases a with
  | admitDecide => exact absurd rfl other
  | call k op => rw [System.creditsAfter_call, ite_self]; exact Function.update_eq_self k _
  | retire k => exact Function.update_eq_self k _
  | _ => rfl

theorem Counted.reached {credits : Credits} {blockSize numBlocks : Nat} (pos : 0 < blockSize)
    (reach : EntitledReach (fun _ _ a => a.unpadded) blockSize numBlocks s credits) : s.Ok ∧ Counted s := by
  induction reach with
  | start made => exact ⟨.new pos made, .new made⟩
  | next before allowed went ih =>
    exact ⟨ih.1.moved (System.step_moved went), ih.2.moved ih.1 allowed (System.step_moved went)⟩

/-- What is promised is there, and nobody waits for a match. -/
theorem Floor.uncredited (ok : s.Ok) (floor : Floor s fun _ => 0) (allowed : UncreditedCalls s a = true)
    (went : s.step a = some s') : Floor s' fun _ => 0 := by
  obtain ⟨sparing, uncredited⟩ := Bool.and_eq_true_iff.mp allowed
  obtain ⟨promised, spares⟩ := Bool.and_eq_true_iff.mp sparing
  have moved := System.step_moved went
  have after := floor.moved ok promised spares moved
  by_cases decides : a = .admitDecide
  · subst decides
    have counted := floor.counted.moved ok rfl moved
    cases moved with
    | @admitGranted k credited available request gate atK granted =>
      have free : request.covered 0 available s.pool.entitledBlocks = true := by
        simpa [System.uncredited, gate, atK, granted] using uncredited
      have admitted := floor.admitGranted gate atK free (Nat.zero_le _) counted
      rwa [Function.update_eq_self] at admitted
    | admitRefused gate atK => exact floor.turn counted trivial
  · rwa [System.creditsAfter_none decides] at after

end Uncredited

section Runs

variable {call : ResolveCall} {blockSize numBlocks : Nat} {w w' : Resolve H} {turn : Turn}

theorem Floor.detached {system : System H} (ok : w.system.Ok) (floor : Floor w.system fun _ => 0)
    (detached : w.detach = some w') (same : w'.system = system) : system.Ok ∧ Floor system fun _ => 0 := by
  subst same
  rcases Resolve.detach_cases detached with ⟨r, -, rfl⟩ | ⟨r, -, rfl⟩ | ⟨r, state, system, -, -, went, rfl⟩
  · exact ⟨ok, floor⟩
  · exact ⟨ok, floor⟩
  · exact ⟨ok.moved (System.step_moved went), floor.uncredited ok rfl went⟩

/-- Each turn of the resolve is at most one move on the pool. -/
theorem Floor.turned (ok : w.system.Ok) (floor : Floor w.system fun _ => 0)
    (allowed : w.sparing call turn = true)
    (turned : Resolve.Turned call w turn w') : w'.system.Ok ∧ Floor w'.system fun _ => 0 := by
  have next : ∀ {a : Action} {system : System H}, UncreditedCalls w.system a = true →
      w.system.step a = some system → system.Ok ∧ Floor system fun _ => 0 :=
    fun may went => ⟨ok.moved (System.step_moved went), floor.uncredited ok may went⟩
  cases turned with
  | pool apart went => exact next allowed went
  | settlesPanicked running joins went => exact next rfl went
  | settlesAlone running alone went => exact next rfl went
  | begin phase went =>
    simp only [Resolve.sparing] at allowed
    refine next ?_ went
    simpa [UncreditedCalls, SparingCalls, System.promised, System.uncredited] using allowed
  | capFull phase full went => exact next rfl went
  | readAvailable phase went => exact next rfl went
  | decide phase went granted => exact next rfl went
  | decideRefused phase went => exact next rfl went
  | take phase went more => exact next rfl went
  | takeFailed phase went => exact next rfl went
  | proceedCancelled phase went => exact next rfl went
  | joinedLoaded phase settled went =>
    simp only [Resolve.sparing, phase, settled] at allowed
    refine next ?_ went
    simpa [UncreditedCalls, SparingCalls, System.promised, System.uncredited] using allowed
  | joinedFailed phase settled went => exact next rfl went
  | loadElapsed phase detached => exact floor.detached ok detached rfl
  | finishNone phase went => exact next rfl went
  | finish phase atP went => exact next rfl went
  | discard phase went => exact next rfl went
  | dropLoading phase detached => exact floor.detached ok detached rfl
  | dropHold phase went => exact next rfl went
  | _ => exact ⟨ok, floor⟩

theorem SparingResolve.floor (pos : 0 < blockSize) (run : SparingResolve call blockSize numBlocks w) :
    w.system.Ok ∧ Floor w.system fun _ => 0 := by
  induction run with
  | @start s credits reach above gate =>
    obtain ⟨ok, counted⟩ := Counted.reached pos reach
    have promised := System.outstanding_none counted
    refine ⟨ok, counted, ?_, ?_, gate⟩
    · intro k
      unfold System.owedAt
      split
      · exact counted.owed_nonneg (List.mem_of_getElem? ‹_›)
      · exact le_rfl
    · have floor := (Int.self_le_toNat s.pool.entitled).trans (Int.ofNat_le.mpr above)
      exact promised.trans_le floor
  | next before allowed went ih => exact ih.2.turned ih.1 allowed (Resolve.step_turned went)

end Runs

end PegaInfer.KvStore
