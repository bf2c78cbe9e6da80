import PegaInfer.Glm52.Admission
import PegaInfer.Glm52.Plan

namespace PegaInfer.Glm52

open Frontend

/-- `PAGE`. -/
def page : Nat := 64

/-- `effectively_greedy` over `GLM52_VOCAB`; the bound is `1.0 / 154880` as an `f32`. -/
def takesArgmax (params : SamplingParams) : Bool :=
  params.isGreedy || params.topP.value.any fun topP => 0 < topP ∧ topP ≤ 14198239 / 2 ^ 41

structure ActiveRequest where
  req : GenerateRequest
  state : SlotState
  deriving DecidableEq

/-- The rank's slots, `none` past the end of the array. -/
abbrev RankSlots := Nat → Option ActiveRequest

/-- A resolved intake. -/
inductive Resolved
  | plain (req : GenerateRequest)
  | native (req : GenerateRequest) (handoff : NativeMtpHandoff)
  | failed (req : GenerateRequest) (message : String)
  deriving DecidableEq

/-- What a decode rank is launched with. -/
structure EngineConfig where
  maxModelLen : Nat
  decodeSlots : Nat
  /-- `glm52_decode_slots` clamps to the array. -/
  slotsFit : decodeSlots ≤ maxBatchPerRank
  mtpDraftLen : Nat
  spanDrafts : Nat
  eosTokenIds : List Token
  mirrored : Bool
  drafterEnabled : Bool
  kvOffload : Bool
  eagerForced : Bool

structure RankEngine where
  pending : List Resolved
  slots : RankSlots
  leasedShape : Option StepShape
  deferredReleases : List Nat

def RankEngine.start : RankEngine := ⟨[], fun _ => none, none, []⟩

/-- What the pool and the sinks answer one turn of the admission loop. -/
inductive AdmitAnswer
  /-- The front's receiver is gone. -/
  | closed
  /-- The front fits; `cachedTokens` of a plain prompt are matched. A native's client may be gone. -/
  | fits (cachedTokens : Nat) (clientGone : Bool)
  /-- The front is stalled, and the native at this place behind it is let past. -/
  | bypass (index : Nat) (clientGone : Bool)
  deriving DecidableEq

/-- What one turn of the loop does not decide itself. -/
structure TurnWorld where
  arrivals : List Resolved
  admissions : List AdmitAnswer
  /-- Whether the step was scheduled, ran on every executor and was applied. -/
  executed : Bool
  outputs : Nat → Token
  /-- Whether the receiver of a slot is found gone when the step is applied. -/
  gone : Nat → Bool
  drafts : List (Nat × List Token)

/-- The intake sweep: natives that need no capacity are answered at once. -/
def sweepNatives (pending : List Resolved) : List Resolved :=
  pending.filter fun entry =>
    match entry with
    | .native req handoff => handoff.anchorTokenId.isSome && decide (req.maxTokens ≠ 1)
    | _ => true

def RankEngine.seat (engine : RankEngine) (slot : Nat) (req : GenerateRequest)
    (state : SlotState) : RankEngine :=
  { engine with slots := Function.update engine.slots slot (some ⟨req, state⟩) }

/-- `admit_native` on a slot. -/
def RankEngine.seatNative (config : EngineConfig) (engine : RankEngine) (slot : Nat)
    (req : GenerateRequest) (handoff : NativeMtpHandoff)
    (clientGone : Bool) : Option (RankEngine × List Nat) :=
  (admitNative req handoff config.mtpDraftLen).map fun state =>
    if clientGone then (engine, [])
    else (engine.seat slot
      { req with promptTokens := req.promptTokens ++ handoff.anchorTokenId.toList } state, [slot])

/-- One turn of the `while let` on a free slot, with the slots it seats. The matcher leaves
the last prompt token uncached. `none` is an error, which ends the engine. -/
def RankEngine.admitOne (config : EngineConfig) (engine : RankEngine) (slot : Nat) :
    AdmitAnswer → Option (RankEngine × List Nat)
  | .closed => some ({ engine with pending := engine.pending.tail }, [])
  | .fits cachedTokens clientGone =>
    match engine.pending with
    | [] => some (engine, [])
    | .failed _ _ :: pending => some ({ engine with pending }, [])
    | .plain req :: pending =>
      let cached := min cachedTokens (req.promptTokens.length - 1)
      some (({ engine with pending } : RankEngine).seat slot req (seatPlain req cached), [slot])
    | .native req handoff :: pending =>
      RankEngine.seatNative config { engine with pending } slot req handoff clientGone
  | .bypass index clientGone =>
    match engine.pending[index]? with
    | some (.native req handoff) =>
      RankEngine.seatNative config { engine with pending := engine.pending.eraseIdx index } slot
        req handoff clientGone
    | _ => none

/-- The rest of `admit_from_queue`: it ends with the free slots, with the queue or where the
budget stops it. -/
def RankEngine.admitLoop (config : EngineConfig) :
    RankEngine → List AdmitAnswer → Option (RankEngine × List Nat)
  | engine, [] => some (engine, [])
  | engine, answer :: answers =>
    match (List.range config.decodeSlots).find? fun slot => (engine.slots slot).isNone with
    | none => some (engine, [])
    | some slot => do
      let (engine, now) ← engine.admitOne config slot answer
      let (engine, later) ← engine.admitLoop config answers
      some (engine, now ++ later)

def RankEngine.admitFromQueue (config : EngineConfig) (engine : RankEngine)
    (answers : List AdmitAnswer) : Option (RankEngine × List Nat) :=
  ({ engine with pending := sweepNatives engine.pending } : RankEngine).admitLoop config answers

/-- Admission freezes while a lease is outstanding. -/
def RankEngine.admitUnlessLeased (config : EngineConfig) (engine : RankEngine) (answers : List AdmitAnswer) :
    Option (RankEngine × List Nat) :=
  if engine.leasedShape.isNone then engine.admitFromQueue config answers else some (engine, [])

def RankEngine.allIdle (engine : RankEngine) : Bool :=
  (List.range maxBatchPerRank).all fun slot => (engine.slots slot).isNone

def feedWants (slots : RankSlots) : Vector Nat maxBatchPerRank :=
  Vector.ofFn fun slot => ((slots slot).map fun active => active.state.feedWant).getD 0

/-- `lease_ok`. The first row of a slot always has an input. -/
def leaseOk (state : SlotState) (maxModelLen : Nat) : Bool :=
  state.feedWant = 1 && (state.nextInputAt 0).any fun input => input.position + 1 < maxModelLen ∧
    (input.position + 1) % page ≠ 0

/-- The `lease` flag of `lease_flags`. -/
def RankEngine.lease (config : EngineConfig) (engine : RankEngine) : Bool :=
  engine.pending.isEmpty && !config.drafterEnabled && !config.kvOffload &&
    engine.deferredReleases.isEmpty && !engine.allIdle &&
    ((List.range maxBatchPerRank).all fun slot =>
      (engine.slots slot).all fun active => takesArgmax active.req.params.toSamplingParams &&
        leaseOk active.state config.maxModelLen) &&
    !config.eagerForced

/-- The contiguous runs of a row list: each slot with the outputs of its rows. -/
def spanRuns : List (UInt8 × Token) → List (Nat × List Token)
  | [] => []
  | (slot, output) :: rows =>
    match spanRuns rows with
    | (next, outputs) :: runs => if slot.toNat = next then (next, output :: outputs) :: runs
      else (slot.toNat, [output]) :: (next, outputs) :: runs
    | [] => [(slot.toNat, [output])]

def StepShape.runs (shape : StepShape) (outputs : Nat → Token) : List (Nat × List Token) :=
  spanRuns ((shape.slots.take shape.activeRows).zipIdx.map fun (slot, row) => (slot, outputs row))

/-- The positions one run of `submit_and_join_step` feeds; dead and padding rows keep the defaults. -/
def RankEngine.fedRun (engine : RankEngine) (run : Nat × List Token) : Option (Option (Nat × List Nat)) :=
  if run.1 ∈ engine.deferredReleases then some none
  else
    match engine.slots run.1 with
    | none => some none
    | some active =>
      ((List.range run.2.length).mapM active.state.nextInputAt).map fun inputs =>
        some (run.1, inputs.map StepInput.position)

/-- The `freed` of a slot's outcome: a finish, or a receiver found gone. -/
def StepOutcome.frees (outcome : StepOutcome) (gone : Bool) : Bool :=
  match outcome with
  | .prefilling => gone
  | .commit _ emit finish _ => (decide (0 < emit) && gone) || finish.isSome

/-- What the walk of `apply_step_outputs` carries: the engine, and the slots freed and those
given back so far. -/
structure Walk where
  engine : RankEngine
  freed : List Nat
  returned : List Nat

/-- One run of `apply_step_outputs`. -/
def Walk.applyRun (config : EngineConfig) (world : TurnWorld) (walk : Walk) (run : Nat × List Token) : Walk :=
  if run.1 ∈ walk.engine.deferredReleases then walk
  else
    match walk.engine.slots run.1 with
    | none => walk
    | some active =>
      let (state, outcome) := active.state.advanceSpan run.2 config.eosTokenIds
      let advanced := { walk.engine with
        slots := Function.update walk.engine.slots run.1 (some { active with state }) }
      if outcome.frees (world.gone run.1) then
        if walk.engine.leasedShape.isSome then
          { engine := { advanced with deferredReleases := walk.engine.deferredReleases ++ [run.1] }
            freed := walk.freed ++ [run.1], returned := walk.returned }
        else
          { engine := { walk.engine with slots := Function.update walk.engine.slots run.1 none }
            freed := walk.freed ++ [run.1], returned := walk.returned ++ [run.1] }
      else { walk with engine := advanced }

/-- `release_deferred`, with the slots whose pages go back. -/
def Walk.releaseDeferred (walk : Walk) : Walk :=
  { walk with
    engine := { walk.engine with
      slots := fun slot => if slot ∈ walk.engine.deferredReleases then none else walk.engine.slots slot
      deferredReleases := [] }
    returned := walk.returned ++ walk.engine.deferredReleases.filter fun slot =>
      (walk.engine.slots slot).isSome }

/-- The draft round's `set_drafts`. -/
def RankEngine.installDrafts (config : EngineConfig) (engine : RankEngine)
    (drafts : List (Nat × List Token)) : RankEngine :=
  drafts.foldl (fun engine (slot, span) =>
    match engine.slots slot with
    | none => engine
    | some active => engine.seat slot active.req (active.state.setDrafts span config.spanDrafts)) engine

/-- What one turn of the serve loop did. `returned` lists the slots whose pages went back to the
pool, which is after the join of the turn's own step. -/
structure Turn where
  deferredAtAdmission : Option (List Nat)
  seated : List Nat
  consume : Bool
  lease : Bool
  deferredAtLease : List Nat
  active : List Nat
  fed : List (Nat × List Nat)
  freed : List Nat
  returned : List Nat
  deriving DecidableEq

/-- One turn of `serve_loop` past its intake. `none` is fatal to the engine. -/
def RankEngine.serve (config : EngineConfig) (engine : RankEngine)
    (world : TurnWorld) : Option (Turn × RankEngine) := do
  let queued := { engine with pending := engine.pending ++ world.arrivals }
  let atAdmission := if engine.leasedShape.isNone then some engine.deferredReleases else none
  let (admitted, seated) ← queued.admitUnlessLeased config world.admissions
  if config.mirrored && admitted.allIdle
    then some (⟨atAdmission, seated, false, false, [], [], [], [], []⟩, admitted)
  else
    let consume := admitted.leasedShape.isSome
    let shape ← admitted.leasedShape.or (planStepShape (feedWants admitted.slots))
    let lease := admitted.lease config
    let leased := { admitted with leasedShape := if lease then some shape else none }
    if !world.executed then none
    else
      let runs := shape.runs world.outputs
      let fed ← runs.mapM leased.fedRun
      let applied := runs.foldl (Walk.applyRun config world) ⟨leased, [], []⟩
      let walk := if consume then applied.releaseDeferred else applied
      let after := if config.drafterEnabled then walk.engine.installDrafts config world.drafts
        else walk.engine
      let active := (List.range maxBatchPerRank).filter fun slot =>
        (leased.slots slot).isSome && !leased.deferredReleases.contains slot
      some (⟨atAdmission, seated, consume, lease, leased.deferredReleases, active, fed.reduceOption,
        walk.freed, walk.returned⟩, after)

end PegaInfer.Glm52
