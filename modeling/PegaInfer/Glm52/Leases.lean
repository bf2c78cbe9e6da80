import PegaInfer.Glm52.Walked

namespace PegaInfer.Glm52

/-- What holds of a decode rank between turns while no turn ends a request under two leases. -/
structure Inv (config : EngineConfig) (engine : RankEngine) : Prop where
  kept : Kept config engine
  unleased : engine.leasedShape = none → engine.deferredReleases = []
  leased : ∀ shape, engine.leasedShape = some shape → config.drafterEnabled = false ∧
    (∃ slot, (engine.slots slot).isSome = true) ∧
    ∃ ids, OneRow shape ids ∧ ∀ slot active, engine.slots slot = some active → slot ∈ ids

/-- No request ends in a step that replays a lease and is granted the next one. -/
def Quiet (config : EngineConfig) (engine : RankEngine) (world : TurnWorld) : Prop :=
  ∀ shape, engine.leasedShape = some shape →
    ({ engine with pending := engine.pending ++ world.arrivals } : RankEngine).lease config = true →
    ∀ run ∈ shape.runs world.outputs, ∀ active, engine.slots run.1 = some active →
      Frees config world run active = false

/-- What a turn shows on its own. -/
structure TurnSafe (turn : Turn) : Prop where
  kept : turn.lease = true → ∀ slot ∈ turn.freed, slot ∉ turn.returned
  clear : turn.lease = true → turn.deferredAtLease = []
  admission : ∀ deferred ∈ turn.deferredAtAdmission, deferred = []

/-- What the turn after a lease shows. -/
structure Replays (prev turn : Turn) : Prop where
  consumes : turn.consume = true
  frozen : turn.seated = []
  active : ∀ slot ∈ turn.active, ∃ positions, (slot, positions) ∈ turn.fed
  samePage : ∀ slot positions, (slot, positions) ∈ turn.fed →
    ∃ position, (slot, [position]) ∈ prev.fed ∧ positions = [position + 1] ∧
      (position + 1) / page = position / page
  chain : prev.freed ≠ [] → turn.lease = false

/-- How a lease turn leaves the rank to the turn that replays it. -/
structure Linked (turn : Turn) (engine : RankEngine) : Prop where
  leased : engine.leasedShape.isSome = turn.lease
  moved : turn.lease = true → ∀ slot active, engine.slots slot = some active →
    slot ∉ engine.deferredReleases →
    ∃ position input, (slot, [position]) ∈ turn.fed ∧ active.state.nextInputAt 0 = some input ∧
      input.position = position + 1 ∧ (position + 1) % page ≠ 0
  ended : turn.lease = true → turn.freed ≠ [] → engine.deferredReleases ≠ []

theorem mapM_some {α β : Type*} {f : α → Option β} {items : List α} {out : List β}
    (mapped : items.mapM f = some out) :
    (∀ item ∈ items, ∃ result, f item = some result ∧ result ∈ out) ∧
      ∀ result ∈ out, ∃ item ∈ items, f item = some result := by
  induction items generalizing out with
  | nil =>
    cases mapped
    exact ⟨by simp, by simp⟩
  | cons item items ih =>
    rw [List.mapM_cons] at mapped
    obtain ⟨result, here, later⟩ := Option.bind_eq_some_iff.mp mapped
    obtain ⟨results, rest, whole⟩ := Option.bind_eq_some_iff.mp later
    cases whole
    obtain ⟨forward, back⟩ := ih rest
    refine ⟨?_, ?_⟩
    · rintro other (_ | ⟨_, member⟩)
      · exact ⟨result, here, List.mem_cons_self ..⟩
      · obtain ⟨found, value, inside⟩ := forward other member
        exact ⟨found, value, List.mem_cons_of_mem _ inside⟩
    · rintro found (_ | ⟨_, member⟩)
      · exact ⟨item, List.mem_cons_self .., here⟩
      · obtain ⟨other, inside, value⟩ := back found member
        exact ⟨other, List.mem_cons_of_mem _ inside, value⟩

section

variable {config : EngineConfig} {engine : RankEngine}

/-- What a granted lease says of every active slot. -/
theorem lease_active (granted : engine.lease config = true) (kept : Kept config engine) {slot : Nat}
    {active : ActiveRequest}
    (found : engine.slots slot = some active) :
    active.state.feedWant = 1 ∧ ∃ input, active.state.nextInputAt 0 = some input ∧
      (input.position + 1) % page ≠ 0 := by
  unfold RankEngine.lease at granted
  simp only [Bool.and_eq_true, List.all_eq_true] at granted
  have here := granted.1.2 slot (List.mem_range.mpr (kept.within slot active found))
  rw [found] at here
  simp only [Option.all_some, Bool.and_eq_true] at here
  obtain ⟨-, ok⟩ := here
  unfold leaseOk at ok
  simp only [Bool.and_eq_true, decide_eq_true_eq] at ok
  obtain ⟨input, next, off⟩ := (Option.any_eq_true _ _).mp ok.2
  exact ⟨ok.1, input, next, (of_decide_eq_true off).2⟩

theorem lease_rank (granted : engine.lease config = true) :
    config.drafterEnabled = false ∧ engine.deferredReleases = [] ∧
      ∃ slot, (engine.slots slot).isSome = true := by
  unfold RankEngine.lease at granted
  simp only [Bool.and_eq_true, Bool.not_eq_true'] at granted
  obtain ⟨⟨⟨⟨⟨⟨-, drafter⟩, -⟩, deferred⟩, busy⟩, -⟩, -⟩ := granted
  refine ⟨drafter, List.isEmpty_iff.mp deferred, ?_⟩
  unfold RankEngine.allIdle at busy
  obtain ⟨slot, -, some_⟩ := List.all_eq_false.mp busy
  exact ⟨slot, by simpa [Option.isSome_iff_ne_none] using some_⟩

theorem lease_planned (granted : engine.lease config = true) (kept : Kept config engine) {shape : StepShape}
    (planned : planStepShape (feedWants engine.slots) = some shape) :
    ∃ ids, OneRow shape ids ∧ ∀ slot active, engine.slots slot = some active → slot ∈ ids := by
  have want : ∀ slot (low : slot < maxBatchPerRank), (feedWants engine.slots).toList[slot]? =
      some (((engine.slots slot).map fun active => active.state.feedWant).getD 0) := by
    intro slot low
    simp [feedWants, low]
  have single : ∀ want ∈ (feedWants engine.slots).toList, want ≤ 1 := by
    intro wanted member
    obtain ⟨slot, low, rfl⟩ := List.getElem_of_mem member
    rw [Vector.length_toList] at low
    have value := want slot low
    rw [List.getElem?_eq_getElem (by rw [Vector.length_toList]; exact low), Option.some.injEq] at value
    rw [value]
    cases found : engine.slots slot with
    | none => simp
    | some active => simp [(lease_active granted kept found).1]
  obtain ⟨ids, oneRow, all⟩ := planStepShape_oneRow single planned
  refine ⟨ids, oneRow, fun slot active found => all slot ?_⟩
  rw [want slot (kept.within slot active found), found, Option.map_some, Option.getD_some,
    (lease_active granted kept found).1]

/-- What a one-row step feeds. -/
theorem fedRun_single (engine : RankEngine) (id : Nat) (output : Token) :
    ∃ fed, engine.fedRun (id, [output]) = some fed ∧
      (∀ active, engine.slots id = some active → id ∉ engine.deferredReleases →
        ∃ input, active.state.nextInputAt 0 = some input ∧ fed = some (id, [input.position])) ∧
      ∀ entry ∈ fed, ∃ active input, engine.slots id = some active ∧ id ∉ engine.deferredReleases ∧
        active.state.nextInputAt 0 = some input ∧ entry = (id, [input.position]) := by
  unfold RankEngine.fedRun
  by_cases dead : id ∈ engine.deferredReleases
  · exact ⟨none, if_pos dead, fun active found owed => absurd dead owed, by simp⟩
  · rw [if_neg dead]
    dsimp only
    cases found : engine.slots id with
    | none => exact ⟨none, rfl, (fun active there => by cases there), by simp⟩
    | some active =>
      obtain ⟨input, next, -⟩ := active.state.nextInputAt_zero
      refine ⟨some (id, [input.position]), ?_, fun active' there _ => ?_, fun entry there => ?_⟩
      · simp [next]
      · cases there
        exact ⟨input, next, rfl⟩
      · cases there
        exact ⟨active, input, rfl, dead, next, rfl⟩

/-- The rows a one-row step feeds, slot by slot. -/
theorem fed_single {shape : StepShape} {ids : List Nat} (single : OneRow shape ids) {outputs : Nat → Token}
    {fed : List (Option (Nat × List Nat))} (mapped : (shape.runs outputs).mapM engine.fedRun = some fed) :
    (∀ slot active, slot ∈ ids → engine.slots slot = some active → slot ∉ engine.deferredReleases →
      ∃ input, active.state.nextInputAt 0 = some input ∧ (slot, [input.position]) ∈ fed.reduceOption) ∧
    ∀ slot positions, (slot, positions) ∈ fed.reduceOption → ∃ active input, engine.slots slot = some active ∧
      slot ∉ engine.deferredReleases ∧ active.state.nextInputAt 0 = some input ∧
        positions = [input.position] := by
  obtain ⟨forward, back⟩ := mapM_some mapped
  rw [single.runs] at forward back
  refine ⟨fun slot active member found owed => ?_, fun slot positions member => ?_⟩
  · obtain ⟨row, low, same⟩ := List.getElem_of_mem member
    have listed : (slot, row) ∈ ids.zipIdx :=
      List.mem_zipIdx_iff_getElem?.mpr (by rw [List.getElem?_eq_getElem low, same])
    obtain ⟨result, here, inside⟩ :=
      forward (slot, [outputs row]) (List.mem_map.mpr ⟨(slot, row), listed, rfl⟩)
    obtain ⟨result', here', fedActive, -⟩ := fedRun_single engine slot (outputs row)
    cases here.symm.trans here'
    obtain ⟨input, next, rfl⟩ := fedActive active found owed
    exact ⟨input, next, List.reduceOption_mem_iff.mpr inside⟩
  · obtain ⟨run, inside, value⟩ := back _ (List.reduceOption_mem_iff.mp member)
    obtain ⟨⟨id, row⟩, -, rfl⟩ := List.mem_map.mp inside
    obtain ⟨result', here', -, fedSlot⟩ := fedRun_single engine id (outputs row)
    cases value.symm.trans here'
    obtain ⟨active, input, found, owed, next, same⟩ := fedSlot _ rfl
    cases same
    exact ⟨active, input, found, owed, next, rfl⟩

theorem oneRow_slots {shape : StepShape} {ids : List Nat} (single : OneRow shape ids)
    (outputs : Nat → Token) :
    (shape.runs outputs).map Prod.fst = ids := by
  rw [single.runs, List.map_map]
  exact List.zipIdx_map_fst 0 ids

/-- A slot advanced by the one row of a leased step stands one position on. -/
theorem advance_moved {shape : StepShape} {ids : List Nat} (single : OneRow shape ids)
    {outputs : Nat → Token} {slot : Nat}
    {active : ActiveRequest} {tokens : List Token} (member : (slot, tokens) ∈ shape.runs outputs)
    (sound : active.state.Sound)
    (wants : active.state.feedWant = 1) {input : StepInput} (next : active.state.nextInputAt 0 = some input) :
    ∃ later, (active.advance config tokens).state.nextInputAt 0 = some later ∧
      later.position = input.position + 1 := by
  rw [single.runs] at member
  obtain ⟨⟨id, row⟩, -, same⟩ := List.mem_map.mp member
  cases same
  exact sound.single config.eosTokenIds (outputs row) wants next

/-- The walk of a step that was granted a lease. -/
theorem leased_walk {world : TurnWorld} (kept : Kept config engine) {shape : StepShape}
    (leased : engine.leasedShape = some shape)
    (none : engine.deferredReleases = [])
    (wants : ∀ slot active, engine.slots slot = some active → active.state.feedWant = 1 ∧
      ∃ input, active.state.nextInputAt 0 = some input ∧ (input.position + 1) % page ≠ 0)
    {ids : List Nat} (single : OneRow shape ids)
    (all : ∀ slot active, engine.slots slot = some active → slot ∈ ids)
    {fed : List (Option (Nat × List Nat))}
    (mapped : (shape.runs world.outputs).mapM engine.fedRun = some fed) :
    ∃ new, UnderLease config ⟨engine, [], []⟩ (shape.runs world.outputs)
        ((shape.runs world.outputs).foldl (Walk.applyRun config world) ⟨engine, [], []⟩) new ∧
      ((∀ run ∈ shape.runs world.outputs, ∀ active, engine.slots run.1 = some active →
        Frees config world run active = false) → new = []) ∧
      ∀ slot active', ((shape.runs world.outputs).foldl (Walk.applyRun config world)
        ⟨engine, [], []⟩).engine.slots slot = some active' →
        slot ∉ new → ∃ position input, (slot, [position]) ∈ fed.reduceOption ∧
          active'.state.nextInputAt 0 = some input ∧
          input.position = position + 1 ∧ (position + 1) % page ≠ 0 := by
  have slots := oneRow_slots single world.outputs
  obtain ⟨new, under, quiet⟩ := @Walk.underLease config world ⟨engine, [], []⟩
    (shape.runs world.outputs) (by rw [leased]; rfl) (by rw [slots]; exact single.distinct)
  refine ⟨new, under, quiet, fun slot active' found owed => ?_⟩
  have still : slot ∉ ((shape.runs world.outputs).foldl (Walk.applyRun config world)
      ⟨engine, [], []⟩).engine.deferredReleases := by
    rw [under.deferred]
    dsimp only
    rw [none]
    simpa using owed
  obtain ⟨active, before, ⟨out, -⟩ | ⟨tokens, member, rfl⟩⟩ := under.advanced slot active' found still
  · rw [slots] at out
    exact absurd (all slot active before) out
  · obtain ⟨one, input, next, off⟩ := wants slot active before
    obtain ⟨input', next', listed⟩ :=
      (fed_single single mapped).1 slot active (all slot active before) before (by rw [none]; simp)
    cases next.symm.trans next'
    obtain ⟨later, moved, position⟩ :=
      @advance_moved config _ _ single _ _ _ _ member (kept.sound slot active before) one _ next
    exact ⟨input.position, later, listed, moved, position, off⟩

/-- What the admission of a turn leaves: under a lease nothing changes but the queue. -/
theorem Inv.admitted (inv : Inv config engine) {world : TurnWorld}
    (accepted : ∀ entry ∈ world.arrivals, Accepted config entry) {admitted : RankEngine} {seated : List Nat}
    (outcome : ({ engine with pending := engine.pending ++ world.arrivals } :
      RankEngine).admitUnlessLeased config world.admissions =
      some (admitted, seated)) :
    Kept config admitted ∧ admitted.leasedShape = engine.leasedShape ∧
      admitted.deferredReleases = engine.deferredReleases ∧
      (engine.leasedShape.isSome = true →
        admitted = { engine with pending := engine.pending ++ world.arrivals } ∧ seated = []) := by
  have queued : Kept config { engine with pending := engine.pending ++ world.arrivals } :=
    ⟨fun entry member => (List.mem_append.mp member).elim (inv.kept.queued entry) (accepted entry),
      inv.kept.sound, inv.kept.within⟩
  unfold RankEngine.admitUnlessLeased at outcome
  by_cases unleased : engine.leasedShape.isNone = true
  · rw [if_pos unleased, RankEngine.admitFromQueue] at outcome
    have swept := @Kept.pending _ _ queued (sweepNatives (engine.pending ++ world.arrivals))
      fun entry member => List.mem_of_mem_filter member
    obtain ⟨kept, leased, deferred⟩ := swept.admitLoop outcome
    refine ⟨kept, leased, deferred, fun some_ => ?_⟩
    rw [Option.isNone_iff_eq_none.mp unleased] at some_
    cases some_
  · rw [if_neg unleased] at outcome
    cases outcome
    exact ⟨queued, rfl, rfl, fun _ => ⟨rfl, rfl⟩⟩

/-- The rank at a step's submission. -/
def leasedFor (config : EngineConfig) (admitted : RankEngine) (shape : StepShape) : RankEngine :=
  { admitted with leasedShape := if admitted.lease config then some shape else none }

/-- The walk of a step's outputs, with the release after a replayed step. -/
def walkOf (config : EngineConfig) (world : TurnWorld) (admitted : RankEngine) (shape : StepShape) : Walk :=
  let applied := (shape.runs world.outputs).foldl (Walk.applyRun config world)
    ⟨leasedFor config admitted shape, [], []⟩
  if admitted.leasedShape.isSome then applied.releaseDeferred else applied

/-- Everything one turn can do. -/
theorem serve_cases {world : TurnWorld} {turn : Turn} {after : RankEngine}
    (served : engine.serve config world = some (turn, after)) :
    ∃ admitted seated,
      ({ engine with pending := engine.pending ++ world.arrivals } : RankEngine).admitUnlessLeased
        config
        world.admissions = some (admitted, seated) ∧
      turn.deferredAtAdmission = (if engine.leasedShape.isNone then some engine.deferredReleases
        else none) ∧ turn.seated = seated ∧
      ((admitted.allIdle = true ∧ turn.lease = false ∧ turn.freed = [] ∧ after = admitted) ∨
        ∃ shape fed, admitted.leasedShape.or (planStepShape (feedWants admitted.slots)) = some shape ∧
          (shape.runs world.outputs).mapM (leasedFor config admitted shape).fedRun = some fed ∧
          turn.consume = admitted.leasedShape.isSome ∧ turn.lease = admitted.lease config ∧
          turn.deferredAtLease = admitted.deferredReleases ∧
          turn.active = (List.range maxBatchPerRank).filter
            (fun slot => (admitted.slots slot).isSome && !admitted.deferredReleases.contains slot) ∧
          turn.fed = fed.reduceOption ∧ turn.freed = (walkOf config world admitted shape).freed ∧
          turn.returned = (walkOf config world admitted shape).returned ∧
          after = if config.drafterEnabled
            then (walkOf config world admitted shape).engine.installDrafts config world.drafts
            else (walkOf config world admitted shape).engine) := by
  unfold RankEngine.serve at served
  obtain ⟨⟨admitted, seated⟩, admission, rest⟩ := Option.bind_eq_some_iff.mp served
  refine ⟨admitted, seated, admission, ?_⟩
  dsimp only at rest
  split at rest
  · rename_i idle
    cases rest
    exact ⟨rfl, rfl, Or.inl ⟨by simpa using (Bool.and_eq_true_iff.mp idle).2, rfl, rfl, rfl⟩⟩
  · obtain ⟨shape, planned, rest⟩ := Option.bind_eq_some_iff.mp rest
    split at rest
    · cases rest
    · obtain ⟨fed, mapped, whole⟩ := Option.bind_eq_some_iff.mp rest
      cases whole
      exact ⟨rfl, rfl, Or.inr ⟨shape, fed, planned, mapped, rfl, rfl, rfl, rfl, rfl, rfl, rfl, rfl⟩⟩

theorem Kept.installDrafts (kept : Kept config engine) (drafts : List (Nat × List Token)) :
    Kept config (engine.installDrafts config drafts) ∧
      (engine.installDrafts config drafts).leasedShape = engine.leasedShape ∧
      (engine.installDrafts config drafts).deferredReleases = engine.deferredReleases := by
  induction drafts generalizing engine with
  | nil => exact ⟨kept, rfl, rfl⟩
  | cons draft drafts ih =>
    rw [RankEngine.installDrafts, List.foldl_cons]
    dsimp only
    split
    · exact ih kept
    · rename_i active found
      obtain ⟨last, shape, deferred⟩ :=
        ih (@Kept.seat _ _ kept draft.1 active.req _ (kept.within _ active found)
        ((kept.sound _ active found).drafts draft.2 config.spanDrafts))
      exact ⟨last, shape, deferred⟩

theorem Kept.leasedFor {admitted : RankEngine} (kept : Kept config admitted) (shape : StepShape) :
    Kept config (leasedFor config admitted shape) := ⟨kept.queued, kept.sound, kept.within⟩

/-- A walk that deferred nothing is not changed by the release. -/
theorem releaseDeferred_none {walk : Walk} (none : walk.engine.deferredReleases = []) :
    walk.releaseDeferred = walk := by
  obtain ⟨⟨pending, slots, leased, deferred⟩, freed, returned⟩ := walk
  dsimp only at none
  subst none
  simp [Walk.releaseDeferred]

/-- The walk after a step that was granted a lease: nothing goes back, and a replaying step defers nothing. -/
theorem granted_walk {world : TurnWorld} {admitted : RankEngine} (kept : Kept config admitted)
    (granted : admitted.lease config = true)
    {shape : StepShape} {ids : List Nat} (single : OneRow shape ids)
    (all : ∀ slot active, admitted.slots slot = some active → slot ∈ ids)
    {fed : List (Option (Nat × List Nat))}
    (mapped : (shape.runs world.outputs).mapM (leasedFor config admitted shape).fedRun = some fed)
    (quiet : admitted.leasedShape.isSome = true →
      ∀ run ∈ shape.runs world.outputs, ∀ active, admitted.slots run.1 = some active →
      Frees config world run active = false) :
    ∃ new, (walkOf config world admitted shape).returned = [] ∧
      (walkOf config world admitted shape).freed = new ∧
      (walkOf config world admitted shape).engine.deferredReleases = new ∧
      (walkOf config world admitted shape).engine.leasedShape = some shape ∧
      Kept config (walkOf config world admitted shape).engine ∧
      (∀ slot, ((walkOf config world admitted shape).engine.slots slot).isSome =
        (admitted.slots slot).isSome) ∧
      ∀ slot active', (walkOf config world admitted shape).engine.slots slot = some active' → slot ∉ new →
        ∃ position input, (slot, [position]) ∈ fed.reduceOption ∧ active'.state.nextInputAt 0 = some input ∧
          input.position = position + 1 ∧ (position + 1) % page ≠ 0 := by
  obtain ⟨-, owed, -⟩ := lease_rank granted
  have leased : (leasedFor config admitted shape).leasedShape = some shape := if_pos granted
  obtain ⟨new, under, calm, moved⟩ := @leased_walk _ _ world (kept.leasedFor shape) _ leased owed
    (fun slot active found => lease_active granted kept found) _ single all _ mapped
  obtain ⟨walkKept, walkShape, -, -⟩ := @Kept.walked config world ⟨leasedFor config admitted shape, [], []⟩
    (shape.runs world.outputs) (kept.leasedFor shape) (spanRuns_ne_nil _)
  have deferred := under.deferred
  rw [show (⟨leasedFor config admitted shape, [], []⟩ : Walk).engine.deferredReleases = []
    from owed, List.nil_append] at deferred
  have whole : walkOf config world admitted shape =
      (shape.runs world.outputs).foldl (Walk.applyRun config world)
        ⟨leasedFor config admitted shape, [], []⟩ := by
    unfold walkOf
    dsimp only
    split
    · rename_i consume
      have none := calm (quiet consume)
      exact releaseDeferred_none (deferred.trans none)
    · rfl
  rw [whole]
  exact ⟨new, under.returned, under.freed, deferred, walkShape.trans leased, walkKept, under.seats, moved⟩

/-- The walk after a step that was granted none: no release is outstanding. -/
theorem plain_walk {world : TurnWorld} {admitted : RankEngine} (kept : Kept config admitted)
    (plain : admitted.lease config = false)
    (owed : admitted.leasedShape = none → admitted.deferredReleases = []) (shape : StepShape) :
    (walkOf config world admitted shape).engine.deferredReleases = [] ∧
      (walkOf config world admitted shape).engine.leasedShape = none ∧
        Kept config (walkOf config world admitted shape).engine := by
  have unleased : (leasedFor config admitted shape).leasedShape = none :=
    if_neg (by rw [plain]; exact Bool.false_ne_true)
  obtain ⟨walkKept, walkShape, -, deferred⟩ :=
    @Kept.walked config world ⟨leasedFor config admitted shape, [], []⟩
    (shape.runs world.outputs) (kept.leasedFor shape) (spanRuns_ne_nil _)
  unfold walkOf
  dsimp only
  split
  · refine ⟨rfl, walkShape.trans unleased, walkKept.clear fun slot active found => ?_⟩
    split at found
    · cases found
    · exact found
  · rename_i fresh
    exact ⟨(deferred unleased).trans (owed (by simpa using fresh)), walkShape.trans unleased, walkKept⟩

theorem Linked.plain {turn : Turn} (plain : turn.lease = false)
    (unleased : engine.leasedShape = none) : Linked turn engine := by
  refine ⟨by rw [unleased, plain]; rfl, fun granted => ?_, fun granted => ?_⟩
  all_goals
    rw [plain] at granted
    cases granted

theorem TurnSafe.plain {turn : Turn} (plain : turn.lease = false)
    (admission : ∀ deferred ∈ turn.deferredAtAdmission, deferred = []) :
    TurnSafe turn := by
  refine ⟨fun granted => ?_, fun granted => ?_, admission⟩
  all_goals
    rw [plain] at granted
    cases granted

/-- The step after a lease feeds every slot that goes on, one position further in the same page. -/
theorem Linked.replays {prev turn : Turn} (linked : Linked prev engine)
    (granted : prev.lease = true) {shape : StepShape} {ids : List Nat}
    (single : OneRow shape ids) (all : ∀ slot active, engine.slots slot = some active → slot ∈ ids)
    {world : TurnWorld}
    {submitted : RankEngine} (slots : submitted.slots = engine.slots)
    (deferred : submitted.deferredReleases = engine.deferredReleases)
    {fed : List (Option (Nat × List Nat))}
    (mapped : (shape.runs world.outputs).mapM submitted.fedRun = some fed)
    (consumes : turn.consume = true) (frozen : turn.seated = []) (feds : turn.fed = fed.reduceOption)
    (active : turn.active = (List.range maxBatchPerRank).filter
      (fun slot => (submitted.slots slot).isSome && !submitted.deferredReleases.contains slot))
    (clear : turn.lease = true → engine.deferredReleases = []) : Replays prev turn := by
  obtain ⟨forward, back⟩ := fed_single single mapped
  refine ⟨consumes, frozen, fun slot member => ?_, fun slot positions member => ?_, fun ended => ?_⟩
  · rw [active, List.mem_filter, Bool.and_eq_true, Bool.not_eq_true', List.contains_eq_mem,
      decide_eq_false_iff_not] at member
    obtain ⟨-, busy, owed⟩ := member
    obtain ⟨request, found⟩ := Option.isSome_iff_exists.mp busy
    obtain ⟨input, -, listed⟩ := forward slot request (all slot request (by rw [← slots, found])) found owed
    exact ⟨[input.position], by rw [feds]; exact listed⟩
  · rw [feds] at member
    obtain ⟨request, input, found, owed, next, rfl⟩ := back slot positions member
    rw [slots] at found
    rw [deferred] at owed
    obtain ⟨position, input', before, next', step, off⟩ := linked.moved granted slot request found owed
    cases next.symm.trans next'
    refine ⟨position, before, by rw [step], ?_⟩
    dsimp only [page] at off ⊢
    omega
  · by_contra again
    exact linked.ended granted ended (clear (by simpa using again))

/-- One turn keeps the invariant, links itself to the next, and replays what the turn before it leased. -/
theorem Inv.serve (inv : Inv config engine) {world : TurnWorld}
    (accepted : ∀ entry ∈ world.arrivals, Accepted config entry) (quiet : Quiet config engine world)
    {turn : Turn} {after : RankEngine}
    (served : engine.serve config world = some (turn, after)) :
    Inv config after ∧ Linked turn after ∧ TurnSafe turn ∧ ∀ prev, Linked prev engine →
      prev.lease = true → Replays prev turn := by
  obtain ⟨admitted, seated, admission, atAdmission, seats, outcome⟩ := serve_cases served
  obtain ⟨kept, shapeSame, deferredSame, frozen⟩ := inv.admitted accepted admission
  have admissionClear : ∀ deferred ∈ turn.deferredAtAdmission, deferred = [] := by
    intro deferred member
    rw [atAdmission] at member
    split at member
    · rename_i unleased
      cases member
      exact inv.unleased (Option.isNone_iff_eq_none.mp unleased)
    · cases member
  have owed : admitted.leasedShape = none → admitted.deferredReleases = [] := fun none =>
    deferredSame.trans (inv.unleased (shapeSame.symm.trans none))
  have slotsSame : engine.leasedShape.isSome = true → admitted.slots = engine.slots :=
    fun some_ => by rw [(frozen some_).1]
  rcases outcome with ⟨idle, plain, ended, rfl⟩ | ⟨shape, fed, planned, mapped, consume, lease,
    atLease, active, feds, freed, returned, rfl⟩
  · have unleased : engine.leasedShape = none := by
      cases found : engine.leasedShape with
      | none => rfl
      | some shape =>
        obtain ⟨-, ⟨slot, busy⟩, -⟩ := inv.leased shape found
        rw [← slotsSame (by rw [found]; rfl)] at busy
        obtain ⟨active, there⟩ := Option.isSome_iff_exists.mp busy
        have free := List.all_eq_true.mp idle slot (List.mem_range.mpr (kept.within slot active there))
        rw [there] at free
        cases free
    have none := shapeSame.trans unleased
    refine ⟨⟨kept, owed, fun shape found => by rw [none] at found; cases found⟩, Linked.plain plain none,
      TurnSafe.plain plain admissionClear, fun prev linked granted => ?_⟩
    have held := linked.leased.trans granted
    rw [unleased] at held
    cases held
  · have replays : ∀ prev, Linked prev engine → prev.lease = true → Replays prev turn := by
      intro prev linked granted
      have held := linked.leased.trans granted
      obtain ⟨leased, found⟩ := Option.isSome_iff_exists.mp held
      have still := shapeSame.trans found
      rw [still, Option.some_or] at planned
      cases planned
      obtain ⟨-, -, ids, single, all⟩ := inv.leased shape found
      refine linked.replays granted single all (slotsSame held) deferredSame mapped
        (by rw [consume, still]; rfl)
        (by rw [seats, (frozen held).2]) feds active fun again => ?_
      rw [lease] at again
      exact deferredSame.symm.trans (lease_rank again).2.1
    cases grant : admitted.lease config with
    | true =>
      have cover : ∃ ids, OneRow shape ids ∧ ∀ slot active, admitted.slots slot = some active →
          slot ∈ ids := by
        cases found : engine.leasedShape with
        | none =>
          rw [shapeSame.trans found, Option.none_or] at planned
          exact lease_planned grant kept planned
        | some leased =>
          rw [shapeSame.trans found, Option.some_or] at planned
          cases planned
          obtain ⟨-, -, ids, single, all⟩ := inv.leased shape found
          rw [slotsSame (by rw [found]; rfl)]
          exact ⟨ids, single, all⟩
      obtain ⟨ids, single, all⟩ := cover
      have calm : admitted.leasedShape.isSome = true → ∀ run ∈ shape.runs world.outputs, ∀ active,
          admitted.slots run.1 = some active → Frees config world run active = false := by
        intro held run member active found
        rw [shapeSame] at held
        obtain ⟨leased, there⟩ := Option.isSome_iff_exists.mp held
        rw [shapeSame.trans there, Option.some_or] at planned
        cases planned
        have same := (frozen held).1
        rw [same] at grant
        rw [slotsSame held] at found
        exact quiet shape there grant run member active found
      obtain ⟨drafter, clear, slot, busy⟩ := lease_rank grant
      obtain ⟨new, back, ends, deferred, leased, walkKept, seatsSame, moved⟩ :=
        granted_walk kept grant single all mapped calm
      rw [drafter, if_neg Bool.false_ne_true]
      refine ⟨⟨walkKept, (fun none => by rw [leased] at none; cases none), fun found same => ?_⟩,
        ⟨by rw [leased, lease, grant]; rfl, ?_, ?_⟩,
        ⟨(fun _ => by rw [returned, back]; simp), fun _ => atLease.trans clear, admissionClear⟩, replays⟩
      · rw [leased] at same
        cases same
        refine ⟨drafter, ⟨slot, (seatsSame slot).trans busy⟩, ids, single, fun slot active there => ?_⟩
        have before : (admitted.slots slot).isSome = true := by
          rw [← seatsSame slot, there, Option.isSome_some]
        obtain ⟨active', found⟩ := Option.isSome_iff_exists.mp before
        exact all slot active' found
      · intro _ slot active there still
        rw [deferred] at still
        rw [feds]
        exact moved slot active there still
      · intro _ some_
        rw [freed, ends] at some_
        rw [deferred]
        exact some_
    | false =>
      obtain ⟨deferred, unleased, walkKept⟩ := @plain_walk _ world _ kept grant owed shape
      have plain := lease.trans grant
      obtain ⟨draftKept, draftShape, draftDeferred⟩ := walkKept.installDrafts world.drafts
      refine ⟨?_, ?_, TurnSafe.plain plain admissionClear, replays⟩
      · split
        · exact ⟨draftKept, fun _ => draftDeferred.trans deferred,
            fun shape found => by rw [draftShape, unleased] at found; cases found⟩
        · exact ⟨walkKept, fun _ => deferred, fun shape found => by rw [unleased] at found; cases found⟩
      · split
        · exact Linked.plain plain (draftShape.trans unleased)
        · exact Linked.plain plain unleased

end

/-- Runs of a decode rank whose turns all meet `guard`. -/
inductive Serves (config : EngineConfig) (guard : RankEngine → TurnWorld → Prop) :
    List Turn → RankEngine → Prop
  | start : Serves config guard [] RankEngine.start
  | turn {turns engine world turn after} (before : Serves config guard turns engine)
      (accepted : ∀ entry ∈ world.arrivals, Accepted config entry) (allowed : guard engine world)
      (served : engine.serve config world = some (turn, after)) : Serves config guard (turns ++ [turn]) after

/-- Slot reuse does not see the leases of a run: every turn is safe, and the turn after a lease replays it. -/
structure LeasesInvisible (turns : List Turn) : Prop where
  safe : ∀ turn ∈ turns, TurnSafe turn
  replays : ∀ before prev turn after, turns = before ++ prev :: turn :: after →
    prev.lease = true → Replays prev turn

theorem Inv.start (config : EngineConfig) : Inv config RankEngine.start :=
  ⟨⟨by simp [RankEngine.start], by simp [RankEngine.start], by simp [RankEngine.start]⟩,
    fun _ => rfl, by simp [RankEngine.start]⟩

theorem LeasesInvisible.snoc {turns : List Turn} {turn : Turn} (invisible : LeasesInvisible turns)
    (safe : TurnSafe turn)
    (replays : ∀ prev ∈ turns.getLast?, prev.lease = true → Replays prev turn) :
    LeasesInvisible (turns ++ [turn]) := by
  refine ⟨fun other member => ?_, fun before prev next after whole granted => ?_⟩
  · rcases List.mem_append.mp member with old | new
    · exact invisible.safe other old
    · rw [List.mem_singleton.mp new]
      exact safe
  · rcases List.eq_nil_or_concat after with rfl | ⟨init, last, rfl⟩
    · have split : turns ++ [turn] = (before ++ [prev]) ++ [next] := by rw [whole]; simp
      obtain ⟨rest, same⟩ := List.append_inj' split rfl
      cases same
      exact replays prev (by rw [rest]; simp) granted
    · have split : turns ++ [turn] = (before ++ prev :: next :: init) ++ [last] := by rw [whole]; simp
      exact invisible.replays before prev next init (List.append_inj' split rfl).1 granted

/-- In a run where no request ends in a step that replays one lease and is granted another, the
leases are invisible. -/
theorem Serves.leases_invisible {config : EngineConfig} {turns : List Turn} {engine : RankEngine}
    (run : Serves config (Quiet config) turns engine) :
    LeasesInvisible turns ∧ (engine.leasedShape = none → engine.deferredReleases = []) := by
  suffices whole : LeasesInvisible turns ∧ Inv config engine ∧
    ∀ prev ∈ turns.getLast?, Linked prev engine from
    ⟨whole.1, whole.2.1.unleased⟩
  induction run with
  | start => exact ⟨⟨by simp, by simp⟩, Inv.start config, by simp⟩
  | @turn turns engine world turn after before accepted allowed served ih =>
    obtain ⟨invisible, inv, linked⟩ := ih
    obtain ⟨next, link, safe, replays⟩ := inv.serve accepted allowed served
    refine ⟨invisible.snoc safe fun prev last granted => replays prev (linked prev last) granted,
      next, fun prev last => ?_⟩
    rw [List.getLast?_concat] at last
    cases last
    exact link

/-- A drafter-less rank with a window of one page. -/
def plainRank : EngineConfig := ⟨64, 8, by decide, 5, 3, [], false, false, false, false⟩

def shortRequest : GenerateRequest := { tightRequest with promptTokens := [11], maxTokens := 2 }

/-- A turn in which `arrivals` come in and the front fits. -/
def arriving (arrivals : List Resolved) : TurnWorld :=
  ⟨arrivals, [.fits 0 false], true, fun _ => 7, fun _ => false, []⟩

theorem shortRequest_accepted : Accepted plainRank (.plain shortRequest) := .plain (by decide +kernel)

/-- The second turn of a rank that has one request of two output tokens: it replays the first
turn's lease, is granted the next one and ends the request, whose pages go back at once. -/
theorem leases_visible : ∃ turns engine, Serves plainRank (fun _ _ => True) turns engine ∧
    ¬ LeasesInvisible turns := by
  have both : (do
      let (_, engine) ← RankEngine.start.serve plainRank (arriving [.plain shortRequest])
      let (turn, _) ← engine.serve plainRank (arriving [])
      some (turn.lease, turn.freed, turn.returned)) = some (true, [0], [0]) := by decide +kernel
  obtain ⟨⟨first, middle⟩, served, rest⟩ := Option.bind_eq_some_iff.mp both
  obtain ⟨⟨second, last⟩, again, facts⟩ := Option.bind_eq_some_iff.mp rest
  have one := @Serves.turn _ (fun _ _ => True) _ _ _ _ _ .start
    (by simpa [arriving] using shortRequest_accepted) trivial served
  have two := Serves.turn one (by simp [arriving]) trivial again
  refine ⟨_, _, two, fun invisible => ?_⟩
  rw [Option.some.injEq, Prod.mk.injEq, Prod.mk.injEq] at facts
  obtain ⟨lease, freed, returned⟩ := facts
  have safe := (invisible.safe second (by simp)).kept lease 0 (by rw [freed]; simp)
  rw [returned] at safe
  exact safe (List.mem_singleton_self 0)

/-- The same request with another one arriving as it is replayed, so that no second lease is granted. -/
theorem Serves.leases_invisible_replayed : ∃ first second engine, Serves plainRank (Quiet plainRank)
    [first, second] engine ∧
    first.lease = true ∧ second.consume = true ∧ second.fed = [(0, [1])] ∧ second.freed = [0] ∧
    LeasesInvisible [first, second] ∧ (engine.leasedShape = none → engine.deferredReleases = []) := by
  have both : (do
      let (one, engine) ← RankEngine.start.serve plainRank (arriving [.plain shortRequest])
      let (two, _) ← engine.serve plainRank (arriving [.plain shortRequest])
      some (one.lease && two.consume, two.fed, two.freed)) = some (true, [(0, [1])], [0]) := by decide +kernel
  obtain ⟨⟨first, middle⟩, served, rest⟩ := Option.bind_eq_some_iff.mp both
  obtain ⟨⟨second, last⟩, again, facts⟩ := Option.bind_eq_some_iff.mp rest
  rw [Option.some.injEq, Prod.mk.injEq, Prod.mk.injEq, Bool.and_eq_true] at facts
  obtain ⟨⟨lease, consume⟩, fed, freed⟩ := facts
  have one := @Serves.turn _ (Quiet plainRank) _ _ _ _ _ .start
    (by simpa [arriving] using shortRequest_accepted)
    (fun shape leased => by simp [RankEngine.start] at leased) served
  have two := Serves.turn one (by simpa [arriving] using shortRequest_accepted)
    (fun shape leased granted => by simp [RankEngine.lease, arriving] at granted) again
  exact ⟨first, second, last, two, lease, consume, fed, freed, Serves.leases_invisible two⟩

end PegaInfer.Glm52
