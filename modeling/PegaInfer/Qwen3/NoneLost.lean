import PegaInfer.Qwen3.Stepped

namespace PegaInfer.Qwen3

open Frontend

/-- The ids in the six containers of the scheduler. -/
def Qwen3Scheduler.ids (scheduler : Qwen3Scheduler) : List RequestId :=
  scheduler.active.map (·.requestId) ++
    (scheduler.postControlDeferred ++ scheduler.deferred ++ scheduler.loading ++
    scheduler.prefilling ++ scheduler.inflightPrefillPending.getD []).map (·.requestId)

theorem Qwen3Scheduler.placed_ids (scheduler : Qwen3Scheduler) :
    scheduler.placed.map Entry.id = (scheduler.ids : Multiset RequestId) := by
  have ids : ∀ {α : Type} (entry : α → Entry) (items : List α),
      (every entry items).map Entry.id =
        ((items.map fun item => (entry item).id : List RequestId) : Multiset RequestId) := by
    intro α entry items
    simp [every, Function.comp_def]
  simp only [placed, aside, Multiset.map_add, ids, Qwen3Scheduler.ids, List.map_append, ← Multiset.coe_add]
  rfl

/-- An event that closes the account of a request. -/
def Event.closes : Event → Bool
  | .called call => LedgerCall.closes call
  | _ => false

def Stage.isClosed : Stage → Bool
  | .closed => true
  | _ => false

section

variable {telling : Telling} {submission : Submission} {events : List Event} {stage : Stage}

theorem closes_of_notes {event : Event} (notes : stage.notes event = true) : event.closes = false := by
  cases event with
  | called call => cases call <;> first | rfl | (cases stage <;> simp [Stage.notes] at notes)
  | dropped | applied | offered | validated | ran => rfl

/-- A life is closed once, and only at its end. -/
theorem Life.closings (life : Life telling submission events stage) :
    events.countP Event.closes = if stage.isClosed then 1 else 0 := by
  induction life with
  | held _ | waiting _ => rfl
  | released _ _ ih => exact ih
  | applied control _ _ ih =>
    rw [List.countP_append, ih]
    rfl
  | noted event _ notes _ ih =>
    rw [List.countP_append, ih]
    simp [closes_of_notes notes]
  | rejected _ _ ih | admitted _ _ ih =>
    rw [List.countP_append, ih]
    rfl
  | @retired _ stage _ running ih =>
    have opened : stage.isClosed = false := by
      cases stage <;> first | rfl | simp [Stage.isRunning] at running
    rw [List.countP_append, ih, opened]
    rfl
  | @failed _ stage _ _ running ih =>
    have opened : stage.isClosed = false := by
      cases stage <;> first | rfl | simp [Stage.isRunning] at running
    rw [List.countP_append, ih, opened]
    rfl
  | filledOut _ _ _ _ _ ih | filledLast _ _ _ _ _ ih | promoted _ _ _ _ _ ih =>
    rw [List.countP_append, ih]
    rfl
  | decodedOn effect _ _ _ _ push ih =>
    have stays := (effect.push_fits _ push).2.1
    rw [List.countP_append, ih]
    simp [Event.closes, stays, Stage.isClosed]
  | decodedLast effect _ _ _ _ ih =>
    have stays : (effect.push.toList.map Event.called ++ [Event.dropped submission.id]).countP
        Event.closes = 0 := by
      cases push : effect.push with
      | none => rfl
      | some call => simp [Event.closes, (effect.push_fits _ push).2.1]
    rw [List.countP_append, ih, stays]
    rfl
  | finished _ ih | deferred _ ih =>
    rw [List.countP_append, ih]
    rfl

/-- A request whose end is decided has been dropped on the executor. -/
theorem Life.dropped (life : Life telling submission events stage)
    (ended : stage.isClosed = true ∨ ∃ reason, stage = .finishing reason) :
    Event.dropped submission.id ∈ events := by
  induction life with
  | held _ | waiting _ => simp [Stage.isClosed] at ended
  | released _ _ _ | admitted _ _ _ | promoted _ _ _ _ _ _ | decodedOn _ _ _ _ _ _ _ =>
    simp [Stage.isClosed] at ended
  | applied _ _ _ ih | noted _ _ _ _ ih => exact List.mem_append_left _ (ih ended)
  | finished _ ih | deferred _ ih => exact List.mem_append_left _ (ih (.inr ⟨_, rfl⟩))
  | rejected _ _ _ | retired _ _ _ | failed _ _ _ _ | filledOut _ _ _ _ _ _
  | filledLast _ _ _ _ _ _ | decodedLast _ _ _ _ _ _ => simp

end

/-- A request is in exactly one place: one of the containers, or closed, and then its
state on the executor is dropped. -/
structure Accounted (run : Run) (submission : Submission) : Prop where
  once : run.machine.scheduler.ids.count submission.id +
    (submission.history run.machine.events).countP Event.closes = 1
  dropped : 0 < (submission.history run.machine.events).countP Event.closes →
    Event.dropped submission.id ∈ run.machine.events

theorem Inv.spared {telling : Telling} {run : Run}
    (inv : Inv telling run.submitted run.arrived run.machine) (spares : telling.spares) :
    Kept telling run.submitted run.machine run.machine.scheduler.placed := by
  obtain ⟨lost, none, kept⟩ := inv.kept
  rwa [none spares, add_zero] at kept

theorem Inv.accounted {telling : Telling} {run : Run}
    (inv : Inv telling run.submitted run.arrived run.machine) (spares : telling.spares)
    {submission : Submission} (known : submission ∈ run.submitted) : Accounted run submission := by
  have kept := inv.spared spares
  have ids := run.machine.scheduler.placed_ids
  have distinct : run.machine.scheduler.ids.Nodup := by
    rw [← Multiset.coe_nodup, ← ids]
    exact kept.distinct
  by_cases placed : submission.id ∈ run.machine.scheduler.placed.map Entry.id
  · obtain ⟨entry, member, own⟩ := Multiset.mem_map.mp placed
    obtain ⟨other, asked, same, -, life, -⟩ := kept.lives entry member
    obtain rfl := same_submission kept.fresh known asked (own.symm.trans same.symm)
    have opened : entry.stage.isClosed = false := by cases entry <;> rfl
    have closings := life.closings
    rw [opened] at closings
    rw [ids, Multiset.mem_coe] at placed
    refine ⟨?_, ?_⟩
    · rw [List.count_eq_one_of_mem distinct placed, closings]
      rfl
    · intro closed
      simp [closings] at closed
  · obtain ⟨life, -⟩ := kept.over_ submission known placed
    rw [ids, Multiset.mem_coe] at placed
    refine ⟨?_, fun _ => ?_⟩
    · rw [List.count_eq_zero_of_not_mem placed, life.closings]
      rfl
    · exact List.mem_of_mem_drop (List.mem_of_mem_filter (life.dropped (.inl rfl)))

/-- Nothing is known of the executor's answers. -/
def Telling.any (isStopToken : Token → Bool) : Telling :=
  { isStopToken, prefills := fun _ _ => True, decodes := fun _ _ _ _ => True, parked := True, spares := True }

/-- A prefill that runs on its own fails while other requests are being decoded. -/
def FailsBeside (config : Config) (run : Run) (env : StepEnv) : Prop :=
  ∃ pending, runtimePlan config.speculativeEnabled env.ready
    (run.machine.prepared config env).2.scheduler.active
      (run.machine.prepared config env).1 = some (.prefill pending) ∧
    env.execution.error ≠ none ∧ (run.machine.prepared config env).2.scheduler.active ≠ []

/-- No request is lost in a run in which no prefill fails on its own beside a running
batch. -/
theorem Reach.none_lost {config : Config} {run : Run}
    (reach : Reach config (fun run env => ¬ FailsBeside config run env) run)
    {submission : Submission} (known : submission ∈ run.submitted) :
    run.machine.panicked = false ∧ Accounted run submission := by
  have inv := @Reach.inv (.any config.isStopToken) config _ run rfl (.inl trivial) (fun run env spared => by
    refine ⟨fun _ _ _ _ _ _ _ _ _ _ => trivial, fun _ _ => .inl trivial, ?_,
      fun _ => ⟨fun _ _ _ _ _ _ => trivial, fun _ _ _ _ _ => trivial, fun _ _ _ _ _ _ _ _ _ _ => trivial⟩⟩
    intro _ pending planned failed
    by_contra running
    exact spared ⟨pending, planned, failed, running⟩) reach
  exact ⟨(inv.spared trivial).sound, inv.accounted trivial known⟩

/-- A small engine for concrete runs. -/
def smallConfig : Config :=
  { maxPrefillTokens := 8, requestLocal := false, blockSize := 4, maxRequestBlocks := 8,
    maxContextTokens := 64, maxDecodeBatchSize := 4,
    hasDecodeOverlap := false, withholdsFinishes := false, speculativeEnabled :=
      false, isStopToken := fun _ => false }

/-- A request for four tokens after a prompt of one; with `echo` it asks for the
prompt's logprobs too. -/
def smallRequest (id : RequestId) (echo : Bool) : PendingRequest :=
  { requestId := id, loraAdapter := none, promptTokens := [1],
    params := { greedy := true, ignoreEos := false }, maxTokens := 4,
    logprobs := if echo then 1 else 0, echo, prefetchOffered := false, prefillPos := 0, stepChunk :=
      0, cachedTokens := 0 }

def noHedges : HedgeLane :=
  { cap := 0, usesMarkovHead := false, draftsStart := 0, maxBatch := 0, pagesPerChain := 0,
    scratchPages := 0, spanPages := fun _ => 0,
    hedgeBlocks := fun _ => none }

/-- An executor that answers 7 to everything, or fails. -/
def sevens (error : Option String) : Execution :=
  { error
    prefill := fun _ =>
      { firstToken := 7, firstTokenLogprob := none, promptLogprobs := none, completed := true,
        prefillPos := 1, cachedTokens := 0 }
    decode := fun _ => (7, none)
    draft := fun _ => [7, 7, 7]
    lane := noHedges
    target := fun _ span => span.map fun _ => 7 }

/-- A step without aborts and commands. -/
def plainStep (error : Option String) : StepEnv :=
  { controls := [], polled := none, drained := [], starts := fun _ => false,
    adaptersAfter := fun _ adapters => adapters, waited := [],
    availableBlocks := 16, prefetchedBlocks := fun _ => 0, ready := fun _ => false, execution := sevens error,
    abortedAtPoll := fun _ => false, abortedAtAdmit := fun _ => false, abortedAtApply :=
      fun _ => false, now := 0 }

/-- The ledger with an account opened for a request. -/
def opened (ledger : RequestLedger) (id : RequestId) : RequestLedger :=
  { ledger with accounts := Function.update ledger.accounts id (some ⟨1, 0, .queued⟩) }

theorem register_opened {ledger : RequestLedger} {id : RequestId}
    (unknown : (ledger.accounts id).isSome = false) :
    ledger.register ⟨id, 1, 0⟩ = .returned (opened ledger id) none := by
  simp [RequestLedger.register, unknown, opened]

/-- Request 1 is submitted and prefilled. -/
def oneRunning : Run := (Run.start.submit (smallRequest 1 false) (opened .new 1)).step
    smallConfig (plainStep none)

theorem Reach.none_lost_one_running : ∃ run submission, submission ∈ run.submitted ∧
    run.machine.scheduler.ids = [1] ∧
    run.machine.panicked = false ∧ Accounted run submission := by
  have registered := @Reach.submit smallConfig
    (fun run env => ¬ FailsBeside smallConfig run env) _ _ (smallRequest 1 false) 0
    .start rfl (by simp [Run.start]) (register_opened rfl)
  have stepped := registered.step (plainStep none) (by
    rintro ⟨pending, -, failed, -⟩
    exact failed rfl)
  exact ⟨oneRunning, ⟨smallRequest 1 false, 0, 0⟩, by decide, by decide +kernel,
    stepped.none_lost (by decide)⟩

/-- Beside it request 2 asks for its prompt's logprobs, so it is prefilled on its own,
and that prefill fails. -/
def oneLost : Run :=
  (oneRunning.submit (smallRequest 2 true) (opened oneRunning.machine.ledger 2)).step smallConfig
    (plainStep (some "out of memory"))

/-- Request 1 is neither in a container nor closed, and was never dropped. -/
theorem Reach.one_request_lost : ∃ run submission, Reach smallConfig (fun _ _ => True) run ∧
    submission ∈ run.submitted ∧
    submission.id ∉ run.machine.scheduler.ids ∧
      (submission.history run.machine.events).countP Event.closes = 0 ∧
    Event.dropped submission.id ∉ run.machine.events ∧ ¬ Accounted run submission := by
  have registered := @Reach.submit smallConfig
    (fun _ _ => True) _ _ (smallRequest 1 false) 0 .start rfl (by simp [Run.start])
    (register_opened rfl)
  have running := registered.step (plainStep none) trivial
  have beside := running.submit (smallRequest 2 true) 0 rfl (by decide +kernel)
    (register_opened (by decide +kernel))
  have failed := beside.step (plainStep (some "out of memory")) trivial
  refine ⟨oneLost, ⟨smallRequest 1 false, 0, 0⟩,
    failed, by decide +kernel, by decide +kernel, by decide +kernel, by decide +kernel, ?_⟩
  intro accounted
  exact absurd accounted.once (by decide +kernel)

end PegaInfer.Qwen3
