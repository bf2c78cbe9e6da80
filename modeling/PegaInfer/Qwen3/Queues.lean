import PegaInfer.Qwen3.Executed

namespace PegaInfer.Qwen3

open Frontend

section

variable {telling : Telling} {submitted : List Submission} {machine : Machine} {entries : Multiset Entry}

/-- A request may be rewritten in place as long as it is still the one submitted. -/
theorem Kept.rename {entry : PendingRequest → Entry} {items : List PendingRequest}
    {change : PendingRequest → PendingRequest}
    (kept : Kept telling submitted machine (every entry items + entries))
    (same : ∀ req, (entry (change req)).id = (entry req).id ∧ (entry (change req)).stage = (entry req).stage ∧
      ∀ orig, (entry req).Agrees orig → (entry (change req)).Agrees orig) :
    Kept telling submitted machine (every entry (items.map change) + entries) := by
  induction items generalizing entries with
  | nil => exact kept
  | cons req items ih =>
    obtain ⟨id, stage, agrees⟩ := same req
    rw [every_cons, Multiset.cons_add] at kept
    have still : Did (entry req).id machine machine [] :=
      ⟨rfl, fun calm => calm, by simp, by simp, fun _ _ => rfl⟩
    have moved := kept.move still (entry (change req)) id (by
      intro submission _ _ held life
      rw [List.append_nil, stage]
      exact ⟨agrees _ held, life⟩) (by
      rw [stage]
      exact kept.standing (Multiset.mem_cons_self _ _))
    have regroup : entry (change req) ::ₘ (every entry items + entries) =
        every entry items + (entry (change req) ::ₘ entries) := by
      rw [Multiset.add_cons]
    rw [regroup] at moved
    have rest := ih moved
    rw [List.map_cons, every_cons, Multiset.cons_add]
    rwa [Multiset.add_cons] at rest

/-- `promote_ready` moves requests from the loading to the deferred list. -/
theorem promoteReady_entries (ready : List RequestId) (deferred loading : List PendingRequest) :
    every .waiting (promoteReady ready deferred loading).1 +
      every .waiting (promoteReady ready deferred loading).2 =
      every .waiting deferred + every .waiting loading := by
  induction ready generalizing deferred loading with
  | nil => rfl
  | cons id ready ih =>
    unfold promoteReady
    cases found : loading.find? (·.requestId = id) with
    | none => exact ih deferred loading
    | some req =>
      have taken : loading.Perm (req :: loading.eraseP (·.requestId = id)) := by
        obtain ⟨own, front, back, rfl, early⟩ := List.find?_eq_some_iff_append.mp found
        have erased : (front ++ req :: back).eraseP (·.requestId = id) = front ++ back := by
          rw [List.eraseP_append_right _ fun other member => by simpa using early other member,
            List.eraseP_cons_of_pos (by exact own)]
        rw [erased]
        exact List.perm_middle
      simp only
      rw [ih, every_perm .waiting taken, every_cons, every_cons, Multiset.cons_add, Multiset.add_cons]

theorem Kept.reclaim (kept : Kept telling submitted machine (machine.scheduler.placed + entries))
    (ready : List RequestId) :
    Kept telling submitted (machine.reclaim ready) ((machine.reclaim ready).scheduler.placed + entries) := by
  have moved := promoteReady_entries ready machine.scheduler.deferred machine.scheduler.loading
  have same : (machine.reclaim ready).scheduler.placed = machine.scheduler.placed := by
    simp only [Machine.reclaim, Machine.update, Qwen3Scheduler.placed, Qwen3Scheduler.aside]
    rw [add_assoc (every .held _) (every .waiting _) (every .waiting _), moved]
    abel
  rw [same]
  exact kept.congr rfl rfl rfl

/-- `offer_prefetch` marks what it offers and lists it. -/
theorem Kept.offerPrefetch (starts : RequestId → Bool) {deferred : List PendingRequest}
    (kept : Kept telling submitted machine (every .waiting deferred + entries)) :
    Kept telling submitted machine (every .waiting (offerPrefetch starts deferred).1 +
        (every .waiting (offerPrefetch starts deferred).2.1 + entries)) ∧
      ∀ id ∈ (Qwen3.offerPrefetch starts deferred).2.2,
        ∃ req, (req ∈ (offerPrefetch starts deferred).1 ∨
          req ∈ (offerPrefetch starts deferred).2.1) ∧ req.requestId = id := by
  induction deferred generalizing entries with
  | nil => exact ⟨by simpa [Qwen3.offerPrefetch] using kept, by simp [Qwen3.offerPrefetch]⟩
  | cons req deferred ih =>
    have single : Kept telling submitted machine
        (every .waiting [req] + (every .waiting deferred + entries)) := by
      simpa using kept
    have marked : Kept telling submitted machine
        (every .waiting [{ req with prefetchOffered := true }] + (every .waiting deferred + entries)) :=
      @Kept.rename _ _ _ _ _ [req] (fun req => { req with prefetchOffered := true }) single fun req =>
        ⟨rfl, rfl, fun orig agrees => agrees⟩
    have swap : ∀ one : PendingRequest, every .waiting [one] + (every .waiting deferred + entries) =
        every .waiting deferred + (every .waiting [one] + entries) := by
      intro one
      abel
    unfold Qwen3.offerPrefetch
    dsimp only
    split_ifs with fresh begins
    · rw [swap] at marked
      obtain ⟨rest, named⟩ := ih marked
      refine ⟨?_, ?_⟩
      · have regroup : ∀ one two : Multiset Entry,
          one + (two + (every .waiting [{ req with prefetchOffered := true }] + entries)) =
            one + (every .waiting [{ req with prefetchOffered := true }] + two + entries) := by
          intro one two
          abel
        rw [regroup] at rest
        simpa using rest
      · intro id member
        rcases List.mem_cons.mp member with rfl | member
        · exact ⟨_, .inr List.mem_cons_self, rfl⟩
        · obtain ⟨other, known, own⟩ := named id member
          exact ⟨other, known.imp_right (List.mem_cons_of_mem _), own⟩
    · rw [swap] at marked
      obtain ⟨rest, named⟩ := ih marked
      refine ⟨?_, ?_⟩
      · have regroup : ∀ one two : Multiset Entry,
          one + (two + (every .waiting [{ req with prefetchOffered := true }] + entries)) =
            every .waiting [{ req with prefetchOffered := true }] + one + (two + entries) := by
          intro one two
          abel
        rw [regroup] at rest
        simpa using rest
      · intro id member
        rcases List.mem_cons.mp member with rfl | member
        · exact ⟨_, .inl List.mem_cons_self, rfl⟩
        · obtain ⟨other, known, own⟩ := named id member
          exact ⟨other, known.imp_left (List.mem_cons_of_mem _), own⟩
    · rw [swap] at single
      obtain ⟨rest, named⟩ := ih single
      refine ⟨?_, ?_⟩
      · have regroup : ∀ one two : Multiset Entry, one + (two + (every .waiting [req] + entries)) =
            every .waiting [req] + one + (two + entries) := by
          intro one two
          abel
        rw [regroup] at rest
        simpa using rest
      · intro id member
        obtain ⟨other, known, own⟩ := named id member
        exact ⟨other, known.imp_left (List.mem_cons_of_mem _), own⟩

theorem Kept.offer (kept : Kept telling submitted machine (machine.scheduler.placed + entries))
    (starts : RequestId → Bool) :
    Kept telling submitted (machine.offer starts) ((machine.offer starts).scheduler.placed + entries) := by
  unfold Machine.offer
  split_ifs
  · obtain ⟨rest, regroup⟩ : ∃ rest, ∀ deferred loading : List PendingRequest,
        Qwen3Scheduler.placed { machine.scheduler with deferred, loading } + entries =
          every .waiting deferred + (every .waiting loading + rest) := by
      refine ⟨every .decoding machine.scheduler.active + every .held machine.scheduler.postControlDeferred +
        every .filling machine.scheduler.prefilling +
          every .filling (machine.scheduler.inflightPrefillPending.getD []) + entries, ?_⟩
      intro deferred loading
      simp only [Qwen3Scheduler.placed, Qwen3Scheduler.aside]
      abel
    have apart : Kept telling submitted machine
        (every .waiting machine.scheduler.deferred + (every .waiting machine.scheduler.loading + rest)) :=
      regroup machine.scheduler.deferred machine.scheduler.loading ▸ kept
    obtain ⟨moved, named⟩ := apart.offerPrefetch starts
    generalize Qwen3.offerPrefetch starts machine.scheduler.deferred = outcome at moved named ⊢
    obtain ⟨waiting, started, offered⟩ := outcome
    dsimp only at moved named ⊢
    have together : Kept telling submitted (machine.update fun scheduler =>
          { scheduler with deferred := waiting, loading := scheduler.loading ++ started })
        (every .waiting waiting + (every .waiting (machine.scheduler.loading ++ started) + rest)) := by
      have regroup : every .waiting waiting + (every .waiting (machine.scheduler.loading ++ started) + rest) =
          every .waiting waiting +
            (every .waiting started + (every .waiting machine.scheduler.loading + rest)) := by
        rw [every_append]
        abel
      rw [regroup]
      exact moved.congr rfl rfl rfl
    obtain ⟨recorded, same⟩ := @Kept.recordAll _ _ _ _ Event.offered offered together (fun _ => rfl) (by
      intro id member
      obtain ⟨req, known, own⟩ := named id member
      refine ⟨.waiting req, ?_, own, rfl⟩
      simp only [Multiset.mem_add, every_append]
      rcases known with known | known
      · exact .inl (mem_every _ known)
      · exact .inr (.inl (.inr (mem_every _ known))))
    rw [same]
    simp only [Machine.update]
    rw [regroup]
    exact recorded
  · exact kept

/-- The validation of `deferred` against the loaded adapters. -/
theorem Kept.validate (kept : Kept telling submitted machine (machine.scheduler.placed + entries)) :
    Kept telling submitted machine.validate (machine.validate.scheduler.placed + entries) := by
  obtain ⟨rest, regroup⟩ : ∃ rest, ∀ deferred : List PendingRequest,
      Qwen3Scheduler.placed { machine.scheduler with deferred } + entries =
        every .waiting deferred + rest := by
    refine ⟨every .decoding machine.scheduler.active + every .held machine.scheduler.postControlDeferred +
      every .waiting machine.scheduler.loading + every .filling machine.scheduler.prefilling +
      every .filling (machine.scheduler.inflightPrefillPending.getD []) + entries, ?_⟩
    intro deferred
    simp only [Qwen3Scheduler.placed, Qwen3Scheduler.aside]
    abel
  have apart : Kept telling submitted machine (every .waiting machine.scheduler.deferred + rest) :=
    regroup machine.scheduler.deferred ▸ kept
  obtain ⟨seen, same⟩ := @Kept.recordAll _ _ _ _ Event.validated
    (machine.scheduler.deferred.map (·.requestId)) apart (fun _ => rfl) (by
    intro id member
    obtain ⟨req, known, rfl⟩ := List.mem_map.mp member
    exact ⟨.waiting req, Multiset.mem_add.mpr (.inl (mem_every _ known)), rfl, rfl⟩)
  rw [List.foldl_map] at seen same
  unfold Machine.validate
  dsimp only
  generalize machine.scheduler.deferred.foldl
    (fun machine req => machine.record (.validated req.requestId)) machine = noted at seen same ⊢
  have split := List.filter_append_perm (fun req =>
    !knownAdapter noted.adapters req) machine.scheduler.deferred
  simp only [Bool.not_not] at split
  rw [← every_perm .waiting split, every_append, add_assoc] at seen
  have reasons : ∀ items : List PendingRequest, every .waiting items =
    every (fun item : PendingRequest × RejectReason => .waiting item.1)
      (items.map fun req => (req, RejectReason.unknownLoraAdapter (req.loraAdapter.getD ""))) := by
    intro items
    simp [every, Function.comp_def]
  rw [reasons] at seen
  obtain ⟨rejected, unmoved⟩ := (seen.update fun scheduler =>
    { scheduler with
      deferred := machine.scheduler.deferred.filter fun req => knownAdapter noted.adapters req }).rejectAll
  rw [List.foldl_map] at rejected unmoved
  rw [unmoved]
  have final : (noted.update fun scheduler =>
      { scheduler with
        deferred := machine.scheduler.deferred.filter fun req =>
          knownAdapter noted.adapters req }).scheduler.placed + entries =
        every .waiting (machine.scheduler.deferred.filter fun req =>
          knownAdapter noted.adapters req) + rest := by
    simp only [Machine.update, same]
    exact regroup _
  rw [final]
  exact rejected

/-- Admission divides what it is given. -/
theorem admitLoop_entries (config : Config) (credit : RequestId → Nat) (budget decodeSlots : Nat)
    (deferred : List PendingRequest) :
    every .waiting (admitLoop config credit budget decodeSlots deferred).pending +
      (every .waiting (admitLoop config credit budget decodeSlots deferred).deferred +
        every (fun item => .waiting item.1)
          (admitLoop config credit budget decodeSlots deferred).rejected) =
            every .waiting deferred := by
  induction deferred generalizing budget decodeSlots with
  | nil => rfl
  | cons req deferred ih =>
    unfold admitLoop
    split
    · dsimp only
      rw [every_cons, every_cons, ← ih budget decodeSlots, Multiset.add_cons, Multiset.add_cons]
    · dsimp only
      split_ifs
      · dsimp only
        rw [every_cons, every_cons, ← ih, Multiset.cons_add]
      · dsimp only
        rw [every_cons, every_cons, ← ih budget decodeSlots, Multiset.cons_add, Multiset.add_cons]

theorem Kept.admitAll (kept : Kept telling submitted machine (machine.scheduler.placed + entries))
    (config : Config) (env : StepEnv) :
    Kept telling submitted (machine.admitAll config env)
      ((machine.admitAll config env).scheduler.placed + entries) ∧
      (machine.admitAll config env).scheduler.inflightPrefillPending =
        machine.scheduler.inflightPrefillPending := by
  unfold Machine.admitAll
  dsimp only
  have parts := admitLoop_entries config env.prefetchedBlocks
    (env.availableBlocks - activeFutureBlocks machine.scheduler.active config.blockSize -
      prefillingFutureBlocks machine.scheduler.prefilling config.blockSize env.prefetchedBlocks)
    (config.maxDecodeBatchSize - machine.scheduler.active.length -
      machine.scheduler.prefilling.length) machine.scheduler.deferred
  change every .waiting (admitDeferredRequests config machine.scheduler.deferred
    machine.scheduler.active machine.scheduler.prefilling
      env.availableBlocks env.prefetchedBlocks).pending + _ = _ at parts
  change _ + (every .waiting (admitDeferredRequests config machine.scheduler.deferred machine.scheduler.active
      machine.scheduler.prefilling env.availableBlocks env.prefetchedBlocks).deferred +
        every (fun item => .waiting item.1)
      (admitDeferredRequests config machine.scheduler.deferred machine.scheduler.active
        machine.scheduler.prefilling
        env.availableBlocks env.prefetchedBlocks).rejected) = _ at parts
  generalize admitDeferredRequests config machine.scheduler.deferred machine.scheduler.active
    machine.scheduler.prefilling
    env.availableBlocks env.prefetchedBlocks = outcome at parts ⊢
  obtain ⟨rest, regroup⟩ : ∃ rest, ∀ deferred prefilling : List PendingRequest,
      Qwen3Scheduler.placed { machine.scheduler with deferred, prefilling } + entries =
        every .waiting deferred + (every .filling prefilling + rest) := by
    refine ⟨every .decoding machine.scheduler.active + every .held machine.scheduler.postControlDeferred +
      every .waiting machine.scheduler.loading +
        every .filling (machine.scheduler.inflightPrefillPending.getD []) + entries, ?_⟩
    intro deferred prefilling
    simp only [Qwen3Scheduler.placed, Qwen3Scheduler.aside]
    abel
  have apart : Kept telling submitted machine
    (every (fun item => .waiting item.1) outcome.rejected + (every .waiting outcome.pending +
      (every .waiting outcome.deferred + (every .filling machine.scheduler.prefilling + rest)))) := by
    have whole := regroup machine.scheduler.deferred machine.scheduler.prefilling
    rw [← parts] at whole
    have shape : every (fun item => .waiting item.1) outcome.rejected + (every .waiting outcome.pending +
        (every .waiting outcome.deferred + (every .filling machine.scheduler.prefilling + rest))) =
        machine.scheduler.placed + entries := by
      refine Eq.trans ?_ whole.symm
      abel
    rw [shape]
    exact kept
  obtain ⟨rejected, unmoved⟩ :=
    (apart.update fun scheduler => { scheduler with deferred := outcome.deferred }).rejectAll
  obtain ⟨admitted, scheduler, final⟩ := rejected.admitMany env.abortedAtAdmit env.now
  rw [unmoved] at scheduler
  refine ⟨?_, ?_⟩
  · rw [scheduler]
    simp only [Machine.update]
    rw [regroup, every_append]
    have shape : every .waiting outcome.deferred +
      (every .filling machine.scheduler.prefilling + every .filling admitted + rest) =
        every .filling admitted + (every .waiting outcome.deferred +
          (every .filling machine.scheduler.prefilling + rest)) := by
      abel
    rw [shape]
    exact final
  · rw [scheduler]
    rfl

theorem Kept.takeChunks (maxPrefillTokens : Nat) (requestLocal : Bool) {budget : Nat}
    {prefilling : List PendingRequest}
    (kept : Kept telling submitted machine (every .filling prefilling + entries)) :
    Kept telling submitted machine
      (every .filling (takeChunks maxPrefillTokens requestLocal budget prefilling).1 +
      (every .filling (takeChunks maxPrefillTokens requestLocal budget prefilling).2 + entries)) := by
  induction prefilling generalizing budget entries with
  | nil => simpa [Qwen3.takeChunks] using kept
  | cons req prefilling ih =>
    have single : Kept telling submitted machine
        (every .filling [req] + (every .filling prefilling + entries)) := by
      simpa using kept
    unfold Qwen3.takeChunks
    split_ifs
    · simpa using kept
    · split
      · have swap : every .filling [req] + (every .filling prefilling + entries) =
            every .filling prefilling + (every .filling [req] + entries) := by
          abel
        rw [swap] at single
        have rest := @ih _ budget single
        have regroup : ∀ one two : Multiset Entry, one + (two + (every .filling [req] + entries)) =
            one + (every .filling [req] + two + entries) := by
          intro one two
          abel
        rw [regroup] at rest
        simpa using rest
      · rename_i chunk _
        have cut : Kept telling submitted machine
            (every .filling [{ req with stepChunk := chunk }] + (every .filling prefilling + entries)) :=
          @Kept.rename _ _ _ _ _ [req] (fun req => { req with stepChunk := chunk }) single fun req =>
            ⟨rfl, rfl, fun orig agrees => agrees⟩
        have swap : every .filling [{ req with stepChunk := chunk }] + (every .filling prefilling + entries) =
            every .filling prefilling + (every .filling [{ req with stepChunk := chunk }] + entries) := by
          abel
        rw [swap] at cut
        have rest := @ih _ (budget - chunk) cut
        have regroup : ∀ one two : Multiset Entry,
          one + (two + (every .filling [{ req with stepChunk := chunk }] + entries)) =
            every .filling [{ req with stepChunk := chunk }] + one + (two + entries) := by
          intro one two
          abel
        rw [regroup] at rest
        simpa using rest

/-- The requests whose chunks run in this step are taken off the queue, in order. -/
theorem Kept.takeStep (kept : Kept telling submitted machine (machine.scheduler.placed + entries))
    (config : Config) :
    Kept telling submitted (machine.takeStep config).2
        ((machine.takeStep config).2.scheduler.placed +
          (every .filling (machine.takeStep config).1 + entries)) ∧
      ((machine.takeStep config).1.Pairwise fun one two => one.requestId ≤ two.requestId) ∧
      ((machine.takeStep config).1 ≠ [] →
        (machine.takeStep config).2.scheduler.inflightPrefillPending = none) := by
  unfold Machine.takeStep
  split_ifs with inflight
  · exact ⟨by simpa using kept, .nil, by simp⟩
  · unfold takePrefillChunks
    dsimp only
    refine ⟨?_, sortById_sorted _ _, ?_⟩
    · obtain ⟨rest, regroup⟩ : ∃ rest, ∀ prefilling : List PendingRequest,
          Qwen3Scheduler.placed { machine.scheduler with prefilling } = every .filling prefilling + rest := by
        refine ⟨every .decoding machine.scheduler.active + every .held machine.scheduler.postControlDeferred +
          every .waiting machine.scheduler.deferred + every .waiting machine.scheduler.loading +
          every .filling (machine.scheduler.inflightPrefillPending.getD []), ?_⟩
        intro prefilling
        simp only [Qwen3Scheduler.placed, Qwen3Scheduler.aside]
        abel
      have apart : Kept telling submitted machine
          (every .filling machine.scheduler.prefilling + (rest + entries)) := by
        rw [← add_assoc, ← regroup]
        exact kept
      have taken := @Kept.takeChunks _ _ _ _ config.maxPrefillTokens config.requestLocal
        config.maxPrefillTokens _ apart
      generalize Qwen3.takeChunks config.maxPrefillTokens config.requestLocal
        config.maxPrefillTokens machine.scheduler.prefilling =
        outcome at taken ⊢
      obtain ⟨chunks, left⟩ := outcome
      dsimp only at taken ⊢
      rw [every_perm .filling (sortById_perm _ chunks)]
      have shape : every .filling left + rest + (every .filling chunks + entries) =
          every .filling chunks + (every .filling left + (rest + entries)) := by
        abel
      have final : (machine.update fun scheduler =>
          { scheduler with prefilling := left }).scheduler.placed = every .filling left + rest :=
        regroup left
      rw [final, shape]
      exact taken.congr rfl rfl rfl
    · intro _
      simpa [Machine.update] using inflight

/-- A step's artifacts are settled where its requests are at hand. -/
theorem Kept.settle {config : Config} {items : List (PendingRequest × PrefillRequestResult)}
    {artifacts : ExecutionArtifacts}
    {effects : StepEffects} (stops : config.isStopToken = telling.isStopToken) (aborted : RequestId → Bool)
    (kept : Kept telling submitted machine
      (machine.scheduler.placed + (every (fun item => .filling item.1) items + entries)))
    (resolved : resolveStep telling.isStopToken machine.scheduler.active artifacts = some effects)
    (effective : Effective telling submitted machine items effects) :
    ∃ active continued, (machine.settle config aborted artifacts).scheduler =
        { machine.scheduler with active, prefilling := continued ++ machine.scheduler.prefilling } ∧
      Kept telling submitted (machine.settle config aborted artifacts)
        ((machine.settle config aborted artifacts).scheduler.placed + entries) ∧
      ∀ id, effects.serves items id → aborted id = false →
        MovedOn id machine (machine.settle config aborted artifacts) := by
  have run : machine.settle config aborted artifacts =
      machine.applyEffects aborted config.withholdsFinishes effects := by
    simp only [Machine.settle, stops, resolved]
  rw [run]
  exact kept.applyEffects aborted config.withholdsFinishes effective

theorem every_prefillItems (answer : RequestId → PrefillAnswer) (pending : List PendingRequest) :
    every (fun item => .filling item.1) (prefillItems answer pending) = every .filling pending := by
  simp [every, prefillItems, Function.comp_def]

/-- The prefill in flight is over: its requests go where they belong, and those
whose prefill is completed move on. -/
theorem Kept.poll {config : Config} {env : StepEnv} (stops : config.isStopToken = telling.isStopToken)
    (kept : Kept telling submitted machine (machine.scheduler.placed + entries))
    (told : ∀ answer, env.polled = some answer →
      ∀ pending, machine.scheduler.inflightPrefillPending = some pending → ∀ req ∈ pending,
      (answer req.requestId).completed = true → ∀ submission ∈ submitted, submission.id = req.requestId →
        telling.prefills submission.req (answer req.requestId).firstToken) :
    Kept telling submitted (machine.poll config env) ((machine.poll config env).scheduler.placed + entries) ∧
      ∀ answer, env.polled = some answer → ∀ pending, machine.scheduler.inflightPrefillPending =
        some pending → ∀ req ∈ pending,
        (answer req.requestId).completed = true → env.abortedAtPoll req.requestId = false →
          MovedOn req.requestId machine (machine.poll config env) := by
  unfold Machine.poll
  split
  · rename_i pending answer inflight polled
    obtain ⟨effects, run, -, effective⟩ := @resolvePrefill_effective telling submitted
      (machine.update fun scheduler => { scheduler with inflightPrefillPending := none }) answer pending
      (told answer polled pending inflight)
    have shape : machine.scheduler.placed + entries = (machine.update fun scheduler =>
          { scheduler with inflightPrefillPending := none }).scheduler.placed +
        (every (fun item => .filling item.1) (prefillItems answer pending) + entries) := by
      rw [every_prefillItems]
      simp only [Machine.update, Qwen3Scheduler.placed, Qwen3Scheduler.aside, inflight,
        Option.getD_some, Option.getD_none, every_nil]
      abel
    rw [shape] at kept
    obtain ⟨active, continued, -, settled, moves⟩ := @Kept.settle _ _ _ _ config _
      (.prefill pending (pending.map fun req : PendingRequest =>
        (answer req.requestId).result req.requestId)) effects stops
      env.abortedAtPoll
      (kept.update fun scheduler => { scheduler with inflightPrefillPending := none }) run effective
    refine ⟨settled, ?_⟩
    intro other same others held req member completed lowered
    cases polled.symm.trans same
    cases inflight.symm.trans held
    have serves : effects.serves (prefillItems answer pending) req.requestId :=
      .inr ⟨_, List.mem_map_of_mem member, rfl, completed⟩
    exact (moves req.requestId serves lowered).after (.same rfl rfl rfl rfl)
  · rename_i idle
    exact ⟨kept, fun answer polled pending inflight => absurd polled (idle pending answer inflight)⟩

end

end PegaInfer.Qwen3
