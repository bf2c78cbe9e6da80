import PegaInfer.Qwen3.Underway

namespace PegaInfer.Qwen3

open Frontend
open SwapRemove

/-- A completed prefill is resolved from what was submitted. -/
theorem resolvePrefilled_asSubmitted {isStopToken : Token → Bool} {req submitted : PendingRequest}
    {result : PrefillRequestResult}
    (same : req.asSubmitted = submitted) (completed : result.completed = true) :
    resolvePrefilled isStopToken req result = resolvePrefilled isStopToken submitted result := by
  subst same
  unfold resolvePrefilled
  rw [completed]
  rfl

theorem resolvePrefilled_requestId (isStopToken : Token → Bool) (req : PendingRequest)
    (result : PrefillRequestResult) :
    (resolvePrefilled isStopToken req result).requestId = req.requestId := by
  unfold resolvePrefilled
  split_ifs <;> rfl

theorem resolvePrefilled_completes {isStopToken : Token → Bool} {req : PendingRequest}
    {result : PrefillRequestResult}
    (completed : result.completed = true) (other : PendingRequest) :
    resolvePrefilled isStopToken req result ≠ .continuePrefill other := by
  unfold resolvePrefilled
  rw [completed]
  split_ifs <;> simp_all

section

variable {telling : Telling} {submitted : List Submission} {entries : Multiset Entry} {state : Applying}

/-- The outcome of the prefill loop: who runs, who goes on and who is to finish. -/
structure Sorted (telling : Telling) (submitted : List Submission) (entries : Multiset Entry)
    (state next : Applying)
    (promoted : List ActiveRequestState) (continued : List PendingRequest)
    (finished : List (RequestId × FinishReason)) : Prop where
  scheduler : next.machine.scheduler =
    { state.machine.scheduler with active := state.machine.scheduler.active ++ promoted }
  continues : next.continued = state.continued ++ continued
  finishes : next.finishes = state.finishes ++ finished
  kept : Kept telling submitted next.machine
    (every .decoding promoted + (every .filling continued + (every .finishing finished + entries)))

theorem Kept.pendingOne {req : PendingRequest} {result : PrefillRequestResult} (aborted : RequestId → Bool)
    (kept : Kept telling submitted state.machine (.filling req ::ₘ entries))
    (told : result.completed = true → ∀ submission ∈ submitted, submission.id = req.requestId →
      telling.prefills submission.req result.firstToken) :
    ∃ promoted continued finished, Sorted telling submitted entries state
      (state.pendingOne aborted (resolvePrefilled telling.isStopToken req result)) promoted
        continued finished := by
  have active : Admitted (state.machine.ledger.accounts req.requestId) :=
    kept.standing (Multiset.mem_cons_self _ _)
  have held : (state.machine.ledger.accounts req.requestId).isSome = true := by
    obtain ⟨held, completionTokens, opened, -⟩ := active
    simp [opened]
  have probed := Machine.probe_eq held
  obtain ⟨closed, unmoved⟩ := kept.retireAborted (.inr rfl)
  simp only [Entry.id] at closed unmoved
  have named := resolvePrefilled_requestId telling.isStopToken req result
  by_cases completed : result.completed = true
  · cases effect : resolvePrefilled telling.isStopToken req result with
    | continuePrefill req' =>
      exfalso
      unfold resolvePrefilled at effect
      rw [completed] at effect
      simp only [Bool.not_true, Bool.false_eq_true, if_false] at effect
      split_ifs at effect
    | finish id reason =>
      rw [effect] at named
      obtain rfl : id = req.requestId := named
      obtain ⟨finished, machine, new, run, did, rest⟩ :=
        @Kept.finishOne _ _ _ (.filling req) state none reason aborted kept rfl
        (by simp [Fits]) (by
          intro submission known own agrees life
          rw [resolvePrefilled_asSubmitted agrees completed] at effect
          exact life.filledOut result (told completed submission known own) completed effect)
      simp only [Entry.id] at run did rest
      refine ⟨[], [], finished, ?_, ?_, ?_, ?_⟩
      · simpa [Applying.pendingOne, run] using did.scheduler
      · simp [Applying.pendingOne, run]
      · simp [Applying.pendingOne, run]
      · simpa [Applying.pendingOne, run] using rest
    | emitAndFinish id token logprob reason =>
      rw [effect] at named
      obtain rfl : id = req.requestId := named
      obtain ⟨finished, machine, new, run, did, rest⟩ := @Kept.finishOne _ _ _ (.filling req) state
        (some (.pushTokens req.requestId [token] [logprob])) reason aborted kept rfl
        (by
          rintro call ⟨⟩
          exact ⟨rfl, rfl, fun account active => ⟨active, by simp⟩⟩) (by
          intro submission known own agrees life
          rw [resolvePrefilled_asSubmitted agrees completed] at effect
          have last := life.filledLast result (told completed submission known own) completed effect
          rw [own] at last ⊢
          exact last)
      simp only [Entry.id] at run did rest
      refine ⟨[], [], finished, ?_, ?_, ?_, ?_⟩
      · simpa [Applying.pendingOne, run] using did.scheduler
      · simp [Applying.pendingOne, run]
      · simp [Applying.pendingOne, run]
      · simpa [Applying.pendingOne, run] using rest
    | promote running token logprob =>
      rw [effect] at named
      have same : running.requestId = req.requestId := named
      by_cases flag : aborted req.requestId = true
      · refine ⟨[], [], [], ?_, ?_, ?_, ?_⟩
        · simpa [Applying.pendingOne, same, probed, flag] using unmoved
        · simp [Applying.pendingOne, same, probed, flag]
        · simp [Applying.pendingOne, same, probed, flag]
        · simpa [Applying.pendingOne, same, probed, flag] using closed
      · obtain ⟨did, left⟩ := @Machine.call_did state.machine
          (.pushTokens req.requestId [token] [logprob]) ⟨active, by simp⟩
        have moved := kept.move did (.decoding running) same (by
          intro submission known own agrees life
          rw [resolvePrefilled_asSubmitted agrees completed] at effect
          have first := life.promoted result (told completed submission known own) completed effect
          rw [own] at first
          exact ⟨trivial, first⟩) left
        refine ⟨[running], [], [], ?_, ?_, ?_, ?_⟩
        · simp [Applying.pendingOne, same, probed, flag, Machine.update, did.scheduler]
        · simp [Applying.pendingOne, same, probed, flag]
        · simp [Applying.pendingOne, same, probed, flag]
        · simpa [Applying.pendingOne, same, probed, flag] using moved.update _
  · obtain ⟨req', effect, name, agrees⟩ : ∃ req', resolvePrefilled telling.isStopToken req result =
      .continuePrefill req' ∧
        req'.requestId = req.requestId ∧ req'.asSubmitted = req.asSubmitted := by
      refine ⟨{ req with
        prefillPos := result.prefillPos
        cachedTokens := max req.cachedTokens result.cachedTokens }, ?_, rfl, rfl⟩
      simp [resolvePrefilled, completed]
    rw [effect]
    by_cases flag : aborted req.requestId = true
    · refine ⟨[], [], [], ?_, ?_, ?_, ?_⟩
      · simpa [Applying.pendingOne, name, probed, flag] using unmoved
      · simp [Applying.pendingOne, name, probed, flag]
      · simp [Applying.pendingOne, name, probed, flag]
      · simpa [Applying.pendingOne, name, probed, flag] using closed
    · have still : Did req.requestId state.machine state.machine [] :=
        ⟨rfl, id, by simp, by simp, fun _ _ => rfl⟩
      have moved := kept.move still (.filling req') name (by
        intro submission known own same life
        refine ⟨agrees.trans same, ?_⟩
        rw [List.append_nil]
        exact life) active
      refine ⟨[], [req'], [], ?_, ?_, ?_, ?_⟩
      · simp [Applying.pendingOne, name, probed, flag]
      · simp [Applying.pendingOne, name, probed, flag]
      · simp [Applying.pendingOne, name, probed, flag]
      · simpa [Applying.pendingOne, name, probed, flag] using moved

theorem Kept.pendingAll {items : List (PendingRequest × PrefillRequestResult)} (aborted : RequestId → Bool)
    (kept : Kept telling submitted state.machine (every (fun item => .filling item.1) items + entries))
    (told : ∀ item ∈ items, item.2.completed = true →
      ∀ submission ∈ submitted, submission.id = item.1.requestId →
      telling.prefills submission.req item.2.firstToken) :
    (∃ promoted continued finished, Sorted telling submitted entries state
      ((items.map fun item => resolvePrefilled telling.isStopToken item.1 item.2).foldl
        (Applying.pendingOne aborted) state)
      promoted continued finished) ∧
    ∀ item ∈ items, item.2.completed = true → aborted item.1.requestId = false →
      Served item.1.requestId state.machine
      ((items.map fun item => resolvePrefilled telling.isStopToken item.1 item.2).foldl
        (Applying.pendingOne aborted) state) := by
  induction items generalizing state entries with
  | nil => exact ⟨⟨[], [], [], by simp, by simp, by simp, by simpa using kept⟩, by simp⟩
  | cons item items ih =>
    rw [every_cons, Multiset.cons_add] at kept
    obtain ⟨promoted, continued, finished, first⟩ := kept.pendingOne aborted (told item List.mem_cons_self)
    have regroup : every .decoding promoted + (every .filling continued + (every .finishing finished +
        (every (fun item => .filling item.1) items + entries))) = every (fun item => .filling item.1) items +
        (every .decoding promoted + (every .filling continued + (every .finishing finished + entries))) := by
      abel
    have between := first.kept
    rw [regroup] at between
    obtain ⟨⟨promoted', continued', finished', rest⟩, served⟩ :=
      ih between fun other member => told other (List.mem_cons_of_mem _ member)
    refine ⟨⟨promoted ++ promoted', continued ++ continued', finished ++ finished', ?_, ?_, ?_, ?_⟩, ?_⟩
    · rw [List.map_cons, List.foldl_cons, rest.scheduler, first.scheduler, List.append_assoc]
    · rw [List.map_cons, List.foldl_cons, rest.continues, first.continues, List.append_assoc]
    · rw [List.map_cons, List.foldl_cons, rest.finishes, first.finishes, List.append_assoc]
    · have regroup : every .decoding (promoted ++ promoted') + (every .filling (continued ++ continued') +
          (every .finishing (finished ++ finished') + entries)) =
            every .decoding promoted' + (every .filling continued' +
          (every .finishing finished' + (every .decoding promoted +
            (every .filling continued + (every .finishing finished + entries))))) := by
        simp only [every_append]
        abel
      rw [List.map_cons, List.foldl_cons, regroup]
      exact rest.kept
    · intro other member completed lowered
      rcases List.mem_cons.mp member with rfl | later
      · have named := resolvePrefilled_requestId telling.isStopToken other.1 other.2
        have active : Admitted (state.machine.ledger.accounts other.1.requestId) :=
          kept.standing (Multiset.mem_cons_self _ _)
        rw [← named] at active lowered ⊢
        exact (Applying.pendingOne_served (resolvePrefilled_completes completed) active lowered).before
          (.foldl (Applying.pendingOne_grows aborted) _ _)
      · exact (served other later completed lowered).after (Applying.pendingOne_calm aborted state _)

end

section

variable {telling : Telling} {submitted : List Submission} {machine : Machine}

/-- The effects `apply_effects` is called with: prefill effects for the requests at
hand, and at most one decode effect for each running request. -/
structure Effective (telling : Telling) (submitted : List Submission) (machine : Machine)
    (items : List (PendingRequest × PrefillRequestResult)) (effects : StepEffects) : Prop where
  cached : ∀ pair ∈ effects.cached, ∃ item ∈ items, item.1.requestId = pair.1
  echoes : ∀ pair ∈ effects.promptEchoes, ∃ item ∈ items, item.1.requestId = pair.1
  pending : effects.pending = items.map fun item => resolvePrefilled telling.isStopToken item.1 item.2
  filled : ∀ item ∈ items, item.2.completed = true →
    ∀ submission ∈ submitted, submission.id = item.1.requestId →
    telling.prefills submission.req item.2.firstToken
  distinct : (effects.decode.map (·.requestId)).Nodup
  decoded : ∀ effect ∈ effects.decode, ∃ req ∈ machine.scheduler.active, req.requestId = effect.requestId ∧
    ∀ submission ∈ submitted, submission.id = effect.requestId →
      telling.decodes submission.req (pushedBy (submission.history machine.events)) req effect

theorem Kept.active_distinct {active : List ActiveRequestState} {entries : Multiset Entry}
    (kept : Kept telling submitted machine (every .decoding active + entries)) :
    (active.map (·.requestId)).Nodup := by
  have distinct := kept.distinct
  rw [Multiset.map_add] at distinct
  have front := (Multiset.nodup_add.mp distinct).1
  simpa [every, Function.comp_def, Entry.id] using front

theorem pushedBy_history_called (submission : Submission) {events : List Event} {calls : List LedgerCall}
    (past : submission.since ≤ events.length) (silent : ∀ call ∈ calls, LedgerCall.tokens call = []) :
    pushedBy (submission.history (events ++ calls.map .called)) = pushedBy (submission.history events) := by
  have none : pushedBy ((calls.map Event.called).filter (·.concerns submission.id)) = [] := by
    rw [pushedBy, List.flatMap_eq_nil_iff]
    intro event member
    obtain ⟨call, known, rfl⟩ := List.mem_map.mp (List.mem_of_mem_filter member)
    exact silent call known
  rw [submission.history_append _ past, pushedBy_append, none, List.append_nil]

/-- The decode loop and the removal of the requests it retired. -/
theorem Kept.applyDecode {effects : List DecodeEffect} {base : Multiset Entry} (aborted : RequestId → Bool)
    (kept : Kept telling submitted machine (every .decoding machine.scheduler.active + base))
    (distinct : (effects.map (·.requestId)).Nodup)
    (decoded : ∀ effect ∈ effects, ∃ req ∈ machine.scheduler.active, req.requestId = effect.requestId ∧
      ∀ submission ∈ submitted, submission.id = effect.requestId →
        telling.decodes submission.req (pushedBy (submission.history machine.events)) req effect) :
    ∃ state active, effects.foldl (Applying.decodeOne aborted)
      { machine, finishes := [], toRetire := [], continued := [] } = state ∧
      swapRemoveAll state.machine.scheduler.active state.toRetire = active ∧
      state.machine.scheduler =
        { machine.scheduler with active := state.machine.scheduler.active } ∧ state.continued = [] ∧
      Kept telling submitted state.machine
        (every .decoding active + (every .finishing state.finishes + base)) ∧
      ∀ effect ∈ effects, aborted effect.requestId = false → (effect.reason = none → effect.emits ≠ []) →
        Served effect.requestId machine state := by
  have underway : Underway telling submitted base
      { machine, finishes := [], toRetire := [], continued := [] } := by
    refine ⟨?_, by simp, kept.active_distinct⟩
    rw [survivors_none, every_nil, zero_add]
    exact kept
  obtain ⟨after, scheduler, continued, served⟩ := underway.decodeAll aborted distinct fun effect member => by
    obtain ⟨req, running, own, told⟩ := decoded effect member
    obtain ⟨index, found⟩ := List.mem_iff_getElem?.mp running
    exact ⟨index, req, found, own, by simp, told⟩
  refine ⟨_, _, rfl, rfl, scheduler, continued, ?_, served⟩
  rw [every_perm .decoding (swapRemoveAll_perm after.inside)]
  exact after.kept

/-- The cache hits and the prompt echoes are only noted. -/
theorem Kept.applyNotes {items : List (PendingRequest × PrefillRequestResult)}
    {effects : StepEffects} {entries : Multiset Entry}
    (kept : Kept telling submitted machine entries)
    (effective : Effective telling submitted machine items effects)
    (filling : ∀ item ∈ items, Entry.filling item.1 ∈ entries) :
    ∃ written, effects.promptEchoes.foldl (fun machine pair =>
      machine.callIfActive (.echoPrompt pair.1 pair.2))
        (effects.cached.foldl (fun machine pair =>
          machine.callIfActive (.setCachedTokens pair.1 pair.2)) machine) = written ∧
      Kept telling submitted written entries ∧ written.scheduler = machine.scheduler ∧
      ∀ submission ∈ submitted, pushedBy (submission.history written.events) =
        pushedBy (submission.history machine.events) := by
  obtain ⟨cached, scheduled, logged⟩ :=
    @Kept.callsIfActive _ _ _ _ (effects.cached.map fun pair => .setCachedTokens pair.1 pair.2) kept
    (by
      intro call member
      obtain ⟨pair, known, rfl⟩ := List.mem_map.mp member
      obtain ⟨item, held, own⟩ := effective.cached pair known
      exact ⟨item.1, filling item held, own⟩)
    (by
      intro call member
      obtain ⟨pair, known, rfl⟩ := List.mem_map.mp member
      rfl)
  obtain ⟨echoed, scheduled', logged'⟩ :=
    @Kept.callsIfActive _ _ _ _ (effects.promptEchoes.map fun pair => .echoPrompt pair.1 pair.2)
    cached
    (by
      intro call member
      obtain ⟨pair, known, rfl⟩ := List.mem_map.mp member
      obtain ⟨item, held, own⟩ := effective.echoes pair known
      exact ⟨item.1, filling item held, own⟩)
    (by
      intro call member
      obtain ⟨pair, known, rfl⟩ := List.mem_map.mp member
      rfl)
  refine ⟨_, rfl, ?_, ?_, ?_⟩
  · simpa [List.foldl_map] using echoed
  · simpa [List.foldl_map] using scheduled'.trans scheduled
  · intro submission known
    have first := pushedBy_history_called submission (kept.past submission known) (by
      intro call member
      obtain ⟨pair, known, rfl⟩ := List.mem_map.mp member
      rfl : ∀ call ∈ effects.cached.map fun pair =>
        LedgerCall.setCachedTokens pair.1 pair.2, LedgerCall.tokens call = [])
    have second := pushedBy_history_called submission (cached.past submission known) (by
      intro call member
      obtain ⟨pair, known, rfl⟩ := List.mem_map.mp member
      rfl : ∀ call ∈ effects.promptEchoes.map fun pair =>
        LedgerCall.echoPrompt pair.1 pair.2, LedgerCall.tokens call = [])
    rw [← logged] at first
    rw [← logged', first] at second
    simpa [List.foldl_map] using second

/-- The requests that some effects serve: those that decode, and those whose prefill
is completed. -/
def StepEffects.serves (effects : StepEffects)
    (items : List (PendingRequest × PrefillRequestResult)) (id : RequestId) : Prop :=
  (∃ effect ∈ effects.decode, effect.requestId = id ∧ (effect.reason = none → effect.emits ≠ [])) ∨
    ∃ item ∈ items, item.1.requestId = id ∧ item.2.completed = true

/-- `apply_effects` moves every request at hand to where it belongs, and moves on
every request it serves. -/
theorem Kept.applyEffects {items : List (PendingRequest × PrefillRequestResult)}
    {effects : StepEffects} {extra : Multiset Entry}
    (aborted : RequestId → Bool) (withholdsFinishes : Bool)
    (kept : Kept telling submitted machine
      (machine.scheduler.placed + (every (fun item => .filling item.1) items + extra)))
    (effective : Effective telling submitted machine items effects) :
    ∃ active continued, (machine.applyEffects aborted withholdsFinishes effects).scheduler =
        { machine.scheduler with active, prefilling := continued ++ machine.scheduler.prefilling } ∧
      Kept telling submitted (machine.applyEffects aborted withholdsFinishes effects)
        ((machine.applyEffects aborted withholdsFinishes effects).scheduler.placed + extra) ∧
      ∀ id, effects.serves items id → aborted id = false →
        MovedOn id machine (machine.applyEffects aborted withholdsFinishes effects) := by
  have filling : ∀ item ∈ items, Entry.filling item.1 ∈
      machine.scheduler.placed + (every (fun item => .filling item.1) items + extra) := by
    intro item member
    simp only [Multiset.mem_add]
    exact .inr (.inl (mem_every (fun item : PendingRequest × PrefillRequestResult => .filling item.1) member))
  obtain ⟨written, noted, kept, same, pushed⟩ := kept.applyNotes effective filling
  rw [Qwen3Scheduler.placed, add_assoc, ← same] at kept
  obtain ⟨state, active, loop, retired, scheduler, continued, kept, decodes⟩ :=
    kept.applyDecode aborted effective.distinct (by
    intro effect member
    obtain ⟨req, running, own, told⟩ := effective.decoded effect member
    refine ⟨req, same ▸ running, own, ?_⟩
    intro submission known named
    rw [pushed submission known]
    exact told submission known named)
  obtain ⟨thinned, thin⟩ : ∃ thinned : Applying, { state with machine := state.machine.update fun scheduler =>
      { scheduler with active := swapRemoveAll scheduler.active state.toRetire } } = thinned := ⟨_, rfl⟩
  have running : thinned.machine.scheduler = { machine.scheduler with active } := by
    rw [← thin, ← retired, ← same, Machine.update, scheduler]
  have regroup : every .decoding active + (every .finishing state.finishes + (written.scheduler.aside +
      (every (fun item => .filling item.1) items + extra))) = every (fun item => .filling item.1) items +
      (every .decoding active + (every .finishing state.finishes + (machine.scheduler.aside + extra))) := by
    rw [same]
    abel
  rw [regroup] at kept
  have between : Kept telling submitted thinned.machine (every (fun item => .filling item.1) items +
      (every .decoding active + (every .finishing state.finishes + (machine.scheduler.aside + extra)))) := by
    rw [← thin]
    exact kept.congr rfl rfl rfl
  obtain ⟨⟨promoted, continued', finished, sorted⟩, prefills⟩ := between.pendingAll aborted effective.filled
  obtain ⟨last, ends⟩ : ∃ last, (items.map fun item =>
    resolvePrefilled telling.isStopToken item.1 item.2).foldl
      (Applying.pendingOne aborted) thinned = last := ⟨_, rfl⟩
  rw [ends] at sorted
  have finishes : last.finishes = state.finishes ++ finished := by rw [sorted.finishes, ← thin]
  have continues : last.continued = continued' := by
    rw [sorted.continues, ← thin]
    simp [continued]
  obtain ⟨spliced, splice⟩ : ∃ spliced : Machine, last.machine.update (fun scheduler =>
      { scheduler with prefilling := last.continued ++ scheduler.prefilling }) = spliced := ⟨_, rfl⟩
  have final : spliced.scheduler =
      { machine.scheduler with
        active := active ++ promoted
        prefilling := continued' ++ machine.scheduler.prefilling } := by
    rw [← splice, Machine.update, sorted.scheduler, continues, running]
  have whole : Kept telling submitted spliced
      (every .finishing last.finishes + (spliced.scheduler.placed + extra)) := by
    have regroup : every .finishing last.finishes + (spliced.scheduler.placed + extra) =
        every .decoding promoted + (every .filling continued' + (every .finishing finished +
          (every .decoding active +
            (every .finishing state.finishes + (machine.scheduler.aside + extra))))) := by
      rw [final, finishes]
      simp only [Qwen3Scheduler.placed, Qwen3Scheduler.aside, every_append]
      abel
    rw [regroup, ← splice]
    exact sorted.kept.update _
  obtain ⟨over_, unmoved⟩ := whole.finishAll withholdsFinishes
  have run : machine.applyEffects aborted withholdsFinishes effects =
    last.finishes.foldl (fun machine ended =>
      machine.call (if withholdsFinishes then .deferFinish ended.1 ended.2
        else .finish ended.1 ended.2)) spliced := by
    rw [← splice, ← ends, ← thin, ← loop, ← noted, ← effective.pending]
    rfl
  refine ⟨active ++ promoted, continued', ?_, ?_, ?_⟩
  · rw [run, unmoved, final]
  · rw [run, unmoved]
    exact over_
  · intro id serves lowered
    have writes : Calm machine written := by
      rw [← noted]
      exact (Calm.foldl (fun machine pair => machine.callIfActive_calm _) _ _).trans
        (Calm.foldl (fun machine pair => machine.callIfActive_calm _) _ _)
    have decoded : Calm written state.machine := by
      rw [← loop]
      exact Applying.foldl_calm ⟨written, [], [], []⟩ (Applying.decodeOne_calm aborted) effects.decode
    have thins : Calm state.machine thinned.machine := by
      rw [← thin]
      exact .same rfl rfl rfl rfl
    have sorts : Calm thinned.machine last.machine := by
      rw [← ends]
      exact Applying.foldl_calm _ (Applying.pendingOne_calm aborted) _
    have splices : Calm last.machine spliced := by
      rw [← splice]
      exact .same rfl rfl rfl rfl
    have served : Served id machine last := by
      rcases serves with ⟨effect, member, rfl, emits⟩ | ⟨item, member, rfl, completed⟩
      · have here := (decodes effect member lowered emits).after writes
        have thinner : Served effect.requestId machine thinned := here.before ⟨thins, by rw [← thin]⟩
        rw [← ends]
        exact thinner.before (.foldl (Applying.pendingOne_grows aborted) _ _)
      · rw [ends] at prefills
        exact (prefills item member completed lowered).after ((writes.trans decoded).trans thins)
    rw [run]
    rcases served with moved | ⟨reason, collected⟩
    · exact (moved.before splices).before (Calm.foldl (fun machine ended => machine.call_calm _) _ _)
    · exact (whole.finishAll_moved withholdsFinishes _ collected).after
        ((((writes.trans decoded).trans thins).trans sorts).trans splices)

end

end PegaInfer.Qwen3
