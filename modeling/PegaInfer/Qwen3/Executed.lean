import PegaInfer.Qwen3.Settled
import PegaInfer.Qwen3.Verified

namespace PegaInfer.Qwen3

open Frontend

theorem find?_requestId {active : List ActiveRequestState} {id : RequestId}
    (known : id ∈ active.map (·.requestId)) :
    ∃ req ∈ active, active.find? (·.requestId = id) = some req ∧ req.requestId = id := by
  obtain ⟨req, member, own⟩ := List.mem_map.mp known
  cases found : active.find? (·.requestId = id) with
  | none => exact absurd (List.find?_eq_none.mp found req member) (by simp [own])
  | some other =>
    have named := List.find?_some found
    exact ⟨other, List.mem_of_find?_eq_some found, rfl, by simpa using named⟩

/-- Resolving results by the running request of their id. -/
theorem mapM_resolve {α β : Type} {active : List ActiveRequestState} {results : List α} (id : α → RequestId)
    (resolve : ActiveRequestState → α → β)
    (known : ∀ result ∈ results, id result ∈ active.map (·.requestId)) :
    ∃ resolved, (results.mapM fun result => do
        let req ← active.find? (·.requestId = id result)
        return resolve req result) = some resolved ∧
      List.Forall₂ (fun result outcome => ∃ req ∈ active, req.requestId = id result ∧
        outcome = resolve req result) results resolved := by
  induction results with
  | nil => exact ⟨[], rfl, .nil⟩
  | cons result results ih =>
    obtain ⟨req, member, found, own⟩ := find?_requestId (known result List.mem_cons_self)
    obtain ⟨rest, run, pairs⟩ := ih fun other later => known other (List.mem_cons_of_mem _ later)
    refine ⟨resolve req result :: rest, ?_, .cons ⟨req, member, own, rfl⟩ pairs⟩
    rw [List.mapM_cons, found, run]
    rfl

theorem forall₂_map_eq {α β γ : Type} {R : α → β → Prop} {one : List α} {two : List β} {f : α → γ} {g : β → γ}
    (pairs : List.Forall₂ R one two) (same : ∀ a b, R a b → g b = f a) : two.map g = one.map f := by
  induction pairs with
  | nil => rfl
  | cons head _ ih => rw [List.map_cons, List.map_cons, same _ _ head, ih]

theorem forall₂_mem_right {α β : Type} {R : α → β → Prop} {one : List α} {two : List β}
    (pairs : List.Forall₂ R one two) {b : β}
    (member : b ∈ two) : ∃ a ∈ one, R a b := by
  induction pairs with
  | nil => simp at member
  | cons head _ ih =>
    rcases List.mem_cons.mp member with rfl | member
    · exact ⟨_, List.mem_cons_self, head⟩
    · obtain ⟨a, known, related⟩ := ih member
      exact ⟨a, List.mem_cons_of_mem _ known, related⟩

theorem sortById_perm {α : Type} (id : α → RequestId) (items : List α) : (sortById id items).Perm items :=
  List.mergeSort_perm items _

theorem sortById_sorted {α : Type} (id : α → RequestId) (items : List α) :
    (sortById id items).Pairwise fun one two => id one ≤ id two := by
  have sorted := @List.pairwise_mergeSort _ (fun one two => decide (id one ≤ id two))
    (fun one two three => by simpa using le_trans)
      (fun one two => by simpa using le_total (id one) (id two)) items
  simpa [sortById] using sorted

/-- Items in order stay as they are. -/
theorem sortById_eq_self {α : Type} {id : α → RequestId} {items : List α}
    (sorted : items.Pairwise fun one two => id one ≤ id two) :
    sortById id items = items :=
  List.mergeSort_of_pairwise (by simpa using sorted)

theorem resolveDecoded_requestId (isStopToken : Token → Bool) (req : ActiveRequestState)
    (result : DecodeRequestResult) :
    (resolveDecoded isStopToken req result).requestId = result.requestId := by
  unfold resolveDecoded
  dsimp only
  split_ifs <;> rfl

theorem resolveAccepted_requestId (isStopToken : Token → Bool) (req : ActiveRequestState)
    (emitted : List Token) (completionTokens : Nat)
    (tokens : List Token) :
    (resolveAccepted isStopToken req emitted completionTokens tokens).requestId = req.requestId := by
  induction tokens generalizing emitted completionTokens with
  | nil => rfl
  | cons token tokens ih =>
    unfold resolveAccepted
    split_ifs
    · rfl
    · rfl
    · exact ih _ _

/-- What the executor makes of a request's decode step. -/
def Execution.decoded (execution : Execution) (req : ActiveRequestState) : DecodeRequestResult :=
  { requestId := req.requestId, token := (execution.decode req.requestId).1,
    logprob := (execution.decode req.requestId).2 }

/-- The executor's answers in one step are what is told of them. -/
structure Told (telling : Telling) (submitted : List Submission) (machine : Machine)
    (execution : Execution) (pending : List PendingRequest) :
    Prop where
  prefill : ∀ req ∈ pending, (execution.prefill req.requestId).completed = true →
    ∀ submission ∈ submitted, submission.id = req.requestId →
      telling.prefills submission.req (execution.prefill req.requestId).firstToken
  decode : ∀ req ∈ machine.scheduler.active, ∀ submission ∈ submitted, submission.id = req.requestId →
    telling.decodes submission.req (pushedBy (submission.history machine.events)) req
      (resolveDecoded telling.isStopToken req (execution.decoded req))
  verify : ∀ results, execution.speculate machine.scheduler.active =
    .ok (.speculativeDecode results) → ∀ result ∈ results,
    ∀ req ∈ machine.scheduler.active, req.requestId = result.requestId →
      ∀ submission ∈ submitted, submission.id = req.requestId →
      telling.decodes submission.req (pushedBy (submission.history machine.events)) req
        (resolveAccepted telling.isStopToken req [] req.generatedCount result.acceptedTokens)

section

variable {telling : Telling} {submitted : List Submission} {machine : Machine} {execution : Execution}

/-- The prefill results of a step, each beside its request. -/
def prefillItems (answer : RequestId → PrefillAnswer) (pending : List PendingRequest) :
    List (PendingRequest × PrefillRequestResult) :=
  pending.map fun req => (req, (answer req.requestId).result req.requestId)

theorem zip_prefillItems (answer : RequestId → PrefillAnswer) (pending : List PendingRequest) :
    pending.zip (pending.map fun req => (answer req.requestId).result req.requestId) =
      prefillItems answer pending := by
  induction pending with
  | nil => rfl
  | cons req pending ih => simpa [prefillItems] using ih

/-- A prefill resolves to effects for exactly its requests. -/
theorem resolvePrefill_effective (answer : RequestId → PrefillAnswer) (pending : List PendingRequest)
    (told : ∀ req ∈ pending, (answer req.requestId).completed = true →
      ∀ submission ∈ submitted, submission.id = req.requestId →
      telling.prefills submission.req (answer req.requestId).firstToken) :
    ∃ effects, resolvePrefillOutputs telling.isStopToken pending
      (pending.map fun req => (answer req.requestId).result req.requestId) =
        some effects ∧ effects.decode = [] ∧
          Effective telling submitted machine (prefillItems answer pending) effects := by
  have aligned : (prefillItems answer pending).all
      (fun pair => decide (pair.1.requestId = pair.2.requestId)) = true := by
    rw [List.all_eq_true]
    intro item member
    obtain ⟨req, -, rfl⟩ := List.mem_map.mp member
    simp [PrefillAnswer.result]
  unfold resolvePrefillOutputs
  rw [zip_prefillItems]
  refine ⟨_, if_pos aligned, rfl, ?_, ?_, rfl, ?_, List.nodup_nil, by simp⟩
  · intro pair member
    obtain ⟨item, known, rfl⟩ := List.mem_map.mp member
    exact ⟨item, List.mem_of_mem_filter known, rfl⟩
  · intro pair member
    obtain ⟨item, known, rfl⟩ := List.mem_map.mp member
    exact ⟨item, List.mem_of_mem_filter known, rfl⟩
  · intro item member completed submission known own
    obtain ⟨req, asked, rfl⟩ := List.mem_map.mp member
    exact told req asked completed submission known own

/-- A decode step resolves to one effect for each running request. -/
theorem resolveDecode_effects (distinct : (machine.scheduler.active.map (·.requestId)).Nodup)
    (told : ∀ req ∈ machine.scheduler.active, ∀ submission ∈ submitted, submission.id = req.requestId →
      telling.decodes submission.req (pushedBy (submission.history machine.events)) req
        (resolveDecoded telling.isStopToken req (execution.decoded req))) :
    ∃ effects, resolveDecodeOutputs telling.isStopToken machine.scheduler.active
      (execution.decodeResults machine.scheduler.active) =
        some effects ∧ (effects.map (·.requestId)).Perm (machine.scheduler.active.map (·.requestId)) ∧
      ∀ effect ∈ effects, ∃ req ∈ machine.scheduler.active, req.requestId = effect.requestId ∧
        ∀ submission ∈ submitted, submission.id = effect.requestId →
          telling.decodes submission.req (pushedBy (submission.history machine.events)) req effect := by
  have perm : (execution.decodeResults machine.scheduler.active).Perm
      (machine.scheduler.active.map execution.decoded) :=
    sortById_perm _ _
  have ids : ((execution.decodeResults machine.scheduler.active).map (·.requestId)).Perm
      (machine.scheduler.active.map (·.requestId)) := by
    have mapped := perm.map (·.requestId)
    rw [List.map_map] at mapped
    exact mapped
  obtain ⟨effects, run, pairs⟩ := mapM_resolve (fun result : DecodeRequestResult => result.requestId)
    (resolveDecoded telling.isStopToken) fun result member => ids.subset (List.mem_map_of_mem member)
  refine ⟨effects, run, ?_, ?_⟩
  · rw [forall₂_map_eq pairs (f := fun result => result.requestId) (g :=
      fun effect => effect.requestId) fun result effect related => by
      obtain ⟨req, -, -, rfl⟩ := related
      exact resolveDecoded_requestId _ _ _]
    exact ids
  · intro effect member
    obtain ⟨result, known, req, running, own, rfl⟩ := forall₂_mem_right pairs member
    obtain ⟨other, held, rfl⟩ := List.mem_map.mp (perm.subset known)
    obtain rfl : req = other := List.inj_on_of_nodup_map distinct running held own
    refine ⟨req, running, by rw [resolveDecoded_requestId]; rfl, ?_⟩
    intro submission asked named
    rw [resolveDecoded_requestId] at named
    exact told req running submission asked named

/-- The verify span of a running request. -/
def Execution.verifySpan (execution : Execution) (req : ActiveRequestState) : VerifyStepItem :=
  { requestId := req.requestId
    tokenIds := (req.lastToken :: execution.draft req.requestId).take (req.maxTokens - req.generatedCount)
    params := req.params }

/-- Every draft finds its running request. -/
theorem buildSpeculativeVerifyItems_some {active : List ActiveRequestState}
    (distinct : (active.map (·.requestId)).Nodup) :
    ∃ items, buildSpeculativeVerifyItems active (execution.drafts active) = some items ∧
      (items.map (·.requestId)).Perm (active.map (·.requestId)) ∧
        ∀ item ∈ items, item ∈ active.map execution.verifySpan := by
  have ids : ((execution.drafts active).map (·.1)).Perm (active.map (·.requestId)) := by
    have mapped := (sortById_perm (·.1) (active.map fun req =>
      (req.requestId, req.lastToken :: execution.draft req.requestId))).map (·.1)
    rw [List.map_map] at mapped
    exact mapped
  obtain ⟨items, run, pairs⟩ := mapM_resolve (fun draft : RequestId × List Token => draft.1)
    (fun req draft => ({ requestId := draft.1,
                         tokenIds := draft.2.take (req.maxTokens - req.generatedCount),
                         params := req.params } :
      VerifyStepItem)) fun draft member => ids.subset (List.mem_map_of_mem member)
  have named : items.map (·.requestId) = (execution.drafts active).map (·.1) :=
    forall₂_map_eq pairs fun draft item related => by
      obtain ⟨req, -, -, rfl⟩ := related
      rfl
  refine ⟨items, run, named ▸ ids, ?_⟩
  intro item member
  obtain ⟨draft, known, req, running, own, rfl⟩ := forall₂_mem_right pairs member
  obtain ⟨drafted, held, rfl⟩ := List.mem_map.mp ((sortById_perm _ _).subset known)
  obtain rfl : req = drafted := List.inj_on_of_nodup_map distinct running held own
  exact List.mem_map.mpr ⟨req, running, rfl⟩

/-- A speculative step never meets a request that is not running, and answers each
running request once, with the outcome of a span that stands for its own. -/
theorem speculate_cases {active : List ActiveRequestState} (distinct : (active.map (·.requestId)).Nodup) :
    (∃ message, execution.speculate active = .error message) ∨
    ∃ results, execution.speculate active = .ok (.speculativeDecode results) ∧
      (results.map (·.requestId)).Perm (active.map (·.requestId)) ∧
      ((∀ id span, (execution.target id span).length = span.length) →
        ∀ result ∈ results, Answers execution.target (active.map execution.verifySpan) result) := by
  obtain ⟨items, built, ids, spans⟩ := @buildSpeculativeVerifyItems_some execution active distinct
  unfold Execution.speculate
  rw [built]
  cases verified : executeVerify execution.target execution.lane items with
  | error message => exact .inl ⟨message, by simp only [verified]⟩
  | ok results =>
    refine .inr ⟨sortById (·.requestId) results, by simp only [verified], ?_⟩
    have sorted := (sortById_perm (·.requestId) results).map (·.requestId)
    rw [(executeVerify_ok verified).1] at sorted
    refine ⟨sorted.trans ids, ?_⟩
    intro rows result member
    obtain ⟨span, request, asked, stands⟩ :=
      (executeVerify_ok verified).2 rows result ((sortById_perm _ _).subset member)
    exact ⟨span, request, spans request asked, stands⟩

/-- A speculative step over requests with room left is answered. -/
theorem speculate_ok {active : List ActiveRequestState} (distinct : (active.map (·.requestId)).Nodup)
    (rows : ∀ id span, (execution.target id span).length = span.length)
    (room : ∀ req ∈ active, req.generatedCount < req.maxTokens) :
    ∀ message, execution.speculate active ≠ .error message := by
  obtain ⟨items, built, -, spans⟩ := @buildSpeculativeVerifyItems_some execution active distinct
  have filled : ∀ item ∈ items, item.tokenIds ≠ [] := by
    intro item member
    obtain ⟨req, running, rfl⟩ := List.mem_map.mp (spans item member)
    have left := room req running
    rw [← List.length_pos_iff, Execution.verifySpan, List.length_take, List.length_cons]
    omega
  obtain ⟨results, verified⟩ := @executeVerify_isOk execution.target rows execution.lane items filled
  intro message failed
  simp only [Execution.speculate, built, verified] at failed
  cases failed

theorem resolveSpeculative_effects {results : List VerifyRequestResult}
    (ids : (results.map (·.requestId)).Perm (machine.scheduler.active.map (·.requestId)))
    (told : ∀ result ∈ results, ∀ req ∈ machine.scheduler.active, req.requestId = result.requestId →
      ∀ submission ∈ submitted, submission.id = req.requestId →
        telling.decodes submission.req (pushedBy (submission.history machine.events)) req
          (resolveAccepted telling.isStopToken req [] req.generatedCount result.acceptedTokens)) :
    ∃ effects, resolveSpeculativeOutputs telling.isStopToken machine.scheduler.active results = some effects ∧
      (effects.map (·.requestId)).Perm (machine.scheduler.active.map (·.requestId)) ∧
      ∀ effect ∈ effects, ∃ req ∈ machine.scheduler.active, req.requestId = effect.requestId ∧
        ∀ submission ∈ submitted, submission.id = effect.requestId →
          telling.decodes submission.req (pushedBy (submission.history machine.events)) req effect := by
  obtain ⟨effects, run, pairs⟩ := mapM_resolve (fun result : VerifyRequestResult => result.requestId)
    (fun req result => resolveAccepted telling.isStopToken req [] req.generatedCount result.acceptedTokens)
    fun result member => ids.subset (List.mem_map_of_mem member)
  refine ⟨effects, run, ?_, ?_⟩
  · rw [forall₂_map_eq pairs (f := fun result => result.requestId) (g :=
      fun effect => effect.requestId) fun result effect related => by
      obtain ⟨req, -, own, rfl⟩ := related
      rw [resolveAccepted_requestId, own]]
    exact ids
  · intro effect member
    obtain ⟨result, known, req, running, own, rfl⟩ := forall₂_mem_right pairs member
    refine ⟨req, running, (resolveAccepted_requestId _ _ _ _ _).symm, ?_⟩
    intro submission asked named
    rw [resolveAccepted_requestId] at named
    exact told result known req running own submission asked named

/-- The prefill results a plan is settled with in its own step. -/
def ExecutionPlan.items (plan : ExecutionPlan) (overlap : Bool) (answer : RequestId → PrefillAnswer) :
    List (PendingRequest × PrefillRequestResult) :=
  match plan with
  | .prefill pending => prefillItems answer pending
  | .unified pending => if overlap then [] else prefillItems answer pending
  | _ => []

/-- The requests a plan prefills. -/
def ExecutionPlan.pending : ExecutionPlan → List PendingRequest
  | .prefill pending | .unified pending => pending
  | _ => []

/-- The running requests a plan decodes or verifies. -/
def ExecutionPlan.decodes (active : List ActiveRequestState) : ExecutionPlan → List ActiveRequestState
  | .prefill _ => []
  | .decode | .speculativeDecode | .unified _ => active

/-- A plan that does not fail is resolved without a panic, and to one decode effect
for each request it decodes. -/
theorem executePlan_cases {plan : ExecutionPlan} (overlap : Bool)
    (distinct : (machine.scheduler.active.map (·.requestId)).Nodup)
    (sorted : plan.pending.Pairwise fun one two => one.requestId ≤ two.requestId)
    (told : Told telling submitted machine execution plan.pending) :
    (∃ message, executePlan execution overlap machine.scheduler.active plan = .error message) ∨
    ∃ artifacts effects, executePlan execution overlap machine.scheduler.active plan = .ok artifacts ∧
      resolveStep telling.isStopToken machine.scheduler.active artifacts = some effects ∧
      Effective telling submitted machine (plan.items overlap execution.prefill) effects ∧
      (effects.decode.map (·.requestId)).Perm
        ((plan.decodes machine.scheduler.active).map (·.requestId)) := by
  have inOrder : ∀ pending : List PendingRequest,
    pending.Pairwise (fun one two => one.requestId ≤ two.requestId) →
      execution.prefillResults pending = pending.map fun req =>
        (execution.prefill req.requestId).result req.requestId := by
    intro pending sorted
    apply sortById_eq_self
    exact List.pairwise_map.mpr sorted
  unfold executePlan
  cases failed : execution.error with
  | some message => exact .inl ⟨message, rfl⟩
  | none =>
    cases plan with
    | prefill pending =>
      obtain ⟨effects, run, none, effective⟩ :=
        @resolvePrefill_effective telling submitted machine execution.prefill pending told.prefill
      refine .inr ⟨_, effects, rfl, ?_, effective, by simp [none, ExecutionPlan.decodes]⟩
      simpa [resolveStep, inOrder pending sorted] using run
    | decode =>
      obtain ⟨effects, run, ids, decoded⟩ := resolveDecode_effects distinct told.decode
      refine .inr ⟨_, .ofDecode effects, rfl, ?_, ?_, ids⟩
      · simp [resolveStep, run]
      · exact ⟨by simp [StepEffects.ofDecode], by simp [StepEffects.ofDecode],
          rfl, by simp [ExecutionPlan.items],
          ids.nodup_iff.mpr distinct, decoded⟩
    | speculativeDecode =>
      rcases @speculate_cases execution machine.scheduler.active distinct
        with ⟨message, error⟩ | ⟨results, run, ids, -⟩
      · exact .inl ⟨message, error⟩
      · obtain ⟨effects, resolved, each, decoded⟩ := resolveSpeculative_effects ids (told.verify results run)
        refine .inr ⟨_, .ofDecode effects, run, ?_, ?_, each⟩
        · simp [resolveStep, resolved]
        · exact ⟨by simp [StepEffects.ofDecode], by simp [StepEffects.ofDecode],
            rfl, by simp [ExecutionPlan.items],
            each.nodup_iff.mpr distinct, decoded⟩
    | unified pending =>
      obtain ⟨filled, run, effective⟩ : ∃ filled, resolvePrefillOutputs telling.isStopToken pending
          (if overlap then [] else execution.prefillResults pending) = some filled ∧
          Effective telling submitted machine
            ((ExecutionPlan.unified pending).items overlap execution.prefill) filled := by
        cases overlap with
        | true =>
          obtain ⟨filled, run, -, effective⟩ :=
            @resolvePrefill_effective telling submitted machine execution.prefill [] (by simp)
          refine ⟨filled, ?_, effective⟩
          rw [← run]
          simp [resolvePrefillOutputs]
        | false =>
          obtain ⟨filled, run, -, effective⟩ :=
            @resolvePrefill_effective telling submitted machine execution.prefill pending told.prefill
          refine ⟨filled, ?_, effective⟩
          rw [← run, ← inOrder pending sorted]
          rfl
      obtain ⟨effects, resolved, ids, decoded⟩ := resolveDecode_effects distinct told.decode
      refine .inr ⟨_, { filled with decode := effects }, rfl, ?_, ?_, ids⟩
      · simp [resolveStep, run, resolved]
      · exact ⟨effective.cached, effective.echoes, effective.pending, effective.filled,
          ids.nodup_iff.mpr distinct, decoded⟩

end

end PegaInfer.Qwen3
