import PegaInfer.KimiK2.Rows

namespace PegaInfer.KimiK2

open Frontend Kvbm Lib

variable {H : Type}

/-- The request passes every check of the admission loop. -/
def GenerateRequest.Passes (req : GenerateRequest) (blockSize maxRequestBlocks : Nat) : Prop :=
  req.unschedulableVerdict.isNone ∧ req.params.isGreedy ∧
    (req.validateKvCapacity blockSize maxRequestBlocks none).isOk

instance (req : GenerateRequest) (blockSize maxRequestBlocks : Nat) :
    Decidable (req.Passes blockSize maxRequestBlocks) :=
  inferInstanceAs (Decidable (_ ∧ _ ∧ _))

namespace GenerateRequest

variable {req : GenerateRequest} {blockSize maxRequestBlocks : Nat}

theorem Passes.servable (passes : req.Passes blockSize maxRequestBlocks) :
    req.promptTokens ≠ [] ∧ 0 < req.maxTokens := by
  have verdict := passes.1
  unfold unschedulableVerdict at verdict
  split at verdict
  · cases verdict
  · next budget =>
    split at verdict
    · cases verdict
    · next nonempty => exact ⟨nonempty, Nat.pos_of_ne_zero budget⟩

theorem Passes.fits (passes : req.Passes blockSize maxRequestBlocks) :
    req.requestLifetimeBlocks blockSize ≤ maxRequestBlocks := by
  have capacity := passes.2.2
  unfold validateKvCapacity at capacity
  split at capacity
  · cases capacity
  · split at capacity
    · cases capacity
    · split at capacity
      · cases capacity
      · next fits => exact not_lt.mp fits

end GenerateRequest

namespace World

variable {world : World} {blockSize : Nat} {admission : Admission H} {req : GenerateRequest}

/-- A request is refused, deferred for want of pages, or admitted. -/
theorem consider_cases (world : World) (blockSize : Nat) (admission : Admission H) (req : GenerateRequest) :
    (¬ req.Passes blockSize admission.wave.maxRequestBlocks ∧
      ∃ w', world.consider blockSize admission req = { admission with wave := w' } ∧
      w'.store = admission.wave.store ∧ Settles world admission.wave [req.tokenTx] w' []) ∨
    (req.Passes blockSize admission.wave.maxRequestBlocks ∧
      admission.budget < req.requestLifetimeBlocks blockSize ∧
      world.consider blockSize admission req = { admission with deferred := admission.deferred ++ [req] }) ∨
    (req.Passes blockSize admission.wave.maxRequestBlocks ∧
      req.requestLifetimeBlocks blockSize ≤ admission.budget ∧
      world.consider blockSize admission req =
        { admission with
          wave := world.sendScheduled admission.wave req
          budget := admission.budget - req.requestLifetimeBlocks blockSize
          prefillReqs := admission.prefillReqs ++ [req] }) := by
  unfold consider preflightPrefillCandidate
  cases verdict : req.unschedulableVerdict with
  | some refusal =>
    have fails : ¬ req.Passes blockSize admission.wave.maxRequestBlocks := fun passes => by
      have clash := passes.1
      rw [verdict] at clash
      cases clash
    cases refusal with
    | finish => exact .inl ⟨fails, _, rfl, by simp, (sendScheduled_settles req _).trans (send_terminal rfl)⟩
    | reject message =>
      exact .inl ⟨fails, _, rfl, by simp, (sendScheduled_settles req _).trans (send_terminal rfl)⟩
  | none =>
    dsimp only
    split
    · next sampled => exact .inl ⟨fun passes => sampled passes.2.1, _, rfl,
        sendRejected_store world _ _ _, sendRejected_settles req _⟩
    · next greedy =>
      cases capacity : req.validateKvCapacity blockSize admission.wave.maxRequestBlocks none with
      | error message =>
        refine .inl ⟨fun passes => ?_, _, rfl, sendRejected_store world _ _ _, sendRejected_settles req _⟩
        have clash := passes.2.2
        rw [capacity] at clash
        cases clash
      | ok done =>
        have passes : req.Passes blockSize admission.wave.maxRequestBlocks :=
          ⟨by rw [verdict]; rfl, not_not.mp greedy, by rw [capacity]; rfl⟩
        dsimp only
        split
        · next short => exact .inr (.inl ⟨passes, short, rfl⟩)
        · next enough => exact .inr (.inr ⟨passes, not_lt.mp enough, rfl⟩)

/-- What the admission loop adds: requests to serve and, in the order they came, requests to defer. -/
theorem foldl_consider (world : World) (blockSize : Nat) (reqs : List GenerateRequest)
    (admission : Admission H) :
    ∃ served deferred, (reqs.foldl (world.consider blockSize) admission).prefillReqs =
      admission.prefillReqs ++ served ∧
      (reqs.foldl (world.consider blockSize) admission).deferred = admission.deferred ++ deferred ∧
        deferred.Sublist reqs ∧
      (reqs.foldl (world.consider blockSize) admission).wave.store = admission.wave.store ∧
      (∀ req ∈ served, req.promptTokens ≠ [] ∧ 0 < req.maxTokens) ∧
      (∀ req ∈ deferred, req.Passes blockSize admission.wave.maxRequestBlocks) ∧
      Settles world admission.wave (reqs.map GenerateRequest.tokenTx)
        (reqs.foldl (world.consider blockSize) admission).wave
        (served.map GenerateRequest.tokenTx ++ deferred.map GenerateRequest.tokenTx) := by
  induction reqs generalizing admission with
  | nil =>
    exact ⟨[], [], by simp, by simp, .slnil, rfl, fun _ member => absurd member List.not_mem_nil,
      fun _ member => absurd member List.not_mem_nil,
      .refl _ []⟩
  | cons req reqs ih =>
    obtain ⟨served, deferred, more, later, order, store, servable, passed, settles⟩ :=
      ih (world.consider blockSize admission req)
    rw [List.foldl_cons]
    rcases consider_cases world blockSize admission req
      with ⟨-, w', step, same, told⟩ | ⟨passes, -, step⟩ | ⟨passes, -, step⟩
    · rw [step] at more later store passed settles ⊢
      have size : w'.maxRequestBlocks = admission.wave.maxRequestBlocks := by
        rw [Wave.maxRequestBlocks, same, Wave.maxRequestBlocks]
      exact ⟨served, deferred, more, later, order.cons req, store.trans same, servable,
        size ▸ passed, told.append settles⟩
    · rw [step] at more later store passed settles ⊢
      refine ⟨served, req :: deferred, more, ?_, order.cons_cons req, store, servable, ?_, ?_⟩
      · rw [later, List.append_assoc, List.singleton_append]
      · intro other member
        rcases List.mem_cons.mp member with rfl | old
        · exact passes
        · exact passed other old
      · have whole := settles.frame_left [req.tokenTx]
        rw [List.singleton_append, List.singleton_append] at whole
        exact whole.perm (.refl _) List.perm_middle.symm
    · rw [step] at more later store passed settles ⊢
      have size : (world.sendScheduled admission.wave req).maxRequestBlocks =
          admission.wave.maxRequestBlocks := by
        rw [Wave.maxRequestBlocks, sendScheduled_store, Wave.maxRequestBlocks]
      refine ⟨req :: served, deferred, ?_, later, order.cons req, store.trans (by simp),
        ?_, size ▸ passed, ?_⟩
      · rw [more, List.append_assoc, List.singleton_append]
      · intro other member
        rcases List.mem_cons.mp member with rfl | old
        · exact passes.servable
        · exact servable other old
      · exact (sendScheduled_settles req _).trans (settles.frame_left [req.tokenTx])

/-- Requests that fail a check cost no pages. -/
theorem foldl_refused {blockSize blocks : Nat} (world : World) (reqs : List GenerateRequest)
    (admission : Admission H)
    (size : admission.wave.maxRequestBlocks = blocks)
    (refused : ∀ req ∈ reqs, ¬ req.Passes blockSize blocks) :
    ∃ w', reqs.foldl (world.consider blockSize) admission = { admission with wave := w' } ∧
      w'.store = admission.wave.store := by
  induction reqs generalizing admission with
  | nil => exact ⟨admission.wave, rfl, rfl⟩
  | cons req reqs ih =>
    have fails := refused req List.mem_cons_self
    rw [List.foldl_cons]
    rcases consider_cases world blockSize admission req
      with ⟨-, w', step, same, -⟩ | ⟨passes, -, -⟩ | ⟨passes, -, -⟩
    · rw [step]
      obtain ⟨w'', rest, same'⟩ := ih { admission with wave := w' }
        (by rw [← size, Wave.maxRequestBlocks, same, Wave.maxRequestBlocks])
        fun other member => refused other (List.mem_cons_of_mem _ member)
      exact ⟨w'', rest, same'.trans same⟩
    · exact absurd (size ▸ passes) fails
    · exact absurd (size ▸ passes) fails

/-- From a full pool the first request that passes is served, so only later ones are deferred. -/
theorem foldl_first {world : World} {blockSize : Nat} {admission : Admission H}
    {before after : List GenerateRequest}
    (refused : ∀ other ∈ before, ¬ other.Passes blockSize admission.wave.maxRequestBlocks)
    (passes : req.Passes blockSize admission.wave.maxRequestBlocks)
    (full : admission.budget = admission.wave.maxRequestBlocks)
    (none_ : admission.deferred = []) :
    ((before ++ req :: after).foldl (world.consider blockSize) admission).deferred.Sublist after ∧
      req ∈ ((before ++ req :: after).foldl (world.consider blockSize) admission).prefillReqs := by
  obtain ⟨w', skipped, same⟩ := foldl_refused world before admission rfl refused
  have size : w'.maxRequestBlocks = admission.wave.maxRequestBlocks := by
    rw [Wave.maxRequestBlocks, same, Wave.maxRequestBlocks]
  rw [List.foldl_append, skipped, List.foldl_cons]
  rcases consider_cases world blockSize { admission with wave := w' } req
    with ⟨fails, -⟩ | ⟨-, short, -⟩ | ⟨-, -, step⟩
  · exact absurd (size ▸ passes) fails
  · have fits := passes.fits
    dsimp only at short
    omega
  · obtain ⟨served, deferred, more, later, order, -⟩ := foldl_consider world blockSize after
      (world.consider blockSize { admission with wave := w' } req)
    constructor
    · rw [later, step, none_, List.nil_append]
      exact order
    · rw [more, step]
      simp

variable [DecidableEq H] [SequenceHashing H] {w : Wave H} {held : Holding H}

/-- A wave returns: its requests are settled or deferred, and their pages are back. -/
theorem handleRequestBatch_spec (positional : KvStore.Positional H) (pos : 0 < blockSize)
    (world : World) (reqs : List GenerateRequest)
    (ok : w.store.Ok held) :
    ∃ w' deferred, world.handleRequestBatch blockSize w reqs = some (w', deferred) ∧ w'.store.Ok held ∧
      deferred = (reqs.foldl (world.consider blockSize)
        { wave := w, budget := w.availableBlocks, prefillReqs := [], deferred := [] }).deferred ∧
      deferred.Sublist reqs ∧ (∀ req ∈ deferred, req.Passes blockSize w.maxRequestBlocks) ∧
      Settles world w (reqs.map GenerateRequest.tokenTx) w' (deferred.map GenerateRequest.tokenTx) := by
  obtain ⟨served, deferred, more, later, order, store, servable, passed, settles⟩ :=
    foldl_consider world blockSize reqs
      { wave := w, budget := w.availableBlocks, prefillReqs := [], deferred := [] }
  unfold handleRequestBatch
  dsimp only
  generalize admitted : reqs.foldl (world.consider blockSize)
    { wave := w, budget := w.availableBlocks, prefillReqs := [], deferred := [] } =
    admission at more later store settles ⊢
  dsimp only at more later store settles
  rw [List.nil_append] at more later
  have ok₁ : admission.wave.store.Ok held := by rwa [store]
  rw [later, more]
  split
  · next none_ =>
    refine ⟨_, deferred, rfl, ok₁, rfl, order, passed, ?_⟩
    rwa [none_, List.map_nil, List.nil_append] at settles
  · split
    · refine ⟨_, deferred, rfl, by rw [sendErrors_store]; exact ok₁, rfl, order, passed, ?_⟩
      exact settles.trans
        ((sendErrors_settles _ served
          { admission.wave with calls := admission.wave.calls + 1 }).from_call.frame _)
    · have ready : ∀ req ∈ served, Ready (served.map GenerateRequest.maxTokens).sum req := fun req member =>
        ⟨(servable req member).1, (servable req member).2,
          List.single_le_sum (by simp) _ (List.mem_map_of_mem member)⟩
      have none_held : admission.wave.store.Ok
        ((([] : List (ActiveKimiRequest H)).map fun req => req.kv.holding).sum + held) := by
          simpa using ok₁
      obtain ⟨w₁, active, begun, started⟩ := startRequests_spec world
        (w := { admission.wave with calls := admission.wave.calls + 1 }) positional pos
          served.length 0 served [] [] ready
        (fun _ member => absurd member List.not_mem_nil)
          (fun _ member => absurd member List.not_mem_nil) none_held
      have lasting : ∀ req ∈ active, req.Lasting (served.map GenerateRequest.maxTokens).sum :=
        fun req member =>
        ⟨(started.good req member).1, (started.good req member).2.trans (Nat.le_add_left _ _)⟩
      obtain ⟨w₂, done, drained, ok₂⟩ := decodeRounds_spec world active lasting started.ok
      simp only [begun, done]
      refine ⟨w₂, deferred, rfl, ok₂, rfl, order, passed, ?_⟩
      have whole := started.settles.trans drained
      rw [List.map_nil, groupTx, List.map_nil, List.nil_append, List.nil_append] at whole
      exact settles.trans (whole.from_call.frame _)

end World

end PegaInfer.KimiK2
