import PegaInfer.Qwen35.TpWorker

namespace PegaInfer.Qwen35

open SwapRemove

variable {P L : Type}

/-- What one chunk does to the states of a rank that runs it without a fault. -/
def absorbChunk (requests : List TpRequestState) (chunk : TpPrefillChunkItem P) : List TpRequestState :=
  match requestIndex requests chunk.requestId with
  | some index =>
    requests.modify index fun state => (state.absorb chunk.promptTokens).finishPrefill chunk.finishPrefill
  | none =>
    requests ++ [({ requestId := chunk.requestId, phase := .prefilling, absorbed := chunk.promptTokens } :
      TpRequestState).finishPrefill chunk.finishPrefill]

def absorbToken (requests : List TpRequestState) (item : TpDecodeStepItem P) : List TpRequestState :=
  match requestIndex requests item.requestId with
  | some index => requests.modify index fun state => state.absorb [item.tokenId]
  | none => requests

namespace TpCommand

/-- The states after a command that no rank's device decides. -/
def effect (requests : List TpRequestState) : TpCommand P → List TpRequestState
  | .runPrefillChunks chunks _ => chunks.foldl absorbChunk requests
  | .runDecodeStep items _ => items.foldl absorbToken requests
  | .runUnifiedStep plan => plan.decode.foldl absorbToken (plan.prefill.foldl absorbChunk requests)
  | .dropRequest id => (Qwen35.dropRequest requests id).1

/-- The requests a command has to return a row for, in the order of its plan. -/
def rowIds : TpCommand P → List RequestId
  | .runPrefillChunks chunks _ =>
    (chunks.filter TpPrefillChunkItem.finishPrefill).map TpPrefillChunkItem.requestId
  | .runDecodeStep items _ => items.map TpDecodeStepItem.requestId
  | .runUnifiedStep plan =>
    (plan.prefill.filter TpPrefillChunkItem.finishPrefill).map TpPrefillChunkItem.requestId ++
      plan.decode.map TpDecodeStepItem.requestId
  | .dropRequest _ => []

/-- The kind of reply a rank owes for a command. -/
def expects (rank : Nat) : TpCommand P → TpWorkerReply L → Bool
  | .runPrefillChunks _ _, .prefill _ => rank == 0
  | .runDecodeStep _ _, .decode _ => rank == 0
  | .runUnifiedStep _, .unified _ _ => rank == 0
  | .dropRequest _, .dropAck _ => true
  | .dropRequest _, .ack => false
  | _, .ack => rank != 0
  | _, _ => false

end TpCommand

def TpWorkerReply.rowIds : TpWorkerReply L → List RequestId
  | .ack | .dropAck _ => []
  | .prefill rows => rows.map RequestResult.requestId
  | .decode rows => rows.map RequestResult.requestId
  | .unified prefillRows decodeRows =>
    prefillRows.map RequestResult.requestId ++ decodeRows.map RequestResult.requestId

theorem set_eq_modify {α : Type} {items : List α} {index : Nat} {item : α} (change : α → α)
    (found : items[index]? = some item) :
    items.set index (change item) = items.modify index change := by
  apply List.ext_getElem?
  intro i
  rw [List.getElem?_set, List.getElem?_modify]
  obtain ⟨below, value⟩ := List.getElem?_eq_some_iff.mp found
  by_cases same : index = i
  · subst same
    simp [below, value]
  · simp [same]

/-- A chunk that finds its state or a place for a new one leaves what `absorbChunk` says. -/
theorem ensurePrefillState_absorbs {device : RowDevice P L} {row index : Nat}
    {requests held : List TpRequestState}
    {chunk : TpPrefillChunkItem P} {state : TpRequestState}
    (ensured : ensurePrefillState device row requests chunk.requestId = some (held, index))
    (found : held[index]? = some state) :
    held.set index ((state.absorb chunk.promptTokens).finishPrefill chunk.finishPrefill) =
      absorbChunk requests chunk := by
  unfold ensurePrefillState at ensured
  unfold absorbChunk
  cases known : requestIndex requests chunk.requestId with
  | some place =>
    rw [known] at ensured
    cases ensured
    exact set_eq_modify (fun state =>
      (state.absorb chunk.promptTokens).finishPrefill chunk.finishPrefill) found
  | none =>
    rw [known] at ensured
    dsimp only at ensured
    split at ensured
    · cases ensured
      have fresh : state =
        { requestId := chunk.requestId, phase := .prefilling, absorbed := [] } := by
          simpa using found.symm
      subst fresh
      simp [TpRequestState.absorb]
    · cases ensured

theorem prefillLoop_ok {rank : Nat} {device : RowDevice P L} {sampleSeed : UInt64} {row finalRow : Nat}
    {requests after : List TpRequestState} {chunks : List (TpPrefillChunkItem P)}
    {results : List (RequestResult L)}
    (ran : prefillLoop rank device sampleSeed row finalRow requests chunks = (after, .ok results)) :
    after = chunks.foldl absorbChunk requests ∧
      (rank = 0 → results.map RequestResult.requestId =
        (chunks.filter TpPrefillChunkItem.finishPrefill).map TpPrefillChunkItem.requestId) := by
  induction chunks generalizing row finalRow requests results with
  | nil =>
    cases ran
    exact ⟨rfl, fun _ => rfl⟩
  | cons chunk chunks ih =>
    unfold prefillLoop at ran
    cases ensured : ensurePrefillState device row requests chunk.requestId with
    | none => rw [ensured] at ran; cases ran
    | some place =>
      obtain ⟨held, index⟩ := place
      rw [ensured] at ran
      dsimp only at ran
      cases found : held[index]? with
      | none => rw [found] at ran; cases ran
      | some state =>
        rw [found] at ran
        dsimp only at ran
        rw [ensurePrefillState_absorbs ensured found] at ran
        split at ran
        · cases ran
        split at ran
        · cases ran
        split at ran
        · rename_i finalPrimary
          obtain ⟨isFinal, isPrimary⟩ := Bool.and_eq_true_iff.mp finalPrimary
          split at ran
          · cases ran
          · rename_i token logprob _
            generalize rest : prefillLoop rank device sampleSeed (row + 1) (finalRow + 1)
              (absorbChunk requests chunk) chunks =
              loop at ran
            obtain ⟨later, outcome⟩ := loop
            cases outcome with
            | error error => cases ran
            | ok tail =>
              cases ran
              obtain ⟨states, ids⟩ := ih rest
              refine ⟨states, fun zero => ?_⟩
              rw [List.filter_cons_of_pos (by exact isFinal), List.map_cons, List.map_cons, ids zero]
        · rename_i notBoth
          obtain ⟨states, ids⟩ := ih ran
          refine ⟨states, fun zero => ?_⟩
          have notFinal : ¬ chunk.finishPrefill = true := by
            intro isFinal
            simp [isFinal, zero] at notBoth
          rw [List.filter_cons_of_neg (by exact notFinal), ids zero]

theorem executePrefillRows_ok {rank maxBatch : Nat} {device : RowDevice P L} {sampleSeed : UInt64}
    {requests after : List TpRequestState} {chunks : List (TpPrefillChunkItem P)}
    {results : List (RequestResult L)}
    (ran : executePrefillRows rank maxBatch device requests chunks sampleSeed = (after, .ok results)) :
    after = chunks.foldl absorbChunk requests ∧
      (rank = 0 → results.map RequestResult.requestId =
        (chunks.filter TpPrefillChunkItem.finishPrefill).map TpPrefillChunkItem.requestId) := by
  unfold executePrefillRows at ran
  split at ran
  · cases ran
  split at ran
  · cases ran
  dsimp only at ran
  split at ran
  · cases ran
  exact prefillLoop_ok ran

theorem absorbToken_found {requests : List TpRequestState} {item : TpDecodeStepItem P} {index : Nat}
    {state : TpRequestState}
    (place : requestIndex requests item.requestId = some index) (found : requests[index]? = some state) :
    requests.set index (state.absorb [item.tokenId]) = absorbToken requests item := by
  unfold absorbToken
  rw [place]
  exact set_eq_modify (fun state => state.absorb [item.tokenId]) found

theorem decodeLoop_ok {rank : Nat} {device : RowDevice P L} {sampleSeed : UInt64} {row : Nat}
    {requests after : List TpRequestState} {items : List (TpDecodeStepItem P)}
    {results : List (RequestResult L)}
    (ran : decodeLoop rank device sampleSeed row requests items = (after, .ok results)) :
    after = items.foldl absorbToken requests ∧
      (rank = 0 → results.map RequestResult.requestId = items.map TpDecodeStepItem.requestId) := by
  induction items generalizing row requests results with
  | nil =>
    cases ran
    exact ⟨rfl, fun _ => rfl⟩
  | cons item items ih =>
    unfold decodeLoop at ran
    cases place : requestIndex requests item.requestId with
    | none => rw [place] at ran; cases ran
    | some index =>
      rw [place] at ran
      dsimp only at ran
      cases found : requests[index]? with
      | none => rw [found] at ran; cases ran
      | some state =>
        rw [found] at ran
        dsimp only at ran
        rw [absorbToken_found place found] at ran
        split at ran
        · cases ran
        split at ran
        · cases ran
        split at ran
        · split at ran
          · cases ran
          · generalize rest : decodeLoop rank device sampleSeed (row + 1)
              (absorbToken requests item) items = loop at ran
            obtain ⟨later, outcome⟩ := loop
            cases outcome with
            | error error => cases ran
            | ok tail =>
              cases ran
              obtain ⟨states, ids⟩ := ih rest
              refine ⟨states, fun zero => ?_⟩
              rw [List.map_cons, List.map_cons, ids zero]
        · rename_i notPrimary
          refine ⟨(ih ran).1, fun zero => ?_⟩
          simp [zero] at notPrimary

theorem executeDecodeRows_ok {rank maxBatch : Nat} {device : RowDevice P L} {sampleSeed : UInt64}
    {requests after : List TpRequestState} {items : List (TpDecodeStepItem P)}
    {results : List (RequestResult L)}
    (ran : executeDecodeRows rank maxBatch device requests items sampleSeed = (after, .ok results)) :
    after = items.foldl absorbToken requests ∧
      (rank = 0 → results.map RequestResult.requestId = items.map TpDecodeStepItem.requestId) := by
  unfold executeDecodeRows at ran
  split at ran
  · cases ran
  split at ran
  · cases ran
  split at ran
  · cases ran
  exact decodeLoop_ok ran

/-- A rank's device decides whether a command fails and what rank 0 samples, never the
states a command that succeeds leaves behind. -/
theorem executeCommand_ok {rank maxBatch : Nat} {device : Device P L} {requests after : List TpRequestState}
    {command : TpCommand P} {reply : TpWorkerReply L}
    (ran : executeCommand rank maxBatch device requests command = (after, .ok reply)) :
    after = command.effect requests ∧ command.expects rank reply = true ∧
      (rank = 0 → reply.rowIds = command.rowIds) := by
  cases command with
  | runPrefillChunks chunks sampleSeed =>
    dsimp only [executeCommand] at ran
    generalize rows : executePrefillRows rank maxBatch device.prefill requests chunks sampleSeed =
      outcome at ran
    obtain ⟨states, _ | results⟩ := outcome
    · cases ran
    · cases ran
      obtain ⟨same, ids⟩ := executePrefillRows_ok rows
      refine ⟨same, ?_, fun zero => ?_⟩
      · by_cases zero : rank = 0 <;> simp [primary, zero, TpCommand.expects]
      · simpa [primary, zero, TpWorkerReply.rowIds, TpCommand.rowIds] using ids zero
  | runDecodeStep items sampleSeed =>
    dsimp only [executeCommand] at ran
    generalize rows : executeDecodeRows rank maxBatch device.decode requests items sampleSeed = outcome at ran
    obtain ⟨states, _ | results⟩ := outcome
    · cases ran
    · cases ran
      obtain ⟨same, ids⟩ := executeDecodeRows_ok rows
      refine ⟨same, ?_, fun zero => ?_⟩
      · by_cases zero : rank = 0 <;> simp [primary, zero, TpCommand.expects]
      · simpa [primary, zero, TpWorkerReply.rowIds, TpCommand.rowIds] using ids zero
  | runUnifiedStep plan =>
    dsimp only [executeCommand] at ran
    split at ran
    · cases ran
    split at ran
    · cases ran
    rename_i middle prefillRows prefilled
    generalize rows : executeDecodeRows rank maxBatch device.decode middle plan.decode
      plan.decodeSampleSeed = outcome at ran
    obtain ⟨states, _ | results⟩ := outcome
    · cases ran
    · cases ran
      obtain ⟨first, prefillIds⟩ := executePrefillRows_ok prefilled
      obtain ⟨second, decodeIds⟩ := executeDecodeRows_ok rows
      refine ⟨?_, ?_, fun zero => ?_⟩
      · rw [second, first]
        rfl
      · by_cases zero : rank = 0 <;> simp [primary, zero, TpCommand.expects]
      · simp [primary, zero, TpWorkerReply.rowIds, TpCommand.rowIds, prefillIds zero, decodeIds zero]
  | dropRequest id =>
    cases ran
    exact ⟨rfl, rfl, fun _ => rfl⟩

end PegaInfer.Qwen35
