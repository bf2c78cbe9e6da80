import PegaInfer.Kvbm.SequenceOk

namespace PegaInfer.Kvbm

open PegaInfer.Lib

namespace SchedulableSequence

variable {H : Type} [DecidableEq H] [SequenceHashing H] {store store' : BlockStore H}
  {seq seq' : SchedulableSequence H}

/-- The positions a sequence has after a match of `matched` blocks. -/
def afterMatch (seq : SchedulableSequence H) (matched : List (ImmutableBlock H)) : SchedulableSequence H :=
  { seq with
    assigned := matched
    prefixMatchedBlocks := seq.prefixMatchedBlocks + matched.length
    prefillPosition := seq.prefillPosition + matched.length * seq.blockSize
    kvPosition :=
      if matched.length > 0 then seq.prefillPosition + matched.length * seq.blockSize else seq.kvPosition }

omit [DecidableEq H] [SequenceHashing H] in
theorem heldBlocks_eq_zero (empty : seq.heldBlocks = 0) :
    seq.assigned = [] ∧ seq.staged = [] ∧ seq.unassigned = [] := by
  unfold heldBlocks at empty
  refine ⟨List.eq_nil_of_length_eq_zero ?_, List.eq_nil_of_length_eq_zero ?_,
    List.eq_nil_of_length_eq_zero ?_⟩ <;> omega

theorem matchAndAddPrefix_cases {count : Nat}
    (got : seq.matchAndAddPrefix store = .ok (seq', store', count)) :
    seq.state = .idle ∧ seq.heldBlocks = 0 ∧
      ∃ found, found = (store.matchBlocks seq.hashes).2 ∧
        store' = (store.matchBlocks seq.hashes).1.dropAllImmutable
          (found.drop ((seq.numInputTokens - 1) / seq.blockSize)) ∧
        seq' = seq.afterMatch (found.take ((seq.numInputTokens - 1) / seq.blockSize)) ∧
        count = (found.take ((seq.numInputTokens - 1) / seq.blockSize)).length := by
  unfold matchAndAddPrefix at got
  split at got
  · simp at got
  · rename_i idle
    split at got
    · simp at got
    · rename_i empty
      simp only at got
      split at got
      · simp at got
      · simp only [Except.ok.injEq, Prod.mk.injEq] at got
        obtain ⟨rfl, rfl, rfl⟩ := got
        exact ⟨not_not.mp idle, not_not.mp empty, _, rfl, rfl, rfl, rfl⟩

/-- A fresh sequence matches unless a block turns up twice. -/
theorem matchAndAddPrefix_ok (idle : seq.state = .idle) (empty : seq.heldBlocks = 0)
    (distinct : (((store.matchBlocks seq.hashes).2.take ((seq.numInputTokens - 1) / seq.blockSize)).map
      ImmutableBlock.blockId).Nodup) :
    ∃ seq' store', seq.matchAndAddPrefix store =
      .ok (seq', store', ((store.matchBlocks seq.hashes).2.take
        ((seq.numInputTokens - 1) / seq.blockSize)).length) := by
  unfold matchAndAddPrefix
  rw [if_neg (by simp [idle]), if_neg (by simp [empty])]
  simp only
  rw [if_neg (by rw [not_not]; exact distinct)]
  exact ⟨_, _, rfl⟩

omit [DecidableEq H] [SequenceHashing H] in
theorem generationFault_none (ready : seq.generationFault = none) :
    seq.state = .idle ∧ seq.numInputTokens ≤ seq.prefillPosition ∧ seq.generatedTokens < seq.maxOutputTokens ∧
      seq.totalTokens = seq.kvPosition + 1 := by
  unfold generationFault isPrefillComplete isComplete tailTokens at ready
  simp only [ne_eq, decide_eq_true_eq] at ready
  split at ready
  · simp at ready
  · split at ready
    · simp at ready
    · split at ready
      · simp at ready
      · split at ready
        · simp at ready
        · refine ⟨?_, ?_, ?_, ?_⟩ <;> first | tauto | omega

omit [DecidableEq H] [SequenceHashing H] in
/-- What every `schedule_*` does once its checks pass. -/
def Draws (seq : SchedulableSequence H) (count : Nat) (state : SequenceState) (store : BlockStore H)
    (seq' : SchedulableSequence H) (store' : BlockStore H) : Prop :=
  ∃ drawn, seq.allocateBlocks count store = some (drawn, store') ∧ seq' = { drawn with state }

omit [DecidableEq H] [SequenceHashing H] in
theorem schedulePrefill_cases {numTokens : Nat}
    (got : seq.schedulePrefill numTokens store = .ok (seq', store')) :
    seq.state = .idle ∧ seq.prefillPosition < seq.numInputTokens ∧
      seq.prefillPosition + numTokens ≤ seq.numInputTokens ∧
      ∃ count, count = (seq.prefillPosition + numTokens) ⌈/⌉ seq.blockSize - seq.heldBlocks ∧
        seq.Draws count (.prefillScheduled numTokens count) store seq' store' := by
  unfold schedulePrefill isPrefillComplete at got
  split at got
  · simp at got
  · rename_i idle
    split at got
    · simp at got
    · rename_i incomplete
      simp only at got
      split at got
      · simp at got
      · rename_i fits
        split at got
        · simp at got
        · rename_i drawn next alloc
          simp only [Except.ok.injEq, Prod.mk.injEq] at got
          obtain ⟨rfl, rfl⟩ := got
          simp only [decide_eq_true_eq, not_le] at incomplete
          exact ⟨not_not.mp idle, incomplete, by omega, _, rfl, drawn, alloc, rfl⟩

omit [DecidableEq H] [SequenceHashing H] in
theorem scheduleDecode_cases (got : seq.scheduleDecode store = .ok (seq', store')) :
    seq.generationFault = none ∧
      ∃ count, count = seq.numBlocks - (seq.assigned.length + seq.staged.length) + 1 - seq.unassigned.length ∧
        seq.Draws count (.decodeScheduled count) store seq' store' := by
  unfold scheduleDecode at got
  split at got
  · simp at got
  · rename_i ready
    simp only at got
    split at got
    · simp at got
    · rename_i drawn next alloc
      simp only [Except.ok.injEq, Prod.mk.injEq] at got
      obtain ⟨rfl, rfl⟩ := got
      exact ⟨ready, _, rfl, drawn, alloc, rfl⟩

omit [DecidableEq H] [SequenceHashing H] in
theorem scheduleSpeculative_cases {numDraftTokens : Nat}
    (got : seq.scheduleSpeculative numDraftTokens store = .ok (seq', store')) :
    seq.generationFault = none ∧
      ∃ numTokens count, numTokens = min numDraftTokens seq.remainingTokens ∧
        count = (seq.totalTokens + numTokens) ⌈/⌉ seq.blockSize - seq.heldBlocks ∧
        seq.Draws count (.speculativeScheduled numTokens count) store seq' store' := by
  unfold scheduleSpeculative at got
  split at got
  · simp at got
  · rename_i ready
    simp only at got
    split at got
    · simp at got
    · rename_i drawn next alloc
      simp only [Except.ok.injEq, Prod.mk.injEq] at got
      obtain ⟨rfl, rfl⟩ := got
      exact ⟨ready, _, _, rfl, rfl, drawn, alloc, rfl⟩

omit [DecidableEq H] [SequenceHashing H] in
theorem Draws.blockSize {count : Nat} {state : SequenceState}
    (draws : seq.Draws count state store seq' store') :
    seq'.blockSize = seq.blockSize := by
  obtain ⟨drawn, alloc, rfl⟩ := draws
  obtain ⟨ids, -, rfl, -⟩ := allocateBlocks_cases alloc
  rfl

/-- A sequence with its next tokens appended. -/
def appended (seq : SchedulableSequence H) (tokens : List Token) : SchedulableSequence H :=
  { seq with tokens := seq.tokens ++ tokens, generatedTokens := seq.generatedTokens + tokens.length }

omit [DecidableEq H] [SequenceHashing H] in
theorem appendToken_cases {token : Token} {crossed : Option Nat}
    (got : seq.appendToken token = some (seq', crossed)) :
    seq.generatedTokens < seq.maxOutputTokens ∧ seq' = seq.appended [token] := by
  unfold appendToken at got
  split at got
  · rename_i budget
    simp only [Option.some.injEq, Prod.mk.injEq] at got
    exact ⟨budget, got.1.symm⟩
  · simp at got

omit [DecidableEq H] [SequenceHashing H] in
theorem appendToken_isSome (token : Token) (budget : seq.generatedTokens < seq.maxOutputTokens) :
    ∃ crossed, seq.appendToken token = some (seq.appended [token], crossed) := by
  unfold appendToken
  rw [if_pos budget]
  exact ⟨_, rfl⟩

omit [DecidableEq H] [SequenceHashing H] in
theorem appendAccepted_cases {tokens : List Token} {completed : Bool}
    (got : seq.appendAccepted tokens = some (seq', completed)) :
    (tokens = [] ∨ seq.generatedTokens + tokens.length ≤ seq.maxOutputTokens) ∧
      seq' = seq.appended tokens := by
  induction tokens generalizing seq completed with
  | nil =>
    simp only [appendAccepted, Option.some.injEq, Prod.mk.injEq] at got
    exact ⟨Or.inl rfl, by simp [appended, got.1]⟩
  | cons token tokens ih =>
    simp only [appendAccepted] at got
    split at got
    · simp at got
    · rename_i next crossed append
      obtain ⟨budget, rfl⟩ := appendToken_cases append
      split at got
      · simp at got
      · rename_i last more rest
        simp only [Option.some.injEq, Prod.mk.injEq] at got
        obtain ⟨rfl, -⟩ := got
        obtain ⟨bound, rfl⟩ := ih rest
        refine ⟨Or.inr ?_, ?_⟩
        · rcases bound with rfl | bound
          · simpa using budget
          · simp only [appended, List.length_cons, List.length_nil] at bound ⊢
            omega
        · simp [appended, Nat.add_assoc, Nat.add_comm 1]

theorem applyPrefill_cases {token : Option Token} (settled : seq.staged = [])
    (got : seq.applyPrefill token store = .ok (seq', store')) :
    ∃ numTokens allocated blocks, seq.state = .prefillScheduled numTokens allocated ∧
      (token.isSome → seq.numInputTokens ≤ seq.prefillPosition + numTokens ∧
        seq.generatedTokens < seq.maxOutputTokens) ∧
      (seq.numInputTokens ≤ seq.prefillPosition + numTokens → token = none → seq.maxOutputTokens = 0) ∧
      seq.Registers seq.tokens store blocks store' ∧
      seq' =
        { (seq.registered blocks).appended token.toList with
          prefillPosition := seq.prefillPosition + numTokens
          kvPosition := seq.prefillPosition + numTokens
          state := .idle } := by
  unfold applyPrefill at got
  split at got
  · rename_i numTokens allocated state
    simp only at got
    split at got
    · simp at got
    · rename_i onFinal
      split at got
      · simp at got
      · rename_i withToken
        split at got
        · simp at got
        · rename_i done next complete
          obtain ⟨blocks, registers, rfl⟩ := completeAndRegisterPending_cases complete settled
          cases token with
          | none =>
            simp only [Except.ok.injEq, Prod.mk.injEq] at got
            obtain ⟨rfl, rfl⟩ := got
            refine ⟨numTokens, allocated, blocks, state, by simp, ?_, registers, by simp [appended]⟩
            intro final _
            by_contra budget
            exact withToken ⟨final, rfl, by omega⟩
          | some token =>
            simp only at got
            split at got
            · simp at got
            · rename_i emitted crossed append
              simp only [Except.ok.injEq, Prod.mk.injEq] at got
              obtain ⟨rfl, rfl⟩ := got
              obtain ⟨budget, rfl⟩ := appendToken_cases append
              refine ⟨numTokens, allocated, blocks, state, ?_, by simp, registers, by simp [appended]⟩
              intro _
              refine ⟨?_, budget⟩
              by_contra early
              exact onFinal ⟨rfl, by omega⟩
  · simp at got

theorem applyDecode_cases {token : Token} {result : DecodeOutcome} (settled : seq.staged = [])
    (got : seq.applyDecode token store = .ok (seq', store', result)) :
    ∃ allocated blocks, seq.state = .decodeScheduled allocated ∧ seq.generatedTokens < seq.maxOutputTokens ∧
      seq.Registers (seq.tokens ++ [token]) store blocks store' ∧
      seq' =
        { (seq.registered blocks).appended [token] with
          kvPosition := seq.kvPosition + 1
          state := .idle } := by
  unfold applyDecode at got
  split at got
  · rename_i allocated state
    split at got
    · simp at got
    · rename_i appendedSeq crossed append
      obtain ⟨budget, rfl⟩ := appendToken_cases append
      split at got
      · simp at got
      · rename_i done next complete
        obtain ⟨blocks, registers, rfl⟩ := completeAndRegisterPending_cases complete settled
        simp only [Except.ok.injEq, Prod.mk.injEq] at got
        obtain ⟨rfl, rfl, -⟩ := got
        exact ⟨allocated, blocks, state, budget, registers, rfl⟩
  · simp at got

theorem applySpeculative_cases {accepted : List Token} {result : DecodeOutcome} (settled : seq.staged = [])
    (got : seq.applySpeculative accepted store = .ok (seq', store', result)) :
    ∃ scheduled allocated blocks registeredStore kept, seq.state = .speculativeScheduled scheduled allocated ∧
      accepted.length ≤ scheduled ∧
        (accepted = [] ∨ seq.generatedTokens + accepted.length ≤ seq.maxOutputTokens) ∧
      seq.Registers (seq.tokens ++ accepted) store blocks registeredStore ∧
      kept = min ((seq.registered blocks).unassigned.length)
        (if (seq.appended accepted).isComplete then 0 else 1) ∧
      store' = registeredStore.releaseAllMutable ((seq.registered blocks).unassigned.drop kept).reverse ∧
      seq' =
        { (seq.registered blocks).appended accepted with
          unassigned := (seq.registered blocks).unassigned.take kept
          kvPosition := seq.kvPosition + accepted.length
          state := .idle } := by
  unfold applySpeculative at got
  split at got
  · rename_i scheduled allocated state
    split at got
    · simp at got
    · rename_i within
      split at got
      · simp at got
      · rename_i appendedSeq completed append
        obtain ⟨budget, rfl⟩ := appendAccepted_cases append
        split at got
        · simp at got
        · rename_i done next complete
          obtain ⟨blocks, registers, rfl⟩ := completeAndRegisterPending_cases complete settled
          simp only [Except.ok.injEq, Prod.mk.injEq, lifoDropExcessUnassigned, lifoPopUnassigned] at got
          obtain ⟨rfl, rfl, -⟩ := got
          refine ⟨scheduled, allocated, blocks, next, _, state, by omega, budget, registers, rfl, ?_, ?_⟩
          all_goals
            have kept : ∀ n need : Nat, n - (n - need) = min n need := by omega
            rw [kept]
            rfl
  · simp at got

omit [DecidableEq H] [SequenceHashing H] in
theorem revertSchedule_cases (got : seq.revertSchedule store = .ok (seq', store')) :
    seq.state ≠ .idle ∧ ∃ kept, kept ≤ seq.unassigned.length ∧
      store' = store.releaseAllMutable (seq.unassigned.drop kept).reverse ∧
      seq' = { seq with unassigned := seq.unassigned.take kept, state := .idle } := by
  unfold revertSchedule at got
  simp only [lifoPopUnassigned] at got
  split at got
  all_goals first
    | rename_i state
      simp only [Except.ok.injEq, Prod.mk.injEq] at got
      obtain ⟨rfl, rfl⟩ := got
      exact ⟨by simp [state], _, Nat.sub_le _ _, rfl, rfl⟩
    | simp at got

omit [SequenceHashing H] in
theorem release_cases (got : seq.release store = .ok (seq', store')) :
    seq.state = .idle ∧ store' = seq.dropBlocks store ∧
      seq' = { seq with assigned := [], staged := [], unassigned := [] } := by
  unfold release at got
  split at got
  · simp at got
  · rename_i idle
    simp only [Except.ok.injEq, Prod.mk.injEq] at got
    exact ⟨not_not.mp idle, got.2.symm, got.1.symm⟩

theorem padTailBlock_cases {pad : Token} {pads : Nat} (settled : seq.staged = [])
    (got : seq.padTailBlock pad store = .ok (seq', store', pads)) :
    seq.state = .idle ∧
      (seq.kvPosition % seq.blockSize = 0 ∧ seq' = seq ∧ store' = store ∧ pads = 0 ∨
        seq.kvPosition % seq.blockSize ≠ 0 ∧
          pads = seq.totalTokens ⌈/⌉ seq.blockSize * seq.blockSize - seq.totalTokens ∧
          ∃ blocks, seq.Registers (seq.tokens ++ List.replicate pads pad) store blocks store' ∧
            seq' = { seq.registered blocks with tokens := seq.tokens ++ List.replicate pads pad }) := by
  unfold padTailBlock at got
  split at got
  · simp at got
  · rename_i idle
    refine ⟨not_not.mp idle, ?_⟩
    split at got
    · rename_i aligned
      simp only [Except.ok.injEq, Prod.mk.injEq] at got
      obtain ⟨rfl, rfl, rfl⟩ := got
      exact Or.inl ⟨aligned, rfl, rfl, rfl⟩
    · rename_i unaligned
      simp only at got
      split at got
      · simp at got
      · rename_i done next complete
        obtain ⟨blocks, registers, rfl⟩ := completeAndRegisterPending_cases complete settled
        simp only [Except.ok.injEq, Prod.mk.injEq] at got
        obtain ⟨rfl, rfl, rfl⟩ := got
        exact Or.inr ⟨unaligned, rfl, blocks, registers, rfl⟩

omit [DecidableEq H] [SequenceHashing H] in
theorem adoptExternalPrefillAnchor_cases (got : seq.adoptExternalPrefillAnchor = .ok seq') :
    seq.state = .idle ∧ seq.prefillPosition = seq.kvPosition ∧ seq.prefillPosition + 1 = seq.numInputTokens ∧
      seq.totalTokens = seq.kvPosition + 1 ∧ seq.generatedTokens < seq.maxOutputTokens ∧
      seq' = { seq with
        numInputTokens := seq.numInputTokens - 1
        generatedTokens := seq.generatedTokens + 1 } := by
  unfold adoptExternalPrefillAnchor at got
  split at got
  · simp at got
  · rename_i idle
    split at got
    · rename_i valid
      obtain ⟨positions, last, tail, remaining⟩ := valid
      simp only [Except.ok.injEq] at got
      unfold tailTokens at tail
      unfold remainingTokens at remaining
      exact ⟨not_not.mp idle, positions, last, by omega, by omega, got.symm⟩
    · simp at got

section Holdings

omit [SequenceHashing H] in
theorem Draws.transfers {count : Nat} {state : SequenceState}
    (draws : seq.Draws count state store seq' store') :
    Transfers BlockStore.Ok store seq.holding store' seq'.holding := by
  obtain ⟨drawn, alloc, rfl⟩ := draws
  have step := transfers_allocateBlocks alloc
  exact step

omit [SequenceHashing H] in
theorem transfers_pop (seq : SchedulableSequence H) (kept : Nat) (store : BlockStore H) :
    Transfers BlockStore.Ok store seq.holding (store.releaseAllMutable (seq.unassigned.drop kept).reverse)
      { seq with unassigned := seq.unassigned.take kept }.holding := by
  have step := (BlockStore.transfers_releaseAllMutable (seq.unassigned.drop kept).reverse store).frame_left
    (Holding.blocks seq.assigned + Holding.guards (seq.staged.map Prod.fst ++ seq.unassigned.take kept))
  refine step.congr ?_ (add_zero _)
  rw [Holding.guards_perm (List.reverse_perm _), add_assoc, ← Holding.guards_append, List.append_assoc,
    List.take_append_drop]
  rfl

theorem transfers_matchAndAddPrefix {count : Nat}
    (got : seq.matchAndAddPrefix store = .ok (seq', store', count)) :
    Transfers BlockStore.Ok store seq.holding store' seq'.holding := by
  obtain ⟨-, empty, found, found_eq, rfl, rfl, -⟩ := matchAndAddPrefix_cases got
  obtain ⟨assigned, staged, unassigned⟩ := heldBlocks_eq_zero empty
  have matched := BlockStore.transfers_match seq.hashes store
  rw [← found_eq] at matched
  have dropped := (BlockStore.transfers_dropAllImmutable
    (found.drop ((seq.numInputTokens - 1) / seq.blockSize))
    (store.matchBlocks seq.hashes).1).frame_left
      (Holding.blocks (found.take ((seq.numInputTokens - 1) / seq.blockSize)))
  rw [← Holding.blocks_append, List.take_append_drop, add_zero] at dropped
  refine (matched.trans dropped).congr ?_ ?_
  · simp [holding, assigned, staged, unassigned]
  · simp [holding, afterMatch, staged, unassigned]

omit [SequenceHashing H] in
theorem transfers_dropBlocks (seq : SchedulableSequence H) (store : BlockStore H) :
    Transfers BlockStore.Ok store seq.holding (seq.dropBlocks store) 0 := by
  have assigned := (BlockStore.transfers_dropAllImmutable seq.assigned store).frame
    (Holding.guards (seq.staged.map Prod.fst ++ seq.unassigned))
  rw [zero_add, Holding.guards_append] at assigned
  have staged := (BlockStore.transfers_releaseAllMutable (seq.staged.map Prod.fst)
    (store.dropAllImmutable seq.assigned)).frame
    (Holding.guards seq.unassigned)
  rw [zero_add] at staged
  have all := (assigned.trans staged).trans (BlockStore.transfers_releaseAllMutable seq.unassigned _)
  rw [← Holding.guards_append] at all
  exact all

theorem applyPrefill_transfers {token : Option Token} (settled : seq.staged = [])
    (got : seq.applyPrefill token store = .ok (seq', store')) :
    Transfers BlockStore.Ok store seq.holding store' seq'.holding := by
  obtain ⟨_, _, blocks, -, -, -, registers, rfl⟩ := applyPrefill_cases settled got
  exact registers.transfers settled

theorem applyDecode_transfers {token : Token} {result : DecodeOutcome} (settled : seq.staged = [])
    (got : seq.applyDecode token store = .ok (seq', store', result)) :
    Transfers BlockStore.Ok store seq.holding store' seq'.holding := by
  obtain ⟨_, blocks, -, -, registers, rfl⟩ := applyDecode_cases settled got
  exact registers.transfers settled

theorem applySpeculative_transfers {accepted : List Token} {result : DecodeOutcome}
    (settled : seq.staged = [])
    (got : seq.applySpeculative accepted store = .ok (seq', store', result)) :
    Transfers BlockStore.Ok store seq.holding store' seq'.holding := by
  obtain ⟨_, _, blocks, middle, kept, -, -, -, registers, -, rfl, rfl⟩ := applySpeculative_cases settled got
  exact (registers.transfers settled).trans (transfers_pop (seq.registered blocks) kept middle)

theorem padTailBlock_transfers {pad : Token} {pads : Nat} (settled : seq.staged = [])
    (got : seq.padTailBlock pad store = .ok (seq', store', pads)) :
    Transfers BlockStore.Ok store seq.holding store' seq'.holding := by
  obtain ⟨-, ⟨-, rfl, rfl, -⟩ | ⟨-, -, blocks, registers, rfl⟩⟩ := padTailBlock_cases settled got
  · exact .refl store' seq'.holding
  · exact registers.transfers settled

end Holdings

end SchedulableSequence

end PegaInfer.Kvbm
