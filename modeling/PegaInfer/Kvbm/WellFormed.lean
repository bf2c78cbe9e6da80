import PegaInfer.Kvbm.Operations

namespace PegaInfer.Kvbm

open PegaInfer.Lib

variable {H : Type} [DecidableEq H] [SequenceHashing H]

omit [DecidableEq H] in
theorem sequenceHashes_length (blockSize : Nat) (salt : Option SaltHash) (tokens : List Token) :
    (sequenceHashes blockSize salt tokens : List H).length = tokens.length / blockSize := by
  simp [sequenceHashes]

omit [DecidableEq H] in
theorem sequenceHashes_get {blockSize i : Nat} {salt : Option SaltHash} {tokens : List Token} {hash : H}
    (pos : 0 < blockSize) (atI : (sequenceHashes blockSize salt tokens)[i]? = some hash) :
    (i + 1) * blockSize ≤ tokens.length ∧ hash =
      SequenceHashing.sequenceHash salt (tokens.take ((i + 1) * blockSize)) := by
  have bound : i < tokens.length / blockSize := by
    rw [← sequenceHashes_length (H := H) blockSize salt tokens]
    exact (List.getElem?_eq_some_iff.mp atI).1
  simp only [sequenceHashes, List.getElem?_map, List.getElem?_range bound, Option.map_some,
    Option.some.injEq] at atI
  exact ⟨(Nat.le_div_iff_mul_le pos).mp bound, atI.symm⟩

omit [SequenceHashing H] in
theorem BlockStore.matchBlocks_hashes (hashes : List H) :
    ∀ store : BlockStore H,
      (store.matchBlocks hashes).2.map ImmutableBlock.hash = hashes.take (store.matchBlocks hashes).2.length ∧
        ∀ block ∈ (store.matchBlocks hashes).2, block.keepalive = none := by
  induction hashes with
  | nil => simp [matchBlocks]
  | cons hash hashes ih =>
    intro store
    simp only [matchBlocks]
    split
    · simp
    · rename_i next block got
      have shape : block = ⟨block.blockId, hash, none⟩ := by
        rcases acquireForHash_cases got with ⟨-, eq, -⟩ | ⟨-, -, eq, -⟩ <;> exact eq
      have named := congrArg ImmutableBlock.hash shape
      have primary := congrArg ImmutableBlock.keepalive shape
      obtain ⟨names, kept⟩ := ih next
      refine ⟨by simpa using ⟨named, names⟩, ?_⟩
      simp only [List.mem_cons, forall_eq_or_imp]
      exact ⟨primary, kept⟩

namespace SchedulableSequence

variable {store store' : BlockStore H} {seq seq' : SchedulableSequence H}

/-- Between two calls nothing is staged, and every registered block of the
sequence carries the hash of its place in the chain. -/
structure Wf (seq : SchedulableSequence H) : Prop where
  pos : 0 < seq.blockSize
  settled : seq.staged = []
  named : ∀ i block, seq.assigned[i]? = some block → (i + 1) * seq.blockSize ≤ seq.tokens.length ∧
    block.hash = SequenceHashing.sequenceHash seq.salt (seq.tokens.take ((i + 1) * seq.blockSize))

omit [DecidableEq H] in
theorem wf_new (prompt : List Token) (maxOutputTokens : Nat) {blockSize : Nat} (pos : 0 < blockSize)
    (salt : Option SaltHash) : (new prompt maxOutputTokens blockSize salt : SchedulableSequence H).Wf :=
  ⟨pos, rfl, by simp [new]⟩

theorem Wf.registered {tokens : List Token} (more rest : List Token)
    {blocks : List (ImmutableBlock H)} (wf : seq.Wf)
    (registers : seq.Registers tokens store blocks store') (extends_ : tokens = seq.tokens ++ more)
    (size : seq'.blockSize = seq.blockSize) (salt : seq'.salt = seq.salt) (staged : seq'.staged = [])
    (assigned : seq'.assigned = seq.assigned ++ blocks) (after : seq'.tokens = tokens ++ rest) :
    seq'.Wf := by
  refine ⟨size ▸ wf.pos, staged, ?_⟩
  intro i block atI
  rw [assigned] at atI
  have named : (i + 1) * seq.blockSize ≤ tokens.length ∧
      block.hash = SequenceHashing.sequenceHash seq.salt (tokens.take ((i + 1) * seq.blockSize)) := by
    by_cases old : i < seq.assigned.length
    · rw [List.getElem?_append_left old] at atI
      obtain ⟨bound, name⟩ := wf.named i block atI
      rw [extends_, List.take_append_of_le_length bound]
      exact ⟨by simp only [List.length_append]; omega, name⟩
    · rw [List.getElem?_append_right (by omega)] at atI
      have hash := congrArg (fun hashes : List H => hashes[i - seq.assigned.length]?) registers.hashes
      simp only [List.getElem?_map, atI, Option.map_some] at hash
      have short := (List.getElem?_eq_some_iff.mp atI).1
      rw [List.getElem?_take_of_lt short, List.getElem?_drop, Nat.add_sub_cancel' (by omega)] at hash
      exact sequenceHashes_get wf.pos hash.symm
  rw [size, salt, after, List.take_append_of_le_length named.1]
  exact ⟨by simp only [List.length_append]; omega, named.2⟩

omit [DecidableEq H] in
theorem Draws.wf {count : Nat} {state : SequenceState} (wf : seq.Wf)
    (draws : seq.Draws count state store seq' store') :
    seq'.Wf := by
  obtain ⟨drawn, alloc, rfl⟩ := draws
  obtain ⟨ids, -, rfl, -⟩ := allocateBlocks_cases alloc
  exact ⟨wf.pos, wf.settled, wf.named⟩

theorem matchAndAddPrefix_wf {count : Nat} (wf : seq.Wf)
    (got : seq.matchAndAddPrefix store = .ok (seq', store', count)) : seq'.Wf := by
  obtain ⟨-, empty, found, found_eq, -, rfl, -⟩ := matchAndAddPrefix_cases got
  refine ⟨wf.pos, wf.settled, ?_⟩
  intro i block atI
  have atFound : found[i]? = some block := by
    simp only [afterMatch, List.getElem?_take] at atI
    split at atI
    · exact atI
    · simp at atI
  have hash := congrArg (fun hashes : List H => hashes[i]?) (BlockStore.matchBlocks_hashes seq.hashes store).1
  simp only [List.getElem?_map, ← found_eq, atFound, Option.map_some] at hash
  rw [List.getElem?_take_of_lt (List.getElem?_eq_some_iff.mp atFound).1] at hash
  exact sequenceHashes_get wf.pos hash.symm

theorem applyPrefill_wf {token : Option Token} (wf : seq.Wf)
    (got : seq.applyPrefill token store = .ok (seq', store')) :
    seq'.Wf := by
  obtain ⟨_, _, blocks, -, -, -, registers, rfl⟩ := applyPrefill_cases wf.settled got
  exact wf.registered [] token.toList registers (by simp) rfl rfl wf.settled rfl rfl

theorem applyDecode_wf {token : Token} {result : DecodeOutcome} (wf : seq.Wf)
    (got : seq.applyDecode token store = .ok (seq', store', result)) : seq'.Wf := by
  obtain ⟨_, blocks, -, -, registers, rfl⟩ := applyDecode_cases wf.settled got
  exact wf.registered _ [] registers rfl rfl rfl wf.settled rfl
    (by simp [appended, SchedulableSequence.registered])

theorem applySpeculative_wf {accepted : List Token} {result : DecodeOutcome} (wf : seq.Wf)
    (got : seq.applySpeculative accepted store = .ok (seq', store', result)) : seq'.Wf := by
  obtain ⟨_, _, blocks, _, kept, -, -, -, registers, -, -, rfl⟩ := applySpeculative_cases wf.settled got
  exact wf.registered _ [] registers rfl rfl rfl wf.settled rfl
    (by simp [appended, SchedulableSequence.registered])

theorem padTailBlock_wf {pad : Token} {pads : Nat} (wf : seq.Wf)
    (got : seq.padTailBlock pad store = .ok (seq', store', pads)) : seq'.Wf := by
  obtain ⟨-, ⟨-, rfl, rfl, -⟩ | ⟨-, -, blocks, registers, rfl⟩⟩ := padTailBlock_cases wf.settled got
  · exact wf
  · exact wf.registered _ [] registers rfl rfl rfl wf.settled rfl (by simp)

end SchedulableSequence

end PegaInfer.Kvbm
