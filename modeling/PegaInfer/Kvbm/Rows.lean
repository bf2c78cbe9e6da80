import PegaInfer.Kvbm.WellFormed

namespace PegaInfer.Kvbm

/-- The tokens the pending schedule call was for. -/
def SequenceState.scheduledTokens : SequenceState → Nat
  | .idle => 0
  | .prefillScheduled numTokens _ => numTokens
  | .decodeScheduled _ => 1
  | .speculativeScheduled numTokens _ => numTokens

/-- The tokens past the KV position the pages of a pending step cover: the dangling token stands
before the drafts. -/
def SequenceState.reserved : SequenceState → Nat
  | .speculativeScheduled numTokens _ => numTokens + 1
  | other => other.scheduledTokens

/-- What `revert_schedule` takes back. -/
def SequenceState.allocated : SequenceState → Nat
  | .idle => 0
  | .prefillScheduled _ blocks => blocks
  | .decodeScheduled blocks => blocks
  | .speculativeScheduled _ blocks => blocks

def SequenceState.generates : SequenceState → Prop
  | .decodeScheduled _ | .speculativeScheduled _ _ => True
  | _ => False

theorem SequenceState.scheduledTokens_le (state : SequenceState) :
    state.scheduledTokens ≤ state.reserved := by
  cases state <;> simp [scheduledTokens, reserved]

namespace SchedulableSequence

variable {H : Type} {seq seq' : SchedulableSequence H}

/-- The page row of a pending step is long enough, and no page stands in it twice. -/
structure Rows (seq : SchedulableSequence H) : Prop where
  order : seq.prefillPosition ≤ seq.kvPosition
  aligned : seq.prefillPosition < seq.numInputTokens → seq.kvPosition = seq.prefillPosition
  prefilling : ∀ numTokens blocks, seq.state = .prefillScheduled numTokens blocks →
    seq.kvPosition = seq.prefillPosition
  generating : seq.state.generates → seq.numInputTokens ≤ seq.prefillPosition ∧
    seq.totalTokens = seq.kvPosition + 1
  covers : seq.state ≠ .idle → (seq.kvPosition + seq.state.reserved) ⌈/⌉ seq.blockSize ≤ seq.pages.length
  distinct : seq.pages.Nodup

/-- The committed KV has its pages, also after the pending schedule is reverted. -/
structure Backed (seq : SchedulableSequence H) : Prop where
  own : seq.state.allocated ≤ seq.unassigned.length
  backed : seq.kvPosition ⌈/⌉ seq.blockSize + seq.state.allocated ≤ seq.pages.length

theorem length_pages (seq : SchedulableSequence H) : seq.pages.length = seq.heldBlocks := by
  simp [pages, heldBlocks, Nat.add_assoc]

theorem pages_take (settled : seq.staged = []) (kept : Nat) :
    { seq with unassigned := seq.unassigned.take kept }.pages =
      seq.pages.take (seq.assigned.length + kept) := by
  simp only [pages, settled, List.map_nil, List.append_nil]
  have whole : (seq.assigned.map ImmutableBlock.blockId).take (seq.assigned.length + kept) =
      seq.assigned.map ImmutableBlock.blockId :=
    List.take_of_length_le (by simp)
  rw [List.take_append, List.length_map, Nat.add_sub_cancel_left, whole]

theorem ceilDiv_le_iff {tokens blocks blockSize : Nat} (pos : 0 < blockSize) :
    tokens ⌈/⌉ blockSize ≤ blocks ↔ tokens ≤ blocks * blockSize := by
  rw [ceilDiv_le_iff_le_smul pos, smul_eq_mul, Nat.mul_comm]

theorem ceilDiv_mono {tokens more blockSize : Nat} (pos : 0 < blockSize) (le : tokens ≤ more) :
    tokens ⌈/⌉ blockSize ≤ more ⌈/⌉ blockSize :=
  (ceilDiv_le_iff pos).mpr (le.trans ((ceilDiv_le_iff pos).mp le_rfl))

theorem ceilDiv_le_succ_div {tokens more blockSize : Nat} (pos : 0 < blockSize) (le : tokens ≤ more) :
    tokens ⌈/⌉ blockSize ≤ more / blockSize + 1 := by
  rw [ceilDiv_le_iff pos, Nat.mul_comm]
  exact le.trans (Nat.lt_mul_div_succ more pos).le

section Operations

variable [DecidableEq H] {store store' : BlockStore H} {rest : Holding H}

omit [DecidableEq H] in
theorem Draws.pages {count : Nat} {state : SequenceState} (draws : seq.Draws count state store seq' store') :
    ∃ ids, ids.length = count ∧ seq' = { seq with unassigned := seq.unassigned ++ ids, state } ∧
      seq'.pages = seq.pages ++ ids := by
  obtain ⟨drawn, alloc, rfl⟩ := draws
  obtain ⟨ids, length, rfl, -⟩ := allocateBlocks_cases alloc
  exact ⟨ids, length, rfl, by simp [SchedulableSequence.pages]⟩

/-- A page a sequence holds is neither free nor inactive. -/
theorem slot_of_page (settled : seq.staged = []) (ok : store.Ok (seq.holding + rest))
    {page : BlockId} (held : page ∈ seq.pages) :
    store.slots page ≠ .reset ∧ ∀ hash, store.slots page ≠ .inactive hash := by
  simp only [pages, settled, List.map_nil, List.append_nil, List.mem_append, List.mem_map] at held
  rcases held with ⟨block, member, rfl⟩ | member
  · obtain ⟨others, split⟩ := Holding.blocks_mem member
    rw [holding, split, add_assoc, add_assoc] at ok
    rcases ok.slot_of_block.1 with slot | slot <;> simp [slot]
  · obtain ⟨front, back, split⟩ := List.append_of_mem member
    have first : (Holding.guards seq.unassigned : Holding H) =
        Holding.guards [page] + Holding.guards (front ++ back) := by
      rw [← Holding.guards_append]
      exact Holding.guards_perm (split ▸ List.perm_middle)
    rw [holding, settled, List.map_nil, List.nil_append, first, add_comm (Holding.blocks _),
      add_assoc, add_assoc] at ok
    rcases ok.slot_of_guard with slot | ⟨hash, slot⟩ <;> simp [slot]

/-- Allocated pages are new to the sequence. -/
theorem Draws.distinct {count : Nat} {state : SequenceState} (draws : seq.Draws count state store seq' store')
    (settled : seq.staged = []) (ok : store.Ok (seq.holding + rest)) (distinct : seq.pages.Nodup) :
    seq'.pages.Nodup := by
  obtain ⟨drawn, alloc, rfl⟩ := draws
  obtain ⟨ids, -, rfl, ⟨-, rfl, -⟩ | atomic⟩ := allocateBlocks_cases alloc
  · simpa [SchedulableSequence.pages] using distinct
  · have fresh : ∀ page ∈ seq.pages, page ∉ ids := by
      intro page held taken
      obtain ⟨notFree, notInactive⟩ := slot_of_page settled ok held
      rcases ok.allocated_slot atomic page taken with ⟨reset, -⟩ | ⟨hash, inactive⟩
      · exact notFree reset
      · exact notInactive hash inactive
    have joined : seq.pages ++ ids = { seq with unassigned := seq.unassigned ++ ids, state }.pages := by
      simp [SchedulableSequence.pages]
    show ({ seq with unassigned := seq.unassigned ++ ids, state } : SchedulableSequence H).pages.Nodup
    rw [← joined]
    exact distinct.append (ok.allocated_nodup atomic) fun page held taken => fresh page held taken

variable [SequenceHashing H]

/-- Registration moves blocks from one list to the next without touching the row. -/
theorem Registers.pages {tokens : List Token} {blocks : List (ImmutableBlock H)}
    (registers : seq.Registers tokens store blocks store') (settled : seq.staged = []) :
    (seq.registered blocks).pages = seq.pages := by
  simp only [SchedulableSequence.pages, registered, settled, List.map_nil, List.append_nil,
    List.map_append, registers.ids,
    List.append_assoc, List.take_append_drop]

omit [DecidableEq H] [SequenceHashing H] in
/-- `revert_schedule` with the number of blocks it keeps. -/
theorem revertSchedule_exact (got : seq.revertSchedule store = .ok (seq', store')) :
    seq' = { seq with
      unassigned := seq.unassigned.take (seq.unassigned.length - seq.state.allocated)
      state := .idle } := by
  unfold revertSchedule at got
  simp only [lifoPopUnassigned] at got
  split at got
  all_goals first
    | rename_i state
      simp only [Except.ok.injEq, Prod.mk.injEq] at got
      rw [← got.1, state]
      rfl
    | simp at got

theorem matchAndAddPrefix_distinct {count : Nat}
    (got : seq.matchAndAddPrefix store = .ok (seq', store', count)) :
    (seq'.assigned.map ImmutableBlock.blockId).Nodup := by
  unfold matchAndAddPrefix at got
  split at got
  · simp at got
  · split at got
    · simp at got
    · simp only at got
      split at got
      · simp at got
      · rename_i distinct
        simp only [Except.ok.injEq, Prod.mk.injEq] at got
        rw [← got.1]
        exact not_not.mp distinct

omit [DecidableEq H] [SequenceHashing H] in
theorem Rows.new (prompt : List Token) (maxOutputTokens blockSize : Nat) (salt : Option SaltHash) :
    (SchedulableSequence.new prompt maxOutputTokens blockSize salt : SchedulableSequence H).Rows where
  order := le_rfl
  aligned _ := rfl
  prefilling numTokens blocks pending := by simp [SchedulableSequence.new] at pending
  generating pending := by simp [SchedulableSequence.new, SequenceState.generates] at pending
  covers pending := by simp [SchedulableSequence.new] at pending
  distinct := by simp [SchedulableSequence.new, SchedulableSequence.pages]

omit [DecidableEq H] [SequenceHashing H] in
theorem Backed.new (prompt : List Token) (maxOutputTokens blockSize : Nat) (salt : Option SaltHash) :
    (SchedulableSequence.new prompt maxOutputTokens blockSize salt : SchedulableSequence H).Backed := by
  refine ⟨Nat.zero_le _, ?_⟩
  simp [SchedulableSequence.new, SequenceState.allocated]

end Operations

/-- What an operation does to the row. The pages of the committed KV stay unless the operation
spends the output budget. -/
structure RowStep (seq seq' : SchedulableSequence H) (spared : Prop) : Prop where
  rows : seq'.Rows
  row : seq.pages <+: seq'.pages ∨ seq'.pages <+: seq.pages
  generated : seq.generatedTokens ≤ seq'.generatedTokens
  budget : seq'.maxOutputTokens = seq.maxOutputTokens
  position : seq.Backed → seq.kvPosition ≤ seq'.kvPosition
  backed : seq.Backed → spared → seq'.Backed

section Steps

variable [DecidableEq H] [SequenceHashing H] {store store' : BlockStore H} {rest : Holding H}

omit [SequenceHashing H] in
/-- A schedule call draws what its step needs and moves nothing else. -/
theorem RowStep.schedule {count : Nat} {state : SequenceState} (wf : seq.staged = []) (rows : seq.Rows)
    (ok : store.Ok (seq.holding + rest)) (idle : seq.state = .idle)
    (draws : seq.Draws count state store seq' store')
    (prefilling : ∀ numTokens blocks, state = .prefillScheduled numTokens blocks →
      seq.kvPosition = seq.prefillPosition)
    (generating : state.generates → seq.numInputTokens ≤ seq.prefillPosition ∧
      seq.totalTokens = seq.kvPosition + 1)
    (drawn : state.allocated = count)
    (covers : (seq.kvPosition + state.reserved) ⌈/⌉ seq.blockSize ≤ seq.pages.length + count) :
    RowStep seq seq' True := by
  have distinct := draws.distinct wf ok rows.distinct
  obtain ⟨ids, length, rfl, row⟩ := draws.pages
  refine ⟨⟨rows.order, rows.aligned, prefilling, generating, fun _ => ?_, distinct⟩,
    Or.inl ⟨ids, row.symm⟩, le_rfl, rfl,
    fun _ => le_rfl, fun backed _ => ⟨?_, ?_⟩⟩
  · rw [row, List.length_append, length]
    exact covers
  · rw [drawn, List.length_append, length]
    omega
  · have held := backed.backed
    rw [idle] at held
    rw [row, List.length_append, length, drawn]
    exact Nat.add_le_add_right held count

omit [SequenceHashing H] in
theorem RowStep.schedulePrefill {numTokens : Nat} (wf : seq.staged = []) (rows : seq.Rows)
    (ok : store.Ok (seq.holding + rest))
    (got : seq.schedulePrefill numTokens store = .ok (seq', store')) : RowStep seq seq' True := by
  obtain ⟨idle, incomplete, -, count, needed, draws⟩ := schedulePrefill_cases got
  have aligned := rows.aligned incomplete
  refine RowStep.schedule wf rows ok idle draws (fun _ _ _ => aligned) (fun pending => pending.elim) rfl ?_
  rw [length_pages, needed]
  dsimp only [SequenceState.reserved, SequenceState.scheduledTokens]
  rw [aligned]
  omega

omit [SequenceHashing H] in
theorem RowStep.scheduleDecode (pos : 0 < seq.blockSize) (wf : seq.staged = []) (rows : seq.Rows)
    (ok : store.Ok (seq.holding + rest))
    (got : seq.scheduleDecode store = .ok (seq', store')) : RowStep seq seq' True := by
  obtain ⟨ready, count, needed, draws⟩ := scheduleDecode_cases got
  obtain ⟨idle, prefilled, -, dangling⟩ := generationFault_none ready
  refine RowStep.schedule wf rows ok idle draws (fun _ _ pending => by cases pending)
    (fun _ => ⟨prefilled, dangling⟩) rfl ?_
  have reach : (seq.kvPosition + 1) ⌈/⌉ seq.blockSize ≤ seq.numBlocks + 1 :=
    ceilDiv_le_succ_div pos dangling.ge
  rw [length_pages, needed, heldBlocks]
  dsimp only [SequenceState.reserved, SequenceState.scheduledTokens]
  omega

omit [SequenceHashing H] in
theorem RowStep.scheduleSpeculative {numDraftTokens : Nat} (wf : seq.staged = []) (rows : seq.Rows)
    (ok : store.Ok (seq.holding + rest))
    (got : seq.scheduleSpeculative numDraftTokens store = .ok (seq', store')) :
    RowStep seq seq' True := by
  obtain ⟨ready, numTokens, count, -, needed, draws⟩ := scheduleSpeculative_cases got
  obtain ⟨idle, prefilled, -, dangling⟩ := generationFault_none ready
  refine RowStep.schedule wf rows ok idle draws (fun _ _ pending => by cases pending)
    (fun _ => ⟨prefilled, dangling⟩) rfl ?_
  rw [length_pages, needed]
  dsimp only [SequenceState.reserved]
  rw [dangling, Nat.add_right_comm, Nat.add_assoc]
  omega

omit [DecidableEq H] [SequenceHashing H] in
/-- A row that keeps its pages while the position moves within what the pending step reserved. -/
theorem RowStep.advance (rows : seq.Rows) (pos : 0 < seq.blockSize) (same : seq'.pages = seq.pages)
    (size : seq'.blockSize = seq.blockSize)
    (pending : seq.state ≠ .idle) (idle : seq'.state = .idle)
    (within : seq'.kvPosition ≤ seq.kvPosition + seq.state.reserved)
    (onward : seq.kvPosition ≤ seq'.kvPosition) (order : seq'.prefillPosition ≤ seq'.kvPosition)
    (aligned : seq'.prefillPosition < seq'.numInputTokens → seq'.kvPosition = seq'.prefillPosition)
    (generated : seq.generatedTokens ≤ seq'.generatedTokens)
    (budget : seq'.maxOutputTokens = seq.maxOutputTokens) :
    RowStep seq seq' True := by
  refine ⟨⟨order, aligned, fun _ _ state => ?_, fun state => ?_, fun busy => absurd idle busy,
    same ▸ rows.distinct⟩,
    Or.inl (same ▸ List.prefix_rfl), generated, budget, fun _ => onward, fun _ _ => ⟨?_, ?_⟩⟩
  · rw [idle] at state
    cases state
  · rw [idle] at state
    exact state.elim
  · rw [idle]
    exact Nat.zero_le _
  · rw [idle, size, same]
    exact (ceilDiv_mono pos within).trans (rows.covers pending)

theorem RowStep.applyPrefill {token : Option Token} (wf : seq.Wf) (rows : seq.Rows)
    (got : seq.applyPrefill token store = .ok (seq', store')) : RowStep seq seq' True := by
  obtain ⟨numTokens, allocated, blocks, state, -, -, registers, rfl⟩ := applyPrefill_cases wf.settled got
  have aligned := rows.prefilling _ _ state
  refine RowStep.advance rows wf.pos (registers.pages wf.settled) rfl
    (by simp [state]) rfl ?_ ?_ le_rfl (fun _ => rfl)
    (Nat.le_add_right _ _) rfl
  · rw [aligned, state]
    rfl
  · rw [aligned]
    exact Nat.le_add_right _ _

theorem RowStep.applyDecode {token : Token} {result : DecodeOutcome} (wf : seq.Wf) (rows : seq.Rows)
    (got : seq.applyDecode token store = .ok (seq', store', result)) : RowStep seq seq' True := by
  obtain ⟨allocated, blocks, state, -, registers, rfl⟩ := applyDecode_cases wf.settled got
  obtain ⟨prefilled, -⟩ := rows.generating (by rw [state]; trivial)
  have order := rows.order
  refine RowStep.advance rows wf.pos (registers.pages wf.settled) rfl (by simp [state]) rfl ?_
    (Nat.le_succ _) ?_ ?_
    (Nat.le_add_right _ _) rfl
  · rw [state]
    rfl
  · exact order.trans (Nat.le_succ _)
  · exact fun early => absurd (prefilled.trans_lt early) (lt_irrefl _)

/-- The rejected drafts' pages go back, except the one the next token is written to. -/
theorem RowStep.applySpeculative {accepted : List Token} {result : DecodeOutcome}
    (wf : seq.Wf) (rows : seq.Rows)
    (got : seq.applySpeculative accepted store = .ok (seq', store', result)) :
    RowStep seq seq' (seq'.generatedTokens < seq'.maxOutputTokens) := by
  obtain ⟨scheduled, allocated, blocks, middle, kept, state, within, -, registers, keeps, -, rfl⟩ :=
    applySpeculative_cases wf.settled got
  obtain ⟨prefilled, dangling⟩ := rows.generating (by rw [state]; trivial)
  have same := registers.pages wf.settled
  have covers := rows.covers (by simp [state])
  rw [state] at covers
  dsimp only [SequenceState.reserved] at covers
  have cut : ({ (seq.registered blocks).appended accepted with
      unassigned := (seq.registered blocks).unassigned.take kept
      kvPosition := seq.kvPosition + accepted.length
      state := .idle } : SchedulableSequence H).pages =
        seq.pages.take (seq.assigned.length + blocks.length + kept) := by
    rw [← same, ← List.length_append]
    exact @pages_take _ (seq.registered blocks) wf.settled kept
  have order := rows.order
  refine ⟨⟨order.trans (Nat.le_add_right _ _),
    fun early => absurd (prefilled.trans_lt early) (lt_irrefl _), fun _ _ pending => (by cases pending),
    fun pending => pending.elim, fun busy => absurd rfl busy,
      cut ▸ rows.distinct.sublist (List.take_sublist _ _)⟩,
    Or.inr (cut ▸ List.take_prefix _ _), Nat.le_add_right _ _, rfl, fun _ =>
      Nat.le_add_right _ _, fun _ open_ => ⟨Nat.zero_le _, ?_⟩⟩
  have incomplete : (seq.appended accepted).isComplete = false := by
    exact decide_eq_false (Nat.not_le.mpr open_)
  rw [incomplete, if_neg Bool.false_ne_true] at keeps
  have taken := registers.length
  rw [cut, List.length_take, length_pages, heldBlocks, wf.settled]
  rw [length_pages, heldBlocks, wf.settled] at covers
  have total : (seq.tokens ++ accepted).length = seq.kvPosition + accepted.length + 1 := by
    rw [List.length_append, Nat.add_right_comm, ← dangling]
    rfl
  have reach : (seq.kvPosition + accepted.length) ⌈/⌉ seq.blockSize ≤
      (seq.tokens ++ accepted).length / seq.blockSize + 1 :=
    ceilDiv_le_succ_div wf.pos (by omega)
  have inside : (seq.kvPosition + accepted.length) ⌈/⌉ seq.blockSize ≤
      (seq.kvPosition + (scheduled + 1)) ⌈/⌉ seq.blockSize :=
    ceilDiv_mono wf.pos (by omega)
  have left : (seq.registered blocks).unassigned.length = seq.unassigned.length - blocks.length :=
    List.length_drop
  simp only [appended, registered, SequenceState.allocated, List.length_nil, Nat.add_zero]
    at keeps covers left ⊢
  rw [left] at keeps
  omega

omit [DecidableEq H] [SequenceHashing H] in
/-- A reverted schedule leaves the row it found. -/
theorem RowStep.revertSchedule (wf : seq.staged = []) (rows : seq.Rows)
    (got : seq.revertSchedule store = .ok (seq', store')) : RowStep seq seq' True := by
  have exact_ := revertSchedule_exact got
  have cut : seq'.pages = seq.pages.take
      (seq.assigned.length + (seq.unassigned.length - seq.state.allocated)) := by
    rw [exact_]
    exact pages_take wf _
  refine ⟨?_, Or.inr (cut ▸ List.take_prefix _ _), ?_, ?_, ?_, fun backed _ => ?_⟩
  · refine ⟨?_, ?_, ?_, ?_, ?_, cut ▸ rows.distinct.sublist (List.take_sublist _ _)⟩ <;> rw [exact_]
    · exact rows.order
    · exact rows.aligned
    · exact fun _ _ pending => by cases pending
    · exact fun pending => pending.elim
    · exact fun busy => absurd rfl busy
  · rw [exact_]
  · rw [exact_]
  · rw [exact_]
    exact fun _ => le_rfl
  · refine ⟨by rw [exact_]; exact Nat.zero_le _, ?_⟩
    have own := backed.own
    have held := backed.backed
    rw [cut, List.length_take, exact_]
    rw [length_pages, heldBlocks, wf] at held ⊢
    dsimp only [SequenceState.allocated] at held own ⊢
    rw [List.length_nil] at held ⊢
    omega

omit [DecidableEq H] [SequenceHashing H] in
/-- An operation that leaves the positions, the row and the idle state. -/
theorem RowStep.quiet (rows : seq.Rows) (same : seq'.pages = seq.pages)
    (size : seq'.blockSize = seq.blockSize) (idle : seq.state = .idle)
    (still : seq'.state = seq.state) (position : seq'.kvPosition = seq.kvPosition)
    (prefill : seq'.prefillPosition = seq.prefillPosition)
    (inputs : seq'.numInputTokens ≤ seq.numInputTokens)
    (generated : seq.generatedTokens ≤ seq'.generatedTokens)
    (budget : seq'.maxOutputTokens = seq.maxOutputTokens) : RowStep seq seq' True := by
  have quiet := still.trans idle
  refine ⟨⟨?_, fun early => ?_, fun _ _ pending => ?_, fun pending => ?_,
    fun busy => absurd quiet busy, same ▸ rows.distinct⟩,
    Or.inl (same ▸ List.prefix_rfl), generated, budget, fun _ => position.ge, fun backed _ => ⟨?_, ?_⟩⟩
  · rw [prefill, position]
    exact rows.order
  · rw [position, prefill]
    exact rows.aligned (by omega)
  · rw [quiet] at pending
    cases pending
  · rw [quiet] at pending
    exact pending.elim
  · rw [quiet]
    exact Nat.zero_le _
  · have held := backed.backed
    rw [idle] at held
    rw [quiet, position, size, same]
    exact held

theorem RowStep.padTailBlock {pad : Token} {pads : Nat} (wf : seq.Wf) (rows : seq.Rows)
    (got : seq.padTailBlock pad store = .ok (seq', store', pads)) : RowStep seq seq' True := by
  obtain ⟨idle, ⟨-, rfl, -, -⟩ | ⟨-, -, blocks, registers, rfl⟩⟩ := padTailBlock_cases wf.settled got
  · exact RowStep.quiet rows rfl rfl idle rfl rfl rfl le_rfl le_rfl rfl
  · exact RowStep.quiet rows (registers.pages wf.settled) rfl idle rfl rfl rfl le_rfl le_rfl rfl

omit [DecidableEq H] [SequenceHashing H] in
theorem RowStep.adopt (rows : seq.Rows) (got : seq.adoptExternalPrefillAnchor = .ok seq') :
    RowStep seq seq' True := by
  obtain ⟨idle, -, -, -, -, rfl⟩ := adoptExternalPrefillAnchor_cases got
  exact RowStep.quiet rows rfl rfl idle rfl rfl rfl (Nat.sub_le _ _) (Nat.le_succ _) rfl

/-- A matched prefix is the whole row, and exactly what the position stands for. -/
theorem RowStep.matched {count : Nat} (pos : 0 < seq.blockSize) (rows : seq.Rows)
    (got : seq.matchAndAddPrefix store = .ok (seq', store', count)) : RowStep seq seq' True := by
  have distinct := matchAndAddPrefix_distinct got
  obtain ⟨idle, held, found, -, -, rfl, -⟩ := matchAndAddPrefix_cases got
  obtain ⟨assigned, staged, unassigned⟩ := heldBlocks_eq_zero held
  generalize found.take ((seq.numInputTokens - 1) / seq.blockSize) = hit at distinct ⊢
  have row : (seq.afterMatch hit).pages = hit.map ImmutableBlock.blockId := by
    simp [pages, afterMatch, staged, unassigned]
  have empty : seq.pages = [] := by simp [pages, assigned, staged, unassigned]
  have order := rows.order
  have aligned := rows.aligned
  have start (backed : seq.Backed) : seq.kvPosition = 0 := by
    have held := backed.backed
    rw [idle, empty, List.length_nil] at held
    have none := (ceilDiv_le_iff pos).mp ((Nat.le_add_right _ _).trans held)
    omega
  refine ⟨⟨?_, ?_, fun _ _ pending => ?_, fun pending => ?_, fun busy => absurd idle busy, row ▸ distinct⟩,
    Or.inl (empty ▸ List.nil_prefix), le_rfl, rfl, fun backed =>
      (start backed).symm ▸ Nat.zero_le _, fun backed _ => ⟨?_, ?_⟩⟩
  · dsimp only [afterMatch]
    split <;> rename_i hits
    · exact le_rfl
    · rw [Nat.eq_zero_of_not_pos hits, Nat.zero_mul]
      exact order
  · dsimp only [afterMatch]
    intro early
    split <;> rename_i hits
    · rfl
    · rw [Nat.eq_zero_of_not_pos hits, Nat.zero_mul, Nat.add_zero] at early ⊢
      exact aligned early
  · rw [show (seq.afterMatch hit).state = .idle from idle] at pending
    cases pending
  · rw [show (seq.afterMatch hit).state = .idle from idle] at pending
    exact pending.elim
  · rw [show (seq.afterMatch hit).state = .idle from idle]
    exact Nat.zero_le _
  · have zero := start backed
    rw [show (seq.afterMatch hit).state = .idle from idle, row, List.length_map]
    show (seq.afterMatch hit).kvPosition ⌈/⌉ seq.blockSize + 0 ≤ hit.length
    rw [Nat.add_zero, ceilDiv_le_iff pos]
    dsimp only [afterMatch]
    split <;> omega

end Steps

end SchedulableSequence

end PegaInfer.Kvbm
