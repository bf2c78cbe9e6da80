import PegaInfer.Kvbm.Quiet
import PegaInfer.KvStore.Holdings

namespace PegaInfer.KvStore

open PegaInfer.Kvbm PegaInfer.Lib

variable {H : Type} [DecidableEq H] [SequenceHashing H]

/-- The `i`-th token block of a chain. -/
def tokenBlock (blockSize : Nat) (tokens : List Token) (i : Nat) : List Token :=
  (tokens.take ((i + 1) * blockSize)).drop (i * blockSize)

/-- The KV rows a forward step wrote since their block was last handed out. -/
abbrev Written := BlockId → Nat → Bool

def KvOp.applies : KvOp → Bool
  | .applyPrefill _ => true
  | .applyPrefillChunk => true
  | .applyDecode _ => true
  | .applySpeculative _ => true
  | _ => false

/-- The rows between the two positions, on the pages the request had. -/
def rowsBetween (seq seq' : SchedulableSequence H) (id : BlockId) (row : Nat) : Bool :=
  (List.range seq'.kvPosition).any fun p =>
    decide (seq.kvPosition ≤ p ∧ seq.pages[p / seq.blockSize]? = some id ∧ p % seq.blockSize = row)

/-- The written rows after one move. A block handed out anew has none; an
`apply_*` call writes the rows it moves `kv_position` past. -/
def System.written (s : System H) (a : Action) (s' : System H) (written : Written) : Written := fun id row =>
  if s'.pool.store.slots id = .mutable ∧ s.pool.store.slots id ≠ .mutable then false
  else
    written id row ||
      match a with
      | .call k op =>
        op.applies &&
          match s.holders[k]?, s'.holders[k]? with
          | some (.request request), some (.request request') => rowsBetween request.seq request'.seq id row
          | _, _ => false
      | _ => false

/-- A run with the rows written on the way. -/
inductive WrittenReach (allowed : System H → Action → Bool) (blockSize numBlocks : Nat) :
    System H → Written → Prop
  | start {s : System H} (made : System.new blockSize numBlocks = some s) :
      WrittenReach allowed blockSize numBlocks s fun _ _ => false
  | next {s s' : System H} {written : Written} {a : Action}
      (before : WrittenReach allowed blockSize numBlocks s written)
      (permitted : allowed s a = true) (went : s.step a = some s') :
      WrittenReach allowed blockSize numBlocks s' (s.written a s' written)

/-- A run of allowed moves from a given state, with the rows written. -/
def System.writtenRun (allowed : System H → Action → Bool) (s : System H) (written : Written) :
    List Action → Option (System H × Written)
  | [] => some (s, written)
  | a :: actions =>
    if allowed s a then
      match s.step a with
      | none => none
      | some s' => s'.writtenRun allowed (s.written a s' written) actions
    else none

theorem WrittenReach.run {allowed : System H → Action → Bool} {blockSize numBlocks : Nat} {s s' : System H}
    {written written' : Written} {actions : List Action}
    (reach : WrittenReach allowed blockSize numBlocks s written)
    (ran : s.writtenRun allowed written actions = some (s', written')) :
    WrittenReach allowed blockSize numBlocks s' written' := by
  induction actions generalizing s written with
  | nil =>
    cases ran
    exact reach
  | cons a actions ih =>
    simp only [System.writtenRun] at ran
    split at ran
    · rename_i permitted
      split at ran
      · simp at ran
      · exact ih (reach.next permitted ‹_›) ran
    · simp at ran

/-- Every block registered for a token block without pads is written. -/
def RegisteredWritten (s : System H) (written : Written) : Prop :=
  ∀ id salt tokens i, (i + 1) * s.pool.blockSize ≤ tokens.length →
    (s.pool.store.slots id).RegisteredAs
      (SequenceHashing.sequenceHash salt (tokens.take ((i + 1) * s.pool.blockSize))) →
    padTokenId ∉ tokenBlock s.pool.blockSize tokens i → ∀ row < s.pool.blockSize, written id row = true

/-- The calls of a request and everything else but the registration of blocks
loaded from another tier. -/
def KvCalls (_ : System H) : Action → Bool
  | .commit _ _ => false
  | _ => true

namespace KvOp

/-- The tokens whose complete blocks a call registers. -/
def naming (seq : SchedulableSequence H) : KvOp → List Token
  | .applyPrefill _ => seq.tokens
  | .applyPrefillChunk => seq.tokens
  | .applyDecode token => seq.tokens ++ [token]
  | .applySpeculative accepted => seq.tokens ++ accepted
  | .padToBoundary =>
    if seq.kvPosition % seq.blockSize = 0 then []
    else
      seq.tokens ++
        List.replicate (seq.totalTokens ⌈/⌉ seq.blockSize * seq.blockSize - seq.totalTokens) padTokenId
  | _ => []

/-- The position up to which the request's rows are computed after a call
that registers blocks. -/
def reaches (seq : SchedulableSequence H) : KvOp → Nat
  | .applyPrefill _ =>
    match seq.state with
    | .prefillScheduled numTokens _ => seq.prefillPosition + numTokens
    | _ => 0
  | .applyPrefillChunk =>
    match seq.state with
    | .prefillScheduled numTokens _ => seq.prefillPosition + numTokens
    | _ => 0
  | .applyDecode _ => seq.kvPosition + 1
  | .applySpeculative accepted => seq.kvPosition + accepted.length
  | _ => seq.kvPosition

def draws : KvOp → Bool
  | .schedulePrefill _ => true
  | .scheduleDecode => true
  | .scheduleSpeculative _ => true
  | _ => false

/-- No token block without pads gets registered before the position that
computes its last row, and no page is drawn in the place of one given up. -/
def Covers (op : KvOp) (seq : SchedulableSequence H) : Prop :=
  (op.draws = true → seq.kvPosition ≤ seq.heldBlocks * seq.blockSize) ∧
    ∀ i < seq.heldBlocks, seq.assigned.length ≤ i → (i + 1) * seq.blockSize ≤ (op.naming seq).length →
      (i + 1) * seq.blockSize ≤ op.reaches seq ∨ padTokenId ∈ tokenBlock seq.blockSize (op.naming seq) i

instance (op : KvOp) (seq : SchedulableSequence H) : Decidable (op.Covers seq) :=
  inferInstanceAs (Decidable (_ ∧ _))

/-- The sequence turns the call away on its own checks. -/
def refused (seq : SchedulableSequence H) : KvOp → Bool
  | .schedulePrefill numTokens =>
    decide (seq.state ≠ .idle ∨ seq.isPrefillComplete = true ∨
      seq.numInputTokens < seq.prefillPosition + numTokens)
  | .scheduleDecode => seq.generationFault.isSome
  | .scheduleSpeculative _ => seq.generationFault.isSome
  | .applyPrefill _ =>
    match seq.state with
    | .prefillScheduled numTokens _ => decide (seq.prefillPosition + numTokens < seq.numInputTokens)
    | _ => true
  | .applyPrefillChunk =>
    match seq.state with
    | .prefillScheduled numTokens _ =>
      decide (seq.numInputTokens ≤ seq.prefillPosition + numTokens ∧ 0 < seq.maxOutputTokens)
    | _ => true
  | .applyDecode _ =>
    match seq.state with
    | .decodeScheduled _ => false
    | _ => true
  | .applySpeculative accepted =>
    match seq.state with
    | .speculativeScheduled scheduled _ => decide (scheduled < accepted.length)
    | _ => true
  | .revertSchedule => decide (seq.state = .idle)
  | .matchAndAddPrefix => decide (seq.state ≠ .idle)
  | .padToBoundary => decide (seq.state ≠ .idle)
  | .adoptExternalPrefillAnchor => decide (seq.state ≠ .idle)

theorem not_refused {op : KvOp} {seq seq' : SchedulableSequence H} {store store' : BlockStore H}
    (settled : seq.staged = []) (done : RequestKv.runOp seq store op = .ok (seq', store')) :
    op.refused seq = false := by
  cases op with
  | matchAndAddPrefix =>
    obtain ⟨⟨_, _, _⟩, got, -, -⟩ := RequestKv.map_ok done
    simp [refused, (SchedulableSequence.matchAndAddPrefix_cases got).1]
  | schedulePrefill numTokens =>
    obtain ⟨idle, incomplete, fits, -⟩ := SchedulableSequence.schedulePrefill_cases done
    simp only [refused, SchedulableSequence.isPrefillComplete, idle, ne_eq, not_true_eq_false, false_or,
      decide_eq_true_eq, decide_eq_false_iff_not, not_or]
    omega
  | scheduleDecode => simp [refused, (SchedulableSequence.scheduleDecode_cases done).1]
  | scheduleSpeculative numDraftTokens =>
    simp [refused, (SchedulableSequence.scheduleSpeculative_cases done).1]
  | applyPrefill token =>
    obtain ⟨numTokens, _, _, state, final, -⟩ := SchedulableSequence.applyPrefill_cases settled done
    simpa [refused, state] using (final rfl).1
  | applyPrefillChunk =>
    obtain ⟨numTokens, _, _, state, -, final, -⟩ := SchedulableSequence.applyPrefill_cases settled done
    simp only [refused, state, decide_eq_false_iff_not, not_and]
    intro reached
    have spent := final reached rfl
    omega
  | applyDecode token =>
    obtain ⟨⟨_, _, _⟩, got, -, -⟩ := RequestKv.map_ok done
    obtain ⟨_, _, state, -⟩ := SchedulableSequence.applyDecode_cases settled got
    simp [refused, state]
  | applySpeculative accepted =>
    obtain ⟨⟨_, _, _⟩, got, -, -⟩ := RequestKv.map_ok done
    obtain ⟨_, _, _, _, _, state, within, -⟩ := SchedulableSequence.applySpeculative_cases settled got
    simpa [refused, state] using within
  | revertSchedule =>
    have scheduled := (SchedulableSequence.revertSchedule_cases done).1
    simpa [refused] using scheduled
  | padToBoundary =>
    obtain ⟨⟨_, _, _⟩, got, -, -⟩ := RequestKv.map_ok done
    simp [refused, (SchedulableSequence.padTailBlock_cases settled got).1]
  | adoptExternalPrefillAnchor =>
    obtain ⟨_, got, -⟩ := RequestKv.map_ok done
    simp [refused, (SchedulableSequence.adoptExternalPrefillAnchor_cases got).1]

end KvOp

/-- The moves of `KvCalls` whose request refuses the call or meets
`KvOp.Covers`. -/
def CoveredCalls (s : System H) : Action → Bool
  | .commit _ _ => false
  | .call k op =>
    match s.holders[k]? with
    | some (.request request) => op.refused request.seq || decide (op.Covers request.seq)
    | _ => true
  | _ => true

section Slots

variable {store store' : BlockStore H} {held : Holding H} {Named : BlockId → H → Prop}

/-- Only pooled blocks are handed out, and only the `Named` ones are
registered anew. -/
def Gentle (Named : BlockId → H → Prop) (store store' : BlockStore H) : Prop :=
  ∀ id, (store'.slots id = .mutable →
      store.slots id = .mutable ∨ store.slots id = .reset ∨ ∃ hash, store.slots id = .inactive hash) ∧
    ∀ hash, (store'.slots id).RegisteredAs hash → (store.slots id).RegisteredAs hash ∨ Named id hash

omit [DecidableEq H] [SequenceHashing H] in
theorem gentle_of_quiet (quiet : BlockStore.Quiet Named store store') : Gentle Named store store' :=
  fun id => ⟨fun handed => Or.inl ((quiet id).1 handed), (quiet id).2⟩

omit [SequenceHashing H] in
theorem gentle_allocate (ok : store.Ok held) {count : Nat} {ids : List BlockId}
    (alloc : store.allocateAtomic count = some (store', ids)) : Gentle Named store store' := by
  intro id
  have taken := ok.allocated_slot alloc id
  obtain ⟨-, -, rfl⟩ := BlockStore.allocateAtomic_cases alloc
  by_cases member : id ∈ ids
  · simp only [member, if_true]
    refine ⟨fun _ => ?_, by simp [SlotState.RegisteredAs]⟩
    rcases taken member with ⟨reset, -⟩ | inactive
    · exact Or.inr (Or.inl reset)
    · exact Or.inr (Or.inr inactive)
  · simp only [member, if_false]
    exact ⟨Or.inl, fun _ old => Or.inl old⟩

omit [SequenceHashing H] in
theorem gentle_draws {seq seq' : SchedulableSequence H} {count : Nat} {state : SequenceState}
    (ok : store.Ok held) (draws : seq.Draws count state store seq' store') : Gentle Named store store' := by
  obtain ⟨drawn, alloc, -⟩ := draws
  obtain ⟨ids, -, -, ⟨-, -, rfl⟩ | alloc⟩ := SchedulableSequence.allocateBlocks_cases alloc
  · exact gentle_of_quiet (.refl _)
  · exact gentle_allocate ok alloc

omit [SequenceHashing H] in
/-- A block someone holds is not handed out. -/
theorem Gentle.keeps (gentle : Gentle Named store store') (ok : store.Ok held) {id : BlockId}
    (owned : id ∈ held.ids) :
    ¬ (store'.slots id = .mutable ∧ store.slots id ≠ .mutable) := by
  rintro ⟨handed, other⟩
  obtain ⟨used, active⟩ := ok.mem_ids.mp owned
  rcases (gentle id).1 handed with same | reset | ⟨hash, inactive⟩
  · exact other same
  · exact used reset
  · exact active hash inactive

end Slots

/-- The computed part of the pages a request has not registered yet. -/
def PendingWritten (seq : SchedulableSequence H) (written : Written) : Prop :=
  ∀ j id, seq.unassigned[j]? = some id → ∀ row < seq.blockSize,
    (seq.assigned.length + j) * seq.blockSize + row < seq.kvPosition → written id row = true

structure RowsOk (s : System H) (written : Written) : Prop where
  registered : RegisteredWritten s written
  pending : ∀ request, .request request ∈ s.holders → PendingWritten request.seq written

omit [SequenceHashing H] in
theorem mem_ids_of_unassigned {seq : SchedulableSequence H} {frame : Holding H} {id : BlockId}
    (member : id ∈ seq.unassigned) : id ∈ (seq.holding + frame).ids := by
  simp [SchedulableSequence.holding, Holding.ids, Holding.guards, member]

/-- What a move has to show: which blocks it registers anew and what its own
request has written. -/
theorem RowsOk.carry {s s' : System H} {written written' : Written} {Named : BlockId → H → Prop} (ok : s.Ok)
    (rows : RowsOk s written) (size : s'.pool.blockSize = s.pool.blockSize)
    (gentle : Gentle Named s.pool.store s'.pool.store)
    (keeps : ∀ id row, written id row = true →
      ¬ (s'.pool.store.slots id = .mutable ∧ s.pool.store.slots id ≠ .mutable) → written' id row = true)
    (named : ∀ id salt tokens i, (i + 1) * s.pool.blockSize ≤ tokens.length →
      Named id (SequenceHashing.sequenceHash salt (tokens.take ((i + 1) * s.pool.blockSize))) →
      padTokenId ∉ tokenBlock s.pool.blockSize tokens i →
        (∀ hash, (s'.pool.store.slots id).RegisteredAs hash →
        ∀ row < s.pool.blockSize, written' id row = true))
    (owners : ∀ request', .request request' ∈ s'.holders →
      (∃ request, .request request ∈ s.holders ∧ request'.seq = request.seq) ∨
      PendingWritten request'.seq written') :
    RowsOk s' written' := by
  constructor
  · intro id salt tokens i bound registered unpadded row inside
    rw [size] at bound registered unpadded inside
    rcases (gentle id).2 _ registered with old | fresh
    · refine keeps id row (rows.registered id salt tokens i bound old unpadded row inside) ?_
      rintro ⟨handed, -⟩
      rw [handed] at registered
      simp [SlotState.RegisteredAs] at registered
    · exact named id salt tokens i bound fresh unpadded _ registered row inside
  · intro request' member
    rcases owners request' member with ⟨request, old, same⟩ | done
    · rw [same]
      intro j id atJ row inside below
      obtain ⟨rest, split⟩ := heldByAll_mem Holder.holding old
      refine keeps id row (rows.pending request old j id atJ row inside below) (gentle.keeps ok.owned ?_)
      rw [split]
      exact mem_ids_of_unassigned (List.mem_of_getElem? atJ)
    · exact done

omit [SequenceHashing H] in
theorem System.written_keeps {s s' : System H} {a : Action} {written : Written} {id : BlockId} {row : Nat}
    (old : written id row = true)
    (kept : ¬ (s'.pool.store.slots id = .mutable ∧ s.pool.store.slots id ≠ .mutable)) :
    s.written a s' written id row = true := by
  simp [System.written, if_neg kept, old]

section Calls

variable {seq seq' : SchedulableSequence H} {store store' : BlockStore H} {op : KvOp}

theorem runOp_gentle {frame : Holding H} (wf : seq.Wf) (ok : store.Ok (seq.holding + frame))
    (done : RequestKv.runOp seq store op = .ok (seq', store')) :
    Gentle (fun id hash => (id, hash) ∈ seq.pendingEntries (op.naming seq)) store store' := by
  cases op with
  | matchAndAddPrefix =>
    obtain ⟨⟨_, _, _⟩, got, rfl, rfl⟩ := RequestKv.map_ok done
    exact gentle_of_quiet (SchedulableSequence.quiet_matchAndAddPrefix ok got)
  | schedulePrefill numTokens =>
    obtain ⟨-, -, -, _, -, draws⟩ := SchedulableSequence.schedulePrefill_cases done
    exact gentle_draws ok draws
  | scheduleDecode =>
    obtain ⟨-, _, -, draws⟩ := SchedulableSequence.scheduleDecode_cases done
    exact gentle_draws ok draws
  | scheduleSpeculative numDraftTokens =>
    obtain ⟨-, _, _, -, -, draws⟩ := SchedulableSequence.scheduleSpeculative_cases done
    exact gentle_draws ok draws
  | applyPrefill token =>
    obtain ⟨_, _, _, -, -, -, registers, -⟩ := SchedulableSequence.applyPrefill_cases wf.settled done
    exact gentle_of_quiet (registers.quiet wf.settled ok)
  | applyPrefillChunk =>
    obtain ⟨_, _, _, -, -, -, registers, -⟩ := SchedulableSequence.applyPrefill_cases wf.settled done
    exact gentle_of_quiet (registers.quiet wf.settled ok)
  | applyDecode token =>
    obtain ⟨⟨_, _, _⟩, got, rfl, rfl⟩ := RequestKv.map_ok done
    obtain ⟨_, _, -, -, registers, -⟩ := SchedulableSequence.applyDecode_cases wf.settled got
    exact gentle_of_quiet (registers.quiet wf.settled ok)
  | applySpeculative accepted =>
    obtain ⟨⟨_, _, _⟩, got, rfl, rfl⟩ := RequestKv.map_ok done
    obtain ⟨_, _, _, _, _, -, -, -, registers, -, rfl, -⟩ :=
      SchedulableSequence.applySpeculative_cases wf.settled got
    exact gentle_of_quiet ((registers.quiet wf.settled ok).trans (BlockStore.quiet_releaseAllMutable _ _))
  | revertSchedule =>
    obtain ⟨-, _, -, rfl, -⟩ := SchedulableSequence.revertSchedule_cases done
    exact gentle_of_quiet (BlockStore.quiet_releaseAllMutable _ _)
  | padToBoundary =>
    obtain ⟨⟨_, _, _⟩, got, rfl, rfl⟩ := RequestKv.map_ok done
    obtain ⟨-, ⟨-, -, rfl, -⟩ | ⟨unaligned, rfl, _, registers, -⟩⟩ :=
      SchedulableSequence.padTailBlock_cases wf.settled got
    · exact gentle_of_quiet (.refl _)
    · have named : KvOp.naming seq .padToBoundary = _ := if_neg unaligned
      rw [named]
      exact gentle_of_quiet (registers.quiet wf.settled ok)
  | adoptExternalPrefillAnchor =>
    obtain ⟨_, got, eq⟩ := RequestKv.map_ok done
    cases eq
    exact gentle_of_quiet (.refl _)

/-- The unregistered pages after a call: those not registered by it keep
their place in the chain, drawn ones go to the end. -/
theorem runOp_pages (wf : seq.Wf) (done : RequestKv.runOp seq store op = .ok (seq', store')) :
    op.applies = false ∧ seq'.unassigned = [] ∨ seq'.kvPosition = op.reaches seq ∧
      ∃ n, seq'.assigned.length = seq.assigned.length + n ∧ ∀ j id, seq'.unassigned[j]? = some id →
        seq.unassigned[n + j]? = some id ∨ op.draws = true ∧ n = 0 ∧ seq.unassigned.length ≤ j := by
  have drawn : ∀ {count : Nat} {state : SequenceState}, seq.Draws count state store seq' store' →
      seq'.kvPosition = seq.kvPosition ∧ seq'.assigned.length = seq.assigned.length + 0 ∧
        ∀ j id, seq'.unassigned[j]? = some id → seq.unassigned[0 + j]? = some id ∨
          true = true ∧ (0 : Nat) = 0 ∧ seq.unassigned.length ≤ j := by
    intro count state draws
    obtain ⟨_, alloc, rfl⟩ := draws
    obtain ⟨ids, -, rfl, -⟩ := SchedulableSequence.allocateBlocks_cases alloc
    refine ⟨rfl, rfl, ?_⟩
    intro j id atJ
    by_cases old : j < seq.unassigned.length
    · rw [List.getElem?_append_left old] at atJ
      exact Or.inl (by rwa [Nat.zero_add])
    · exact Or.inr ⟨rfl, rfl, by omega⟩
  cases op with
  | matchAndAddPrefix =>
    obtain ⟨⟨_, _, _⟩, got, rfl, rfl⟩ := RequestKv.map_ok done
    obtain ⟨-, empty, _, -, -, rfl, -⟩ := SchedulableSequence.matchAndAddPrefix_cases got
    exact Or.inl ⟨rfl, (SchedulableSequence.heldBlocks_eq_zero empty).2.2⟩
  | schedulePrefill numTokens =>
    obtain ⟨-, -, -, _, -, draws⟩ := SchedulableSequence.schedulePrefill_cases done
    exact Or.inr ⟨(drawn draws).1, 0, (drawn draws).2⟩
  | scheduleDecode =>
    obtain ⟨-, _, -, draws⟩ := SchedulableSequence.scheduleDecode_cases done
    exact Or.inr ⟨(drawn draws).1, 0, (drawn draws).2⟩
  | scheduleSpeculative numDraftTokens =>
    obtain ⟨-, _, _, -, -, draws⟩ := SchedulableSequence.scheduleSpeculative_cases done
    exact Or.inr ⟨(drawn draws).1, 0, (drawn draws).2⟩
  | applyPrefill token =>
    obtain ⟨numTokens, _, blocks, state, -, -, -, rfl⟩ :=
      SchedulableSequence.applyPrefill_cases wf.settled done
    have reached : KvOp.reaches seq (.applyPrefill token) = seq.prefillPosition + numTokens := by
      unfold KvOp.reaches
      rw [state]
    refine Or.inr ⟨reached.symm, blocks.length, by simp [SchedulableSequence.appended,
      SchedulableSequence.registered], ?_⟩
    intro j id atJ
    exact Or.inl (by simpa [SchedulableSequence.appended, SchedulableSequence.registered] using atJ)
  | applyPrefillChunk =>
    obtain ⟨numTokens, _, blocks, state, -, -, -, rfl⟩ :=
      SchedulableSequence.applyPrefill_cases wf.settled done
    have reached : KvOp.reaches seq .applyPrefillChunk = seq.prefillPosition + numTokens := by
      unfold KvOp.reaches
      rw [state]
    refine Or.inr ⟨reached.symm, blocks.length, by simp [SchedulableSequence.appended,
      SchedulableSequence.registered], ?_⟩
    intro j id atJ
    exact Or.inl (by simpa [SchedulableSequence.appended, SchedulableSequence.registered] using atJ)
  | applyDecode token =>
    obtain ⟨⟨_, _, _⟩, got, rfl, rfl⟩ := RequestKv.map_ok done
    obtain ⟨_, blocks, -, -, -, rfl⟩ := SchedulableSequence.applyDecode_cases wf.settled got
    refine Or.inr ⟨rfl,
      blocks.length, by simp [SchedulableSequence.appended, SchedulableSequence.registered], ?_⟩
    intro j id atJ
    exact Or.inl (by simpa [SchedulableSequence.appended, SchedulableSequence.registered] using atJ)
  | applySpeculative accepted =>
    obtain ⟨⟨_, _, _⟩, got, rfl, rfl⟩ := RequestKv.map_ok done
    obtain ⟨_, _, blocks, _, kept, -, -, -, -, -, -, rfl⟩ :=
      SchedulableSequence.applySpeculative_cases wf.settled got
    refine Or.inr ⟨rfl,
      blocks.length, by simp [SchedulableSequence.appended, SchedulableSequence.registered], ?_⟩
    intro j id atJ
    simp only [SchedulableSequence.registered, List.getElem?_take] at atJ
    split at atJ
    · exact Or.inl (by simpa using atJ)
    · simp at atJ
  | revertSchedule =>
    obtain ⟨-, kept, -, -, rfl⟩ := SchedulableSequence.revertSchedule_cases done
    refine Or.inr ⟨rfl, 0, rfl, ?_⟩
    intro j id atJ
    simp only [List.getElem?_take] at atJ
    split at atJ
    · exact Or.inl (by simpa using atJ)
    · simp at atJ
  | padToBoundary =>
    obtain ⟨⟨_, _, _⟩, got, rfl, rfl⟩ := RequestKv.map_ok done
    obtain ⟨-, ⟨-, rfl, -, -⟩ | ⟨-, -, blocks, -, rfl⟩⟩ :=
      SchedulableSequence.padTailBlock_cases wf.settled got
    · exact Or.inr ⟨rfl, 0, rfl, fun j id atJ => Or.inl (by simpa using atJ)⟩
    · refine Or.inr ⟨rfl, blocks.length, by simp [SchedulableSequence.registered], ?_⟩
      intro j id atJ
      exact Or.inl (by simpa [SchedulableSequence.registered] using atJ)
  | adoptExternalPrefillAnchor =>
    obtain ⟨_, got, eq⟩ := RequestKv.map_ok done
    obtain ⟨-, -, -, -, -, rfl⟩ := SchedulableSequence.adoptExternalPrefillAnchor_cases got
    cases eq
    exact Or.inr ⟨rfl, 0, rfl, fun j id atJ => Or.inl (by simpa using atJ)⟩

end Calls

section Runs

variable {s s' : System H} {a : Action} {written : Written}

omit [DecidableEq H] [SequenceHashing H] in
theorem pendingWritten_nil {seq : SchedulableSequence H} (none : seq.unassigned = []) :
    PendingWritten seq written := by
  intro j id atJ
  simp [none] at atJ

omit [DecidableEq H] [SequenceHashing H] in
theorem owners_set {k : Nat} {holder : Holder H} {After : RequestKv H → Prop}
    (mine : ∀ request', holder = .request request' →
      (∃ request, .request request ∈ s.holders ∧ request'.seq = request.seq) ∨ After request') :
    ∀ request', .request request' ∈ s.holders.set k holder →
      (∃ request, .request request ∈ s.holders ∧ request'.seq = request.seq) ∨ After request' := by
  intro request' member
  rcases List.mem_or_eq_of_mem_set member with old | new
  · exact Or.inl ⟨request', old, rfl⟩
  · exact mine request' new.symm

/-- A move that registers nothing. -/
theorem RowsOk.quiet (ok : s.Ok) (rows : RowsOk s written) (size : s'.pool.blockSize = s.pool.blockSize)
    (gentle : Gentle (fun _ _ => False) s.pool.store s'.pool.store)
    (owners : ∀ request', .request request' ∈ s'.holders →
      (∃ request, .request request ∈ s.holders ∧ request'.seq = request.seq) ∨ request'.seq.unassigned = []) :
    RowsOk s' (s.written a s' written) := by
  refine rows.carry ok size gentle (fun id row => System.written_keeps) (by simp) ?_
  intro request' member
  rcases owners request' member with old | none
  · exact Or.inl old
  · exact Or.inr (pendingWritten_nil none)

theorem RowsOk.call (collisionFree : CollisionFree H) (ok : s.Ok) (rows : RowsOk s written)
    {k : Nat} {op : KvOp}
    {request : RequestKv H} {seq : SchedulableSequence H} {store : BlockStore H}
    (atK : s.holders[k]? = some (.request request)) (covers : op.Covers request.seq)
    (done : RequestKv.runOp request.seq s.pool.store op = .ok (seq, store))
    (same : s'.pool.store = store) (size : s'.pool.blockSize = s.pool.blockSize)
    (after : s'.holders = s.holders.set k (.request { request with seq })) :
    RowsOk s' (s.written (.call k op) s' written) := by
  obtain ⟨wf, blockSize⟩ := ok.request_at atK
  obtain ⟨rest, owned⟩ := ok.frame_at atK
  have gentle := runOp_gentle wf owned done
  have pages := runOp_pages wf done
  have atK' : s'.holders[k]? = some (.request { request with seq }) := by
    rw [after, List.getElem?_set_self (List.getElem?_eq_some_iff.mp atK).1]
  have member := List.mem_of_getElem? atK
  have page_written : ∀ j id row, request.seq.unassigned[j]? = some id → row < request.seq.blockSize →
      (request.seq.assigned.length + j) * request.seq.blockSize + row < op.reaches request.seq →
      (op.applies = true → seq.kvPosition = op.reaches request.seq) →
      ¬ (s'.pool.store.slots id = .mutable ∧ s.pool.store.slots id ≠ .mutable) →
      s.written (.call k op) s' written id row = true := by
    intro j id row atJ inside below reached kept
    by_cases old : (request.seq.assigned.length + j) * request.seq.blockSize + row < request.seq.kvPosition
    · exact System.written_keeps (rows.pending request member j id atJ row inside old) kept
    · have applies : op.applies = true := by
        cases op <;> first | rfl | exact absurd below old
      have place : ((request.seq.assigned.length + j) * request.seq.blockSize + row) / request.seq.blockSize =
          request.seq.assigned.length + j := by
        rw [Nat.mul_comm, Nat.mul_add_div wf.pos, Nat.div_eq_of_lt inside, Nat.add_zero]
      have offset : ((request.seq.assigned.length + j) * request.seq.blockSize + row) %
          request.seq.blockSize = row := by
        rw [Nat.mul_comm, Nat.mul_add_mod, Nat.mod_eq_of_lt inside]
      have page : request.seq.pages[request.seq.assigned.length + j]? = some id := by
        simp [SchedulableSequence.pages, wf.settled, List.getElem?_append_right, atJ]
      have row_written : rowsBetween request.seq seq id row = true := by
        simp only [rowsBetween, List.any_eq_true, List.mem_range, decide_eq_true_eq]
        exact ⟨_, by rw [reached applies]; exact below, by omega, by rw [place]; exact page, offset⟩
      simp [System.written, if_neg kept, atK, atK', applies, row_written]
  refine rows.carry ok size (same ▸ gentle) (fun id row => System.written_keeps) ?_ ?_
  · intro id salt tokens i bound named unpadded hash registered row inside
    rw [← blockSize] at bound named unpadded inside
    obtain ⟨j, atJ⟩ := List.mem_iff_getElem?.mp named
    rw [SchedulableSequence.pendingEntries, List.getElem?_zip_eq_some, List.getElem?_drop] at atJ
    obtain ⟨page, entry⟩ := atJ
    obtain ⟨short, name⟩ := sequenceHashes_get wf.pos entry
    obtain ⟨-, chain⟩ := collisionFree.injective _ _ _ _ name
    have length := congrArg List.length chain
    rw [List.length_take_of_le bound, List.length_take_of_le short] at length
    have index : i = request.seq.assigned.length + j := by
      have := Nat.eq_of_mul_eq_mul_right wf.pos length
      omega
    subst index
    have block : tokenBlock request.seq.blockSize tokens (request.seq.assigned.length + j) =
        tokenBlock request.seq.blockSize (op.naming request.seq) (request.seq.assigned.length + j) := by
      simp only [tokenBlock, chain]
    rw [block] at unpadded
    have present : j < request.seq.unassigned.length := (List.getElem?_eq_some_iff.mp page).1
    have reach : (request.seq.assigned.length + j + 1) * request.seq.blockSize ≤ op.reaches request.seq := by
      refine (covers.2 _ ?_ (by omega) short).resolve_right unpadded
      unfold SchedulableSequence.heldBlocks
      omega
    refine page_written j id row page inside ?_ ?_ ?_
    · rw [Nat.add_mul, Nat.one_mul] at reach
      omega
    · intro applies
      rcases pages with ⟨never, -⟩ | ⟨reached, -⟩
      · simp [never] at applies
      · exact reached
    · rintro ⟨handed, -⟩
      rw [handed] at registered
      simp [SlotState.RegisteredAs] at registered
  · rw [after]
    refine owners_set ?_
    rintro request' ⟨⟩
    refine Or.inr ?_
    rcases pages with ⟨-, none⟩ | ⟨reached, n, length, pages⟩
    · exact pendingWritten_nil none
    · intro j id atJ row inside below
      have size' := RequestKv.runOp_blockSize wf done
      simp only [size', length] at inside below
      rw [reached] at below
      rcases pages j id atJ with old | ⟨drawn, rfl, past⟩
      · have kept := gentle.keeps owned (mem_ids_of_unassigned (List.mem_of_getElem? old))
        rw [← same] at kept
        exact page_written (n + j) id row old inside (by rwa [Nat.add_assoc] at below) (fun _ => reached) kept
      · have within := covers.1 drawn
        have still : op.reaches request.seq = request.seq.kvPosition := by
          cases op <;> first | rfl | simp [KvOp.draws] at drawn
        have place : request.seq.heldBlocks * request.seq.blockSize ≤
            (request.seq.assigned.length + 0 + j) * request.seq.blockSize := by
          apply Nat.mul_le_mul_right
          unfold SchedulableSequence.heldBlocks
          rw [wf.settled, List.length_nil]
          omega
        omega

theorem RowsOk.moved (collisionFree : CollisionFree H) (ok : s.Ok) (rows : RowsOk s written)
    (covered : CoveredCalls s a = true) (moved : Moved s a s') : RowsOk s' (s.written a s' written) := by
  have still : ∀ store : BlockStore H, Gentle (fun _ _ => False) store store :=
    fun store => gentle_of_quiet (.refl store)
  have kept : ∀ request', .request request' ∈ s.holders →
      (∃ request, .request request ∈ s.holders ∧ request'.seq = request.seq) ∨ request'.seq.unassigned = [] :=
    fun request' member => Or.inl ⟨request', member, rfl⟩
  cases moved with
  | newRequest prompt maxOutputTokens salt =>
    refine rows.quiet ok rfl (still _) ?_
    intro request' member
    rcases List.mem_append.mp member with old | new
    · exact kept request' old
    · cases List.mem_singleton.mp new
      exact Or.inr rfl
  | evictInactive => exact rows.quiet ok rfl (gentle_of_quiet (BlockStore.quiet_evictInactive _)) kept
  | admitAgain atK admitted => exact rows.quiet ok rfl (still _) kept
  | admitRead gate atK fresh => exact rows.quiet ok rfl (still _) kept
  | admitGranted gate atK granted =>
    refine rows.quiet ok rfl (still _) (owners_set ?_)
    rintro request' ⟨⟩
    exact Or.inl ⟨_, List.mem_of_getElem? atK, rfl⟩
  | admitRefused gate atK => exact rows.quiet ok rfl (still _) kept
  | call atK passes done =>
    have settled := (ok.request_at atK).1.settled
    simp only [CoveredCalls, atK, KvOp.not_refused settled done, Bool.false_or, decide_eq_true_eq] at covered
    exact rows.call collisionFree ok atK covered done rfl rfl rfl
  | callFailed atK passes failed calm => exact rows.quiet ok rfl (still _) kept
  | @retire k request atK owned =>
    obtain ⟨store, size, seq⟩ := System.retire_unchanged request s.pool
    refine rows.quiet ok size (by simp only [store]; exact still _) (owners_set ?_)
    rintro request' ⟨⟩
    exact Or.inl ⟨request, List.mem_of_getElem? atK, seq⟩
  | release atK retired owned done =>
    obtain ⟨rest, all⟩ := ok.frame_at atK
    obtain ⟨-, rfl, rfl⟩ := SchedulableSequence.release_cases done
    refine rows.quiet ok rfl (gentle_of_quiet (SchedulableSequence.quiet_dropBlocks all)) (owners_set ?_)
    rintro request' ⟨⟩
    exact Or.inr rfl
  | releaseFailed atK failed => exact rows.quiet ok rfl (still _) kept
  | dropRequest atK retired owned =>
    obtain ⟨rest, all⟩ := ok.frame_at atK
    exact rows.quiet ok rfl (gentle_of_quiet (SchedulableSequence.quiet_dropBlocks all))
      (owners_set (by simp))
  | dropProbe atK =>
    obtain ⟨rest, all⟩ := ok.frame_at atK
    exact rows.quiet ok rfl (gentle_of_quiet (all.quiet_dropAllImmutable _)) (owners_set (by simp))
  | dropReservation atK =>
    exact rows.quiet ok rfl (gentle_of_quiet (BlockStore.quiet_releaseAllMutable _ _)) (owners_set (by simp))
  | probe prompt salt =>
    refine rows.quiet ok rfl (gentle_of_quiet (ok.owned.quiet_match _)) ?_
    intro request' member
    rcases List.mem_append.mp member with old | new
    · exact kept request' old
    · cases List.mem_singleton.mp new
  | includeFinal atK => exact rows.quiet ok rfl (still _) (owners_set (by simp))
  | @truncate k blocks probe atK =>
    obtain ⟨rest, all⟩ := ok.frame_at atK
    rw [Holder.holding, ← List.take_append_drop blocks probe.held, Holding.blocks_append,
      add_comm (Holding.blocks _),
      add_assoc] at all
    exact rows.quiet ok rfl (gentle_of_quiet (all.quiet_dropAllImmutable _)) (owners_set (by simp))
  | reserveRead gate => exact rows.quiet ok rfl (still _) kept
  | reserveRefused gate => exact rows.quiet ok rfl (still _) kept
  | reserveGranted gate above => exact rows.quiet ok rfl (still _) kept
  | reserveFailed gate => exact rows.quiet ok rfl (still _) kept
  | reserveTake gate alloc =>
    refine rows.quiet ok rfl (gentle_allocate ok.owned alloc) ?_
    intro request' member
    rcases List.mem_append.mp member with old | new
    · exact kept request' old
    · cases List.mem_singleton.mp new
  | commit atP atR done => simp [CoveredCalls] at covered

theorem RowsOk.new (collisionFree : CollisionFree H) {blockSize numBlocks : Nat}
    (made : System.new blockSize numBlocks = some s) : RowsOk s fun _ _ => false := by
  obtain ⟨fresh, store, id, block, alloc, register, rfl⟩ := System.new_cases made
  refine ⟨?_, by simp⟩
  intro other salt tokens i bound registered
  have empty := BlockStore.ok_new (H := H) numBlocks
  have handed := BlockStore.transfers_allocate alloc 0 (by simpa using empty)
  have staged := BlockStore.transfers_staged fresh id SequenceHashing.default 0 handed
  have quiet : BlockStore.Quiet (fun _ hash => hash = SequenceHashing.default) _ store :=
    staged.quiet_register register rfl
  have staging : BlockStore.Quiet (fun _ _ => False) fresh _ :=
    BlockStore.quiet_staged fresh id SequenceHashing.default
  have handing : Gentle (fun _ _ => False) _ fresh := gentle_allocate empty alloc
  rcases (quiet other).2 _ registered with old | padding
  · rcases (staging other).2 _ old with old | never
    · rcases (handing other).2 _ old with old | never
      · simp [SlotState.RegisteredAs, BlockStore.new] at old
      · exact never.elim
    · exact never.elim
  · exact absurd padding (collisionFree.fresh _ _)

theorem WrittenReach.ok {allowed : System H → Action → Bool} {blockSize numBlocks : Nat} (pos : 0 < blockSize)
    (reach : WrittenReach allowed blockSize numBlocks s written) : s.Ok := by
  induction reach with
  | start made => exact .new pos made
  | next before permitted went ih => exact ih.moved (System.step_moved went)

/-- In a run of covered calls every block registered for a token block
without pads has all its rows written, and so has every such block a request
was handed, matched or its own. -/
theorem WrittenReach.registered_rows_written (collisionFree : CollisionFree H) {blockSize numBlocks : Nat}
    (pos : 0 < blockSize) (reach : WrittenReach CoveredCalls blockSize numBlocks s written) :
    RegisteredWritten s written ∧
      ∀ request, .request request ∈ s.holders → ∀ i block, request.seq.assigned[i]? = some block →
        padTokenId ∉ tokenBlock s.pool.blockSize request.seq.tokens i →
        ∀ row < s.pool.blockSize, written block.blockId row = true := by
  have ok := reach.ok pos
  have rows : RowsOk s written := by
    clear ok
    induction reach with
    | start made => exact .new collisionFree made
    | next before permitted went ih =>
      exact ih.moved collisionFree (before.ok pos) permitted (System.step_moved went)
  refine ⟨rows.registered, ?_⟩
  intro request member i block atI unpadded
  obtain ⟨wf, size⟩ := ok.requests request member
  obtain ⟨bound, name⟩ := wf.named i block atI
  obtain ⟨rest, split⟩ := heldByAll_mem Holder.holding member
  obtain ⟨others, guards⟩ := Holding.blocks_mem (List.mem_of_getElem? atI)
  have owned := ok.owned
  rw [split, Holder.holding, SchedulableSequence.holding, guards, add_assoc, add_assoc] at owned
  have registered : (s.pool.store.slots block.blockId).RegisteredAs block.hash := by
    rcases owned.slot_of_block.1 with primary | duplicate
    · exact Or.inl primary
    · exact Or.inr (Or.inl duplicate)
  rw [name, size] at registered
  exact rows.registered block.blockId request.seq.salt request.seq.tokens i (size ▸ bound) registered unpadded

theorem written_run_reaches {allowed : System H → Action → Bool} {blockSize numBlocks : Nat}
    {actions : List Action}
    {final : System H × Written}
    (ran : ((System.new blockSize numBlocks : Option (System H)).bind fun s =>
      s.writtenRun allowed (fun _ _ => false) actions) = some final) :
    WrittenReach allowed blockSize numBlocks final.1 final.2 := by
  obtain ⟨s, made, ran⟩ := Option.bind_eq_some_iff.mp ran
  exact (WrittenReach.start made).run ran

end Runs

/-- A whole prompt prefilled in one chunk. -/
def wholePrefill : Option (System ChainKey × Written) :=
  (System.new 2 4).bind fun s => s.writtenRun CoveredCalls (fun _ _ => false)
    [.newRequest [1, 2] 2 (some 0), .call 1 .matchAndAddPrefix, .call 1 (.schedulePrefill 2),
      .call 1 (.applyPrefill 9)]

theorem WrittenReach.registered_rows_written_whole_prefill :
    ∃ s written, WrittenReach CoveredCalls 2 4 s written ∧
      s.pool.store.slots 1 = .primary (SequenceHashing.sequenceHash (some 0) [1, 2] : ChainKey) ∧
      RegisteredWritten s written := by
  have shape : wholePrefill.map (fun final => final.1.pool.store.slots 1) =
      some (.primary (SequenceHashing.sequenceHash (some 0) [1, 2])) := by decide +kernel
  obtain ⟨final, ran, slot⟩ := Option.map_eq_some_iff.mp shape
  have reach := written_run_reaches ran
  exact ⟨final.1, final.2, reach, slot,
    (WrittenReach.registered_rows_written chainKey_collisionFree (by decide) reach).1⟩

/-- A first chunk that ends inside a page. -/
def splitPage : Option (System ChainKey × Written) :=
  (System.new 2 4).bind fun s => s.writtenRun KvCalls (fun _ _ => false)
    [.newRequest [1, 2] 2 (some 0), .call 1 (.schedulePrefill 1), .call 1 .applyPrefillChunk]

/-- The chunk computes one row of the page and registers it whole. -/
theorem WrittenReach.split_page_registered_unwritten :
    ¬ ∀ (s : System ChainKey) (written : Written), WrittenReach KvCalls 2 4 s written →
      RegisteredWritten s written := by
  intro sound
  have shape : splitPage.map (fun final =>
    (final.1.pool.store.slots 1, final.1.pool.blockSize, final.2 1 1)) =
      some (.primary (SequenceHashing.sequenceHash (some 0) [1, 2]), 2, false) := by decide +kernel
  obtain ⟨final, ran, shape⟩ := Option.map_eq_some_iff.mp shape
  simp only [Prod.mk.injEq] at shape
  obtain ⟨slot, size, unwritten⟩ := shape
  have rows := sound final.1 final.2 (written_run_reaches ran) 1 (some 0) [1, 2] 0
  rw [size] at rows
  have row := rows (by decide) (Or.inl slot) (by decide) 1 (by decide)
  simp [unwritten] at row

end PegaInfer.KvStore
