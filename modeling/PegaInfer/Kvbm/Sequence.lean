import PegaInfer.Kvbm.Store

namespace PegaInfer.Kvbm

abbrev SaltHash := UInt64

/-- The lineage hash of a token block: a function of the salt and of every
token up to the block's end. `default` names the padding block. -/
class SequenceHashing (H : Type) where
  sequenceHash : Option SaltHash → List Token → H
  default : H

/-- `all_sequence_hashes`: one hash per complete block of the chain. -/
def sequenceHashes {H : Type} [SequenceHashing H] (blockSize : Nat) (salt : Option SaltHash)
    (tokens : List Token) :
    List H :=
  (List.range (tokens.length / blockSize)).map fun i =>
    SequenceHashing.sequenceHash salt (tokens.take ((i + 1) * blockSize))

/-- Block hashes do not collide, and none is the padding block's. -/
structure CollisionFree (H : Type) [SequenceHashing H] : Prop where
  injective : ∀ salt tokens salt' tokens',
    (SequenceHashing.sequenceHash salt tokens : H) = SequenceHashing.sequenceHash salt' tokens' →
      salt = salt' ∧ tokens = tokens'
  fresh : ∀ salt tokens, (SequenceHashing.sequenceHash salt tokens : H) ≠ SequenceHashing.default

/-- A hash that keeps the chain it names. -/
structure ChainKey where
  chain : Option (Option SaltHash × List Token)
  deriving DecidableEq

instance : SequenceHashing ChainKey where
  sequenceHash salt tokens := ⟨some (salt, tokens)⟩
  default := ⟨none⟩

theorem chainKey_collisionFree : CollisionFree ChainKey where
  injective salt tokens salt' tokens' same := by
    simpa [SequenceHashing.sequenceHash] using same
  fresh salt tokens := by simp [SequenceHashing.sequenceHash, SequenceHashing.default]

inductive SequenceState
  | idle
  | prefillScheduled (numTokens blocksAllocated : Nat)
  | decodeScheduled (blocksAllocated : Nat)
  | speculativeScheduled (numTokens blocksAllocated : Nat)
  deriving DecidableEq

inductive DecodeOutcome
  | continue
  | blockCompleted
  | maxLength
  | blockCompletedAndMaxLength
  deriving DecidableEq

inductive ScheduleError
  | notIdle (state : SequenceState)
  | prefillOverrun (position numTokens numInputTokens : Nat)
  | prefillComplete
  | prefillNotComplete (position numInputTokens : Nat)
  | allocationFailed (needed : Nat)
  | generationComplete (generated maxOutput : Nat)
  | wrongDanglingCount (expected actual : Nat)
  deriving DecidableEq

inductive ApplyError
  | wrongState (expected : String) (actual : SequenceState)
  | tokenOnNonFinalChunk
  | acceptedExceedsScheduled (accepted scheduled : Nat)
  | missingTokenOnFinalChunk
  | invalidExternalPrefillAnchor
      (prefillPosition kvPosition numInputTokens tailTokens remainingOutput : Nat)
  deriving DecidableEq

/-- How a sequence operation fails. Every error is returned before anything
has changed. -/
inductive Fault
  | schedule (error : ScheduleError)
  | apply (error : ApplyError)
  | panicked
  deriving DecidableEq

/-- `SchedulableSequence` with the `RequestSequence` it wraps. The three lists
are `LogicalBlockAssignments` in insertion order. -/
structure SchedulableSequence (H : Type) where
  blockSize : Nat
  tokens : List Token
  salt : Option SaltHash
  assigned : List (ImmutableBlock H)
  staged : List (BlockId × H)
  unassigned : List BlockId
  generatedTokens : Nat
  maxOutputTokens : Nat
  numInputTokens : Nat
  prefixMatchedBlocks : Nat
  state : SequenceState
  prefillPosition : Nat
  kvPosition : Nat
  deriving DecidableEq

namespace SchedulableSequence

variable {H : Type}

def new (tokens : List Token) (maxOutputTokens blockSize : Nat) (salt : Option SaltHash) :
    SchedulableSequence H :=
  { blockSize, tokens, salt, assigned := [], staged := [], unassigned := [], generatedTokens := 0,
    maxOutputTokens,
    numInputTokens := tokens.length, prefixMatchedBlocks := 0, state :=
      .idle, prefillPosition := 0, kvPosition := 0 }

def totalTokens (seq : SchedulableSequence H) : Nat := seq.tokens.length

/-- `complete_sequence_blocks`. -/
def numBlocks (seq : SchedulableSequence H) : Nat := seq.tokens.length / seq.blockSize

def hashes [SequenceHashing H] (seq : SchedulableSequence H) : List H :=
  sequenceHashes seq.blockSize seq.salt seq.tokens

def heldBlocks (seq : SchedulableSequence H) : Nat :=
  seq.assigned.length + seq.staged.length + seq.unassigned.length

/-- `all_block_ids`. -/
def pages (seq : SchedulableSequence H) : List BlockId :=
  seq.assigned.map ImmutableBlock.blockId ++ seq.staged.map Prod.fst ++ seq.unassigned

def remainingTokens (seq : SchedulableSequence H) : Nat := seq.maxOutputTokens - seq.generatedTokens

def tailTokens (seq : SchedulableSequence H) : Nat := seq.totalTokens - seq.kvPosition

def isPrefillComplete (seq : SchedulableSequence H) : Bool :=
  decide (seq.numInputTokens ≤ seq.prefillPosition)

def isComplete (seq : SchedulableSequence H) : Bool := decide (seq.maxOutputTokens ≤ seq.generatedTokens)

/-- `allocate_blocks`. The ids are new to the sequence, so the duplicate check
of `extend_blocks` passes. -/
def allocateBlocks (seq : SchedulableSequence H) (count : Nat) (store : BlockStore H) :
    Option (SchedulableSequence H × BlockStore H) :=
  if count = 0 then some (seq, store)
  else
    match store.allocateAtomic count with
    | none => none
    | some (store', ids) => some ({ seq with unassigned := seq.unassigned ++ ids }, store')

/-- `append_token`: the budget is asserted; the index of a block this
completes is returned. -/
def appendToken (seq : SchedulableSequence H) (token : Token) : Option (SchedulableSequence H × Option Nat) :=
  if seq.generatedTokens < seq.maxOutputTokens then
    some
      ({ seq with tokens := seq.tokens ++ [token], generatedTokens := seq.generatedTokens + 1 },
        if (seq.totalTokens + 1) % seq.blockSize = 0 then some (seq.totalTokens / seq.blockSize) else none)
  else none

/-- The append loop of `apply_speculative`, with whether a block was
completed. -/
def appendAccepted (seq : SchedulableSequence H) : List Token → Option (SchedulableSequence H × Bool)
  | [] => some (seq, false)
  | token :: tokens =>
    match seq.appendToken token with
    | none => none
    | some (seq', crossed) =>
      match seq'.appendAccepted tokens with
      | none => none
      | some (seq'', completed) => some (seq'', crossed.isSome || completed)

section Assignments

variable [DecidableEq H] [SequenceHashing H]

/-- `stage_pending`: complete token blocks without a block of their own take
unassigned blocks, oldest first. -/
def stagePending (seq : SchedulableSequence H) (store : BlockStore H) :
    SchedulableSequence H × BlockStore H :=
  let start := seq.assigned.length + seq.staged.length
  let entries := seq.unassigned.zip (seq.hashes.drop start)
  ({ seq with staged := seq.staged ++ entries, unassigned := seq.unassigned.drop entries.length },
    entries.foldl (fun store entry => store.transitionToStaged entry.1 entry.2) store)

/-- The loop of `register`. -/
def registerBlocks (store : BlockStore H) : List (BlockId × H) →
    Option (BlockStore H × List (ImmutableBlock H))
  | [] => some (store, [])
  | (id, hash) :: entries =>
    match store.registerCompletedBlock id hash with
    | none => none
    | some (store', block) =>
      match registerBlocks store' entries with
      | none => none
      | some (store'', blocks) => some (store'', block :: blocks)

/-- `register_staged`. -/
def registerStaged (seq : SchedulableSequence H) (store : BlockStore H) :
    Option (SchedulableSequence H × BlockStore H) :=
  match registerBlocks store seq.staged with
  | none => none
  | some (store', blocks) => some ({ seq with assigned := seq.assigned ++ blocks, staged := [] }, store')

def completeAndRegisterPending (seq : SchedulableSequence H) (store : BlockStore H) :
    Option (SchedulableSequence H × BlockStore H) :=
  let (seq', store') := seq.stagePending store
  seq'.registerStaged store'

/-- `lifo_pop_unassigned`. -/
def lifoPopUnassigned (seq : SchedulableSequence H) (count : Nat) (store : BlockStore H) :
    SchedulableSequence H × BlockStore H :=
  let kept := seq.unassigned.length - count
  ({ seq with unassigned := seq.unassigned.take kept },
    store.releaseAllMutable (seq.unassigned.drop kept).reverse)

/-- `lifo_drop_excess_unassigned`: one generation block is kept until the
budget is spent. -/
def lifoDropExcessUnassigned (seq : SchedulableSequence H) (store : BlockStore H) :
    SchedulableSequence H × BlockStore H :=
  let needGen := if seq.isComplete then 0 else 1
  seq.lifoPopUnassigned (seq.unassigned.length - needGen) store

/-- `match_and_add_prefix`; the number of blocks added is returned. Existing
assignments and a block matched twice are panics. -/
def matchAndAddPrefix (seq : SchedulableSequence H) (store : BlockStore H) :
    Except Fault (SchedulableSequence H × BlockStore H × Nat) :=
  if seq.state ≠ .idle then .error (.schedule (.notIdle seq.state))
  else if seq.heldBlocks ≠ 0 then .error .panicked
  else
    let maxBlocks := (seq.numInputTokens - 1) / seq.blockSize
    let (matchedStore, found) := store.matchBlocks seq.hashes
    let matched := found.take maxBlocks
    let store' := matchedStore.dropAllImmutable (found.drop maxBlocks)
    if ¬ (matched.map ImmutableBlock.blockId).Nodup then .error .panicked
    else
      let count := matched.length
      let prefillPosition := seq.prefillPosition + count * seq.blockSize
      .ok
        ({ seq with
            assigned := matched
            prefixMatchedBlocks := seq.prefixMatchedBlocks + count
            prefillPosition
            kvPosition := if count > 0 then prefillPosition else seq.kvPosition }, store', count)

def schedulePrefill (seq : SchedulableSequence H) (numTokens : Nat) (store : BlockStore H) :
    Except Fault (SchedulableSequence H × BlockStore H) :=
  if seq.state ≠ .idle then .error (.schedule (.notIdle seq.state))
  else if seq.isPrefillComplete then .error (.schedule .prefillComplete)
  else
    let newPosition := seq.prefillPosition + numTokens
    if newPosition > seq.numInputTokens then
      .error (.schedule (.prefillOverrun seq.prefillPosition numTokens seq.numInputTokens))
    else
      let toAllocate := newPosition ⌈/⌉ seq.blockSize - seq.heldBlocks
      match seq.allocateBlocks toAllocate store with
      | none => .error (.schedule (.allocationFailed toAllocate))
      | some (seq', store') => .ok ({ seq' with state := .prefillScheduled numTokens toAllocate }, store')

/-- `apply_prefill`; the pool passes a token on the final chunk only. -/
def applyPrefill (seq : SchedulableSequence H) (token : Option Token) (store : BlockStore H) :
    Except Fault (SchedulableSequence H × BlockStore H) :=
  match seq.state with
  | .prefillScheduled numTokens _ =>
    let newPosition := seq.prefillPosition + numTokens
    if token.isSome ∧ newPosition < seq.numInputTokens then .error (.apply .tokenOnNonFinalChunk)
    else if seq.numInputTokens ≤ newPosition ∧ token.isNone ∧ 0 < seq.maxOutputTokens then
      .error (.apply .missingTokenOnFinalChunk)
    else
      match seq.completeAndRegisterPending store with
      | none => .error .panicked
      | some (registered, store') =>
        let advanced := { registered with prefillPosition := newPosition, kvPosition := newPosition }
        match token with
        | none => .ok ({ advanced with state := .idle }, store')
        | some token =>
          match advanced.appendToken token with
          | none => .error .panicked
          | some (emitted, _) => .ok ({ emitted with state := .idle }, store')
  | other => .error (.apply (.wrongState "PrefillScheduled" other))

/-- The checks `schedule_decode` and `schedule_speculative` start with, in
their order. -/
def generationFault (seq : SchedulableSequence H) : Option ScheduleError :=
  if seq.state ≠ .idle then some (.notIdle seq.state)
  else if ¬ seq.isPrefillComplete then some (.prefillNotComplete seq.prefillPosition seq.numInputTokens)
  else if seq.isComplete then some (.generationComplete seq.generatedTokens seq.maxOutputTokens)
  else if seq.tailTokens ≠ 1 then some (.wrongDanglingCount 1 seq.tailTokens)
  else none

def scheduleDecode (seq : SchedulableSequence H) (store : BlockStore H) :
    Except Fault (SchedulableSequence H × BlockStore H) :=
  match seq.generationFault with
  | some error => .error (.schedule error)
  | none =>
    let pending := seq.numBlocks - (seq.assigned.length + seq.staged.length)
    let toAllocate := pending + 1 - seq.unassigned.length
    match seq.allocateBlocks toAllocate store with
    | none => .error (.schedule (.allocationFailed toAllocate))
    | some (seq', store') => .ok ({ seq' with state := .decodeScheduled toAllocate }, store')

def outcome (seq : SchedulableSequence H) (blockCompleted : Bool) : DecodeOutcome :=
  match blockCompleted, seq.isComplete with
  | false, false => .continue
  | true, false => .blockCompleted
  | false, true => .maxLength
  | true, true => .blockCompletedAndMaxLength

def applyDecode (seq : SchedulableSequence H) (token : Token) (store : BlockStore H) :
    Except Fault (SchedulableSequence H × BlockStore H × DecodeOutcome) :=
  match seq.state with
  | .decodeScheduled _ =>
    match seq.appendToken token with
    | none => .error .panicked
    | some (appended, crossed) =>
      match appended.completeAndRegisterPending store with
      | none => .error .panicked
      | some (registered, store') =>
        .ok ({ registered with kvPosition := registered.kvPosition + 1, state := .idle }, store',
          registered.outcome crossed.isSome)
  | other => .error (.apply (.wrongState "DecodeScheduled" other))

def scheduleSpeculative (seq : SchedulableSequence H) (numDraftTokens : Nat) (store : BlockStore H) :
    Except Fault (SchedulableSequence H × BlockStore H) :=
  match seq.generationFault with
  | some error => .error (.schedule error)
  | none =>
    let numTokens := min numDraftTokens seq.remainingTokens
    let toAllocate := (seq.totalTokens + numTokens) ⌈/⌉ seq.blockSize - seq.heldBlocks
    match seq.allocateBlocks toAllocate store with
    | none => .error (.schedule (.allocationFailed toAllocate))
    | some (seq', store') => .ok ({ seq' with state := .speculativeScheduled numTokens toAllocate }, store')

def applySpeculative (seq : SchedulableSequence H) (accepted : List Token) (store : BlockStore H) :
    Except Fault (SchedulableSequence H × BlockStore H × DecodeOutcome) :=
  match seq.state with
  | .speculativeScheduled scheduled _ =>
    if accepted.length > scheduled then .error (.apply (.acceptedExceedsScheduled accepted.length scheduled))
    else
      match seq.appendAccepted accepted with
      | none => .error .panicked
      | some (appended, blockCompleted) =>
        match appended.completeAndRegisterPending store with
        | none => .error .panicked
        | some (registered, store') =>
          let advanced := { registered with kvPosition := registered.kvPosition + accepted.length }
          let (trimmed, store'') := advanced.lifoDropExcessUnassigned store'
          .ok ({ trimmed with state := .idle }, store'', trimmed.outcome blockCompleted)
  | other => .error (.apply (.wrongState "SpeculativeScheduled" other))

def revertSchedule (seq : SchedulableSequence H) (store : BlockStore H) :
    Except Fault (SchedulableSequence H × BlockStore H) :=
  let revert (blocks : Nat) :=
    let (popped, store') := seq.lifoPopUnassigned blocks store
    Except.ok ({ popped with state := .idle }, store')
  match seq.state with
  | .prefillScheduled _ blocks => revert blocks
  | .decodeScheduled blocks => revert blocks
  | .speculativeScheduled _ blocks => revert blocks
  | .idle => .error (.apply (.wrongState "any Scheduled state" .idle))

/-- The blocks of a sequence drop: the assigned ones, then the staged, then
the unassigned (`LogicalBlockAssignments::clear`, and the drop of the value). -/
def dropBlocks (seq : SchedulableSequence H) (store : BlockStore H) : BlockStore H :=
  ((store.dropAllImmutable seq.assigned).releaseAllMutable
    (seq.staged.map Prod.fst)).releaseAllMutable seq.unassigned

def release (seq : SchedulableSequence H) (store : BlockStore H) :
    Except Fault (SchedulableSequence H × BlockStore H) :=
  if seq.state ≠ .idle then .error (.apply (.wrongState "Idle" seq.state))
  else .ok ({ seq with assigned := [], staged := [], unassigned := [] }, seq.dropBlocks store)

/-- `pad_tail_block`; the number of pads appended is returned. -/
def padTailBlock (seq : SchedulableSequence H) (pad : Token) (store : BlockStore H) :
    Except Fault (SchedulableSequence H × BlockStore H × Nat) :=
  if seq.state ≠ .idle then .error (.apply (.wrongState "Idle" seq.state))
  else if seq.kvPosition % seq.blockSize = 0 then .ok (seq, store, 0)
  else
    let appended := seq.totalTokens ⌈/⌉ seq.blockSize * seq.blockSize - seq.totalTokens
    let padded := { seq with tokens := seq.tokens ++ List.replicate appended pad }
    match padded.completeAndRegisterPending store with
    | none => .error .panicked
    | some (registered, store') => .ok (registered, store', appended)

def adoptExternalPrefillAnchor (seq : SchedulableSequence H) : Except Fault (SchedulableSequence H) :=
  if seq.state ≠ .idle then .error (.apply (.wrongState "Idle" seq.state))
  else if
    seq.prefillPosition = seq.kvPosition ∧ seq.prefillPosition + 1 = seq.numInputTokens ∧ seq.tailTokens = 1 ∧
      0 < seq.remainingTokens
  then
    .ok { seq with numInputTokens := seq.numInputTokens - 1, generatedTokens := seq.generatedTokens + 1 }
  else
    .error (.apply (.invalidExternalPrefillAnchor seq.prefillPosition seq.kvPosition
      seq.numInputTokens seq.tailTokens
      seq.remainingTokens))

end Assignments

end SchedulableSequence

end PegaInfer.Kvbm
