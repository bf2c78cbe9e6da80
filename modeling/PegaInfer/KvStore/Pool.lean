import PegaInfer.Kvbm.Sequence

namespace PegaInfer.KvStore

open PegaInfer.Kvbm

/-- Fills a handoff chain to the page boundary; no vocabulary has it. -/
def padTokenId : Token := 4294967295

/-- `BlockPool`: the block manager's store and the entitled counter. The
reserve gate belongs to the system that runs pool calls. -/
structure BlockPool (H : Type) where
  blockSize : Nat
  store : BlockStore H
  entitled : Int

/-- `RequestKv` with its `EntitledSeq`. -/
structure RequestKv (H : Type) where
  seq : SchedulableSequence H
  admitted : Bool
  lifetimeBlocks : Nat

/-- `PrefixProbe`. -/
structure PrefixProbe (H : Type) where
  seqHashes : List H
  gpuHit : Nat
  cacheable : Nat
  held : List (ImmutableBlock H)

/-- The calls on a `RequestKv` that go through `with_draw`. -/
inductive KvOp
  | matchAndAddPrefix
  | schedulePrefill (numTokens : Nat)
  | scheduleDecode
  | scheduleSpeculative (numDraftTokens : Nat)
  | applyPrefill (token : Token)
  | applyPrefillChunk
  | applyDecode (token : Token)
  | applySpeculative (accepted : List Token)
  | revertSchedule
  | padToBoundary
  | adoptExternalPrefillAnchor
  deriving DecidableEq

variable {H : Type}

namespace BlockPool

variable [DecidableEq H] [SequenceHashing H]

/-- `BlockPool::new`: block 0 is registered under the default hash and its
guard leaked. -/
def new (blockSize numBlocks : Nat) : Option (BlockPool H × ImmutableBlock H) :=
  match (BlockStore.new numBlocks : BlockStore H).allocateAtomic 1 with
  | some (store, [padding]) =>
    match (store.transitionToStaged padding SequenceHashing.default).registerCompletedBlock padding
        SequenceHashing.default with
    | some (store', block) => some ({ blockSize, store := store', entitled := 0 }, block)
    | none => none
  | _ => none

def availableBlocks (pool : BlockPool H) : Nat := pool.store.availableBlocks

def entitledBlocks (pool : BlockPool H) : Nat := pool.entitled.toNat

def newRequest (pool : BlockPool H) (prompt : List Token) (maxOutputTokens : Nat) (salt : Option SaltHash) :
    RequestKv H :=
  { seq := .new prompt maxOutputTokens pool.blockSize salt
    admitted := false
    lifetimeBlocks := (prompt.length + maxOutputTokens) ⌈/⌉ pool.blockSize }

/-- `probe_prefix_with_cache_salt`: pin every leading block of the prompt's
chain that a pool still has. -/
def probePrefix (pool : BlockPool H) (prompt : List Token) (salt : Option SaltHash) :
    BlockPool H × PrefixProbe H :=
  let seqHashes := sequenceHashes pool.blockSize salt prompt
  let (store, held) := pool.store.matchBlocks seqHashes
  ({ pool with store },
    { seqHashes, gpuHit := held.length, cacheable := (prompt.length - 1) / pool.blockSize, held })

/-- `commit_loaded_blocks`: the i-th block registers under the i-th hash past
the GPU hit. Indexing past the chain is a panic. -/
def commitBlocks (store : BlockStore H) (hashes : List H) :
    List BlockId → Option (BlockStore H × List (ImmutableBlock H))
  | [] => some (store, [])
  | id :: ids =>
    match hashes with
    | [] => none
    | hash :: hashes =>
      match (store.transitionToStaged id hash).registerCompletedBlock id hash with
      | none => none
      | some (store', block) =>
        match commitBlocks store' hashes ids with
        | none => none
        | some (store'', blocks) => some (store'', block :: blocks)

def commitLoadedBlocks (pool : BlockPool H) (probe : PrefixProbe H) (reserved : List BlockId) :
    Option (BlockPool H × PrefixProbe H) :=
  match commitBlocks pool.store (probe.seqHashes.drop probe.gpuHit) reserved with
  | none => none
  | some (store, blocks) => some ({ pool with store }, { probe with held := probe.held ++ blocks })

end BlockPool

namespace PrefixProbe

/-- `cpu_query_hashes`. -/
def cpuQueryHashes (probe : PrefixProbe H) : List H :=
  if probe.gpuHit ≥ probe.cacheable then []
  else (probe.seqHashes.take probe.cacheable).drop probe.gpuHit

/-- `include_final_block`. -/
def includeFinalBlock (probe : PrefixProbe H) : PrefixProbe H :=
  { probe with cacheable := probe.seqHashes.length }

end PrefixProbe

namespace RequestKv

/-- `remaining`: what the request is still owed. -/
def remaining (request : RequestKv H) : Int := request.lifetimeBlocks - request.seq.heldBlocks

def kvPosition (request : RequestKv H) : Nat := request.seq.kvPosition

/-- `step_page_indices`. -/
def stepPageIndices (request : RequestKv H) (newTokens : Nat) : List BlockId :=
  request.seq.pages.take ((request.seq.kvPosition + newTokens) ⌈/⌉ request.seq.blockSize)

variable [DecidableEq H] [SequenceHashing H]

/-- What a call does to the sequence and the store, its result dropped. -/
def runOp (seq : SchedulableSequence H) (store : BlockStore H) :
    KvOp → Except Fault (SchedulableSequence H × BlockStore H)
  | .matchAndAddPrefix => (seq.matchAndAddPrefix store).map fun done => (done.1, done.2.1)
  | .schedulePrefill numTokens => seq.schedulePrefill numTokens store
  | .scheduleDecode => seq.scheduleDecode store
  | .scheduleSpeculative numDraftTokens => seq.scheduleSpeculative numDraftTokens store
  | .applyPrefill token => seq.applyPrefill (some token) store
  | .applyPrefillChunk => seq.applyPrefill none store
  | .applyDecode token => (seq.applyDecode token store).map fun done => (done.1, done.2.1)
  | .applySpeculative accepted => (seq.applySpeculative accepted store).map fun done => (done.1, done.2.1)
  | .revertSchedule => seq.revertSchedule store
  | .padToBoundary => (seq.padTailBlock padTokenId store).map fun done => (done.1, done.2.1)
  | .adoptExternalPrefillAnchor => seq.adoptExternalPrefillAnchor.map fun done => (done, store)

/-- `with_draw`: an admitted request settles the blocks it drew or returned
against the counter. -/
def settle (request : RequestKv H) (pool : BlockPool H) (seq : SchedulableSequence H) (store : BlockStore H) :
    RequestKv H × BlockPool H :=
  ({ request with seq },
    { pool with
      store
      entitled := if request.admitted then pool.entitled + (request.seq.heldBlocks - seq.heldBlocks : Int)
        else pool.entitled })

def withDraw (request : RequestKv H) (pool : BlockPool H) (op : KvOp) :
    Except Fault (RequestKv H × BlockPool H) :=
  match runOp request.seq pool.store op with
  | .error fault => .error fault
  | .ok (seq, store) => .ok (request.settle pool seq store)

/-- The test of `try_admit`, given what it read of the pool. -/
def covered (request : RequestKv H) (credited available entitled : Nat) : Bool :=
  decide (entitled + request.remaining.toNat ≤ available + credited)

/-- `EntitledSeq::admit`. -/
def declare (request : RequestKv H) (pool : BlockPool H) : RequestKv H × BlockPool H :=
  ({ request with admitted := true }, { pool with entitled := pool.entitled + request.remaining })

/-- `retire`. -/
def retire (request : RequestKv H) (pool : BlockPool H) : RequestKv H × BlockPool H :=
  if request.admitted then
    ({ request with admitted := false }, { pool with entitled := pool.entitled - request.remaining })
  else (request, pool)

end RequestKv

end PegaInfer.KvStore
