import PegaInfer.Basic

namespace PegaInfer.Kvbm

abbrev BlockId := Nat

/-- `SlotState`. The weak pointer a registered slot keeps to its handle is
the count `strong` of the store. -/
inductive SlotState (H : Type)
  | reset
  | mutable
  | staged (hash : H)
  | primary (hash : H)
  | duplicate (hash : H)
  | inactive (hash : H)
  deriving DecidableEq

/-- `ImmutableBlock`: a registered block's guard. A duplicate keeps the
primary of its hash alive. -/
structure ImmutableBlock (H : Type) where
  blockId : BlockId
  hash : H
  keepalive : Option BlockId
  deriving DecidableEq

/-- `BlockStoreInner` with the LRU backend. `inactive` is oldest first;
`strong` counts the live guards of a registered slot. -/
structure BlockStore (H : Type) where
  totalBlocks : Nat
  slots : BlockId → SlotState H
  free : List BlockId
  inactive : List (H × BlockId)
  activeByHash : H → Option BlockId
  strong : BlockId → Nat

namespace BlockStore

variable {H : Type} [DecidableEq H]

def new (totalBlocks : Nat) : BlockStore H :=
  { totalBlocks, slots := fun _ => .reset, free := List.range totalBlocks, inactive := [],
    activeByHash := fun _ => none, strong := fun _ => 0 }

def setSlot (store : BlockStore H) (id : BlockId) (slot : SlotState H) : BlockStore H :=
  { store with slots := Function.update store.slots id slot }

/-- `available_len`. -/
def availableBlocks (store : BlockStore H) : Nat := store.free.length + store.inactive.length

/-- `allocate_atomic`: all or nothing, the reset pool first and then the
oldest inactive blocks. -/
def allocateAtomic (store : BlockStore H) (count : Nat) : Option (BlockStore H × List BlockId) :=
  if store.free.length + store.inactive.length < count then none
  else
    let fromInactive := count - min count store.free.length
    let ids := store.free.take count ++ (store.inactive.take fromInactive).map Prod.snd
    some
      ({ store with
          slots := fun id => if id ∈ ids then .mutable else store.slots id
          free := store.free.drop count
          inactive := store.inactive.drop fromInactive }, ids)

/-- `acquire_for_hash_locked`: clone the active primary, or resurrect the
inactive one. -/
def acquireForHash (store : BlockStore H) (hash : H) : Option (BlockStore H × ImmutableBlock H) :=
  match store.activeByHash hash with
  | some id =>
    some ({ store with strong := Function.update store.strong id (store.strong id + 1) }, ⟨id, hash, none⟩)
  | none =>
    match store.inactive.find? (fun entry => entry.1 = hash) with
    | none => none
    | some (_, id) =>
      some
        ({ store with
            slots := Function.update store.slots id (.primary hash)
            inactive := store.inactive.eraseP (fun entry => entry.1 = hash)
            activeByHash := Function.update store.activeByHash hash (some id)
            strong := Function.update store.strong id 1 }, ⟨id, hash, none⟩)

/-- `match_prefix_locked_batch`: acquire left to right up to the first miss. -/
def matchBlocks (store : BlockStore H) : List H → BlockStore H × List (ImmutableBlock H)
  | [] => (store, [])
  | hash :: hashes =>
    match store.acquireForHash hash with
    | none => (store, [])
    | some (store', block) =>
      let (store'', blocks) := store'.matchBlocks hashes
      (store'', block :: blocks)

/-- `transition_to_staged`. -/
def transitionToStaged (store : BlockStore H) (id : BlockId) (hash : H) : BlockStore H :=
  store.setSlot id (.staged hash)

/-- `register_completed_block` under `BlockDuplicationPolicy::Allow`; an
existing primary with the block's own id is a panic. -/
def registerCompletedBlock (store : BlockStore H) (id : BlockId) (hash : H) :
    Option (BlockStore H × ImmutableBlock H) :=
  match store.acquireForHash hash with
  | some (store', existing) =>
    if existing.blockId = id then none
    else
      some
        ({ store'.setSlot id (.duplicate hash) with strong := Function.update store'.strong id 1 },
          ⟨id, hash, some existing.blockId⟩)
  | none =>
    some
      ({ store.setSlot id (.primary hash) with
          activeByHash := Function.update store.activeByHash hash (some id)
          strong := Function.update store.strong id 1 }, ⟨id, hash, none⟩)

/-- `release_mutable` and `release_staged`: an unregistered guard drops. -/
def releaseMutable (store : BlockStore H) (id : BlockId) : BlockStore H :=
  { store.setSlot id .reset with free := store.free ++ [id] }

/-- One primary guard drops; the last one sends the slot to the inactive pool
(`release_primary`). -/
def dropPrimary (store : BlockStore H) (id : BlockId) (hash : H) : BlockStore H :=
  if store.strong id = 1 then
    { store.setSlot id (.inactive hash) with
      inactive := store.inactive ++ [(hash, id)]
      activeByHash := Function.update store.activeByHash hash none
      strong := Function.update store.strong id 0 }
  else { store with strong := Function.update store.strong id (store.strong id - 1) }

/-- An `ImmutableBlock` drops. A duplicate's slot resets
(`release_duplicate`), then its hold on the primary drops. -/
def dropImmutable (store : BlockStore H) (block : ImmutableBlock H) : BlockStore H :=
  match block.keepalive with
  | none => store.dropPrimary block.blockId block.hash
  | some primary =>
    { store.setSlot block.blockId .reset with
      free := store.free ++ [block.blockId]
      strong := Function.update store.strong block.blockId 0 }.dropPrimary primary block.hash

def releaseAllMutable (store : BlockStore H) (ids : List BlockId) : BlockStore H :=
  ids.foldl releaseMutable store

def dropAllImmutable (store : BlockStore H) (blocks : List (ImmutableBlock H)) : BlockStore H :=
  blocks.foldl dropImmutable store

/-- `evict_inactive`: drain the inactive pool into guards that drop at once. -/
def evictInactive (store : BlockStore H) : BlockStore H :=
  { store with
    slots := fun id => if id ∈ store.inactive.map Prod.snd then .reset else store.slots id
    free := store.free ++ store.inactive.map Prod.snd
    inactive := [] }

end BlockStore

end PegaInfer.Kvbm
