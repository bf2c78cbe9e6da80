import PegaInfer.Kvbm.LeafPolicy
import PegaInfer.Kvbm.Store

namespace PegaInfer.Kvbm

open Function

/-- What the index reads of a `PositionalLineageHash`, a type of the token crate. `fragment` is
`parent_fragment_for_child_position(position + 1)`. -/
class LineageHash (H : Type) where
  position : H → Nat
  fragment : H → Nat
  parentFragment : H → Nat

namespace LineageHash

variable {H : Type} [LineageHash H]

def key (hash : H) : Nat × Nat := (position hash, fragment hash)

/-- The key of the block before this one, for a block that is not the first. -/
def parentKey (hash : H) : Nat × Nat := (position hash - 1, parentFragment hash)

end LineageHash

inductive SlotData (H : Type)
  | real (blockId : BlockId) (seqHash : H)
  | ghost
  | free
  deriving DecidableEq

structure LineageSlot (H : Type) where
  data : SlotData H
  position : Nat
  fragment : Nat
  parent : Option Nat
  firstChild : Option Nat
  nextSibling : Option Nat

namespace LineageSlot

variable {H : Type}

def isLeaf (slot : LineageSlot H) : Bool := slot.firstChild.isNone

def key (slot : LineageSlot H) : Nat × Nat := (slot.position, slot.fragment)

def isReal (slot : LineageSlot H) : Bool :=
  match slot.data with
  | .real _ _ => true
  | _ => false

/-- A slot not yet linked to anything. -/
def unlinked (data : SlotData H) (key : Nat × Nat) : LineageSlot H := ⟨data, key.1, key.2, none, none, none⟩

end LineageSlot

/-- `LineageBackend`. The arena is `slots` below `size`. -/
structure LineageBackend (H : Type) where
  slots : Nat → LineageSlot H
  size : Nat
  freeHead : Option Nat
  index : Nat × Nat → Option Nat
  leaves : LeafPolicy
  count : Nat

namespace LineageBackend

variable {H : Type}

def withPolicy (leaves : LeafPolicy) : LineageBackend H :=
  { slots := fun _ => .unlinked .free (0, 0), size := 0, freeHead := none, index := fun _ => none,
    leaves, count := 0 }

def setSlot (backend : LineageBackend H) (idx : Nat) (slot : LineageSlot H) : LineageBackend H :=
  { backend with slots := update backend.slots idx slot }

/-- A recycled cell if there is one, else a new one. -/
def allocSlot (backend : LineageBackend H) (slot : LineageSlot H) : LineageBackend H × Nat :=
  match backend.freeHead with
  | some idx => ({ backend.setSlot idx slot with freeHead := (backend.slots idx).nextSibling }, idx)
  | none => ({ backend.setSlot backend.size slot with size := backend.size + 1 }, backend.size)

def freeSlot (backend : LineageBackend H) (idx : Nat) : LineageBackend H :=
  { backend.setSlot idx { backend.slots idx with data := .free, nextSibling := backend.freeHead } with
    freeHead := some idx }

/-- The loop of `detach_child` over the sibling list, from `cur` on. -/
def detachAfter (backend : LineageBackend H) (child : Nat) : Nat → Option Nat → Option (LineageBackend H)
  | 0, _ => none
  | _ + 1, none => some backend
  | fuel + 1, some cur =>
    if (backend.slots cur).nextSibling = some child then
      some (backend.setSlot cur { backend.slots cur with nextSibling := (backend.slots child).nextSibling })
    else backend.detachAfter child fuel (backend.slots cur).nextSibling

def detachChild (backend : LineageBackend H) (parent child : Nat) : Option (LineageBackend H) :=
  if (backend.slots parent).firstChild = some child then
    some (backend.setSlot parent
      { backend.slots parent with firstChild := (backend.slots child).nextSibling })
  else backend.detachAfter child (backend.size + 1) (backend.slots parent).firstChild

/-- A new node with its index entry. -/
def addNode (backend : LineageBackend H) (data : SlotData H) (key : Nat × Nat) : LineageBackend H × Nat :=
  let (placed, idx) := backend.allocSlot (.unlinked data key)
  ({ placed with index := update placed.index key (some idx) }, idx)

/-- The parent's node, a new ghost if the parent has none. -/
def parentNode (backend : LineageBackend H) (key : Nat × Nat) : LineageBackend H × Nat :=
  match backend.index key with
  | some idx => (backend, idx)
  | none => backend.addNode .ghost key

/-- Puts `node` in front of the children of `parent`. -/
def linkChild (backend : LineageBackend H) (node parent : Nat) : LineageBackend H :=
  let linked := backend.setSlot node
    { backend.slots node with parent := some parent, nextSibling := (backend.slots parent).firstChild }
  linked.setSlot parent { linked.slots parent with firstChild := some node }

section Insert

variable [LineageHash H]

/-- The first part of `insert_inner`: the block's own node, new or a promoted ghost. A block
already at the key is a panic. -/
def placeNode (backend : LineageBackend H) (hash : H) (id : BlockId) : Option (LineageBackend H × Nat) :=
  match backend.index (LineageHash.key hash) with
  | some idx =>
    match (backend.slots idx).data with
    | .ghost =>
      some
        ({ backend.setSlot idx { backend.slots idx with data := .real id hash } with
            count := backend.count + 1
            leaves := backend.leaves.onNodeInserted idx }, idx)
    | .real _ _ => none
    | .free => none
  | none =>
    let (placed, idx) := backend.addNode (.real id hash) (LineageHash.key hash)
    some ({ placed with count := placed.count + 1, leaves := placed.leaves.onNodeInserted idx }, idx)

/-- The second part of `insert_inner`. -/
def linkParent (backend : LineageBackend H) (hash : H) (node : Nat) : Option (LineageBackend H) :=
  if 0 < LineageHash.position hash ∧ (backend.slots node).parent = none then do
    let (found, parent) := backend.parentNode (LineageHash.parentKey hash)
    let linked := found.linkChild node parent
    if (found.slots parent).isLeaf ∧ (found.slots parent).isReal then
      let leaves ← linked.leaves.onLeafDemoted parent
      some { linked with leaves }
    else some linked
  else some backend

/-- The third part of `insert_inner`. -/
def enterLeaf (backend : LineageBackend H) (node : Nat) : Option (LineageBackend H) :=
  if (backend.slots node).isLeaf then do
    let leaves ← backend.leaves.onLeafAdded node
    some { backend with leaves }
  else some backend

/-- `insert_inner`. -/
def insert (backend : LineageBackend H) (hash : H) (id : BlockId) : Option (LineageBackend H) := do
  let (placed, node) ← backend.placeNode hash id
  let linked ← placed.linkParent hash node
  linked.enterLeaf node

end Insert

def detach (backend : LineageBackend H) (cur : Nat) : Option (LineageBackend H) :=
  match (backend.slots cur).parent with
  | some parent => backend.detachChild parent cur
  | none => some backend

/-- Takes a childless node out of the graph. -/
def cutLeaf (backend : LineageBackend H) (cur : Nat) : Option (LineageBackend H) := do
  let detached ← backend.detach cur
  some ({ detached with index := update detached.index (backend.slots cur).key none }.freeSlot cur)

/-- The pruning loop of `remove_node_at`, up the parent chain. -/
def prune : Nat → LineageBackend H → Nat → Option (LineageBackend H)
  | 0, _, _ => none
  | fuel + 1, backend, cur =>
    if (backend.slots cur).firstChild.isSome then some backend
    else do
      let freed ← backend.cutLeaf cur
      match (backend.slots cur).parent with
      | none => some freed
      | some parent =>
        if (freed.slots parent).firstChild.isSome then some freed
        else
          match (freed.slots parent).data with
          | .real _ _ => do
            let leaves ← freed.leaves.onLeafAdded parent
            some { freed with leaves }
          | .ghost => prune fuel freed parent
          | .free => none

/-- `remove_node_at`. A node one position further up is pruned each round. -/
def removeNodeAt (backend : LineageBackend H) (idx : Nat) : Option (LineageBackend H × (H × BlockId)) :=
  match (backend.slots idx).data with
  | .real id hash => do
    let leaves ← backend.leaves.onNodeRemoved idx
    let ghosted :=
      { backend.setSlot idx { backend.slots idx with data := .ghost } with
        count := backend.count - 1
        leaves }
    let pruned ← ghosted.prune ((backend.slots idx).position + 1) idx
    some (pruned, hash, id)
  | _ => none

/-- `allocate`: the next leaf in policy order until `count` blocks are out. -/
def allocate : Nat → LineageBackend H → Option (LineageBackend H × List (H × BlockId))
  | 0, backend => some (backend, [])
  | count + 1, backend =>
    match backend.leaves.nextVictim with
    | none => some (backend, [])
    | some idx => do
      let (rest, block) ← backend.removeNodeAt idx
      let (rest, blocks) ← allocate count rest
      some (rest, block :: blocks)

def len (backend : LineageBackend H) : Nat := backend.count

section Lookup

variable [LineageHash H] [DecidableEq H]

/-- The block stored under this very hash. -/
def stored (backend : LineageBackend H) (hash : H) : Option (Nat × BlockId) :=
  match backend.index (LineageHash.key hash) with
  | none => none
  | some idx =>
    match (backend.slots idx).data with
    | .real id seqHash => if seqHash = hash then some (idx, id) else none
    | _ => none

/-- `remove_by_hash`; the outer `Option` is a panic. -/
def removeByHash (backend : LineageBackend H) (hash : H) : Option (LineageBackend H × Option (H × BlockId)) :=
  match backend.stored hash with
  | none => some (backend, none)
  | some (idx, _) => (backend.removeNodeAt idx).map fun (rest, block) => (rest, some block)

/-- `find_matches`: left to right up to the first miss. -/
def findMatches (backend : LineageBackend H) : List H → Option (LineageBackend H × List (H × BlockId))
  | [] => some (backend, [])
  | hash :: hashes => do
    let (rest, found) ← backend.removeByHash hash
    match found with
    | none => some (rest, [])
    | some block => do
      let (rest, blocks) ← rest.findMatches hashes
      some (rest, block :: blocks)

def findMatch (backend : LineageBackend H) (hash : H) : Option (LineageBackend H × Option (H × BlockId)) :=
  backend.removeByHash hash

/-- `scan_matches`: like `find_matches`, past the misses. -/
def scanMatches (backend : LineageBackend H) : List H → Option (LineageBackend H × List (H × BlockId))
  | [] => some (backend, [])
  | hash :: hashes => do
    let (rest, found) ← backend.removeByHash hash
    let (rest, blocks) ← rest.scanMatches hashes
    some (rest, found.toList ++ blocks)

def has (backend : LineageBackend H) (hash : H) : Bool := (backend.stored hash).isSome

def take (backend : LineageBackend H) (hash : H) (id : BlockId) : Option (LineageBackend H × Bool) :=
  match backend.stored hash with
  | some (_, storedId) =>
    if storedId = id then (backend.removeByHash hash).map fun (rest, found) => (rest, found.isSome)
    else some (backend, false)
  | none => some (backend, false)

end Lookup

end LineageBackend

end PegaInfer.Kvbm
