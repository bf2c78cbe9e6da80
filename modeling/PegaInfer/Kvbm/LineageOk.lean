import Mathlib.Data.Finset.Card
import PegaInfer.Kvbm.LineageGraph

namespace PegaInfer.Kvbm.LineageBackend

open Function PegaInfer.Lib

variable {H : Type} {backend after : LineageBackend H} {idx node parent cur : Nat} {id : BlockId} {hash : H}

theorem real_iff : backend.Real idx ↔ ∃ id hash, (backend.slots idx).data = .real id hash := by
  unfold Real LineageSlot.isReal
  cases (backend.slots idx).data <;> simp

theorem Real.of_data (atData : (backend.slots idx).data = .real id hash) : backend.Real idx :=
  real_iff.mpr ⟨id, hash, atData⟩

theorem Real.live (real : backend.Real idx) : backend.Live idx := by
  obtain ⟨id, hash, atData⟩ := real_iff.mp real
  rw [Live, atData]
  simp

/-- The blocks of two states of the arena are the same and lie in the same slots. -/
def SameBlocks (backend after : LineageBackend H) : Prop :=
  ∀ idx id hash, (after.slots idx).data = .real id hash ↔ (backend.slots idx).data = .real id hash

theorem SameBlocks.real_iff (same : SameBlocks backend after) : after.Real idx ↔ backend.Real idx := by
  rw [LineageBackend.real_iff, LineageBackend.real_iff]
  exact exists_congr fun id => exists_congr fun hash => same idx id hash

theorem SameBlocks.trans {mid : LineageBackend H} (first : SameBlocks backend mid)
    (second : SameBlocks mid after) :
    SameBlocks backend after := fun idx id hash => (second idx id hash).trans (first idx id hash)

/-- One more block, in a slot that held none. -/
def Adds (backend after : LineageBackend H) (node : Nat) (id : BlockId) (hash : H) : Prop :=
  ¬ backend.Real node ∧ ∀ idx id' hash', (after.slots idx).data = .real id' hash' ↔
    (backend.slots idx).data = .real id' hash' ∨ idx = node ∧ id' = id ∧ hash' = hash

theorem Adds.trans {mid : LineageBackend H} (adds : Adds backend mid node id hash)
    (same : SameBlocks mid after) :
    Adds backend after node id hash :=
  ⟨adds.1, fun idx id' hash' => (same idx id' hash').trans (adds.2 idx id' hash')⟩

/-- Nodes stay where they are; only `node` may have been hung below a node of the key `above`. -/
structure Extends (backend after : LineageBackend H) (node : Nat) (above : Nat × Nat) : Prop where
  live : ∀ idx, backend.Live idx → after.Live idx ∧ (after.slots idx).key = (backend.slots idx).key
  parent : ∀ idx parent, after.Live idx → (after.slots idx).parent = some parent →
    backend.Live idx ∧ (backend.slots idx).parent = some parent ∨ idx = node ∧
      (after.slots parent).key = above

theorem Extends.refl {above : Nat × Nat} : Extends backend backend node above :=
  ⟨fun _ live => ⟨live, rfl⟩, fun _ _ live atParent => Or.inl ⟨live, atParent⟩⟩

theorem Extends.congr {above : Nat × Nat} {same : LineageBackend H} (grown : Extends backend after node above)
    (slots : same.slots = after.slots) : Extends backend same node above := by
  refine ⟨fun idx live => ?_, fun idx parent alive atParent => ?_⟩
  · rw [Live, slots]
    exact grown.live idx live
  · rw [Live, slots] at alive
    rw [slots] at atParent ⊢
    exact grown.parent idx parent alive atParent

/-- Nodes go, and those that stay keep their key and their parent. -/
def Thins (backend after : LineageBackend H) : Prop :=
  ∀ idx, after.Live idx → backend.Live idx ∧ (after.slots idx).key = (backend.slots idx).key ∧
    (after.slots idx).parent = (backend.slots idx).parent

theorem Thins.refl : Thins backend backend := fun _ live => ⟨live, rfl, rfl⟩

theorem Thins.trans {mid : LineageBackend H} (first : Thins backend mid)
    (second : Thins mid after) : Thins backend after := by
  intro idx alive
  obtain ⟨mid', key', parent'⟩ := second idx alive
  obtain ⟨live, key, parent⟩ := first idx mid'
  exact ⟨live, key'.trans key, parent'.trans parent⟩

def reals (backend : LineageBackend H) : Finset Nat :=
  (Finset.range backend.size).filter fun idx => (backend.slots idx).isReal

variable [LineageHash H] {layout : Layout} {order : List Nat}

theorem Extends.trans {mid : LineageBackend H} {above : Nat × Nat} {wider : Layout}
    (first : Extends backend mid node above)
    (graph : mid.Graph wider) (second : Extends mid after node above) : Extends backend after node above := by
  refine ⟨fun idx live => ?_, fun idx parent alive atParent => ?_⟩
  · obtain ⟨live', key⟩ := first.live idx live
    obtain ⟨live'', key'⟩ := second.live idx live'
    exact ⟨live'', key'.trans key⟩
  · rcases second.parent idx parent alive atParent with ⟨alive', atParent'⟩ | new
    · rcases first.parent idx parent alive' atParent' with old | ⟨atNode, key⟩
      · exact Or.inl old
      · have alive'' := (graph.above idx parent alive' atParent').1
        exact Or.inr ⟨atNode, ((second.live parent alive'').2).trans key⟩
    · exact Or.inr new

theorem Graph.mem_reals (graph : backend.Graph layout) : idx ∈ backend.reals ↔ backend.Real idx := by
  rw [reals, Finset.mem_filter, Finset.mem_range]
  exact ⟨fun facts => facts.2, fun real => ⟨graph.bounded idx real.live, real⟩⟩

theorem Graph.isLeaf_iff (graph : backend.Graph layout) (live : backend.Live idx) :
    (backend.slots idx).isLeaf = true ↔ layout.children idx = [] := by
  rw [LineageSlot.isLeaf, Option.isNone_iff_eq_none, (graph.childChain idx live).head_eq,
    List.head?_eq_none_iff]

theorem Graph.isSome_iff (graph : backend.Graph layout) (live : backend.Live idx) :
    (backend.slots idx).firstChild.isSome = true ↔ layout.children idx ≠ [] := by
  rw [(graph.childChain idx live).head_eq]
  exact List.isSome_head?

/-- The order of eviction and the count are no part of the graph. -/
theorem Graph.relabel {leaves : LeafPolicy} {count : Nat} (graph : backend.Graph layout) :
    { backend with leaves, count }.Graph layout :=
  ⟨graph.bounded, graph.freeChain, graph.free_iff, graph.indexed, graph.childChain, graph.child_iff,
    graph.above, graph.keyed⟩

theorem Graph.setData {data : SlotData H} (graph : backend.Graph layout) (live : backend.Live idx)
    (used : data ≠ .free)
    (keyed : ∀ id hash, data = .real id hash → (backend.slots idx).key = LineageHash.key hash) :
    (backend.setSlot idx { backend.slots idx with data }).Graph layout := by
  have kept : ∀ other, ((backend.setSlot idx { backend.slots idx with data }).slots other).parent =
    (backend.slots other).parent ∧
      ((backend.setSlot idx { backend.slots idx with data }).slots other).position =
        (backend.slots other).position ∧
      ((backend.setSlot idx { backend.slots idx with data }).slots other).key = (backend.slots other).key ∧
      ((backend.setSlot idx { backend.slots idx with data }).slots other).firstChild =
        (backend.slots other).firstChild := by
    intro other
    by_cases same : other = idx
    · simp [same, LineageSlot.key]
    · simp [same]
  have live_iff : ∀ other, (backend.setSlot idx { backend.slots idx with data }).Live other ↔
      backend.Live other := by
    intro other
    by_cases same : other = idx
    · simp [Live, same, used]
      exact live
    · simp [Live, same]
  have siblings : (backend.setSlot idx { backend.slots idx with data }).siblings = backend.siblings := by
    rw [siblings_setSlot]
    exact update_eq_self idx backend.siblings
  refine ⟨fun other alive => ?_, ?_, fun other => ?_, fun key other => ?_, fun other alive => ?_,
    fun parent child alive => ?_,
    fun child parent alive atParent => ?_, fun other id hash atData => ?_⟩
  · exact graph.bounded other ((live_iff other).mp alive)
  · rw [siblings]
    exact graph.freeChain
  · rw [live_iff]
    exact graph.free_iff other
  · rw [live_iff, (kept other).2.2.1]
    exact graph.indexed key other
  · rw [siblings, (kept other).2.2.2]
    exact graph.childChain other ((live_iff other).mp alive)
  · rw [live_iff, (kept child).1]
    exact graph.child_iff parent child ((live_iff parent).mp alive)
  · rw [(kept child).1] at atParent
    rw [live_iff, (kept child).2.1, (kept parent).2.1]
    exact graph.above child parent ((live_iff child).mp alive) atParent
  · rw [(kept other).2.2.1]
    by_cases same : other = idx
    · subst same
      simp only [slots_setSlot, update_self] at atData
      exact keyed id hash atData
    · simp only [slots_setSlot, update_of_ne same] at atData
      exact graph.keyed other id hash atData

/-- A block that is not the first of its sequence hangs below a node. -/
def Linked (backend : LineageBackend H) : Prop :=
  ∀ idx id hash, (backend.slots idx).data = .real id hash → 0 < LineageHash.position hash →
    (backend.slots idx).parent ≠ none

/-- What holds between two operations: every ghost has a child, and the policy orders the
blocks without children. -/
structure Ok (backend : LineageBackend H) (layout : Layout) (order : List Nat) : Prop where
  graph : backend.Graph layout
  linked : backend.Linked
  ghosts : ∀ idx, (backend.slots idx).data = .ghost → layout.children idx ≠ []
  tracks : backend.leaves.Tracks order backend.Real
  order_iff : ∀ idx, idx ∈ order ↔ backend.Real idx ∧ layout.children idx = []
  count_eq : backend.count = backend.reals.card

/-- Within an operation: as between two, but for the node `cur`, which the policy does not order. -/
structure Nearly (backend : LineageBackend H) (layout : Layout) (order : List Nat) (cur : Nat) : Prop where
  graph : backend.Graph layout
  ghosts : ∀ idx, idx ≠ cur → (backend.slots idx).data = .ghost → layout.children idx ≠ []
  tracks : backend.leaves.Tracks order backend.Real
  order_iff : ∀ idx, idx ≠ cur → (idx ∈ order ↔ backend.Real idx ∧ layout.children idx = [])
  unlisted : cur ∉ order
  count_eq : backend.count = backend.reals.card

theorem Nearly.settle (nearly : backend.Nearly layout order cur) (linked : backend.Linked)
    (full : layout.children cur ≠ []) :
    backend.Ok layout order := by
  refine ⟨nearly.graph, linked, fun idx ghost => ?_, nearly.tracks, fun idx => ?_, nearly.count_eq⟩
  · by_cases same : idx = cur
    · exact same ▸ full
    · exact nearly.ghosts idx same ghost
  · by_cases same : idx = cur
    · subst same
      exact iff_of_false nearly.unlisted fun facts => full facts.2
    · exact nearly.order_iff idx same

/-- A childless block enters the order of eviction. -/
theorem Nearly.enter (nearly : backend.Nearly layout order cur) (linked : backend.Linked)
    (real : backend.Real cur)
    (bare : layout.children cur = []) :
    ∃ leaves order', backend.leaves.onLeafAdded cur = some leaves ∧ { backend with leaves }.Ok layout order' ∧
      leaves.stamp = backend.leaves.stamp := by
  obtain ⟨leaves, order', added, tracks, perm, stamp⟩ := nearly.tracks.onLeafAdded real nearly.unlisted
  refine ⟨leaves, order', added, ⟨nearly.graph.relabel, linked, fun idx ghost => ?_, tracks,
    fun idx => ?_, nearly.count_eq⟩, stamp⟩
  · by_cases same : idx = cur
    · subst same
      obtain ⟨id, hash, atData⟩ := real_iff.mp real
      rw [atData] at ghost
      cases ghost
    · exact nearly.ghosts idx same ghost
  · rw [perm.mem_iff, List.mem_cons]
    by_cases same : idx = cur
    · subst same
      exact iff_of_true (Or.inl rfl) ⟨real, bare⟩
    · rw [nearly.order_iff idx same]
      exact or_iff_right same

/-- A block is stored under this key. -/
def Occupied (backend : LineageBackend H) (key : Nat × Nat) : Prop :=
  ∃ idx id hash, (backend.slots idx).data = .real id hash ∧ LineageHash.key hash = key

theorem reals_insert {grown : LineageBackend H} {wider : Layout} (graph : backend.Graph layout)
    (graph' : grown.Graph wider)
    (fresh : ¬ backend.Real node)
    (real_iff' : ∀ other, grown.Real other ↔ backend.Real other ∨ other = node) :
    grown.reals.card = backend.reals.card + 1 := by
  have split : grown.reals = Insert.insert node backend.reals := by
    ext other
    rw [graph'.mem_reals, real_iff', Finset.mem_insert, graph.mem_reals, or_comm]
  rw [split, Finset.card_insert_of_notMem (graph.mem_reals.not.mpr fresh)]

/-- What placing a block's node leaves behind: the block in its node, which is not linked yet. -/
structure Placed (backend after : LineageBackend H) (layout : Layout) (order : List Nat)
    (node : Nat) (id : BlockId) (hash : H) :
    Prop where
  nearly : after.Nearly layout order node
  data : (after.slots node).data = .real id hash
  fresh : ¬ backend.Real node
  others : ∀ idx, idx ≠ node → (after.slots idx).data = (backend.slots idx).data
  linked : ∀ idx id hash, idx ≠ node → (after.slots idx).data = .real id hash →
    0 < LineageHash.position hash →
    (after.slots idx).parent ≠ none
  leaves : after.leaves = backend.leaves.onNodeInserted node
  extends_ : Extends backend after node (LineageHash.parentKey hash)

theorem Ok.placeNode_occupied (ok : backend.Ok layout order)
    (occupied : backend.Occupied (LineageHash.key hash)) :
    backend.placeNode hash id = none := by
  obtain ⟨idx, old, other, atData, atKey⟩ := occupied
  have live : backend.Live idx := (Real.of_data atData).live
  have indexed := (ok.graph.indexed (LineageHash.key hash) idx).mpr
    ⟨live, by rw [ok.graph.keyed idx old other atData, atKey]⟩
  simp [placeNode, indexed, atData]

theorem Ok.placeNode (ok : backend.Ok layout order) (id : BlockId)
    (vacant : ¬ backend.Occupied (LineageHash.key hash)) :
    ∃ after node wider, backend.placeNode hash id = some (after, node) ∧
      Placed backend after wider order node id hash := by
  unfold LineageBackend.placeNode
  cases atKey : backend.index (LineageHash.key hash) with
  | some idx =>
    obtain ⟨live, key⟩ := (ok.graph.indexed _ idx).mp atKey
    have ghost : (backend.slots idx).data = .ghost := by
      cases atData : (backend.slots idx).data with
      | real old other =>
        exact absurd ⟨idx, old, other, atData, (ok.graph.keyed idx old other atData).symm.trans key⟩ vacant
      | ghost => rfl
      | free => exact absurd atData live
    have dead : ¬ backend.Real idx := by
      rw [real_iff, ghost]
      simp
    have real_iff' : ∀ other,
      (backend.setSlot idx { backend.slots idx with data := .real id hash }).Real other ↔
        backend.Real other ∨ other = idx := by
      intro other
      by_cases same : other = idx
      · simp [Real, same, LineageSlot.isReal]
      · simp [Real, same]
    have graph : (backend.setSlot idx { backend.slots idx with data := .real id hash }).Graph layout :=
      ok.graph.setData live (by simp) fun _ _ same => by
        cases same
        exact key
    refine ⟨_, idx, layout, by simp only [ghost]; rfl,
      ⟨⟨graph.relabel, fun other ne ghost' => ?_, ?_, fun other ne => ?_, ?_, ?_⟩,
      ?_, dead, fun other ne => ?_, fun other id' hash' ne atData deep =>
        ?_, rfl, fun other alive => ?_, fun other p alive atParent => ?_⟩⟩
    · refine ok.ghosts other ?_
      simpa [ne] using ghost'
    · exact (ok.tracks.onNodeInserted dead).congr real_iff'
    · rw [ok.order_iff]
      exact and_congr_left' ((real_iff' other).trans (or_iff_left ne)).symm
    · exact fun listed => dead ((ok.order_iff idx).mp listed).1
    · exact congrArg (· + 1) ok.count_eq |>.trans (reals_insert ok.graph graph dead real_iff').symm
    · simp
    · simp [ne]
    · simp only [slots_setSlot, update_of_ne ne] at atData ⊢
      exact ok.linked other id' hash' atData deep
    · by_cases same : other = idx
      · simp [Live, same, LineageSlot.key]
      · simpa [Live, same] using alive
    · by_cases same : other = idx
      · subst same
        exact Or.inl ⟨live, by simpa using atParent⟩
      · refine Or.inl ⟨?_, by simpa [same] using atParent⟩
        simpa [Live, same] using alive
  | none =>
    have used : (SlotData.real id hash : SlotData H) ≠ .free := by simp
    obtain ⟨free, graph⟩ := ok.graph.addNode atKey used fun _ _ same => by
      cases same
      rfl
    have slots := @addNode_slots H backend (.real id hash) (LineageHash.key hash)
    have fresh := @Graph.addNode_fresh H backend (.real id hash) (LineageHash.key hash) _ layout ok.graph
    have count := @addNode_count H backend (.real id hash) (LineageHash.key hash)
    have leaves := @addNode_leaves H backend (.real id hash) (LineageHash.key hash)
    dsimp only
    generalize backend.addNode (.real id hash) (LineageHash.key hash) = added at *
    obtain ⟨placed, idx⟩ := added
    dsimp only at *
    have dead : ¬ backend.Real idx := fun real => fresh real.live
    have real_iff' : ∀ other, placed.Real other ↔ backend.Real other ∨ other = idx := by
      intro other
      by_cases same : other = idx
      · simp [Real, slots, same, LineageSlot.unlinked, LineageSlot.isReal]
      · simp [Real, slots, same]
    refine ⟨_, idx, _, rfl, ⟨⟨graph.relabel, fun other ne ghost => ?_, ?_, fun other ne => ?_, ?_, ?_⟩,
      ?_, dead, fun other ne => ?_, fun other id' hash' ne atData deep =>
        ?_, congrArg (fun kept => kept.onNodeInserted idx) leaves,
      fun other alive => ?_, fun other p alive atParent => ?_⟩⟩
    · simp only [update_of_ne ne]
      refine ok.ghosts other ?_
      simpa [slots, ne] using ghost
    · rw [leaves]
      exact (ok.tracks.onNodeInserted dead).congr real_iff'
    · simp only [update_of_ne ne]
      rw [ok.order_iff]
      exact and_congr_left' ((real_iff' other).trans (or_iff_left ne)).symm
    · exact fun listed => dead ((ok.order_iff idx).mp listed).1
    · rw [count]
      exact congrArg (· + 1) ok.count_eq |>.trans (reals_insert ok.graph graph dead real_iff').symm
    · simp [slots, LineageSlot.unlinked]
    · simp [slots, ne]
    · simp only [slots, update_of_ne ne] at atData ⊢
      exact ok.linked other id' hash' atData deep
    · have ne : other ≠ idx := fun same => fresh (same ▸ alive)
      simpa [Live, slots, ne] using alive
    · have ne : other ≠ idx := by
        rintro rfl
        simp [slots, LineageSlot.unlinked] at atParent
      refine Or.inl ⟨?_, by simpa [slots, ne] using atParent⟩
      simpa [Live, slots, ne] using alive

/-- What finding or making the parent's node leaves behind. -/
structure Found (backend found : LineageBackend H) (layout wider : Layout) (parent : Nat)
    (key : Nat × Nat) : Prop where
  graph : found.Graph wider
  live : found.Live parent
  key : (found.slots parent).key = key
  leaves : found.leaves = backend.leaves
  count : found.count = backend.count
  others : ∀ idx, idx ≠ parent → found.slots idx = backend.slots idx ∧
    wider.children idx = layout.children idx
  parent : found.slots parent = backend.slots parent ∧ wider.children parent = layout.children parent ∨
    ¬ backend.Live parent ∧ (found.slots parent).data = .ghost ∧ (found.slots parent).parent = none

theorem Graph.parentNode (graph : backend.Graph layout) (key : Nat × Nat) :
    ∃ wider, Found backend (backend.parentNode key).1 layout wider (backend.parentNode key).2 key := by
  unfold LineageBackend.parentNode
  cases atKey : backend.index key with
  | some idx =>
    obtain ⟨live, same⟩ := (graph.indexed key idx).mp atKey
    exact ⟨layout, graph, live, same, rfl, rfl, fun _ _ => ⟨rfl, rfl⟩, Or.inl ⟨rfl, rfl⟩⟩
  | none =>
    have used : (SlotData.ghost : SlotData H) ≠ .free := by simp
    obtain ⟨free, wider⟩ := graph.addNode atKey used (by simp)
    have slots := @addNode_slots H backend .ghost key
    have self : (backend.addNode .ghost key).1.slots (backend.addNode .ghost key).2 =
        .unlinked .ghost key := by
      rw [slots, update_self]
    refine ⟨_, wider, (addNode_live_iff used).mpr (Or.inr rfl), by rw [self]; rfl, addNode_leaves,
      addNode_count, fun idx ne => ?_,
      Or.inr ⟨graph.addNode_fresh, by rw [self]; rfl, by rw [self]; rfl⟩⟩
    rw [slots, update_of_ne ne]
    exact ⟨rfl, update_of_ne ne _ _⟩

theorem Found.data_iff {found : LineageBackend H} {wider : Layout} {key : Nat × Nat}
    (facts : Found backend found layout wider parent key) :
    (found.slots idx).data = .real id hash ↔ (backend.slots idx).data = .real id hash := by
  by_cases same : idx = parent
  · subst same
    rcases facts.parent with ⟨slot, _⟩ | ⟨dead, ghost, _⟩
    · rw [slot]
    · refine iff_of_false (by rw [ghost]; simp) fun atData => dead ?_
      exact (Real.of_data atData).live
  · rw [(facts.others idx same).1]

theorem SameBlocks.card {grown : LineageBackend H} {wider : Layout} (same : SameBlocks backend grown)
    (graph : backend.Graph layout) (graph' : grown.Graph wider) : grown.reals.card = backend.reals.card := by
  congr 1
  ext idx
  rw [graph'.mem_reals, graph.mem_reals, same.real_iff]

section Hang

variable {found : LineageBackend H} {wider : Layout} {key : Nat × Nat}

/-- Hanging a node that is not linked yet below its parent. -/
theorem Found.hang (facts : Found backend found layout wider parent key) (live : backend.Live node)
    (orphan : (backend.slots node).parent = none) (below : (backend.slots node).position = key.1 + 1) :
    node ≠ parent ∧ SameBlocks backend (found.linkChild node parent) ∧
      (found.linkChild node parent).Graph
        { wider with children := update wider.children parent (node :: wider.children parent) } := by
  have apart : node ≠ parent := by
    rintro rfl
    rcases facts.parent with ⟨slot, _⟩ | ⟨dead, _⟩
    · have position := congrArg Prod.fst facts.key
      rw [slot] at position
      simp only [LineageSlot.key] at position
      omega
    · exact dead live
  have slot := (facts.others node apart).1
  have parentPosition : (found.slots parent).position = key.1 := congrArg Prod.fst facts.key
  exact ⟨apart, fun idx id hash => by rw [(linkChild_kept idx).1, facts.data_iff],
    facts.graph.linkChild (by rw [Live, slot]; exact live) facts.live (by rw [slot]; exact orphan)
      (by rw [slot, below, parentPosition])⟩

theorem Found.grown (facts : Found backend found layout wider parent key) (apart : node ≠ parent) :
    Extends backend (found.linkChild node parent) node key := by
  have slot : ∀ idx, backend.Live idx → found.slots idx = backend.slots idx := by
    intro idx live
    by_cases same : idx = parent
    · subst same
      exact facts.parent.elim (fun old => old.1) fun new => absurd live new.1
    · exact (facts.others idx same).1
  refine ⟨fun idx live => ⟨linkChild_live_iff.mpr (by rw [Live, slot idx live]; exact live), ?_⟩,
    fun idx above alive atParent => ?_⟩
  · rw [(linkChild_kept idx).2.2, slot idx live]
  · rw [linkChild_parent apart] at atParent
    split_ifs at atParent with atNode
    · cases atParent
      exact Or.inr ⟨atNode, by rw [(linkChild_kept parent).2.2, facts.key]⟩
    · have alive' := linkChild_live_iff.mp alive
      by_cases same : idx = parent
      · subst same
        rcases facts.parent with ⟨old, _⟩ | ⟨_, _, orphan⟩
        · rw [old] at atParent
          rw [Live, old] at alive'
          exact Or.inl ⟨alive', atParent⟩
        · rw [orphan] at atParent
          cases atParent
      · rw [(facts.others idx same).1] at atParent
        rw [Live, (facts.others idx same).1] at alive'
        exact Or.inl ⟨alive', atParent⟩

/-- With the node below its parent no block misses its link. -/
theorem Found.linked (facts : Found backend found layout wider parent key) (apart : node ≠ parent)
    (linked : ∀ idx id hash, idx ≠ node → (backend.slots idx).data = .real id hash →
      0 < LineageHash.position hash →
      (backend.slots idx).parent ≠ none) : (found.linkChild node parent).Linked := by
  intro idx id hash atData deep
  rw [(linkChild_kept idx).1, facts.data_iff] at atData
  rw [linkChild_parent apart]
  split_ifs with atNode
  · exact Option.some_ne_none parent
  · by_cases atParent : idx = parent
    · subst atParent
      rcases facts.parent with ⟨slot, _⟩ | ⟨dead, _⟩
      · rw [slot]
        exact linked idx id hash atNode atData deep
      · exact absurd (Real.of_data atData).live dead
    · rw [(facts.others idx atParent).1]
      exact linked idx id hash atNode atData deep

/-- Away from the node and its parent nothing changes. -/
theorem Nearly.hung (nearly : backend.Nearly layout order node)
    (facts : Found backend found layout wider parent key) :
    (∀ idx, idx ≠ node → ((found.linkChild node parent).slots idx).data = .ghost →
      update wider.children parent (node :: wider.children parent) idx ≠ []) ∧
    ∀ idx, idx ≠ node → idx ≠ parent → (idx ∈ order ↔ (found.linkChild node parent).Real idx ∧
      update wider.children parent (node :: wider.children parent) idx = []) := by
  constructor
  · intro idx ne ghost
    by_cases atParent : idx = parent
    · subst atParent
      rw [update_self]
      exact List.cons_ne_nil node _
    · rw [update_of_ne atParent, (facts.others idx atParent).2]
      refine nearly.ghosts idx ne ?_
      rwa [(linkChild_kept idx).1, (facts.others idx atParent).1] at ghost
  · intro idx ne atParent
    rw [nearly.order_iff idx ne, Real, Real, LineageSlot.isReal, LineageSlot.isReal, (linkChild_kept idx).1,
      update_of_ne atParent, (facts.others idx atParent).1, (facts.others idx atParent).2]

theorem Nearly.linkParent (nearly : backend.Nearly layout order node)
    (data : (backend.slots node).data = .real id hash)
    (linked : ∀ idx id hash, idx ≠ node → (backend.slots idx).data = .real id hash →
      0 < LineageHash.position hash →
      (backend.slots idx).parent ≠ none) :
    ∃ after wider order', backend.linkParent hash node = some after ∧
      after.Nearly wider order' node ∧ after.Linked ∧
      SameBlocks backend after ∧ Extends backend after node (LineageHash.parentKey hash) ∧
      after.leaves.stamp = backend.leaves.stamp := by
  have real := Real.of_data data
  unfold LineageBackend.linkParent
  split_ifs with needs
  · obtain ⟨deep, orphan⟩ := needs
    obtain ⟨wider, facts⟩ := nearly.graph.parentNode (LineageHash.parentKey hash)
    have position : (backend.slots node).position = (LineageHash.parentKey hash).1 + 1 := by
      have keyed := congrArg Prod.fst (nearly.graph.keyed node id hash data)
      simp only [LineageSlot.key, LineageHash.key, LineageHash.parentKey] at keyed ⊢
      omega
    generalize backend.parentNode (LineageHash.parentKey hash) = pair at facts ⊢
    obtain ⟨found, parent⟩ := pair
    obtain ⟨apart, same, graph⟩ := facts.hang real.live orphan position
    have grown := facts.grown apart
    obtain ⟨ghosts, away⟩ := nearly.hung facts
    have count : (found.linkChild node parent).count = (found.linkChild node parent).reals.card :=
      facts.count.trans (nearly.count_eq.trans (same.card nearly.graph graph).symm)
    have tracks : found.leaves.Tracks order (found.linkChild node parent).Real := by
      rw [facts.leaves]
      exact nearly.tracks.congr fun idx => same.real_iff
    dsimp only
    split_ifs with demoted
    · obtain ⟨leaves, done, tracks', stamp⟩ := @LeafPolicy.Tracks.onLeafDemoted _ order parent _ tracks
      refine ⟨{ found.linkChild node parent with leaves }, _, order.erase parent, ?_,
        ⟨graph.relabel, ghosts, tracks', fun idx ne => ?_, ?_, count⟩,
        facts.linked apart linked, same, grown.congr rfl,
          stamp.trans (congrArg LeafPolicy.stamp facts.leaves)⟩
      · change (found.leaves.onLeafDemoted parent).bind _ = _
        rw [done]
        rfl
      · by_cases atParent : idx = parent
        · subst atParent
          refine iff_of_false nearly.tracks.nodup.not_mem_erase fun bare => ?_
          simp at bare
        · rw [List.mem_erase_of_ne atParent]
          exact away idx ne atParent
      · exact fun listed => nearly.unlisted (List.mem_of_mem_erase listed)
    · refine ⟨_, _, order, rfl, ⟨graph, ghosts, tracks, fun idx ne => ?_, nearly.unlisted, count⟩,
        facts.linked apart linked, same, grown, congrArg LeafPolicy.stamp facts.leaves⟩
      by_cases atParent : idx = parent
      · subst atParent
        refine iff_of_false (fun listed => ?_) fun bare => by simp at bare
        obtain ⟨realParent, bare⟩ := (nearly.order_iff idx ne).mp listed
        rcases facts.parent with ⟨slot, children⟩ | ⟨dead, _⟩
        · refine demoted ⟨(facts.graph.isLeaf_iff facts.live).mpr (children.trans bare), ?_⟩
          rw [slot]
          exact realParent
        · exact dead realParent.live
      · exact away idx ne atParent
  · refine ⟨backend, layout, order, rfl, nearly, fun idx id' hash' atData deep => ?_,
      fun _ _ _ => Iff.rfl, .refl, rfl⟩
    by_cases atNode : idx = node
    · subst atNode
      rw [data, SlotData.real.injEq] at atData
      obtain ⟨rfl, rfl⟩ := atData
      exact fun orphan => needs ⟨deep, orphan⟩
    · exact linked idx id' hash' atNode atData deep

end Hang

/-- The block enters the order of eviction if it has no child. -/
theorem Nearly.enterLeaf (nearly : backend.Nearly layout order node) (linked : backend.Linked)
    (real : backend.Real node) :
    ∃ after order', backend.enterLeaf node = some after ∧ after.Ok layout order' ∧ SameBlocks backend after ∧
      after.slots = backend.slots ∧ after.leaves.stamp = backend.leaves.stamp := by
  unfold LineageBackend.enterLeaf
  split_ifs with leaf
  · obtain ⟨leaves, order', added, ok, stamp⟩ :=
      nearly.enter linked real ((nearly.graph.isLeaf_iff real.live).mp leaf)
    exact ⟨_, order', by rw [added]; rfl, ok, fun _ _ _ => Iff.rfl, rfl, stamp⟩
  · refine ⟨backend, order, rfl, nearly.settle linked fun bare => ?_, fun _ _ _ => Iff.rfl, rfl, rfl⟩
    exact leaf ((nearly.graph.isLeaf_iff real.live).mpr bare)

theorem Placed.adds (placed : Placed backend after layout order node id hash) :
    Adds backend after node id hash := by
  refine ⟨placed.fresh, fun idx id' hash' => ?_⟩
  by_cases same : idx = node
  · subst same
    rw [placed.data, SlotData.real.injEq]
    constructor
    · rintro ⟨rfl, rfl⟩
      exact Or.inr ⟨rfl, rfl, rfl⟩
    · rintro (atData | ⟨_, rfl, rfl⟩)
      · exact absurd (Real.of_data atData) placed.fresh
      · exact ⟨rfl, rfl⟩
  · rw [placed.others idx same]
    simp [same]

theorem Ok.insert_occupied (ok : backend.Ok layout order)
    (occupied : backend.Occupied (LineageHash.key hash)) :
    backend.insert hash id = none := by
  rw [LineageBackend.insert, ok.placeNode_occupied occupied]
  rfl

theorem Ok.insert (ok : backend.Ok layout order) (id : BlockId)
    (vacant : ¬ backend.Occupied (LineageHash.key hash)) :
    ∃ after wider order' node, backend.insert hash id = some after ∧ after.Ok wider order' ∧
      Adds backend after node id hash ∧
      Extends backend after node (LineageHash.parentKey hash) ∧
      after.leaves.stamp = (backend.leaves.onNodeInserted node).stamp := by
  obtain ⟨placed, node, _, done, facts⟩ := ok.placeNode id vacant
  obtain ⟨linked, _, _, done', nearly, links, same, grown, stamp⟩ :=
    facts.nearly.linkParent facts.data facts.linked
  have real : linked.Real node := same.real_iff.mpr (Real.of_data facts.data)
  obtain ⟨after, order', done'', ok', same', slots, stamp'⟩ := nearly.enterLeaf links real
  refine ⟨after, _, order', node, ?_, ok', (facts.adds.trans same).trans same',
    (facts.extends_.trans facts.nearly.graph grown).congr slots, ?_⟩
  · simp only [LineageBackend.insert, done, Option.bind_eq_bind, Option.bind_some, done', done'']
  · rw [stamp', stamp, facts.leaves]

/-- Cutting a childless ghost: only its parent may have lost its last child. -/
theorem Nearly.cut (nearly : backend.Nearly layout order cur) (linked : backend.Linked)
    (ghost : (backend.slots cur).data = .ghost) (bare : layout.children cur = []) :
    ∃ freed thinner, backend.cutLeaf cur = some freed ∧ freed.Graph thinner ∧
      SameBlocks backend freed ∧ freed.Linked ∧
      freed.leaves = backend.leaves ∧ freed.count = freed.reals.card ∧
      (∀ idx, freed.Live idx ↔ backend.Live idx ∧ idx ≠ cur) ∧
      Thins backend freed ∧
      ∀ idx, (backend.slots cur).parent ≠ some idx →
        ((freed.slots idx).data = .ghost → thinner.children idx ≠ []) ∧
        (idx ∈ order ↔ freed.Real idx ∧ thinner.children idx = []) := by
  have live : backend.Live cur := by
    rw [Live, ghost]
    simp
  obtain ⟨freed, cut, graph, leaves, count, size, live_iff, kept⟩ := nearly.graph.cutLeaf live bare
  have same : SameBlocks backend freed := by
    intro idx id hash
    by_cases atCur : idx = cur
    · subst atCur
      refine iff_of_false (fun atData => ?_) (by rw [ghost]; simp)
      exact ((live_iff idx).mp (Real.of_data atData).live).2 rfl
    · rw [(kept idx atCur).1]
  refine ⟨freed, _, cut, graph, same, fun idx id hash atData deep => ?_, leaves, ?_, live_iff,
    fun idx alive => ?_, fun idx notParent => ?_⟩
  · have atCur : idx ≠ cur := ((live_iff idx).mp (Real.of_data atData).live).2
    rw [(kept idx atCur).2.2]
    exact linked idx id hash ((same idx id hash).mp atData) deep
  · rw [count, nearly.count_eq, same.card nearly.graph graph]
  · obtain ⟨old, ne⟩ := (live_iff idx).mp alive
    exact ⟨old, (kept idx ne).2⟩
  · dsimp only
    by_cases atCur : idx = cur
    · subst atCur
      have dead : ¬ freed.Live idx := fun alive => ((live_iff idx).mp alive).2 rfl
      exact ⟨fun ghost' => absurd (by rw [Live, ghost']; simp) dead,
        iff_of_false nearly.unlisted fun facts => dead facts.1.live⟩
    · have kept_children : backend.Live idx →
        (layout.children idx).erase cur = layout.children idx := fun alive =>
        List.erase_of_not_mem fun inside => notParent ((nearly.graph.child_iff idx cur alive).mp inside).2
      constructor
      · intro ghost'
        rw [(kept idx atCur).1] at ghost'
        rw [kept_children (by rw [Live, ghost']; simp)]
        exact nearly.ghosts idx atCur ghost'
      · rw [nearly.order_iff idx atCur, same.real_iff]
        exact and_congr_right fun real => by rw [kept_children real.live]

/-- Pruning ends with every ghost a parent again. -/
theorem Nearly.prune {fuel : Nat} (nearly : backend.Nearly layout order cur) (linked : backend.Linked)
    (ghost : (backend.slots cur).data = .ghost) (enough : (backend.slots cur).position < fuel) :
    ∃ after thinner order', prune fuel backend cur = some after ∧ after.Ok thinner order' ∧
      SameBlocks backend after ∧
      Thins backend after ∧ after.leaves.stamp = backend.leaves.stamp := by
  induction fuel generalizing backend layout cur with
  | zero => omega
  | succ fuel ih =>
    have live : backend.Live cur := by
      rw [Live, ghost]
      simp
    rw [LineageBackend.prune]
    split_ifs with full
    · rw [nearly.graph.isSome_iff live] at full
      exact ⟨backend, layout, order, rfl, nearly.settle linked full, fun _ _ _ => Iff.rfl, .refl, rfl⟩
    · rw [nearly.graph.isSome_iff live, not_not] at full
      obtain ⟨freed, thinner, cut, graph, same, linked', leaves, count, live_iff, thins, away⟩ :=
        nearly.cut linked ghost full
      have tracks : freed.leaves.Tracks order freed.Real := by
        rw [leaves]
        exact nearly.tracks.congr fun idx => same.real_iff
      rw [cut]
      cases atParent : (backend.slots cur).parent with
      | none =>
        refine ⟨freed, thinner, order, rfl,
          ⟨graph, linked', fun idx => (away idx ?_).1, tracks, fun idx => (away idx ?_).2, count⟩,
          same, thins, congrArg LeafPolicy.stamp leaves⟩
        · rw [atParent]
          simp
        · rw [atParent]
          simp
      | some parent =>
        obtain ⟨liveParent, below⟩ := nearly.graph.above cur parent live atParent
        have apart : parent ≠ cur := by
          rintro rfl
          omega
        have unlisted : parent ∉ order := by
          intro listed
          have none_ := ((nearly.order_iff parent apart).mp listed).2
          have inside := (nearly.graph.child_iff parent cur liveParent).mpr ⟨live, atParent⟩
          simp [none_] at inside
        have nearly' : freed.Nearly thinner order parent := by
          refine ⟨graph, fun idx ne => (away idx ?_).1, tracks,
            fun idx ne => (away idx ?_).2, unlisted, count⟩
          · rw [atParent]
            exact fun wrong => ne (Option.some.inj wrong).symm
          · rw [atParent]
            exact fun wrong => ne (Option.some.inj wrong).symm
        have alive : freed.Live parent := (live_iff parent).mpr ⟨liveParent, apart⟩
        simp only [Option.bind_eq_bind, Option.bind_some]
        split_ifs with full'
        · rw [graph.isSome_iff alive] at full'
          exact ⟨freed, thinner, order, rfl, nearly'.settle linked' full', same, thins,
            congrArg LeafPolicy.stamp leaves⟩
        · rw [graph.isSome_iff alive, not_not] at full'
          cases atData : (freed.slots parent).data with
          | real id hash =>
            obtain ⟨leaves', order', added, ok, stamp⟩ := nearly'.enter linked' (Real.of_data atData) full'
            exact ⟨_, thinner, order', by simp only [added, Option.bind_some], ok, same, thins,
              stamp.trans (congrArg LeafPolicy.stamp leaves)⟩
          | ghost =>
            have lower : (freed.slots parent).position < fuel := by
              have key := congrArg Prod.fst (thins parent alive).2.1
              simp only [LineageSlot.key] at key
              omega
            obtain ⟨after, thinner', order', done, ok, same', thins', stamp⟩ :=
              ih nearly' linked' atData lower
            exact ⟨after, thinner', order', done, ok, same.trans same', thins.trans thins',
              stamp.trans (congrArg LeafPolicy.stamp leaves)⟩
          | free => exact absurd atData alive

/-- One block less. -/
def Removes (backend after : LineageBackend H) (node : Nat) : Prop :=
  ∀ idx id hash, (after.slots idx).data = .real id hash ↔
    (backend.slots idx).data = .real id hash ∧ idx ≠ node

theorem Ok.removeNodeAt (ok : backend.Ok layout order) (data : (backend.slots idx).data = .real id hash) :
    ∃ after thinner order', backend.removeNodeAt idx = some (after, hash, id) ∧ after.Ok thinner order' ∧
      Removes backend after idx ∧ Thins backend after ∧
      ∀ other, other ≠ idx → after.leaves.stamp other = backend.leaves.stamp other := by
  have real := Real.of_data data
  obtain ⟨leaves, removed, tracks, stamp⟩ := @LeafPolicy.Tracks.onNodeRemoved _ order idx _ ok.tracks
  have graph : (backend.setSlot idx { backend.slots idx with data := .ghost }).Graph layout :=
    ok.graph.setData real.live (by simp) (by simp)
  have real_iff' : ∀ other, (backend.setSlot idx { backend.slots idx with data := .ghost }).Real other ↔
      backend.Real other ∧ other ≠ idx := by
    intro other
    by_cases same : other = idx
    · simp [Real, same, LineageSlot.isReal]
    · simp [Real, same]
  have removes : Removes backend (backend.setSlot idx { backend.slots idx with data := .ghost }) idx := by
    intro other id' hash'
    by_cases same : other = idx
    · simp [same]
    · simp [same]
  have card : (backend.setSlot idx { backend.slots idx with data := .ghost }).reals.card + 1 =
      backend.reals.card := by
    refine (reals_insert graph ok.graph (fun wrong => ((real_iff' idx).mp wrong).2 rfl) fun other => ?_).symm
    rw [real_iff']
    by_cases same : other = idx
    · simp [same, real]
    · simp [same]
  have nearly : { backend.setSlot idx { backend.slots idx with data := .ghost } with
    count := backend.count - 1
    leaves }.Nearly
      layout (order.erase idx) idx := by
    refine ⟨graph.relabel, fun other ne ghost => ?_, tracks.congr real_iff', fun other ne => ?_,
      ok.tracks.nodup.not_mem_erase, ?_⟩
    · refine ok.ghosts other ?_
      simpa [ne] using ghost
    · rw [List.mem_erase_of_ne ne, ok.order_iff]
      exact and_congr_left' ((real_iff' other).trans (and_iff_left ne)).symm
    · have before := ok.count_eq
      change backend.count - 1 = (backend.setSlot idx { backend.slots idx with data := .ghost }).reals.card
      omega
  have linked : { backend.setSlot idx { backend.slots idx with data := .ghost } with
    count := backend.count - 1
    leaves }.Linked := by
    intro other id' hash' atData deep
    obtain ⟨old, ne⟩ := (removes other id' hash').mp atData
    change ((update backend.slots idx _) other).parent ≠ none
    rw [update_of_ne ne]
    exact ok.linked other id' hash' old deep
  have ghosted : Thins backend
      { backend.setSlot idx { backend.slots idx with data := .ghost } with
        count := backend.count - 1
        leaves } := by
    intro other alive
    by_cases same : other = idx
    · subst same
      exact ⟨real.live, by simp [LineageSlot.key], by simp⟩
    · refine ⟨?_, by simp [same], by simp [same]⟩
      simpa [Live, same] using alive
  obtain ⟨after, thinner, order', pruned, ok', same, thins, stamp'⟩ := nearly.prune linked (by simp)
    (show _ < (backend.slots idx).position + 1 by simp)
  refine ⟨after, thinner, order', ?_, ok',
    fun other id' hash' => (same other id' hash').trans (removes other id' hash'),
    ghosted.trans thins, fun other ne => (congrFun stamp' other).trans (stamp other ne)⟩
  simp only [LineageBackend.removeNodeAt, data, removed, Option.bind_eq_bind, Option.bind_some, pruned]

end PegaInfer.Kvbm.LineageBackend
