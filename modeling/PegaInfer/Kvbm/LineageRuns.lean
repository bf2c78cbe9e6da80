import PegaInfer.Kvbm.InactiveIndex

namespace PegaInfer.Kvbm.LineageBackend

open Function PegaInfer.Lib

variable {H : Type} [LineageHash H] {backend after : LineageBackend H} {blocks : Inactive H}
  {idx : Nat} {id : BlockId} {hash : H}

/-- An index without a block, under either policy. -/
inductive Fresh : LineageBackend H → Prop
  | fifo : Fresh (withPolicy (.fifo .empty))
  | tick : Fresh (withPolicy (.tick .empty))

theorem Fresh.represents (fresh : backend.Fresh) : backend.Represents [] := by
  cases fresh with
  | fifo => exact withPolicy_represents FifoPolicy.empty_lists
  | tick => exact withPolicy_represents TickPolicy.empty_tracks

/-- The block lies in one of the slots. -/
def Holds (backend : LineageBackend H) (block : H × BlockId) : Prop :=
  ∃ idx, (backend.slots idx).data = .real block.2 block.1

section Perform

variable [DecidableEq H]

/-- One operation and its answer; `none` is a panic. -/
def perform (backend : LineageBackend H) : IndexOp H → Option (LineageBackend H × List (H × BlockId))
  | .insert hash id => (backend.insert hash id).map fun after => (after, [])
  | .findMatches hashes => backend.findMatches hashes
  | .findMatch hash => (backend.findMatch hash).map fun out => (out.1, out.2.toList)
  | .scanMatches hashes => backend.scanMatches hashes
  | .allocate count => allocate count backend
  | .take hash id => (backend.take hash id).map fun out => (out.1, if out.2 then [(hash, id)] else [])

/-- A step of the index: an operation that does not panic, with its answer. -/
def Answers (backend : LineageBackend H) (call : IndexOp H × List (H × BlockId))
    (after : LineageBackend H) : Prop :=
  backend.perform call.1 = some (after, call.2)

theorem Represents.perform (represents : backend.Represents blocks) {op : IndexOp H}
    (vacant : ∀ hash id, op = .insert hash id →
      ∀ block ∈ blocks, LineageHash.key block.1 ≠ LineageHash.key hash) :
    ∃ after answer blocks', backend.perform op = some (after, answer) ∧
      Inactive.Serves blocks (op, answer) blocks' ∧
      after.Represents blocks' := by
  cases op with
  | insert hash id =>
    obtain ⟨after, done, represents'⟩ : ∃ after, backend.insert hash id = some after ∧
        after.Represents (blocks ++ [(hash, id)]) :=
      represents.insert (vacant hash id rfl)
    exact ⟨after, [], _, by simp [LineageBackend.perform, done], .insert (vacant hash id rfl), represents'⟩
  | findMatches hashes =>
    obtain ⟨after, done, represents'⟩ := represents.findMatches hashes
    exact ⟨after, _, _, done, .findMatches hashes, represents'⟩
  | findMatch hash =>
    obtain ⟨after, done, represents'⟩ := represents.removeByHash hash
    exact ⟨after, _, _, by simp [LineageBackend.perform, LineageBackend.findMatch, done],
      .findMatch hash, represents'⟩
  | scanMatches hashes =>
    obtain ⟨after, done, represents'⟩ := represents.scanMatches hashes
    exact ⟨after, _, _, done, .scanMatches hashes, represents'⟩
  | allocate count =>
    obtain ⟨after, evicted, rest, done, represents', perm, many⟩ := represents.allocate count
    exact ⟨after, evicted, rest, done, .allocate perm many, represents'⟩
  | take hash id =>
    have taken := represents.take hash id
    split_ifs at taken with stored
    · obtain ⟨after, done, represents'⟩ := taken
      exact ⟨after, [(hash, id)], _, by simp [LineageBackend.perform, done], .taken stored, represents'⟩
    · exact ⟨backend, [], blocks, by simp [LineageBackend.perform, taken], .missed stored, represents⟩

/-- The one panic: a second block under a key. -/
theorem Represents.perform_eq_none_iff (represents : backend.Represents blocks) {op : IndexOp H} :
    backend.perform op = none ↔
      ∃ hash id, op = .insert hash id ∧ ∃ block ∈ blocks, LineageHash.key block.1 = LineageHash.key hash := by
  constructor
  · intro panicked
    by_contra fits
    obtain ⟨after, answer, _, done, _⟩ := represents.perform fun hash id same block inside key =>
      fits ⟨hash, id, same, block, inside, key⟩
    rw [panicked] at done
    cases done
  · rintro ⟨hash, id, rfl, occupied⟩
    have panicked : backend.insert hash id = none := represents.insert_none occupied
    rw [LineageBackend.perform, panicked, Option.map_none]

theorem Represents.answers (represents : backend.Represents blocks) {call : IndexOp H × List (H × BlockId)}
    (move : Answers backend call after) : ∃ blocks', Inactive.Serves blocks call blocks' ∧
    after.Represents blocks' := by
  obtain ⟨op, answer⟩ := call
  have vacant : ∀ hash id, op = .insert hash id →
      ∀ block ∈ blocks, LineageHash.key block.1 ≠ LineageHash.key hash := by
    intro hash id same block inside key
    have panicked := represents.perform_eq_none_iff.mpr ⟨hash, id, same, block, inside, key⟩
    rw [Answers, panicked] at move
    cases move
  obtain ⟨after', answer', blocks', done, serves, represents'⟩ := represents.perform vacant
  rw [Answers, done, Option.some.injEq, Prod.mk.injEq] at move
  obtain ⟨rfl, rfl⟩ := move
  exact ⟨blocks', serves, represents'⟩

theorem Represents.has_iff (represents : backend.Represents blocks) :
    backend.has hash = true ↔ ∃ id, (hash, id) ∈ blocks := by
  obtain ⟨layout, order, ok⟩ := represents.ok
  rw [has, Option.isSome_iff_exists]
  constructor
  · rintro ⟨⟨idx, id⟩, found⟩
    exact ⟨id, (represents.mem_iff hash id).mpr ⟨idx, ok.graph.stored_iff.mp found⟩⟩
  · rintro ⟨id, inside⟩
    obtain ⟨idx, data⟩ := (represents.mem_iff hash id).mp inside
    exact ⟨(idx, id), ok.graph.stored_iff.mpr data⟩

theorem run_represents {start : LineageBackend H} {trace : List (IndexOp H × List (H × BlockId))}
    (fresh : start.Fresh)
    (run : LabelledRun Answers start trace backend) :
    ∃ blocks, LabelledRun Inactive.Serves [] trace blocks ∧ backend.Represents blocks :=
  @LabelledRun.simulate _ _ Answers start backend trace _ Inactive.Serves Represents
    (fun represents move => represents.answers move) run [] fresh.represents

/-- Whatever is asked of the index, under either policy, it answers as the list of its blocks
does, and it panics on a second block under a key only. -/
theorem run_serves {start : LineageBackend H} {trace : List (IndexOp H × List (H × BlockId))}
    (fresh : start.Fresh)
    (run : LabelledRun Answers start trace backend) :
    ∃ blocks, LabelledRun Inactive.Serves [] trace blocks ∧ backend.len = blocks.length ∧
      (∀ hash, backend.has hash = true ↔ ∃ id, (hash, id) ∈ blocks) ∧
      ∀ op, backend.perform op = none ↔
        ∃ hash id, op = .insert hash id ∧ ∃ block ∈ blocks, LineageHash.key block.1 =
          LineageHash.key hash := by
  obtain ⟨blocks, served, represents⟩ := run_represents fresh run
  exact ⟨blocks, served, represents.count_eq, fun _ => represents.has_iff, fun _ =>
    represents.perform_eq_none_iff⟩

/-- A hash with its fragments written out. -/
structure PlainHash where
  position : Nat
  fragment : Nat
  parentFragment : Nat
  deriving DecidableEq

instance : LineageHash PlainHash := ⟨PlainHash.position, PlainHash.fragment, PlainHash.parentFragment⟩

/-- A child before its parent, then both given up. -/
def outOfOrder : List (IndexOp PlainHash × List (PlainHash × BlockId)) :=
  [(.insert ⟨1, 7, 3⟩ 4, []), (.insert ⟨0, 3, 0⟩ 5, []), (.allocate 2, [(⟨1, 7, 3⟩, 4), (⟨0, 3, 0⟩, 5)])]

theorem outOfOrder_run : ∃ backend, LabelledRun Answers (withPolicy (.tick .empty)) outOfOrder backend :=
  ⟨_, .cons rfl (.cons rfl (.cons rfl (.nil _)))⟩

theorem run_serves_out_of_order : ∃ backend : LineageBackend PlainHash, ∃ blocks,
    LabelledRun Inactive.Serves [] outOfOrder blocks ∧ backend.len = blocks.length := by
  obtain ⟨backend, run⟩ := outOfOrder_run
  obtain ⟨blocks, served, count, _⟩ := run_serves .tick run
  exact ⟨backend, blocks, served, count⟩

end Perform

section Nodes

/-- The node above in the graph. -/
def Above (backend : LineageBackend H) (child parent : Nat) : Prop :=
  (backend.slots child).parent = some parent

/-- Going up the graph the positions fall by one a node. -/
theorem Graph.position_up {layout : Layout} {leaf : Nat} (graph : backend.Graph layout)
    (live : backend.Live leaf)
    (path : Relation.ReflTransGen backend.Above leaf idx) :
    backend.Live idx ∧ (backend.slots idx).position ≤ (backend.slots leaf).position ∧
      ((backend.slots idx).position = (backend.slots leaf).position → idx = leaf) := by
  induction path with
  | refl => exact ⟨live, le_rfl, fun _ => rfl⟩
  | @tail middle idx _ up ih =>
    obtain ⟨alive, below, _⟩ := ih
    obtain ⟨alive', position⟩ := graph.above middle idx alive up
    exact ⟨alive', by omega, fun same => by omega⟩

/-- Two nodes above one leaf at one position are the same. -/
theorem Graph.above_unique {layout : Layout} {leaf other : Nat} (graph : backend.Graph layout)
    (live : backend.Live leaf)
    (path : Relation.ReflTransGen backend.Above leaf idx)
    (path' : Relation.ReflTransGen backend.Above leaf other)
    (level : (backend.slots idx).position = (backend.slots other).position) : idx = other := by
  have unique : Relator.RightUnique backend.Above := by
    intro child parent parent' up up'
    rw [Above, up, Option.some.injEq] at up'
    exact up'
  have alive := (graph.position_up live path).1
  have alive' := (graph.position_up live path').1
  rcases Relation.ReflTransGen.total_of_right_unique unique path path' with up | up
  · exact ((graph.position_up alive up).2.2 level.symm).symm
  · exact (graph.position_up alive' up).2.2 level

theorem Ok.exists_block_below {layout : Layout} {order : List Nat} (ok : backend.Ok layout order)
    (live : backend.Live idx) :
    ∃ leaf, backend.Real leaf ∧ Relation.ReflTransGen backend.Above leaf idx := by
  obtain ⟨leaf, listed, path⟩ := ok.exists_leaf_below live
  exact ⟨leaf, ((ok.order_iff leaf).mp listed).1, path⟩

/-- The nodes are no more than the blocks' positions, each counted with the block itself, add up to. -/
theorem Ok.card_live_le {layout : Layout} {order : List Nat}
    (ok : backend.Ok layout order) {nodes : Finset Nat}
    (live : ∀ idx ∈ nodes, backend.Live idx) :
    nodes.card ≤ ∑ leaf ∈ backend.reals, ((backend.slots leaf).position + 1) := by
  classical
  have below : ∀ idx ∈ nodes, ∃ leaf, backend.Real leaf ∧ Relation.ReflTransGen backend.Above leaf idx :=
    fun idx inside => ok.exists_block_below (live idx inside)
  choose! leafOf real path using below
  have levels : ∑ leaf ∈ backend.reals, ((backend.slots leaf).position + 1) =
      (backend.reals.sigma fun leaf => Finset.range ((backend.slots leaf).position + 1)).card := by
    rw [Finset.card_sigma]
    exact Finset.sum_congr rfl fun leaf _ => (Finset.card_range _).symm
  rw [levels]
  refine Finset.card_le_card_of_injOn (fun idx => ⟨leafOf idx, (backend.slots idx).position⟩)
    (fun idx inside => ?_) ?_
  · have level := (ok.graph.position_up (real idx inside).live (path idx inside)).2.1
    simp only [Finset.coe_sigma, Set.mem_sigma_iff, Finset.mem_coe, Finset.mem_range, ok.graph.mem_reals]
    exact ⟨real idx inside, by omega⟩
  · intro idx inside other inside' same
    obtain ⟨leaf, level⟩ := Sigma.mk.inj same
    have path' := path other inside'
    rw [← leaf] at path'
    exact ok.graph.above_unique (real idx inside).live (path idx inside) path' (eq_of_heq level)

/-- The arena keeps no cell that nothing needs: each node in use lies above a block, the other
cells are on the free list, so blocks alone bound the nodes in use, and without a block there are none. -/
theorem run_leaks_nothing [DecidableEq H] {start : LineageBackend H}
    {trace : List (IndexOp H × List (H × BlockId))}
    (fresh : start.Fresh) (run : LabelledRun Answers start trace backend) :
    (∀ idx, backend.Live idx → ∃ leaf, backend.Real leaf ∧ Relation.ReflTransGen backend.Above leaf idx) ∧
      (∃ free, Chain backend.siblings backend.freeHead free ∧
        (∀ idx, idx ∈ free ↔ idx < backend.size ∧ ¬ backend.Live idx) ∧
        backend.size ≤ free.length + ∑ leaf ∈ backend.reals, ((backend.slots leaf).position + 1)) ∧
      (backend.len = 0 → ∀ key, backend.index key = none) := by
  classical
  obtain ⟨blocks, _, represents⟩ := run_represents fresh run
  obtain ⟨layout, order, ok⟩ := represents.ok
  refine ⟨fun idx live => ok.exists_block_below live,
    ⟨layout.free, ok.graph.freeChain, ok.graph.free_iff, ?_⟩, fun empty key => ?_⟩
  · have inUse : ((Finset.range backend.size).filter backend.Live).card ≤ _ :=
      ok.card_live_le fun idx inside =>
      (Finset.mem_filter.mp inside).2
    have split := @Finset.card_filter_add_card_filter_not _ (Finset.range backend.size) backend.Live _ _
    have free : ((Finset.range backend.size).filter fun idx => ¬ backend.Live idx) =
        layout.free.toFinset := by
      ext idx
      rw [Finset.mem_filter, Finset.mem_range, List.mem_toFinset, ok.graph.free_iff]
    rw [free, List.toFinset_card_of_nodup ok.graph.freeChain.nodup, Finset.card_range] at split
    omega
  · cases found : backend.index key with
    | none => rfl
    | some idx =>
      obtain ⟨leaf, real, _⟩ := ok.exists_block_below ((ok.graph.indexed key idx).mp found).1
      have inside := ok.graph.mem_reals.mpr real
      rw [Finset.card_eq_zero.mp (ok.count_eq.symm.trans empty)] at inside
      exact absurd inside (Finset.notMem_empty leaf)

theorem run_leaks_nothing_out_of_order : ∃ backend : LineageBackend PlainHash,
    LabelledRun Answers (withPolicy (.tick .empty)) outOfOrder backend ∧
      (backend.len = 0 → ∀ key, backend.index key = none) := by
  obtain ⟨backend, run⟩ := outOfOrder_run
  exact ⟨backend, run, (run_leaks_nothing .tick run).2.2⟩

end Nodes

end PegaInfer.Kvbm.LineageBackend
