import PegaInfer.Kvbm.LineageRuns

namespace PegaInfer.Kvbm.LineageBackend

open Function PegaInfer.Lib

variable {H : Type} {backend after : LineageBackend H} {blocks : Inactive H} {idx : Nat}
  {id : BlockId} {hash : H}
  {block : H × BlockId}

/-- One block leaves the graph. -/
def Loses (backend : LineageBackend H) (block : H × BlockId) (after : LineageBackend H) : Prop :=
  ∃ idx, (backend.slots idx).data = .real block.2 block.1 ∧ backend.removeNodeAt idx = some (after, block)

theorem removeNodeAt_data (done : backend.removeNodeAt idx = some (after, block)) :
    (backend.slots idx).data = .real block.2 block.1 := by
  unfold removeNodeAt at done
  cases data : (backend.slots idx).data with
  | real id hash =>
    simp only [data, Option.bind_eq_bind, Option.bind_eq_some_iff, Option.some.injEq, Prod.mk.injEq] at done
    obtain ⟨_, _, _, _, _, rfl⟩ := done
    rfl
  | ghost => simp [data] at done
  | free => simp [data] at done

theorem removeNodeAt_loses (done : backend.removeNodeAt idx = some (after, block)) :
    Loses backend block after :=
  ⟨idx, removeNodeAt_data done, done⟩

theorem allocate_loses {count : Nat} {evicted : List (H × BlockId)}
    (done : allocate count backend = some (after, evicted)) :
    LabelledRun Loses backend evicted after := by
  induction count generalizing backend evicted with
  | zero =>
    cases done
    exact .nil _
  | succ count ih =>
    rw [allocate] at done
    cases victim : backend.leaves.nextVictim with
    | none =>
      rw [victim] at done
      cases done
      exact .nil _
    | some idx =>
      simp only [victim, Option.bind_eq_bind, Option.bind_eq_some_iff, Option.some.injEq,
        Prod.mk.injEq] at done
      obtain ⟨⟨mid, block⟩, first, ⟨last, evicted'⟩, rest, rfl, rfl⟩ := done
      exact .cons (removeNodeAt_loses first) (ih rest)

section Perform

variable [LineageHash H] [DecidableEq H]

theorem removeByHash_loses {found : Option (H × BlockId)}
    (done : backend.removeByHash hash = some (after, found)) :
    LabelledRun Loses backend found.toList after := by
  unfold removeByHash at done
  cases stored : backend.stored hash with
  | none =>
    rw [stored] at done
    cases done
    exact .nil _
  | some entry =>
    simp only [stored, Option.map_eq_some_iff, Prod.mk.injEq] at done
    obtain ⟨⟨mid, block⟩, removed, rfl, rfl⟩ := done
    exact .single (removeNodeAt_loses removed)

theorem findMatches_loses {hashes : List H} {found : List (H × BlockId)}
    (done : backend.findMatches hashes = some (after, found)) : LabelledRun Loses backend found after := by
  induction hashes generalizing backend found with
  | nil =>
    cases done
    exact .nil _
  | cons hash hashes ih =>
    simp only [findMatches, Option.bind_eq_bind, Option.bind_eq_some_iff] at done
    obtain ⟨⟨mid, first⟩, removed, rest⟩ := done
    cases first with
    | none =>
      cases rest
      exact removeByHash_loses removed
    | some block =>
      simp only [Option.bind_eq_some_iff, Option.some.injEq, Prod.mk.injEq] at rest
      obtain ⟨⟨last, found'⟩, rest, rfl, rfl⟩ := rest
      exact (removeByHash_loses removed).append (ih rest)

theorem scanMatches_loses {hashes : List H} {found : List (H × BlockId)}
    (done : backend.scanMatches hashes = some (after, found)) : LabelledRun Loses backend found after := by
  induction hashes generalizing backend found with
  | nil =>
    cases done
    exact .nil _
  | cons hash hashes ih =>
    simp only [scanMatches, Option.bind_eq_bind, Option.bind_eq_some_iff, Option.some.injEq,
      Prod.mk.injEq] at done
    obtain ⟨⟨mid, first⟩, removed, ⟨last, found'⟩, rest, rfl, rfl⟩ := done
    exact (removeByHash_loses removed).append (ih rest)

theorem take_loses {taken : Bool} (done : backend.take hash id = some (after, taken)) :
    LabelledRun Loses backend (if taken then [(hash, id)] else []) after := by
  unfold take at done
  cases stored : backend.stored hash with
  | none =>
    rw [stored] at done
    cases done
    exact .nil _
  | some entry =>
    obtain ⟨idx, storedId⟩ := entry
    simp only [stored] at done
    split_ifs at done with same
    · simp only [Option.map_eq_some_iff, Prod.mk.injEq] at done
      obtain ⟨⟨mid, found⟩, removed, rfl, rfl⟩ := done
      subst same
      simp only [removeByHash, stored, Option.map_eq_some_iff, Prod.mk.injEq] at removed
      obtain ⟨⟨last, block⟩, out, rfl, rfl⟩ := removed
      have data := removeNodeAt_data out
      rw [stored_data stored, SlotData.real.injEq] at data
      obtain ⟨rfl, rfl⟩ := data
      exact .single (removeNodeAt_loses out)
    · cases done
      exact .nil _

/-- Every operation but `insert` takes the blocks out that it answers with, in this order. -/
theorem Answers.loses {op : IndexOp H} {answer : List (H × BlockId)}
    (move : Answers backend (op, answer) after)
    (other : ∀ hash id, op ≠ .insert hash id) : LabelledRun Loses backend answer after := by
  cases op with
  | insert hash id => exact absurd rfl (other hash id)
  | findMatches hashes => exact findMatches_loses move
  | findMatch hash =>
    simp only [Answers, perform, findMatch, Option.map_eq_some_iff, Prod.mk.injEq] at move
    obtain ⟨⟨mid, found⟩, removed, rfl, rfl⟩ := move
    exact removeByHash_loses removed
  | scanMatches hashes => exact scanMatches_loses move
  | allocate count => exact allocate_loses move
  | take hash id =>
    simp only [Answers, perform, Option.map_eq_some_iff, Prod.mk.injEq] at move
    obtain ⟨⟨mid, taken⟩, done, rfl, rfl⟩ := move
    exact take_loses done

end Perform

section Family

variable [LineageHash H]

theorem Ok.vacant_of_insert {layout : Layout} {order : List Nat} (ok : backend.Ok layout order)
    (done : backend.insert hash id = some after) : ¬ backend.Occupied (LineageHash.key hash) := by
  intro occupied
  have panicked : backend.insert hash id = none := ok.insert_occupied occupied
  rw [panicked] at done
  cases done

/-- `child` continues the sequence of `hash` by one block. -/
def ChildOf (child hash : H) : Prop := 0 < LineageHash.position child ∧
    LineageHash.parentKey child = LineageHash.key hash

/-- The blocks are among those once inserted, and a node hangs where a hash inserted at its key says. -/
structure Named (backend : LineageBackend H) (known : List H) : Prop where
  ok : ∃ layout order, backend.Ok layout order
  inserted : ∀ idx id hash, (backend.slots idx).data = .real id hash → hash ∈ known
  parent : ∀ idx parent, backend.Live idx → (backend.slots idx).parent = some parent →
    ∃ hash ∈ known, LineageHash.key hash = (backend.slots idx).key ∧
      (backend.slots parent).key = LineageHash.parentKey hash

variable {known : List H}

theorem Fresh.named (fresh : backend.Fresh) : backend.Named [] := by
  have dead : ∀ idx, ¬ backend.Live idx := by
    cases fresh with
    | fifo => exact fun idx live => live rfl
    | tick => exact fun idx live => live rfl
  exact ⟨fresh.represents.ok, fun idx id hash data => absurd (Real.of_data data).live (dead idx),
    fun idx parent live => absurd live (dead idx)⟩

theorem Named.loses (named : backend.Named known) (move : Loses backend block after) : after.Named known := by
  obtain ⟨layout, order, ok⟩ := named.ok
  obtain ⟨idx, data, done⟩ := move
  obtain ⟨after', thinner, order', done', ok', removes, thins, _⟩ := ok.removeNodeAt data
  rw [done, Option.some.injEq, Prod.mk.injEq] at done'
  obtain ⟨rfl, _⟩ := done'
  refine ⟨⟨thinner, order', ok'⟩, fun other id hash data' => ?_, fun other parent live atParent => ?_⟩
  · exact named.inserted other id hash ((removes other id hash).mp data').1
  · obtain ⟨old, key, sameParent⟩ := thins other live
    have keyParent := (thins parent (ok'.graph.above other parent live atParent).1).2.1
    rw [sameParent] at atParent
    rw [key, keyParent]
    exact named.parent other parent old atParent

theorem Named.lost {lost : List (H × BlockId)} (named : backend.Named known)
    (run : LabelledRun Loses backend lost after) :
    after.Named known := by
  induction run with
  | nil => exact named
  | cons move _ ih => exact ih (named.loses move)

theorem Named.insert (named : backend.Named known) (done : backend.insert hash id = some after) :
    after.Named (known ++ [hash]) := by
  obtain ⟨layout, order, ok⟩ := named.ok
  have vacant := ok.vacant_of_insert done
  obtain ⟨after', wider, order', node, done', ok', adds, grown, _⟩ := ok.insert id vacant
  rw [done, Option.some.injEq] at done'
  subst done'
  refine ⟨⟨wider, order', ok'⟩, fun idx id' hash' data => ?_, fun idx parent live atParent => ?_⟩
  · rcases (adds.2 idx id' hash').mp data with old | ⟨_, _, rfl⟩
    · exact List.mem_append_left _ (named.inserted idx id' hash' old)
    · simp
  · rcases grown.parent idx parent live atParent with ⟨old, atParent'⟩ | ⟨rfl, key⟩
    · obtain ⟨hash', inside, key, keyParent⟩ := named.parent idx parent old atParent'
      have liveParent := (ok.graph.above idx parent old atParent').1
      refine ⟨hash', List.mem_append_left _ inside, ?_, ?_⟩
      · rw [(grown.live idx old).2, key]
      · rw [(grown.live parent liveParent).2, keyParent]
    · have data := (adds.2 idx id hash).mpr (Or.inr ⟨rfl, rfl, rfl⟩)
      exact ⟨hash, by simp, (ok'.graph.keyed idx id hash data).symm, key⟩

/-- The victim is nobody's parent, for hashes whose key names their parent. -/
theorem Named.victim_childless (named : backend.Named known)
    (faithful : ∀ hash ∈ known, ∀ hash' ∈ known, LineageHash.key hash = LineageHash.key hash' →
      LineageHash.parentFragment hash = LineageHash.parentFragment hash')
    (victim : backend.leaves.nextVictim = some idx) (data : (backend.slots idx).data = .real block.2 block.1)
    {other : H × BlockId} (held : backend.Holds other) : ¬ ChildOf other.1 block.1 := by
  rintro ⟨deep, parentKey⟩
  obtain ⟨layout, order, ok⟩ := named.ok
  obtain ⟨child, data'⟩ := held
  have live := (Real.of_data data').live
  have keyed := ok.graph.keyed child other.2 other.1 data'
  obtain ⟨parent, atParent⟩ := Option.ne_none_iff_exists'.mp (ok.linked child other.2 other.1 data' deep)
  obtain ⟨hash, inside, key, above⟩ := named.parent child parent live atParent
  have sameFragment := faithful hash inside other.1
    (named.inserted child other.2 other.1 data') (key.trans keyed)
  have samePosition : LineageHash.position hash = LineageHash.position other.1 :=
    congrArg Prod.fst (key.trans keyed)
  have sameParent : LineageHash.parentKey hash = LineageHash.parentKey other.1 := by
    rw [LineageHash.parentKey, LineageHash.parentKey, sameFragment, samePosition]
  have liveParent := (ok.graph.above child parent live atParent).1
  have first := (ok.graph.indexed _ parent).mpr ⟨liveParent, rfl⟩
  have second := (ok.graph.indexed _ idx).mpr
    ⟨(Real.of_data data).live, ok.graph.keyed idx block.2 block.1 data⟩
  rw [above, sameParent, parentKey, second, Option.some.injEq] at first
  subst first
  have listed : idx ∈ order := by
    rw [ok.tracks.victim] at victim
    exact List.mem_of_head? victim
  have isChild := (ok.graph.child_iff idx child liveParent).mpr ⟨live, atParent⟩
  rw [((ok.order_iff idx).mp listed).2] at isChild
  cases isChild

theorem Named.held_of_lost {lost : List (H × BlockId)} (named : backend.Named known)
    (run : LabelledRun Loses backend lost after) :
    (∀ block ∈ lost, backend.Holds block) ∧ ∀ block, after.Holds block → backend.Holds block := by
  induction run with
  | nil => exact ⟨fun block inside => absurd inside List.not_mem_nil, fun _ held => held⟩
  | @cons first middle last block lost move _ ih =>
    obtain ⟨inLater, kept⟩ := ih (named.loses move)
    obtain ⟨layout, order, ok⟩ := named.ok
    obtain ⟨idx, data, done⟩ := move
    obtain ⟨middle', _, _, done', _, removes, _⟩ := ok.removeNodeAt data
    rw [done, Option.some.injEq, Prod.mk.injEq] at done'
    obtain ⟨rfl, _⟩ := done'
    have back : ∀ other, middle.Holds other → first.Holds other := by
      rintro other ⟨slot, data'⟩
      exact ⟨slot, ((removes slot other.2 other.1).mp data').1⟩
    refine ⟨fun other inside => ?_, fun other held => back other (kept other held)⟩
    rcases List.mem_cons.mp inside with rfl | later
    · exact ⟨idx, data⟩
    · exact back other (inLater other later)

theorem Named.allocate {count : Nat} {evicted : List (H × BlockId)} (named : backend.Named known)
    (faithful : ∀ hash ∈ known, ∀ hash' ∈ known, LineageHash.key hash = LineageHash.key hash' →
      LineageHash.parentFragment hash = LineageHash.parentFragment hash')
    (done : allocate count backend = some (after, evicted)) :
    (evicted.Pairwise fun early late => ¬ ChildOf late.1 early.1) ∧
      ∀ block ∈ evicted, ∀ other, after.Holds other → ¬ ChildOf other.1 block.1 := by
  induction count generalizing backend evicted with
  | zero =>
    cases done
    exact ⟨.nil, fun block inside => absurd inside List.not_mem_nil⟩
  | succ count ih =>
    rw [LineageBackend.allocate] at done
    cases victim : backend.leaves.nextVictim with
    | none =>
      rw [victim] at done
      cases done
      exact ⟨.nil, fun block inside => absurd inside List.not_mem_nil⟩
    | some idx =>
      simp only [victim, Option.bind_eq_bind, Option.bind_eq_some_iff, Option.some.injEq,
        Prod.mk.injEq] at done
      obtain ⟨⟨mid, block⟩, first, ⟨last, evicted'⟩, rest, rfl, rfl⟩ := done
      have named' := named.loses (removeNodeAt_loses first)
      obtain ⟨ordered, apart⟩ := ih named' rest
      have childless : ∀ other, backend.Holds other → ¬ ChildOf other.1 block.1 := fun other held =>
        named.victim_childless faithful victim (removeNodeAt_data first) held
      obtain ⟨inMid, kept⟩ := named.held_of_lost (.cons (removeNodeAt_loses first) (allocate_loses rest))
      refine ⟨List.pairwise_cons.mpr ⟨fun late inside => ?_, ordered⟩, fun early inside other held => ?_⟩
      · exact childless late (inMid late (List.mem_cons_of_mem _ inside))
      · rcases List.mem_cons.mp inside with rfl | later
        · exact childless other (kept other held)
        · exact apart early later other held

end Family

section Age

theorem pair_sublist {α : Type} {first second : α} {items : List α} (inFirst : first ∈ items)
    (inSecond : second ∈ items)
    (ne : first ≠ second) : [first, second].Sublist items ∨ [second, first].Sublist items := by
  obtain ⟨before, rest, rfl⟩ := List.append_of_mem inFirst
  rcases List.mem_append.mp inSecond with early | late
  · have inBefore : [second].Sublist before := List.singleton_sublist.mpr early
    exact Or.inr (inBefore.append (List.singleton_sublist.mpr List.mem_cons_self))
  · have inRest : second ∈ rest := (List.mem_cons.mp late).resolve_left ne.symm
    exact Or.inl (((List.singleton_sublist.mpr inRest).cons_cons first).trans
      (List.sublist_append_right before _))

variable [LineageHash H]

/-- Under the tick policy the blocks' ticks follow the order of insertion. -/
structure Aged (backend : LineageBackend H) (blocks : Inactive H) : Prop where
  represents : backend.Represents blocks
  ticked : ∃ policy, backend.leaves = .tick policy
  older : blocks.Pairwise fun early late => ∀ idx other, (backend.slots idx).data = .real early.2 early.1 →
    (backend.slots other).data = .real late.2 late.1 →
    ∃ tick tick', backend.leaves.stamp idx = some (some tick) ∧
      backend.leaves.stamp other = some (some tick') ∧ tick < tick'

theorem Aged.insert (aged : backend.Aged blocks) (done : backend.insert hash id = some after) :
    after.Aged (blocks ++ [(hash, id)]) := by
  obtain ⟨layout, order, ok⟩ := aged.represents.ok
  obtain ⟨policy, ticks⟩ := aged.ticked
  have vacant := ok.vacant_of_insert done
  have free : ∀ block ∈ blocks, LineageHash.key block.1 ≠ LineageHash.key hash := fun block inside same =>
    vacant (aged.represents.occupied_iff.mpr ⟨block, inside, same⟩)
  obtain ⟨after', wider, order', node, done', ok', adds, _, stamp⟩ := ok.insert id vacant
  obtain ⟨after'', done'', represents'⟩ : ∃ after, backend.insert hash id = some after ∧
      after.Represents (blocks ++ [(hash, id)]) :=
    aged.represents.insert free
  rw [done, Option.some.injEq] at done' done''
  subst done'
  subst done''
  have old : ∀ block ∈ blocks, ∀ idx, (after.slots idx).data = .real block.2 block.1 →
      (backend.slots idx).data = .real block.2 block.1 ∧
        after.leaves.stamp idx = backend.leaves.stamp idx := by
    intro block inside idx data
    rcases (adds.2 idx block.2 block.1).mp data with data' | ⟨_, _, same⟩
    · have ne : idx ≠ node := by
        rintro rfl
        exact adds.1 (Real.of_data data')
      refine ⟨data', ?_⟩
      rw [stamp, ticks]
      simp [LeafPolicy.onNodeInserted, LeafPolicy.stamp, TickPolicy.onNodeInserted, ne]
    · exact absurd (congrArg LineageHash.key same) (free block inside)
  have atNode : after.leaves.stamp node = some (some policy.nextTick) := by
    rw [stamp, ticks]
    simp [LeafPolicy.onNodeInserted, LeafPolicy.stamp, TickPolicy.onNodeInserted]
  refine ⟨represents', LeafPolicy.exists_tick_of_stamp node ?_, List.pairwise_append.mpr ⟨?_, by simp, ?_⟩⟩
  · rw [atNode]
    simp
  · refine aged.older.imp_of_mem fun {early late} inEarly inLate kept i j atI atJ => ?_
    obtain ⟨oldI, sameI⟩ := old early inEarly i atI
    obtain ⟨oldJ, sameJ⟩ := old late inLate j atJ
    rw [sameI, sameJ]
    exact kept i j oldI oldJ
  · intro early inEarly late isNew i j atI atJ
    obtain rfl := List.mem_singleton.mp isNew
    obtain ⟨oldI, sameI⟩ := old early inEarly i atI
    have tracks : policy.Tracks order backend.Real := by
      have kept := ok.tracks
      rwa [ticks] at kept
    obtain ⟨tick, atTick⟩ := Option.isSome_iff_exists.mp ((tracks.ticked i).mp (Real.of_data oldI))
    have isNode : j = node := by
      refine ok'.graph.same_slot atJ ((adds.2 node id hash).mpr (Or.inr ⟨rfl, rfl, rfl⟩)) rfl
    refine ⟨tick, policy.nextTick, ?_, by rw [isNode, atNode], tracks.fresh i tick atTick⟩
    rw [sameI, ticks]
    exact congrArg some atTick

end Age

section Runs

variable [LineageHash H] [DecidableEq H] {trace : List (IndexOp H × List (H × BlockId))}

/-- The hashes that a run inserts. -/
def insertedHashes (trace : List (IndexOp H × List (H × BlockId))) : List H :=
  trace.flatMap fun call =>
    match call.1 with
    | .insert hash _ => [hash]
    | _ => []

theorem Named.answers {known : List H} {call : IndexOp H × List (H × BlockId)} (named : backend.Named known)
    (move : Answers backend call after) : after.Named (known ++ insertedHashes [call]) := by
  obtain ⟨op, answer⟩ := call
  by_cases grows : ∃ hash id, op = .insert hash id
  · obtain ⟨hash, id, rfl⟩ := grows
    simp only [Answers, perform, Option.map_eq_some_iff, Prod.mk.injEq] at move
    obtain ⟨last, done, rfl, _⟩ := move
    exact named.insert done
  · have kept := named.lost (move.loses fun hash id same => grows ⟨hash, id, same⟩)
    have none_ : insertedHashes [(op, answer)] = [] := by
      cases op with
      | insert hash id => exact absurd ⟨hash, id, rfl⟩ grows
      | findMatches hashes => rfl
      | findMatch hash => rfl
      | scanMatches hashes => rfl
      | allocate count => rfl
      | take hash id => rfl
    rwa [none_, List.append_nil]

theorem run_named {start : LineageBackend H} (fresh : start.Fresh)
    (run : LabelledRun Answers start trace backend) :
    backend.Named (insertedHashes trace) := by
  refine LabelledRun.invariant (fun read state =>
    state.Named (insertedHashes read)) run fresh.named fun named move => ?_
  rw [insertedHashes, List.flatMap_append]
  exact named.answers move

/-- No block is given up while a block that continues it stays or is given up later, as long as
no two inserted hashes share a key but not a parent. -/
theorem children_evicted_first {start : LineageBackend H} {count : Nat}
    {evicted : List (H × BlockId)} (fresh : start.Fresh)
    (run : LabelledRun Answers start trace backend)
    (faithful : ∀ hash ∈ insertedHashes trace, ∀ hash' ∈ insertedHashes trace,
      LineageHash.key hash = LineageHash.key hash' →
      LineageHash.parentFragment hash = LineageHash.parentFragment hash')
    (move : Answers backend (.allocate count, evicted) after) :
    (evicted.Pairwise fun early late => ¬ ChildOf late.1 early.1) ∧
      ∀ block ∈ evicted, ∀ hash, after.has hash = true → ¬ ChildOf hash block.1 := by
  obtain ⟨ordered, apart⟩ := (run_named fresh run).allocate faithful move
  refine ⟨ordered, fun block inside hash held => ?_⟩
  obtain ⟨⟨idx, id⟩, found⟩ := Option.isSome_iff_exists.mp held
  exact apart block inside (hash, id) ⟨idx, stored_data found⟩

theorem children_evicted_first_out_of_order : ∃ backend after : LineageBackend PlainHash,
    LabelledRun Answers (withPolicy (.fifo .empty)) (outOfOrder.take 2) backend ∧
      Answers backend (.allocate 2, [(⟨1, 7, 3⟩, 4), (⟨0, 3, 0⟩, 5)]) after ∧
      [((⟨1, 7, 3⟩ : PlainHash), 4), (⟨0, 3, 0⟩, 5)].Pairwise fun early late => ¬ ChildOf late.1 early.1 := by
  have run : ∃ backend, LabelledRun Answers (withPolicy (.fifo .empty)) (outOfOrder.take 2) backend ∧
      ∃ after, Answers backend (.allocate 2, [(⟨1, 7, 3⟩, 4), (⟨0, 3, 0⟩, 5)]) after :=
    ⟨_, .cons rfl (.cons rfl (.nil _)), _, rfl⟩
  obtain ⟨backend, run, after, move⟩ := run
  exact ⟨backend, after, run, move, (children_evicted_first .fifo run (by decide) move).1⟩

/-- The blocks in order of insertion, by what a run inserts and answers. -/
def residents (trace : List (IndexOp H × List (H × BlockId))) : Inactive H :=
  trace.foldl (fun blocks call =>
    match call.1 with
    | .insert hash id => blocks ++ [(hash, id)]
    | _ => call.2.foldl (fun kept block => kept.without block.1) blocks) []

theorem Aged.loses (aged : backend.Aged blocks) (move : Loses backend block after) :
    after.Aged (blocks.without block.1) := by
  obtain ⟨layout, order, ok⟩ := aged.represents.ok
  obtain ⟨policy, ticks⟩ := aged.ticked
  obtain ⟨idx, data, done⟩ := move
  obtain ⟨after', _, _, done', _, removes, _, stamp⟩ := ok.removeNodeAt data
  obtain ⟨after'', done'', represents'⟩ := aged.represents.removeNodeAt data
  rw [done, Option.some.injEq, Prod.mk.injEq] at done' done''
  obtain ⟨rfl, _⟩ := done'
  obtain ⟨rfl, _⟩ := done''
  refine ⟨represents', LeafPolicy.exists_tick_of_stamp (idx + 1) ?_, ?_⟩
  · rw [stamp (idx + 1) (Nat.succ_ne_self idx), ticks]
    simp [LeafPolicy.stamp]
  · refine (aged.older.sublist List.filter_sublist).imp fun {early late} kept i j atI atJ => ?_
    obtain ⟨oldI, neI⟩ := (removes i _ _).mp atI
    obtain ⟨oldJ, neJ⟩ := (removes j _ _).mp atJ
    rw [stamp i neI, stamp j neJ]
    exact kept i j oldI oldJ

theorem Aged.lost {lost : List (H × BlockId)} (aged : backend.Aged blocks)
    (run : LabelledRun Loses backend lost after) :
    after.Aged (lost.foldl (fun kept block => kept.without block.1) blocks) := by
  induction run generalizing blocks with
  | nil => exact aged
  | cons move _ ih => exact ih (aged.loses move)

theorem Aged.answers {call : IndexOp H × List (H × BlockId)} (aged : backend.Aged (residents trace))
    (move : Answers backend call after) : after.Aged (residents (trace ++ [call])) := by
  obtain ⟨op, answer⟩ := call
  rw [residents, List.foldl_append, ← residents]
  by_cases grows : ∃ hash id, op = .insert hash id
  · obtain ⟨hash, id, rfl⟩ := grows
    simp only [Answers, perform, Option.map_eq_some_iff, Prod.mk.injEq] at move
    obtain ⟨last, done, rfl, _⟩ := move
    exact aged.insert done
  · have kept := aged.lost (move.loses fun hash id same => grows ⟨hash, id, same⟩)
    cases op with
    | insert hash id => exact absurd ⟨hash, id, rfl⟩ grows
    | findMatches hashes => exact kept
    | findMatch hash => exact kept
    | scanMatches hashes => exact kept
    | allocate count => exact kept
    | take hash id => exact kept

theorem run_aged (run : LabelledRun Answers (withPolicy (.tick .empty)) trace backend) :
    backend.Aged (residents trace) := by
  refine LabelledRun.invariant (fun read state =>
    state.Aged (residents read)) run ?_ fun aged move => aged.answers move
  exact ⟨Fresh.tick.represents, ⟨_, rfl⟩, .nil⟩

/-- The tick policy gives up the block that was inserted first among those without a child,
whenever they became so. -/
theorem oldest_leaf_evicted {count : Nat} {evicted : List (H × BlockId)}
    (run : LabelledRun Answers (withPolicy (.tick .empty)) trace backend)
    (move : Answers backend (.allocate (count + 1), block :: evicted) after) :
    (∃ idx, (backend.slots idx).data = .real block.2 block.1 ∧ (backend.slots idx).isLeaf = true) ∧
      ∀ other rest, (backend.slots other).data = .real rest.2 rest.1 → (backend.slots other).isLeaf = true →
        rest = block ∨ [block, rest].Sublist (residents trace) := by
  have aged := run_aged run
  obtain ⟨layout, order, ok⟩ := aged.represents.ok
  obtain ⟨policy, ticks⟩ := aged.ticked
  simp only [Answers, perform, allocate] at move
  cases victim : backend.leaves.nextVictim with
  | none => simp [victim] at move
  | some idx =>
    simp only [victim, Option.bind_eq_bind, Option.bind_eq_some_iff, Option.some.injEq,
      Prod.mk.injEq, List.cons.injEq] at move
    obtain ⟨⟨mid, block'⟩, first, _, _, _, rfl, _⟩ := move
    have data := removeNodeAt_data first
    rw [ok.tracks.victim] at victim
    obtain ⟨later, split⟩ := List.head?_eq_some_iff.mp victim
    have tracks : policy.Tracks (idx :: later) backend.Real := by
      have kept := ok.tracks
      rwa [ticks, split] at kept
    refine ⟨⟨idx, data, (ok.graph.isLeaf_iff (Real.of_data data).live).mpr ((ok.order_iff idx).mp ?_).2⟩, ?_⟩
    · exact List.mem_of_head? victim
    · intro other rest data' leaf
      by_contra! wrong
      have real := Real.of_data data'
      have listed : other ∈ idx :: later := by
        rw [← split, ok.order_iff]
        exact ⟨real, (ok.graph.isLeaf_iff real.live).mp leaf⟩
      obtain ⟨tick, tick', atIdx, atOther, least⟩ := tracks.least listed
      have inside := (aged.represents.mem_iff _ _).mpr ⟨idx, data⟩
      have inside' := (aged.represents.mem_iff _ _).mpr ⟨other, data'⟩
      have before := (pair_sublist inside' inside wrong.1).resolve_right wrong.2
      obtain ⟨early, late, atEarly, atLate, less⟩ :=
        List.rel_of_pairwise_cons (aged.older.sublist before) (List.mem_singleton_self _) other idx data' data
      rw [ticks] at atEarly atLate
      rw [LeafPolicy.stamp, Option.some.injEq, atOther, Option.some.injEq] at atEarly
      rw [LeafPolicy.stamp, Option.some.injEq, atIdx, Option.some.injEq] at atLate
      omega

/-- The first root, a leaf again, goes before the second one. -/
def releafed : List (IndexOp PlainHash × List (PlainHash × BlockId)) :=
  [(.insert ⟨0, 3, 0⟩ 4, []), (.insert ⟨1, 7, 3⟩ 5, []), (.insert ⟨0, 9, 0⟩ 6, []),
    (.take ⟨1, 7, 3⟩ 5, [(⟨1, 7, 3⟩, 5)])]

theorem oldest_leaf_evicted_releafed : ∃ backend after : LineageBackend PlainHash,
    LabelledRun Answers (withPolicy (.tick .empty)) releafed backend ∧
      Answers backend (.allocate 1, [(⟨0, 3, 0⟩, 4)]) after ∧
      ∀ (other : Nat) (rest : PlainHash × BlockId), (backend.slots other).data = .real rest.2 rest.1 →
        (backend.slots other).isLeaf = true →
        rest = (⟨0, 3, 0⟩, 4) ∨ [(⟨0, 3, 0⟩, 4), rest].Sublist (residents releafed) := by
  have run : ∃ backend, LabelledRun Answers (withPolicy (.tick .empty)) releafed backend ∧
      ∃ after, Answers backend (.allocate 1, [(⟨0, 3, 0⟩, 4)]) after :=
    ⟨_, .cons rfl (.cons rfl (.cons rfl (.cons rfl (.nil _)))), _, rfl⟩
  obtain ⟨backend, run, after, move⟩ := run
  exact ⟨backend, after, run, move, (oldest_leaf_evicted run move).2⟩

end Runs

end PegaInfer.Kvbm.LineageBackend
