import PegaInfer.Kvbm.Available
import PegaInfer.Kvbm.Operations

namespace PegaInfer.Kvbm

namespace BlockStore

variable {H : Type} [DecidableEq H] {store store' : BlockStore H} {id : BlockId} {hash : H}

/-- Some pool has a block under the hash. -/
def resident (store : BlockStore H) (hash : H) : Bool :=
  (store.activeByHash hash).isSome || decide (hash ∈ store.inactive.map Prod.fst)

/-- The leading hashes of a chain that some pool still has. -/
def residentPrefix (store : BlockStore H) (hashes : List H) : List H := hashes.takeWhile store.resident

theorem acquireForHash_resident {block : ImmutableBlock H}
    (got : store.acquireForHash hash = some (store', block)) :
    store.resident hash = true ∧ block.hash = hash ∧ store'.resident = store.resident := by
  rcases acquireForHash_cases got with ⟨active, shape, rfl⟩ | ⟨-, entry, shape, rfl⟩
  · exact ⟨by simp [resident, active], congrArg ImmutableBlock.hash shape, rfl⟩
  · have inactive := List.mem_map_of_mem (f := Prod.fst) entry
    refine ⟨by simp [resident, inactive], congrArg ImmutableBlock.hash shape, ?_⟩
    funext other
    by_cases same : other = hash
    · subst same
      simp [resident, inactive]
    · have kept : other ∈ (store.inactive.eraseP fun entry => decide (entry.1 = hash)).map Prod.fst ↔
          other ∈ store.inactive.map Prod.fst := by
        simp only [List.mem_map]
        refine exists_congr fun entry => and_congr_left ?_
        rintro rfl
        exact List.mem_eraseP_of_neg (by simpa using same)
      simp only [resident, Function.update_of_ne same, kept]

theorem acquireForHash_eq_none (missing : store.acquireForHash hash = none) :
    store.resident hash = false := by
  unfold acquireForHash at missing
  split at missing
  · simp at missing
  · rename_i inactive
    split at missing
    · rename_i absent
      have gone : hash ∉ store.inactive.map Prod.fst := by
        intro resident
        obtain ⟨entry, member, rfl⟩ := List.mem_map.mp resident
        simpa using List.find?_eq_none.mp absent entry member
      simp [resident, inactive, gone]
    · simp at missing

/-- A match pins the resident prefix of the chain, all of it. -/
theorem matchBlocks_resident (hashes : List H) :
    ∀ store : BlockStore H, (store.matchBlocks hashes).2.map ImmutableBlock.hash =
      store.residentPrefix hashes ∧
      (store.matchBlocks hashes).1.resident = store.resident := by
  induction hashes with
  | nil => exact fun store => ⟨rfl, rfl⟩
  | cons hash hashes ih =>
    intro store
    simp only [matchBlocks]
    split
    · rename_i missing
      simp [residentPrefix, acquireForHash_eq_none missing]
    · rename_i next block got
      obtain ⟨present, named, same⟩ := acquireForHash_resident got
      obtain ⟨found, kept⟩ := ih next
      refine ⟨?_, kept.trans same⟩
      rw [List.map_cons, named, found, residentPrefix, residentPrefix, List.takeWhile_cons,
        if_pos present, same]

theorem mem_residentPrefix {hashes : List H} (member : hash ∈ store.residentPrefix hashes) :
    hash ∈ hashes ∧ store.resident hash = true :=
  ⟨( List.takeWhile_prefix _).subset member, List.mem_takeWhile_imp member⟩

/-- Registering makes its own hash resident and no other. -/
theorem resident_register {block : ImmutableBlock H} {other : H}
    (got : store.registerCompletedBlock id hash = some (store', block)) (now : store'.resident other = true) :
    block.hash = hash ∧ (store.resident other = true ∨ other = hash) := by
  unfold registerCompletedBlock at got
  split at got
  · rename_i acquired existing acquire
    split at got
    · simp at got
    · simp only [Option.some.injEq, Prod.mk.injEq] at got
      obtain ⟨rfl, rfl⟩ := got
      exact ⟨rfl, .inl ((acquireForHash_resident acquire).2.2 ▸ now)⟩
  · simp only [Option.some.injEq, Prod.mk.injEq] at got
    obtain ⟨rfl, rfl⟩ := got
    refine ⟨rfl, ?_⟩
    by_cases same : other = hash
    · exact .inr same
    · simp only [resident, setSlot, Function.update_of_ne same] at now
      exact .inl now

theorem resident_dropPrimary {other : H} (now : (store.dropPrimary id hash).resident other = true) :
    store.resident other = true ∨ other = hash := by
  unfold dropPrimary at now
  split at now
  · by_cases same : other = hash
    · exact .inr same
    · exact .inl (by simpa [resident, setSlot, Function.update_of_ne same, same] using now)
  · exact .inl now

theorem resident_dropImmutable {block : ImmutableBlock H} {other : H}
    (now : (store.dropImmutable block).resident other = true) :
    store.resident other = true ∨ other = block.hash := by
  unfold dropImmutable at now
  split at now
  · exact resident_dropPrimary now
  · exact (resident_dropPrimary now).imp_left id

/-- Dropping guards leaves no page resident that was not theirs. -/
theorem resident_dropAllImmutable {other : H} (blocks : List (ImmutableBlock H)) :
    ∀ store : BlockStore H, (store.dropAllImmutable blocks).resident other = true →
      store.resident other = true ∨ other ∈ blocks.map ImmutableBlock.hash := by
  induction blocks with
  | nil => exact fun store now => .inl now
  | cons block blocks ih =>
    intro store now
    rcases ih (store.dropImmutable block) now with before | later
    · rcases resident_dropImmutable before with old | own
      · exact .inl old
      · exact .inr (by simp [own])
    · exact .inr (List.mem_cons_of_mem _ later)

omit [DecidableEq H] in
theorem releaseAllMutable_pools (ids : List BlockId) :
    ∀ store : BlockStore H, (store.releaseAllMutable ids).activeByHash = store.activeByHash ∧
      (store.releaseAllMutable ids).inactive = store.inactive := by
  induction ids with
  | nil => exact fun store => ⟨rfl, rfl⟩
  | cons id ids ih => exact fun store => ih (store.releaseMutable id)

theorem resident_releaseAllMutable (ids : List BlockId) (store : BlockStore H) :
    (store.releaseAllMutable ids).resident = store.resident := by
  obtain ⟨active, inactive⟩ := releaseAllMutable_pools ids store
  funext other
  simp only [resident, active, inactive]

theorem resident_allocate {count : Nat} {ids : List BlockId} {other : H}
    (got : store.allocateAtomic count = some (store', ids)) (now : store'.resident other = true) :
    store.resident other = true := by
  obtain ⟨-, -, rfl⟩ := allocateAtomic_cases got
  simp only [resident, Bool.or_eq_true, decide_eq_true_eq] at now ⊢
  exact now.imp_right fun member => List.map_subset Prod.fst (List.drop_subset _ _) member

end BlockStore

namespace SchedulableSequence

variable {H : Type} [DecidableEq H] [SequenceHashing H] {seq seq' : SchedulableSequence H}
  {store store' : BlockStore H} {other : H}

omit [SequenceHashing H] in
theorem resident_registerBlocks {entries : List (BlockId × H)} {blocks : List (ImmutableBlock H)}
    (got : registerBlocks store entries = some (store', blocks)) (now : store'.resident other = true) :
    store.resident other = true ∨ other ∈ blocks.map ImmutableBlock.hash := by
  induction entries generalizing store blocks with
  | nil =>
    simp only [registerBlocks, Option.some.injEq, Prod.mk.injEq] at got
    exact .inl (got.1 ▸ now)
  | cons entry entries ih =>
    obtain ⟨id, hash⟩ := entry
    simp only [registerBlocks] at got
    split at got
    · simp at got
    · rename_i next block register
      split at got
      · simp at got
      · rename_i last rest more
        simp only [Option.some.injEq, Prod.mk.injEq] at got
        obtain ⟨rfl, rfl⟩ := got
        rcases ih more with before | later
        · obtain ⟨named, old | own⟩ := BlockStore.resident_register register before
          · exact .inl old
          · exact .inr (by simp [named, own])
        · exact .inr (List.mem_cons_of_mem _ later)

omit [DecidableEq H] [SequenceHashing H] in
theorem stage_pools (entries : List (BlockId × H)) :
    ∀ store : BlockStore H,
      (entries.foldl (fun store entry => store.transitionToStaged entry.1 entry.2) store).inactive =
        store.inactive ∧
        (entries.foldl (fun store entry => store.transitionToStaged entry.1 entry.2) store).activeByHash =
          store.activeByHash ∧
        (entries.foldl (fun store entry => store.transitionToStaged entry.1 entry.2) store).availableBlocks =
          store.availableBlocks := by
  induction entries with
  | nil => exact fun store => ⟨rfl, rfl, rfl⟩
  | cons entry entries ih => exact fun store => ih (store.transitionToStaged entry.1 entry.2)

theorem Registers.resident {tokens : List Token} {blocks : List (ImmutableBlock H)}
    (registers : seq.Registers tokens store blocks store') (now : store'.resident other = true) :
    store.resident other = true ∨ other ∈ blocks.map ImmutableBlock.hash := by
  obtain ⟨inactive, active, -⟩ := stage_pools (seq.pendingEntries tokens) store
  rcases resident_registerBlocks registers now with staged | own
  · exact .inl (by simpa only [BlockStore.resident, inactive, active] using staged)
  · exact .inr own

omit [SequenceHashing H] in
theorem resident_dropBlocks (now : (seq.dropBlocks store).resident other = true) :
    store.resident other = true ∨ other ∈ seq.assigned.map ImmutableBlock.hash := by
  unfold dropBlocks at now
  rw [BlockStore.resident_releaseAllMutable, BlockStore.resident_releaseAllMutable] at now
  exact BlockStore.resident_dropAllImmutable _ _ now

omit [SequenceHashing H] in
theorem Draws.resident {count : Nat} {state : SequenceState} (draws : seq.Draws count state store seq' store')
    (now : store'.resident other = true) : store.resident other = true := by
  obtain ⟨_, alloc, -⟩ := draws
  obtain ⟨ids, -, -, ⟨-, -, rfl⟩ | taken⟩ := allocateBlocks_cases alloc
  · exact now
  · exact BlockStore.resident_allocate taken now

end SchedulableSequence

end PegaInfer.Kvbm
