import PegaInfer.Kvbm.StoreOk

namespace PegaInfer.Kvbm

open PegaInfer.Lib

/-- The blocks an owner keeps out of the pools. -/
def Holding.ids {H : Type} [DecidableEq H] (held : Holding H) : Finset BlockId :=
  held.1.toFinset ∪ (held.2.1.toFinset.image Prod.fst ∪ held.2.2.toFinset.image Prod.fst)

namespace BlockStore

variable {H : Type} [DecidableEq H] {store store' : BlockStore H} {held : Holding H} {id : BlockId} {hash : H}

theorem ids_add (held frame : Holding H) : (held + frame).ids = held.ids ∪ frame.ids := by
  ext id
  simp only [Holding.ids, Prod.fst_add, Prod.snd_add, Multiset.toFinset_add,
    Finset.image_union, Finset.mem_union]
  tauto

theorem Ok.mem_guards (ok : store.Ok held) : id ∈ held.1 ↔ (store.slots id).unregistered = true := by
  rw [← Multiset.one_le_count_iff_mem, ok.guards id]
  split <;> simp_all

theorem Ok.mem_primaries (ok : store.Ok held) : (id, hash) ∈ held.2.1 ↔ store.slots id = .primary hash := by
  have live := ok.live id hash
  rw [← Multiset.one_le_count_iff_mem, ok.primaries id hash]
  split
  · rename_i slot
    exact iff_of_true (live slot) slot
  · simp_all

theorem Ok.mem_duplicates (ok : store.Ok held) :
    (id, hash) ∈ held.2.2 ↔ store.slots id = .duplicate hash := by
  rw [← Multiset.one_le_count_iff_mem, ok.duplicates id hash]
  split <;> simp_all

theorem Ok.mem_ids (ok : store.Ok held) :
    id ∈ held.ids ↔ store.slots id ≠ .reset ∧ ∀ hash, store.slots id ≠ .inactive hash := by
  simp only [Holding.ids, Finset.mem_union, Multiset.mem_toFinset, Finset.mem_image,
    Prod.exists, exists_and_right,
    exists_eq_right, ok.mem_guards, ok.mem_primaries, ok.mem_duplicates]
  cases store.slots id <;> simp [SlotState.unregistered]

/-- Every block is available or held. -/
theorem Ok.available (ok : store.Ok held) : store.availableBlocks + held.ids.card = store.totalBlocks := by
  have free := List.toFinset_card_of_nodup ok.free_nodup
  have inactive := List.toFinset_card_of_nodup ok.inactive_nodup
  rw [List.length_map] at inactive
  have apart : Disjoint store.free.toFinset (store.inactive.map Prod.snd).toFinset := by
    rw [Finset.disjoint_left]
    intro id inFree inInactive
    exact ok.free_not_inactive (List.mem_toFinset.mp inFree) (List.mem_toFinset.mp inInactive)
  have drained : ∀ id, id ∈ store.inactive.map Prod.snd ↔ ∃ hash, store.slots id = .inactive hash := by
    intro id
    simp only [List.mem_map, Prod.exists, exists_eq_right, ok.mem_inactive]
  have held_apart : Disjoint (store.free.toFinset ∪ (store.inactive.map Prod.snd).toFinset) held.ids := by
    rw [Finset.disjoint_left]
    intro id pooled inHeld
    have slot := ok.mem_ids.mp inHeld
    rcases Finset.mem_union.mp pooled with inFree | inInactive
    · exact slot.1 ((ok.mem_free id).mp (List.mem_toFinset.mp inFree)).2
    · obtain ⟨h, atId⟩ := (drained id).mp (List.mem_toFinset.mp inInactive)
      exact slot.2 h atId
  have all : store.free.toFinset ∪ (store.inactive.map Prod.snd).toFinset ∪ held.ids =
      Finset.range store.totalBlocks := by
    ext id
    simp only [Finset.mem_union, List.mem_toFinset, ok.mem_free, drained, ok.mem_ids, Finset.mem_range]
    have bound := ok.bounded id
    cases slot : store.slots id <;> simp_all
  have count := congrArg Finset.card all
  rw [Finset.card_union_of_disjoint held_apart, Finset.card_union_of_disjoint apart, free, inactive,
    Finset.card_range] at count
  exact count

/-- What an owner takes in addition costs at most the blocks it finds in the
pools. -/
theorem Ok.available_gain {before after frame : Holding H} (ok : store.Ok (before + frame))
    (ok' : store'.Ok (after + frame)) (total : store'.totalBlocks = store.totalBlocks)
    {taken : Finset BlockId}
    (cover : after.ids ⊆ before.ids ∪ frame.ids ∪ taken) :
    store.availableBlocks ≤ store'.availableBlocks + taken.card := by
  have old := ok.available
  have new := ok'.available
  rw [ids_add] at old new
  have within : after.ids ∪ frame.ids ⊆ before.ids ∪ frame.ids ∪ taken :=
    Finset.union_subset cover (Finset.subset_union_right.trans Finset.subset_union_left)
  have size := (Finset.card_le_card within).trans (Finset.card_union_le _ _)
  omega

omit [DecidableEq H] in
theorem available_allocate {count : Nat} {ids : List BlockId}
    (got : store.allocateAtomic count = some (store', ids)) :
    store'.availableBlocks + count = store.availableBlocks := by
  obtain ⟨enough, -, rfl⟩ := allocateAtomic_cases got
  simp only [availableBlocks, List.length_drop]
  omega

omit [DecidableEq H] in
theorem allocateAtomic_isSome {count : Nat} (enough : count ≤ store.availableBlocks) :
    ∃ store' ids, store.allocateAtomic count = some (store', ids) := by
  unfold allocateAtomic
  rw [if_neg (by unfold availableBlocks at enough; omega)]
  exact ⟨_, _, rfl⟩

theorem available_acquire {block : ImmutableBlock H}
    (got : store.acquireForHash hash = some (store', block)) :
    store.availableBlocks ≤ store'.availableBlocks +
      (if hash ∈ store.inactive.map Prod.fst then 1 else 0) := by
  rcases acquireForHash_cases got with ⟨-, -, rfl⟩ | ⟨-, entry, -, rfl⟩
  · simp [availableBlocks]
  · have shorter := List.length_eraseP_of_mem (p :=
      fun entry : H × BlockId => decide (entry.1 = hash)) entry (by simp)
    have pos := List.length_pos_of_mem entry
    simp only [availableBlocks, shorter, List.mem_map_of_mem (f := Prod.fst) entry, if_true]
    omega

theorem inactive_acquire {block : ImmutableBlock H} (got : store.acquireForHash hash = some (store', block)) :
    store'.inactive ⊆ store.inactive := by
  rcases acquireForHash_cases got with ⟨-, -, rfl⟩ | ⟨-, -, -, rfl⟩
  · exact List.Subset.refl _
  · exact List.eraseP_subset

/-- Registering costs a block only where it revives an inactive primary. -/
theorem available_register {block : ImmutableBlock H}
    (got : store.registerCompletedBlock id hash = some (store', block)) :
    store.availableBlocks ≤ store'.availableBlocks + (if hash ∈ store.inactive.map Prod.fst then 1 else 0) ∧
      store'.inactive ⊆ store.inactive := by
  unfold registerCompletedBlock at got
  split at got
  · rename_i acquired existing acquire
    split at got
    · simp at got
    · simp only [Option.some.injEq, Prod.mk.injEq] at got
      obtain ⟨rfl, -⟩ := got
      have cost := available_acquire acquire
      have fewer := inactive_acquire acquire
      exact ⟨cost, fewer⟩
  · simp only [Option.some.injEq, Prod.mk.injEq] at got
    obtain ⟨rfl, -⟩ := got
    exact ⟨Nat.le_add_right _ _, List.Subset.refl _⟩

theorem active_acquire {block : ImmutableBlock H} {other : H}
    (got : store.acquireForHash hash = some (store', block))
    (active : (store.activeByHash other).isSome) : (store'.activeByHash other).isSome := by
  rcases acquireForHash_cases got with ⟨-, -, rfl⟩ | ⟨-, -, -, rfl⟩
  · exact active
  · by_cases same : other = hash
    · simp [same]
    · simpa [Function.update_of_ne same] using active

theorem acquire_of_active (active : (store.activeByHash hash).isSome) :
    ∃ store' block, store.acquireForHash hash = some (store', block) := by
  obtain ⟨id, known⟩ := Option.isSome_iff_exists.mp active
  simp only [acquireForHash, known]
  exact ⟨_, _, rfl⟩

/-- A match covers every leading hash whose primary is active. -/
theorem matchBlocks_covers (front rest : List H) :
    ∀ store : BlockStore H, (∀ hash ∈ front, (store.activeByHash hash).isSome) →
      front.length ≤ (store.matchBlocks (front ++ rest)).2.length := by
  induction front with
  | nil => simp
  | cons hash front ih =>
    intro store active
    obtain ⟨store', block, got⟩ := acquire_of_active (active hash List.mem_cons_self)
    have more := ih store' fun other member =>
      active_acquire got (active other (List.mem_cons_of_mem _ member))
    simp only [List.cons_append, matchBlocks, got, List.length_cons]
    omega

section Drops

theorem available_dropPrimary (store : BlockStore H) (id : BlockId) (hash : H) :
    store.availableBlocks ≤ (store.dropPrimary id hash).availableBlocks := by
  unfold dropPrimary
  split
  · simp only [availableBlocks, setSlot, List.length_append, List.length_singleton]
    omega
  · exact le_rfl

theorem available_dropImmutable (store : BlockStore H) (block : ImmutableBlock H) :
    store.availableBlocks ≤ (store.dropImmutable block).availableBlocks := by
  unfold dropImmutable
  split
  · exact available_dropPrimary store _ _
  · refine le_trans ?_ (available_dropPrimary _ _ _)
    simp only [availableBlocks, setSlot, List.length_append, List.length_singleton]
    omega

/-- Dropping guards never costs a block. -/
theorem available_dropAllImmutable (blocks : List (ImmutableBlock H)) :
    ∀ store : BlockStore H, store.availableBlocks ≤ (store.dropAllImmutable blocks).availableBlocks := by
  induction blocks with
  | nil => exact fun store => le_rfl
  | cons block blocks ih =>
    exact fun store => (available_dropImmutable store block).trans (ih (store.dropImmutable block))

omit [DecidableEq H] in
theorem available_evictInactive (store : BlockStore H) :
    store.evictInactive.availableBlocks = store.availableBlocks := by
  simp [availableBlocks, evictInactive]

end Drops

section Total

theorem acquire_total {block : ImmutableBlock H} (got : store.acquireForHash hash = some (store', block)) :
    store'.totalBlocks = store.totalBlocks := by
  rcases acquireForHash_cases got with ⟨-, -, rfl⟩ | ⟨-, -, -, rfl⟩ <;> rfl

@[simp]
theorem matchBlocks_total (hashes : List H) :
    ∀ store : BlockStore H, (store.matchBlocks hashes).1.totalBlocks = store.totalBlocks := by
  induction hashes with
  | nil => exact fun store => rfl
  | cons hash hashes ih =>
    intro store
    simp only [matchBlocks]
    split
    · rfl
    · rename_i next block got
      rw [← acquire_total got]
      exact ih next

@[simp]
theorem dropPrimary_total (store : BlockStore H) (id : BlockId) (hash : H) :
    (store.dropPrimary id hash).totalBlocks = store.totalBlocks := by
  unfold dropPrimary
  split <;> rfl

@[simp]
theorem dropImmutable_total (store : BlockStore H) (block : ImmutableBlock H) :
    (store.dropImmutable block).totalBlocks = store.totalBlocks := by
  unfold dropImmutable
  split
  · exact dropPrimary_total _ _ _
  · rw [dropPrimary_total]
    rfl

@[simp]
theorem dropAllImmutable_total (blocks : List (ImmutableBlock H)) :
    ∀ store : BlockStore H, (store.dropAllImmutable blocks).totalBlocks = store.totalBlocks := by
  induction blocks with
  | nil => exact fun store => rfl
  | cons block blocks ih =>
    exact fun store => (ih (store.dropImmutable block)).trans (dropImmutable_total store block)

end Total

end BlockStore

end PegaInfer.Kvbm
