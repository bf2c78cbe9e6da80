import PegaInfer.Lib.FramePreserving
import PegaInfer.Kvbm.Store

namespace PegaInfer.Kvbm

open PegaInfer.Lib

/-- What an owner holds of a store: guards of unregistered blocks, guards of
primaries and guards of duplicates. -/
abbrev Holding (H : Type) := Multiset BlockId × Multiset (BlockId × H) × Multiset (BlockId × H)

def SlotState.unregistered {H : Type} : SlotState H → Bool
  | .mutable => true
  | .staged _ => true
  | _ => false

namespace Holding

variable {H : Type}

def guards (ids : List BlockId) : Holding H := (ids, 0, 0)

def primary (id : BlockId) (hash : H) : Holding H := (0, {(id, hash)}, 0)

def duplicate (id : BlockId) (hash : H) : Holding H := (0, 0, {(id, hash)})

def block (block : ImmutableBlock H) : Holding H :=
  match block.keepalive with
  | none => primary block.blockId block.hash
  | some kept => duplicate block.blockId block.hash + primary kept block.hash

def blocks (blocks : List (ImmutableBlock H)) : Holding H := (blocks.map block).sum

end Holding

namespace BlockStore

variable {H : Type} [DecidableEq H]

/-- The pools and the index agree with the slots, and the guards that exist
are exactly the ones `held` lists. -/
structure Ok (store : BlockStore H) (held : Holding H) : Prop where
  free_nodup : store.free.Nodup
  mem_free : ∀ id, id ∈ store.free ↔ id < store.totalBlocks ∧ store.slots id = .reset
  inactive_nodup : (store.inactive.map Prod.snd).Nodup
  mem_inactive : ∀ hash id, (hash, id) ∈ store.inactive ↔ store.slots id = .inactive hash
  active_iff : ∀ hash id, store.activeByHash hash = some id ↔ store.slots id = .primary hash
  inactive_unique : ∀ hash id id', store.slots id = .inactive hash →
    store.slots id' = .inactive hash → id = id'
  inactive_not_active : ∀ hash id id', store.slots id = .inactive hash → store.slots id' ≠ .primary hash
  bounded : ∀ id, store.slots id ≠ .reset → id < store.totalBlocks
  guards : ∀ id, held.1.count id = if (store.slots id).unregistered then 1 else 0
  primaries : ∀ id hash, held.2.1.count (id, hash) = if store.slots id = .primary hash
    then store.strong id else 0
  live : ∀ id hash, store.slots id = .primary hash → 0 < store.strong id
  duplicates : ∀ id hash, held.2.2.count (id, hash) = if store.slots id = .duplicate hash then 1 else 0

variable {store store' : BlockStore H} {held : Holding H} {id : BlockId} {hash : H}

theorem ok_new (totalBlocks : Nat) : (new totalBlocks : BlockStore H).Ok 0 where
  free_nodup := List.nodup_range
  mem_free := by simp [new]
  inactive_nodup := by simp [new]
  mem_inactive := by simp [new]
  active_iff := by simp [new]
  inactive_unique := by simp [new]
  inactive_not_active := by simp [new]
  bounded := by simp [new]
  guards := by simp [new, SlotState.unregistered]
  primaries := by simp [new]
  live := by simp [new]
  duplicates := by simp [new]

theorem Ok.acquire_active (ok : store.Ok held) (active : store.activeByHash hash = some id) :
    { store with strong := Function.update store.strong id (store.strong id + 1) }.Ok
      (Holding.primary id hash + held) := by
  have slot := (ok.active_iff hash id).mp active
  exact
    { ok with
      guards := by simpa [Holding.primary] using ok.guards
      primaries := by
        intro other h
        simp only [Holding.primary, Prod.fst_add, Prod.snd_add, Multiset.count_add, Multiset.count_singleton,
          ok.primaries other h]
        grind [Function.update_apply]
      live := by
        intro other h atOther
        have old := ok.live other h atOther
        grind [Function.update_apply]
      duplicates := by simpa [Holding.primary] using ok.duplicates }

theorem Ok.mem_eraseP_inactive (ok : store.Ok held) (slot : store.slots id = .inactive hash) (h : H)
    (other : BlockId) :
    (h, other) ∈ store.inactive.eraseP (fun entry => entry.1 = hash) ↔
      (h, other) ∈ store.inactive ∧ other ≠ id := by
  have entry := (ok.mem_inactive hash id).mpr slot
  obtain ⟨found, front, back, -, match', split, erased⟩ :=
    List.exists_of_eraseP (p := fun entry : H × BlockId => entry.1 = hash) entry (by simp)
  have nodup := ok.inactive_nodup
  have foundSlot := (ok.mem_inactive found.1 found.2).mp (by simp [split])
  simp only [decide_eq_true_eq] at match'
  have same : found.2 = id := ok.inactive_unique hash _ _ (match' ▸ foundSlot) slot
  have front_fresh : (h, other) ∈ front → other ≠ id := by
    rintro member rfl
    rw [split, List.map_append, List.nodup_append] at nodup
    exact nodup.2.2 other (List.mem_map_of_mem member) found.2 (by simp) same.symm
  have back_fresh : (h, other) ∈ back → other ≠ id := by
    rintro member rfl
    rw [split, List.map_append, List.nodup_append, List.map_cons, List.nodup_cons] at nodup
    exact nodup.2.1.1 (same ▸ List.mem_map_of_mem member)
  have not_found : (h, other) = found → other = id := by
    rintro rfl
    exact same
  rw [erased, split]
  simp only [List.mem_append, List.mem_cons]
  tauto

theorem Ok.resurrect (ok : store.Ok held) (slot : store.slots id = .inactive hash) :
    { store with
      slots := Function.update store.slots id (.primary hash)
      inactive := store.inactive.eraseP (fun entry => entry.1 = hash)
      activeByHash := Function.update store.activeByHash hash (some id)
      strong := Function.update store.strong id 1 }.Ok (Holding.primary id hash + held) := by
  have only := ok.mem_eraseP_inactive slot
  exact
    { free_nodup := ok.free_nodup
      mem_free := by grind [Function.update_apply, ok.mem_free]
      inactive_nodup := ok.inactive_nodup.sublist (List.eraseP_sublist.map _)
      mem_inactive := by grind [Function.update_apply, ok.mem_inactive]
      active_iff := by grind [Function.update_apply, ok.active_iff, ok.inactive_not_active]
      inactive_unique := by grind [Function.update_apply, ok.inactive_unique]
      inactive_not_active := by grind [Function.update_apply, ok.inactive_unique, ok.inactive_not_active]
      bounded := by
        intro other changed
        have old := ok.bounded other
        grind [Function.update_apply]
      guards := by
        intro other
        have old := ok.guards other
        grind [Function.update_apply, Holding.primary, SlotState.unregistered, Prod.fst_add, Prod.snd_add]
      primaries := by
        intro other h
        simp only [Holding.primary, Prod.fst_add, Prod.snd_add, Multiset.count_add, Multiset.count_singleton,
          ok.primaries other h]
        grind [Function.update_apply]
      live := by
        intro other h atOther
        have old := ok.live other h
        grind [Function.update_apply]
      duplicates := by
        intro other h
        have old := ok.duplicates other h
        grind [Function.update_apply, Holding.primary, Prod.fst_add, Prod.snd_add] }

theorem acquireForHash_cases {block : ImmutableBlock H}
    (got : store.acquireForHash hash = some (store', block)) :
    (store.activeByHash hash = some block.blockId ∧ block = ⟨block.blockId, hash, none⟩ ∧
      store' = { store with
        strong := Function.update store.strong block.blockId (store.strong block.blockId + 1) }) ∨
    (store.activeByHash hash = none ∧ (hash, block.blockId) ∈ store.inactive ∧
      block = ⟨block.blockId, hash, none⟩ ∧
      store' =
        { store with
          slots := Function.update store.slots block.blockId (.primary hash)
          inactive := store.inactive.eraseP (fun entry => entry.1 = hash)
          activeByHash := Function.update store.activeByHash hash (some block.blockId)
          strong := Function.update store.strong block.blockId 1 }) := by
  unfold acquireForHash at got
  split at got
  · simp only [Option.some.injEq, Prod.mk.injEq] at got
    obtain ⟨rfl, rfl⟩ := got
    exact Or.inl ⟨‹_›, rfl, rfl⟩
  · split at got
    · simp at got
    · rename_i inactive h id found
      simp only [Option.some.injEq, Prod.mk.injEq] at got
      obtain ⟨rfl, rfl⟩ := got
      have key := List.find?_some found
      simp only [decide_eq_true_eq] at key
      exact Or.inr ⟨‹_›, key ▸ List.mem_of_find?_eq_some found, rfl, rfl⟩

theorem acquireForHash_none (miss : store.acquireForHash hash = none) :
    store.activeByHash hash = none ∧ ∀ id, (hash, id) ∉ store.inactive := by
  unfold acquireForHash at miss
  split at miss
  · simp at miss
  · rename_i active
    split at miss
    · rename_i absent
      simp only [List.find?_eq_none, decide_eq_true_eq] at absent
      exact ⟨active, fun id entry => absent _ entry rfl⟩
    · simp at miss

theorem transfers_acquire {block : ImmutableBlock H}
    (got : store.acquireForHash hash = some (store', block)) :
    Transfers Ok store 0 store' (Holding.block block) := by
  intro frame ok
  rw [zero_add] at ok
  rcases acquireForHash_cases got with ⟨active, shape, rfl⟩ | ⟨-, entry, shape, rfl⟩
  · rw [shape]
    exact ok.acquire_active active
  · rw [shape]
    exact ok.resurrect ((ok.mem_inactive hash block.blockId).mp entry)

theorem transfers_match (hashes : List H) :
    ∀ store : BlockStore H,
      Transfers Ok store 0 (store.matchBlocks hashes).1 (Holding.blocks (store.matchBlocks hashes).2) := by
  induction hashes with
  | nil => exact fun store => .refl store 0
  | cons hash hashes ih =>
    intro store
    simp only [matchBlocks]
    split
    · exact .refl store 0
    · rename_i store' block got
      refine (transfers_acquire got).trans ?_
      have rest := (ih store').frame_left (Holding.block block)
      rw [add_zero] at rest
      simpa only [Holding.blocks, List.map_cons, List.sum_cons] using rest

omit [DecidableEq H] in
theorem allocateAtomic_cases {count : Nat} {ids : List BlockId}
    (got : store.allocateAtomic count = some (store', ids)) :
    count ≤ store.free.length + store.inactive.length ∧
      ids = store.free.take count ++ (store.inactive.take (count - store.free.length)).map Prod.snd ∧
      store' =
        { store with
          slots := fun id => if id ∈ ids then .mutable else store.slots id
          free := store.free.drop count
          inactive := store.inactive.drop (count - store.free.length) } := by
  unfold allocateAtomic at got
  split at got
  · simp at got
  · rename_i enough
    simp only [Option.some.injEq, Prod.mk.injEq] at got
    have amount : count - min count store.free.length = count - store.free.length := by omega
    rw [amount] at got
    obtain ⟨rfl, rfl⟩ := got
    exact ⟨by omega, rfl, rfl⟩

theorem Ok.allocated_slot {count : Nat} {ids : List BlockId} (ok : store.Ok held)
    (got : store.allocateAtomic count = some (store', ids)) (id : BlockId) (member : id ∈ ids) :
    store.slots id = .reset ∧ id < store.totalBlocks ∨ ∃ hash, store.slots id = .inactive hash := by
  obtain ⟨-, rfl, -⟩ := allocateAtomic_cases got
  rcases List.mem_append.mp member with fromFree | fromInactive
  · have known := (ok.mem_free id).mp (List.mem_of_mem_take fromFree)
    exact Or.inl ⟨known.2, known.1⟩
  · obtain ⟨⟨h, other⟩, entry, rfl⟩ := List.mem_map.mp fromInactive
    exact Or.inr ⟨h, (ok.mem_inactive h other).mp (List.mem_of_mem_take entry)⟩

theorem Ok.allocated_nodup {count : Nat} {ids : List BlockId} (ok : store.Ok held)
    (got : store.allocateAtomic count = some (store', ids)) : ids.Nodup := by
  obtain ⟨-, rfl, -⟩ := allocateAtomic_cases got
  refine List.Nodup.append (ok.free_nodup.sublist (List.take_sublist _ _))
    (ok.inactive_nodup.sublist ((List.take_sublist _ _).map _)) ?_
  intro other fromFree fromInactive
  obtain ⟨⟨h, _⟩, entry, rfl⟩ := List.mem_map.mp fromInactive
  have reset := ((ok.mem_free _).mp (List.mem_of_mem_take fromFree)).2
  have inactive := (ok.mem_inactive h _).mp (List.mem_of_mem_take entry)
  simp only [reset] at inactive
  cases inactive

omit [DecidableEq H] in
theorem allocateAtomic_length {count : Nat} {ids : List BlockId}
    (got : store.allocateAtomic count = some (store', ids)) : ids.length = count := by
  obtain ⟨enough, rfl, -⟩ := allocateAtomic_cases got
  simp only [List.length_append, List.length_take, List.length_map]
  omega

theorem Ok.free_not_inactive (ok : store.Ok held) (member : id ∈ store.free) :
    id ∉ store.inactive.map Prod.snd := by
  intro inInactive
  obtain ⟨⟨h, _⟩, entry, rfl⟩ := List.mem_map.mp inInactive
  have reset := ((ok.mem_free _).mp member).2
  have inactive := (ok.mem_inactive h _).mp entry
  simp only [reset] at inactive
  cases inactive

theorem Ok.mem_free_drop (ok : store.Ok held) (count : Nat) (id : BlockId) :
    id ∈ store.free.drop count ↔ id ∈ store.free ∧ id ∉ store.free.take count := by
  have nodup := ok.free_nodup
  rw [← List.take_append_drop count store.free, List.nodup_append] at nodup
  have cover := List.mem_append (a := id) (s := store.free.take count) (t := store.free.drop count)
  rw [List.take_append_drop] at cover
  have apart : id ∈ store.free.take count → id ∉ store.free.drop count :=
    fun left right => nodup.2.2 id left id right rfl
  tauto

theorem Ok.mem_inactive_drop (ok : store.Ok held) (count : Nat) (h : H) (id : BlockId) :
    (h, id) ∈ store.inactive.drop count ↔
      (h, id) ∈ store.inactive ∧ id ∉ (store.inactive.take count).map Prod.snd := by
  have nodup := ok.inactive_nodup
  rw [← List.take_append_drop count store.inactive, List.map_append, List.nodup_append] at nodup
  have cover := List.mem_append (a := (h, id)) (s := store.inactive.take count) (t :=
    store.inactive.drop count)
  rw [List.take_append_drop] at cover
  have apart : id ∈ (store.inactive.take count).map Prod.snd → (h, id) ∉ store.inactive.drop count :=
    fun left right => nodup.2.2 id left id (List.mem_map_of_mem (f := Prod.snd) right) rfl
  have entry := List.mem_map_of_mem (f := Prod.snd) (a := (h, id)) (l := store.inactive.take count)
  tauto

theorem transfers_allocate {count : Nat} {ids : List BlockId}
    (got : store.allocateAtomic count = some (store', ids)) :
    Transfers Ok store 0 store' (Holding.guards ids) := by
  intro frame ok
  rw [zero_add] at ok
  have taken := ok.allocated_slot got
  have nodup := ok.allocated_nodup got
  obtain ⟨-, shape, rfl⟩ := allocateAtomic_cases got
  have left_free := ok.mem_free_drop count
  have left_inactive := ok.mem_inactive_drop (count - store.free.length)
  have free_kept : ∀ id, id ∈ store.free.drop count ↔ id ∈ store.free ∧ id ∉ ids := by
    intro other
    rw [left_free, shape, List.mem_append]
    have apart : other ∈ store.free → other ∉ store.inactive.map Prod.snd := ok.free_not_inactive
    have part := fun h : other ∈ (store.inactive.take (count - store.free.length)).map Prod.snd =>
      (List.Sublist.map Prod.snd (List.take_sublist _ store.inactive)).subset h
    tauto
  have inactive_kept : ∀ h id, (h, id) ∈ store.inactive.drop (count - store.free.length) ↔
      (h, id) ∈ store.inactive ∧ id ∉ ids := by
    intro h other
    rw [left_inactive, shape, List.mem_append]
    have apart : other ∈ store.free → other ∉ store.inactive.map Prod.snd := ok.free_not_inactive
    have part : other ∈ store.free.take count → other ∈ store.free := List.mem_of_mem_take
    have entry := List.mem_map_of_mem (f := Prod.snd) (a := (h, other)) (l := store.inactive)
    tauto
  exact
    { free_nodup := ok.free_nodup.sublist (List.drop_sublist _ _)
      mem_free := by
        intro other
        have old := ok.mem_free other
        grind
      inactive_nodup := ok.inactive_nodup.sublist ((List.drop_sublist _ _).map _)
      mem_inactive := by
        intro h other
        have old := ok.mem_inactive h other
        grind
      active_iff := by
        intro h other
        have old := ok.active_iff h other
        have before := taken other
        grind
      inactive_unique := by
        intro h other other'
        have old := ok.inactive_unique h other other'
        grind
      inactive_not_active := by
        intro h other other'
        have old := ok.inactive_not_active h other other'
        grind
      bounded := by
        intro other
        have old := ok.bounded other
        have before := taken other
        grind
      guards := by
        intro other
        have old := ok.guards other
        have before := taken other
        simp only [Holding.guards, Prod.fst_add, Multiset.count_add, Multiset.coe_count, old]
        by_cases member : other ∈ ids
        · rw [List.count_eq_one_of_mem nodup member]
          rcases before member with ⟨slot, -⟩ | ⟨h, slot⟩ <;> simp [member, slot, SlotState.unregistered]
        · simp [member, List.count_eq_zero_of_not_mem member]
      primaries := by
        intro other h
        have old := ok.primaries other h
        have before := taken other
        simp only [Holding.guards, Prod.snd_add, Prod.fst_add, zero_add, old]
        grind
      live := by
        intro other h
        have old := ok.live other h
        grind
      duplicates := by
        intro other h
        have old := ok.duplicates other h
        have before := taken other
        simp only [Holding.guards, Prod.snd_add, zero_add, old]
        grind }

theorem Ok.slot_of_guard (ok : store.Ok (Holding.guards [id] + held)) :
    store.slots id = .mutable ∨ ∃ hash, store.slots id = .staged hash := by
  have count := ok.guards id
  cases slot : store.slots id <;> simp [Holding.guards, slot, SlotState.unregistered] at count ⊢

theorem Ok.guard_fresh (ok : store.Ok (Holding.guards [id] + held)) : held.1.count id = 0 := by
  have count := ok.guards id
  simp only [Holding.guards, Prod.fst_add, Multiset.count_add, Multiset.coe_singleton,
    Multiset.count_singleton_self]
    at count
  split at count <;> omega

theorem transfers_staged (store : BlockStore H) (id : BlockId) (hash : H) :
    Transfers Ok store (Holding.guards [id]) (store.transitionToStaged id hash) (Holding.guards [id]) := by
  intro frame ok
  have mine := ok.slot_of_guard
  unfold transitionToStaged setSlot
  exact
    { free_nodup := ok.free_nodup
      mem_free := by grind [Function.update_apply, ok.mem_free]
      inactive_nodup := ok.inactive_nodup
      mem_inactive := by grind [Function.update_apply, ok.mem_inactive]
      active_iff := by grind [Function.update_apply, ok.active_iff]
      inactive_unique := by grind [Function.update_apply, ok.inactive_unique]
      inactive_not_active := by grind [Function.update_apply, ok.inactive_not_active]
      bounded := by
        intro other
        have old := ok.bounded other
        grind [Function.update_apply]
      guards := by
        intro other
        rw [ok.guards other]
        grind [Function.update_apply, SlotState.unregistered]
      primaries := by
        intro other h
        rw [ok.primaries other h]
        grind [Function.update_apply]
      live := by
        intro other h
        have old := ok.live other h
        grind [Function.update_apply]
      duplicates := by
        intro other h
        rw [ok.duplicates other h]
        grind [Function.update_apply] }

theorem transfers_releaseMutable (store : BlockStore H) (id : BlockId) :
    Transfers Ok store (Holding.guards [id]) (store.releaseMutable id) 0 := by
  intro frame ok
  have mine := ok.slot_of_guard
  have fresh := ok.guard_fresh
  rw [zero_add]
  unfold releaseMutable setSlot
  exact
    { free_nodup := by
        have apart := ok.mem_free id
        refine ok.free_nodup.append (List.nodup_singleton id) (List.disjoint_singleton.mpr ?_)
        grind
      mem_free := by
        intro other
        have old := ok.mem_free other
        have bound := ok.bounded id
        grind [Function.update_apply]
      inactive_nodup := ok.inactive_nodup
      mem_inactive := by grind [Function.update_apply, ok.mem_inactive]
      active_iff := by grind [Function.update_apply, ok.active_iff]
      inactive_unique := by grind [Function.update_apply, ok.inactive_unique]
      inactive_not_active := by grind [Function.update_apply, ok.inactive_not_active]
      bounded := by
        intro other
        have old := ok.bounded other
        grind [Function.update_apply]
      guards := by
        intro other
        have old := ok.guards other
        simp only [Holding.guards, Prod.fst_add, Multiset.count_add, Multiset.coe_singleton,
          Multiset.count_singleton] at old
        grind [Function.update_apply, SlotState.unregistered]
      primaries := by
        intro other h
        have old := ok.primaries other h
        simp only [Holding.guards, Prod.snd_add, Prod.fst_add, zero_add] at old
        grind [Function.update_apply]
      live := by
        intro other h
        have old := ok.live other h
        grind [Function.update_apply]
      duplicates := by
        intro other h
        have old := ok.duplicates other h
        simp only [Holding.guards, Prod.snd_add, zero_add] at old
        grind [Function.update_apply] }

/-- A staged block registers under a hash no slot has. -/
theorem Ok.register_primary (ok : store.Ok (Holding.guards [id] + held))
    (inactive : ∀ other, (hash, other) ∉ store.inactive)
    (active : store.activeByHash hash = none) :
    { store with
      slots := Function.update store.slots id (.primary hash)
      activeByHash := Function.update store.activeByHash hash (some id)
      strong := Function.update store.strong id 1 }.Ok (Holding.primary id hash + held) := by
  have mine := ok.slot_of_guard
  have fresh := ok.guard_fresh
  have absent := fun other => (ok.active_iff hash other).not.mp (by simp [active])
  exact
    { free_nodup := ok.free_nodup
      mem_free := by grind [Function.update_apply, ok.mem_free]
      inactive_nodup := ok.inactive_nodup
      mem_inactive := by grind [Function.update_apply, ok.mem_inactive]
      active_iff := by grind [Function.update_apply, ok.active_iff]
      inactive_unique := by grind [Function.update_apply, ok.inactive_unique]
      inactive_not_active := by
        intro h other other'
        have old := ok.inactive_not_active h other other'
        have entry := ok.mem_inactive hash other
        have none := inactive other
        grind [Function.update_apply]
      bounded := by
        intro other
        have old := ok.bounded other
        grind [Function.update_apply]
      guards := by
        intro other
        have old := ok.guards other
        simp only [Holding.guards, Prod.fst_add, Multiset.count_add, Multiset.coe_singleton,
          Multiset.count_singleton] at old
        simp only [Holding.primary, Prod.fst_add, zero_add]
        grind [Function.update_apply, SlotState.unregistered]
      primaries := by
        intro other h
        have old := ok.primaries other h
        simp only [Holding.guards, Prod.snd_add, Prod.fst_add, zero_add] at old
        simp only [Holding.primary, Prod.snd_add, Prod.fst_add, Multiset.count_add,
          Multiset.count_singleton, old]
        grind [Function.update_apply]
      live := by
        intro other h
        have old := ok.live other h
        grind [Function.update_apply]
      duplicates := by
        intro other h
        have old := ok.duplicates other h
        simp only [Holding.guards, Prod.snd_add, zero_add] at old
        simp only [Holding.primary, Prod.snd_add, zero_add, old]
        grind [Function.update_apply] }

/-- A staged block registers beside the primary of its hash. -/
theorem Ok.register_duplicate (ok : store.Ok (Holding.guards [id] + held)) (hash : H) :
    { store with
      slots := Function.update store.slots id (.duplicate hash)
      strong := Function.update store.strong id 1 }.Ok (Holding.duplicate id hash + held) := by
  have mine := ok.slot_of_guard
  have fresh := ok.guard_fresh
  exact
    { free_nodup := ok.free_nodup
      mem_free := by grind [Function.update_apply, ok.mem_free]
      inactive_nodup := ok.inactive_nodup
      mem_inactive := by grind [Function.update_apply, ok.mem_inactive]
      active_iff := by grind [Function.update_apply, ok.active_iff]
      inactive_unique := by grind [Function.update_apply, ok.inactive_unique]
      inactive_not_active := by grind [Function.update_apply, ok.inactive_not_active]
      bounded := by
        intro other
        have old := ok.bounded other
        grind [Function.update_apply]
      guards := by
        intro other
        have old := ok.guards other
        simp only [Holding.guards, Prod.fst_add, Multiset.count_add, Multiset.coe_singleton,
          Multiset.count_singleton] at old
        simp only [Holding.duplicate, Prod.fst_add, zero_add]
        grind [Function.update_apply, SlotState.unregistered]
      primaries := by
        intro other h
        have old := ok.primaries other h
        simp only [Holding.guards, Prod.snd_add, Prod.fst_add, zero_add] at old
        simp only [Holding.duplicate, Prod.snd_add, Prod.fst_add, zero_add, old]
        grind [Function.update_apply]
      live := by
        intro other h
        have old := ok.live other h
        grind [Function.update_apply]
      duplicates := by
        intro other h
        have old := ok.duplicates other h
        simp only [Holding.guards, Prod.snd_add, zero_add] at old
        simp only [Holding.duplicate, Prod.snd_add, Multiset.count_add, Multiset.count_singleton, old]
        grind [Function.update_apply] }

theorem transfers_register {block : ImmutableBlock H}
    (got : store.registerCompletedBlock id hash = some (store', block)) :
    Transfers Ok store (Holding.guards [id]) store' (Holding.block block) := by
  intro frame ok
  unfold registerCompletedBlock at got
  split at got
  · rename_i acquired existing acquire
    split at got
    · simp at got
    · simp only [Option.some.injEq, Prod.mk.injEq] at got
      obtain ⟨rfl, rfl⟩ := got
      have pinned := (transfers_acquire acquire).frame (Holding.guards [id]) frame (by rwa [zero_add])
      rw [add_assoc, add_left_comm] at pinned
      have shape : Holding.block existing = Holding.primary existing.blockId hash := by
        rcases acquireForHash_cases acquire with ⟨-, eq, -⟩ | ⟨-, -, eq, -⟩ <;> rw [eq] <;> rfl
      rw [shape] at pinned
      have registered := pinned.register_duplicate hash
      simp only [Holding.block]
      rwa [add_assoc]
  · rename_i miss
    simp only [Option.some.injEq, Prod.mk.injEq] at got
    obtain ⟨rfl, rfl⟩ := got
    obtain ⟨active, inactive⟩ := acquireForHash_none miss
    exact ok.register_primary inactive active

theorem register_shape {block : ImmutableBlock H}
    (got : store.registerCompletedBlock id hash = some (store', block)) :
    block.blockId = id ∧ block.hash = hash := by
  unfold registerCompletedBlock at got
  split at got
  · split at got
    · simp at got
    · simp only [Option.some.injEq, Prod.mk.injEq] at got
      simp [← got.2]
  · simp only [Option.some.injEq, Prod.mk.injEq] at got
    simp [← got.2]

theorem Ok.register_isSome (ok : store.Ok (Holding.guards [id] + held)) (hash : H) :
    ∃ store' block, store.registerCompletedBlock id hash = some (store', block) := by
  have mine := ok.slot_of_guard
  unfold registerCompletedBlock
  split
  · rename_i acquired existing acquire
    have other : existing.blockId ≠ id := by
      rintro rfl
      rcases acquireForHash_cases acquire with ⟨active, -, -⟩ | ⟨-, entry, -, -⟩
      · have slot := (ok.active_iff hash _).mp active
        grind
      · have slot := (ok.mem_inactive hash _).mp entry
        grind
    rw [if_neg other]
    exact ⟨_, _, rfl⟩
  · exact ⟨_, _, rfl⟩

theorem Ok.primary_of_held (ok : store.Ok (Holding.primary id hash + held)) :
    store.slots id = .primary hash := by
  have count := ok.primaries id hash
  by_contra other
  simp [Holding.primary, other] at count

theorem transfers_dropPrimary (store : BlockStore H) (id : BlockId) (hash : H) :
    Transfers Ok store (Holding.primary id hash) (store.dropPrimary id hash) 0 := by
  intro frame ok
  have slot := ok.primary_of_held
  have primaries : ∀ other h, frame.2.1.count (other, h) + (if other = id ∧ h = hash then 1 else 0) =
      if store.slots other = .primary h then store.strong other else 0 := by
    intro other h
    rw [← ok.primaries other h]
    simp only [Holding.primary, Prod.snd_add, Prod.fst_add, Multiset.count_add, Multiset.count_singleton,
      Prod.mk.injEq]
    omega
  have guards : ∀ other, frame.1.count other = if (store.slots other).unregistered then 1 else 0 := by
    simpa [Holding.primary] using ok.guards
  have duplicates : ∀ other h, frame.2.2.count (other, h) = if store.slots other =
      .duplicate h then 1 else 0 := by
    simpa [Holding.primary] using ok.duplicates
  rw [zero_add]
  unfold dropPrimary
  split
  · rename_i last
    unfold setSlot
    exact
      { free_nodup := ok.free_nodup
        mem_free := by grind [Function.update_apply, ok.mem_free]
        inactive_nodup := by
          simp only [List.map_append, List.map_cons, List.map_nil]
          refine ok.inactive_nodup.append (List.nodup_singleton id) (List.disjoint_singleton.mpr ?_)
          intro member
          obtain ⟨⟨h, _⟩, entry, rfl⟩ := List.mem_map.mp member
          have inactive := (ok.mem_inactive h _).mp entry
          simp only [slot] at inactive
          cases inactive
        mem_inactive := by
          intro h other
          have old := ok.mem_inactive h other
          grind [Function.update_apply]
        active_iff := by
          intro h other
          have old := ok.active_iff h other
          have mine := (ok.active_iff hash id).mpr slot
          grind [Function.update_apply]
        inactive_unique := by grind [Function.update_apply, ok.inactive_unique, ok.inactive_not_active]
        inactive_not_active := by
          intro h other other'
          have old := ok.inactive_not_active h other other'
          have mine := (ok.active_iff hash id).mpr slot
          have theirs := ok.active_iff hash other'
          grind [Function.update_apply]
        bounded := by
          intro other
          have old := ok.bounded other
          grind [Function.update_apply]
        guards := by grind [Function.update_apply, SlotState.unregistered]
        primaries := by
          intro other h
          have old := primaries other h
          grind [Function.update_apply]
        live := by
          intro other h
          have old := ok.live other h
          grind [Function.update_apply]
        duplicates := by grind [Function.update_apply] }
  · rename_i more
    exact
      { ok with
        guards
        primaries := by
          intro other h
          have old := primaries other h
          grind [Function.update_apply]
        live := by
          intro other h
          have old := ok.live other h
          grind [Function.update_apply]
        duplicates }

theorem Ok.duplicate_of_held (ok : store.Ok (Holding.duplicate id hash + held)) :
    store.slots id = .duplicate hash := by
  have count := ok.duplicates id hash
  by_contra other
  simp [Holding.duplicate, other] at count

theorem transfers_dropDuplicate (store : BlockStore H) (id : BlockId) (hash : H) :
    Transfers Ok store (Holding.duplicate id hash)
      { store.setSlot id .reset with
        free := store.free ++ [id]
        strong := Function.update store.strong id 0 } 0 := by
  intro frame ok
  have slot := ok.duplicate_of_held
  have primaries : ∀ other h, frame.2.1.count (other, h) =
      if store.slots other = .primary h then store.strong other else 0 := by
    simpa [Holding.duplicate] using ok.primaries
  have guards : ∀ other, frame.1.count other = if (store.slots other).unregistered then 1 else 0 := by
    simpa [Holding.duplicate] using ok.guards
  have duplicates : ∀ other h, frame.2.2.count (other, h) + (if other = id ∧ h = hash then 1 else 0) =
      if store.slots other = .duplicate h then 1 else 0 := by
    intro other h
    rw [← ok.duplicates other h]
    simp only [Holding.duplicate, Prod.snd_add, Multiset.count_add, Multiset.count_singleton, Prod.mk.injEq]
    omega
  rw [zero_add]
  unfold setSlot
  exact
    { free_nodup := by
        have apart := ok.mem_free id
        refine ok.free_nodup.append (List.nodup_singleton id) (List.disjoint_singleton.mpr ?_)
        grind
      mem_free := by
        intro other
        have old := ok.mem_free other
        have bound := ok.bounded id
        grind [Function.update_apply]
      inactive_nodup := ok.inactive_nodup
      mem_inactive := by grind [Function.update_apply, ok.mem_inactive]
      active_iff := by grind [Function.update_apply, ok.active_iff]
      inactive_unique := by grind [Function.update_apply, ok.inactive_unique]
      inactive_not_active := by grind [Function.update_apply, ok.inactive_not_active]
      bounded := by
        intro other
        have old := ok.bounded other
        grind [Function.update_apply]
      guards := by grind [Function.update_apply, SlotState.unregistered]
      primaries := by grind [Function.update_apply]
      live := by
        intro other h
        have old := ok.live other h
        grind [Function.update_apply]
      duplicates := by
        intro other h
        have old := duplicates other h
        grind [Function.update_apply] }

/-- A guard keeps its slot registered, and the primary of its hash active. -/
theorem Ok.slot_of_block {block : ImmutableBlock H} (ok : store.Ok (Holding.block block + held)) :
    (store.slots block.blockId = .primary block.hash ∨ store.slots block.blockId = .duplicate block.hash) ∧
      ∃ primary, store.activeByHash block.hash = some primary := by
  obtain ⟨id, hash, keepalive⟩ := block
  cases keepalive with
  | none =>
    have slot := Ok.primary_of_held ok
    exact ⟨Or.inl slot, id, (ok.active_iff hash id).mpr slot⟩
  | some kept =>
    simp only [Holding.block, add_assoc] at ok
    have slot := ok.duplicate_of_held
    rw [add_left_comm] at ok
    exact ⟨Or.inr slot, kept, (ok.active_iff hash kept).mpr ok.primary_of_held⟩

theorem transfers_dropImmutable (store : BlockStore H) (block : ImmutableBlock H) :
    Transfers Ok store (Holding.block block) (store.dropImmutable block) 0 := by
  obtain ⟨id, hash, keepalive⟩ := block
  cases keepalive with
  | none => exact transfers_dropPrimary store id hash
  | some kept =>
    have reset := (transfers_dropDuplicate store id hash).frame (Holding.primary kept hash)
    rw [zero_add] at reset
    exact reset.trans (transfers_dropPrimary _ kept hash)

theorem transfers_releaseAllMutable (ids : List BlockId) :
    ∀ store : BlockStore H, Transfers Ok store (Holding.guards ids) (store.releaseAllMutable ids) 0 := by
  induction ids with
  | nil => exact fun store => .refl store 0
  | cons id ids ih =>
    intro store
    have first := (transfers_releaseMutable store id).frame (Holding.guards ids)
    rw [zero_add] at first
    have split : Holding.guards [id] + Holding.guards ids = (Holding.guards (id :: ids) : Holding H) := by
      simp [Holding.guards]
    exact (first.congr split rfl).trans (ih _)

theorem transfers_dropAllImmutable (blocks : List (ImmutableBlock H)) :
    ∀ store : BlockStore H, Transfers Ok store (Holding.blocks blocks) (store.dropAllImmutable blocks) 0 := by
  induction blocks with
  | nil => exact fun store => .refl store 0
  | cons block blocks ih =>
    intro store
    have first := (transfers_dropImmutable store block).frame (Holding.blocks blocks)
    rw [zero_add] at first
    exact (first.congr (by simp [Holding.blocks]) rfl).trans (ih _)

theorem Ok.evictInactive (ok : store.Ok held) : store.evictInactive.Ok held := by
  have drained : ∀ id, id ∈ store.inactive.map Prod.snd ↔ ∃ hash, store.slots id = .inactive hash := by
    intro id
    simp only [List.mem_map, Prod.exists, exists_eq_right, ok.mem_inactive]
  unfold BlockStore.evictInactive
  exact
    { free_nodup := by
        refine ok.free_nodup.append ok.inactive_nodup ?_
        intro id inFree
        exact ok.free_not_inactive inFree
      mem_free := by
        intro other
        have old := ok.mem_free other
        have bound := ok.bounded other
        grind
      inactive_nodup := List.nodup_nil
      mem_inactive := by grind
      active_iff := by grind [ok.active_iff]
      inactive_unique := by grind
      inactive_not_active := by grind
      bounded := by
        intro other
        have bound := ok.bounded other
        grind
      guards := by
        intro other
        rw [ok.guards other]
        grind [SlotState.unregistered]
      primaries := by
        intro other h
        rw [ok.primaries other h]
        grind
      live := by
        intro other h
        have old := ok.live other h
        grind
      duplicates := by
        intro other h
        rw [ok.duplicates other h]
        grind }

end BlockStore

end PegaInfer.Kvbm
