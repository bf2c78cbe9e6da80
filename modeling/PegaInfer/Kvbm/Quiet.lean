import PegaInfer.Kvbm.WellFormed

namespace PegaInfer.Kvbm

open PegaInfer.Lib

variable {H : Type} [DecidableEq H]

/-- A slot that can be matched under `hash`, or stands beside one that can. -/
def SlotState.RegisteredAs (slot : SlotState H) (hash : H) : Prop :=
  slot = .primary hash ∨ slot = .duplicate hash ∨ slot = .inactive hash

namespace BlockStore

variable {store store' store'' : BlockStore H} {held : Holding H} {id : BlockId} {hash : H}
  {Named : BlockId → H → Prop}

/-- No block is handed out, and only the `Named` ones are registered anew. -/
def Quiet (Named : BlockId → H → Prop) (store store' : BlockStore H) : Prop :=
  ∀ id, (store'.slots id = .mutable → store.slots id = .mutable) ∧
    ∀ hash, (store'.slots id).RegisteredAs hash → (store.slots id).RegisteredAs hash ∨ Named id hash

omit [DecidableEq H] in
theorem Quiet.refl (store : BlockStore H) : Quiet Named store store := fun _ => ⟨id, fun _ old => Or.inl old⟩

omit [DecidableEq H] in
theorem Quiet.trans (first : Quiet Named store store') (second : Quiet Named store' store'') :
    Quiet Named store store'' := by
  intro id
  refine ⟨fun handed => (first id).1 ((second id).1 handed), fun hash registered => ?_⟩
  rcases (second id).2 hash registered with old | named
  · exact (first id).2 hash old
  · exact Or.inr named

theorem Ok.quiet_acquire (ok : store.Ok held) {block : ImmutableBlock H}
    (got : store.acquireForHash hash = some (store', block)) : Quiet Named store store' := by
  rcases acquireForHash_cases got with ⟨-, -, rfl⟩ | ⟨-, entry, -, rfl⟩
  · exact .refl store
  · have slot := (ok.mem_inactive hash _).mp entry
    intro other
    by_cases same : other = block.blockId
    · subst same
      simp [SlotState.RegisteredAs, slot]
    · simp [Function.update_of_ne same]
      tauto

theorem Ok.quiet_match (hashes : List H) {store : BlockStore H} {held : Holding H} (ok : store.Ok held) :
    Quiet Named store (store.matchBlocks hashes).1 := by
  induction hashes generalizing store held with
  | nil => exact .refl store
  | cons hash hashes ih =>
    simp only [matchBlocks]
    split
    · exact .refl store
    · rename_i next block got
      have after := transfers_acquire got held (by rwa [zero_add])
      exact (ok.quiet_acquire got).trans (ih after)

omit [DecidableEq H] in
theorem quiet_setSlot (id : BlockId) (slot : SlotState H) (idle : slot ≠ .mutable)
    (registered : ∀ hash, slot.RegisteredAs hash → (store.slots id).RegisteredAs hash ∨ Named id hash)
    (slots : store'.slots = Function.update store.slots id slot) : Quiet Named store store' := by
  intro other
  rw [slots]
  by_cases same : other = id
  · subst same
    rw [Function.update_self]
    exact ⟨fun handed => absurd handed idle, registered⟩
  · rw [Function.update_of_ne same]
    exact ⟨fun handed => handed, fun _ old => Or.inl old⟩

omit [DecidableEq H] in
theorem quiet_staged (store : BlockStore H) (id : BlockId) (hash : H) :
    Quiet Named store (store.transitionToStaged id hash) :=
  quiet_setSlot _ _ (by simp) (by simp [SlotState.RegisteredAs]) rfl

omit [DecidableEq H] in
theorem quiet_releaseMutable (store : BlockStore H) (id : BlockId) :
    Quiet Named store (store.releaseMutable id) :=
  quiet_setSlot _ _ (by simp) (by simp [SlotState.RegisteredAs]) rfl

theorem Ok.quiet_register (ok : store.Ok (Holding.guards [id] + held)) {block : ImmutableBlock H}
    (got : store.registerCompletedBlock id hash = some (store', block)) (named : Named id hash) :
    Quiet Named store store' := by
  unfold registerCompletedBlock at got
  split at got
  · rename_i acquired existing acquire
    split at got
    · simp at got
    · simp only [Option.some.injEq, Prod.mk.injEq] at got
      obtain ⟨rfl, -⟩ := got
      refine (ok.quiet_acquire acquire).trans (quiet_setSlot id (.duplicate hash) (by simp) ?_ rfl)
      simp only [SlotState.RegisteredAs]
      grind
  · simp only [Option.some.injEq, Prod.mk.injEq] at got
    obtain ⟨rfl, -⟩ := got
    refine quiet_setSlot id (.primary hash) (by simp) ?_ rfl
    simp only [SlotState.RegisteredAs]
    grind

theorem Ok.quiet_dropPrimary (ok : store.Ok (Holding.primary id hash + held)) :
    Quiet Named store (store.dropPrimary id hash) := by
  have slot := ok.primary_of_held
  unfold dropPrimary
  split
  · refine quiet_setSlot id (.inactive hash) (by simp) ?_ rfl
    simp only [SlotState.RegisteredAs, slot]
    grind
  · exact .refl store

theorem Ok.quiet_dropImmutable {block : ImmutableBlock H} (ok : store.Ok (Holding.block block + held)) :
    Quiet Named store (store.dropImmutable block) := by
  obtain ⟨id, hash, keepalive⟩ := block
  cases keepalive with
  | none => exact Ok.quiet_dropPrimary ok
  | some kept =>
    simp only [Holding.block, add_assoc] at ok
    have reset := transfers_dropDuplicate store id hash _ ok
    rw [zero_add] at reset
    have first : Quiet Named store
        { store.setSlot id .reset with
          free := store.free ++ [id]
          strong := Function.update store.strong id 0 } :=
      quiet_setSlot id .reset (by simp) (by simp [SlotState.RegisteredAs]) rfl
    exact first.trans reset.quiet_dropPrimary

omit [DecidableEq H] in
theorem quiet_releaseAllMutable (ids : List BlockId) :
    ∀ store : BlockStore H, Quiet Named store (store.releaseAllMutable ids) := by
  induction ids with
  | nil => exact .refl
  | cons id ids ih => exact fun store => (quiet_releaseMutable store id).trans (ih _)

theorem Ok.quiet_dropAllImmutable (blocks : List (ImmutableBlock H)) {store : BlockStore H} {held : Holding H}
    (ok : store.Ok (Holding.blocks blocks + held)) : Quiet Named store (store.dropAllImmutable blocks) := by
  induction blocks generalizing store held with
  | nil => exact .refl store
  | cons block blocks ih =>
    simp only [Holding.blocks, List.map_cons, List.sum_cons, add_assoc] at ok
    have after := transfers_dropImmutable store block _ ok
    rw [zero_add] at after
    exact ok.quiet_dropImmutable.trans (ih after)

omit [DecidableEq H] in
theorem quiet_evictInactive (store : BlockStore H) : Quiet Named store store.evictInactive := by
  intro other
  unfold evictInactive
  simp only
  split
  · simp [SlotState.RegisteredAs]
  · exact ⟨id, fun _ old => Or.inl old⟩

end BlockStore

namespace SchedulableSequence

variable {store store' : BlockStore H} {seq seq' : SchedulableSequence H} {Named : BlockId → H → Prop}

open BlockStore

omit [DecidableEq H] in
theorem quiet_stage (entries : List (BlockId × H)) :
    ∀ store : BlockStore H, Quiet Named store
      (entries.foldl (fun store entry => store.transitionToStaged entry.1 entry.2) store) := by
  induction entries with
  | nil => exact .refl
  | cons entry entries ih => exact fun store => (quiet_staged store entry.1 entry.2).trans (ih _)

theorem quiet_registerBlocks {entries : List (BlockId × H)}
    {blocks : List (ImmutableBlock H)} {held : Holding H}
    (ok : store.Ok (Holding.guards (entries.map Prod.fst) + held))
    (got : registerBlocks store entries = some (store', blocks))
    (named : ∀ entry ∈ entries, Named entry.1 entry.2) :
    Quiet Named store store' := by
  induction entries generalizing store blocks held with
  | nil =>
    simp only [registerBlocks, Option.some.injEq, Prod.mk.injEq] at got
    rw [got.1]
    exact .refl store'
  | cons entry entries ih =>
    obtain ⟨id, hash⟩ := entry
    simp only [registerBlocks] at got
    split at got
    · simp at got
    · rename_i next block register
      split at got
      · simp at got
      · rename_i last rest more
        simp only [Option.some.injEq, Prod.mk.injEq] at got
        obtain ⟨rfl, rfl⟩ := got
        rw [List.map_cons, ← List.singleton_append, Holding.guards_append, add_assoc] at ok
        have after := transfers_register register _ ok
        rw [add_left_comm] at after
        exact (ok.quiet_register register (named _ List.mem_cons_self)).trans
          (ih after more fun entry member => named entry (List.mem_cons_of_mem _ member))

theorem Registers.quiet [SequenceHashing H] {tokens : List Token}
    {blocks : List (ImmutableBlock H)} {held : Holding H}
    (registers : seq.Registers tokens store blocks store') (settled : seq.staged = [])
    (ok : store.Ok (seq.holding + held)) :
    Quiet (fun id hash => (id, hash) ∈ seq.pendingEntries tokens) store store' := by
  have ids : (seq.pendingEntries tokens).map Prod.fst = seq.unassigned.take blocks.length := by
    rw [← registers.ids, ← registers.entries, List.map_map]
    rfl
  have split : seq.holding = Holding.guards ((seq.pendingEntries tokens).map Prod.fst) +
      (Holding.guards (seq.unassigned.drop blocks.length) + Holding.blocks seq.assigned) := by
    rw [ids, ← add_assoc, ← Holding.guards_append, List.take_append_drop, holding, settled, add_comm]
    rfl
  rw [split, add_assoc] at ok
  have staged := transfers_stage (seq.pendingEntries tokens) store _ ok
  exact (quiet_stage _ store).trans (quiet_registerBlocks staged registers fun _ member => member)

theorem quiet_matchAndAddPrefix [SequenceHashing H] {held : Holding H} {count : Nat}
    (ok : store.Ok (seq.holding + held))
    (got : seq.matchAndAddPrefix store = .ok (seq', store', count)) : Quiet Named store store' := by
  obtain ⟨-, empty, found, found_eq, rfl, -, -⟩ := matchAndAddPrefix_cases got
  have matched := transfers_match seq.hashes store (seq.holding + held) (by rwa [zero_add])
  rw [← found_eq, ← List.take_append_drop ((seq.numInputTokens - 1) / seq.blockSize) found,
    Holding.blocks_append,
    add_comm (Holding.blocks _), add_assoc] at matched
  exact (ok.quiet_match seq.hashes).trans (matched.quiet_dropAllImmutable _)

theorem quiet_dropBlocks {held : Holding H} (ok : store.Ok (seq.holding + held)) :
    Quiet Named store (seq.dropBlocks store) := by
  rw [holding, add_assoc] at ok
  exact ((ok.quiet_dropAllImmutable seq.assigned).trans (quiet_releaseAllMutable _ _)).trans
    (quiet_releaseAllMutable _ _)

end SchedulableSequence

end PegaInfer.Kvbm
