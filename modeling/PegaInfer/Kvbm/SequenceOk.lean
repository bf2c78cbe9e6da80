import PegaInfer.Kvbm.Available
import PegaInfer.Kvbm.Sequence

namespace PegaInfer.Kvbm

open PegaInfer.Lib

theorem map_fst_zip_take {A B : Type*} (left : List A) (right : List B) :
    (left.zip right).map Prod.fst = left.take (min left.length right.length) := by
  rw [List.zip_eq_zip_take_min, List.map_fst_zip (by simp)]

theorem map_snd_zip_take {A B : Type*} (left : List A) (right : List B) :
    (left.zip right).map Prod.snd = right.take (min left.length right.length) := by
  rw [List.zip_eq_zip_take_min, List.map_snd_zip (by simp)]

namespace Holding

variable {H : Type}

@[simp]
theorem guards_nil : (guards [] : Holding H) = 0 := rfl

@[simp]
theorem blocks_nil : (blocks [] : Holding H) = 0 := rfl

theorem guards_append (ids more : List BlockId) :
    (guards (ids ++ more) : Holding H) = guards ids + guards more := by
  simp [guards]

theorem guards_perm {ids more : List BlockId} (perm : ids.Perm more) :
    (guards ids : Holding H) = guards more := by
  simp only [guards, Multiset.coe_eq_coe.mpr perm]

theorem blocks_mem {held : List (ImmutableBlock H)} {guard : ImmutableBlock H} (member : guard ∈ held) :
    ∃ rest, blocks held = block guard + rest := by
  obtain ⟨front, back, rfl⟩ := List.append_of_mem member
  exact ⟨blocks front + blocks back, by simp [blocks, add_left_comm]⟩

theorem blocks_append (first second : List (ImmutableBlock H)) :
    blocks (first ++ second) = blocks first + blocks second := by
  simp [blocks]

end Holding

namespace SchedulableSequence

variable {H : Type} [DecidableEq H] {store store' : BlockStore H} {seq seq' : SchedulableSequence H}

/-- What a sequence holds of the store. -/
def holding (seq : SchedulableSequence H) : Holding H :=
  Holding.blocks seq.assigned + Holding.guards (seq.staged.map Prod.fst ++ seq.unassigned)

omit [DecidableEq H] in
theorem allocateBlocks_cases {count : Nat} (got : seq.allocateBlocks count store = some (seq', store')) :
    ∃ ids, ids.length = count ∧ seq' = { seq with unassigned := seq.unassigned ++ ids } ∧
      (count = 0 ∧ ids = [] ∧ store' = store ∨ store.allocateAtomic count = some (store', ids)) := by
  unfold allocateBlocks at got
  split at got
  · rename_i none
    simp only [Option.some.injEq, Prod.mk.injEq] at got
    obtain ⟨rfl, rfl⟩ := got
    exact ⟨[], by simp [none], by simp, Or.inl ⟨none, rfl, rfl⟩⟩
  · split at got
    · simp at got
    · rename_i allocated ids alloc
      simp only [Option.some.injEq, Prod.mk.injEq] at got
      obtain ⟨rfl, rfl⟩ := got
      exact ⟨ids, BlockStore.allocateAtomic_length alloc, rfl, Or.inr alloc⟩

omit [DecidableEq H] in
theorem available_allocateBlocks {count : Nat} (got : seq.allocateBlocks count store = some (seq', store')) :
    store'.availableBlocks + count = store.availableBlocks := by
  obtain ⟨ids, -, -, ⟨rfl, -, rfl⟩ | alloc⟩ := allocateBlocks_cases got
  · simp
  · exact BlockStore.available_allocate alloc

omit [DecidableEq H] in
theorem allocateBlocks_isSome (seq : SchedulableSequence H) {count : Nat}
    (enough : count ≤ store.availableBlocks) :
    ∃ seq' store', seq.allocateBlocks count store = some (seq', store') := by
  unfold allocateBlocks
  split
  · exact ⟨_, _, rfl⟩
  · obtain ⟨store', ids, alloc⟩ := BlockStore.allocateAtomic_isSome enough
    rw [alloc]
    exact ⟨_, _, rfl⟩

theorem transfers_allocateBlocks {count : Nat} (got : seq.allocateBlocks count store = some (seq', store')) :
    Transfers BlockStore.Ok store seq.holding store' seq'.holding := by
  obtain ⟨ids, -, rfl, ⟨-, rfl, rfl⟩ | alloc⟩ := allocateBlocks_cases got
  · simpa using Transfers.refl store' seq.holding
  · have step := (BlockStore.transfers_allocate alloc).frame_left seq.holding
    refine step.congr (add_zero _) ?_
    simp only [holding, ← List.append_assoc, Holding.guards_append, add_assoc]

theorem transfers_stage (entries : List (BlockId × H)) :
    ∀ store : BlockStore H, Transfers BlockStore.Ok store (Holding.guards (entries.map Prod.fst))
      (entries.foldl (fun store entry => store.transitionToStaged entry.1 entry.2) store)
      (Holding.guards (entries.map Prod.fst)) := by
  induction entries with
  | nil => exact fun store => .refl store _
  | cons entry entries ih =>
    intro store
    have split : Holding.guards ((entry :: entries).map Prod.fst) =
        (Holding.guards [entry.1] + Holding.guards (entries.map Prod.fst) : Holding H) := by
      rw [← Holding.guards_append]
      rfl
    have first := (BlockStore.transfers_staged store entry.1 entry.2).frame
      (Holding.guards (entries.map Prod.fst))
    have rest := (ih (store.transitionToStaged entry.1 entry.2)).frame_left (Holding.guards [entry.1])
    rw [split]
    exact first.trans rest

theorem registerBlocks_shape {entries : List (BlockId × H)} {blocks : List (ImmutableBlock H)}
    (got : registerBlocks store entries = some (store', blocks)) :
    blocks.map (fun block => (block.blockId, block.hash)) = entries := by
  induction entries generalizing store blocks with
  | nil =>
    simp only [registerBlocks, Option.some.injEq, Prod.mk.injEq] at got
    rw [← got.2]
    rfl
  | cons entry entries ih =>
    obtain ⟨id, hash⟩ := entry
    simp only [registerBlocks] at got
    split at got
    · simp at got
    · rename_i next block register
      split at got
      · simp at got
      · rename_i last rest more
        simp only [Option.some.injEq, Prod.mk.injEq] at got
        obtain ⟨rfl, rfl⟩ := got
        obtain ⟨sameId, sameHash⟩ := BlockStore.register_shape register
        simp [ih more, sameId, sameHash]

theorem transfers_registerBlocks {entries : List (BlockId × H)} {blocks : List (ImmutableBlock H)}
    (got : registerBlocks store entries = some (store', blocks)) :
    Transfers BlockStore.Ok store (Holding.guards (entries.map Prod.fst)) store' (Holding.blocks blocks) := by
  induction entries generalizing store blocks with
  | nil =>
    simp only [registerBlocks, Option.some.injEq, Prod.mk.injEq] at got
    obtain ⟨rfl, rfl⟩ := got
    exact .refl _ _
  | cons entry entries ih =>
    obtain ⟨id, hash⟩ := entry
    simp only [registerBlocks] at got
    split at got
    · simp at got
    · rename_i next block register
      split at got
      · simp at got
      · rename_i last rest more
        simp only [Option.some.injEq, Prod.mk.injEq] at got
        obtain ⟨rfl, rfl⟩ := got
        have first := (BlockStore.transfers_register register).frame (Holding.guards (entries.map Prod.fst))
        have second := (ih more).frame_left (Holding.block block)
        refine (first.trans second).congr ?_ (by simp [Holding.blocks])
        rw [← Holding.guards_append]
        rfl

theorem registerBlocks_isSome (entries : List (BlockId × H)) {held : Holding H}
    (ok : store.Ok (Holding.guards (entries.map Prod.fst) + held)) :
    ∃ store' blocks, registerBlocks store entries = some (store', blocks) := by
  induction entries generalizing store held with
  | nil => exact ⟨store, [], rfl⟩
  | cons entry entries ih =>
    obtain ⟨id, hash⟩ := entry
    have split : Holding.guards (((id, hash) :: entries).map Prod.fst) =
        (Holding.guards [id] + Holding.guards (entries.map Prod.fst) : Holding H) := by
      rw [← Holding.guards_append]
      rfl
    rw [split, add_assoc] at ok
    obtain ⟨next, block, register⟩ := ok.register_isSome hash
    have after := BlockStore.transfers_register register _ ok
    rw [add_left_comm] at after
    obtain ⟨last, rest, more⟩ := ih after
    exact ⟨last, block :: rest, by simp [registerBlocks, register, more]⟩

section Registering

variable [SequenceHashing H]

/-- The blocks a registration of the pending token blocks of `tokens` takes,
with the hash each gets. -/
def pendingEntries (seq : SchedulableSequence H) (tokens : List Token) : List (BlockId × H) :=
  seq.unassigned.zip ((sequenceHashes seq.blockSize seq.salt tokens).drop seq.assigned.length)

/-- `complete_and_register_pending` over `tokens`, from the store's side. -/
def Registers (seq : SchedulableSequence H) (tokens : List Token) (store : BlockStore H)
    (blocks : List (ImmutableBlock H)) (store' : BlockStore H) : Prop :=
  registerBlocks ((seq.pendingEntries tokens).foldl
    (fun store entry => store.transitionToStaged entry.1 entry.2) store)
    (seq.pendingEntries tokens) = some (store', blocks)

/-- The sequence after that registration. -/
def registered (seq : SchedulableSequence H) (blocks : List (ImmutableBlock H)) : SchedulableSequence H :=
  { seq with assigned := seq.assigned ++ blocks, unassigned := seq.unassigned.drop blocks.length }

variable {blocks : List (ImmutableBlock H)} {tokens : List Token}

theorem Registers.entries (registers : seq.Registers tokens store blocks store') :
    blocks.map (fun block => (block.blockId, block.hash)) = seq.pendingEntries tokens :=
  registerBlocks_shape registers

theorem Registers.length (registers : seq.Registers tokens store blocks store') :
    blocks.length = min seq.unassigned.length (tokens.length / seq.blockSize - seq.assigned.length) := by
  have shape := congrArg List.length registers.entries
  simpa [pendingEntries, sequenceHashes] using shape

theorem Registers.ids (registers : seq.Registers tokens store blocks store') :
    blocks.map ImmutableBlock.blockId = seq.unassigned.take blocks.length := by
  have shape := congrArg (List.map Prod.fst) registers.entries
  rw [List.map_map, pendingEntries, map_fst_zip_take] at shape
  have length := registers.length
  simp only [List.length_drop, sequenceHashes, List.length_map, List.length_range] at shape
  rw [show (Prod.fst ∘ fun block : ImmutableBlock H => (block.blockId, block.hash)) =
    ImmutableBlock.blockId from rfl]
    at shape
  rw [shape, length]

theorem Registers.hashes (registers : seq.Registers tokens store blocks store') :
    blocks.map ImmutableBlock.hash =
      ((sequenceHashes seq.blockSize seq.salt tokens).drop seq.assigned.length).take blocks.length := by
  have shape := congrArg (List.map Prod.snd) registers.entries
  rw [List.map_map, pendingEntries, map_snd_zip_take] at shape
  have length := registers.length
  rw [show (Prod.snd ∘ fun block : ImmutableBlock H => (block.blockId, block.hash)) =
    ImmutableBlock.hash from rfl]
    at shape
  rw [shape, List.take_eq_take_iff]
  simp only [List.length_drop, sequenceHashes, List.length_map, List.length_range]
  omega

theorem Registers.transfers (registers : seq.Registers tokens store blocks store')
    (settled : seq.staged = []) :
    Transfers BlockStore.Ok store seq.holding store' (seq.registered blocks).holding := by
  have ids : (seq.pendingEntries tokens).map Prod.fst = seq.unassigned.take blocks.length := by
    rw [← registers.ids, ← registers.entries, List.map_map]
    rfl
  have step := (transfers_stage _ store).trans (transfers_registerBlocks registers)
  rw [ids] at step
  have framed := (step.frame (Holding.guards (seq.unassigned.drop blocks.length))).frame_left
    (Holding.blocks seq.assigned)
  refine framed.congr ?_ ?_
  · rw [← Holding.guards_append, List.take_append_drop, holding, settled]
    rfl
  · simp only [holding, registered, settled, Holding.blocks_append, List.map_nil, List.nil_append, add_assoc]

theorem completeAndRegisterPending_cases (got : seq.completeAndRegisterPending store = some (seq', store'))
    (settled : seq.staged = []) :
    ∃ blocks, seq.Registers seq.tokens store blocks store' ∧ seq' = seq.registered blocks := by
  simp only [completeAndRegisterPending, stagePending, registerStaged, settled,
    List.nil_append, List.length_nil,
    Nat.add_zero] at got
  split at got
  · simp at got
  · rename_i final blocks register
    simp only [Option.some.injEq, Prod.mk.injEq] at got
    obtain ⟨rfl, rfl⟩ := got
    have registers : seq.Registers seq.tokens store blocks final := register
    refine ⟨blocks, registers, ?_⟩
    have length := congrArg List.length registers.entries
    rw [List.length_map] at length
    simp only [registered, settled, pendingEntries, hashes] at length ⊢
    rw [length]

theorem completeAndRegisterPending_isSome {held : Holding H} (settled : seq.staged = [])
    (ok : store.Ok (seq.holding + held)) :
    ∃ blocks store', seq.Registers seq.tokens store blocks store' ∧
      seq.completeAndRegisterPending store = some (seq.registered blocks, store') := by
  have ids : (seq.pendingEntries seq.tokens).map Prod.fst =
      seq.unassigned.take (seq.pendingEntries seq.tokens).length := by
    rw [pendingEntries, map_fst_zip_take, List.length_zip]
  have split : seq.holding = Holding.guards ((seq.pendingEntries seq.tokens).map Prod.fst) +
      (Holding.guards (seq.unassigned.drop (seq.pendingEntries seq.tokens).length) +
        Holding.blocks seq.assigned) := by
    rw [ids, ← add_assoc, ← Holding.guards_append, List.take_append_drop, holding, settled, add_comm]
    rfl
  rw [split, add_assoc] at ok
  have staged := transfers_stage (seq.pendingEntries seq.tokens) store _ ok
  obtain ⟨store', blocks, register⟩ := registerBlocks_isSome _ staged
  have registers : seq.Registers seq.tokens store blocks store' := register
  refine ⟨blocks, store', registers, ?_⟩
  have some : seq.completeAndRegisterPending store =
      some ({ seq with
        assigned := seq.assigned ++ blocks, staged := []
        unassigned := seq.unassigned.drop (seq.pendingEntries seq.tokens).length }, store') := by
    simp only [completeAndRegisterPending, stagePending, registerStaged, settled,
      List.nil_append, List.length_nil,
      Nat.add_zero]
    simp only [pendingEntries] at register
    simp only [hashes, register, pendingEntries]
  obtain ⟨more, registers', same⟩ := completeAndRegisterPending_cases some settled
  have eq : blocks = more := congrArg Prod.snd (Option.some.inj (registers.symm.trans registers'))
  rw [some, same, eq]

end Registering

end SchedulableSequence

end PegaInfer.Kvbm
