import PegaInfer.Kvbm.Resident
import PegaInfer.KvStore.PrefixSound

namespace PegaInfer.KvStore

open PegaInfer.Kvbm PegaInfer.Lib

theorem ceilDiv_mono {small large : Nat} (le : small ≤ large) (size : Nat) :
    small ⌈/⌉ size ≤ large ⌈/⌉ size := by
  simp only [Nat.ceilDiv_eq_add_pred_div]
  exact Nat.div_le_div_right (by omega)

theorem succ_ceilDiv (n : Nat) {size : Nat} (pos : 0 < size) : (n + 1) ⌈/⌉ size = n / size + 1 := by
  rw [Nat.ceilDiv_eq_add_pred_div, show n + 1 + size - 1 = n + size by omega, Nat.add_div_right _ pos]

theorem div_le_ceilDiv (n size : Nat) : n / size ≤ n ⌈/⌉ size := by
  rcases Nat.eq_zero_or_pos size with rfl | pos
  · simp
  · rw [Nat.ceilDiv_eq_add_pred_div]
    exact Nat.div_le_div_right (by omega)

variable {H : Type} [DecidableEq H] [SequenceHashing H]

/-- The pages a request can come to hold stay within the capacity it was
created with. -/
structure Budgeted (capacity : Nat) (seq : SchedulableSequence H) : Prop where
  input : seq.numInputTokens ≤ seq.totalTokens
  tokens : seq.totalTokens + (seq.maxOutputTokens - seq.generatedTokens) ≤ capacity
  pages : seq.heldBlocks ≤ capacity ⌈/⌉ seq.blockSize

section Draws

variable {seq seq' : SchedulableSequence H} {store store' : BlockStore H} {op : KvOp} {capacity : Nat}

/-- The blocks a `schedule_*` call draws when its checks pass. -/
def KvOp.needs (seq : SchedulableSequence H) : KvOp → Nat
  | .schedulePrefill numTokens => (seq.prefillPosition + numTokens) ⌈/⌉ seq.blockSize - seq.heldBlocks
  | .scheduleDecode => seq.numBlocks - (seq.assigned.length + seq.staged.length) + 1 - seq.unassigned.length
  | .scheduleSpeculative numDraftTokens =>
    (seq.totalTokens + min numDraftTokens seq.remainingTokens) ⌈/⌉ seq.blockSize - seq.heldBlocks
  | _ => 0

omit [DecidableEq H] in
theorem Wf.assigned_le (wf : seq.Wf) : seq.assigned.length ≤ seq.numBlocks := by
  rcases Nat.eq_zero_or_pos seq.assigned.length with none | some
  · omega
  · have last := List.getElem?_eq_getElem (l := seq.assigned) (i := seq.assigned.length - 1) (by omega)
    have bound := (wf.named _ _ last).1
    rw [Nat.sub_add_cancel some] at bound
    exact (Nat.le_div_iff_mul_le wf.pos).mpr bound

omit [DecidableEq H] in
/-- A draw that passes its checks stays within the capacity. -/
theorem Budgeted.needs_le (budget : Budgeted capacity seq) (wf : seq.Wf) (op : KvOp)
    (ready : match op with
      | .schedulePrefill numTokens => seq.prefillPosition + numTokens ≤ seq.numInputTokens
      | .scheduleDecode => seq.generationFault = none
      | .scheduleSpeculative _ => seq.generationFault = none
      | _ => True) : seq.heldBlocks + op.needs seq ≤ capacity ⌈/⌉ seq.blockSize := by
  have pages := budget.pages
  have tokens := budget.tokens
  have input := budget.input
  cases op with
  | schedulePrefill numTokens =>
    have cover := ceilDiv_mono (show seq.prefillPosition + numTokens ≤ capacity by omega) seq.blockSize
    simp only [KvOp.needs]
    omega
  | scheduleDecode =>
    obtain ⟨-, -, room, -⟩ := SchedulableSequence.generationFault_none ready
    have cover := ceilDiv_mono (show seq.totalTokens + 1 ≤ capacity by omega) seq.blockSize
    rw [succ_ceilDiv _ wf.pos] at cover
    have complete := Wf.assigned_le wf
    have held : seq.heldBlocks = seq.assigned.length + seq.unassigned.length := by
      simp [SchedulableSequence.heldBlocks, wf.settled]
    simp only [KvOp.needs, wf.settled, List.length_nil]
    unfold SchedulableSequence.numBlocks SchedulableSequence.totalTokens at *
    omega
  | scheduleSpeculative numDraftTokens =>
    have cover := ceilDiv_mono (show seq.totalTokens + min numDraftTokens seq.remainingTokens ≤ capacity by
      unfold SchedulableSequence.remainingTokens; omega) seq.blockSize
    simp only [KvOp.needs]
    omega
  | _ => exact pages

omit [DecidableEq H] [SequenceHashing H] in
theorem schedulePrefill_failed {numTokens needed : Nat}
    (failed : seq.schedulePrefill numTokens store = .error (.schedule (.allocationFailed needed))) :
    seq.prefillPosition + numTokens ≤ seq.numInputTokens ∧
      seq.allocateBlocks (KvOp.needs seq (.schedulePrefill numTokens)) store = none := by
  unfold SchedulableSequence.schedulePrefill at failed
  split at failed
  · simp at failed
  · split at failed
    · simp at failed
    · simp only at failed
      split at failed
      · simp at failed
      · rename_i fits
        split at failed
        · exact ⟨by omega, ‹_›⟩
        · simp at failed

omit [DecidableEq H] [SequenceHashing H] in
theorem generationFault_not_allocationFailed {needed : Nat} :
    seq.generationFault ≠ some (.allocationFailed needed) := by
  unfold SchedulableSequence.generationFault
  split
  · simp
  · split
    · simp
    · split
      · simp
      · split <;> simp

omit [DecidableEq H] [SequenceHashing H] in
theorem scheduleDecode_failed {needed : Nat}
    (failed : seq.scheduleDecode store = .error (.schedule (.allocationFailed needed))) :
    seq.generationFault = none ∧ seq.allocateBlocks (KvOp.needs seq .scheduleDecode) store = none := by
  unfold SchedulableSequence.scheduleDecode at failed
  split at failed
  · rename_i error fault
    simp only [Except.error.injEq, Fault.schedule.injEq] at failed
    exact absurd (failed ▸ fault) generationFault_not_allocationFailed
  · rename_i ready
    simp only at failed
    split at failed
    · exact ⟨ready, ‹_›⟩
    · simp at failed

omit [DecidableEq H] [SequenceHashing H] in
theorem scheduleSpeculative_failed {numDraftTokens needed : Nat}
    (failed : seq.scheduleSpeculative numDraftTokens store = .error (.schedule (.allocationFailed needed))) :
    seq.generationFault = none ∧
      seq.allocateBlocks (KvOp.needs seq (.scheduleSpeculative numDraftTokens)) store = none := by
  unfold SchedulableSequence.scheduleSpeculative at failed
  split at failed
  · rename_i error fault
    simp only [Except.error.injEq, Fault.schedule.injEq] at failed
    exact absurd (failed ▸ fault) generationFault_not_allocationFailed
  · rename_i ready
    simp only at failed
    split at failed
    · exact ⟨ready, ‹_›⟩
    · simp at failed

theorem applyPrefill_not_schedule {token : Option Token} {error : ScheduleError} :
    seq.applyPrefill token store ≠ .error (.schedule error) := by
  intro failed
  unfold SchedulableSequence.applyPrefill at failed
  split at failed
  · simp only at failed
    split at failed
    · simp at failed
    · split at failed
      · simp at failed
      · split at failed
        · simp at failed
        · cases token with
          | none => simp at failed
          | some token =>
            simp only at failed
            split at failed <;> simp at failed
  · simp at failed

/-- Only a `schedule_*` call can run out of blocks, and only where the pool
lacks what the request is still owed. -/
theorem runOp_not_allocationFailed (budget : Budgeted capacity seq) (wf : seq.Wf)
    (enough : capacity ⌈/⌉ seq.blockSize ≤ seq.heldBlocks + store.availableBlocks) (needed : Nat) :
    RequestKv.runOp seq store op ≠ .error (.schedule (.allocationFailed needed)) := by
  intro failed
  have refuses : ∀ {op : KvOp}, seq.heldBlocks + op.needs seq ≤ capacity ⌈/⌉ seq.blockSize →
      seq.allocateBlocks (op.needs seq) store ≠ none := by
    intro op within
    have fits : op.needs seq ≤ store.availableBlocks := by omega
    obtain ⟨_, _, alloc⟩ := SchedulableSequence.allocateBlocks_isSome seq fits
    simp [alloc]
  cases op with
  | schedulePrefill numTokens =>
    obtain ⟨ready, none⟩ := schedulePrefill_failed failed
    exact refuses (budget.needs_le wf _ ready) none
  | scheduleDecode =>
    obtain ⟨ready, none⟩ := scheduleDecode_failed failed
    exact refuses (budget.needs_le wf _ ready) none
  | scheduleSpeculative numDraftTokens =>
    obtain ⟨ready, none⟩ := scheduleSpeculative_failed failed
    exact refuses (budget.needs_le wf (.scheduleSpeculative numDraftTokens) ready) none
  | matchAndAddPrefix =>
    simp only [RequestKv.runOp, SchedulableSequence.matchAndAddPrefix] at failed
    split at failed
    · simp [Except.map] at failed
    · split at failed
      · simp [Except.map] at failed
      · split at failed <;> simp [Except.map] at failed
  | applyPrefill token => exact applyPrefill_not_schedule failed
  | applyPrefillChunk => exact applyPrefill_not_schedule failed
  | applyDecode token =>
    simp only [RequestKv.runOp, SchedulableSequence.applyDecode] at failed
    split at failed
    · split at failed
      · simp [Except.map] at failed
      · split at failed <;> simp [Except.map] at failed
    · simp [Except.map] at failed
  | applySpeculative accepted =>
    simp only [RequestKv.runOp, SchedulableSequence.applySpeculative] at failed
    split at failed
    · split at failed
      · simp [Except.map] at failed
      · split at failed
        · simp [Except.map] at failed
        · split at failed <;> simp [Except.map] at failed
    · simp [Except.map] at failed
  | revertSchedule =>
    simp only [RequestKv.runOp, SchedulableSequence.revertSchedule] at failed
    split at failed <;> simp at failed
  | padToBoundary =>
    simp only [RequestKv.runOp, SchedulableSequence.padTailBlock] at failed
    split at failed
    · simp [Except.map] at failed
    · split at failed
      · simp [Except.map] at failed
      · split at failed <;> simp [Except.map] at failed
  | adoptExternalPrefillAnchor =>
    simp only [RequestKv.runOp, SchedulableSequence.adoptExternalPrefillAnchor] at failed
    split at failed
    · simp [Except.map] at failed
    · split at failed <;> simp [Except.map] at failed

end Draws

section Costs

variable {seq seq' : SchedulableSequence H} {store store' : BlockStore H} {op : KvOp} {capacity : Nat}

/-- The hashes whose primary sits in the inactive pool. -/
def revivals (store : BlockStore H) (hashes : List H) : Nat :=
  hashes.countP fun hash => decide (hash ∈ store.inactive.map Prod.fst)

omit [SequenceHashing H] in
theorem revivals_mono (fewer : store'.inactive ⊆ store.inactive) (hashes : List H) :
    revivals store' hashes ≤ revivals store hashes := by
  refine List.countP_mono_left ?_
  intro hash _ inactive
  simp only [decide_eq_true_eq] at inactive ⊢
  exact List.map_subset Prod.fst fewer inactive

omit [SequenceHashing H] in
/-- The cost of a first call and of the rest adds up. -/
theorem revivals_cons {next : BlockStore H} {hash : H} {hashes : List H}
    (first : store.availableBlocks ≤ next.availableBlocks +
      (if hash ∈ store.inactive.map Prod.fst then 1 else 0))
    (fewer : next.inactive ⊆ store.inactive)
    (rest : next.availableBlocks ≤ store'.availableBlocks + revivals next hashes) :
    store.availableBlocks ≤ store'.availableBlocks + revivals store (hash :: hashes) := by
  have mono := revivals_mono fewer hashes
  have split : revivals store (hash :: hashes) =
      revivals store hashes + if hash ∈ store.inactive.map Prod.fst then 1 else 0 := by
    simp only [revivals, List.countP_cons, decide_eq_true_eq]
  omega

omit [SequenceHashing H] in
theorem available_registerBlocks {entries : List (BlockId × H)} {blocks : List (ImmutableBlock H)}
    (got : SchedulableSequence.registerBlocks store entries = some (store', blocks)) :
    store.availableBlocks ≤ store'.availableBlocks + revivals store (entries.map Prod.snd) := by
  induction entries generalizing store blocks with
  | nil =>
    simp only [SchedulableSequence.registerBlocks, Option.some.injEq, Prod.mk.injEq] at got
    rw [got.1]
    exact Nat.le_add_right _ _
  | cons entry entries ih =>
    obtain ⟨id, hash⟩ := entry
    simp only [SchedulableSequence.registerBlocks] at got
    split at got
    · simp at got
    · rename_i next block register
      split at got
      · simp at got
      · rename_i last rest more
        simp only [Option.some.injEq, Prod.mk.injEq] at got
        obtain ⟨rfl, rfl⟩ := got
        obtain ⟨cost, fewer⟩ := BlockStore.available_register register
        exact revivals_cons cost fewer (ih more)

omit [SequenceHashing H] in
theorem available_matchBlocks (hashes : List H) :
    ∀ store : BlockStore H, store.availableBlocks ≤
      (store.matchBlocks hashes).1.availableBlocks + revivals store (store.residentPrefix hashes) := by
  induction hashes with
  | nil => exact fun store => Nat.le_add_right _ _
  | cons hash hashes ih =>
    intro store
    rw [← (BlockStore.matchBlocks_resident _ store).1]
    simp only [BlockStore.matchBlocks]
    split
    · exact Nat.le_add_right _ _
    · rename_i next block got
      obtain ⟨-, named, -⟩ := BlockStore.acquireForHash_resident got
      simp only [List.map_cons, named, (BlockStore.matchBlocks_resident _ next).1]
      exact revivals_cons (BlockStore.available_acquire got) (BlockStore.inactive_acquire got) (ih next)

omit [SequenceHashing H] in
theorem available_commitBlocks {hashes : List H} {ids : List BlockId} {blocks : List (ImmutableBlock H)}
    (done : BlockPool.commitBlocks store hashes ids = some (store', blocks)) :
    store.availableBlocks ≤ store'.availableBlocks + revivals store (hashes.take ids.length) := by
  induction ids generalizing store hashes blocks with
  | nil =>
    simp only [BlockPool.commitBlocks, Option.some.injEq, Prod.mk.injEq] at done
    rw [done.1]
    exact Nat.le_add_right _ _
  | cons id ids ih =>
    cases hashes with
    | nil => simp [BlockPool.commitBlocks] at done
    | cons hash hashes =>
      simp only [BlockPool.commitBlocks] at done
      split at done
      · simp at done
      · rename_i next block register
        split at done
        · simp at done
        · rename_i last rest more
          simp only [Option.some.injEq, Prod.mk.injEq] at done
          obtain ⟨rfl, rfl⟩ := done
          obtain ⟨cost, fewer⟩ := BlockStore.available_register register
          exact revivals_cons cost fewer (ih more)

omit [DecidableEq H] [SequenceHashing H] in
theorem available_releaseAllMutable (ids : List BlockId) :
    ∀ store : BlockStore H, (store.releaseAllMutable ids).availableBlocks =
      store.availableBlocks + ids.length := by
  induction ids with
  | nil => exact fun store => rfl
  | cons id ids ih =>
    intro store
    have rest := ih (store.releaseMutable id)
    have first : (store.releaseMutable id).availableBlocks = store.availableBlocks + 1 := by
      simp only [BlockStore.releaseMutable, BlockStore.setSlot,
        BlockStore.availableBlocks, List.length_append,
        List.length_singleton]
      omega
    rw [first] at rest
    simp only [BlockStore.releaseAllMutable, List.foldl_cons, List.length_cons] at rest ⊢
    omega

theorem available_registers {tokens : List Token} {blocks : List (ImmutableBlock H)}
    (registers : seq.Registers tokens store blocks store') :
    store.availableBlocks ≤ store'.availableBlocks +
      revivals store ((seq.pendingEntries tokens).map Prod.snd) := by
  have cost := available_registerBlocks registers
  obtain ⟨inactive, -, available⟩ := SchedulableSequence.stage_pools (seq.pendingEntries tokens) store
  unfold revivals at cost ⊢
  rw [inactive, available] at cost
  exact cost

theorem registered_held {tokens : List Token} {blocks : List (ImmutableBlock H)}
    (registers : seq.Registers tokens store blocks store') :
    (seq.registered blocks).heldBlocks = seq.heldBlocks := by
  have length := registers.length
  simp only [SchedulableSequence.heldBlocks, SchedulableSequence.registered,
    List.length_append, List.length_drop]
  omega

/-- The leading blocks of a request's chain that a match would keep and that
some guard pins. -/
def pinnedPrefix (store : BlockStore H) (seq : SchedulableSequence H) : Nat :=
  ((seq.hashes.take ((seq.numInputTokens - 1) / seq.blockSize)).takeWhile fun hash =>
    (store.activeByHash hash).isSome).length

/-- The blocks a call takes from the inactive pool by registering. -/
def KvOp.revived (op : KvOp) (seq : SchedulableSequence H) (store : BlockStore H) : Nat :=
  revivals store ((seq.pendingEntries (op.naming seq)).map Prod.snd)

/-- The pinned blocks a match folds into the request. -/
def KvOp.folded (seq : SchedulableSequence H) (store : BlockStore H) : KvOp → Nat
  | .matchAndAddPrefix => pinnedPrefix store seq
  | _ => 0

omit [SequenceHashing H] in
theorem ids_blocks {blocks : List (ImmutableBlock H)} (primary : ∀ block ∈ blocks, block.keepalive = none) :
    (Holding.blocks blocks).ids = (blocks.map ImmutableBlock.blockId).toFinset := by
  induction blocks with
  | nil => rfl
  | cons block blocks ih =>
    have first : Holding.block block = Holding.primary block.blockId block.hash := by
      simp [Holding.block, primary block List.mem_cons_self]
    rw [Holding.blocks, List.map_cons, List.sum_cons, BlockStore.ids_add, ← Holding.blocks,
      ih fun other member => primary other (List.mem_cons_of_mem _ member), first]
    ext id
    simp [Holding.ids, Holding.primary, eq_comm]

theorem pinnedPrefix_le (store : BlockStore H) (seq : SchedulableSequence H) :
    pinnedPrefix store seq ≤ (store.matchBlocks seq.hashes).2.length ∧
      pinnedPrefix store seq ≤ (seq.numInputTokens - 1) / seq.blockSize := by
  obtain ⟨rest, split⟩ := ( List.takeWhile_prefix fun hash => (store.activeByHash hash).isSome).trans
    ( List.take_prefix ((seq.numInputTokens - 1) / seq.blockSize) seq.hashes)
  constructor
  · have active : ∀ hash ∈ (seq.hashes.take ((seq.numInputTokens - 1) / seq.blockSize)).takeWhile
        (fun hash => (store.activeByHash hash).isSome), (store.activeByHash hash).isSome := by
      intro hash member
      exact List.mem_takeWhile_imp (p := fun hash => (store.activeByHash hash).isSome) member
    have cover := BlockStore.matchBlocks_covers _ rest store active
    rw [split] at cover
    exact cover
  · have short := ( List.takeWhile_prefix (l := seq.hashes.take ((seq.numInputTokens - 1) / seq.blockSize))
      fun hash => (store.activeByHash hash).isSome).length_le
    rw [List.length_take] at short
    unfold pinnedPrefix
    omega

omit [DecidableEq H] in
theorem pinnedPrefix_active {i : Nat} (early : i < pinnedPrefix store seq) (hash : H)
    (atI : seq.hashes[i]? = some hash) :
    (store.activeByHash hash).isSome := by
  have whole := ( List.takeWhile_prefix fun hash => (store.activeByHash hash).isSome).trans
    ( List.take_prefix ((seq.numInputTokens - 1) / seq.blockSize) seq.hashes)
  have same := whole.getElem early
  obtain ⟨bound, rfl⟩ := List.getElem?_eq_some_iff.mp atI
  have active := List.mem_takeWhile_imp (p := fun hash => (store.activeByHash hash).isSome)
    (List.getElem_mem early)
  rw [same] at active
  exact active

theorem available_match {frame : Holding H} {count : Nat} (ok : store.Ok (seq.holding + frame))
    (got : seq.matchAndAddPrefix store = .ok (seq', store', count)) :
    store.availableBlocks + pinnedPrefix store seq ≤ store'.availableBlocks + seq'.heldBlocks := by
  have after := SchedulableSequence.transfers_matchAndAddPrefix got frame ok
  obtain ⟨-, empty, found, found_eq, store_eq, rfl, -⟩ := SchedulableSequence.matchAndAddPrefix_cases got
  obtain ⟨assigned, staged, unassigned⟩ := SchedulableSequence.heldBlocks_eq_zero empty
  set kept := found.take ((seq.numInputTokens - 1) / seq.blockSize) with kept_eq
  obtain ⟨names, primary⟩ := BlockStore.matchBlocks_hashes seq.hashes store
  rw [← found_eq] at names primary
  have holding : (seq.afterMatch kept).holding = Holding.blocks kept := by
    simp [SchedulableSequence.holding, SchedulableSequence.afterMatch, staged, unassigned]
  have held : (seq.afterMatch kept).heldBlocks = kept.length := by
    simp [SchedulableSequence.heldBlocks, SchedulableSequence.afterMatch, staged, unassigned]
  have nothing : seq.holding = 0 := by
    simp [SchedulableSequence.holding, assigned, staged, unassigned]
  have kept_primary : ∀ block ∈ kept, block.keepalive = none :=
    fun block member => primary block (List.mem_of_mem_take member)
  obtain ⟨found_long, cap_long⟩ := pinnedPrefix_le store seq
  have pinned_le : pinnedPrefix store seq ≤ kept.length := by
    rw [kept_eq, List.length_take, found_eq]
    omega
  have cover : (seq.afterMatch kept).holding.ids ⊆ seq.holding.ids ∪ frame.ids ∪
      ((kept.drop (pinnedPrefix store seq)).map ImmutableBlock.blockId).toFinset := by
    rw [holding, ids_blocks kept_primary]
    intro id member
    obtain ⟨block, inKept, rfl⟩ := List.mem_map.mp (List.mem_toFinset.mp member)
    obtain ⟨i, atI⟩ := List.mem_iff_getElem?.mp inKept
    by_cases early : i < pinnedPrefix store seq
    · have active := pinnedPrefix_active early
      have atFound : found[i]? = some block := by
        rw [kept_eq, List.getElem?_take] at atI
        split at atI
        · exact atI
        · simp at atI
      have name := congrArg (fun hashes : List H => hashes[i]?) names
      simp only [List.getElem?_map, atFound, Option.map_some] at name
      rw [List.getElem?_take_of_lt (List.getElem?_eq_some_iff.mp atFound).1] at name
      obtain ⟨primaryId, known⟩ := Option.isSome_iff_exists.mp (active block.hash name.symm)
      have named : (store.slots block.blockId).RegisteredAs block.hash := by
        obtain ⟨rest, split⟩ := Holding.blocks_mem inKept
        rw [holding, split, add_assoc] at after
        have quiet : BlockStore.Quiet (fun _ _ => False) _ _ :=
          SchedulableSequence.quiet_matchAndAddPrefix ok got
        refine ((quiet block.blockId).2 block.hash ?_).resolve_right not_false
        rcases after.slot_of_block.1 with primary | duplicate
        · exact Or.inl primary
        · exact Or.inr (Or.inl duplicate)
      have occupied : block.blockId ∈ (seq.holding + frame).ids := by
        refine ok.mem_ids.mpr ?_
        have unique := fun hash => ok.inactive_not_active hash block.blockId primaryId
        have slot := (ok.active_iff _ _).mp known
        rcases named with primary | duplicate | inactive
        · simp [primary]
        · simp [duplicate]
        · exact absurd slot (unique _ inactive)
      rw [BlockStore.ids_add] at occupied
      exact Finset.mem_union_left _ occupied
    · refine Finset.mem_union_right _ (List.mem_toFinset.mpr (List.mem_map_of_mem ?_))
      refine List.mem_iff_getElem?.mpr ⟨i - pinnedPrefix store seq, ?_⟩
      rw [List.getElem?_drop, Nat.add_sub_cancel' (by omega)]
      exact atI
  have total : store'.totalBlocks = store.totalBlocks := by
    rw [store_eq, BlockStore.dropAllImmutable_total, BlockStore.matchBlocks_total]
  have gain := ok.available_gain after total cover
  have few := List.toFinset_card_le ((kept.drop (pinnedPrefix store seq)).map ImmutableBlock.blockId)
  rw [List.length_map, List.length_drop] at few
  omega

/-- What a call does to the pools, less what it returns and what it folds in:
only a revival costs more than the request pays for. -/
theorem runOp_available {frame : Holding H} (wf : seq.Wf) (ok : store.Ok (seq.holding + frame))
    (done : RequestKv.runOp seq store op = .ok (seq', store')) :
    store.availableBlocks + seq.heldBlocks + op.folded seq store ≤
      store'.availableBlocks + seq'.heldBlocks + op.revived seq store := by
  have drawn : ∀ {count : Nat} {state : SequenceState}, seq.Draws count state store seq' store' →
      store.availableBlocks + seq.heldBlocks = store'.availableBlocks + seq'.heldBlocks := by
    intro count state draws
    obtain ⟨_, alloc, rfl⟩ := draws
    have less := SchedulableSequence.available_allocateBlocks alloc
    obtain ⟨ids, length, rfl, -⟩ := SchedulableSequence.allocateBlocks_cases alloc
    simp only [SchedulableSequence.heldBlocks, List.length_append]
    omega
  cases op with
  | matchAndAddPrefix =>
    obtain ⟨⟨_, _, _⟩, got, rfl, rfl⟩ := RequestKv.map_ok done
    have cost := available_match ok got
    obtain ⟨-, empty, -⟩ := SchedulableSequence.matchAndAddPrefix_cases got
    have folded : KvOp.folded seq store .matchAndAddPrefix = pinnedPrefix store seq := rfl
    simp only at cost ⊢
    omega
  | schedulePrefill numTokens =>
    obtain ⟨-, -, -, _, -, draws⟩ := SchedulableSequence.schedulePrefill_cases done
    have even := drawn draws
    have folded : KvOp.folded seq store (.schedulePrefill numTokens) = 0 := rfl
    omega
  | scheduleDecode =>
    obtain ⟨-, _, -, draws⟩ := SchedulableSequence.scheduleDecode_cases done
    have even := drawn draws
    have folded : KvOp.folded seq store .scheduleDecode = 0 := rfl
    omega
  | scheduleSpeculative numDraftTokens =>
    obtain ⟨-, _, _, -, -, draws⟩ := SchedulableSequence.scheduleSpeculative_cases done
    have even := drawn draws
    have folded : KvOp.folded seq store (.scheduleSpeculative numDraftTokens) = 0 := rfl
    omega
  | applyPrefill token =>
    obtain ⟨_, _, _, -, -, -, registers, rfl⟩ := SchedulableSequence.applyPrefill_cases wf.settled done
    have cost := available_registers registers
    have held := registered_held registers
    have folded : KvOp.folded seq store (.applyPrefill token) = 0 := rfl
    have revived : KvOp.revived (.applyPrefill token) seq store =
      revivals store ((seq.pendingEntries (seq.tokens)).map Prod.snd) := rfl
    unfold SchedulableSequence.heldBlocks at held ⊢
    simp only [SchedulableSequence.appended]
    omega
  | applyPrefillChunk =>
    obtain ⟨_, _, _, -, -, -, registers, rfl⟩ := SchedulableSequence.applyPrefill_cases wf.settled done
    have cost := available_registers registers
    have held := registered_held registers
    have folded : KvOp.folded seq store .applyPrefillChunk = 0 := rfl
    have revived : KvOp.revived .applyPrefillChunk seq store =
      revivals store ((seq.pendingEntries (seq.tokens)).map Prod.snd) := rfl
    unfold SchedulableSequence.heldBlocks at held ⊢
    simp only [SchedulableSequence.appended]
    omega
  | applyDecode token =>
    obtain ⟨⟨_, _, _⟩, got, rfl, rfl⟩ := RequestKv.map_ok done
    obtain ⟨_, _, -, -, registers, rfl⟩ := SchedulableSequence.applyDecode_cases wf.settled got
    have cost := available_registers registers
    have held := registered_held registers
    have folded : KvOp.folded seq store (.applyDecode token) = 0 := rfl
    have revived : KvOp.revived (.applyDecode token) seq store =
      revivals store ((seq.pendingEntries (seq.tokens ++ [token])).map Prod.snd) := rfl
    unfold SchedulableSequence.heldBlocks at held ⊢
    simp only [SchedulableSequence.appended]
    omega
  | applySpeculative accepted =>
    obtain ⟨⟨_, _, _⟩, got, rfl, rfl⟩ := RequestKv.map_ok done
    obtain ⟨_, _, _, _, kept, -, -, -, registers, kept_eq, rfl, rfl⟩ :=
      SchedulableSequence.applySpeculative_cases wf.settled got
    have cost := available_registers registers
    have held := registered_held registers
    simp only [available_releaseAllMutable]
    have folded : KvOp.folded seq store (.applySpeculative accepted) = 0 := rfl
    have revived : KvOp.revived (.applySpeculative accepted) seq store =
      revivals store ((seq.pendingEntries (seq.tokens ++ accepted)).map Prod.snd) := rfl
    unfold SchedulableSequence.heldBlocks at held ⊢
    simp only [SchedulableSequence.appended, List.length_reverse, List.length_drop, List.length_take]
    omega
  | revertSchedule =>
    obtain ⟨-, kept, within, rfl, rfl⟩ := SchedulableSequence.revertSchedule_cases done
    rw [available_releaseAllMutable]
    have folded : KvOp.folded seq store .revertSchedule = 0 := rfl
    simp only [SchedulableSequence.heldBlocks, List.length_reverse, List.length_drop, List.length_take]
    omega
  | padToBoundary =>
    obtain ⟨⟨_, _, _⟩, got, rfl, rfl⟩ := RequestKv.map_ok done
    obtain ⟨-, ⟨-, rfl, rfl, -⟩ | ⟨unaligned, rfl, _, registers, rfl⟩⟩ :=
      SchedulableSequence.padTailBlock_cases wf.settled got
    · exact Nat.le_add_right _ _
    · have cost := available_registers registers
      have held := registered_held registers
      have folded : KvOp.folded seq store .padToBoundary = 0 := rfl
      have named : KvOp.naming seq .padToBoundary = _ := if_neg unaligned
      unfold KvOp.revived
      rw [named]
      unfold SchedulableSequence.heldBlocks at held ⊢
      simp only
      omega
  | adoptExternalPrefillAnchor =>
    obtain ⟨_, got, eq⟩ := RequestKv.map_ok done
    obtain ⟨-, -, -, -, -, rfl⟩ := SchedulableSequence.adoptExternalPrefillAnchor_cases got
    cases eq
    exact Nat.le_add_right _ _

theorem runOp_budgeted (wf : seq.Wf) (budget : Budgeted capacity seq) (unpadded : op ≠ .padToBoundary)
    (done : RequestKv.runOp seq store op = .ok (seq', store')) : Budgeted capacity seq' := by
  have drawn : ∀ {count : Nat} {state : SequenceState}, seq.Draws count state store seq' store' →
      seq.heldBlocks + count ≤ capacity ⌈/⌉ seq.blockSize → Budgeted capacity seq' := by
    intro count state draws within
    obtain ⟨_, alloc, rfl⟩ := draws
    obtain ⟨ids, length, rfl, -⟩ := SchedulableSequence.allocateBlocks_cases alloc
    refine ⟨budget.input, budget.tokens, ?_⟩
    simp only [SchedulableSequence.heldBlocks, List.length_append] at within ⊢
    omega
  have registered : ∀ {tokens : List Token} {blocks : List
    (ImmutableBlock H)} {store' : BlockStore H} (n : Nat),
      seq.Registers tokens store blocks store' →
      (seq.registered blocks).assigned.length + (seq.registered blocks).staged.length +
        min n (seq.registered blocks).unassigned.length ≤ capacity ⌈/⌉ seq.blockSize := by
    intro tokens blocks store' n registers
    have held := registered_held registers
    have pages := budget.pages
    unfold SchedulableSequence.heldBlocks at held pages
    omega
  have input := budget.input
  have tokens := budget.tokens
  unfold SchedulableSequence.totalTokens at input tokens
  cases op with
  | matchAndAddPrefix =>
    obtain ⟨⟨_, _, _⟩, got, rfl, rfl⟩ := RequestKv.map_ok done
    obtain ⟨-, empty, found, -, -, rfl, -⟩ := SchedulableSequence.matchAndAddPrefix_cases got
    obtain ⟨-, staged, unassigned⟩ := SchedulableSequence.heldBlocks_eq_zero empty
    refine ⟨budget.input, budget.tokens, ?_⟩
    have cap := (div_le_ceilDiv (seq.numInputTokens - 1) seq.blockSize).trans
      (ceilDiv_mono (show seq.numInputTokens - 1 ≤ capacity by omega) seq.blockSize)
    simp only [SchedulableSequence.heldBlocks, SchedulableSequence.afterMatch, staged,
      unassigned, List.length_take,
      List.length_nil]
    omega
  | schedulePrefill numTokens =>
    obtain ⟨-, -, fits, count, rfl, draws⟩ := SchedulableSequence.schedulePrefill_cases done
    exact drawn draws (budget.needs_le wf (.schedulePrefill numTokens) fits)
  | scheduleDecode =>
    obtain ⟨ready, count, rfl, draws⟩ := SchedulableSequence.scheduleDecode_cases done
    exact drawn draws (budget.needs_le wf .scheduleDecode ready)
  | scheduleSpeculative numDraftTokens =>
    obtain ⟨ready, _, _, rfl, rfl, draws⟩ := SchedulableSequence.scheduleSpeculative_cases done
    exact drawn draws (budget.needs_le wf (.scheduleSpeculative numDraftTokens) ready)
  | applyPrefill token =>
    obtain ⟨_, _, blocks, -, emits, -, registers, rfl⟩ :=
      SchedulableSequence.applyPrefill_cases wf.settled done
    have pages := registered (seq.registered blocks).unassigned.length registers
    have room := (emits rfl).2
    refine ⟨?_, ?_, ?_⟩
    all_goals
      simp only [SchedulableSequence.totalTokens, SchedulableSequence.heldBlocks,
        SchedulableSequence.appended,
        SchedulableSequence.registered, Option.toList_some, List.length_append,
          List.length_singleton] at pages ⊢
      omega
  | applyPrefillChunk =>
    obtain ⟨_, _, blocks, -, -, -, registers, rfl⟩ := SchedulableSequence.applyPrefill_cases wf.settled done
    have pages := registered (seq.registered blocks).unassigned.length registers
    refine ⟨?_, ?_, ?_⟩
    all_goals
      simp only [SchedulableSequence.totalTokens, SchedulableSequence.heldBlocks,
        SchedulableSequence.appended,
        SchedulableSequence.registered, Option.toList_none, List.length_append, List.length_nil] at pages ⊢
      omega
  | applyDecode token =>
    obtain ⟨⟨_, _, _⟩, got, rfl, rfl⟩ := RequestKv.map_ok done
    obtain ⟨_, blocks, -, room, registers, rfl⟩ := SchedulableSequence.applyDecode_cases wf.settled got
    have pages := registered (seq.registered blocks).unassigned.length registers
    refine ⟨?_, ?_, ?_⟩
    all_goals
      simp only [SchedulableSequence.totalTokens, SchedulableSequence.heldBlocks,
        SchedulableSequence.appended,
        SchedulableSequence.registered, List.length_append, List.length_singleton] at pages ⊢
      omega
  | applySpeculative accepted =>
    obtain ⟨⟨_, _, _⟩, got, rfl, rfl⟩ := RequestKv.map_ok done
    obtain ⟨_, _, _, _, kept, -, -, room, registers, -, rfl, rfl⟩ :=
      SchedulableSequence.applySpeculative_cases wf.settled got
    have pages := registered kept registers
    have fits : accepted.length = 0 ∨ seq.generatedTokens + accepted.length ≤ seq.maxOutputTokens := by
      rcases room with rfl | room
      · exact Or.inl rfl
      · exact Or.inr room
    refine ⟨?_, ?_, ?_⟩
    all_goals
      simp only [SchedulableSequence.totalTokens, SchedulableSequence.heldBlocks,
        SchedulableSequence.appended,
        SchedulableSequence.registered, List.length_append, List.length_take] at pages ⊢
      omega
  | revertSchedule =>
    obtain ⟨-, kept, within, rfl, rfl⟩ := SchedulableSequence.revertSchedule_cases done
    refine ⟨budget.input, budget.tokens, ?_⟩
    have pages := budget.pages
    simp only [SchedulableSequence.heldBlocks, List.length_take] at pages ⊢
    omega
  | padToBoundary => exact absurd rfl unpadded
  | adoptExternalPrefillAnchor =>
    obtain ⟨_, got, eq⟩ := RequestKv.map_ok done
    obtain ⟨-, -, -, -, room, rfl⟩ := SchedulableSequence.adoptExternalPrefillAnchor_cases got
    cases eq
    refine ⟨?_, ?_, budget.pages⟩
    all_goals
      simp only [SchedulableSequence.totalTokens]
      omega

end Costs

end PegaInfer.KvStore
