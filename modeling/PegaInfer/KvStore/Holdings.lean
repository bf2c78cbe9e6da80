import PegaInfer.Kvbm.WellFormed
import PegaInfer.KvStore.Moves

namespace PegaInfer.KvStore

open PegaInfer.Kvbm PegaInfer.Lib

variable {H : Type} [DecidableEq H] [SequenceHashing H]

namespace RequestKv

variable {seq seq' : SchedulableSequence H} {store store' : BlockStore H} {op : KvOp}

omit [DecidableEq H] [SequenceHashing H] in
theorem map_ok {A B : Type} {f : A → B} {result : Except Fault A} {b : B} (done : result.map f = .ok b) :
    ∃ a, result = .ok a ∧ f a = b := by
  cases result with
  | error fault => simp [Except.map] at done
  | ok a => exact ⟨a, rfl, by simpa [Except.map] using done⟩

/-- Each call turns what the request held into what it holds then. -/
theorem transfers_runOp (wf : seq.Wf) (done : runOp seq store op = .ok (seq', store')) :
    Transfers BlockStore.Ok store seq.holding store' seq'.holding := by
  cases op with
  | matchAndAddPrefix =>
    obtain ⟨⟨_, _, _⟩, got, rfl, rfl⟩ := map_ok done
    exact SchedulableSequence.transfers_matchAndAddPrefix got
  | schedulePrefill numTokens =>
    obtain ⟨-, -, -, _, -, draws⟩ := SchedulableSequence.schedulePrefill_cases done
    exact draws.transfers
  | scheduleDecode =>
    obtain ⟨-, _, -, draws⟩ := SchedulableSequence.scheduleDecode_cases done
    exact draws.transfers
  | scheduleSpeculative numDraftTokens =>
    obtain ⟨-, _, _, -, -, draws⟩ := SchedulableSequence.scheduleSpeculative_cases done
    exact draws.transfers
  | applyPrefill token => exact SchedulableSequence.applyPrefill_transfers wf.settled done
  | applyPrefillChunk => exact SchedulableSequence.applyPrefill_transfers wf.settled done
  | applyDecode token =>
    obtain ⟨⟨_, _, _⟩, got, rfl, rfl⟩ := map_ok done
    exact SchedulableSequence.applyDecode_transfers wf.settled got
  | applySpeculative accepted =>
    obtain ⟨⟨_, _, _⟩, got, rfl, rfl⟩ := map_ok done
    exact SchedulableSequence.applySpeculative_transfers wf.settled got
  | revertSchedule =>
    obtain ⟨-, kept, -, rfl, rfl⟩ := SchedulableSequence.revertSchedule_cases done
    exact SchedulableSequence.transfers_pop seq kept store
  | padToBoundary =>
    obtain ⟨⟨_, _, _⟩, got, rfl, rfl⟩ := map_ok done
    exact SchedulableSequence.padTailBlock_transfers wf.settled got
  | adoptExternalPrefillAnchor =>
    obtain ⟨_, got, eq⟩ := map_ok done
    obtain ⟨-, -, -, -, -, rfl⟩ := SchedulableSequence.adoptExternalPrefillAnchor_cases got
    cases eq
    exact .refl _ _

theorem runOp_wf (wf : seq.Wf) (done : runOp seq store op = .ok (seq', store')) : seq'.Wf := by
  cases op with
  | matchAndAddPrefix =>
    obtain ⟨⟨_, _, _⟩, got, rfl, rfl⟩ := map_ok done
    exact SchedulableSequence.matchAndAddPrefix_wf wf got
  | schedulePrefill numTokens =>
    obtain ⟨-, -, -, _, -, draws⟩ := SchedulableSequence.schedulePrefill_cases done
    exact draws.wf wf
  | scheduleDecode =>
    obtain ⟨-, _, -, draws⟩ := SchedulableSequence.scheduleDecode_cases done
    exact draws.wf wf
  | scheduleSpeculative numDraftTokens =>
    obtain ⟨-, _, _, -, -, draws⟩ := SchedulableSequence.scheduleSpeculative_cases done
    exact draws.wf wf
  | applyPrefill token => exact SchedulableSequence.applyPrefill_wf wf done
  | applyPrefillChunk => exact SchedulableSequence.applyPrefill_wf wf done
  | applyDecode token =>
    obtain ⟨⟨_, _, _⟩, got, rfl, rfl⟩ := map_ok done
    exact SchedulableSequence.applyDecode_wf wf got
  | applySpeculative accepted =>
    obtain ⟨⟨_, _, _⟩, got, rfl, rfl⟩ := map_ok done
    exact SchedulableSequence.applySpeculative_wf wf got
  | revertSchedule =>
    obtain ⟨-, _, -, -, rfl⟩ := SchedulableSequence.revertSchedule_cases done
    exact ⟨wf.pos, wf.settled, wf.named⟩
  | padToBoundary =>
    obtain ⟨⟨_, _, _⟩, got, rfl, rfl⟩ := map_ok done
    exact SchedulableSequence.padTailBlock_wf wf got
  | adoptExternalPrefillAnchor =>
    obtain ⟨_, got, eq⟩ := map_ok done
    obtain ⟨-, -, -, -, -, rfl⟩ := SchedulableSequence.adoptExternalPrefillAnchor_cases got
    cases eq
    exact ⟨wf.pos, wf.settled, wf.named⟩

theorem runOp_blockSize (wf : seq.Wf) (done : runOp seq store op = .ok (seq', store')) :
    seq'.blockSize = seq.blockSize := by
  cases op with
  | matchAndAddPrefix =>
    obtain ⟨⟨_, _, _⟩, got, rfl, rfl⟩ := map_ok done
    obtain ⟨-, -, _, -, -, rfl, -⟩ := SchedulableSequence.matchAndAddPrefix_cases got
    rfl
  | schedulePrefill numTokens =>
    obtain ⟨-, -, -, _, -, draws⟩ := SchedulableSequence.schedulePrefill_cases done
    exact draws.blockSize
  | scheduleDecode =>
    obtain ⟨-, _, -, draws⟩ := SchedulableSequence.scheduleDecode_cases done
    exact draws.blockSize
  | scheduleSpeculative numDraftTokens =>
    obtain ⟨-, _, _, -, -, draws⟩ := SchedulableSequence.scheduleSpeculative_cases done
    exact draws.blockSize
  | applyPrefill token =>
    obtain ⟨_, _, _, -, -, -, -, rfl⟩ := SchedulableSequence.applyPrefill_cases wf.settled done
    rfl
  | applyPrefillChunk =>
    obtain ⟨_, _, _, -, -, -, -, rfl⟩ := SchedulableSequence.applyPrefill_cases wf.settled done
    rfl
  | applyDecode token =>
    obtain ⟨⟨_, _, _⟩, got, rfl, rfl⟩ := map_ok done
    obtain ⟨_, _, -, -, -, rfl⟩ := SchedulableSequence.applyDecode_cases wf.settled got
    rfl
  | applySpeculative accepted =>
    obtain ⟨⟨_, _, _⟩, got, rfl, rfl⟩ := map_ok done
    obtain ⟨_, _, _, _, _, -, -, -, -, -, -, rfl⟩ := SchedulableSequence.applySpeculative_cases wf.settled got
    rfl
  | revertSchedule =>
    obtain ⟨-, _, -, -, rfl⟩ := SchedulableSequence.revertSchedule_cases done
    rfl
  | padToBoundary =>
    obtain ⟨⟨_, _, _⟩, got, rfl, rfl⟩ := map_ok done
    obtain ⟨-, ⟨-, rfl, -, -⟩ | ⟨-, -, _, -, rfl⟩⟩ := SchedulableSequence.padTailBlock_cases wf.settled got
    · rfl
    · rfl
  | adoptExternalPrefillAnchor =>
    obtain ⟨_, got, eq⟩ := map_ok done
    obtain ⟨-, -, -, -, -, rfl⟩ := SchedulableSequence.adoptExternalPrefillAnchor_cases got
    cases eq
    rfl

end RequestKv

namespace BlockPool

omit [SequenceHashing H] in
theorem transfers_commitBlocks {store store' : BlockStore H} {hashes : List H} {ids : List BlockId}
    {blocks : List (ImmutableBlock H)} (done : commitBlocks store hashes ids = some (store', blocks)) :
    Transfers BlockStore.Ok store (Holding.guards ids) store' (Holding.blocks blocks) := by
  induction ids generalizing store hashes blocks with
  | nil =>
    simp only [commitBlocks, Option.some.injEq, Prod.mk.injEq] at done
    obtain ⟨rfl, rfl⟩ := done
    exact .refl _ _
  | cons id ids ih =>
    cases hashes with
    | nil => simp [commitBlocks] at done
    | cons hash hashes =>
      simp only [commitBlocks] at done
      split at done
      · simp at done
      · rename_i next block register
        split at done
        · simp at done
        · rename_i last rest more
          simp only [Option.some.injEq, Prod.mk.injEq] at done
          obtain ⟨rfl, rfl⟩ := done
          have first := ((BlockStore.transfers_staged store id hash).trans
            (BlockStore.transfers_register register)).frame (Holding.guards ids)
          have second := (ih more).frame_left (Holding.block block)
          refine (first.trans second).congr ?_ (by simp [Holding.blocks])
          rw [← Holding.guards_append]
          rfl

omit [SequenceHashing H] in
theorem commitBlocks_shape {store store' : BlockStore H} {hashes : List H} {ids : List BlockId}
    {blocks : List (ImmutableBlock H)} (done : commitBlocks store hashes ids = some (store', blocks)) :
    blocks.map ImmutableBlock.blockId = ids ∧ blocks.map ImmutableBlock.hash = hashes.take ids.length ∧
      ids.length ≤ hashes.length := by
  induction ids generalizing store hashes blocks with
  | nil =>
    simp only [commitBlocks, Option.some.injEq, Prod.mk.injEq] at done
    simp [← done.2]
  | cons id ids ih =>
    cases hashes with
    | nil => simp [commitBlocks] at done
    | cons hash hashes =>
      simp only [commitBlocks] at done
      split at done
      · simp at done
      · rename_i next block register
        split at done
        · simp at done
        · rename_i last rest more
          simp only [Option.some.injEq, Prod.mk.injEq] at done
          obtain ⟨rfl, rfl⟩ := done
          obtain ⟨sameIds, sameHashes, enough⟩ := ih more
          obtain ⟨sameId, sameHash⟩ := BlockStore.register_shape register
          simp [sameIds, sameHashes, sameId, sameHash, enough]

omit [SequenceHashing H] in
theorem commitLoadedBlocks_cases {pool pool' : BlockPool H}
    {probe probe' : PrefixProbe H} {ids : List BlockId}
    (done : pool.commitLoadedBlocks probe ids = some (pool', probe')) :
    ∃ store blocks, commitBlocks pool.store (probe.seqHashes.drop probe.gpuHit) ids = some (store, blocks) ∧
      pool' = { pool with store } ∧ probe' = { probe with held := probe.held ++ blocks } := by
  unfold commitLoadedBlocks at done
  split at done
  · simp at done
  · rename_i store blocks commit
    simp only [Option.some.injEq, Prod.mk.injEq] at done
    exact ⟨store, blocks, commit, done.1.symm, done.2.symm⟩

end BlockPool

namespace System

/-- The holders own exactly the guards that exist, and every request is well
formed. -/
structure Ok (s : System H) : Prop where
  pos : 0 < s.pool.blockSize
  owned : s.pool.store.Ok (heldByAll Holder.holding s.holders)
  requests : ∀ request, .request request ∈ s.holders →
    request.seq.Wf ∧ request.seq.blockSize = s.pool.blockSize

variable {s s' : System H} {a : Action}

theorem Ok.request_at {k : Nat} {request : RequestKv H} (ok : s.Ok)
    (atK : s.holders[k]? = some (.request request)) :
    request.seq.Wf ∧ request.seq.blockSize = s.pool.blockSize :=
  ok.requests request (List.mem_of_getElem? atK)

/-- What the others hold is a frame of each holder. -/
theorem Ok.frame_at {k : Nat} {holder : Holder H} (ok : s.Ok) (atK : s.holders[k]? = some holder) :
    ∃ rest, s.pool.store.Ok (holder.holding + rest) := by
  obtain ⟨rest, split⟩ := heldByAll_mem Holder.holding (List.mem_of_getElem? atK)
  exact ⟨rest, split ▸ ok.owned⟩

/-- One holder moves blocks and the others do not. -/
theorem Ok.set {k : Nat} {holder holder' : Holder H} {pool : BlockPool H} {gate : Gate} (ok : s.Ok)
    (atK : s.holders[k]? = some holder)
    (moves : Transfers BlockStore.Ok s.pool.store holder.holding pool.store holder'.holding)
    (size : pool.blockSize = s.pool.blockSize)
    (formed : ∀ request, holder' = .request request →
      request.seq.Wf ∧ request.seq.blockSize = s.pool.blockSize) :
    System.Ok { pool, gate, holders := s.holders.set k holder' } := by
  refine ⟨size ▸ ok.pos, moves.owner_step atK ok.owned, ?_⟩
  intro request member
  simp only [size]
  rcases List.mem_or_eq_of_mem_set member with old | new
  · exact ok.requests request old
  · exact formed request new.symm

/-- A new holder takes its blocks out of the pools. -/
theorem Ok.append {holder : Holder H} {pool : BlockPool H} {gate : Gate} (ok : s.Ok)
    (moves : Transfers BlockStore.Ok s.pool.store 0 pool.store holder.holding)
    (size : pool.blockSize = s.pool.blockSize)
    (formed : ∀ request, holder = .request request →
      request.seq.Wf ∧ request.seq.blockSize = s.pool.blockSize) :
    System.Ok { pool, gate, holders := s.holders ++ [holder] } := by
  refine ⟨size ▸ ok.pos, ?_, ?_⟩
  · have taken := moves _ (by rw [zero_add]; exact ok.owned)
    rw [add_comm] at taken
    simpa [heldByAll] using taken
  · intro request member
    simp only [size]
    rcases List.mem_append.mp member with old | new
    · exact ok.requests request old
    · exact formed request (List.mem_singleton.mp new).symm

omit [DecidableEq H] [SequenceHashing H] in
theorem retire_unchanged (request : RequestKv H) (pool : BlockPool H) :
    (request.retire pool).2.store = pool.store ∧ (request.retire pool).2.blockSize = pool.blockSize ∧
      (request.retire pool).1.seq = request.seq := by
  unfold RequestKv.retire
  split <;> exact ⟨rfl, rfl, rfl⟩

theorem Ok.moved (ok : s.Ok) (moved : Moved s a s') : s'.Ok := by
  cases moved with
  | newRequest prompt maxOutputTokens salt =>
    refine ok.append (.refl _ _) rfl ?_
    rintro request ⟨⟩
    exact ⟨SchedulableSequence.wf_new prompt maxOutputTokens ok.pos salt, rfl⟩
  | evictInactive => exact ⟨ok.pos, ok.owned.evictInactive, ok.requests⟩
  | admitAgain atK admitted => exact ok
  | admitRead gate atK fresh => exact ⟨ok.pos, ok.owned, ok.requests⟩
  | admitGranted gate atK covered =>
    refine ok.set atK (.refl _ _) rfl ?_
    rintro request ⟨⟩
    have formed := ok.request_at atK
    exact formed
  | admitRefused gate atK => exact ⟨ok.pos, ok.owned, ok.requests⟩
  | call atK passes done =>
    obtain ⟨wf, size⟩ := ok.request_at atK
    refine ok.set atK (RequestKv.transfers_runOp wf done) rfl ?_
    rintro request ⟨⟩
    exact ⟨RequestKv.runOp_wf wf done, (RequestKv.runOp_blockSize wf done).trans size⟩
  | callFailed atK passes failed calm => exact ok
  | @retire k request atK owned =>
    obtain ⟨store, size, seq⟩ := retire_unchanged request s.pool
    refine ok.set atK ?_ size ?_
    · simp only [Holder.holding, store, seq]
      exact .refl _ _
    · rintro other ⟨⟩
      rw [seq]
      exact ok.request_at atK
  | @release k request seq store atK retired owned done =>
    obtain ⟨wf, size⟩ := ok.request_at atK
    obtain ⟨-, rfl, rfl⟩ := SchedulableSequence.release_cases done
    refine ok.set atK ?_ rfl ?_
    · have dropped := SchedulableSequence.transfers_dropBlocks request.seq s.pool.store
      simpa [Holder.holding, SchedulableSequence.holding, setStore] using dropped
    · rintro other ⟨⟩
      exact ⟨⟨wf.pos, rfl, by simp⟩, size⟩
  | releaseFailed atK failed => exact ok
  | dropRequest atK retired owned =>
    exact ok.set atK (SchedulableSequence.transfers_dropBlocks _ _) rfl (by simp)
  | dropProbe atK => exact ok.set atK (BlockStore.transfers_dropAllImmutable _ _) rfl (by simp)
  | dropReservation atK => exact ok.set atK (BlockStore.transfers_releaseAllMutable _ _) rfl (by simp)
  | probe prompt salt => exact ok.append (BlockStore.transfers_match _ _) rfl (by simp)
  | includeFinal atK => exact ok.set atK (.refl _ _) rfl (by simp)
  | @truncate k blocks probe atK =>
    refine ok.set atK ?_ rfl (by simp)
    have dropped := (BlockStore.transfers_dropAllImmutable (probe.held.drop blocks) s.pool.store).frame_left
      (Holding.blocks (probe.held.take blocks))
    rw [← Holding.blocks_append, List.take_append_drop, add_zero] at dropped
    exact dropped
  | reserveRead gate => exact ⟨ok.pos, ok.owned, ok.requests⟩
  | reserveRefused gate => exact ⟨ok.pos, ok.owned, ok.requests⟩
  | reserveGranted gate above => exact ⟨ok.pos, ok.owned, ok.requests⟩
  | reserveFailed gate => exact ⟨ok.pos, ok.owned, ok.requests⟩
  | reserveTake gate alloc => exact ok.append (BlockStore.transfers_allocate alloc) rfl (by simp)
  | @commit p r probe probe' ids pool atP atR done =>
    obtain ⟨store, blocks, commit, rfl, rfl⟩ := BlockPool.commitLoadedBlocks_cases done
    have apart : p ≠ r := by
      rintro rfl
      simp [atP] at atR
    have atP' : (s.holders.set r Holder.gone)[p]? = some (.probe probe) := by
      rw [List.getElem?_set_ne apart.symm]
      exact atP
    obtain ⟨rest, before, middle⟩ := heldByAll_set Holder.holding atR .gone
    obtain ⟨rest', middle', after⟩ := heldByAll_set Holder.holding atP'
      (.probe { probe with held := probe.held ++ blocks })
    refine ⟨ok.pos, ?_, ?_⟩
    · have owned := ok.owned
      have split : rest = Holding.blocks probe.held + rest' := by
        rw [middle] at middle'
        simpa [Holder.holding] using middle'
      rw [before, split, ← add_assoc, add_comm (Holder.holding _)] at owned
      have moved := (BlockPool.transfers_commitBlocks commit).frame_left
        (Holding.blocks probe.held) rest' owned
      rw [← Holding.blocks_append] at moved
      simp only [after]
      exact moved
    · intro request member
      rcases List.mem_or_eq_of_mem_set member with old | new
      · rcases List.mem_or_eq_of_mem_set old with old | new
        · exact ok.requests request old
        · simp at new
      · simp at new

theorem new_cases {blockSize numBlocks : Nat}
    (made : (System.new blockSize numBlocks : Option (System H)) = some s) :
    ∃ fresh store id block, (BlockStore.new numBlocks : BlockStore H).allocateAtomic 1 = some (fresh, [id]) ∧
      (fresh.transitionToStaged id SequenceHashing.default).registerCompletedBlock id
        SequenceHashing.default =
        some (store, block) ∧
      s = { pool := { blockSize, store, entitled := 0 }, gate := .free, holders := [.padding block] } := by
  simp only [System.new, BlockPool.new, Option.map_eq_some_iff] at made
  obtain ⟨⟨pool, padding⟩, made, rfl⟩ := made
  split at made
  · rename_i fresh id alloc
    split at made
    · rename_i store block register
      simp only [Option.some.injEq, Prod.mk.injEq] at made
      obtain ⟨rfl, rfl⟩ := made
      exact ⟨fresh, store, id, block, alloc, register, rfl⟩
    · simp at made
  · simp at made

theorem Ok.new {blockSize numBlocks : Nat} (pos : 0 < blockSize)
    (made : (System.new blockSize numBlocks : Option (System H)) = some s) : s.Ok := by
  obtain ⟨fresh, store, id, block, alloc, register, rfl⟩ := new_cases made
  refine ⟨pos, ?_, by simp⟩
  have moves := (BlockStore.transfers_allocate alloc).trans
    ((BlockStore.transfers_staged fresh id SequenceHashing.default).trans
      (BlockStore.transfers_register register))
  have owned := moves.whole (BlockStore.ok_new numBlocks)
  simpa [heldByAll, Holder.holding] using owned

end System

end PegaInfer.KvStore
