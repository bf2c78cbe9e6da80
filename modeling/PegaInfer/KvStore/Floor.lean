import PegaInfer.KvStore.Entitlement

namespace PegaInfer.KvStore

open PegaInfer.Kvbm PegaInfer.Lib

variable {H : Type} {s s' : System H} {credits : Credits}

section Requests

variable {request : RequestKv H} {k : Nat}

theorem Counted.remaining_nonneg (counted : Counted s) (member : .request request ∈ s.holders) :
    0 ≤ request.remaining := by
  obtain ⟨capacity, lifetime, budget⟩ := counted.budget request member
  have pages := budget.pages
  unfold RequestKv.remaining
  rw [lifetime]
  omega

theorem Counted.owed_nonneg (counted : Counted s) {holder : Holder H} (member : holder ∈ s.holders) :
    0 ≤ holder.owed := by
  cases holder with
  | request request =>
    simp only [Holder.owed]
    split
    · exact counted.remaining_nonneg member
    · exact le_rfl
  | _ => exact le_rfl

theorem Floor.unadmitted_credit (floor : Floor s credits) (atK : s.holders[k]? = some (.request request))
    (fresh : request.admitted = false) : credits k = 0 := by
  have owed := floor.owed k
  simp only [System.owedAt, atK, Holder.owed, fresh, Bool.false_eq_true, if_false] at owed
  omega

/-- What an admitted request may still draw is there. -/
theorem Floor.enough (floor : Floor s credits) (atK : s.holders[k]? = some (.request request))
    (admitted : request.admitted = true) (uncredited : credits k = 0) :
    request.lifetimeBlocks ≤ request.seq.heldBlocks + s.pool.store.availableBlocks := by
  have inside := (List.getElem?_eq_some_iff.mp atK).1
  have owed := floor.owed_le inside
  simp only [System.owedAt, atK, Holder.owed, admitted, if_true, RequestKv.remaining, uncredited,
    BlockPool.availableBlocks] at owed
  omega

end Requests

section Moves

theorem available_dropBlocks [DecidableEq H] (seq : SchedulableSequence H) (store : BlockStore H) :
    store.availableBlocks ≤ (seq.dropBlocks store).availableBlocks := by
  refine (BlockStore.available_dropAllImmutable seq.assigned store).trans ?_
  simp only [SchedulableSequence.dropBlocks, available_releaseAllMutable]
  omega

/-- A holder that is owed what it was moves, and the pool loses nothing. -/
theorem Floor.shift {k : Nat} {holder holder' : Holder H} (floor : Floor s credits) (counted : Counted s')
    (atK : s.holders[k]? = some holder) (after : s'.holders = s.holders.set k holder')
    (same : holder'.owed = holder.owed) (gate : s'.gate = s.gate)
    (more : s.pool.availableBlocks ≤ s'.pool.availableBlocks)
    (free : s.gate.borrows k = false ∨ ∀ request, holder ≠ .request request) : Floor s' credits := by
  have inside := (List.getElem?_eq_some_iff.mp atK).1
  have before : s.owedAt k = holder.owed := by simp [System.owedAt, atK]
  have owedAt : s'.owedAt = s.owedAt := by
    rw [System.owedAt_set inside after, same, ← before, Function.update_eq_self]
  have covered := floor.covered
  refine floor.carry counted owedAt (by rw [after, List.length_set]) (by omega) ?_
  intro sums
  exact floor.gate.keep gate (.inr more) sums.le (.set atK free after)

/-- A new holder that is owed nothing. -/
theorem Floor.append {holder : Holder H} (floor : Floor s credits) (counted : Counted s')
    (after : s'.holders = s.holders ++ [holder]) (nothing : holder.owed = 0)
    (covered : s.outstanding credits ≤ s'.pool.availableBlocks)
    (gate : s'.outstanding credits = s.outstanding credits → s'.GateOk credits) : Floor s' credits :=
  floor.carry counted (System.owedAt_append nothing after) (by simp [after]) covered gate

/-- Only the gate moves. -/
theorem Floor.turn {gate : Gate} (floor : Floor s credits) (counted : Counted { s with gate })
    (ready : System.GateOk { s with gate } credits) : Floor { s with gate } credits :=
  ⟨counted, floor.owed, floor.covered, ready⟩

theorem Floor.afforded {revived : Nat} {pool : BlockPool H} (floor : Floor s credits)
    (affords : s.affords credits revived = true)
    (cost : s.pool.availableBlocks ≤ pool.availableBlocks + revived) :
    s.outstanding credits ≤ pool.availableBlocks ∧
      (s.gate = .free ∨ s.pool.availableBlocks ≤ pool.availableBlocks) := by
  have slack := floor.outstanding_eq
  have covered := floor.covered
  unfold System.affords at affords
  split at affords
  · rename_i free
    simp only [decide_eq_true_eq] at affords
    exact ⟨by omega, .inl free⟩
  · simp only [decide_eq_true_eq] at affords
    exact ⟨by omega, .inr (by omega)⟩

end Moves

section Runs

variable [DecidableEq H] [SequenceHashing H] {a : Action} {request : RequestKv H} {k : Nat}

theorem Counted.moved (ok : s.Ok) (counted : Counted s) (unpadded : a.unpadded = true)
    (moved : Moved s a s') :
    Counted s' := by
  have kept : ∀ {k : Nat} {request : RequestKv H}, s.holders[k]? = some (.request request) →
      request.InBudget :=
    fun atK => counted.budget _ (List.mem_of_getElem? atK)
  cases moved with
  | newRequest prompt maxOutputTokens salt =>
    refine counted.append rfl rfl rfl (.inr rfl) ?_
    rintro _ ⟨⟩
    exact ⟨prompt.length + maxOutputTokens, rfl, ⟨le_rfl, le_rfl, Nat.zero_le _⟩⟩
  | evictInactive => exact counted.turn rfl rfl fun k borrows => .inl borrows
  | admitAgain atK admitted => exact counted
  | @admitRead k credited request gate atK fresh =>
    refine counted.turn rfl rfl fun j borrows => .inr ?_
    obtain rfl : k = j := by simpa [Gate.borrows] using borrows
    exact ⟨request, atK, fresh⟩
  | @admitGranted k credited available request gate atK granted =>
    obtain ⟨lent, atLent, fresh⟩ := counted.lent k (by simp [gate, Gate.borrows])
    obtain ⟨⟩ : Holder.request request = .request lent := Option.some.inj (atK.symm.trans atLent)
    refine counted.set atK rfl (.inl rfl) ?_ ?_
    · simp [Holder.owed, fresh, RequestKv.declare, RequestKv.remaining]
    · rintro _ ⟨⟩
      exact counted.budget request (List.mem_of_getElem? atK)
  | admitRefused gate atK => exact counted.turn rfl rfl fun k borrows => by simp [Gate.borrows] at borrows
  | @call k op request seq store atK passes done =>
    obtain ⟨wf, -⟩ := ok.request_at atK
    obtain ⟨capacity, lifetime, budget⟩ := kept atK
    have size := RequestKv.runOp_blockSize wf done
    have drawn : op ≠ .padToBoundary := by simpa [Action.unpadded] using unpadded
    refine counted.set atK rfl (.inr ⟨rfl, .inl ?_⟩) ?_ ?_
    · cases gate : s.gate <;> simp_all [Gate.blocks, Gate.borrows]
    · cases admitted : request.admitted <;>
        simp [RequestKv.settle, Holder.owed, RequestKv.remaining, admitted]
    · rintro _ ⟨⟩
      exact ⟨capacity, by simp only [RequestKv.settle, lifetime, size], runOp_budgeted wf budget drawn done⟩
  | callFailed atK passes failed calm => exact counted
  | @retire k request atK owned =>
    obtain ⟨-, -, seq⟩ := System.retire_unchanged request s.pool
    refine counted.set atK rfl (.inr ⟨rfl, .inl owned⟩) ?_ ?_
    · simp only [RequestKv.retire]
      split <;> simp_all [Holder.owed, RequestKv.remaining]
      omega
    · rintro _ ⟨⟩
      obtain ⟨capacity, lifetime, budget⟩ := kept atK
      refine ⟨capacity, ?_, seq ▸ budget⟩
      rw [seq, ← lifetime]
      simp only [RequestKv.retire]
      split <;> rfl
  | release atK retired owned done =>
    obtain ⟨-, rfl, rfl⟩ := SchedulableSequence.release_cases done
    refine counted.set atK rfl (.inr ⟨rfl, .inl owned⟩) ?_ ?_
    · simp [Holder.owed, retired, System.setStore, System.setHolder]
    · rintro _ ⟨⟩
      obtain ⟨capacity, lifetime, budget⟩ := kept atK
      exact ⟨capacity, lifetime, budget.input, budget.tokens, Nat.zero_le _⟩
  | releaseFailed atK failed => exact counted
  | dropRequest atK retired owned =>
    exact counted.set atK rfl (.inr ⟨rfl, .inl owned⟩)
      (by simp [Holder.owed, retired, System.setStore, System.setHolder]) (by simp)
  | dropProbe atK =>
    exact counted.set atK rfl (.inr ⟨rfl,
      .inr (by simp)⟩) (by simp [Holder.owed, System.setStore, System.setHolder]) (by simp)
  | dropReservation atK =>
    exact counted.set atK rfl (.inr ⟨rfl,
      .inr (by simp)⟩) (by simp [Holder.owed, System.setStore, System.setHolder]) (by simp)
  | probe prompt salt => exact counted.append rfl rfl rfl (.inr rfl) (by simp)
  | includeFinal atK =>
    exact counted.set atK rfl (.inr ⟨rfl, .inr (by simp)⟩) (by simp [Holder.owed, System.setHolder]) (by simp)
  | truncate atK =>
    exact counted.set atK rfl (.inr ⟨rfl,
      .inr (by simp)⟩) (by simp [Holder.owed, System.setStore, System.setHolder]) (by simp)
  | reserveRead gate => exact counted.turn rfl rfl fun k borrows => by simp [Gate.borrows] at borrows
  | reserveRefused gate => exact counted.turn rfl rfl fun k borrows => by simp [Gate.borrows] at borrows
  | reserveGranted gate above => exact counted.turn rfl rfl fun k borrows => by simp [Gate.borrows] at borrows
  | reserveFailed gate => exact counted.turn rfl rfl fun k borrows => by simp [Gate.borrows] at borrows
  | reserveTake gate alloc => exact counted.append rfl rfl rfl (.inl rfl) (by simp)
  | @commit p r probe probe' ids pool atP atR done =>
    obtain ⟨store, blocks, -, rfl, -⟩ := BlockPool.commitLoadedBlocks_cases done
    have apart : r ≠ p := by
      rintro rfl
      simp [atP] at atR
    have spent : Counted { s with holders := s.holders.set r .gone } :=
      counted.set atR rfl (.inr ⟨rfl, .inr (by simp)⟩) (by simp [Holder.owed]) (by simp)
    have atP' : (s.holders.set r .gone)[p]? = some (.probe probe) := by rwa [List.getElem?_set_ne apart]
    exact spent.set atP' rfl (.inr ⟨rfl, .inr (by simp)⟩) (by simp [Holder.owed]) (by simp)

theorem Floor.credited_le (floor : Floor s credits) (member : .request request ∈ s.holders) {credited : Nat}
    (pinned : credited = 0 ∨ request.seq.heldBlocks = 0 ∧ credited ≤ pinnedPrefix s.pool.store request.seq) :
    (credited : Int) ≤ request.remaining := by
  rcases pinned with rfl | ⟨empty, within⟩
  · exact floor.counted.remaining_nonneg member
  · obtain ⟨capacity, lifetime, budget⟩ := floor.counted.budget request member
    have cap := (pinnedPrefix_le s.pool.store request.seq).2
    have whole : (request.seq.numInputTokens - 1) / request.seq.blockSize ≤
        capacity / request.seq.blockSize := by
      have input := budget.input
      have tokens := budget.tokens
      exact Nat.div_le_div_right (by omega)
    have ceil := div_le_ceilDiv capacity request.seq.blockSize
    unfold RequestKv.remaining
    rw [lifetime, empty]
    omega

omit [DecidableEq H] in
theorem System.promised_call {op : KvOp} (promised : s.promised credits (.call k op) = true)
    (atK : s.holders[k]? = some (.request request)) :
    request.admitted = true ∧ op ≠ .padToBoundary ∧
      (credits k = 0 ∨ op = .matchAndAddPrefix ∧ request.seq.state = .idle ∧ request.seq.heldBlocks = 0 ∧
        credits k ≤ pinnedPrefix s.pool.store request.seq) := by
  simpa [System.promised, atK, and_assoc] using promised

theorem matchAndAddPrefix_panics {seq : SchedulableSequence H} {store : BlockStore H} {fault : Fault}
    (idle : seq.state = .idle) (empty : seq.heldBlocks = 0)
    (failed : RequestKv.runOp seq store .matchAndAddPrefix = .error fault) : fault = .panicked := by
  simp only [RequestKv.runOp, SchedulableSequence.matchAndAddPrefix, idle, empty, ne_eq, not_true_eq_false,
    if_false] at failed
  split at failed
  · simpa [Except.map] using failed.symm
  · simp [Except.map] at failed

theorem Floor.call {op : KvOp} {seq : SchedulableSequence H} {store : BlockStore H} (ok : s.Ok)
    (floor : Floor s credits)
    (promised : s.promised credits (.call k op) = true) (spares : s.spares credits (.call k op) = true)
    (atK : s.holders[k]? = some (.request request)) (passes : s.gate.blocks k request.admitted = false)
    (done : RequestKv.runOp request.seq s.pool.store op = .ok (seq, store))
    (counted : Counted
      { s with
        pool := (request.settle s.pool seq store).2
        holders := s.holders.set k (.request (request.settle s.pool seq store).1) }) :
    Floor
      { s with
        pool := (request.settle s.pool seq store).2
        holders := s.holders.set k (.request (request.settle s.pool seq store).1) }
      (Function.update credits k (if op = .matchAndAddPrefix then 0 else credits k)) := by
  obtain ⟨admitted, unpadded, credit⟩ := System.promised_call promised atK
  have wf := (ok.request_at atK).1
  have free : s.gate = .free := by
    cases held : s.gate <;> simp_all [Gate.blocks]
  have affords : (op.revived request.seq s.pool.store : Int) ≤ s.slack credits := by
    simpa [System.spares, atK, KvOp.not_refused wf.settled done, System.affords, free] using spares
  obtain ⟨frame, whole⟩ := ok.frame_at atK
  have cost := runOp_available wf whole done
  obtain ⟨capacity, lifetime, budget⟩ := floor.counted.budget request (List.mem_of_getElem? atK)
  have size := RequestKv.runOp_blockSize wf done
  have budget' := runOp_budgeted wf budget unpadded done
  have pages := budget'.pages
  rw [size] at pages
  have slack := floor.outstanding_eq
  have owed := floor.owed k
  have before : (Holder.request request).owed = request.lifetimeBlocks - request.seq.heldBlocks := by
    simp [Holder.owed, admitted, RequestKv.remaining]
  have after : (Holder.request (request.settle s.pool seq store).1).owed =
      request.lifetimeBlocks - seq.heldBlocks := by
    simp [Holder.owed, admitted, RequestKv.remaining, RequestKv.settle]
  refine floor.set counted atK rfl ?_ ?_ ?_
  · rw [after]
    split
    · omega
    · rename_i other
      have uncredited : credits k = 0 := credit.resolve_right fun folds => other folds.1
      omega
  · have now : (request.settle s.pool seq store).2.availableBlocks = store.availableBlocks := rfl
    have earlier : s.pool.availableBlocks = s.pool.store.availableBlocks := rfl
    have folded : (if op = .matchAndAddPrefix then 0 else credits k) = credits k ∨
        (if op = .matchAndAddPrefix then 0 else credits k) = 0 ∧
          credits k ≤ op.folded request.seq s.pool.store := by
      rcases credit with zero | ⟨rfl, -, -, pinned⟩
      · exact .inl (by rw [zero, ite_self])
      · exact .inr ⟨rfl, pinned⟩
    rw [before, after]
    simp only [now]
    omega
  · intro sums
    simp [System.GateOk, free]

omit [DecidableEq H] [SequenceHashing H] in
theorem System.creditsAfter_call (s' : System H) (op : KvOp) :
    s.creditsAfter credits s' (.call k op) =
      Function.update credits k (if op = .matchAndAddPrefix then 0 else credits k) := by
  cases op <;> simp [System.creditsAfter]

omit [DecidableEq H] [SequenceHashing H] in
/-- An admission that its test covers with `credit` pinned blocks. -/
theorem Floor.admitGranted {credit credited available : Nat} (floor : Floor s credits)
    (gate : s.gate = .admitting k credited available) (atK : s.holders[k]? = some (.request request))
    (granted : request.covered credit available s.pool.entitledBlocks = true) (within : credit ≤ credited)
    (counted : Counted
      { pool := (request.declare s.pool).2
        gate := .free
        holders := s.holders.set k (.request (request.declare s.pool).1) }) :
    Floor
      { pool := (request.declare s.pool).2
        gate := .free
        holders := s.holders.set k (.request (request.declare s.pool).1) }
      (Function.update credits k credit) := by
  have ready := floor.gate
  simp only [System.GateOk, gate] at ready
  obtain ⟨read, _, atK', fresh, room⟩ := ready
  obtain ⟨⟩ : Holder.request request = .request _ := Option.some.inj (atK.symm.trans atK')
  have uncredited := floor.unadmitted_credit atK fresh
  have promised := floor.outstanding_le
  have before : (Holder.request request).owed = 0 := by simp [Holder.owed, fresh]
  have after : (Holder.request (request.declare s.pool).1).owed = request.remaining := by
    simp [Holder.owed, RequestKv.declare, RequestKv.remaining]
  simp only [RequestKv.covered, decide_eq_true_eq] at granted
  refine floor.set counted atK rfl ?_ ?_ (fun _ => trivial)
  · rw [after]
    omega
  · have now : (request.declare s.pool).2.availableBlocks = s.pool.availableBlocks := rfl
    rw [before, after]
    simp only [now]
    omega

omit [DecidableEq H] [SequenceHashing H] in
theorem Floor.retire (floor : Floor s credits) (atK : s.holders[k]? = some (.request request))
    (owned : s.gate.borrows k = false)
    (counted : Counted
      { s with
        pool := (request.retire s.pool).2
        holders := s.holders.set k (.request (request.retire s.pool).1) }) :
    Floor
      { s with
        pool := (request.retire s.pool).2
        holders := s.holders.set k (.request (request.retire s.pool).1) }
      (Function.update credits k 0) := by
  obtain ⟨store, -, -⟩ := System.retire_unchanged request s.pool
  have now : (request.retire s.pool).2.availableBlocks = s.pool.availableBlocks := by
    simp only [BlockPool.availableBlocks, store]
  have after : (Holder.request (request.retire s.pool).1).owed = 0 := by
    simp only [RequestKv.retire]
    split <;> simp_all [Holder.owed]
  have owed := floor.owed k
  have atOwed : s.owedAt k = (Holder.request request).owed := by simp [System.owedAt, atK]
  have covered := floor.covered
  refine floor.set counted atK rfl (by simp [after]) ?_ ?_
  · rw [after]
    simp only [now]
    omega
  · intro sums
    refine floor.gate.keep rfl (.inr (by simp only [now]; exact le_rfl)) ?_ (.set atK (.inl owned) rfl)
    rw [sums, after]
    omega

theorem Moved.unpadded (promised : s.promised credits a = true) (moved : Moved s a s') :
    a.unpadded = true := by
  cases moved with
  | call atK passes done => simpa [Action.unpadded] using (System.promised_call promised atK).2.1
  | callFailed atK passes failed calm => simpa [Action.unpadded] using (System.promised_call promised atK).2.1
  | _ => rfl

theorem Floor.moved (ok : s.Ok) (floor : Floor s credits) (promised : s.promised credits a = true)
    (spares : s.spares credits a = true) (moved : Moved s a s') : Floor s' (s.creditsAfter credits s' a) := by
  have covered := floor.covered
  have counted := floor.counted.moved ok (moved.unpadded promised) moved
  cases moved with
  | newRequest prompt maxOutputTokens salt =>
    exact floor.append counted rfl rfl covered fun sums =>
      floor.gate.keep rfl (.inr le_rfl) sums.le (.append rfl)
  | evictInactive =>
    have same : (s.setStore s.pool.store.evictInactive).pool.availableBlocks = s.pool.availableBlocks :=
      BlockStore.available_evictInactive _
    refine floor.carry counted rfl le_rfl (by rw [same]; exact covered) ?_
    exact fun sums => floor.gate.keep rfl (.inr same.ge) sums.le fun _ _ _ atK => atK
  | admitAgain atK admitted => exact floor
  | @admitRead k credited request gate atK fresh =>
    refine floor.turn counted ⟨le_rfl, request, atK, fresh, floor.credited_le (List.mem_of_getElem? atK) ?_⟩
    simpa [System.promised, atK] using promised
  | admitGranted gate atK granted =>
    have inside := (List.getElem?_eq_some_iff.mp atK).1
    have admitted := floor.admitGranted gate atK granted le_rfl counted
    simpa [System.creditsAfter, gate, inside, RequestKv.declare] using admitted
  | admitRefused gate atK =>
    have ready := floor.gate
    simp only [System.GateOk, gate] at ready
    obtain ⟨-, _, atK', fresh, -⟩ := ready
    have same : s.creditsAfter credits { s with gate := .free } .admitDecide = credits := by
      simp [System.creditsAfter, gate, atK', fresh]
    rw [same]
    exact floor.turn counted trivial
  | call atK passes done =>
    rw [System.creditsAfter_call]
    exact floor.call ok promised spares atK passes done counted
  | callFailed atK passes failed calm =>
    obtain ⟨-, -, credit⟩ := System.promised_call promised atK
    rw [System.creditsAfter_call]
    rcases credit with zero | ⟨rfl, idle, empty, -⟩
    · rw [zero, ite_self, ← zero, Function.update_eq_self]
      exact floor
    · exact absurd (matchAndAddPrefix_panics idle empty failed) calm
  | retire atK owned => exact floor.retire atK owned counted
  | release atK retired owned done =>
    obtain ⟨-, rfl, rfl⟩ := SchedulableSequence.release_cases done
    exact floor.shift counted atK rfl (by simp [Holder.owed, retired]) rfl
      (available_dropBlocks _ _) (.inl owned)
  | releaseFailed atK failed => exact floor
  | dropRequest atK retired owned =>
    exact floor.shift counted atK rfl (by simp [Holder.owed, retired]) rfl
      (available_dropBlocks _ _) (.inl owned)
  | dropProbe atK =>
    exact floor.shift counted atK rfl rfl rfl (BlockStore.available_dropAllImmutable _ _) (.inr (by simp))
  | dropReservation atK =>
    refine floor.shift counted atK rfl rfl rfl ?_ (.inr (by simp))
    exact (Nat.le_add_right _ _).trans (available_releaseAllMutable _ _).ge
  | probe prompt salt =>
    have cost := available_matchBlocks (sequenceHashes s.pool.blockSize salt prompt) s.pool.store
    obtain ⟨left, kept⟩ := floor.afforded spares
      (show _ ≤ (s.pool.probePrefix prompt salt).1.availableBlocks + _ from cost)
    refine floor.append counted rfl rfl left ?_
    exact fun sums => floor.gate.keep rfl kept sums.le (.append rfl)
  | includeFinal atK => exact floor.shift counted atK rfl rfl rfl le_rfl (.inr (by simp))
  | truncate atK =>
    exact floor.shift counted atK rfl rfl rfl (BlockStore.available_dropAllImmutable _ _) (.inr (by simp))
  | reserveRead gate => exact floor.turn counted le_rfl
  | reserveRefused gate => exact floor.turn counted trivial
  | reserveGranted gate above =>
    have ready := floor.gate
    simp only [System.GateOk, gate] at ready
    have within := floor.outstanding_le
    refine floor.turn counted ?_
    change (_ : Int) + s.outstanding credits ≤ s.pool.availableBlocks
    omega
  | reserveFailed gate => exact floor.turn counted trivial
  | reserveTake gate alloc =>
    have ready := floor.gate
    simp only [System.GateOk, gate] at ready
    have taken := BlockStore.available_allocate alloc
    refine floor.append counted rfl rfl ?_ fun _ => trivial
    simp only [BlockPool.availableBlocks, System.setStore] at ready taken ⊢
    omega
  | @commit p r probe probe' ids pool atP atR done =>
    obtain ⟨store, blocks, committed, rfl, rfl⟩ := BlockPool.commitLoadedBlocks_cases done
    simp only [System.spares, atP, atR] at spares
    have cost : s.pool.availableBlocks ≤ BlockPool.availableBlocks { s.pool with store } + _ :=
      available_commitBlocks committed
    obtain ⟨left, kept⟩ := floor.afforded spares cost
    have apart : r ≠ p := by
      rintro rfl
      simp [atP] at atR
    have insideR := (List.getElem?_eq_some_iff.mp atR).1
    have insideP := (List.getElem?_eq_some_iff.mp atP).1
    have same : System.owedAt
        { s with
          pool := { s.pool with store }
          holders := (s.holders.set r .gone).set p
            (.probe { probe with held := probe.held ++ blocks }) } = s.owedAt := by
      have first : s.owedAt r = 0 := by simp [System.owedAt, atR, Holder.owed]
      have second : s.owedAt p = 0 := by simp [System.owedAt, atP, Holder.owed]
      funext j
      by_cases here : p = j
      · rw [← here, second]
        simp [System.owedAt, insideP, Holder.owed]
      · by_cases there : r = j
        · rw [← there, first]
          simp only [System.owedAt]
          rw [List.getElem?_set_ne apart.symm, List.getElem?_set_self insideR]
          rfl
        · simp [System.owedAt, List.getElem?_set_ne here, List.getElem?_set_ne there]
    refine floor.carry counted same (by simp) left ?_
    intro sums
    refine floor.gate.keep rfl kept sums.le ?_
    intro k request borrows atK
    have notR : r ≠ k := by
      rintro rfl
      simp [atR] at atK
    have notP : p ≠ k := by
      rintro rfl
      simp [atP] at atK
    simpa [List.getElem?_set_ne notR, List.getElem?_set_ne notP] using atK

theorem Counted.new {blockSize numBlocks : Nat}
    (made : (System.new blockSize numBlocks : Option (System H)) = some s) :
    Counted s := by
  obtain ⟨fresh, store, id, block, -, -, rfl⟩ := System.new_cases made
  refine ⟨?_, by simp, ?_⟩
  · simp [System.owedAt, Holder.owed]
  · intro k borrows
    simp [Gate.borrows] at borrows

theorem Floor.new {blockSize numBlocks : Nat}
    (made : (System.new blockSize numBlocks : Option (System H)) = some s) :
    Floor s fun _ => 0 := by
  have counted := Counted.new made
  obtain ⟨fresh, store, id, block, -, -, rfl⟩ := System.new_cases made
  have nothing : ∀ k, System.owedAt
      { pool := { blockSize, store, entitled := 0 }, gate := .free,
        holders := [Holder.padding block] } k = 0 := by
    intro k
    cases k <;> simp [System.owedAt, Holder.owed]
  refine ⟨counted, ?_, ?_, trivial⟩
  · intro k
    rw [nothing]
    rfl
  · simp only [System.outstanding, nothing, Nat.cast_zero, sub_self, Finset.sum_const_zero]
    exact Int.natCast_nonneg _

/-- Draws as the pool's contract has them, and nothing taken below the
floor. -/
def SparingCalls (s : System H) (credits : Credits) (a : Action) : Bool :=
  s.promised credits a && s.spares credits a

theorem EntitledReach.floor {blockSize numBlocks : Nat} (pos : 0 < blockSize)
    (reach : EntitledReach SparingCalls blockSize numBlocks s credits) : s.Ok ∧ Floor s credits := by
  induction reach with
  | start made => exact ⟨.new pos made, .new made⟩
  | next before allowed went ih =>
    obtain ⟨promised, spares⟩ := Bool.and_eq_true_iff.mp allowed
    exact ⟨ih.1.moved (System.step_moved went), ih.2.moved ih.1 promised spares (System.step_moved went)⟩

omit [DecidableEq H] [SequenceHashing H] in
theorem sum_owedAt (s : System H) :
    ∑ k ∈ Finset.range s.holders.length, s.owedAt k = (s.holders.map Holder.owed).sum := by
  obtain ⟨pool, gate, holders⟩ := s
  induction holders with
  | nil => rfl
  | cons holder holders ih =>
    rw [List.length_cons, Finset.sum_range_succ', List.map_cons, List.sum_cons, ← ih, add_comm]
    rfl

/-- No draw that was promised is refused, and the counter is what admitted
requests are still owed, none less than nothing. -/
def System.EntitlementSafe (s : System H) (credits : Credits) : Prop :=
  (∀ k request op needed, s.holders[k]? = some (.request request) → s.promised credits (.call k op) = true →
    request.withDraw s.pool op ≠ .error (.schedule (.allocationFailed needed))) ∧
    s.pool.entitled = (s.holders.map Holder.owed).sum ∧ ∀ holder ∈ s.holders, 0 ≤ holder.owed

theorem Floor.serves (ok : s.Ok) (floor : Floor s credits) (atK : s.holders[k]? = some (.request request))
    (admitted : request.admitted = true) (uncredited : credits k = 0) (op : KvOp) (needed : Nat) :
    RequestKv.runOp request.seq s.pool.store op ≠ .error (.schedule (.allocationFailed needed)) := by
  obtain ⟨capacity, lifetime, budget⟩ := floor.counted.budget request (List.mem_of_getElem? atK)
  have enough := floor.enough atK admitted uncredited
  exact runOp_not_allocationFailed budget (ok.request_at atK).1 (lifetime ▸ enough) needed

theorem withDraw_not_allocationFailed {op : KvOp} {needed : Nat}
    (refuses : RequestKv.runOp request.seq s.pool.store op ≠ .error (.schedule (.allocationFailed needed))) :
    request.withDraw s.pool op ≠ .error (.schedule (.allocationFailed needed)) := by
  intro failed
  unfold RequestKv.withDraw at failed
  split at failed
  · rename_i fault run
    rw [run] at refuses
    exact refuses (by simpa using failed)
  · simp at failed

theorem Floor.draws (ok : s.Ok) (floor : Floor s credits) {op : KvOp} {needed : Nat}
    (atK : s.holders[k]? = some (.request request)) (promised : s.promised credits (.call k op) = true) :
    request.withDraw s.pool op ≠ .error (.schedule (.allocationFailed needed)) := by
  obtain ⟨admitted, -, credit⟩ := System.promised_call promised atK
  apply withDraw_not_allocationFailed
  rcases credit with uncredited | ⟨rfl, idle, empty, -⟩
  · exact floor.serves ok atK admitted uncredited op needed
  · intro failed
    cases matchAndAddPrefix_panics idle empty failed

/-- In a run where registering, probing and committing take no block below
the floor, every admitted draw succeeds. -/
theorem EntitledReach.entitlement_safe {blockSize numBlocks : Nat} (pos : 0 < blockSize)
    (reach : EntitledReach SparingCalls blockSize numBlocks s credits) : s.EntitlementSafe credits := by
  obtain ⟨ok, floor⟩ := reach.floor pos
  refine ⟨?_, floor.counted.settled.trans (sum_owedAt s), ?_⟩
  · intro k request op needed atK promised
    exact floor.draws ok atK promised
  · intro holder member
    exact floor.counted.owed_nonneg member

def System.requestAt (s : System H) (k : Nat) : Option (RequestKv H) :=
  match s.holders[k]? with
  | some (.request request) => some request
  | _ => none

omit [DecidableEq H] [SequenceHashing H] in
theorem System.requestAt_eq (found : s.requestAt k = some request) :
    s.holders[k]? = some (.request request) := by
  unfold System.requestAt at found
  split at found
  · cases found
    assumption
  · simp at found

def faultOf {A : Type} : Except Fault A → Option Fault
  | .error fault => some fault
  | .ok _ => none

theorem faultOf_eq {A : Type} {result : Except Fault A} {fault : Fault}
    (failed : faultOf result = some fault) :
    result = .error fault := by
  cases result with
  | error other =>
    cases failed
    rfl
  | ok value => simp [faultOf] at failed

/-- An entitled run on its own, `none` where a move is not permitted. -/
def System.entitledRun (permitted : System H → Credits → Action → Bool) (s : System H) (credits : Credits) :
    List Action → Option (System H × Credits)
  | [] => some (s, credits)
  | a :: actions =>
    if permitted s credits a then
      (s.step a).bind fun s' => s'.entitledRun permitted (s.creditsAfter credits s' a) actions
    else none

theorem EntitledReach.run {permitted : System H → Credits → Action → Bool} {blockSize numBlocks : Nat}
    {actions : List Action} {final : System H × Credits}
    (reach : EntitledReach permitted blockSize numBlocks s credits)
    (ran : s.entitledRun permitted credits actions = some final) :
    EntitledReach permitted blockSize numBlocks final.1 final.2 := by
  induction actions generalizing s credits with
  | nil =>
    cases ran
    exact reach
  | cons a actions ih =>
    simp only [System.entitledRun] at ran
    split at ran
    · rename_i allowed
      obtain ⟨s', went, ran⟩ := Option.bind_eq_some_iff.mp ran
      exact ih (reach.next allowed went) ran
    · simp at ran

theorem entitled_run_reaches {permitted : System H → Credits → Action → Bool} {blockSize numBlocks : Nat}
    {actions : List Action} {final : System H × Credits}
    (ran : ((System.new blockSize numBlocks : Option (System H)).bind fun s =>
      s.entitledRun permitted (fun _ => 0) actions) = some final) :
    EntitledReach permitted blockSize numBlocks final.1 final.2 := by
  obtain ⟨s, made, ran⟩ := Option.bind_eq_some_iff.mp ran
  exact (EntitledReach.start made).run ran

end Runs

/-- A prompt computed, dropped, pinned again by a probe and credited to the
next request. -/
def creditedPrefix : Option (System ChainKey × Credits) :=
  (System.new 2 5).bind fun s => s.entitledRun SparingCalls (fun _ => 0)
    [.newRequest [1, 2, 3] 1 none, .admitRead 1 0, .admitDecide, .call 1 .matchAndAddPrefix,
      .call 1 (.schedulePrefill 3),
      .call 1 (.applyPrefill 9), .retire 1, .drop 1, .probe [1, 2, 3] none, .newRequest [1, 2, 3] 3 none,
      .admitRead 3 1, .admitDecide, .call 3 .matchAndAddPrefix, .drop 2]

theorem EntitledReach.entitlement_safe_credited_prefix :
    ∃ s credits, EntitledReach SparingCalls 2 5 s credits ∧ s.pool.entitled = 2 ∧
      (∃ request : RequestKv ChainKey, s.holders[3]? = some (.request request) ∧ request.admitted = true ∧
        request.seq.heldBlocks = 1) ∧ s.EntitlementSafe credits := by
  have shape : creditedPrefix.bind (fun final => (final.1.requestAt 3).map fun request =>
      (final.1.pool.entitled, request.admitted, request.seq.heldBlocks)) =
        some (2, true, 1) := by decide +kernel
  obtain ⟨final, ran, shape⟩ := Option.bind_eq_some_iff.mp shape
  obtain ⟨request, atK, shape⟩ := Option.map_eq_some_iff.mp shape
  simp only [Prod.mk.injEq] at shape
  obtain ⟨counter, admitted, held⟩ := shape
  have reach := entitled_run_reaches ran
  exact ⟨final.1, final.2, reach, counter, ⟨request, System.requestAt_eq atK, admitted, held⟩,
    EntitledReach.entitlement_safe (by decide) reach⟩

/-- The second request registers a page whose first copy sits in the inactive
pool, and the copy leaves the pool with it. -/
def revivedCopy : Option (System ChainKey × Credits) :=
  (System.new 2 4).bind fun s => s.entitledRun System.promised (fun _ => 0)
    [.newRequest [1, 2, 3, 4] 2 none, .admitRead 1 0, .admitDecide, .call 1 .matchAndAddPrefix,
      .call 1 (.schedulePrefill 4),
      .call 1 (.applyPrefill 9), .retire 1, .drop 1, .newRequest [1, 2, 3, 4] 2 none,
        .admitRead 2 0, .admitDecide,
      .call 2 .matchAndAddPrefix, .call 2 (.schedulePrefill 2), .call 2 (.applyPrefill 9)]

theorem EntitledReach.revived_copy_starves_draw :
    ¬ ∀ (s : System ChainKey) (credits : Credits), EntitledReach System.promised 2 4 s credits →
      s.EntitlementSafe credits := by
  intro safe
  have shape : revivedCopy.bind (fun final => (final.1.requestAt 2).bind fun request =>
      (faultOf (request.withDraw final.1.pool .scheduleDecode)).map fun fault =>
        (final.1.promised final.2 (.call 2 .scheduleDecode), fault)) =
      some (true, .schedule (.allocationFailed 1)) := by decide +kernel
  obtain ⟨final, ran, shape⟩ := Option.bind_eq_some_iff.mp shape
  obtain ⟨request, atK, shape⟩ := Option.bind_eq_some_iff.mp shape
  obtain ⟨fault, failed, shape⟩ := Option.map_eq_some_iff.mp shape
  simp only [Prod.mk.injEq] at shape
  obtain ⟨promised, rfl⟩ := shape
  exact (safe final.1 final.2 (entitled_run_reaches ran)).1 2 request .scheduleDecode 1
    (System.requestAt_eq atK) promised
    (faultOf_eq failed)

end PegaInfer.KvStore
