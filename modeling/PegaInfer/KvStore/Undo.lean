import PegaInfer.KvStore.Budget
import PegaInfer.Kvbm.Rows

namespace PegaInfer.KvStore

open PegaInfer.Kvbm

/-- The three ways to reserve KV for a step. -/
inductive ScheduleCall
  | prefill (numTokens : Nat)
  | decode
  | speculative (numDraftTokens : Nat)
  deriving DecidableEq

variable {H : Type}

/-- `allocate_blocks` on the sequence in place, with whether it got the blocks. -/
def allocateInPlace (seq : SchedulableSequence H) (count : Nat) (store : BlockStore H) :
    Bool × SchedulableSequence H × BlockStore H :=
  if count = 0 then (true, seq, store)
  else
    match store.allocateAtomic count with
    | none => (false, seq, store)
    | some (store', ids) => (true, { seq with unassigned := seq.unassigned ++ ids }, store')

/-- The tail of every `schedule_*`: draw `toAllocate` blocks, then take the new state. -/
def reserveInPlace (seq : SchedulableSequence H) (toAllocate : Nat) (state : SequenceState)
    (store : BlockStore H) :
    Except ScheduleError Unit × SchedulableSequence H × BlockStore H :=
  match allocateInPlace seq toAllocate store with
  | (false, seq', store') => (.error (.allocationFailed toAllocate), seq', store')
  | (true, seq', store') => (.ok (), { seq' with state }, store')

/-- `schedule_prefill`, `schedule_decode` and `schedule_speculative` on the sequence in place:
what they return, and the sequence and the store they leave. -/
def scheduleInPlace (seq : SchedulableSequence H) (store : BlockStore H) :
    ScheduleCall → Except ScheduleError Unit × SchedulableSequence H × BlockStore H
  | .prefill numTokens =>
    if seq.state ≠ .idle then (.error (.notIdle seq.state), seq, store)
    else if seq.isPrefillComplete then (.error .prefillComplete, seq, store)
    else
      let newPosition := seq.prefillPosition + numTokens
      if newPosition > seq.numInputTokens then
        (.error (.prefillOverrun seq.prefillPosition numTokens seq.numInputTokens), seq, store)
      else
        let toAllocate := newPosition ⌈/⌉ seq.blockSize - seq.heldBlocks
        reserveInPlace seq toAllocate (.prefillScheduled numTokens toAllocate) store
  | .decode =>
    match seq.generationFault with
    | some error => (.error error, seq, store)
    | none =>
      let pending := seq.numBlocks - (seq.assigned.length + seq.staged.length)
      let toAllocate := pending + 1 - seq.unassigned.length
      reserveInPlace seq toAllocate (.decodeScheduled toAllocate) store
  | .speculative numDraftTokens =>
    match seq.generationFault with
    | some error => (.error error, seq, store)
    | none =>
      let numTokens := min numDraftTokens seq.remainingTokens
      let toAllocate := (seq.totalTokens + numTokens) ⌈/⌉ seq.blockSize - seq.heldBlocks
      reserveInPlace seq toAllocate (.speculativeScheduled numTokens toAllocate) store

/-- `revert_schedule` on the sequence in place. -/
def revertInPlace (seq : SchedulableSequence H) (store : BlockStore H) :
    Except ApplyError Unit × SchedulableSequence H × BlockStore H :=
  let revert (blocks : Nat) :=
    let (popped, store') := seq.lifoPopUnassigned blocks store
    (Except.ok (), { popped with state := SequenceState.idle }, store')
  match seq.state with
  | .prefillScheduled _ blocks => revert blocks
  | .decodeScheduled blocks => revert blocks
  | .speculativeScheduled _ blocks => revert blocks
  | .idle => (.error (.wrongState "any Scheduled state" .idle), seq, store)

namespace RequestKv

/-- `with_draw`: the counter settles whatever the closure did, also when it failed. -/
def drawInPlace {α : Type} (request : RequestKv H) (pool : BlockPool H)
    (f : SchedulableSequence H → BlockStore H → α × SchedulableSequence H × BlockStore H) :
    α × RequestKv H × BlockPool H :=
  let (out, seq, store) := f request.seq pool.store
  let (request', pool') := request.settle pool seq store
  (out, request', pool')

def schedule (request : RequestKv H) (pool : BlockPool H) (call : ScheduleCall) :
    Except ScheduleError Unit × RequestKv H × BlockPool H :=
  request.drawInPlace pool fun seq store => scheduleInPlace seq store call

def revert (request : RequestKv H) (pool : BlockPool H) :
    Except ApplyError Unit × RequestKv H × BlockPool H :=
  request.drawInPlace pool revertInPlace

/-- The operation of the pool's model that a call is. -/
def opOf : ScheduleCall → KvOp
  | .prefill numTokens => .schedulePrefill numTokens
  | .decode => .scheduleDecode
  | .speculative numDraftTokens => .scheduleSpeculative numDraftTokens

end RequestKv

variable {seq seq' : SchedulableSequence H} {store store' : BlockStore H}

/-- A reservation fails with nothing done, or has the blocks it asked for at the end of the row. -/
theorem reserveInPlace_cases (seq : SchedulableSequence H) (toAllocate : Nat)
    (state : SequenceState) (store : BlockStore H) :
    (∃ error, reserveInPlace seq toAllocate state store = (.error error, seq, store)) ∨
      ∃ ids store', ids.length = toAllocate ∧ store'.availableBlocks + toAllocate = store.availableBlocks ∧
        reserveInPlace seq toAllocate state store =
          (.ok (), { seq with unassigned := seq.unassigned ++ ids, state }, store') := by
  unfold reserveInPlace allocateInPlace
  by_cases none : toAllocate = 0
  · rw [if_pos none]
    exact Or.inr ⟨[], store, none.symm, by rw [none, Nat.add_zero], by simp⟩
  · rw [if_neg none]
    cases alloc : store.allocateAtomic toAllocate with
    | none => exact Or.inl ⟨_, rfl⟩
    | some drawn =>
      obtain ⟨store', ids⟩ := drawn
      exact Or.inr ⟨ids, store', BlockStore.allocateAtomic_length alloc,
        BlockStore.available_allocate alloc, rfl⟩

/-- What a schedule call does: nothing, or a reservation from the idle state. -/
theorem scheduleInPlace_cases (call : ScheduleCall) (seq : SchedulableSequence H) (store : BlockStore H) :
    (∃ error, scheduleInPlace seq store call = (.error error, seq, store)) ∨
      ∃ ids store' state, seq.state = .idle ∧ state.allocated = ids.length ∧ state ≠ .idle ∧
        store'.availableBlocks + ids.length = store.availableBlocks ∧
        scheduleInPlace seq store call =
          (.ok (), { seq with unassigned := seq.unassigned ++ ids, state }, store') := by
  have reserved {count : Nat} {state : SequenceState} (idle : seq.state = .idle)
      (drawn : state.allocated = count) (busy : state ≠ .idle)
      (same : scheduleInPlace seq store call = reserveInPlace seq count state store) :
      (∃ error, scheduleInPlace seq store call = (.error error, seq, store)) ∨
        ∃ ids store' state, seq.state = .idle ∧ state.allocated = ids.length ∧ state ≠ .idle ∧
          store'.availableBlocks + ids.length = store.availableBlocks ∧
          scheduleInPlace seq store call =
            (.ok (), { seq with unassigned := seq.unassigned ++ ids, state }, store') := by
    rw [same]
    rcases reserveInPlace_cases seq count state store with failed | ⟨ids, store', length, available, done⟩
    · exact Or.inl failed
    · exact Or.inr ⟨ids, store', state, idle, by rw [drawn, length],
        busy, by rw [length]; exact available, done⟩
  have generation : (∃ error, seq.generationFault = some error) ∨ seq.generationFault = none := by
    cases seq.generationFault with
    | none => exact Or.inr rfl
    | some error => exact Or.inl ⟨error, rfl⟩
  cases call with
  | prefill numTokens =>
    by_cases idle : seq.state = .idle
    · by_cases complete : seq.isPrefillComplete
      · exact Or.inl ⟨.prefillComplete, by simp [scheduleInPlace, idle, complete]⟩
      · by_cases beyond : seq.prefillPosition + numTokens > seq.numInputTokens
        · exact Or.inl ⟨.prefillOverrun seq.prefillPosition numTokens
            seq.numInputTokens, by simp [scheduleInPlace, idle, complete, beyond]⟩
        · exact @reserved ((seq.prefillPosition + numTokens) ⌈/⌉ seq.blockSize - seq.heldBlocks)
            (.prefillScheduled numTokens _) idle rfl
            (by simp) (by simp [scheduleInPlace, idle, complete, beyond])
    · exact Or.inl ⟨.notIdle seq.state, by simp [scheduleInPlace, idle]⟩
  | decode =>
    rcases generation with ⟨error, fault⟩ | ready
    · exact Or.inl ⟨error, by simp [scheduleInPlace, fault]⟩
    · obtain ⟨idle, -⟩ := SchedulableSequence.generationFault_none ready
      exact @reserved _ (.decodeScheduled
        (seq.numBlocks - (seq.assigned.length + seq.staged.length) + 1 - seq.unassigned.length))
        idle rfl (by simp) (by rw [scheduleInPlace, ready]; rfl)
  | speculative numDraftTokens =>
    rcases generation with ⟨error, fault⟩ | ready
    · exact Or.inl ⟨error, by simp [scheduleInPlace, fault]⟩
    · obtain ⟨idle, -⟩ := SchedulableSequence.generationFault_none ready
      exact @reserved _ (.speculativeScheduled (min numDraftTokens seq.remainingTokens)
        ((seq.totalTokens + min numDraftTokens seq.remainingTokens) ⌈/⌉ seq.blockSize - seq.heldBlocks))
        idle rfl (by simp) (by rw [scheduleInPlace, ready]; rfl)

/-- A revert takes the last blocks off the row, as many as the pending step allocated. -/
theorem revertInPlace_scheduled (busy : seq.state ≠ .idle) (store : BlockStore H) :
    revertInPlace seq store =
      (.ok (), { seq with
        unassigned := seq.unassigned.take (seq.unassigned.length - seq.state.allocated)
        state := .idle },
        store.releaseAllMutable
          (seq.unassigned.drop (seq.unassigned.length - seq.state.allocated)).reverse) := by
  unfold revertInPlace
  cases state : seq.state with
  | idle => exact absurd state busy
  | prefillScheduled numTokens blocks => rfl
  | decodeScheduled blocks => rfl
  | speculativeScheduled numTokens blocks => rfl

/-- Taking blocks off the row gives back the sequence from before they were drawn. -/
theorem revertInPlace_drawn (idle : seq.state = .idle) {ids : List BlockId} {state : SequenceState}
    (allocated : state.allocated = ids.length) (busy : state ≠ .idle) (store : BlockStore H) :
    revertInPlace { seq with unassigned := seq.unassigned ++ ids, state } store =
      (.ok (), seq, store.releaseAllMutable ids.reverse) := by
  rw [revertInPlace_scheduled busy]
  have kept : (seq.unassigned ++ ids).length - state.allocated = seq.unassigned.length := by
    rw [allocated, List.length_append, Nat.add_sub_cancel]
  simp only [kept, List.take_left', List.drop_left']
  rw [← idle]

namespace RequestKv

variable {request : RequestKv H} {pool : BlockPool H}

theorem drawInPlace_of {α : Type}
    {f : SchedulableSequence H → BlockStore H → α × SchedulableSequence H × BlockStore H} {out : α}
    (ran : f request.seq pool.store = (out, seq', store')) :
    request.drawInPlace pool f = (out, request.settle pool seq' store') := by
  unfold drawInPlace
  rw [ran]

/-- What a call in place leaves, as the pool's model has it. -/
def settled (out : Except ScheduleError Unit × SchedulableSequence H × BlockStore H) :
    Except Fault (SchedulableSequence H × BlockStore H) :=
  match out with
  | (.ok (), seq, store) => .ok (seq, store)
  | (.error error, _, _) => .error (.schedule error)

theorem settled_reserve (seq : SchedulableSequence H) (count : Nat) (state : SequenceState)
    (store : BlockStore H) :
    settled (reserveInPlace seq count state store) =
      match seq.allocateBlocks count store with
      | none => .error (.schedule (.allocationFailed count))
      | some (seq', store') => .ok ({ seq' with state }, store') := by
  unfold reserveInPlace allocateInPlace SchedulableSequence.allocateBlocks
  by_cases none : count = 0
  · simp only [if_pos none, settled]
  · rw [if_neg none, if_neg none]
    cases store.allocateAtomic count <;> rfl

/-- The calls in place are the calls of the pool's model. -/
theorem runOp_eq_settled [DecidableEq H] [SequenceHashing H] (seq : SchedulableSequence H)
    (store : BlockStore H) (call : ScheduleCall) :
    runOp seq store (opOf call) = settled (scheduleInPlace seq store call) := by
  cases call with
  | prefill numTokens =>
    simp only [opOf, runOp, SchedulableSequence.schedulePrefill, scheduleInPlace]
    split
    · rfl
    · split
      · rfl
      · split
        · rfl
        · exact (settled_reserve ..).symm
  | decode =>
    simp only [opOf, runOp, SchedulableSequence.scheduleDecode, scheduleInPlace]
    cases seq.generationFault with
    | none => exact (settled_reserve ..).symm
    | some error => rfl
  | speculative numDraftTokens =>
    simp only [opOf, runOp, SchedulableSequence.scheduleSpeculative, scheduleInPlace]
    cases seq.generationFault with
    | none => exact (settled_reserve ..).symm
    | some error => rfl

/-- A failed schedule changes nothing, and a schedule that is reverted, whatever the pool went
through in between, leaves the request as it was and gives the counter and the pool back what it
took. -/
theorem schedule_revert (request : RequestKv H) (pool : BlockPool H)
    (idle : request.seq.state = .idle) (call : ScheduleCall) :
    (∃ error, request.schedule pool call = (.error error, request, pool)) ∨
      ∃ scheduled drawn, request.schedule pool call = (.ok (), scheduled, drawn) ∧
        ∀ between, ∃ after, scheduled.revert between = (.ok (), request, after) ∧
          (between = drawn → after.entitled = pool.entitled ∧ after.availableBlocks = pool.availableBlocks) ∧
          after.entitled - between.entitled = pool.entitled - drawn.entitled ∧
          after.availableBlocks + drawn.availableBlocks = between.availableBlocks + pool.availableBlocks := by
  rcases scheduleInPlace_cases call request.seq pool.store
    with ⟨error, failed⟩ | ⟨ids, store', state, -, allocated, busy, available, done⟩
  · refine Or.inl ⟨error, (drawInPlace_of failed).trans ?_⟩
    unfold settle
    split <;> simp
  · refine Or.inr ⟨_, _, drawInPlace_of done, fun between => ?_⟩
    have undone := revertInPlace_drawn idle allocated busy between.store
    have returned := available_releaseAllMutable ids.reverse between.store
    rw [List.length_reverse] at returned
    have longer : ({ request.seq with unassigned := request.seq.unassigned ++ ids, state } :
      SchedulableSequence H).heldBlocks =
        request.seq.heldBlocks + ids.length := by
      simp only [SchedulableSequence.heldBlocks, List.length_append, Nat.add_assoc]
    refine ⟨_, drawInPlace_of undone, fun same => ⟨?_, ?_⟩, ?_, ?_⟩
    · subst same
      dsimp only [settle]
      rw [longer]
      split <;> omega
    · subst same
      dsimp only [settle, BlockPool.availableBlocks] at returned ⊢
      omega
    · dsimp only [settle]
      rw [longer]
      split <;> omega
    · dsimp only [settle, BlockPool.availableBlocks]
      omega

/-- An admitted prompt of five tokens draws its two pages and gives them back. -/
theorem schedule_revert_prefill : ∃ (pool : BlockPool ChainKey) (request : RequestKv ChainKey)
    (scheduled : RequestKv ChainKey)
    (drawn after : BlockPool ChainKey), pool.entitled = 2 ∧ request.admitted = true ∧
      request.schedule pool (.prefill 5) = (.ok (), scheduled, drawn) ∧ drawn.entitled = 0 ∧
      scheduled.revert drawn = (.ok (), request, after) ∧ after.entitled = 2 ∧
        after.availableBlocks = pool.availableBlocks := by
  have shape : ∃ (pool : BlockPool ChainKey) (request : RequestKv ChainKey), pool.entitled = 2 ∧
    request.admitted = true ∧
      request.seq.state = .idle ∧ (request.schedule pool (.prefill 5)).1.toOption.isSome = true ∧
      (request.schedule pool (.prefill 5)).2.2.entitled = 0 :=
    ⟨{ blockSize := 4, store := .new 8, entitled := 2 },
      { seq := .new [1, 2, 3, 4, 5] 3 4 none, admitted := true, lifetimeBlocks := 2 }, rfl, rfl,
        rfl, by decide +kernel,
      by decide +kernel⟩
  obtain ⟨pool, request, owed, admitted, idle, fine, counter⟩ := shape
  rcases schedule_revert request pool idle (.prefill 5)
    with ⟨error, failed⟩ | ⟨scheduled, drawn, done, reverts⟩
  · rw [failed] at fine
    cases fine
  · obtain ⟨after, undone, back, -⟩ := reverts drawn
    rw [done] at counter
    exact ⟨pool, request, scheduled, drawn, after, owed, admitted, done, counter, undone,
      (back rfl).1.trans owed, (back rfl).2⟩

end RequestKv

end PegaInfer.KvStore
