import PegaInfer.KimiK2.Settled

namespace PegaInfer.Kvbm.SchedulableSequence

variable {H : Type} [DecidableEq H] [SequenceHashing H] {store : BlockStore H} {seq : SchedulableSequence H}

omit [DecidableEq H] [SequenceHashing H] in
theorem schedulePrefill_calm {numTokens : Nat} : seq.schedulePrefill numTokens store ≠ .error .panicked := by
  unfold schedulePrefill
  split
  · simp
  · split
    · simp
    · dsimp only
      split
      · simp
      · split <;> simp

omit [DecidableEq H] [SequenceHashing H] in
theorem scheduleDecode_calm : seq.scheduleDecode store ≠ .error .panicked := by
  unfold scheduleDecode
  split
  · simp
  · dsimp only
    split <;> simp

/-- The final chunk's bookkeeping does not panic while the pool is sound and a token may be generated. -/
theorem applyPrefill_calm {held : Holding H} {token : Token} (settled : seq.staged = [])
    (ok : store.Ok (seq.holding + held))
    (budget : seq.generatedTokens < seq.maxOutputTokens) :
    seq.applyPrefill (some token) store ≠ .error .panicked := by
  obtain ⟨blocks, store', -, complete⟩ := completeAndRegisterPending_isSome settled ok
  have budget' : (seq.registered blocks).generatedTokens < (seq.registered blocks).maxOutputTokens := budget
  unfold applyPrefill
  split
  · dsimp only
    split
    · simp
    · split
      · simp
      · simp only [complete]
        rw [appendToken, if_pos budget']
        simp
  · simp

theorem applyDecode_calm {held : Holding H} {token : Token} (settled : seq.staged = [])
    (ok : store.Ok (seq.holding + held))
    (budget : seq.generatedTokens < seq.maxOutputTokens) :
    seq.applyDecode token store ≠ .error .panicked := by
  obtain ⟨crossed, append⟩ := appendToken_isSome token budget
  have settled' : (seq.appended [token]).staged = [] := settled
  have ok' : store.Ok ((seq.appended [token]).holding + held) := ok
  obtain ⟨blocks, store', -, complete⟩ := completeAndRegisterPending_isSome settled' ok'
  unfold applyDecode
  split
  · simp [append, complete]
  · simp

theorem matchAndAddPrefix_new (positional : KvStore.Positional H) {held : Holding H}
    (ok : store.Ok held) (prompt : List Token)
    (maxOutputTokens blockSize : Nat) (salt : Option SaltHash) :
    ∃ seq' store' count, (new prompt maxOutputTokens blockSize salt : SchedulableSequence
      H).matchAndAddPrefix store = .ok (seq', store', count) := by
  have distinct := KvStore.matchBlocks_nodup ok (positional blockSize salt prompt)
  obtain ⟨seq', store', matched⟩ :=
    @matchAndAddPrefix_ok H _ _ store (new prompt maxOutputTokens blockSize salt) rfl rfl
    (distinct.sublist ((List.take_sublist _ _).map _))
  exact ⟨seq', store', _, matched⟩

end PegaInfer.Kvbm.SchedulableSequence

namespace PegaInfer.KimiK2

open Frontend Kvbm Lib

variable {H : Type} [DecidableEq H] [SequenceHashing H]

/-- KV with the whole uncached prompt scheduled. -/
structure Primed (req : GenerateRequest) (kv : SchedulableSequence H) : Prop where
  wf : kv.Wf
  fresh : kv.generatedTokens = 0
  budget : kv.maxOutputTokens = req.maxTokens

/-- A row between two rounds: its KV counts what the row counts. -/
structure ActiveKimiRequest.Good (req : ActiveKimiRequest H) : Prop where
  wf : req.kv.Wf
  counted : req.kv.generatedTokens = req.completionTokens
  budget : req.kv.maxOutputTokens = req.maxTokens
  running : req.completionTokens < req.maxTokens

namespace World

variable {world : World} {blockSize : Nat} {w : Wave H} {req : GenerateRequest} {held : Holding H}

theorem scheduleRequestKv_spec (world : World) (req : GenerateRequest)
    (positional : KvStore.Positional H) (pos : 0 < blockSize) (nonempty : req.promptTokens ≠ [])
    (ok : w.store.Ok held) :
    ∃ w' out, world.scheduleRequestKv blockSize w req = some (w', out) ∧
      Settles world w [req.tokenTx] w' (out.toList.map fun _ => req.tokenTx) ∧
      w'.store.Ok ((out.toList.map fun scheduled => scheduled.1.holding).sum + held) ∧
      ∀ kv cachedTokens, out = some (kv, cachedTokens) →
        Primed req kv ∧ cachedTokens < req.promptTokens.length := by
  obtain ⟨kv, store, blocks, matched⟩ :=
    SchedulableSequence.matchAndAddPrefix_new positional ok req.promptTokens
      req.maxTokens blockSize world.salt
  have wf := SchedulableSequence.matchAndAddPrefix_wf (SchedulableSequence.wf_new _ _ pos _) matched
  have held' : store.Ok (kv.holding + held) :=
    SchedulableSequence.transfers_matchAndAddPrefix matched held
      (by simpa [SchedulableSequence.holding, SchedulableSequence.new] using ok)
  obtain ⟨-, -, found, -, -, shape, count⟩ := SchedulableSequence.matchAndAddPrefix_cases matched
  have few : blocks * blockSize < req.promptTokens.length := by
    have bound : blocks ≤ (req.promptTokens.length - 1) / blockSize := by
      rw [count]
      exact List.length_take_le _ _
    have scaled := (Nat.mul_le_mul_right blockSize bound).trans (Nat.div_mul_le_self _ _)
    have some_ := List.length_pos_iff.mpr nonempty
    omega
  unfold scheduleRequestKv
  simp only [matched]
  cases scheduled : kv.schedulePrefill (req.promptTokens.length - blocks * blockSize) store with
  | error fault =>
    have calm : fault ≠ .panicked := by
      rintro rfl
      exact SchedulableSequence.schedulePrefill_calm scheduled
    have dropped := SchedulableSequence.transfers_dropBlocks kv store held held'
    cases fault with
    | panicked => exact absurd rfl calm
    | _ =>
      refine ⟨_, none, rfl, ?_, ?_, fun _ _ nothing => by cases nothing⟩
      · exact ((send_terminal rfl).release kv).from_store
      · simpa [Wave.release] using dropped
  | ok drawn =>
    obtain ⟨kv', store'⟩ := drawn
    obtain ⟨-, -, -, allocated, -, draws⟩ := SchedulableSequence.schedulePrefill_cases scheduled
    refine ⟨_, some (kv', blocks * blockSize), rfl, (Settles.refl _ _).from_store, ?_, ?_⟩
    · have drawn := draws.transfers held held'
      simpa using drawn
    · intro _ _ same
      cases same
      refine ⟨⟨draws.wf wf, ?_, ?_⟩, few⟩
      · obtain ⟨_, alloc, rfl⟩ := draws
        obtain ⟨ids, -, rfl, -⟩ := SchedulableSequence.allocateBlocks_cases alloc
        rw [shape]
        rfl
      · obtain ⟨_, alloc, rfl⟩ := draws
        obtain ⟨ids, -, rfl, -⟩ := SchedulableSequence.allocateBlocks_cases alloc
        rw [shape]
        rfl

/-- Of the requests in `live` the rows of `active` are running, with budgets of at most `limit`,
and the others are settled. -/
structure Started (world : World) (limit : Nat) (w : Wave H) (live : List Nat)
    (held : Holding H) (w' : Wave H)
    (active : List (ActiveKimiRequest H)) : Prop where
  settles : Settles world w live w' (active.map ActiveKimiRequest.tokenTx)
  ok : w'.store.Ok ((active.map fun req => req.kv.holding).sum + held)
  good : ∀ req ∈ active, req.Good ∧ req.maxTokens ≤ limit

variable {limit : Nat}

theorem Started.none_ {w' : Wave H} {live : List Nat} (settles : Settles world w live w' [])
    (ok : w'.store.Ok held) :
    Started world limit w live held w' [] :=
  ⟨settles, by simpa using ok, fun _ member => absurd member List.not_mem_nil⟩

theorem Started.onto {w' : Wave H} {live : List Nat} {active more : List (ActiveKimiRequest H)}
    (started : Started world limit w live ((active.map fun req => req.kv.holding).sum + held) w' more)
    (good : ∀ req ∈ active, req.Good ∧ req.maxTokens ≤ limit) :
    Started world limit w (active.map ActiveKimiRequest.tokenTx ++ live) held w' (active ++ more) where
  settles := by
    rw [List.map_append]
    exact started.settles.frame_left _
  ok := by
    have ok := started.ok
    rw [add_left_comm, ← add_assoc] at ok
    rwa [List.map_append, List.sum_append]
  good := fun req member => (List.mem_append.mp member).elim (good req) (started.good req)

theorem Started.trans {w₁ w₂ : Wave H} {live more : List Nat} {active active' : List (ActiveKimiRequest H)}
    (first : Started world limit w live held w₁ active)
    (second : Started world limit w₁ (active.map ActiveKimiRequest.tokenTx ++ more) held w₂ active') :
    Started world limit w (live ++ more) held w₂ active' :=
  ⟨(first.settles.frame more).trans second.settles, second.ok, second.good⟩

theorem firstToken_spec (world : World) {kv : SchedulableSequence H} (primed : Primed req kv)
    (budget : 0 < req.maxTokens) (limited : req.maxTokens ≤ limit)
    (ok : w.store.Ok (kv.holding + held)) (slot decodeBatchSize : Nat) (bookkeeping : String)
    (report : ForwardReport) :
    ∃ w' out, world.firstToken w req slot decodeBatchSize kv bookkeeping report = some (w', out) ∧
      Started world limit w [req.tokenTx] held w' out.toList := by
  have room : kv.generatedTokens < kv.maxOutputTokens := by
    rw [primed.fresh, primed.budget]
    exact budget
  unfold firstToken
  dsimp only
  cases applied : kv.applyPrefill (some report.localNextTokenGlobalId) w.store with
  | error fault =>
    have calm : fault ≠ .panicked := by
      rintro rfl
      exact SchedulableSequence.applyPrefill_calm primed.wf.settled ok room applied
    have dropped := SchedulableSequence.transfers_dropBlocks kv w.store held ok
    rw [zero_add] at dropped
    cases fault with
    | panicked => exact absurd rfl calm
    | _ =>
      refine ⟨_, none, rfl, .none_ ((send_terminal rfl).release kv) ?_⟩
      simpa [Wave.release] using dropped
  | ok done =>
    obtain ⟨kv', store⟩ := done
    have wf := SchedulableSequence.applyPrefill_wf primed.wf applied
    have ok' : store.Ok (kv'.holding + held) :=
      SchedulableSequence.applyPrefill_transfers primed.wf.settled applied held ok
    have dropped := SchedulableSequence.transfers_dropBlocks kv' store held ok'
    rw [zero_add] at dropped
    dsimp only
    split
    · refine ⟨_, none, rfl, .none_ ?_ ?_⟩
      · exact ((send_terminal rfl).release kv').from_store
      · simpa [Wave.release] using dropped
    · cases told : world.send { w with store := store } req.tokenTx
        (.token report.localNextTokenGlobalId report.logprob) with
      | mk w₁ heard =>
        have first : w₁ = (world.send { w with store := store } req.tokenTx
          (.token report.localNextTokenGlobalId report.logprob)).1 := by rw [told]
        have store_ : w₁.store = store := by rw [first, send_store]
        cases heard with
        | false =>
          refine ⟨_, none, rfl, .none_ ?_ ?_⟩
          · rw [first]
            exact ((send_unheard rfl (by rw [told])).release kv').from_store
          · simpa [Wave.release, store_] using dropped
        | true =>
          have streamed : Settles world w [req.tokenTx] w₁ [req.tokenTx] := by
            rw [first]
            exact (send_other rfl _).from_store
          dsimp only
          split
          · refine ⟨_, none, rfl, .none_ ?_ ?_⟩
            · exact streamed.trans ((send_terminal rfl).release kv')
            · simpa [Wave.release, store_] using dropped
          · next more =>
            obtain ⟨_, _, blocks, -, -, -, -, shape⟩ :=
              SchedulableSequence.applyPrefill_cases primed.wf.settled applied
            refine ⟨_, _, rfl, streamed, ?_, ?_⟩
            · simpa [store_] using ok'
            · intro row member
              rw [List.mem_singleton.mp member]
              refine ⟨⟨wf, ?_, ?_, by dsimp only; omega⟩, limited⟩
              · rw [shape]
                simp [SchedulableSequence.appended, SchedulableSequence.registered, primed.fresh]
              · rw [shape]
                exact primed.budget

omit [DecidableEq H] [SequenceHashing H] in
theorem stepPageIndices_isSome (kv : SchedulableSequence H) {newTokens : Nat} (some_ : 0 < newTokens) :
    ∃ pages, stepPageIndices kv newTokens = some pages := by
  rw [stepPageIndices, if_neg (by omega)]
  exact ⟨_, rfl⟩

omit [DecidableEq H] [SequenceHashing H] in
theorem mapM_stepPageIndices {α : Type} (rows : List α) (kv : α → SchedulableSequence H) :
    ∃ pages, (rows.mapM fun row => stepPageIndices (kv row) 1) = some pages := by
  induction rows with
  | nil => exact ⟨[], rfl⟩
  | cons row rows ih =>
    obtain ⟨rest, gathered⟩ := ih
    obtain ⟨pages, step⟩ := stepPageIndices_isSome (kv row) Nat.one_pos
    exact ⟨pages :: rest, by rw [List.mapM_cons, step, gathered]; rfl⟩

/-- A request that passed the preflight, within `limit`. -/
structure Ready (limit : Nat) (req : GenerateRequest) : Prop where
  nonempty : req.promptTokens ≠ []
  budget : 0 < req.maxTokens
  limited : req.maxTokens ≤ limit

theorem prefillRequest_spec (world : World) (positional : KvStore.Positional H)
    (pos : 0 < blockSize) (ready : Ready limit req) (ok : w.store.Ok held)
    (slot decodeBatchSize : Nat) :
    ∃ w' out, world.prefillRequest blockSize w req slot decodeBatchSize = some (w', out) ∧
      Started world limit w [req.tokenTx] held w' out.toList := by
  obtain ⟨w₁, scheduled, done, settles, ok₁, primed⟩ :=
    scheduleRequestKv_spec world req positional pos ready.nonempty ok
  unfold prefillRequest
  simp only [done]
  cases scheduled with
  | none => exact ⟨w₁, none, rfl, .none_ settles (by simpa using ok₁)⟩
  | some scheduled =>
    obtain ⟨kv, cachedTokens⟩ := scheduled
    obtain ⟨primed, few⟩ := primed kv cachedTokens rfl
    obtain ⟨pages, step⟩ := stepPageIndices_isSome kv
      (show 0 < req.promptTokens.length - cachedTokens by omega)
    have ok₁ : w₁.store.Ok (kv.holding + held) := by simpa using ok₁
    simp only [step]
    split
    · have dropped := SchedulableSequence.transfers_dropBlocks kv w₁.store held ok₁
      refine ⟨_, none, rfl, .none_ ?_ (by simpa [Wave.release] using dropped)⟩
      exact settles.trans ((send_terminal rfl).release kv).from_call
    · next reports _ =>
      obtain ⟨w₂, out, first, started⟩ := firstToken_spec world (w := { w₁ with calls := w₁.calls + 1 })
        primed ready.budget ready.limited ok₁ slot decodeBatchSize
          "Kimi-K2 prefill KV bookkeeping failed" (reports 0)
      exact ⟨w₂, out, first, settles.trans started.settles.from_call, started.ok, started.good⟩

/-- The requests of a microbatch. -/
abbrev groupTx (group : List (Nat × GenerateRequest)) : List Nat := group.map fun row => row.2.tokenTx

theorem scheduleGroup_spec (world : World) (positional : KvStore.Positional H) (pos : 0 < blockSize)
    (group : List (Nat × GenerateRequest))
    (ready : ∀ row ∈ group, Ready limit row.2) (ok : w.store.Ok held) :
    ∃ w' groupKv, world.scheduleGroup blockSize w group = some (w', groupKv) ∧
      Settles world w (groupTx group) w' (groupKv.map fun row => row.2.1.tokenTx) ∧
      w'.store.Ok ((groupKv.map fun row => row.2.2.holding).sum + held) ∧
      ∀ row ∈ groupKv, Ready limit row.2.1 ∧ Primed row.2.1 row.2.2 := by
  induction group generalizing w held with
  | nil => exact ⟨w, [], rfl, .refl w [], by simpa using ok, fun _ member => absurd member List.not_mem_nil⟩
  | cons row group ih =>
    obtain ⟨slot, req⟩ := row
    have here := ready (slot, req) List.mem_cons_self
    obtain ⟨w₁, scheduled, done, settles, ok₁, primed⟩ :=
      scheduleRequestKv_spec world req positional pos here.nonempty ok
    obtain ⟨w₂, groupKv, rest, settles', ok₂, primed'⟩ :=
      ih (fun row member => ready row (List.mem_cons_of_mem _ member)) ok₁
    rw [scheduleGroup, done]
    simp only [rest]
    cases scheduled with
    | none => exact ⟨w₂, groupKv, rfl, settles.append settles', by simpa using ok₂, primed'⟩
    | some scheduled =>
      obtain ⟨kv, cachedTokens⟩ := scheduled
      refine ⟨w₂, (slot, req, kv) :: groupKv, rfl, settles.append settles', ?_, ?_⟩
      · rw [List.map_cons, List.sum_cons, add_assoc, add_left_comm]
        simpa using ok₂
      · intro row member
        rcases List.mem_cons.mp member with rfl | later
        · exact ⟨here, (primed kv cachedTokens rfl).1⟩
        · exact primed' row later

theorem groupTokens_spec (world : World) (decodeBatchSize : Nat) (reports : Nat → ForwardReport) (row : Nat)
    (groupKv : List (Nat × GenerateRequest × SchedulableSequence H)) (active : List (ActiveKimiRequest H))
    (primed : ∀ row ∈ groupKv, Ready limit row.2.1 ∧ Primed row.2.1 row.2.2)
    (good : ∀ req ∈ active, req.Good ∧ req.maxTokens ≤ limit)
    (ok : w.store.Ok ((groupKv.map fun row => row.2.2.holding).sum +
      ((active.map fun req => req.kv.holding).sum + held))) :
    ∃ w' active', world.groupTokens w decodeBatchSize reports row groupKv active = some (w', active') ∧
      Started world limit w (active.map ActiveKimiRequest.tokenTx ++ groupKv.map fun row =>
        row.2.1.tokenTx) held w' active' := by
  induction groupKv generalizing w row active with
  | nil =>
    refine ⟨w, active, rfl, ?_, by simpa using ok, good⟩
    rw [List.map_nil, List.append_nil]
    exact .refl w _
  | cons first groupKv ih =>
    obtain ⟨slot, req, kv⟩ := first
    obtain ⟨ready, primed'⟩ := primed (slot, req, kv) List.mem_cons_self
    rw [List.map_cons, List.sum_cons, add_assoc, add_left_comm ((List.map _ groupKv).sum)] at ok
    obtain ⟨w₁, out, told, started⟩ :=
      firstToken_spec world primed' ready.budget ready.limited ok slot decodeBatchSize
      "Kimi-K2 admission KV bookkeeping failed" (reports row)
    have onto := started.onto good
    obtain ⟨w₂, active', rest, started'⟩ := ih (row + 1) (active ++ out.toList)
      (fun row member => primed row (List.mem_cons_of_mem _ member)) onto.good
      (by rw [add_left_comm]; exact onto.ok)
    rw [groupTokens, told]
    refine ⟨w₂, active', rest, ?_, started'.ok, started'.good⟩
    have whole := (onto.settles.frame (groupKv.map fun row => row.2.1.tokenTx)).trans started'.settles
    rwa [List.append_assoc, List.singleton_append] at whole

omit [SequenceHashing H] in
theorem failGroup_spec (world : World) (groupKv : List (Nat × GenerateRequest × SchedulableSequence H))
    (ok : w.store.Ok ((groupKv.map fun row => row.2.2.holding).sum + held)) :
    Settles world w (groupKv.map fun row => row.2.1.tokenTx) (world.failGroup w groupKv) [] ∧
      (world.failGroup w groupKv).store.Ok held := by
  induction groupKv generalizing w with
  | nil => exact ⟨.refl w [], by simpa [failGroup] using ok⟩
  | cons row groupKv ih =>
    obtain ⟨slot, req, kv⟩ := row
    rw [List.map_cons, List.sum_cons, add_assoc] at ok
    have dropped := SchedulableSequence.transfers_dropBlocks kv w.store _ ok
    rw [zero_add] at dropped
    obtain ⟨settles, ok'⟩ := ih (w := (world.send w req.tokenTx
      (.error "Kimi-K2 decode admission forward failed" req.promptTokens.length 0)).1.release kv)
        (by simpa [Wave.release] using dropped)
    exact ⟨((send_terminal rfl).release kv).append settles, ok'⟩

theorem decodeAdmissionMicrobatch_spec (world : World) (positional : KvStore.Positional H)
    (pos : 0 < blockSize) (group : List (Nat × GenerateRequest))
    (decodeBatchSize : Nat) (active : List (ActiveKimiRequest H)) (ready : ∀ row ∈ group, Ready limit row.2)
    (good : ∀ req ∈ active, req.Good ∧ req.maxTokens ≤ limit)
    (ok : w.store.Ok ((active.map fun req => req.kv.holding).sum + held)) :
    ∃ w' active', world.decodeAdmissionMicrobatch blockSize w group decodeBatchSize active =
      some (w', active') ∧
      Started world limit w (active.map ActiveKimiRequest.tokenTx ++ groupTx group) held w' active' := by
  obtain ⟨w₁, groupKv, done, settles, ok₁, primed⟩ := scheduleGroup_spec world positional pos group ready ok
  have settles' := settles.frame_left (active.map ActiveKimiRequest.tokenTx)
  unfold decodeAdmissionMicrobatch
  simp only [done]
  cases shape : groupKv with
  | nil =>
    subst shape
    refine ⟨w₁, active, rfl, ?_, by simpa using ok₁, good⟩
    simpa using settles'
  | cons row rest =>
    obtain ⟨pages, gathered⟩ := mapM_stepPageIndices (row :: rest) fun row => row.2.2
    rw [shape] at settles' ok₁ primed
    simp only [gathered]
    split
    · obtain ⟨failed, ok₂⟩ := failGroup_spec world (w := { w₁ with calls := w₁.calls + 1 }) (row :: rest) ok₁
      refine ⟨_, active, rfl, ?_, ok₂, good⟩
      have whole := settles'.trans (failed.from_call.frame_left _)
      rwa [List.append_nil] at whole
    · next reports _ =>
      obtain ⟨w₂, active', told, started⟩ :=
        groupTokens_spec world (w := { w₁ with calls := w₁.calls + 1 }) decodeBatchSize
        reports 0 (row :: rest) active primed good ok₁
      exact ⟨w₂, active', told, settles'.trans started.settles.from_call, started.ok, started.good⟩

/-- Every admitted request is running or settled once the starting loop is over. -/
theorem startRequests_spec (world : World) (positional : KvStore.Positional H) (pos : 0 < blockSize)
    (decodeBatchSize slot : Nat) (reqs : List GenerateRequest)
    (group : List (Nat × GenerateRequest)) (active : List (ActiveKimiRequest H))
    (ready : ∀ req ∈ reqs, Ready limit req)
    (grouped : ∀ row ∈ group, Ready limit row.2) (good : ∀ req ∈ active, req.Good ∧ req.maxTokens ≤ limit)
    (ok : w.store.Ok ((active.map fun req => req.kv.holding).sum + held)) :
    ∃ w' active', world.startRequests blockSize decodeBatchSize w slot reqs group active =
      some (w', active') ∧
      Started world limit w (active.map ActiveKimiRequest.tokenTx ++
        (groupTx group ++ reqs.map GenerateRequest.tokenTx)) held w' active' := by
  induction reqs generalizing w slot group active with
  | nil =>
    rw [startRequests, List.map_nil, List.append_nil]
    split
    · next none_ =>
      refine ⟨w, active, rfl, ?_, ok, good⟩
      rw [none_, groupTx, List.map_nil, List.append_nil]
      exact .refl w _
    · exact decodeAdmissionMicrobatch_spec world positional pos group decodeBatchSize active grouped good ok
  | cons req reqs ih =>
    have here := ready req List.mem_cons_self
    have later : ∀ other ∈ reqs, Ready limit other :=
      fun other member => ready other (List.mem_cons_of_mem _ member)
    rw [startRequests]
    split
    · have grouped' : ∀ row ∈ group ++ [(slot, req)], Ready limit row.2 := by
        intro row member
        rcases List.mem_append.mp member with early | last
        · exact grouped row early
        · rw [List.mem_singleton.mp last]
          exact here
      have regroup : groupTx group ++ (req :: reqs).map GenerateRequest.tokenTx =
          groupTx (group ++ [(slot, req)]) ++ reqs.map GenerateRequest.tokenTx := by simp
      rw [regroup]
      dsimp only
      split
      · obtain ⟨w₁, active₁, flushed, started⟩ :=
          decodeAdmissionMicrobatch_spec world positional pos
            (group ++ [(slot, req)]) decodeBatchSize active grouped' good ok
        obtain ⟨w₂, active₂, rest, started'⟩ :=
          ih (slot + 1) [] active₁ later (fun _ member => absurd member List.not_mem_nil)
          started.good started.ok
        simp only [flushed, rest]
        refine ⟨w₂, active₂, rfl, ?_⟩
        rw [← List.append_assoc]
        exact started.trans started'
      · exact ih (slot + 1) (group ++ [(slot, req)]) active later grouped' good ok
    · have flush : ∃ w₁ active₁, (if group = [] then some (w, active)
          else world.decodeAdmissionMicrobatch blockSize w group decodeBatchSize active) =
            some (w₁, active₁) ∧
          Started world limit w (active.map ActiveKimiRequest.tokenTx ++ groupTx group) held w₁ active₁ := by
        split
        · next none_ =>
          refine ⟨w, active, rfl, ?_, ok, good⟩
          rw [none_, groupTx, List.map_nil, List.append_nil]
          exact .refl w _
        · exact decodeAdmissionMicrobatch_spec world positional pos group decodeBatchSize
            active grouped good ok
      obtain ⟨w₁, active₁, flushed, started⟩ := flush
      obtain ⟨w₂, out, prefilled, started'⟩ :=
        prefillRequest_spec world positional pos here started.ok slot decodeBatchSize
      have onto := started'.onto started.good
      obtain ⟨w₃, active₃, rest, started''⟩ := ih (slot + 1) [] (active₁ ++ out.toList) later
        (fun _ member => absurd member List.not_mem_nil) onto.good onto.ok
      rw [flushed]
      simp only [prefilled, rest]
      refine ⟨w₃, active₃, rfl, ?_⟩
      have whole := onto.trans started''
      rw [groupTx, List.map_nil, List.nil_append, List.append_assoc] at whole
      simpa [groupTx] using started.trans whole

end World

end PegaInfer.KimiK2
