import PegaInfer.DeepSeekV2Lite.Accounted

namespace PegaInfer.DeepSeekV2Lite

open Frontend

namespace World

namespace Accounted

variable {world : World} {s : MixedRequestScheduler} {left : Nat}

/-- One turn of the loop, through the state between admission and the round. -/
theorem iterate (accounted : world.Accounted s left) (arrivals : List GenerateRequest) :
    ∃ s' middle, middle = world.admitReadyRequests (World.receive s arrivals) ∧
      world.iterate s arrivals = some s' ∧
      (∃ left', world.Accounted middle left') ∧ world.Admitted (World.receive s arrivals) middle ∧
      (∃ left', world.Accounted s' left') ∧ s'.received = s.received ++ arrivals ∧
        s'.pending = middle.pending ∧
      (middle.active = [] → s' = middle) ∧
      (middle.active ≠ [] →
        world.Decoded middle.received middle.outside middle.active s'.outside s'.active) := by
  obtain ⟨received, same⟩ := accounted.receive arrivals
  obtain ⟨left', accounted', admitted⟩ := received.admit_
  rw [World.iterate]
  split
  · next empty =>
    exact ⟨_, _, rfl, rfl, ⟨left', accounted'⟩, admitted, ⟨left', accounted'⟩,
      admitted.received.trans same, rfl, fun _ => rfl,
      fun active => absurd empty active⟩
  · next active =>
    obtain ⟨s', decoded, accounted'', same'', waits, round⟩ := accounted'.decodeRound
    exact ⟨s', _, rfl, decoded, ⟨left', accounted'⟩, admitted, ⟨left', accounted''⟩,
      same''.trans (admitted.received.trans same), waits,
      fun empty => absurd empty active, fun _ => round⟩

theorem run (accounted : world.Accounted s left) (submitted : List (List GenerateRequest)) :
    ∃ s', world.run s submitted = some s' ∧ (∃ left', world.Accounted s' left') ∧
      s'.received = s.received ++ submitted.flatten := by
  induction submitted generalizing s left with
  | nil => exact ⟨s, rfl, ⟨left, accounted⟩, by simp⟩
  | cons arrivals rest ih =>
    obtain ⟨s₁, -, -, step, -, -, ⟨left₁, accounted₁⟩, same, -⟩ := accounted.iterate arrivals
    obtain ⟨s₂, later, accounted₂, same₂⟩ := ih accounted₁
    refine ⟨s₂, by rw [World.run, step]; exact later, accounted₂, ?_⟩
    rw [same₂, same, List.append_assoc, List.flatten_cons]

end Accounted

end World

def isToken : TokenEvent → Bool
  | .token _ _ => true
  | _ => false

/-- The tokens a client has received. -/
def TokenSink.told (sink : TokenSink) : Nat := sink.events.countP isToken

theorem TokenSink.told_append {sink sink' : TokenSink} {token : Token}
    (events : sink'.events = sink.events ++ tokenEvents [token]) :
    sink'.told = sink.told + 1 := by
  rw [TokenSink.told, events, List.countP_append]
  rfl

/-- What a request may still be told. -/
def MixedRequestScheduler.owed (s : MixedRequestScheduler) (n : Nat) : Nat :=
  (s.received[n]?.elim 0 GenerateRequest.maxTokens) - (s.outside.sinks n).told

/-- What is left to do for the requests that are not closed. -/
def MixedRequestScheduler.work (s : MixedRequestScheduler) : Nat :=
  ((s.active.map ActiveRequestState.tokenTx).map s.owed).sum +
    ((s.pending.map PendingRequest.tokenTx).map s.owed).sum + s.pending.length

/-- Fewer numbers, each less than it was. -/
theorem sum_add_length_le {ids ids' : List Nat} {f f' : Nat → Nat} (sub : ids'.Sublist ids)
    (positive : ∀ n ∈ ids, 0 < f n)
    (less : ∀ n ∈ ids', f' n < f n) : (ids'.map f').sum + ids.length ≤ (ids.map f).sum := by
  induction sub with
  | slnil => exact le_rfl
  | cons n sub ih =>
    have here := positive n List.mem_cons_self
    have rest := ih (fun m member => positive m (List.mem_cons_of_mem _ member)) less
    rw [List.map_cons, List.sum_cons, List.length_cons]
    omega
  | cons_cons n sub ih =>
    have here := less n List.mem_cons_self
    have rest := ih (fun m member => positive m (List.mem_cons_of_mem _ member)) fun m member =>
      less m (List.mem_cons_of_mem _ member)
    rw [List.map_cons, List.map_cons, List.sum_cons, List.sum_cons, List.length_cons]
    omega

namespace World

variable {world : World} {s s' : MixedRequestScheduler} {left : Nat}

/-- A served row has tokens to come. -/
theorem Served.owed {row : ActiveRequestState} (served : world.Served s.received s.outside row) :
    ∃ req, s.received[row.tokenTx]? = some req ∧ (s.outside.sinks row.tokenTx).told < req.maxTokens := by
  obtain ⟨req, found, tokens, emitted, -⟩ := served
  obtain ⟨queuedAt, scheduledAt, events⟩ := emitted.events
  refine ⟨req, found, ?_⟩
  have opened : (opening req queuedAt scheduledAt).countP isToken = 0 := by
    unfold opening
    split <;> rfl
  have counted : (tokenEvents tokens).countP isToken = tokens.length := by
    rw [tokenEvents, List.countP_map]
    exact List.countP_eq_length.mpr fun _ _ => rfl
  rw [TokenSink.told, events, List.countP_append, opened, counted]
  have left := emitted.left
  omega

theorem Accounted.pendingFresh (accounted : world.Accounted s left) {n : Nat}
    (waits : n ∈ s.pending.map PendingRequest.tokenTx) :
    left ≤ n ∧ s.outside.sinks n = ⟨[], false⟩ := by
  rw [accounted.waiting, pendingOf_tokenTx] at waits
  have late := (List.mem_range'_1.mp waits).1
  exact ⟨late, accounted.fresh n late⟩

/-- Admission adds nothing to what is left to do. -/
theorem Admitted.work_le (admitted : world.Admitted s s') (accounted : world.Accounted s left) :
    s'.work + s.pending.length ≤ s.work + s'.pending.length := by
  obtain ⟨rows, active, sub⟩ := admitted.rows
  have kept : (s.active.map ActiveRequestState.tokenTx).map s'.owed =
      (s.active.map ActiveRequestState.tokenTx).map s.owed := by
    rw [List.map_map, List.map_map]
    refine List.map_congr_left fun row member => ?_
    rw [Function.comp_apply, Function.comp_apply, MixedRequestScheduler.owed,
      MixedRequestScheduler.owed, admitted.received,
      admitted.frame row member]
  have fewer : ((rows.map ActiveRequestState.tokenTx ++ s'.pending.map PendingRequest.tokenTx).map
    s'.owed).sum ≤
      ((s.pending.map PendingRequest.tokenTx).map s.owed).sum := by
    refine (List.sum_le_sum fun n member => ?_).trans ((sub.map s.owed).sum_le_sum fun _ _ => Nat.zero_le _)
    rw [MixedRequestScheduler.owed, MixedRequestScheduler.owed, admitted.received,
      (accounted.pendingFresh (sub.subset member)).2]
    exact Nat.sub_le _ _
  rw [List.map_append, List.sum_append] at fewer
  rw [MixedRequestScheduler.work, MixedRequestScheduler.work, active, List.map_append,
    List.map_append, List.sum_append, kept]
  omega

/-- A round with rows leaves less to do. -/
theorem Decoded.work_lt (accounted : world.Accounted s left) (rows : s.active ≠ [])
    (received : s'.received = s.received)
    (waits : s'.pending = s.pending)
    (round : world.Decoded s.received s.outside s.active s'.outside s'.active) : s'.work < s.work := by
  have active : ((s'.active.map ActiveRequestState.tokenTx).map s'.owed).sum +
    (s.active.map ActiveRequestState.tokenTx).length ≤
      ((s.active.map ActiveRequestState.tokenTx).map s.owed).sum := by
    refine sum_add_length_le round.order (fun n member => ?_) fun n member => ?_
    · obtain ⟨row, known, rfl⟩ := List.mem_map.mp member
      obtain ⟨req, found, more⟩ := (accounted.served row known).owed
      rw [MixedRequestScheduler.owed, found, Option.elim_some]
      omega
    · obtain ⟨row, known, rfl⟩ := List.mem_map.mp member
      obtain ⟨old, there, same⟩ := List.mem_map.mp (round.order.subset member)
      obtain ⟨req, found, more⟩ := (accounted.served old there).owed
      obtain ⟨token, events⟩ := round.told row known
      have one := TokenSink.told_append events
      rw [same] at found more
      rw [MixedRequestScheduler.owed, MixedRequestScheduler.owed, received, found, Option.elim_some]
      omega
  have pending : (s.pending.map PendingRequest.tokenTx).map s'.owed =
      (s.pending.map PendingRequest.tokenTx).map s.owed := by
    refine List.map_congr_left fun n member => ?_
    have late := (accounted.pendingFresh member).1
    rw [MixedRequestScheduler.owed, MixedRequestScheduler.owed, received, round.frame n fun there => ?_]
    obtain ⟨row, known, rfl⟩ := List.mem_map.mp there
    exact absurd (accounted.early row known) (not_lt.mpr late)
  have some_ := List.length_pos_iff.mpr rows
  rw [List.length_map] at active
  rw [MixedRequestScheduler.work, MixedRequestScheduler.work, waits, pending]
  omega

/-- A turn without arrivals leaves less to do, unless nothing is left. -/
theorem Accounted.idle (accounted : world.Accounted s left) (some_ : 0 < world.maxActiveRequests) :
    ∃ s', world.iterate s [] = some s' ∧ (∃ left', world.Accounted s' left') ∧ s'.received = s.received ∧
      (s'.pending = [] ∧ s'.active = [] ∨ s'.work < s.work) := by
  obtain ⟨s', middle, -, step, ⟨left', between⟩, admitted, after, received, waits, still, round⟩ :=
    accounted.iterate []
  have start : World.receive s [] = s := rfl
  rw [start] at admitted
  rw [List.append_nil] at received
  refine ⟨s', step, after, received, ?_⟩
  have less := admitted.work_le accounted
  obtain ⟨tried, -, fewer, full⟩ := admitted.taken
  by_cases empty : middle.active = []
  · obtain rfl := still empty
    rcases full with done | full
    · exact .inl ⟨done, empty⟩
    · obtain ⟨rows, active, -⟩ := admitted.rows
      rw [empty] at active
      rw [(List.append_eq_nil_iff.mp active.symm).1, List.length_nil] at full
      right
      omega
  · have rest := Decoded.work_lt between empty (received.trans admitted.received.symm) waits (round empty)
    right
    omega

/-- Once nothing more comes in, every request is closed. -/
theorem Accounted.drained (accounted : world.Accounted s left) (some_ : 0 < world.maxActiveRequests) :
    ∃ turns s', world.run s (List.replicate turns []) = some s' ∧ s'.received = s.received ∧
      ∀ n < s.received.length, world.Closed s'.received s'.outside n := by
  induction size : s.work using Nat.strong_induction_on generalizing s left with
  | _ size_ ih =>
    obtain ⟨s₁, step, ⟨left₁, accounted₁⟩, received, done | less⟩ := accounted.idle some_
    · refine ⟨1, s₁, by rw [List.replicate_one, World.run, step]; rfl, received, fun n known => ?_⟩
      have all : s₁.received.length ≤ left₁ := by
        have none_ := congrArg List.length
          (congrArg (List.map PendingRequest.tokenTx) (accounted₁.waiting.symm.trans done.1))
        rw [pendingOf_tokenTx, List.length_range', List.map_nil, List.length_nil] at none_
        omega
      refine accounted₁.closed n ?_ (by rw [done.2]; exact List.not_mem_nil)
      rw [received] at all
      omega
    · obtain ⟨turns, s₂, later, same, closed⟩ := ih s₁.work (size ▸ less) accounted₁ rfl
      refine ⟨turns + 1, s₂, by rw [List.replicate_succ, World.run, step]; exact later,
        same.trans received, ?_⟩
      rwa [received] at closed

end World

/-- Every run goes through. At each of its steps, before and after the round, every request
waits, is served or is closed. Admission takes the queue in order, all of it unless it fills the
rows. No row is retired for its cache's position. The round decodes each row once, at its
position with its cache, and tells the client of each survivor a token more, keeping their
order. Once nothing more comes in every request is closed, and one that has met no failure has
been told what it is told alone. -/
theorem MixedRequestScheduler.mixed_transparent (world : World) (submitted : List (List GenerateRequest)) :
    ∃ s, world.run .new submitted = some s ∧ s.received = submitted.flatten ∧
      (∃ left, world.Accounted s left) ∧
      (∀ arrivals, ∃ s' middle, middle = world.admitReadyRequests (World.receive s arrivals) ∧
        world.iterate s arrivals = some s' ∧
        (∃ left, world.Accounted middle left) ∧ world.Admitted (World.receive s arrivals) middle ∧
        world.retireBadCachePositions middle.outside middle.active = (middle.outside, middle.active) ∧
        (∃ left, world.Accounted s' left) ∧ (middle.active = [] → s' = middle) ∧
        (middle.active ≠ [] →
          world.Decoded middle.received middle.outside middle.active s'.outside s'.active)) ∧
      (0 < world.maxActiveRequests → ∃ turns s', world.run s (List.replicate turns []) = some s' ∧
        s'.received = s.received ∧
        ∀ n req, s.received[n]? = some req → world.Answered req s'.outside n ∧
          (world.MeetsNoFailure s'.outside n →
            ∃ queuedAt scheduledAt, s'.outside.sinks n =
              ⟨opening req queuedAt scheduledAt ++ world.reply req, false⟩)) := by
  obtain ⟨s, ran, ⟨left, accounted⟩, received⟩ := (World.Accounted.new world).run submitted
  refine ⟨s, ran, received, ⟨left, accounted⟩, fun arrivals => ?_, fun some_ => ?_⟩
  · obtain ⟨s', middle, shape, step, ⟨left', between⟩, admitted, after, -, -, idle, round⟩ :=
      accounted.iterate arrivals
    exact ⟨s', middle, shape, step, ⟨left', between⟩, admitted,
      World.Accounted.retireBadCachePositions_eq _ _ between.served, after, idle, round⟩
  · obtain ⟨turns, s', later, same, closed⟩ := accounted.drained some_
    refine ⟨turns, s', later, same, fun n req known => ?_⟩
    obtain ⟨found, there, answered⟩ := closed n (List.getElem?_eq_some_iff.mp known).1
    rw [same, known] at there
    obtain rfl := Option.some.inj there
    refine ⟨answered, fun clean => ?_⟩
    obtain ⟨kept, noError⟩ := answered.unharmed clean
    obtain ⟨queuedAt, scheduledAt, events⟩ := answered.alone kept noError
    exact ⟨queuedAt, scheduledAt, by rw [← events, ← kept]⟩

/-- Two rows, and a sixth call that fails. -/
def twoRows : World where
  next := fun absorbed => absorbed.length.toUInt32
  skewed := fun _ _ => 0
  eosTokenId := 4
  supportedContext := 10
  maxActiveRequests := 2
  fails := fun call => if call = 5 then some "device lost" else none
  batch := fun _ rows => .ok rows
  batch_whole := fun _ _ _ result _ => (Except.ok.inj result).symm
  listens := fun _ => true
  unixNow := fun _ => 0

def greedy (promptTokens : List Token) (maxTokens : Nat) : GenerateRequest where
  queuedAtUnixS := none
  promptTokens := promptTokens
  params := { temperature := .finite 0, topK := -1, topP := .finite 1, ignoreEos := false }
  maxTokens := maxTokens
  loraAdapter := none
  logprobs := 0
  echo := false

/-- The first request ends by its own choice and the second at its length, batched for a round.
The third waits for a row, and its second call fails. -/
theorem MixedRequestScheduler.mixed_transparent_two_rows :
    ((twoRows.run .new [[greedy [7] 5, greedy [8] 2, greedy [9] 3], [], []]).map fun s =>
      (List.range 3).map s.outside.sinks) =
        some [⟨opening (greedy [7] 5) 0 0 ++ closing (greedy [7] 5) ([1, 2, 3], .stop), false⟩,
          ⟨opening (greedy [8] 2) 0 0 ++ closing (greedy [8] 2) ([1, 2], .length), false⟩,
          ⟨opening (greedy [9] 3) 0 0 ++ [.token 1 none, .error "device lost" 1 1], false⟩] ∧
      ∃ s, twoRows.run .new [[greedy [7] 5, greedy [8] 2, greedy [9] 3]] = some s ∧
        ∃ turns s', twoRows.run s (List.replicate turns []) = some s' ∧
          ∀ n req, s.received[n]? = some req → twoRows.Answered req s'.outside n := by
  obtain ⟨s, ran, -, -, -, drained⟩ :=
    MixedRequestScheduler.mixed_transparent twoRows [[greedy [7] 5, greedy [8] 2, greedy [9] 3]]
  have rows : 0 < twoRows.maxActiveRequests := by decide
  obtain ⟨turns, s', later, -, answered⟩ := drained rows
  refine ⟨?_, s, ran, turns, s', later, fun n req known => (answered n req known).1⟩
  decide +kernel

end PegaInfer.DeepSeekV2Lite
