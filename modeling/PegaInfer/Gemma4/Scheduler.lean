import PegaInfer.Gemma4.Decode

namespace PegaInfer.Gemma4

open Frontend (RequestId LedgerCall Instant)

namespace Sched

variable (config : EngineConfig) (world : World)

/-- `resolve_newcomer_kv`. -/
def resolveNewcomerKv (s : Sched) (prompt : List Token) : GemmaKv × Option Nat × Sched :=
  match s.cache with
  | none => (allocKv, none, s)
  | some cache =>
    match cache.resolve prompt with
    | (none, cache) => (allocKv, none, { s with cache := some cache })
    | (some (entry, t), cache) =>
      match restorePages config.window s.pools entry t config.bf16 with
      | (some kv, pools) => (kv, some entry.id, { s with cache := some cache, pools })
      | (none, pools) => (allocKv, none, { s with cache := some cache, pools })

inductive AdmissionNeed
  | tokens (count : Nat)
  | globalPages (pages : Nat)

inductive ReservationDecision
  | ready (kv : GemmaKv)
  | requeue
  | refused

/-- One attempt of `reserve_with_eviction`. -/
def tryReserve (s : Sched) (kv : GemmaKv) : AdmissionNeed → Option GemmaKv × Pools
  | .tokens count => admitTokens s.pools kv count
  | .globalPages pages =>
    if kv.global.pages.length + s.pools.global.availablePages < pages then (none, s.pools)
      else (some kv, s.pools)

/-- `reserve_with_eviction`. Each further attempt has one cached tail less. -/
def reserveWithEviction (kv : GemmaKv) (need : AdmissionNeed) (evictCache canWait : Bool) :
    Nat → Sched → ReservationDecision × Sched
  | fuel, s =>
    let attempt := s.tryReserve kv need
    let tried := { s with pools := attempt.2 }
    let gaveUp : ReservationDecision × Sched := (if canWait then .requeue else .refused, tried)
    match attempt.1 with
    | some kv => (.ready kv, tried)
    | none =>
      match fuel, tried.cache with
      | fuel + 1, some cache =>
        if evictCache then
          match cache.evictLru tried.pools with
          | (true, cache, pools) =>
            reserveWithEviction kv need evictCache canWait fuel { tried with cache := some cache, pools }
          | (false, _, _) => gaveUp
        else gaveUp
      | _, _ => gaveUp

structure NewcomerOptions where
  reserveWhole : Bool
  evictCache : Bool
  canWait : Bool
  maxNewTokens : Option Nat

inductive PreparedNewcomer
  | ready (newTokens : Nat)
  | done
  | requeue

def cachedTails (s : Sched) : Nat :=
  match s.cache with
  | some cache => cache.entries.length
  | none => 0

/-- `send_scheduled`. -/
def sendScheduled (s : Sched) (id : RequestId) (cachedTokens : Nat) : Sched :=
  let admitted := s.tell (.admitRequest id (world.now s.tick))
  if 0 < cachedTokens then admitted.next (·.tell (.setCachedTokens id cachedTokens)) else admitted

/-- `prepare_newcomer` once the request passed validation. -/
def prepareValid (s : Sched) (request : Request) (contextLen : Nat) (options : NewcomerOptions) :
    PreparedNewcomer × Sched :=
  let resolved := s.resolveNewcomerKv config request.promptTokens
  let kv := resolved.1
  let s := resolved.2.2
  let newTokens := request.promptTokens.length - kv.local_.frontier
  let fed := request.promptTokens.take kv.local_.frontier
  if options.maxNewTokens.any (· < newTokens) then (.requeue, s.dropSeat ⟨request, kv, fed⟩)
  else
    let need : AdmissionNeed := if options.reserveWhole then .tokens newTokens
      else .globalPages (pagesFor contextLen)
    match reserveWithEviction kv need options.evictCache options.canWait s.cachedTails s with
    | (.requeue, s) => (.requeue, s.dropSeat ⟨request, kv, fed⟩)
    | (.refused, s) =>
      (.done, ((s.dropSeat ⟨request, kv, fed⟩).refuse .kvBudget).tell
        (.reject request.id (.kvBudget request.promptTokens.length contextLen)))
    | (.ready kv, s) =>
      let scheduled := s.sendScheduled world request.id kv.local_.frontier
      (.ready newTokens,
        { scheduled with newcomers := scheduled.newcomers ++ [⟨⟨request, kv, fed⟩, resolved.2.1⟩] })

/-- `prepare_newcomer`. -/
def prepareNewcomer (s : Sched) (request : Request) (options : NewcomerOptions) : PreparedNewcomer × Sched :=
  let probe := s.isAborted world request.id
  if probe.1 then (.done, probe.2.tell (.retire request.id))
  else
    match validateRequest request config.maxContext with
    | .error reason => (.done, probe.2.tell (.reject request.id reason))
    | .ok contextLen => probe.2.prepareValid config world request contextLen options

/-- `step` of a single request, its pages already reserved. -/
def passSingle (s : Sched) (seat : Seat) (tokens : List Token) : Option (Seat × Sched) :=
  if !world.validTokens tokens then none
  else
    match prepareSingle config.maxContext seat.kv tokens.length,
      settleStep config.window s.pools seat.kv tokens.length with
    | some _, some (kv, pools) => some ({ seat with kv, fed := seat.fed ++ tokens }, { s with pools })
    | _, _ => none

/-- `prefill_into_logits`: the rest of the prompt, with the release deferred. -/
def passOverlapped (seat : Seat) : Option Seat :=
  let tokens := seat.request.promptTokens.drop seat.kv.local_.frontier
  if !world.validTokens tokens then none
  else
    (prepareSingle config.maxContext seat.kv tokens.length).map fun _ =>
      { seat with
        kv := ⟨⟨seat.kv.local_.resident, seat.kv.local_.originPages, seat.kv.local_.frontier + tokens.length⟩,
          ⟨seat.kv.global.pages, seat.kv.global.seqLen + tokens.length⟩⟩
        fed := seat.fed ++ tokens }

/-- `step_plain_segment`. The first component says whether it ran; a segment that did not run
keeps the pages it reserved. -/
def stepPlainSegment (s : Sched) (seat : Seat) (tokens : List Token) : Bool × Seat × Sched :=
  match admitTokens s.pools seat.kv tokens.length with
  | (none, pools) => (false, seat, ({ s with pools } : Sched).refuse .plainSegment)
  | (some kv, pools) =>
    match ({ s with pools } : Sched).passSingle config world { seat with kv } tokens with
    | none => (false, { seat with kv }, { s with pools })
    | some (seat, s) => (true, seat, s)

/-- `walk_plain_prompt`. -/
def walkPlainPrompt (chunk : Nat) : Nat → Seat → Sched → Bool × Seat × Sched
  | 0, seat, s => s.stepPlainSegment config world seat
    (seat.request.promptTokens.drop seat.kv.local_.frontier)
  | fuel + 1, seat, s =>
    let rest := seat.request.promptTokens.drop seat.kv.local_.frontier
    if chunk < rest.length then
      let stepped := s.stepPlainSegment config world seat (rest.take chunk)
      if stepped.1 then walkPlainPrompt chunk fuel stepped.2.1 stepped.2.2 else stepped
    else s.stepPlainSegment config world seat rest

/-- `first_token_flow`: sample the prompt's last row and settle it. -/
def firstTokenFlow (s : Sched) (seat : Seat) : Sched :=
  let first := sample world s.tick seat.request seat.fed
  s.settleFirstToken world seat first.id first.logprob

/-- The solo arm of `admit_and_prefill`. -/
def admitSolo (s : Sched) (newcomer : Newcomer) : Sched :=
  let s := { s with steady := none, newcomers := [] }
  let seat := newcomer.seat
  let prompt := seat.request.promptTokens
  let stepped : Bool × Seat × Sched :=
    match config.chunk with
    | some chunk => walkPlainPrompt config world chunk prompt.length seat s
    | none =>
      match s.passSingle config world seat (prompt.drop seat.kv.local_.frontier) with
      | none => (false, seat, s)
      | some (seat, s) => (true, seat, s)
  if stepped.1 then
    (stepped.2.2.capturePrefix config stepped.2.1.kv prompt newcomer.resumed).firstTokenFlow world stepped.2.1
  else (stepped.2.2.dropSeat stepped.2.1).tell (.fail seat.request.id "prefill failed")

/-- `launch_async_prefill`. -/
def launchAsyncPrefill (s : Sched) (newcomer : Newcomer) : Sched :=
  let s := { s with newcomers := [] }
  match passOverlapped config world newcomer.seat with
  | some seat => { s with inflight := some ⟨seat, newcomer.resumed⟩ }
  | none => (s.dropSeat newcomer.seat).tell (.fail newcomer.seat.request.id "prefill failed")

/-- `join_async_prefill`. -/
def joinAsyncPrefill (s : Sched) : Sched :=
  match s.inflight with
  | none => s
  | some _ =>
    ({ s with steady := none }.drainPipeline world).next fun s =>
      match s.inflight with
      | none => s
      | some inflight =>
        let seat := inflight.seat
        let id := seat.request.id
        let s := { s with inflight := none }
        let probe := s.isAborted world id
        if probe.1 then (probe.2.tell (.retire id)).dropSeat seat
        else if seat.kv.local_.frontier ≠ seat.request.promptTokens.length
          then (probe.2.tell (.fail id "gemma4 async prefill frontier")).dropSeat seat
        else
          match settleStep config.window probe.2.pools seat.kv 0 with
          | none => (probe.2.tell (.fail id "prefill failed")).dropSeat seat
          | some (kv, pools) =>
            ({ probe.2 with pools }.capturePrefix config kv seat.request.promptTokens
              inflight.resumed).firstTokenFlow world
              { seat with kv }

/-- The prompts' entries of a mixed step once it ran. -/
def settleSeats (window : Nat) : Pools → List (Seat × List Token) → Option (List Seat × Pools)
  | pools, [] => some ([], pools)
  | pools, (seat, tokens) :: rest =>
    match settleStep window pools seat.kv tokens.length with
    | none => none
    | some (kv, pools) =>
      match settleSeats window pools rest with
      | none => none
      | some (seats, pools) => some ({ seat with kv, fed := seat.fed ++ tokens } :: seats, pools)

/-- The host's checks of `mixed_prefill_decode_step`. -/
def mixedPlanned (s : Sched) (prefills : List (Seat × List Token)) : Bool :=
  let rows := (prefills.map (·.2.length)).sum + s.active.length
  !prefills.isEmpty && 0 < (prefills.map (·.2.length)).sum && !s.active.isEmpty &&
    s.active.length + prefills.length ≤ config.arenaRows &&
    prefills.all (fun entry => world.validTokens entry.2) &&
    prefills.all (fun entry => (prepareMixed config.maxContext entry.1.kv entry.2.length).isSome) &&
    s.active.all (fun entry => (decodeRow config.maxContext entry.seat.kv).isSome) &&
    rows ≤ config.maxContext + config.arenaRows

/-- The split-KV tables of a mixed step overwrite those of the decode step. -/
def mixedTables (s : Sched) : Option Tables :=
  match s.active.mapM fun entry => decodeRow config.maxContext entry.seat.kv with
  | none => none
  | some rows => uploadSplitKvTables config rows s.tables

/-- `mixed_prefill_decode_step`. -/
def mixedPrefillDecodeStep (s : Sched) (prefills : List (Seat × List Token)) :
    Except Sched (List Seat × Sched) :=
  let rows := (prefills.map (·.2.length)).sum + s.active.length
  let s := { s with steady := none, mixedRows := s.mixedRows ++ [rows] }
  if !s.mixedPlanned config world prefills then .error s
  else
    match settleSeats config.window s.pools prefills with
    | none => .error s
    | some (seats, pools) =>
      match settleRows config.window pools s.active (s.active.map (·.next)), s.mixedTables config with
      | some (active, pools), some tables => .ok (seats, { s with pools, active, tables })
      | _, _ => .error s

/-- `fail_newcomers`. -/
def failNewcomers (s : Sched) (message : String) : Sched :=
  let failed := s.newcomers.foldl (fun s newcomer =>
    (s.failIfActive newcomer.seat.request.id message).dropSeat newcomer.seat) s
  { failed with newcomers := [] }

/-- The newcomers' first tokens, in order. -/
def settleNewcomers : List Newcomer → Sched → Sched
  | [], s => s
  | newcomer :: rest, s => settleNewcomers rest (s.firstTokenFlow world newcomer.seat)

/-- `mixed_admission`. -/
def mixedAdmission (s : Sched) : Sched :=
  match config.chunk with
  | some chunk =>
    { s with
      walk := some ⟨s.newcomers.map fun newcomer => ⟨newcomer.seat, newcomer.resumed,
        newcomer.seat.kv.local_.frontier, none, false⟩, chunk, true⟩
      newcomers := [] }
  | none =>
    let prefills := s.newcomers.map fun newcomer =>
      (newcomer.seat, newcomer.seat.request.promptTokens.drop newcomer.seat.kv.local_.frontier)
    match s.mixedPrefillDecodeStep config world prefills with
    | .error s => ((s.failActiveBatch "mixed step failed").failNewcomers "mixed step failed").halt .fatal
    | .ok (seats, s) =>
      let newcomers := (s.newcomers.zip seats).map fun (newcomer, seat) => { newcomer with seat }
      let captured := newcomers.foldl
        (fun s newcomer => s.capturePrefix config newcomer.seat.kv
          newcomer.seat.request.promptTokens newcomer.resumed)
        { s with newcomers }
      (captured.requireOpen (captured.active.map (·.seat.request.id))).next fun s =>
        settleNewcomers world newcomers
          { s.emitDecodeRows world (s.activeSamples world) with newcomers := [] }

/-- The gather of `admit_and_prefill`, and the admission budget left after it. -/
def gather : Nat → Nat → Nat → Sched → Nat × Sched
  | 0, _, attempts, s => (attempts, s)
  | fuel + 1, rowsBudget, attempts, s =>
    if s.newcomers.length < EngineConfig.mixMaxPrompts ∧ (config.chunk.isSome ∨ rowsBudget < 512) ∧
        s.newcomers.length + s.active.length < config.slots ∧ attempts < config.slots then
      match s.pending with
      | [] => (attempts, s)
      | candidate :: pending =>
        let options : NewcomerOptions :=
          ⟨config.chunk.isNone, false, true, if config.chunk.isNone then some (512 - rowsBudget) else none⟩
        match ({ s with pending } : Sched).prepareNewcomer config world candidate options with
        | (.ready newTokens, s) => s.gather fuel (rowsBudget + newTokens) (attempts + 1)
        | (.done, s) => s.gather fuel rowsBudget (attempts + 1)
        | (.requeue, s) => (attempts + 1, { s with pending := candidate :: s.pending })
    else (attempts, s)

/-- The mixed arm of `admit_and_prefill`. -/
def admitMixed (s : Sched) (newcomer : Newcomer) (attempts : Nat) : Nat × Sched :=
  let s := ({ s with steady := none }.drainPipeline world).next fun s => s.readyDecodeRows world
  if s.halted.isSome then (attempts, s)
  else if s.active.isEmpty then (attempts, s.admitSolo config world newcomer)
  else
    let rowsBudget := newcomer.seat.request.promptTokens.length - newcomer.seat.kv.local_.frontier
    let gathered := s.gather config world config.slots rowsBudget attempts
    (gathered.1, gathered.2.next (·.mixedAdmission config world))

/-- `admit_and_prefill`. The first component is the request that has to wait. -/
def admitAndPrefill (s : Sched) (item : Request) (attempts : Nat) : Option Request × Nat × Sched :=
  let laneTakes := config.lane && !s.active.isEmpty
  let options : NewcomerOptions := ⟨config.chunk.isNone || laneTakes, true, !s.active.isEmpty, none⟩
  match s.prepareNewcomer config world item options with
  | (.done, s) => (none, attempts, s)
  | (.requeue, s) => (some item, attempts, s)
  | (.ready _, s) =>
    match s.newcomers with
    | [] => (none, attempts, s)
    | newcomer :: _ =>
      if s.halted.isSome then (none, attempts, s)
      else if laneTakes then (none, attempts, s.launchAsyncPrefill config world newcomer)
      else if s.active.isEmpty then (none, attempts, s.admitSolo config world newcomer)
      else
        let mixed := s.admitMixed config world newcomer attempts
        (none, mixed.1, mixed.2)

/-- `admit_from_queue`. -/
def admitFromQueue : Nat → Nat → Sched → Sched
  | 0, _, s => s
  | fuel + 1, attempts, s =>
    if attempts < config.slots ∧ s.active.length < config.slots ∧ s.inflight.isNone ∧ s.halted.isNone then
      match s.pending with
      | [] => s
      | item :: pending =>
        match ({ s with pending } : Sched).admitAndPrefill config world item (attempts + 1) with
        | (some item, _, s) => { s with pending := item :: s.pending }
        | (none, attempts, s) => if s.walk.isSome then s else admitFromQueue fuel attempts s
    else s

/-- `CoalesceDoor::opens`. -/
def doorOpens (slots : Nat) (door : CoalesceDoor) (pending active : Nat) (now : Instant) :
    Bool × CoalesceDoor :=
  if pending = 0 ∨ active = 0 ∨ (active + pending) * 2 < slots then (true, { door with since := none })
  else
    let cohort := max (min EngineConfig.mixMaxPrompts (slots - active)) 1
    let since := door.since.getD now
    if cohort ≤ pending ∨ door.window ≤ now - since then (true, { door with since := none })
      else (false, { door with since := some since })

/-- `intake_turn`. -/
def intakeTurn (s : Sched) (now : Instant) : Sched :=
  match s.door with
  | none => s.admitFromQueue config world config.slots 0
  | some door =>
    let opens := doorOpens config.slots door s.pending.length s.active.length now
    let s := { s with door := some opens.2 }
    if opens.1 then s.admitFromQueue config world config.slots 0 else s

/-- `graduate_ready_walkers`: the walkers that stay. -/
def graduateReadyWalkers : List Walker → Sched → List Walker × Sched
  | [], s => ([], s)
  | walker :: rest, s =>
    match walker.failed, walker.first with
    | false, some (next, logprob) =>
      let captured := s.capturePrefix config walker.seat.kv walker.seat.request.promptTokens walker.resumed
      graduateReadyWalkers rest (captured.settleFirstToken world walker.seat next logprob)
    | _, _ =>
      let later := graduateReadyWalkers rest s
      (walker :: later.1, later.2)

/-- The aborted walkers of a round are retired and keep their place. -/
def retireWalkers : List Walker → Sched → List Walker × Sched
  | [], s => ([], s)
  | walker :: rest, s =>
    if walker.failed then
      let later := retireWalkers rest s
      (walker :: later.1, later.2)
    else
      let id := walker.seat.request.id
      let probe := s.isAborted world id
      if probe.1 then
        let later := retireWalkers rest (probe.2.tell (.retire id))
        ({ walker with failed := true } :: later.1, later.2)
      else
        let later := retireWalkers rest probe.2
        (walker :: later.1, later.2)

def Walker.walking (walker : Walker) : Bool :=
  !walker.failed && walker.offset < walker.seat.request.promptTokens.length

/-- `finish_plain_walker`. -/
def finishPlainWalker (chunk : Nat) (walker : Walker) (s : Sched) : Walker × Sched :=
  let prompt := walker.seat.request.promptTokens
  let walked := walkPlainPrompt config world chunk prompt.length walker.seat s
  if walked.1 then
    let first := sample world walked.2.2.tick walker.seat.request walked.2.1.fed
    let s := (walked.2.2.requireOpen (walked.2.2.active.map (·.seat.request.id))).next fun s =>
      s.emitDecodeRows world (s.activeSamples world)
    ({ walker with seat := walked.2.1, offset := prompt.length, first := some (first.id, first.logprob) }, s)
  else
    ({ walker with seat := walked.2.1, failed := true },
      walked.2.2.tell (.fail walker.seat.request.id "walk tail failed"))

/-- The tails of a walk whose roster has drained. -/
def finishWalkers (chunk : Nat) : List Walker → Sched → List Walker × Sched
  | [], s => ([], s)
  | walker :: rest, s =>
    let finished := if Walker.walking walker ∧
      s.halted.isNone then s.finishPlainWalker config world chunk walker else (walker, s)
    let later := finishWalkers chunk rest finished.2
    (finished.1 :: later.1, later.2)

/-- The round's segments: each walker takes what is left of the budget and reserves it. The
segment's length stands beside the walker. -/
def takeSegments : Nat → List Walker → Sched → List (Walker × Option Nat) × Sched
  | _, [], s => ([], s)
  | budget, walker :: rest, s =>
    let left := walker.seat.request.promptTokens.length - walker.offset
    if walker.failed ∨ left = 0 ∨ budget = 0 then
      let later := takeSegments budget rest s
      ((walker, none) :: later.1, later.2)
    else
      let take := min left budget
      match admitTokens s.pools walker.seat.kv take with
      | (none, pools) =>
        let refused := ({ s with pools } : Sched).refuse .walkSegment
        let later := takeSegments budget rest
          (refused.tell (.fail walker.seat.request.id "walk segment admission failed"))
        (({ walker with failed := true }, none) :: later.1, later.2)
      | (some kv, pools) =>
        let later := takeSegments (budget - take) rest { s with pools }
        (({ walker with seat := { walker.seat with kv } }, some take) :: later.1, later.2)

/-- The segments of the walkers that took one. -/
def segments (taken : List (Walker × Option Nat)) : List (Seat × List Token) :=
  taken.filterMap fun (walker, take) =>
    take.map fun take => (walker.seat, (walker.seat.request.promptTokens.drop walker.offset).take take)

/-- The walkers after the mixed step; a final segment's row is the first token. -/
def walkOn (tick : Nat) : List (Walker × Option Nat) → List Seat → List Walker
  | [], _ => []
  | (walker, none) :: rest, seats => walker :: walkOn tick rest seats
  | (walker, some _) :: rest, [] => walker :: walkOn tick rest []
  | (walker, some take) :: rest, seat :: seats =>
    let offset := walker.offset + take
    let first := sample world tick seat.request seat.fed
    { walker with
      seat
      offset
      first := if offset = seat.request.promptTokens.length then some (first.id, first.logprob)
        else walker.first } :: walkOn tick rest seats

/-- `fail_walkers`. -/
def failWalkers (s : Sched) (walkers : List Walker) : Sched :=
  walkers.foldl (fun s walker =>
    (s.failIfActive walker.seat.request.id "walk step failed").dropSeat walker.seat) s

/-- The walk ends and what its walkers still hold goes back. -/
def endWalk (s : Sched) (walkers : List Walker) : Sched :=
  { walkers.foldl (fun s walker => s.dropSeat walker.seat) s with walk := none }

/-- The mixed step of a walk's round. -/
def walkStep (s : Sched) (walk : Walk) : Sched :=
  let taken := takeSegments walk.chunk walk.walkers s
  match taken.2.mixedPrefillDecodeStep config world (segments taken.1) with
  | .error s => ((s.failActiveBatch "walk step failed").failWalkers (taken.1.map (·.1))).halt .fatal
  | .ok (seats, s) =>
    let walkers := walkOn world s.tick taken.1 seats
    ((s.requireOpen (s.active.map (·.seat.request.id))).next fun s =>
      s.emitDecodeRows world (s.activeSamples world)).next fun s =>
      let graduated := graduateReadyWalkers config world walkers s
      if graduated.1.any fun walker => !walker.failed && walker.first.isNone then
        { graduated.2 with walk := some { walk with walkers := graduated.1, firstRound := false } }
      else graduated.2.endWalk graduated.1

/-- `advance_walk_round` for the walk taken out of the scheduler. -/
def advanceWalkRound (s : Sched) (walk : Walk) : Sched :=
  let probed := retireWalkers world walk.walkers s
  let graduated := graduateReadyWalkers config world probed.1 probed.2
  let walkers := graduated.1
  if !walkers.any Walker.walking then graduated.2.endWalk walkers
  else
    (if walk.firstRound then graduated.2 else graduated.2.readyDecodeRows world).next fun s =>
      if s.active.isEmpty then
        let finished := finishWalkers config world walk.chunk walkers s
        finished.2.next fun s =>
          let graduated := graduateReadyWalkers config world finished.1 s
          graduated.2.endWalk graduated.1
      else s.walkStep config world { walk with walkers, firstRound := false }

/-- `advance_walk`. -/
def advanceWalk (s : Sched) : Sched :=
  match s.walk with
  | none => s
  | some walk => s.advanceWalkRound config world walk

/-- `submit`, with the driver's registration before it. Ids are minted in the order of
submission. -/
def submit (s : Sched) (request : Request) : Sched :=
  let request := { request with id := s.submitted.length }
  { s with
    pending := s.pending ++ [request]
    submitted := s.submitted ++ [request]
    book := Function.update s.book request.id (some .queued) }

/-- `step`. `complete` is the lane's completion event. -/
def step (s : Sched) (complete : Bool) (now : Instant) : Sched :=
  if s.walk.isSome then s.advanceWalk config world
  else
    let laneReady := s.inflight.isSome && (s.active.isEmpty && s.pending.isEmpty || complete)
    let joined := if laneReady then s.joinAsyncPrefill config world else s
    (joined.next fun s => s.intakeTurn config world now).next fun s =>
      if s.walk.isSome then s.advanceWalk config world
      else if s.active.isEmpty then s
      else s.decodeRound config world

end Sched

/-- What the driver does with the scheduler. -/
inductive SchedOp
  | submit (request : Request)
  | step (complete : Bool) (now : Instant)

/-- A scheduler that did not return is not called again. -/
def Sched.perform (config : EngineConfig) (world : World) (s : Sched) : SchedOp → Sched
  | .submit request => s.next (·.submit request)
  | .step complete now => s.next fun s => s.step config world complete now

def Sched.run (config : EngineConfig) (world : World) (ops : List SchedOp) : Sched :=
  ops.foldl (Sched.perform config world) (Sched.new config)

end PegaInfer.Gemma4
