import PegaInfer.Gemma4.Engine

namespace PegaInfer.Gemma4

open Frontend (RequestId LedgerCall)
open SwapRemove

namespace Sched

variable (config : EngineConfig) (world : World)

/-- `ready_decode_rows` from `row` on. -/
def readyFrom : Nat → Nat → Sched → Sched
  | 0, _, s => s
  | fuel + 1, row, s =>
    match s.active[row]? with
    | none => s
    | some entry =>
      if entry.stopping then readyFrom fuel row (s.dropRow row entry)
      else
        let id := entry.seat.request.id
        let probe := s.isAborted world id
        if probe.1 then readyFrom fuel row ((probe.2.tell (.retire id)).dropRow row entry)
        else
          match admitTokens probe.2.pools entry.seat.kv 1 with
          | (some kv, pools) =>
            readyFrom fuel (row + 1)
              { probe.2 with
                pools,
                active := probe.2.active.set row { entry with seat := { entry.seat with kv } } }
          | (none, pools) =>
            let refused := ({ probe.2 with pools } : Sched).refuse .readyRows
            readyFrom fuel row ((refused.tell (.fail id "decode KV admission failed")).dropRow row entry)

def readyDecodeRows (s : Sched) : Sched := s.readyFrom world s.active.length 0

/-- Every row of a step that ran has absorbed its token and released its front. -/
def settleRows (window : Nat) : Pools → List Active → List Token → Option (List Active × Pools)
  | pools, [], _ => some ([], pools)
  | pools, entry :: rest, tokens =>
    match settleStep window pools entry.seat.kv 1 with
    | none => none
    | some (kv, pools) =>
      match settleRows window pools rest tokens.tail with
      | none => none
      | some (rows, pools) =>
        some ({ entry with
          seat := { entry.seat with kv, fed := entry.seat.fed ++ [tokens.headD 0] } } :: rows, pools)

/-- The fingerprint of the last step takes one step to the batch's. -/
def regular (steady fresh : Option SteadyDecode) : Bool :=
  match steady, fresh with
  | some current, some next => current.advancesTo next
  | _, _ => false

/-- `plan_decode_batch`: the fingerprint it leaves and the tables the step will read. -/
def planDecodeBatch (s : Sched) (kvs : List GemmaKv) (padded : Nat) : Option SteadyDecode × Option Tables :=
  let fresh := decodeFingerprint kvs padded
  if regular s.steady fresh then
    if kvs.all fun kv => checkStepBounds config.maxContext kv (kv.local_.frontier + 1)
      then (fresh, some s.tables)
    else (s.steady, none)
  else (fresh, refillTables config kvs padded s.tables)

/-- `decode_batch_step_inner`. Without `tokens` the step embeds the ids the sampler left. -/
def decodeBatchStep (s : Sched) (tokens : Option (List Token)) : Except Sched Sched :=
  let batch := s.active.length
  let padded := nextPowerOfTwo batch
  let kvs := s.active.map (·.seat.kv)
  if batch = 0 ∨ config.arenaRows < batch then .error s
  else
    let planned := planDecodeBatch config s kvs padded
    let launch : Launch := ⟨kvs, padded, regular s.steady (decodeFingerprint kvs padded), planned.2⟩
    let logged := { s with steady := planned.1, launches := s.launches ++ [launch] }
    match planned.2 with
    | none => .error logged
    | some tables =>
      let ids := tokens.getD s.ids
      match settleRows config.window s.pools s.active ids with
      | none => .error logged
      | some (active, pools) =>
        .ok { logged with tables := tables.advance padded config.globalSplitFactor, ids, active, pools }

/-- The batch is failed and the error goes to the driver. -/
def batchFatal (s : Sched) (message : String) : Sched := (s.failActiveBatch message).halt .fatal

/-- The picks of the step that just ran, by row. -/
def picks (s : Sched) : List Token := s.active.map fun entry =>
    world.oracle s.tick entry.seat.request entry.seat.fed

/-- `launch_staged`. -/
def launchStaged (s : Sched) (resident : Bool) (slot : Nat) : Except Sched Sched :=
  match s.decodeBatchStep config (if resident then none else some (s.active.map (·.next))) with
  | .error s => .error s
  | .ok s => .ok { s with ids := s.picks world, staged := Function.update s.staged slot (s.picks world) }

/-- `settle_staged` for every row in order. -/
def settleStagedRows : List Active → List Token → Sched → List Active × Sched
  | [], _, s => ([], s)
  | entry :: rest, tokens, s =>
    let token := tokens.headD 0
    let settled : Active × Sched :=
      if entry.stopping then (entry, s)
      else
        let delivered := s.deliverDecodeRow world entry
          ⟨token, none, world.stops token entry.seat.request.ignoreEos⟩
        ({ delivered.2.1 with stopping := delivered.1 }, delivered.2.2)
    let later := settleStagedRows rest tokens.tail settled.2
    (settled.1 :: later.1, later.2)

/-- `collect_pending`. -/
def collectPending (s : Sched) (pending : PendingDecode) : Except Sched Sched :=
  if pending.rows ≠ s.active.length then .error s
  else
    let settled := settleStagedRows world s.active ((s.staged pending.slot).take pending.rows) s
    .ok { settled.2 with active := settled.1 }

/-- `active.retain(|entry| !entry.stopping)`. -/
def retainRunning (s : Sched) : Sched :=
  let dropped := (s.active.filter (·.stopping)).foldl (fun s entry => s.dropSeat entry.seat) s
  { dropped with active := s.active.filter (!·.stopping) }

/-- `drain_pipeline`. -/
def drainPipeline (s : Sched) : Sched :=
  match s.pipeline with
  | none => s
  | some pending =>
    match ({ s with pipeline := none } : Sched).collectPending world pending with
    | .error s => s.batchFatal "pipelined decode drain failed"
    | .ok s => s.next retainRunning

/-- `pipeline_eligible`. -/
def pipelineEligible (s : Sched) : Bool :=
  !s.active.isEmpty && s.active.length ≤ config.arenaRows &&
    s.active.all fun entry =>
      !entry.stopping && entry.seat.request.logprobs == 0 &&
        2 ≤ entry.seat.request.maxTokens - s.completionTokens entry.seat.request.id &&
          entry.seat.request.greedy

/-- The rows whose completion tokens eligibility asks for. -/
def eligibleAsks (s : Sched) : List RequestId :=
  (s.active.filter fun entry => !entry.stopping && entry.seat.request.logprobs == 0).map (·.seat.request.id)

/-- `ready_rows_pinned`: stops at the first row that is aborted or refused. -/
def pinRows : List Active → Sched → Bool × List Active × Sched
  | [], s => (true, [], s)
  | entry :: rest, s =>
    let probe := s.isAborted world entry.seat.request.id
    if probe.1 then (false, entry :: rest, probe.2)
    else
      match admitTokens probe.2.pools entry.seat.kv 1 with
      | (none, pools) => (false, entry :: rest, ({ probe.2 with pools } : Sched).refuse .pinnedRows)
      | (some kv, pools) =>
        let later := pinRows rest { probe.2 with pools }
        (later.1, { entry with seat := { entry.seat with kv } } :: later.2.1, later.2.2)

/-- `deliver_decode_row` for every row in order. -/
def deliverRows : List Active → List Sample → Sched → List (Bool × Active) × Sched
  | [], _, s => ([], s)
  | _ :: _, [], s => ([], s)
  | entry :: rest, token :: tokens, s =>
    let delivered := s.deliverDecodeRow world entry token
    let later := deliverRows rest tokens delivered.2.2
    ((delivered.1, delivered.2.1) :: later.1, later.2)

/-- The places of the rows that are done. -/
def retired (outcome : List (Bool × Active)) : List Nat :=
  (outcome.zipIdx.filter (·.1.1)).map (·.2)

/-- `emit_decode_rows`: the finished rows leave from the last to the first. -/
def emitDecodeRows (s : Sched) (samples : List Sample) : Sched :=
  let delivered := deliverRows world s.active samples s
  (retired delivered.1).reverse.foldl
    (fun s row => s.active[row]?.elim s (s.dropRow row)) { delivered.2 with active := delivered.1.map (·.2) }

/-- The samples of the rows that just stepped. -/
def activeSamples (s : Sched) : List Sample :=
  s.active.map fun entry => sample world s.tick entry.seat.request entry.seat.fed

/-- `decode_round_collect`. -/
def decodeRoundCollect (s : Sched) : Sched :=
  match s.decodeBatchStep config (some (s.active.map (·.next))) with
  | .error s => s.batchFatal "batched decode failed"
  | .ok s =>
    (s.requireOpen (s.active.map (·.seat.request.id))).next fun s =>
      s.emitDecodeRows world (s.activeSamples world)

/-- The batched step without a step in flight. -/
def decodeRoundFresh (s : Sched) : Sched :=
  let ready := s.readyDecodeRows world
  if ready.active.isEmpty then ready
  else
    (ready.requireOpen ready.eligibleAsks).next fun ready =>
      if ready.pipelineEligible config then
        match ready.launchStaged config world false 0 with
        | .error s => s.batchFatal "batched decode failed"
        | .ok s => { s with pipeline := some ⟨ready.active.length, 0⟩ }
      else ready.decodeRoundCollect config world

/-- The step in flight is drained before anything moves. -/
def decodeRoundDrained (s : Sched) : Sched :=
  (s.drainPipeline world).next fun s => if s.active.isEmpty then s else s.decodeRoundFresh config world

/-- A successor is launched over the same rows and the step before it is collected. -/
def decodeRoundStaged (s : Sched) (pending : PendingDecode) : Sched :=
  let nextSlot := (pending.slot + 1) % 2
  match s.launchStaged config world true nextSlot with
  | .error s =>
    match s.collectPending world pending with
    | .error s | .ok s => s.batchFatal "pipelined decode launch failed"
  | .ok launched =>
    match launched.collectPending world pending with
    | .error s => s.batchFatal "pipelined decode collect failed"
    | .ok collected => { collected with pipeline := some ⟨s.active.length, nextSlot⟩ }

/-- `decode_round`. -/
def decodeRound (s : Sched) : Sched :=
  match s.pipeline with
  | none => s.decodeRoundFresh config world
  | some pending =>
    (s.requireOpen s.eligibleAsks).next fun s =>
      if s.pipelineEligible config then
        let pinned := pinRows world s.active { s with pipeline := none }
        let held := { pinned.2.2 with active := pinned.2.1 }
        held.next fun held =>
          if pinned.1 then held.decodeRoundStaged config world pending
          else { held with pipeline := some pending }.decodeRoundDrained config world
      else s.decodeRoundDrained config world

end Sched

end PegaInfer.Gemma4
