import PegaInfer.KimiK2.Lifecycle

namespace PegaInfer.KimiK2

open Frontend Kvbm SwapRemove

/-- `KIMI_RUNNER_MAX_BATCH`. -/
abbrev kimiRunnerMaxBatch : Nat := 64

/-- `KIMI_DECODE_ADMISSION_MICROBATCH`. -/
abbrev kimiDecodeAdmissionMicrobatch : Nat := 64

structure ActiveKimiRequest (H : Type) where
  tokenTx : Nat
  promptLen : Nat
  completionTokens : Nat
  maxTokens : Nat
  lastToken : Token
  slot : Nat
  decodeBatchSize : Nat
  options : SamplingParams
  kv : SchedulableSequence H

/-- The state of the admission loop. -/
structure Admission (H : Type) where
  wave : Wave H
  budget : Nat
  prefillReqs : List GenerateRequest
  deferred : List GenerateRequest

variable {H : Type}

namespace Wave

def availableBlocks (w : Wave H) : Nat := w.store.availableBlocks

/-- `max_request_blocks`. -/
def maxRequestBlocks (w : Wave H) : Nat := w.store.totalBlocks - 1

/-- A request's KV is dropped. -/
def release [DecidableEq H] (w : Wave H) (kv : SchedulableSequence H) : Wave H :=
  { w with store := kv.dropBlocks w.store }

end Wave

namespace World

variable (world : World) (blockSize : Nat)

/-- One request of the admission loop. -/
def consider (admission : Admission H) (req : GenerateRequest) : Admission H :=
  match world.preflightPrefillCandidate admission.wave req with
  | (w, none) => { admission with wave := w }
  | (w, some req) =>
    if ¬ req.params.isGreedy then
      { admission with
        wave := world.sendRejected w req
          "Kimi TP8 path does not support sampling yet: use TP1/DP8 or temperature=0 (#237, #226)" }
    else
      match req.validateKvCapacity blockSize w.maxRequestBlocks none with
      | .error message => { admission with wave := world.sendRejected w req message }
      | .ok () =>
        let blocksNeeded := req.requestLifetimeBlocks blockSize
        if admission.budget < blocksNeeded
          then { admission with wave := w, deferred := admission.deferred ++ [req] }
        else
          { admission with
            wave := world.sendScheduled w req
            budget := admission.budget - blocksNeeded
            prefillReqs := admission.prefillReqs ++ [req] }

variable [DecidableEq H] [SequenceHashing H]

/-- `schedule_request_kv`: the KV and the cached-token count, or nothing once the request has
been failed. `none` is a panic. -/
def scheduleRequestKv (w : Wave H) (req : GenerateRequest) :
    Option (Wave H × Option (SchedulableSequence H × Nat)) :=
  match (SchedulableSequence.new req.promptTokens req.maxTokens blockSize
    world.salt).matchAndAddPrefix w.store with
  | .error .panicked => none
  | .error _ =>
    some ((world.send w req.tokenTx
      (.error "Kimi-K2 prefix cache matching failed" req.promptTokens.length 0)).1, none)
  | .ok (kv, store, blocks) =>
    let cachedTokens := blocks * blockSize
    match kv.schedulePrefill (req.promptTokens.length - cachedTokens) store with
    | .error .panicked => none
    | .error _ =>
      some ((world.send { w with store } req.tokenTx
        (.error "Kimi-K2 prefill KV block accounting violated full-lifetime reservation"
          req.promptTokens.length 0)).1.release kv, none)
    | .ok (kv, store) => some ({ w with store }, some (kv, cachedTokens))

/-- `step_page_indices`, which asserts that the step appends a token. -/
def stepPageIndices (kv : SchedulableSequence H) (newTokens : Nat) : Option (List BlockId) :=
  if newTokens = 0 then none else some (kv.pages.take ((kv.kvPosition + newTokens) ⌈/⌉ kv.blockSize))

/-- What follows a successful forward of a prompt's last token, in `prefill_request` and in the
admission microbatch. -/
def firstToken (w : Wave H) (req : GenerateRequest) (slot decodeBatchSize : Nat)
    (kv : SchedulableSequence H) (bookkeeping : String)
    (report : ForwardReport) : Option (Wave H × Option (ActiveKimiRequest H)) :=
  let tokenId := report.localNextTokenGlobalId
  match kv.applyPrefill (some tokenId) w.store with
  | .error .panicked => none
  | .error _ =>
    some ((world.send w req.tokenTx (.error bookkeeping req.promptTokens.length 0)).1.release kv, none)
  | .ok (kv, store) =>
    let w := { w with store }
    if ¬ req.params.ignoreEos ∧ tokenId ∈ world.stopTokenIds then
      some ((world.send w req.tokenTx (.finished .stop req.promptTokens.length 0)).1.release kv, none)
    else
      match world.send w req.tokenTx (.token tokenId report.logprob) with
      | (w, false) => some (w.release kv, none)
      | (w, true) =>
        if req.maxTokens ≤ 1 then
          some ((world.send w req.tokenTx (.finished .length req.promptTokens.length 1)).1.release kv, none)
        else
          some (w, some
            { tokenTx := req.tokenTx
              promptLen := req.promptTokens.length
              completionTokens := 1
              maxTokens := req.maxTokens
              lastToken := tokenId
              slot, decodeBatchSize
              options := req.params
              kv })

/-- `prefill_request`. -/
def prefillRequest (w : Wave H) (req : GenerateRequest) (slot decodeBatchSize : Nat) :
    Option (Wave H × Option (ActiveKimiRequest H)) :=
  match world.scheduleRequestKv blockSize w req with
  | none => none
  | some (w, none) => some (w, none)
  | some (w, some (kv, cachedTokens)) =>
    match stepPageIndices kv (req.promptTokens.length - cachedTokens) with
    | none => none
    | some kvRowPages =>
      match world.forward w.calls (.prefill (req.promptTokens.drop cachedTokens) slot
        decodeBatchSize cachedTokens kvRowPages) with
      | none =>
        some ((world.send { w with calls := w.calls + 1 } req.tokenTx
          (.error s!"Kimi-K2 prompt forward failed for slot {slot}" req.promptTokens.length
            0)).1.release kv, none)
      | some reports =>
        world.firstToken { w with calls := w.calls + 1 } req slot decodeBatchSize kv
          "Kimi-K2 prefill KV bookkeeping failed" (reports 0)

/-- The first loop of `decode_admission_microbatch`. -/
def scheduleGroup (w : Wave H) : List (Nat × GenerateRequest) →
    Option (Wave H × List (Nat × GenerateRequest × SchedulableSequence H))
  | [] => some (w, [])
  | (slot, req) :: group =>
    match world.scheduleRequestKv blockSize w req with
    | none => none
    | some (w, scheduled) =>
      match scheduleGroup w group with
      | none => none
      | some (w, groupKv) =>
        match scheduled with
        | none => some (w, groupKv)
        | some (kv, _) => some (w, (slot, req, kv) :: groupKv)

/-- Its last loop, from row `row` on. -/
def groupTokens (w : Wave H) (decodeBatchSize : Nat) (reports : Nat → ForwardReport) (row : Nat) :
    List (Nat × GenerateRequest × SchedulableSequence H) → List (ActiveKimiRequest H) →
      Option (Wave H × List (ActiveKimiRequest H))
  | [], active => some (w, active)
  | (slot, req, kv) :: groupKv, active =>
    match world.firstToken w req slot decodeBatchSize kv "Kimi-K2 admission KV bookkeeping failed"
      (reports row) with
    | none => none
    | some (w, started) => groupTokens w decodeBatchSize reports (row + 1) groupKv (active ++ started.toList)

/-- The KV of the whole group dropped, its requests failed. -/
def failGroup (w : Wave H) : List (Nat × GenerateRequest × SchedulableSequence H) → Wave H
  | [] => w
  | (_, req, kv) :: groupKv =>
    failGroup ((world.send w req.tokenTx
      (.error "Kimi-K2 decode admission forward failed" req.promptTokens.length 0)).1.release kv) groupKv

/-- `decode_admission_microbatch`. -/
def decodeAdmissionMicrobatch (w : Wave H) (group : List (Nat × GenerateRequest)) (decodeBatchSize : Nat)
    (active : List (ActiveKimiRequest H)) : Option (Wave H × List (ActiveKimiRequest H)) :=
  match world.scheduleGroup blockSize w group with
  | none => none
  | some (w, []) => some (w, active)
  | some (w, groupKv) =>
    match groupKv.mapM fun row => stepPageIndices row.2.2 1 with
    | none => none
    | some kvRowPages =>
      match world.forward w.calls
        (.decodeBatch (groupKv.map fun row => row.2.1.promptTokens.headD 0) (groupKv.map fun _ => 0)
        (groupKv.map fun row => row.1) decodeBatchSize kvRowPages) with
      | none => some (world.failGroup { w with calls := w.calls + 1 } groupKv, active)
      | some reports =>
        world.groupTokens { w with calls := w.calls + 1 } decodeBatchSize reports 0 groupKv active

/-- The loop that starts the admitted requests: prompts of one token wait for a microbatch, the
others are prefilled. -/
def startRequests (decodeBatchSize : Nat) (w : Wave H) :
    (slot : Nat) → List GenerateRequest → (decodeAdmissions : List (Nat × GenerateRequest)) →
    List (ActiveKimiRequest H) → Option (Wave H × List (ActiveKimiRequest H))
  | _, [], decodeAdmissions, active =>
    if decodeAdmissions = [] then some (w, active)
      else world.decodeAdmissionMicrobatch blockSize w decodeAdmissions decodeBatchSize active
  | slot, req :: reqs, decodeAdmissions, active =>
    if req.promptTokens.length = 1 then
      let decodeAdmissions := decodeAdmissions ++ [(slot, req)]
      if decodeAdmissions.length = kimiDecodeAdmissionMicrobatch then
        match world.decodeAdmissionMicrobatch blockSize w decodeAdmissions decodeBatchSize active with
        | none => none
        | some (w, active) => startRequests decodeBatchSize w (slot + 1) reqs [] active
      else startRequests decodeBatchSize w (slot + 1) reqs decodeAdmissions active
    else
      match if decodeAdmissions = [] then some (w, active)
        else world.decodeAdmissionMicrobatch blockSize w decodeAdmissions decodeBatchSize active with
      | none => none
      | some (w, active) =>
        match world.prefillRequest blockSize w req slot decodeBatchSize with
        | none => none
        | some (w, started) => startRequests decodeBatchSize w (slot + 1) reqs [] (active ++ started.toList)

/-- The pages of a decode step, up to the first row that gets none; whether there was one. -/
def scheduleRows (store : BlockStore H) : List (ActiveKimiRequest H) →
    Option (BlockStore H × List (ActiveKimiRequest H) × Bool)
  | [] => some (store, [], false)
  | req :: active =>
    match req.kv.scheduleDecode store with
    | .error .panicked => none
    | .error _ => some (store, req :: active, true)
    | .ok (kv, store) =>
      match scheduleRows store active with
      | none => none
      | some (store, active, failed) => some (store, { req with kv } :: active, failed)

/-- `active.drain(..)`, each request told the failure. -/
def drainErrors (w : Wave H) (message : String) : List (ActiveKimiRequest H) → Wave H
  | [] => w
  | req :: active =>
    drainErrors ((world.send w req.tokenTx
      (.error message req.promptLen req.completionTokens)).1.release req.kv) message active

/-- One row of a decode report, and whether the row retires. -/
def applyRow (w : Wave H) (report : ForwardReport) (req : ActiveKimiRequest H) :
    Option (Wave H × ActiveKimiRequest H × Bool) :=
  let tokenId := report.localNextTokenGlobalId
  let req := { req with completionTokens := req.completionTokens + 1 }
  match req.kv.applyDecode tokenId w.store with
  | .error .panicked => none
  | .error _ =>
    some ((world.send w req.tokenTx (.error "Kimi-K2 decode KV bookkeeping failed" req.promptLen
      req.completionTokens)).1, req, true)
  | .ok (kv, store, _) =>
    let w := { w with store }
    let req := { req with kv }
    if ¬ req.options.ignoreEos ∧ tokenId ∈ world.stopTokenIds then
      some ((world.send w req.tokenTx (.finished .stop req.promptLen req.completionTokens)).1, req, true)
    else
      match world.send w req.tokenTx (.token tokenId report.logprob) with
      | (w, false) => some (w, req, true)
      | (w, true) =>
        if req.maxTokens ≤ req.completionTokens then
          some ((world.send w req.tokenTx (.finished .length req.promptLen req.completionTokens)).1,
            req, true)
        else some (w, { req with lastToken := tokenId }, false)

/-- The rows from index `idx` on, with the indices that retire. -/
def applyRows (w : Wave H) (reports : Nat → ForwardReport) (idx : Nat) : List (ActiveKimiRequest H) →
    Option (Wave H × List (ActiveKimiRequest H) × List Nat)
  | [] => some (w, [], [])
  | req :: active =>
    match world.applyRow w (reports idx) req with
    | none => none
    | some (w, req, retires) =>
      match applyRows w reports (idx + 1) active with
      | none => none
      | some (w, active, retire) => some (w, req :: active, if retires then idx :: retire else retire)

/-- `active.swap_remove(idx)`, the row's pages dropped. -/
def removeRow (store : BlockStore H) (active : List (ActiveKimiRequest H)) (idx : Nat) :
    Option (BlockStore H × List (ActiveKimiRequest H)) :=
  match active[idx]? with
  | none => none
  | some req => some (req.kv.dropBlocks store, swapRemove active idx)

def removeRows (store : BlockStore H) (active : List (ActiveKimiRequest H)) : List Nat →
    Option (BlockStore H × List (ActiveKimiRequest H))
  | [] => some (store, active)
  | idx :: retire =>
    match removeRow store active idx with
    | none => none
    | some (store, active) => removeRows store active retire

/-- The decode loop, `fuel` rounds of it at most. -/
def decodeRounds : (fuel : Nat) → Wave H → List (ActiveKimiRequest H) → Option (Wave H)
  | _, w, [] => some w
  | 0, _, _ :: _ => none
  | fuel + 1, w, active@(_ :: _) =>
    match scheduleRows w.store active with
    | none => none
    | some (store, active, true) =>
      some (world.drainErrors { w with store }
        "Kimi-K2 decode KV block accounting violated full-lifetime reservation" active)
    | some (store, active, false) =>
      match active.mapM fun req => stepPageIndices req.kv 1 with
      | none => none
      | some kvRowPages =>
      match world.forward w.calls (.decodeBatch (active.map ActiveKimiRequest.lastToken)
        (active.map fun req => req.promptLen + req.completionTokens - 1) (active.map ActiveKimiRequest.slot)
        (active.map ActiveKimiRequest.decodeBatchSize).headI kvRowPages) with
      | none => some (world.drainErrors { w with store, calls := w.calls + 1 }
        "Kimi-K2 batch decode forward failed" active)
      | some reports =>
        match world.applyRows { w with store, calls := w.calls + 1 } reports 0 active with
        | none => none
        | some (w, active, retire) =>
          match removeRows w.store active retire.reverse with
          | none => none
          | some (store, active) => decodeRounds fuel { w with store } active

/-- `handle_request_batch`: the requests it defers. -/
def handleRequestBatch (w : Wave H) (reqs : List GenerateRequest) : Option (Wave H × List GenerateRequest) :=
  let admission := reqs.foldl (world.consider blockSize)
    { wave := w, budget := w.availableBlocks, prefillReqs := [], deferred := [] }
  let w := admission.wave
  if admission.prefillReqs = [] then some (w, admission.deferred)
  else
    let decodeBatchSize := admission.prefillReqs.length
    if (world.forward w.calls (.ensureDecodeBatch decodeBatchSize)).isNone then
      some (world.sendErrors { w with calls := w.calls + 1 }
        s!"Kimi-K2 decode arena allocation failed for batch size {decodeBatchSize}"
          admission.prefillReqs, admission.deferred)
    else
      match world.startRequests blockSize decodeBatchSize
        { w with calls := w.calls + 1 } 0 admission.prefillReqs [] [] with
      | none => none
      | some (w, active) =>
        match world.decodeRounds (admission.prefillReqs.map GenerateRequest.maxTokens).sum w active with
        | none => none
        | some w => some (w, admission.deferred)

end World

end PegaInfer.KimiK2
