import PegaInfer.Lib.Autoregressive
import PegaInfer.Frontend.Update

namespace PegaInfer.Qwen3

open Frontend

/-- What the scheduler and the verify pass read of a request's sampler. -/
structure SamplingParams where
  greedy : Bool
  ignoreEos : Bool
  deriving DecidableEq

/-- A verify span: the confirmed last token, then the drafts. -/
structure VerifyStepItem where
  requestId : RequestId
  tokenIds : List Token
  params : SamplingParams
  deriving DecidableEq

structure VerifyRequestResult where
  requestId : RequestId
  matchedDraftTokens : Nat
  acceptedTokens : List Token
  deriving DecidableEq

/-- Leading drafts that are the target's own picks. -/
def numAccepted : (proposed targetTokens : List Token) → Nat
  | draft :: proposed, target :: targetTokens =>
    if draft = target then numAccepted proposed targetTokens + 1 else 0
  | _, _ => 0

def acceptPrefixMatch (proposed targetTokens : List Token) : List Token :=
  let n := numAccepted proposed targetTokens
  proposed.take n ++ (targetTokens[n]?).toList

/-- `build_verify_results` from the request at `offset` on. -/
def buildVerifyResults (offset : Nat) : List VerifyStepItem → (targetTokens : List Token) →
    Except String (List VerifyRequestResult)
  | [], targetTokens =>
    if targetTokens.isEmpty then .ok []
    else .error (s!"unused speculative target-token result columns: used {offset}, total " ++
      s!"{offset + targetTokens.length}")
  | request :: requests, targetTokens =>
    let spanLen := request.tokenIds.length
    if spanLen = 0 then .error s!"speculative verify request {request.requestId} has an empty verify span"
    else if targetTokens.length < spanLen then
      .error "speculative target-token result is shorter than the verify span"
    else do
      let acceptedTokens := acceptPrefixMatch request.tokenIds.tail (targetTokens.take spanLen)
      let rest ← buildVerifyResults (offset + spanLen) requests (targetTokens.drop spanLen)
      return { requestId := request.requestId, matchedDraftTokens := acceptedTokens.length - 1,
               acceptedTokens } :: rest

/-- What a hedged verify finds: the chains the draft lane has kept for a request, the
pages a request's span takes, and the bounds on batch and scratch pages. -/
structure HedgeLane where
  cap : Nat
  usesMarkovHead : Bool
  draftsStart : Nat
  maxBatch : Nat
  pagesPerChain : Nat
  scratchPages : Nat
  spanPages : RequestId → Nat
  hedgeBlocks : RequestId → Option (List (List Token))

/-- A chain cut to the span of the request, behind its confirmed token. -/
def HedgeLane.chain (lane : HedgeLane) (request : VerifyStepItem) (block : List Token) : List Token :=
  request.tokenIds.take 1 ++ (block.drop lane.draftsStart).take (request.tokenIds.length - 1)

/-- The chains of one request that get a span, `expanded` spans and `scratch` pages
being taken. -/
def HedgeLane.chains (lane : HedgeLane) (request : VerifyStepItem) :
    List (List Token) → (expanded scratch : Nat) → (added : List (List Token)) → List (List Token)
  | [], _, _, added => added
  | block :: blocks, expanded, scratch, added =>
    if expanded = lane.maxBatch ∨ lane.scratchPages < scratch + lane.spanPages request.requestId then added
    else
      let ids := lane.chain request block
      if ids.length ≠ request.tokenIds.length ∨ ids.tail = request.tokenIds.tail ∨
        added.any (·.tail = ids.tail) then
        lane.chains request blocks expanded scratch added
      else lane.chains request blocks (expanded + 1)
        (scratch + lane.spanPages request.requestId) (added ++ [ids])

/-- The hedge spans behind the requests' own, each with the index of its request. -/
def HedgeLane.hedgeSpans (lane : HedgeLane) :
    (index : Nat) → List VerifyStepItem → (hedged expanded scratch : Nat) →
    List (Nat × VerifyStepItem)
  | _, [], _, _, _ => []
  | index, request :: requests, hedged, expanded, scratch =>
    if hedged = lane.cap then []
    else
      match lane.hedgeBlocks request.requestId with
      | none => lane.hedgeSpans (index + 1) requests hedged expanded scratch
      | some blocks =>
        if !request.params.greedy || request.tokenIds.length < 2 || lane.pagesPerChain <
          lane.spanPages request.requestId then
          lane.hedgeSpans (index + 1) requests hedged expanded scratch
        else
          let added := lane.chains request blocks expanded scratch []
          added.map (fun ids => (index, { request with tokenIds := ids })) ++
            lane.hedgeSpans (index + 1) requests (hedged + if added.isEmpty then 0 else 1)
              (expanded + added.length)
              (scratch + added.length * lane.spanPages request.requestId)

/-- The winner of each request: the chain the target accepts further, the first of
them on a tie. -/
def selectWinners (results : List VerifyRequestResult) :
    List (Nat × VerifyRequestResult) → List VerifyRequestResult
  | [] => results
  | (index, chain) :: chains =>
    if (results[index]?).any fun winner => winner.acceptedTokens.length < chain.acceptedTokens.length then
      selectWinners (results.set index chain) chains
    else selectWinners results chains

section

variable (target : RequestId → List Token → List Token)

/-- The verify pass: `target` picks the committed tokens for a span of a request. -/
def verifySpans (requests : List VerifyStepItem) : Except String (List VerifyRequestResult) :=
  buildVerifyResults 0 requests (requests.flatMap fun request => target request.requestId request.tokenIds)

/-- `try_execute_hedged_verify`, and the plain pass where nothing is hedged. -/
def executeVerify (lane : HedgeLane) (requests : List VerifyStepItem) :
    Except String (List VerifyRequestResult) :=
  let spans :=
    if lane.cap = 0 ∨ lane.scratchPages = 0 ∨ lane.usesMarkovHead = false then []
    else lane.hedgeSpans 0 requests 0 requests.length 0
  if spans.isEmpty then verifySpans target requests
  else do
    let all ← verifySpans target (requests ++ spans.map (·.2))
    return selectWinners (all.take requests.length) ((spans.map (·.1)).zip (all.drop requests.length))

end

end PegaInfer.Qwen3
