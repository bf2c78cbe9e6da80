import PegaInfer.Basic

namespace PegaInfer.Glm52

/-- `GLM52_DSPARK_DRAFTS`: the draft block of eight less its anchor. -/
def dsparkDrafts : Nat := 7

/-- `accept_prefix_match`: the agreed draft prefix, then the target's token
at the first disagreement (or the bonus token when all drafts agree). -/
def acceptPrefixMatch (proposed targetTokens : List Token) : List Token :=
  let n := ((proposed.zip targetTokens).takeWhile fun pair => pair.1 == pair.2).length
  proposed.take n ++ (targetTokens[n]?).toList

structure SpecStats where
  rounds : Nat
  acceptedSum : Nat
  hist : List Nat
  deriving DecidableEq

def SpecStats.default : SpecStats := ⟨0, 0, List.replicate (dsparkDrafts + 1) 0⟩

def SpecStats.record (stats : SpecStats) (acceptedDrafts : Nat) : SpecStats :=
  { rounds := stats.rounds + 1
    acceptedSum := stats.acceptedSum + acceptedDrafts
    hist := stats.hist.modify (min acceptedDrafts dsparkDrafts) (· + 1) }

structure StepInput where
  token : Token
  position : Nat
  deriving DecidableEq

inductive StepOutcome
  | prefilling
  | commit (committed : List Token) (emit : Nat) (finish : Option FinishReason) (contextRows : Nat)
  deriving DecidableEq

/-- `Glm52SlotState`, field for field. -/
structure SlotState where
  prompt : List Token
  maxTokens : Nat
  ignoreEos : Bool
  fed : Nat
  completion : Nat
  samplingOffset : Nat
  lastToken : Token
  drafts : List Token
  spec : SpecStats
  deriving DecidableEq

namespace SlotState

def new (prompt : List Token) (maxTokens : Nat) (ignoreEos : Bool) (cachedTokens : Nat) : SlotState :=
  { prompt, maxTokens, ignoreEos, fed := cachedTokens, completion := 0, samplingOffset := 0, lastToken := 0,
    drafts := [], spec := SpecStats.default }

/-- `seed_native_pd_replayed_anchor`. The pop of an empty prompt is a panic. -/
def seedNativePdReplayedAnchor (state : SlotState) : Option SlotState :=
  (state.prompt.getLast?).map fun anchor =>
    { state with prompt := state.prompt.dropLast, lastToken := anchor, completion := 1 }

def midPrefill (state : SlotState) : Bool := decide (state.fed < state.prompt.length)

def remainingPrompt (state : SlotState) : Nat := state.prompt.length - state.fed

def feedWant (state : SlotState) : Nat :=
  if state.midPrefill then state.remainingPrompt
  else min (1 + state.drafts.length) (state.maxTokens - state.completion)

/-- `next_input_at`; an index past the prompt or the drafts is a panic. -/
def nextInputAt (state : SlotState) (offset : Nat) : Option StepInput :=
  if state.midPrefill then
    (state.prompt[state.fed + offset]?).map fun token => ⟨token, state.fed + offset⟩
  else
    let token := if offset = 0 then some state.lastToken else state.drafts[offset - 1]?
    token.map fun token => ⟨token, state.prompt.length + state.completion - 1 + offset⟩

def samplingRows (state : SlotState) (spanRows : Nat) : List (Nat × Nat) :=
  if state.midPrefill then
    if spanRows = state.remainingPrompt then [(spanRows - 1, state.samplingOffset + state.completion)] else []
  else (List.range spanRows).map fun k => (k, state.samplingOffset + state.completion + k)

def setDrafts (state : SlotState) (drafts : List Token) (spanDrafts : Nat) : SlotState :=
  { state with drafts := drafts.take spanDrafts }

/-- What the commit loop of `advance_span` carries from token to token. -/
structure CommitLoop where
  completion : Nat
  emit : Nat
  lastToken : Token
  finish : Option FinishReason
  deriving DecidableEq

/-- The `for &token in &committed` loop; both breaks end the recursion. -/
def commitLoop (maxTokens : Nat) (ignoreEos : Bool) (eosTokenIds : List Token) :
    List Token → CommitLoop → CommitLoop
  | [], loop => loop
  | token :: rest, loop =>
    if !ignoreEos && eosTokenIds.contains token then
      { loop with completion := loop.completion + 1, finish := some .stop }
    else if loop.completion + 1 ≥ maxTokens then
      ⟨loop.completion + 1, loop.emit + 1, token, some .length⟩
    else commitLoop maxTokens ignoreEos eosTokenIds rest
      ⟨loop.completion + 1, loop.emit + 1, token, loop.finish⟩

/-- The part of `advance_span` after the committed run is known: the drafts
are cleared, the loop runs and the run is cut to what the loop consumed. -/
def commitSpan (state : SlotState) (eosTokenIds committed : List Token) (contextRows : Nat) :
    SlotState × StepOutcome :=
  let loop := commitLoop state.maxTokens state.ignoreEos eosTokenIds committed
    ⟨state.completion, 0, state.lastToken, none⟩
  let consumed := loop.emit + if loop.finish = some .stop then 1 else 0
  ({ state with drafts := [], completion := loop.completion, lastToken := loop.lastToken },
    .commit (committed.take consumed) loop.emit loop.finish contextRows)

def advanceSpan (state : SlotState) (outputs eosTokenIds : List Token) : SlotState × StepOutcome :=
  if state.midPrefill then
    let fed := { state with fed := state.fed + outputs.length }
    if fed.midPrefill then (fed, .prefilling)
    else fed.commitSpan eosTokenIds outputs.getLast?.toList outputs.length
  else
    let draftsFed := outputs.length - 1
    let committed := acceptPrefixMatch (state.drafts.take draftsFed) outputs
    let recorded :=
      if draftsFed > 0 then { state with spec := state.spec.record (committed.length - 1) } else state
    recorded.commitSpan eosTokenIds committed committed.length

end SlotState

end PegaInfer.Glm52
