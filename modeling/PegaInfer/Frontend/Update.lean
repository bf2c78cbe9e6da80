import PegaInfer.Basic

namespace PegaInfer.Frontend

/-- `RequestId`, minted from a per-scheduler counter. -/
abbrev RequestId := Nat

/-- A monotonic `Instant`, in clock ticks. -/
abbrev Instant := Nat

/-- `TokenLogprob`; an `f32` is kept as its bits. -/
structure TokenLogprob where
  logprob : UInt32
  topLogprobs : List (Token × UInt32)
  deriving DecidableEq

structure ScheduledInfo where
  queuedAt : Instant
  scheduledAt : Instant
  promptTokens : Nat
  deriving DecidableEq

structure PromptEcho where
  ids : List Token
  logprobs : List (Option TokenLogprob)
  deriving DecidableEq

inductive RejectReason
  | contextLength (promptTokens maxTokens limit : Nat)
  | echoPrefillTokens (promptTokens limit : Nat)
  | kvBudget (promptTokens worstCaseTokens : Nat)
  | unknownLoraAdapter (name : String)
  | unsupported (feature : String)
  deriving DecidableEq

inductive Terminal
  | finished (reason : FinishReason) (promptTokens completionTokens : Nat)
  | rejected (reason : RejectReason) (promptTokens : Nat)
  | failed (message : String) (promptTokens completionTokens : Nat)
  deriving DecidableEq

/-- The tokens a terminal reports; a rejected request never produced any. -/
def Terminal.completionTokens : Terminal → Nat
  | .finished _ _ completionTokens => completionTokens
  | .rejected _ _ => 0
  | .failed _ _ completionTokens => completionTokens

/-- `RequestUpdate`; the opaque hand-off metadata is its serialised text. -/
structure RequestUpdate where
  id : RequestId
  scheduled : Option ScheduledInfo
  tokens : List Token
  logprobs : List (Option TokenLogprob)
  cachedTokens : Option Nat
  promptEcho : Option PromptEcho
  kvTransfer : Option String
  terminal : Option Terminal
  deriving DecidableEq

namespace RequestUpdate

def empty (id : RequestId) : RequestUpdate :=
  { id, scheduled := none, tokens := [], logprobs := [], cachedTokens := none, promptEcho := none,
    kvTransfer := none, terminal := none }

def isVacant (update : RequestUpdate) : Bool :=
  update.scheduled.isNone && update.tokens.isEmpty && update.cachedTokens.isNone &&
    update.promptEcho.isNone &&
    update.kvTransfer.isNone && update.terminal.isNone

theorem tokens_of_isVacant {update : RequestUpdate} (vacant : update.isVacant = true) :
    update.tokens = [] := by
  simp only [isVacant, Bool.and_eq_true] at vacant
  exact List.isEmpty_iff.mp vacant.1.1.1.1.2

theorem not_isVacant_of_terminal {update : RequestUpdate} {terminal : Terminal}
    (ends : update.terminal = some terminal) : update.isVacant = false := by
  simp [isVacant, ends]

end RequestUpdate

/-- One message of the step stream. -/
structure StepOutputs where
  updates : List RequestUpdate
  deriving DecidableEq

end PegaInfer.Frontend
