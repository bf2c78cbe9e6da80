import PegaInfer.Qwen3.Scheduler

namespace PegaInfer.Qwen3

open Frontend

/-- A request as it was submitted, with the length of the history and the number of
pending commands at that moment. -/
structure Submission where
  req : PendingRequest
  since : Nat
  ahead : Nat
  deriving DecidableEq

def Submission.id (submission : Submission) : RequestId := submission.req.requestId

/-- The request an event is about; a command is about none. -/
def Event.about : Event → Option RequestId
  | .called call => some call.id
  | .dropped id | .offered id | .validated id | .ran id => some id
  | .applied _ => none

/-- What a request has to do with: the events about it, and every command. -/
def Event.concerns (id : RequestId) (event : Event) : Bool := event.about.all (· = id)

def Event.isApplied : Event → Bool
  | .applied _ => true
  | _ => false

def LedgerCall.tokens : LedgerCall → List Token
  | .pushTokens _ ids _ => ids
  | _ => []

/-- The tokens an event emits. -/
def Event.tokens : Event → List Token
  | .called call => LedgerCall.tokens call
  | _ => []

def pushedBy (events : List Event) : List Token := events.flatMap Event.tokens

/-- The history of a request since its submission. -/
def Submission.history (submission : Submission) (events : List Event) : List Event :=
  (events.drop submission.since).filter (·.concerns submission.id)

@[simp]
theorem pushedBy_nil : pushedBy [] = [] := rfl

@[simp]
theorem pushedBy_append (one two : List Event) : pushedBy (one ++ two) = pushedBy one ++ pushedBy two := by
  simp [pushedBy]

@[simp]
theorem pushedBy_cons (event : Event) (events : List Event) :
    pushedBy (event :: events) = event.tokens ++ pushedBy events := by
  simp [pushedBy]

theorem Submission.history_append (submission : Submission) {events : List Event} (new : List Event)
    (past : submission.since ≤ events.length) :
    submission.history (events ++ new) = submission.history events ++
      new.filter (·.concerns submission.id) := by
  rw [history, history, List.drop_append_of_le_length past, List.filter_append]

theorem filter_concerns_self {id : RequestId} {events : List Event}
    (about : ∀ event ∈ events, event.about = some id) :
    events.filter (·.concerns id) = events := by
  rw [List.filter_eq_self]
  intro event member
  simp [Event.concerns, about event member]

theorem filter_concerns_other {id other : RequestId} {events : List Event}
    (about : ∀ event ∈ events, event.about = some id)
    (apart : other ≠ id) : events.filter (·.concerns other) = [] := by
  rw [List.filter_eq_nil_iff]
  intro event member
  simp [Event.concerns, about event member, apart.symm]

/-- How a decode effect ends its request, if it does. -/
def DecodeEffect.reason : DecodeEffect → Option FinishReason
  | .finish _ reason | .emitAndFinish _ _ _ reason | .emitManyAndFinish _ _ reason => some reason
  | .emitAndContinue _ _ _ _ | .emitManyAndContinue _ _ _ => none

/-- The push a decode effect makes. -/
def DecodeEffect.push : DecodeEffect → Option LedgerCall
  | .finish _ _ => none
  | .emitAndFinish id token logprob _ | .emitAndContinue id token logprob _ =>
    some (.pushTokens id [token] [logprob])
  | .emitManyAndContinue id tokens _ | .emitManyAndFinish id tokens _ => some (.pushTokens id tokens [])

/-- The tokens an effect emits. -/
def DecodeEffect.emits (effect : DecodeEffect) : List Token := effect.push.elim [] LedgerCall.tokens

/-- What a decode effect makes of a request that goes on. -/
def DecodeEffect.advance : DecodeEffect → ActiveRequestState → ActiveRequestState
  | .emitAndContinue _ token _ completionTokens, req =>
    { req with lastToken := token, generatedCount := completionTokens }
  | .emitManyAndContinue _ tokens completionTokens, req =>
    match tokens.getLast? with
    | none => req
    | some last => { req with lastToken := last, generatedCount := completionTokens }
  | _, req => req

@[simp]
theorem DecodeEffect.advance_requestId (effect : DecodeEffect) (req : ActiveRequestState) :
    (effect.advance req).requestId = req.requestId := by
  cases effect with
  | emitManyAndContinue id tokens completionTokens =>
    simp only [advance]
    split <;> rfl
  | _ => rfl

/-- Where a request stands. `finishing` is the end of a request whose finish is still
to be resolved at the end of the step. -/
inductive Stage
  | held
  | waiting
  | filling
  | decoding (req : ActiveRequestState)
  | finishing (reason : FinishReason)
  | closed

/-- A request on the executor. -/
def Stage.isRunning : Stage → Bool
  | .filling | .decoding _ => true
  | _ => false

/-- The events a request may see without moving on. -/
def Stage.notes : Stage → Event → Bool
  | .waiting, .offered _ | .waiting, .validated _ => true
  | .filling, .ran _ | .decoding _, .ran _ => true
  | .filling, .called (.setCachedTokens _ _) | .filling, .called (.echoPrompt _ _) => true
  | _, _ => false

/-- What is known of the executor's answers. `prefills` and `decodes` say which first
tokens and which effects a request may see, `parked` whether a command may be applied
while a request is under way, and `spares` whether no request is lost. -/
structure Telling where
  isStopToken : Token → Bool
  prefills : PendingRequest → Token → Prop
  decodes : PendingRequest → List Token → ActiveRequestState → DecodeEffect → Prop
  parked : Prop
  spares : Prop

/-- Where a request may stand when a command is applied. -/
def Telling.quiet (telling : Telling) : Stage → Prop
  | .held | .closed => True
  | _ => telling.parked

/-- Everything that can happen to one request, from its submission on. -/
inductive Life (telling : Telling) (submission : Submission) : List Event → Stage → Prop
  | held : submission.ahead ≠ 0 → Life telling submission [] .held
  | waiting : submission.ahead = 0 → Life telling submission [] .waiting
  | released {events} : Life telling submission events .held →
      submission.ahead ≤ events.countP Event.isApplied →
      Life telling submission events .waiting
  | applied {events stage} (control : LoraControl) :
      Life telling submission events stage → telling.quiet stage →
      Life telling submission (events ++ [.applied control]) stage
  | noted {events stage} (event : Event) : Life telling submission events stage → stage.notes event = true →
      event.about = some submission.id → Life telling submission (events ++ [event]) stage
  | rejected {events} (reason : RejectReason) : Life telling submission events .waiting →
      Life telling submission
        (events ++ [.called (.reject submission.id reason), .dropped submission.id]) .closed
  | retired {events stage} : Life telling submission events stage →
      stage = .waiting ∨ stage.isRunning = true →
      Life telling submission (events ++ [.called (.retire submission.id), .dropped submission.id]) .closed
  | admitted {events} (now : Instant) : Life telling submission events .waiting →
      Life telling submission (events ++ [.called (.admitRequest submission.id now)]) .filling
  | filledOut {events id reason} (result : PrefillRequestResult) : Life telling submission events .filling →
      telling.prefills submission.req result.firstToken → result.completed = true →
      resolvePrefilled telling.isStopToken submission.req result = .finish id reason →
      Life telling submission (events ++ [.dropped submission.id]) (.finishing reason)
  | filledLast {events id token logprob reason} (result : PrefillRequestResult) :
      Life telling submission events .filling →
      telling.prefills submission.req result.firstToken → result.completed = true →
      resolvePrefilled telling.isStopToken submission.req result = .emitAndFinish id token logprob reason →
      Life telling submission
        (events ++ [.called (.pushTokens submission.id [token] [logprob]), .dropped submission.id])
        (.finishing reason)
  | promoted {events req token logprob} (result : PrefillRequestResult) :
      Life telling submission events .filling →
      telling.prefills submission.req result.firstToken → result.completed = true →
      resolvePrefilled telling.isStopToken submission.req result = .promote req token logprob →
      Life telling submission (events ++ [.called (.pushTokens submission.id [token] [logprob])])
        (.decoding req)
  | decodedOn {events req call} (effect : DecodeEffect) : Life telling submission events (.decoding req) →
      telling.decodes submission.req (pushedBy events) req effect → effect.requestId = submission.id →
      effect.reason = none → effect.push = some call →
      Life telling submission (events ++ [.called call]) (.decoding (effect.advance req))
  | decodedLast {events req reason} (effect : DecodeEffect) : Life telling submission events (.decoding req) →
      telling.decodes submission.req (pushedBy events) req effect → effect.requestId = submission.id →
      effect.reason = some reason →
      Life telling submission
        (events ++ (effect.push.toList.map .called ++ [.dropped submission.id])) (.finishing reason)
  | finished {events reason} : Life telling submission events (.finishing reason) →
      Life telling submission (events ++ [.called (.finish submission.id reason)]) .closed
  | deferred {events reason} : Life telling submission events (.finishing reason) →
      Life telling submission (events ++ [.called (.deferFinish submission.id reason)]) .closed
  | failed {events stage} (message : String) : Life telling submission events stage → stage.isRunning = true →
      Life telling submission
        (events ++ [.called (.fail submission.id message), .dropped submission.id]) .closed

end PegaInfer.Qwen3
