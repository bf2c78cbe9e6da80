import PegaInfer.Frontend.Life

namespace PegaInfer.Frontend

/-- Where the driver thread is: between two steps, inside `Scheduler::step`,
past the ledger's drop, or gone with its submission receiver. -/
inductive Phase
  | between
  | stepping
  | ledgerDown
  | gone
  deriving DecidableEq

/-- One scheduler's wiring: the submission channel, the ledger, the finishes
handed out and the step stream, in the order its messages were sent.
`retired` remembers which requests the scheduler retired. -/
structure Engine where
  nextId : RequestId
  aborted : RequestId → Bool
  channel : List Envelope
  ledger : RequestLedger
  deferred : List RequestUpdate
  retired : List RequestId
  stream : List StepOutputs
  phase : Phase

namespace Engine

/-- `scheduler_pair`. -/
def start : Engine :=
  { nextId := 0, aborted := fun _ => false, channel := [], ledger := .new, deferred := [], retired := [],
    stream := [], phase := .between }

/-- `SchedulerHandle::submit`. A channel without receiver hands the envelope
back and its drop answers it. -/
def submit (engine : Engine) (promptLen : Nat) (now : Instant) : Engine :=
  let envelope : Envelope := ⟨engine.nextId, promptLen, now⟩
  if engine.phase = .gone then
    { engine with nextId := engine.nextId + 1, stream := engine.stream ++ [⟨[envelope.bomb]⟩] }
  else { engine with nextId := engine.nextId + 1, channel := engine.channel ++ [envelope] }

def commitStep (engine : Engine) : Engine :=
  { engine with ledger := engine.ledger.commitStep.1, stream := engine.stream ++ engine.ledger.commitStep.2 }

/-- The ledger falls: its sweep is sent and the map is empty. -/
def dropLedger (engine : Engine) (order : List RequestId) : Engine :=
  { engine with
    ledger := .new
    stream := engine.stream ++ engine.ledger.drop order
    phase := .ledgerDown }

/-- The submission receiver falls and every envelope left in it goes off. -/
def dropSubmissions (engine : Engine) : Engine :=
  { engine with
    channel := []
    stream := engine.stream ++ engine.channel.map fun envelope => ⟨[envelope.bomb]⟩
    phase := .gone }

/-- The requests a returning call retires. -/
def retiredBy : LedgerCall → List RequestId
  | .retire id => [id]
  | _ => []

def afterCall (engine : Engine) (call : LedgerCall) (ledger : RequestLedger)
    (deferred : Option RequestUpdate) :
    Engine :=
  { engine with
    ledger
    deferred := engine.deferred ++ deferred.toList
    retired := engine.retired ++ retiredBy call }

end Engine

/-- What other threads may do at any moment: the frontend submits and aborts,
and whoever holds a finish sends or drops it. -/
inductive OutsideStep : Engine → Engine → Prop
  | submit {engine} (promptLen : Nat) (now : Instant) : OutsideStep engine (engine.submit promptLen now)
  | abort {engine} (id : RequestId) :
      OutsideStep engine { engine with aborted := Function.update engine.aborted id true }
  | send {engine} (before : List RequestUpdate) (update : RequestUpdate) (after : List RequestUpdate) :
      engine.deferred = before ++ update :: after →
      OutsideStep engine { engine with deferred := before ++ after, stream := engine.stream ++ [⟨[update]⟩] }
  | drop {engine} (before : List RequestUpdate) (update : RequestUpdate) (after : List RequestUpdate) :
      engine.deferred = before ++ update :: after →
      OutsideStep engine
        { engine with deferred := before ++ after, stream := engine.stream ++ [⟨[dropDeferred update]⟩] }

/-- One step of the whole engine. The driver registers until the channel is
empty, steps, and commits; a fatal step error also fails every open account
before the driver returns. -/
inductive DriverStep : Engine → Engine → Prop
  | outside {engine next} : OutsideStep engine next → DriverStep engine next
  | register {engine envelope rest ledger} : engine.phase = .between → engine.channel = envelope :: rest →
      engine.ledger.register envelope = .returned ledger none →
      DriverStep engine { engine with channel := rest, ledger }
  | step {engine} : engine.phase = .between → engine.channel = [] →
      DriverStep engine { engine with phase := .stepping }
  | call {engine ledger deferred} (call : LedgerCall) : engine.phase = .stepping →
      engine.ledger.call call = .returned ledger deferred →
      DriverStep engine (engine.afterCall call ledger deferred)
  | commit {engine} : engine.phase = .stepping →
      DriverStep engine { engine.commitStep with phase := .between }
  | fatal {engine ledger} (message : String) (order rest : List RequestId) : engine.phase = .stepping →
      engine.commitStep.ledger.Enumerates order →
      engine.commitStep.ledger.failAll message order = .returned ledger none → ledger.Enumerates rest →
      DriverStep engine ({ engine.commitStep with ledger }.commitStep.dropLedger rest)
  | teardown {engine} (order : List RequestId) : engine.phase = .between → engine.ledger.Enumerates order →
      DriverStep engine (engine.dropLedger order)
  | close {engine} : engine.phase = .ledgerDown → DriverStep engine engine.dropSubmissions

inductive DriverReach : Engine → Prop
  | start : DriverReach .start
  | next {engine next} : DriverReach engine → DriverStep engine next → DriverReach next

end PegaInfer.Frontend
