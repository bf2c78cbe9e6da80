import PegaInfer.Gemma4.Scheduler

namespace PegaInfer.Gemma4

open Frontend (RequestId LedgerCall)

namespace Sched

/-- Only the ledger, the pools, the clock and the error on its way have moved. -/
structure Aside (s later : Sched) : Prop where
  cache : later.cache = s.cache
  steady : later.steady = s.steady
  tables : later.tables = s.tables
  ids : later.ids = s.ids
  staged : later.staged = s.staged
  pipeline : later.pipeline = s.pipeline
  inflight : later.inflight = s.inflight
  door : later.door = s.door
  pending : later.pending = s.pending
  newcomers : later.newcomers = s.newcomers
  active : later.active = s.active
  walk : later.walk = s.walk
  submitted : later.submitted = s.submitted
  launches : later.launches = s.launches
  mixedRows : later.mixedRows = s.mixedRows

namespace Aside

variable {s middle later : Sched}

theorem refl (s : Sched) : Aside s s := by constructor <;> rfl

theorem trans (first : Aside s middle) (second : Aside middle later) : Aside s later where
  cache := second.cache.trans first.cache
  steady := second.steady.trans first.steady
  tables := second.tables.trans first.tables
  ids := second.ids.trans first.ids
  staged := second.staged.trans first.staged
  pipeline := second.pipeline.trans first.pipeline
  inflight := second.inflight.trans first.inflight
  door := second.door.trans first.door
  pending := second.pending.trans first.pending
  newcomers := second.newcomers.trans first.newcomers
  active := second.active.trans first.active
  walk := second.walk.trans first.walk
  submitted := second.submitted.trans first.submitted
  launches := second.launches.trans first.launches
  mixedRows := second.mixedRows.trans first.mixedRows

theorem halt (s : Sched) (why : Halt) : Aside s (s.halt why) := by constructor <;> rfl

theorem refuse (s : Sched) (refusal : Refusal) : Aside s (s.refuse refusal) := by constructor <;> rfl

theorem pools (s : Sched) (pools : Pools) : Aside s { s with pools } := by constructor <;> rfl

theorem dropSeat (s : Sched) (seat : Seat) : Aside s (s.dropSeat seat) := by constructor <;> rfl

theorem tell (s : Sched) (call : LedgerCall) : Aside s (s.tell call) := by
  unfold Sched.tell
  split <;> constructor <;> rfl

theorem isAborted (world : World) (s : Sched) (id : RequestId) : Aside s (s.isAborted world id).2 := by
  unfold Sched.isAborted
  split <;> constructor <;> rfl

theorem requireOpen (s : Sched) (ids : List RequestId) : Aside s (s.requireOpen ids) := by
  unfold Sched.requireOpen
  split
  · exact refl s
  · exact halt s _

theorem failIfActive (s : Sched) (id : RequestId) (message : String) :
    Aside s (s.failIfActive id message) := by
  unfold Sched.failIfActive
  split
  · exact tell s _
  · exact refl s

theorem next (s : Sched) {rest : Sched → Sched} (goesOn : Aside s (rest s)) : Aside s (s.next rest) := by
  unfold Sched.next
  split
  · exact refl s
  · exact goesOn

theorem foldl {α : Type} {step : Sched → α → Sched} (one : ∀ s x, Aside s (step s x))
    (items : List α) (s : Sched) :
    Aside s (items.foldl step s) := by
  induction items generalizing s with
  | nil => exact refl s
  | cons item items ih => exact (one s item).trans (ih _)

theorem deliverDecodeRow (world : World) (s : Sched) (entry : Active) (token : Sample) :
    Aside s (s.deliverDecodeRow world entry token).2.2 := by
  unfold Sched.deliverDecodeRow
  dsimp only
  split
  · exact (isAborted world s _).trans (tell _ _)
  · split
    · exact (isAborted world s _).trans (tell _ _)
    · have pushed := (isAborted world s entry.seat.request.id).trans
        (tell _ (.pushTokens entry.seat.request.id [token.id] [token.logprob]))
      split
      · exact pushed.trans (tell _ _)
      · exact pushed

theorem settleStagedRows (world : World) (rows : List Active) (tokens : List Token) (s : Sched) :
    Aside s (Sched.settleStagedRows world rows tokens s).2 := by
  induction rows generalizing tokens s with
  | nil => exact refl s
  | cons entry rest ih =>
    unfold Sched.settleStagedRows
    dsimp only
    split
    · exact ih _ _
    · exact (deliverDecodeRow world s entry _).trans (ih _ _)

theorem deliverRows (world : World) (rows : List Active) (samples : List Sample) (s : Sched) :
    Aside s (Sched.deliverRows world rows samples s).2 := by
  induction rows generalizing samples s with
  | nil => exact refl s
  | cons entry rest ih =>
    cases samples with
    | nil => exact refl s
    | cons token samples => exact (deliverDecodeRow world s entry token).trans (ih _ _)

theorem pinRows (world : World) (rows : List Active) (s : Sched) :
    Aside s (Sched.pinRows world rows s).2.2 := by
  induction rows generalizing s with
  | nil => exact refl s
  | cons entry rest ih =>
    unfold Sched.pinRows
    dsimp only
    split
    · exact isAborted world s _
    · split
      · exact ((isAborted world s _).trans (pools _ _)).trans (refuse _ _)
      · exact ((isAborted world s _).trans (pools _ _)).trans (ih _)

theorem sendScheduled (world : World) (s : Sched) (id : RequestId) (cachedTokens : Nat) :
    Aside s (s.sendScheduled world id cachedTokens) := by
  unfold Sched.sendScheduled
  dsimp only
  split
  · exact (tell s _).trans (next _ (tell _ _))
  · exact tell s _

theorem retireWalkers (world : World) (walkers : List Walker) (s : Sched) :
    Aside s (Sched.retireWalkers world walkers s).2 := by
  induction walkers generalizing s with
  | nil => exact refl s
  | cons walker rest ih =>
    unfold Sched.retireWalkers
    dsimp only
    split
    · exact ih s
    · split
      · exact ((isAborted world s _).trans (tell _ _)).trans (ih _)
      · exact (isAborted world s _).trans (ih _)

theorem takeSegments (budget : Nat) (walkers : List Walker) (s : Sched) :
    Aside s (Sched.takeSegments budget walkers s).2 := by
  induction walkers generalizing budget s with
  | nil => exact refl s
  | cons walker rest ih =>
    unfold Sched.takeSegments
    dsimp only
    split
    · exact ih _ _
    · split
      · exact (((pools s _).trans (refuse _ _)).trans (tell _ _)).trans (ih _ _)
      · exact (pools s _).trans (ih _ _)

theorem failWalkers (s : Sched) (walkers : List Walker) : Aside s (s.failWalkers walkers) := by
  unfold Sched.failWalkers
  exact foldl (fun s walker => (failIfActive s walker.seat.request.id _).trans
    (dropSeat _ walker.seat)) walkers s

end Aside

end Sched

end PegaInfer.Gemma4
