import PegaInfer.Frontend.TerminalOnce

namespace PegaInfer.Frontend

open Relation

/-- The calls that take the request's record out of the statement with it. -/
def LedgerCall.leaves : LedgerCall → Bool
  | .retire _ | .deferFinish _ _ => true
  | _ => false

/-- The calls that close the account before they assert its state. -/
def LedgerCall.closesFirst : LedgerCall → Bool
  | .reject _ _ | .finish _ _ | .deferFinish _ _ => true
  | _ => false

/-- The inside of one step, up to any point: the ledger calls made so far, with
other threads going on around them. -/
inductive MidStep (start : Engine) : List LedgerCall → Engine → Prop
  | begin : MidStep start [] start
  | call {calls engine ledger handed} (call : LedgerCall) : MidStep start calls engine →
      engine.ledger.call call = .returned ledger handed →
      MidStep start (calls ++ [call]) (engine.afterCall call ledger handed)
  | outside {calls engine next} : MidStep start calls engine → OutsideStep engine next →
      MidStep start calls next

/-- Where the panic hits: in the scheduler's own code, or inside a ledger call
that finds its assertion broken. -/
inductive CutShort (engine : Engine) : Option LedgerCall → Engine → Prop
  | between : CutShort engine none engine
  | inside {ledger} (call : LedgerCall) : engine.ledger.call call = .panicked ledger →
      CutShort engine (some call) { engine with ledger }

/-- A step that never reaches `commit_step`. It begins with every submission
registered, makes some calls, panics, and the ledger is dropped unwinding; the
run then goes on until every finish handed out was sent or dropped. -/
def TornDown (start : Engine) (calls : List LedgerCall) (cut : Option LedgerCall) (final : Engine) : Prop :=
  ∃ idle middle broken order, DriverReach idle ∧ idle.phase = .between ∧ idle.channel = [] ∧
    start = { idle with phase := .stepping } ∧ MidStep start calls middle ∧ CutShort middle cut broken ∧
    broken.ledger.Enumerates order ∧ ReflTransGen DriverStep (broken.dropLedger order) final ∧
    final.phase = .gone ∧ final.deferred = []

/-- One terminal, which reports exactly the tokens that were shipped. -/
def AnsweredOnce (final : Engine) (id : RequestId) : Prop :=
  ((final.shipped id).filter fun update => update.terminal.isSome).length = 1 ∧
    ∀ update ∈ final.shipped id, ∀ terminal, update.terminal = some terminal →
      terminal.completionTokens = shippedTokens (final.shipped id)

/-- Every registered request that was not retired and whose terminal was not
yet sent when the step began is answered. -/
def EveryoneAnswered (start final : Engine) : Prop :=
  ∀ id < start.nextId, id ∉ final.retired → Quiet (start.shipped id) → AnsweredOnce final id

/-- What the step may have done to one request for it to be answered: no
buffered terminal, no buffered tokens left behind, no account closed by the
panicking call itself. -/
structure Salvageable (start : Engine) (calls : List LedgerCall) (cut : Option LedgerCall)
    (id : RequestId) : Prop where
  unsettled : ∀ call ∈ calls, call.id = id → call.settles = false
  unpushed : ∀ call ∈ calls, call.id = id → 0 < call.pushed →
    ∃ other ∈ calls, other.id = id ∧ other.leaves = true
  unbroken : ∀ call, cut = some call → call.id = id → call.closesFirst = true →
    (start.ledger.accounts id).isSome → ∃ other ∈ calls, other.id = id ∧ other.leaves = true

/-- How the calls of the step explain what the ledger has for a request. -/
def Tracks (start : Engine) (calls : List LedgerCall) (id : RequestId) :
    Option Account → Option RequestUpdate → Prop
  | some _, record => (start.ledger.accounts id).isSome ∧
      (∀ call ∈ calls, call.id = id → call.settles = false ∧ call.leaves = false) ∧
      (shippedTokens record.toList = 0 ↔ ∀ call ∈ calls, call.id = id → call.pushed = 0)
  | none, some _ => (start.ledger.accounts id).isSome ∧ ∃ call ∈ calls, call.id = id ∧ call.settles = true
  | none, none => (∀ call ∈ calls, call.id = id → call.settles = false) ∧
      ((start.ledger.accounts id).isSome ∨ (∃ call ∈ calls, call.id = id) →
        ∃ call ∈ calls, call.id = id ∧ call.leaves = true)

theorem LedgerCall.writes_stays {call : LedgerCall} (writes : call.writes = true) :
    call.settles = false ∧ call.leaves = false := by
  cases call <;> first | exact ⟨rfl, rfl⟩ | cases writes

/-- A call on another request changes nothing of the explanation. -/
theorem Tracks.other {start : Engine} {calls : List LedgerCall} {id : RequestId} {account : Option Account}
    {record : Option RequestUpdate} {call : LedgerCall} (tracks : Tracks start calls id account record)
    (apart : call.id ≠ id) : Tracks start (calls ++ [call]) id account record := by
  have all : ∀ claim : LedgerCall → Prop, (∀ other ∈ calls ++ [call], other.id = id → claim other) ↔
      ∀ other ∈ calls, other.id = id → claim other := by
    intro claim
    refine ⟨fun every other member => every other (List.mem_append_left _ member),
      fun every other member named => ?_⟩
    rcases List.mem_append.mp member with inside | last
    · exact every other inside named
    · cases List.mem_singleton.mp last
      exact absurd named apart
  have any : ∀ claim : LedgerCall → Prop, (∃ other ∈ calls ++ [call], other.id = id ∧ claim other) ↔
      ∃ other ∈ calls, other.id = id ∧ claim other := by
    intro claim
    constructor
    · rintro ⟨other, member, named, holds⟩
      rcases List.mem_append.mp member with inside | last
      · exact ⟨other, inside, named, holds⟩
      · cases List.mem_singleton.mp last
        exact absurd named apart
    · rintro ⟨other, inside, named, holds⟩
      exact ⟨other, List.mem_append_left _ inside, named, holds⟩
  match account, record with
  | some _, _ => exact ⟨tracks.1, (all _).mpr tracks.2.1, tracks.2.2.trans (all _).symm⟩
  | none, some _ => exact ⟨tracks.1, (any _).mpr tracks.2⟩
  | none, none =>
    refine ⟨(all _).mpr tracks.1, fun touched => (any _).mpr (tracks.2 (touched.imp_right ?_))⟩
    rintro ⟨other, member, named⟩
    obtain ⟨found, inside, named', _⟩ := (any fun _ => True).mp ⟨other, member, named, trivial⟩
    exact ⟨found, inside, named'⟩

/-- A returning call on the request itself extends the explanation. -/
theorem CallEffect.tracks {start : Engine} {calls : List LedgerCall} {id : RequestId} {account : Account}
    {record : Option RequestUpdate} {call : LedgerCall} {account' : Option Account}
    {record' handed : Option RequestUpdate}
    (effect : CallEffect id account record call account' record' handed)
    (mine : call.id = id) (tracks : Tracks start calls id (some account) record) :
    Tracks start (calls ++ [call]) id account' record' := by
  obtain ⟨opened, stayed, tokens⟩ := tracks
  have last : call ∈ calls ++ [call] := by simp
  have stays : call.settles = false ∧ call.leaves = false →
      ∀ other ∈ calls ++ [call], other.id = id → other.settles = false ∧ other.leaves = false := by
    intro final other member named
    rcases List.mem_append.mp member with inside | isLast
    · exact stayed other inside named
    · cases List.mem_singleton.mp isLast
      exact final
  have pushes : ∀ update : RequestUpdate,
      update.tokens.length = shippedTokens record.toList + call.pushed →
      (shippedTokens (some update).toList = 0 ↔ ∀ other ∈ calls ++ [call], other.id = id →
        other.pushed = 0) := by
    intro update grown
    simp only [Option.toList_some, shippedTokens_singleton, grown, Nat.add_eq_zero_iff, tokens]
    constructor
    · rintro ⟨before, now⟩ other member named
      rcases List.mem_append.mp member with inside | isLast
      · exact before other inside named
      · cases List.mem_singleton.mp isLast
        exact now
    · intro every
      exact ⟨fun other inside named => every other (List.mem_append_left _ inside) named,
        every call last mine⟩
  have recordTokens : shippedTokens record.toList = (record.getD (.empty id)).tokens.length := by
    simpa using shippedTokens_record [] record id
  cases effect with
  | admitRequest queued => exact ⟨opened, stays ⟨rfl, rfl⟩, pushes _ (by rw [recordTokens]; rfl)⟩
  | write change writes active only =>
    exact ⟨opened, stays (LedgerCall.writes_stays writes),
      pushes _ (by rw [recordTokens]; exact (only _).2.2)⟩
  | settle settles counted => exact ⟨opened, call, last, mine, settles⟩
  | retire =>
    refine ⟨fun other member named => ?_, fun _ => ⟨_, last, mine, rfl⟩⟩
    rcases List.mem_append.mp member with inside | isLast
    · exact (stayed other inside named).1
    · cases List.mem_singleton.mp isLast
      rfl
  | defer active =>
    refine ⟨fun other member named => ?_, fun _ => ⟨_, last, mine, rfl⟩⟩
    rcases List.mem_append.mp member with inside | isLast
    · exact (stayed other inside named).1
    · cases List.mem_singleton.mp isLast
      rfl

theorem OutsideStep.frame {engine next : Engine} (step : OutsideStep engine next) :
    next.ledger = engine.ledger ∧ next.phase = engine.phase := by
  cases step with
  | submit promptLen now => unfold Engine.submit; split <;> exact ⟨rfl, rfl⟩
  | abort id => exact ⟨rfl, rfl⟩
  | send before update after held => exact ⟨rfl, rfl⟩
  | drop before update after held => exact ⟨rfl, rfl⟩

theorem MidStep.reach {start middle : Engine} {calls : List LedgerCall} (mid : MidStep start calls middle)
    (reach : DriverReach start) (stepping : start.phase = .stepping) :
    DriverReach middle ∧ middle.phase = .stepping := by
  induction mid with
  | begin => exact ⟨reach, stepping⟩
  | call call _ run ih => exact ⟨ih.1.next (.call call ih.2 run), ih.2⟩
  | outside _ step ih => exact ⟨ih.1.next (.outside step), step.frame.2.trans ih.2⟩

theorem MidStep.tracks {start middle : Engine} {calls : List LedgerCall} (mid : MidStep start calls middle)
    (fresh : ∀ id, start.ledger.statement.record id = none) (id : RequestId) :
    Tracks start calls id (middle.ledger.accounts id) (middle.ledger.statement.record id) := by
  induction mid with
  | begin =>
    rw [fresh id]
    cases opened : start.ledger.accounts id with
    | none => exact ⟨by simp, by simp [opened]⟩
    | some account => exact ⟨by simp [opened], by simp, by simp⟩
  | @call calls engine ledger handed call _ run ih =>
    obtain ⟨account, opened, effect, same⟩ := RequestLedger.call_effect run
    by_cases mine : call.id = id
    · rw [mine] at opened effect
      rw [opened] at ih
      exact effect.tracks mine ih
    · obtain ⟨sameAccount, sameRecord⟩ := same id (Ne.symm mine)
      simp only [Engine.afterCall, sameAccount, sameRecord]
      exact ih.other mine
  | outside _ step ih => rwa [step.frame.1]

/-- Where a panicking call leaves the ledger: the statement untouched, and the
account gone exactly when the call closes before it asserts. -/
theorem RequestLedger.call_panicked {ledger next : RequestLedger} {call : LedgerCall}
    (run : ledger.call call = .panicked next) :
    next.statement = ledger.statement ∧ next.accounts =
      if call.closesFirst then Function.update ledger.accounts call.id none else ledger.accounts := by
  have shut : ∀ id, ledger.accounts id = none →
      ledger.accounts = Function.update ledger.accounts id none := by
    intro id closed
    rw [← closed, Function.update_eq_self]
  cases call with
  | admitRequest id now =>
    simp only [call, admitRequest] at run
    split at run
    · cases run; exact ⟨rfl, rfl⟩
    · split at run <;> cases run
      exact ⟨rfl, rfl⟩
  | pushTokens id ids logprobs =>
    simp only [call, pushTokens] at run
    split at run
    · cases run; exact ⟨rfl, rfl⟩
    · split at run
      · cases run; exact ⟨rfl, rfl⟩
      · split at run <;> cases run
        exact ⟨rfl, rfl⟩
  | setCachedTokens id cachedTokens =>
    simp only [call, setCachedTokens, writeActive] at run
    split at run <;> cases run
    exact ⟨rfl, rfl⟩
  | echoPrompt id echo =>
    simp only [call, echoPrompt, writeActive] at run
    split at run <;> cases run
    exact ⟨rfl, rfl⟩
  | kvTransfer id params =>
    simp only [call, kvTransfer, writeActive] at run
    split at run <;> cases run
    exact ⟨rfl, rfl⟩
  | fail id message =>
    simp only [call, fail] at run
    split at run <;> cases run
    exact ⟨rfl, rfl⟩
  | retire id =>
    simp only [call, retire] at run
    split at run <;> cases run
    exact ⟨rfl, rfl⟩
  | reject id reason =>
    simp only [call, reject] at run
    split at run
    · rename_i closed
      cases run
      exact ⟨rfl, shut id closed⟩
    · split at run <;> cases run
      exact ⟨rfl, rfl⟩
  | finish id reason =>
    simp only [call, finish] at run
    split at run
    · rename_i closed
      cases run
      exact ⟨rfl, shut id closed⟩
    · split at run <;> cases run
      exact ⟨rfl, rfl⟩
  | deferFinish id reason =>
    simp only [call, deferFinish] at run
    split at run
    · rename_i closed
      cases run
      exact ⟨rfl, shut id closed⟩
    · split at run <;> cases run
      exact ⟨rfl, rfl⟩

/-- The panicking call took this request's account with it. -/
def Lost (cut : Option LedgerCall) (id : RequestId) : Prop :=
  ∃ call, cut = some call ∧ call.id = id ∧ call.closesFirst = true

theorem CutShort.frame {middle broken : Engine} {cut : Option LedgerCall}
    (panics : CutShort middle cut broken) :
    ∃ ledger, broken = { middle with ledger } ∧
      ∀ id, (Lost cut id → ledger.accounts id = none) ∧
        (¬ Lost cut id → ledger.accounts id = middle.ledger.accounts id) := by
  cases panics with
  | between => exact ⟨middle.ledger, rfl, fun id => ⟨fun lost => by simp [Lost] at lost, fun _ => rfl⟩⟩
  | @inside ledger call run =>
    refine ⟨ledger, rfl, fun id => ?_⟩
    rw [(RequestLedger.call_panicked run).2]
    constructor
    · rintro ⟨other, same, named, first⟩
      cases Option.some.inj same
      simp [first, ← named]
    · intro kept
      by_cases first : call.closesFirst = true
      · rw [if_pos first]
        exact Function.update_of_ne (fun same => kept ⟨call, rfl, same.symm, first⟩) _ _
      · rw [if_neg first]

/-- Who holds the answer after the ledger fell: the open accounts were swept,
and a terminal that was only buffered is gone. -/
def Holder.afterDrop : Holder → Holder
  | .account _ _ | .statement _ => .answered
  | holder => holder

theorem Engine.Represents.torn {middle : Engine} {ledger : RequestLedger} {id : RequestId} {life : Life}
    {order : List RequestId} (represents : middle.Represents id life) (drains : ledger.Enumerates order) :
    ({ middle with ledger }.dropLedger order).Represents id
      ⟨life.holder.afterDrop, life.shipped ++
        ((ledger.accounts id).map (RequestLedger.sweepUpdate id)).toList⟩ := by
  obtain ⟨holder, out⟩ := life
  obtain ⟨shipped, channel, account, record, deferred, retired, born⟩ := represents
  refine ⟨?_, ?_, ?_, ?_, ?_, ?_, ?_⟩
  · change ({ middle with ledger := .new, phase := .ledgerDown, stream := _ ++ _ } : Engine).shipped id = _
    rw [Engine.shipped_append { middle with ledger := .new, phase := .ledgerDown },
      Engine.sweep_updates drains]
    exact congrArg (· ++ _) shipped
  · exact channel.trans (by cases holder <;> rfl)
  · cases holder <;> rfl
  · cases holder <;> rfl
  · exact deferred.trans (by cases holder <;> rfl)
  · exact retired.trans (by cases holder <;> simp [Holder.afterDrop])
  · exact born.trans (by cases holder <;> simp [Holder.afterDrop])

/-- After the ledger fell only other threads and the receiver's drop go on. -/
theorem DriverStep.down {engine next : Engine} {id : RequestId} {life : Life} (step : DriverStep engine next)
    (down : engine.phase = .ledgerDown ∨ engine.phase = .gone) (represents : engine.Represents id life) :
    (next.phase = .ledgerDown ∨ next.phase = .gone) ∧
      ∃ life', next.Represents id life' ∧ ReflTransGen (LifeStep id) life life' := by
  cases step with
  | outside step =>
    obtain ⟨life', after, steps⟩ := step.represents represents
    exact ⟨step.frame.2 ▸ down, life', after, HandOver.run_life steps⟩
  | close _ =>
    obtain ⟨life', after, steps⟩ := Engine.dropSubmissions_represents represents
    exact ⟨Or.inr rfl, life', after, HandOver.run_life steps⟩
  | register between => simp [between] at down
  | step between => simp [between] at down
  | call call stepping => simp [stepping] at down
  | commit stepping => simp [stepping] at down
  | fatal message order rest stepping => simp [stepping] at down
  | teardown order between => simp [between] at down

theorem DriverStep.run_down {engine final : Engine} {id : RequestId} {life : Life}
    (steps : ReflTransGen DriverStep engine final) (down : engine.phase = .ledgerDown ∨ engine.phase = .gone)
    (represents : engine.Represents id life) :
    ∃ life', final.Represents id life' ∧ ReflTransGen (LifeStep id) life life' := by
  induction steps using ReflTransGen.head_induction_on generalizing life with
  | refl => exact ⟨life, represents, .refl⟩
  | head step _ ih =>
    obtain ⟨stays, middle, represented, first⟩ := step.down down represents
    obtain ⟨last, done, rest⟩ := ih stays represented
    exact ⟨last, done, first.trans rest⟩

theorem LifeStep.answered_stuck {id : RequestId} {shipped : List RequestUpdate} {last : Life}
    (steps : ReflTransGen (LifeStep id) ⟨.answered, shipped⟩ last) : last = ⟨.answered, shipped⟩ := by
  rcases steps.cases_head with same | ⟨next, step, _⟩
  · exact same.symm
  · cases step

theorem LifeStep.born {id : RequestId} {life next : Life} (step : LifeStep id life next) :
    next.holder ≠ .unborn := by
  cases step with
  | @call account record shipped call account' record' deferred effect =>
    cases account' <;> cases deferred <;> cases record' <;> simp [Holder.afterCall]
  | _ => simp

theorem LifeStep.run_born {id : RequestId} {life next : Life} (steps : ReflTransGen (LifeStep id) life next)
    (born : life.holder ≠ .unborn) : next.holder ≠ .unborn := by
  rcases steps.cases_tail with same | ⟨_, _, step⟩
  · exact same ▸ born
  · exact step.born

theorem MidStep.nextId_le {start middle : Engine} {calls : List LedgerCall}
    (mid : MidStep start calls middle) :
    start.nextId ≤ middle.nextId := by
  induction mid with
  | begin => exact Nat.le_refl _
  | call _ _ _ ih => exact ih
  | outside _ step ih =>
    refine Nat.le_trans ih ?_
    cases step with
    | submit promptLen now => unfold Engine.submit; split <;> exact Nat.le_succ _
    | _ => exact Nat.le_refl _

theorem DriverStep.run_inPhase {engine final : Engine} (steps : ReflTransGen DriverStep engine final)
    (inPhase : engine.InPhase) : final.InPhase := by
  induction steps with
  | refl => exact inPhase
  | tail _ step ih => exact step.inPhase ih

/-- The two ends of a torn step: the reachable middle of it, what its calls
explain, and the run from the ledger's drop to the end. -/
theorem TornDown.anatomy {start final : Engine} {calls : List LedgerCall} {cut : Option LedgerCall}
    (torn : TornDown start calls cut final) :
    ∃ (middle : Engine) (ledger : RequestLedger) (order : List RequestId),
      DriverReach start ∧ DriverReach middle ∧ start.nextId ≤ middle.nextId ∧
      (∀ id, Tracks start calls id (middle.ledger.accounts id) (middle.ledger.statement.record id)) ∧
      (∀ id, (Lost cut id → ledger.accounts id = none) ∧
        (¬ Lost cut id → ledger.accounts id = middle.ledger.accounts id)) ∧
      ledger.Enumerates order ∧
      ReflTransGen DriverStep ({ middle with ledger }.dropLedger order) final ∧ final.InPhase := by
  obtain ⟨idle, middle, broken, order, reach, between, empty, rfl, mid, panics, drains, steps, _, _⟩ := torn
  have stepping := reach.next (.step between empty)
  have fresh := reach.represents.1.committed (by simp [between])
  obtain ⟨ledger, rfl, accounts⟩ := panics.frame
  have inPhase := DriverStep.run_inPhase steps (Engine.dropLedger_inPhase _ _)
  exact ⟨middle, ledger, order, stepping, (mid.reach stepping rfl).1, mid.nextId_le,
    mid.tracks fresh, accounts, drains,
    steps, inPhase⟩

theorem AnsweredOnce.of_closing {final : Engine} {id : RequestId} {life : Life}
    (represents : final.Represents id life)
    (closing : Closing life.shipped) (first : ScheduledFirst life.shipped) : AnsweredOnce final id := by
  rw [AnsweredOnce, represents.shipped]
  exact ⟨closing.terminal_count, (closing.streamOk first).counts⟩

/-- Nothing but the buffered updates spoke for this request: it hangs. -/
theorem AnsweredOnce.not_of_quiet {final : Engine} {id : RequestId} {life : Life}
    (represents : final.Represents id life)
    (quiet : Quiet life.shipped) : ¬ AnsweredOnce final id := by
  intro answered
  rw [AnsweredOnce, represents.shipped, quiet.terminal_count] at answered
  exact absurd answered.1 (by simp)

/-- The sweep answers, but it counts the tokens that stayed in the buffer. -/
theorem AnsweredOnce.sweep_iff {final : Engine} {id : RequestId} {holder : Holder} {out : List RequestUpdate}
    {account : Account} {unshipped : Nat}
    (represents : final.Represents id ⟨holder, out ++ [RequestLedger.sweepUpdate id account]⟩)
    (quiet : Quiet out)
    (first : ScheduledFirst out) (counts : account.completionTokens = shippedTokens out + unshipped) :
    AnsweredOnce final id ↔ unshipped = 0 := by
  have total : shippedTokens (out ++ [RequestLedger.sweepUpdate id account]) = shippedTokens out := by
    simp [RequestLedger.sweepUpdate, RequestUpdate.empty]
  constructor
  · rintro ⟨_, exact_⟩
    rw [represents.shipped] at exact_
    have reported := exact_ (RequestLedger.sweepUpdate id account) (by simp) _ rfl
    rw [total] at reported
    change account.completionTokens = _ at reported
    omega
  · rintro rfl
    refine .of_closing represents (.of_concat quiet rfl ?_) (scheduledFirst_concat.mpr ⟨first, fun _ => rfl⟩)
    rw [total]
    exact counts

/-- A request whose duty had left the ledger by the time of the panic is
answered by its holder, as on any other run. -/
theorem TornDown.answered_elsewhere {final : Engine} {id : RequestId} {life last : Life} (ok : life.Ok)
    (born : life.holder ≠ .unborn) (moves : ReflTransGen (LifeStep id) life last)
    (done : final.Represents id last)
    (inPhase : final.InPhase) (gone : final.phase = .gone) (settled : final.deferred = [])
    (unretired : id ∉ final.retired) : AnsweredOnce final id := by
  have fine := LifeStep.run_ok moves ok
  have alive := LifeStep.run_born moves born
  obtain ⟨holder, out⟩ := last
  cases holder with
  | answered => exact .of_closing done fine.1 fine.2
  | unborn => exact absurd rfl alive
  | retired => exact absurd (done.retired.mpr rfl) unretired
  | envelope held => cases (inPhase.drained gone ▸ done.channel : [] = _)
  | account held buffered => cases (inPhase.swept (Or.inr gone) id).symm.trans done.account
  | statement buffered => cases (inPhase.committed (by simp [gone]) id).symm.trans done.record
  | deferred update => cases (settled ▸ done.deferred : [] = _)

theorem Salvageable.of_left {start : Engine} {calls : List LedgerCall}
    {cut : Option LedgerCall} {id : RequestId}
    (tracked : Tracks start calls id none none) : Salvageable start calls cut id := by
  obtain ⟨unsettled, left⟩ := tracked
  exact ⟨unsettled, fun call member named _ => left (Or.inr ⟨call, member, named⟩),
    fun _ _ _ _ opened => left (Or.inl opened)⟩

/-- Whether one registered request is answered, by what the step did to it. -/
theorem TornDown.answered_iff_salvageable {start final : Engine} {calls : List LedgerCall}
    {cut : Option LedgerCall}
    (torn : TornDown start calls cut final) {id : RequestId} (registered : id < start.nextId) :
    (id ∉ final.retired → Quiet (start.shipped id) → AnsweredOnce final id) ↔
      Salvageable start calls cut id := by
  obtain ⟨middle, ledger, order, reachStart, reachMiddle, minted, tracks, accounts, drains, steps, inPhase⟩ :=
    torn.anatomy
  obtain ⟨_, _, _, _, _, _, _, _, _, _, _, _, gone, settled⟩ := torn
  obtain ⟨⟨holder, out⟩, represents, ok⟩ := reachMiddle.represents.2 id
  obtain ⟨last, done, moves⟩ := DriverStep.run_down steps (Or.inl rfl) (represents.torn drains)
  have tracked := tracks id
  rw [represents.account, represents.record] at tracked
  have quietStart : (start.ledger.accounts id).isSome → Quiet (start.shipped id) := by
    intro opened
    obtain ⟨⟨first, sent⟩, before, fine⟩ := reachStart.represents.2 id
    obtain ⟨account, held⟩ := Option.isSome_iff_exists.mp opened
    rw [before.account] at held
    obtain ⟨record, rfl⟩ : ∃ record, first = .account account record := ⟨_, Holder.openAccount_eq_some held⟩
    rw [before.shipped]
    exact (quiet_append.mp fine.1).1
  have elsewhere : holder.openAccount = none → holder.buffered = none →
      ((id ∉ final.retired → Quiet (start.shipped id) → AnsweredOnce final id) ↔
        Salvageable start calls cut id) := by
    intro noAccount noRecord
    rw [noAccount, noRecord] at tracked
    refine ⟨fun _ => .of_left tracked, fun _ unretired _ => ?_⟩
    have unswept : ledger.accounts id = none := by
      by_cases lost : Lost cut id
      · exact (accounts id).1 lost
      · rw [(accounts id).2 lost, represents.account]
        exact noAccount
    have still : holder.afterDrop = holder := by
      cases holder with
      | account held buffered => cases noAccount
      | statement buffered => cases noRecord
      | _ => rfl
    simp only [unswept, Option.map_none, Option.toList_none, List.append_nil, still] at moves
    exact TornDown.answered_elsewhere ok
      (represents.born.mp (Nat.lt_of_lt_of_le registered minted)) moves done
      inPhase gone settled unretired
  cases holder with
  | account held buffered =>
    obtain ⟨quiet, first, counts, _⟩ := ok
    obtain ⟨opened, stayed, tokens⟩ := tracked
    have shippedQuiet := (quiet_append.mp quiet).1
    have shippedFirst := (scheduledFirst_record id first).1
    cases LifeStep.answered_stuck moves
    have unretired : id ∉ final.retired := fun member => by cases done.retired.mp member
    by_cases lost : Lost cut id
    · rw [(accounts id).1 lost] at done
      simp only [Option.map_none, Option.toList_none, List.append_nil] at done
      refine iff_of_false (fun answers => ?_) (fun salvageable => ?_)
      · exact AnsweredOnce.not_of_quiet done shippedQuiet (answers unretired (quietStart opened))
      · obtain ⟨call, cutAt, named, closes⟩ := lost
        obtain ⟨other, member, named', leaves⟩ := salvageable.unbroken call cutAt named closes opened
        rw [(stayed other member named').2] at leaves
        cases leaves
    · rw [(accounts id).2 lost, represents.account] at done
      rw [shippedTokens_append] at counts
      have swept := AnsweredOnce.sweep_iff done shippedQuiet shippedFirst counts
      constructor
      · intro answers
        have unpushed := tokens.mp (swept.mp (answers unretired (quietStart opened)))
        refine ⟨fun call member named => (stayed call member named).1, fun call member named pushes => ?_,
          fun call cutAt named closes _ => absurd ⟨call, cutAt, named, closes⟩ lost⟩
        rw [unpushed call member named] at pushes
        cases pushes
      · intro salvageable _ _
        refine swept.mpr (tokens.mpr fun call member named => ?_)
        by_contra pushes
        obtain ⟨other, inside, named', leaves⟩ :=
          salvageable.unpushed call member named (Nat.pos_of_ne_zero pushes)
        rw [(stayed other inside named').2] at leaves
        cases leaves
  | statement buffered =>
    obtain ⟨opened, call, member, named, settles⟩ := tracked
    obtain ⟨⟨front, last', terminal, joined, quiet, _⟩, _⟩ := ok
    obtain ⟨rfl, _⟩ := List.append_inj' joined rfl
    cases LifeStep.answered_stuck moves
    have unretired : id ∉ final.retired := fun member => by cases done.retired.mp member
    have unswept : ledger.accounts id = none := by
      by_cases lost : Lost cut id
      · exact (accounts id).1 lost
      · rw [(accounts id).2 lost, represents.account]
        rfl
    rw [unswept] at done
    simp only [Option.map_none, Option.toList_none, List.append_nil] at done
    refine iff_of_false (fun answers => ?_) (fun salvageable => ?_)
    · exact AnsweredOnce.not_of_quiet done quiet (answers unretired (quietStart opened))
    · rw [salvageable.unsettled call member named] at settles
      cases settles
  | unborn => exact elsewhere rfl rfl
  | envelope held => exact elsewhere rfl rfl
  | deferred update => exact elsewhere rfl rfl
  | answered => exact elsewhere rfl rfl
  | retired => exact elsewhere rfl rfl

/-- A request that was not yet submitted when the step began has no calls. -/
theorem TornDown.salvageable_unregistered {start final : Engine} {calls : List LedgerCall}
    {cut : Option LedgerCall}
    (torn : TornDown start calls cut final) {id : RequestId} (unregistered : ¬ id < start.nextId) :
    Salvageable start calls cut id := by
  obtain ⟨middle, ledger, order, reachStart, reachMiddle, minted, tracks, accounts, drains, steps, inPhase⟩ :=
    torn.anatomy
  obtain ⟨⟨holder, out⟩, represents, ok⟩ := reachStart.represents.2 id
  have unborn : holder = .unborn := by
    by_contra born
    exact unregistered (represents.born.mpr born)
  have closed : start.ledger.accounts id = none := by
    rw [represents.account, unborn]
    rfl
  have tracked := tracks id
  match account : middle.ledger.accounts id, record : middle.ledger.statement.record id with
  | some _, _ =>
    rw [account] at tracked
    simp [Tracks, closed] at tracked
  | none, some _ =>
    rw [account, record] at tracked
    simp [Tracks, closed] at tracked
  | none, none =>
    rw [account, record] at tracked
    exact .of_left tracked

/-- A step cut short before its commit answers everyone it should exactly when
it buffered no terminal, left no buffered tokens behind and did not panic out
of a call that had already closed the account. -/
theorem TornDown.everyone_answered_iff {start final : Engine} {calls : List LedgerCall}
    {cut : Option LedgerCall}
    (torn : TornDown start calls cut final) :
    EveryoneAnswered start final ↔ ∀ id, Salvageable start calls cut id := by
  constructor
  · intro answered id
    by_cases registered : id < start.nextId
    · exact (torn.answered_iff_salvageable registered).mp (answered id registered)
    · exact torn.salvageable_unregistered registered
  · intro salvageable id registered
    exact (torn.answered_iff_salvageable registered).mpr (salvageable id)

theorem DriverReach.begins {start : Engine} (_reach : DriverReach start) : MidStep start [] start := .begin

/-- An admission that the panic cuts short leaves a request that is answered. -/
theorem TornDown.everyone_answered_iff_admission :
    ∃ start final, TornDown start [.admitRequest 0 6] none final ∧ EveryoneAnswered start final := by
  have idle := (DriverReach.start.next (.outside (.submit 3 5))).next (.register rfl rfl rfl)
  have stepping := idle.next (.step rfl rfl)
  have admitted := stepping.begins.call (.admitRequest 0 6) rfl
  have torn := (admitted.reach stepping rfl).1.enumerates
  have run : TornDown _ _ none _ :=
    ⟨_, _, _, _, idle, rfl, rfl, rfl, admitted, .between, torn, .single (.close rfl), rfl, rfl⟩
  refine ⟨_, _, run, run.everyone_answered_iff.mpr fun id => ⟨?_, ?_, ?_⟩⟩
  · simp [LedgerCall.settles]
  · simp [LedgerCall.pushed]
  · simp

/-- A finish buffered in the uncommitted step: its account is closed, the
statement falls with the ledger, and the client never hears of it. -/
theorem TornDown.finished_request_hangs :
    ∃ start final, TornDown start [.admitRequest 0 6, .finish 0 .stop] none final ∧
      ¬ EveryoneAnswered start final := by
  have idle := (DriverReach.start.next (.outside (.submit 3 5))).next (.register rfl rfl rfl)
  have stepping := idle.next (.step rfl rfl)
  have finished := (stepping.begins.call (.admitRequest 0 6) rfl).call (.finish 0 .stop) rfl
  have torn := (finished.reach stepping rfl).1.enumerates
  have run : TornDown _ _ none _ :=
    ⟨_, _, _, _, idle, rfl, rfl, rfl, finished, .between, torn, .single (.close rfl), rfl, rfl⟩
  refine ⟨_, _, run, fun answered => ?_⟩
  have once := answered 0 (by decide) (by decide) (fun update member => by cases member)
  exact absurd once.1 (by decide)

end PegaInfer.Frontend
