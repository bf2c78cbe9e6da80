import PegaInfer.Frontend.Simulation

namespace PegaInfer.Frontend

open Relation

theorem LifeStep.run_ok {id : RequestId} {life next : Life} (steps : ReflTransGen (LifeStep id) life next)
    (ok : life.Ok) : next.Ok := by
  induction steps with
  | refl => exact ok
  | tail _ step ih => exact step.ok ih

theorem OutsideStep.represents {engine next : Engine} {id : RequestId} {life : Life}
    (step : OutsideStep engine next)
    (represents : engine.Represents id life) :
    ∃ life', next.Represents id life' ∧ ReflTransGen (HandOver id) life life' := by
  cases step with
  | submit promptLen now => exact Engine.submit_represents represents promptLen now
  | abort aborted =>
    exact ⟨life, ⟨represents.shipped, represents.channel, represents.account, represents.record,
      represents.deferred, represents.retired, represents.born⟩, .refl⟩
  | send before update after held => exact Engine.deliver_represents represents held rfl (Or.inl rfl)
  | drop before update after held => exact Engine.deliver_represents represents held rfl (Or.inr rfl)

/-- A fatal step commits, writes every open account off, commits again and drops
the ledger. -/
theorem Engine.fatal_represents {engine : Engine} {id : RequestId} {life : Life} {message : String}
    {order rest : List RequestId} {ledger : RequestLedger} {handed : Option RequestUpdate}
    (represents : engine.Represents id life) (ok : life.Ok)
    (run : engine.commitStep.ledger.failAll message order = .returned ledger handed)
    (left : ledger.Enumerates rest) :
    ∃ life', ({ engine.commitStep with ledger }.commitStep.dropLedger rest).Represents id life' ∧
      ReflTransGen (HandOver id) life life' := by
  obtain ⟨shipped, committed, first⟩ := Engine.commitStep_represents represents ok
  obtain ⟨failed, written, second⟩ := Engine.failAll_represents committed run
  have stillOk := LifeStep.run_ok (HandOver.run_life second) (LifeStep.run_ok (HandOver.run_life first) ok)
  obtain ⟨sent, answered, third⟩ := Engine.commitStep_represents written stillOk
  obtain ⟨last, done, fourth⟩ := Engine.dropLedger_represents answered rfl left
  exact ⟨last, done, ((first.trans second).trans third).trans fourth⟩

/-- Every step of the engine is, for every request, a run of its life. -/
theorem DriverStep.represents {engine next : Engine} {id : RequestId} {life : Life}
    (step : DriverStep engine next)
    (inPhase : engine.InPhase) (represents : engine.Represents id life) (ok : life.Ok) :
    ∃ life', next.Represents id life' ∧ ReflTransGen (LifeStep id) life life' := by
  cases step with
  | outside step =>
    obtain ⟨life', after, steps⟩ := step.represents represents
    exact ⟨life', after, HandOver.run_life steps⟩
  | register between queue run =>
    obtain ⟨life', after, steps⟩ := Engine.register_represents represents queue run
    exact ⟨life', after, HandOver.run_life steps⟩
  | step between empty =>
    exact ⟨life, ⟨represents.shipped, represents.channel, represents.account, represents.record,
      represents.deferred, represents.retired, represents.born⟩, .refl⟩
  | call call stepping run => exact Engine.call_represents call represents run
  | commit stepping =>
    obtain ⟨life', after, steps⟩ := Engine.commitStep_represents represents ok
    exact ⟨life', ⟨after.shipped, after.channel, after.account, after.record, after.deferred, after.retired,
      after.born⟩, HandOver.run_life steps⟩
  | fatal message order rest stepping drains run left =>
    obtain ⟨life', after, steps⟩ := Engine.fatal_represents represents ok run left
    exact ⟨life', after, HandOver.run_life steps⟩
  | teardown order between drains =>
    obtain ⟨life', after, steps⟩ :=
      Engine.dropLedger_represents represents (inPhase.committed (by simp [between]) id) drains
    exact ⟨life', after, HandOver.run_life steps⟩
  | close down =>
    obtain ⟨life', after, steps⟩ := Engine.dropSubmissions_represents represents
    exact ⟨life', after, HandOver.run_life steps⟩

theorem Engine.dropLedger_inPhase (engine : Engine) (order : List RequestId) :
    (engine.dropLedger order).InPhase :=
  ⟨fun _ _ => rfl, fun _ _ => rfl, fun gone => by simp [dropLedger] at gone⟩

theorem OutsideStep.inPhase {engine next : Engine} (step : OutsideStep engine next)
    (inPhase : engine.InPhase) :
    next.InPhase := by
  obtain ⟨committed, swept, drained⟩ := inPhase
  cases step with
  | submit promptLen now =>
    unfold Engine.submit
    split
    · exact ⟨committed, swept, drained⟩
    · rename_i present
      exact ⟨committed, swept, fun gone => absurd gone present⟩
  | abort aborted => exact ⟨committed, swept, drained⟩
  | send before update after held => exact ⟨committed, swept, drained⟩
  | drop before update after held => exact ⟨committed, swept, drained⟩

theorem DriverStep.inPhase {engine next : Engine} (step : DriverStep engine next) (inPhase : engine.InPhase) :
    next.InPhase := by
  obtain ⟨committed, swept, drained⟩ := inPhase
  cases step with
  | outside step => exact step.inPhase ⟨committed, swept, drained⟩
  | register between queue run =>
    simp only [RequestLedger.register] at run
    split at run
    · cases run
    cases run
    exact ⟨committed, fun down => by simp [between] at down, fun gone => by simp [between] at gone⟩
  | step between empty =>
    exact ⟨fun outside => absurd rfl outside, fun down => by simp at down, fun gone => by simp at gone⟩
  | call call stepping run =>
    exact ⟨fun outside => absurd stepping outside, fun down => by simp [Engine.afterCall, stepping] at down,
      fun gone => by simp [Engine.afterCall, stepping] at gone⟩
  | commit stepping =>
    exact ⟨fun _ _ => rfl, fun down => by simp at down, fun gone => by simp at gone⟩
  | fatal message order rest stepping drains run left => exact Engine.dropLedger_inPhase _ _
  | teardown order between drains => exact Engine.dropLedger_inPhase _ _
  | close down =>
    exact ⟨committed ∘ fun _ => by simp [down], fun _ => swept (Or.inl down), fun _ => rfl⟩

theorem Engine.start_inPhase : Engine.start.InPhase :=
  ⟨fun _ _ => rfl, fun _ _ => rfl, fun _ => rfl⟩

theorem Engine.start_represents (id : RequestId) : Engine.start.Represents id ⟨.unborn, []⟩ :=
  ⟨rfl, rfl, rfl, rfl, rfl, by simp [Engine.start], by simp [Engine.start]⟩

theorem DriverReach.represents {engine : Engine} (reach : DriverReach engine) :
    engine.InPhase ∧ ∀ id, ∃ life, engine.Represents id life ∧ life.Ok := by
  induction reach with
  | start => exact ⟨Engine.start_inPhase, fun id => ⟨_, Engine.start_represents id, rfl⟩⟩
  | @next engine next previous step ih =>
    obtain ⟨inPhase, lives⟩ := ih
    refine ⟨step.inPhase inPhase, fun id => ?_⟩
    obtain ⟨life, represents, ok⟩ := lives id
    obtain ⟨life', after, steps⟩ := step.represents inPhase represents ok
    exact ⟨life', after, LifeStep.run_ok steps ok⟩

/-- The step stream as a request's client reads it. -/
structure StreamOk (updates : List RequestUpdate) : Prop where
  atMostOne : (updates.filter fun update => update.terminal.isSome).length ≤ 1
  nothingAfter : ∀ before update after, updates = before ++ update :: after →
    update.terminal.isSome → after = []
  scheduledOnce : (updates.filter fun update => update.scheduled.isSome).length ≤ 1
  noTokensBefore : ∀ before update after, updates = before ++ update :: after → update.scheduled.isSome →
    ∀ earlier ∈ before, earlier.tokens = []
  counts : ∀ update ∈ updates, ∀ terminal, update.terminal = some terminal →
    terminal.completionTokens = shippedTokens updates

theorem ScheduledFirst.once {updates : List RequestUpdate} (first : ScheduledFirst updates) :
    (updates.filter fun update => update.scheduled.isSome).length ≤ 1 ∧
    ∀ before update after, updates = before ++ update :: after → update.scheduled.isSome → before = [] := by
  constructor
  · cases updates with
    | nil => simp
    | cons head tail =>
      have none : tail.filter (fun update => update.scheduled.isSome) = [] := by
        rw [List.filter_eq_nil_iff]
        intro update member
        simp [first update member]
      rw [List.filter_cons, none]
      split <;> simp
  · rintro (_ | ⟨head, before⟩) update after rfl scheduled
    · rfl
    · have none := first update (by simp)
      simp [none] at scheduled

theorem Quiet.streamOk {updates : List RequestUpdate} (quiet : Quiet updates)
    (first : ScheduledFirst updates) :
    StreamOk updates := by
  refine ⟨Nat.le_succ_of_le (Nat.le_of_eq quiet.terminal_count), ?_, first.once.1, ?_, ?_⟩
  · rintro before update after rfl ends
    have none := quiet update (by simp)
    simp [none] at ends
  · intro before update after cut scheduled
    simp [first.once.2 before update after cut scheduled]
  · intro update member terminal ends
    have none := quiet update member
    rw [none] at ends
    cases ends

theorem Closing.streamOk {updates : List RequestUpdate} (closing : Closing updates)
    (first : ScheduledFirst updates) :
    StreamOk updates := by
  refine ⟨Nat.le_of_eq closing.terminal_count, ?_, first.once.1, ?_, ?_⟩
  · obtain ⟨front, last, terminal, joined, quiet, ends, counts⟩ := closing
    intro before update after cut closes
    rcases List.eq_nil_or_concat after with empty | ⟨after', last', rfl⟩
    · exact empty
    · rw [joined, List.concat_eq_append, ← List.cons_append, ← List.append_assoc] at cut
      obtain ⟨same, _⟩ := List.append_inj' cut rfl
      have none := quiet update (by simp [same])
      simp [none] at closes
  · intro before update after cut scheduled
    simp [first.once.2 before update after cut scheduled]
  · obtain ⟨front, last, terminal, rfl, quiet, ends, counts⟩ := closing
    intro update member terminal' ends'
    rcases List.mem_append.mp member with inside | final
    · have none := quiet update inside
      rw [none] at ends'
      cases ends'
    · cases List.mem_singleton.mp final
      rw [ends, Option.some.injEq] at ends'
      rw [← ends', counts]

theorem Life.Ok.streamOk {life : Life} (ok : life.Ok) : StreamOk life.shipped := by
  obtain ⟨holder, shipped⟩ := life
  have silent : shipped = [] → StreamOk shipped := by
    rintro rfl
    exact Quiet.streamOk (by simp [Quiet]) (by simp [ScheduledFirst])
  cases holder with
  | unborn => exact silent ok
  | envelope held => exact silent ok
  | account held buffered =>
    exact (quiet_append.mp ok.1).1.streamOk (scheduledFirst_record 0 ok.2.1).1
  | statement buffered =>
    obtain ⟨⟨front, last, terminal, joined, quiet, _⟩, first⟩ := ok
    obtain ⟨rfl, _⟩ := List.append_inj' joined rfl
    exact quiet.streamOk (scheduledFirst_concat.mp first).1
  | deferred update =>
    obtain ⟨⟨front, last, terminal, joined, quiet, _⟩, first, _⟩ := ok
    obtain ⟨rfl, _⟩ := List.append_inj' joined rfl
    exact quiet.streamOk (scheduledFirst_concat.mp first).1
  | answered => exact ok.1.streamOk ok.2
  | retired => exact ok.1.streamOk ok.2

/-- Once the driver is gone and every finish handed out has left its holder,
every request that was submitted and not retired is answered. -/
theorem DriverReach.answered {engine : Engine} (reach : DriverReach engine) {id : RequestId} {life : Life}
    (represents : engine.Represents id life) (gone : engine.phase = .gone) (settled : engine.deferred = [])
    (submitted : id < engine.nextId) (unretired : id ∉ engine.retired) : life.holder = .answered := by
  obtain ⟨inPhase, _⟩ := reach.represents
  obtain ⟨holder, out⟩ := life
  have noAccount : holder.openAccount = none := by
    rw [← represents.account]
    exact inPhase.swept (Or.inr gone) id
  have noRecord : holder.buffered = none := by
    rw [← represents.record]
    exact inPhase.committed (by simp [gone]) id
  have noEnvelope : holder.envelopes = [] := by
    rw [← represents.channel, inPhase.drained gone]
    rfl
  have noFinish : holder.handedOut = [] := by
    rw [← represents.deferred, settled]
    rfl
  have born := represents.born.mp submitted
  have notRetired : holder ≠ .retired := fun same => unretired (represents.retired.mpr same)
  cases holder with
  | answered => rfl
  | unborn => exact absurd rfl born
  | retired => exact absurd rfl notRetired
  | envelope held => cases noEnvelope
  | account held buffered => cases noAccount
  | statement buffered => cases noRecord
  | deferred update => cases noFinish

/-- Terminal exactly once. On every run each request's updates are in order;
a retired request never gets a terminal, and once the run has ended and every
finish handed out was sent or dropped, every other request has exactly one. -/
theorem DriverReach.terminal_exactly_once {engine : Engine} (reach : DriverReach engine) (id : RequestId) :
    StreamOk (engine.shipped id) ∧
    (id ∈ engine.retired → ∀ update ∈ engine.shipped id, update.terminal = none) ∧
    (engine.phase = .gone → engine.deferred = [] → id < engine.nextId → id ∉ engine.retired →
      ((engine.shipped id).filter fun update => update.terminal.isSome).length = 1) := by
  obtain ⟨inPhase, lives⟩ := reach.represents
  obtain ⟨⟨holder, out⟩, represents, ok⟩ := lives id
  rw [represents.shipped]
  refine ⟨ok.streamOk, fun retired => ?_, fun gone settled submitted unretired => ?_⟩
  · have holds := represents.retired.mp retired
    simp only at holds
    subst holds
    exact ok.1
  · have holds := reach.answered represents gone settled submitted unretired
    simp only at holds
    subst holds
    exact Closing.terminal_count ok.1

/-- The account map of a running engine is finite: its keys were submitted. -/
theorem DriverReach.enumerates {engine : Engine} (reach : DriverReach engine) :
    engine.ledger.Enumerates ((List.range engine.nextId).filter fun id =>
      (engine.ledger.accounts id).isSome) := by
  refine ⟨List.nodup_range.filter _, fun id => ?_⟩
  obtain ⟨life, represents, _⟩ := reach.represents.2 id
  simp only [List.mem_filter, List.mem_range, and_iff_right_iff_imp]
  intro isOpen
  refine represents.born.mpr fun unborn => ?_
  rw [represents.account, unborn] at isOpen
  cases isOpen

theorem Engine.settle_deferred (engine : Engine) :
    ∃ final, ReflTransGen DriverStep engine final ∧ final.deferred = [] ∧ final.phase = engine.phase ∧
      final.nextId = engine.nextId ∧ final.retired = engine.retired := by
  generalize held : engine.deferred = waiting
  induction waiting generalizing engine with
  | nil => exact ⟨engine, .refl, held, rfl, rfl, rfl⟩
  | cons update waiting ih =>
    let sent : Engine :=
      { engine with deferred := waiting, stream := engine.stream ++ [StepOutputs.mk [update]] }
    have first : DriverStep engine sent := .outside (.send [] update waiting held)
    obtain ⟨final, steps, empty, phase, minted, retired⟩ := ih sent rfl
    exact ⟨final, .head first steps, empty, phase, minted, retired⟩

/-- Every run can be ended, whatever was outstanding, without touching which
requests were submitted or retired. -/
theorem DriverReach.can_end {engine : Engine} (reach : DriverReach engine) :
    ∃ final, ReflTransGen DriverStep engine final ∧ final.phase = .gone ∧ final.deferred = [] ∧
      final.nextId = engine.nextId ∧ final.retired = engine.retired := by
  have fromDown : ∀ down : Engine, down.phase = .ledgerDown →
      ∃ final, ReflTransGen DriverStep down final ∧ final.phase = .gone ∧ final.deferred = [] ∧
        final.nextId = down.nextId ∧ final.retired = down.retired := by
    intro down isDown
    obtain ⟨final, steps, empty, phase, minted, retired⟩ := down.dropSubmissions.settle_deferred
    exact ⟨final, .head (.close isDown) steps, phase, empty, minted, retired⟩
  have fromBetween : ∀ idle : Engine, DriverReach idle → idle.phase = .between →
      ∃ final, ReflTransGen DriverStep idle final ∧ final.phase = .gone ∧ final.deferred = [] ∧
        final.nextId = idle.nextId ∧ final.retired = idle.retired := by
    intro idle reached between
    obtain ⟨final, steps, rest⟩ := fromDown (idle.dropLedger _) rfl
    exact ⟨final, .head (.teardown _ between reached.enumerates) steps, rest⟩
  cases phase : engine.phase with
  | between => exact fromBetween engine reach phase
  | stepping =>
    obtain ⟨final, steps, rest⟩ := fromBetween _ (reach.next (.commit phase)) rfl
    exact ⟨final, .head (.commit phase) steps, rest⟩
  | ledgerDown => exact fromDown engine phase
  | gone =>
    obtain ⟨final, steps, empty, same, minted, retired⟩ := engine.settle_deferred
    exact ⟨final, steps, same.trans phase, empty, minted, retired⟩

/-- A request that streams one token and finishes late, through a handle that
its holder drops after the driver is gone. -/
theorem DriverReach.terminal_exactly_once_dropped_finish :
    ∃ engine, DriverReach engine ∧ engine.phase = .gone ∧ engine.deferred = [] ∧
      ((engine.shipped 0).filter fun update => update.terminal.isSome).length = 1 := by
  have submitted := DriverReach.start.next (.outside (.submit 3 5))
  have registered := submitted.next (.register rfl rfl rfl)
  have stepping := registered.next (.step rfl rfl)
  have admitted := stepping.next (.call (.admitRequest 0 6) rfl rfl)
  have pushed := admitted.next (.call (.pushTokens 0 [7] []) rfl rfl)
  have finished := pushed.next (.call (.deferFinish 0 .stop) rfl rfl)
  have committed := finished.next (.commit rfl)
  have down := committed.next (.teardown _ rfl committed.enumerates)
  have gone := down.next (.close rfl)
  have dropped := gone.next (.outside (.drop [] _ [] rfl))
  exact ⟨_, dropped, rfl, rfl, (dropped.terminal_exactly_once 0).2.2 rfl rfl (by decide) (by decide)⟩

end PegaInfer.Frontend
