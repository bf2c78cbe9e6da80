import PegaInfer.Qwen3.Life
import PegaInfer.Frontend.Effect

namespace PegaInfer.Qwen3

open Frontend

/-- An account before and after its admission. -/
def Queued (account : Option Account) : Prop := ∃ held, account = some held ∧ held.state = .queued

def Admitted (account : Option Account) : Prop :=
  ∃ held completionTokens, account = some held ∧ held.state = .active completionTokens

theorem Admitted.isActive {ledger : RequestLedger} {id : RequestId}
    (standing : Admitted (ledger.accounts id)) :
    ledger.isActive id = true := by
  obtain ⟨held, completionTokens, opened, active⟩ := standing
  obtain ⟨promptLen, queuedAt, state⟩ := held
  cases active
  simp [RequestLedger.isActive, opened]

/-- What a call needs of the account it names. -/
def LedgerCall.Allowed (account : Option Account) : LedgerCall → Prop
  | .admitRequest _ _ | .reject _ _ => Queued account
  | .pushTokens _ ids logprobs => Admitted account ∧ (logprobs = [] ∨ logprobs.length = ids.length)
  | .setCachedTokens _ _ | .echoPrompt _ _ | .kvTransfer _ _ | .finish _ _ | .deferFinish _ _ =>
    Admitted account
  | .fail _ _ | .retire _ => account.isSome = true

def LedgerCall.closes : LedgerCall → Bool
  | .reject _ _ | .finish _ _ | .fail _ _ | .retire _ | .deferFinish _ _ => true
  | _ => false

theorem LedgerCall.call_returns {ledger : RequestLedger} {call : LedgerCall}
    (allowed : LedgerCall.Allowed (ledger.accounts call.id) call) :
    ∃ next deferred, ledger.call call = .returned next deferred := by
  cases call with
  | admitRequest id now | reject id reason =>
    obtain ⟨held, opened, queued⟩ := allowed
    simp only [LedgerCall.id] at opened
    simp [RequestLedger.call, RequestLedger.admitRequest, RequestLedger.reject, opened, queued]
  | pushTokens id ids logprobs =>
    obtain ⟨⟨held, completionTokens, opened, active⟩, fits⟩ := allowed
    simp only [LedgerCall.id] at opened
    simp [RequestLedger.call, RequestLedger.pushTokens, opened, active, fits]
  | setCachedTokens id cachedTokens | echoPrompt id echo | kvTransfer id params =>
    have active := Admitted.isActive allowed
    simp only [LedgerCall.id] at active
    simp [RequestLedger.call, RequestLedger.setCachedTokens, RequestLedger.echoPrompt,
      RequestLedger.kvTransfer,
      RequestLedger.writeActive, active]
  | finish id reason | deferFinish id reason =>
    obtain ⟨held, completionTokens, opened, active⟩ := allowed
    simp only [LedgerCall.id] at opened
    simp [RequestLedger.call, RequestLedger.finish, RequestLedger.deferFinish, opened, active]
  | fail id message | retire id =>
    obtain ⟨held, opened⟩ := Option.isSome_iff_exists.mp allowed
    simp only [LedgerCall.id] at opened
    simp [RequestLedger.call, RequestLedger.fail, RequestLedger.retire, opened]

/-- A call that returns leaves its account closed or admitted. -/
theorem LedgerCall.call_leaves {ledger next : RequestLedger} {call : LedgerCall}
    {deferred : Option RequestUpdate}
    (run : ledger.call call = .returned next deferred) :
    if LedgerCall.closes call then next.accounts call.id = none else Admitted (next.accounts call.id) := by
  obtain ⟨account, -, effect, -⟩ := RequestLedger.call_effect run
  generalize next.accounts call.id = after at effect ⊢
  generalize next.statement.record call.id = record at effect
  generalize call.id = id at effect
  cases effect with
  | admitRequest queued => exact ⟨_, 0, rfl, rfl⟩
  | write change writes active only =>
    have stays : LedgerCall.closes call = false := by
      cases call <;> first | rfl | simp [LedgerCall.writes] at writes
    rw [stays]
    exact ⟨_, _, rfl, rfl⟩
  | settle settles counts =>
    have closes : LedgerCall.closes call = true := by
      cases call <;> first | rfl | simp [LedgerCall.settles] at settles
    rw [closes]
    rfl
  | retire => rfl
  | defer active => rfl

/-- What the scheduler did to one request: events about it, and nothing to any other
account. -/
structure Did (id : RequestId) (machine next : Machine) (new : List Event) : Prop where
  scheduler : next.scheduler = machine.scheduler
  sound : machine.panicked = false → next.panicked = false
  events : next.events = machine.events ++ new
  about : ∀ event ∈ new, event.about = some id
  elsewhere : ∀ other, other ≠ id → next.ledger.accounts other = machine.ledger.accounts other

theorem Did.trans {id : RequestId} {first second third : Machine} {one two : List Event}
    (early : Did id first second one)
    (late : Did id second third two) : Did id first third (one ++ two) where
  scheduler := late.scheduler.trans early.scheduler
  sound calm := late.sound (early.sound calm)
  events := by rw [late.events, early.events, List.append_assoc]
  about := by
    intro event member
    rcases List.mem_append.mp member with member | member
    · exact early.about event member
    · exact late.about event member
  elsewhere other apart := (late.elsewhere other apart).trans (early.elsewhere other apart)

theorem Machine.record_did (machine : Machine) {id : RequestId} {event : Event}
    (about : event.about = some id) :
    Did id machine (machine.record event) [event] where
  scheduler := rfl
  sound calm := calm
  events := rfl
  about := by simpa using about
  elsewhere _ _ := rfl

theorem Machine.dropRequest_did (machine : Machine) (id : RequestId) :
    Did id machine (machine.dropRequest id) [.dropped id] :=
  machine.record_did rfl

theorem Machine.call_did {machine : Machine} {call : LedgerCall}
    (allowed : LedgerCall.Allowed (machine.ledger.accounts call.id) call) :
    Did call.id machine (machine.call call) [.called call] ∧
      if LedgerCall.closes call then (machine.call call).ledger.accounts call.id = none
      else Admitted ((machine.call call).ledger.accounts call.id) := by
  obtain ⟨next, deferred, run⟩ := LedgerCall.call_returns allowed
  have same : machine.call call = { machine with ledger := next }.record (.called call) := by
    rw [Machine.call, run]
  obtain ⟨account, -, -, elsewhere⟩ := RequestLedger.call_effect run
  rw [same]
  refine ⟨⟨rfl, id, rfl, by simp [Event.about], fun other apart => (elsewhere other apart).1⟩, ?_⟩
  exact LedgerCall.call_leaves run

theorem Machine.probe_eq {machine : Machine} {id : RequestId}
    (held : (machine.ledger.accounts id).isSome = true) :
    machine.probe id = machine := by
  simp [Machine.probe, held]

/-- A request without what its prefill has added to it. -/
def PendingRequest.asSubmitted (req : PendingRequest) : PendingRequest :=
  { req with prefetchOffered := false, prefillPos := 0, stepChunk := 0, cachedTokens := 0 }

/-- The one place of an open request. -/
inductive Entry
  | held (req : PendingRequest)
  | waiting (req : PendingRequest)
  | filling (req : PendingRequest)
  | decoding (req : ActiveRequestState)
  | finishing (ended : RequestId × FinishReason)

namespace Entry

def id : Entry → RequestId
  | held req | waiting req | filling req => req.requestId
  | decoding req => req.requestId
  | finishing ended => ended.1

def stage : Entry → Stage
  | held _ => .held
  | waiting _ => .waiting
  | filling _ => .filling
  | decoding req => .decoding req
  | finishing ended => .finishing ended.2

/-- A request that has not been prefilled is still the one submitted. -/
def Agrees (submitted : PendingRequest) : Entry → Prop
  | held req | waiting req | filling req => req.asSubmitted = submitted
  | _ => True

end Entry

/-- The account of a request by its stage. -/
def Stage.Standing (account : Option Account) : Stage → Prop
  | .held | .waiting => Queued account
  | .filling | .decoding _ | .finishing _ => Admitted account
  | .closed => account = none

theorem Stage.Standing.isSome {account : Option Account} {entry : Entry}
    (standing : entry.stage.Standing account) :
    account.isSome = true := by
  cases entry with
  | held | waiting =>
    obtain ⟨held, rfl, -⟩ := standing
    rfl
  | filling | decoding | finishing =>
    obtain ⟨held, completionTokens, rfl, -⟩ := standing
    rfl

/-- The entries of one container. -/
def every {α : Type} (entry : α → Entry) (items : List α) : Multiset Entry := (items.map entry : List Entry)

@[simp]
theorem every_nil {α : Type} (entry : α → Entry) : every entry [] = 0 := rfl

@[simp]
theorem every_cons {α : Type} (entry : α → Entry) (item : α) (items : List α) :
    every entry (item :: items) = entry item ::ₘ every entry items := rfl

@[simp]
theorem every_append {α : Type} (entry : α → Entry) (one two : List α) :
    every entry (one ++ two) = every entry one + every entry two := by
  simp [every]

theorem mem_every {α : Type} (entry : α → Entry) {item : α} {items : List α}
    (member : item ∈ items) : entry item ∈ every entry items :=
  Multiset.mem_coe.mpr (List.mem_map_of_mem member)

theorem every_perm {α : Type} (entry : α → Entry) {one two : List α} (same : one.Perm two) :
    every entry one = every entry two :=
  Multiset.coe_eq_coe.mpr (same.map entry)

/-- The requests the scheduler has outside the running batch. -/
def Qwen3Scheduler.aside (scheduler : Qwen3Scheduler) : Multiset Entry :=
  every .held scheduler.postControlDeferred + every .waiting scheduler.deferred +
    every .waiting scheduler.loading +
    every .filling scheduler.prefilling + every .filling (scheduler.inflightPrefillPending.getD [])

/-- Every request the scheduler has somewhere. -/
def Qwen3Scheduler.placed (scheduler : Qwen3Scheduler) : Multiset Entry :=
  every .decoding scheduler.active + scheduler.aside

/-- No request is lost: each is at one of the entries or its life is over. -/
structure Kept (telling : Telling) (submitted : List Submission) (machine : Machine)
    (entries : Multiset Entry) : Prop where
  sound : machine.panicked = false
  fresh : (submitted.map Submission.id).Nodup
  past : ∀ submission ∈ submitted, submission.since ≤ machine.events.length
  distinct : (entries.map Entry.id).Nodup
  lives : ∀ entry ∈ entries, ∃ submission ∈ submitted, submission.id = entry.id ∧
    entry.Agrees submission.req ∧
    Life telling submission (submission.history machine.events) entry.stage ∧
    entry.stage.Standing (machine.ledger.accounts entry.id)
  over_ : ∀ submission ∈ submitted, submission.id ∉ entries.map Entry.id →
    Life telling submission (submission.history machine.events) .closed ∧
      machine.ledger.accounts submission.id = none

section

variable {telling : Telling} {submitted : List Submission} {machine next : Machine}
  {entries : Multiset Entry} {entry : Entry}
  {events : List Event}

/-- Two submissions of one id are the same. -/
theorem same_submission (fresh : (submitted.map Submission.id).Nodup) {one two : Submission}
    (first : one ∈ submitted)
    (second : two ∈ submitted) (same : one.id = two.id) : one = two :=
  List.inj_on_of_nodup_map fresh first second same

/-- What was done to one request shows in the history of no other. -/
theorem Did.history_other {id : RequestId} (did : Did id machine next events) {submission : Submission}
    (past : submission.since ≤ machine.events.length) (apart : submission.id ≠ id) :
    submission.history next.events = submission.history machine.events := by
  rw [did.events, submission.history_append events past,
    filter_concerns_other did.about apart, List.append_nil]

theorem Did.history_own {id : RequestId} (did : Did id machine next events) {submission : Submission}
    (past : submission.since ≤ machine.events.length) (own : submission.id = id) :
    submission.history next.events = submission.history machine.events ++ events := by
  rw [did.events, submission.history_append events past, own, filter_concerns_self did.about]

theorem Kept.past_after (kept : Kept telling submitted machine entries) {id : RequestId}
    (did : Did id machine next events) :
    ∀ submission ∈ submitted, submission.since ≤ next.events.length := by
  intro submission member
  have before := kept.past submission member
  rw [did.events, List.length_append]
  omega

/-- The entry at hand moves on. -/
theorem Kept.move (kept : Kept telling submitted machine (entry ::ₘ entries))
    (did : Did entry.id machine next events) (after : Entry)
    (same : after.id = entry.id)
    (goes : ∀ submission ∈ submitted, submission.id = entry.id → entry.Agrees submission.req →
      Life telling submission (submission.history machine.events) entry.stage →
      after.Agrees submission.req ∧
        Life telling submission (submission.history machine.events ++ events) after.stage)
    (standing : after.stage.Standing (next.ledger.accounts entry.id)) :
    Kept telling submitted next (after ::ₘ entries) where
  sound := did.sound kept.sound
  fresh := kept.fresh
  past := kept.past_after did
  distinct := by simpa [same] using kept.distinct
  lives := by
    intro other member
    rcases Multiset.mem_cons.mp member with rfl | member
    · obtain ⟨submission, known, own, agrees, life, -⟩ := kept.lives entry (Multiset.mem_cons_self _ _)
      obtain ⟨agrees', life'⟩ := goes submission known own agrees life
      refine ⟨submission, known, own.trans same.symm, agrees', ?_, by rwa [same]⟩
      rwa [did.history_own (kept.past submission known) own]
    · have apart : other.id ≠ entry.id := by
        intro clash
        have distinct := kept.distinct
        rw [Multiset.map_cons, Multiset.nodup_cons] at distinct
        exact distinct.1 (clash ▸ Multiset.mem_map_of_mem Entry.id member)
      obtain ⟨submission, known, own, agrees, life, standing⟩ :=
        kept.lives other (Multiset.mem_cons_of_mem member)
      refine ⟨submission, known, own, agrees, ?_, by rwa [did.elsewhere _ apart]⟩
      rwa [did.history_other (kept.past submission known) (by rwa [own])]
  over_ := by
    intro submission known absent
    have absent' : submission.id ∉ (entry ::ₘ entries).map Entry.id := by simpa [same] using absent
    have apart : submission.id ≠ entry.id := by
      intro clash
      exact absent' (by simp [clash])
    obtain ⟨life, account⟩ := kept.over_ submission known absent'
    exact ⟨by rwa [did.history_other (kept.past submission known) apart], by rwa [did.elsewhere _ apart]⟩

/-- The entry at hand is closed. -/
theorem Kept.close (kept : Kept telling submitted machine (entry ::ₘ entries))
    (did : Did entry.id machine next events)
    (goes : ∀ submission, submission.id = entry.id →
      Life telling submission (submission.history machine.events) entry.stage →
      Life telling submission (submission.history machine.events ++ events) .closed)
    (standing : next.ledger.accounts entry.id = none) :
    Kept telling submitted next entries := by
  have distinct := kept.distinct
  rw [Multiset.map_cons, Multiset.nodup_cons] at distinct
  refine ⟨did.sound kept.sound, kept.fresh, kept.past_after did, distinct.2, ?_, ?_⟩
  · intro other member
    have apart : other.id ≠ entry.id := by
      intro clash
      exact distinct.1 (clash ▸ Multiset.mem_map_of_mem Entry.id member)
    obtain ⟨submission, known, own, agrees, life, standing⟩ :=
      kept.lives other (Multiset.mem_cons_of_mem member)
    refine ⟨submission, known, own, agrees, ?_, by rwa [did.elsewhere _ apart]⟩
    rwa [did.history_other (kept.past submission known) (by rwa [own])]
  · intro submission known absent
    by_cases own : submission.id = entry.id
    · obtain ⟨other, member, same, -, life, -⟩ := kept.lives entry (Multiset.mem_cons_self _ _)
      obtain rfl := same_submission kept.fresh known member (own.trans same.symm)
      refine ⟨?_, by rwa [own]⟩
      rw [did.history_own (kept.past _ known) own]
      exact goes _ own life
    · obtain ⟨life, account⟩ := kept.over_ submission known (by simpa [own] using absent)
      exact ⟨by rwa [did.history_other (kept.past submission known) own], by rwa [did.elsewhere _ own]⟩

theorem Kept.standing (kept : Kept telling submitted machine entries) (member : entry ∈ entries) :
    entry.stage.Standing (machine.ledger.accounts entry.id) := by
  obtain ⟨submission, -, -, -, -, standing⟩ := kept.lives entry member
  exact standing

/-- Only the history, the accounts and the panic flag matter. -/
theorem Kept.congr (kept : Kept telling submitted machine entries) (sound : next.panicked = machine.panicked)
    (events : next.events = machine.events) (accounts : next.ledger.accounts = machine.ledger.accounts) :
    Kept telling submitted next entries := by
  refine ⟨sound.trans kept.sound, kept.fresh, ?_, kept.distinct, ?_, ?_⟩
  · rw [events]
    exact kept.past
  · rw [events, accounts]
    exact kept.lives
  · rw [events, accounts]
    exact kept.over_

theorem Kept.update (kept : Kept telling submitted machine entries)
    (change : Qwen3Scheduler → Qwen3Scheduler) :
    Kept telling submitted (machine.update change) entries :=
  kept.congr rfl rfl rfl

end

end PegaInfer.Qwen3
