import PegaInfer.Frontend.Life

namespace PegaInfer.Frontend

/-- What a stretch of a request's history has to tell its client: the tokens,
the hand-off metadata last set, and whether the request was admitted in it. -/
@[ext]
structure Facts where
  tokens : List Token
  kvTransfer : Option String
  admitted : Bool
  deriving DecidableEq

namespace Facts

def none : Facts := ⟨[], .none, false⟩

/-- Two stretches, one after the other. -/
def then_ (first second : Facts) : Facts :=
  ⟨first.tokens ++ second.tokens, second.kvTransfer.or first.kvTransfer, first.admitted || second.admitted⟩

@[simp]
theorem none_then (facts : Facts) : none.then_ facts = facts := by
  ext <;> simp [then_, none]

@[simp]
theorem then_none (facts : Facts) : facts.then_ none = facts := by
  ext <;> simp [then_, none]

theorem then_assoc (first second third : Facts) :
    (first.then_ second).then_ third = first.then_ (second.then_ third) := by
  ext1
  · simp [then_]
  · simp [then_, Option.or_assoc]
  · simp [then_, Bool.or_assoc]

end Facts

/-- What one ledger call has to tell. -/
def LedgerCall.facts : LedgerCall → Facts
  | .admitRequest _ _ => { Facts.none with admitted := true }
  | .pushTokens _ ids _ => { Facts.none with tokens := ids }
  | .kvTransfer _ params => { Facts.none with kvTransfer := some params }
  | _ => .none

def RequestUpdate.facts (update : RequestUpdate) : Facts :=
  ⟨update.tokens, update.kvTransfer, update.scheduled.isSome⟩

/-- The facts of a run of calls, of records, or of anything else that has some. -/
def factsOf {Entry : Type} (facts : Entry → Facts) (entries : List Entry) : Facts :=
  entries.foldr (fun entry later => (facts entry).then_ later) .none

section FactsOf

variable {Entry : Type} {facts : Entry → Facts}

@[simp]
theorem factsOf_nil : factsOf facts [] = .none := rfl

@[simp]
theorem factsOf_cons (entry : Entry) (entries : List Entry) :
    factsOf facts (entry :: entries) = (facts entry).then_ (factsOf facts entries) := rfl

@[simp]
theorem factsOf_append (first second : List Entry) :
    factsOf facts (first ++ second) = (factsOf facts first).then_ (factsOf facts second) := by
  induction first with
  | nil => simp
  | cons entry first ih => simp [ih, Facts.then_assoc]

theorem factsOf_singleton (entry : Entry) : factsOf facts [entry] = facts entry := by
  simp

end FactsOf

theorem RequestUpdate.facts_of_isVacant {update : RequestUpdate} (vacant : update.isVacant = true) :
    update.facts = .none := by
  simp only [isVacant, Bool.and_eq_true, Option.isNone_iff_eq_none, List.isEmpty_iff] at vacant
  obtain ⟨⟨⟨⟨⟨scheduled, tokens⟩, _⟩, _⟩, kvTransfer⟩, _⟩ := vacant
  ext <;> simp [facts, Facts.none, scheduled, tokens, kvTransfer]

theorem LedgerCall.facts_of_settles {call : LedgerCall} (settles : call.settles = true) :
    call.facts = .none := by
  cases call <;> first | rfl | cases settles

/-- The record a holder still has to ship. -/
def Holder.unshipped : Holder → List RequestUpdate
  | .account _ record => record.toList
  | .statement record => [record]
  | .deferred update => [update]
  | _ => []

/-- A request's calls, cut at the records it was shipped: every record tells
what its stretch of calls has to tell, and what is not shipped yet is held. -/
def Told (calls : List LedgerCall) (life : Life) : Prop :=
  ∃ spans rest, calls = spans.flatten ++ rest ∧
    List.Forall₂ (fun span update => factsOf LedgerCall.facts span = update.facts) spans life.shipped ∧
    (life.holder ≠ .retired → factsOf LedgerCall.facts rest =
      factsOf RequestUpdate.facts life.holder.unshipped) ∧
    (life.holder = .answered → rest = [])

/-- The hand-overs that are no call of the scheduler's lose nothing. -/
def Keeps (life next : Life) : Prop := ∀ calls, Told calls life → Told calls next

theorem Keeps.refl (life : Life) : Keeps life life := fun _ told => told

theorem Keeps.trans {life next last : Life} (first : Keeps life next) (second : Keeps next last) :
    Keeps life last :=
  fun calls told => second calls (first calls told)

/-- Shipping one record that tells what was held back. -/
theorem Told.ship {calls : List LedgerCall} {holder : Holder} {shipped : List RequestUpdate}
    {update : RequestUpdate}
    (told : Told calls ⟨holder, shipped⟩) (running : holder ≠ .retired)
    (same : factsOf RequestUpdate.facts holder.unshipped = update.facts) (next : Holder)
    (empty : next.unshipped = []) :
    Told calls ⟨next, shipped ++ [update]⟩ := by
  obtain ⟨spans, rest, cut, told, held, done⟩ := told
  refine ⟨spans ++ [rest], [], by simp [cut],
    List.rel_append told (.cons ((held running).trans same) .nil), ?_, fun _ => rfl⟩
  intro _
  simp [empty]

/-- The duty changes hands with the record, or with none. -/
theorem Told.hand {calls : List LedgerCall} {holder next : Holder} {shipped : List RequestUpdate}
    (told : Told calls ⟨holder, shipped⟩) (running : holder ≠ .retired)
    (same : factsOf RequestUpdate.facts next.unshipped = factsOf RequestUpdate.facts holder.unshipped)
    (unanswered : next ≠ .answered) : Told calls ⟨next, shipped⟩ := by
  obtain ⟨spans, rest, cut, told, held, done⟩ := told
  exact ⟨spans, rest, cut, told, fun _ => (held running).trans same.symm, fun answered =>
    absurd answered unanswered⟩

/-- A call of the scheduler's adds its own facts to what is held. -/
theorem Told.call {calls : List LedgerCall} {holder next : Holder}
    {shipped : List RequestUpdate} {call : LedgerCall}
    (told : Told calls ⟨holder, shipped⟩) (running : holder ≠ .retired)
    (adds : next ≠ .retired → factsOf RequestUpdate.facts next.unshipped =
      (factsOf RequestUpdate.facts holder.unshipped).then_ call.facts)
    (unanswered : next ≠ .answered) : Told (calls ++ [call]) ⟨next, shipped⟩ := by
  obtain ⟨spans, rest, cut, told, held, done⟩ := told
  refine ⟨spans, rest ++ [call], by simp [cut], told, fun kept => ?_, fun answered =>
    absurd answered unanswered⟩
  rw [factsOf_append, held running, factsOf_singleton, adds kept]

theorem Keeps.bomb {holder : Holder} (empty : holder.unshipped = []) (running : holder ≠ .retired)
    (shipped : List RequestUpdate) (envelope : Envelope) :
    Keeps ⟨holder, shipped⟩ ⟨.answered, shipped ++ [envelope.bomb]⟩ := by
  intro calls told
  exact told.ship running (by rw [empty]; rfl) .answered rfl

theorem Keeps.commit (account : Account) (record : Option RequestUpdate) (shipped : List RequestUpdate) :
    Keeps ⟨.account account record, shipped⟩
      ⟨.account account none, shipped ++ record.toList.filter fun update => !update.isVacant⟩ := by
  intro calls told
  cases record with
  | none => simpa using told
  | some update =>
    by_cases vacant : update.isVacant = true
    · have same : factsOf RequestUpdate.facts (Holder.account account none).unshipped =
          factsOf RequestUpdate.facts (Holder.account account (some update)).unshipped := by
        simp [Holder.unshipped, RequestUpdate.facts_of_isVacant vacant]
      simpa [vacant] using told.hand (by simp) same (by simp)
    · simpa [vacant] using told.ship (by simp) (factsOf_singleton update) (.account account none) rfl

/-- Sending the record a holder has, possibly with another terminal. -/
theorem Keeps.send {holder : Holder} {update sent : RequestUpdate} (held : holder.unshipped = [update])
    (running : holder ≠ .retired) (same : sent.facts = update.facts) (shipped : List RequestUpdate) :
    Keeps ⟨holder, shipped⟩ ⟨.answered, shipped ++ [sent]⟩ := by
  intro calls told
  exact told.ship running (by rw [held, factsOf_singleton, same]) .answered rfl

theorem dropDeferred_facts (update : RequestUpdate) : (dropDeferred update).facts = update.facts := rfl

theorem Keeps.dropped (update : RequestUpdate) (shipped : List RequestUpdate) :
    Keeps ⟨.deferred update, shipped⟩ ⟨.answered, shipped ++ [dropDeferred update]⟩ :=
  .send rfl (by simp) (dropDeferred_facts update) shipped

theorem Keeps.sweep (id : RequestId) (account : Account) (shipped : List RequestUpdate) :
    Keeps ⟨.account account none, shipped⟩ ⟨.answered,
      shipped ++ [RequestLedger.sweepUpdate id account]⟩ := by
  intro calls told
  exact told.ship (by simp) rfl .answered rfl

theorem Keeps.settle (id : RequestId) (account : Account) (record : Option RequestUpdate)
    (terminal : Terminal)
    (shipped : List RequestUpdate) :
    Keeps ⟨.account account record, shipped⟩
      ⟨.statement { record.getD (.empty id) with terminal := some terminal }, shipped⟩ := by
  intro calls told
  refine told.hand (by simp) ?_ (by simp)
  cases record with
  | none => rfl
  | some update => rfl

/-- A hand-over that is no call of the scheduler's. -/
def HandOver (id : RequestId) (life next : Life) : Prop := LifeStep id life next ∧ Keeps life next

theorem HandOver.run_keeps {id : RequestId} {life next : Life}
    (steps : Relation.ReflTransGen (HandOver id) life next) :
    Keeps life next := by
  induction steps with
  | refl => exact .refl life
  | tail _ step ih => exact ih.trans step.2

theorem HandOver.run_life {id : RequestId} {life next : Life}
    (steps : Relation.ReflTransGen (HandOver id) life next) :
    Relation.ReflTransGen (LifeStep id) life next := by
  induction steps with
  | refl => exact .refl
  | tail _ step ih => exact ih.tail step.1

end PegaInfer.Frontend
