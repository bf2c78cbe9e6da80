import PegaInfer.Qwen3.Progress

namespace PegaInfer.Qwen3

open Frontend
open SwapRemove

theorem findIdx?_requestId {active : List ActiveRequestState}
    (distinct : (active.map (·.requestId)).Nodup) {index : Nat}
    {req : ActiveRequestState} (found : active[index]? = some req) :
    active.findIdx? (·.requestId = req.requestId) = some index := by
  obtain ⟨bound, rfl⟩ := List.getElem?_eq_some_iff.mp found
  rw [List.findIdx?_eq_some_iff_getElem]
  refine ⟨bound, by simp, ?_⟩
  intro other earlier
  have apart : active[other].requestId ≠ active[index].requestId := by
    intro clash
    have low : other < (active.map (·.requestId)).length := by rw [List.length_map]; omega
    have high : index < (active.map (·.requestId)).length := by rwa [List.length_map]
    have same : (active.map (·.requestId))[other] = (active.map (·.requestId))[index] := by simpa using clash
    exact absurd ((distinct.getElem_inj_iff).mp same) (by omega)
  simp [apart]

/-- A running request ends: it is retired, or its last tokens are pushed and its
finish is collected. -/
theorem Kept.finishOne {telling : Telling} {submitted : List Submission} {entries : Multiset Entry}
    {entry : Entry} {state : Applying}
    {push : Option LedgerCall} {reason : FinishReason} (aborted : RequestId → Bool)
    (kept : Kept telling submitted state.machine (entry ::ₘ entries))
    (running : entry.stage.isRunning = true) (fits : Fits push entry.id)
    (goes : ∀ submission ∈ submitted, submission.id = entry.id → entry.Agrees submission.req →
      Life telling submission (submission.history state.machine.events) entry.stage →
      Life telling submission
        (submission.history state.machine.events ++
          (push.toList.map .called ++ [.dropped submission.id])) (.finishing reason)) :
    ∃ finished machine new, state.finishOne aborted entry.id push reason =
      { state with machine, finishes := state.finishes ++ finished } ∧
      Did entry.id state.machine (machine.dropRequest entry.id) new ∧
      Kept telling submitted (machine.dropRequest entry.id) (every .finishing finished + entries) := by
  have active : Admitted (state.machine.ledger.accounts entry.id) := by
    have standing := kept.standing (Multiset.mem_cons_self entry entries)
    cases entry with
    | filling | decoding => exact standing
    | held | waiting | finishing => simp [Entry.stage, Stage.isRunning] at running
  have held : (state.machine.ledger.accounts entry.id).isSome = true := by
    obtain ⟨held, completionTokens, opened, -⟩ := active
    simp [opened]
  have probed := Machine.probe_eq held
  by_cases flag : aborted entry.id = true
  · obtain ⟨closed, -⟩ := kept.retireAborted (.inr running)
    obtain ⟨retiring, -⟩ := @Machine.call_did state.machine (.retire entry.id) held
    refine ⟨[], state.machine.call (.retire entry.id), _, ?_,
      retiring.trans (Machine.dropRequest_did _ _), ?_⟩
    · simp [Applying.finishOne, active.isActive, probed, flag]
    · simpa [Machine.retireAborted] using closed
  · obtain ⟨pushed, pushing, admitted, run⟩ :
      ∃ pushed, Did entry.id state.machine pushed (push.toList.map .called) ∧
        Admitted (pushed.ledger.accounts entry.id) ∧ state.finishOne aborted entry.id push reason =
          { state with machine := pushed, finishes := state.finishes ++ [(entry.id, reason)] } := by
      cases push with
      | none =>
        refine ⟨state.machine, ⟨rfl, id, by simp, by simp, fun _ _ => rfl⟩, active, ?_⟩
        simp [Applying.finishOne, active.isActive, probed, flag]
      | some call =>
        obtain ⟨own, stays, allowed⟩ := fits call rfl
        obtain ⟨did, left⟩ := @Machine.call_did state.machine call (allowed _ (own ▸ active))
        rw [own, stays] at left
        rw [own] at did
        refine ⟨state.machine.call call, did, left, ?_⟩
        simp [Applying.finishOne, active.isActive, probed, flag]
    have did := pushing.trans (pushed.dropRequest_did entry.id)
    refine ⟨[(entry.id, reason)], pushed, _, run, did, ?_⟩
    rw [every_cons, every_nil, Multiset.cons_add, zero_add]
    refine kept.move did (.finishing (entry.id, reason)) rfl ?_ admitted
    intro submission known own agrees life
    have over_ := goes submission known own agrees life
    rw [own] at over_
    exact ⟨trivial, over_⟩

/-- The decode loop of `apply_effects` under way: the requests retired so far are out
of the running batch in all but name. -/
structure Underway (telling : Telling) (submitted : List Submission) (base : Multiset Entry)
    (state : Applying) : Prop where
  kept : Kept telling submitted state.machine
    (every .decoding (survivors state.machine.scheduler.active state.toRetire) +
      (every .finishing state.finishes + base))
  inside : ∀ i ∈ state.toRetire, i < state.machine.scheduler.active.length
  distinct : (state.machine.scheduler.active.map (·.requestId)).Nodup

/-- An effect the loop has still to apply. -/
structure Due (telling : Telling) (submitted : List Submission) (state : Applying)
    (effect : DecodeEffect) (index : Nat)
    (req : ActiveRequestState) : Prop where
  found : state.machine.scheduler.active[index]? = some req
  own : req.requestId = effect.requestId
  kept : index ∉ state.toRetire
  told : ∀ submission ∈ submitted, submission.id = effect.requestId →
    telling.decodes submission.req (pushedBy (submission.history state.machine.events)) req effect

/-- What one turn of the loop leaves as it was. -/
structure Turned (state next : Applying) (id : RequestId) (index : Nat) : Prop where
  scheduler : next.machine.scheduler =
    { state.machine.scheduler with active := next.machine.scheduler.active }
  others : ∀ other, other ≠ index → next.machine.scheduler.active[other]? =
    state.machine.scheduler.active[other]?
  retired : ∀ i ∈ next.toRetire, i = index ∨ i ∈ state.toRetire
  continued : next.continued = state.continued
  events : ∃ new : List Event, next.machine.events = state.machine.events ++ new ∧
    ∀ event ∈ new, event.about = some id

section

variable {telling : Telling} {submitted : List Submission} {base : Multiset Entry}
  {state : Applying} {effect : DecodeEffect} {index : Nat}
  {req : ActiveRequestState}

theorem Underway.split (underway : Underway telling submitted base state)
    (due : Due telling submitted state effect index req) :
    Kept telling submitted state.machine (.decoding req ::ₘ
      (every .decoding (survivors state.machine.scheduler.active (index :: state.toRetire)) +
        (every .finishing state.finishes + base))) := by
  have split := @survivorsFrom_split _ state.machine.scheduler.active 0 index state.toRetire req (by omega)
    (by simpa using due.found) due.kept
  have kept := underway.kept
  rwa [every_perm .decoding split, every_cons, Multiset.cons_add] at kept

/-- An effect still to be applied names a request that runs. -/
theorem Underway.running (underway : Underway telling submitted base state)
    (due : Due telling submitted state effect index req) :
    state.machine.scheduler.active.findIdx? (·.requestId = effect.requestId) = some index ∧
      Admitted (state.machine.ledger.accounts effect.requestId) := by
  have position := findIdx?_requestId underway.distinct due.found
  have active : Admitted (state.machine.ledger.accounts req.requestId) :=
    (underway.split due).standing (Multiset.mem_cons_self _ _)
  rw [due.own] at position active
  exact ⟨position, active⟩

/-- The request ends without an answer: it is retired, or its finish is collected. -/
theorem Underway.retire (underway : Underway telling submitted base state)
    (due : Due telling submitted state effect index req)
    {next : Applying} {finishes : List (RequestId × FinishReason)}
    (retired : next.toRetire = state.toRetire ++ [index])
    (scheduler : next.machine.scheduler = state.machine.scheduler) (collected : next.finishes = finishes)
    (kept : Kept telling submitted next.machine
      (every .decoding (survivors state.machine.scheduler.active (index :: state.toRetire)) +
        (every .finishing finishes + base))) :
    Underway telling submitted base next := by
  have bound := (List.getElem?_eq_some_iff.mp due.found).1
  refine ⟨?_, ?_, ?_⟩
  · have same : survivors state.machine.scheduler.active (state.toRetire ++ [index]) =
        survivors state.machine.scheduler.active (index :: state.toRetire) :=
      survivorsFrom_congr fun i _ _ => by simp [or_comm]
    rw [scheduler, retired, collected, same]
    exact kept
  · intro i member
    rw [retired] at member
    rw [scheduler]
    rcases List.mem_append.mp member with member | member
    · exact underway.inside i member
    · obtain rfl : i = index := by simpa using member
      exact bound
  · rw [scheduler]
    exact underway.distinct

theorem Turned.of_retire {next : Applying} {id : RequestId} {new : List Event}
    (did : Did id state.machine next.machine new)
    (retired : next.toRetire = state.toRetire ++ [index]) (continued : next.continued = state.continued) :
    Turned state next id index where
  scheduler := by rw [did.scheduler]
  others _ _ := by rw [did.scheduler]
  retired := by
    intro i member
    rw [retired] at member
    rcases List.mem_append.mp member with member | member
    · exact .inr member
    · exact .inl (by simpa using member)
  continued := continued
  events := ⟨new, did.events, did.about⟩

/-- One turn of the decode loop. -/
theorem Underway.decodeOne (underway : Underway telling submitted base state)
    (due : Due telling submitted state effect index req)
    (aborted : RequestId → Bool) :
    Underway telling submitted base (state.decodeOne aborted effect) ∧
      Turned state (state.decodeOne aborted effect) effect.requestId index := by
  have kept := underway.split due
  obtain ⟨position, active⟩ := underway.running due
  have probed : state.machine.probe effect.requestId = state.machine := active.probe
  have named : (Entry.decoding req).id = effect.requestId := due.own
  obtain ⟨closed, -⟩ := kept.retireAborted (.inr rfl)
  rw [named] at closed
  obtain ⟨retiring, -⟩ := @Machine.call_did state.machine (.retire effect.requestId) (by
    obtain ⟨held, completionTokens, opened, -⟩ := active
    simp [LedgerCall.id, LedgerCall.Allowed, opened])
  have retirement := retiring.trans
    ((state.machine.call (.retire effect.requestId)).dropRequest_did effect.requestId)
  cases ends : effect.reason with
  | some reason =>
    rw [Applying.decodeOne_ends position ends]
    obtain ⟨finished, machine, new, run, did, rest⟩ :=
      @Kept.finishOne _ _ _ (.decoding req) state effect.push reason aborted kept rfl
      (named ▸ effect.push_fits) (by
        intro submission known own _ life
        have same : submission.id = effect.requestId := own.trans named
        exact life.decodedLast effect (due.told submission known same) same.symm ends)
    rw [named] at run did rest
    have regroup : ∀ others : Multiset Entry, every .finishing finished +
      (others + (every .finishing state.finishes + base)) =
        others + (every .finishing (state.finishes ++ finished) + base) := by
      intro others
      rw [every_append]
      abel
    rw [regroup] at rest
    simp only [Applying.endOne, run]
    exact ⟨underway.retire due rfl did.scheduler rfl rest, .of_retire did rfl rfl⟩
  | none =>
    obtain ⟨call, push⟩ := DecodeEffect.push_of_continues ends
    rw [Applying.decodeOne_continues position ends push]
    by_cases flag : aborted effect.requestId = true
    · have run : state.continueOne aborted effect.requestId call effect.advance index =
          { state with
            machine := state.machine.retireAborted effect.requestId
            toRetire := state.toRetire ++ [index] } := by
        simp [Applying.continueOne, probed, flag]
      rw [run]
      exact ⟨underway.retire due rfl retirement.scheduler rfl closed, .of_retire retirement rfl rfl⟩
    · have run : state.continueOne aborted effect.requestId call effect.advance index =
          { state with
            machine := (state.machine.call call).update fun scheduler =>
              { scheduler with active := scheduler.active.modify index effect.advance } } := by
        simp [Applying.continueOne, probed, flag]
      obtain ⟨own, stays, allowed⟩ := effect.push_fits call push
      obtain ⟨did, left⟩ := @Machine.call_did state.machine call (allowed _ (own ▸ active))
      rw [own, stays] at left
      rw [own] at did
      have moved : Kept telling submitted (state.machine.call call) (.decoding (effect.advance req) ::ₘ
          (every .decoding (survivors state.machine.scheduler.active (index :: state.toRetire)) +
            (every .finishing state.finishes + base))) := by
        refine kept.move (named ▸ did) (.decoding (effect.advance req)) (by simp [Entry.id]) ?_ (named ▸ left)
        intro submission known own _ life
        have same : submission.id = effect.requestId := own.trans named
        exact ⟨trivial, life.decodedOn effect (due.told submission known same) same.symm ends push⟩
      have advanced : (state.machine.scheduler.active.modify index effect.advance)[index]? =
          some (effect.advance req) := by
        rw [List.getElem?_modify_eq, due.found]
        rfl
      have split := @survivorsFrom_split
        _ (state.machine.scheduler.active.modify index effect.advance) 0 index state.toRetire _
        (by omega) (by simpa using advanced) due.kept
      have same := @survivorsFrom_modify _ state.machine.scheduler.active 0 index
        (index :: state.toRetire) effect.advance (by omega)
        (by simp)
      rw [Nat.sub_zero] at same
      rw [same] at split
      rw [run]
      refine ⟨⟨?_, ?_, ?_⟩, ⟨?_, ?_, fun i member => .inr member, rfl, [.called call], did.events, did.about⟩⟩
      · simp only [Machine.update, did.scheduler]
        rw [every_perm .decoding split, every_cons, Multiset.cons_add]
        exact moved.congr rfl rfl rfl
      · simpa [Machine.update, did.scheduler] using underway.inside
      · have ids : (state.machine.scheduler.active.modify index effect.advance).map (·.requestId) =
            state.machine.scheduler.active.map (·.requestId) := by
          apply List.ext_getElem?
          intro i
          by_cases here : index = i <;> simp [here, Function.comp_def]
        simp only [Machine.update, did.scheduler]
        rw [ids]
        exact underway.distinct
      · simp [Machine.update, did.scheduler]
      · intro other apart
        simp [Machine.update, did.scheduler, apart.symm]

theorem Turned.due {next : Applying} {id : RequestId} {other : DecodeEffect} {place : Nat}
    {held : ActiveRequestState}
    (turned : Turned state next id index)
    (past : ∀ submission ∈ submitted, submission.since ≤ state.machine.events.length)
    (due : Due telling submitted state other place held) (elsewhere : place ≠ index)
    (apart : other.requestId ≠ id) :
    Due telling submitted next other place held where
  found := by rw [turned.others place elsewhere, due.found]
  own := due.own
  kept member := (turned.retired place member).elim elsewhere due.kept
  told := by
    intro submission known own
    obtain ⟨new, events, about⟩ := turned.events
    have same : submission.history next.machine.events = submission.history state.machine.events := by
      rw [events, submission.history_append new (past submission known),
        filter_concerns_other about (own ▸ apart), List.append_nil]
    rw [same]
    exact due.told submission known own

/-- The decode loop: each effect has its own request, and serves it. -/
theorem Underway.decodeAll (aborted : RequestId → Bool) {effects : List DecodeEffect}
    (underway : Underway telling submitted base state)
    (distinct : (effects.map (·.requestId)).Nodup)
    (due : ∀ effect ∈ effects, ∃ index req, Due telling submitted state effect index req) :
    Underway telling submitted base (effects.foldl (Applying.decodeOne aborted) state) ∧
      (effects.foldl (Applying.decodeOne aborted) state).machine.scheduler =
        { state.machine.scheduler with
          active := (effects.foldl (Applying.decodeOne aborted) state).machine.scheduler.active } ∧
      (effects.foldl (Applying.decodeOne aborted) state).continued = state.continued ∧
      ∀ effect ∈ effects, aborted effect.requestId = false → (effect.reason = none → effect.emits ≠ []) →
        Served effect.requestId state.machine (effects.foldl (Applying.decodeOne aborted) state) := by
  induction effects generalizing state with
  | nil => exact ⟨underway, rfl, rfl, by simp⟩
  | cons effect effects ih =>
    rw [List.map_cons, List.nodup_cons] at distinct
    obtain ⟨index, req, first⟩ := due effect List.mem_cons_self
    obtain ⟨next, turned⟩ := underway.decodeOne first aborted
    obtain ⟨rest, scheduler, continued, served⟩ := ih next distinct.2 fun other member => by
      obtain ⟨place, held, later⟩ := due other (List.mem_cons_of_mem _ member)
      have apart : other.requestId ≠ effect.requestId :=
        fun clash => distinct.1 (clash ▸ List.mem_map_of_mem member)
      refine ⟨place, held, turned.due underway.kept.past later ?_ apart⟩
      rintro rfl
      have same : held = req := Option.some.inj (later.found.symm.trans first.found)
      exact apart (by rw [← later.own, ← first.own, same])
    refine ⟨rest, ?_, continued.trans turned.continued, ?_⟩
    · rw [List.foldl_cons, scheduler, turned.scheduler]
    · intro other member lowered emits
      rcases List.mem_cons.mp member with rfl | member
      · obtain ⟨position, active⟩ := underway.running first
        have here := Applying.decodeOne_served position active lowered emits
        exact here.before (.foldl (Applying.decodeOne_grows aborted) _ effects)
      · exact (served other member lowered emits).after (Applying.decodeOne_calm aborted state effect)

end

end PegaInfer.Qwen3
