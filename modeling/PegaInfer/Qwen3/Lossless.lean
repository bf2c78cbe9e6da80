import PegaInfer.Qwen3.NoneLost

namespace PegaInfer.Qwen3

open Frontend
open Autoregressive

/-- The target's picks for a span fed behind `cached` tokens, one for each row. -/
def targetRows (oracle : List Token → Token) (cached span : List Token) : List Token :=
  (List.range span.length).map fun row => oracle (cached ++ span.take (row + 1))

theorem numAccepted_eq (proposed targetTokens : List Token) :
    numAccepted proposed targetTokens = agreedLength proposed targetTokens := by
  induction proposed generalizing targetTokens with
  | nil => rfl
  | cons draft proposed ih =>
    cases targetTokens with
    | nil => rfl
    | cons target targetTokens => rw [numAccepted, agreedLength_cons, ih]

/-- Whatever the drafts, what is accepted of a span is a run of the target. -/
theorem acceptPrefixMatch_generates (oracle : List Token → Token) (cached : List Token)
    (last : Token) (drafts : List Token) :
    ∃ count, acceptPrefixMatch drafts (targetRows oracle cached (last :: drafts)) =
      generate (fun context _ => oracle context) (count + 1) (cached ++ [last]) 0 := by
  refine ⟨agreedLength drafts (targetRows oracle cached (last :: drafts)), ?_⟩
  rw [acceptPrefixMatch, numAccepted_eq]
  apply agreed_generates
  · simp [targetRows]
  · intro row bound
    simp [targetRows]

section

variable (isStopToken : Token → Bool) (oracle : List Token → Token)

/-- Plain decoding of the target, `oracle`, by the scheduler's own `resolve_decode_outputs`
and `apply_effects`, one token a step: what is emitted and how it ends. -/
def plainDecode : (fuel : Nat) → ActiveRequestState → (context : List Token) →
    List Token × Option FinishReason
  | 0, _, _ => ([], none)
  | fuel + 1, req, context =>
    let effect := resolveDecoded isStopToken req
      { requestId := req.requestId, token := oracle context, logprob := none }
    let tokens := effect.push.elim [] LedgerCall.tokens
    match effect.reason with
    | some reason => (tokens, some reason)
    | none =>
      let rest := plainDecode fuel (effect.advance req) (context ++ tokens)
      (tokens ++ rest.1, rest.2)

/-- The first token, as `resolve_prefill_outputs` has it, and plain decoding behind it. -/
def plainAnswer (req : PendingRequest) : List Token × Option FinishReason :=
  let result : PrefillRequestResult :=
    { requestId := req.requestId, firstToken := oracle req.promptTokens, firstTokenLogprob := none,
      promptLogprobs := none,
      completed := true, prefillPos := req.promptTokens.length, cachedTokens := 0 }
  match resolvePrefilled isStopToken req result with
  | .finish _ reason => ([], some reason)
  | .emitAndFinish _ token _ reason => ([token], some reason)
  | .promote running token _ =>
    let rest := plainDecode isStopToken oracle (req.maxTokens - 1) running (req.promptTokens ++ [token])
    (token :: rest.1, rest.2)
  | .continuePrefill _ => ([], none)

end

section

variable {isStopToken : Token → Bool} {oracle : List Token → Token}

theorem plainDecode_succ (fuel : Nat) (req : ActiveRequestState) (context : List Token) :
    plainDecode isStopToken oracle (fuel + 1) req context =
      if !req.params.ignoreEos && isStopToken (oracle context) then ([], some .stop)
      else if req.maxTokens ≤ req.generatedCount + 1 then ([oracle context], some .length)
      else
        let rest := plainDecode isStopToken oracle fuel
          { req with lastToken := oracle context, generatedCount := req.generatedCount + 1 }
            (context ++ [oracle context])
        (oracle context :: rest.1, rest.2) := by
  rw [plainDecode]
  unfold resolveDecoded
  dsimp only
  split_ifs <;> rfl

/-- Plain decoding does not look at the last token: its context holds it. -/
theorem plainDecode_lastToken (fuel : Nat) (req : ActiveRequestState) (token : Token) (context : List Token) :
    plainDecode isStopToken oracle fuel { req with lastToken := token } context =
      plainDecode isStopToken oracle fuel req context := by
  cases fuel with
  | zero => rfl
  | succ fuel => rw [plainDecode_succ, plainDecode_succ]

/-- The state of a request after `count` more tokens, up to its last one. -/
def ActiveRequestState.counted (req : ActiveRequestState) (count : Nat) : ActiveRequestState :=
  { req with generatedCount := count }

/-- Walking an accepted run cuts it where one-by-one decoding stops. -/
theorem resolveAccepted_plain (req : ActiveRequestState) (emitted : List Token)
    {completionTokens : Nat} (step : Nat)
    (room : completionTokens < req.maxTokens) (context : List Token) (count : Nat) :
    (∃ tokens reason, resolveAccepted isStopToken req emitted completionTokens
          (generate (fun context _ => oracle context) count context step) =
            .emitManyAndFinish req.requestId (emitted ++ tokens) reason ∧
        plainDecode isStopToken oracle (req.maxTokens - completionTokens)
          (req.counted completionTokens) context = (tokens, some reason)) ∨
    (resolveAccepted isStopToken req emitted completionTokens
      (generate (fun context _ => oracle context) count context step) =
        .emitManyAndContinue req.requestId
          (emitted ++ generate (fun context _ => oracle context) count context step)
          (completionTokens + count) ∧ completionTokens + count < req.maxTokens ∧
      ∀ rest, plainDecode isStopToken oracle (req.maxTokens - (completionTokens + count))
        (req.counted (completionTokens + count))
          (context ++ generate (fun context _ => oracle context) count context step) = rest →
        plainDecode isStopToken oracle (req.maxTokens - completionTokens)
          (req.counted completionTokens) context =
          (generate (fun context _ => oracle context) count context step ++ rest.1, rest.2)) := by
  induction count generalizing emitted completionTokens context step with
  | zero =>
    refine .inr ⟨by simp [generate, resolveAccepted], by simpa using room, ?_⟩
    rintro rest rfl
    simp [generate]
  | succ count ih =>
    obtain ⟨fuel, left⟩ : ∃ fuel, req.maxTokens - completionTokens = fuel + 1 :=
      ⟨req.maxTokens - completionTokens - 1, by omega⟩
    rw [generate, resolveAccepted, left, plainDecode_succ]
    by_cases stop : (!req.params.ignoreEos && isStopToken (oracle context)) = true
    · exact .inl ⟨[], .stop, by rw [if_pos stop, List.append_nil], if_pos stop⟩
    rw [if_neg stop]
    by_cases full : req.maxTokens ≤ completionTokens + 1
    · exact .inl ⟨[oracle context],
        .length, by rw [if_pos full], by rw [if_neg (by exact stop), if_pos (by exact full)]⟩
    rw [if_neg full, if_neg (by exact stop), if_neg (by exact full)]
    have less : req.maxTokens - (completionTokens + 1) = fuel := by omega
    have state : ({ req.counted completionTokens with
          lastToken := oracle context, generatedCount :=
            (req.counted completionTokens).generatedCount + 1 } : ActiveRequestState) =
        { req.counted (completionTokens + 1) with lastToken := oracle context } := rfl
    rw [state, plainDecode_lastToken]
    rcases @ih (emitted ++ [oracle context]) (completionTokens + 1) (step + 1)
      (by omega) (context ++ [oracle context]) with
      ⟨tokens, reason, run, plain⟩ | ⟨run, room', rest⟩
    · rw [less] at plain
      refine .inl ⟨oracle context :: tokens, reason, ?_, ?_⟩
      · rw [run]
        simp
      · rw [plain]
    · rw [less] at rest
      have total : completionTokens + 1 + count = completionTokens + (count + 1) := by omega
      rw [total] at run room' rest
      refine .inr ⟨?_, room', ?_⟩
      · rw [run]
        simp
      · intro last plain
        rw [rest last (by simpa using plain)]
        simp

theorem plainAnswer_eq (req : PendingRequest) : plainAnswer isStopToken oracle req =
    if !req.params.ignoreEos && isStopToken (oracle req.promptTokens) then ([], some .stop)
    else if req.maxTokens ≤ 1 then ([oracle req.promptTokens], some .length)
    else
      let rest := plainDecode isStopToken oracle (req.maxTokens - 1)
        { requestId := req.requestId, loraAdapter := req.loraAdapter,
          lastToken := oracle req.promptTokens, generatedCount := 1,
          maxTokens := req.maxTokens, promptLen := req.promptTokens.length, params :=
            req.params, logprobs := req.logprobs }
        (req.promptTokens ++ [oracle req.promptTokens])
      (oracle req.promptTokens :: rest.1, rest.2) := by
  unfold plainAnswer resolvePrefilled
  simp only [Bool.not_true, Bool.false_eq_true, if_false]
  split_ifs <;> rfl

end

/-- The executor answers with the picks of one target, whether it decodes a token or
verifies a span. -/
def Telling.target (isStopToken : Token → Bool) (oracle : List Token → Token) : Telling :=
  { isStopToken
    prefills := fun req token => token = oracle req.promptTokens
    decodes := fun req pushed running effect =>
      (∃ logprob, effect = resolveDecoded isStopToken running
        { requestId := running.requestId,
          token := oracle (req.promptTokens ++ pushed.dropLast ++ [running.lastToken]), logprob }) ∨
      ∃ count, effect = resolveAccepted isStopToken running [] running.generatedCount
        (generate (fun context _ => oracle context) (count + 1)
          (req.promptTokens ++ pushed.dropLast ++ [running.lastToken]) 0)
    parked := True
    spares := False }

/-- A finish with a reason among the events of a request. -/
def FinishedWith (events : List Event) (reason : FinishReason) : Prop :=
  ∃ id, Event.called (.finish id reason) ∈ events ∨ Event.called (.deferFinish id reason) ∈ events

/-- The tokens of a request by its stage, against the plain answer. -/
def Stage.Streams (answer : List Token × Option FinishReason)
    (continues : ActiveRequestState → List Token → List Token × Option FinishReason)
    (events : List Event) : Stage → Prop
  | .held | .waiting | .filling => pushedBy events = []
  | .decoding running =>
    (pushedBy events).getLast? = some running.lastToken ∧ running.generatedCount = (pushedBy events).length ∧
      running.generatedCount < running.maxTokens ∧
      answer = (pushedBy events ++ (continues running (pushedBy events)).1,
        (continues running (pushedBy events)).2)
  | .finishing reason => answer = (pushedBy events, some reason)
  | .closed => pushedBy events <+: answer.1 ∧ ∀ reason, FinishedWith events reason →
    answer = (pushedBy events, some reason)

section

variable {isStopToken : Token → Bool} {oracle : List Token → Token} {submission : Submission}
  {events : List Event} {stage : Stage}

/-- What plain decoding would still give a running request. -/
def plainRest (isStopToken : Token → Bool) (oracle : List Token → Token) (req : PendingRequest)
    (running : ActiveRequestState)
    (pushed : List Token) : List Token × Option FinishReason :=
  plainDecode isStopToken oracle (running.maxTokens - running.generatedCount) running
    (req.promptTokens ++ pushed)

/-- The streams of one request. -/
abbrev Submission.Streams (submission : Submission) (isStopToken : Token → Bool)
    (oracle : List Token → Token) (events : List Event)
    (stage : Stage) : Prop :=
  stage.Streams (plainAnswer isStopToken oracle submission.req)
    (plainRest isStopToken oracle submission.req) events

theorem Submission.Streams.pushed_begins (streams : submission.Streams isStopToken oracle events stage) :
    pushedBy events <+: (plainAnswer isStopToken oracle submission.req).1 := by
  cases stage with
  | held | waiting | filling =>
    have none : pushedBy events = [] := streams
    rw [none]
    exact List.nil_prefix
  | decoding running =>
    rw [streams.2.2.2]
    exact List.prefix_append _ _
  | finishing reason =>
    have same : plainAnswer isStopToken oracle submission.req = (pushedBy events, some reason) := streams
    rw [same]
  | closed => exact streams.1

/-- An open request has no finish yet. -/
theorem Life.unfinished {telling : Telling} (life : Life telling submission events stage)
    (opened : stage.isClosed = false)
    {reason : FinishReason} : ¬ FinishedWith events reason := by
  have none := life.closings
  rw [opened, if_neg (by simp), List.countP_eq_zero] at none
  rintro ⟨id, finish | finish⟩
  · exact none _ finish rfl
  · exact none _ finish rfl

/-- A request closed without a finish keeps the tokens it had. -/
theorem Submission.Streams.close {telling : Telling} {new : List Event}
    (streams : submission.Streams isStopToken oracle events stage)
    (life : Life telling submission events stage) (opened : stage.isClosed = false)
    (silent : pushedBy new = [])
    (other : ∀ reason, ¬ FinishedWith new reason) :
    submission.Streams isStopToken oracle (events ++ new) .closed := by
  refine ⟨?_, ?_⟩
  · rw [pushedBy_append, silent, List.append_nil]
    exact streams.pushed_begins
  · rintro reason ⟨id, finish⟩
    rw [List.mem_append, List.mem_append] at finish
    rcases finish with (old | late) | (old | late)
    · exact absurd ⟨id, .inl old⟩ (life.unfinished opened)
    · exact absurd ⟨id, .inl late⟩ (other reason)
    · exact absurd ⟨id, .inr old⟩ (life.unfinished opened)
    · exact absurd ⟨id, .inr late⟩ (other reason)

/-- A resolved finish is the finish of the plain answer. -/
theorem Submission.Streams.finish {telling : Telling} {reason : FinishReason} {event : Event}
    (streams : submission.Streams isStopToken oracle events (.finishing reason))
    (life : Life telling submission events (.finishing reason)) (silent : event.tokens = [])
    (only : ∀ other, FinishedWith [event] other → other = reason) :
    submission.Streams isStopToken oracle (events ++ [event]) .closed := by
  have same : plainAnswer isStopToken oracle submission.req = (pushedBy events, some reason) := streams
  have still : pushedBy (events ++ [event]) = pushedBy events := by simp [silent]
  refine ⟨?_, ?_⟩
  · rw [still, same]
  · rintro other ⟨id, finish⟩
    have late : FinishedWith [event] other := by
      rw [List.mem_append, List.mem_append] at finish
      rcases finish with (old | late) | (old | late)
      · exact absurd ⟨id, .inl old⟩ (life.unfinished rfl)
      · exact ⟨id, .inl late⟩
      · exact absurd ⟨id, .inr old⟩ (life.unfinished rfl)
      · exact ⟨id, .inr late⟩
    rw [still, same, only other late]

/-- A note does not touch the tokens. -/
theorem Submission.Streams.note {event : Event}
    (streams : submission.Streams isStopToken oracle events stage) (silent : event.tokens = [])
    (other : ∀ reason, ¬ FinishedWith [event] reason) :
    submission.Streams isStopToken oracle (events ++ [event]) stage := by
  have still : pushedBy (events ++ [event]) = pushedBy events := by simp [silent]
  cases stage with
  | held | waiting | filling | decoding | finishing =>
    simpa [Submission.Streams, Stage.Streams, still] using streams
  | closed =>
    refine ⟨by rw [still]; exact streams.1, ?_⟩
    rintro reason ⟨id, finish⟩
    rw [still]
    refine streams.2 reason ⟨id, ?_⟩
    rw [List.mem_append, List.mem_append] at finish
    rcases finish with (old | late) | (old | late)
    · exact .inl old
    · exact absurd ⟨id, .inl late⟩ (other reason)
    · exact .inr old
    · exact absurd ⟨id, .inr late⟩ (other reason)

/-- What one effect does of plain decoding: its end, or some of its tokens. -/
structure Advances (isStopToken : Token → Bool) (oracle : List Token → Token) (req : PendingRequest)
    (running : ActiveRequestState)
    (pushed : List Token) (effect : DecodeEffect) : Prop where
  ends : ∀ reason, effect.reason = some reason →
    plainRest isStopToken oracle req running pushed = (effect.emits, some reason)
  last : effect.reason = none → effect.emits.getLast? = some (effect.advance running).lastToken
  counts : effect.reason = none → (effect.advance running).generatedCount =
    running.generatedCount + effect.emits.length
  room : effect.reason = none → (effect.advance running).generatedCount < (effect.advance running).maxTokens
  continues : effect.reason = none → plainRest isStopToken oracle req running pushed =
    (effect.emits ++ (plainRest isStopToken oracle req (effect.advance running) (pushed ++ effect.emits)).1,
      (plainRest isStopToken oracle req (effect.advance running) (pushed ++ effect.emits)).2)

/-- A plain decode step. -/
theorem advances_decoded {req : PendingRequest} {running : ActiveRequestState} {pushed : List Token}
    (logprob : Option TokenLogprob)
    (room : running.generatedCount < running.maxTokens) :
    Advances isStopToken oracle req running pushed (resolveDecoded isStopToken running
      { requestId := running.requestId, token := oracle (req.promptTokens ++ pushed), logprob }) := by
  obtain ⟨fuel, left⟩ : ∃ fuel, running.maxTokens - running.generatedCount = fuel + 1 :=
    ⟨running.maxTokens - running.generatedCount - 1, by omega⟩
  have unfolded : plainRest isStopToken oracle req running pushed =
    plainDecode isStopToken oracle (fuel + 1) running
      (req.promptTokens ++ pushed) := by
    rw [plainRest, left]
  rw [plainDecode_succ] at unfolded
  unfold resolveDecoded
  dsimp only
  by_cases stop : (!running.params.ignoreEos && isStopToken (oracle (req.promptTokens ++ pushed))) = true
  · rw [if_pos stop] at unfolded ⊢
    refine ⟨?_, by simp [DecodeEffect.reason], by simp [DecodeEffect.reason],
      by simp [DecodeEffect.reason], by simp [DecodeEffect.reason]⟩
    rintro reason ⟨⟩
    exact unfolded
  rw [if_neg stop] at unfolded ⊢
  by_cases full : running.maxTokens ≤ running.generatedCount + 1
  · rw [if_pos full] at unfolded ⊢
    refine ⟨?_, by simp [DecodeEffect.reason], by simp [DecodeEffect.reason],
      by simp [DecodeEffect.reason], by simp [DecodeEffect.reason]⟩
    rintro reason ⟨⟩
    exact unfolded
  rw [if_neg full] at unfolded ⊢
  refine ⟨by simp [DecodeEffect.reason], fun _ => rfl, fun _ => rfl, fun _ => ?_, fun _ => ?_⟩
  · change running.generatedCount + 1 < running.maxTokens
    omega
  · have less : running.maxTokens - (running.generatedCount + 1) = fuel := by omega
    rw [unfolded]
    simp only [DecodeEffect.emits, DecodeEffect.push, Option.elim, LedgerCall.tokens,
      DecodeEffect.advance, plainRest, less,
      List.append_assoc, List.cons_append, List.nil_append]

/-- A speculative step, whatever was drafted and whichever chain has won. -/
theorem advances_accepted {req : PendingRequest} {running : ActiveRequestState}
    {pushed : List Token} (count : Nat)
    (room : running.generatedCount < running.maxTokens) :
    Advances isStopToken oracle req running pushed
      (resolveAccepted isStopToken running [] running.generatedCount
      (generate (fun context _ => oracle context) (count + 1) (req.promptTokens ++ pushed) 0)) := by
  rcases @resolveAccepted_plain isStopToken oracle running [] running.generatedCount 0 room
    (req.promptTokens ++ pushed) (count + 1) with
    ⟨tokens, reason, run, plain⟩ | ⟨run, room', rest⟩
  · rw [run]
    refine ⟨?_, by simp [DecodeEffect.reason], by simp [DecodeEffect.reason],
      by simp [DecodeEffect.reason], by simp [DecodeEffect.reason]⟩
    rintro other ⟨⟩
    exact plain
  · rw [run, List.nil_append]
    obtain ⟨last, ending⟩ :
        ∃ last, (generate (fun context _ => oracle context) (count + 1)
          (req.promptTokens ++ pushed) 0).getLast? =
        some last := by
      refine ⟨_, List.getLast?_eq_getLast_of_ne_nil ?_⟩
      rw [← List.length_pos_iff, length_generate]
      exact Nat.succ_pos count
    have advanced : (DecodeEffect.emitManyAndContinue running.requestId
          (generate (fun context _ => oracle context) (count + 1) (req.promptTokens ++ pushed) 0)
          (running.generatedCount + (count + 1))).advance running =
        { running.counted (running.generatedCount + (count + 1)) with lastToken := last } := by
      simp only [DecodeEffect.advance, ending]
      rfl
    refine ⟨by simp [DecodeEffect.reason], fun _ => ?_, fun _ => ?_, fun _ => ?_, fun _ => ?_⟩
    · rw [advanced]
      exact ending
    · rw [advanced]
      simp [DecodeEffect.emits, DecodeEffect.push, LedgerCall.tokens, ActiveRequestState.counted]
    · rw [advanced]
      exact room'
    · rw [advanced]
      have plain := rest _ rfl
      rw [List.append_assoc, ← plainDecode_lastToken
        _ (running.counted (running.generatedCount + (count + 1))) last] at plain
      exact plain

theorem Submission.Streams.advances {running : ActiveRequestState} {effect : DecodeEffect}
    (streams : submission.Streams isStopToken oracle events (.decoding running))
    (told : (Telling.target isStopToken oracle).decodes submission.req (pushedBy events) running effect) :
    Advances isStopToken oracle submission.req running (pushedBy events) effect := by
  have whole : submission.req.promptTokens ++ (pushedBy events).dropLast ++ [running.lastToken] =
      submission.req.promptTokens ++ pushedBy events := by
    rw [List.append_assoc, List.dropLast_append_getLast? _ streams.1]
  rcases told with ⟨logprob, rfl⟩ | ⟨count, rfl⟩
  · rw [whole]
    exact advances_decoded logprob streams.2.2.1
  · rw [whole]
    exact advances_accepted count streams.2.2.1

/-- The prefill of a request is where its plain answer begins. -/
theorem plainAnswer_filled {req : PendingRequest} {result : PrefillRequestResult}
    (completed : result.completed = true)
    (first : result.firstToken = oracle req.promptTokens) :
    (∀ id reason, resolvePrefilled isStopToken req result = .finish id reason →
      plainAnswer isStopToken oracle req = ([], some reason)) ∧
    (∀ id token logprob reason, resolvePrefilled isStopToken req result =
      .emitAndFinish id token logprob reason →
      plainAnswer isStopToken oracle req = ([token], some reason)) ∧
    ∀ running token logprob, resolvePrefilled isStopToken req result = .promote running token logprob →
      running.lastToken = token ∧ running.generatedCount = 1 ∧ 1 < running.maxTokens ∧
        plainAnswer isStopToken oracle req =
          ([token] ++ (plainRest isStopToken oracle req running [token]).1,
            (plainRest isStopToken oracle req running [token]).2) := by
  rw [plainAnswer_eq]
  unfold resolvePrefilled
  rw [completed, first]
  simp only [Bool.not_true, Bool.false_eq_true, if_false]
  by_cases stop : (!req.params.ignoreEos && isStopToken (oracle req.promptTokens)) = true
  · simp only [if_pos stop]
    refine ⟨?_, by simp, by simp⟩
    rintro id reason ⟨⟩
    rfl
  simp only [if_neg stop]
  by_cases full : req.maxTokens ≤ 1
  · simp only [if_pos full]
    refine ⟨by simp, ?_, by simp⟩
    rintro id token logprob reason ⟨⟩
    rfl
  simp only [if_neg full]
  refine ⟨by simp, by simp, ?_⟩
  rintro running token logprob ⟨⟩
  exact ⟨rfl, rfl, not_le.mp full, rfl⟩

/-- The tokens of a life are those of plain decoding. -/
theorem Life.streams (life : Life (.target isStopToken oracle) submission events stage) :
    submission.Streams isStopToken oracle events stage := by
  induction life with
  | held _ | waiting _ => rfl
  | released _ _ ih => exact ih
  | applied control _ _ ih => exact ih.note rfl (by simp [FinishedWith])
  | @noted events stage event life notes about ih =>
    have silent : event.tokens = [] := by
      cases event with
      | called call => cases call <;> first | rfl | (cases stage <;> simp [Stage.notes] at notes)
      | dropped | applied | offered | validated | ran => rfl
    refine ih.note silent ?_
    rintro reason ⟨id, finish | finish⟩
    · obtain rfl := List.mem_singleton.mp finish
      exact absurd (closes_of_notes notes) (by simp [Event.closes, LedgerCall.closes])
    · obtain rfl := List.mem_singleton.mp finish
      exact absurd (closes_of_notes notes) (by simp [Event.closes, LedgerCall.closes])
  | rejected reason life ih => exact ih.close life rfl rfl (by simp [FinishedWith])
  | @retired events stage life running ih =>
    have opened : stage.isClosed = false := by
      cases stage <;> first | rfl | simp [Stage.isRunning] at running
    exact ih.close life opened rfl (by simp [FinishedWith])
  | @failed events stage message life running ih =>
    have opened : stage.isClosed = false := by
      cases stage <;> first | rfl | simp [Stage.isRunning] at running
    exact ih.close life opened rfl (by simp [FinishedWith])
  | admitted now _ ih =>
    have none : pushedBy _ = [] := ih
    simp [Submission.Streams, Stage.Streams, none, Event.tokens, LedgerCall.tokens]
  | filledOut result _ told completed effect ih =>
    have none : pushedBy _ = [] := ih
    have plain : plainAnswer isStopToken oracle submission.req = ([], some _) :=
      (plainAnswer_filled completed told).1 _ _ effect
    simp [Submission.Streams, Stage.Streams, none, Event.tokens, plain]
  | filledLast result _ told completed effect ih =>
    have none : pushedBy _ = [] := ih
    have plain : plainAnswer isStopToken oracle submission.req = ([_], some _) :=
      (plainAnswer_filled completed told).2.1 _ _ _ _ effect
    simp [Submission.Streams, Stage.Streams, none, Event.tokens, LedgerCall.tokens, plain]
  | @promoted events running token logprob result _ told completed effect ih =>
    have none : pushedBy events = [] := ih
    obtain ⟨last, one, room, plain⟩ := (plainAnswer_filled completed told).2.2 _ _ _ effect
    have pushed : pushedBy (events ++ [.called (.pushTokens submission.id [token] [logprob])]) = [token] := by
      simp [none, Event.tokens, LedgerCall.tokens]
    simp only [Submission.Streams, Stage.Streams, pushed]
    exact ⟨by rw [last]; rfl, one, by rwa [one], plain⟩
  | @decodedOn events running call effect _ told own continues push ih =>
    have advances := ih.advances told
    have emitted : effect.emits = LedgerCall.tokens call := by simp [DecodeEffect.emits, push]
    have pushed : pushedBy (events ++ [.called call]) = pushedBy events ++ effect.emits := by
      simp [Event.tokens, emitted]
    refine ⟨?_, ?_, advances.room continues, ?_⟩
    · rw [pushed, List.getLast?_append, advances.last continues]
      rfl
    · rw [pushed, advances.counts continues, ih.2.1, List.length_append]
    · rw [pushed, ih.2.2.2, advances.continues continues, List.append_assoc]
  | @decodedLast events running reason effect _ told own ends ih =>
    have advances := ih.advances told
    have pushed : pushedBy (events ++ (effect.push.toList.map .called ++
        [.dropped submission.id])) = pushedBy events ++ effect.emits := by
      cases push : effect.push with
      | none => simp [DecodeEffect.emits, push, Event.tokens]
      | some call => simp [DecodeEffect.emits, push, Event.tokens]
    have plain : plainAnswer isStopToken oracle submission.req =
        (pushedBy events ++ (plainRest isStopToken oracle submission.req running (pushedBy events)).1,
          (plainRest isStopToken oracle submission.req running (pushedBy events)).2) := ih.2.2.2
    rw [advances.ends reason ends] at plain
    simp only [Submission.Streams, Stage.Streams, pushed]
    exact plain
  | finished life ih => exact ih.finish life rfl (by simp [FinishedWith])
  | deferred life ih => exact ih.finish life rfl (by simp [FinishedWith])

end

/-- The tokens in a request's cache: its prompt and what it has emitted, but for the
last token, which the next step feeds. -/
def Submission.cached (submission : Submission) (events : List Event) : List Token :=
  submission.req.promptTokens ++ (pushedBy (submission.history events)).dropLast

/-- In this step the executor answers with the picks of one target on the cache of each
request and the tokens fed behind it. Drafts and hedge chains are free. -/
structure OracleAnswers (oracle : List Token → Token) (config : Config) (run : Run)
    (env : StepEnv) : Prop where
  polled : ∀ answer, env.polled = some answer →
    ∀ pending, run.machine.scheduler.inflightPrefillPending = some pending → ∀ req ∈ pending,
    (answer req.requestId).completed = true → ∀ submission ∈ run.submitted, submission.id = req.requestId →
      (answer req.requestId).firstToken = oracle submission.req.promptTokens
  prefill : ∀ req ∈ (run.machine.prepared config env).1,
    (env.execution.prefill req.requestId).completed = true →
    ∀ submission ∈ run.submitted, submission.id = req.requestId →
      (env.execution.prefill req.requestId).firstToken = oracle submission.req.promptTokens
  decode : ∀ req ∈ (run.machine.prepared config env).2.scheduler.active,
    ∀ submission ∈ run.submitted, submission.id = req.requestId →
    (env.execution.decode req.requestId).1 =
      oracle (submission.cached (run.machine.prepared config env).2.events ++ [req.lastToken])
  rows : ∀ id span, (env.execution.target id span).length = span.length
  verify : ∀ submission ∈ run.submitted, ∀ span, env.execution.target submission.id span =
    targetRows oracle (submission.cached (run.machine.prepared config env).2.events) span

section

variable {oracle : List Token → Token} {config : Config} {run : Run} {env : StepEnv}

theorem OracleAnswers.allowed (answers : OracleAnswers oracle config run env) :
    Allowed (.target config.isStopToken oracle) config run.submitted run.machine env := by
  refine ⟨answers.polled, fun _ _ => .inl trivial, fun impossible => impossible.elim,
    fun distinct => ⟨answers.prefill, ?_, ?_⟩⟩
  · intro req running submission known own
    refine .inl ⟨(env.execution.decode req.requestId).2, ?_⟩
    have token := answers.decode req running submission known own
    rw [Execution.decoded, token]
    rfl
  · intro results run' result member req running own submission known named
    rcases @speculate_cases env.execution _ distinct with ⟨message, error⟩ | ⟨others, run'', -, answered⟩
    · rw [run'] at error
      cases error
    · rw [run'] at run''
      cases run''
      obtain ⟨span, request, asked, stands, filled, same, accepted⟩ := answered answers.rows result member
      obtain ⟨other, held, rfl⟩ := List.mem_map.mp asked
      have owner : other.requestId = req.requestId := by
        rw [own, same, stands.1]
        rfl
      obtain rfl : other = req := List.inj_on_of_nodup_map distinct held running owner
      obtain ⟨drafts, shape⟩ : ∃ drafts, span.tokenIds = other.lastToken :: drafts := by
        obtain ⟨head, drafts, shape⟩ := List.exists_cons_of_ne_nil filled
        have heads := stands.2.2
        have length := stands.2.1
        rw [shape] at heads length
        refine ⟨drafts, ?_⟩
        simp only [Execution.verifySpan] at heads length
        cases room : other.maxTokens - other.generatedCount with
        | zero => simp [room] at length
        | succ left =>
          rw [room, List.take_succ_cons] at heads
          rw [shape, Option.some.inj heads]
      obtain ⟨count, generated⟩ := acceptPrefixMatch_generates oracle
        (submission.cached (run.machine.prepared config env).2.events)
        other.lastToken drafts
      refine .inr ⟨count, ?_⟩
      have id : span.requestId = submission.id := by
        rw [named, ← same, own]
      rw [accepted, shape, List.tail_cons, id, answers.verify submission known, generated]
      rfl

/-- A step moves on every request it runs: each gets a token, or its answer is over.
An aborted request is retired instead, and a failed execution fails its plan. -/
structure MovesOn (config : Config) (run : Run) (env : StepEnv) : Prop where
  polled : ∀ answer, env.polled = some answer →
    ∀ pending, run.machine.scheduler.inflightPrefillPending = some pending → ∀ req ∈ pending,
    (answer req.requestId).completed = true → env.abortedAtPoll req.requestId = false →
      MovedOn req.requestId run.machine ((run.machine.arrive env).poll config env)
  executed : env.execution.error = none → ∀ plan, run.machine.plan config env = some plan →
    ∀ id ∈ plan.rows (run.machine.prepared config
      env).2.scheduler.active config.hasDecodeOverlap env.execution.prefill,
      env.abortedAtApply id = false →
        MovedOn id (run.machine.prepared config env).2 (run.step config env).machine

theorem Reach.targetInv (reach : Reach config (OracleAnswers oracle config) run) :
    Inv (.target config.isStopToken oracle) run.submitted run.arrived run.machine :=
  @Reach.inv (.target config.isStopToken oracle) config _ run rfl (.inl trivial)
    (fun _ _ answers => answers.allowed) reach

/-- A running request has room for a token, and whatever an effect lets go on has one. -/
theorem Kept.productive {machine : Machine} {submitted : List Submission} {entries : Multiset Entry}
    {execution : Execution}
    {isStopToken : Token → Bool}
    (kept : Kept (.target isStopToken oracle) submitted machine (machine.scheduler.placed + entries))
    (fine : execution.error = none) (rows : ∀ id span, (execution.target id span).length = span.length) :
    Productive (.target isStopToken oracle) submitted machine execution := by
  have lives : ∀ req ∈ machine.scheduler.active, ∀ submission ∈ submitted, submission.id = req.requestId →
      submission.Streams isStopToken oracle (submission.history machine.events) (.decoding req) := by
    intro req running submission known own
    have member : Entry.decoding req ∈ machine.scheduler.placed + entries := by
      simp only [Qwen3Scheduler.placed, Multiset.mem_add]
      exact .inl (.inl (mem_every _ running))
    obtain ⟨other, asked, same, -, life, -⟩ := kept.lives _ member
    obtain rfl := same_submission kept.fresh known asked (own.trans same.symm)
    exact life.streams
  refine ⟨fine, rows, ?_, ?_⟩
  · intro req running
    have member : Entry.decoding req ∈ machine.scheduler.placed + entries := by
      simp only [Qwen3Scheduler.placed, Multiset.mem_add]
      exact .inl (.inl (mem_every _ running))
    obtain ⟨submission, known, own, -⟩ := kept.lives _ member
    exact (lives req running submission known own).2.2.1
  · intro req running submission known own effect told continues empty
    have last := ((lives req running submission known own).advances told).last continues
    rw [empty] at last
    cases last

/-- Speculation loses nothing: in every run, whatever is drafted and however steps of
different kinds follow each other, the tokens of a request are those of plain decoding,
and so is its finish. Every step that is executed moves its requests on. -/
theorem Reach.speculation_lossless (reach : Reach config (OracleAnswers oracle config) run)
    {submission : Submission}
    (known : submission ∈ run.submitted) :
    pushedBy (submission.history run.machine.events) <+:
      (plainAnswer config.isStopToken oracle submission.req).1 ∧
    (∀ reason, FinishedWith (submission.history run.machine.events) reason →
      plainAnswer config.isStopToken oracle submission.req =
        (pushedBy (submission.history run.machine.events), some reason)) ∧
    (∀ req ∈ run.machine.scheduler.active, req.requestId = submission.id →
      (pushedBy (submission.history run.machine.events)).getLast? = some req.lastToken ∧
      req.generatedCount = (pushedBy (submission.history run.machine.events)).length) ∧
    ∀ env, OracleAnswers oracle config run env → MovesOn config run env := by
  have inv := reach.targetInv
  obtain ⟨lost, -, kept⟩ := inv.kept
  have stands : ∃ stage, Life (.target config.isStopToken oracle) submission
      (submission.history run.machine.events) stage := by
    by_cases placed : submission.id ∈ (run.machine.scheduler.placed + lost).map Entry.id
    · obtain ⟨entry, member, own⟩ := Multiset.mem_map.mp placed
      obtain ⟨other, asked, same, -, life, -⟩ := kept.lives entry member
      obtain rfl := same_submission kept.fresh known asked (own.symm.trans same.symm)
      exact ⟨_, life⟩
    · exact ⟨_, (kept.over_ submission known placed).1⟩
  obtain ⟨stage, life⟩ := stands
  refine ⟨life.streams.pushed_begins, ?_, ?_, ?_⟩
  · intro reason finished
    cases stage with
    | closed => exact life.streams.2 reason finished
    | held | waiting | filling | decoding | finishing => exact absurd finished (life.unfinished rfl)
  · intro req running own
    have member : Entry.decoding req ∈ run.machine.scheduler.placed + lost := by
      simp only [Qwen3Scheduler.placed, Multiset.mem_add]
      exact .inl (.inl (mem_every _ running))
    obtain ⟨other, asked, same, -, decoding, -⟩ := kept.lives _ member
    obtain rfl := same_submission kept.fresh known asked (own.symm.trans same.symm)
    exact ⟨decoding.streams.1, decoding.streams.2.1⟩
  · intro env answers
    refine ⟨fun answer polled pending inflight => inv.polls rfl answers.allowed polled inflight, ?_⟩
    intro fine plan planned
    obtain ⟨more, -, -, -, taken, -⟩ := inv.prepared rfl (.inl trivial) answers.allowed
    exact inv.moves rfl (.inl trivial) answers.allowed planned (taken.productive fine answers.rows)

end

/-- The small engine with a drafter. -/
def draftingConfig : Config := { smallConfig with speculativeEnabled := true }

/-- A step in which every running request is ready to be drafted for. -/
def draftedStep : StepEnv := { plainStep none with ready := fun _ => true }

/-- Request 1 is prefilled, and one speculative step emits the rest of its answer. -/
def allAccepted : Run :=
  ((Run.start.submit (smallRequest 1 false) (opened .new 1)).step draftingConfig draftedStep).step
    draftingConfig draftedStep

theorem Reach.speculation_lossless_all_accepted :
    Reach draftingConfig (OracleAnswers (fun _ => 7) draftingConfig) allAccepted ∧
    pushedBy (Submission.history ⟨smallRequest 1 false, 0, 0⟩ allAccepted.machine.events) = [7, 7, 7, 7] ∧
    plainAnswer draftingConfig.isStopToken (fun _ => 7) (smallRequest 1 false) =
      ([7, 7, 7, 7], some .length) := by
  have answers : ∀ run : Run, OracleAnswers (fun _ => 7) draftingConfig run draftedStep := by
    intro run
    refine ⟨?_, fun _ _ _ _ _ _ => rfl, fun _ _ _ _ _ => rfl, ?_, ?_⟩
    · intro answer polled
      cases polled
    · intro id span
      simp [draftedStep, plainStep, sevens]
    · intro submission _ span
      simp [draftedStep, plainStep, sevens, targetRows]
  have registered := @Reach.submit draftingConfig
    (OracleAnswers (fun _ => 7) draftingConfig) _ _ (smallRequest 1 false) 0 .start rfl
    (by simp [Run.start]) (register_opened rfl)
  have filled := registered.step draftedStep (answers _)
  have verified := filled.step draftedStep (answers _)
  have pushed : pushedBy (Submission.history ⟨smallRequest 1 false, 0,
    0⟩ allAccepted.machine.events) = [7, 7, 7, 7] := by decide +kernel
  have plain := (@Reach.speculation_lossless _ _ allAccepted verified ⟨smallRequest 1 false, 0, 0⟩
    (by decide)).2.1 .length
    ⟨1, .inl (by decide +kernel)⟩
  rw [pushed] at plain
  exact ⟨verified, pushed, plain⟩

end PegaInfer.Qwen3
