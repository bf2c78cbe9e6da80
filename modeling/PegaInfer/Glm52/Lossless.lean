import PegaInfer.Lib.Autoregressive
import PegaInfer.Glm52.Slot

namespace PegaInfer.Glm52

open Autoregressive

/-- What a finished decode reports to its client. -/
structure Decoded where
  emitted : List Token
  finish : FinishReason
  completionTokens : Nat
  deriving DecidableEq

/-- Plain decoding, one token at a time, with `budget` tokens left: it stops
at the first EOS, which counts but is not emitted, or when the budget is out. -/
def plainDecode (oracle : List Token → Nat → Token) (eosTokenIds : List Token) (ignoreEos : Bool) :
    Nat → List Token → Nat → Decoded
  | 0, _, completion => ⟨[], .length, completion⟩
  | budget + 1, context, completion =>
    let token := oracle context completion
    if !ignoreEos && eosTokenIds.contains token then ⟨[], .stop, completion + 1⟩
    else
      let rest := plainDecode oracle eosTokenIds ignoreEos budget (context ++ [token]) (completion + 1)
      { rest with emitted := token :: rest.emitted }

/-- The token whose KV row was written last at each position. -/
abbrev KvRows := Nat → Token

def writeRows (kv : KvRows) (inputs : List StepInput) : KvRows :=
  inputs.foldl (fun rows input => Function.update rows input.position input.token) kv

/-- The context a row attends to: every position up to its own. -/
def contextAt (kv : KvRows) (position : Nat) : List Token := (List.range (position + 1)).map kv

/-- The target's outputs for one span. Only the sampling rows are bound to
the oracle: the other rows of a prompt span may output anything. -/
def Answers (oracle : List Token → Nat → Token) (kv : KvRows) (inputs : List StepInput)
    (samplingRows : List (Nat × Nat)) (outputs : List Token) : Prop :=
  outputs.length = inputs.length ∧
    ∀ sample ∈ samplingRows, ∀ input, inputs[sample.1]? = some input →
      outputs[sample.1]? = some (oracle (contextAt kv input.position) sample.2)

def StepOutcome.emitted : StepOutcome → List Token
  | .prefilling => []
  | .commit committed emit _ _ => committed.take emit

def StepOutcome.finish : StepOutcome → Option FinishReason
  | .prefilling => none
  | .commit _ _ finish _ => finish

/-- Runs of one slot against a target model. The rows of the prefix-cache hit
hold the prompt, every step is granted any non-empty part of `feed_want`, and
any drafts may be installed between steps. The last index counts the steps. -/
inductive SlotReach (oracle : List Token → Nat → Token) (eosTokenIds prompt : List Token) (maxTokens : Nat)
    (ignoreEos : Bool) (cachedTokens : Nat) :
    SlotState → KvRows → List Token → Option FinishReason → Nat → Prop
  | start {kv} : (∀ position < cachedTokens, some (kv position) = prompt[position]?) →
      SlotReach oracle eosTokenIds prompt maxTokens ignoreEos cachedTokens
        (SlotState.new prompt maxTokens ignoreEos cachedTokens) kv [] none 0
  | drafts {state kv emitted steps} (drafts : List Token) (spanDrafts : Nat) :
      SlotReach oracle eosTokenIds prompt maxTokens ignoreEos cachedTokens state kv emitted none steps →
      SlotReach oracle eosTokenIds prompt maxTokens ignoreEos cachedTokens
        (state.setDrafts drafts spanDrafts) kv emitted none steps
  | span {state kv emitted steps next outcome} (inputs : List StepInput) (outputs : List Token) :
      SlotReach oracle eosTokenIds prompt maxTokens ignoreEos cachedTokens state kv emitted none steps →
      1 ≤ inputs.length → inputs.length ≤ state.feedWant →
      (∀ row < inputs.length, inputs[row]? = state.nextInputAt row) →
      Answers oracle (writeRows kv inputs) inputs (state.samplingRows inputs.length) outputs →
      state.advanceSpan outputs eosTokenIds = (next, outcome) →
      SlotReach oracle eosTokenIds prompt maxTokens ignoreEos cachedTokens next (writeRows kv inputs)
        (emitted ++ outcome.emitted) outcome.finish (steps + 1)

/-- The tokens the next span is a prefix of: the unfed prompt, then the
anchor and its drafts. -/
def SlotState.feedSpan (state : SlotState) : List Token :=
  if state.midPrefill then state.prompt.drop state.fed else state.lastToken :: state.drafts

def SlotState.feedPosition (state : SlotState) : Nat :=
  if state.midPrefill then state.fed else state.prompt.length + state.completion - 1

theorem SlotState.nextInputAt_eq (state : SlotState) (offset : Nat) :
    state.nextInputAt offset =
      (state.feedSpan[offset]?).map fun token => ⟨token, state.feedPosition + offset⟩ := by
  unfold nextInputAt feedSpan feedPosition
  by_cases mid : state.midPrefill
  · simp [mid]
  · cases offset <;> simp [mid]

theorem SlotState.feedWant_le_span (state : SlotState) : state.feedWant ≤ state.feedSpan.length := by
  unfold feedWant feedSpan
  split
  · simp [remainingPrompt]
  · simp only [List.length_cons]; omega

/-- A span written at consecutive positions leaves the rows before it alone
and puts its own tokens in order after them. -/
theorem writeRows_context {kv : KvRows} {inputs : List StepInput} {before span : List Token}
    (held : ∀ position < before.length, some (kv position) = before[position]?)
    (consecutive : ∀ row < inputs.length,
      inputs[row]? = (span[row]?).map fun token => ⟨token, before.length + row⟩) :
    ∀ position < before.length + inputs.length,
      some (writeRows kv inputs position) = (before ++ span)[position]? := by
  induction inputs generalizing kv before span with
  | nil =>
    intro position bound
    rw [List.getElem?_append_left bound]
    exact held position bound
  | cons input inputs ih =>
    obtain _ | ⟨token, span⟩ := span
    · simpa using consecutive 0 (by simp)
    have first := consecutive 0 (by simp)
    simp only [List.getElem?_cons_zero, Option.map_some, Nat.add_zero, Option.some.injEq] at first
    have moved : before ++ token :: span = (before ++ [token]) ++ span := by simp
    intro position bound
    rw [moved]
    refine @ih (Function.update kv input.position input.token) _ _ ?_ ?_ position ?_
    · intro earlier inside
      rw [first]
      by_cases last : earlier = before.length
      · subst last
        simp
      · have older : earlier < before.length := by simp at inside; omega
        rw [Function.update_of_ne last, List.getElem?_append_left older]
        exact held earlier older
    · intro row inside
      have later := consecutive (row + 1) (by simpa using inside)
      simpa [Nat.add_comm 1 row, Nat.add_assoc] using later
    · simp at bound ⊢
      omega

theorem contextAt_eq_take {kv : KvRows} {tokens : List Token} {position : Nat}
    (rows : ∀ earlier ≤ position, some (kv earlier) = tokens[earlier]?) :
    contextAt kv position = tokens.take (position + 1) := by
  have inside : position < tokens.length := by
    have last := rows position (Nat.le_refl _)
    exact (List.getElem?_eq_some_iff.mp last.symm).1
  apply List.ext_getElem?
  intro index
  by_cases bound : index < position + 1
  · rw [List.getElem?_take_of_lt bound, ← rows index (by omega)]
    simp [contextAt, bound]
  · rw [List.getElem?_eq_none (by simp [contextAt]; omega), List.getElem?_eq_none (by simp; omega)]

/-- Put tokens that are already out in front of a decode that goes on. -/
def Decoded.after (emitted : List Token) (rest : Decoded) : Decoded :=
  { rest with emitted := emitted ++ rest.emitted }

theorem plainDecode_succ (oracle : List Token → Nat → Token) (eosTokenIds : List Token) (ignoreEos : Bool)
    (budget : Nat) (context : List Token) (completion : Nat) :
    plainDecode oracle eosTokenIds ignoreEos (budget + 1) context completion =
      if !ignoreEos && eosTokenIds.contains (oracle context completion) then ⟨[], .stop, completion + 1⟩
      else (plainDecode oracle eosTokenIds ignoreEos budget (context ++ [oracle context completion])
        (completion + 1)).after [oracle context completion] := rfl

/-- How the commit loop leaves a generated run: it either ends the request as
plain decoding would, or consumes all of it and plain decoding goes on there. -/
structure LoopAgrees (oracle : List Token → Nat → Token) (eosTokenIds : List Token) (ignoreEos : Bool)
    (maxTokens count : Nat) (context : List Token) (completion emit : Nat) (last : Token)
    (loop : SlotState.CommitLoop) : Prop where
  ended : ∀ reason, loop.finish = some reason → ∃ kept, loop.emit = emit + kept ∧
    completion < loop.completion ∧ loop.completion ≤ maxTokens ∧
    plainDecode oracle eosTokenIds ignoreEos (maxTokens - completion) context completion =
      ⟨(generate oracle count context completion).take kept, reason, loop.completion⟩
  continued : loop.finish = none → loop.emit = emit + count ∧ loop.completion = completion + count ∧
    completion + count < maxTokens ∧
    loop.lastToken = ((generate oracle count context completion).getLast?).getD last ∧
    plainDecode oracle eosTokenIds ignoreEos (maxTokens - completion) context completion =
      (plainDecode oracle eosTokenIds ignoreEos (maxTokens - (completion + count))
        (context ++ generate oracle count context completion) (completion + count)).after
          (generate oracle count context completion)

theorem commitLoop_generate (oracle : List Token → Nat → Token) (eosTokenIds : List Token) (ignoreEos : Bool)
    {maxTokens : Nat} (count : Nat) (context : List Token) {completion : Nat} (room : completion < maxTokens)
    (emit : Nat) (last : Token) :
    LoopAgrees oracle eosTokenIds ignoreEos maxTokens count context completion emit last
      (SlotState.commitLoop maxTokens ignoreEos eosTokenIds (generate oracle count context completion)
        ⟨completion, emit, last, none⟩) := by
  induction count generalizing context completion emit last with
  | zero =>
    refine ⟨fun reason finished => ?_, fun _ => ?_⟩
    · simp [generate, SlotState.commitLoop] at finished
    · simp [generate, SlotState.commitLoop, Decoded.after, room]
  | succ count ih =>
    have budget : maxTokens - completion = (maxTokens - (completion + 1)) + 1 := by omega
    rw [generate, SlotState.commitLoop]
    by_cases eos : (!ignoreEos && eosTokenIds.contains (oracle context completion)) = true
    · rw [if_pos eos]
      refine ⟨fun reason finished => ⟨0, rfl, Nat.lt_succ_self _, room, ?_⟩, fun open_ => by simp at open_⟩
      rw [budget, plainDecode_succ, if_pos eos, ← Option.some.inj finished]
      rfl
    · rw [if_neg eos]
      by_cases full : completion + 1 ≥ maxTokens
      · rw [if_pos full]
        refine ⟨fun reason finished => ⟨1, rfl, Nat.lt_succ_self _, room, ?_⟩, fun open_ => by simp at open_⟩
        have out : maxTokens - (completion + 1) = 0 := by omega
        rw [budget, plainDecode_succ, if_neg eos, out, ← Option.some.inj finished]
        rfl
      · rw [if_neg full]
        dsimp only
        have rest := @ih (context ++ [oracle context completion]) (completion + 1) (by omega) (emit + 1)
           (oracle context completion)
        refine ⟨fun reason finished => ?_, fun open_ => ?_⟩
        · obtain ⟨kept, emitted, above, below, plain⟩ := rest.ended reason finished
          refine ⟨kept + 1, by omega, by omega, below, ?_⟩
          rw [budget, plainDecode_succ, if_neg eos, plain]
          rfl
        · obtain ⟨emitted, counted, below, lastToken, plain⟩ := rest.continued open_
          refine ⟨by omega, by omega, by omega, ?_, ?_⟩
          · rw [lastToken, generate, List.getLast?_cons]
            rfl
          · rw [budget, plainDecode_succ, if_neg eos, plain]
            simp [Decoded.after, generate, Nat.add_assoc, Nat.add_comm 1 count]

/-- The state of a run that has not finished: what is out is the oracle's own
stream, plain decoding goes on from there, and every row below the next one
to be fed holds that stream's context. -/
structure Faithful (oracle : List Token → Nat → Token) (eosTokenIds prompt : List Token) (maxTokens : Nat)
    (ignoreEos : Bool) (cachedTokens : Nat) (state : SlotState) (kv : KvRows) (emitted : List Token)
    (steps : Nat) : Prop where
  prompt_eq : state.prompt = prompt
  maxTokens_eq : state.maxTokens = maxTokens
  ignoreEos_eq : state.ignoreEos = ignoreEos
  offset_eq : state.samplingOffset = 0
  room : state.completion < maxTokens
  generated : emitted = generate oracle state.completion prompt 0
  plain : plainDecode oracle eosTokenIds ignoreEos maxTokens prompt 0 =
    (plainDecode oracle eosTokenIds ignoreEos (maxTokens - state.completion) (prompt ++ emitted)
      state.completion).after emitted
  phase : (state.fed < prompt.length ∧ state.completion = 0) ∨
    (state.fed = prompt.length ∧ emitted.getLast? = some state.lastToken)
  rows : ∀ position < state.feedPosition, some (kv position) = (prompt ++ emitted)[position]?
  progress : cachedTokens + steps ≤ state.fed + state.completion

section Faithful

variable {oracle : List Token → Nat → Token} {eosTokenIds prompt : List Token}
  {maxTokens cachedTokens steps : Nat}
  {ignoreEos : Bool} {state : SlotState} {kv : KvRows} {emitted : List Token}

theorem Faithful.emitted_length
    (faithful : Faithful oracle eosTokenIds prompt maxTokens ignoreEos cachedTokens state kv emitted steps) :
    emitted.length = state.completion := by
  rw [faithful.generated, length_generate]

/-- The context of the next span, cut where the span begins. -/
theorem Faithful.feed_context
    (faithful : Faithful oracle eosTokenIds prompt maxTokens ignoreEos cachedTokens state kv emitted steps) :
    ∃ before : List Token, before.length = state.feedPosition ∧
      (∀ position < before.length, some (kv position) = before[position]?) ∧
      before ++ state.feedSpan = prompt ++ emitted ++ if state.midPrefill then [] else state.drafts := by
  have rows := faithful.rows
  rcases faithful.phase with ⟨unfed, none⟩ | ⟨fed, last⟩
  · have mid : state.midPrefill = true := by simp [SlotState.midPrefill, faithful.prompt_eq, unfed]
    have empty : emitted = [] := by
      rw [faithful.generated, none]
      rfl
    simp only [SlotState.feedPosition, mid, if_true, empty, List.append_nil] at rows ⊢
    refine ⟨prompt.take state.fed, by simp; omega, ?_, ?_⟩
    · intro position bound
      simp only [List.length_take] at bound
      rw [List.getElem?_take_of_lt (by omega)]
      exact rows position (by omega)
    · simp [SlotState.feedSpan, mid, faithful.prompt_eq]
  · have mid : state.midPrefill = false := by simp [SlotState.midPrefill, faithful.prompt_eq, fed]
    obtain ⟨front, rfl⟩ := List.getLast?_eq_some_iff.mp last
    have counted := faithful.emitted_length
    simp only [List.length_append, List.length_singleton] at counted
    have position_eq : (prompt ++ front).length = state.feedPosition := by
      simp only [SlotState.feedPosition, mid, faithful.prompt_eq, List.length_append]
      simp only [Bool.false_eq_true, if_false]
      omega
    refine ⟨prompt ++ front, position_eq, ?_, ?_⟩
    · intro position bound
      rw [rows position (position_eq ▸ bound), ← List.append_assoc, List.getElem?_append_left bound]
    · simp [SlotState.feedSpan, mid]

/-- What one step must show: a run that goes on stays faithful, a run that
ends has said what plain decoding says. -/
structure StepFaithful (oracle : List Token → Nat → Token) (eosTokenIds prompt : List Token) (maxTokens : Nat)
    (ignoreEos : Bool) (cachedTokens : Nat) (next : SlotState) (kv : KvRows) (emitted : List Token)
    (finish : Option FinishReason) (steps : Nat) : Prop where
  goesOn : finish = none → Faithful oracle eosTokenIds prompt maxTokens ignoreEos
    cachedTokens next kv emitted steps
  ends : ∀ reason, finish = some reason →
    plainDecode oracle eosTokenIds ignoreEos maxTokens prompt 0 = ⟨emitted, reason, next.completion⟩

theorem SlotState.commitSpan_emitted (state : SlotState) (eosTokenIds committed : List Token)
    (contextRows : Nat) :
    (state.commitSpan eosTokenIds committed contextRows).2.emitted = committed.take
      (commitLoop state.maxTokens state.ignoreEos eosTokenIds committed
        ⟨state.completion, 0, state.lastToken, none⟩).emit := by
  simp only [commitSpan, StepOutcome.emitted, List.take_take]
  congr 1
  omega

/-- Committing a run of the oracle's own stream, once the rows below its last
token are written. -/
theorem Faithful.commit
    (faithful : Faithful oracle eosTokenIds prompt maxTokens ignoreEos cachedTokens state kv emitted steps)
    {fed : SlotState} {written : KvRows} {count contextRows : Nat} (some_committed : 1 ≤ count)
    (same : fed.prompt = state.prompt ∧ fed.maxTokens = state.maxTokens ∧ fed.ignoreEos = state.ignoreEos ∧
      fed.samplingOffset = state.samplingOffset ∧ fed.completion = state.completion)
    (all_fed : fed.fed = prompt.length) (later : state.fed ≤ fed.fed)
    (rows : ∀ position < prompt.length + state.completion + count - 1, some (written position) =
      (prompt ++ emitted ++ generate oracle count (prompt ++ emitted) state.completion)[position]?) :
    StepFaithful oracle eosTokenIds prompt maxTokens ignoreEos cachedTokens
      (fed.commitSpan eosTokenIds (generate oracle count (prompt ++ emitted) state.completion)
        contextRows).1 written
      (emitted ++ (fed.commitSpan eosTokenIds (generate oracle count (prompt ++ emitted) state.completion)
        contextRows).2.emitted)
      (fed.commitSpan eosTokenIds (generate oracle count (prompt ++ emitted) state.completion)
        contextRows).2.finish
      (steps + 1) := by
  obtain ⟨samePrompt, sameMax, sameIgnore, sameOffset, sameCompletion⟩ := same
  have agrees := commitLoop_generate oracle eosTokenIds ignoreEos count (prompt ++ emitted) faithful.room 0
    fed.lastToken
  have loop_eq : SlotState.commitLoop fed.maxTokens fed.ignoreEos eosTokenIds
      (generate oracle count (prompt ++ emitted) state.completion) ⟨fed.completion, 0, fed.lastToken, none⟩ =
      SlotState.commitLoop maxTokens ignoreEos eosTokenIds
      (generate oracle count (prompt ++ emitted) state.completion)
        ⟨state.completion, 0, fed.lastToken, none⟩ := by
    rw [sameMax, sameIgnore, sameCompletion, faithful.maxTokens_eq, faithful.ignoreEos_eq]
  rw [SlotState.commitSpan_emitted]
  simp only [SlotState.commitSpan, StepOutcome.finish, loop_eq]
  constructor
  · intro goesOn
    obtain ⟨emits, completes, room, last, plain⟩ := agrees.continued goesOn
    have whole : (generate oracle count (prompt ++ emitted) state.completion).take
        (SlotState.commitLoop maxTokens ignoreEos eosTokenIds
          (generate oracle count (prompt ++ emitted) state.completion)
          ⟨state.completion, 0, fed.lastToken, none⟩).emit =
        generate oracle count (prompt ++ emitted) state.completion := by
      rw [emits]
      exact List.take_of_length_le (by simp)
    have nonempty : generate oracle count (prompt ++ emitted) state.completion ≠ [] := by
      intro empty
      have none := congrArg List.length empty
      simp at none
      omega
    rw [whole, completes, last]
    refine ⟨samePrompt.trans faithful.prompt_eq, sameMax.trans faithful.maxTokens_eq,
      sameIgnore.trans faithful.ignoreEos_eq, sameOffset.trans faithful.offset_eq, room, ?_, ?_,
      Or.inr ⟨all_fed, ?_⟩, ?_, ?_⟩
    · rw [generate_add, ← faithful.generated, Nat.zero_add]
    · rw [faithful.plain, plain, List.append_assoc]
      simp [Decoded.after]
    · rw [List.getLast?_append_of_ne_nil _ nonempty]
      obtain ⟨front, tail, split⟩ := List.eq_nil_or_concat _ |>.resolve_left nonempty
      simp [split]
    · intro position bound
      have decoding : fed.fed = fed.prompt.length := by rw [all_fed, samePrompt, faithful.prompt_eq]
      simp only [SlotState.feedPosition, SlotState.midPrefill, decoding, Nat.lt_irrefl, decide_false,
        Bool.false_eq_true, if_false, samePrompt, faithful.prompt_eq] at bound
      rw [← List.append_assoc]
      exact rows position (by omega)
    · have progress := faithful.progress
      dsimp only
      omega
  · intro reason finished
    obtain ⟨kept, emits, _, _, plain⟩ := agrees.ended reason finished
    rw [faithful.plain, plain, emits]
    simp [Decoded.after]

/-- The rows a span leaves behind, and what a sampling row outputs over them. -/
theorem Faithful.span_rows
    (faithful : Faithful oracle eosTokenIds prompt maxTokens ignoreEos cachedTokens state kv emitted steps)
    {inputs : List StepInput} (fits : inputs.length ≤ state.feedWant)
    (fed : ∀ row < inputs.length, inputs[row]? = state.nextInputAt row) :
    (∀ position < state.feedPosition + inputs.length, some (writeRows kv inputs position) =
      (prompt ++ emitted ++ if state.midPrefill then [] else state.drafts)[position]?) ∧
    ∀ {samples outputs}, Answers oracle (writeRows kv inputs) inputs samples outputs →
      ∀ row step, (row, step) ∈ samples → row < inputs.length → outputs[row]? = some (oracle
        ((prompt ++ emitted ++ if state.midPrefill then [] else state.drafts).take
          (state.feedPosition + row + 1))
        step) := by
  obtain ⟨before, cut, held, joined⟩ := faithful.feed_context
  have consecutive : ∀ row < inputs.length,
      inputs[row]? = (state.feedSpan[row]?).map fun token => ⟨token, before.length + row⟩ := by
    intro row bound
    rw [fed row bound, SlotState.nextInputAt_eq, cut]
  have written := writeRows_context held consecutive
  rw [joined, cut] at written
  refine ⟨written, fun answers row step member bound => ?_⟩
  have inSpan : row < state.feedSpan.length := bound.trans_le (fits.trans state.feedWant_le_span)
  have input := consecutive row bound
  rw [List.getElem?_eq_getElem inSpan, cut] at input
  rw [answers.2 (row, step) member _ input]
  congr 2
  refine contextAt_eq_take fun earlier inside => written earlier ?_
  change earlier ≤ state.feedPosition + row at inside
  omega

theorem Faithful.boundary_span
    (faithful : Faithful oracle eosTokenIds prompt maxTokens ignoreEos cachedTokens state kv emitted steps)
    (mid : state.midPrefill = true) {inputs : List StepInput} {outputs : List Token}
    (granted : 1 ≤ inputs.length)
    (fits : inputs.length ≤ state.feedWant)
    (fed : ∀ row < inputs.length, inputs[row]? = state.nextInputAt row)
    (answers : Answers oracle (writeRows kv inputs) inputs (state.samplingRows inputs.length) outputs) :
    StepFaithful oracle eosTokenIds prompt maxTokens ignoreEos cachedTokens
      (state.advanceSpan outputs eosTokenIds).1 (writeRows kv inputs)
      (emitted ++ (state.advanceSpan outputs eosTokenIds).2.emitted)
      (state.advanceSpan outputs eosTokenIds).2.finish (steps + 1) := by
  obtain ⟨written, sampled⟩ := faithful.span_rows fits fed
  have promptEq := faithful.prompt_eq
  have unfed : state.fed < prompt.length := by simpa [SlotState.midPrefill, promptEq] using mid
  have none : state.completion = 0 := by
    rcases faithful.phase with ⟨_, zero⟩ | ⟨all, _⟩ <;> omega
  have empty : emitted = [] := by
    rw [faithful.generated, none]
    rfl
  simp only [SlotState.feedWant, mid, if_true, SlotState.remainingPrompt, promptEq] at fits
  simp only [mid, if_true, SlotState.feedPosition, empty, List.append_nil] at written sampled
  have sameLength := answers.1
  simp only [SlotState.advanceSpan, mid, if_true]
  by_cases more : state.fed + outputs.length < prompt.length
  · have still : SlotState.midPrefill { state with fed := state.fed + outputs.length } = true := by
      simp [SlotState.midPrefill, promptEq, more]
    rw [if_pos still]
    refine ⟨fun _ => ?_, fun reason finished => by simp [StepOutcome.finish] at finished⟩
    simp only [StepOutcome.emitted, List.append_nil]
    refine ⟨promptEq, faithful.maxTokens_eq, faithful.ignoreEos_eq, faithful.offset_eq, faithful.room,
      faithful.generated, faithful.plain, Or.inl ⟨more, none⟩, ?_, ?_⟩
    · intro position bound
      simp only [SlotState.feedPosition, still, if_true] at bound
      rw [empty, List.append_nil]
      exact written position (by omega)
    · have progress := faithful.progress
      dsimp only
      omega
  · have done : ¬ SlotState.midPrefill { state with fed := state.fed + outputs.length } = true := by
      simp [SlotState.midPrefill, promptEq]
      omega
    rw [if_neg done]
    have whole : inputs.length = state.remainingPrompt := by
      simp only [SlotState.remainingPrompt, promptEq]
      omega
    have last := sampled answers (inputs.length - 1) 0
      (by simp [SlotState.samplingRows, mid, whole, none, faithful.offset_eq]) (by omega)
    rw [List.take_of_length_le (by omega), ← sameLength, ← List.getLast?_eq_getElem?] at last
    have first : outputs.getLast?.toList = generate oracle 1 (prompt ++ emitted) state.completion := by
      simp [last, generate, empty, none]
    rw [first]
    refine faithful.commit (Nat.le_refl 1) ⟨rfl, rfl, rfl, rfl, rfl⟩
      (by dsimp only; omega) (by dsimp only; omega) ?_
    intro position bound
    rw [empty, List.append_nil, List.getElem?_append_left (by omega)]
    exact written position (by omega)

theorem Faithful.verify_span
    (faithful : Faithful oracle eosTokenIds prompt maxTokens ignoreEos cachedTokens state kv emitted steps)
    (decoding : state.midPrefill = false) {inputs : List StepInput} {outputs : List Token}
    (granted : 1 ≤ inputs.length) (fits : inputs.length ≤ state.feedWant)
    (fed : ∀ row < inputs.length, inputs[row]? = state.nextInputAt row)
    (answers : Answers oracle (writeRows kv inputs) inputs (state.samplingRows inputs.length) outputs) :
    StepFaithful oracle eosTokenIds prompt maxTokens ignoreEos cachedTokens
      (state.advanceSpan outputs eosTokenIds).1 (writeRows kv inputs)
      (emitted ++ (state.advanceSpan outputs eosTokenIds).2.emitted)
      (state.advanceSpan outputs eosTokenIds).2.finish (steps + 1) := by
  obtain ⟨written, sampled⟩ := faithful.span_rows fits fed
  have sameLength := answers.1
  have promptEq := faithful.prompt_eq
  have counted := faithful.emitted_length
  have allFed : state.fed = prompt.length ∧ emitted.getLast? = some state.lastToken := by
    rcases faithful.phase with ⟨unfed, _⟩ | phase
    · simp [SlotState.midPrefill, promptEq, unfed] at decoding
    · exact phase
  have started : 1 ≤ state.completion := by
    cases emitted with
    | nil => simp at allFed
    | cons head tail => simp at counted; omega
  simp only [SlotState.feedWant, decoding, Bool.false_eq_true, if_false] at fits
  simp only [decoding, Bool.false_eq_true, if_false, SlotState.feedPosition, promptEq] at written sampled
  let proposed := state.drafts.take (outputs.length - 1)
  have proposedLength : outputs.length = proposed.length + 1 := by
    simp only [proposed, List.length_take]
    omega
  have verified : ∀ row (bound : row < outputs.length), outputs[row] =
      oracle ((prompt ++ emitted) ++ proposed.take row) (state.completion + row) := by
    intro row bound
    have output := sampled answers row (state.completion + row)
      (by simp [SlotState.samplingRows, decoding, faithful.offset_eq]; omega) (by omega)
    rw [List.getElem?_eq_getElem bound, Option.some.injEq] at output
    have cut : (prompt ++ emitted ++ state.drafts).take (prompt.length + state.completion - 1 + row + 1) =
        (prompt ++ emitted) ++ proposed.take row := by
      have length : prompt.length + state.completion - 1 + row + 1 = (prompt ++ emitted).length + row := by
        simp only [List.length_append]
        omega
      rw [length, List.take_length_add_append, List.take_take, Nat.min_eq_left (by omega)]
    rw [output, cut]
  have committed : acceptPrefixMatch proposed outputs = generate oracle (agreedLength proposed outputs + 1)
      (prompt ++ emitted) state.completion := agreed_generates oracle proposedLength verified
  have agreed := agreedLength_le proposed outputs
  simp only [SlotState.advanceSpan, decoding, Bool.false_eq_true, if_false]
  change acceptPrefixMatch (state.drafts.take (outputs.length - 1)) outputs = _ at committed
  rw [committed]
  refine faithful.commit (by omega) ?_ ?_ ?_ ?_
  · split <;> exact ⟨rfl, rfl, rfl, rfl, rfl⟩
  · split <;> exact allFed.1
  · split <;> exact Nat.le_refl _
  · intro position bound
    have below : position < (prompt ++ emitted ++ proposed.take (agreedLength proposed outputs)).length := by
      simp only [List.length_append, List.length_take]
      omega
    obtain ⟨unfed, drafts⟩ := ( List.take_prefix (agreedLength proposed outputs) proposed).trans
      ( List.take_prefix (outputs.length - 1) state.drafts)
    have stream : generate oracle (agreedLength proposed outputs + 1) (prompt ++ emitted) state.completion =
        proposed.take (agreedLength proposed outputs) ++ (outputs[agreedLength proposed outputs]?).toList :=
      committed.symm
    rw [written position (by omega), ← drafts, stream, ← List.append_assoc, ← List.append_assoc,
      List.getElem?_append_left below, List.getElem?_append_left below]

end Faithful

theorem SlotReach.step_faithful {oracle : List Token → Nat → Token} {eosTokenIds prompt : List Token}
    {maxTokens cachedTokens steps : Nat} {ignoreEos : Bool} {state : SlotState} {kv : KvRows}
    {emitted : List Token} {finish : Option FinishReason} (uncached : cachedTokens < prompt.length)
    (budget : 1 ≤ maxTokens)
    (reach : SlotReach oracle eosTokenIds prompt maxTokens ignoreEos cachedTokens state kv
      emitted finish steps) :
    StepFaithful oracle eosTokenIds prompt maxTokens ignoreEos cachedTokens state kv
      emitted finish steps := by
  induction reach with
  | @start kv cached =>
    refine ⟨fun _ => ?_, fun reason finished => by simp at finished⟩
    have mid : (SlotState.new prompt maxTokens ignoreEos cachedTokens).midPrefill = true := by
      simp [SlotState.midPrefill, SlotState.new, uncached]
    refine ⟨rfl, rfl, rfl, rfl, budget, rfl, ?_, Or.inl ⟨uncached, rfl⟩, ?_, ?_⟩
    · simp [SlotState.new, Decoded.after]
    · intro position bound
      simp only [SlotState.feedPosition, mid, if_true] at bound
      simpa using cached position bound
    · simp [SlotState.new]
  | @drafts state kv emitted steps drafts spanDrafts previous ih =>
    have faithful := ih.goesOn rfl
    refine ⟨fun _ => ?_, fun reason finished => by simp at finished⟩
    exact ⟨faithful.prompt_eq, faithful.maxTokens_eq, faithful.ignoreEos_eq,
      faithful.offset_eq, faithful.room,
      faithful.generated, faithful.plain, faithful.phase, faithful.rows, faithful.progress⟩
  | @span state kv emitted steps next outcome inputs outputs previous granted fits fed answers run ih =>
    have faithful := ih.goesOn rfl
    have step : StepFaithful oracle eosTokenIds prompt maxTokens ignoreEos cachedTokens
        (state.advanceSpan outputs eosTokenIds).1 (writeRows kv inputs)
        (emitted ++ (state.advanceSpan outputs eosTokenIds).2.emitted)
        (state.advanceSpan outputs eosTokenIds).2.finish (steps + 1) := by
      cases mid : state.midPrefill with
      | true => exact faithful.boundary_span mid granted fits fed answers
      | false => exact faithful.verify_span mid granted fits fed answers
    simpa only [run] using step

/-- A run that has not finished can always take another step, whatever the
drafts: some row is wanted, and every wanted row has an input. -/
theorem Faithful.feeds {oracle : List Token → Nat → Token} {eosTokenIds prompt : List Token}
    {maxTokens cachedTokens steps : Nat} {ignoreEos : Bool} {state : SlotState} {kv : KvRows}
    {emitted : List Token}
    (faithful : Faithful oracle eosTokenIds prompt maxTokens ignoreEos cachedTokens state kv emitted steps) :
    1 ≤ state.feedWant ∧ ∀ row < state.feedWant, (state.nextInputAt row).isSome := by
  constructor
  · have room := faithful.room
    have cap := faithful.maxTokens_eq
    unfold SlotState.feedWant SlotState.midPrefill SlotState.remainingPrompt
    split
    · rename_i mid
      simp only [decide_eq_true_eq] at mid
      omega
    · omega
  · intro row bound
    have inside := bound.trans_le state.feedWant_le_span
    simp [SlotState.nextInputAt_eq, List.getElem?_eq_getElem inside]

/-- Speculative decoding is lossless. A finished run reports what plain
one-token-at-a-time decoding reports, and an unfinished one has emitted a
prefix of it and can go on, for fewer steps in all than there are tokens. -/
theorem SlotReach.lossless {oracle : List Token → Nat → Token} {eosTokenIds prompt : List Token}
    {maxTokens cachedTokens steps : Nat} {ignoreEos : Bool} {state : SlotState} {kv : KvRows}
    {emitted : List Token} {finish : Option FinishReason} (uncached : cachedTokens < prompt.length)
    (budget : 1 ≤ maxTokens)
    (reach : SlotReach oracle eosTokenIds prompt maxTokens ignoreEos cachedTokens state kv
      emitted finish steps) :
    (∀ reason, finish = some reason →
      (⟨emitted, reason, state.completion⟩ : Decoded) =
        plainDecode oracle eosTokenIds ignoreEos maxTokens prompt 0) ∧
    (finish = none →
      emitted <+: (plainDecode oracle eosTokenIds ignoreEos maxTokens prompt 0).emitted ∧
      1 ≤ state.feedWant ∧ (∀ row < state.feedWant, (state.nextInputAt row).isSome) ∧
      steps < prompt.length - cachedTokens + maxTokens) := by
  have faithful := reach.step_faithful uncached budget
  refine ⟨fun reason finished => (faithful.ends reason finished).symm, fun unfinished => ?_⟩
  have goesOn := faithful.goesOn unfinished
  obtain ⟨wants, feeds⟩ := goesOn.feeds
  refine ⟨?_, wants, feeds, ?_⟩
  · rw [goesOn.plain]
    exact List.prefix_append _ _
  · have progress := goesOn.progress
    have room := goesOn.room
    have within : state.fed ≤ prompt.length := by
      rcases goesOn.phase with ⟨unfed, _⟩ | ⟨all, _⟩ <;> omega
    omega

/-- A two-token prompt with one token cached, a prompt-completing row, then a
verify span whose one fed draft is right and which hits the length cap. -/
theorem SlotReach.lossless_accepted_draft :
    ∃ state kv, SlotReach (fun context _ => UInt32.ofNat context.length) [0] [10,
      11] 3 false 1 state kv [2, 3, 4]
        (some .length) 2 ∧
      (⟨[2, 3, 4], .length, state.completion⟩ : Decoded) =
        plainDecode (fun context _ => UInt32.ofNat context.length) [0] false 3 [10, 11] 0 := by
  let oracle : List Token → Nat → Token := fun context _ => UInt32.ofNat context.length
  have cached : SlotReach oracle [0] [10, 11] 3 false 1 (SlotState.new [10, 11] 3 false 1)
      (fun _ => 10) [] none 0 :=
    .start (by decide)
  have boundary := SlotReach.span [⟨11, 1⟩] [2] cached (by decide) (by decide) (by decide)
    ⟨rfl, by decide⟩ rfl
  have proposed := SlotReach.drafts [3, 9] 2 boundary
  have verify := SlotReach.span [⟨2, 2⟩, ⟨3, 3⟩] [3, 4] proposed (by decide) (by decide)
    (by decide) ⟨rfl, by decide⟩ rfl
  exact ⟨_, _, verify, (verify.lossless (by decide) (by decide)).1 _ rfl⟩

end PegaInfer.Glm52
