import PegaInfer.Glm52.Admission
import PegaInfer.Glm52.Lossless

namespace PegaInfer.Glm52

/-- How a validated request comes to its slot. The prefix matcher leaves a prompt token uncached. -/
inductive Seated (req : GenerateRequest) (mtpDraftLen : Nat) : SlotState → Prop
  | plain {cachedTokens : Nat} (uncached : cachedTokens < req.promptTokens.length) :
      Seated req mtpDraftLen (seatPlain req cachedTokens)
  | native {ours : String} {handoff : NativeMtpHandoff} {state : SlotState}
      (envelope : nativeMtpHandoff ours req handoff = .ok handoff)
      (seated : admitNative req handoff mtpDraftLen = some state) :
      Seated req mtpDraftLen state

/-- The states of a slot until its request finishes: any drafts, and any non-empty grant of the
rows it wants. -/
inductive Underway (req : GenerateRequest) (mtpDraftLen : Nat) (eosTokenIds : List Token) : SlotState → Prop
  | seated {state} (seated : Seated req mtpDraftLen state) : Underway req mtpDraftLen eosTokenIds state
  | drafts {state} (before : Underway req mtpDraftLen eosTokenIds state)
      (drafts : List Token) (spanDrafts : Nat) :
      Underway req mtpDraftLen eosTokenIds (state.setDrafts drafts spanDrafts)
  | span {state next outcome} (before : Underway req mtpDraftLen eosTokenIds state)
      (outputs : List Token) (granted : outputs ≠ [])
      (within : outputs.length ≤ state.feedWant)
        (step : state.advanceSpan outputs eosTokenIds = (next, outcome))
      (unfinished : outcome.finish = none) : Underway req mtpDraftLen eosTokenIds next

/-- What the window rests on: the prompt and the budget fit it, and a decoding slot has an anchor. -/
structure Inside (maxModelLen : Nat) (state : SlotState) : Prop where
  prompt : 0 < state.prompt.length
  fits : state.prompt.length + state.maxTokens ≤ maxModelLen + 1
  owed : state.completion < state.maxTokens
  anchored : state.midPrefill = false → 0 < state.completion

theorem Inside.drafts {maxModelLen : Nat} {state : SlotState} (inside : Inside maxModelLen state)
    (drafts : List Token) (spanDrafts : Nat) :
    Inside maxModelLen (state.setDrafts drafts spanDrafts) :=
      ⟨inside.prompt, inside.fits, inside.owed, inside.anchored⟩

theorem Seated.inside {req : GenerateRequest} {mtpDraftLen maxModelLen : Nat}
    {prefillOnly nativeMtpPrefill : Bool} {state : SlotState}
    (accepted : validateRequest req maxModelLen mtpDraftLen prefillOnly nativeMtpPrefill = .ok ())
    (seated : Seated req mtpDraftLen state) : Inside maxModelLen state := by
  obtain ⟨prompt, owed, fits⟩ := validateRequest_ok accepted
  cases seated with
  | @plain cachedTokens uncached =>
    refine ⟨prompt, fits, owed, fun decoding => ?_⟩
    have fed : ¬ cachedTokens < req.promptTokens.length := of_decide_eq_false decoding
    exact absurd uncached fed
  | native envelope seated =>
    obtain ⟨more, anchor, rfl⟩ := admitNative_eq seated
    exact Inside.drafts ⟨prompt, fits, more, fun _ => Nat.one_pos⟩ _ _

/-- The commit loop stays within the budget, and short of it when it goes on. -/
theorem commitLoop_budget {maxTokens : Nat} {ignoreEos : Bool} {eosTokenIds : List Token}
    (committed : List Token)
    (loop : SlotState.CommitLoop) (owed : loop.completion < maxTokens) (fresh : loop.finish = none) :
    loop.completion ≤ (SlotState.commitLoop maxTokens ignoreEos eosTokenIds committed loop).completion ∧
      (SlotState.commitLoop maxTokens ignoreEos eosTokenIds committed loop).completion ≤ maxTokens ∧
      (committed ≠ [] → loop.completion <
        (SlotState.commitLoop maxTokens ignoreEos eosTokenIds committed loop).completion) ∧
      ((SlotState.commitLoop maxTokens ignoreEos eosTokenIds committed loop).finish = none →
        (SlotState.commitLoop maxTokens ignoreEos eosTokenIds committed loop).completion < maxTokens) := by
  induction committed generalizing loop with
  | nil => exact ⟨le_rfl, owed.le, fun some => absurd rfl some, fun _ => owed⟩
  | cons token committed ih =>
    rw [SlotState.commitLoop]
    split
    · exact ⟨Nat.le_succ _, owed, fun _ => Nat.lt_succ_self _, fun goes => by cases goes⟩
    · split
      · exact ⟨Nat.le_succ _, owed, fun _ => Nat.lt_succ_self _, fun goes => by cases goes⟩
      · rename_i short
        obtain ⟨low, high, -, goes⟩ :=
          ih ⟨loop.completion + 1, loop.emit + 1, token, loop.finish⟩ (by dsimp only; omega) fresh
        dsimp only at low
        exact ⟨by omega, high, fun _ => by omega, goes⟩

/-- A commit of at least one token leaves an anchor and a budget that is not overdrawn. -/
theorem Inside.commit {maxModelLen : Nat} {state : SlotState} (eosTokenIds : List Token) (contextRows : Nat)
    (prompt : 0 < state.prompt.length) (fits : state.prompt.length + state.maxTokens ≤ maxModelLen + 1)
    (owed : state.completion < state.maxTokens) {committed : List Token} (some_ : committed ≠ []) :
    (state.commitSpan eosTokenIds committed contextRows).1.completion ≤
      (state.commitSpan eosTokenIds committed contextRows).1.maxTokens ∧
      ((state.commitSpan eosTokenIds committed contextRows).2.finish = none →
        Inside maxModelLen (state.commitSpan eosTokenIds committed contextRows).1) := by
  obtain ⟨-, high, more, goes⟩ := @commitLoop_budget state.maxTokens state.ignoreEos eosTokenIds committed
    ⟨state.completion, 0, state.lastToken, none⟩ owed rfl
  have further := more some_
  exact ⟨high, fun unfinished => ⟨prompt, fits, goes unfinished,
    fun _ => by dsimp only [SlotState.commitSpan] at further ⊢; omega⟩⟩

theorem acceptPrefixMatch_ne_nil {proposed targetTokens : List Token}
    (shorter : proposed.length < targetTokens.length) :
    acceptPrefixMatch proposed targetTokens ≠ [] := by
  have agreed := (List.takeWhile_sublist (fun pair : Token × Token => pair.1 == pair.2) (l :=
    proposed.zip targetTokens)).length_le
  rw [List.length_zip] at agreed
  have next : ((proposed.zip targetTokens).takeWhile fun pair => pair.1 == pair.2).length <
    targetTokens.length := by omega
  simp [acceptPrefixMatch, List.getElem?_eq_getElem next]

theorem Inside.span {maxModelLen : Nat} {state : SlotState} (inside : Inside maxModelLen state)
    (eosTokenIds : List Token)
    {outputs : List Token} (granted : outputs ≠ []) :
    (state.advanceSpan outputs eosTokenIds).1.completion ≤
      (state.advanceSpan outputs eosTokenIds).1.maxTokens ∧
      ((state.advanceSpan outputs eosTokenIds).2.finish = none →
        Inside maxModelLen (state.advanceSpan outputs eosTokenIds).1) := by
  have rows := List.length_pos_of_ne_nil granted
  unfold SlotState.advanceSpan
  split
  · dsimp only
    split
    · rename_i still
      exact ⟨inside.owed.le, fun _ =>
        ⟨inside.prompt, inside.fits, inside.owed, fun fed => by simp [still] at fed⟩⟩
    · have last : outputs.getLast?.toList ≠ [] := by simp [granted]
      exact @Inside.commit _ { state with fed := state.fed + outputs.length } eosTokenIds
        _ inside.prompt inside.fits
        inside.owed _ last
  · have shorter : (state.drafts.take (outputs.length - 1)).length < outputs.length := by
      rw [List.length_take]
      omega
    have some_ := acceptPrefixMatch_ne_nil shorter
    dsimp only
    split
    · exact @Inside.commit _ { state with spec := state.spec.record _ } eosTokenIds _ inside.prompt
        inside.fits inside.owed _ some_
    · exact Inside.commit eosTokenIds _ inside.prompt inside.fits inside.owed some_

/-- Every row the slot wants lies below the window's end. -/
theorem Inside.rows {maxModelLen : Nat} {state : SlotState} (inside : Inside maxModelLen state) :
    1 ≤ state.feedWant ∧ ∀ offset < state.feedWant, ∃ input, state.nextInputAt offset = some input ∧
      input.position < maxModelLen := by
  have fits := inside.fits
  have owed := inside.owed
  have prompt := inside.prompt
  unfold SlotState.feedWant SlotState.nextInputAt
  by_cases feeding : state.midPrefill = true
  · have unfed : state.fed < state.prompt.length := of_decide_eq_true feeding
    simp only [if_pos feeding, SlotState.remainingPrompt]
    refine ⟨by omega, fun offset below => ?_⟩
    have inRange : state.fed + offset < state.prompt.length := by omega
    exact ⟨_, by rw [List.getElem?_eq_getElem inRange, Option.map_some], by dsimp only; omega⟩
  · have anchored := inside.anchored (by simpa using feeding)
    simp only [if_neg feeding]
    refine ⟨by omega, fun offset below => ?_⟩
    by_cases anchor : offset = 0
    · exact ⟨_, by rw [if_pos anchor, Option.map_some], by dsimp only; omega⟩
    · have inRange : offset - 1 < state.drafts.length := by omega
      exact ⟨_, by rw [if_neg anchor, List.getElem?_eq_getElem inRange, Option.map_some],
        by dsimp only; omega⟩

theorem Underway.inside {req : GenerateRequest} {mtpDraftLen maxModelLen : Nat}
    {prefillOnly nativeMtpPrefill : Bool}
    {eosTokenIds : List Token} {state : SlotState}
    (accepted : validateRequest req maxModelLen mtpDraftLen prefillOnly nativeMtpPrefill = .ok ())
    (underway : Underway req mtpDraftLen eosTokenIds state) : Inside maxModelLen state := by
  induction underway with
  | seated seated => exact seated.inside accepted
  | drafts _ drafts spanDrafts ih => exact ih.drafts drafts spanDrafts
  | span _ outputs granted within step unfinished ih =>
    have after := (ih.span eosTokenIds granted).2
    rw [step] at after
    exact after unfinished

/-- A slot that has not finished wants a row, every row it may be granted lies in the window,
and neither it nor the step that finishes it overdraws `max_tokens`. -/
theorem Underway.window {req : GenerateRequest} {mtpDraftLen maxModelLen : Nat}
    {prefillOnly nativeMtpPrefill : Bool}
    {eosTokenIds : List Token} {state : SlotState}
    (accepted : validateRequest req maxModelLen mtpDraftLen prefillOnly nativeMtpPrefill = .ok ())
    (underway : Underway req mtpDraftLen eosTokenIds state) :
    1 ≤ state.feedWant ∧ state.completion ≤ state.maxTokens ∧
      (∀ offset < state.feedWant, ∃ input, state.nextInputAt offset = some input ∧
        input.position < maxModelLen) ∧
      ∀ outputs : List Token, outputs ≠ [] → outputs.length ≤ state.feedWant →
        (state.advanceSpan outputs eosTokenIds).1.completion ≤
          (state.advanceSpan outputs eosTokenIds).1.maxTokens := by
  have inside := underway.inside accepted
  obtain ⟨wanting, rows⟩ := inside.rows
  exact ⟨wanting, inside.owed.le, rows, fun outputs granted _ => (inside.span eosTokenIds granted).1⟩

/-- A greedy request of three prompt tokens and four output tokens that just fits a window of six. -/
def tightRequest : GenerateRequest :=
  { promptTokens := [11, 12, 13], maxTokens := 4
    params := { temperature := .finite 0, topK := -1, topP := .finite 1, ignoreEos := true,
                minP := .finite 0 }
    logprobs := 0, echo := false, loraAdapter := none }

/-- A native handoff of it, past a verify round that fed and took one of its drafts. -/
theorem Underway.window_handoff :
    ∃ state : SlotState, state.completion = 3 ∧ 1 ≤ state.feedWant ∧ state.completion ≤ state.maxTokens ∧
      (∀ offset < state.feedWant, ∃ input, state.nextInputAt offset = some input ∧ input.position < 6) ∧
      ∀ outputs : List Token, outputs ≠ [] → outputs.length ≤ state.feedWant →
        (state.advanceSpan outputs []).1.completion ≤ (state.advanceSpan outputs []).1.maxTokens := by
  have envelope : nativeMtpHandoff "f" tightRequest ⟨"f", 3, some 14, [15, 16]⟩ =
    .ok ⟨"f", 3, some 14, [15, 16]⟩ := rfl
  have seated : Underway tightRequest 5 [] _ := .seated (.native envelope rfl)
  have verified : Underway tightRequest 5 [] _ := .span seated [15, 99] (by decide) (by decide) rfl rfl
  have accepted : validateRequest tightRequest 6 5 false false = .ok () := by decide +kernel
  exact ⟨_, rfl, Underway.window accepted verified⟩

end PegaInfer.Glm52
