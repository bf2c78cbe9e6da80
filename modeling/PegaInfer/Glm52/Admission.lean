import PegaInfer.Frontend.Sampler
import PegaInfer.Glm52.Slot

namespace PegaInfer.Glm52

open Frontend

/-- The sampling parameters of a request; `min_p` is read by the intake check alone. -/
structure RequestParams extends SamplingParams where
  minP : F32
  deriving DecidableEq

/-- `max_tokens` comes off the wire as a `u32`, so that no sum below leaves a `usize`. -/
structure GenerateRequest where
  promptTokens : List Token
  maxTokens : Nat
  params : RequestParams
  logprobs : Nat
  echo : Bool
  loraAdapter : Option String
  deriving DecidableEq

/-- The sampler kernel's own checks; the texts go without the value they print. -/
def RequestParams.validate (params : RequestParams) : Except String Unit :=
  if params.isGreedy then .ok ()
  else if params.temperature.value = none then .error "GLM5.2 sampling requires a finite temperature"
  else if ¬ params.topP.value.any (fun topP => 0 < topP ∧ topP ≤ 1)
    then .error "GLM5.2 sampling requires top_p in (0, 1]"
  else if ¬ params.minP.value.any (fun minP => 0 ≤ minP ∧ minP < 1)
    then .error "GLM5.2 sampling requires min_p in [0, 1)"
  else .ok ()

/-- `validate_request`; `mtpDraftLen` is `glm52_mtp_draft_len()`. -/
def validateRequest (req : GenerateRequest) (maxModelLen mtpDraftLen : Nat)
    (prefillOnly nativeMtpPrefill : Bool) : Except String Unit :=
  let prompt := req.promptTokens.length
  if req.promptTokens = [] then .error "GLM5.2 requires a non-empty prompt"
  else if req.maxTokens = 0 then .error "GLM5.2 requires max_tokens > 0"
  else if prefillOnly ∧ req.maxTokens ≠ 1
    then .error s!"GLM5.2 prefill-only mode requires max_tokens=1, got {req.maxTokens}"
  else if maxModelLen < prompt + req.maxTokens - 1 then
    .error (s!"GLM5.2 context cap: prompt {prompt} + max_tokens {req.maxTokens} exceeds " ++
      s!"max_model_len {maxModelLen}")
  else if nativeMtpPrefill ∧ maxModelLen < prompt + mtpDraftLen - 1 then
    .error (s!"GLM5.2 native-MTP prefill requires {mtpDraftLen - 1} positions of proposal " ++
      s!"headroom: prompt {prompt} exceeds max_model_len {maxModelLen}")
  else do
    req.params.validate
    if 0 < req.logprobs ∨ req.echo then .error "GLM5.2 bring-up does not support logprobs/echo"
    else if req.loraAdapter.isSome then .error "GLM5.2 does not support LoRA adapters"
    else .ok ()

/-- `NativeMtpHandoff`; no anchor says that the prefill side sampled an EOS. -/
structure NativeMtpHandoff where
  fingerprint : String
  committedLen : Nat
  anchorTokenId : Option Token
  draftTokens : List Token
  deriving DecidableEq

/-- `native_mtp_handoff`, for an envelope that parsed; `ours` is this engine's fingerprint. -/
def nativeMtpHandoff (ours : String) (req : GenerateRequest) (handoff : NativeMtpHandoff) :
    Except String NativeMtpHandoff :=
  if handoff.fingerprint ≠ ours then
    .error s!"native P/D fingerprint mismatch: peer {handoff.fingerprint}, this engine {ours}"
  else if req.promptTokens.length ≠ handoff.committedLen then
    .error (s!"native P/D v3 expects the original prompt: committed_len {handoff.committedLen}, " ++
      s!"got {req.promptTokens.length} prompt tokens")
  else .ok handoff

/-- The state a plain admission seats. -/
def seatPlain (req : GenerateRequest) (cachedTokens : Nat) : SlotState :=
  SlotState.new req.promptTokens req.maxTokens req.params.ignoreEos cachedTokens

/-- The state `admit_native` seats: the handoff's anchor goes on the prompt and comes off it again as
the first token. Handoffs that need no slot fail here; the intake sweep finishes them before. -/
def admitNative (req : GenerateRequest) (handoff : NativeMtpHandoff) (mtpDraftLen : Nat) : Option SlotState :=
  match handoff.anchorTokenId with
  | none => none
  | some anchor =>
    if 1 < req.maxTokens then
      (SlotState.new (req.promptTokens ++ [anchor]) req.maxTokens req.params.ignoreEos
        handoff.committedLen).seedNativePdReplayedAnchor.map
        fun state => state.setDrafts handoff.draftTokens mtpDraftLen
    else none

/-- What an accepted request has. -/
theorem validateRequest_ok {req : GenerateRequest} {maxModelLen mtpDraftLen : Nat}
    {prefillOnly nativeMtpPrefill : Bool}
    (accepted : validateRequest req maxModelLen mtpDraftLen prefillOnly nativeMtpPrefill = .ok ()) :
    0 < req.promptTokens.length ∧ 0 < req.maxTokens ∧
      req.promptTokens.length + req.maxTokens ≤ maxModelLen + 1 := by
  unfold validateRequest at accepted
  dsimp only at accepted
  by_cases empty : req.promptTokens = []
  · rw [if_pos empty] at accepted
    cases accepted
  by_cases none : req.maxTokens = 0
  · rw [if_neg empty, if_pos none] at accepted
    cases accepted
  by_cases only : prefillOnly ∧ req.maxTokens ≠ 1
  · rw [if_neg empty, if_neg none, if_pos only] at accepted
    cases accepted
  by_cases past : maxModelLen < req.promptTokens.length + req.maxTokens - 1
  · rw [if_neg empty, if_neg none, if_neg only, if_pos past] at accepted
    cases accepted
  have prompt := List.length_pos_of_ne_nil empty
  exact ⟨prompt, by omega, by omega⟩

theorem nativeMtpHandoff_ok {ours : String} {req : GenerateRequest} {handoff : NativeMtpHandoff}
    (envelope : nativeMtpHandoff ours req handoff = .ok handoff) :
    req.promptTokens.length = handoff.committedLen := by
  unfold nativeMtpHandoff at envelope
  split at envelope
  · cases envelope
  · split at envelope
    · cases envelope
    · rename_i same
      exact not_not.mp same

/-- The seated state has the client's prompt again, all of it fed, and the anchor as its first token. -/
theorem admitNative_eq {req : GenerateRequest} {handoff : NativeMtpHandoff}
    {mtpDraftLen : Nat} {state : SlotState}
    (seated : admitNative req handoff mtpDraftLen = some state) :
    1 < req.maxTokens ∧ ∃ anchor, state =
      ({ SlotState.new req.promptTokens req.maxTokens req.params.ignoreEos handoff.committedLen with
      lastToken := anchor, completion := 1 } : SlotState).setDrafts handoff.draftTokens mtpDraftLen := by
  unfold admitNative at seated
  split at seated
  · cases seated
  · rename_i anchor _
    split at seated
    · rename_i more
      have popped : (SlotState.new (req.promptTokens ++ [anchor]) req.maxTokens req.params.ignoreEos
          handoff.committedLen).seedNativePdReplayedAnchor =
          some { SlotState.new req.promptTokens req.maxTokens req.params.ignoreEos handoff.committedLen with
            lastToken := anchor, completion := 1 } := by
        simp [SlotState.seedNativePdReplayedAnchor, SlotState.new]
      rw [popped, Option.map_some] at seated
      exact ⟨more, anchor, (Option.some.inj seated).symm⟩
    · cases seated

end PegaInfer.Glm52
