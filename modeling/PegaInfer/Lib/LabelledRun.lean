import Mathlib

namespace PegaInfer

/-- A run that reads a list of labels, one per step. -/
inductive LabelledRun {σ α : Type*} (step : σ → α → σ → Prop) : σ → List α → σ → Prop
  | nil (state : σ) : LabelledRun step state [] state
  | cons {first middle last : σ} {label : α} {labels : List α} :
      step first label middle → LabelledRun step middle labels last →
        LabelledRun step first (label :: labels) last

namespace LabelledRun

variable {σ α : Type*} {step : σ → α → σ → Prop} {first middle last : σ} {label : α} {labels : List α}

theorem single (move : step first label last) : LabelledRun step first [label] last :=
  .cons move (.nil last)

theorem append {more : List α} (early : LabelledRun step first labels middle)
    (late : LabelledRun step middle more last) :
    LabelledRun step first (labels ++ more) last := by
  induction early with
  | nil => exact late
  | cons move _ ih => exact .cons move (ih late)

/-- What the start has and every step keeps, holds at the end. -/
theorem invariant (property : List α → σ → Prop) (run : LabelledRun step first labels last)
    (start : property [] first)
    (keeps : ∀ {before after : σ} {read : List α} {label : α}, property read before →
      step before label after →
      property (read ++ [label]) after) : property labels last := by
  suffices general : ∀ read, property read first → property (read ++ labels) last from general [] start
  clear start
  induction run with
  | nil => intro read holds; simpa only [List.append_nil] using holds
  | cons move _ ih =>
    intro read holds
    rw [List.append_cons]
    exact ih _ (keeps holds move)

/-- A simulation of the steps is one of the runs. -/
theorem simulate {τ : Type*} {spec : τ → α → τ → Prop} (relates : σ → τ → Prop)
    (matched : ∀ {before after : σ} {model : τ} {label : α}, relates before model → step before label after →
      ∃ model', spec model label model' ∧ relates after model')
    (run : LabelledRun step first labels last) {model : τ} (start : relates first model) :
    ∃ model', LabelledRun spec model labels model' ∧ relates last model' := by
  induction run generalizing model with
  | nil => exact ⟨model, .nil model, start⟩
  | cons move _ ih =>
    obtain ⟨middle, move', related⟩ := matched start move
    obtain ⟨model', run', related'⟩ := ih related
    exact ⟨model', .cons move' run', related'⟩

end LabelledRun

end PegaInfer
