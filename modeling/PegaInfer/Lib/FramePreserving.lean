import Mathlib

namespace PegaInfer.Lib

section Transfer

variable {S R : Type*} [AddCommMonoid R] {Ok : S → R → Prop}

/-- A step that turns the resource `r` of one owner into `r'`, whatever the
other owners hold. -/
def Transfers (Ok : S → R → Prop) (s : S) (r : R) (s' : S) (r' : R) : Prop :=
  ∀ frame, Ok s (r + frame) → Ok s' (r' + frame)

theorem Transfers.refl (s : S) (r : R) : Transfers Ok s r s r := fun _ ok => ok

theorem Transfers.trans {s s' s'' : S} {r r' r'' : R} (first : Transfers Ok s r s' r')
    (second : Transfers Ok s' r' s'' r'') : Transfers Ok s r s'' r'' :=
  fun frame ok => second frame (first frame ok)

/-- What the owner does not use in the step it keeps. -/
theorem Transfers.frame {s s' : S} {r r' : R} (step : Transfers Ok s r s' r') (kept : R) :
    Transfers Ok s (r + kept) s' (r' + kept) := by
  intro frame ok
  rw [add_assoc] at ok ⊢
  exact step (kept + frame) ok

theorem Transfers.frame_left {s s' : S} {r r' : R} (step : Transfers Ok s r s' r') (kept : R) :
    Transfers Ok s (kept + r) s' (kept + r') := by
  rw [add_comm kept r, add_comm kept r']
  exact step.frame kept

theorem Transfers.congr {s s' : S} {r r' t t' : R} (step : Transfers Ok s r s' r') (before : r = t)
    (after : r' = t') : Transfers Ok s t s' t' := by
  subst before after
  exact step

theorem Transfers.whole {s s' : S} {r r' : R} (step : Transfers Ok s r s' r') (ok : Ok s r) : Ok s' r' := by
  have framed := step 0
  simp only [add_zero] at framed
  exact framed ok

end Transfer

section Owners

variable {S R A : Type*} [AddCommMonoid R] {Ok : S → R → Prop} {holding : A → R}

/-- The resource all owners hold together. -/
def heldByAll (holding : A → R) (owners : List A) : R := (owners.map holding).sum

theorem heldByAll_set (holding : A → R) {owners : List A} {k : Nat} {owner : A}
    (atK : owners[k]? = some owner) (owner' : A) :
    ∃ rest, heldByAll holding owners = holding owner + rest ∧
      heldByAll holding (owners.set k owner') = holding owner' + rest := by
  induction owners generalizing k with
  | nil => simp at atK
  | cons first others ih =>
    cases k with
    | zero =>
      simp only [List.getElem?_cons_zero, Option.some.injEq] at atK
      subst atK
      exact ⟨heldByAll holding others, by simp [heldByAll], by simp [heldByAll]⟩
    | succ k =>
      simp only [List.getElem?_cons_succ] at atK
      obtain ⟨rest, before, after⟩ := ih atK
      refine ⟨holding first + rest, ?_, ?_⟩
      · simp only [heldByAll, List.map_cons, List.sum_cons] at before ⊢
        rw [before, add_left_comm]
      · simp only [heldByAll, List.set_cons_succ, List.map_cons, List.sum_cons] at after ⊢
        rw [after, add_left_comm]

theorem heldByAll_mem (holding : A → R) {owners : List A} {owner : A} (member : owner ∈ owners) :
    ∃ rest, heldByAll holding owners = holding owner + rest := by
  obtain ⟨k, bound, rfl⟩ := List.getElem_of_mem member
  obtain ⟨rest, split, -⟩ := heldByAll_set holding (List.getElem?_eq_getElem bound) owners[k]
  exact ⟨rest, split⟩

/-- A transfer by one owner carries the invariant of all of them along. -/
theorem Transfers.owner_step {s s' : S} {owners : List A} {k : Nat} {owner owner' : A}
    (step : Transfers Ok s (holding owner) s' (holding owner')) (atK : owners[k]? = some owner)
    (ok : Ok s (heldByAll holding owners)) : Ok s' (heldByAll holding (owners.set k owner')) := by
  obtain ⟨rest, before, after⟩ := heldByAll_set holding atK owner'
  rw [after]
  exact step rest (before ▸ ok)

end Owners

end PegaInfer.Lib
