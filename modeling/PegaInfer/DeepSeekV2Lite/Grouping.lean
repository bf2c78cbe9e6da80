import PegaInfer.DeepSeekV2Lite.Rows

namespace PegaInfer.DeepSeekV2Lite

structure DecodePositionGroupPlan where
  position : Nat
  indices : List Nat
  deriving DecidableEq

structure DecodePositionGroup where
  position : Nat
  rows : List (Nat × ActiveRequestState)
  deriving DecidableEq

/-- The index joins the first group of its position, or founds one. -/
def noteRow (position idx : Nat) : List DecodePositionGroupPlan → List DecodePositionGroupPlan
  | [] => [⟨position, [idx]⟩]
  | group :: groups =>
    if group.position = position then { group with indices := group.indices ++ [idx] } :: groups
      else group :: noteRow position idx groups

def decodePositionGroupsForPositions (positions : List Nat) : List DecodePositionGroupPlan :=
  positions.zipIdx.foldl (fun groups row => noteRow row.1 row.2 groups) []

def commonDecodePosition (active : List ActiveRequestState) : Option Nat :=
  match active with
  | [] => none
  | first :: _ =>
    if active.all (·.nextDecodePosition = first.nextDecodePosition) then
      some first.nextDecodePosition
    else none

/-- `rows[idx].take()` for every index; `none` is its panic. -/
def takeRows (rows : List (Option ActiveRequestState)) :
    List Nat → Option (List (Nat × ActiveRequestState) × List (Option ActiveRequestState))
  | [] => some ([], rows)
  | idx :: indices =>
    match rows[idx]? with
    | some (some row) =>
      match takeRows (rows.set idx none) indices with
      | some (taken, rows) => some ((idx, row) :: taken, rows)
      | none => none
    | _ => none

def takeGroups (rows : List (Option ActiveRequestState)) :
    List DecodePositionGroupPlan → Option (List DecodePositionGroup)
  | [] => some []
  | plan :: plans =>
    match takeRows rows plan.indices with
    | some (taken, rows) =>
      match takeGroups rows plans with
      | some groups => some (⟨plan.position, taken⟩ :: groups)
      | none => none
    | none => none

def takeDecodePositionGroups (active : List ActiveRequestState) : Option (List DecodePositionGroup) :=
  takeGroups (active.map some) (decodePositionGroupsForPositions
    (active.map ActiveRequestState.nextDecodePosition))

def restoreSurvivingRows (survivors : List (Nat × ActiveRequestState)) : List ActiveRequestState :=
  (survivors.mergeSort fun a b => a.1 ≤ b.1).map Prod.snd

/-- `active.drain(..).enumerate()`. -/
def enumerateRows (active : List ActiveRequestState) : List (Nat × ActiveRequestState) :=
  active.zipIdx.map Prod.swap

end PegaInfer.DeepSeekV2Lite
