import PegaInfer.DeepSeekV2Lite.Grouping

namespace PegaInfer.DeepSeekV2Lite

section plans

variable {position idx : Nat} {groups : List DecodePositionGroupPlan}

theorem noteRow_indices (position idx : Nat) (groups : List DecodePositionGroupPlan) :
    ((noteRow position idx groups).flatMap DecodePositionGroupPlan.indices).Perm
      (groups.flatMap DecodePositionGroupPlan.indices ++ [idx]) := by
  induction groups with
  | nil => simp [noteRow]
  | cons group groups ih =>
    rw [noteRow]
    split
    · rw [List.flatMap_cons, List.flatMap_cons, List.append_assoc, List.append_assoc]
      exact List.perm_append_comm.append_left _
    · rw [List.flatMap_cons, List.flatMap_cons, List.append_assoc]
      exact ih.append_left _

theorem noteRow_mem {plan : DecodePositionGroupPlan} {i : Nat}
    (member : plan ∈ noteRow position idx groups) (inside : i ∈ plan.indices) :
    (i = idx ∧ plan.position = position) ∨ ∃ old ∈ groups, i ∈ old.indices ∧
      plan.position = old.position := by
  induction groups with
  | nil =>
    obtain rfl := List.mem_singleton.mp member
    exact .inl ⟨List.mem_singleton.mp inside, rfl⟩
  | cons group groups ih =>
    rw [noteRow] at member
    split at member
    · next same =>
      rcases List.mem_cons.mp member with rfl | later
      · rcases List.mem_append.mp inside with old | new
        · exact .inr ⟨group, List.mem_cons_self, old, rfl⟩
        · exact .inl ⟨List.mem_singleton.mp new, same⟩
      · exact .inr ⟨plan, List.mem_cons_of_mem _ later, inside, rfl⟩
    · rcases List.mem_cons.mp member with rfl | later
      · exact .inr ⟨plan, List.mem_cons_self, inside, rfl⟩
      · rcases ih later with new | ⟨old, known, there, same⟩
        · exact .inl new
        · exact .inr ⟨old, List.mem_cons_of_mem _ known, there, same⟩

/-- Every index is in exactly one group, that of its own position. -/
theorem decodePositionGroupsForPositions_spec (positions : List Nat) :
    ((decodePositionGroupsForPositions positions).flatMap DecodePositionGroupPlan.indices).Perm
      (List.range positions.length) ∧
      ∀ plan ∈ decodePositionGroupsForPositions positions, ∀ i ∈ plan.indices, positions[i]? =
        some plan.position := by
  induction positions using List.reverseRecOn with
  | nil => exact ⟨.nil, fun _ member => absurd member List.not_mem_nil⟩
  | append_singleton positions position ih =>
    obtain ⟨indices, own⟩ := ih
    have step : decodePositionGroupsForPositions (positions ++ [position]) =
        noteRow position positions.length (decodePositionGroupsForPositions positions) := by
      rw [decodePositionGroupsForPositions, List.zipIdx_append, List.foldl_append,
        List.zipIdx_singleton, Nat.zero_add]
      rfl
    rw [step]
    constructor
    · rw [List.length_append, List.length_singleton, List.range_succ]
      exact (noteRow_indices _ _ _).trans (indices.append_right _)
    · intro plan member i inside
      rcases noteRow_mem member inside with ⟨rfl, same⟩ | ⟨old, known, there, same⟩
      · rw [same, List.getElem?_concat_length]
      · have found := own old known i there
        rw [same, List.getElem?_append_left (List.getElem?_eq_some_iff.mp found).1]
        exact found

end plans

/-- The row at an index, with the index. -/
def tagged (active : List ActiveRequestState) (idx : Nat) : Option (Nat × ActiveRequestState) :=
  active[idx]?.map fun row => (idx, row)

theorem enumerateRows_eq (active : List ActiveRequestState) :
    (List.range active.length).filterMap (tagged active) = enumerateRows active := by
  induction active using List.reverseRecOn with
  | nil => rfl
  | append_singleton active row ih =>
    have front : (List.range active.length).filterMap (tagged (active ++ [row])) =
        (List.range active.length).filterMap (tagged active) :=
      List.filterMap_congr fun i member => by
        rw [tagged, tagged, List.getElem?_append_left (List.mem_range.mp member)]
    have last : tagged (active ++ [row]) active.length = some (active.length, row) := by
      rw [tagged, List.getElem?_concat_length, Option.map_some]
    rw [List.length_append, List.length_singleton, List.range_succ, List.filterMap_append, front,
      ih, enumerateRows, enumerateRows,
      List.zipIdx_append, List.map_append, List.filterMap_cons, last]
    simp

section rows

variable {active : List ActiveRequestState} {rows : List (Option ActiveRequestState)}

theorem takeRows_spec {indices : List Nat} (distinct : indices.Nodup)
    (inside : ∀ i ∈ indices, i < active.length)
    (there : ∀ i ∈ indices, rows[i]? = some active[i]?) :
    ∃ rows', takeRows rows indices = some (indices.filterMap (tagged active), rows') ∧
      ∀ j, j ∉ indices → rows'[j]? = rows[j]? := by
  induction indices generalizing rows with
  | nil => exact ⟨rows, rfl, fun _ _ => rfl⟩
  | cons i indices ih =>
    obtain ⟨out, distinct⟩ := List.nodup_cons.mp distinct
    have here := there i List.mem_cons_self
    rw [List.getElem?_eq_getElem (inside i List.mem_cons_self)] at here
    obtain ⟨rows', taken, kept⟩ := @ih (rows.set i none) distinct
        (fun j member => inside j (List.mem_cons_of_mem _ member)) fun j member => by
      have apart : i ≠ j := fun same => out (same ▸ member)
      rw [List.getElem?_set_ne apart]
      exact there j (List.mem_cons_of_mem _ member)
    refine ⟨rows', ?_, ?_⟩
    · have bound := inside i List.mem_cons_self
      have tag : tagged active i = some (i, active[i]) := by
        rw [tagged, List.getElem?_eq_getElem (inside i List.mem_cons_self), Option.map_some]
      rw [takeRows, here]
      simp only [taken]
      rw [List.filterMap_cons, tag]
    · intro j outside
      obtain ⟨apart, later⟩ := not_or.mp (fun member => outside (List.mem_cons.mpr member))
      rw [kept j later, List.getElem?_set_ne fun same => apart same.symm]

theorem takeGroups_spec {plans : List DecodePositionGroupPlan}
    (distinct : (plans.flatMap DecodePositionGroupPlan.indices).Nodup)
    (inside : ∀ i ∈ plans.flatMap DecodePositionGroupPlan.indices, i < active.length)
    (there : ∀ i ∈ plans.flatMap DecodePositionGroupPlan.indices, rows[i]? = some active[i]?) :
    takeGroups rows plans = some (plans.map fun plan =>
      ⟨plan.position, plan.indices.filterMap (tagged active)⟩) := by
  induction plans generalizing rows with
  | nil => rfl
  | cons plan plans ih =>
    rw [List.flatMap_cons] at distinct inside there
    obtain ⟨own, rest, apart⟩ := List.nodup_append.mp distinct
    obtain ⟨rows', taken, kept⟩ :=
      takeRows_spec own (fun i member => inside i (List.mem_append_left _ member))
      fun i member => there i (List.mem_append_left _ member)
    have later := @ih rows' rest (fun i member =>
        inside i (List.mem_append_right _ member)) fun i member => by
      rw [kept i fun here => apart i here i member rfl]
      exact there i (List.mem_append_right _ member)
    rw [takeGroups, taken]
    simp only [later, List.map_cons]

/-- The groups are made of every row once, each in the group of its position. -/
theorem takeDecodePositionGroups_spec (active : List ActiveRequestState) :
    ∃ groups, takeDecodePositionGroups active = some groups ∧
      (groups.flatMap DecodePositionGroup.rows).Perm (enumerateRows active) ∧
      ∀ group ∈ groups, ∀ row ∈ group.rows, row.2.nextDecodePosition = group.position := by
  obtain ⟨indices, own⟩ := decodePositionGroupsForPositions_spec
    (active.map ActiveRequestState.nextDecodePosition)
  rw [List.length_map] at indices
  have inside : ∀ i ∈ (decodePositionGroupsForPositions
    (active.map ActiveRequestState.nextDecodePosition)).flatMap
      DecodePositionGroupPlan.indices, i < active.length :=
        fun i member => List.mem_range.mp (indices.mem_iff.mp member)
  refine ⟨_, takeGroups_spec (indices.nodup_iff.mpr List.nodup_range) inside fun i member => ?_, ?_, ?_⟩
  · rw [List.getElem?_map, List.getElem?_eq_getElem (inside i member), Option.map_some]
  · rw [List.flatMap_map, ← enumerateRows_eq, ← List.filterMap_flatMap]
    exact indices.filterMap _
  · intro group member row inGroup
    obtain ⟨plan, known, rfl⟩ := List.mem_map.mp member
    obtain ⟨i, inPlan, tag⟩ := List.mem_filterMap.mp inGroup
    obtain ⟨state, found, rfl⟩ := Option.map_eq_some_iff.mp tag
    have position := own plan known i inPlan
    rw [List.getElem?_map, found, Option.map_some] at position
    exact Option.some.inj position

end rows

theorem enumerateRows_fst (active : List ActiveRequestState) :
    (enumerateRows active).map Prod.fst = List.range active.length := by
  rw [enumerateRows, List.map_map, List.range_eq_range']
  exact List.zipIdx_map_snd 0 active

theorem enumerateRows_snd (active : List ActiveRequestState) :
    (enumerateRows active).map Prod.snd = active := by
  rw [enumerateRows, List.map_map]
  exact List.zipIdx_map_fst 0 active

/-- Index and request of a row. -/
abbrev rowKey (row : Nat × ActiveRequestState) : Nat × Nat := (row.1, row.2.tokenTx)

/-- Survivors of the rows go back in the order the rows had. -/
theorem restoreSurvivingRows_sublist {active : List ActiveRequestState}
    {survivors : List (Nat × ActiveRequestState)}
    (kept : (survivors.map rowKey).Subperm ((enumerateRows active).map rowKey)) :
    ((restoreSurvivingRows survivors).map ActiveRequestState.tokenTx).Sublist
      (active.map ActiveRequestState.tokenTx) := by
  have rising : ((enumerateRows active).map rowKey).Pairwise fun a b => a.1 < b.1 := by
    have range := List.pairwise_lt_range (n := active.length)
    rw [← enumerateRows_fst, List.pairwise_map] at range
    exact List.pairwise_map.mpr range
  have sorted := @List.pairwise_mergeSort _ (fun a b : Nat × ActiveRequestState =>
    decide (a.1 ≤ b.1)) (by simp; omega) (by simp; omega) survivors
  have distinct : (survivors.map Prod.fst).Nodup := by
    have range : (((enumerateRows active).map rowKey).map Prod.fst).Nodup := by
      rw [List.map_map]
      have firsts : (enumerateRows active).map (Prod.fst ∘ rowKey) = List.range active.length :=
        enumerateRows_fst active
      rw [firsts]
      exact List.nodup_range
    obtain ⟨list, perm, sub⟩ := kept
    have fewer := (perm.map Prod.fst).nodup_iff.mp (range.sublist (sub.map Prod.fst))
    rwa [List.map_map] at fewer
  have strict : ((survivors.mergeSort fun a b => a.1 ≤ b.1).map rowKey).Pairwise fun a b => a.1 < b.1 := by
    have moved := ((List.mergeSort_perm survivors fun a b => a.1 ≤ b.1).map Prod.fst).nodup_iff.mpr distinct
    rw [List.Nodup, List.pairwise_map] at moved
    rw [List.pairwise_map]
    exact (sorted.and moved).imp fun both => lt_of_le_of_ne (of_decide_eq_true both.1) both.2
  have order : ((survivors.mergeSort fun a b => a.1 ≤ b.1).map rowKey).Sublist
      ((enumerateRows active).map rowKey) := by
    have anti : Std.Antisymm fun a b : Nat × Nat => a.1 < b.1 := ⟨fun a b less more => absurd less more.asymm⟩
    exact List.sublist_of_subperm_of_pairwise
      (((List.mergeSort_perm survivors _).map rowKey).subperm.trans kept) strict rising
  have keys := order.map Prod.snd
  rw [List.map_map, List.map_map] at keys
  have whole : (enumerateRows active).map (Prod.snd ∘ rowKey) = active.map ActiveRequestState.tokenTx := by
    conv_rhs => rw [← enumerateRows_snd active, List.map_map]
    rfl
  rw [whole] at keys
  rwa [restoreSurvivingRows, List.map_map]

end PegaInfer.DeepSeekV2Lite
