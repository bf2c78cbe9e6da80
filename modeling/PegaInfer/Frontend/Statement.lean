import PegaInfer.Frontend.Update

namespace PegaInfer.Frontend

/-- `StepStatement`: the step's records in first-touch order and the slot of
each id. An indexed slot always holds that id's record, and only indexed
records are left in the buffer, so `entry` cannot hit its `expect`. -/
structure StepStatement where
  buffer : List (Option RequestUpdate)
  index : RequestId → Option Nat
  indexed : ∀ id slot, index id = some slot → ∃ update, buffer[slot]? = some (some update) ∧ update.id = id
  owned : ∀ slot update, buffer[slot]? = some (some update) → index update.id = some slot

namespace StepStatement

def default : StepStatement :=
  { buffer := [], index := fun _ => none, indexed := by simp, owned := by simp }

/-- The record a request has in this step. -/
def record (statement : StepStatement) (id : RequestId) : Option RequestUpdate :=
  (statement.index id).bind fun slot => (statement.buffer[slot]?).join

theorem record_of_index {statement : StepStatement} {id : RequestId} {slot : Nat} {update : RequestUpdate}
    (at_ : statement.index id = some slot) (held : statement.buffer[slot]? = some (some update)) :
    statement.record id = some update := by
  simp [record, at_, held]

theorem index_of_record {statement : StepStatement} {id : RequestId} {update : RequestUpdate}
    (held : statement.record id = some update) :
    ∃ slot, statement.index id = some slot ∧ statement.buffer[slot]? = some (some update) ∧
      update.id = id := by
  obtain ⟨slot, at_, inside⟩ := Option.bind_eq_some_iff.mp held
  obtain ⟨found, found_at, named⟩ := statement.indexed id slot at_
  rw [found_at, Option.join_some] at inside
  cases Option.some.inj inside
  exact ⟨slot, at_, found_at, named⟩

theorem record_id {statement : StepStatement} {id : RequestId} {update : RequestUpdate}
    (held : statement.record id = some update) : update.id = id := by
  obtain ⟨_, _, _, named⟩ := index_of_record held
  exact named

theorem index_none_iff {statement : StepStatement} {id : RequestId} :
    statement.index id = none ↔ statement.record id = none := by
  constructor
  · intro unindexed
    simp [record, unindexed]
  · intro unrecorded
    cases at_ : statement.index id with
    | none => rfl
    | some slot =>
      obtain ⟨update, held, _⟩ := statement.indexed id slot at_
      rw [record_of_index at_ held] at unrecorded
      cases unrecorded

theorem record_of_mem {statement : StepStatement} {slot : Nat} {update : RequestUpdate}
    (held : statement.buffer[slot]? = some (some update)) : statement.record update.id = some update :=
  record_of_index (statement.owned slot update held) held

/-- `entry`, followed by a write through the returned reference. -/
def entry (statement : StepStatement) (id : RequestId) (change : RequestUpdate → RequestUpdate)
    (keeps : ∀ update, (change update).id = update.id) : StepStatement :=
  match at_ : statement.index id with
  | some slot =>
    { buffer := statement.buffer.modify slot (Option.map change)
      index := statement.index
      indexed := by
        intro other place at_other
        obtain ⟨update, held, named⟩ := statement.indexed other place at_other
        by_cases same : slot = place
        · exact ⟨change update, by simp [same, held], (keeps update).trans named⟩
        · exact ⟨update, by simp [same, held], named⟩
      owned := by
        intro place update held
        rw [List.getElem?_modify] at held
        by_cases same : slot = place
        · simp only [same, if_true, Option.map_eq_map, Option.map_eq_some_iff] at held
          obtain ⟨_, inside, update', rfl, rfl⟩ := held
          rw [keeps]
          exact statement.owned place _ inside
        · simp only [same, if_false, id_map'] at held
          exact statement.owned place update held }
  | none =>
    { buffer := statement.buffer ++ [some (change (.empty id))]
      index := Function.update statement.index id (some statement.buffer.length)
      indexed := by
        intro other place at_other
        by_cases same : other = id
        · subst same
          rw [Function.update_self, Option.some.injEq] at at_other
          subst at_other
          exact ⟨change (.empty other), by simp, keeps _⟩
        · rw [Function.update_of_ne same] at at_other
          obtain ⟨update, held, named⟩ := statement.indexed other place at_other
          have inside := (List.getElem?_eq_some_iff.mp held).1
          exact ⟨update, by rw [List.getElem?_append_left inside, held], named⟩
      owned := by
        intro place update held
        rcases Nat.lt_trichotomy place statement.buffer.length with inside | last | outside
        · rw [List.getElem?_append_left inside] at held
          have owner := statement.owned place update held
          rw [Function.update_of_ne, owner]
          rintro rfl
          rw [at_] at owner
          cases owner
        · subst last
          simp only [List.getElem?_concat_length, Option.some.injEq] at held
          subst held
          rw [keeps]
          exact Function.update_self _ _ _
        · rw [List.getElem?_eq_none (by simp; omega)] at held
          cases held }

theorem record_entry (statement : StepStatement) (id other : RequestId)
    (change : RequestUpdate → RequestUpdate)
    (keeps : ∀ update, (change update).id = update.id) :
    (statement.entry id change keeps).record other =
      if other = id then some (change ((statement.record id).getD (.empty id)))
        else statement.record other := by
  unfold entry
  split
  · rename_i slot at_
    obtain ⟨update, held, named⟩ := statement.indexed id slot at_
    rw [record_of_index at_ held]
    by_cases same : other = id
    · subst same
      simp [record, at_, List.getElem?_modify, held]
    · rw [if_neg same]
      unfold record
      cases at_other : statement.index other with
      | none => rfl
      | some place =>
        obtain ⟨found, found_at, found_named⟩ := statement.indexed other place at_other
        have apart : slot ≠ place := by
          rintro rfl
          rw [held, Option.some.injEq, Option.some.injEq] at found_at
          subst found_at
          exact same (found_named.symm.trans named)
        simp [List.getElem?_modify, apart]
  · rename_i unindexed
    rw [index_none_iff.mp unindexed]
    by_cases same : other = id
    · subst same
      simp [record]
    · rw [if_neg same]
      simp only [record, Function.update_of_ne same]
      cases at_other : statement.index other with
      | none => rfl
      | some place =>
        obtain ⟨found, found_at, _⟩ := statement.indexed other place at_other
        simp only [Option.bind_some]
        rw [List.getElem?_append_left (List.getElem?_eq_some_iff.mp found_at).1]

/-- `extract`: the record leaves the buffer and its slot stays empty. -/
def extract (statement : StepStatement) (id : RequestId) : StepStatement × Option RequestUpdate :=
  match at_ : statement.index id with
  | none => (statement, none)
  | some slot =>
    ({ buffer := statement.buffer.set slot none
       index := Function.update statement.index id none
       indexed := by
        intro other place at_other
        by_cases same : other = id
        · subst same
          simp at at_other
        · rw [Function.update_of_ne same] at at_other
          obtain ⟨update, held, named⟩ := statement.indexed other place at_other
          have apart : slot ≠ place := by
            rintro rfl
            obtain ⟨first, first_at, first_named⟩ := statement.indexed id slot at_
            rw [held, Option.some.injEq, Option.some.injEq] at first_at
            subst first_at
            exact same (named.symm.trans first_named)
          exact ⟨update, by rw [List.getElem?_set_ne apart, held], named⟩
       owned := by
        intro place update held
        have apart : slot ≠ place := by
          rintro rfl
          rw [List.getElem?_set_self'] at held
          simp at held
        rw [List.getElem?_set_ne apart] at held
        have owner := statement.owned place update held
        rw [Function.update_of_ne, owner]
        rintro rfl
        rw [at_, Option.some.injEq] at owner
        exact apart owner },
      (statement.buffer[slot]?).join)

theorem extract_snd (statement : StepStatement) (id : RequestId) :
    (statement.extract id).2 = statement.record id := by
  unfold extract
  split
  · rename_i unindexed
    exact (index_none_iff.mp unindexed).symm
  · rename_i slot at_
    simp [record, at_]

theorem record_extract (statement : StepStatement) (id other : RequestId) :
    (statement.extract id).1.record other = if other = id then none else statement.record other := by
  unfold extract
  split
  · rename_i unindexed
    by_cases same : other = id
    · rw [if_pos same, same, index_none_iff.mp unindexed]
    · rw [if_neg same]
  · rename_i slot at_
    by_cases same : other = id
    · simp [record, same]
    · rw [if_neg same]
      simp only [record, Function.update_of_ne same]
      cases at_other : statement.index other with
      | none => rfl
      | some place =>
        obtain ⟨first, first_at, first_named⟩ := statement.indexed id slot at_
        obtain ⟨found, found_at, found_named⟩ := statement.indexed other place at_other
        have apart : slot ≠ place := by
          rintro rfl
          rw [first_at, Option.some.injEq, Option.some.injEq] at found_at
          subst found_at
          exact same (found_named.symm.trans first_named)
        simp only [Option.bind_some]
        rw [List.getElem?_set_ne apart]

/-- `take_updates`: drain the buffer and drop the vacant records. -/
def takeUpdates (statement : StepStatement) : List RequestUpdate :=
  statement.buffer.reduceOption.filter fun update => !update.isVacant

theorem reduceOption_filter_none {slots : List (Option RequestUpdate)} {owner : RequestId}
    (others : ∀ update, some update ∈ slots → update.id ≠ owner) :
    slots.reduceOption.filter (fun update => update.id = owner) = [] := by
  rw [List.filter_eq_nil_iff]
  intro update member
  simpa using others update (List.reduceOption_mem_iff.mp member)

/-- The records of one id are the one record it has. -/
theorem reduceOption_filter_id (statement : StepStatement) (owner : RequestId) :
    statement.buffer.reduceOption.filter (fun update => update.id = owner) =
      (statement.record owner).toList := by
  cases held : statement.record owner with
  | none =>
    refine reduceOption_filter_none fun update member named => ?_
    obtain ⟨slot, inside⟩ := List.mem_iff_getElem?.mp member
    have recorded := record_of_mem inside
    rw [named, held] at recorded
    cases recorded
  | some update =>
    obtain ⟨slot, at_, inside, named⟩ := index_of_record held
    have only : ∀ place other, statement.buffer[place]? = some (some other) →
        other.id = owner → place = slot := by
      intro place other found sameOwner
      have found_at := statement.owned place other found
      rw [sameOwner, at_] at found_at
      exact (Option.some.inj found_at).symm
    obtain ⟨bound, value⟩ := List.getElem?_eq_some_iff.mp inside
    have cut : statement.buffer =
        statement.buffer.take slot ++ some update :: statement.buffer.drop (slot + 1) := by
      rw [← value, ← List.drop_eq_getElem_cons bound, List.take_append_drop]
    have before : (statement.buffer.take slot).reduceOption.filter
        (fun update => update.id = owner) = [] := by
      refine reduceOption_filter_none fun other member sameOwner => ?_
      obtain ⟨place, at_place, found⟩ := List.mem_take_iff_getElem.mp member
      have same := only place other (List.getElem?_eq_some_iff.mpr ⟨by omega, found⟩) sameOwner
      omega
    have after : (statement.buffer.drop (slot + 1)).reduceOption.filter
        (fun update => update.id = owner) = [] := by
      refine reduceOption_filter_none fun other member sameOwner => ?_
      obtain ⟨place, found⟩ := List.mem_iff_getElem?.mp member
      rw [List.getElem?_drop] at found
      have same := only _ other found sameOwner
      omega
    rw [cut, List.reduceOption_append, List.reduceOption_cons_of_some, List.filter_append, before,
      List.filter_cons_of_pos (by simpa using named), after]
    rfl

/-- One step ships at most one record for an id: the one it built. -/
theorem takeUpdates_filter_id (statement : StepStatement) (owner : RequestId) :
    statement.takeUpdates.filter (fun update => update.id = owner) =
      (statement.record owner).toList.filter fun update => !update.isVacant := by
  rw [takeUpdates, List.filter_comm, reduceOption_filter_id]

end StepStatement

end PegaInfer.Frontend
