import Mathlib

namespace PegaInfer.SwapRemove

/-- Removing an item of a vector by moving its last one into the gap. -/
def swapRemove {α : Type*} (items : List α) (index : Nat) : List α :=
  match items.getLast? with
  | none => items
  | some last => (items.set index last).dropLast

/-- The indices sorted, deduplicated, and removed from the last to the first. -/
def swapRemoveAll {α : Type*} (items : List α) (indices : List Nat) : List α :=
  ((indices.mergeSort (· ≤ ·)).dedup.reverse).foldl swapRemove items

/-- The items whose index, counted from `start`, is not among `retired`. -/
def survivorsFrom {α : Type*} (start : Nat) : List α → (retired : List Nat) → List α
  | [], _ => []
  | item :: items, retired =>
    if start ∈ retired then survivorsFrom (start + 1) items retired
      else item :: survivorsFrom (start + 1) items retired

abbrev survivors {α : Type*} (items : List α) (retired : List Nat) : List α := survivorsFrom 0 items retired

section

variable {α : Type*} {items : List α} {start index : Nat} {retired : List Nat}

theorem survivorsFrom_congr {others : List Nat}
    (same : ∀ i, start ≤ i → i < start + items.length → (i ∈ retired ↔ i ∈ others)) :
    survivorsFrom start items retired = survivorsFrom start items others := by
  induction items generalizing start with
  | nil => rfl
  | cons item items ih =>
    have here := same start le_rfl (by simp)
    have rest := @ih (start + 1) fun i low high => same i (by omega) (by rw [List.length_cons]; omega)
    simp only [survivorsFrom, rest, here]

theorem survivorsFrom_append (one two : List α) :
    survivorsFrom start (one ++ two) retired =
      survivorsFrom start one retired ++ survivorsFrom (start + one.length) two retired := by
  induction one generalizing start with
  | nil => rfl
  | cons item one ih =>
    simp only [List.cons_append, survivorsFrom, ih, List.length_cons]
    have shift : start + 1 + one.length = start + (one.length + 1) := by omega
    rw [shift]
    split <;> rfl

theorem survivorsFrom_beyond (beyond : ∀ i ∈ retired, i < start) :
    survivorsFrom start items retired = items := by
  induction items generalizing start with
  | nil => rfl
  | cons item items ih =>
    have out : start ∉ retired := fun member => (lt_irrefl _ (beyond start member))
    rw [survivorsFrom, if_neg out, ih fun i member => (beyond i member).trans (Nat.lt_succ_self start)]

theorem survivors_none : survivors items [] = items := survivorsFrom_beyond (by simp)

/-- One survivor more is retired. -/
theorem survivorsFrom_split {item : α} (low : start ≤ index)
    (found : items[index - start]? = some item) (kept : index ∉ retired) :
    (survivorsFrom start items retired).Perm (item :: survivorsFrom start items (index :: retired)) := by
  induction items generalizing start with
  | nil => simp at found
  | cons first items ih =>
    by_cases here : index = start
    · subst here
      obtain rfl : first = item := by simpa using found
      have rest : survivorsFrom (index + 1) items (index :: retired) =
          survivorsFrom (index + 1) items retired :=
        survivorsFrom_congr fun i low _ => by
          have apart : i ≠ index := by omega
          simp [apart]
      rw [survivorsFrom, if_neg kept, survivorsFrom, if_pos (by simp), rest]
    · have low' : start + 1 ≤ index := by omega
      have found' : items[index - (start + 1)]? = some item := by
        have shift : index - start = index - (start + 1) + 1 := by omega
        rwa [shift, List.getElem?_cons_succ] at found
      have rest := ih low' found'
      have apart : start ≠ index := fun clash => here clash.symm
      have same : (start ∈ index :: retired) = (start ∈ retired) := by simp [apart]
      simp only [survivorsFrom, same]
      split
      · exact rest
      · exact (rest.cons first).trans (List.Perm.swap item first _)

theorem survivorsFrom_modify (change : α → α) (low : start ≤ index) (out : index ∈ retired) :
    survivorsFrom start (items.modify (index - start) change) retired =
      survivorsFrom start items retired := by
  induction items generalizing start with
  | nil => simp [survivorsFrom]
  | cons first items ih =>
    by_cases here : index = start
    · subst here
      simp [survivorsFrom, out]
    · have low' : start + 1 ≤ index := by omega
      have shift : index - start = index - (start + 1) + 1 := by omega
      rw [shift, List.modify_succ_cons, survivorsFrom, survivorsFrom, ih low']

/-- What stands before the gap stays, and the rest is only moved. -/
theorem swapRemove_spec (bound : index < items.length) :
    ∃ rest, swapRemove items index = items.take index ++ rest ∧ rest.Perm (items.drop (index + 1)) := by
  obtain ⟨front, item, back, rfl, length⟩ :
      ∃ front item back, items = front ++ item :: back ∧ front.length = index :=
    ⟨items.take index, items[index], items.drop (index + 1), by simp, by simp; omega⟩
  subst length
  rcases List.eq_nil_or_concat' back with rfl | ⟨middle, last, rfl⟩
  · exact ⟨[], by simp [swapRemove], by simp⟩
  · refine ⟨last :: middle, ?_, ?_⟩
    · have ends : (front ++ item :: (middle ++ [last])).getLast? = some last := by
        rw [← List.cons_append, ← List.append_assoc, List.getLast?_concat]
      have moved : (front ++ item :: (middle ++ [last])).set front.length last =
        (front ++ last :: middle) ++ [last] := by simp
      simp only [swapRemove, ends]
      rw [moved, List.dropLast_concat]
      simp
    · simpa using (List.perm_append_singleton last middle).symm

theorem foldl_swapRemove {indices : List Nat} (falling : indices.Pairwise (· > ·)) {front back : List α}
    (bound : ∀ i ∈ indices, i < front.length) :
    (indices.foldl swapRemove (front ++ back)).Perm (survivors front indices ++ back) := by
  induction indices generalizing front back with
  | nil => simp [survivors_none]
  | cons first indices ih =>
    obtain ⟨below, falling⟩ := List.pairwise_cons.mp falling
    have inside := bound first List.mem_cons_self
    obtain ⟨rest, removed, moved⟩ :=
      @swapRemove_spec _ (front ++ back) first (by rw [List.length_append]; omega)
    rw [List.take_append_of_le_length inside.le] at removed
    rw [List.drop_append_of_le_length (by omega)] at moved
    have later : (indices.foldl swapRemove (front.take first ++ rest)).Perm
        (survivors (front.take first) indices ++ rest) :=
      ih falling fun i member => by
        have lower : i < first := below i member
        rw [List.length_take]
        omega
    have parts : survivors front (first :: indices) =
        survivors (front.take first) indices ++ front.drop (first + 1) := by
      have cut : front = front.take first ++ (front[first] :: front.drop (first + 1)) := by simp
      have length : (front.take first).length = first := by rw [List.length_take]; omega
      conv_lhs => rw [cut]
      rw [survivors, survivorsFrom_append, length, Nat.zero_add, survivorsFrom, if_pos (by simp),
        @survivorsFrom_beyond _ _ (first + 1) _ fun i member => by
          rcases List.mem_cons.mp member with rfl | member
          · omega
          · have lower : i < first := below i member
            omega]
      congr 1
      apply survivorsFrom_congr
      intro i _ high
      have apart : i ≠ first := by omega
      simp [apart]
    rw [List.foldl_cons, removed, parts, List.append_assoc]
    exact later.trans (moved.append_left _)

/-- The order in which the gaps are filled loses and doubles nothing. -/
theorem swapRemoveAll_perm (bound : ∀ i ∈ retired, i < items.length) :
    (swapRemoveAll items retired).Perm (survivors items retired) := by
  have member : ∀ i, i ∈ (retired.mergeSort (· ≤ ·)).dedup.reverse ↔ i ∈ retired := by simp
  have rising : (retired.mergeSort (· ≤ ·)).dedup.Pairwise (· < ·) := by
    have sorted : (retired.mergeSort (· ≤ ·)).Pairwise (· ≤ ·) := by
      have ordered := @List.pairwise_mergeSort _ (fun a b : Nat => decide (a ≤ b))
        (by simp; omega) (by simp; omega) retired
      simpa using ordered
    have both := (sorted.sublist (List.dedup_sublist _)).and (List.nodup_dedup _)
    exact both.imp fun pair => lt_of_le_of_ne pair.1 pair.2
  have falling : (retired.mergeSort (· ≤ ·)).dedup.reverse.Pairwise (· > ·) :=
    List.pairwise_reverse.mpr rising
  have whole := @foldl_swapRemove _ _ falling items [] fun i known => bound i ((member i).mp known)
  rw [List.append_nil, List.append_nil] at whole
  rw [swapRemoveAll]
  exact whole.trans (List.Perm.of_eq (survivorsFrom_congr fun i _ _ => member i))

end

end PegaInfer.SwapRemove
