import Mathlib

namespace PegaInfer.BoundedSort

variable {β : Type*} [LinearOrder β] {items kept : List β} {entry : β} {k : Nat}

/-- Insertion into a sorted list that never holds more than the `k` least items. -/
def keepLeast (k : Nat) (kept : List β) (entry : β) : List β := (kept.orderedInsert (· ≤ ·) entry).take k

theorem mergeSort_sorted (items : List β) : (items.mergeSort (· ≤ ·)).Pairwise (· ≤ ·) := by
  have ordered := @List.pairwise_mergeSort β (fun a b => decide (a ≤ b))
    (by simpa using fun a b c => le_trans)
    (by simpa using le_total) items
  simpa using ordered

theorem mergeSort_concat (items : List β) (entry : β) :
    (items ++ [entry]).mergeSort (· ≤ ·) = (items.mergeSort (· ≤ ·)).orderedInsert (· ≤ ·) entry := by
  have swapped : (items ++ [entry]).Perm (entry :: items) := List.perm_append_singleton entry items
  have same : ((items ++ [entry]).mergeSort (· ≤ ·)).Perm
      ((items.mergeSort (· ≤ ·)).orderedInsert (· ≤ ·) entry) :=
    ((List.mergeSort_perm _ _).trans swapped).trans
      (((List.mergeSort_perm items _).symm.cons entry).trans (List.perm_orderedInsert _ _ _).symm)
  exact same.eq_of_pairwise (fun a b _ _ => le_antisymm)
    (mergeSort_sorted _) ((mergeSort_sorted items).orderedInsert entry _)

/-- An item past the first `k` is never among the first `k` after an insertion. -/
theorem take_orderedInsert (items : List β) (entry : β) (k : Nat) :
    ((items.take k).orderedInsert (· ≤ ·) entry).take k = (items.orderedInsert (· ≤ ·) entry).take k := by
  induction items generalizing k with
  | nil => simp
  | cons item items ih =>
    cases k with
    | zero => simp
    | succ k =>
      simp only [List.take_succ_cons, List.orderedInsert_cons]
      split
      · cases k with
        | zero => simp
        | succ k => simp [List.take_take]
      · simp only [List.take_succ_cons, ih]

/-- One pass that keeps the `k` least items seen ends with the head of the sorted list. -/
theorem foldl_keepLeast (k : Nat) (items : List β) :
    items.foldl (keepLeast k) [] = (items.mergeSort (· ≤ ·)).take k := by
  induction items using List.reverseRecOn with
  | nil => simp
  | append_singleton items entry ih =>
    rw [List.foldl_append, ih, List.foldl_cons, List.foldl_nil, keepLeast,
      take_orderedInsert, mergeSort_concat]

/-- A full list keeps nothing that is above its last item. -/
theorem keepLeast_full {last : β} (sorted : kept.Pairwise (· ≤ ·))
    (found : kept[k - 1]? = some last) (full : kept.length = k)
    (above : last < entry) : keepLeast k kept entry = kept := by
  have below : ∀ item ∈ kept, ¬ entry ≤ item := by
    intro item member high
    obtain ⟨i, within, rfl⟩ := List.getElem_of_mem member
    obtain ⟨last_within, rfl⟩ := List.getElem?_eq_some_iff.mp found
    rcases Nat.lt_or_ge i (k - 1) with before | after
    · have ordered := List.pairwise_iff_getElem.mp sorted i (k - 1) within last_within before
      exact absurd (above.trans_le (high.trans ordered)) (lt_irrefl _)
    · have same : i = k - 1 := by omega
      subst same
      exact absurd (above.trans_le high) (lt_irrefl _)
  have whole : kept.takeWhile (fun item => decide ¬ entry ≤ item) = kept :=
    List.takeWhile_eq_self_iff.mpr fun item member => by simpa using below item member
  rw [keepLeast, List.orderedInsert_eq_take_drop, whole, List.take_append_of_le_length full.ge,
    List.take_of_length_le full.le]

end PegaInfer.BoundedSort
