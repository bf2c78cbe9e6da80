import PegaInfer.Lib.BoundedSort
import PegaInfer.Frontend.Wire

namespace PegaInfer.Sample

open Frontend

variable {α : Type*} [LinearOrder α]

/-- `partition_point`: the index of the first item of the second part of a partitioned slice. -/
def partitionPoint {β : Type*} (first : β → Bool) (items : List β) : Nat :=
  items.findIdx fun item => !first item

/-- One logit of the row, offered to the `k` kept so far. -/
def noteLogit (k : Nat) (top : List (Token × α)) : α × Nat → List (Token × α)
  | (val, id) =>
    if top.length = k ∧ (top[k - 1]?).any (fun last => val ≤ last.2) then top
    else (top.insertIdx (partitionPoint (fun kept => val ≤ kept.2) top) (UInt32.ofNat id, val)).take k

def topLogits (row : List α) (topK : Nat) : List (Token × α) :=
  let k := min topK row.length
  if 0 < k then row.zipIdx.foldl (noteLogit k) [] else []

/-- `logprobOf row val` is `val` less the log-sum-exp of the row, as an `f32`. -/
def tokenLogprobFromRow (logprobOf : List α → α → UInt32) (row : List α) (picked : Token)
    (topK : Nat) : Option TokenLogprob :=
  row[picked.toNat]?.map fun pickedVal =>
    { logprob := logprobOf row pickedVal
      topLogprobs := (topLogits row topK).map fun (id, val) => (id, logprobOf row val) }

/-- A logit and its index, ordered by descending value and then by ascending index. -/
abbrev Placed (α : Type*) := αᵒᵈ ×ₗ ℕ

def Placed.of (val : α) (id : Nat) : Placed α := toLex (OrderDual.toDual val, id)

def Placed.val (place : Placed α) : α := OrderDual.ofDual (ofLex place).1

def Placed.id (place : Placed α) : Nat := (ofLex place).2

/-- The indices of a row, sorted by descending value with ties in ascending index order. -/
def ranking (row : List α) : List Nat :=
  ((row.zipIdx.map fun (val, id) => Placed.of val id).mergeSort (· ≤ ·)).map Placed.id

/-- A place as the buffer holds it. -/
def Placed.entry (place : Placed α) : Token × α := (UInt32.ofNat place.id, place.val)

theorem Placed.lt_of_id_lt {kept place : Placed α} (earlier : kept.id < place.id) :
    kept < place ↔ place.val ≤ kept.val := by
  rw [Prod.Lex.lt_iff]
  constructor
  · rintro (above | ⟨tied, -⟩)
    · exact (OrderDual.ofDual_lt_ofDual.mpr above).le
    · exact (congrArg OrderDual.ofDual tied).ge
  · intro above
    rcases above.lt_or_eq with strict | tied
    · exact Or.inl (OrderDual.ofDual_lt_ofDual.mp strict)
    · exact Or.inr ⟨congrArg OrderDual.toDual tied.symm, earlier⟩

/-- The binary search finds the place of the sorted insertion. -/
theorem insertIdx_partitionPoint {kept : List (Placed α)} {place : Placed α}
    (earlier : ∀ other ∈ kept, other.id < place.id) :
    (kept.map Placed.entry).insertIdx
      (partitionPoint (fun other => place.val ≤ other.2) (kept.map Placed.entry)) place.entry =
      (kept.orderedInsert (· ≤ ·) place).map Placed.entry := by
  induction kept with
  | nil => rfl
  | cons other kept ih =>
    have before := Placed.lt_of_id_lt (earlier other (by simp))
    have rest := ih fun later member => earlier later (by simp [member])
    rw [partitionPoint] at rest
    simp only [List.map_cons, List.orderedInsert_cons, partitionPoint, List.findIdx_cons]
    by_cases above : place.val ≤ other.entry.2
    · have strict : ¬ place ≤ other := not_le.mpr (before.mpr above)
      simp only [above, decide_true, Bool.not_true, cond_false, List.insertIdx_succ_cons,
        if_neg strict, List.map_cons, rest]
    · have low : place ≤ other := not_lt.mp fun strict => above (before.mp strict)
      simp only [above, decide_false, Bool.not_false, cond_true, List.insertIdx_zero,
        if_pos low, List.map_cons]

/-- The early skip and the truncated insertion both keep the first `k` places. -/
theorem noteLogit_keepLeast {k : Nat} {kept : List (Placed α)} {place : Placed α}
    (sorted : kept.Pairwise (· ≤ ·))
    (earlier : ∀ other ∈ kept, other.id < place.id) :
    noteLogit k (kept.map Placed.entry) (place.val, place.id) =
      (BoundedSort.keepLeast k kept place).map Placed.entry := by
  rw [noteLogit]
  split
  · rename_i skipped
    obtain ⟨full, covered⟩ := skipped
    rw [List.length_map] at full
    obtain ⟨last, found, above⟩ := (Option.any_eq_true _ _).mp covered
    rw [List.getElem?_map, Option.map_eq_some_iff] at found
    obtain ⟨place', found, rfl⟩ := found
    have below := (Placed.lt_of_id_lt (earlier place' (List.mem_of_getElem? found))).mpr
      (of_decide_eq_true above)
    rw [BoundedSort.keepLeast_full sorted found full below]
  · have inserted := insertIdx_partitionPoint earlier
    rw [Placed.entry] at inserted
    rw [inserted, BoundedSort.keepLeast, List.map_take]

theorem keepLeast_earlier {k bound : Nat} {kept : List (Placed α)} {place : Placed α}
    (earlier : ∀ other ∈ kept, other.id < bound)
    (here : place.id = bound) : ∀ other ∈ BoundedSort.keepLeast k kept place, other.id < bound + 1 := by
  intro other member
  rcases (List.mem_orderedInsert _).mp (List.mem_of_mem_take member) with same | old
  · subst same
    omega
  · have before := earlier other old
    omega

/-- The loop over the row, from the places kept so far. -/
theorem foldl_noteLogit (k : Nat) (row : List α) (start : Nat) (kept : List (Placed α))
    (sorted : kept.Pairwise (· ≤ ·))
    (earlier : ∀ other ∈ kept, other.id < start) :
    (row.zipIdx start).foldl (noteLogit k) (kept.map Placed.entry) =
      (((row.zipIdx start).map fun (val, id) => Placed.of val id).foldl
        (BoundedSort.keepLeast k) kept).map Placed.entry := by
  induction row generalizing start kept with
  | nil => rfl
  | cons val row ih =>
    have noted := @noteLogit_keepLeast α _ k kept (Placed.of val start) sorted earlier
    have ordered : (BoundedSort.keepLeast k kept (Placed.of val start)).Pairwise (· ≤ ·) :=
      (sorted.orderedInsert _ _).sublist (List.take_sublist _ _)
    simp only [List.zipIdx_cons, List.foldl_cons, List.map_cons]
    rw [show noteLogit k (kept.map Placed.entry) (val, start) = _ from noted]
    exact ih (start + 1) _ ordered (keepLeast_earlier earlier rfl)

/-- What the buffer holds after the pass. -/
theorem topLogits_eq (row : List α) (topK : Nat) :
    topLogits row topK =
      ((((row.zipIdx.map fun (val, id) => Placed.of val id).mergeSort (· ≤ ·)).take
        (min topK row.length)).map
      Placed.entry) := by
  have pass := foldl_noteLogit (min topK row.length) row 0 [] List.Pairwise.nil (by simp)
  rw [List.map_nil, BoundedSort.foldl_keepLeast] at pass
  rw [topLogits]
  dsimp only
  split
  · exact pass
  · have none : min topK row.length = 0 := by omega
    rw [none, List.take_zero, List.map_nil]

theorem topLogits_ids (row : List α) (topK : Nat) :
    (topLogits row topK).map Prod.fst = ((ranking row).take (min topK row.length)).map UInt32.ofNat := by
  rw [topLogits_eq, ranking, ← List.map_take, List.map_map, List.map_map]
  rfl

theorem ranking_perm (row : List α) : (ranking row).Perm (List.range row.length) := by
  have same := (List.mergeSort_perm (row.zipIdx.map fun (val, id) => Placed.of val id) (· ≤ ·)).map Placed.id
  rw [List.map_map] at same
  have ids : (row.zipIdx.map (Placed.id ∘ fun (val, id) => Placed.of val id)) = List.range' 0 row.length := by
    rw [← List.zipIdx_map_snd]
    rfl
  rw [ids, ← List.range_eq_range'] at same
  exact same

omit [LinearOrder α] in
theorem mem_zipIdx_places {row : List α} {place : Placed α}
    (member : place ∈ row.zipIdx.map fun (val, id) => Placed.of val id) :
    row[place.id]? = some place.val := by
  obtain ⟨⟨val, id⟩, found, rfl⟩ := List.mem_map.mp member
  exact List.mem_zipIdx_iff_getElem?.mp found

/-- The ranking is by descending value, ties by ascending index. -/
theorem ranking_ordered (row : List α) :
    (ranking row).Pairwise fun i j => ∃ x y, row[i]? = some x ∧ row[j]? = some y ∧
      (y < x ∨ x = y ∧ i < j) := by
  have distinct : ((row.zipIdx.map fun (val, id) => Placed.of val id).mergeSort (· ≤ ·)).Pairwise
      fun a b => a.id ≠ b.id :=
    List.pairwise_map.mp ((ranking_perm row).nodup_iff.mpr List.nodup_range)
  refine List.pairwise_map.mpr (((BoundedSort.mergeSort_sorted _).and distinct).imp_of_mem ?_)
  rintro a b first second ⟨ordered, apart⟩
  have atFirst := mem_zipIdx_places ((List.mergeSort_perm _ _).mem_iff.mp first)
  have atSecond := mem_zipIdx_places ((List.mergeSort_perm _ _).mem_iff.mp second)
  refine ⟨a.val, b.val, atFirst, atSecond, ?_⟩
  rcases Prod.Lex.le_iff.mp ordered with above | ⟨tied, low⟩
  · exact Or.inl (OrderDual.ofDual_lt_ofDual.mpr above)
  · exact Or.inr ⟨congrArg OrderDual.ofDual tied, lt_of_le_of_ne low apart⟩

theorem wire_tokens (picked : Token) (alternatives : List (Token × UInt32)) (start : Nat) :
    ((alternatives.zipIdx start).filterMap fun ((altId, altLogprob), index) =>
      if altId = picked then none
        else some (⟨altId, altLogprob, UInt32.ofNat (index + 1)⟩ : WireTokenLogprob)).map
        WireTokenLogprob.tokenId = (alternatives.map Prod.fst).filter (· ≠ picked) := by
  induction alternatives generalizing start with
  | nil => rfl
  | cons alternative alternatives ih =>
    simp only [List.zipIdx_cons, List.filterMap_cons, List.map_cons]
    by_cases same : alternative.1 = picked
    · simp only [if_pos same, ih]
      rw [List.filter_cons, if_neg (by simpa using same)]
    · simp only [if_neg same, List.map_cons, ih]
      rw [List.filter_cons, if_pos (by simpa using same)]

theorem wire_rank {picked : Token} {alternatives : List (Token × UInt32)} {entry : WireTokenLogprob}
    (member : entry ∈ alternatives.zipIdx.filterMap fun ((altId, altLogprob), index) =>
      if altId = picked then none
        else some (⟨altId, altLogprob, UInt32.ofNat (index + 1)⟩ : WireTokenLogprob)) :
    ∃ index, (alternatives.map Prod.fst)[index]? = some entry.tokenId ∧
      entry.rank = UInt32.ofNat (index + 1) := by
  obtain ⟨⟨alternative, index⟩, found, kept⟩ := List.mem_filterMap.mp member
  have place := List.mem_zipIdx_iff_getElem?.mp found
  dsimp only at kept
  split at kept
  · cases kept
  · cases kept
    exact ⟨index, by rw [List.getElem?_map, place, Option.map_some], rfl⟩

/-- Distinct indices of a row that token ids can address stay distinct as ids. -/
theorem ids_nodup {row : List α} (small : row.length ≤ 2 ^ 32) (k : Nat) :
    (((ranking row).take k).map UInt32.ofNat).Nodup := by
  have distinct : ((ranking row).take k).Nodup :=
    ((ranking_perm row).nodup_iff.mpr List.nodup_range).sublist (List.take_sublist _ _)
  refine distinct.map_on ?_
  intro i first j second same
  have low := List.mem_range.mp ((ranking_perm row).mem_iff.mp (List.mem_of_mem_take first))
  have high := List.mem_range.mp ((ranking_perm row).mem_iff.mp (List.mem_of_mem_take second))
  have numbers := congrArg UInt32.toNat same
  rw [UInt32.toNat_ofNat', UInt32.toNat_ofNat'] at numbers
  omega

/-- The kept ids are the head of the stable ranking, and the wire entries are the picked token
followed by the others in that order. -/
theorem topLogprobs_ranked (logprobOf : List α → α → UInt32) (row : List α) (picked : Token) (topK : Nat)
    (inside : picked.toNat < row.length) :
    ∃ lp position, tokenLogprobFromRow logprobOf row picked topK = some lp ∧
      toWirePositionLogprobs picked (some lp) = some position ∧
      lp.topLogprobs.map Prod.fst = ((ranking row).take (min topK row.length)).map UInt32.ofNat ∧
      position.entries.map WireTokenLogprob.tokenId =
        picked :: (((ranking row).take (min topK row.length)).map UInt32.ofNat).filter (· ≠ picked) ∧
      (∀ entry ∈ position.entries.tail, ∃ index id, (ranking row)[index]? = some id ∧
        entry.tokenId = UInt32.ofNat id ∧ entry.rank = UInt32.ofNat (index + 1)) ∧
      (row.length ≤ 2 ^ 32 → (position.entries.map WireTokenLogprob.tokenId).Nodup) := by
  have ids : ((topLogits row topK).map fun (id, val) => (id, logprobOf row val)).map Prod.fst =
      ((ranking row).take (min topK row.length)).map UInt32.ofNat := by
    rw [List.map_map, ← topLogits_ids]
    rfl
  have tokens := wire_tokens picked ((topLogits row topK).map fun (id, val) => (id, logprobOf row val)) 0
  rw [ids] at tokens
  refine ⟨_, _, by rw [tokenLogprobFromRow, List.getElem?_eq_getElem inside, Option.map_some],
    rfl, ids, ?_, ?_, ?_⟩
  · exact congrArg (picked :: ·) tokens
  · intro entry member
    obtain ⟨index, found, rank⟩ := wire_rank member
    rw [ids, List.getElem?_map, Option.map_eq_some_iff] at found
    obtain ⟨id, found, same⟩ := found
    rw [List.getElem?_take] at found
    split at found
    · exact ⟨index, id, found, same.symm, rank⟩
    · cases found
  · intro small
    have listed : _ = picked :: _ := congrArg (picked :: ·) tokens
    rw [List.map_cons, listed]
    exact List.nodup_cons.mpr ⟨fun member => by simpa using (List.mem_filter.mp member).2,
      (ids_nodup small _).filter _⟩

/-- Three ties at the cut: the lower ids stay, and the picked token moves to the front. -/
theorem topLogprobs_ranked_ties :
    tokenLogprobFromRow (fun _ (val : Nat) => UInt32.ofNat val) [3, 5, 3, 5, 3] 3 3 =
      some ⟨5, [(1, 5), (3, 5), (0, 3)]⟩ ∧
    ∃ lp position, tokenLogprobFromRow (fun _ (val : Nat) => UInt32.ofNat val) [3, 5, 3, 5, 3] 3 3 = some lp ∧
      toWirePositionLogprobs 3 (some lp) = some position ∧
      lp.topLogprobs.map Prod.fst = ((ranking [3, 5, 3, 5, 3]).take (min 3 5)).map UInt32.ofNat ∧
      position.entries.map WireTokenLogprob.tokenId =
        3 :: (((ranking [3, 5, 3, 5, 3]).take (min 3 5)).map UInt32.ofNat).filter (· ≠ 3) ∧
      (∀ entry ∈ position.entries.tail, ∃ index id, (ranking [3, 5, 3, 5, 3])[index]? = some id ∧
        entry.tokenId = UInt32.ofNat id ∧ entry.rank = UInt32.ofNat (index + 1)) ∧
      (([3, 5, 3, 5, 3] : List Nat).length ≤ 2 ^ 32 →
        (position.entries.map WireTokenLogprob.tokenId).Nodup) :=
  ⟨by decide +kernel, topLogprobs_ranked (fun _ val => UInt32.ofNat val) [3, 5, 3, 5, 3] 3 3 (by decide)⟩

end PegaInfer.Sample
