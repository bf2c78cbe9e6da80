import Mathlib

namespace PegaInfer.Slices

variable {β : Type*}

/-- The pieces of length `n` of a list, the last one possibly shorter. -/
def chunks (n : Nat) (xs : List β) : List (List β) :=
  (List.range (xs.length ⌈/⌉ n)).map fun i => (xs.drop (i * n)).take n

/-- The whole pieces of length `n` of a list; what is left at the end is dropped. -/
def chunksExact (n : Nat) (xs : List β) : List (List β) :=
  (List.range (xs.length / n)).map fun i => (xs.drop (i * n)).take n

/-- Where the pieces of length `n` of `length` cells start. -/
def chunkStarts (n length : Nat) : List Nat := (List.range (length ⌈/⌉ n)).map (· * n)

/-- Cells from `start` on, overwritten by a list. -/
def store (memory : Nat → β) (start : Nat) (xs : List β) : Nat → β := fun address =>
  if start ≤ address then (xs[address - start]?).getD (memory address) else memory address

variable {memory : Nat → β} {n length start address i : Nat} {xs ys part : List β}

theorem lt_ceilDiv_iff (positive : 0 < n) : i < length ⌈/⌉ n ↔ i * n < length := by
  have bound := ceilDiv_le_iff_le_smul (b := length) (c := i) positive
  rw [smul_eq_mul, Nat.mul_comm] at bound
  omega

theorem mul_ceilDiv_mul {a b c : Nat} (positive : 0 < b) (scale : 0 < c) : (a * c) ⌈/⌉ (b * c) = a ⌈/⌉ b := by
  refine eq_of_forall_lt_iff fun i => ?_
  rw [lt_ceilDiv_iff (Nat.mul_pos positive scale), lt_ceilDiv_iff positive, ← Nat.mul_assoc,
    Nat.mul_lt_mul_right scale]

/-- Pieces of a list beside pieces of the cells it is copied to: as many of each where the counts agree. -/
theorem mem_zip_chunkStarts {m : Nat} (same : xs.length ⌈/⌉ n = length ⌈/⌉ m) (positive : 0 < m) :
    (part, start) ∈ (chunks n xs).zip (chunkStarts m length) ↔
      ∃ i, i * m < length ∧ part = (xs.drop (i * n)).take n ∧ start = i * m := by
  rw [chunks, chunkStarts, same, List.zip_map', List.mem_map]
  simp only [List.mem_range, lt_ceilDiv_iff positive, Prod.mk.injEq, eq_comm]

theorem flatMap_take_drop (n count : Nat) (xs : List β) :
    (List.range count).flatMap (fun i => (xs.drop (i * n)).take n) = xs.take (count * n) := by
  induction count with
  | zero => simp
  | succ count ih =>
    rw [Nat.succ_mul, List.take_add, List.range_succ, List.flatMap_append, ih, List.flatMap_singleton]

@[simp] theorem length_chunksExact (n : Nat) (xs : List β) : (chunksExact n xs).length = xs.length / n := by
  simp [chunksExact]

theorem length_of_mem_chunksExact (member : part ∈ chunksExact n xs) : part.length = n := by
  obtain ⟨i, inside, rfl⟩ := List.mem_map.mp member
  have room := Nat.mul_le_of_le_div n (i + 1) xs.length (by simpa using inside)
  rw [Nat.succ_mul] at room
  simp only [List.length_take, List.length_drop]
  omega

theorem take_chunksExact (n count : Nat) (inside : count ≤ xs.length / n) :
    (chunksExact n xs).take count = (List.range count).map fun i => (xs.drop (i * n)).take n := by
  rw [chunksExact, ← List.map_take, List.take_range, Nat.min_eq_left inside]

/-- Two lists have the same leading pieces when they agree on the cells of them. -/
theorem take_chunksExact_eq_iff {count : Nat} (left : count ≤ xs.length / n) (right : count ≤ ys.length / n) :
    (chunksExact n xs).take count = (chunksExact n ys).take count ↔
      xs.take (count * n) = ys.take (count * n) := by
  rw [take_chunksExact n count left, take_chunksExact n count right]
  constructor
  · intro same
    have joined := congrArg List.flatten same
    rwa [← List.flatMap_def, ← List.flatMap_def, flatMap_take_drop, flatMap_take_drop] at joined
  · intro same
    refine List.map_congr_left fun i inside => ?_
    have room := Nat.mul_le_mul_right n (List.mem_range.mp inside)
    rw [Nat.succ_mul] at room
    have piece (zs : List β) : (zs.drop (i * n)).take n = ((zs.take (count * n)).drop (i * n)).take n := by
      rw [List.drop_take, List.take_take, Nat.min_eq_left (by omega)]
    rw [piece xs, piece ys, same]

theorem length_flatMap_range {rows width : Nat} {cells : Nat → List β}
    (width_eq : ∀ row < rows, (cells row).length = width) :
    ((List.range rows).flatMap cells).length = rows * width := by
  induction rows with
  | zero => simp
  | succ rows ih =>
    rw [List.range_succ, List.flatMap_append, List.length_append,
      ih fun row lt => width_eq row (by omega), List.flatMap_singleton,
      width_eq rows (by omega), Nat.succ_mul]

/-- A list of equally long rows read back at one of its cells. -/
theorem getElem?_flatMap_range {rows width row column : Nat} {cells : Nat → List β}
    (width_eq : ∀ row < rows, (cells row).length = width) (inside : row < rows) (within : column < width) :
    ((List.range rows).flatMap cells)[row * width + column]? = (cells row)[column]? := by
  induction rows with
  | zero => omega
  | succ rows ih =>
    have before := length_flatMap_range fun row (lt : row < rows) => width_eq row (by omega)
    rw [List.range_succ, List.flatMap_append, List.flatMap_singleton]
    rcases Nat.lt_succ_iff_lt_or_eq.mp inside with earlier | rfl
    · have fits : row * width + column < rows * width := by
        have := Nat.mul_le_mul_right width (show row + 1 ≤ rows by omega)
        rw [Nat.succ_mul] at this
        omega
      rw [List.getElem?_append_left (by omega)]
      exact ih (fun row lt => width_eq row (by omega)) earlier
    · rw [List.getElem?_append_right (by omega), before, Nat.add_sub_cancel_left]

@[simp] theorem store_nil (memory : Nat → β) (start : Nat) : store memory start [] = memory := by
  funext address
  simp [store]

theorem store_outside (outside : ¬ (start ≤ address ∧ address < start + xs.length)) :
    store memory start xs address = memory address := by
  unfold store
  split
  · rw [List.getElem?_eq_none (by omega), Option.getD_none]
  · rfl

theorem store_inside {offset : Nat} {value : β} (found : xs[offset]? = some value) :
    store memory start xs (start + offset) = value := by
  rw [store, if_pos (by omega), Nat.add_sub_cancel_left, found, Option.getD_some]

theorem store_append : store (store memory start xs)
    (start + xs.length) ys = store memory start (xs ++ ys) := by
  funext address
  unfold store
  by_cases low : start ≤ address
  · by_cases high : start + xs.length ≤ address
    · rw [if_pos high, if_pos low, if_pos low,
        List.getElem?_eq_none (by omega : xs.length ≤ address - start), Option.getD_none,
        List.getElem?_append_right (by omega), Nat.sub_sub]
    · rw [if_neg high, if_pos low, if_pos low, List.getElem?_append_left (by omega)]
  · rw [if_neg (by omega), if_neg low, if_neg low]

end PegaInfer.Slices
