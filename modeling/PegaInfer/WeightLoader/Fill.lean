import PegaInfer.Lib.Slices

namespace PegaInfer.WeightLoader

open Slices

abbrev Bytes := List UInt8

/-- `STAGE_BYTES`. -/
def stageBytes : Nat := 32 <<< 20

/-- `PARALLEL_FILL_MIN_BYTES`. -/
def parallelFillMinBytes : Nat := 1 <<< 20

theorem stageBytes_pos : 0 < stageBytes := by decide

/-- The bytes one worker writes into the staging buffer, each with its offset, in order. -/
abbrev Task := List (UInt8 × Nat)

/-- `dst.copy_from_slice(src)`, for the cells of the stage from `start` on. -/
def copyFromSlice (src : Bytes) (start : Nat) : Task := src.zipIdx start

structure FillPool where
  workers : Nat
  positive : 0 < workers

namespace FillPool

variable (pool : FillPool)

/-- `FillPool::copy`: the tasks the scope spawns and joins. -/
def copy (src : Bytes) (dst : Nat) : List Task :=
  if src.length < parallelFillMinBytes ∨ pool.workers = 1 then [copyFromSlice src dst]
  else
    let per := src.length ⌈/⌉ pool.workers
    ((chunks per src).zip (chunkStarts per src.length)).map fun (srcPart, at_) =>
      copyFromSlice srcPart (dst + at_)

end FillPool

/-- The loop over rows of `gather_cols`, into the `dstLen` cells from `dst` on. -/
def gatherRows (src : Bytes) (strideB offB takeB dst dstLen : Nat) : Task :=
  ((chunks strideB src).zip (chunkStarts takeB dstLen)).flatMap fun (srcRow, at_) =>
    copyFromSlice ((srcRow.drop offB).take takeB) (dst + at_)

/-- `FillPool::gather_cols`. -/
def FillPool.gatherCols (pool : FillPool) (src : Bytes) (strideB offB takeB rows dstLen : Nat) : List Task :=
  if dstLen < parallelFillMinBytes ∨ pool.workers = 1
    then [gatherRows (src.take (rows * strideB)) strideB offB takeB 0 dstLen]
  else
    let rowsPer := rows ⌈/⌉ pool.workers
    ((chunks (rowsPer * strideB) (src.take (rows * strideB))).zip (chunkStarts (rowsPer * takeB) dstLen)).map
      fun (srcRows, at_) => gatherRows srcRows strideB offB takeB at_ (min (rowsPer * takeB) (dstLen - at_))

/-- The tasks write exactly the bytes of `content`, from `start` on. -/
def Writes (tasks : List Task) (start : Nat) (content : Bytes) : Prop :=
  ∀ byte offset, (∃ task ∈ tasks, (byte, offset) ∈ task) ↔
    start ≤ offset ∧ content[offset - start]? = some byte

theorem mem_copyFromSlice {src : Bytes} {start offset : Nat} {byte : UInt8} :
    (byte, offset) ∈ copyFromSlice src start ↔ start ≤ offset ∧ src[offset - start]? = some byte :=
  List.mk_mem_zipIdx_iff_le_and_getElem?_sub

theorem FillPool.copy_writes (pool : FillPool) (src : Bytes) (dst : Nat) :
    Writes (pool.copy src dst) dst src := by
  intro byte offset
  unfold FillPool.copy
  split
  · simp only [List.mem_singleton, exists_eq_left, mem_copyFromSlice]
  · next large =>
    have some_ : parallelFillMinBytes ≤ src.length := by omega
    have per_pos : 0 < src.length ⌈/⌉ pool.workers := by
      rw [lt_ceilDiv_iff pool.positive, Nat.zero_mul]
      exact Nat.lt_of_lt_of_le (by decide) some_
    generalize src.length ⌈/⌉ pool.workers = per at per_pos
    simp only [List.mem_map, Prod.exists, mem_zip_chunkStarts rfl per_pos]
    constructor
    · rintro ⟨task, ⟨part, start, ⟨i, inside, rfl, rfl⟩, rfl⟩, written⟩
      rw [mem_copyFromSlice, List.getElem?_take, List.getElem?_drop] at written
      obtain ⟨after, found⟩ := written
      split at found
      · refine ⟨by omega, ?_⟩
        rwa [show i * per + (offset - (dst + i * per)) = offset - dst by omega] at found
      · contradiction
    · rintro ⟨after, found⟩
      have within := (List.getElem?_eq_some_iff.mp found).1
      have split_ := Nat.div_add_mod' (offset - dst) per
      have short := Nat.mod_lt (offset - dst) per_pos
      refine ⟨_, ⟨_, _, ⟨(offset - dst) / per, by omega, rfl, rfl⟩, rfl⟩, ?_⟩
      rw [mem_copyFromSlice, List.getElem?_take, if_pos (by omega), List.getElem?_drop]
      refine ⟨by omega, ?_⟩
      rwa [show (offset - dst) / per * per + (offset - (dst + (offset - dst) / per * per)) =
        offset - dst by omega]

/-- The columns `[offB, offB + takeB)` of the first `rows` rows. -/
def columns (src : Bytes) (strideB offB takeB rows : Nat) : Bytes :=
  (List.range rows).flatMap fun row => (src.drop (row * strideB + offB)).take takeB

variable {src : Bytes} {strideB offB takeB rows dst row column offset : Nat} {byte : UInt8}

theorem columns_width (inside : offB + takeB ≤ strideB) (long : rows * strideB ≤ src.length) :
    ∀ row < rows, ((src.drop (row * strideB + offB)).take takeB).length = takeB := by
  intro row lt
  have last := Nat.mul_le_mul_right strideB (show row + 1 ≤ rows by omega)
  rw [Nat.succ_mul] at last
  rw [List.length_take, List.length_drop]
  omega

theorem length_columns (inside : offB + takeB ≤ strideB) (long : rows * strideB ≤ src.length) :
    (columns src strideB offB takeB rows).length = rows * takeB :=
  length_flatMap_range (columns_width inside long)

theorem getElem?_columns (inside : offB + takeB ≤ strideB)
    (long : rows * strideB ≤ src.length) (lt : row < rows)
    (within : column < takeB) :
    (columns src strideB offB takeB rows)[row * takeB + column]? = src[row * strideB + offB + column]? := by
  rw [columns, getElem?_flatMap_range (columns_width inside long) lt within, List.getElem?_take,
    if_pos within, List.getElem?_drop]

/-- A cell of the gathered columns, by its row and its place in the row. -/
theorem columns_cell (inside : offB + takeB ≤ strideB) (long : rows * strideB ≤ src.length)
    (positive : 0 < takeB) :
    (columns src strideB offB takeB rows)[offset]? = some byte ↔
      ∃ row column, row < rows ∧ column < takeB ∧ offset = row * takeB + column ∧
        src[row * strideB + offB + column]? = some byte := by
  constructor
  · intro found
    have bound := (List.getElem?_eq_some_iff.mp found).1
    rw [length_columns inside long] at bound
    have short := Nat.mod_lt offset positive
    have row_lt : offset / takeB < rows := Nat.div_lt_of_lt_mul (by rwa [Nat.mul_comm] at bound)
    rw [← Nat.div_add_mod' offset takeB, getElem?_columns inside long row_lt short] at found
    exact ⟨offset / takeB, offset % takeB, row_lt, short, (Nat.div_add_mod' offset takeB).symm, found⟩
  · rintro ⟨row, column, lt, within, rfl, found⟩
    rwa [getElem?_columns inside long lt within]

theorem gatherRows_writes (dst : Nat) (inside : offB + takeB ≤ strideB)
    (exactly : src.length = rows * strideB) (positive : 0 < takeB) :
    Writes [gatherRows src strideB offB takeB dst (rows * takeB)] dst
      (columns src strideB offB takeB rows) := by
  intro byte offset
  have stride_pos : 0 < strideB := by omega
  have counts : src.length ⌈/⌉ strideB = (rows * takeB) ⌈/⌉ takeB := by
    have byStride := mul_ceilDiv_mul (a := rows) Nat.one_pos stride_pos
    have byTake := mul_ceilDiv_mul (a := rows) Nat.one_pos positive
    rw [Nat.one_mul] at byStride byTake
    rw [exactly, byStride, byTake]
  rw [columns_cell inside exactly.ge positive]
  simp only [List.mem_singleton, exists_eq_left, gatherRows, List.mem_flatMap, Prod.exists,
    mem_zip_chunkStarts counts positive]
  constructor
  · rintro ⟨part, start, ⟨row, row_lt, rfl, rfl⟩, written⟩
    rw [mem_copyFromSlice, List.getElem?_take, List.getElem?_drop, List.getElem?_take] at written
    obtain ⟨after, found⟩ := written
    split at found
    · next within =>
      rw [if_pos (by omega), List.getElem?_drop] at found
      refine ⟨by omega, row, offset - (dst + row * takeB), Nat.lt_of_mul_lt_mul_right row_lt,
        within, by omega, ?_⟩
      rwa [Nat.add_assoc]
    · contradiction
  · rintro ⟨after, row, column, lt, within, place, found⟩
    refine ⟨_, _, ⟨row, Nat.mul_lt_mul_of_pos_right lt positive, rfl, rfl⟩, ?_⟩
    rw [mem_copyFromSlice, show offset - (dst + row * takeB) = column by omega, List.getElem?_take,
      if_pos within, List.getElem?_drop,
      List.getElem?_take, if_pos (by omega), List.getElem?_drop, ← Nat.add_assoc]
    exact ⟨by omega, found⟩

theorem FillPool.gatherCols_writes (pool : FillPool) (inside : offB + takeB ≤ strideB)
    (long : rows * strideB ≤ src.length)
    (positive : 0 < takeB) :
    Writes (pool.gatherCols src strideB offB takeB rows (rows * takeB)) 0
      (columns src strideB offB takeB rows) := by
  have exactly : (src.take (rows * strideB)).length = rows * strideB := by rw [List.length_take]; omega
  have same_cell : ∀ row column, row < rows → column < takeB →
      (src.take (rows * strideB))[row * strideB + offB + column]? = src[row * strideB + offB + column]? := by
    intro row column lt within
    have last := Nat.mul_le_mul_right strideB (show row + 1 ≤ rows by omega)
    rw [Nat.succ_mul] at last
    rw [List.getElem?_take, if_pos (by omega)]
  intro byte offset
  rw [columns_cell inside long positive]
  unfold FillPool.gatherCols
  split
  · rw [gatherRows_writes _ inside exactly positive, columns_cell inside exactly.ge positive]
    simp only [Nat.zero_le, true_and, Nat.sub_zero]
    refine exists_congr fun row => exists_congr fun column => and_congr_right fun lt =>
      and_congr_right fun within => ?_
    rw [same_cell row column lt within]
  · next large =>
    have some_ : parallelFillMinBytes ≤ rows * takeB := by omega
    have stride_pos : 0 < strideB := by omega
    have per_pos : 0 < rows ⌈/⌉ pool.workers := by
      rw [lt_ceilDiv_iff pool.positive, Nat.zero_mul]
      exact Nat.pos_of_mul_pos_right (Nat.lt_of_lt_of_le (by decide) some_)
    generalize rows ⌈/⌉ pool.workers = per at per_pos
    have counts : (src.take (rows * strideB)).length ⌈/⌉ (per * strideB) =
        (rows * takeB) ⌈/⌉ (per * takeB) := by
      rw [exactly, mul_ceilDiv_mul per_pos stride_pos, mul_ceilDiv_mul per_pos positive]
    have share : ∀ i, i * (per * takeB) < rows * takeB → ∀ byte offset,
        (byte, offset) ∈ gatherRows (((src.take (rows * strideB)).drop (i * (per * strideB))).take
          (per * strideB)) strideB offB takeB
          (i * (per * takeB)) (min (per * takeB) (rows * takeB - i * (per * takeB))) ↔
        ∃ row column, row < min per (rows - i * per) ∧ column < takeB ∧
          offset = (i * per + row) * takeB + column ∧
          src[(i * per + row) * strideB + offB + column]? = some byte := by
      intro i within byte offset
      rw [← Nat.mul_assoc, Nat.mul_lt_mul_right positive] at within
      have cells : min (per * takeB) (rows * takeB - i * (per * takeB)) =
          min per (rows - i * per) * takeB := by
        rw [← Nat.mul_assoc, ← Nat.sub_mul, Nat.mul_min_mul_right]
      have width : (((src.take (rows * strideB)).drop (i * (per * strideB))).take (per * strideB)).length =
          min per (rows - i * per) * strideB := by
        rw [List.length_take, List.length_drop, exactly, ← Nat.mul_assoc, ← Nat.sub_mul,
          Nat.mul_min_mul_right]
      have written := gatherRows_writes (i * (per * takeB)) inside width positive byte offset
      simp only [List.mem_singleton, exists_eq_left] at written
      rw [cells, written, columns_cell inside width.ge positive]
      constructor
      · rintro ⟨after, row, column, lt, short, place, found⟩
        have row_end := Nat.mul_le_mul_right strideB (show row + 1 ≤ per by omega)
        rw [Nat.succ_mul] at row_end
        rw [List.getElem?_take, if_pos (by omega), List.getElem?_drop, ← Nat.mul_assoc,
          ← Nat.add_assoc, ← Nat.add_assoc,
          ← Nat.add_mul, same_cell _ _ (by omega) short] at found
        refine ⟨row, column, lt, short, ?_, found⟩
        rw [Nat.add_mul, Nat.mul_assoc]
        omega
      · rintro ⟨row, column, lt, short, place, found⟩
        have row_end := Nat.mul_le_mul_right strideB (show row + 1 ≤ per by omega)
        rw [Nat.succ_mul] at row_end
        rw [Nat.add_mul, Nat.mul_assoc] at place
        refine ⟨by omega, row, column, lt, short, by omega, ?_⟩
        rw [List.getElem?_take, if_pos (by omega), List.getElem?_drop, ← Nat.mul_assoc,
          ← Nat.add_assoc, ← Nat.add_assoc,
          ← Nat.add_mul, same_cell _ _ (by omega) short]
        exact found
    simp only [List.mem_map, Prod.exists, mem_zip_chunkStarts counts (Nat.mul_pos per_pos positive)]
    constructor
    · rintro ⟨task, ⟨part, start, ⟨i, within, rfl, rfl⟩, rfl⟩, written⟩
      obtain ⟨row, column, lt, short, place, found⟩ := (share i within byte offset).mp written
      exact ⟨Nat.zero_le _, i * per + row, column, by omega, short, by omega, found⟩
    · rintro ⟨-, row, column, lt, short, place, found⟩
      have split_ := Nat.div_add_mod' row per
      have rest := Nat.mod_lt row per_pos
      have within : row / per * (per * takeB) < rows * takeB := by
        rw [← Nat.mul_assoc, Nat.mul_lt_mul_right positive]
        omega
      refine ⟨_, ⟨_, _, ⟨row / per, within, rfl, rfl⟩, rfl⟩, (share (row / per) within byte offset).mpr ?_⟩
      refine ⟨row % per, column, by omega, short, ?_, ?_⟩
      · rw [split_]
        omega
      · rwa [split_]

end PegaInfer.WeightLoader
