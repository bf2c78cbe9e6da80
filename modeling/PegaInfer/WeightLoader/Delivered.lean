import PegaInfer.WeightLoader.Prepare

namespace PegaInfer.WeightLoader

open Slices

/-- The fill leaves exactly `content` in the staging buffer, whatever the order of its workers. -/
structure Chunk.Carries (chunk : Chunk) (content : Bytes) : Prop where
  small : chunk.bytes ≤ stageBytes
  length : content.length = chunk.bytes
  writes : ∀ byte offset, (∃ scope ∈ chunk.fill, ∃ task ∈ scope, (byte, offset) ∈ task) ↔
    content[offset]? = some byte

/-- The chunks written to the device one after the other. -/
def storeAll (memory : Nat → UInt8) : List Chunk → List Bytes → Nat → UInt8
  | chunk :: chunks, content :: contents => storeAll (store memory chunk.dstAt content) chunks contents
  | _, _ => memory

/-- The chunk writes no address outside the `length` ones from `start` on. -/
def Chunk.Within (chunk : Chunk) (start length : Nat) : Prop :=
  start ≤ chunk.dstAt ∧ chunk.dstAt + chunk.bytes ≤ start + length

/-- The chunks carry `xs` to the addresses from `start` on. -/
def Delivers (chunks : List Chunk) (start : Nat) (xs : Bytes) : Prop :=
  (∀ chunk ∈ chunks, chunk.Within start xs.length) ∧
    ∃ contents, List.Forall₂ Chunk.Carries chunks contents ∧
      ∀ memory, storeAll memory chunks contents = store memory start xs

variable {chunk : Chunk} {chunks more : List Chunk} {start : Nat} {content xs ys : Bytes}
  {contents others : List Bytes}

theorem storeAll_append (carried : List.Forall₂ Chunk.Carries chunks contents) (memory : Nat → UInt8) :
    storeAll memory (chunks ++ more) (contents ++ others) =
      storeAll (storeAll memory chunks contents) more others := by
  induction carried generalizing memory with
  | nil => rfl
  | cons _ _ ih => exact ih _

theorem Delivers.nil : Delivers [] start [] := by
  refine ⟨fun chunk member => absurd member List.not_mem_nil, [], .nil, fun memory => ?_⟩
  exact (store_nil memory start).symm

theorem Delivers.append (first : Delivers chunks start xs) (second : Delivers more (start + xs.length) ys) :
    Delivers (chunks ++ more) start (xs ++ ys) := by
  obtain ⟨within, contents, carried, stored⟩ := first
  obtain ⟨within', others, carried', stored'⟩ := second
  refine ⟨fun chunk member => ?_, contents ++ others, List.rel_append carried carried', fun memory => ?_⟩
  · rw [Chunk.Within, List.length_append]
    rcases List.mem_append.mp member with early | late
    · have bounds := within chunk early
      exact ⟨bounds.1, bounds.2.trans (by omega)⟩
    · have bounds := within' chunk late
      exact ⟨(Nat.le_add_right _ _).trans bounds.1, bounds.2.trans (by omega)⟩
  · rw [storeAll_append carried, stored, stored', store_append]

theorem Chunk.Carries.delivers (carries : chunk.Carries content) (place : chunk.dstAt = start) :
    Delivers [chunk] start content := by
  refine ⟨fun other member => ?_, [content], .cons carries .nil, fun memory => by rw [← place]; rfl⟩
  rw [List.mem_singleton.mp member, Chunk.Within, carries.length]
  omega

theorem Delivers.cons (carries : chunk.Carries content) (place : chunk.dstAt = start)
    (rest : Delivers chunks (start + content.length) xs) : Delivers (chunk :: chunks) start (content ++ xs) :=
  (carries.delivers place).append rest

/-- A fill of one scope. -/
theorem Writes.carries {tasks : List Task} {bytes : Nat} (dstAt : Nat)
    (writes : Writes tasks 0 content) (length : content.length = bytes)
    (small : bytes ≤ stageBytes) : Chunk.Carries { bytes, dstAt, fill := [tasks] } content where
  small := small
  length := length
  writes := fun byte offset => by
    have exact_ := writes byte offset
    rw [Nat.sub_zero] at exact_
    simpa only [List.mem_singleton, exists_eq_left, Nat.zero_le, true_and] using exact_

theorem delivers_prefix (pool : FillPool) (src : Bytes) (dstAt : Nat) {count : Nat}
    (short : count * stageBytes < src.length + stageBytes) :
    Delivers ((List.range count).map fun i =>
      { bytes := ((src.drop (i * stageBytes)).take stageBytes).length
        dstAt := dstAt + i * stageBytes
        fill := [pool.copy ((src.drop (i * stageBytes)).take stageBytes) 0] }) dstAt
          (src.take (count * stageBytes)) := by
  induction count with
  | zero =>
    rw [Nat.zero_mul, List.take_zero]
    exact .nil
  | succ count ih =>
    rw [Nat.succ_mul] at short
    have before : (src.take (count * stageBytes)).length = count * stageBytes := by
      rw [List.length_take]; omega
    have last : Chunk.Carries
        { bytes := ((src.drop (count * stageBytes)).take stageBytes).length
          dstAt := dstAt + count * stageBytes
          fill := [pool.copy ((src.drop (count * stageBytes)).take stageBytes) 0] }
        ((src.drop (count * stageBytes)).take stageBytes) :=
      (pool.copy_writes _ 0).carries _ rfl (List.length_take_le _ _)
    rw [List.range_succ, List.map_append, Nat.succ_mul, List.take_add]
    exact (ih (by omega)).append (last.delivers (by rw [before]))

theorem uploadAt_delivers (pool : FillPool) (src : Bytes) (dstAt : Nat) :
    Delivers (uploadAt pool src dstAt) dstAt src := by
  have covered := (ceilDiv_le_iff_le_smul (b := src.length) stageBytes_pos).mp le_rfl
  rw [smul_eq_mul, Nat.mul_comm] at covered
  have short : (src.length ⌈/⌉ stageBytes) * stageBytes < src.length + stageBytes := by
    rcases Nat.eq_zero_or_pos (src.length ⌈/⌉ stageBytes) with zero | positive
    · rw [zero, Nat.zero_mul]
      exact Nat.add_pos_right _ stageBytes_pos
    · have last := (lt_ceilDiv_iff stageBytes_pos).mp (Nat.sub_one_lt_of_lt positive)
      rw [Nat.sub_mul, Nat.one_mul] at last
      omega
  have delivered := delivers_prefix pool src dstAt short
  rw [List.take_of_length_le covered] at delivered
  have indexed : ∀ count, ((List.range count).map fun i =>
    (src.drop (i * stageBytes)).take stageBytes).zipIdx =
      (List.range count).map fun i => ((src.drop (i * stageBytes)).take stageBytes, i) := by
    intro count
    refine List.ext_getElem (by simp) fun i _ _ => ?_
    rw [List.getElem_zipIdx, List.getElem_map, List.getElem_map, List.getElem_range, Nat.zero_add]
  rw [uploadAt, Slices.chunks, indexed, List.map_map]
  exact delivered

theorem copyParts_writes (pool : FillPool) (parts : List Bytes) (at_ : Nat) (byte : UInt8) (offset : Nat) :
    (∃ scope ∈ copyParts pool parts at_, ∃ task ∈ scope, (byte, offset) ∈ task) ↔
      at_ ≤ offset ∧ parts.flatten[offset - at_]? = some byte := by
  induction parts generalizing at_ with
  | nil => simp [copyParts]
  | cons part parts ih =>
    rw [copyParts, List.exists_mem_cons_iff, ih, pool.copy_writes part at_ byte offset,
      List.flatten_cons, List.getElem?_append]
    constructor
    · rintro (⟨after, found⟩ | ⟨after, found⟩)
      · rw [if_pos (List.getElem?_eq_some_iff.mp found).1]
        exact ⟨after, found⟩
      · rw [if_neg (by omega), Nat.sub_sub]
        exact ⟨by omega, found⟩
    · rintro ⟨after, found⟩
      split at found
      · exact .inl ⟨after, found⟩
      · rw [Nat.sub_sub] at found
        exact .inr ⟨by omega, found⟩

theorem uploadSlicesFrom_delivers (pool : FillPool) (srcs : List Bytes) (dstAt : Nat)
    (cursor : Cursor srcs) (dstOffset : Nat) :
    Delivers (uploadSlicesFrom pool srcs dstAt cursor dstOffset) (dstAt + dstOffset) cursor.rest := by
  fun_induction uploadSlicesFrom pool srcs dstAt cursor dstOffset with
  | case1 cursor dstOffset unfinished next less ih =>
    have read := nextContiguousChunk_read srcs cursor stageBytes
    have carries : Chunk.Carries
        { bytes := next.bytes, dstAt := dstAt + dstOffset, fill := copyParts pool next.parts 0 }
          next.parts.flatten :=
      ⟨read.bounded, read.counted.symm, fun byte offset => by
        have exact_ := copyParts_writes pool next.parts 0 byte offset
        rwa [Nat.sub_zero, eq_true (Nat.zero_le _), true_and] at exact_⟩
    have joined : next.parts.flatten ++ next.cursor.rest = cursor.rest := read.joined
    rw [← joined]
    refine .cons carries rfl ?_
    rwa [Nat.add_assoc, ← read.counted]
  | case2 cursor dstOffset finished =>
    rw [Cursor.rest_eq_nil (by omega)]
    exact .nil

variable {src : Bytes} {strideB offB takeB : Nat}

theorem columns_add (first second : Nat) : columns src strideB offB takeB (first + second) =
    columns src strideB offB takeB first ++
      columns (src.drop (first * strideB)) strideB offB takeB second := by
  rw [columns, columns, columns, List.range_add, List.flatMap_append, List.flatMap_map]
  simp only [List.drop_drop, Nat.add_mul, Nat.add_assoc]

theorem uploadColsFrom_delivers (pool : FillPool) (src : Bytes) (plan : ColShardPlan)
    (inside : plan.offB + plan.takeB ≤ plan.strideB)
    (long : plan.rows * plan.strideB ≤ src.length) (row : Nat) :
    Delivers (uploadColsFrom pool src plan row) (plan.dstAt + row * plan.takeB)
      (columns (src.drop (row * plan.strideB)) plan.strideB plan.offB plan.takeB (plan.rows - row)) := by
  fun_induction uploadColsFrom pool src plan row with
  | case1 row more chunkRows ih =>
    have fits : chunkRows * plan.takeB ≤ stageBytes :=
      (Nat.mul_le_mul_right _ (Nat.min_le_left _ _)).trans (Nat.div_mul_le_self _ _)
    have enough : chunkRows * plan.strideB ≤ (src.drop (row * plan.strideB)).length := by
      have rows : row + chunkRows ≤ plan.rows := by omega
      have scaled := Nat.mul_le_mul_right plan.strideB rows
      rw [Nat.add_mul] at scaled
      rw [List.length_drop]
      omega
    have carries := (pool.gatherCols_writes inside enough plan.wide.1).carries (plan.dstAt + row * plan.takeB)
      (length_columns inside enough) fits
    rw [show plan.rows - row = chunkRows + (plan.rows - (row + chunkRows)) by omega, columns_add]
    refine .cons carries rfl ?_
    rw [length_columns inside enough, List.drop_drop, Nat.add_assoc, ← Nat.add_mul, ← Nat.add_mul]
    exact ih
  | case2 row done =>
    rw [Nat.sub_eq_zero_of_le (by omega), columns, List.range_zero, List.flatMap_nil]
    exact .nil

/-- The chunks of a prepared upload carry what the destination is meant to hold. -/
theorem Prepared.delivers {stream : StreamState} {upload : Upload} {addresses : Set Nat}
    (prepared : Prepared stream upload addresses)
    (pool : FillPool) : Delivers (upload.chunks pool) upload.dstAt upload.intended := by
  cases prepared with
  | contiguous => exact uploadAt_delivers pool _ _
  | slices => exact uploadSlicesFrom_delivers pool _ _ (.atSlice _ 0) 0
  | cols prepared =>
    obtain ⟨inside, rows, -, -⟩ := prepareCols_plan prepared
    have delivered := uploadColsFrom_delivers pool _ _ inside rows.le 0
    rwa [Nat.zero_mul, Nat.zero_mul] at delivered

end PegaInfer.WeightLoader
