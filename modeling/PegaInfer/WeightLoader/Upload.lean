import PegaInfer.WeightLoader.Fill

namespace PegaInfer.WeightLoader

open Slices

/-- `BF16_SIZE`. -/
abbrev bf16Size : Nat := 2

/-- One call of `stage_chunk`: its fill is a list of scopes, each joined before the next. -/
structure Chunk where
  bytes : Nat
  dstAt : Nat
  fill : List (List Task)

/-- `upload_at`. -/
def uploadAt (pool : FillPool) (src : Bytes) (dstAt : Nat) : List Chunk :=
  (chunks stageBytes src).zipIdx.map fun (chunk, i) =>
    { bytes := chunk.length, dstAt := dstAt + i * stageBytes, fill := [pool.copy chunk 0] }

/-- Where `next_contiguous_chunk` reads on: no further than the end of the slice it is in. -/
structure Cursor (srcs : List Bytes) where
  source : Nat
  sourceAt : Nat
  inside : ∀ src, srcs[source]? = some src → sourceAt = 0 ∨ sourceAt < src.length

namespace Cursor

variable {srcs : List Bytes}

def atSlice (srcs : List Bytes) (source : Nat) : Cursor srcs := ⟨source, 0, fun _ _ => .inl rfl⟩

/-- The bytes not read yet. -/
def rest (cursor : Cursor srcs) : Bytes := (srcs.drop cursor.source).flatten.drop cursor.sourceAt

def left (cursor : Cursor srcs) : Nat := cursor.rest.length + (srcs.length - cursor.source)

theorem rest_of_getElem? {cursor : Cursor srcs} {src : Bytes} (found : srcs[cursor.source]? = some src) :
    cursor.rest = src.drop cursor.sourceAt ++ (srcs.drop (cursor.source + 1)).flatten := by
  obtain ⟨lt, rfl⟩ := List.getElem?_eq_some_iff.mp found
  rw [rest, List.drop_eq_getElem_cons lt, List.flatten_cons, List.drop_append]
  rcases cursor.inside _ found with zero | within
  · rw [zero, Nat.zero_sub, List.drop_zero, List.drop_zero]
  · rw [Nat.sub_eq_zero_of_le within.le, List.drop_zero]

theorem sourceAt_le {cursor : Cursor srcs} {src : Bytes} (found : srcs[cursor.source]? = some src) :
    cursor.sourceAt ≤ src.length := by
  rcases cursor.inside src found with zero | within <;> omega

/-- `take` bytes on, in the same slice. -/
def advance (cursor : Cursor srcs) {src : Bytes} (found : srcs[cursor.source]? = some src) (take : Nat)
    (short : cursor.sourceAt + take < src.length) : Cursor srcs where
  source := cursor.source
  sourceAt := cursor.sourceAt + take
  inside := by
    intro other same
    obtain rfl := Option.some.inj (found.symm.trans same)
    exact .inr short

theorem rest_advance {cursor : Cursor srcs} {src : Bytes}
    (found : srcs[cursor.source]? = some src) {take : Nat}
    (short : cursor.sourceAt + take < src.length) :
    cursor.rest = (src.drop cursor.sourceAt).take take ++ (cursor.advance found take short).rest := by
  have here : (cursor.advance found take short).rest =
      src.drop (cursor.sourceAt + take) ++ (srcs.drop (cursor.source + 1)).flatten :=
    @rest_of_getElem? _ (cursor.advance found take short) _ found
  have cut := List.take_append_drop take (src.drop cursor.sourceAt)
  rw [List.drop_drop] at cut
  rw [rest_of_getElem? found, here, ← List.append_assoc, cut]

theorem rest_nextSlice {cursor : Cursor srcs} {src : Bytes} (found : srcs[cursor.source]? = some src) :
    cursor.rest = src.drop cursor.sourceAt ++ (atSlice srcs (cursor.source + 1)).rest :=
      rest_of_getElem? found

theorem left_nextSlice {cursor : Cursor srcs} {src : Bytes} (found : srcs[cursor.source]? = some src) :
    (atSlice srcs (cursor.source + 1)).left < cursor.left := by
  have lt := (List.getElem?_eq_some_iff.mp found).1
  have source : (atSlice srcs (cursor.source + 1)).source = cursor.source + 1 := rfl
  rw [left, left, rest_nextSlice found, List.length_append, source]
  omega

theorem left_advance {cursor : Cursor srcs} {src : Bytes}
    (found : srcs[cursor.source]? = some src) {take : Nat}
    (short : cursor.sourceAt + take < src.length) (positive : 0 < take) :
    (cursor.advance found take short).left < cursor.left := by
  have source : (cursor.advance found take short).source = cursor.source := rfl
  rw [left, left, rest_advance found short, List.length_append, List.length_take, List.length_drop, source]
  omega

theorem rest_eq_nil {cursor : Cursor srcs} (finished : srcs.length ≤ cursor.source) : cursor.rest = [] := by
  rw [rest, List.drop_eq_nil_of_le finished, List.flatten_nil, List.drop_nil]

end Cursor

structure NextChunk (srcs : List Bytes) where
  cursor : Cursor srcs
  bytes : Nat
  parts : List Bytes

/-- The loop of `next_contiguous_chunk`. -/
def nextContiguousFrom (srcs : List Bytes) (limit : Nat) (cursor : Cursor srcs) (bytes : Nat)
    (parts : List Bytes) : NextChunk srcs :=
  match found : srcs[cursor.source]? with
  | none => ⟨cursor, bytes, parts⟩
  | some src =>
    if room : bytes < limit then
      if src = [] then nextContiguousFrom srcs limit (.atSlice srcs (cursor.source + 1)) bytes parts
      else
        let take := min (limit - bytes) (src.length - cursor.sourceAt)
        let part := (src.drop cursor.sourceAt).take take
        if full : cursor.sourceAt + take = src.length then
          nextContiguousFrom srcs limit (.atSlice srcs (cursor.source + 1)) (bytes + take) (parts ++ [part])
        else
          have short : cursor.sourceAt + take < src.length := by
            have := cursor.sourceAt_le found
            omega
          nextContiguousFrom srcs limit (cursor.advance found take short) (bytes + take) (parts ++ [part])
    else ⟨cursor, bytes, parts⟩
termination_by cursor.left
decreasing_by
  · exact Cursor.left_nextSlice found
  · exact Cursor.left_nextSlice found
  · exact Cursor.left_advance found short (by omega)

/-- `next_contiguous_chunk`. -/
def nextContiguousChunk (srcs : List Bytes) (cursor : Cursor srcs) (limit : Nat) : NextChunk srcs :=
  nextContiguousFrom srcs limit cursor 0 []

/-- What a run of the loop has read: the bytes from one cursor to the next. -/
structure Read {srcs : List Bytes} (start : Cursor srcs) (bytes : Nat) (parts : List Bytes)
    (limit : Nat) (next : NextChunk srcs) : Prop where
  joined : next.parts.flatten ++ next.cursor.rest = parts.flatten ++ start.rest
  counted : next.bytes = next.parts.flatten.length
  bounded : next.bytes ≤ limit
  onward : next.cursor.left ≤ start.left
  progress : start.source < srcs.length → bytes < limit → next.cursor.left < start.left

theorem Read.from_earlier {srcs : List Bytes} {start mid : Cursor srcs} {bytes bytes' limit : Nat}
    {parts parts' : List Bytes}
    {next : NextChunk srcs} (read : Read mid bytes' parts' limit next)
    (same : parts'.flatten ++ mid.rest = parts.flatten ++ start.rest)
    (less : mid.left < start.left) : Read start bytes parts limit next where
  joined := read.joined.trans same
  counted := read.counted
  bounded := read.bounded
  onward := read.onward.trans less.le
  progress := fun _ _ => read.onward.trans_lt less

theorem nextContiguousFrom_read (srcs : List Bytes) (limit : Nat) (cursor : Cursor srcs)
    (bytes : Nat) (parts : List Bytes)
    (counted : bytes = parts.flatten.length) (bounded : bytes ≤ limit) :
    Read cursor bytes parts limit (nextContiguousFrom srcs limit cursor bytes parts) := by
  fun_induction nextContiguousFrom srcs limit cursor bytes parts with
  | case1 cursor bytes parts absent =>
    have beyond := List.getElem?_eq_none_iff.mp absent
    exact ⟨rfl, counted, bounded, le_rfl, fun more => by omega⟩
  | case2 cursor bytes parts room found ih =>
    refine (ih counted bounded).from_earlier ?_ (Cursor.left_nextSlice found)
    rw [Cursor.rest_nextSlice found, List.drop_nil, List.nil_append]
  | case3 cursor bytes parts src found room nonempty take part full ih =>
    have whole : part = src.drop cursor.sourceAt := List.take_of_length_le (by rw [List.length_drop]; omega)
    have size : part.length = take := by rw [whole, List.length_drop]; omega
    refine (ih ?_ (by omega)).from_earlier ?_ (Cursor.left_nextSlice found)
    · rw [List.flatten_append, List.length_append, List.flatten_singleton, size, counted]
    · rw [Cursor.rest_nextSlice found, List.flatten_append, List.flatten_singleton, whole, List.append_assoc]
  | case4 cursor bytes parts src found room nonempty take part full short ih =>
    have size : part.length = take := by rw [List.length_take, List.length_drop]; omega
    have positive : 0 < take := by omega
    refine (ih ?_ (by omega)).from_earlier ?_ (Cursor.left_advance found short positive)
    · rw [List.flatten_append, List.length_append, List.flatten_singleton, size, counted]
    · rw [Cursor.rest_advance found short, List.flatten_append, List.flatten_singleton, List.append_assoc]
  | case5 cursor bytes parts src found room =>
    exact ⟨rfl, counted, bounded, le_rfl, fun _ more => absurd more room⟩

theorem nextContiguousChunk_read (srcs : List Bytes) (cursor : Cursor srcs) (limit : Nat) :
    Read cursor 0 [] limit (nextContiguousChunk srcs cursor limit) :=
  nextContiguousFrom_read srcs limit cursor 0 [] rfl (Nat.zero_le _)

/-- The fill of `upload_slices_at`: one copy after the other. -/
def copyParts (pool : FillPool) : List Bytes → Nat → List (List Task)
  | [], _ => []
  | part :: parts, at_ => pool.copy part at_ :: copyParts pool parts (at_ + part.length)

/-- The loop of `upload_slices_at`. -/
def uploadSlicesFrom (pool : FillPool) (srcs : List Bytes) (dstAt : Nat) (cursor : Cursor srcs)
    (dstOffset : Nat) : List Chunk :=
  if more : cursor.source < srcs.length then
    let next := nextContiguousChunk srcs cursor stageBytes
    have _less := (nextContiguousChunk_read srcs cursor stageBytes).progress more stageBytes_pos
    { bytes := next.bytes, dstAt := dstAt + dstOffset, fill := copyParts pool next.parts 0 } ::
      uploadSlicesFrom pool srcs dstAt next.cursor (dstOffset + next.bytes)
  else []
termination_by cursor.left
decreasing_by exact _less

/-- `upload_slices_at`. -/
def uploadSlicesAt (pool : FillPool) (srcs : List Bytes) (dstAt : Nat) : List Chunk :=
  uploadSlicesFrom pool srcs dstAt (.atSlice srcs 0) 0

/-- A validated plan: its rows are no wider than a staging buffer. -/
structure ColShardPlan where
  strideB : Nat
  offB : Nat
  takeB : Nat
  rows : Nat
  dstAt : Nat
  wide : 1 ≤ takeB ∧ takeB ≤ stageBytes

/-- The loop of `upload_cols_at`. -/
def uploadColsFrom (pool : FillPool) (src : Bytes) (plan : ColShardPlan) (row : Nat) : List Chunk :=
  if row < plan.rows then
    let chunkRows := min (stageBytes / plan.takeB) (plan.rows - row)
    { bytes := chunkRows * plan.takeB
      dstAt := plan.dstAt + row * plan.takeB
      fill := [pool.gatherCols (src.drop (row * plan.strideB)) plan.strideB plan.offB plan.takeB
        chunkRows (chunkRows * plan.takeB)] } ::
      uploadColsFrom pool src plan (row + chunkRows)
  else []
termination_by plan.rows - row
decreasing_by
  have rowsPerChunk := Nat.div_pos plan.wide.2 plan.wide.1
  omega

/-- `upload_cols_at`. -/
def uploadColsAt (pool : FillPool) (src : Bytes) (plan : ColShardPlan) : List Chunk :=
  uploadColsFrom pool src plan 0

end PegaInfer.WeightLoader
