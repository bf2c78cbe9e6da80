import PegaInfer.WeightLoader.Upload

namespace PegaInfer.WeightLoader

/-- A device allocation of `len` elements of `elemSize` bytes. -/
structure CudaSlice (elemSize : Nat) where
  ptr : Nat
  len : Nat
  stream : Nat

/-- The addresses of the allocation. -/
def CudaSlice.addresses {elemSize : Nat} (dst : CudaSlice elemSize) : Set Nat :=
  Set.Ico dst.ptr (dst.ptr + dst.len * elemSize)

def checkedAdd (a b : Nat) : Option Nat := if a + b < 2 ^ 64 then some (a + b) else none

def checkedMul (a b : Nat) : Option Nat := if a * b < 2 ^ 64 then some (a * b) else none

/-- The stream of a stager, and whether the thread has overridden its stream. -/
structure StreamState where
  stream : Nat
  overridden : Bool

variable (stream : StreamState)

def ensureUploadable {elemSize : Nat} (dst : CudaSlice elemSize) : Except String Unit :=
  if dst.stream ≠ stream.stream
    then .error "staged upload into a buffer allocated on a different stream than the stager's"
  else if stream.overridden then .error "staged upload under a thread-local stream override is unsupported"
  else .ok ()

/-- `prepare_bytes`. -/
def prepareBytes (srcs : List Bytes) (dst : CudaSlice 1) : Except String Nat :=
  match ensureUploadable stream dst with
  | .error error => .error error
  | .ok () =>
    match srcs.foldlM (fun total src => checkedAdd total src.length) 0 with
    | none => .error "staged byte upload source length overflow"
    | some bytes =>
      if bytes ≠ dst.len
        then .error s!"staged byte upload size mismatch: {bytes} source bytes vs dst len {dst.len}"
      else .ok dst.ptr

/-- `prepare`. -/
def prepare (src : Bytes) (dst : CudaSlice bf16Size) (dstOffset : Nat) : Except String Nat :=
  match ensureUploadable stream dst with
  | .error error => .error error
  | .ok () =>
    if src.length % bf16Size ≠ 0 then
      .error s!"staged upload source of {src.length} bytes is not a whole number of bf16 elements"
    else
      match (checkedMul dstOffset bf16Size).bind fun off => checkedAdd off src.length with
      | some end_ =>
        if end_ ≤ dst.len * bf16Size then .ok (dst.ptr + dstOffset * bf16Size)
        else .error (s!"staged upload out of bounds: dst_offset {dstOffset} + src bytes " ++
          s!"{src.length} > dst len {dst.len}")
      | none =>
        .error (s!"staged upload out of bounds: dst_offset {dstOffset} + src bytes {src.length} " ++
          s!"> dst len {dst.len}")

/-- `prepare_cols`. -/
def prepareCols (src : Bytes) (totalCols colOffset take : Nat) (dst : CudaSlice bf16Size) :
    Except String ColShardPlan :=
  match ensureUploadable stream dst with
  | .error error => .error error
  | .ok () =>
    match (checkedMul totalCols bf16Size).filter fun s => 0 < s ∧ src.length % s = 0 with
    | none =>
      .error s!"strided upload source of {src.length} bytes is not a multiple of {totalCols} bf16 columns"
    | some strideB =>
      if ¬ (checkedAdd colOffset take).any (· ≤ totalCols) then
        .error s!"col range out of bounds: col_offset={colOffset} take={take} total_cols={totalCols}"
      else
        let takeB := take * bf16Size
        if wide : 1 ≤ takeB ∧ takeB ≤ stageBytes then
          let rows := src.length / strideB
          if checkedMul rows take ≠ some dst.len then
            .error s!"staged upload shape mismatch: {rows} rows x {take} cols vs dst len {dst.len}"
          else .ok { strideB, offB := colOffset * bf16Size, takeB, rows, dstAt := dst.ptr, wide }
        else .error s!"column shard width {take} outside 1..={stageBytes / bf16Size}"

/-- A recorded upload. -/
inductive Upload
  | contiguous (src : Bytes) (dstAt : Nat)
  | slices (srcs : List Bytes) (dstAt : Nat)
  | cols (src : Bytes) (plan : ColShardPlan)

/-- The upload's destination passed its check, inside one allocation. -/
inductive Prepared : Upload → Set Nat → Prop
  | contiguous {src dst dstOffset dstAt} : prepare stream src dst dstOffset = .ok dstAt →
      Prepared (.contiguous src dstAt) dst.addresses
  | slices {srcs dst dstAt} : prepareBytes stream srcs dst = .ok dstAt →
      Prepared (.slices srcs dstAt) dst.addresses
  | cols {src totalCols colOffset take dst plan} :
      prepareCols stream src totalCols colOffset take dst = .ok plan →
      Prepared (.cols src plan) dst.addresses

namespace Upload

/-- The calls of `stage_chunk` an upload makes. -/
def chunks (pool : FillPool) : Upload → List Chunk
  | contiguous src dstAt => uploadAt pool src dstAt
  | slices srcs dstAt => uploadSlicesAt pool srcs dstAt
  | cols src plan => uploadColsAt pool src plan

def dstAt : Upload → Nat
  | contiguous _ dstAt => dstAt
  | slices _ dstAt => dstAt
  | cols _ plan => plan.dstAt

/-- The bytes the destination is meant to hold. -/
def intended : Upload → Bytes
  | contiguous src _ => src
  | slices srcs _ => srcs.flatten
  | cols src plan => columns src plan.strideB plan.offB plan.takeB plan.rows

def destination (upload : Upload) : Set Nat := Set.Ico upload.dstAt (upload.dstAt + upload.intended.length)

end Upload

variable {stream}

theorem prepareCols_plan {src : Bytes} {totalCols colOffset take : Nat} {dst : CudaSlice bf16Size}
    {plan : ColShardPlan}
    (prepared : prepareCols stream src totalCols colOffset take dst = .ok plan) :
    plan.offB + plan.takeB ≤ plan.strideB ∧ plan.rows * plan.strideB = src.length ∧
      plan.rows * plan.takeB = dst.len * bf16Size ∧
      plan.dstAt = dst.ptr := by
  unfold prepareCols at prepared
  split at prepared
  · contradiction
  · split at prepared
    · contradiction
    · next strideB found =>
      obtain ⟨product, exact_⟩ := Option.filter_eq_some_iff.mp found
      rw [decide_eq_true_eq] at exact_
      rw [checkedMul, Option.ite_none_right_eq_some, Option.some.injEq] at product
      split at prepared
      · contradiction
      · next within =>
        rw [Decidable.not_not, Option.any_eq_true] at within
        obtain ⟨end_, sum, bound⟩ := within
        rw [checkedAdd, Option.ite_none_right_eq_some, Option.some.injEq] at sum
        rw [decide_eq_true_eq] at bound
        dsimp only at prepared
        split at prepared
        · split at prepared
          · contradiction
          · next shape =>
            rw [Decidable.not_not, checkedMul, Option.ite_none_right_eq_some, Option.some.injEq] at shape
            cases prepared
            refine ⟨?_, Nat.div_mul_cancel (Nat.dvd_of_mod_eq_zero exact_.2), ?_, rfl⟩
            · dsimp only [bf16Size] at product ⊢
              omega
            · rw [← Nat.mul_assoc, shape.2]
        · contradiction

theorem prepare_inside {src : Bytes} {dst : CudaSlice bf16Size} {dstOffset dstAt : Nat}
    (prepared : prepare stream src dst dstOffset = .ok dstAt) :
    dst.ptr ≤ dstAt ∧ dstAt + src.length ≤ dst.ptr + dst.len * bf16Size := by
  unfold prepare at prepared
  split at prepared
  · contradiction
  · split at prepared
    · contradiction
    · split at prepared
      · next end_ found =>
        obtain ⟨off, product, sum⟩ := Option.bind_eq_some_iff.mp found
        rw [checkedMul, Option.ite_none_right_eq_some, Option.some.injEq] at product
        rw [checkedAdd, Option.ite_none_right_eq_some, Option.some.injEq] at sum
        split at prepared
        · cases prepared
          omega
        · contradiction
      · contradiction

theorem foldlM_checkedAdd {srcs : List Bytes} {start total : Nat}
    (summed : srcs.foldlM (fun total src => checkedAdd total src.length) start = some total) :
    total = start + srcs.flatten.length := by
  induction srcs generalizing start with
  | nil => cases summed; rfl
  | cons src srcs ih =>
    rw [List.foldlM_cons] at summed
    obtain ⟨mid, first, rest⟩ := Option.bind_eq_some_iff.mp summed
    rw [checkedAdd, Option.ite_none_right_eq_some, Option.some.injEq] at first
    rw [ih rest, List.flatten_cons, List.length_append]
    omega

theorem prepareBytes_exact {srcs : List Bytes} {dst : CudaSlice 1} {dstAt : Nat}
    (prepared : prepareBytes stream srcs dst = .ok dstAt) :
    dstAt = dst.ptr ∧ srcs.flatten.length = dst.len := by
  unfold prepareBytes at prepared
  split at prepared
  · contradiction
  · split at prepared
    · contradiction
    · next bytes summed =>
      split at prepared
      · contradiction
      · next same =>
        cases prepared
        have total := foldlM_checkedAdd summed
        omega

/-- A prepared destination lies inside its allocation. -/
theorem Prepared.inside {upload : Upload} {addresses : Set Nat}
    (prepared : Prepared stream upload addresses) :
    upload.destination ⊆ addresses := by
  cases prepared with
  | contiguous prepared =>
    have bounds := prepare_inside prepared
    exact Set.Ico_subset_Ico bounds.1 bounds.2
  | slices prepared =>
    obtain ⟨rfl, length⟩ := prepareBytes_exact prepared
    refine Set.Ico_subset_Ico le_rfl (Nat.add_le_add_left ?_ _)
    rw [Nat.mul_one, ← length]
    exact le_rfl
  | cols prepared =>
    obtain ⟨within, rows, filled, start⟩ := prepareCols_plan prepared
    refine Set.Ico_subset_Ico start.ge (Nat.add_le_add start.le ?_)
    rw [← filled]
    exact (length_columns within rows.le).le

end PegaInfer.WeightLoader
