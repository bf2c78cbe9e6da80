import Mathlib

namespace PegaInfer.KvStore

/-- One strided GPU arena, registered as one layer of a rank. -/
structure ArenaSpec where
  name : String
  baseDevicePtr : UInt64
  sizeBytes : UInt64
  numBlocks : UInt64
  segmentBytes : UInt64
  segments : UInt64
  kvStrideBytes : UInt64
  blockStrideBytes : UInt64
  deriving DecidableEq

/-- `EngineError::InvalidArgument`. -/
inductive EngineError
  | invalidArgument (message : String)
  deriving DecidableEq

namespace ArenaSpec

variable (arena : ArenaSpec)

/-- One block's strided extent, in the machine's arithmetic. -/
def extent : UInt64 := (arena.segments - 1) * arena.kvStrideBytes + arena.segmentBytes

def lastBlockReach : UInt64 := (arena.numBlocks - 1) * arena.blockStrideBytes + arena.extent

/-- The checks of one arena against the names before it. -/
def validate (numBlocks : UInt64) (names : List String) : Except EngineError Unit :=
  if arena.name ∈ names then
    .error (.invalidArgument s!"duplicate arena name {arena.name.quote} in one rank's registration")
  else if arena.numBlocks ≠ numBlocks then
    .error (.invalidArgument
      (s!"arena {arena.name.quote} has num_blocks={arena.numBlocks} but the rank's first arena " ++
        s!"has {numBlocks}: all arenas are indexed by the same pool block ids"))
  else if arena.numBlocks = 0 ∨ arena.segmentBytes = 0 ∨ arena.segments = 0 then
    .error (.invalidArgument
      s!"arena {arena.name.quote}: num_blocks, segment_bytes and segments must all be non-zero")
  else if arena.segments = 2 ∧ arena.kvStrideBytes < arena.segmentBytes then
    .error (.invalidArgument
      (s!"arena {arena.name.quote}: two-segment (K/V-split) layout needs kv_stride_bytes " ++
        s!"({arena.kvStrideBytes}) >= segment_bytes ({arena.segmentBytes}) — V copies start " ++
        "kv_stride_bytes into the block"))
  else if arena.blockStrideBytes < arena.extent then
    .error (.invalidArgument
      (s!"arena {arena.name.quote}: block_stride_bytes ({arena.blockStrideBytes}) must fit one " ++
        s!"block's extent ({arena.extent})"))
  else if arena.sizeBytes < arena.lastBlockReach then
    .error (.invalidArgument
      (s!"arena {arena.name.quote}: size_bytes ({arena.sizeBytes}) does not cover the last " ++
        s!"block's strided reach ({arena.lastBlockReach})"))
  else .ok ()

end ArenaSpec

/-- The loop of `validate_arenas`, from the names it has seen. -/
def validateFrom (numBlocks : UInt64) : List String → List ArenaSpec → Except EngineError Unit
  | _, [] => .ok ()
  | names, arena :: arenas =>
    match arena.validate numBlocks names with
    | .error error => .error error
    | .ok () => validateFrom numBlocks (arena.name :: names) arenas

/-- `validate_arenas`. -/
def validateArenas : List ArenaSpec → Except EngineError Unit
  | [] => .error (.invalidArgument "rank_with_offload requires at least one arena")
  | arena :: arenas => validateFrom arena.numBlocks [] (arena :: arenas)

namespace ArenaSpec

variable (arena : ArenaSpec)

/-- Where a segment of a block starts, over unbounded integers. -/
def segmentStart (block segment : Nat) : Nat :=
  block * arena.blockStrideBytes.toNat + segment * arena.kvStrideBytes.toNat

/-- The bytes a transfer of one block's segment touches. -/
def segmentRange (block segment : Nat) : Set Nat :=
  Set.Ico (arena.segmentStart block segment) (arena.segmentStart block segment + arena.segmentBytes.toNat)

/-- No transfer meets another block, another segment, or memory outside the arena. -/
structure WellFormed : Prop where
  disjoint : ∀ block segment block' segment', block < arena.numBlocks.toNat → segment < arena.segments.toNat →
    block' < arena.numBlocks.toNat → segment' < arena.segments.toNat → (block, segment) ≠ (block', segment') →
      Disjoint (arena.segmentRange block segment) (arena.segmentRange block' segment')
  inside : ∀ block segment, block < arena.numBlocks.toNat → segment < arena.segments.toNat →
    arena.segmentRange block segment ⊆ Set.Ico 0 arena.sizeBytes.toNat

/-- The reach of the last block over unbounded integers. -/
def reach : Nat :=
  (arena.numBlocks.toNat - 1) * arena.blockStrideBytes.toNat +
    ((arena.segments.toNat - 1) * arena.kvStrideBytes.toNat + arena.segmentBytes.toNat)

/-- The segments of a block do not overlap and its reach is a 64-bit number. -/
structure Sized : Prop where
  apart : arena.segments = 1 ∨ arena.segmentBytes ≤ arena.kvStrideBytes
  reach : arena.reach < 2 ^ 64

/-- What an accepted arena has passed. -/
structure Accepted : Prop where
  numBlocks : 0 < arena.numBlocks.toNat
  segmentBytes : 0 < arena.segmentBytes.toNat
  segments : 0 < arena.segments.toNat
  extent : arena.extent.toNat ≤ arena.blockStrideBytes.toNat
  reach : arena.lastBlockReach.toNat ≤ arena.sizeBytes.toNat

variable {arena}

theorem accepted_of_validate {numBlocks : UInt64} {names : List String}
    (passed : arena.validate numBlocks names = .ok ()) :
    arena.Accepted := by
  unfold validate at passed
  split at passed
  · cases passed
  split at passed
  · cases passed
  split at passed
  · cases passed
  rename_i nonzero
  split at passed
  · cases passed
  split at passed
  · cases passed
  rename_i fits
  split at passed
  · cases passed
  rename_i covers
  push Not at nonzero
  have positive : ∀ {n : UInt64}, n ≠ 0 → 0 < n.toNat := fun {n} nonzero =>
    Nat.pos_of_ne_zero fun zero => nonzero (UInt64.toNat_inj.mp zero)
  exact ⟨positive nonzero.1, positive nonzero.2.1, positive nonzero.2.2,
    UInt64.le_iff_toNat_le.mp (UInt64.not_lt.mp fits), UInt64.le_iff_toNat_le.mp (UInt64.not_lt.mp covers)⟩

theorem toNat_pred {n : UInt64} (positive : 0 < n.toNat) : (n - 1).toNat = n.toNat - 1 := by
  rw [UInt64.toNat_sub_of_le]
  · rfl
  · exact UInt64.le_iff_toNat_le.mpr positive

/-- Without a wrap the machine computes the extent and the reach. -/
theorem Accepted.unwrapped (accepted : arena.Accepted) (small : arena.reach < 2 ^ 64) :
    arena.extent.toNat = (arena.segments.toNat - 1) * arena.kvStrideBytes.toNat + arena.segmentBytes.toNat ∧
      arena.lastBlockReach.toNat = arena.reach := by
  unfold ArenaSpec.reach at small
  have extent : arena.extent.toNat = (arena.segments.toNat - 1) * arena.kvStrideBytes.toNat +
      arena.segmentBytes.toNat := by
    unfold ArenaSpec.extent
    rw [UInt64.toNat_add, UInt64.toNat_mul, toNat_pred accepted.segments, Nat.mod_add_mod,
      Nat.mod_eq_of_lt (by omega)]
  refine ⟨extent, ?_⟩
  unfold lastBlockReach ArenaSpec.reach
  rw [UInt64.toNat_add, UInt64.toNat_mul, toNat_pred accepted.numBlocks, extent, Nat.mod_add_mod,
    Nat.mod_eq_of_lt small]

/-- A segment ends within its block's extent. -/
theorem segmentStart_le {block segment : Nat} (inside : segment < arena.segments.toNat) :
    arena.segmentStart block segment + arena.segmentBytes.toNat ≤ block * arena.blockStrideBytes.toNat +
      ((arena.segments.toNat - 1) * arena.kvStrideBytes.toNat + arena.segmentBytes.toNat) := by
  have bound : segment ≤ arena.segments.toNat - 1 := by omega
  have product := Nat.mul_le_mul_right arena.kvStrideBytes.toNat bound
  unfold segmentStart
  omega

/-- The segment that is first in the arena ends before the other starts. -/
theorem Accepted.segments_apart (accepted : arena.Accepted) (sized : arena.Sized)
    {block segment block' segment' : Nat}
    (inside : segment < arena.segments.toNat) (inside' : segment' < arena.segments.toNat)
    (before : block < block' ∨ block = block' ∧ segment < segment') :
    arena.segmentStart block segment + arena.segmentBytes.toNat ≤ arena.segmentStart block' segment' := by
  rcases before with lower | ⟨rfl, lower⟩
  · have ends := @segmentStart_le arena block segment inside
    have extent := accepted.extent
    rw [(accepted.unwrapped sized.reach).1] at extent
    have blocks := Nat.mul_le_mul_right arena.blockStrideBytes.toNat (show block + 1 ≤ block' from lower)
    rw [Nat.succ_mul] at blocks
    have starts : block' * arena.blockStrideBytes.toNat ≤ arena.segmentStart block' segment' :=
      Nat.le_add_right _ _
    omega
  · have stride : arena.segmentBytes.toNat ≤ arena.kvStrideBytes.toNat := by
      rcases sized.apart with single | stride
      · rw [single] at inside'
        have one : (1 : UInt64).toNat = 1 := rfl
        omega
      · exact UInt64.le_iff_toNat_le.mp stride
    have segments := Nat.mul_le_mul_right arena.kvStrideBytes.toNat (show segment + 1 ≤ segment' from lower)
    rw [Nat.succ_mul] at segments
    unfold segmentStart
    omega

theorem Accepted.wellFormed (accepted : arena.Accepted) (sized : arena.Sized) : arena.WellFormed := by
  constructor
  · intro block segment block' segment' _ inside _ inside' distinct
    have order : (block < block' ∨ block = block' ∧ segment < segment') ∨
        (block' < block ∨ block' = block ∧ segment' < segment) := by
      by_contra neither
      apply distinct
      rw [Prod.mk.injEq]
      omega
    rw [Set.disjoint_left]
    rintro byte ⟨low, high⟩ ⟨low', high'⟩
    rcases order with before | before
    · have ends := accepted.segments_apart sized inside inside' before
      omega
    · have ends := accepted.segments_apart sized inside' inside before
      omega
  · rintro block segment inBlocks inside byte ⟨-, high⟩
    refine ⟨Nat.zero_le _, ?_⟩
    have ends := @segmentStart_le arena block segment inside
    have blocks := Nat.mul_le_mul_right arena.blockStrideBytes.toNat
      (show block ≤ arena.numBlocks.toNat - 1 by omega)
    have reach := accepted.reach
    rw [(accepted.unwrapped sized.reach).2] at reach
    unfold ArenaSpec.reach at reach
    omega

theorem Accepted.sized (accepted : arena.Accepted) (wellFormed : arena.WellFormed) : arena.Sized := by
  have blocks := accepted.numBlocks
  have segments := accepted.segments
  have bytes := accepted.segmentBytes
  constructor
  · by_contra neither
    obtain ⟨several, overlap⟩ := not_or.mp neither
    have two : 1 < arena.segments.toNat := by
      have one : arena.segments.toNat ≠ 1 := fun one => several (UInt64.toNat_inj.mp one)
      omega
    have stride := UInt64.lt_iff_toNat_lt.mp (UInt64.not_le.mp overlap)
    have apart := wellFormed.disjoint 0 0 0 1 blocks segments blocks two (by simp)
    have first : arena.kvStrideBytes.toNat ∈ arena.segmentRange 0 0 := by
      simp only [segmentRange, segmentStart, Set.mem_Ico]
      omega
    have second : arena.kvStrideBytes.toNat ∈ arena.segmentRange 0 1 := by
      simp only [segmentRange, segmentStart, Set.mem_Ico]
      omega
    exact Set.disjoint_left.mp apart first second
  · have last := wellFormed.inside (arena.numBlocks.toNat - 1) (arena.segments.toNat - 1)
      (by omega) (by omega)
    have member : arena.reach - 1 ∈ arena.segmentRange (arena.numBlocks.toNat - 1)
        (arena.segments.toNat - 1) := by
      simp only [segmentRange, segmentStart, ArenaSpec.reach, Set.mem_Ico]
      omega
    have below := (last member).2
    have machine := arena.sizeBytes.toNat_lt
    omega

end ArenaSpec

theorem accepted_of_validateFrom {numBlocks : UInt64} {names : List String} {arenas : List ArenaSpec}
    (passed : validateFrom numBlocks names arenas = .ok ()) : ∀ arena ∈ arenas, arena.Accepted := by
  induction arenas generalizing names with
  | nil => simp
  | cons first arenas ih =>
    unfold validateFrom at passed
    split at passed
    · cases passed
    · rename_i here
      intro arena member
      rcases List.mem_cons.mp member with rfl | member
      · exact ArenaSpec.accepted_of_validate here
      · exact ih passed arena member

theorem accepted_of_validateArenas {arenas : List ArenaSpec} (passed : validateArenas arenas = .ok ()) :
    ∀ arena ∈ arenas, arena.Accepted := by
  cases arenas with
  | nil => simp
  | cons first arenas => exact accepted_of_validateFrom passed

/-- Accepted arenas are well formed exactly when no block's segments overlap and no reach wraps. -/
theorem accepted_arenas_well_formed_iff {arenas : List ArenaSpec} (passed : validateArenas arenas = .ok ()) :
    (∀ arena ∈ arenas, arena.WellFormed) ↔ ∀ arena ∈ arenas, arena.Sized := by
  have accepted := accepted_of_validateArenas passed
  constructor
  · exact fun wellFormed arena member => (accepted arena member).sized (wellFormed arena member)
  · exact fun sized arena member => (accepted arena member).wellFormed (sized arena member)

/-- A two-segment arena of four blocks. -/
theorem accepted_arenas_well_formed_iff_split :
    (∀ arena ∈ [(⟨"layer0", 0, 64, 4, 8, 2, 8, 16⟩ : ArenaSpec)], arena.WellFormed) ↔
      ∀ arena ∈ [(⟨"layer0", 0, 64, 4, 8, 2, 8, 16⟩ : ArenaSpec)], arena.Sized :=
  accepted_arenas_well_formed_iff (by decide +kernel)

/-- Three blocks 2^63 bytes apart in an arena of one byte. -/
theorem accepted_arena_wraps :
    ¬ ∀ arenas, validateArenas arenas = .ok () → ∀ arena ∈ arenas, arena.WellFormed := by
  intro wellFormed
  have inside := (wellFormed [⟨"layer0", 0, 1, 3, 1, 1, 0, 9223372036854775808⟩]
    (by decide +kernel) _ (List.mem_singleton.mpr rfl)).inside 1 0
    (by decide) (by decide)
  have member : 9223372036854775808 ∈
      (⟨"layer0", 0, 1, 3, 1, 1, 0, 9223372036854775808⟩ : ArenaSpec).segmentRange 1 0 := by
    simp only [ArenaSpec.segmentRange, ArenaSpec.segmentStart, Set.mem_Ico]
    decide
  exact absurd (inside member).2 (by decide)

end PegaInfer.KvStore
