import Mathlib

namespace PegaInfer.Kvbm

open Function

/-- The sketch's table of words, sixteen counters of four bits a word, and the increments since
the last decay. -/
structure TinyLFUSketch where
  table : List UInt64
  size : UInt32

namespace TinyLFUSketch

def resetMask : UInt64 := 0x7777_7777_7777_7777

def oneMask : UInt64 := 0x1111_1111_1111_1111

def new (capacity : Nat) : TinyLFUSketch := ⟨List.replicate (max 1 (capacity / 4)) 0, 0⟩

def word (sketch : TinyLFUSketch) (tableIndex : Nat) : UInt64 := sketch.table.getD tableIndex 0

/-- A counter that is full stays. -/
def incrementAt (sketch : TinyLFUSketch) (tableIndex counterIndex : Nat) : TinyLFUSketch × Bool :=
  let offset := UInt64.ofNat (counterIndex * 4)
  let mask : UInt64 := 0xF <<< offset
  if sketch.word tableIndex &&& mask ≠ mask then
    ({ sketch with table := sketch.table.set tableIndex (sketch.word tableIndex + 1 <<< offset) }, true)
  else (sketch, false)

def countAt (sketch : TinyLFUSketch) (tableIndex counterIndex : Nat) : UInt8 :=
  let offset := UInt64.ofNat (counterIndex * 4)
  let mask : UInt64 := 0xF <<< offset
  ((sketch.word tableIndex &&& mask) >>> offset).toUInt8

def countOnes (entry : UInt64) : UInt32 := .ofNat ((List.range 64).countP entry.toNat.testBit)

/-- Halves every counter. -/
def reset (sketch : TinyLFUSketch) : TinyLFUSketch :=
  let count := sketch.table.foldl (fun count entry => count + countOnes (entry &&& oneMask)) 0
  let half := sketch.size >>> 1
  let dec := count >>> 2
  { table := sketch.table.map fun (entry : UInt64) => entry >>> 1 &&& resetMask
    size := if half ≤ dec then 0 else half - dec }

section Keys

variable {K : Type} (hash : K → Nat → UInt64) (shouldDecay : UInt32 → Bool)

def tableIndex (sketch : TinyLFUSketch) (key : K) (seed : Nat) : Nat :=
  (hash key seed).toNat % sketch.table.length

def counterIndex (key : K) (seed : Nat) : Nat := (hash key seed &&& 15).toNat

/-- The counters of a key, one for each of the four hashes; they lie in one table and may meet. -/
def incrementRows (key : K) (sketch : TinyLFUSketch) : List Nat → TinyLFUSketch × Bool
  | [] => (sketch, false)
  | seed :: seeds =>
    let row := sketch.incrementAt (sketch.tableIndex hash key seed) (counterIndex hash key seed)
    let rows := incrementRows key row.1 seeds
    (rows.1, row.2 || rows.2)

def seeds : List Nat := [0, 1, 2, 3]

/-- Whether `increment` ends with a decay. -/
def decays (sketch : TinyLFUSketch) (key : K) : Bool :=
  (sketch.incrementRows hash key seeds).2 && shouldDecay (sketch.size + 1)

/-- `increment`; the hash stands for the four keyed hashes, `shouldDecay` for the policy as it
is at this call. The size wraps. -/
def increment (sketch : TinyLFUSketch) (key : K) : TinyLFUSketch :=
  if sketch.table.isEmpty then sketch
  else
    let rows := sketch.incrementRows hash key seeds
    if rows.2 then
      let sized := { rows.1 with size := sketch.size + 1 }
      if shouldDecay sized.size then sized.reset else sized
    else rows.1

def estimate (sketch : TinyLFUSketch) (key : K) : UInt32 :=
  if sketch.table.isEmpty then 0
  else
    seeds.foldl (fun minCount seed =>
      min minCount (sketch.countAt (sketch.tableIndex hash key seed)
        (counterIndex hash key seed)).toUInt32) 0xFFFF_FFFF

end Keys

/-- The counter in the `idx`-th nibble of a word. -/
def counter (entry idx : Nat) : Nat := entry / 16 ^ idx % 16

theorem shifted (entry idx : Nat) : entry >>> (idx * 4) = entry / 16 ^ idx := by
  rw [Nat.shiftRight_eq_div_pow, mul_comm, pow_mul]
  norm_num

theorem and_fifteen (entry : Nat) : entry &&& 15 = entry % 16 := Nat.and_two_pow_sub_one_eq_mod entry 4

theorem masked (entry idx : Nat) : entry &&& 15 <<< (idx * 4) = counter entry idx <<< (idx * 4) := by
  rw [counter, ← shifted, ← and_fifteen]
  refine Nat.eq_of_testBit_eq fun bit => ?_
  simp only [Nat.testBit_and, Nat.testBit_shiftLeft, Nat.testBit_shiftRight]
  by_cases low : idx * 4 ≤ bit
  · simp [low]
  · simp [low]

theorem masked_eq_iff (entry idx : Nat) : entry &&& 15 <<< (idx * 4) = 15 <<< (idx * 4) ↔
    counter entry idx = 15 := by
  rw [masked, Nat.shiftLeft_eq, Nat.shiftLeft_eq]
  exact Nat.mul_left_inj (Nat.two_pow_pos _).ne'

theorem counter_add_self {entry idx : Nat} (room : counter entry idx ≠ 15) :
    counter (entry + 16 ^ idx) idx = counter entry idx + 1 := by
  unfold counter at *
  rw [Nat.add_div_right _ (Nat.pow_pos (by omega))]
  omega

/-- No carry leaves the nibble. -/
theorem counter_add_other {entry idx other : Nat} (room : counter entry idx ≠ 15) (apart : other ≠ idx) :
    counter (entry + 16 ^ idx) other = counter entry other := by
  unfold counter at *
  rcases Nat.lt_or_gt_of_ne apart with below | above
  · obtain ⟨gap, rfl⟩ := Nat.exists_eq_add_of_lt below
    rw [show 16 ^ (other + gap + 1) = 16 ^ other * (16 * 16 ^ gap) by ring,
      Nat.add_mul_div_left _ _ (Nat.pow_pos (by omega)),
      Nat.add_mul_mod_self_left]
  · obtain ⟨gap, rfl⟩ := Nat.exists_eq_add_of_lt above
    rw [show 16 ^ (idx + gap + 1) = 16 ^ idx * 16 * 16 ^ gap by ring, ← Nat.div_div_eq_div_mul,
      ← Nat.div_div_eq_div_mul,
      ← Nat.div_div_eq_div_mul, ← Nat.div_div_eq_div_mul, Nat.add_div_right _ (Nat.pow_pos (by omega))]
    have same : (entry / 16 ^ idx).succ / 16 = entry / 16 ^ idx / 16 := by omega
    rw [same]

theorem resetMask_nibble : ∀ idx < 16, (resetMask.toNat >>> (idx * 4)) &&& 15 = 7 := by decide

/-- The shift moves a bit of the next nibble in, which the mask takes out. -/
theorem counter_halved {entry idx : Nat} (inside : idx < 16) :
    counter ((entry >>> 1) &&& resetMask.toNat) idx = counter entry idx / 2 := by
  have seven : ∀ value : Nat, value &&& 7 = value % 8 := fun value => Nat.and_two_pow_sub_one_eq_mod value 3
  rw [counter, ← shifted, ← and_fifteen, Nat.shiftRight_and_distrib, Nat.and_assoc,
    resetMask_nibble idx inside, seven,
    ← Nat.shiftRight_add, Nat.add_comm, Nat.shiftRight_add, shifted, Nat.shiftRight_eq_div_pow, counter]
  omega

/-- A counter that is not full can be added to without leaving the word. -/
theorem add_lt_word {entry idx : Nat} (fits : entry < 2 ^ 64) (inside : idx < 16)
    (room : counter entry idx ≠ 15) :
    entry + 16 ^ idx < 2 ^ 64 := by
  obtain ⟨gap, split⟩ := Nat.exists_eq_add_of_lt inside
  have whole : 2 ^ 64 = 16 ^ idx * (16 * 16 ^ gap) := by
    rw [show 2 ^ 64 = 16 ^ 16 by norm_num, split]
    ring
  rw [whole] at fits ⊢
  have quotient : entry / 16 ^ idx < 16 * 16 ^ gap := Nat.div_lt_of_lt_mul fits
  have next : entry / 16 ^ idx + 2 ≤ 16 * 16 ^ gap := by
    rw [counter] at room
    omega
  calc entry + 16 ^ idx < 16 ^ idx * (entry / 16 ^ idx + 1) + 16 ^ idx :=
        Nat.add_lt_add_right (Nat.lt_mul_div_succ entry (Nat.pow_pos (by omega))) _
    _ = 16 ^ idx * (entry / 16 ^ idx + 2) := by ring
    _ ≤ 16 ^ idx * (16 * 16 ^ gap) := Nat.mul_le_mul_left _ next

theorem toNat_mask : ∀ idx < 16, ((0xF : UInt64) <<< UInt64.ofNat (idx * 4)).toNat =
    15 <<< (idx * 4) := by decide

theorem toNat_one : ∀ idx < 16, ((1 : UInt64) <<< UInt64.ofNat (idx * 4)).toNat = 16 ^ idx := by decide

theorem toNat_offset : ∀ idx < 16, (UInt64.ofNat (idx * 4)).toNat % 64 = idx * 4 := by decide

section Table

variable {sketch : TinyLFUSketch} {tableIndex counterIndex : Nat}

/-- The counter at a place of the table. -/
def at_ (sketch : TinyLFUSketch) (place : Nat × Nat) : Nat := counter (sketch.word place.1).toNat place.2

theorem at_le (sketch : TinyLFUSketch) (place : Nat × Nat) : sketch.at_ place ≤ 15 :=
  Nat.le_of_lt_succ (Nat.mod_lt _ (by omega))

theorem toNat_countAt (sketch : TinyLFUSketch) (tableIndex : Nat) (inside : counterIndex < 16) :
    (sketch.countAt tableIndex counterIndex).toNat = sketch.at_ (tableIndex, counterIndex) := by
  have small := sketch.at_le (tableIndex, counterIndex)
  rw [at_] at small ⊢
  rw [countAt, UInt64.toNat_toUInt8, UInt64.toNat_shiftRight, UInt64.toNat_and, toNat_mask _ inside,
    toNat_offset _ inside, masked,
    Nat.shiftLeft_shiftRight]
  exact Nat.mod_eq_of_lt (small.trans_lt (by omega))

theorem mask_eq_iff (entry : UInt64) (inside : counterIndex < 16) :
    entry &&& 0xF <<< UInt64.ofNat (counterIndex * 4) = 0xF <<< UInt64.ofNat (counterIndex * 4) ↔
      counter entry.toNat counterIndex = 15 := by
  rw [← UInt64.toNat_inj, UInt64.toNat_and, toNat_mask _ inside, masked_eq_iff]

theorem word_set {entry : UInt64} (inside : tableIndex < sketch.table.length) (other : Nat) :
    word { sketch with table := sketch.table.set tableIndex entry } other =
      if other = tableIndex then entry else sketch.word other := by
  simp only [word, List.getD_eq_getElem?_getD, List.getElem?_set]
  by_cases same : tableIndex = other
  · subst same
    simp [inside]
  · rw [if_neg same, if_neg (Ne.symm same)]

/-- One row: no counter falls, the row's own rises unless it is full. -/
theorem incrementAt_counts (low : counterIndex < 16) (inside : tableIndex < sketch.table.length) :
    (sketch.incrementAt tableIndex counterIndex).1.table.length = sketch.table.length ∧
      (∀ place, sketch.at_ place ≤ (sketch.incrementAt tableIndex counterIndex).1.at_ place) ∧
      min 15 (sketch.at_ (tableIndex, counterIndex) + 1) ≤
        (sketch.incrementAt tableIndex counterIndex).1.at_ (tableIndex, counterIndex) := by
  unfold incrementAt
  dsimp only
  split_ifs with room
  · rw [ne_eq, mask_eq_iff _ low] at room
    have sum : (sketch.word tableIndex + 1 <<< UInt64.ofNat (counterIndex * 4)).toNat =
        (sketch.word tableIndex).toNat + 16 ^ counterIndex := by
      rw [UInt64.toNat_add, toNat_one _ low]
      exact Nat.mod_eq_of_lt (add_lt_word (UInt64.toNat_lt _) low room)
    have own : counter ((sketch.word tableIndex).toNat + 16 ^ counterIndex) counterIndex =
        counter (sketch.word tableIndex).toNat counterIndex + 1 := counter_add_self room
    refine ⟨List.length_set, fun place => ?_, ?_⟩
    · simp only [at_, word_set inside]
      split_ifs with same
      · rw [sum]
        by_cases here : place.2 = counterIndex
        · rw [same, here, own]
          omega
        · rw [same, counter_add_other room here]
      · exact le_rfl
    · simp only [at_, word_set inside, if_true, sum, own]
      omega
  · rw [ne_eq, not_not, mask_eq_iff _ low] at room
    refine ⟨rfl, fun _ => le_rfl, ?_⟩
    rw [at_, room]
    omega

theorem reset_at (place : Nat × Nat) (inside : place.2 < 16) :
    sketch.reset.at_ place = sketch.at_ place / 2 := by
  have entry : (sketch.reset.word place.1).toNat =
      ((sketch.word place.1).toNat >>> 1) &&& resetMask.toNat := by
    simp only [word, reset, List.getD_eq_getElem?_getD, List.getElem?_map]
    cases sketch.table[place.1]? with
    | none => rfl
    | some entry => rfl
  rw [at_, entry, counter_halved inside, at_]

end Table

section Runs

variable {K : Type} {hash : K → Nat → UInt64} {shouldDecay : UInt32 → Bool} {sketch : TinyLFUSketch} {key : K}

/-- The place of a key's counter in a table of this length. -/
def place (hash : K → Nat → UInt64) (length : Nat) (key : K) (seed : Nat) : Nat × Nat :=
  ((hash key seed).toNat % length, counterIndex hash key seed)

theorem counterIndex_lt (hash : K → Nat → UInt64) (key : K) (seed : Nat) :
    counterIndex hash key seed < 16 := by
  have low : (15 : UInt64).toNat = 15 := rfl
  rw [counterIndex, UInt64.toNat_and, low, and_fifteen]
  omega

/-- A key's rows: no counter falls, each of the key's own rises unless it is full. -/
theorem incrementRows_counts (rows : List Nat) (some_ : 0 < sketch.table.length) :
    (sketch.incrementRows hash key rows).1.table.length = sketch.table.length ∧
      (∀ place, sketch.at_ place ≤ (sketch.incrementRows hash key rows).1.at_ place) ∧
      ∀ seed ∈ rows, min 15 (sketch.at_ (place hash sketch.table.length key seed) + 1) ≤
        (sketch.incrementRows hash key rows).1.at_ (place hash sketch.table.length key seed) := by
  induction rows generalizing sketch with
  | nil => exact ⟨rfl, fun _ => le_rfl, fun seed inside => absurd inside List.not_mem_nil⟩
  | cons first rows ih =>
    have inside : sketch.tableIndex hash key first < sketch.table.length := Nat.mod_lt _ some_
    obtain ⟨length, kept, risen⟩ := incrementAt_counts (counterIndex_lt hash key first) inside
    obtain ⟨length', kept', risen'⟩ :=
      @ih (sketch.incrementAt (sketch.tableIndex hash key first) (counterIndex hash key first)).1
        (by rw [length]; exact some_)
    rw [length] at length' risen'
    rw [incrementRows]
    dsimp only
    refine ⟨length', fun place => (kept place).trans (kept' place), fun seed listed => ?_⟩
    rcases List.mem_cons.mp listed with rfl | later
    · exact risen.trans (kept' _)
    · have before := kept (place hash sketch.table.length key seed)
      have after := risen' seed later
      omega

/-- The sketch beside the true numbers of touches: each capped like a counter and halved with the counters. -/
structure Watched (K : Type) where
  sketch : TinyLFUSketch
  touches : K → Nat

variable [DecidableEq K]

/-- A key is touched, and the policy answers as it stands then. -/
def Watched.touch (hash : K → Nat → UInt64) (watched : Watched K)
    (touched : K × (UInt32 → Bool)) : Watched K :=
  let touches := update watched.touches touched.1 (min 15 (watched.touches touched.1 + 1))
  { sketch := watched.sketch.increment hash touched.2 touched.1
    touches := if watched.sketch.decays hash touched.2 touched.1 then fun other =>
      touches other / 2 else touches }

/-- Every counter of a key is at least the number of its touches. -/
structure Watched.Covers (hash : K → Nat → UInt64) (watched : Watched K) : Prop where
  some_ : 0 < watched.sketch.table.length
  counted : ∀ key, ∀ seed ∈ seeds, watched.touches key ≤
    watched.sketch.at_ (place hash watched.sketch.table.length key seed)

theorem Watched.Covers.touch {watched : Watched K} (covers : watched.Covers hash) (key : K)
    (shouldDecay : UInt32 → Bool) :
    (watched.touch hash (key, shouldDecay)).Covers hash := by
  obtain ⟨length, kept, risen⟩ := @incrementRows_counts K hash watched.sketch key seeds covers.some_
  have full : watched.sketch.table.isEmpty = false := by
    rw [List.isEmpty_eq_false_iff, ← List.length_pos_iff]
    exact covers.some_
  have bumped : ∀ other, ∀ seed ∈ seeds, update watched.touches key (min 15 (watched.touches key + 1)) other ≤
      (watched.sketch.incrementRows hash key seeds).1.at_
        (place hash watched.sketch.table.length other seed) := by
    intro other seed listed
    by_cases same : other = key
    · subst same
      rw [update_self]
      have before := covers.counted other seed listed
      have after := risen seed listed
      omega
    · rw [update_of_ne same]
      exact (covers.counted other seed listed).trans (kept _)
  rw [Watched.touch, increment, if_neg (by rw [full]; exact Bool.false_ne_true)]
  dsimp only
  by_cases added : (watched.sketch.incrementRows hash key seeds).2 = true
  · rw [if_pos added]
    by_cases decay : shouldDecay (watched.sketch.size + 1) = true
    · rw [if_pos decay, if_pos (by rw [decays, added, decay]; rfl)]
      have halved : (reset ⟨(watched.sketch.incrementRows hash key seeds).1.table,
        watched.sketch.size + 1⟩).table.length =
          watched.sketch.table.length := by rw [reset, List.length_map, length]
      refine ⟨by rw [halved]; exact covers.some_, fun other seed listed => ?_⟩
      dsimp only
      rw [halved, reset_at _ (counterIndex_lt hash other seed)]
      exact Nat.div_le_div_right (bumped other seed listed)
    · rw [if_neg decay, if_neg (by rw [decays, Bool.and_eq_true]; exact fun both => decay both.2)]
      exact ⟨length ▸ covers.some_, fun other seed listed => length.symm ▸ bumped other seed listed⟩
  · rw [if_neg added, if_neg (by rw [decays, Bool.and_eq_true]; exact fun both => added both.1)]
    exact ⟨length ▸ covers.some_, fun other seed listed => length.symm ▸ bumped other seed listed⟩

theorem toNat_min (a b : UInt32) : (min a b).toNat = min a.toNat b.toNat := by
  show (if a ≤ b then a else b).toNat = min a.toNat b.toNat
  split
  · next low => exact (min_eq_left (UInt32.le_iff_toNat_le.mp low)).symm
  · next high =>
    rw [UInt32.le_iff_toNat_le, not_le] at high
    exact (min_eq_right high.le).symm

theorem le_foldl_min {count : Nat → UInt32} (rows : List Nat) {bound : Nat} {least : UInt32}
    (low : bound ≤ least.toNat)
    (each : ∀ seed ∈ rows, bound ≤ (count seed).toNat) :
    bound ≤ (rows.foldl (fun minCount seed => min minCount (count seed)) least).toNat := by
  induction rows generalizing least with
  | nil => exact low
  | cons first rows ih =>
    refine ih ?_ fun seed listed => each seed (List.mem_cons_of_mem _ listed)
    rw [toNat_min]
    exact le_min low (each first List.mem_cons_self)

theorem foldl_min_le {count : Nat → UInt32} (rows : List Nat) (least : UInt32) :
    (rows.foldl (fun minCount seed => min minCount (count seed)) least).toNat ≤ least.toNat := by
  induction rows generalizing least with
  | nil => exact le_rfl
  | cons first rows ih =>
    refine (ih _).trans ?_
    rw [toNat_min]
    exact min_le_left _ _

/-- The sketch never counts too few: over any keys and hashes, and whatever the policy answers
at each touch, the estimate of a key is at least the number of its touches, counted as a counter
counts, and at most a full counter. -/
theorem never_underestimates (capacity : Nat) (touched : List (K × (UInt32 → Bool))) (key : K) :
    (touched.foldl (Watched.touch hash) ⟨new capacity, fun _ => 0⟩).touches key ≤
        ((touched.foldl (Watched.touch hash) ⟨new capacity, fun _ => 0⟩).sketch.estimate hash key).toNat ∧
      ((touched.foldl (Watched.touch hash) ⟨new capacity, fun _ => 0⟩).sketch.estimate
        hash key).toNat ≤ 15 := by
  have covers : ∀ watched : Watched K, watched.Covers hash →
      (touched.foldl (Watched.touch hash) watched).Covers hash := by
    induction touched with
    | nil => exact fun watched covers => covers
    | cons first touched ih => exact fun watched covers => ih _ (covers.touch first.1 first.2)
  have start : (⟨new capacity, fun _ => 0⟩ : Watched K).Covers hash := by
    refine ⟨?_, fun _ _ _ => Nat.zero_le _⟩
    simp only [new, List.length_replicate]
    omega
  obtain ⟨some_, counted⟩ := covers _ start
  generalize (touched.foldl (Watched.touch hash) ⟨new capacity, fun _ => 0⟩) = watched at *
  have full : watched.sketch.table.isEmpty = false := by
    rw [List.isEmpty_eq_false_iff, ← List.length_pos_iff]
    exact some_
  have each : ∀ seed, (watched.sketch.countAt (watched.sketch.tableIndex hash key seed)
    (counterIndex hash key seed)).toUInt32.toNat =
      watched.sketch.at_ (place hash watched.sketch.table.length key seed) := fun seed => by
    rw [UInt8.toNat_toUInt32, toNat_countAt _ _ (counterIndex_lt hash key seed)]
    rfl
  rw [estimate, if_neg (by rw [full]; exact Bool.false_ne_true)]
  constructor
  · refine le_foldl_min seeds ?_ fun seed listed => ?_
    · exact ((counted key 0 List.mem_cons_self).trans (at_le _ _)).trans (by decide)
    · rw [each]
      exact counted key seed listed
  · rw [seeds, List.foldl_cons]
    refine (foldl_min_le _ _).trans ?_
    rw [toNat_min, each]
    exact (min_le_right _ _).trans (at_le _ _)

/-- A policy that is armed before the fifth touch. -/
example :
    (List.foldl (Watched.touch fun (key : UInt64) seed => key + seed.toUInt64) ⟨new 100, fun _ => 0⟩
      (List.replicate 4 (42, fun _ => false) ++ [(99, fun _ => true)])).sketch.estimate
        (fun key seed => key + seed.toUInt64) 42 = 2 := by
  decide +kernel

end Runs

end TinyLFUSketch

end PegaInfer.Kvbm
