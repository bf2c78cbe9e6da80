import Mathlib
import PegaInfer.K3.Whale

namespace PegaInfer.K3

/-- The floating-point side of the leveling: the length a rank can walk from `start` within a
budget, the even split's bound on the budget, and the middle of two budgets. -/
structure Leveling (Budget : Type) where
  len : Nat → Budget → Nat
  zero : Budget
  bound : Nat → Nat → Budget
  middle : Budget → Budget → Budget

variable {Budget : Type} (level : Leveling Budget) (chunkBucket : Nat → Option Nat)

/-- The mean's bucket, within one chunk. -/
def whaleCap (total width chunkTokens : Nat) : Nat :=
  match chunkBucket ((total + width - 1) / width) with
  | some bucket => min bucket chunkTokens
  | none => chunkTokens

def affordable (cap start : Nat) (budget : Budget) : Nat := min (level.len start budget) cap

/-- `coverage`: how far `width` ranks walk from `start`. -/
def coverageFrom (cap : Nat) (budget : Budget) : Nat → Nat → Nat
  | 0, start => start
  | width + 1, start => coverageFrom cap budget width (start + affordable level cap start budget)

def coverage (cap width : Nat) (budget : Budget) : Nat := coverageFrom level cap budget width 0

/-- The bisection for the smallest covering budget, `rounds` of it left. -/
def bisect (cap total width : Nat) : Nat → Budget → Budget → Budget
  | 0, _, hi => hi
  | rounds + 1, lo, hi =>
    let mid := level.middle lo hi
    if total ≤ coverage level cap width mid then bisect cap total width rounds lo mid
      else bisect cap total width rounds mid hi

/-- The final budget. -/
def whaleBudget (cap total width : Nat) : Budget :=
  bisect level cap total width 64 level.zero (level.bound total width)

/-- The cut from the rank with `ranksLeft` ranks still to serve. -/
def cutFrom (cap total chunkTokens : Nat) (budget : Budget) : Nat → Nat → List (Nat × Nat)
  | 0, _ => []
  | ranksLeft + 1, start =>
    let remaining := total - start
    let len :=
      if ranksLeft + 1 = 1 then min remaining chunkTokens
      else min (max (affordable level cap start budget) 1) (remaining - ranksLeft)
    (start, len) :: cutFrom cap total chunkTokens budget ranksLeft (start + len)

def k3WhaleSegments (total width chunkTokens : Nat) : List (Nat × Nat) :=
  let cap := whaleCap chunkBucket total width chunkTokens
  cutFrom level cap total chunkTokens (whaleBudget level cap total width) width 0

/-- Each segment starts where the one before it ends, the first at `start`. -/
def Contiguous : Nat → List (Nat × Nat) → Prop
  | _, [] => True
  | start, segment :: rest => segment.1 = start ∧ Contiguous (start + segment.2) rest

/-- Where segments laid from `start` end. -/
def endOf (start : Nat) (segments : List (Nat × Nat)) : Nat := start + (segments.map Prod.snd).sum

section

variable {level chunkBucket} {cap total chunkTokens : Nat} {budget : Budget}

theorem endOf_cons (start : Nat) (segment : Nat × Nat) (rest : List (Nat × Nat)) :
    endOf start (segment :: rest) = endOf (start + segment.2) rest := by
  unfold endOf
  rw [List.map_cons, List.sum_cons, Nat.add_assoc]

theorem endOf_getLast {start : Nat} {segments : List (Nat × Nat)} {last : Nat × Nat}
    (chained : Contiguous start segments)
    (final : segments.getLast? = some last) : last.1 + last.2 = endOf start segments := by
  induction segments generalizing start with
  | nil => cases final
  | cons segment rest ih =>
    obtain ⟨starts, chained⟩ := chained
    rw [endOf_cons]
    cases rest with
    | nil =>
      obtain rfl : segment = last := by simpa using final
      rw [starts]
      rfl
    | cons next rest => exact ih chained (by simpa using final)

/-- What holds of the cut however the budget came out: while each later rank can still have a
token, every rank gets one. -/
structure Cut (total start ranks : Nat) (segments : List (Nat × Nat)) : Prop where
  length : segments.length = ranks
  contiguous : Contiguous start segments
  nonempty : ∀ segment ∈ segments, 1 ≤ segment.2
  starts : ∀ segment ∈ segments, segment.1 ≤ total
  ends : endOf start segments ≤ total

theorem cutFrom_cut (positive : 1 ≤ chunkTokens) (ranks start : Nat) (room : start + ranks ≤ total) :
    Cut total start ranks (cutFrom level cap total chunkTokens budget ranks start) := by
  induction ranks generalizing start with
  | zero => exact ⟨rfl, trivial, by simp [cutFrom], by simp [cutFrom], by simpa [cutFrom, endOf] using room⟩
  | succ ranks ih =>
    unfold cutFrom
    dsimp only
    generalize cutLen : (if ranks + 1 = 1 then min (total - start) chunkTokens
      else min (max (affordable level cap start budget) 1) (total - start - ranks)) = len
    have bounds : 1 ≤ len ∧ start + len + ranks ≤ total := by
      split at cutLen <;> omega
    obtain ⟨length, contiguous, nonempty, starts, ends⟩ := ih (start + len) bounds.2
    refine ⟨by rw [List.length_cons, length], ⟨rfl, contiguous⟩, ?_, ?_, by rw [endOf_cons]; exact ends⟩
    · intro segment member
      rcases List.mem_cons.mp member with rfl | member
      · exact bounds.1
      · exact nonempty segment member
    · intro segment member
      rcases List.mem_cons.mp member with rfl | member
      · exact (show start ≤ total by omega)
      · exact starts segment member

/-- A rank that can afford nothing stops the walk for good. -/
theorem coverageFrom_stuck {start : Nat} (stuck : affordable level cap start budget = 0) (ranks : Nat) :
    coverageFrom level cap budget ranks start = start := by
  induction ranks with
  | zero => rfl
  | succ ranks ih =>
    unfold coverageFrom
    rw [stuck, Nat.add_zero, ih]

/-- Once a cut left every later rank a single token, one is what each of them gets. -/
theorem cutFrom_singles (positive : 1 ≤ chunkTokens) (ranks start : Nat) (tight : start + ranks = total) :
    endOf start (cutFrom level cap total chunkTokens budget ranks start) = total ∧
      ∀ segment ∈ cutFrom level cap total chunkTokens budget ranks start, segment.2 = 1 := by
  induction ranks generalizing start with
  | zero => exact ⟨by simpa [cutFrom, endOf] using tight, by simp [cutFrom]⟩
  | succ ranks ih =>
    unfold cutFrom
    dsimp only
    have one : (if ranks + 1 = 1 then min (total - start) chunkTokens
        else min (max (affordable level cap start budget) 1) (total - start - ranks)) = 1 := by
      split <;> omega
    rw [one, endOf_cons]
    obtain ⟨ends, ones⟩ := ih (start + 1) (by omega)
    refine ⟨ends, fun segment member => ?_⟩
    rcases List.mem_cons.mp member with rfl | member
    · rfl
    · exact ones segment member

/-- A budget that covers what is left is followed until it is cut short, and then one token is
left for each later rank. -/
theorem cutFrom_covered (positive : 1 ≤ chunkTokens) (capped : cap ≤ chunkTokens)
    (ranks start : Nat) (room : start + (ranks + 1) ≤ total)
    (covers : total ≤ coverageFrom level cap budget (ranks + 1) start) :
    endOf start (cutFrom level cap total chunkTokens budget (ranks + 1) start) = total ∧
      ∀ segment ∈ cutFrom level cap total chunkTokens budget (ranks + 1) start, segment.2 ≤ cap := by
  induction ranks generalizing start with
  | zero =>
    have whole : total ≤ start + affordable level cap start budget := covers
    have within : affordable level cap start budget ≤ cap := Nat.min_le_right _ _
    have len : min (total - start) chunkTokens = total - start := by omega
    simp only [cutFrom, Nat.zero_add, if_true, len, endOf, List.map_cons, List.map_nil,
      List.sum_cons, List.sum_nil, List.mem_singleton]
    refine ⟨by omega, ?_⟩
    rintro segment rfl
    exact (show total - start ≤ cap by omega)
  | succ ranks ih =>
    have some_ : 1 ≤ affordable level cap start budget := by
      by_contra none_
      rw [coverageFrom_stuck (by omega)] at covers
      omega
    have within : affordable level cap start budget ≤ cap := Nat.min_le_right _ _
    unfold cutFrom
    dsimp only
    rw [if_neg (by omega), endOf_cons]
    rw [coverageFrom] at covers
    by_cases short : total - start - (ranks + 1) ≤ affordable level cap start budget
    · have len : min (max (affordable level cap start budget) 1) (total - start - (ranks + 1)) =
        total - start - (ranks + 1) := by omega
      rw [len]
      obtain ⟨ends, ones⟩ := @cutFrom_singles _ level cap total chunkTokens budget positive
        (ranks + 1) (start + (total - start - (ranks + 1)))
        (by omega)
      refine ⟨ends, fun segment member => ?_⟩
      rcases List.mem_cons.mp member with rfl | member
      · exact (show total - start - (ranks + 1) ≤ cap by omega)
      · rw [ones segment member]
        omega
    · have len : min (max (affordable level cap start budget) 1) (total - start - (ranks + 1)) =
        affordable level cap start budget := by omega
      rw [len]
      obtain ⟨ends, fits⟩ := ih (start + affordable level cap start budget) (by omega) covers
      refine ⟨ends, fun segment member => ?_⟩
      rcases List.mem_cons.mp member with rfl | member
      · exact within
      · exact fits segment member

theorem whaleCap_le (total width chunkTokens : Nat) :
    whaleCap chunkBucket total width chunkTokens ≤ chunkTokens := by
  unfold whaleCap
  split
  · exact Nat.min_le_right _ _
  · rfl

/-- A split that ends early is not admitted. -/
theorem k3WhaleAdmits_whole {width : Nat} (enough : width ≤ total) (positive : 1 ≤ chunkTokens)
    (admitted : k3WhaleAdmits (k3WhaleSegments level chunkBucket) total width chunkTokens = true) :
    endOf 0 (k3WhaleSegments level chunkBucket total width chunkTokens) = total := by
  unfold k3WhaleAdmits at admitted
  split at admitted
  · cases admitted
  · rw [Bool.and_eq_true, Option.any_eq_true] at admitted
    obtain ⟨⟨last, final, ends⟩, -⟩ := admitted
    have cut : Cut total 0 width (k3WhaleSegments level chunkBucket total width chunkTokens) :=
      cutFrom_cut positive width 0 (by omega)
    rw [← endOf_getLast cut.contiguous final]
    exact beq_iff_eq.mp ends

theorem doubled_pow (world fuel exponent : Nat) (low : 2 ^ exponent ≤ world)
    (high : world < 2 ^ (exponent + fuel + 1)) :
    ∃ top, doubleWithin world fuel (2 ^ exponent) = 2 ^ top ∧ 2 ^ top ≤ world ∧ world < 2 ^ (top + 1) := by
  induction fuel generalizing exponent with
  | zero => exact ⟨exponent, rfl, low, high⟩
  | succ fuel ih =>
    unfold doubleWithin
    rw [← Nat.pow_succ]
    split
    · rename_i more
      exact ih (exponent + 1) more
        (by rwa [show exponent + 1 + fuel + 1 = exponent + (fuel + 1) + 1 by omega])
    · rename_i over_
      exact ⟨exponent, rfl, low, by omega⟩

/-- Halving from a power of two finds the largest one below it whose split is admitted. -/
theorem halved_eq_some (fuel exponent width : Nat) (rounds : exponent < fuel) :
    halveUntilAdmitted (k3WhaleSegments level chunkBucket) total chunkTokens fuel (2 ^ exponent) =
      some width ↔
      ∃ place, 1 ≤ place ∧ place ≤ exponent ∧ width = 2 ^ place ∧
        k3WhaleAdmits (k3WhaleSegments level chunkBucket) total width chunkTokens = true ∧
        ∀ wider, place < wider → wider ≤ exponent →
          k3WhaleAdmits (k3WhaleSegments level chunkBucket) total (2 ^ wider) chunkTokens = false := by
  induction fuel generalizing exponent with
  | zero => omega
  | succ fuel ih =>
    unfold halveUntilAdmitted
    cases exponent with
    | zero =>
      simp only [Nat.pow_zero, show ¬ 2 ≤ 1 by omega, if_false, reduceCtorEq, false_iff]
      rintro ⟨place, low, high, -⟩
      omega
    | succ exponent =>
      have wide : 2 ≤ 2 ^ (exponent + 1) := by
        rw [Nat.pow_succ]
        have := Nat.one_le_two_pow (n := exponent)
        omega
      rw [if_pos wide]
      by_cases admitted : k3WhaleAdmits (k3WhaleSegments level chunkBucket) total
        (2 ^ (exponent + 1)) chunkTokens = true
      · rw [if_pos admitted, Option.some.injEq]
        constructor
        · rintro rfl
          exact ⟨exponent + 1, by omega, le_rfl, rfl, admitted, fun wider above below => by omega⟩
        · rintro ⟨place, low, high, rfl, -, refused⟩
          by_cases top : place = exponent + 1
          · rw [top]
          · have contra := refused (exponent + 1) (by omega) le_rfl
            rw [admitted] at contra
            cases contra
      · rw [if_neg admitted, Nat.pow_succ, Nat.mul_div_cancel _ (by omega), ih exponent (by omega)]
        constructor
        · rintro ⟨place, low, high, rfl, here, refused⟩
          refine ⟨place, low, by omega, rfl, here, fun wider above below => ?_⟩
          by_cases top : wider = exponent + 1
          · rw [top]
            exact Bool.eq_false_iff.mpr admitted
          · exact refused wider above (by omega)
        · rintro ⟨place, low, high, rfl, here, refused⟩
          have below : place ≤ exponent := by
            by_contra above
            obtain rfl : place = exponent + 1 := by omega
            exact admitted here
          exact ⟨place, low, below, rfl, here, fun wider above below' => refused wider above (by omega)⟩

/-- `k3_whale_width` finds the largest power of two of at least two ranks whose split is
admitted. -/
theorem k3WhaleWidth_eq_some (world width : Nat) :
    k3WhaleWidth (k3WhaleSegments level chunkBucket) total world chunkTokens = some width ↔
      (∃ place, width = 2 ^ place) ∧ 2 ≤ width ∧ width ≤ world ∧
        k3WhaleAdmits (k3WhaleSegments level chunkBucket) total width chunkTokens = true ∧
        ∀ wider, width < 2 ^ wider → 2 ^ wider ≤ world →
          k3WhaleAdmits (k3WhaleSegments level chunkBucket) total (2 ^ wider) chunkTokens = false := by
  unfold k3WhaleWidth
  rcases Nat.eq_zero_or_pos world with rfl | ranks
  · have none_ : halveUntilAdmitted (k3WhaleSegments level chunkBucket) total chunkTokens (0 + 1)
      (doubleWithin 0 0 1) = none := rfl
    rw [none_]
    constructor
    · intro absurd_
      cases absurd_
    · rintro ⟨-, low, high, -⟩
      omega
  · have reach : world < 2 ^ (0 + world + 1) := by
      rw [Nat.zero_add]
      exact Nat.lt_two_pow_self.trans (Nat.pow_lt_pow_right (by omega) (Nat.lt_succ_self world))
    obtain ⟨top, doubled_, low, high⟩ := doubled_pow world world 0 ranks reach
    rw [Nat.pow_zero] at doubled_
    have rounds : top < world + 1 := by
      have grows := @Nat.lt_two_pow_self top
      omega
    rw [doubled_, halved_eq_some (world + 1) top width rounds]
    have inWorld : ∀ place, 2 ^ place ≤ world ↔ place ≤ top := by
      intro place
      constructor
      · intro fits
        have exponents : 2 ^ place < 2 ^ (top + 1) := by omega
        have := (Nat.pow_lt_pow_iff_right (by omega)).mp exponents
        omega
      · intro below
        exact (Nat.pow_le_pow_right (by omega) below).trans low
    constructor
    · rintro ⟨place, one, below, rfl, admitted, refused⟩
      refine ⟨⟨place, rfl⟩, ?_, (inWorld place).mpr below, admitted, fun wider above within => ?_⟩
      · exact (show 2 ^ 1 ≤ 2 ^ place from Nat.pow_le_pow_right (by omega) one)
      · exact refused wider ((Nat.pow_lt_pow_iff_right (by omega)).mp above) ((inWorld wider).mp within)
    · rintro ⟨⟨place, rfl⟩, two, within, admitted, refused⟩
      refine ⟨place, ?_, (inWorld place).mp within, rfl, admitted, fun wider above below => ?_⟩
      · by_contra zero
        obtain rfl : place = 0 := by omega
        omega
      · exact refused wider (Nat.pow_lt_pow_right (by omega) above) ((inWorld wider).mpr below)

end

/-- A whale split partitions the prompt whatever lengths the leveling affords. -/
theorem whale_split_exact :
    (∀ total width chunkTokens, 2 ≤ width → width ≤ total → 1 ≤ chunkTokens →
      Cut total 0 width (k3WhaleSegments level chunkBucket total width chunkTokens) ∧
        (endOf 0 (k3WhaleSegments level chunkBucket total width chunkTokens) < total →
          k3WhaleAdmits (k3WhaleSegments level chunkBucket) total width chunkTokens = false) ∧
        (total ≤ coverage level (whaleCap chunkBucket total width chunkTokens) width
            (whaleBudget level (whaleCap chunkBucket total width chunkTokens) total width) →
          endOf 0 (k3WhaleSegments level chunkBucket total width chunkTokens) = total ∧
            ∀ segment ∈ k3WhaleSegments level chunkBucket total width chunkTokens,
              segment.2 ≤ whaleCap chunkBucket total width chunkTokens)) ∧
    ∀ total world chunkTokens width, k3WhaleWidth
      (k3WhaleSegments level chunkBucket) total world chunkTokens = some width ↔
      (∃ place, width = 2 ^ place) ∧ 2 ≤ width ∧ width ≤ world ∧
        k3WhaleAdmits (k3WhaleSegments level chunkBucket) total width chunkTokens = true ∧
        ∀ wider, width < 2 ^ wider → 2 ^ wider ≤ world →
          k3WhaleAdmits (k3WhaleSegments level chunkBucket) total (2 ^ wider) chunkTokens = false := by
  refine ⟨fun total width chunkTokens wide enough positive =>
    ⟨cutFrom_cut positive width 0 (by omega), fun short => ?_, fun covers => ?_⟩,
    fun total world chunkTokens width => k3WhaleWidth_eq_some world width⟩
  · by_contra admitted
    rw [k3WhaleAdmits_whole enough positive (Bool.not_eq_false _ ▸ admitted)] at short
    exact lt_irrefl _ short
  · obtain ⟨ranks, rfl⟩ : ∃ ranks, width = ranks + 1 := ⟨width - 1, by omega⟩
    exact cutFrom_covered positive (whaleCap_le total (ranks + 1) chunkTokens) ranks 0 (by omega) covers

/-- The leveling for `K3_CP_QUAD_PER_LINEAR`, in whole ten-millionths and rounded down. -/
def quadratic : Leveling Nat where
  len := fun start budget =>
    (Nat.sqrt ((20000000 + 54 * start) ^ 2 + 216 * budget) - (20000000 + 54 * start)) / 54
  zero := 0
  bound := fun total width => (total + width - 1) / width * (10000000 + 27 * total)
  middle := fun lo hi => (lo + hi) / 2

def k3ChunkBucket (rows : Nat) : Option Nat :=
  if rows = 0 then none
  else [1, 2, 4, 8, 16, 32, 48, 64, 96, 128, 256, 512, 1024, 2048, 4224, 8448,
    16896].find? fun bucket => rows ≤ bucket

/-- Ten tokens over two ranks that afford what the budget says. -/
theorem whale_split_exact_ten :
    endOf 0 (k3WhaleSegments ⟨fun _ budget => budget, 0, fun total _ => total, fun lo hi =>
      (lo + hi) / 2⟩ (fun _ => some 8) 10 2 6) = 10 ∧
      k3WhaleWidth (k3WhaleSegments ⟨fun _ budget => budget, 0, fun total _ => total, fun lo hi =>
        (lo + hi) / 2⟩ fun _ => some 8192) 10000 5 8192 = some 4 := by
  constructor
  · have split := (@whale_split_exact Nat ⟨fun _ budget => budget, 0, fun total _ => total,
      fun lo hi => (lo + hi) / 2⟩ (fun _ => some 8)).1
      10 2 6 (by decide) (by decide) (by decide)
    exact (split.2.2 (by decide +kernel)).1
  · refine ((@whale_split_exact Nat ⟨fun _ budget => budget, 0, fun total _ => total, fun lo hi =>
      (lo + hi) / 2⟩ (fun _ => some 8192)).2
      10000 5 8192 4).mpr ⟨⟨2, rfl⟩, by decide, by decide, by decide +kernel, fun wider above within => ?_⟩
    have exponent : 2 < wider := (Nat.pow_lt_pow_iff_right (show 1 < 2 by decide)).mp above
    have big : 2 ^ 3 ≤ 2 ^ wider := Nat.pow_le_pow_right (by decide) exponent
    omega

end PegaInfer.K3
