import Mathlib

namespace PegaInfer.Glm52

/-- `GLM52_MAX_BATCH_PER_RANK`. -/
def maxBatchPerRank : Nat := 32

/-- `GLM52_MAX_STEP_ROWS`. -/
def maxStepRows : Nat := 96

/-- `GLM52_DECODE_BUCKETS`, ascending. -/
def decodeBuckets : List Nat := [1, 2, 4, 8, 16, 32, 48, 64, maxStepRows]

/-- One slot while a launch is split: the rows it wants and the rows it has. -/
structure Share where
  want : Nat
  span : Nat
  deriving DecidableEq

/-- The liveness pass: one row for every wanting slot while the budget lasts. -/
def firstRows (maxRows : Nat) : List Nat → (used : Nat) → List Share × Nat
  | [], used => ([], used)
  | want :: wants, used =>
    if 0 < want ∧ used < maxRows then
      let rest := firstRows maxRows wants (used + 1)
      (⟨want, 1⟩ :: rest.1, rest.2)
    else
      let rest := firstRows maxRows wants used
      (⟨want, 0⟩ :: rest.1, rest.2)

structure Sweep where
  shares : List Share
  used : Nat
  advanced : Bool
  deriving DecidableEq

/-- One sweep of the round-robin; it stops where the budget is used up. -/
def sweep (maxRows : Nat) : List Share → (used : Nat) → Sweep
  | [], used => ⟨[], used, false⟩
  | share :: shares, used =>
    if used = maxRows then ⟨share :: shares, used, false⟩
    else if 0 < share.span ∧ share.span < share.want then
      let rest := sweep maxRows shares (used + 1)
      ⟨{ share with span := share.span + 1 } :: rest.shares, rest.used, true⟩
    else
      let rest := sweep maxRows shares used
      ⟨share :: rest.shares, rest.used, rest.advanced⟩

theorem sweep_used {maxRows : Nat} (shares : List Share) {used : Nat} (within : used ≤ maxRows) :
    used ≤ (sweep maxRows shares used).used ∧ (sweep maxRows shares used).used ≤ maxRows ∧
      ((sweep maxRows shares used).advanced = true → used < (sweep maxRows shares used).used) := by
  induction shares generalizing used with
  | nil => simp [sweep, within]
  | cons share shares ih =>
    rw [sweep]
    split
    · simp [within]
    · split
      · obtain ⟨low, high, -⟩ := @ih (used + 1) (by omega)
        dsimp only
        exact ⟨by omega, high, fun _ => by omega⟩
      · exact ih within

/-- The sweeps go on until the budget is used or no slot advances. -/
def grow (maxRows : Nat) (shares : List Share) (used : Nat) : List Share :=
  if used < maxRows then
    if (sweep maxRows shares used).advanced then
      grow maxRows (sweep maxRows shares used).shares (sweep maxRows shares used).used
    else (sweep maxRows shares used).shares
  else shares
termination_by maxRows - used
decreasing_by
  rename_i room moved
  have progress := (sweep_used shares (Nat.le_of_lt room)).2.2 moved
  omega

/-- `plan_prefill_spans`; a budget of no rows is a panic. -/
def planPrefillSpans (wants : List Nat) (maxRows : Nat) : Option (List Nat) :=
  if maxRows = 0 then none
  else
    let first := firstRows maxRows wants 0
    some ((grow maxRows first.1 first.2).map Share.span)

structure StepShape where
  bucket : Nat
  slots : List UInt8
  activeRows : Nat
  deriving DecidableEq

/-- The rows of one slot, written from row `dst`; a row past the array is a panic. -/
def emitSpan (slot : UInt8) : (span : Nat) → (slots : List UInt8) → (dst : Nat) → Option (List UInt8 × Nat)
  | 0, slots, dst => some (slots, dst)
  | span + 1, slots, dst => if dst < slots.length
    then emitSpan slot span (slots.set dst slot) (dst + 1) else none

def emitSpans : (spans : List Nat) → (slot : Nat) → (slots : List UInt8) → (dst : Nat) →
    Option (List UInt8 × Nat)
  | [], _, slots, dst => some (slots, dst)
  | span :: spans, slot, slots, dst => do
    let (slots, dst) ← emitSpan (UInt8.ofNat slot) span slots dst
    emitSpans spans (slot + 1) slots dst

/-- `plan_step_shape`; `none` is a panic. -/
def planStepShape (wants : Vector Nat maxBatchPerRank) : Option StepShape := do
  let demand := min wants.toList.sum maxStepRows
  let bucket ← decodeBuckets.find? fun rows => max demand 1 ≤ rows
  let spans ← planPrefillSpans wants.toList bucket
  let (slots, activeRows) ← emitSpans spans 0 (List.replicate maxStepRows 0) 0
  some { bucket, slots, activeRows }

/-- Every slot has its want or `level` rows, whichever is less. -/
def AtLevel (level : Nat) (shares : List Share) : Prop := ∀ share ∈ shares, share.span = min share.want level

theorem AtLevel.sum_le {level : Nat} {shares : List Share} (flat : AtLevel level shares) :
    (shares.map Share.span).sum ≤ (shares.map Share.want).sum := by
  induction shares with
  | nil => simp
  | cons share shares ih =>
    have rest := ih fun other member => flat other (List.mem_cons_of_mem _ member)
    have here := flat share (List.mem_cons_self ..)
    simp only [List.map_cons, List.sum_cons]
    omega

theorem firstRows_full (maxRows : Nat) (wants : List Nat) :
    firstRows maxRows wants maxRows = (wants.map fun want => ⟨want, 0⟩, maxRows) := by
  induction wants with
  | nil => rfl
  | cons want wants ih => simp [firstRows, ih]

theorem unfed (wants : List Nat) : (wants.map fun want => (⟨want, 0⟩ : Share)).map Share.want = wants ∧
    ((wants.map fun want => (⟨want, 0⟩ : Share)).map Share.span).sum = 0 ∧
    AtLevel 0 (wants.map fun want => (⟨want, 0⟩ : Share)) := by
  induction wants with
  | nil => exact ⟨rfl, rfl, by simp [AtLevel]⟩
  | cons want wants ih =>
    obtain ⟨same, nothing, level⟩ := ih
    refine ⟨by simpa using same, by simpa using nothing, ?_⟩
    rintro share (_ | ⟨_, member⟩)
    · exact (Nat.min_zero want).symm
    · exact level share member

/-- What the liveness pass leaves: one row each up to a slot where the budget ran out. -/
theorem firstRows_spec {maxRows : Nat} (wants : List Nat) {used : Nat} (within : used ≤ maxRows) :
    (firstRows maxRows wants used).1.map Share.want = wants ∧
      (firstRows maxRows wants used).2 = used + ((firstRows maxRows wants used).1.map Share.span).sum ∧
      (firstRows maxRows wants used).2 ≤ maxRows ∧
      ∃ front back, (firstRows maxRows wants used).1 = front ++ back ∧ AtLevel 1 front ∧ AtLevel 0 back ∧
        ((firstRows maxRows wants used).2 < maxRows → back = []) := by
  induction wants generalizing used with
  | nil => exact ⟨rfl, rfl, within, [], [], rfl, by simp [AtLevel], by simp [AtLevel], fun _ => rfl⟩
  | cons want wants ih =>
    rcases within.lt_or_eq with room | full
    · rw [firstRows]
      by_cases wanting : 0 < want
      · obtain ⟨same, total, bound, front, back, split, level, none, exhausted⟩ := @ih (used + 1) (by omega)
        rw [if_pos ⟨wanting, room⟩]
        refine ⟨by simp [same], ?_, bound, ⟨want, 1⟩ :: front, back, by simp [split], ?_, none, exhausted⟩
        · simp only [List.map_cons, List.sum_cons, total]
          omega
        · rintro share (_ | ⟨_, member⟩)
          · dsimp only
            omega
          · exact level share member
      · obtain ⟨same, total, bound, front, back, split, level, none, exhausted⟩ := ih within
        rw [if_neg fun granted => wanting granted.1]
        refine ⟨by simp [same], ?_, bound, ⟨want, 0⟩ :: front, back, by simp [split], ?_, none, exhausted⟩
        · simp only [List.map_cons, List.sum_cons, total]
          omega
        · rintro share (_ | ⟨_, member⟩)
          · dsimp only
            omega
          · exact level share member
    · subst full
      rw [firstRows_full]
      obtain ⟨same, nothing, level⟩ := unfed (want :: wants)
      exact ⟨same, by simp only [nothing]; omega, le_rfl, [], _, rfl, by simp [AtLevel], level,
        fun room => absurd room (lt_irrefl _)⟩

/-- What a sweep leaves of shares that all stand at one level: the next level up to a slot where
the budget ran out. -/
theorem sweep_spec {maxRows level : Nat} (shares : List Share) {used : Nat}
    (within : used ≤ maxRows) (positive : 0 < level)
    (flat : AtLevel level shares) :
    (sweep maxRows shares used).shares.map Share.want = shares.map Share.want ∧
      (sweep maxRows shares used).used + (shares.map Share.span).sum =
        used + ((sweep maxRows shares used).shares.map Share.span).sum ∧
      (∃ front back, (sweep maxRows shares used).shares = front ++ back ∧
        AtLevel (level + 1) front ∧ AtLevel level back ∧
        ((sweep maxRows shares used).used < maxRows → back = [])) ∧
      ((sweep maxRows shares used).advanced = false → (sweep maxRows shares used).shares = shares ∧
        (used < maxRows → ∀ share ∈ shares, share.span = share.want)) := by
  induction shares generalizing used with
  | nil =>
    exact ⟨rfl, rfl, ⟨[], [], rfl, by simp [AtLevel], by simp [AtLevel], fun _ => rfl⟩,
      fun _ => ⟨rfl, by simp⟩⟩
  | cons share shares ih =>
    have here := flat share (List.mem_cons_self ..)
    have later : AtLevel level shares := fun other member => flat other (List.mem_cons_of_mem _ member)
    rcases within.lt_or_eq with room | full
    · rw [sweep, if_neg room.ne]
      by_cases short : share.span < share.want
      · obtain ⟨same, total, ⟨front, back, split, above, below, exhausted⟩, -⟩ :=
          @ih (used + 1) (by omega) later
        rw [if_pos ⟨by omega, short⟩]
        refine ⟨by simp [same], ?_, ⟨{ share with span := share.span + 1 } :: front,
          back, by simp [split], ?_, below, exhausted⟩, by simp⟩
        · simp only [List.map_cons, List.sum_cons]
          omega
        · rintro other (_ | ⟨_, member⟩)
          · dsimp only
            omega
          · exact above other member
      · obtain ⟨same, total, ⟨front, back, split, above, below, exhausted⟩, still⟩ := ih within later
        rw [if_neg fun advancing => short advancing.2]
        refine ⟨by simp [same], ?_, ⟨share :: front, back, by simp [split], ?_, below, exhausted⟩, ?_⟩
        · simp only [List.map_cons, List.sum_cons]
          omega
        · rintro other (_ | ⟨_, member⟩)
          · omega
          · exact above other member
        · intro rested
          obtain ⟨unchanged, met⟩ := still rested
          refine ⟨by simp [unchanged], fun room => ?_⟩
          rintro other (_ | ⟨_, member⟩)
          · omega
          · exact met room other member
    · rw [sweep, if_pos full]
      exact ⟨rfl, rfl, ⟨[], share :: shares, rfl, by simp [AtLevel], flat, fun room =>
        absurd room full.not_lt⟩,
        fun _ => ⟨rfl, fun room => absurd room full.not_lt⟩⟩

/-- The shares of a finished split: a level reached by every slot, one more row for the slots up to
some point, and the budget used as far as the wants go. -/
structure Split (maxRows : Nat) (wants : List Nat) (shares : List Share) : Prop where
  same : shares.map Share.want = wants
  leveled : ∃ level front back, shares = front ++ back ∧ AtLevel (level + 1) front ∧ AtLevel level back
  exact_ : (shares.map Share.span).sum = min maxRows wants.sum

theorem grow_split {maxRows level : Nat} {wants : List Nat} {shares : List Share} {used : Nat}
    (positive : 0 < level)
    (same : shares.map Share.want = wants) (flat : AtLevel level shares)
    (total : used = (shares.map Share.span).sum)
    (within : used ≤ maxRows) : Split maxRows wants (grow maxRows shares used) := by
  have below := flat.sum_le
  rw [same] at below
  induction shares, used using grow.induct maxRows generalizing level with
  | case1 shares used room moved ih =>
    obtain ⟨kept, balance, ⟨front, back, split, above, rest, exhausted⟩, -⟩ :=
      sweep_spec shares within positive flat
    have high := (sweep_used shares within).2.1
    rw [grow, if_pos room, if_pos moved]
    rcases high.lt_or_eq with more | full
    · have whole : AtLevel (level + 1) (sweep maxRows shares used).shares := by
        rw [split, exhausted more, List.append_nil]
        exact above
      have sum := whole.sum_le
      rw [kept, same] at sum
      exact ih (Nat.succ_pos level) (kept.trans same) whole (by omega) high sum
    · rw [grow, if_neg full.not_lt]
      refine ⟨kept.trans same, ⟨level, front, back, split, above, rest⟩, ?_⟩
      have fronts := above.sum_le
      have backs := rest.sum_le
      have wanted := congrArg List.sum (kept.trans same)
      rw [split, List.map_append, List.sum_append] at wanted balance ⊢
      omega
  | case2 shares used room still =>
    obtain ⟨unchanged, met⟩ := (sweep_spec shares within positive flat).2.2.2 (by simpa using still)
    rw [grow, if_pos room, if_neg still, unchanged]
    have all : shares.map Share.span = shares.map Share.want := List.map_congr_left (met room)
    refine ⟨same, ⟨level, [], shares, rfl, by simp [AtLevel], flat⟩, ?_⟩
    rw [all, same] at total ⊢
    omega
  | case3 shares used full =>
    rw [grow, if_neg full]
    exact ⟨same, ⟨level, [], shares, rfl, by simp [AtLevel], flat⟩, by omega⟩

theorem planPrefillSpans_split {wants : List Nat} {maxRows : Nat} (positive : 0 < maxRows) :
    ∃ shares, planPrefillSpans wants maxRows = some (shares.map Share.span) ∧ Split maxRows wants shares := by
  refine ⟨_, by rw [planPrefillSpans, if_neg positive.ne'], ?_⟩
  obtain ⟨same, total, within, front, back, split, one, none, exhausted⟩ :=
    firstRows_spec wants (Nat.zero_le maxRows)
  rw [Nat.zero_add] at total
  rcases within.lt_or_eq with room | full
  · refine grow_split Nat.one_pos same ?_ total within
    rw [split, exhausted room, List.append_nil]
    exact one
  · rw [grow, if_neg full.not_lt]
    refine ⟨same, ⟨0, front, back, split, one, none⟩, ?_⟩
    have fronts := one.sum_le
    have backs := none.sum_le
    have wanted := congrArg List.sum same
    rw [split, List.map_append, List.sum_append] at wanted total ⊢
    omega

/-- What a launch split of `maxRows` rows owes the slots. -/
structure Fair (maxRows : Nat) (wants spans : List Nat) : Prop where
  length : spans.length = wants.length
  within : ∀ slot, spans.getD slot 0 ≤ wants.getD slot 0
  exact_ : spans.sum = min maxRows wants.sum
  live : wants.countP (0 < ·) ≤ maxRows → ∀ slot, 0 < wants.getD slot 0 → 0 < spans.getD slot 0
  even : ∀ one two, spans.getD one 0 < wants.getD one 0 → spans.getD two 0 < wants.getD two 0 →
    spans.getD one 0 ≤ spans.getD two 0 + 1

/-- A wanting slot without a row leaves fewer rows than there are wanting slots. -/
theorem sum_lt_countP {shares : List Share} (low : ∀ share ∈ shares, share.span ≤ min share.want 1)
    (starved : ∃ share ∈ shares, 0 < share.want ∧ share.span = 0) :
    (shares.map Share.span).sum < (shares.map Share.want).countP (0 < ·) := by
  have most : ∀ shares : List Share, (∀ share ∈ shares, share.span ≤ min share.want 1) →
      (shares.map Share.span).sum ≤ (shares.map Share.want).countP (0 < ·) := by
    intro shares low
    induction shares with
    | nil => simp
    | cons share shares ih =>
      have rest := ih fun other member => low other (List.mem_cons_of_mem _ member)
      have here := low share (List.mem_cons_self ..)
      simp only [List.map_cons, List.sum_cons, List.countP_cons, decide_eq_true_eq]
      split <;> omega
  induction shares with
  | nil => simp at starved
  | cons share shares ih =>
    have later : ∀ other ∈ shares, other.span ≤ min other.want 1 :=
      fun other member => low other (List.mem_cons_of_mem _ member)
    have here := low share (List.mem_cons_self ..)
    have bound := most shares later
    simp only [List.map_cons, List.sum_cons, List.countP_cons, decide_eq_true_eq]
    obtain ⟨other, _ | ⟨_, member⟩, hungry, empty⟩ := starved
    · rw [if_pos hungry]
      omega
    · have rest := ih later ⟨other, member, hungry, empty⟩
      split <;> omega

theorem countP_le_sum (wants : List Nat) : wants.countP (0 < ·) ≤ wants.sum := by
  induction wants with
  | nil => simp
  | cons want wants ih =>
    simp only [List.countP_cons, List.sum_cons, decide_eq_true_eq]
    split <;> omega

/-- The share of a slot, or an empty one past the last slot. -/
theorem Split.share {maxRows : Nat} {wants : List Nat} {shares : List Share}
    (split : Split maxRows wants shares) (slot : Nat) :
    ∃ share : Share, (share ∈ shares ∨ share = ⟨0, 0⟩) ∧ share.want = wants.getD slot 0 ∧
      share.span = (shares.map Share.span).getD slot 0 := by
  rw [← split.same]
  simp only [List.getD_eq_getElem?_getD, List.getElem?_map]
  cases found : shares[slot]? with
  | none => exact ⟨⟨0, 0⟩, Or.inr rfl, rfl, rfl⟩
  | some share => exact ⟨share, Or.inl (List.mem_of_getElem? found), rfl, rfl⟩

theorem Split.fair {maxRows : Nat} {wants : List Nat} {shares : List Share}
    (split : Split maxRows wants shares) :
    Fair maxRows wants (shares.map Share.span) := by
  obtain ⟨level, front, back, whole, above, below⟩ := split.leveled
  have each : ∀ share : Share, share ∈ shares ∨ share = ⟨0, 0⟩ →
      share.span = min share.want (level + 1) ∨ share.span = min share.want level := by
    rintro share (member | rfl)
    · rw [whole, List.mem_append] at member
      exact member.imp (above share) (below share)
    · exact Or.inr (Nat.zero_min level).symm
  have count := congrArg List.length split.same
  refine ⟨by simpa using count, fun slot => ?_, split.exact_, fun enough slot hungry => ?_,
    fun one two short short' => ?_⟩
  · obtain ⟨share, member, want, span⟩ := split.share slot
    have row := each share member
    omega
  · obtain ⟨share, member, want, span⟩ := split.share slot
    by_contra starved
    have row := each share member
    have ground : level = 0 := by omega
    have held : share ∈ shares := member.resolve_right fun empty => by subst empty; dsimp only at want; omega
    have low : ∀ other ∈ shares, other.span ≤ min other.want 1 := by
      intro other inside
      have row := each other (Or.inl inside)
      omega
    have fewer := sum_lt_countP low ⟨share, held, by omega, by omega⟩
    have total := split.exact_
    have covered := countP_le_sum wants
    rw [split.same] at fewer
    omega
  · obtain ⟨share, member, want, span⟩ := split.share one
    obtain ⟨share', member', want', span'⟩ := split.share two
    have row := each share member
    have row' := each share' member'
    omega

/-- The rows of the slots, one run after another. -/
def runs (spans : List Nat) (slot : Nat) : List UInt8 :=
  (spans.zipIdx slot).flatMap fun (span, slot) => List.replicate span (UInt8.ofNat slot)

theorem runs_length (spans : List Nat) (slot : Nat) : (runs spans slot).length = spans.sum := by
  induction spans generalizing slot with
  | nil => rfl
  | cons span spans ih =>
    have rest := ih (slot + 1)
    rw [runs] at rest ⊢
    rw [List.zipIdx_cons, List.flatMap_cons, List.length_append, List.length_replicate, rest, List.sum_cons]

theorem emitSpan_spec (slot : UInt8) (span : Nat) (front back : List UInt8) (room : span ≤ back.length) :
    emitSpan slot span (front ++ back) front.length =
      some (front ++ List.replicate span slot ++ back.drop span, front.length + span) := by
  induction span generalizing front back with
  | zero => simp [emitSpan]
  | succ span ih =>
    cases back with
    | nil => simp at room
    | cons row back =>
      have inside : front.length < (front ++ row :: back).length := by simp
      rw [List.length_cons] at room
      have next := ih (front ++ [slot]) back (by omega)
      rw [emitSpan, if_pos inside, List.set_append_right _ _ le_rfl, Nat.sub_self, List.set_cons_zero]
      rw [List.append_assoc, List.singleton_append, List.length_append, List.length_singleton] at next
      rw [next]
      simp [List.replicate_succ, Nat.add_comm, Nat.add_left_comm]

theorem emitSpans_spec (spans : List Nat) (slot : Nat) (front back : List UInt8)
    (room : spans.sum ≤ back.length) :
    emitSpans spans slot (front ++ back) front.length =
      some (front ++ runs spans slot ++ back.drop spans.sum, front.length + spans.sum) := by
  induction spans generalizing slot front back with
  | nil => simp [emitSpans, runs]
  | cons span spans ih =>
    rw [List.sum_cons] at room
    have written := emitSpan_spec (UInt8.ofNat slot) span front back (by omega)
    have rest := ih (slot + 1) (front ++ List.replicate span (UInt8.ofNat slot)) (back.drop span)
      (by rw [List.length_drop]; omega)
    rw [List.length_append, List.length_replicate] at rest
    simp only [emitSpans, written, Option.bind_eq_bind, Option.bind_some, rest]
    simp [runs, Nat.add_assoc]

theorem decodeBuckets_covers {demand : Nat} (bound : demand ≤ maxStepRows) :
    ∃ bucket, decodeBuckets.find? (fun rows => max demand 1 ≤ rows) = some bucket ∧
      0 < bucket ∧ demand ≤ bucket ∧
      bucket ≤ maxStepRows ∧ bucket ∈ decodeBuckets ∧ ∀ rows ∈ decodeBuckets, demand ≤ rows →
        bucket ≤ rows := by
  have last : maxStepRows ∈ decodeBuckets := by decide
  have covered : max demand 1 ≤ maxStepRows := max_le bound (by decide)
  obtain ⟨bucket, found⟩ := Option.isSome_iff_exists.mp
    (List.find?_isSome (p := fun rows => max demand 1 ≤ rows).mpr ⟨_, last, decide_eq_true covered⟩)
  have enough := List.find?_some found
  rw [decide_eq_true_eq] at enough
  have member := List.mem_of_find?_eq_some found
  obtain ⟨-, front, back, table, earlier⟩ := List.find?_eq_some_iff_append.mp found
  have ascending : decodeBuckets.Pairwise (· < ·) := by decide
  have positive : ∀ rows ∈ decodeBuckets, 0 < rows := by decide
  have most : ∀ rows ∈ decodeBuckets, rows ≤ maxStepRows := by decide
  refine ⟨bucket, found, positive bucket member, by omega, most bucket member, member,
    fun rows listed large => ?_⟩
  rw [table, List.mem_append, List.mem_cons] at listed
  rw [table, List.pairwise_append, List.pairwise_cons] at ascending
  rcases listed with before | rfl | after
  · have small := earlier rows before
    have one := positive rows (by rw [table]; exact List.mem_append_left _ before)
    rw [Bool.not_eq_true', decide_eq_false_iff_not] at small
    omega
  · exact le_rfl
  · exact (ascending.2.1.1 rows after).le

/-- The shape of a step: the smallest bucket over the demand, filled by a fair split in runs. -/
theorem planStepShape_spec (wants : Vector Nat maxBatchPerRank) :
    ∃ shape spans, planStepShape wants = some shape ∧
      planPrefillSpans wants.toList shape.bucket = some spans ∧
      Fair shape.bucket wants.toList spans ∧ shape.bucket ∈ decodeBuckets ∧
        min wants.toList.sum maxStepRows ≤ shape.bucket ∧
      (∀ rows ∈ decodeBuckets, min wants.toList.sum maxStepRows ≤ rows → shape.bucket ≤ rows) ∧
      shape.activeRows = spans.sum ∧ shape.activeRows ≤ shape.bucket ∧
      shape.slots.take shape.activeRows = runs spans 0 := by
  obtain ⟨bucket, found, positive, covered, small, member, least⟩ :=
    decodeBuckets_covers (Nat.min_le_right wants.toList.sum maxStepRows)
  obtain ⟨shares, planned, split⟩ := @planPrefillSpans_split wants.toList _ positive
  have total := split.fair.exact_
  have written := emitSpans_spec (shares.map Share.span) 0 [] (List.replicate maxStepRows 0)
    (by rw [List.length_replicate]; omega)
  rw [List.nil_append, List.length_nil, List.nil_append, Nat.zero_add] at written
  have shape : planStepShape wants = some ⟨bucket, runs (shares.map Share.span) 0 ++
      (List.replicate maxStepRows 0).drop (shares.map Share.span).sum, (shares.map Share.span).sum⟩ := by
    simp only [planStepShape, found, planned, written, Option.bind_eq_bind, Option.bind_some]
  refine ⟨_, shares.map Share.span, shape, planned, split.fair, member, covered, least,
    rfl, by dsimp only; omega, ?_⟩
  dsimp only
  rw [← runs_length (shares.map Share.span) 0, List.take_left]

/-- A split of a launch is exact and fair, and a step's shape is the smallest bucket over the demand with
the slots' rows in runs. -/
theorem plan_exact (wants : Vector Nat maxBatchPerRank) :
    (∀ maxRows, 0 < maxRows → ∃ spans, planPrefillSpans wants.toList maxRows = some spans ∧
      Fair maxRows wants.toList spans) ∧
    ∃ shape spans, planStepShape wants = some shape ∧
      planPrefillSpans wants.toList shape.bucket = some spans ∧
      shape.bucket ∈ decodeBuckets ∧ min wants.toList.sum maxStepRows ≤ shape.bucket ∧
      (∀ rows ∈ decodeBuckets, min wants.toList.sum maxStepRows ≤ rows → shape.bucket ≤ rows) ∧
      shape.activeRows = spans.sum ∧ shape.activeRows ≤ shape.bucket ∧
      shape.slots.take shape.activeRows = runs spans 0 := by
  constructor
  · intro maxRows positive
    obtain ⟨shares, planned, split⟩ := @planPrefillSpans_split wants.toList _ positive
    exact ⟨_, planned, split.fair⟩
  · obtain ⟨shape, spans, made, planned, -, rest⟩ := planStepShape_spec wants
    exact ⟨shape, spans, made, planned, rest⟩

/-- A decode row beside two long prompts, split at the largest bucket. -/
theorem plan_exact_shared :
    planPrefillSpans [1, 3000, 3000] maxStepRows = some [1, 48, 47] ∧
    ∃ spans, planPrefillSpans (#v[1, 3000, 3000] ++
      Vector.replicate 29 0 : Vector Nat maxBatchPerRank).toList maxStepRows = some spans ∧
      Fair maxStepRows (#v[1, 3000, 3000] ++
        Vector.replicate 29 0 : Vector Nat maxBatchPerRank).toList spans :=
  ⟨by decide +kernel, (plan_exact (#v[1, 3000, 3000] ++ Vector.replicate 29 0)).1 maxStepRows (by decide)⟩

end PegaInfer.Glm52
