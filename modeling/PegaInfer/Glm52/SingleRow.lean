import PegaInfer.Glm52.Serve
import PegaInfer.Glm52.Window

namespace PegaInfer.Glm52

/-- A slot has sampled a token exactly when its prompt is fed. -/
structure SlotState.Sound (state : SlotState) : Prop where
  fresh : state.midPrefill = true → state.completion = 0
  anchored : state.midPrefill = false → 0 < state.completion

theorem SlotState.nextInputAt_zero (state : SlotState) : ∃ input, state.nextInputAt 0 = some input ∧
    input.position = if state.midPrefill then state.fed else state.prompt.length + state.completion - 1 := by
  unfold SlotState.nextInputAt
  split
  · rename_i feeding
    have unfed : state.fed < state.prompt.length := of_decide_eq_true feeding
    exact ⟨⟨state.prompt[state.fed], state.fed⟩, by simp [List.getElem?_eq_getElem unfed], rfl⟩
  · exact ⟨⟨state.lastToken, state.prompt.length + state.completion - 1⟩, by simp, rfl⟩

/-- A consumed token is counted, whatever it ends. -/
theorem commitLoop_advances {maxTokens : Nat} {ignoreEos : Bool} {eosTokenIds : List Token}
    (committed : List Token)
    (loop : SlotState.CommitLoop) :
    loop.completion ≤ (SlotState.commitLoop maxTokens ignoreEos eosTokenIds committed loop).completion ∧
      (committed ≠ [] → loop.completion <
        (SlotState.commitLoop maxTokens ignoreEos eosTokenIds committed loop).completion) := by
  induction committed generalizing loop with
  | nil => exact ⟨le_rfl, fun some_ => absurd rfl some_⟩
  | cons token committed ih =>
    rw [SlotState.commitLoop]
    split
    · exact ⟨Nat.le_succ _, fun _ => Nat.lt_succ_self _⟩
    · split
      · exact ⟨Nat.le_succ _, fun _ => Nat.lt_succ_self _⟩
      · obtain ⟨low, -⟩ := ih ⟨loop.completion + 1, loop.emit + 1, token, loop.finish⟩
        dsimp only at low
        exact ⟨by omega, fun _ => by omega⟩

theorem commitLoop_single {maxTokens : Nat} {ignoreEos : Bool} {eosTokenIds : List Token}
    (token : Token) (loop : SlotState.CommitLoop) :
    (SlotState.commitLoop maxTokens ignoreEos eosTokenIds [token] loop).completion = loop.completion + 1 := by
  rw [SlotState.commitLoop]
  split
  · rfl
  · split
    · rfl
    · rfl

theorem SlotState.Sound.drafts {state : SlotState} (sound : state.Sound)
    (drafts : List Token) (spanDrafts : Nat) :
    (state.setDrafts drafts spanDrafts).Sound := ⟨sound.fresh, sound.anchored⟩

theorem SlotState.Sound.span {state : SlotState} (sound : state.Sound) (eosTokenIds : List Token)
    {outputs : List Token}
    (granted : outputs ≠ []) : (state.advanceSpan outputs eosTokenIds).1.Sound := by
  have rows := List.length_pos_of_ne_nil granted
  unfold SlotState.advanceSpan
  split
  · rename_i feeding
    dsimp only
    split
    · rename_i still
      exact ⟨fun _ => sound.fresh feeding, fun fed => by simp [still] at fed⟩
    · rename_i fed
      have last : outputs.getLast?.toList ≠ [] := by simp [granted]
      refine ⟨fun still => absurd still fed, fun _ => ?_⟩
      have more := (@commitLoop_advances state.maxTokens state.ignoreEos eosTokenIds
        outputs.getLast?.toList ⟨state.completion, 0, state.lastToken, none⟩).2 last
      exact (Nat.zero_le _).trans_lt more
  · rename_i decoding
    have shorter : (state.drafts.take (outputs.length - 1)).length < outputs.length := by
      rw [List.length_take]
      omega
    have more := (@commitLoop_advances state.maxTokens state.ignoreEos eosTokenIds _
      ⟨state.completion, 0, state.lastToken, none⟩).2 (acceptPrefixMatch_ne_nil shorter)
    have positive := (Nat.zero_le _).trans_lt more
    dsimp only
    split
    · exact ⟨fun still => absurd still decoding, fun _ => positive⟩
    · exact ⟨fun still => absurd still decoding, fun _ => positive⟩

theorem commitSpan_single (state : SlotState) (eosTokenIds : List Token) (token : Token) (contextRows : Nat) :
    (state.commitSpan eosTokenIds [token] contextRows).1.completion = state.completion + 1 := by
  unfold SlotState.commitSpan
  exact commitLoop_single token _

/-- One row fed to a slot that wants one commits one token. -/
theorem SlotState.advanceSpan_single {state : SlotState} (eosTokenIds : List Token) (token : Token)
    (wants : state.feedWant = 1) :
    (state.advanceSpan [token] eosTokenIds).1.midPrefill = false ∧
      (state.advanceSpan [token] eosTokenIds).1.prompt = state.prompt ∧
      (state.advanceSpan [token] eosTokenIds).1.completion = state.completion + 1 := by
  unfold SlotState.feedWant at wants
  unfold SlotState.advanceSpan
  by_cases feeding : state.midPrefill = true
  · have unfed : state.fed < state.prompt.length := of_decide_eq_true feeding
    rw [if_pos feeding, SlotState.remainingPrompt] at wants
    have last : ¬ state.fed + [token].length < state.prompt.length := by
      rw [List.length_singleton]
      omega
    have done : ({ state with fed := state.fed + [token].length } : SlotState).midPrefill = false :=
      decide_eq_false last
    rw [if_pos feeding]
    dsimp only
    rw [if_neg (by rw [done]; decide)]
    exact ⟨done, rfl, commitSpan_single _ eosTokenIds token _⟩
  · rw [if_neg feeding]
    have decoding : state.midPrefill = false := by simpa using feeding
    exact ⟨decoding, rfl, commitSpan_single _ eosTokenIds token _⟩

/-- Its next input is one position on. -/
theorem SlotState.Sound.single {state : SlotState} (sound : state.Sound)
    (eosTokenIds : List Token) (token : Token)
    (wants : state.feedWant = 1) {input : StepInput} (fed : state.nextInputAt 0 = some input) :
    ∃ next, (state.advanceSpan [token] eosTokenIds).1.nextInputAt 0 = some next ∧
      next.position = input.position + 1 := by
  obtain ⟨first, found, position⟩ := state.nextInputAt_zero
  obtain ⟨next, nextFound, nextPosition⟩ := (state.advanceSpan [token] eosTokenIds).1.nextInputAt_zero
  cases found.symm.trans fed
  obtain ⟨decoding, prompt, completion⟩ := SlotState.advanceSpan_single eosTokenIds token wants
  refine ⟨next, nextFound, ?_⟩
  rw [nextPosition, position, decoding, prompt, completion]
  unfold SlotState.feedWant at wants
  by_cases feeding : state.midPrefill = true
  · have unfed : state.fed < state.prompt.length := of_decide_eq_true feeding
    have zero := sound.fresh feeding
    rw [if_pos feeding, SlotState.remainingPrompt] at wants
    rw [if_pos feeding, if_neg Bool.false_ne_true]
    omega
  · have anchored := sound.anchored (by simpa using feeding)
    rw [if_neg feeding, if_neg Bool.false_ne_true]
    omega

/-- A shape with one row for each of some slots. -/
structure OneRow (shape : StepShape) (ids : List Nat) : Prop where
  rows : shape.slots.take shape.activeRows = ids.map UInt8.ofNat
  distinct : ids.Nodup
  small : ∀ id ∈ ids, id < maxBatchPerRank

theorem slot_toNat {id : Nat} (small : id < maxBatchPerRank) : (UInt8.ofNat id).toNat = id := by
  rw [UInt8.toNat_ofNat']
  dsimp only [maxBatchPerRank] at small
  omega

theorem spanRuns_ne_nil (rows : List (UInt8 × Token)) : ∀ run ∈ spanRuns rows, run.2 ≠ [] := by
  induction rows with
  | nil => simp [spanRuns]
  | cons row rows ih =>
    rw [spanRuns]
    split
    · rename_i next outputs runs found
      rw [found] at ih
      split
      · rintro run (_ | ⟨_, member⟩)
        · exact List.cons_ne_nil _ _
        · exact ih run (List.mem_cons_of_mem _ member)
      · rintro run (_ | ⟨_, member⟩)
        · exact List.cons_ne_nil _ _
        · exact ih run member
    · simp

theorem spanRuns_singles (ids : List Nat) (start : Nat) (distinct : ids.Nodup)
    (small : ∀ id ∈ ids, id < maxBatchPerRank)
    (outputs : Nat → Token) :
    spanRuns (((ids.map UInt8.ofNat).zipIdx start).map fun (slot, row) => (slot, outputs row)) =
      (ids.zipIdx start).map fun (id, row) => (id, [outputs row]) := by
  induction ids generalizing start with
  | nil => rfl
  | cons id ids ih =>
    rw [List.nodup_cons] at distinct
    have rest := ih (start + 1) distinct.2 fun other member => small other (List.mem_cons_of_mem _ member)
    have here := slot_toNat (small id (List.mem_cons_self ..))
    simp only [List.map_cons, List.zipIdx_cons]
    rw [spanRuns, rest]
    cases ids with
    | nil => simp [here]
    | cons next ids =>
      have apart : id ≠ next := fun same => distinct.1 (by simp [same])
      simp only [List.zipIdx_cons, List.map_cons, here, if_neg apart]

/-- The runs of a one-row shape are its slots, each with one output. -/
theorem OneRow.runs {shape : StepShape} {ids : List Nat} (single : OneRow shape ids) (outputs : Nat → Token) :
    shape.runs outputs = ids.zipIdx.map fun (id, row) => (id, [outputs row]) := by
  rw [StepShape.runs, single.rows]
  exact spanRuns_singles ids 0 single.distinct single.small outputs

/-- The slots with a row in a one-row plan. -/
def ones (spans : List Nat) (start : Nat) : List Nat :=
  ((spans.zipIdx start).filter fun (span, _) => span = 1).map Prod.snd

theorem runs_ones (spans : List Nat) (start : Nat) (single : ∀ span ∈ spans, span ≤ 1) :
    runs spans start = (ones spans start).map UInt8.ofNat := by
  induction spans generalizing start with
  | nil => rfl
  | cons span spans ih =>
    have rest := ih (start + 1) fun other member => single other (List.mem_cons_of_mem _ member)
    rw [runs, ones] at rest ⊢
    rw [List.zipIdx_cons, List.flatMap_cons, rest, List.filter_cons]
    have here := single span (List.mem_cons_self ..)
    rcases Nat.le_one_iff_eq_zero_or_eq_one.mp here with rfl | rfl
    · simp
    · simp

theorem mem_ones {spans : List Nat} {start slot : Nat} :
    slot ∈ ones spans start ↔ start ≤ slot ∧ spans[slot - start]? = some 1 := by
  simp only [ones, List.mem_map, List.mem_filter, decide_eq_true_eq, Prod.exists, exists_eq_right,
    List.mk_mem_zipIdx_iff_le_and_getElem?_sub]

theorem sum_le_sum_of_getD {few many : List Nat} (long : few.length = many.length)
    (below : ∀ i, few.getD i 0 ≤ many.getD i 0) :
    few.sum ≤ many.sum := by
  induction few generalizing many with
  | nil => exact Nat.zero_le _
  | cons one few ih =>
    cases many with
    | nil => simp at long
    | cons two many =>
      have here := below 0
      have rest := @ih many (by simpa using long) fun i => by simpa using below (i + 1)
      simp only [List.getD_cons_zero] at here
      simp only [List.sum_cons]
      omega

/-- A split that gives every slot at most its want and all the rows wanted gives every want. -/
theorem eq_of_sum_eq {few many : List Nat} (long : few.length = many.length)
    (below : ∀ i, few.getD i 0 ≤ many.getD i 0)
    (all : few.sum = many.sum) : few = many := by
  induction few generalizing many with
  | nil => exact (List.length_eq_zero_iff.mp long.symm).symm
  | cons one few ih =>
    cases many with
    | nil => simp at long
    | cons two many =>
      have here := below 0
      have shorter : few.length = many.length := by simpa using long
      have rest : ∀ i, few.getD i 0 ≤ many.getD i 0 := fun i => by simpa using below (i + 1)
      have bound := sum_le_sum_of_getD shorter rest
      simp only [List.getD_cons_zero] at here
      simp only [List.sum_cons] at all
      have first : one = two := by omega
      rw [first, ih shorter rest (by omega)]

/-- Where every slot wants at most a row, the step's shape gives each wanting slot its row. -/
theorem planStepShape_oneRow {wants : Vector Nat maxBatchPerRank} {shape : StepShape}
    (single : ∀ want ∈ wants.toList, want ≤ 1)
    (planned : planStepShape wants = some shape) :
    ∃ ids, OneRow shape ids ∧ ∀ slot, wants.toList[slot]? = some 1 → slot ∈ ids := by
  obtain ⟨shape', spans, made, -, fair, -, covered, -, active, -, rows⟩ := planStepShape_spec wants
  cases made.symm.trans planned
  have most : wants.toList.sum ≤ maxStepRows := by
    have bound := List.sum_le_card_nsmul wants.toList 1 single
    rw [Vector.length_toList, smul_eq_mul, Nat.mul_one] at bound
    exact bound.trans (by decide)
  have total := fair.exact_
  have same := eq_of_sum_eq fair.length fair.within (by omega)
  subst same
  refine ⟨ones wants.toList 0, ⟨by rw [rows, runs_ones _ 0 single], ?_, ?_⟩, fun slot found =>
    mem_ones.mpr ⟨Nat.zero_le _, found⟩⟩
  · have numbered : ((wants.toList.zipIdx 0).map Prod.snd).Nodup := by
      rw [List.zipIdx_map_snd]
      exact List.nodup_range'
    exact numbered.sublist (List.Sublist.map _ List.filter_sublist)
  · intro id member
    have found := (mem_ones.mp member).2
    have within := (List.getElem?_eq_some_iff.mp found).1
    rw [Vector.length_toList] at within
    exact within

end PegaInfer.Glm52
