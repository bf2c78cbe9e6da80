import PegaInfer.Basic

namespace PegaInfer.KvStore

/-- Where a future returned by `flush` is. `awaiting` holds the handles still to be
awaited; `flushing` is inside the engine's flush, called when the tasks of `covered`
were over. -/
inductive FlushStage
  | awaiting (handles : List Nat)
  | flushing (covered : Finset Nat)
  | resolved
  | dropped

/-- A future returned by `flush`. `taken` is what its call took out of
`pending_saves`. -/
structure FlushFuture where
  taken : List Nat
  stage : FlushStage

/-- One `PegaflowTier` with its save tasks and flush futures. Save tasks are numbered
in the order they are spawned and futures in the order of their calls. `returned` are
the tasks whose `save` call has returned, `visible` those the engine can query. -/
structure PegaflowTier where
  pendingSaves : List Nat
  saveCount : Nat
  finished : Finset Nat
  returned : Finset Nat
  visible : Finset Nat
  flushCount : Nat
  futures : Nat → FlushFuture

namespace PegaflowTier

def new : PegaflowTier :=
  { pendingSaves := []
    saveCount := 0
    finished := ∅
    returned := ∅
    visible := ∅
    flushCount := 0
    futures := fun _ => { taken := [], stage := .dropped } }

/-- `pending.retain(|h| !h.is_finished())`, where the tasks of `seen` were over when
they were looked at. -/
def unfinished (tier : PegaflowTier) (seen : Finset Nat) : List Nat :=
  tier.pendingSaves.filter fun handle => handle ∉ seen

/-- The spawn inside `save`. -/
def spawnSave (tier : PegaflowTier) : PegaflowTier :=
  { tier with saveCount := tier.saveCount + 1 }

/-- The end of `save`, under the lock: prune and push. -/
def trackSave (tier : PegaflowTier) (seen : Finset Nat) (save : Nat) : PegaflowTier :=
  { tier with
    pendingSaves := tier.unfinished seen ++ [save]
    returned := insert save tier.returned }

/-- `flush`: prune and take under the lock; nothing else happens before the future
is polled. -/
def flush (tier : PegaflowTier) (seen : Finset Nat) : PegaflowTier :=
  { tier with
    pendingSaves := []
    flushCount := tier.flushCount + 1
    futures := Function.update tier.futures tier.flushCount
      { taken := tier.unfinished seen, stage := .awaiting (tier.unfinished seen) } }

/-- A save task ends, whether or not it saved. -/
def finish (tier : PegaflowTier) (save : Nat) : PegaflowTier :=
  { tier with finished := insert save tier.finished }

def setStage (tier : PegaflowTier) (flush : Nat) (stage : FlushStage) : PegaflowTier :=
  { tier with futures := Function.update tier.futures flush { tier.futures flush with stage } }

def reveal (tier : PegaflowTier) (saves : Finset Nat) : PegaflowTier :=
  { tier with visible := tier.visible ∪ saves }

end PegaflowTier

/-- One event of the tier: a part of a call, a step of a task or of the engine, a poll
of a future or its drop. A `save` of no block spawns nothing. -/
inductive TierStep : PegaflowTier → PegaflowTier → Prop
  | saveEmpty (tier : PegaflowTier) : TierStep tier tier
  | spawnSave (tier : PegaflowTier) : TierStep tier tier.spawnSave
  | trackSave {tier : PegaflowTier} {seen : Finset Nat} {save : Nat} : seen ⊆ tier.finished →
      save < tier.saveCount → save ∉ tier.returned → TierStep tier (tier.trackSave seen save)
  | flush {tier : PegaflowTier} {seen : Finset Nat} : seen ⊆ tier.finished → TierStep tier (tier.flush seen)
  | finish {tier : PegaflowTier} {save : Nat} : save < tier.saveCount → save ∉ tier.finished →
      TierStep tier (tier.finish save)
  | appear {tier : PegaflowTier} {save : Nat} : save < tier.saveCount → TierStep tier (tier.reveal {save})
  | await {tier : PegaflowTier} {flush save : Nat} {handles : List Nat} : flush < tier.flushCount →
      (tier.futures flush).stage = .awaiting (save :: handles) → save ∈ tier.finished →
      TierStep tier (tier.setStage flush (.awaiting handles))
  | flushSaves {tier : PegaflowTier} {flush : Nat} : flush < tier.flushCount →
      (tier.futures flush).stage = .awaiting [] →
      TierStep tier (tier.setStage flush (.flushing tier.finished))
  | resolve {tier : PegaflowTier} {flush : Nat} {covered : Finset Nat} : flush < tier.flushCount →
      (tier.futures flush).stage = .flushing covered →
      TierStep tier ((tier.reveal covered).setStage flush .resolved)
  | drop {tier : PegaflowTier} {flush : Nat} : flush < tier.flushCount →
      (tier.futures flush).stage ≠ .resolved → TierStep tier (tier.setStage flush .dropped)

/-- Any number of events, from a given tier. -/
inductive TierRun (first : PegaflowTier) : PegaflowTier → Prop
  | start : TierRun first first
  | next {tier next : PegaflowTier} : TierRun first tier → TierStep tier next → TierRun first next

theorem TierRun.trans {first middle last : PegaflowTier} (before : TierRun first middle)
    (after : TierRun middle last) :
    TierRun first last := by
  induction after with
  | start => exact before
  | next _ step ih => exact ih.next step

namespace PegaflowTier

/-- What the tables of a tier keep: a handle is held once, by `pending_saves` or by one
future. -/
structure Ok (tier : PegaflowTier) : Prop where
  spawned : ∀ save ∈ tier.returned, save < tier.saveCount
  tracked : ∀ save ∈ tier.pendingSaves, save ∈ tier.returned
  taken : ∀ flush < tier.flushCount, ∀ save ∈ (tier.futures flush).taken, save ∈ tier.returned
  apart : ∀ flush < tier.flushCount, ∀ save ∈ (tier.futures flush).taken, save ∉ tier.pendingSaves
  pending : ∀ save ∈ tier.returned, save ∈ tier.finished ∨ save ∈ tier.pendingSaves ∨
    ∃ flush < tier.flushCount, save ∈ (tier.futures flush).taken

variable {tier : PegaflowTier}

theorem mem_unfinished {seen : Finset Nat} {save : Nat} :
    save ∈ tier.unfinished seen ↔ save ∈ tier.pendingSaves ∧ save ∉ seen := by
  simp [unfinished]

theorem flush_futures_of_ne {seen : Finset Nat} {flush : Nat} (different : flush ≠ tier.flushCount) :
    (tier.flush seen).futures flush = tier.futures flush := Function.update_of_ne different _ _

theorem flush_futures_self (seen : Finset Nat) :
    (tier.flush seen).futures tier.flushCount =
      { taken := tier.unfinished seen, stage := .awaiting (tier.unfinished seen) } :=
        Function.update_self _ _ _

@[simp] theorem setStage_taken (flush other : Nat) (stage : FlushStage) :
    ((tier.setStage flush stage).futures other).taken = (tier.futures other).taken := by
  by_cases same : other = flush
  · subst same
    simp [setStage]
  · simp [setStage, Function.update_of_ne same]

theorem setStage_stage_self (flush : Nat) (stage : FlushStage) :
    ((tier.setStage flush stage).futures flush).stage = stage := by
  simp [setStage]

theorem setStage_stage_of_ne {flush other : Nat} (stage : FlushStage) (different : other ≠ flush) :
    ((tier.setStage flush stage).futures other).stage = (tier.futures other).stage := by
  simp [setStage, Function.update_of_ne different]

theorem Ok.new : PegaflowTier.new.Ok where
  spawned := by intro save member; cases member
  tracked := by intro save member; cases member
  taken := by intro flush below; cases below
  apart := by intro flush below; cases below
  pending := by intro save member; cases member

/-- The stages of the futures are no part of the tables. -/
theorem Ok.setStage (ok : tier.Ok) (flush : Nat) (stage : FlushStage) : (tier.setStage flush stage).Ok where
  spawned := ok.spawned
  tracked := ok.tracked
  taken := by
    intro other below save
    rw [setStage_taken]
    exact ok.taken other below save
  apart := by
    intro other below save
    rw [setStage_taken]
    exact ok.apart other below save
  pending := by
    intro save member
    rcases ok.pending save member with over_ | waits | ⟨other, below, held⟩
    · exact .inl over_
    · exact .inr (.inl waits)
    · exact .inr (.inr ⟨other, below, by rw [setStage_taken]; exact held⟩)

theorem Ok.trackSave (ok : tier.Ok) {seen : Finset Nat} {save : Nat} (early : seen ⊆ tier.finished)
    (spawned : save < tier.saveCount) (fresh : save ∉ tier.returned) : (tier.trackSave seen save).Ok where
  spawned := by
    intro other member
    rcases Finset.mem_insert.mp member with rfl | old
    · exact spawned
    · exact ok.spawned other old
  tracked := by
    intro other member
    rcases List.mem_append.mp member with old | new
    · exact Finset.mem_insert_of_mem (ok.tracked other (mem_unfinished.mp old).1)
    · rw [List.mem_singleton.mp new]
      exact Finset.mem_insert_self _ _
  taken := by
    intro flush below other held
    exact Finset.mem_insert_of_mem (ok.taken flush below other held)
  apart := by
    intro flush below other held member
    rcases List.mem_append.mp member with old | new
    · exact ok.apart flush below other held (mem_unfinished.mp old).1
    · rw [List.mem_singleton.mp new] at held
      exact fresh (ok.taken flush below save held)
  pending := by
    intro other member
    rcases Finset.mem_insert.mp member with rfl | old
    · exact .inr (.inl (List.mem_append_right _ (List.mem_singleton_self _)))
    · rcases ok.pending other old with over_ | waits | held
      · exact .inl over_
      · by_cases gone : other ∈ seen
        · exact .inl (early gone)
        · exact .inr (.inl (List.mem_append_left _ (mem_unfinished.mpr ⟨waits, gone⟩)))
      · exact .inr (.inr held)

theorem Ok.flush (ok : tier.Ok) {seen : Finset Nat} (early : seen ⊆ tier.finished) :
    (tier.flush seen).Ok where
  spawned := ok.spawned
  tracked := by intro save member; cases member
  taken := by
    intro flush below save held
    rcases Nat.lt_or_eq_of_le (Nat.le_of_lt_succ below) with old | rfl
    · rw [flush_futures_of_ne old.ne] at held
      exact ok.taken flush old save held
    · rw [flush_futures_self] at held
      exact ok.tracked save (mem_unfinished.mp held).1
  apart := by intro flush below save held member; cases member
  pending := by
    intro save member
    rcases ok.pending save member with over_ | waits | ⟨other, below, held⟩
    · exact .inl over_
    · by_cases gone : save ∈ seen
      · exact .inl (early gone)
      · refine .inr (.inr ⟨tier.flushCount, Nat.lt_succ_self _, ?_⟩)
        rw [flush_futures_self]
        exact mem_unfinished.mpr ⟨waits, gone⟩
    · refine .inr (.inr ⟨other, below.trans (Nat.lt_succ_self _), ?_⟩)
      rw [flush_futures_of_ne below.ne]
      exact held

theorem Ok.step {next : PegaflowTier} (ok : tier.Ok) (step : TierStep tier next) : next.Ok := by
  cases step with
  | saveEmpty => exact ok
  | spawnSave =>
    exact { ok with spawned := fun save member => (ok.spawned save member).trans (Nat.lt_succ_self _) }
  | trackSave early spawned fresh => exact ok.trackSave early spawned fresh
  | flush early => exact ok.flush early
  | finish below _ =>
    exact { ok with
      pending := fun save member => (ok.pending save member).imp_left (Finset.mem_insert_of_mem) }
  | appear _ => exact { ok with }
  | await _ _ _ => exact ok.setStage _ _
  | flushSaves _ _ => exact ok.setStage _ _
  | @resolve _ covered _ _ =>
    have revealed : (tier.reveal covered).Ok := { ok with }
    exact revealed.setStage _ _
  | drop _ _ => exact ok.setStage _ _

/-- How a flush stands to a save that had returned when it was called. -/
def Attends (tier : PegaflowTier) (flush save : Nat) : Prop :=
  match (tier.futures flush).stage with
  | .awaiting handles => save ∈ tier.visible ∨ save ∈ tier.finished ∨ save ∈ handles
  | .flushing covered => save ∈ tier.visible ∨ save ∈ covered
  | .resolved => save ∈ tier.visible
  | .dropped => True

theorem Attends.mono {next : PegaflowTier} {flush save : Nat} (attends : tier.Attends flush save)
    (same : (next.futures flush).stage = (tier.futures flush).stage)
    (finished : tier.finished ⊆ next.finished)
    (visible : tier.visible ⊆ next.visible) : next.Attends flush save := by
  unfold Attends at attends ⊢
  rw [same]
  cases stage : (tier.futures flush).stage with
  | awaiting handles =>
    rw [stage] at attends
    exact attends.imp (@visible _) (Or.imp_left (@finished _))
  | flushing covered =>
    rw [stage] at attends
    exact attends.imp_left (@visible _)
  | resolved =>
    rw [stage] at attends
    exact visible attends
  | dropped => trivial

/-- A flush moves on; every other one stands as before. -/
theorem Attends.setStage {flush other save : Nat} {stage : FlushStage} {saves : Finset Nat}
    (attends : tier.Attends flush save)
    (moved : flush = other → ((tier.reveal saves).setStage other stage).Attends other save) :
    ((tier.reveal saves).setStage other stage).Attends flush save := by
  by_cases same : flush = other
  · have kept := moved same
    rwa [← same] at kept ⊢
  · exact attends.mono (setStage_stage_of_ne stage same) (Finset.Subset.refl _) Finset.subset_union_left

theorem Attends.step {next : PegaflowTier} {flush save : Nat} (below : flush < tier.flushCount)
    (attends : tier.Attends flush save) (step : TierStep tier next) : next.Attends flush save := by
  have nothing : tier.reveal ∅ = tier := by simp [reveal]
  cases step with
  | saveEmpty => exact attends
  | spawnSave => exact attends.mono rfl (Finset.Subset.refl _) (Finset.Subset.refl _)
  | trackSave _ _ _ => exact attends.mono rfl (Finset.Subset.refl _) (Finset.Subset.refl _)
  | flush _ =>
    exact attends.mono (by rw [flush_futures_of_ne below.ne]) (Finset.Subset.refl _) (Finset.Subset.refl _)
  | finish _ _ => exact attends.mono rfl (Finset.subset_insert _ _) (Finset.Subset.refl _)
  | appear _ => exact attends.mono rfl (Finset.Subset.refl _) Finset.subset_union_left
  | @await other awaited handles _ stage over_ =>
    rw [← nothing]
    refine attends.setStage ?_
    rintro rfl
    unfold Attends at attends ⊢
    rw [stage] at attends
    rw [setStage_stage_self]
    rcases attends with seen | done | waits
    · exact .inl (Finset.mem_union_left _ seen)
    · exact .inr (.inl done)
    · rcases List.mem_cons.mp waits with rfl | later
      · exact .inr (.inl over_)
      · exact .inr (.inr later)
  | @flushSaves other _ stage =>
    rw [← nothing]
    refine attends.setStage ?_
    rintro rfl
    unfold Attends at attends ⊢
    rw [stage] at attends
    rw [setStage_stage_self]
    rcases attends with seen | done | waits
    · exact .inl (Finset.mem_union_left _ seen)
    · exact .inr done
    · cases waits
  | @resolve other covered _ stage =>
    refine attends.setStage ?_
    rintro rfl
    unfold Attends at attends ⊢
    rw [stage] at attends
    rw [setStage_stage_self]
    rcases attends with seen | inside
    · exact Finset.mem_union_left _ seen
    · exact Finset.mem_union_right _ inside
  | @drop other _ _ =>
    rw [← nothing]
    refine attends.setStage ?_
    rintro rfl
    unfold Attends
    rw [setStage_stage_self]
    trivial

end PegaflowTier

theorem TierStep.flushCount_le {tier next : PegaflowTier} (step : TierStep tier next) :
    tier.flushCount ≤ next.flushCount := by
  cases step with
  | flush _ => exact Nat.le_succ _
  | _ => exact le_rfl

theorem TierRun.ok {tier : PegaflowTier} (run : TierRun .new tier) : tier.Ok := by
  induction run with
  | start => exact .new
  | next _ step ih => exact ih.step step

theorem TierRun.attends {first last : PegaflowTier} {flush save : Nat} (run : TierRun first last)
    (below : flush < first.flushCount) (attends : first.Attends flush save) :
    flush < last.flushCount ∧ last.Attends flush save := by
  induction run with
  | start => exact ⟨below, attends⟩
  | next _ step ih => exact ⟨ih.1.trans_le step.flushCount_le, ih.2.step ih.1 step⟩

/-- A flush can be polled to its end while a save outside its handles is still
copying. -/
theorem PegaflowTier.resolves_without {tier : PegaflowTier} {flush save : Nat} {handles : List Nat}
    (below : flush < tier.flushCount) (stage : (tier.futures flush).stage = .awaiting handles)
    (spawned : ∀ handle ∈ handles, handle < tier.saveCount) (outside : save ∉ handles)
    (running : save ∉ tier.finished) (unseen : save ∉ tier.visible) :
    ∃ last, TierRun tier last ∧ (last.futures flush).stage = .resolved ∧ save ∉ last.visible := by
  induction handles generalizing tier with
  | nil =>
    have flushing := TierStep.flushSaves below stage
    have resolved := @TierStep.resolve (tier.setStage flush (.flushing tier.finished))
      flush tier.finished below
      (PegaflowTier.setStage_stage_self _ _)
    refine ⟨_, (TierRun.start.next flushing).next resolved, PegaflowTier.setStage_stage_self _ _, ?_⟩
    intro seen
    rcases Finset.mem_union.mp seen with old | new
    · exact unseen old
    · exact running new
  | cons handle handles ih =>
    have different : save ≠ handle := by
      rintro rfl
      exact outside List.mem_cons_self
    obtain ⟨middle, reached, sameStage, sameCount, sameSaves, over_, stillRunning, stillUnseen⟩ :
        ∃ middle, TierRun tier middle ∧ (middle.futures flush).stage = .awaiting (handle :: handles) ∧
          middle.flushCount = tier.flushCount ∧ middle.saveCount = tier.saveCount ∧ handle ∈ middle.finished ∧
          save ∉ middle.finished ∧ save ∉ middle.visible := by
      by_cases already : handle ∈ tier.finished
      · exact ⟨tier, .start, stage, rfl, rfl, already, running, unseen⟩
      · refine ⟨tier.finish handle, TierRun.start.next (.finish (spawned handle List.mem_cons_self) already),
          stage, rfl, rfl, Finset.mem_insert_self _ _, ?_, unseen⟩
        intro member
        rcases Finset.mem_insert.mp member with same | old
        · exact different same
        · exact running old
    have awaited : TierStep middle (middle.setStage flush (.awaiting handles)) :=
      .await (by omega) sameStage over_
    obtain ⟨last, run, resolved, invisible⟩ :=
      @ih (middle.setStage flush (.awaiting handles)) (by rw [← sameCount] at below; exact below)
        (PegaflowTier.setStage_stage_self _ _)
        (fun other member => sameSaves ▸ spawned other (List.mem_cons_of_mem _ member))
        (fun member => outside (List.mem_cons_of_mem _ member)) stillRunning stillUnseen
    exact ⟨last, (reached.next awaited).trans run, resolved, invisible⟩

/-- A flush covers every save that had returned when it was called, in every run that
follows, exactly when each save whose handle an earlier flush took is over by then, or
already visible. -/
theorem TierRun.flush_covers_iff {tier : PegaflowTier} (run : TierRun .new tier) {seen : Finset Nat}
    (early : seen ⊆ tier.finished) :
    (∀ later, TierRun (tier.flush seen) later → (later.futures tier.flushCount).stage = .resolved →
      tier.returned ⊆ later.visible) ↔
    ∀ before < tier.flushCount, ∀ save ∈ (tier.futures before).taken, save ∈ tier.finished ∨
      save ∈ tier.visible := by
  have ok := run.ok
  have newest := tier.flush_futures_self seen
  constructor
  · intro covers before below save held
    by_contra unsettled
    obtain ⟨running, unseen⟩ := not_or.mp unsettled
    obtain ⟨later, rest, resolved, invisible⟩ :=
      @PegaflowTier.resolves_without (tier.flush seen) tier.flushCount save (tier.unfinished seen)
        (Nat.lt_succ_self _) (by rw [newest])
        (fun handle member => ok.spawned handle (ok.tracked handle (PegaflowTier.mem_unfinished.mp member).1))
        (fun member => ok.apart before below save held (PegaflowTier.mem_unfinished.mp member).1)
          running unseen
    exact invisible (covers later rest resolved (ok.taken before below save held))
  · intro settled later rest resolved save member
    have attends : (tier.flush seen).Attends tier.flushCount save := by
      unfold PegaflowTier.Attends
      rw [newest]
      rcases ok.pending save member with over_ | waits | ⟨before, below, held⟩
      · exact .inr (.inl over_)
      · by_cases gone : save ∈ seen
        · exact .inr (.inl (early gone))
        · exact .inr (.inr (PegaflowTier.mem_unfinished.mpr ⟨waits, gone⟩))
      · rcases settled before below save held with over_ | visible
        · exact .inr (.inl over_)
        · exact .inl visible
    obtain ⟨-, kept⟩ := rest.attends (Nat.lt_succ_self _) attends
    unfold PegaflowTier.Attends at kept
    rw [resolved] at kept
    exact kept

/-- One save has returned and is still copying. -/
def PegaflowTier.oneSave : PegaflowTier := PegaflowTier.new.spawnSave.trackSave ∅ 0

theorem TierRun.oneSave : TierRun .new .oneSave :=
  (TierRun.start.next (.spawnSave _)).next (.trackSave (Finset.empty_subset _) (by decide) (by decide))

theorem TierRun.flush_covers_iff_first_flush :
    0 ∈ PegaflowTier.oneSave.returned ∧
      ((∀ later, TierRun (PegaflowTier.oneSave.flush ∅) later → (later.futures 0).stage = .resolved →
          PegaflowTier.oneSave.returned ⊆ later.visible) ↔
        ∀ before < PegaflowTier.oneSave.flushCount, ∀ save ∈ (PegaflowTier.oneSave.futures before).taken,
          save ∈ PegaflowTier.oneSave.finished ∨ save ∈ PegaflowTier.oneSave.visible) :=
  ⟨by decide, TierRun.oneSave.flush_covers_iff (Finset.empty_subset _)⟩

/-- A first flush takes the handle of a save and is not polled; a second one resolves
while that save is still copying. -/
theorem TierRun.second_flush_misses_save :
    ¬ ∀ tier later : PegaflowTier, ∀ seen, TierRun .new tier → seen ⊆ tier.finished →
      TierRun (tier.flush seen) later →
      (later.futures tier.flushCount).stage = .resolved → tier.returned ⊆ later.visible := by
  intro covered
  have first : TierRun .new (PegaflowTier.oneSave.flush ∅) :=
    TierRun.oneSave.next (.flush (Finset.empty_subset _))
  obtain ⟨later, rest, resolved, invisible⟩ :=
    @PegaflowTier.resolves_without ((PegaflowTier.oneSave.flush ∅).flush ∅) 1 0 [] (by decide) rfl
      (by intro handle member; cases member) (by decide) (by decide) (by decide)
  exact invisible (covered _ later ∅ first (Finset.empty_subset _) rest resolved (by decide))

end PegaInfer.KvStore
