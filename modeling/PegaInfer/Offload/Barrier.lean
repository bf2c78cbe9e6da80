import PegaInfer.Basic

namespace PegaInfer.Offload

/-- A task spawned by `submit_save`: copying, past its submit into the write
pipeline, failed, or over. -/
inductive SaveTask
  | running
  | submitted
  | failed
  | finished (ok : Bool)
  deriving DecidableEq

def SaveTask.isFinished : SaveTask → Bool
  | .finished _ => true
  | _ => false

/-- The save has been submitted into the write pipeline. -/
def SaveTask.inPipeline : SaveTask → Bool
  | .submitted | .finished true => true
  | _ => false

/-- The save has failed; the failure is logged and nothing else happens. -/
def SaveTask.lost : SaveTask → Bool
  | .failed | .finished false => true
  | _ => false

/-- Where a task spawned by `flush_saves_then` is. `flushing` is inside
`flush_saves_and_registrations`, called when the pipeline held `pipeline`. -/
inductive Stage
  | awaitingPrev
  | awaitingHandles
  | flushing (pipeline : Finset Nat)
  | flushed
  | signalled
  | called

/-- A barrier task. `covers` is a history: the saves whose `submit_save` had
returned when the flush was called. -/
structure BarrierTask where
  prevDone : Option Nat
  handles : List Nat
  stage : Stage
  covers : Finset Nat

/-- One `OffloadEngine` with its tasks: `pendingSaves` and `prevFlushDone` are its
`WriteBarrierState`. Tasks are numbered in the order they are spawned, and a
completion signal is named by its barrier. The last four fields are histories. -/
structure OffloadEngine where
  pendingSaves : List Nat
  prevFlushDone : Option Nat
  saveCount : Nat
  saves : Nat → SaveTask
  flushCount : Nat
  barriers : Nat → BarrierTask
  returned : Finset Nat
  visible : Finset Nat
  signals : List Nat
  callbacks : List Nat

namespace OffloadEngine

def new : OffloadEngine :=
  { pendingSaves := []
    prevFlushDone := none
    saveCount := 0
    saves := fun _ => .running
    flushCount := 0
    barriers := fun _ => { prevDone := none, handles := [], stage := .awaitingPrev, covers := ∅ }
    returned := ∅
    visible := ∅
    signals := []
    callbacks := [] }

/-- The spawn of `submit_save`. -/
def spawnSave (engine : OffloadEngine) : OffloadEngine :=
  { engine with
    saveCount := engine.saveCount + 1
    saves := Function.update engine.saves engine.saveCount .running }

/-- The end of `submit_save`, under the lock: prune and push. -/
def trackSave (engine : OffloadEngine) (save : Nat) : OffloadEngine :=
  { engine with
    pendingSaves := engine.pendingSaves.filter (fun pending => !(engine.saves pending).isFinished) ++ [save]
    returned := insert save engine.returned }

/-- `flush_saves_then`: under the lock the handles and the last signal are taken,
then the barrier is spawned. -/
def flushSavesThen (engine : OffloadEngine) : OffloadEngine :=
  { engine with
    pendingSaves := []
    prevFlushDone := some engine.flushCount
    flushCount := engine.flushCount + 1
    barriers := Function.update engine.barriers engine.flushCount
      { prevDone := engine.prevFlushDone
        handles := engine.pendingSaves
        stage := .awaitingPrev
        covers := engine.returned } }

def setSave (engine : OffloadEngine) (save : Nat) (task : SaveTask) : OffloadEngine :=
  { engine with saves := Function.update engine.saves save task }

def setBarrier (engine : OffloadEngine) (barrier : Nat) (task : BarrierTask) : OffloadEngine :=
  { engine with barriers := Function.update engine.barriers barrier task }

/-- What the write pipeline holds. -/
def pipeline (engine : OffloadEngine) : Finset Nat :=
  (Finset.range engine.saveCount).filter fun save => (engine.saves save).inPipeline = true

end OffloadEngine

/-- One step of a spawned task, in the order of its body. The signal is sent before
the callback is run. -/
inductive TaskStep : OffloadEngine → OffloadEngine → Prop
  | submit {engine : OffloadEngine} {save : Nat} : save < engine.saveCount → engine.saves save = .running →
      TaskStep engine (engine.setSave save .submitted)
  | fail {engine : OffloadEngine} {save : Nat} : save < engine.saveCount → engine.saves save = .running →
      TaskStep engine (engine.setSave save .failed)
  | finish {engine : OffloadEngine} {save : Nat} : save < engine.saveCount → engine.saves save = .submitted →
      TaskStep engine (engine.setSave save (.finished true))
  | giveUp {engine : OffloadEngine} {save : Nat} : save < engine.saveCount → engine.saves save = .failed →
      TaskStep engine (engine.setSave save (.finished false))
  | prev {engine : OffloadEngine} {barrier : Nat} : barrier < engine.flushCount →
      (engine.barriers barrier).stage = .awaitingPrev →
      (∀ before, (engine.barriers barrier).prevDone = some before → before ∈ engine.signals) →
      TaskStep engine (engine.setBarrier barrier { engine.barriers barrier with stage := .awaitingHandles })
  | handle {engine : OffloadEngine} {barrier save : Nat} {handles : List Nat} : barrier < engine.flushCount →
      (engine.barriers barrier).stage = .awaitingHandles →
        (engine.barriers barrier).handles = save :: handles →
      (engine.saves save).isFinished = true →
      TaskStep engine (engine.setBarrier barrier { engine.barriers barrier with handles })
  | flush {engine : OffloadEngine} {barrier : Nat} : barrier < engine.flushCount →
      (engine.barriers barrier).stage = .awaitingHandles → (engine.barriers barrier).handles = [] →
      TaskStep engine
        (engine.setBarrier barrier { engine.barriers barrier with stage := .flushing engine.pipeline })
  | flushed {engine : OffloadEngine} {barrier : Nat} {pipeline : Finset Nat} : barrier < engine.flushCount →
      (engine.barriers barrier).stage = .flushing pipeline →
      TaskStep engine
        { engine.setBarrier barrier { engine.barriers barrier with stage := .flushed } with
          visible := engine.visible ∪ pipeline }
  | signal {engine : OffloadEngine} {barrier : Nat} : barrier < engine.flushCount →
      (engine.barriers barrier).stage = .flushed →
      TaskStep engine
        { engine.setBarrier barrier { engine.barriers barrier with stage := .signalled } with
          signals := engine.signals ++ [barrier] }
  | call {engine : OffloadEngine} {barrier : Nat} : barrier < engine.flushCount →
      (engine.barriers barrier).stage = .signalled →
      TaskStep engine
        { engine.setBarrier barrier { engine.barriers barrier with stage := .called } with
          callbacks := engine.callbacks ++ [barrier] }

/-- One event of the engine: a part of a call, or a step of a task. -/
inductive OffloadStep : OffloadEngine → OffloadEngine → Prop
  | spawnSave (engine : OffloadEngine) : OffloadStep engine engine.spawnSave
  | trackSave {engine : OffloadEngine} {save : Nat} : save < engine.saveCount → save ∉ engine.returned →
      OffloadStep engine (engine.trackSave save)
  | flushSavesThen (engine : OffloadEngine) : OffloadStep engine engine.flushSavesThen
  | task {engine next : OffloadEngine} : TaskStep engine next → OffloadStep engine next

inductive OffloadReach : OffloadEngine → Prop
  | start : OffloadReach .new
  | next {engine next : OffloadEngine} : OffloadReach engine → OffloadStep engine next → OffloadReach next

/-- The barrier is past the wait for its predecessor. -/
def Stage.waited : Stage → Prop
  | .awaitingPrev => False
  | _ => True

namespace OffloadEngine

/-- A save that nobody has to wait for any more. -/
def Settled (engine : OffloadEngine) (save : Nat) : Prop :=
  save ∈ engine.visible ∨ (engine.saves save).lost = true

/-- How a barrier stands to a save it covers. -/
def Attends (engine : OffloadEngine) (task : BarrierTask) (save : Nat) : Prop :=
  match task.stage with
  | .awaitingPrev => (engine.saves save).isFinished = true ∨ save ∈ task.handles ∨
      ∃ before, task.prevDone = some before ∧ save ∈ (engine.barriers before).covers
  | .awaitingHandles => engine.Settled save ∨ (engine.saves save).isFinished = true ∨ save ∈ task.handles
  | .flushing pipeline => engine.Settled save ∨ save ∈ pipeline
  | .flushed | .signalled | .called => engine.Settled save

structure Ok (engine : OffloadEngine) : Prop where
  spawned : ∀ save ∈ engine.returned, save < engine.saveCount
  latest : engine.prevFlushDone = if engine.flushCount = 0 then none else some (engine.flushCount - 1)
  pending : ∀ save ∈ engine.returned, (engine.saves save).isFinished = true ∨ save ∈ engine.pendingSaves ∨
    ∃ before, engine.prevFlushDone = some before ∧ save ∈ (engine.barriers before).covers
  tracked : ∀ save ∈ engine.pendingSaves, save ∈ engine.returned
  held : ∀ barrier < engine.flushCount, ∀ save ∈ (engine.barriers barrier).handles, save ∈ engine.returned
  chained : ∀ barrier < engine.flushCount,
    (engine.barriers barrier).prevDone = if barrier = 0 then none else some (barrier - 1)
  known : ∀ barrier < engine.flushCount, (engine.barriers barrier).covers ⊆ engine.returned
  attends : ∀ barrier < engine.flushCount, ∀ save ∈ (engine.barriers barrier).covers,
    engine.Attends (engine.barriers barrier) save
  waited : ∀ barrier < engine.flushCount, Stage.waited (engine.barriers barrier).stage → ∀ before,
    (engine.barriers barrier).prevDone = some before → before ∈ engine.signals
  signals : ∀ barrier, barrier ∈ engine.signals ↔
    barrier < engine.flushCount ∧
      ((engine.barriers barrier).stage = .signalled ∨ (engine.barriers barrier).stage = .called)
  inOrder : engine.signals = List.range engine.signals.length
  callbacks : ∀ barrier, barrier ∈ engine.callbacks ↔
    barrier < engine.flushCount ∧ (engine.barriers barrier).stage = .called
  once : engine.callbacks.Nodup

theorem Attends.mono {engine next : OffloadEngine} {task : BarrierTask} {save : Nat}
    (attends : engine.Attends task save)
    (finished : (engine.saves save).isFinished = true → (next.saves save).isFinished = true)
    (settled : engine.Settled save → next.Settled save)
    (covers : ∀ before, task.prevDone = some before → save ∈ (engine.barriers before).covers →
      save ∈ (next.barriers before).covers) : next.Attends task save := by
  obtain ⟨prevDone, handles, stage, covered⟩ := task
  cases stage with
  | awaitingPrev =>
    rcases attends with over_ | mine | ⟨before, isPrev, theirs⟩
    · exact .inl (finished over_)
    · exact .inr (.inl mine)
    · exact .inr (.inr ⟨before, isPrev, covers before isPrev theirs⟩)
  | awaitingHandles =>
    rcases attends with done | over_ | mine
    · exact .inl (settled done)
    · exact .inr (.inl (finished over_))
    · exact .inr (.inr mine)
  | flushing pipeline => exact Or.imp_left settled attends
  | flushed => exact settled attends
  | signalled => exact settled attends
  | called => exact settled attends

theorem Ok.new : OffloadEngine.new.Ok where
  spawned := by intro save member; cases member
  latest := rfl
  pending := by intro save member; cases member
  tracked := by intro save member; cases member
  held := by intro barrier below; cases below
  chained := by intro barrier below; cases below
  known := by intro barrier below; cases below
  attends := by intro barrier below; cases below
  waited := by intro barrier below; cases below
  signals := by intro barrier; simp [OffloadEngine.new]
  inOrder := rfl
  callbacks := by intro barrier; simp [OffloadEngine.new]
  once := List.nodup_nil

variable {engine : OffloadEngine}

/-- A save task that is not over yet takes a step that keeps its failure. -/
theorem Ok.setSave (ok : engine.Ok) {save : Nat} {task : SaveTask}
    (busy : (engine.saves save).isFinished = false)
    (keeps : (engine.saves save).lost = true → task.lost = true) : (engine.setSave save task).Ok := by
  have finished : ∀ other, (engine.saves other).isFinished = true →
      ((engine.setSave save task).saves other).isFinished = true := by
    intro other over_
    by_cases same : other = save
    · rw [same, busy] at over_
      cases over_
    · simpa only [OffloadEngine.setSave, Function.update_of_ne same] using over_
  have settled : ∀ other, engine.Settled other → (engine.setSave save task).Settled other := by
    rintro other (seen | lost)
    · exact .inl seen
    · by_cases same : other = save
      · subst same
        exact .inr (by simpa only [OffloadEngine.setSave, Function.update_self] using keeps lost)
      · exact .inr (by simpa only [OffloadEngine.setSave, Function.update_of_ne same] using lost)
  refine { ok with pending := ?_, attends := ?_ }
  · intro other member
    exact (ok.pending other member).imp_left (finished other)
  · intro barrier below other member
    exact (ok.attends barrier below other member).mono (finished other)
      (settled other) fun _ _ inside => inside

theorem Ok.spawnSave (ok : engine.Ok) : engine.spawnSave.Ok := by
  have same : ∀ save ∈ engine.returned, engine.spawnSave.saves save = engine.saves save := by
    intro save member
    exact Function.update_of_ne (ok.spawned save member).ne _ _
  refine { ok with spawned := ?_, pending := ?_, attends := ?_ }
  · intro save member
    exact (ok.spawned save member).trans (Nat.lt_succ_self _)
  · intro save member
    rw [same save member]
    exact ok.pending save member
  · intro barrier below save member
    have kept := same save (ok.known barrier below member)
    refine (ok.attends barrier below save member).mono (by rw [kept]; exact id) ?_ fun _ _ inside => inside
    rintro (seen | lost)
    · exact .inl seen
    · exact .inr (by rw [kept]; exact lost)

theorem Ok.trackSave (ok : engine.Ok) {save : Nat} (spawned : save < engine.saveCount) :
    (engine.trackSave save).Ok := by
  refine { ok with spawned := ?_, pending := ?_, tracked := ?_, held := ?_, known := ?_ }
  · intro other member
    rcases Finset.mem_insert.mp member with rfl | old
    · exact spawned
    · exact ok.spawned other old
  · intro other member
    rcases Finset.mem_insert.mp member with rfl | old
    · exact .inr (.inl (List.mem_append_right _ (List.mem_singleton_self _)))
    · rcases ok.pending other old with over_ | waits | covered
      · exact .inl over_
      · by_cases over_ : (engine.saves other).isFinished = true
        · exact .inl over_
        · exact .inr (.inl (List.mem_append_left _ (List.mem_filter.mpr ⟨waits, by simpa using over_⟩)))
      · exact .inr (.inr covered)
  · intro other member
    rcases List.mem_append.mp member with old | new
    · exact Finset.mem_insert_of_mem (ok.tracked other (List.mem_of_mem_filter old))
    · rw [List.mem_singleton.mp new]
      exact Finset.mem_insert_self _ _
  · intro barrier below other member
    exact Finset.mem_insert_of_mem (ok.held barrier below other member)
  · intro barrier below
    exact (ok.known barrier below).trans (Finset.subset_insert _ _)

theorem Ok.flushSavesThen (ok : engine.Ok) : engine.flushSavesThen.Ok := by
  have older : ∀ barrier < engine.flushCount, engine.flushSavesThen.barriers barrier =
      engine.barriers barrier := by
    intro barrier below
    exact Function.update_of_ne below.ne _ _
  have newest : engine.flushSavesThen.barriers engine.flushCount =
      { prevDone := engine.prevFlushDone, handles := engine.pendingSaves, stage := .awaitingPrev,
        covers := engine.returned } :=
    Function.update_self _ _ _
  have either : ∀ barrier < engine.flushSavesThen.flushCount, barrier < engine.flushCount ∨
      barrier = engine.flushCount := by
    intro barrier below
    exact Nat.lt_or_eq_of_le (Nat.le_of_lt_succ below)
  have prev : ∀ before, engine.prevFlushDone = some before → before < engine.flushCount := by
    intro before isLatest
    rw [ok.latest] at isLatest
    split at isLatest
    · cases isLatest
    · cases isLatest
      omega
  constructor
  case spawned => exact ok.spawned
  case latest => simp [OffloadEngine.flushSavesThen]
  case pending =>
    intro save member
    refine .inr (.inr ⟨engine.flushCount, rfl, ?_⟩)
    rw [newest]
    exact member
  case tracked =>
    intro save member
    cases member
  case held =>
    intro barrier below
    rcases either barrier below with old | rfl
    · rw [older barrier old]
      exact ok.held barrier old
    · rw [newest]
      exact ok.tracked
  case chained =>
    intro barrier below
    rcases either barrier below with old | rfl
    · rw [older barrier old]
      exact ok.chained barrier old
    · rw [newest]
      exact ok.latest
  case known =>
    intro barrier below
    rcases either barrier below with old | rfl
    · rw [older barrier old]
      exact ok.known barrier old
    · rw [newest]
      exact Finset.Subset.refl _
  case attends =>
    intro barrier below save member
    rcases either barrier below with old | rfl
    · rw [older barrier old] at member ⊢
      refine (ok.attends barrier old save member).mono id id ?_
      intro before isPrev inside
      have isBefore : before < engine.flushCount := by
        rw [ok.chained barrier old] at isPrev
        split at isPrev
        · cases isPrev
        · cases isPrev
          omega
      rw [older before isBefore]
      exact inside
    · rw [newest] at member ⊢
      rcases ok.pending save member with over_ | waits | ⟨before, isLatest, covered⟩
      · exact .inl over_
      · exact .inr (.inl waits)
      · refine .inr (.inr ⟨before, isLatest, ?_⟩)
        rw [older before (prev before isLatest)]
        exact covered
  case waited =>
    intro barrier below waited
    rcases either barrier below with old | rfl
    · rw [older barrier old] at waited ⊢
      exact ok.waited barrier old waited
    · rw [newest] at waited
      exact waited.elim
  case signals =>
    intro barrier
    rw [show engine.flushSavesThen.signals = engine.signals from rfl, ok.signals]
    constructor
    · rintro ⟨below, stage⟩
      exact ⟨below.trans (Nat.lt_succ_self _), by rw [older barrier below]; exact stage⟩
    · rintro ⟨below, stage⟩
      rcases either barrier below with old | rfl
      · exact ⟨old, by rw [older barrier old] at stage; exact stage⟩
      · rw [newest] at stage
        rcases stage with stage | stage <;> cases stage
  case inOrder => exact ok.inOrder
  case callbacks =>
    intro barrier
    rw [show engine.flushSavesThen.callbacks = engine.callbacks from rfl, ok.callbacks]
    constructor
    · rintro ⟨below, stage⟩
      exact ⟨below.trans (Nat.lt_succ_self _), by rw [older barrier below]; exact stage⟩
    · rintro ⟨below, stage⟩
      rcases either barrier below with old | rfl
      · exact ⟨old, by rw [older barrier old] at stage; exact stage⟩
      · rw [newest] at stage
        cases stage
  case once => exact ok.once

/-- A barrier task takes a step. -/
theorem Ok.advance (ok : engine.Ok) {barrier : Nat} {task : BarrierTask} {visible : Finset Nat}
    {signals callbacks : List Nat}
    (below : barrier < engine.flushCount) (samePrev : task.prevDone = (engine.barriers barrier).prevDone)
    (sameCovers : task.covers = (engine.barriers barrier).covers)
    (held : ∀ save ∈ task.handles, save ∈ (engine.barriers barrier).handles) (seen : engine.visible ⊆ visible)
    (told : ∀ before ∈ engine.signals, before ∈ signals)
    (attends : ∀ save ∈ task.covers,
      { engine.setBarrier barrier task with visible, signals, callbacks }.Attends task save)
    (waited : task.stage.waited → ∀ before, task.prevDone = some before → before ∈ engine.signals)
    (signalled : barrier ∈ signals ↔ task.stage = .signalled ∨ task.stage = .called)
    (signals_of_ne : ∀ other ≠ barrier, other ∈ signals ↔ other ∈ engine.signals)
    (inOrder : signals = List.range signals.length)
    (called : barrier ∈ callbacks ↔ task.stage = .called)
    (callbacks_of_ne : ∀ other ≠ barrier, other ∈ callbacks ↔ other ∈ engine.callbacks)
    (once : callbacks.Nodup) : { engine.setBarrier barrier task with visible, signals, callbacks }.Ok := by
  have mine : (engine.setBarrier barrier task).barriers barrier = task := Function.update_self _ _ _
  have others : ∀ other ≠ barrier, (engine.setBarrier barrier task).barriers other =
      engine.barriers other := by
    intro other apart
    exact Function.update_of_ne apart _ _
  have covers : ∀ other, ((engine.setBarrier barrier task).barriers other).covers =
      (engine.barriers other).covers := by
    intro other
    by_cases same : other = barrier
    · rw [same, mine, sameCovers]
    · rw [others other same]
  constructor
  case spawned => exact ok.spawned
  case latest => exact ok.latest
  case pending =>
    intro save member
    simp only [covers]
    exact ok.pending save member
  case tracked => exact ok.tracked
  case held =>
    intro other inside
    by_cases same : other = barrier
    · subst same
      simp only [mine]
      exact fun save member => ok.held other inside save (held save member)
    · simp only [others other same]
      exact ok.held other inside
  case chained =>
    intro other inside
    by_cases same : other = barrier
    · subst same
      simp only [mine, samePrev]
      exact ok.chained other inside
    · simp only [others other same]
      exact ok.chained other inside
  case known =>
    intro other inside
    simp only [covers]
    exact ok.known other inside
  case attends =>
    intro other inside save member
    by_cases same : other = barrier
    · subst same
      simp only [mine] at member ⊢
      exact attends save member
    · simp only [others other same] at member ⊢
      refine (ok.attends other inside save member).mono id ?_ ?_
      · exact Or.imp_left fun shown => seen shown
      · intro before _ covered
        simp only [covers]
        exact covered
  case waited =>
    intro other inside
    by_cases same : other = barrier
    · subst same
      simp only [mine]
      exact fun isWaited before isPrev => told before (waited isWaited before isPrev)
    · simp only [others other same]
      exact fun isWaited before isPrev => told before (ok.waited other inside isWaited before isPrev)
  case signals =>
    intro other
    by_cases same : other = barrier
    · subst same
      simp only [mine, signalled]
      exact ⟨fun stage => ⟨below, stage⟩, fun both => both.2⟩
    · simp only [others other same, signals_of_ne other same]
      exact ok.signals other
  case inOrder => exact inOrder
  case callbacks =>
    intro other
    by_cases same : other = barrier
    · subst same
      simp only [mine, called]
      exact ⟨fun stage => ⟨below, stage⟩, fun both => both.2⟩
    · simp only [others other same, callbacks_of_ne other same]
      exact ok.callbacks other
  case once => exact once

@[simp] theorem setBarrier_signals (engine : OffloadEngine) (barrier : Nat) (task : BarrierTask) :
    (engine.setBarrier barrier task).signals = engine.signals := rfl

@[simp] theorem setBarrier_callbacks (engine : OffloadEngine) (barrier : Nat) (task : BarrierTask) :
    (engine.setBarrier barrier task).callbacks = engine.callbacks := rfl

/-- A step that neither signals nor calls back. -/
theorem Ok.advance_quiet (ok : engine.Ok) {barrier : Nat} {task : BarrierTask} {visible : Finset Nat}
    (below : barrier < engine.flushCount) (samePrev : task.prevDone = (engine.barriers barrier).prevDone)
    (sameCovers : task.covers = (engine.barriers barrier).covers)
    (held : ∀ save ∈ task.handles, save ∈ (engine.barriers barrier).handles) (seen : engine.visible ⊆ visible)
    (attends : ∀ save ∈ task.covers, { engine.setBarrier barrier task with visible }.Attends task save)
    (waited : task.stage.waited → ∀ before, task.prevDone = some before → before ∈ engine.signals)
    (early : (engine.barriers barrier).stage ≠ .signalled ∧ (engine.barriers barrier).stage ≠ .called)
    (stillEarly : task.stage ≠ .signalled ∧ task.stage ≠ .called) :
    { engine.setBarrier barrier task with visible }.Ok := by
  refine ok.advance below samePrev sameCovers held seen (fun _ told => told) attends waited ?_
    (fun _ _ => Iff.rfl) ok.inOrder ?_
    (fun _ _ => Iff.rfl) ok.once
  · rw [setBarrier_signals, ok.signals]
    exact ⟨fun both => absurd both.2 (not_or.mpr early), fun stage => absurd stage (not_or.mpr stillEarly)⟩
  · rw [setBarrier_callbacks, ok.callbacks]
    exact ⟨fun both => absurd both.2 early.2, fun stage => absurd stage stillEarly.2⟩

/-- One step of a task. -/
theorem Ok.task {next : OffloadEngine} (ok : engine.Ok) (step : TaskStep engine next) : next.Ok := by
  cases step with
  | submit spawned busy =>
    exact ok.setSave (by rw [busy]; rfl) (by rw [busy]; exact fun lost => by cases lost)
  | fail spawned busy => exact ok.setSave (by rw [busy]; rfl) (fun _ => rfl)
  | finish spawned busy =>
    exact ok.setSave (by rw [busy]; rfl) (by rw [busy]; exact fun lost => by cases lost)
  | giveUp spawned busy => exact ok.setSave (by rw [busy]; rfl) (fun _ => rfl)
  | @prev barrier below stage told =>
    refine ok.advance_quiet below rfl rfl (fun _ inside => inside) (Finset.Subset.refl _) ?_
      (fun _ => told) (by simp [stage]) (by simp)
    intro save member
    have attends := ok.attends barrier below save member
    simp only [OffloadEngine.Attends, stage] at attends ⊢
    rcases attends with over_ | mine | ⟨before, isPrev, theirs⟩
    · exact .inr (.inl over_)
    · exact .inr (.inr mine)
    · obtain ⟨inside, signalled⟩ := (ok.signals before).mp (told before isPrev)
      have settled := ok.attends before inside save theirs
      rcases signalled with signalled | signalled <;>
        simp only [OffloadEngine.Attends, signalled] at settled <;>
        exact .inl settled
  | @handle barrier save handles below stage head over_ =>
    refine ok.advance_quiet below rfl rfl
      (fun _ inside => by rw [head]; exact List.mem_cons_of_mem _ inside) (Finset.Subset.refl _) ?_
      (fun _ => ok.waited barrier below (by rw [stage]; trivial)) (by simp [stage]) (by simp [stage])
    intro other member
    have attends := ok.attends barrier below other member
    simp only [OffloadEngine.Attends, stage] at attends ⊢
    rcases attends with settled | finished | waits
    · exact .inl settled
    · exact .inr (.inl finished)
    · rw [head] at waits
      rcases List.mem_cons.mp waits with rfl | later
      · exact .inr (.inl over_)
      · exact .inr (.inr later)
  | @flush barrier below stage joined =>
    refine ok.advance_quiet below rfl rfl (fun _ inside => inside) (Finset.Subset.refl _) ?_
      (fun _ => ok.waited barrier below (by rw [stage]; trivial)) (by simp [stage]) (by simp)
    intro save member
    have attends := ok.attends barrier below save member
    simp only [OffloadEngine.Attends, stage] at attends ⊢
    rcases attends with settled | finished | waits
    · exact .inl settled
    · cases task : engine.saves save with
      | finished good =>
        cases good with
        | true =>
          refine .inr (Finset.mem_filter.mpr ⟨Finset.mem_range.mpr ?_, by rw [task]; rfl⟩)
          exact ok.spawned save (ok.known barrier below member)
        | false =>
          exact .inl (.inr (by rw [show (engine.setBarrier _ _).saves = engine.saves from rfl, task]; rfl))
      | running => rw [task] at finished; cases finished
      | submitted => rw [task] at finished; cases finished
      | failed => rw [task] at finished; cases finished
    · rw [joined] at waits
      cases waits
  | @flushed barrier pipeline below stage =>
    refine ok.advance_quiet below rfl rfl (fun _ inside => inside) Finset.subset_union_left ?_
      (fun _ => ok.waited barrier below (by rw [stage]; trivial)) (by simp [stage]) (by simp)
    intro save member
    have attends := ok.attends barrier below save member
    simp only [OffloadEngine.Attends, stage] at attends ⊢
    rcases attends with (seen | lost) | inside
    · exact .inl (Finset.mem_union_left _ seen)
    · exact .inr lost
    · exact .inl (Finset.mem_union_right _ inside)
  | @signal barrier below stage =>
    have unsignalled : barrier ∉ engine.signals := by
      rw [ok.signals, stage]
      simp
    have position : barrier = engine.signals.length := by
      have prev := ok.waited barrier below (by rw [stage]; trivial)
      rw [ok.chained barrier below] at prev
      rw [ok.inOrder, List.mem_range] at unsignalled
      by_cases first : barrier = 0
      · omega
      · have before := prev (barrier - 1) (if_neg first)
        rw [ok.inOrder, List.mem_range] at before
        omega
    refine ok.advance below rfl rfl (fun _ inside => inside) (Finset.Subset.refl _) (fun _ told =>
      List.mem_append_left _ told) ?_
      (fun _ => ok.waited barrier below (by rw [stage]; trivial)) (by simp) ?_ ?_ ?_
        (fun _ _ => Iff.rfl) ok.once
    · intro save member
      have attends := ok.attends barrier below save member
      simp only [OffloadEngine.Attends, stage] at attends ⊢
      exact attends
    · intro other apart
      simp [apart]
    · rw [List.length_append, List.length_singleton, List.range_succ, ← ok.inOrder, ← position]
    · rw [setBarrier_callbacks, ok.callbacks, stage]
      simp
  | @call barrier below stage =>
    refine ok.advance below rfl rfl (fun _ inside => inside) (Finset.Subset.refl _) (fun _ told => told) ?_
      (fun _ => ok.waited barrier below (by rw [stage]; trivial)) ?_
        (fun _ _ => Iff.rfl) ok.inOrder (by simp) ?_ ?_
    · intro save member
      have attends := ok.attends barrier below save member
      simp only [OffloadEngine.Attends, stage] at attends ⊢
      exact attends
    · rw [setBarrier_signals, ok.signals, stage]
      simp [below]
    · intro other apart
      simp [apart]
    · refine List.nodup_append.mpr ⟨ok.once, List.nodup_singleton _, ?_⟩
      intro earlier told later new same
      rw [List.mem_singleton.mp new] at same
      rw [same, ok.callbacks, stage] at told
      cases told.2

end OffloadEngine

/-- The invariant holds in every run. -/
theorem OffloadReach.ok {engine : OffloadEngine} (reach : OffloadReach engine) : engine.Ok := by
  induction reach with
  | start => exact .new
  | next _ step ih =>
    cases step with
    | spawnSave => exact ih.spawnSave
    | trackSave spawned _ => exact ih.trackSave spawned
    | flushSavesThen => exact ih.flushSavesThen
    | task step => exact ih.task step

section Progress

variable {engine next : OffloadEngine}

def SaveTask.remaining : SaveTask → Nat
  | .running => 2
  | .submitted | .failed => 1
  | .finished _ => 0

def Stage.remaining : Stage → Nat
  | .awaitingPrev => 5
  | .awaitingHandles => 4
  | .flushing _ => 3
  | .flushed => 2
  | .signalled => 1
  | .called => 0

/-- The steps the spawned tasks have left. -/
def OffloadEngine.remaining (engine : OffloadEngine) : Nat :=
  ∑ save ∈ Finset.range engine.saveCount, (engine.saves save).remaining +
    ∑ barrier ∈ Finset.range engine.flushCount,
      ((engine.barriers barrier).stage.remaining + (engine.barriers barrier).handles.length)

theorem OffloadEngine.setSave_remaining {save : Nat} {task : SaveTask} (spawned : save < engine.saveCount)
    (less : task.remaining < (engine.saves save).remaining) :
    (engine.setSave save task).remaining < engine.remaining := by
  refine Nat.add_lt_add_right (Finset.sum_lt_sum (fun other _ => ?_)
    ⟨save, Finset.mem_range.mpr spawned, ?_⟩) _
  · by_cases same : other = save
    · subst same
      simp only [OffloadEngine.setSave, Function.update_self]
      exact less.le
    · simp only [OffloadEngine.setSave, Function.update_of_ne same]
      exact le_rfl
  · simp only [OffloadEngine.setSave, Function.update_self]
    exact less

theorem OffloadEngine.setBarrier_remaining {barrier : Nat} {task : BarrierTask}
    (below : barrier < engine.flushCount)
    (less : task.stage.remaining + task.handles.length <
      (engine.barriers barrier).stage.remaining + (engine.barriers barrier).handles.length) :
    (engine.setBarrier barrier task).remaining < engine.remaining := by
  refine Nat.add_lt_add_left (Finset.sum_lt_sum (fun other _ => ?_)
    ⟨barrier, Finset.mem_range.mpr below, ?_⟩) _
  · by_cases same : other = barrier
    · subst same
      simp only [OffloadEngine.setBarrier, Function.update_self]
      exact less.le
    · simp only [OffloadEngine.setBarrier, Function.update_of_ne same]
      exact le_rfl
  · simp only [OffloadEngine.setBarrier, Function.update_self]
    exact less

/-- Tasks do not run for ever. -/
theorem TaskStep.remaining_lt (step : TaskStep engine next) : next.remaining < engine.remaining := by
  cases step with
  | submit spawned busy => exact OffloadEngine.setSave_remaining spawned (by rw [busy]; decide)
  | fail spawned busy => exact OffloadEngine.setSave_remaining spawned (by rw [busy]; decide)
  | finish spawned busy => exact OffloadEngine.setSave_remaining spawned (by rw [busy]; decide)
  | giveUp spawned busy => exact OffloadEngine.setSave_remaining spawned (by rw [busy]; decide)
  | prev below stage _ =>
    exact OffloadEngine.setBarrier_remaining below (by simp only [stage, Stage.remaining]; omega)
  | handle below stage head _ =>
    exact OffloadEngine.setBarrier_remaining below (by simp only [head, List.length_cons]; omega)
  | flush below stage _ =>
    exact OffloadEngine.setBarrier_remaining below (by simp only [stage, Stage.remaining]; omega)
  | @flushed barrier pipeline below stage =>
    have less : (engine.setBarrier barrier
        { engine.barriers barrier with stage := .flushed }).remaining < engine.remaining :=
      OffloadEngine.setBarrier_remaining below (by simp only [stage, Stage.remaining]; omega)
    exact less
  | @signal barrier below stage =>
    have less : (engine.setBarrier barrier
        { engine.barriers barrier with stage := .signalled }).remaining < engine.remaining :=
      OffloadEngine.setBarrier_remaining below (by simp only [stage, Stage.remaining]; omega)
    exact less
  | @call barrier below stage =>
    have less : (engine.setBarrier barrier
        { engine.barriers barrier with stage := .called }).remaining < engine.remaining :=
      OffloadEngine.setBarrier_remaining below (by simp only [stage, Stage.remaining]; omega)
    exact less

/-- When no task can go on, every callback has run. -/
theorem OffloadEngine.Ok.all_called (ok : engine.Ok) (still : ∀ next, ¬TaskStep engine next) :
    ∀ barrier < engine.flushCount, barrier ∈ engine.callbacks := by
  have finished : ∀ save < engine.saveCount, (engine.saves save).isFinished = true := by
    intro save spawned
    cases busy : engine.saves save with
    | running => exact absurd (.submit spawned busy) (still _)
    | submitted => exact absurd (.finish spawned busy) (still _)
    | failed => exact absurd (.giveUp spawned busy) (still _)
    | finished => rfl
  intro barrier
  induction barrier using Nat.strong_induction_on with
  | _ barrier earlier =>
    intro below
    cases stage : (engine.barriers barrier).stage with
    | awaitingPrev =>
      refine absurd (.prev below stage fun before isPrev => ?_) (still _)
      rw [ok.chained barrier below] at isPrev
      split at isPrev
      · cases isPrev
      · cases isPrev
        have called := (ok.callbacks _).mp (earlier (barrier - 1) (by omega) (by omega))
        exact (ok.signals _).mpr ⟨called.1, .inr called.2⟩
    | awaitingHandles =>
      cases head : (engine.barriers barrier).handles with
      | nil => exact absurd (.flush below stage head) (still _)
      | cons save handles =>
        have tracked := ok.held barrier below save (by rw [head]; exact List.mem_cons_self ..)
        exact absurd (.handle below stage head (finished save (ok.spawned save tracked))) (still _)
    | flushing => exact absurd (.flushed below stage) (still _)
    | flushed => exact absurd (.signal below stage) (still _)
    | signalled => exact absurd (.call below stage) (still _)
    | called => exact (ok.callbacks barrier).mpr ⟨below, stage⟩

end Progress

/-- What a flush promises: when its callback has run, every save tracked before it is
visible or has failed; completion signals fire in the order of the flushes and each
callback runs once, after its own signal. -/
structure OffloadEngine.FlushCovers (engine : OffloadEngine) : Prop where
  visible : ∀ barrier ∈ engine.callbacks, ∀ save ∈ (engine.barriers barrier).covers,
    save ∈ engine.visible ∨ (engine.saves save).lost = true
  signals_in_order : engine.signals = List.range engine.signals.length
  signalled : ∀ barrier ∈ engine.callbacks, barrier ∈ engine.signals
  once : engine.callbacks.Nodup
  all_called : (∀ next, ¬TaskStep engine next) → ∀ barrier < engine.flushCount, barrier ∈ engine.callbacks
  ends : ∀ next, TaskStep engine next → next.remaining < engine.remaining

/-- Flush barrier coverage. -/
theorem OffloadReach.flush_covers {engine : OffloadEngine} (reach : OffloadReach engine) :
    engine.FlushCovers where
  visible := by
    intro barrier called save member
    obtain ⟨below, stage⟩ := (reach.ok.callbacks barrier).mp called
    have attends := reach.ok.attends barrier below save member
    simp only [OffloadEngine.Attends, stage] at attends
    exact attends
  signals_in_order := reach.ok.inOrder
  signalled := by
    intro barrier called
    obtain ⟨below, stage⟩ := (reach.ok.callbacks barrier).mp called
    exact (reach.ok.signals barrier).mpr ⟨below, .inr stage⟩
  once := reach.ok.once
  all_called := reach.ok.all_called
  ends := fun _ step => step.remaining_lt

/-- The next step of a run is a task's. -/
theorem OffloadReach.task {engine next : OffloadEngine} (reach : OffloadReach engine)
    (step : TaskStep engine next) :
    OffloadReach next :=
  reach.next (.task step)

/-- One save and two flushes: the first takes the handle of the save, and the callback of the
second, which covers the save by waiting for the first, has run too. -/
theorem OffloadReach.two_flushes : ∃ engine, OffloadReach engine ∧ engine.callbacks = [0, 1] ∧
    engine.signals = [0, 1] ∧
    0 ∈ (engine.barriers 0).covers ∧ 0 ∈ (engine.barriers 1).covers ∧ 0 ∈ engine.visible := by
  have tracked := (OffloadReach.start.next (.spawnSave _)).next
    (@OffloadStep.trackSave _ 0 (by decide) (by decide))
  have both := (tracked.next (.flushSavesThen _)).next (.flushSavesThen _)
  have saved := (both.task (@TaskStep.submit _ 0 (by decide) rfl)).task (@TaskStep.finish _ 0 (by decide) rfl)
  have waited := saved.task (@TaskStep.prev _ 0 (by decide) rfl (by rintro _ ⟨⟩))
  have joined := waited.task (@TaskStep.handle _ 0 0 _ (by decide) rfl rfl rfl)
  have flushed := (joined.task (@TaskStep.flush _ 0 (by decide) rfl rfl)).task
    (@TaskStep.flushed _ 0 _ (by decide) rfl)
  have called := (flushed.task (@TaskStep.signal _ 0 (by decide) rfl)).task
    (@TaskStep.call _ 0 (by decide) rfl)
  have second := called.task (@TaskStep.prev _ 1 (by decide) rfl
    (by rintro _ ⟨⟩; exact List.mem_singleton_self _))
  have later := (second.task (@TaskStep.flush _ 1 (by decide) rfl rfl)).task
    (@TaskStep.flushed _ 1 _ (by decide) rfl)
  have done := (later.task (@TaskStep.signal _ 1 (by decide) rfl)).task (@TaskStep.call _ 1 (by decide) rfl)
  exact ⟨_, done, rfl, rfl, by decide, by decide, by decide⟩

theorem OffloadReach.flush_covers_one_save : ∃ engine :
    OffloadEngine, OffloadReach engine ∧ engine.callbacks = [0, 1] ∧
    0 ∈ (engine.barriers 1).covers ∧ 0 ∈ engine.visible ∧ engine.FlushCovers := by
  obtain ⟨engine, reach, called, -, -, covered, visible⟩ := OffloadReach.two_flushes
  exact ⟨engine, reach, called, covered, visible, reach.flush_covers⟩

/-- Two flushes: the second may run its callback between the signal and the callback
of the first. And a save that fails is covered without ever being visible. -/
theorem OffloadReach.callbacks_cross : (∃ engine, OffloadReach engine ∧ engine.callbacks = [1, 0]) ∧
    ∃ engine, OffloadReach engine ∧ 0 ∈ engine.callbacks ∧ 0 ∈ (engine.barriers 0).covers ∧
      0 ∉ engine.visible := by
  constructor
  · have both := (OffloadReach.start.next (.flushSavesThen _)).next (.flushSavesThen _)
    have waited := both.task (@TaskStep.prev _ 0 (by decide) rfl (by rintro _ ⟨⟩))
    have flushed := (waited.task (@TaskStep.flush _ 0 (by decide) rfl rfl)).task
      (@TaskStep.flushed _ 0 _ (by decide) rfl)
    have signal := flushed.task (@TaskStep.signal _ 0 (by decide) rfl)
    have second := signal.task (@TaskStep.prev _ 1 (by decide) rfl
      (by rintro _ ⟨⟩; exact List.mem_singleton_self _))
    have later := (second.task (@TaskStep.flush _ 1 (by decide) rfl rfl)).task
      (@TaskStep.flushed _ 1 _ (by decide) rfl)
    have overtakes := (later.task (@TaskStep.signal _ 1 (by decide) rfl)).task
      (@TaskStep.call _ 1 (by decide) rfl)
    exact ⟨_, overtakes.task (@TaskStep.call _ 0 (by decide) rfl), rfl⟩
  · have tracked := (OffloadReach.start.next (.spawnSave _)).next
      (@OffloadStep.trackSave _ 0 (by decide) (by decide))
    have lost := (tracked.task (@TaskStep.fail _ 0 (by decide) rfl)).task
      (@TaskStep.giveUp _ 0 (by decide) rfl)
    have waited := (lost.next (.flushSavesThen _)).task (@TaskStep.prev _ 0 (by decide) rfl (by rintro _ ⟨⟩))
    have joined := waited.task (@TaskStep.handle _ 0 0 _ (by decide) rfl rfl rfl)
    have flushed := (joined.task (@TaskStep.flush _ 0 (by decide) rfl rfl)).task
      (@TaskStep.flushed _ 0 _ (by decide) rfl)
    have called := (flushed.task (@TaskStep.signal _ 0 (by decide) rfl)).task
      (@TaskStep.call _ 0 (by decide) rfl)
    exact ⟨_, called, by decide, by decide, by decide⟩

end PegaInfer.Offload
