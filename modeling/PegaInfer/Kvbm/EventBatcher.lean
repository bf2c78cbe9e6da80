import Mathlib.Data.Set.Insert
import PegaInfer.Kvbm.Lineage

namespace PegaInfer.Kvbm

inductive BatchType
  | create
  | remove
  deriving DecidableEq

inductive KvCacheEvent (H : Type)
  | create (hash : H)
  | remove (hash : H)

inductive KvCacheEvents (H : Type)
  | create (hashes : List H)
  | remove (hashes : List H)

structure KvbmCacheEvents (H : Type) where
  events : KvCacheEvents H
  instanceId : Nat

namespace KvCacheEvent

variable {H : Type}

def hash : KvCacheEvent H → H
  | create hash => hash
  | remove hash => hash

/-- `BatchType::from_event`. -/
def batchType : KvCacheEvent H → BatchType
  | create _ => .create
  | remove _ => .remove

/-- The set of cached blocks as one who follows the events knows it. -/
def follow (cached : Set H) : KvCacheEvent H → Set H
  | create hash => insert hash cached
  | remove hash => cached \ {hash}

end KvCacheEvent

def BatchType.event {H : Type} (hash : H) : BatchType → KvCacheEvent H
  | create => .create hash
  | remove => .remove hash

def BatchType.events {H : Type} (hashes : List H) : BatchType → KvCacheEvents H
  | create => .create hashes
  | remove => .remove hashes

/-- The set of cached blocks after a batch. -/
def KvbmCacheEvents.follow {H : Type} (cached : Set H) (batch : KvbmCacheEvents H) : Set H :=
  match batch.events with
  | .create hashes => cached ∪ {hash | hash ∈ hashes}
  | .remove hashes => cached \ {hash | hash ∈ hashes}

/-- Creates lie by ascending position, removes by descending position. -/
def KvbmCacheEvents.Ordered {H : Type} [LineageHash H] (batch : KvbmCacheEvents H) : Prop :=
  match batch.events with
  | .create hashes => hashes.Pairwise fun a b => LineageHash.position a ≤ LineageHash.position b
  | .remove hashes => hashes.Pairwise fun a b => LineageHash.position b ≤ LineageHash.position a

/-- What the `select!` of one turn finds: an event of the stream, or the deadline passed. -/
inductive BatchTurn (H : Type)
  | event (event : KvCacheEvent H)
  | timeout

/-- `window_duration` decides when a turn is a timeout and is not kept. -/
structure BatchingConfig where
  maxBatchSize : Nat
  nonZero : 0 < maxBatchSize

/-- `EventBatcher` with the variables of its loop. -/
structure EventBatcher (H : Type) where
  config : BatchingConfig
  instanceId : Nat
  currentBatch : List H
  currentType : Option BatchType

namespace EventBatcher

variable {H : Type}

def new (config : BatchingConfig) (instanceId : Nat) : EventBatcher H := ⟨config, instanceId, [], none⟩

section Batch

variable [LineageHash H]

/-- `sort_by_key` is stable, as `mergeSort` is. -/
def makeBatch (instanceId : Nat) (hashes : List H) : BatchType → KvbmCacheEvents H
  | .create => ⟨.create (hashes.mergeSort fun a b =>
    LineageHash.position a ≤ LineageHash.position b), instanceId⟩
  | .remove => ⟨.remove (hashes.mergeSort fun a b =>
    LineageHash.position b ≤ LineageHash.position a), instanceId⟩

/-- The batch to send when the loop flushes: none without events. -/
def pendingBatch (batcher : EventBatcher H) : List (KvbmCacheEvents H) :=
  match batcher.currentType with
  | some type_ =>
    if batcher.currentBatch.isEmpty then [] else [makeBatch batcher.instanceId batcher.currentBatch type_]
  | none => []

/-- Flushes ahead of an event of the other type. -/
def switchType (batcher : EventBatcher H) (type_ : BatchType) : EventBatcher H × List (KvbmCacheEvents H) :=
  if batcher.currentType = some type_ then (batcher, [])
  else ({ batcher with
    currentBatch := if batcher.currentType.isSome then [] else batcher.currentBatch }, batcher.pendingBatch)

def onEvent (batcher : EventBatcher H) (event : KvCacheEvent H) : EventBatcher H × List (KvbmCacheEvents H) :=
  let (kept, early) := batcher.switchType event.batchType
  let pushed := { kept with
    currentBatch := kept.currentBatch ++ [event.hash]
    currentType := some event.batchType }
  if batcher.config.maxBatchSize ≤ pushed.currentBatch.length then
    ({ pushed with currentBatch := [], currentType := none }, early ++ pushed.pendingBatch)
  else (pushed, early)

def onTimeout (batcher : EventBatcher H) : EventBatcher H × List (KvbmCacheEvents H) :=
  if batcher.currentType.isSome ∧ ¬ batcher.currentBatch.isEmpty then
    ({ batcher with currentBatch := [], currentType := none }, batcher.pendingBatch)
  else (batcher, [])

def onTurn (batcher : EventBatcher H) : BatchTurn H → EventBatcher H × List (KvbmCacheEvents H)
  | .event event => batcher.onEvent event
  | .timeout => batcher.onTimeout

/-- `batch`: the turns up to the end of the stream, and what is left at its end. -/
def batch (batcher : EventBatcher H) : List (BatchTurn H) → List (KvbmCacheEvents H)
  | [] => batcher.pendingBatch
  | turn :: turns =>
    let (after, sent) := batcher.onTurn turn
    sent ++ after.batch turns

end Batch

/-- The events of the stream. -/
def eventsOf (turns : List (BatchTurn H)) : List (KvCacheEvent H) :=
  turns.flatMap fun turn =>
    match turn with
    | .event event => [event]
    | .timeout => []

/-- The events that are not sent yet. -/
def pending (batcher : EventBatcher H) : List (KvCacheEvent H) :=
  match batcher.currentType with
  | some type_ => batcher.currentBatch.map fun hash => type_.event hash
  | none => []

/-- What holds between two turns: there is a type exactly while there are events, and they are
too few to send. -/
structure Waiting (batcher : EventBatcher H) : Prop where
  typed : batcher.currentType = none ↔ batcher.currentBatch = []
  few : batcher.currentBatch.length < batcher.config.maxBatchSize

theorem event_hash (event : KvCacheEvent H) : event.batchType.event event.hash = event := by
  cases event with
  | create hash => rfl
  | remove hash => rfl

theorem follow_creates (cached : Set H) (hashes : List H) :
    (hashes.map KvCacheEvent.create).foldl KvCacheEvent.follow cached = cached ∪ {hash | hash ∈ hashes} := by
  induction hashes generalizing cached with
  | nil => simp
  | cons hash hashes ih =>
    rw [List.map_cons, List.foldl_cons, ih]
    ext other
    simp only [KvCacheEvent.follow, Set.mem_union, Set.mem_insert_iff, Set.mem_ofPred_eq, List.mem_cons]
    tauto

theorem follow_removes (cached : Set H) (hashes : List H) :
    (hashes.map KvCacheEvent.remove).foldl KvCacheEvent.follow cached = cached \ {hash | hash ∈ hashes} := by
  induction hashes generalizing cached with
  | nil => simp
  | cons hash hashes ih =>
    rw [List.map_cons, List.foldl_cons, ih]
    ext other
    simp only [KvCacheEvent.follow, Set.mem_sdiff, Set.mem_singleton_iff, Set.mem_ofPred_eq, List.mem_cons]
    tauto

variable [LineageHash H]

/-- The batch names each of the hashes as often as they do, sorted, those of one position in their order. -/
structure Sends (instanceId : Nat) (type_ : BatchType) (hashes : List H)
    (batch : KvbmCacheEvents H) : Prop where
  sender : batch.instanceId = instanceId
  ordered : batch.Ordered
  named : ∃ sent, batch.events = type_.events sent ∧ sent.Perm hashes ∧
    ∀ position, sent.filter (LineageHash.position · = position) =
      hashes.filter (LineageHash.position · = position)

/-- The batches carry the events: each a stretch of one type, not empty and not too long. -/
inductive Carries (maxBatchSize instanceId : Nat) : List (KvbmCacheEvents H) → List (KvCacheEvent H) → Prop
  | nil : Carries maxBatchSize instanceId [] []
  | cons {batch : KvbmCacheEvents H} {batches : List (KvbmCacheEvents H)}
      {events : List (KvCacheEvent H)} {hashes : List H}
      {type_ : BatchType} (sends : Sends instanceId type_ hashes batch) (some_ : hashes ≠ [])
      (few : hashes.length ≤ maxBatchSize)
      (later : Carries maxBatchSize instanceId batches events) :
      Carries maxBatchSize instanceId (batch :: batches) ((hashes.map fun hash => type_.event hash) ++ events)

variable {batcher : EventBatcher H} {maxBatchSize instanceId : Nat}
  {batches batches' : List (KvbmCacheEvents H)}
  {events events' : List (KvCacheEvent H)} {hashes : List H} {type_ : BatchType}

/-- A stable sort moves none of the hashes of one position past another. -/
theorem filter_mergeSort {le : H → H → Bool} (trans : ∀ a b c, le a b → le b c → le a c)
    (total : ∀ a b, (le a b || le b a) = true)
    (level : ∀ a b, LineageHash.position a = LineageHash.position b → le a b = true)
    (hashes : List H) (position : Nat) :
    (hashes.mergeSort le).filter (LineageHash.position · = position) =
      hashes.filter (LineageHash.position · = position) := by
  have paired : (hashes.filter (LineageHash.position · = position)).Pairwise fun a b => le a b = true := by
    refine List.pairwise_of_forall_mem_list fun a here b there => level a b ?_
    rw [of_decide_eq_true (List.mem_filter.mp here).2, of_decide_eq_true (List.mem_filter.mp there).2]
  have kept := (List.sublist_mergeSort trans total paired List.filter_sublist).filter
    (LineageHash.position · = position)
  rw [List.filter_filter] at kept
  simp only [Bool.and_self] at kept
  exact (kept.eq_of_length ((List.mergeSort_perm hashes le).filter _).length_eq.symm).symm

theorem makeBatch_ordered : (makeBatch instanceId hashes type_).Ordered := by
  cases type_ with
  | create =>
    have sorted := @List.pairwise_mergeSort H
      (fun a b => decide (LineageHash.position a ≤ LineageHash.position b))
      (fun a b c => by simpa using Nat.le_trans) (fun a b => by simpa using Nat.le_total _ _) hashes
    exact sorted.imp fun {a b} less => by simpa using less
  | remove =>
    have sorted := @List.pairwise_mergeSort H
      (fun a b => decide (LineageHash.position b ≤ LineageHash.position a))
      (fun a b c early late => by simp at *; omega) (fun a b => by simpa using Nat.le_total _ _) hashes
    exact sorted.imp fun {a b} less => by simpa using less

theorem makeBatch_sends : Sends instanceId type_ hashes (makeBatch instanceId hashes type_) := by
  cases type_ with
  | create =>
    refine ⟨rfl, makeBatch_ordered, _, rfl, List.mergeSort_perm hashes _, fun position =>
      filter_mergeSort ?_ ?_ ?_ hashes position⟩
    · exact fun a b c => by simpa using Nat.le_trans
    · exact fun a b => by simpa using Nat.le_total _ _
    · exact fun a b same => decide_eq_true same.le
  | remove =>
    refine ⟨rfl, makeBatch_ordered, _, rfl, List.mergeSort_perm hashes _, fun position =>
      filter_mergeSort ?_ ?_ ?_ hashes position⟩
    · exact fun a b c early late => by simp at *; omega
    · exact fun a b => by simpa using Nat.le_total _ _
    · exact fun a b same => decide_eq_true same.ge

theorem Carries.append (early : Carries maxBatchSize instanceId batches events)
    (late : Carries maxBatchSize instanceId batches' events') :
    Carries maxBatchSize instanceId (batches ++ batches') (events ++ events') := by
  induction early with
  | nil => exact late
  | cons sends some_ few _ ih =>
    rw [List.append_assoc]
    exact .cons sends some_ few ih

theorem Carries.single (some_ : hashes ≠ []) (few : hashes.length ≤ maxBatchSize) :
    Carries maxBatchSize instanceId [makeBatch instanceId hashes type_]
      (hashes.map fun hash => type_.event hash) := by
  have carried : Carries maxBatchSize instanceId [makeBatch instanceId hashes type_]
      ((hashes.map fun hash => type_.event hash) ++ []) := .cons makeBatch_sends some_ few .nil
  rwa [List.append_nil] at carried

/-- What a flush sends is what was pending. -/
theorem pendingBatch_carries (few : batcher.currentBatch.length ≤ batcher.config.maxBatchSize) :
    Carries batcher.config.maxBatchSize batcher.instanceId batcher.pendingBatch batcher.pending := by
  unfold pendingBatch pending
  cases batcher.currentType with
  | none => exact .nil
  | some type_ =>
    dsimp only
    split_ifs with empty
    · rw [List.isEmpty_iff.mp empty]
      exact .nil
    · exact .single (fun none_ => empty (List.isEmpty_iff.mpr none_)) few

/-- After making room for a type the batch holds events of this type only. -/
theorem Waiting.switchType (waiting : batcher.Waiting) (type_ : BatchType) :
    ∃ early, Carries batcher.config.maxBatchSize batcher.instanceId (batcher.switchType type_).2 early ∧
      batcher.pending = early ++ (batcher.switchType type_).1.pending ∧
      (batcher.switchType type_).1.config = batcher.config ∧
        (batcher.switchType type_).1.instanceId = batcher.instanceId ∧
      (batcher.switchType type_).1.currentBatch.length < batcher.config.maxBatchSize ∧
      ((batcher.switchType type_).1.currentType = some type_ ∨
        (batcher.switchType type_).1.currentBatch = []) := by
  unfold EventBatcher.switchType
  split_ifs with same isTyped
  · exact ⟨[], .nil, rfl, rfl, rfl, waiting.few, Or.inl same⟩
  · refine ⟨batcher.pending, pendingBatch_carries waiting.few.le, ?_, rfl, rfl,
      batcher.config.nonZero, Or.inr rfl⟩
    obtain ⟨other, atType⟩ := Option.isSome_iff_exists.mp isTyped
    simp [pending, atType]
  · have untyped : batcher.currentType = none := by simpa using isTyped
    refine ⟨[], ?_, rfl, rfl, rfl, waiting.few, Or.inr (waiting.typed.mp untyped)⟩
    simp only [pendingBatch, untyped]
    exact .nil

/-- One turn: what it sends and what it keeps are what was kept and what came. -/
theorem Waiting.onTurn (waiting : batcher.Waiting) (turn : BatchTurn H) :
    ∃ sent, Carries batcher.config.maxBatchSize batcher.instanceId (batcher.onTurn turn).2 sent ∧
      batcher.pending ++ eventsOf [turn] = sent ++ (batcher.onTurn turn).1.pending ∧
        (batcher.onTurn turn).1.Waiting ∧
      (batcher.onTurn turn).1.config = batcher.config ∧
        (batcher.onTurn turn).1.instanceId = batcher.instanceId := by
  cases turn with
  | timeout =>
    have quiet : eventsOf [(BatchTurn.timeout : BatchTurn H)] = [] := rfl
    rw [quiet, List.append_nil]
    simp only [EventBatcher.onTurn, onTimeout]
    split_ifs with full
    · refine ⟨batcher.pending, pendingBatch_carries waiting.few.le, ?_,
        ⟨iff_of_true rfl rfl, batcher.config.nonZero⟩, rfl, rfl⟩
      simp [pending]
    · exact ⟨[], .nil, rfl, waiting, rfl, rfl⟩
  | event event =>
    obtain ⟨early, carried, split, config, instanceId, few, fits⟩ := waiting.switchType event.batchType
    have came : eventsOf [BatchTurn.event event] = [event] := rfl
    rw [came, split]
    simp only [EventBatcher.onTurn, onEvent]
    generalize batcher.switchType event.batchType = switched at *
    obtain ⟨⟨config', instanceId', kept, keptType⟩, flushed⟩ := switched
    dsimp only at *
    subst config instanceId
    have pushed : (⟨batcher.config, batcher.instanceId, kept ++ [event.hash],
      some event.batchType⟩ : EventBatcher H).pending =
        (⟨batcher.config, batcher.instanceId, kept, keptType⟩ : EventBatcher H).pending ++ [event] := by
      simp only [pending, List.map_append, List.map_cons, List.map_nil, event_hash]
      rcases fits with rfl | rfl
      · rfl
      · cases keptType with
        | none => rfl
        | some type_ => rfl
    split_ifs with full
    · have enough : (kept ++ [event.hash]).length ≤ batcher.config.maxBatchSize := by
        rw [List.length_append, List.length_singleton]
        omega
      have sent := @pendingBatch_carries H _
        ⟨batcher.config, batcher.instanceId, kept ++ [event.hash], some event.batchType⟩ enough
      rw [pushed] at sent
      refine ⟨_, carried.append sent, ?_, ⟨iff_of_true rfl rfl, batcher.config.nonZero⟩, rfl, rfl⟩
      simp [pending]
    · refine ⟨early, carried, ?_, ⟨by simp, Nat.lt_of_not_le full⟩, rfl, rfl⟩
      rw [pushed, List.append_assoc]

theorem Waiting.batch (waiting : batcher.Waiting) (turns : List (BatchTurn H)) :
    Carries batcher.config.maxBatchSize batcher.instanceId (batcher.batch turns)
      (batcher.pending ++ eventsOf turns) := by
  induction turns generalizing batcher with
  | nil =>
    rw [show eventsOf ([] : List (BatchTurn H)) = [] from rfl, List.append_nil]
    exact pendingBatch_carries waiting.few.le
  | cons turn turns ih =>
    obtain ⟨sent, carried, split, waiting', config, instanceId⟩ := waiting.onTurn turn
    have later := ih waiting'
    rw [config, instanceId] at later
    have came : eventsOf (turn :: turns) = eventsOf [turn] ++ eventsOf turns := by simp [eventsOf]
    rw [came, ← List.append_assoc, split, List.append_assoc]
    exact carried.append later

/-- Within a batch of one type the order does not matter. -/
theorem Sends.follow {batch : KvbmCacheEvents H}
    (sends : Sends instanceId type_ hashes batch) (cached : Set H) :
    batch.follow cached = (hashes.map fun hash => type_.event hash).foldl KvCacheEvent.follow cached := by
  obtain ⟨sent, events, perm, -⟩ := sends.named
  have members : {hash | hash ∈ sent} = {hash | hash ∈ hashes} := Set.ext fun hash => perm.mem_iff
  rw [KvbmCacheEvents.follow, events]
  cases type_ with
  | create => exact (congrArg (cached ∪ ·) members).trans (follow_creates cached hashes).symm
  | remove => exact (congrArg (cached \ ·) members).trans (follow_removes cached hashes).symm

theorem Carries.follow (carried : Carries maxBatchSize instanceId batches events) (cached : Set H) :
    batches.foldl KvbmCacheEvents.follow cached = events.foldl KvCacheEvent.follow cached := by
  induction carried generalizing cached with
  | nil => rfl
  | cons sends _ _ _ ih => rw [List.foldl_cons, sends.follow, ih, List.foldl_append]

theorem Carries.ordered (carried : Carries maxBatchSize instanceId batches events) :
    ∀ batch ∈ batches, batch.Ordered := by
  induction carried with
  | nil => exact fun batch inside => absurd inside List.not_mem_nil
  | cons sends _ _ _ ih =>
    intro batch inside
    rcases List.mem_cons.mp inside with rfl | later
    · exact sends.ordered
    · exact ih batch later

/-- However the timeouts fall between the events, the batches carry the events in order, each
batch of one type, within the size and sorted, and one who applies the batches to the set of
cached blocks ends where one who applies the events does. -/
theorem batches_follow_events (config : BatchingConfig) (instanceId : Nat) (turns : List (BatchTurn H)) :
    Carries config.maxBatchSize instanceId ((new config instanceId).batch turns) (eventsOf turns) ∧
      (∀ batch ∈ (new config instanceId).batch turns, batch.Ordered) ∧
      ∀ cached, ((new config instanceId).batch turns).foldl KvbmCacheEvents.follow cached =
        (eventsOf turns).foldl KvCacheEvent.follow cached := by
  have waiting : (new config instanceId : EventBatcher H).Waiting := ⟨iff_of_true rfl rfl, config.nonZero⟩
  have carried : Carries config.maxBatchSize instanceId
      ((new config instanceId).batch turns) (eventsOf turns) :=
    waiting.batch turns
  exact ⟨carried, carried.ordered, carried.follow⟩

end EventBatcher

end PegaInfer.Kvbm
