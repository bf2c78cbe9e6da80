import PegaInfer.KimiK2.Waves
import PegaInfer.KvStore.Pool

namespace PegaInfer.KvStore.BlockPool

open PegaInfer.Kvbm

variable {H : Type} [DecidableEq H] [SequenceHashing H]

/-- The padding block is all that is out of a new pool. -/
theorem new_ok {blockSize numBlocks : Nat} {pool : BlockPool H} {padding : ImmutableBlock H}
    (made : BlockPool.new blockSize numBlocks = some (pool, padding)) :
    pool.store.Ok (Holding.block padding) ∧ (Holding.block padding).ids.card = 1 := by
  unfold BlockPool.new at made
  split at made
  · next fresh id alloc =>
    split at made
    · next store block register =>
      cases made
      have moves := (BlockStore.transfers_allocate alloc).trans
        ((BlockStore.transfers_staged fresh id SequenceHashing.default).trans
          (BlockStore.transfers_register register))
      refine ⟨moves.whole (BlockStore.ok_new numBlocks), ?_⟩
      obtain ⟨-, -, rfl⟩ := BlockStore.allocateAtomic_cases alloc
      have none_ : ∀ hash : H, BlockStore.acquireForHash
          ((BlockStore.transitionToStaged
            { (BlockStore.new numBlocks : BlockStore H) with
              slots := fun other => if other ∈ [id] then .mutable
                else (BlockStore.new numBlocks : BlockStore H).slots other
              free := (BlockStore.new numBlocks : BlockStore H).free.drop 1
              inactive := (BlockStore.new numBlocks : BlockStore H).inactive.drop
                (1 - (BlockStore.new numBlocks : BlockStore H).free.length) }
            id SequenceHashing.default)) hash = none := fun hash => by
        simp [BlockStore.acquireForHash, BlockStore.transitionToStaged, BlockStore.setSlot, BlockStore.new]
      rw [BlockStore.registerCompletedBlock, none_] at register
      cases register
      rfl
    · cases made
  · cases made

end PegaInfer.KvStore.BlockPool

namespace PegaInfer.KimiK2

open Frontend Kvbm Lib KvStore

variable {H : Type}

/-- The scheduler between two waves. -/
structure KimiK2Scheduler (H : Type) where
  wave : Wave H
  pending : List GenerateRequest

variable [DecidableEq H] [SequenceHashing H]

def KimiK2Scheduler.new (blockSize numBlocks : Nat) : Option (KimiK2Scheduler H) :=
  (BlockPool.new blockSize numBlocks).map fun made =>
    { wave := { store := made.1.store, events := [], sends := 0, calls := 0 }, pending := [] }

namespace World

variable (world : World) (blockSize : Nat)

/-- One round of the loop of `run`; `arrivals` came in before its batch was cut. -/
def iterate (s : KimiK2Scheduler H) (arrivals : List GenerateRequest) : Option (KimiK2Scheduler H) :=
  let pending := s.pending ++ arrivals
  match world.handleRequestBatch blockSize s.wave (pending.take kimiRunnerMaxBatch) with
  | none => none
  | some (w, deferred) => some { wave := w, pending := deferred ++ pending.drop kimiRunnerMaxBatch }

def run (s : KimiK2Scheduler H) : List (List GenerateRequest) → Option (KimiK2Scheduler H)
  | [] => some s
  | arrivals :: rest =>
    match iterate world blockSize s arrivals with
    | none => none
    | some s => run s rest

end World

/-- Between two waves only the padding block is out. -/
structure KimiK2Scheduler.Drained (s : KimiK2Scheduler H) (padding : Holding H) : Prop where
  ok : s.wave.store.Ok padding
  one : padding.ids.card = 1

namespace World

variable {world : World} {blockSize : Nat} {s s' : KimiK2Scheduler H} {padding : Holding H}

omit [SequenceHashing H] in
theorem available_of_ok {w : Wave H} (ok : w.store.Ok padding) (one : padding.ids.card = 1) :
    w.availableBlocks = w.maxRequestBlocks := by
  have total := ok.available
  rw [Wave.availableBlocks, Wave.maxRequestBlocks]
  omega

/-- What one wave does with its batch. -/
structure WaveDone (world : World) (blockSize : Nat) (w : Wave H) (batch : List GenerateRequest) (w' : Wave H)
    (deferred : List GenerateRequest) : Prop where
  returned : world.handleRequestBatch blockSize w batch = some (w', deferred)
  released : w'.availableBlocks = w'.maxRequestBlocks
  settles : Settles world w (batch.map GenerateRequest.tokenTx) w' (deferred.map GenerateRequest.tokenTx)
  order : deferred.Sublist batch
  passed : ∀ req ∈ deferred, req.Passes blockSize w.maxRequestBlocks
  first : ∀ before req after, batch = before ++ req :: after →
    (∀ other ∈ before, ¬ other.Passes blockSize w.maxRequestBlocks) →
    req.Passes blockSize w.maxRequestBlocks → deferred.Sublist after

/-- The head of the batch never comes back. -/
theorem WaveDone.head {w w' : Wave H} {batch deferred : List GenerateRequest}
    (done : WaveDone world blockSize w batch w' deferred) :
    deferred.Sublist batch.tail := by
  cases shape : batch with
  | nil =>
    have order := done.order
    rwa [shape] at order
  | cons req after =>
    by_cases passes : req.Passes blockSize w.maxRequestBlocks
    · exact done.first [] req after shape (fun _ member => absurd member List.not_mem_nil) passes
    · have order := done.order
      rw [shape] at order
      cases order with
      | cons _ later => exact later
      | cons_cons _ _ => exact absurd (done.passed req List.mem_cons_self) passes

theorem Drained.wave (positional : Positional H) (pos : 0 < blockSize) (world : World)
    (drained : s.Drained padding)
    (batch : List GenerateRequest) :
    ∃ w' deferred, WaveDone world blockSize s.wave batch w' deferred ∧ w'.store.Ok padding := by
  have full := available_of_ok drained.ok drained.one
  obtain ⟨w', deferred, returned, ok, shape, order, passed, settles⟩ :=
    handleRequestBatch_spec positional pos world batch drained.ok
  refine ⟨w', deferred, ⟨returned, available_of_ok ok drained.one, settles, order, passed, ?_⟩, ok⟩
  rintro before req after rfl refused passes
  rw [shape]
  exact (@foldl_first _ req world blockSize
    { wave := s.wave, budget := s.wave.availableBlocks, prefillReqs := [], deferred := [] } before after
    refused passes full rfl).1

theorem Drained.iterate (positional : Positional H) (pos : 0 < blockSize) (world : World)
    (drained : s.Drained padding)
    (arrivals : List GenerateRequest) :
    ∃ s', world.iterate blockSize s arrivals = some s' ∧ s'.Drained padding ∧
      s'.pending.Sublist (s.pending ++ arrivals).tail ∧
      Settles world s.wave ((s.pending ++ arrivals).map GenerateRequest.tokenTx) s'.wave
        (s'.pending.map GenerateRequest.tokenTx) := by
  obtain ⟨w', deferred, done, ok⟩ :=
    Drained.wave positional pos world drained ((s.pending ++ arrivals).take kimiRunnerMaxBatch)
  refine ⟨{ wave := w', pending := deferred ++ (s.pending ++ arrivals).drop kimiRunnerMaxBatch },
    ?_, ⟨ok, drained.one⟩, ?_, ?_⟩
  · rw [World.iterate]
    simp only [done.returned]
  · have kept := done.head.append (List.Sublist.refl ((s.pending ++ arrivals).drop kimiRunnerMaxBatch))
    cases shape : s.pending ++ arrivals with
    | nil => simpa [shape] using kept
    | cons req after => simpa [shape] using kept
  · have whole := done.settles.frame
      (((s.pending ++ arrivals).drop kimiRunnerMaxBatch).map GenerateRequest.tokenTx)
    rwa [← List.map_append, List.take_append_drop, ← List.map_append] at whole

theorem Drained.run (positional : Positional H) (pos : 0 < blockSize) (world : World)
    (drained : s.Drained padding)
    (submitted : List (List GenerateRequest)) :
    ∃ s', world.run blockSize s submitted = some s' ∧ s'.Drained padding ∧
      Settles world s.wave ((s.pending ++ submitted.flatten).map GenerateRequest.tokenTx) s'.wave
        (s'.pending.map GenerateRequest.tokenTx) := by
  induction submitted generalizing s with
  | nil => exact ⟨s, rfl, drained, by simpa using Settles.refl s.wave _⟩
  | cons arrivals rest ih =>
    obtain ⟨s₁, step, drained₁, -, settles⟩ := Drained.iterate positional pos world drained arrivals
    obtain ⟨s₂, later, drained₂, settles'⟩ := ih drained₁
    refine ⟨s₂, by rw [World.run, step]; exact later, drained₂, ?_⟩
    have whole := settles.frame (rest.flatten.map GenerateRequest.tokenTx)
    rw [← List.map_append, ← List.map_append, List.append_assoc, ← List.flatten_cons] at whole
    exact whole.trans settles'

/-- With every wave the queue loses its head. -/
theorem Drained.advance (positional : Positional H) (pos : 0 < blockSize) (world : World)
    (drained : s.Drained padding)
    (later : List (List GenerateRequest)) (enough : later.length ≤ s.pending.length) :
    ∃ s', world.run blockSize s later = some s' ∧
      s'.pending.Sublist (s.pending.drop later.length ++ later.flatten) := by
  suffices general : ∀ queue, s.pending.Sublist queue → later.length ≤ queue.length →
      ∃ s', world.run blockSize s later = some s' ∧
        s'.pending.Sublist (queue.drop later.length ++ later.flatten) from
    general s.pending (.refl _) enough
  clear enough
  induction later generalizing s with
  | nil => exact fun queue within _ => ⟨s, rfl, by simpa using within⟩
  | cons arrivals rest ih =>
    intro queue within enough
    rw [List.length_cons] at enough
    obtain ⟨s₁, step, drained₁, shorter, -⟩ := Drained.iterate positional pos world drained arrivals
    obtain ⟨front, others, rfl⟩ : ∃ front others, queue = front :: others := by
      cases queue with
      | nil => simp at enough
      | cons front others => exact ⟨front, others, rfl⟩
    have within₁ : s₁.pending.Sublist (others ++ arrivals) :=
      shorter.trans (within.append (.refl arrivals)).tail
    obtain ⟨s₂, ran, end_⟩ := ih drained₁ (others ++ arrivals) within₁ (by simp at enough ⊢; omega)
    refine ⟨s₂, by rw [World.run, step]; exact ran, ?_⟩
    rw [List.length_cons] at enough
    rw [List.drop_append_of_le_length (by omega), List.append_assoc] at end_
    simpa using end_

end World

theorem KimiK2Scheduler.new_drained {blockSize numBlocks : Nat} {s : KimiK2Scheduler H}
    (made : KimiK2Scheduler.new blockSize numBlocks = some s) :
    ∃ padding, s.Drained padding := by
  obtain ⟨⟨pool, block⟩, built, rfl⟩ := Option.map_eq_some_iff.mp made
  obtain ⟨ok, one⟩ := BlockPool.new_ok built
  exact ⟨Holding.block block, ok, one⟩

/-- Whatever is submitted and whatever the executor does: every wave returns and starts from a
full pool, every request waits or is settled, and after `position + 1` more waves only requests
from behind `position` are left in the queue. -/
theorem KimiK2Scheduler.waves_progress (positional : Positional H) {blockSize numBlocks : Nat}
    (pos : 0 < blockSize) {s : KimiK2Scheduler H}
    (made : KimiK2Scheduler.new blockSize numBlocks = some s) (world : World)
    (submitted : List (List GenerateRequest)) :
    ∃ s', world.run blockSize s submitted = some s' ∧ s'.wave.availableBlocks = s'.wave.maxRequestBlocks ∧
      Settles world s.wave (submitted.flatten.map GenerateRequest.tokenTx) s'.wave
        (s'.pending.map GenerateRequest.tokenTx) ∧
      (∀ arrivals, ∃ w deferred, World.WaveDone world blockSize s'.wave
        ((s'.pending ++ arrivals).take kimiRunnerMaxBatch) w deferred ∧
        world.iterate blockSize s' arrivals =
          some { wave := w, pending := deferred ++ (s'.pending ++ arrivals).drop kimiRunnerMaxBatch }) ∧
      ∀ position later, position < s'.pending.length → later.length = position + 1 →
        ∃ s'', world.run blockSize s' later = some s'' ∧
          s''.pending.Sublist (s'.pending.drop (position + 1) ++ later.flatten) := by
  obtain ⟨padding, drained⟩ := new_drained made
  have empty : s.pending = [] := by
    obtain ⟨_, -, rfl⟩ := Option.map_eq_some_iff.mp made
    rfl
  obtain ⟨s', ran, drained', settles⟩ := World.Drained.run positional pos world drained submitted
  rw [empty, List.nil_append] at settles
  refine ⟨s', ran, World.available_of_ok drained'.ok drained'.one, settles, ?_, ?_⟩
  · intro arrivals
    obtain ⟨w, deferred, done, -⟩ := World.Drained.wave positional pos world drained'
      ((s'.pending ++ arrivals).take kimiRunnerMaxBatch)
    refine ⟨w, deferred, done, ?_⟩
    rw [World.iterate]
    simp only [done.returned]
  · intro position later inside length
    have advance := World.Drained.advance positional pos world drained' later (by omega)
    rwa [length] at advance

/-- An executor that always succeeds and always samples 7, and sinks that all listen. -/
def World.obliging : World where
  stopTokenIds := [9]
  salt := none
  forward := fun _ _ => some fun _ => ⟨7, none⟩
  listens := fun _ _ => true
  unixNow := fun _ => 0

/-- A greedy request for `maxTokens` tokens after a prompt of six. -/
def greedyRequest (tokenTx maxTokens : Nat) : GenerateRequest :=
  ⟨tokenTx, none, [1, 2, 3, 4, 5, 6], maxTokens, false, ⟨.finite 0, -1, .finite 1, false⟩⟩

/-- Three pages serve one request of two pages a wave; the second one waits a wave and is answered then. -/
theorem KimiK2Scheduler.waves_progress_deferred :
    ∃ s s' : KimiK2Scheduler ChainKey, KimiK2Scheduler.new 4 3 = some s ∧
      World.obliging.run 4 s [[greedyRequest 0 2, greedyRequest 1 2]] = some s' ∧
        s'.pending = [greedyRequest 1 2] ∧
      s'.wave.availableBlocks = s'.wave.maxRequestBlocks ∧ s'.wave.terminals 0 = 1 ∧
        s'.wave.terminals 1 = 0 := by
  have shape : (KimiK2Scheduler.new 4 3 : Option (KimiK2Scheduler ChainKey)).bind (fun s =>
      (World.obliging.run 4 s [[greedyRequest 0 2, greedyRequest 1 2]]).map fun s' =>
        (s'.pending, s'.wave.terminals 0, s'.wave.terminals 1)) =
          some ([greedyRequest 1 2], 1, 0) := by decide +kernel
  obtain ⟨s, made, rest⟩ := Option.bind_eq_some_iff.mp shape
  obtain ⟨s', ran, parts⟩ := Option.map_eq_some_iff.mp rest
  simp only [Prod.mk.injEq] at parts
  obtain ⟨s'', again, full, -⟩ := waves_progress chainKey_positional
    (by decide) made World.obliging [[greedyRequest 0 2, greedyRequest 1 2]]
  obtain rfl := Option.some.inj (ran.symm.trans again)
  exact ⟨s, s', made, ran, parts.1, full, parts.2.1, parts.2.2⟩

end PegaInfer.KimiK2
