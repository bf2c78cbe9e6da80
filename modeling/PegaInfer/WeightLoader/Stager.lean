import PegaInfer.WeightLoader.Delivered

namespace PegaInfer.WeightLoader

open Slices

/-- A copy in flight: it reads `bytes` cells of a pinned buffer, at any moment until it is complete. -/
structure Dma where
  buffer : Nat
  dstAt : Nat
  bytes : Nat
  left : List Nat

/-- Where the host is in `stage_chunk`; `draining` and `failed` are `drain_or_abort` and the
error after it. -/
inductive Phase
  | ready
  | fill (idx : Nat) (chunk : Chunk) (scopes : List (List Task))
  | record (idx : Nat)
  | draining
  | failed

/-- `WeightStager` with the chunks it has still to stage. An event is the number of copies that
are complete once it is done. -/
structure Stager where
  pinned : Nat → Nat → UInt8
  dmaDone : Nat → Nat
  next : Nat
  phase : Phase
  chunks : List Chunk
  stream : List Dma
  completed : Nat
  device : Nat → UInt8

namespace Stager

/-- A fresh stager, before the recorded uploads. -/
def start (pool : FillPool) (uploads : List Upload) (pinned : Nat → Nat → UInt8)
    (device : Nat → UInt8) : Stager where
  pinned := pinned
  dmaDone := fun _ => 0
  next := 0
  phase := .ready
  chunks := uploads.flatMap (Upload.chunks pool)
  stream := []
  completed := 0
  device := device

/-- `memcpy_htod_async`. -/
def enqueue (s : Stager) (idx : Nat) (chunk : Chunk) : List Dma :=
  s.stream ++ [{ buffer := idx, dstAt := chunk.dstAt, bytes := chunk.bytes, left := List.range chunk.bytes }]

/-- One step of the upload loop, of a worker or of the device. A copy that fails may still
have been started. -/
inductive Step : Stager → Stager → Prop
  | synchronize {s chunk chunks} : s.phase = .ready → s.chunks = chunk :: chunks →
      s.dmaDone s.next ≤ s.completed →
      Step s { s with next := (s.next + 1) % 2, phase := .fill s.next chunk chunk.fill, chunks := chunks }
  | write {s idx chunk before byte offset task after scopes} :
      s.phase = .fill idx chunk ((before ++ ((byte, offset) :: task) :: after) :: scopes) →
      Step s { s with
        pinned := Function.update s.pinned idx (Function.update (s.pinned idx) offset byte)
        phase := .fill idx chunk ((before ++ task :: after) :: scopes) }
  | join {s idx chunk tasks scopes} : s.phase = .fill idx chunk (tasks :: scopes) →
      (∀ task ∈ tasks, task = []) →
      Step s { s with phase := .fill idx chunk scopes }
  | copy {s idx chunk} : s.phase = .fill idx chunk [] →
      Step s { s with stream := s.enqueue idx chunk, phase := .record idx }
  | copyFailed {s idx chunk} (started : Bool) : s.phase = .fill idx chunk [] →
      Step s { s with stream := if started then s.enqueue idx chunk else s.stream, phase := .draining }
  | record {s idx} : s.phase = .record idx →
      Step s { s with
        dmaDone := Function.update s.dmaDone idx (s.completed + s.stream.length)
        phase := .ready }
  | recordFailed {s idx} : s.phase = .record idx → Step s { s with phase := .draining }
  | drained {s} : s.phase = .draining → s.stream = [] → Step s { s with phase := .failed }
  | transfer {s dma rest offset} : s.stream = dma :: rest → offset ∈ dma.left →
      Step s { s with
        device := Function.update s.device (dma.dstAt + offset) (s.pinned dma.buffer offset)
        stream := { dma with left := dma.left.filter (· ≠ offset) } :: rest }
  | complete {s dma rest} : s.stream = dma :: rest → dma.left = [] →
      Step s { s with stream := rest, completed := s.completed + 1 }

/-- Every recorded upload has been staged, and the stream is drained. -/
structure Drained (s : Stager) : Prop where
  ready : s.phase = .ready
  staged : s.chunks = []
  idle : s.stream = []

/-- The copies enqueued so far. -/
def enqueued (s : Stager) : Nat := s.completed + s.stream.length

/-- The steps a scope, a chunk, a phase and the stream still take. -/
def fillWork (scopes : List (List Task)) : Nat :=
  (scopes.map fun tasks => (tasks.map List.length).sum + 1).sum

def phaseWork : Phase → Nat
  | .ready => 0
  | .fill _ chunk scopes => fillWork scopes + chunk.bytes + 4
  | .record _ => 2
  | .draining => 1
  | .failed => 0

def work (s : Stager) : Nat :=
  (s.chunks.map fun chunk => fillWork chunk.fill + chunk.bytes + 5).sum + phaseWork s.phase +
    (s.stream.map fun dma => dma.left.length + 1).sum

theorem work_enqueue (s : Stager) (idx : Nat) (chunk : Chunk) :
    ((s.enqueue idx chunk).map fun dma => dma.left.length + 1).sum =
      (s.stream.map fun dma => dma.left.length + 1).sum + chunk.bytes + 1 := by
  simp only [enqueue, List.map_append, List.sum_append, List.map_cons, List.map_nil,
    List.sum_singleton, List.length_range]
  omega

theorem Step.work_lt {s s' : Stager} (step : Step s s') : s'.work < s.work := by
  cases step with
  | synchronize ready queued _ =>
    simp only [work, ready, queued, phaseWork, List.map_cons, List.sum_cons]
    omega
  | write filling =>
    simp only [work, filling, phaseWork, fillWork, List.map_cons, List.sum_cons, List.map_append,
      List.sum_append, List.length_cons]
    omega
  | join filling _ =>
    simp only [work, filling, phaseWork, fillWork, List.map_cons, List.sum_cons]
    omega
  | copy filling =>
    simp only [work, filling, phaseWork, fillWork, List.map_nil, List.sum_nil, work_enqueue]
    omega
  | copyFailed started filling =>
    cases started
    · simp only [work, filling, phaseWork, Bool.false_eq_true, if_false]
      omega
    · simp only [work, filling, phaseWork, if_true, work_enqueue]
      omega
  | record recording => simp only [work, recording, phaseWork]; omega
  | recordFailed recording => simp only [work, recording, phaseWork]; omega
  | drained draining _ => simp only [work, draining, phaseWork]; omega
  | @transfer dma rest offset flight inside =>
    have fewer : (dma.left.filter (· ≠ offset)).length < dma.left.length :=
      List.length_filter_lt_length_iff_exists.mpr ⟨offset, inside, by simp⟩
    simp only [work, flight, List.map_cons, List.sum_cons]
    omega
  | complete flight _ =>
    simp only [work, flight, List.map_cons, List.sum_cons]
    omega

end Stager

end PegaInfer.WeightLoader
