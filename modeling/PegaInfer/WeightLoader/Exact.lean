import PegaInfer.WeightLoader.StagerInvariant

namespace PegaInfer.WeightLoader

open Slices

/-- The intended bytes of the uploads, written in the order they were recorded. -/
def written (memory : Nat → UInt8) (uploads : List Upload) : Nat → UInt8 :=
  uploads.foldl (fun memory upload => store memory upload.dstAt upload.intended) memory

variable {stream : StreamState} {pool : FillPool} {uploads : List Upload}
  {pinned : Nat → Nat → UInt8} {memory : Nat → UInt8}

theorem recorded_delivers (pool : FillPool)
    (prepared : ∀ upload ∈ uploads, ∃ addresses, Prepared stream upload addresses) :
    (∀ chunk ∈ uploads.flatMap (Upload.chunks pool), ∃ upload ∈ uploads,
      chunk.Within upload.dstAt upload.intended.length) ∧
      ∃ contents, List.Forall₂ Chunk.Carries (uploads.flatMap (Upload.chunks pool)) contents ∧
        ∀ memory, storeAll memory (uploads.flatMap (Upload.chunks pool)) contents =
          written memory uploads := by
  induction uploads with
  | nil => exact ⟨fun chunk member => absurd member List.not_mem_nil, [], .nil, fun memory => rfl⟩
  | cons upload uploads ih =>
    obtain ⟨within, contents, carried, stored⟩ :=
      ih fun upload member => prepared upload (List.mem_cons_of_mem _ member)
    obtain ⟨addresses, here⟩ := prepared upload List.mem_cons_self
    obtain ⟨within', contents', carried', stored'⟩ := here.delivers pool
    refine ⟨fun chunk member => ?_, contents' ++ contents, List.rel_append carried' carried, fun memory => ?_⟩
    · rcases List.mem_append.mp (List.flatMap_cons ▸ member) with first | rest
      · exact ⟨upload, List.mem_cons_self, within' chunk first⟩
      · obtain ⟨other, inUploads, bounds⟩ := within chunk rest
        exact ⟨other, List.mem_cons_of_mem _ inUploads, bounds⟩
    · rw [List.flatMap_cons, storeAll_append carried', stored', stored]
      rfl

theorem storeAll_outside {chunks : List Chunk} {contents : List Bytes}
    (carried : List.Forall₂ Chunk.Carries chunks contents)
    {address : Nat} (outside : ∀ chunk ∈ chunks,
      ¬ (chunk.dstAt ≤ address ∧ address < chunk.dstAt + chunk.bytes)) (memory : Nat → UInt8) :
    storeAll memory chunks contents address = memory address := by
  induction carried generalizing memory with
  | nil => rfl
  | cons carries _ ih =>
    rw [storeAll, ih (fun chunk member => outside chunk (List.mem_cons_of_mem _ member)), store_outside]
    rw [carries.length]
    exact outside _ List.mem_cons_self

theorem written_outside {address : Nat} (outside : ∀ upload ∈ uploads, address ∉ upload.destination) :
    written memory uploads address = memory address := by
  induction uploads generalizing memory with
  | nil => rfl
  | cons upload uploads ih =>
    refine (ih fun other member => outside other (List.mem_cons_of_mem _ member)).trans (store_outside ?_)
    exact outside upload List.mem_cons_self

/-- The last upload that covers an address decides what it holds. -/
theorem written_last {i offset : Nat} {upload : Upload} {byte : UInt8} (recorded : uploads[i]? = some upload)
    (found : upload.intended[offset]? = some byte)
    (last : ∀ later ∈ uploads.drop (i + 1), upload.dstAt + offset ∉ later.destination) :
    written memory uploads (upload.dstAt + offset) = byte := by
  have cut : uploads = uploads.take i ++ upload :: uploads.drop (i + 1) := by
    obtain ⟨lt, rfl⟩ := List.getElem?_eq_some_iff.mp recorded
    rw [← List.drop_eq_getElem_cons lt, List.take_append_drop]
  rw [cut, written, List.foldl_append, List.foldl_cons]
  exact (written_outside last).trans (store_inside found)

namespace Stager

variable {all : List Chunk} {contents : List Bytes} {s s' : Stager}

theorem start_inv (pool : FillPool) (uploads : List Upload) (pinned : Nat → Nat → UInt8)
    (memory : Nat → UInt8) (contents : List Bytes) :
    Inv (uploads.flatMap (Upload.chunks pool)) contents memory (start pool uploads pinned memory) where
  control := ⟨fun _ => ⟨rfl, rfl⟩, fun _ _ _ filling => (by cases filling), fun _ recording =>
    (by cases recording)⟩
  flight := fun i dma at_ => by cases at_
  untouched := fun i dma at_ => by cases at_
  idle := fun _ => rfl
  moving := fun dma rest content stream => by cases stream
  events := fun job lt => absurd lt (Nat.not_lt_zero job)
  past := fun _ => le_rfl

theorem Inv.step (inv : Inv all contents memory s)
    (carried : List.Forall₂ Chunk.Carries all contents) (step : Step s s') :
    Inv all contents memory s' := by
  cases step with
  | synchronize ready queued done => exact inv.synchronize carried ready queued done
  | write filling => exact inv.write filling
  | join filling joined => exact inv.join filling joined
  | @copy idx chunk filling =>
    exact inv.enqueue filling trivial fun _ recording => (Phase.record.inj recording).symm
  | @copyFailed idx chunk started filling =>
    cases started with
    | false => exact inv.giveUp (.inl rfl)
    | true => exact inv.enqueue filling trivial fun _ recording => by cases recording
  | record recording => exact inv.record recording
  | recordFailed => exact inv.giveUp (.inl rfl)
  | drained => exact inv.giveUp (.inr rfl)
  | transfer stream inside => exact inv.transfer stream inside
  | complete stream copied => exact inv.complete carried stream copied

theorem Inv.run (inv : Inv all contents memory s) (carried : List.Forall₂ Chunk.Carries all contents)
    (run : Relation.ReflTransGen Step s s') : Inv all contents memory s' := by
  induction run with
  | refl => exact inv
  | tail _ step ih => exact ih.step carried step

/-- Only the buffer being filled is written, and no copy in flight reads it. -/
theorem Inv.pinned_free (inv : Inv all contents memory s) (step : Step s s') {buffer : Nat}
    (changed : s'.pinned buffer ≠ s.pinned buffer) :
    ∀ dma ∈ s.stream, dma.buffer ≠ buffer := by
  cases step with
  | @write idx chunk before byte offset task after scopes filling =>
    obtain ⟨-, -, -, -, clear, -⟩ := inv.control.fill _ _ _ filling
    have same : buffer = idx := by
      by_contra other
      exact changed (Function.update_of_ne other _ _)
    rwa [same]
  | _ => exact absurd rfl changed

theorem Inv.outside (inv : Inv all contents memory s)
    (carried : List.Forall₂ Chunk.Carries all contents) {address : Nat}
    (outside : ∀ chunk ∈ all, ¬ (chunk.dstAt ≤ address ∧ address < chunk.dstAt + chunk.bytes)) :
    s.device address = memory address := by
  have settled_ : settled all contents memory s.completed address = memory address :=
    storeAll_outside (List.forall₂_take _ carried)
      (fun chunk member => outside chunk (List.mem_of_mem_take member)) memory
  cases stream : s.stream with
  | nil => rw [inv.idle stream, settled_]
  | cons dma rest =>
    obtain ⟨-, ⟨chunk, found, place, size⟩, ⟨content, held, length, -⟩, -⟩ :=
      inv.flight 0 dma (by rw [stream]; rfl)
    rw [inv.moving dma rest content stream held]
    split
    · rw [store_outside, settled_]
      rw [place, length, size]
      exact outside chunk (List.mem_of_getElem? found)
    · exact settled_

theorem Inv.drained (inv : Inv all contents memory s)
    (carried : List.Forall₂ Chunk.Carries all contents) (drained : s.Drained) :
    s.device = storeAll memory all contents := by
  have staged := (inv.control.ready drained.ready).1
  rw [drained.staged, enqueued, drained.idle, List.length_nil, Nat.add_zero, eq_comm,
    List.drop_eq_nil_iff] at staged
  rw [inv.idle drained.idle, settled, List.take_of_length_le staged,
    List.take_of_length_le (by rw [← carried.length_eq]; exact staged)]

/-- The uploads ended with an error, and nothing is in flight. -/
structure Aborted (s : Stager) : Prop where
  failed : s.phase = .failed
  idle : s.stream = []

/-- The host has met no error. -/
def Sound (s : Stager) : Prop := s.phase ≠ .draining ∧ s.phase ≠ .failed

/-- A stager waits only for copies in flight, so one with nothing in flight moves on. -/
theorem Inv.progress (inv : Inv all contents memory s) :
    s.Drained ∨ s.Aborted ∨ ∃ s', Step s s' ∧ (s.Sound → s'.Sound) := by
  cases stream : s.stream with
  | cons dma rest =>
    cases copied : dma.left with
    | nil => exact .inr (.inr ⟨_, .complete stream copied, id⟩)
    | cons offset left =>
      exact .inr (.inr ⟨_, .transfer stream (by rw [copied]; exact List.mem_cons_self), id⟩)
  | nil =>
    cases phase : s.phase with
    | ready =>
      cases queued : s.chunks with
      | nil => exact .inl ⟨phase, queued, stream⟩
      | cons chunk chunks =>
        have done := inv.past s.next
        rw [enqueued, stream, List.length_nil, Nat.add_zero] at done
        exact .inr (.inr ⟨_, .synchronize phase queued done, fun _ => ⟨Phase.noConfusion, Phase.noConfusion⟩⟩)
    | fill idx chunk scopes =>
      cases scopes with
      | nil => exact .inr (.inr ⟨_, .copy phase, fun _ => ⟨Phase.noConfusion, Phase.noConfusion⟩⟩)
      | cons tasks scopes =>
        by_cases joined : ∀ task ∈ tasks, task = []
        · exact .inr (.inr ⟨_, .join phase joined, fun _ => ⟨Phase.noConfusion, Phase.noConfusion⟩⟩)
        · simp only [not_forall] at joined
          obtain ⟨task, member, nonempty⟩ := joined
          obtain ⟨before, after, rfl⟩ := List.append_of_mem member
          obtain ⟨⟨byte, offset⟩, task, rfl⟩ := List.exists_cons_of_ne_nil nonempty
          exact .inr (.inr ⟨_, .write phase, fun _ => ⟨Phase.noConfusion, Phase.noConfusion⟩⟩)
    | record idx => exact .inr (.inr ⟨_, .record phase, fun _ => ⟨Phase.noConfusion, Phase.noConfusion⟩⟩)
    | draining => exact .inr (.inr ⟨_, .drained phase stream, fun sound => absurd phase sound.1⟩)
    | failed => exact .inr (.inl ⟨phase, stream⟩)

/-- Without an error the uploads always come to their end. -/
theorem Inv.drains (inv : Inv all contents memory s)
    (carried : List.Forall₂ Chunk.Carries all contents) (sound : s.Sound) :
    ∃ s', Relation.ReflTransGen Step s s' ∧ s'.Drained := by
  induction work : s.work using Nat.strong_induction_on generalizing s with
  | _ n ih =>
    rcases inv.progress with drained | aborted | ⟨next, step, kept⟩
    · exact ⟨s, .refl, drained⟩
    · exact absurd aborted.failed sound.2
    · obtain ⟨last, run, drained⟩ :=
        ih next.work (work ▸ step.work_lt) (inv.step carried step) (kept sound) rfl
      exact ⟨last, .head step run, drained⟩

theorem start_sound : (start pool uploads pinned memory).Sound := ⟨Phase.noConfusion, Phase.noConfusion⟩

/-- A drained stager has written every upload, in the order they were recorded. -/
theorem drained_written (prepared : ∀ upload ∈ uploads, ∃ addresses, Prepared stream upload addresses)
    (run : Relation.ReflTransGen Step (start pool uploads pinned memory) s) (drained : s.Drained) :
    s.device = written memory uploads := by
  obtain ⟨-, contents, carried, stored⟩ := recorded_delivers pool prepared
  rw [((start_inv pool uploads pinned memory contents).run carried run).drained carried drained, stored]

theorem exists_drained (prepared : ∀ upload ∈ uploads, ∃ addresses, Prepared stream upload addresses) :
    ∃ s, Relation.ReflTransGen Step (start pool uploads pinned memory) s ∧ s.Drained := by
  obtain ⟨-, contents, carried, -⟩ := recorded_delivers pool prepared
  exact (start_inv pool uploads pinned memory contents).drains carried start_sound

/-- In every state of every run no copy in flight loses its bytes and nothing is written outside
the destinations; every run ends, and once the stream is drained an address holds what the last
upload that covers it was meant to leave there. -/
theorem staged_upload_exact (prepared : ∀ upload ∈ uploads, ∃ addresses, Prepared stream upload addresses)
    (run : Relation.ReflTransGen Step (start pool uploads pinned memory) s) :
    (∀ chunk ∈ uploads.flatMap (Upload.chunks pool), chunk.bytes ≤ stageBytes) ∧
    (∀ s' buffer, Step s s' → s'.pinned buffer ≠ s.pinned buffer → ∀ dma ∈ s.stream, dma.buffer ≠ buffer) ∧
    (∀ address, (∀ upload ∈ uploads, address ∉ upload.destination) → s.device address = memory address) ∧
    (s.Drained → ∀ i upload, uploads[i]? = some upload → ∀ offset byte, upload.intended[offset]? = some byte →
      (∀ later ∈ uploads.drop (i + 1), upload.dstAt + offset ∉ later.destination) →
        s.device (upload.dstAt + offset) = byte) ∧
    (∀ s', Step s s' → s'.work < s.work) ∧ (s.Drained ∨ s.Aborted ∨ ∃ s', Step s s') := by
  obtain ⟨within, contents, carried, -⟩ := recorded_delivers pool prepared
  have inv := (start_inv pool uploads pinned memory contents).run carried run
  refine ⟨?_, fun s' buffer step changed => inv.pinned_free step changed, ?_, ?_,
    fun s' step => step.work_lt, ?_⟩
  · intro chunk member
    obtain ⟨job, found⟩ := List.mem_iff_getElem?.mp member
    obtain ⟨content, -, carries⟩ := exists_content carried found
    exact carries.small
  · intro address outside
    refine inv.outside carried fun chunk member inside => ?_
    obtain ⟨upload, inUploads, bounds⟩ := within chunk member
    exact outside upload inUploads ⟨bounds.1.trans inside.1, inside.2.trans_le bounds.2⟩
  · intro drained i upload recorded offset byte found last
    rw [drained_written prepared run drained]
    exact written_last recorded found last
  · rcases inv.progress with drained | aborted | ⟨next, step, -⟩
    · exact .inl drained
    · exact .inr (.inl aborted)
    · exact .inr (.inr ⟨next, step⟩)

/-- Two bytes to a buffer of one element, three slices of which one is empty, and the second of
two columns of two rows. -/
def recorded : List Upload :=
  [.contiguous [7, 9] 16, .slices [[1], [], [2, 3]] 32,
    .cols [1, 2, 3, 4, 5, 6, 7, 8]
      { strideB := 4, offB := 2, takeB := 2, rows := 2, dstAt := 48, wide := by decide }]

theorem recorded_prepared : ∀ upload ∈ recorded, ∃ addresses, Prepared ⟨0, false⟩ upload addresses := by
  have pair : prepare ⟨0, false⟩ [7, 9] { ptr := 16, len := 1, stream := 0 } 0 = .ok 16 := rfl
  have slices : prepareBytes ⟨0, false⟩ [[1], [], [2, 3]] { ptr := 32, len := 3, stream := 0 } = .ok 32 := rfl
  have cols : prepareCols ⟨0, false⟩ [1, 2, 3, 4, 5, 6, 7, 8] 2 1 1 { ptr := 48, len := 2, stream := 0 } =
      .ok { strideB := 4, offB := 2, takeB := 2, rows := 2, dstAt := 48, wide := by decide } := rfl
  intro upload member
  rcases List.mem_cons.mp member with rfl | member
  · exact ⟨_, .contiguous pair⟩
  · rcases List.mem_pair.mp member with rfl | rfl
    · exact ⟨_, .slices slices⟩
    · exact ⟨_, .cols cols⟩

theorem staged_upload_exact_pair :
    ∃ s, Relation.ReflTransGen Step (start ⟨2, Nat.two_pos⟩ recorded (fun _ _ => 0) fun _ => 0) s ∧
      s.Drained ∧
      (∀ offset byte, [7, 9][offset]? = some byte → s.device (16 + offset) = byte) ∧
      (∀ offset byte, [1, 2, 3][offset]? = some byte → s.device (32 + offset) = byte) ∧
      ∀ offset byte, [3, 4, 7, 8][offset]? = some byte → s.device (48 + offset) = byte := by
  obtain ⟨s, run, drained⟩ := exists_drained recorded_prepared
  have held := (staged_upload_exact recorded_prepared run).2.2.2.1 drained
  refine ⟨s, run, drained, fun offset byte found => held 0 _ rfl offset byte found ?_,
    fun offset byte found => held 1 _ rfl offset byte found ?_, fun offset byte found =>
      held 2 _ rfl offset byte found ?_⟩
  · have short : offset < 2 := (List.getElem?_eq_some_iff.mp found).1
    intro later member inside
    rcases List.mem_pair.mp member with rfl | rfl
    · have low : 32 ≤ 16 + offset := inside.1
      omega
    · have low : 48 ≤ 16 + offset := inside.1
      omega
  · have short : offset < 3 := (List.getElem?_eq_some_iff.mp found).1
    intro later member inside
    obtain rfl := List.mem_singleton.mp member
    have low : 48 ≤ 32 + offset := inside.1
    omega
  · intro later member
    cases member

/-- Two uploads to one destination both pass their check, and the first one's bytes are gone. -/
theorem rewritten_destination_loses_first :
    (∀ upload ∈ [Upload.contiguous [7, 9] 16, Upload.contiguous [1, 2] 16], ∃ addresses,
      Prepared ⟨0, false⟩ upload addresses) ∧
    ∃ s, Relation.ReflTransGen Step
        (start ⟨1, Nat.one_pos⟩ [.contiguous [7, 9] 16, .contiguous [1, 2] 16] (fun _ _ => 0) fun _ => 0) s ∧
      s.Drained ∧ (Upload.contiguous [7, 9] 16).intended[0]? = some 7 ∧
        s.device ((Upload.contiguous [7, 9] 16).dstAt + 0) ≠ 7 := by
  have prepared : ∀ upload ∈ [Upload.contiguous [7, 9] 16, Upload.contiguous [1, 2] 16],
      ∃ addresses, Prepared ⟨0, false⟩ upload addresses := by
    intro upload member
    have first : prepare ⟨0, false⟩ [7, 9] { ptr := 16, len := 1, stream := 0 } 0 = .ok 16 := rfl
    have second : prepare ⟨0, false⟩ [1, 2] { ptr := 16, len := 1, stream := 0 } 0 = .ok 16 := rfl
    rcases List.mem_pair.mp member with rfl | rfl
    · exact ⟨_, .contiguous first⟩
    · exact ⟨_, .contiguous second⟩
  obtain ⟨s, run, drained⟩ := exists_drained prepared
  refine ⟨prepared, s, run, drained, rfl, ?_⟩
  rw [drained_written prepared run drained]
  decide

end Stager

end PegaInfer.WeightLoader
