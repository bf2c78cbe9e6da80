import PegaInfer.WeightLoader.Stager

namespace PegaInfer.WeightLoader

open Slices

namespace Stager

/-- What the device holds once the first `count` chunks are complete. -/
def settled (all : List Chunk) (contents : List Bytes) (memory : Nat → UInt8) (count : Nat) : Nat → UInt8 :=
  storeAll memory (all.take count) (contents.take count)

/-- The copy in flight for chunk number `job`: its buffer still holds the chunk's bytes. -/
structure InFlight (all : List Chunk) (contents : List Bytes) (pinned : Nat → Nat → UInt8)
    (job : Nat) (dma : Dma) : Prop where
  buffer : dma.buffer = job % 2
  chunk : ∃ chunk, all[job]? = some chunk ∧ dma.dstAt = chunk.dstAt ∧ dma.bytes = chunk.bytes
  held : ∃ content, contents[job]? = some content ∧ content.length = dma.bytes ∧
    ∀ offset byte, content[offset]? = some byte → pinned dma.buffer offset = byte
  left : ∀ offset ∈ dma.left, offset < dma.bytes

/-- What is left to write completes the bytes of `content`. -/
structure Filling (content : Bytes) (buffer : Nat → UInt8) (scopes : List (List Task)) : Prop where
  sound : ∀ scope ∈ scopes, ∀ task ∈ scope, ∀ byte offset, (byte, offset) ∈ task →
    content[offset]? = some byte
  whole : ∀ byte offset, content[offset]? = some byte →
    buffer offset = byte ∨ ∃ scope ∈ scopes, ∃ task ∈ scope, (byte, offset) ∈ task

/-- The host has enqueued its last copy and not recorded its event. -/
def Unrecorded : Phase → Prop
  | .ready => False
  | .fill _ _ _ => False
  | _ => True

structure Control (all : List Chunk) (contents : List Bytes) (s : Stager) : Prop where
  ready : s.phase = .ready → s.chunks = all.drop s.enqueued ∧ s.next = s.enqueued % 2
  fill : ∀ idx chunk scopes, s.phase = .fill idx chunk scopes →
    s.chunks = all.drop (s.enqueued + 1) ∧ all[s.enqueued]? = some chunk ∧
    idx = s.enqueued % 2 ∧ s.next = (s.enqueued + 1) % 2 ∧ (∀ dma ∈ s.stream, dma.buffer ≠ idx) ∧
    ∃ content, contents[s.enqueued]? = some content ∧ content.length = chunk.bytes ∧
      Filling content (s.pinned idx) scopes
  record : ∀ idx, s.phase = .record idx →
    s.chunks = all.drop s.enqueued ∧ s.next = s.enqueued % 2 ∧ ∃ job, s.enqueued = job + 1 ∧ idx = job % 2

structure Inv (all : List Chunk) (contents : List Bytes) (memory : Nat → UInt8) (s : Stager) : Prop where
  control : Control all contents s
  flight : ∀ i dma, s.stream[i]? = some dma → InFlight all contents s.pinned (s.completed + i) dma
  untouched : ∀ i dma, s.stream[i + 1]? = some dma → dma.left = List.range dma.bytes
  idle : s.stream = [] → s.device = settled all contents memory s.completed
  moving : ∀ dma rest content, s.stream = dma :: rest → contents[s.completed]? = some content →
    ∀ address, s.device address = if dma.dstAt ≤ address ∧ address - dma.dstAt ∉ dma.left
      then store (settled all contents memory s.completed) dma.dstAt content address
        else settled all contents memory s.completed address
  events : ∀ job < s.enqueued, job + 1 ≤ s.dmaDone (job % 2) ∨ job + 1 = s.enqueued ∧ Unrecorded s.phase
  past : ∀ idx, s.dmaDone idx ≤ s.enqueued

variable {all : List Chunk} {contents : List Bytes} {memory : Nat → UInt8} {s s' : Stager}

theorem settled_succ {job : Nat} {chunk : Chunk} {content : Bytes}
    (carried : List.Forall₂ Chunk.Carries all contents)
    (at_ : all[job]? = some chunk) (held : contents[job]? = some content) :
    settled all contents memory (job + 1) = store (settled all contents memory job) chunk.dstAt content := by
  have before : List.Forall₂ Chunk.Carries (all.take job) (contents.take job) := List.forall₂_take job carried
  rw [settled, List.take_add_one, List.take_add_one, at_, held, Option.toList_some,
    Option.toList_some, storeAll_append before]
  rfl

theorem Filling.finished {content : Bytes} {buffer : Nat → UInt8}
    (filling : Filling content buffer []) {byte : UInt8} {offset : Nat}
    (found : content[offset]? = some byte) : buffer offset = byte := by
  rcases filling.whole byte offset found with written | ⟨scope, none_, -⟩
  · exact written
  · exact absurd none_ List.not_mem_nil

theorem Filling.join {content : Bytes} {buffer : Nat → UInt8} {tasks : List Task} {scopes : List (List Task)}
    (filling : Filling content buffer (tasks :: scopes)) (joined : ∀ task ∈ tasks, task = []) :
    Filling content buffer scopes where
  sound := fun scope member => filling.sound scope (List.mem_cons_of_mem _ member)
  whole := by
    intro byte offset found
    rcases filling.whole byte offset found with written | ⟨scope, member, task, inScope, inTask⟩
    · exact .inl written
    · rcases List.mem_cons.mp member with rfl | later
      · rw [joined task inScope] at inTask
        exact absurd inTask List.not_mem_nil
      · exact .inr ⟨scope, later, task, inScope, inTask⟩

/-- One byte of one worker: the cell gets the byte every write to it carries. -/
theorem Filling.write {content : Bytes} {buffer : Nat → UInt8} {before after : List Task}
    {task : Task} {byte : UInt8} {offset : Nat}
    {scopes : List (List Task)}
    (filling : Filling content buffer ((before ++ ((byte, offset) :: task) :: after) :: scopes)) :
    Filling content (Function.update buffer offset byte) ((before ++ task :: after) :: scopes) := by
  have here : content[offset]? = some byte :=
    filling.sound _ List.mem_cons_self ((byte, offset) :: task) (by simp) byte offset List.mem_cons_self
  constructor
  · intro scope member other inScope value cell inTask
    rcases List.mem_cons.mp member with rfl | later
    · rcases List.mem_append.mp inScope with first | rest
      · exact filling.sound _ List.mem_cons_self other (by simp [first]) value cell inTask
      · rcases List.mem_cons.mp rest with rfl | last
        · exact filling.sound _ List.mem_cons_self ((byte, offset) :: other) (by simp) value cell
            (List.mem_cons_of_mem _ inTask)
        · exact filling.sound _ List.mem_cons_self other (by simp [last]) value cell inTask
    · exact filling.sound scope (List.mem_cons_of_mem _ later) other inScope value cell inTask
  · intro value cell found
    by_cases same : cell = offset
    · rw [same, here, Option.some.injEq] at found
      rw [same, Function.update_self]
      exact .inl found
    · rw [Function.update_of_ne same]
      rcases filling.whole value cell found with written | ⟨scope, member, other, inScope, inTask⟩
      · exact .inl written
      · right
        rcases List.mem_cons.mp member with rfl | later
        · rcases List.mem_append.mp inScope with first | rest
          · exact ⟨_, List.mem_cons_self, other, by simp [first], inTask⟩
          · rcases List.mem_cons.mp rest with rfl | last
            · rcases List.mem_cons.mp inTask with equal | inRest
              · exact absurd (Prod.mk.inj equal).2 same
              · exact ⟨_, List.mem_cons_self, task, by simp, inRest⟩
            · exact ⟨_, List.mem_cons_self, other, by simp [last], inTask⟩
        · exact ⟨scope, List.mem_cons_of_mem _ later, other, inScope, inTask⟩

theorem Chunk.Carries.filling {chunk : Chunk} {content : Bytes} (carries : chunk.Carries content)
    (buffer : Nat → UInt8) :
    Filling content buffer chunk.fill where
  sound := fun scope inFill task inScope byte offset inTask =>
    (carries.writes byte offset).mp ⟨scope, inFill, task, inScope, inTask⟩
  whole := fun byte offset found => .inr ((carries.writes byte offset).mpr found)

/-- The content of a chunk of the list. -/
theorem exists_content (carried : List.Forall₂ Chunk.Carries all contents) {job : Nat}
    {chunk : Chunk} (found : all[job]? = some chunk) :
    ∃ content, contents[job]? = some content ∧ chunk.Carries content := by
  obtain ⟨lt, rfl⟩ := List.getElem?_eq_some_iff.mp found
  have lt' : job < contents.length := by rw [← carried.length_eq]; exact lt
  exact ⟨_, List.getElem?_eq_getElem lt', carried.get lt lt'⟩

namespace Inv

/-- The buffer of the next chunk is free: its event is done, so no copy from it is in flight. -/
theorem free (inv : Inv all contents memory s) (ready : s.phase = .ready)
    (done : s.dmaDone s.next ≤ s.completed) :
    ∀ dma ∈ s.stream, dma.buffer ≠ s.next := by
  intro dma member same
  obtain ⟨i, lt, rfl⟩ := List.mem_iff_getElem.mp member
  have buffer := (inv.flight i _ (List.getElem?_eq_getElem lt)).buffer
  rcases inv.events (s.completed + i) (Nat.add_lt_add_left lt _) with recorded | ⟨-, open_⟩
  · rw [← buffer, same] at recorded
    omega
  · rw [ready] at open_
    exact open_

theorem synchronize (inv : Inv all contents memory s)
    (carried : List.Forall₂ Chunk.Carries all contents) {chunk : Chunk}
    {chunks : List Chunk} (ready : s.phase = .ready) (queued : s.chunks = chunk :: chunks)
    (done : s.dmaDone s.next ≤ s.completed) :
    Inv all contents memory
      { s with next := (s.next + 1) % 2, phase := .fill s.next chunk chunk.fill, chunks := chunks }
        where
  control := by
    obtain ⟨rest, parity⟩ := inv.control.ready ready
    have found : all[s.enqueued]? = some chunk := by
      have head := congrArg List.head? (rest.symm.trans queued)
      rwa [List.head?_drop, List.head?_cons] at head
    have tail : chunks = all.drop (s.enqueued + 1) := by
      have tails := congrArg List.tail (rest.symm.trans queued)
      rwa [List.tail_drop, List.tail_cons, eq_comm] at tails
    obtain ⟨content, held, carries⟩ := exists_content carried found
    refine ⟨by simp, ?_, by simp⟩
    intro idx other scopes filling
    cases filling
    refine ⟨tail, found, parity, ?_, inv.free ready done, content, held, carries.length,
      Chunk.Carries.filling carries _⟩
    show (s.next + 1) % 2 = (s.enqueued + 1) % 2
    omega
  flight := inv.flight
  untouched := inv.untouched
  idle := inv.idle
  moving := inv.moving
  events := by
    intro job lt
    rcases inv.events job lt with recorded | ⟨-, open_⟩
    · exact .inl recorded
    · rw [ready] at open_
      exact open_.elim
  past := inv.past

theorem write (inv : Inv all contents memory s) {idx : Nat} {chunk : Chunk}
    {before after : List Task} {task : Task} {byte : UInt8}
    {offset : Nat} {scopes : List (List Task)}
    (filling : s.phase = .fill idx chunk ((before ++ ((byte, offset) :: task) :: after) :: scopes)) :
    Inv all contents memory { s with
      pinned := Function.update s.pinned idx (Function.update (s.pinned idx) offset byte)
      phase := .fill idx chunk ((before ++ task :: after) :: scopes) } := by
  obtain ⟨rest, found, parity, next, clear, content, held, length, partly⟩ := inv.control.fill _ _ _ filling
  refine ⟨⟨by simp, ?_, by simp⟩, ?_, inv.untouched, inv.idle, inv.moving, ?_, inv.past⟩
  · intro idx' chunk' scopes' filling'
    cases filling'
    refine ⟨rest, found, parity, next, clear, content, held, length, ?_⟩
    dsimp only
    rw [Function.update_self]
    exact partly.write
  · intro i dma at_
    obtain ⟨buffer, chunk', ⟨content', held', length', bytes⟩, left⟩ := inv.flight i dma at_
    refine ⟨buffer, chunk', ⟨content', held', length', ?_⟩, left⟩
    dsimp only
    rwa [Function.update_of_ne (clear dma (List.mem_of_getElem? at_))]
  · intro job lt
    rcases inv.events job lt with recorded | ⟨-, open_⟩
    · exact .inl recorded
    · rw [filling] at open_
      exact open_.elim

theorem join (inv : Inv all contents memory s) {idx : Nat} {chunk : Chunk} {tasks : List Task}
    {scopes : List (List Task)}
    (filling : s.phase = .fill idx chunk (tasks :: scopes)) (joined : ∀ task ∈ tasks, task = []) :
    Inv all contents memory { s with phase := .fill idx chunk scopes } := by
  obtain ⟨rest, found, parity, next, clear, content, held, length, partly⟩ := inv.control.fill _ _ _ filling
  refine ⟨⟨by simp, ?_, by simp⟩, inv.flight, inv.untouched, inv.idle, inv.moving, ?_, inv.past⟩
  · intro idx' chunk' scopes' filling'
    cases filling'
    exact ⟨rest, found, parity, next, clear, content, held, length, partly.join joined⟩
  · intro job lt
    rcases inv.events job lt with recorded | ⟨-, open_⟩
    · exact .inl recorded
    · rw [filling] at open_
      exact open_.elim

/-- The copy of a filled buffer joins the stream. -/
theorem enqueue (inv : Inv all contents memory s) {idx : Nat} {chunk : Chunk}
    (filling : s.phase = .fill idx chunk []) {phase : Phase}
    (open_ : Unrecorded phase)
    (control : ∀ idx', phase = .record idx' → idx' = idx) :
    Inv all contents memory { s with stream := s.enqueue idx chunk, phase := phase } := by
  obtain ⟨rest, found, parity, next, clear, content, held, length, partly⟩ := inv.control.fill _ _ _ filling
  have longer : s.completed + (s.enqueue idx chunk).length = s.enqueued + 1 := by
    rw [Stager.enqueue, List.length_append, List.length_singleton, Stager.enqueued, Nat.add_assoc]
  have flight : InFlight all contents s.pinned s.enqueued
      { buffer := idx, dstAt := chunk.dstAt, bytes := chunk.bytes, left := List.range chunk.bytes } :=
    ⟨parity, ⟨chunk, found, rfl, rfl⟩, ⟨content, held, length, fun offset byte => partly.finished⟩,
      fun offset => List.mem_range.mp⟩
  constructor
  · refine ⟨?_, ?_, ?_⟩
    · rintro rfl
      exact open_.elim
    · rintro _ _ _ rfl
      exact open_.elim
    · intro idx' recording
      simp only [Stager.enqueued, longer]
      exact ⟨rest, next, s.enqueued, rfl, (control idx' recording).trans parity⟩
  · intro i dma at_
    simp only [Stager.enqueue] at at_
    rcases Nat.lt_trichotomy i s.stream.length with earlier | rfl | later
    · rw [List.getElem?_append_left earlier] at at_
      exact inv.flight i dma at_
    · rw [List.getElem?_concat_length] at at_
      cases at_
      exact flight
    · rw [List.getElem?_eq_none (by rw [List.length_append, List.length_singleton]; omega)] at at_
      contradiction
  · intro i dma at_
    simp only [Stager.enqueue] at at_
    rcases Nat.lt_trichotomy (i + 1) s.stream.length with earlier | last | later
    · rw [List.getElem?_append_left earlier] at at_
      exact inv.untouched i dma at_
    · rw [last, List.getElem?_concat_length] at at_
      cases at_
      rfl
    · rw [List.getElem?_eq_none (by rw [List.length_append, List.length_singleton]; omega)] at at_
      contradiction
  · intro none_
    exact absurd none_ (by simp [Stager.enqueue])
  · intro dma rest' content' stream held' address
    simp only [Stager.enqueue] at stream
    cases empty : s.stream with
    | nil =>
      rw [empty, List.nil_append] at stream
      cases stream
      dsimp only
      have same : s.device = settled all contents memory s.completed := inv.idle empty
      have at_ : s.enqueued = s.completed := by rw [Stager.enqueued, empty, List.length_nil, Nat.add_zero]
      have length' : content'.length = chunk.bytes := by
        rw [at_, held'] at held
        cases held
        exact length
      rw [same]
      split
      · next outside =>
        rw [List.mem_range] at outside
        exact (store_outside (by omega)).symm
      · rfl
    | cons head tail =>
      rw [empty, List.cons_append] at stream
      cases stream
      exact inv.moving dma tail content' empty held' address
  · intro job lt
    dsimp only [Stager.enqueued] at lt ⊢
    rw [longer] at lt ⊢
    rcases Nat.lt_succ_iff_lt_or_eq.mp lt with earlier | rfl
    · rcases inv.events job earlier with recorded | ⟨-, unrecorded⟩
      · exact .inl recorded
      · rw [filling] at unrecorded
        exact unrecorded.elim
    · exact .inr ⟨rfl, open_⟩
  · intro buffer
    dsimp only [Stager.enqueued]
    rw [longer]
    exact (inv.past buffer).trans (Nat.le_succ _)

theorem record (inv : Inv all contents memory s) {idx : Nat} (recording : s.phase = .record idx) :
    Inv all contents memory
      { s with
        dmaDone := Function.update s.dmaDone idx (s.completed + s.stream.length)
        phase := .ready } := by
  obtain ⟨rest, next, last, count, parity⟩ := inv.control.record idx recording
  refine ⟨⟨fun _ => ⟨rest, next⟩, by simp, by simp⟩, inv.flight, inv.untouched, inv.idle, inv.moving, ?_, ?_⟩
  · intro job lt
    left
    change job < s.enqueued at lt
    dsimp only
    by_cases same : job % 2 = idx
    · rw [same, Function.update_self]
      exact lt
    · rw [Function.update_of_ne same]
      rcases inv.events job lt with recorded | ⟨final, -⟩
      · exact recorded
      · exact absurd (show job % 2 = idx by rw [parity]; omega) same
  · intro buffer
    dsimp only
    by_cases same : buffer = idx
    · rw [same, Function.update_self]
      exact le_rfl
    · rw [Function.update_of_ne same]
      exact inv.past buffer

/-- The host gives up: it only waits for the stream. -/
theorem giveUp (inv : Inv all contents memory s) {phase : Phase}
    (stopped : phase = .draining ∨ phase = .failed) :
    Inv all contents memory { s with phase := phase } := by
  have open_ : Unrecorded phase := by rcases stopped with rfl | rfl <;> trivial
  refine ⟨⟨?_, ?_, ?_⟩, inv.flight, inv.untouched, inv.idle, inv.moving, ?_, inv.past⟩
  · rcases stopped with rfl | rfl <;> simp
  · rcases stopped with rfl | rfl <;> simp
  · rcases stopped with rfl | rfl <;> simp
  · intro job lt
    rcases inv.events job lt with recorded | ⟨final, -⟩
    · exact .inl recorded
    · exact .inr ⟨final, open_⟩

theorem transfer (inv : Inv all contents memory s) {dma : Dma} {rest : List Dma} {offset : Nat}
    (stream : s.stream = dma :: rest)
    (inside : offset ∈ dma.left) :
    Inv all contents memory { s with
      device := Function.update s.device (dma.dstAt + offset) (s.pinned dma.buffer offset)
      stream := { dma with left := dma.left.filter (· ≠ offset) } :: rest } := by
  obtain ⟨buffer, chunk, ⟨content, held, length, bytes⟩, left⟩ := inv.flight 0 dma (by rw [stream]; rfl)
  rw [Nat.add_zero] at held
  have same_length : s.completed +
      ({ dma with left := dma.left.filter (· ≠ offset) } :: rest).length = s.enqueued := by
    rw [Stager.enqueued, stream]
    rfl
  constructor
  · refine ⟨?_, ?_, ?_⟩
    · intro ready
      dsimp only [Stager.enqueued]
      rw [same_length]
      exact inv.control.ready ready
    · intro idx chunk' scopes filling
      dsimp only [Stager.enqueued]
      rw [same_length]
      obtain ⟨drop, found, parity, next, clear, filled⟩ := inv.control.fill idx chunk' scopes filling
      refine ⟨drop, found, parity, next, ?_, filled⟩
      intro other member
      rcases List.mem_cons.mp member with rfl | later
      · exact clear dma (by rw [stream]; exact List.mem_cons_self)
      · exact clear other (by rw [stream]; exact List.mem_cons_of_mem _ later)
    · intro idx recording
      dsimp only [Stager.enqueued]
      rw [same_length]
      exact inv.control.record idx recording
  · intro i other at_
    cases i with
    | zero =>
      cases at_
      refine ⟨buffer, chunk, ⟨content, held, length, bytes⟩, fun cell member => left cell ?_⟩
      exact (List.mem_filter.mp member).1
    | succ i => exact inv.flight (i + 1) other (by rw [stream]; exact at_)
  · intro i other at_
    exact inv.untouched i other (by rw [stream]; exact at_)
  · intro none_
    cases none_
  · intro head tail content' same held' address
    cases same
    have equal : content' = content := Option.some.inj (held'.symm.trans held)
    subst equal
    have moved := inv.moving dma rest content' stream held address
    dsimp only
    by_cases here : address = dma.dstAt + offset
    · have value : content'[offset]? = some (s.pinned dma.buffer offset) := by
        have lt : offset < content'.length := by rw [length]; exact left offset inside
        rw [List.getElem?_eq_getElem lt, bytes offset _ (List.getElem?_eq_getElem lt)]
      rw [here, Function.update_self, if_pos, store_inside value]
      refine ⟨Nat.le_add_right _ _, ?_⟩
      rw [Nat.add_sub_cancel_left, List.mem_filter]
      simp
    · rw [Function.update_of_ne here, moved]
      have cells : (dma.dstAt ≤ address ∧ address - dma.dstAt ∉ dma.left) ↔
          (dma.dstAt ≤ address ∧ address - dma.dstAt ∉ dma.left.filter (· ≠ offset)) := by
        refine and_congr_right fun low => not_congr ?_
        rw [List.mem_filter, decide_eq_true_eq, iff_self_and]
        intro _
        omega
      simp only [cells]
  · intro job lt
    dsimp only [Stager.enqueued] at lt ⊢
    rw [same_length] at lt ⊢
    exact inv.events job lt
  · intro idx
    dsimp only [Stager.enqueued]
    rw [same_length]
    exact inv.past idx

theorem complete (inv : Inv all contents memory s)
    (carried : List.Forall₂ Chunk.Carries all contents) {dma : Dma} {rest : List Dma}
    (stream : s.stream = dma :: rest) (copied : dma.left = []) :
    Inv all contents memory { s with stream := rest, completed := s.completed + 1 } := by
  obtain ⟨buffer, ⟨chunk, found, place, size⟩, ⟨content, held, length, bytes⟩, left⟩ :=
    inv.flight 0 dma (by rw [stream]; rfl)
  rw [Nat.add_zero] at held found
  have same_length : s.completed + 1 + rest.length = s.enqueued := by
    rw [Stager.enqueued, stream, List.length_cons]
    omega
  have onward : s.device = settled all contents memory (s.completed + 1) := by
    rw [settled_succ carried found held]
    funext address
    rw [inv.moving dma rest content stream held address, copied, place]
    split
    · rfl
    · next low => exact (store_outside
        (by simp only [List.not_mem_nil, not_false_eq_true, and_true] at low; omega)).symm
  have later : ∀ i other, rest[i]? = some other → s.stream[i + 1]? = some other := by
    intro i other at_
    rwa [stream]
  constructor
  · refine ⟨?_, ?_, ?_⟩
    · intro ready
      dsimp only [Stager.enqueued]
      rw [same_length]
      exact inv.control.ready ready
    · intro idx chunk' scopes filling
      dsimp only [Stager.enqueued]
      rw [same_length]
      obtain ⟨drop, found', parity, next, clear, filled⟩ := inv.control.fill idx chunk' scopes filling
      exact ⟨drop, found', parity, next, fun other member => clear other
        (by rw [stream]; exact List.mem_cons_of_mem _ member), filled⟩
    · intro idx recording
      dsimp only [Stager.enqueued]
      rw [same_length]
      exact inv.control.record idx recording
  · intro i other at_
    have flight := inv.flight (i + 1) other (later i other at_)
    dsimp only
    rwa [show s.completed + 1 + i = s.completed + (i + 1) by omega]
  · intro i other at_
    exact inv.untouched (i + 1) other (later (i + 1) other at_)
  · intro _
    exact onward
  · intro head tail content' stream' held' address
    dsimp only at stream' held' ⊢
    rw [onward]
    have at_ : s.stream[1]? = some head := later 0 head (by rw [stream']; rfl)
    have flight := inv.flight 1 head at_
    obtain ⟨content'', held'', length'', -⟩ := flight.held
    have equal : content' = content'' := Option.some.inj (held'.symm.trans held'')
    rw [inv.untouched 0 head at_]
    split
    · next outside =>
      rw [List.mem_range] at outside
      exact (store_outside (by rw [equal]; omega)).symm
    · rfl
  · intro job lt
    dsimp only [Stager.enqueued] at lt ⊢
    rw [same_length] at lt ⊢
    exact inv.events job lt
  · intro idx
    dsimp only [Stager.enqueued]
    rw [same_length]
    exact inv.past idx

end Inv

end Stager

end PegaInfer.WeightLoader
