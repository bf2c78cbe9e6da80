import PegaInfer.K3.Doorbell

namespace PegaInfer.K3

/-- The place of an operation in the order of a stream: its doorbell value, then its
beat. -/
def StreamOp.key : StreamOp → Nat
  | .publish seq window => 6 * doorbellOf seq window
  | .ring .publish _ value => 6 * value + 1
  | .wait .publish _ value => 6 * value + 2
  | .read _ seq window => 6 * doorbellOf seq window + 3
  | .ring .consume _ value => 6 * value + 4
  | .wait .consume _ value => 6 * value + 5

/-- A window of a whale on the stream of the rank at `cpRank`. -/
def block (cpRank : Nat) (kind : K3CpWindowKind) (gang : List Nat) (seq window : Nat) : List StreamOp :=
  .publish seq window :: exchange cpRank kind gang (doorbellOf seq window) seq window

theorem ringAll_key {bell : Bell} {owners : List Nat} {value : Nat} {op : StreamOp}
    (member : op ∈ ringAll bell owners value) :
    op = .ring bell owners value := by
  rw [ringAll] at member
  split at member
  · cases member
  · exact List.mem_singleton.mp member

section

variable {cpRank seq window : Nat} {kind : K3CpWindowKind} {gang : List Nat} {op : StreamOp}

/-- The operations of a window, beat by beat. -/
theorem mem_block (member : op ∈ block cpRank kind gang seq window) :
    op = .publish seq window ∨
    op = .ring .publish ((kind.readBy cpRank gang.length).map (gang.getD · 0)) (doorbellOf seq window) ∨
    (∃ source ∈ kind.readsFrom cpRank, op = .wait .publish (gang.getD source 0) (doorbellOf seq window)) ∨
    (∃ source ∈ kind.readsFrom cpRank, op = .read (gang.getD source 0) seq window) ∨
    op = .ring .consume ((kind.readsFrom cpRank).map (gang.getD · 0)) (doorbellOf seq window) ∨
    ∃ reader ∈ kind.readBy cpRank gang.length, op =
      .wait .consume (gang.getD reader 0) (doorbellOf seq window) := by
  rcases List.mem_cons.mp member with first | member
  · exact .inl first
  simp only [exchange, List.mem_append, List.mem_map] at member
  rcases member with (((ring | ⟨_, ⟨source, reads, rfl⟩, same⟩) | ⟨_, ⟨source, reads, rfl⟩,
    same⟩) | ring) | ⟨_, ⟨reader, read, rfl⟩, same⟩
  · exact .inr (.inl (ringAll_key ring))
  · exact .inr (.inr (.inl ⟨source, reads, same.symm⟩))
  · exact .inr (.inr (.inr (.inl ⟨source, reads, same.symm⟩)))
  · exact .inr (.inr (.inr (.inr (.inl (ringAll_key ring)))))
  · exact .inr (.inr (.inr (.inr (.inr ⟨reader, read, same.symm⟩))))

theorem block_key (member : op ∈ block cpRank kind gang seq window) :
    6 * doorbellOf seq window ≤ op.key ∧ op.key ≤ 6 * doorbellOf seq window + 5 := by
  rcases mem_block member with rfl | rfl | ⟨_, _, rfl⟩ | ⟨_, _, rfl⟩ | rfl | ⟨_, _, rfl⟩ <;>
    simp only [StreamOp.key] <;> omega

/-- A further beat goes behind the earlier ones. -/
theorem Beats.append {early late : List StreamOp} {beat : Nat}
    (before : Ordered StreamOp.key early ∧ ∀ op ∈ early, op.key ≤ beat)
    (now : ∀ op ∈ late, op.key = beat + 1) :
    Ordered StreamOp.key (early ++ late) ∧ ∀ op ∈ early ++ late, op.key ≤ beat + 1 := by
  refine ⟨.append beat before.1 (.constant now) before.2 fun op member => by rw [now op member]; omega, ?_⟩
  intro op member
  rcases List.mem_append.mp member with old | new
  · have := before.2 op old
    omega
  · rw [now op new]

theorem block_ordered (cpRank : Nat) (kind : K3CpWindowKind) (gang : List Nat) (seq window : Nat) :
    Ordered StreamOp.key (block cpRank kind gang seq window) := by
  have first : Ordered StreamOp.key [.publish seq window] ∧
      ∀ op ∈ [StreamOp.publish seq window], op.key ≤ 6 * doorbellOf seq window :=
    ⟨List.pairwise_singleton _ _, fun op member => by rw [List.mem_singleton.mp member]; exact Nat.le_refl _⟩
  have second := Beats.append first fun op (member : op ∈ ringAll .publish
    ((kind.readBy cpRank gang.length).map (gang.getD · 0))
    (doorbellOf seq window)) => by rw [ringAll_key member]; rfl
  have third := Beats.append second fun op (member : op ∈ ((kind.readsFrom cpRank).map (gang.getD · 0)).map
    (.wait .publish · (doorbellOf seq window))) => by obtain ⟨_, _, rfl⟩ := List.mem_map.mp member; rfl
  have fourth := Beats.append third fun op (member : op ∈ ((kind.readsFrom cpRank).map (gang.getD · 0)).map
    (.read · seq window)) => by obtain ⟨_, _, rfl⟩ := List.mem_map.mp member; rfl
  have fifth := Beats.append fourth fun op (member : op ∈ ringAll .consume
    ((kind.readsFrom cpRank).map (gang.getD · 0))
    (doorbellOf seq window)) => by rw [ringAll_key member]; rfl
  have sixth := Beats.append fifth fun op (member : op ∈
    ((kind.readBy cpRank gang.length).map (gang.getD · 0)).map
    (.wait .consume · (doorbellOf seq window))) => by obtain ⟨_, _, rfl⟩ := List.mem_map.mp member; rfl
  simp only [List.append_assoc] at sixth
  rw [block, exchange]
  simp only [List.append_assoc]
  exact sixth.1

end

/-- The windows of a superstep from `window` on. -/
theorem exchangeAll_spec (cpRank : Nat) (gang : List Nat) (seq : Nat)
    (kinds : List K3CpWindowKind) {window : Nat}
    (short : window + kinds.length < K3_WHALE_WINDOW_STRIDE) :
    ∃ stream, exchangeAll cpRank gang seq window kinds = .ok stream ∧ Ordered StreamOp.key stream ∧
      ∀ op, op ∈ stream ↔ ∃ index kind, kinds[index]? = some kind ∧
        op ∈ block cpRank kind gang seq (window + index) := by
  induction kinds generalizing window with
  | nil => exact ⟨[], rfl, List.Pairwise.nil, by simp⟩
  | cons kind kinds ih =>
    rw [List.length_cons] at short
    obtain ⟨rest, written, ordered, mem⟩ := @ih (window + 1) (by omega)
    refine ⟨block cpRank kind gang seq window ++ rest, ?_, ?_, ?_⟩
    · rw [exchangeAll, windowValue, if_pos (by omega), written]
      rfl
    · refine .append (6 * doorbellOf seq window + 5) (block_ordered _ _ _ _ _) ordered
        (fun op member => (block_key member).2) ?_
      intro op member
      obtain ⟨index, other, _, inside⟩ := (mem op).mp member
      have later := (block_key inside).1
      simp only [doorbellOf] at later ⊢
      omega
    · intro op
      rw [List.mem_append, mem]
      constructor
      · rintro (here | ⟨index, other, found, inside⟩)
        · exact ⟨0, kind, rfl, here⟩
        · exact ⟨index + 1, other, found, by rw [Nat.add_comm index, ← Nat.add_assoc]; exact inside⟩
      · rintro ⟨index, other, found, inside⟩
        cases index with
        | zero =>
          cases found
          exact .inl inside
        | succ index => exact .inr ⟨index, other, found, by rw [Nat.add_assoc, Nat.add_comm 1]; exact inside⟩

/-- The operation belongs to a window of one of the whales, on the stream of `rank`. -/
def Belongs {world : Nat} (steps : List (Superstep world)) (rank : Nat) (op : StreamOp) : Prop :=
  ∃ step ∈ steps, ∃ cpRank, step.gang[cpRank]? = some rank ∧ ∃ window kind, step.kinds[window]? = some kind ∧
    op ∈ block cpRank kind step.gang step.seq window

theorem seat_of_findIdx? {gang : List Nat} {rank cpRank : Nat}
    (found : gang.findIdx? (· = rank) = some cpRank) :
    gang[cpRank]? = some rank := by
  obtain ⟨inside, same, _⟩ := List.findIdx?_eq_some_iff_getElem.mp found
  rw [List.getElem?_eq_getElem inside, of_decide_eq_true same]

theorem Superstep.seat_unique {world : Nat} (step : Superstep world) {rank one two : Nat}
    (first : step.gang[one]? = some rank)
    (second : step.gang[two]? = some rank) : one = two := by
  have inside := (List.getElem?_eq_some_iff.mp first).1
  exact (List.getElem?_inj inside step.nodup).mp (first.trans second.symm)

theorem Superstep.length_le {world : Nat} (step : Superstep world) : step.gang.length ≤ world := by
  have fits := List.subperm_of_subset step.nodup fun rank member =>
    List.mem_range.mpr (step.inside rank member)
  have length := fits.length_le
  rw [List.length_range] at length
  exact length

/-- A member of a later whale passes the checks of `arm_fleet`. -/
theorem armFleet_ok {world rank cpRank : Nat} (step : Superstep world) {previous : Option Nat}
    (after : ∀ seq, previous = some seq → seq < step.seq) (seat : step.gang[cpRank]? = some rank) :
    armFleet world rank previous step.seq cpRank step.gang = .ok () := by
  obtain ⟨inside, same⟩ := List.getElem?_eq_some_iff.mp seat
  have newer : previous.any (step.seq ≤ ·) = false := by
    cases previous with
    | none => rfl
    | some seq =>
      have := after seq rfl
      simp only [Option.any_some, decide_eq_false_iff_not]
      omega
  rw [armFleet, if_neg (by have := step.wide; have := step.length_le; omega), if_neg (by omega),
    if_neg, if_neg (by simp [newer])]
  rw [List.getD_eq_getElem?_getD, seat]
  simp

theorem block_seq {world : Nat} (step : Superstep world) {cpRank window : Nat}
    {kind : K3CpWindowKind} {op : StreamOp}
    (present : step.kinds[window]? = some kind) (member : op ∈ block cpRank kind step.gang step.seq window) :
    6 * ((step.seq + 1) * K3_WHALE_WINDOW_STRIDE) ≤ op.key ∧
      op.key ≤ 6 * ((step.seq + 2) * K3_WHALE_WINDOW_STRIDE) := by
  have bounds := block_key member
  have short := step.short
  have inside := (List.getElem?_eq_some_iff.mp present).1
  rw [doorbellOf] at bounds
  rw [show (step.seq + 2) * K3_WHALE_WINDOW_STRIDE = _
    from Nat.succ_mul (step.seq + 1) K3_WHALE_WINDOW_STRIDE]
  generalize K3_WHALE_WINDOW_STRIDE = stride at *
  omega

/-- The stream of a rank: every window of every whale it is in, in order. -/
theorem streamOf_spec {world : Nat} (rank : Nat) {steps : List (Superstep world)}
    (increasing : steps.Pairwise (·.seq < ·.seq))
    {previous : Option Nat} (after : ∀ seq, previous = some seq → ∀ step ∈ steps, seq < step.seq) :
    ∃ stream, streamOf world rank previous steps = .ok stream ∧ Ordered StreamOp.key stream ∧
      ∀ op, op ∈ stream ↔ Belongs steps rank op := by
  induction steps generalizing previous with
  | nil => exact ⟨[], rfl, List.Pairwise.nil, by simp [Belongs]⟩
  | cons step steps ih =>
    obtain ⟨first, others⟩ := List.pairwise_cons.mp increasing
    rw [streamOf]
    cases seat : step.gang.findIdx? (· = rank) with
    | none =>
      obtain ⟨stream, written, ordered, mem⟩ := ih others fun seq same other member =>
        after seq same other (List.mem_cons_of_mem step member)
      refine ⟨stream, written, ordered, fun op => ?_⟩
      rw [mem]
      constructor
      · rintro ⟨other, member, rest⟩
        exact ⟨other, List.mem_cons_of_mem step member, rest⟩
      · rintro ⟨other, member, cpRank, there, rest⟩
        rcases List.mem_cons.mp member with rfl | later
        · have absent := List.findIdx?_eq_none_iff.mp seat rank (List.mem_of_getElem? there)
          simp at absent
        · exact ⟨other, later, cpRank, there, rest⟩
    | some cpRank =>
      have there := seat_of_findIdx? seat
      obtain ⟨early, made, sorted, inside⟩ := @exchangeAll_spec cpRank step.gang step.seq step.kinds 0
        (by have := step.short; omega)
      obtain ⟨late, written, ordered, mem⟩ := @ih others (some step.seq) fun seq same other member => by
        cases same
        exact first other member
      have early_mem : ∀ op, op ∈ early ↔ ∃ window kind, step.kinds[window]? = some kind ∧
          op ∈ block cpRank kind step.gang step.seq window := by
        intro op
        simpa only [Nat.zero_add] using inside op
      refine ⟨early ++ late, ?_, ?_, fun op => ?_⟩
      · simp only [armFleet_ok step (fun seq same => after seq same step List.mem_cons_self) there,
          made, written]
        rfl
      · refine .append (6 * ((step.seq + 2) * K3_WHALE_WINDOW_STRIDE)) sorted ordered ?_ ?_
        · intro op member
          obtain ⟨window, kind, present, here⟩ := (early_mem op).mp member
          exact (block_seq step present here).2
        · intro op member
          obtain ⟨other, known, seat, _, window, kind, present, here⟩ := (mem op).mp member
          have bound := (block_seq other present here).1
          have less := first other known
          have order := Nat.mul_le_mul_right K3_WHALE_WINDOW_STRIDE
            (show step.seq + 2 ≤ other.seq + 1 by omega)
          omega
      · rw [List.mem_append, early_mem, mem]
        constructor
        · rintro (here | ⟨other, member, rest⟩)
          · exact ⟨step, List.mem_cons_self, cpRank, there, here⟩
          · exact ⟨other, List.mem_cons_of_mem step member, rest⟩
        · rintro ⟨other, member, position, seated, rest⟩
          rcases List.mem_cons.mp member with rfl | later
          · rw [other.seat_unique seated there] at rest
            exact .inl rest
          · exact .inr ⟨other, later, position, seated, rest⟩

/-- The streams the ranks enqueue for these whales. -/
structure StreamsOk {world : Nat} (steps : List (Superstep world)) (stream : Nat → List StreamOp) : Prop where
  ordered : ∀ rank, Ordered StreamOp.key (stream rank)
  mem : ∀ rank op, op ∈ stream rank ↔ Belongs steps rank op

theorem mem_ringAll {bell : Bell} {owners : List Nat} {owner : Nat} (member : owner ∈ owners) (value : Nat) :
    .ring bell owners value ∈ ringAll bell owners value := by
  rw [ringAll, if_neg (by cases owners with | nil => cases member | cons => simp)]
  exact List.mem_singleton.mpr rfl

/-- A reader and its source in a window of a whale, by their places in the gang. -/
structure Coupled {world : Nat} (step : Superstep world) (kind : K3CpWindowKind)
    (window : Nat) (source reader : Nat)
    (from_ to_ : Nat) : Prop where
  runs : step.kinds[window]? = some kind
  reads : from_ ∈ kind.readsFrom to_
  sourceSeat : step.gang[from_]? = some source
  readerSeat : step.gang[to_]? = some reader

namespace Coupled

variable {world : Nat} {steps : List (Superstep world)} {stream : Nat → List StreamOp}
  {step : Superstep world}
  {kind : K3CpWindowKind} {window source reader from_ to_ : Nat}

theorem inside (coupled : Coupled step kind window source reader from_ to_) : to_ < step.gang.length :=
  (List.getElem?_eq_some_iff.mp coupled.readerSeat).1

theorem read (coupled : Coupled step kind window source reader from_ to_) :
    to_ ∈ kind.readBy from_ step.gang.length :=
  (kind.dual coupled.inside).mp coupled.reads

theorem source_eq (coupled : Coupled step kind window source reader from_ to_) :
    step.gang.getD from_ 0 = source := by
  rw [List.getD_eq_getElem?_getD, coupled.sourceSeat]
  rfl

theorem reader_eq (coupled : Coupled step kind window source reader from_ to_) :
    step.gang.getD to_ 0 = reader := by
  rw [List.getD_eq_getElem?_getD, coupled.readerSeat]
  rfl

/-- The publication, its announcement and the wait for its reader are on the source's
stream. -/
theorem at_source (coupled : Coupled step kind window source reader from_ to_)
    (ok : StreamsOk steps stream) (known : step ∈ steps) :
    .publish step.seq window ∈ stream source ∧
    (∃ owners, reader ∈ owners ∧ .ring .publish owners (doorbellOf step.seq window) ∈ stream source) ∧
    .wait .consume reader (doorbellOf step.seq window) ∈ stream source := by
  have place : ∀ op, op ∈ block from_ kind step.gang step.seq window → op ∈ stream source := fun op member =>
    (ok.mem source op).mpr ⟨step, known, from_, coupled.sourceSeat, window, kind, coupled.runs, member⟩
  have listed : reader ∈ (kind.readBy from_ step.gang.length).map (step.gang.getD · 0) :=
    List.mem_map.mpr ⟨to_, coupled.read, coupled.reader_eq⟩
  refine ⟨place _ List.mem_cons_self, ⟨_, listed, place _ (List.mem_cons_of_mem _ ?_)⟩,
    place _ (List.mem_cons_of_mem _ ?_)⟩
  · simp only [exchange, List.append_assoc]
    exact List.mem_append_left _ (mem_ringAll listed _)
  · simp only [exchange]
    exact List.mem_append_right _ (List.mem_map.mpr ⟨reader, listed, rfl⟩)

/-- The wait for the publication and the acknowledgement of its read are on the
reader's stream. -/
theorem at_reader (coupled : Coupled step kind window source reader from_ to_)
    (ok : StreamsOk steps stream) (known : step ∈ steps) :
    .wait .publish source (doorbellOf step.seq window) ∈ stream reader ∧
    ∃ owners, source ∈ owners ∧ .ring .consume owners (doorbellOf step.seq window) ∈ stream reader := by
  have place : ∀ op, op ∈ block to_ kind step.gang step.seq window → op ∈ stream reader := fun op member =>
    (ok.mem reader op).mpr ⟨step, known, to_, coupled.readerSeat, window, kind, coupled.runs, member⟩
  have listed : source ∈ (kind.readsFrom to_).map (step.gang.getD · 0) :=
    List.mem_map.mpr ⟨from_, coupled.reads, coupled.source_eq⟩
  refine ⟨place _ (List.mem_cons_of_mem _ ?_), ⟨_, listed, place _ (List.mem_cons_of_mem _ ?_)⟩⟩
  · simp only [exchange, List.append_assoc]
    exact List.mem_append_right _ (List.mem_append_left _ (List.mem_map.mpr ⟨source, listed, rfl⟩))
  · simp only [exchange]
    exact List.mem_append_left _ (List.mem_append_right _ (mem_ringAll listed _))

end Coupled

section

variable {world : Nat} {steps : List (Superstep world)} {stream : Nat → List StreamOp}

theorem getElem?_getD_of_lt {gang : List Nat} {position : Nat} (inside : position < gang.length) :
    gang[position]? = some (gang.getD position 0) := by
  rw [List.getD_eq_getElem?_getD, List.getElem?_eq_getElem inside]
  rfl

/-- A read is of a source of its window. -/
theorem StreamsOk.read (ok : StreamsOk steps stream) {reader source seq window : Nat}
    (member : .read source seq window ∈ stream reader) :
    ∃ step ∈ steps, step.seq = seq ∧ ∃ kind from_ to_, Coupled step kind window source reader from_ to_ := by
  obtain ⟨step, known, cpRank, seat, position, kind, present, here⟩ := (ok.mem reader _).mp member
  have inside := (List.getElem?_eq_some_iff.mp seat).1
  rcases mem_block here with same | same | ⟨_, _, same⟩ | ⟨from_, reads, same⟩ | same | ⟨_,
    _, same⟩ <;> cases same
  have less := K3CpWindowKind.readsFrom_lt reads
  exact ⟨step, known, rfl, kind, from_, cpRank, present, reads, getElem?_getD_of_lt (by omega), seat⟩

/-- What a wait waits for. -/
theorem StreamsOk.wait (ok : StreamsOk steps stream) {rank from_ value : Nat} {bell : Bell}
    (member : .wait bell from_ value ∈ stream rank) :
    ∃ owners, rank ∈ owners ∧ .ring bell owners value ∈ stream from_ := by
  obtain ⟨step, known, cpRank, seat, window, kind, present, here⟩ := (ok.mem rank _).mp member
  have inside := (List.getElem?_eq_some_iff.mp seat).1
  rcases mem_block here with same | same | ⟨source, reads, same⟩ | ⟨_, _, same⟩ | same | ⟨reader,
    read, same⟩ <;> cases same
  · have less := K3CpWindowKind.readsFrom_lt reads
    have coupled : Coupled step kind window _ rank source cpRank :=
      ⟨present, reads, getElem?_getD_of_lt (by omega), seat⟩
    exact (coupled.at_source ok known).2.1
  · have less := K3CpWindowKind.readBy_lt read
    have reads := (kind.dual less).mpr read
    have coupled : Coupled step kind window rank _ cpRank reader :=
      ⟨present, reads, seat, getElem?_getD_of_lt less⟩
    exact (coupled.at_reader ok known).2

/-- What the flags and the streams know of one another. -/
structure FabricOk (stream : Nat → List StreamOp) (fabric : Fabric) : Prop where
  prefixes : ∀ rank, ranBy fabric.log rank <+: stream rank
  rung : ∀ flag, fabric.flags flag = 0 ∨
    ∃ owners, flag.owner ∈ owners ∧ .ring flag.bell owners (fabric.flags flag) ∈ ranBy fabric.log flag.from_
  stored : ∀ rank bell owners value, .ring bell owners value ∈ ranBy fabric.log rank →
    ∀ owner ∈ owners, value ≤ fabric.flags { bell, owner, from_ := rank }
  waited : ∀ rank bell from_ value, .wait bell from_ value ∈ ranBy fabric.log rank →
    value ≤ fabric.flags { bell, owner := rank, from_ }

/-- A ring only raises flags. -/
theorem FabricOk.raises (ordered : ∀ rank, Ordered StreamOp.key (stream rank)) {fabric : Fabric}
    (ok : FabricOk stream fabric)
    {rank : Nat} {op : StreamOp} {rest : List StreamOp}
    (next : stream rank = ranBy fabric.log rank ++ op :: rest) (flag : Flag) :
    fabric.flags flag ≤ op.apply rank fabric.flags flag := by
  cases op with
  | ring bell owners value =>
    simp only [StreamOp.apply]
    split
    · next hit =>
      obtain ⟨rfl, rfl, _⟩ := hit
      rcases ok.rung flag with zero | ⟨earlier, _, ran⟩
      · omega
      · have order := (ordered flag.from_).le_next next ran
        cases flag with
        | mk bell owner from_ =>
          cases bell <;> simp only [StreamOp.key] at order <;> omega
    · exact Nat.le_refl _
  | _ => exact Nat.le_refl _

theorem FabricOk.step (ordered : ∀ rank, Ordered StreamOp.key (stream rank)) {before after : Fabric}
    (ok : FabricOk stream before)
    (move : FabricStep stream before after) : FabricOk stream after := by
  cases move with
  | @run rank op rest next enabled =>
    have raises := ok.raises ordered next
    refine ⟨?_, ?_, ?_, ?_⟩
    · intro other
      by_cases here : rank = other
      · subst here
        exact ⟨rest, by rw [ranBy_append_self, next]; simp⟩
      · rw [ranBy_append_other _ _ here]
        exact ok.prefixes other
    · intro flag
      have kept : (before.flags flag = 0 ∨ ∃ owners, flag.owner ∈ owners ∧
          .ring flag.bell owners (before.flags flag) ∈ ranBy (before.log ++ [(rank, op)]) flag.from_) := by
        rcases ok.rung flag with zero | ⟨owners, listed, ran⟩
        · exact .inl zero
        · exact .inr ⟨owners, listed, mem_ranBy_append ran⟩
      cases op with
      | ring bell owners value =>
        simp only [StreamOp.apply]
        split
        · next hit =>
          obtain ⟨rfl, rfl, listed⟩ := hit
          exact .inr ⟨owners, listed, by simp⟩
        · exact kept
      | _ => exact kept
    · intro other bell owners value ran owner listed
      rcases List.mem_append.mp (mem_ranBy.mp ran) with old | new
      · exact (ok.stored other bell owners value (mem_ranBy.mpr old) owner listed).trans (raises _)
      · cases List.mem_singleton.mp new
        simp [StreamOp.apply, listed]
    · intro other bell from_ value ran
      rcases List.mem_append.mp (mem_ranBy.mp ran) with old | new
      · exact (ok.waited other bell from_ value (mem_ranBy.mpr old)).trans (raises _)
      · cases List.mem_singleton.mp new
        exact enabled

theorem FabricReach.ok (ordered : ∀ rank, Ordered StreamOp.key (stream rank)) {fabric : Fabric}
    (reach : FabricReach stream fabric) :
    FabricOk stream fabric := by
  induction reach with
  | start =>
    refine ⟨fun _ => List.nil_prefix, fun _ => .inl rfl, ?_, ?_⟩
    · intro rank bell owners value ran
      cases ran
    · intro rank bell from_ value ran
      cases ran
  | next _ move ih => exact ih.step ordered move

/-- A flag at a value, and the ring behind it. -/
theorem FabricOk.rang {fabric : Fabric} (ok : FabricOk stream fabric) {bell : Bell}
    {owner from_ value : Nat} (positive : 0 < value)
    (reached : value ≤ fabric.flags { bell, owner, from_ }) :
    ∃ owners higher, value ≤ higher ∧ .ring bell owners higher ∈ ranBy fabric.log from_ := by
  rcases ok.rung { bell, owner, from_ } with zero | ⟨owners, _, ran⟩
  · omega
  · exact ⟨owners, _, reached, ran⟩

theorem doorbellOf_lt {seq window later next : Nat} (short : window < K3_WHALE_WINDOW_STRIDE)
    (after : seq < later ∨ seq = later ∧ window < next) : doorbellOf seq window < doorbellOf later next := by
  rw [doorbellOf, doorbellOf]
  rcases after with less | ⟨rfl, less⟩
  · have order := Nat.mul_le_mul_right K3_WHALE_WINDOW_STRIDE (show seq + 2 ≤ later + 1 by omega)
    rw [show (seq + 2) * K3_WHALE_WINDOW_STRIDE = _
      from Nat.succ_mul (seq + 1) K3_WHALE_WINDOW_STRIDE] at order
    omega
  · omega

/-- A read finds the publication of its window written, and no later one. -/
theorem StreamsOk.read_in_window (ok : StreamsOk steps stream) {fabric : Fabric}
    (now : FabricOk stream fabric)
    {reader source seq window : Nat} {rest : List StreamOp}
    (next : stream reader = ranBy fabric.log reader ++ .read source seq window :: rest) :
    .publish seq window ∈ ranBy fabric.log source ∧
    ∀ later other, seq < later ∨ seq = later ∧ window < other →
      .publish later other ∉ ranBy fabric.log source := by
  have member : .read source seq window ∈ stream reader := by
    rw [next]
    simp
  obtain ⟨step, known, rfl, kind, from_, to_, coupled⟩ := ok.read member
  obtain ⟨published, _, acknowledged⟩ := coupled.at_source ok known
  obtain ⟨announced, _⟩ := coupled.at_reader ok known
  have positive : 0 < doorbellOf step.seq window := by
    rw [doorbellOf]
    omega
  constructor
  · have waited := (ok.ordered reader).ran_of_next next announced (by simp only [StreamOp.key]; omega)
    obtain ⟨owners, higher, above, ran⟩ := now.rang positive (now.waited _ _ _ _ waited)
    exact (ok.ordered source).ran_of_ran (now.prefixes source) ran published
      (by simp only [StreamOp.key]; omega)
  · intro later other after ran
    have short : window < K3_WHALE_WINDOW_STRIDE := by
      have inside := (List.getElem?_eq_some_iff.mp coupled.runs).1
      have := step.short
      omega
    have less := doorbellOf_lt short after
    have waited := (ok.ordered source).ran_of_ran (now.prefixes source) ran acknowledged
      (by simp only [StreamOp.key]; omega)
    obtain ⟨owners, higher, above, rung⟩ := now.rang positive (now.waited _ _ _ _ waited)
    have order := (ok.ordered reader).le_next next rung
    simp only [StreamOp.key] at order
    omega

/-- In a log, every read of a publication comes after its writes and before the
source writes the next one. -/
def ReadsInWindow (log : List (Nat × StreamOp)) : Prop :=
  ∀ before after reader source seq window, log = before ++ (reader, .read source seq window) :: after →
    (source, .publish seq window) ∈ before ∧
    ∀ later other, seq < later ∨ seq = later ∧ window < other → (source, .publish later other) ∉ before

theorem FabricReach.reads_in_window (ok : StreamsOk steps stream) {fabric : Fabric}
    (reach : FabricReach stream fabric) :
    ReadsInWindow fabric.log := by
  induction reach with
  | start =>
    intro before after reader source seq window split_
    have := congrArg List.length split_
    simp at this
  | @next fabric _ reach move ih =>
    cases move with
    | @run rank op rest next enabled =>
      intro before after reader source seq window split_
      rcases List.eq_nil_or_concat after with rfl | ⟨middle, last, rfl⟩
      · obtain ⟨same, last⟩ := List.append_inj' split_ rfl
        cases last
        subst same
        obtain ⟨written, none_⟩ := ok.read_in_window (reach.ok ok.ordered) next
        exact ⟨mem_ranBy.mp written, fun later other after ran => none_ later other after (mem_ranBy.mpr ran)⟩
      · have shorter : fabric.log = before ++ (reader, .read source seq window) :: middle := by
          rw [List.concat_eq_append, ← List.cons_append, ← List.append_assoc] at split_
          exact (List.append_inj' split_ rfl).1
        exact ih before middle reader source seq window shorter

theorem FabricReach.not_stuck (ok : StreamsOk steps stream) {fabric : Fabric}
    (reach : FabricReach stream fabric)
    (unfinished : ∃ rank, ranBy fabric.log rank ≠ stream rank) : ∃ after, FabricStep stream fabric after := by
  have now := reach.ok ok.ordered
  have waits : ∀ rank (op : StreamOp) rest, stream rank = ranBy fabric.log rank ++ op :: rest →
    ¬ op.enabled rank fabric.flags →
      ∃ other, ∃ ring ∈ stream other, ring ∉ ranBy fabric.log other ∧ ring.key < op.key := by
    intro rank op rest next blocked
    cases op with
    | wait bell from_ value =>
      have member : .wait bell from_ value ∈ stream rank := by
        rw [next]
        simp
      obtain ⟨owners, listed, ring⟩ := ok.wait member
      refine ⟨from_, _, ring, ?_, ?_⟩
      · intro ran
        exact blocked (now.stored from_ bell owners value ran rank listed)
      · cases bell <;> simp only [StreamOp.key] <;> omega
    | _ => exact absurd trivial blocked
  obtain ⟨rank, op, rest, next, enabled⟩ := Ordered.not_stuck ok.ordered now.prefixes waits unfinished
  exact ⟨_, .run next enabled⟩

/-- What the doorbells guarantee, however the streams interleave. -/
structure ExchangeSafe (stream : Nat → List StreamOp) : Prop where
  reads : ∀ fabric, FabricReach stream fabric → ReadsInWindow fabric.log
  raises : ∀ before after, FabricReach stream before → FabricStep stream before after →
    ∀ flag, before.flags flag ≤ after.flags flag
  not_stuck : ∀ fabric, FabricReach stream fabric → (∃ rank, ranBy fabric.log rank ≠ stream rank) →
    ∃ after, FabricStep stream fabric after

/-- The ranks enqueue their streams for any whales of increasing sequence, and the
exchange is safe on them. -/
theorem doorbell_exchange_safe (increasing : steps.Pairwise (·.seq < ·.seq)) :
    (∃ stream, (∀ rank, streamOf world rank none steps = .ok (stream rank)) ∧ ExchangeSafe stream) ∧
    ∀ (kind : K3CpWindowKind) (source reader cpSize : Nat), reader < cpSize →
      (source ∈ kind.readsFrom reader ↔ reader ∈ kind.readBy source cpSize) := by
  refine ⟨?_, fun kind _ _ _ inside => kind.dual inside⟩
  choose stream made ordered mem using fun rank =>
    @streamOf_spec world rank steps increasing none fun _ none_ => by cases none_
  have ok : StreamsOk steps stream := ⟨ordered, mem⟩
  refine ⟨stream, made, fun fabric reach => reach.reads_in_window ok, ?_,
    fun fabric reach => reach.not_stuck ok⟩
  intro before after reach move flag
  cases move with
  | run next _ => exact (reach.ok ordered).raises ordered next flag

/-- Two whales whose gangs share rank 1 only. -/
theorem doorbell_exchange_safe_two_whales :
    ∃ stream, (∀ rank, streamOf 3 rank none
      [⟨0, [0, 1], [.halo, .upstream], by decide, by decide, by decide, by decide⟩,
        ⟨4, [1, 2], [.upstream], by decide, by decide, by decide, by decide⟩] = .ok (stream rank)) ∧
          ExchangeSafe stream :=
  (doorbell_exchange_safe (by decide)).1

end

end PegaInfer.K3
