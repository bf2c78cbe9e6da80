import PegaInfer.DeepSeekV2Lite.Admission

namespace PegaInfer.DeepSeekV2Lite

open Frontend

/-- The requests received from the `left`-th on, as they wait. -/
def pendingOf (received : List GenerateRequest) (left : Nat) : List PendingRequest :=
  (received.zipIdx.drop left).map fun r => { toGenerateRequest := r.1, tokenTx := r.2 }

theorem pendingOf_mem {received : List GenerateRequest} {left : Nat} {p : PendingRequest}
    (member : p ∈ pendingOf received left) :
    received[p.tokenTx]? = some p.toGenerateRequest := by
  obtain ⟨r, there, rfl⟩ := List.mem_map.mp member
  have found := List.mem_zipIdx_iff_getElem?.mp (List.mem_of_mem_drop there)
  exact found

theorem pendingOf_tokenTx (received : List GenerateRequest) (left : Nat) :
    (pendingOf received left).map PendingRequest.tokenTx = List.range' left (received.length - left) := by
  rw [pendingOf, List.map_map]
  have index : (received.zipIdx.drop left).map (PendingRequest.tokenTx ∘ fun r =>
    { toGenerateRequest := r.1, tokenTx := r.2 }) =
      (received.zipIdx.map Prod.snd).drop left := by
    rw [List.map_drop]
    rfl
  rw [index, List.zipIdx_map_snd, List.drop_range', Nat.mul_one, Nat.zero_add]

theorem pendingOf_drop (received : List GenerateRequest) (left count : Nat) :
    (pendingOf received left).drop count = pendingOf received (left + count) := by
  rw [pendingOf, pendingOf, ← List.map_drop, List.drop_drop]

theorem pendingOf_append {received : List GenerateRequest} {left : Nat}
    (bound : left ≤ received.length) (req : GenerateRequest) :
    pendingOf (received ++ [req]) left = pendingOf received left ++
      [{ toGenerateRequest := req, tokenTx := received.length }] := by
  rw [pendingOf, List.zipIdx_append, List.drop_append_of_le_length (by rwa [List.length_zipIdx]),
    List.map_append, pendingOf,
    List.zipIdx_singleton, Nat.zero_add]
  rfl

/-- The front of the queue and the rest of it, numbered from `left` on. -/
structure Numbered (received : List GenerateRequest) (left : Nat) (front rest : List PendingRequest) :
    Prop where
  rest : rest = pendingOf received (left + front.length)
  bound : front.length ≤ received.length - left
  numbers : front.map PendingRequest.tokenTx = List.range' left front.length
  known : ∀ p ∈ front, received[p.tokenTx]? = some p.toGenerateRequest

namespace Numbered

variable {received : List GenerateRequest} {left : Nat} {front rest : List PendingRequest}

theorem of_split (split : pendingOf received left = front ++ rest) : Numbered received left front rest := by
  have ids := congrArg (List.map PendingRequest.tokenTx) split
  rw [pendingOf_tokenTx] at ids
  have bound : front.length ≤ received.length - left := by
    have lengths := congrArg List.length ids
    rw [List.length_range', List.map_append, List.length_append, List.length_map] at lengths
    omega
  refine ⟨?_, bound, ?_, ?_⟩
  · rw [← pendingOf_drop, split, List.drop_left]
  · have cut : received.length - left = front.length + (received.length - left - front.length) := by omega
    rw [cut, ← List.range'_append_1, List.map_append] at ids
    exact (List.append_inj_left ids (by rw [List.length_range', List.length_map])).symm
  · intro p member
    exact pendingOf_mem (split ▸ List.mem_append_left rest member)

theorem place (numbered : Numbered received left front rest) {p : PendingRequest} (member : p ∈ front) :
    left ≤ p.tokenTx ∧ p.tokenTx < left + front.length :=
  List.mem_range'_1.mp (numbered.numbers ▸ List.mem_map_of_mem member)

/-- A front that is numbered rises. -/
theorem rising (numbered : Numbered received left front rest) :
    (front.map PendingRequest.tokenTx).Pairwise (· < ·) :=
  numbered.numbers ▸ List.pairwise_lt_range'

end Numbered

namespace World

/-- Where every request is. Those from `left` on wait, in the order they came, and have heard
nothing. Of the earlier ones those in `active` are served, in the order they came, and the
others are closed. The earlier ones that passed their checks were prefilled, each in its turn. -/
structure Accounted (world : World) (s : MixedRequestScheduler) (left : Nat) : Prop where
  bound : left ≤ s.received.length
  waiting : s.pending = pendingOf s.received left
  fresh : ∀ n, left ≤ n → s.outside.sinks n = ⟨[], false⟩
  prefilled : s.prefilled = (List.range left).filter fun n => s.received[n]?.any world.admits
  few : s.active.length ≤ world.maxActiveRequests
  order : (s.active.map ActiveRequestState.tokenTx).Pairwise (· < ·)
  early : ∀ row ∈ s.active, row.tokenTx < left
  served : ∀ row ∈ s.active, world.Served s.received s.outside row
  closed : ∀ n < left, n ∉ s.active.map ActiveRequestState.tokenTx → world.Closed s.received s.outside n

/-- What admission does. It takes the front of the queue, all of it unless it fills the rows,
and every request that passes its checks is prefilled. The rows there are stay as they are,
before the new ones. -/
structure Admitted (world : World) (s s' : MixedRequestScheduler) : Prop where
  received : s'.received = s.received
  taken : ∃ tried, s'.prefilled = s.prefilled ++ tried ∧ tried.length + s'.pending.length ≤ s.pending.length ∧
    (s'.pending = [] ∨ s.active.length + tried.length = world.maxActiveRequests)
  rows : ∃ rows, s'.active = s.active ++ rows ∧
    (rows.map ActiveRequestState.tokenTx ++ s'.pending.map PendingRequest.tokenTx).Sublist
      (s.pending.map PendingRequest.tokenTx)
  frame : ∀ row ∈ s.active, s'.outside.sinks row.tokenTx = s.outside.sinks row.tokenTx

namespace Accounted

variable {world : World} {s : MixedRequestScheduler} {left : Nat}

theorem new (world : World) : world.Accounted .new 0 where
  bound := Nat.zero_le _
  waiting := rfl
  fresh := fun _ _ => rfl
  prefilled := rfl
  few := Nat.zero_le _
  order := .nil
  early := fun _ member => absurd member List.not_mem_nil
  served := fun _ member => absurd member List.not_mem_nil
  closed := fun _ impossible => absurd impossible (Nat.not_lt_zero _)

/-- A request comes in. -/
theorem push (accounted : world.Accounted s left) (req : GenerateRequest) :
    world.Accounted
      { s with
        received := s.received ++ [req]
        pending := s.pending ++ [{ toGenerateRequest := req, tokenTx := s.received.length }] } left := by
  have kept : ∀ n, n < left → (s.received ++ [req])[n]? = s.received[n]? := fun n before =>
    List.getElem?_append_left (before.trans_le accounted.bound)
  refine ⟨?_, ?_, accounted.fresh, ?_, accounted.few, accounted.order, accounted.early, ?_, ?_⟩
  · have bound := accounted.bound
    rw [List.length_append, List.length_singleton]
    omega
  · rw [accounted.waiting, pendingOf_append accounted.bound]
  · refine accounted.prefilled.trans (List.filter_congr fun n member => ?_)
    rw [kept n (List.mem_range.mp member)]
  · intro row member
    obtain ⟨asked, found, serving⟩ := accounted.served row member
    exact ⟨asked, (kept _ (accounted.early row member)).trans found, serving⟩
  · intro n before out
    obtain ⟨asked, found, answered⟩ := accounted.closed n before out
    exact ⟨asked, (kept n before).trans found, answered⟩

theorem receive (accounted : world.Accounted s left) (arrivals : List GenerateRequest) :
    world.Accounted (World.receive s arrivals) left ∧
      (World.receive s arrivals).received = s.received ++ arrivals := by
  induction arrivals generalizing s with
  | nil => exact ⟨accounted, (List.append_nil _).symm⟩
  | cons req arrivals ih =>
    obtain ⟨later, same⟩ := ih (accounted.push req)
    refine ⟨later, same.trans ?_⟩
    rw [List.append_assoc, List.singleton_append]

/-- The rows that do not wait are told apart from those that do. -/
theorem distinct (accounted : world.Accounted s left) : (s.active.map ActiveRequestState.tokenTx).Nodup :=
  accounted.order.imp fun less => less.ne

/-- Every request of a batch's front is admitted, rejected or finished. -/
theorem front_perm (world : World) (front : List PendingRequest) :
    (front.filter (fun p => world.admits p.toGenerateRequest) ++
      ((front.filterMap world.rejection).map Prod.fst ++ front.filter world.finishes)).Perm front := by
  induction front with
  | nil => exact .nil
  | cons p front ih =>
    cases decision : admissionDecision p.toGenerateRequest world.supportedContext with
    | admit_ =>
      have mine : world.admits p.toGenerateRequest = true := decide_eq_true decision
      have notRejected : world.rejection p = none := by rw [rejection, decision]
      have unfinished : world.finishes p = false := by simp [finishes, decision]
      rw [List.filter_cons, if_pos mine, List.filterMap_cons_none notRejected,
        List.filter_cons_of_neg (by simp [unfinished])]
      exact ih.cons p
    | reject message =>
      have refused : ¬ world.admits p.toGenerateRequest = true := by simp [admits, decision]
      have rejected : world.rejection p = some (p, message) := by rw [rejection, decision]
      have unfinished : world.finishes p = false := by simp [finishes, decision]
      rw [List.filter_cons, if_neg refused, List.filterMap_cons_some rejected,
        List.filter_cons_of_neg (by simp [unfinished]), List.map_cons,
        List.cons_append]
      exact List.perm_middle.trans (ih.cons p)
    | finish reason =>
      obtain ⟨rfl, -⟩ := admissionDecision_finish decision
      have refused : ¬ world.admits p.toGenerateRequest = true := by simp [admits, decision]
      have notRejected : world.rejection p = none := by rw [rejection, decision]
      have finished : world.finishes p = true := decide_eq_true decision
      rw [List.filter_cons, if_neg refused, List.filterMap_cons_none notRejected,
        List.filter_cons_of_pos finished, ← List.append_assoc]
      refine List.perm_middle.trans ?_
      rw [List.append_assoc]
      exact ih.cons p

/-- The answers of a batch. -/
def answersOf (world : World) (front : List PendingRequest) : List (PendingRequest × TokenEvent) :=
  (front.filterMap world.rejection).map (fun r => (r.1, .rejected r.2 r.1.promptTokens.length 0)) ++
    (front.filter world.finishes).map fun p => (p, .finished .length p.promptTokens.length 0)

theorem answersOf_fst (world : World) (front : List PendingRequest) :
    (answersOf world front).map Prod.fst = (front.filterMap world.rejection).map Prod.fst ++
      front.filter world.finishes := by
  rw [answersOf, List.map_append, List.map_map, List.map_map]
  congr 1
  exact List.map_id _

theorem answersOf_right {front : List PendingRequest} : ∀ a ∈ answersOf world front, a.2.isTerminal = true ∧
    (∀ message prompt completion, a.2 ≠ .error message prompt completion) ∧
    world.reply a.1.toGenerateRequest = [a.2] := by
  intro a member
  rcases List.mem_append.mp member with rejected | finished
  · obtain ⟨⟨p, message⟩, known, rfl⟩ := List.mem_map.mp rejected
    obtain ⟨q, -, decided⟩ := List.mem_filterMap.mp known
    unfold rejection at decided
    split at decided
    · next m decision =>
      cases decided
      exact ⟨rfl, fun _ _ _ clash => (by cases clash), by rw [reply, decision]⟩
    · cases decided
  · obtain ⟨p, known, rfl⟩ := List.mem_map.mp finished
    have decision := of_decide_eq_true (List.mem_filter.mp known).2
    refine ⟨rfl, fun _ _ _ clash => (by cases clash), ?_⟩
    rw [reply, decision]
    dsimp only
    rw [(admissionDecision_finish decision).2, decodeAlone]
    rfl

theorem admitReadyRequests_eq (world : World) (s : MixedRequestScheduler) {batch : AdmissionBatch}
    {rest : List PendingRequest}
    (taken : takeAdmissionBatch s.active.length world.maxActiveRequests world.supportedContext
      ⟨[], [], []⟩ s.pending = (batch, rest)) :
    world.admitReadyRequests s =
      world.prefillAdmitted
        { s with
          outside := world.finish (world.reject s.outside batch.rejected) batch.finished
          pending := rest } batch.admitted := by
  rw [admitReadyRequests, taken]

/-- A front is sorted into requests that are answered at once and requests that are prefilled. -/
theorem sorted_front (world : World) {received : List GenerateRequest} {front rest : List PendingRequest}
    (numbered : Numbered received left front rest) :
    ((answersOf world front).map fun a => a.1.tokenTx).Nodup ∧
      (∀ a ∈ answersOf world front, a.1 ∈ front ∧
        a.1.tokenTx ∉ (front.filter fun p => world.admits p.toGenerateRequest).map PendingRequest.tokenTx) ∧
      ∀ p ∈ front, p ∈ front.filter (fun p => world.admits p.toGenerateRequest) ∨
        ∃ a ∈ answersOf world front, a.1 = p := by
  have perm := front_perm world front
  rw [← answersOf_fst] at perm
  have ids := perm.map PendingRequest.tokenTx
  rw [List.map_append, List.map_map, numbered.numbers] at ids
  obtain ⟨-, distinct, apart⟩ := List.nodup_append.mp (ids.nodup_iff.mpr List.nodup_range')
  refine ⟨distinct, fun a member => ⟨?_, fun there => ?_⟩, fun p member => ?_⟩
  · exact perm.mem_iff.mp (List.mem_append_right _ (List.mem_map_of_mem member))
  · exact apart _ there _ (List.mem_map.mpr ⟨a, member, rfl⟩) rfl
  · exact (List.mem_append.mp (perm.mem_iff.mpr member)).imp_right List.mem_map.mp

/-- Admission answers or serves each request of the front, and no one else hears of it. -/
theorem admitted_front (accounted : world.Accounted s left) {front rest : List PendingRequest}
    (numbered : Numbered s.received left front rest)
    (taken : takeAdmissionBatch s.active.length world.maxActiveRequests world.supportedContext
      ⟨[], [], []⟩ s.pending = (⟨front.filter (fun p => world.admits p.toGenerateRequest),
        front.filterMap world.rejection, front.filter world.finishes⟩, rest))
    (small : s.active.length + (front.filter fun p => world.admits p.toGenerateRequest).length ≤
      world.maxActiveRequests) :
    ∃ o' rows, world.admitReadyRequests s =
        { s with
          outside := o'
          pending := rest
          prefilled := s.prefilled ++
            (front.filter fun p => world.admits p.toGenerateRequest).map PendingRequest.tokenTx
          active := s.active ++ rows } ∧
      (rows.map ActiveRequestState.tokenTx).Sublist
        ((front.filter fun p => world.admits p.toGenerateRequest).map PendingRequest.tokenTx) ∧
      s.outside.Leads o' ∧
      (∀ n, n < left ∨ left + front.length ≤ n → o'.sinks n = s.outside.sinks n) ∧
      (∀ row ∈ rows, ∃ p ∈ front, row.tokenTx = p.tokenTx ∧
        world.Serving p.toGenerateRequest (o'.sinks p.tokenTx) row) ∧
      ∀ p ∈ front, p.tokenTx ∉ rows.map ActiveRequestState.tokenTx →
        world.Answered p.toGenerateRequest o' p.tokenTx := by
  obtain ⟨distinct, apart, sorted⟩ := sorted_front world numbered
  have inFront : ∀ p ∈ front.filter (fun p => world.admits p.toGenerateRequest), p ∈ front :=
    fun p member => (List.mem_filter.mp member).1
  obtain ⟨leads, frame, answered⟩ := answerAll_spec (o := s.outside) world (answersOf world front)
    (fun a member => accounted.fresh _ (numbered.place (apart a member).1).1) answersOf_right distinct
  have outside : world.finish (world.reject s.outside (front.filterMap world.rejection))
      (front.filter world.finishes) = world.answerAll s.outside (answersOf world front) := by
    rw [finish_eq, reject_eq, answerAll, answerAll, ← List.foldl_append, answersOf, answerAll]
  have rising := numbered.rising.sublist
    ((List.filter_sublist (p := fun p => world.admits p.toGenerateRequest)).map _)
  obtain ⟨o', rows, done, order, leads', frame', served, closed⟩ := prefillAdmitted_spec world
    (front.filter fun p => world.admits p.toGenerateRequest)
    { s with outside := world.answerAll s.outside (answersOf world front), pending := rest } small
    (fun p member => by
      rw [Fresh]
      dsimp only
      rw [frame _ fun there => by
        obtain ⟨a, inAnswers, same⟩ := List.mem_map.mp there
        exact (apart a inAnswers).2 (same ▸ List.mem_map_of_mem member)]
      exact accounted.fresh _ (numbered.place (inFront p member)).1)
    (fun p member => of_decide_eq_true (List.mem_filter.mp member).2) (rising.imp fun less => less.ne)
  refine ⟨o', rows, ?_, order, leads.trans leads', fun n outer => ?_, fun row member => ?_,
    fun p member out => ?_⟩
  · rw [admitReadyRequests_eq world s taken, outside, done]
  · have away : n ∉ (front.filter fun p => world.admits p.toGenerateRequest).map
        PendingRequest.tokenTx := fun member => by
      obtain ⟨p, admitted, rfl⟩ := List.mem_map.mp member
      have place := numbered.place (inFront p admitted)
      omega
    have away' : n ∉ (answersOf world front).map fun a => a.1.tokenTx := fun member => by
      obtain ⟨a, inAnswers, rfl⟩ := List.mem_map.mp member
      have place := numbered.place (apart a inAnswers).1
      omega
    exact (frame' n away).trans (frame n away')
  · obtain ⟨p, admitted, serving⟩ := served row member
    exact ⟨p, inFront p admitted, serving⟩
  · rcases sorted p member with admitted | ⟨a, inAnswers, rfl⟩
    · exact closed p admitted out
    · exact (answered a inAnswers).congr (frame' _ (apart a inAnswers).2) leads'

/-- Admission moves the front of the queue on: its requests are closed or served. -/
theorem admit_ (accounted : world.Accounted s left) :
    ∃ left', world.Accounted (world.admitReadyRequests s) left' ∧
    world.Admitted s (world.admitReadyRequests s) := by
  have fits : s.active.length + ([] : List PendingRequest).length ≤ world.maxActiveRequests := accounted.few
  obtain ⟨front, rest, split, taken, small, full⟩ :=
    takeAdmissionBatch_spec world s.active.length s.pending ⟨[], [], []⟩ fits
  simp only [List.nil_append] at taken small full
  have numbered := Numbered.of_split (accounted.waiting ▸ split)
  obtain ⟨o', rows, done, order, leads, frame, served, closed⟩ :=
    accounted.admitted_front numbered taken small
  have rowPlace : ∀ row ∈ rows, left ≤ row.tokenTx ∧ row.tokenTx < left + front.length := by
    intro row member
    obtain ⟨p, inFront, same, -⟩ := served row member
    exact same ▸ numbered.place inFront
  have fewer := order.length_le
  rw [List.length_map, List.length_map] at fewer
  rw [done]
  refine ⟨left + front.length, ⟨?_, numbered.rest, ?_, ?_, ?_, ?_, ?_, ?_, ?_⟩,
    ⟨rfl, ⟨_, rfl, ?_, by rwa [List.length_map]⟩, ⟨rows, rfl, ?_⟩,
      fun row member => frame _ (.inl (accounted.early row member))⟩⟩
  · have bound := accounted.bound
    have more := numbered.bound
    dsimp only
    omega
  · intro n beyond
    exact (frame n (.inr beyond)).trans (accounted.fresh n (by omega))
  · have picked : (List.range' left front.length).filter (fun n => s.received[n]?.any world.admits) =
        (front.filter fun p => world.admits p.toGenerateRequest).map PendingRequest.tokenTx := by
      rw [← numbered.numbers, List.filter_map]
      congr 1
      refine List.filter_congr fun p member => ?_
      rw [Function.comp_apply, numbered.known p member]
      rfl
    have ranges : List.range (left + front.length) = List.range left ++ List.range' left front.length := by
      rw [List.range_eq_range', List.range_eq_range', ← List.range'_append_1, Nat.zero_add]
    rw [ranges, List.filter_append, picked, accounted.prefilled]
  · dsimp only
    rw [List.length_append]
    omega
  · dsimp only
    rw [List.map_append, List.pairwise_append]
    refine ⟨accounted.order, (numbered.rising.sublist (List.filter_sublist.map _)).sublist order,
      fun n old m new => ?_⟩
    obtain ⟨row, inActive, rfl⟩ := List.mem_map.mp old
    obtain ⟨row', inRows, rfl⟩ := List.mem_map.mp new
    exact (accounted.early row inActive).trans_le (rowPlace row' inRows).1
  · intro row member
    rcases List.mem_append.mp member with old | new
    · exact (accounted.early row old).trans_le (Nat.le_add_right _ _)
    · exact (rowPlace row new).2
  · intro row member
    rcases List.mem_append.mp member with old | new
    · exact (accounted.served row old).congr (frame _ (.inl (accounted.early row old)))
    · obtain ⟨p, inFront, same, serving⟩ := served row new
      exact ⟨p.toGenerateRequest, same ▸ numbered.known p inFront, same ▸ serving⟩
  · intro n before out
    dsimp only at out
    rw [List.map_append, List.mem_append, not_or] at out
    by_cases old : n < left
    · exact (accounted.closed n old out.1).congr (frame n (.inl old)) leads
    · have member : n ∈ front.map PendingRequest.tokenTx := by
        rw [numbered.numbers]
        exact List.mem_range'_1.mpr ⟨not_lt.mp old, before⟩
      obtain ⟨p, inFront, rfl⟩ := List.mem_map.mp member
      exact ⟨p.toGenerateRequest, numbered.known p inFront, closed p inFront out.2⟩
  · have taken := List.length_filter_le (fun p => world.admits p.toGenerateRequest) front
    rw [split, List.length_append, List.length_map]
    dsimp only
    omega
  · dsimp only
    rw [split, List.map_append]
    exact (order.trans (List.filter_sublist.map _)).append_right _

/-- No row is ever found at another position than its cache's. -/
theorem retireBadCachePositions_eq (o : Outside) {received : List GenerateRequest}
    (active : List ActiveRequestState)
    (served : ∀ row ∈ active, world.Served received o row) :
    world.retireBadCachePositions o active = (o, active) := by
  induction active with
  | nil => rfl
  | cons row active ih =>
    obtain ⟨req, -, serving⟩ := served row List.mem_cons_self
    rw [retireBadCachePositions, if_pos serving.position, ih fun other member =>
      served other (List.mem_cons_of_mem _ member)]

/-- A round decodes every row once, at its position and with its cache, and keeps the order of
those that go on. -/
theorem decodeRound (accounted : world.Accounted s left) :
    ∃ s', world.decodeRound s = some s' ∧ world.Accounted s' left ∧ s'.received = s.received ∧
      s'.pending = s.pending ∧
      world.Decoded s.received s.outside s.active s'.outside s'.active := by
  obtain ⟨o', active', decoded, round⟩ := decodeActive_spec s.active accounted.served accounted.distinct
  refine ⟨{ s with outside := o', active := active' }, ?_, ?_, rfl, rfl, round⟩
  · rw [World.decodeRound, retireBadCachePositions_eq s.outside s.active accounted.served]
    simp only [decoded]
  · have away : ∀ n, n ∉ s.active.map ActiveRequestState.tokenTx →
      o'.sinks n = s.outside.sinks n := round.frame
    refine ⟨accounted.bound, accounted.waiting, ?_, accounted.prefilled, ?_,
      accounted.order.sublist round.order, ?_, round.served, ?_⟩
    · intro n beyond
      dsimp only
      rw [away n fun member => ?_]
      · exact accounted.fresh n beyond
      · obtain ⟨row, inActive, rfl⟩ := List.mem_map.mp member
        have before := accounted.early row inActive
        omega
    · have fewer := round.order.length_le
      rw [List.length_map, List.length_map] at fewer
      exact fewer.trans accounted.few
    · intro row member
      obtain ⟨old, inActive, same⟩ := List.mem_map.mp (round.order.subset (List.mem_map_of_mem member))
      exact same ▸ accounted.early old inActive
    · intro n before out
      by_cases old : n ∈ s.active.map ActiveRequestState.tokenTx
      · exact round.closed n old out
      · exact (accounted.closed n before old).congr (away n old) round.leads

end Accounted

end World

end PegaInfer.DeepSeekV2Lite
