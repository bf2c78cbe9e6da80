import PegaInfer.DeepSeekV2Lite.Round

namespace PegaInfer.DeepSeekV2Lite

open Frontend

theorem admissionDecision_finish {req : GenerateRequest} {supportedContext : Nat} {reason : FinishReason}
    (decision : admissionDecision req supportedContext = .finish reason) :
    reason = .length ∧ req.maxTokens = 0 := by
  unfold admissionDecision at decision
  dsimp only at decision
  split at decision
  · cases decision
  · split at decision
    · cases decision
    · split at decision
      · cases decision
      · split at decision
        · cases decision
        · split at decision
          · next none_ =>
            cases decision
            exact ⟨rfl, none_⟩
          · split at decision
            · cases decision
            · split at decision <;> cases decision

theorem admissionDecision_budget {req : GenerateRequest} {supportedContext : Nat}
    (decision : admissionDecision req supportedContext = .admit_) : 0 < req.maxTokens := by
  by_contra none_
  have budget : req.maxTokens = 0 := by omega
  unfold admissionDecision at decision
  dsimp only at decision
  rw [if_pos budget] at decision
  split at decision
  · cases decision
  · split at decision
    · cases decision
    · split at decision
      · cases decision
      · split at decision <;> cases decision

namespace World

variable {world : World} {o : Outside}

/-- The request passes every check. -/
def admits (world : World) (req : GenerateRequest) : Bool :=
  admissionDecision req world.supportedContext = .admit_

def rejection (world : World) (pending : PendingRequest) : Option (PendingRequest × String) :=
  match admissionDecision pending.toGenerateRequest world.supportedContext with
  | .reject message => some (pending, message)
  | _ => none

def finishes (world : World) (pending : PendingRequest) : Bool :=
  admissionDecision pending.toGenerateRequest world.supportedContext = .finish .length

/-- The batch is cut from the front of the queue, sorted by what is decided, and fits; it takes
the whole queue unless it fills the rows. -/
theorem takeAdmissionBatch_spec (world : World) (activeLen : Nat) (pending : List PendingRequest)
    (batch : AdmissionBatch)
    (fits : activeLen + batch.admitted.length ≤ world.maxActiveRequests) :
    ∃ front rest, pending = front ++ rest ∧
      takeAdmissionBatch activeLen world.maxActiveRequests world.supportedContext batch pending =
        (⟨batch.admitted ++ front.filter (fun p => world.admits p.toGenerateRequest),
          batch.rejected ++ front.filterMap world.rejection,
          batch.finished ++ front.filter world.finishes⟩, rest) ∧
      activeLen + (batch.admitted ++ front.filter fun p =>
        world.admits p.toGenerateRequest).length ≤ world.maxActiveRequests ∧
      (rest = [] ∨
        activeLen + (batch.admitted ++ front.filter fun p =>
          world.admits p.toGenerateRequest).length = world.maxActiveRequests) := by
  induction pending generalizing batch with
  | nil => exact ⟨[], [], rfl, by simp [takeAdmissionBatch], by simpa using fits, .inl rfl⟩
  | cons req pending ih =>
    rw [takeAdmissionBatch]
    cases decision : admissionDecision req.toGenerateRequest world.supportedContext with
    | admit_ =>
      dsimp only
      split
      · next room =>
        obtain ⟨front, rest, rfl, taken, small, full⟩ :=
          ih { batch with admitted := batch.admitted ++ [req] } (by
          rw [List.length_append, List.length_singleton]
          omega)
        refine ⟨req :: front, rest, rfl, ?_, ?_, ?_⟩
        · simp [taken, admits, rejection, finishes, decision]
        · simpa [admits, decision] using small
        · simpa [admits, decision] using full
      · next crowded =>
        refine ⟨[], req :: pending, rfl, by simp, by simpa using fits, .inr ?_⟩
        rw [List.filter_nil, List.append_nil]
        omega
    | reject message =>
      obtain ⟨front, rest, rfl, taken, small, full⟩ :=
        ih { batch with rejected := batch.rejected ++ [(req, message)] } fits
      refine ⟨req :: front, rest, rfl, ?_, ?_, ?_⟩
      · simp [taken, admits, rejection, finishes, decision]
      · simpa [admits, decision] using small
      · simpa [admits, decision] using full
    | finish reason =>
      obtain ⟨rfl, -⟩ := admissionDecision_finish decision
      obtain ⟨front, rest, rfl, taken, small, full⟩ :=
        ih { batch with finished := batch.finished ++ [req] } fits
      refine ⟨req :: front, rest, rfl, ?_, ?_, ?_⟩
      · simp [taken, admits, rejection, finishes, decision]
      · simpa [admits, decision] using small
      · simpa [admits, decision] using full

/-- Nothing has been sent to the request's client. -/
def Fresh (o : Outside) (pending : PendingRequest) : Prop := o.sinks pending.tokenTx = ⟨[], false⟩

theorem sendScheduled_spec (world : World) {pending : PendingRequest} (fresh : Fresh o pending) :
    o.Leads (world.sendScheduled o pending).1 ∧
      (∀ n, n ≠ pending.tokenTx → (world.sendScheduled o pending).1.sinks n = o.sinks n) ∧
      ((world.sendScheduled o pending).2 = false →
        world.Answered pending.toGenerateRequest (world.sendScheduled o pending).1 pending.tokenTx) ∧
      ((world.sendScheduled o pending).2 = true →
        ∃ queuedAt scheduledAt, (world.sendScheduled o pending).1.sinks pending.tokenTx =
        ⟨[.scheduled queuedAt scheduledAt pending.promptTokens.length 0], false⟩) := by
  refine ⟨leads_send, fun n apart => send_sinks_other apart, fun missed => ?_, fun heard => ?_⟩
  · have quiet : (o.sinks pending.tokenTx).terminals = 0 := by
      rw [fresh]
      rfl
    exact answered_of_lost quiet missed
  · have sink := send_received heard
    rw [fresh] at sink
    exact ⟨_, _, sink⟩

theorem sendPromptEcho_spec (world : World) {pending : PendingRequest} {queuedAt scheduledAt : UnixSeconds}
    (scheduled : o.sinks pending.tokenTx =
      ⟨[.scheduled queuedAt scheduledAt pending.promptTokens.length 0], false⟩) :
    o.Leads (world.sendPromptEcho o pending).1 ∧
      (∀ n, n ≠ pending.tokenTx → (world.sendPromptEcho o pending).1.sinks n = o.sinks n) ∧
      ((world.sendPromptEcho o pending).1.sinks pending.tokenTx).terminals = 0 ∧
      ((world.sendPromptEcho o pending).2 = false →
        ((world.sendPromptEcho o pending).1.sinks pending.tokenTx).lost = true ∧
        ¬ world.MeetsNoFailure (world.sendPromptEcho o pending).1 pending.tokenTx) ∧
      ((world.sendPromptEcho o pending).2 = true →
        (world.sendPromptEcho o pending).1.sinks pending.tokenTx =
          ⟨opening pending.toGenerateRequest queuedAt scheduledAt, false⟩) := by
  unfold sendPromptEcho
  split
  · next echo =>
    refine ⟨leads_send, fun n apart => send_sinks_other apart, ?_,
      fun missed => ⟨by rw [send_lost missed], fun clean => ?_⟩, fun heard => ?_⟩
    · cases told : (world.send o pending.tokenTx
        (.promptTokens pending.promptTokens (pending.promptTokens.map fun _ => none))).2 with
      | true =>
        rw [send_received told, scheduled]
        rfl
      | false =>
        rw [send_lost told, scheduled]
        rfl
    · rw [clean.sent] at missed
      cases missed
    · rw [send_received heard, scheduled, opening, if_pos echo]
      rfl
  · next plain =>
    refine ⟨.refl o, fun _ _ => rfl, by rw [scheduled]; rfl, fun clash => (by cases clash), fun _ => ?_⟩
    rw [scheduled, opening, if_neg plain]

/-- An answer without a prefill. -/
theorem answer_spec {pending : PendingRequest} {event : TokenEvent} (fresh : Fresh o pending)
    (terminal : event.isTerminal = true)
    (harmless : ∀ message prompt completion, event ≠ .error message prompt completion)
    (reply : world.reply pending.toGenerateRequest = [event]) :
    o.Leads (world.answer o pending event) ∧
      (∀ n, n ≠ pending.tokenTx → (world.answer o pending event).sinks n = o.sinks n) ∧
      world.Answered pending.toGenerateRequest (world.answer o pending event) pending.tokenTx := by
  obtain ⟨leads, frame, missed, heard⟩ := sendScheduled_spec world fresh
  unfold answer
  cases sent : world.sendScheduled o pending with
  | mk o₁ ok =>
    rw [sent] at leads frame missed heard
    cases ok with
    | false => exact ⟨leads, frame, missed rfl⟩
    | true =>
      obtain ⟨queuedAt, scheduledAt, sink⟩ := heard rfl
      obtain ⟨leads', frame', quiet, lost, echoed⟩ := sendPromptEcho_spec world sink
      refine ⟨(leads.trans leads').trans leads_send,
        fun n apart => by rw [send_sinks_other apart, frame' n apart, frame n apart], ?_⟩
      refine answered_of_terminal terminal quiet (fun kept _ => ⟨queuedAt, scheduledAt, ?_⟩) fun clean => ?_
      · cases echo : (world.sendPromptEcho o₁ pending).2 with
        | false =>
          rw [(lost echo).1] at kept
          cases kept
        | true => rw [echoed echo, reply]
      · cases echo : (world.sendPromptEcho o₁ pending).2 with
        | false => exact absurd clean (lost echo).2
        | true =>
          rw [echoed echo]
          refine ⟨rfl, fun message prompt completion member => ?_⟩
          rcases List.mem_append.mp member with opened | now
          · exact error_notMem_told _ queuedAt scheduledAt [] message prompt completion
              (List.mem_append_left _ opened)
          · exact harmless _ _ _ (List.mem_singleton.mp now).symm

/-- Requests answered one after the other. -/
def answerAll (world : World) (o : Outside) (answers : List (PendingRequest × TokenEvent)) : Outside :=
  answers.foldl (fun o answer => world.answer o answer.1 answer.2) o

theorem reject_eq (rejected : List (PendingRequest × String)) (o : Outside) :
    world.reject o rejected = world.answerAll o
      (rejected.map fun r => (r.1, .rejected r.2 r.1.promptTokens.length 0)) := by
  induction rejected generalizing o with
  | nil => rfl
  | cons first rejected ih => exact ih _

theorem finish_eq (finished : List PendingRequest) (o : Outside) :
    world.finish o finished = world.answerAll o
      (finished.map fun p => (p, .finished .length p.promptTokens.length 0)) := by
  induction finished generalizing o with
  | nil => rfl
  | cons first finished ih => exact ih _

theorem answerAll_spec (world : World) (answers : List (PendingRequest × TokenEvent))
    (fresh : ∀ a ∈ answers, Fresh o a.1)
    (right : ∀ a ∈ answers, a.2.isTerminal = true ∧
      (∀ message prompt completion, a.2 ≠ .error message prompt completion) ∧
      world.reply a.1.toGenerateRequest = [a.2])
    (distinct : (answers.map fun a => a.1.tokenTx).Nodup) :
    o.Leads (world.answerAll o answers) ∧
      (∀ n, n ∉ answers.map (fun a => a.1.tokenTx) → (world.answerAll o answers).sinks n = o.sinks n) ∧
      ∀ a ∈ answers, world.Answered a.1.toGenerateRequest (world.answerAll o answers) a.1.tokenTx := by
  induction answers generalizing o with
  | nil => exact ⟨.refl o, fun _ _ => rfl, fun _ member => absurd member List.not_mem_nil⟩
  | cons first answers ih =>
    obtain ⟨out, distinct'⟩ := List.nodup_cons.mp distinct
    obtain ⟨terminal, harmless, reply⟩ := right first List.mem_cons_self
    obtain ⟨leads, frame, answered⟩ := answer_spec (fresh first List.mem_cons_self) terminal harmless reply
    obtain ⟨leads', frame', others⟩ := ih (o := world.answer o first.1 first.2)
      (fun a member => by
        have apart : a.1.tokenTx ≠ first.1.tokenTx := fun same => out (List.mem_map.mpr ⟨a, member, same⟩)
        rw [Fresh, frame _ apart]
        exact fresh a (List.mem_cons_of_mem _ member))
      (fun a member => right a (List.mem_cons_of_mem _ member)) distinct'
    refine ⟨leads.trans leads', ?_, ?_⟩
    · intro n away
      rw [List.map_cons, List.mem_cons, not_or] at away
      exact (frame' n away.2).trans (frame n away.1)
    · intro a member
      rcases List.mem_cons.mp member with rfl | later
      · exact answered.congr (frame' _ out) leads'
      · exact others a later

/-- The row of a prefilled request. -/
def firstRow (world : World) (pending : PendingRequest) : ActiveRequestState where
  tokenTx := pending.tokenTx
  promptLen := pending.promptTokens.length
  maxTokens := pending.maxTokens
  generated := 0
  lastToken := world.next pending.promptTokens
  finishPolicy := { eosTokenId := world.eosTokenId, ignoreEos := pending.params.ignoreEos }
  cache := pending.promptTokens

/-- The first row of a request whose client has been told its opening. -/
theorem firstRow_emitted {pending : PendingRequest} {queuedAt scheduledAt : UnixSeconds}
    (sink : o.sinks pending.tokenTx = ⟨opening pending.toGenerateRequest queuedAt scheduledAt, false⟩)
    (decision : admissionDecision pending.toGenerateRequest world.supportedContext = .admit_) :
    world.Emitted pending.toGenerateRequest (o.sinks pending.tokenTx) (world.firstRow pending) [] where
  received := by rw [sink]
  events := ⟨queuedAt, scheduledAt, by rw [sink, tokenEvents, List.map_nil, List.append_nil]⟩
  promptLen := rfl
  maxTokens := rfl
  policy := rfl
  generated := rfl
  decision := decision
  left := admissionDecision_budget decision
  sofar := by rw [List.append_nil, List.nil_append, List.length_nil, Nat.sub_zero]

/-- A prefill leaves the request with a row that serves it, or answered. -/
theorem prefillRequest_spec {pending : PendingRequest} (fresh : Fresh o pending)
    (decision : admissionDecision pending.toGenerateRequest world.supportedContext = .admit_) :
    ∃ o' out, world.prefillRequest o pending = (o', out) ∧ o.Leads o' ∧
      (∀ n, n ≠ pending.tokenTx → o'.sinks n = o.sinks n) ∧
      (out = none → world.Answered pending.toGenerateRequest o' pending.tokenTx) ∧
      ∀ row, out = some row → row.tokenTx = pending.tokenTx ∧
        world.Serving pending.toGenerateRequest (o'.sinks pending.tokenTx) row := by
  obtain ⟨leads, frame, missed, heard⟩ := sendScheduled_spec world fresh
  unfold prefillRequest
  cases sent : world.sendScheduled o pending with
  | mk o₁ ok =>
    rw [sent] at leads frame missed heard
    cases ok with
    | false => exact ⟨o₁, none, rfl, leads, frame, fun _ => missed rfl, fun _ clash => (by cases clash)⟩
    | true =>
      obtain ⟨queuedAt, scheduledAt, sink⟩ := heard rfl
      obtain ⟨leads', frame', quiet, lost, echoed⟩ := sendPromptEcho_spec world sink
      dsimp only
      cases echo : world.sendPromptEcho o₁ pending with
      | mk o₂ ok =>
        rw [echo] at leads' frame' quiet lost echoed
        have leads₂ : o.Leads o₂ := leads.trans leads'
        have frame₂ : ∀ n, n ≠ pending.tokenTx → o₂.sinks n = o.sinks n :=
          fun n apart => (frame' n apart).trans (frame n apart)
        cases ok with
        | false =>
          obtain ⟨lost, hurt⟩ := lost rfl
          refine ⟨o₂, none, rfl, leads₂, frame₂,
            fun _ => ⟨quiet.le.trans (Nat.zero_le 1), fun kept => ?_, fun kept => ?_,
              fun clean => absurd clean hurt⟩,
            fun _ clash => (by cases clash)⟩
          · rw [lost] at kept
            cases kept
          · rw [lost] at kept
            cases kept
        | true =>
          have sink₂ := echoed rfl
          have called : o.Leads
              { o₂ with calls := o₂.calls ++ [.prefillNextToken pending.tokenTx pending.promptTokens] } :=
            leads₂.trans (.call o₂ _)
          dsimp only
          split
          · next message failed =>
            refine ⟨_, none, rfl, called.trans leads_send,
              fun n apart => by rw [send_sinks_other apart]; exact frame₂ n apart, fun _ => ?_,
              fun _ clash => (by cases clash)⟩
            have quiet' : (({ o₂ with
              calls := o₂.calls ++ [.prefillNextToken pending.tokenTx pending.promptTokens] } : Outside).sinks
              pending.tokenTx).terminals = 0 := quiet
            refine answered_of_terminal rfl quiet'
              (fun _ noError => absurd rfl (noError _ _ _)) fun clean => ?_
            have fine : world.fails o₂.calls.length = none := clean.called (List.mem_singleton.mpr rfl)
            rw [fine] at failed
            cases failed
          · have emitted := firstRow_emitted sink₂ decision
            have absorbed : (world.firstRow pending).cache = pending.promptTokens ++ [] :=
              (List.append_nil _).symm
            obtain ⟨o₃, row, done, step, same, -, leads₃, frame₃, ends, goes⟩ :=
              @emitTokenOrFinish_spec world
                { o₂ with calls := o₂.calls ++ [.prefillNextToken pending.tokenTx pending.promptTokens] }
                pending.toGenerateRequest (world.firstRow pending) [] emitted absorbed
            rw [firstRow] at step
            dsimp only at step
            rw [step]
            have frame' : ∀ n, n ≠ pending.tokenTx → o₃.sinks n = o.sinks n :=
              fun n apart => (frame₃ n apart).trans (frame₂ n apart)
            cases done with
            | true =>
              exact ⟨o₃, none, rfl, called.trans leads₃, frame', fun _ => ends rfl,
                fun _ clash => (by cases clash)⟩
            | false =>
              refine ⟨o₃, some row, rfl, called.trans leads₃, frame', fun clash => (by cases clash),
                fun other known => ?_⟩
              obtain rfl := Option.some.inj known
              exact ⟨same, (goes rfl).1⟩

/-- The early break is never taken: every admitted request is prefilled, in turn. -/
theorem prefillAdmitted_spec (world : World) (admitted : List PendingRequest) (s : MixedRequestScheduler)
    (room : s.active.length + admitted.length ≤ world.maxActiveRequests)
    (fresh : ∀ p ∈ admitted, Fresh s.outside p)
    (decided : ∀ p ∈ admitted, admissionDecision p.toGenerateRequest world.supportedContext = .admit_)
    (distinct : (admitted.map PendingRequest.tokenTx).Nodup) :
    ∃ o' rows, world.prefillAdmitted s admitted =
        { s with
          outside := o'
          prefilled := s.prefilled ++ admitted.map PendingRequest.tokenTx
          active := s.active ++ rows } ∧
      (rows.map ActiveRequestState.tokenTx).Sublist (admitted.map PendingRequest.tokenTx) ∧
        s.outside.Leads o' ∧
      (∀ n, n ∉ admitted.map PendingRequest.tokenTx → o'.sinks n = s.outside.sinks n) ∧
      (∀ row ∈ rows, ∃ p ∈ admitted, row.tokenTx = p.tokenTx ∧
        world.Serving p.toGenerateRequest (o'.sinks p.tokenTx) row) ∧
      ∀ p ∈ admitted, p.tokenTx ∉ rows.map ActiveRequestState.tokenTx →
        world.Answered p.toGenerateRequest o' p.tokenTx := by
  induction admitted generalizing s with
  | nil =>
    refine ⟨s.outside, [], ?_, .slnil, .refl _, fun _ _ => rfl,
      fun _ member => absurd member List.not_mem_nil, fun _ member => absurd member List.not_mem_nil⟩
    rw [prefillAdmitted, List.map_nil, List.append_nil, List.append_nil]
  | cons pending admitted ih =>
    obtain ⟨out, distinct'⟩ := List.nodup_cons.mp distinct
    rw [List.length_cons] at room
    obtain ⟨o₁, made, step, leads, frame, answered, serving⟩ :=
      prefillRequest_spec (fresh pending List.mem_cons_self) (decided pending List.mem_cons_self)
    have one : made.toList.length ≤ 1 := by cases made <;> simp
    obtain ⟨o₂, rows, rest, order, leads', frame', served, closed⟩ := ih
      { s with
        outside := o₁
        prefilled := s.prefilled ++ [pending.tokenTx]
        active := s.active ++ made.toList } (by
        dsimp only
        rw [List.length_append]
        omega)
      (fun p member => by
        have apart : p.tokenTx ≠ pending.tokenTx := fun same => out (same ▸ List.mem_map_of_mem member)
        rw [Fresh]
        dsimp only
        rw [frame _ apart]
        exact fresh p (List.mem_cons_of_mem _ member))
      (fun p member => decided p (List.mem_cons_of_mem _ member)) distinct'
    dsimp only at rest leads' frame' served closed
    have here : o₂.sinks pending.tokenTx = o₁.sinks pending.tokenTx := frame' _ out
    refine ⟨o₂, made.toList ++ rows, ?_, ?_, leads.trans leads', ?_, ?_, ?_⟩
    · rw [prefillAdmitted, if_neg (by omega), step]
      dsimp only
      rw [rest, List.map_cons, List.append_assoc, List.append_assoc, List.singleton_append]
    · rw [List.map_append, List.map_cons]
      cases made with
      | none => exact order.cons _
      | some row =>
        rw [Option.toList_some, List.map_singleton, (serving row rfl).1]
        exact order.cons_cons _
    · intro n away
      rw [List.map_cons, List.mem_cons, not_or] at away
      exact (frame' n away.2).trans (frame n away.1)
    · intro row member
      rcases List.mem_append.mp member with mine | later
      · obtain ⟨same, serves⟩ := serving row (Option.mem_toList.mp mine)
        exact ⟨pending, List.mem_cons_self, same, here ▸ serves⟩
      · obtain ⟨p, known, same, serves⟩ := served row later
        exact ⟨p, List.mem_cons_of_mem _ known, same, serves⟩
    · intro p member away
      rw [List.map_append, List.mem_append, not_or] at away
      rcases List.mem_cons.mp member with rfl | later
      · cases made with
        | none => exact (answered rfl).congr here leads'
        | some row =>
          rw [Option.toList_some, List.map_singleton, (serving row rfl).1] at away
          exact absurd List.mem_cons_self away.1
      · exact closed p later away.2

end World

end PegaInfer.DeepSeekV2Lite
