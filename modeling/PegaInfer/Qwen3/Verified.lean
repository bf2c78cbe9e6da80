import PegaInfer.Qwen3.Speculative

namespace PegaInfer.Qwen3

open Frontend

/-- One result for each span, whatever the target's tokens. -/
theorem buildVerifyResults_ids {offset : Nat} {requests : List VerifyStepItem} {tokens : List Token}
    {results : List VerifyRequestResult}
    (built : buildVerifyResults offset requests tokens = .ok results) :
    results.map (·.requestId) = requests.map (·.requestId) := by
  induction requests generalizing offset tokens results with
  | nil =>
    unfold buildVerifyResults at built
    split_ifs at built
    obtain rfl := Except.ok.inj built
    rfl
  | cons request requests ih =>
    unfold buildVerifyResults at built
    dsimp only at built
    split_ifs at built
    cases tail : buildVerifyResults (offset + request.tokenIds.length) requests
      (tokens.drop request.tokenIds.length) with
    | error message =>
      rw [tail] at built
      cases built
    | ok rest =>
      rw [tail] at built
      obtain rfl := Except.ok.inj built
      rw [List.map_cons, List.map_cons, ih tail]

/-- A winner has the id of the result it beats. -/
theorem selectWinners_ids {results : List VerifyRequestResult} {chains : List (Nat × VerifyRequestResult)}
    (same : ∀ chain ∈ chains, (results.map (·.requestId))[chain.1]? = some chain.2.requestId) :
    (selectWinners results chains).map (·.requestId) = results.map (·.requestId) := by
  induction chains generalizing results with
  | nil => rfl
  | cons chain chains ih =>
    have later := fun other member => same other (List.mem_cons_of_mem chain member)
    unfold selectWinners
    split_ifs
    · have kept : (results.set chain.1 chain.2).map (·.requestId) = results.map (·.requestId) := by
        have here := same chain List.mem_cons_self
        rw [List.map_set]
        apply List.ext_getElem?
        intro i
        rw [List.getElem?_set]
        split_ifs with index bound
        · rw [← index, here]
        · rw [← index, here] at *
          simp_all
        · rfl
      rw [ih (by rwa [kept]), kept]
    · exact ih later

theorem mem_selectWinners {results : List VerifyRequestResult}
    {chains : List (Nat × VerifyRequestResult)} {winner : VerifyRequestResult}
    (member : winner ∈ selectWinners results chains) :
    winner ∈ results ∨ ∃ chain ∈ chains, winner = chain.2 := by
  induction chains generalizing results with
  | nil => exact .inl member
  | cons chain chains ih =>
    unfold selectWinners at member
    split_ifs at member
    · rcases ih member with own | ⟨other, known, rfl⟩
      · rcases List.mem_or_eq_of_mem_set own with own | rfl
        · exact .inl own
        · exact .inr ⟨chain, List.mem_cons_self, rfl⟩
      · exact .inr ⟨other, List.mem_cons_of_mem _ known, rfl⟩
    · rcases ih member with own | ⟨other, known, rfl⟩
      · exact .inl own
      · exact .inr ⟨other, List.mem_cons_of_mem _ known, rfl⟩

/-- A span that may stand in for the span of `request`: as long, behind the same
confirmed token. -/
def VerifyStepItem.StandsFor (span request : VerifyStepItem) : Prop :=
  span.requestId = request.requestId ∧ span.tokenIds.length = request.tokenIds.length ∧
    span.tokenIds.head? = request.tokenIds.head?

theorem HedgeLane.mem_chains {lane : HedgeLane} {request : VerifyStepItem}
    {blocks added : List (List Token)} {expanded scratch : Nat}
    {ids : List Token} (member : ids ∈ lane.chains request blocks expanded scratch added) :
    ids ∈ added ∨ (ids.length = request.tokenIds.length ∧ ∃ block, ids = lane.chain request block) := by
  induction blocks generalizing expanded scratch added with
  | nil => exact .inl member
  | cons block blocks ih =>
    unfold chains at member
    dsimp only at member
    split_ifs at member with full skip
    · exact .inl member
    · exact ih member
    · rcases ih member with own | right
      · rcases List.mem_append.mp own with own | own
        · exact .inl own
        · obtain rfl := List.mem_singleton.mp own
          refine .inr ⟨?_, block, rfl⟩
          by_contra other
          exact skip (.inl other)
      · exact .inr right

/-- Every hedge span stands for the request whose index it carries. -/
theorem HedgeLane.mem_hedgeSpans {lane : HedgeLane} {requests : List VerifyStepItem}
    {index hedged expanded scratch : Nat}
    {span : Nat × VerifyStepItem} (member : span ∈ lane.hedgeSpans index requests hedged expanded scratch) :
    ∃ place request, span.1 = index + place ∧ requests[place]? = some request ∧ span.2.StandsFor request := by
  induction requests generalizing index hedged expanded scratch with
  | nil => simp [hedgeSpans] at member
  | cons request requests ih =>
    have later : ∀ {hedged expanded scratch},
      span ∈ lane.hedgeSpans (index + 1) requests hedged expanded scratch →
        ∃ place request', span.1 = index + place ∧ (request :: requests)[place]? = some request' ∧
          span.2.StandsFor request' := by
      intro hedged expanded scratch member
      obtain ⟨place, other, position, found, stands⟩ := ih member
      exact ⟨place + 1, other, by omega, by simpa using found, stands⟩
    unfold hedgeSpans at member
    split at member
    · simp at member
    split at member
    · exact later member
    split at member
    · exact later member
    · rename_i eligible
      rcases List.mem_append.mp member with own | member
      · obtain ⟨ids, known, rfl⟩ := List.mem_map.mp own
        refine ⟨0, request, rfl, rfl, rfl, ?_⟩
        rcases mem_chains known with impossible | ⟨length, block, rfl⟩
        · simp at impossible
        refine ⟨length, ?_⟩
        have long : 2 ≤ request.tokenIds.length := by
          simp only [Bool.or_eq_true, decide_eq_true_eq, not_or, not_lt] at eligible
          exact eligible.1.2
        obtain ⟨first, rest, shape⟩ : ∃ first rest, request.tokenIds = first :: rest :=
          List.exists_cons_of_length_pos (by omega)
        simp [chain, shape]
      · exact later member

section

variable {target : RequestId → List Token → List Token}

/-- The answer of a span is decided by the target's tokens for that span alone. -/
theorem verifySpans_rows (rows : ∀ id span, (target id span).length = span.length) {offset : Nat}
    {requests : List VerifyStepItem}
    {results : List VerifyRequestResult}
    (built : buildVerifyResults offset requests (requests.flatMap fun request =>
      target request.requestId request.tokenIds) = .ok results) :
    ∀ result ∈ results, ∃ request ∈ requests, request.tokenIds ≠ [] ∧ result.requestId = request.requestId ∧
      result.acceptedTokens = acceptPrefixMatch request.tokenIds.tail
        (target request.requestId request.tokenIds) := by
  induction requests generalizing offset results with
  | nil =>
    unfold buildVerifyResults at built
    split_ifs at built
    obtain rfl := Except.ok.inj built
    simp
  | cons request requests ih =>
    unfold buildVerifyResults at built
    dsimp only at built
    split_ifs at built with empty
    have length := rows request.requestId request.tokenIds
    rw [List.flatMap_cons, List.take_append_of_le_length (by omega), List.take_of_length_le (by omega),
      List.drop_append_of_le_length (by omega), List.drop_of_length_le (by omega), List.nil_append] at built
    cases tail : buildVerifyResults (offset + request.tokenIds.length) requests
        (requests.flatMap fun request => target request.requestId request.tokenIds) with
    | error message =>
      rw [tail] at built
      cases built
    | ok rest =>
      rw [tail] at built
      obtain rfl := Except.ok.inj built
      intro result member
      rcases List.mem_cons.mp member with rfl | member
      · exact ⟨request, List.mem_cons_self, fun none => empty (by simp [none]), rfl, rfl⟩
      · obtain ⟨other, known, filled, own, accepted⟩ := ih tail result member
        exact ⟨other, List.mem_cons_of_mem _ known, filled, own, accepted⟩

/-- The hedge spans of a pass. -/
def HedgeLane.spans (lane : HedgeLane) (requests : List VerifyStepItem) : List (Nat × VerifyStepItem) :=
  if lane.cap = 0 ∨ lane.scratchPages = 0 ∨ lane.usesMarkovHead = false then []
  else lane.hedgeSpans 0 requests 0 requests.length 0

theorem HedgeLane.mem_spans {lane : HedgeLane} {requests : List VerifyStepItem} {span : Nat × VerifyStepItem}
    (member : span ∈ lane.spans requests) :
    ∃ request, requests[span.1]? = some request ∧ span.2.StandsFor request := by
  unfold spans at member
  split_ifs at member
  · simp at member
  · obtain ⟨place, request, position, found, stands⟩ := mem_hedgeSpans member
    exact ⟨request, by rwa [position, Nat.zero_add], stands⟩

/-- Spans with tokens in them are all answered. -/
theorem verifySpans_isOk (rows : ∀ id span, (target id span).length = span.length)
    {requests : List VerifyStepItem}
    (filled : ∀ request ∈ requests, request.tokenIds ≠ []) (offset : Nat) :
    ∃ results, buildVerifyResults offset requests (requests.flatMap fun request =>
      target request.requestId request.tokenIds) =
      .ok results := by
  induction requests generalizing offset with
  | nil => exact ⟨[], rfl⟩
  | cons request requests ih =>
    have length := rows request.requestId request.tokenIds
    have some_ : request.tokenIds.length ≠ 0 :=
      fun empty => filled request List.mem_cons_self (List.length_eq_zero_iff.mp empty)
    obtain ⟨rest, tail⟩ := ih (fun other member => filled other (List.mem_cons_of_mem _ member))
      (offset + request.tokenIds.length)
    unfold buildVerifyResults
    dsimp only
    rw [List.flatMap_cons, if_neg some_, if_neg (by rw [List.length_append]; omega),
      List.drop_append_of_le_length (by omega),
      List.drop_of_length_le (by omega), List.nil_append, tail]
    exact ⟨_, rfl⟩

theorem executeVerify_isOk (rows : ∀ id span, (target id span).length = span.length) {lane : HedgeLane}
    {requests : List VerifyStepItem} (filled : ∀ request ∈ requests, request.tokenIds ≠ []) :
    ∃ results, executeVerify target lane requests = .ok results := by
  have unfolded : executeVerify target lane requests = if (lane.spans requests).isEmpty
    then verifySpans target requests else do
      let all ← verifySpans target (requests ++ (lane.spans requests).map (·.2))
      return selectWinners (all.take requests.length)
        (((lane.spans requests).map (·.1)).zip (all.drop requests.length)) := rfl
  rw [unfolded]
  split_ifs
  · exact verifySpans_isOk rows filled 0
  · have hedged : ∀ request ∈ requests ++ (lane.spans requests).map (·.2), request.tokenIds ≠ [] := by
      intro request member
      rcases List.mem_append.mp member with own | hedge
      · exact filled request own
      · obtain ⟨pair, held, rfl⟩ := List.mem_map.mp hedge
        obtain ⟨own, asked, -, length, -⟩ := HedgeLane.mem_spans held
        have some_ := filled own (List.mem_of_getElem? asked)
        rw [← List.length_pos_iff] at some_ ⊢
        rwa [length]
    obtain ⟨all, run⟩ := verifySpans_isOk rows hedged 0
    rw [verifySpans, run]
    exact ⟨_, rfl⟩

/-- The result of a span that stands for one of the requests. -/
def Answers (target : RequestId → List Token → List Token) (requests : List VerifyStepItem)
    (result : VerifyRequestResult) : Prop :=
  ∃ span : VerifyStepItem, ∃ request ∈ requests, span.StandsFor request ∧ span.tokenIds ≠ [] ∧
    result.requestId = span.requestId ∧
    result.acceptedTokens = acceptPrefixMatch span.tokenIds.tail (target span.requestId span.tokenIds)

/-- A verify pass answers each request once, and with the outcome of a span that
stands for it. -/
theorem executeVerify_ok {lane : HedgeLane} {requests : List VerifyStepItem}
    {results : List VerifyRequestResult}
    (verified : executeVerify target lane requests = .ok results) :
    results.map (·.requestId) = requests.map (·.requestId) ∧
    ((∀ id span, (target id span).length = span.length) →
      ∀ result ∈ results, Answers target requests result) := by
  have unfolded : executeVerify target lane requests = if (lane.spans requests).isEmpty
    then verifySpans target requests else do
      let all ← verifySpans target (requests ++ (lane.spans requests).map (·.2))
      return selectWinners (all.take requests.length)
        (((lane.spans requests).map (·.1)).zip (all.drop requests.length)) := rfl
  have answered : ∀ {spans : List VerifyStepItem} {all : List VerifyRequestResult},
    verifySpans target spans = .ok all →
      (∀ span ∈ spans, ∃ request ∈ requests, span.StandsFor request) →
      (∀ id span, (target id span).length = span.length) →
        ∀ result ∈ all, Answers target requests result := by
    intro spans all built stands rows result member
    obtain ⟨span, known, filled, own, accepted⟩ := verifySpans_rows rows built result member
    obtain ⟨request, asked, stand⟩ := stands span known
    exact ⟨span, request, asked, stand, filled, own, accepted⟩
  rw [unfolded] at verified
  split_ifs at verified
  · refine ⟨buildVerifyResults_ids verified, answered verified ?_⟩
    exact fun request member => ⟨request, member, rfl, rfl, rfl⟩
  · cases built : verifySpans target (requests ++ (lane.spans requests).map (·.2)) with
    | error message =>
      rw [built] at verified
      cases verified
    | ok all =>
      rw [built] at verified
      obtain rfl := Except.ok.inj verified
      have ids := buildVerifyResults_ids built
      rw [List.map_append] at ids
      have front : (all.take requests.length).map (·.requestId) = requests.map (·.requestId) := by
        rw [List.map_take, ids, List.take_append_of_le_length (by simp), List.take_of_length_le (by simp)]
      have back : (all.drop requests.length).map (·.requestId) =
          (lane.spans requests).map (·.2.requestId) := by
        rw [List.map_drop, ids, List.drop_append_of_le_length (by simp),
          List.drop_of_length_le (by simp), List.nil_append, List.map_map]
        rfl
      refine ⟨?_, ?_⟩
      · rw [selectWinners_ids, front]
        intro chain member
        obtain ⟨place, found⟩ := List.mem_iff_getElem?.mp member
        rw [List.getElem?_zip_eq_some] at found
        obtain ⟨index, result⟩ := found
        rw [List.getElem?_map, Option.map_eq_some_iff] at index
        obtain ⟨span, held, own⟩ := index
        obtain ⟨request, asked, stands⟩ := HedgeLane.mem_spans (List.mem_of_getElem? held)
        have named : ((all.drop requests.length).map (·.requestId))[place]? = some chain.2.requestId := by
          rw [List.getElem?_map, result]
          rfl
        rw [back, List.getElem?_map, held] at named
        rw [front, List.getElem?_map, ← own, asked]
        exact congrArg some (stands.1.symm.trans (Option.some.inj named))
      · intro rows result member
        refine answered built ?_ rows result ?_
        · intro span known
          rcases List.mem_append.mp known with own | hedge
          · exact ⟨span, own, rfl, rfl, rfl⟩
          · obtain ⟨pair, held, rfl⟩ := List.mem_map.mp hedge
            obtain ⟨request, asked, stands⟩ := HedgeLane.mem_spans held
            exact ⟨request, List.mem_of_getElem? asked, stands⟩
        · rcases mem_selectWinners member with own | ⟨chain, known, rfl⟩
          · exact List.mem_of_mem_take own
          · exact List.mem_of_mem_drop (List.of_mem_zip known).2

end

end PegaInfer.Qwen3
