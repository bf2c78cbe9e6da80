import PegaInfer.DeepSeekV2Lite.Alone
import PegaInfer.DeepSeekV2Lite.Regrouped

namespace PegaInfer.DeepSeekV2Lite

open Frontend

namespace World

variable (world : World) (received : List GenerateRequest) (o : Outside)

/-- The row is serving the request it was received as. -/
def Served (row : ActiveRequestState) : Prop :=
  ∃ req, received[row.tokenTx]? = some req ∧ world.Serving req (o.sinks row.tokenTx) row

def Closed (n : Nat) : Prop := ∃ req, received[n]? = some req ∧ world.Answered req o n

/-- A row whose last token has been absorbed. -/
def Due (row : ActiveRequestState) : Prop :=
  ∃ req tokens, received[row.tokenTx]? = some req ∧
    world.Emitted req (o.sinks row.tokenTx) row tokens ∧ row.cache = req.promptTokens ++ tokens

/-- Of the rows with these indices and requests the survivors are served on, each a token
further, the others closed; no other client hears anything. -/
structure Handled (keys : List (Nat × Nat)) (o' : Outside)
    (survivors : List (Nat × ActiveRequestState)) : Prop where
  kept : (survivors.map rowKey).Sublist keys
  served : ∀ row ∈ survivors, world.Served received o' row.2
  closed : ∀ key ∈ keys, key.2 ∉ survivors.map (fun row => row.2.tokenTx) → world.Closed received o' key.2
  told : ∀ row ∈ survivors, ∃ token, (o'.sinks row.2.tokenTx).events =
    (o.sinks row.2.tokenTx).events ++ tokenEvents [token]
  leads : o.Leads o'
  frame : ∀ n, n ∉ keys.map Prod.snd → o'.sinks n = o.sinks n

variable {world received o} {o' o'' : Outside} {keys keys' : List (Nat × Nat)}
  {survivors survivors' : List (Nat × ActiveRequestState)}

theorem Served.congr {row : ActiveRequestState} (served : world.Served received o row)
    (same : o'.sinks row.tokenTx = o.sinks row.tokenTx) :
    world.Served received o' row := by
  obtain ⟨req, found, serving⟩ := served
  exact ⟨req, found, same ▸ serving⟩

theorem Closed.congr {n : Nat} (closed : world.Closed received o n) (same : o'.sinks n = o.sinks n)
    (leads : o.Leads o') :
    world.Closed received o' n := by
  obtain ⟨req, found, answered⟩ := closed
  exact ⟨req, found, answered.congr same leads⟩

theorem Due.congr {row : ActiveRequestState} (due : world.Due received o row)
    (same : o'.sinks row.tokenTx = o.sinks row.tokenTx) :
    world.Due received o' row := by
  obtain ⟨req, tokens, found, emitted, absorbed⟩ := due
  exact ⟨req, tokens, found, same ▸ emitted, absorbed⟩

/-- The row as the generator leaves it. -/
theorem Served.due {row : ActiveRequestState} (served : world.Served received o row) :
    world.Due received o { row with cache := row.cache ++ [row.lastToken] } := by
  obtain ⟨req, found, tokens, emitted, absorbed⟩ := served
  exact ⟨req, tokens, found, ⟨emitted.received, emitted.events, emitted.promptLen,
    emitted.maxTokens, emitted.policy, emitted.generated,
    emitted.decision, emitted.left, emitted.sofar⟩, absorbed⟩

theorem Served.sample {row : ActiveRequestState} (served : world.Served received o row) :
    world.sample row.cache row.lastToken row.nextDecodePosition =
      world.next (row.cache ++ [row.lastToken]) := by
  obtain ⟨req, -, serving⟩ := served
  rw [World.sample, if_pos serving.position.symm]

theorem Handled.nil : world.Handled received o [] o [] :=
  ⟨.slnil, fun _ member => absurd member List.not_mem_nil, fun _ member => absurd member List.not_mem_nil,
    fun _ member => absurd member List.not_mem_nil, .refl o, fun _ _ => rfl⟩

/-- The generator has been called before the rows are handled. -/
theorem Handled.call {call : GeneratorCall}
    (handled : world.Handled received { o with calls := o.calls ++ [call] } keys o' survivors) :
    world.Handled received o keys o' survivors :=
  ⟨handled.kept, handled.served, handled.closed, handled.told,
    (Outside.Leads.call o call).trans handled.leads, handled.frame⟩

theorem Handled.append (first : world.Handled received o keys o' survivors)
    (second : world.Handled received o' keys' o'' survivors')
    (apart : ∀ n ∈ keys.map Prod.snd, n ∉ keys'.map Prod.snd) :
    world.Handled received o (keys ++ keys') o'' (survivors ++ survivors') := by
  have inside : ∀ row ∈ survivors, row.2.tokenTx ∈ keys.map Prod.snd := fun row member =>
    List.mem_map.mpr ⟨rowKey row, first.kept.subset (List.mem_map_of_mem member), rfl⟩
  have inside' : ∀ row ∈ survivors', row.2.tokenTx ∉ keys.map Prod.snd := fun row member here =>
    apart _ here (List.mem_map.mpr ⟨rowKey row, second.kept.subset (List.mem_map_of_mem member), rfl⟩)
  refine ⟨?_, ?_, ?_, ?_, first.leads.trans second.leads, ?_⟩
  · rw [List.map_append]
    exact first.kept.append second.kept
  · intro row member
    rcases List.mem_append.mp member with early | late
    · exact (first.served row early).congr (second.frame _ (apart _ (inside row early)))
    · exact second.served row late
  · intro key member out
    rw [List.map_append, List.mem_append, not_or] at out
    rcases List.mem_append.mp member with early | late
    · exact (first.closed key early out.1).congr
        (second.frame _ (apart _ (List.mem_map_of_mem early))) second.leads
    · exact second.closed key late out.2
  · intro row member
    rcases List.mem_append.mp member with early | late
    · rw [second.frame _ (apart _ (inside row early))]
      exact first.told row early
    · rw [← first.frame _ (inside' row late)]
      exact second.told row late
  · intro n out
    rw [List.map_append, List.mem_append, not_or] at out
    rw [second.frame n out.2, first.frame n out.1]

/-- The rows later in a list keep their clients while an earlier row is handled. -/
theorem apart_of_nodup {row : Nat × ActiveRequestState} {rows : List (Nat × ActiveRequestState)}
    (distinct : ((row :: rows).map fun row => row.2.tokenTx).Nodup) :
    (∀ other ∈ rows, other.2.tokenTx ≠ row.2.tokenTx) ∧ (rows.map fun row => row.2.tokenTx).Nodup ∧
      ∀ n ∈ [rowKey row].map Prod.snd, n ∉ (rows.map rowKey).map Prod.snd := by
  rw [List.map_cons] at distinct
  obtain ⟨out, rest⟩ := List.nodup_cons.mp distinct
  refine ⟨fun other member same => out (same ▸ List.mem_map_of_mem member), rest, fun n member => ?_⟩
  rw [List.mem_singleton.mp member, List.map_map]
  exact out

variable (world received)

theorem handled_emit (row : Nat × ActiveRequestState) (due : world.Due received o row.2) :
    ∃ o' row' done, world.emitTokenOrFinish o row.2 (world.next row.2.cache) = (o', row', done) ∧
      o'.calls = o.calls ∧
      world.Handled received o [rowKey row] o' (if done = true then [] else [(row.1, row')]) := by
  obtain ⟨req, tokens, found, emitted, absorbed⟩ := due
  obtain ⟨o', row', done, step, same, calls, leads, frame, ends, goes⟩ :=
    emitTokenOrFinish_spec emitted absorbed
  have elsewhere : ∀ n, n ∉ [rowKey row].map Prod.snd → o'.sinks n = o.sinks n := fun n out =>
    frame n fun clash => out (List.mem_singleton.mpr clash)
  refine ⟨o', row', done, step, calls, ?_⟩
  cases done with
  | true =>
    refine ⟨List.nil_sublist _, fun _ member => absurd member List.not_mem_nil, ?_,
      fun _ member => absurd member List.not_mem_nil,
      leads, elsewhere⟩
    intro key member _
    rw [List.mem_singleton.mp member]
    exact ⟨req, found, ends rfl⟩
  | false =>
    obtain ⟨serving, told⟩ := goes rfl
    refine ⟨?_, ?_, ?_, ?_, leads, elsewhere⟩
    · rw [if_neg (by decide), List.map_singleton, rowKey, same]
    · intro other member
      rw [if_neg (by decide), List.mem_singleton] at member
      subst member
      refine ⟨req, same ▸ found, ?_⟩
      dsimp only
      rw [same]
      exact serving
    · intro key member out
      rw [List.mem_singleton.mp member] at out
      rw [if_neg (by decide), List.map_singleton, same] at out
      exact absurd List.mem_cons_self out
    · intro other member
      rw [if_neg (by decide), List.mem_singleton] at member
      subst member
      dsimp only
      rw [same]
      exact told

theorem applyDecodedTokensToRows_spec (rows : List (Nat × ActiveRequestState))
    (due : ∀ row ∈ rows, world.Due received o row.2)
    (distinct : (rows.map fun row => row.2.tokenTx).Nodup) :
    ∃ o' survivors, world.applyDecodedTokensToRows o rows
      (rows.map fun row => world.next row.2.cache) = (o', survivors) ∧
      o'.calls = o.calls ∧ world.Handled received o (rows.map rowKey) o' survivors := by
  induction rows generalizing o with
  | nil => exact ⟨o, [], rfl, rfl, .nil⟩
  | cons row rows ih =>
    obtain ⟨others, distinct', apart⟩ := apart_of_nodup distinct
    obtain ⟨o₁, row', done, step, calls, here⟩ := handled_emit world received row (due row List.mem_cons_self)
    obtain ⟨o₂, survivors, rest, calls', later⟩ := ih (o := o₁) (fun other member =>
      (due other (List.mem_cons_of_mem _ member)).congr (here.frame _ fun clash =>
        others other member (List.mem_singleton.mp clash))) distinct'
    have both := here.append later apart
    obtain ⟨idx, state⟩ := row
    rw [List.map_cons, applyDecodedTokensToRows, step]
    dsimp only
    rw [rest]
    refine ⟨o₂, _, rfl, calls'.trans calls, ?_⟩
    cases done with
    | true => exact both
    | false => exact both

theorem retireRowsWithError_spec (message : String) (rows : List (Nat × ActiveRequestState))
    (served : ∀ row ∈ rows, world.Served received o row.2)
    (hurt : ∀ row ∈ rows, ¬ world.MeetsNoFailure o row.2.tokenTx)
    (distinct : (rows.map fun row => row.2.tokenTx).Nodup) :
    (world.retireRowsWithError o message rows).calls = o.calls ∧
      world.Handled received o (rows.map rowKey) (world.retireRowsWithError o message rows) [] := by
  induction rows generalizing o with
  | nil => exact ⟨rfl, .nil⟩
  | cons row rows ih =>
    obtain ⟨others, distinct', apart⟩ := apart_of_nodup distinct
    obtain ⟨req, found, tokens, emitted, -⟩ := served row List.mem_cons_self
    have frame : ∀ n, n ≠ row.2.tokenTx → (world.emitError o row.2 message).sinks n = o.sinks n :=
      fun n apart => send_sinks_other apart
    have here : world.Handled received o [rowKey row] (world.emitError o row.2 message) [] := by
      refine ⟨List.nil_sublist _, fun _ member => absurd member List.not_mem_nil, ?_,
        fun _ member => absurd member List.not_mem_nil,
        leads_send, fun n out => frame n fun clash => out (List.mem_singleton.mpr clash)⟩
      intro key member _
      rw [List.mem_singleton.mp member]
      exact ⟨req, found, emitError_answered emitted (hurt row List.mem_cons_self) message⟩
    obtain ⟨calls, later⟩ := ih (o := world.emitError o row.2 message) (fun other member =>
      (served other (List.mem_cons_of_mem _ member)).congr (frame _ (others other member)))
      (fun other member clean => hurt other (List.mem_cons_of_mem _ member)
        (clean.before leads_send)) distinct'
    exact ⟨calls.trans send_calls, here.append later apart⟩

/-- What the generator is to be asked for a row. -/
abbrev rowCall (row : ActiveRequestState) : Token × Nat × DecodeCache :=
  (row.lastToken, row.nextDecodePosition, row.cache)

/-- The call a group of rows is decoded by. -/
def batchCall (position : Nat) (rows : List (Nat × ActiveRequestState)) : GeneratorCall :=
  .decodeNextTokensBatch (rows.map fun row => row.2.tokenTx)
    (rows.map fun row => row.2.lastToken) position (rows.map fun row => row.2.cache)

theorem batchCall_rows (rows : List (Nat × ActiveRequestState)) (position : Nat)
    (own : ∀ row ∈ rows, row.2.nextDecodePosition = position) :
    (batchCall position rows).rows = rows.map fun row => rowCall row.2 := by
  rw [batchCall, GeneratorCall.rows, List.zip_map', List.map_map]
  refine List.map_congr_left fun row member => ?_
  rw [rowCall, own row member]
  rfl

/-- A batch call that is fulfilled for a row of it returns a token for each of its rows. -/
theorem batchCall_fulfils {position : Nat} {rows : List (Nat × ActiveRequestState)} {n : Nat}
    (mine : n ∈ rows.map fun row => row.2.tokenTx)
    (clean : world.MeetsNoFailure { o with calls := o.calls ++ [batchCall position rows] } n) :
    ∃ tokens, world.batch o.calls.length (rows.map fun row =>
      world.sample row.2.cache row.2.lastToken position) = .ok tokens ∧
      tokens.length = rows.length := by
  obtain ⟨tokens, result, length⟩ := clean.called mine
  rw [List.zipWith_map, List.zipWith_self] at result
  exact ⟨tokens, result, length.trans (List.length_map _)⟩

/-- A batch that fails, or is cut, has failed each of its rows. -/
theorem batchCall_retired {position : Nat} {rows : List (Nat × ActiveRequestState)} (message : String)
    (served : ∀ row ∈ rows, world.Served received o row.2)
    (distinct : (rows.map fun row => row.2.tokenTx).Nodup)
    (failed : ∀ tokens, world.batch o.calls.length (rows.map fun row =>
      world.sample row.2.cache row.2.lastToken position) = .ok tokens → tokens.length ≠ rows.length) :
    (world.retireRowsWithError { o with calls := o.calls ++ [batchCall position rows] } message rows).calls =
        o.calls ++ [batchCall position rows] ∧
      world.Handled received o (rows.map rowKey)
        (world.retireRowsWithError { o with calls := o.calls ++ [batchCall position rows] }
          message rows) [] := by
  have hurt : ∀ row ∈ rows, ¬ world.MeetsNoFailure
      { o with calls := o.calls ++ [batchCall position rows] } row.2.tokenTx := by
    intro row member clean
    obtain ⟨tokens, result, length⟩ := batchCall_fulfils world (List.mem_map.mpr ⟨row, member, rfl⟩) clean
    exact failed tokens result length
  obtain ⟨calls, handled⟩ := retireRowsWithError_spec world received
    (o := { o with calls := o.calls ++ [batchCall position rows] }) message rows served hurt distinct
  exact ⟨calls, handled.call⟩

theorem decodeBatchGroup_spec (position : Nat) (rows : List (Nat × ActiveRequestState))
    (own : ∀ row ∈ rows, row.2.nextDecodePosition = position)
    (served : ∀ row ∈ rows, world.Served received o row.2)
    (distinct : (rows.map fun row => row.2.tokenTx).Nodup) :
    ∃ o' survivors, world.decodeBatchGroup o position rows = (o', survivors) ∧
      o'.calls = o.calls ++ [batchCall position rows] ∧
      world.Handled received o (rows.map rowKey) o' survivors := by
  have sampled : (rows.map fun row => world.sample row.2.cache row.2.lastToken position) =
      (rows.map fun row => (row.1, { row.2 with cache := row.2.cache ++ [row.2.lastToken] })).map
        fun row => world.next row.2.cache := by
    rw [List.map_map]
    refine List.map_congr_left fun row member => ?_
    rw [← own row member, (served row member).sample]
    rfl
  unfold decodeBatchGroup
  dsimp only
  split
  · next nextTokens result =>
    split
    · next length =>
      have whole := world.batch_whole _ _ _ result (by rw [length, List.length_map])
      have keys : (rows.map fun row =>
          (row.1, { row.2 with cache := row.2.cache ++ [row.2.lastToken] })).map rowKey =
            rows.map rowKey := by
        rw [List.map_map]
        rfl
      obtain ⟨o', survivors, step, calls, handled⟩ := applyDecodedTokensToRows_spec world received
        (o := { o with calls := o.calls ++ [batchCall position rows] })
        (rows.map fun row => (row.1, { row.2 with cache := row.2.cache ++ [row.2.lastToken] })) (by
          intro row member
          obtain ⟨old, known, rfl⟩ := List.mem_map.mp member
          exact (served old known).due) (by
          rw [List.map_map]
          exact distinct)
      rw [keys] at handled
      rw [batchCall] at step
      rw [whole, sampled, step]
      exact ⟨o', survivors, rfl, calls, handled.call⟩
    · next cut =>
      obtain ⟨calls, handled⟩ := batchCall_retired world received
        (s!"DeepSeek-V2-Lite batched decode returned {nextTokens.length} rows for {rows.length} " ++
          "active requests") served distinct (by
          intro tokens got
          obtain rfl := Except.ok.inj (result.symm.trans got)
          exact cut)
      exact ⟨_, [], rfl, calls, handled⟩
  · next err result =>
    obtain ⟨calls, handled⟩ := batchCall_retired world received
      s!"DeepSeek-V2-Lite batched decode failed for {rows.length} active requests: {err}" served distinct (by
        intro tokens got
        rw [result] at got
        cases got)
    exact ⟨_, [], rfl, calls, handled⟩

theorem decodeSingleRow_spec (row : Nat × ActiveRequestState) (served : world.Served received o row.2) :
    ∃ o' survivor call, world.decodeSingleRow o row = (o', survivor) ∧
      o'.calls = o.calls ++ [call] ∧ call.rows = [rowCall row.2] ∧
      world.Handled received o [rowKey row] o' survivor.toList := by
  have sampled := served.sample
  unfold decodeSingleRow
  dsimp only
  split
  · next err failed =>
    obtain ⟨calls, handled⟩ := retireRowsWithError_spec world received
      (o := { o with
        calls := o.calls ++ [.decodeNextToken row.2.tokenTx row.2.lastToken
          row.2.nextDecodePosition row.2.cache] }) err [row]
      (fun other member => by
        rw [List.mem_singleton.mp member]
        exact served)
      (fun other member clean => by
        rw [List.mem_singleton.mp member] at clean
        have fine : world.fails o.calls.length = none := clean.called (List.mem_singleton.mpr rfl)
        rw [fine] at failed
        cases failed) (List.nodup_singleton _)
    exact ⟨_, none, _, rfl, calls, rfl, handled.call⟩
  · obtain ⟨o', row', done, step, calls, handled⟩ := handled_emit world received
      (o := { o with
        calls := o.calls ++ [.decodeNextToken row.2.tokenTx row.2.lastToken
          row.2.nextDecodePosition row.2.cache] })
      (row.1, { row.2 with cache := row.2.cache ++ [row.2.lastToken] }) served.due
    rw [sampled, step]
    cases done with
    | true => exact ⟨o', none, _, rfl, calls, rfl, handled.call⟩
    | false => exact ⟨o', some (row.1, row'), _, rfl, calls, rfl, handled.call⟩

theorem decodeGroups_spec (groups : List DecodePositionGroup)
    (own : ∀ group ∈ groups, ∀ row ∈ group.rows, row.2.nextDecodePosition = group.position)
    (served : ∀ row ∈ groups.flatMap DecodePositionGroup.rows, world.Served received o row.2)
    (distinct : ((groups.flatMap DecodePositionGroup.rows).map fun row => row.2.tokenTx).Nodup) :
    ∃ o' survivors calls, world.decodeGroups o groups = (o', survivors) ∧ o'.calls = o.calls ++ calls ∧
      calls.flatMap GeneratorCall.rows =
        (groups.flatMap DecodePositionGroup.rows).map (fun row => rowCall row.2) ∧
      world.Handled received o ((groups.flatMap DecodePositionGroup.rows).map rowKey) o' survivors := by
  induction groups generalizing o with
  | nil => exact ⟨o, [], [], rfl, (List.append_nil _).symm, rfl, .nil⟩
  | cons group groups ih =>
    rw [List.flatMap_cons] at served distinct ⊢
    rw [List.map_append] at distinct
    obtain ⟨mine, others, apart⟩ := List.nodup_append.mp distinct
    have apart' : ∀ n ∈ (group.rows.map rowKey).map Prod.snd,
        n ∉ ((groups.flatMap DecodePositionGroup.rows).map rowKey).map Prod.snd := by
      intro n here there
      rw [List.map_map] at here there
      exact apart n here n there rfl
    have ownGroup := own group List.mem_cons_self
    have servedGroup : ∀ row ∈ group.rows, world.Served received o row.2 :=
      fun row member => served row (List.mem_append_left _ member)
    have decoded : ∃ o₁ survivors calls,
      (∀ rest : Outside × List (Nat × ActiveRequestState), world.decodeGroups o₁ groups = rest →
        world.decodeGroups o (group :: groups) = (rest.1, survivors ++ rest.2)) ∧
          o₁.calls = o.calls ++ calls ∧
        calls.flatMap GeneratorCall.rows = (group.rows.map fun row => rowCall row.2) ∧
        world.Handled received o (group.rows.map rowKey) o₁ survivors := by
      by_cases several : 1 < group.rows.length
      · obtain ⟨o₁, survivors, step, calls, handled⟩ :=
          decodeBatchGroup_spec world received group.position group.rows ownGroup servedGroup mine
        have asked := batchCall_rows group.rows group.position ownGroup
        refine ⟨o₁, survivors, [batchCall group.position group.rows], fun rest later => ?_,
          calls, by simpa using asked, handled⟩
        rw [decodeGroups, if_pos several, step]
        dsimp only
        rw [later]
      · cases shape : group.rows with
        | nil =>
          refine ⟨o, [], [], fun rest later => ?_, (List.append_nil _).symm, rfl, .nil⟩
          rw [decodeGroups, if_neg several, shape]
          exact later
        | cons row more =>
          obtain rfl : more = [] := by
            rw [shape, List.length_cons] at several
            exact List.length_eq_zero_iff.mp (by omega)
          obtain ⟨o₁, survivor, call, step, calls, asked, handled⟩ :=
            decodeSingleRow_spec world received row (servedGroup row (by simp [shape]))
          refine ⟨o₁, survivor.toList, [call], fun rest later => ?_, calls, by simpa using asked, handled⟩
          rw [decodeGroups, if_neg several, shape]
          simp only [List.getLast?_singleton, step, later]
    obtain ⟨o₁, survivors, calls, step, before, asked, handled⟩ := decoded
    obtain ⟨o₂, survivors', calls', rest, after, asked', handled'⟩ := ih (o := o₁)
      (fun other member => own other (List.mem_cons_of_mem _ member))
      (fun row member => (served row (List.mem_append_right _ member)).congr (handled.frame _ fun here => by
        rw [List.map_map] at here
        exact apart _ here _ (List.mem_map_of_mem member) rfl)) others
    refine ⟨o₂, survivors ++ survivors', calls ++ calls',
      step _ rest, by rw [after, before, List.append_assoc], ?_, ?_⟩
    · rw [List.flatMap_append, asked, asked', List.map_append]
    · rw [List.map_append]
      exact handled.append handled' apart'

/-- What a round does with its rows: each is decoded once, and closed or served on, its client a
token further. -/
structure Decoded (o : Outside) (active : List ActiveRequestState) (o' : Outside)
    (active' : List ActiveRequestState) : Prop where
  calls : ∃ calls, o'.calls = o.calls ++ calls ∧ (calls.flatMap GeneratorCall.rows).Perm (active.map rowCall)
  order : (active'.map ActiveRequestState.tokenTx).Sublist (active.map ActiveRequestState.tokenTx)
  served : ∀ row ∈ active', world.Served received o' row
  closed : ∀ n ∈ active.map ActiveRequestState.tokenTx, n ∉ active'.map ActiveRequestState.tokenTx →
    world.Closed received o' n
  told : ∀ row ∈ active', ∃ token, (o'.sinks row.tokenTx).events =
    (o.sinks row.tokenTx).events ++ tokenEvents [token]
  leads : o.Leads o'
  frame : ∀ n, n ∉ active.map ActiveRequestState.tokenTx → o'.sinks n = o.sinks n

variable {world received}

/-- The rows of a round handled under their indices and put back. -/
theorem Handled.decoded {active : List ActiveRequestState} {keys : List (Nat × Nat)}
    {calls : List GeneratorCall}
    (handled : world.Handled received o keys o' survivors)
    (all : keys.Perm ((enumerateRows active).map rowKey))
    (made : o'.calls = o.calls ++ calls)
    (asked : (calls.flatMap GeneratorCall.rows).Perm (active.map rowCall)) :
    world.Decoded received o active o' (restoreSurvivingRows survivors) := by
  have subperm : (survivors.map rowKey).Subperm ((enumerateRows active).map rowKey) :=
    handled.kept.subperm.trans all.subperm
  have left : (restoreSurvivingRows survivors).Perm (survivors.map Prod.snd) :=
    (List.mergeSort_perm survivors _).map _
  have ids : (keys.map Prod.snd).Perm (active.map ActiveRequestState.tokenTx) := by
    have moved := all.map Prod.snd
    have whole : ((enumerateRows active).map rowKey).map Prod.snd =
        active.map ActiveRequestState.tokenTx := by
      conv_rhs => rw [← enumerateRows_snd active, List.map_map]
      rw [List.map_map]
      rfl
    rwa [whole] at moved
  refine ⟨⟨calls, made, asked⟩, restoreSurvivingRows_sublist subperm, ?_, ?_, ?_, handled.leads, ?_⟩
  · intro row member
    obtain ⟨tag, known, rfl⟩ := List.mem_map.mp (left.mem_iff.mp member)
    exact handled.served tag known
  · intro n member out
    obtain ⟨key, known, rfl⟩ := List.mem_map.mp (ids.mem_iff.mpr member)
    refine handled.closed key known fun kept => out ?_
    rw [(left.map ActiveRequestState.tokenTx).mem_iff, List.map_map]
    exact kept
  · intro row member
    obtain ⟨tag, known, rfl⟩ := List.mem_map.mp (left.mem_iff.mp member)
    exact handled.told tag known
  · exact fun n out => handled.frame n fun member => out (ids.mem_iff.mp member)

theorem commonDecodePosition_spec {active : List ActiveRequestState} {position : Nat}
    (common : commonDecodePosition active = some position) :
    ∀ row ∈ active, row.nextDecodePosition = position := by
  cases active with
  | nil => cases common
  | cons first rest =>
    rw [commonDecodePosition] at common
    split at common
    · next all =>
      obtain rfl := Option.some.inj common
      intro row member
      exact of_decide_eq_true (List.all_eq_true.mp all row member)
    · cases common

theorem decodeActive_spec (active : List ActiveRequestState)
    (served : ∀ row ∈ active, world.Served received o row)
    (distinct : (active.map ActiveRequestState.tokenTx).Nodup) :
    ∃ o' active', world.decodeActive o active = some (o', active') ∧
      world.Decoded received o active o' active' := by
  have enumerated : ∀ row ∈ enumerateRows active, row.2 ∈ active := fun row member => by
    rw [← enumerateRows_snd active]
    exact List.mem_map_of_mem member
  have calls : (enumerateRows active).map (fun row => rowCall row.2) = active.map rowCall := by
    conv_rhs => rw [← enumerateRows_snd active, List.map_map]
    rfl
  have ids : (enumerateRows active).map (fun row => row.2.tokenTx) =
      active.map ActiveRequestState.tokenTx := by
    conv_rhs => rw [← enumerateRows_snd active, List.map_map]
    rfl
  unfold decodeActive
  split
  · exact ⟨o, [], rfl, ⟨[], (List.append_nil _).symm, .nil⟩, .slnil,
      fun _ member => absurd member List.not_mem_nil,
      fun _ member => absurd member List.not_mem_nil, fun _ member =>
        absurd member List.not_mem_nil, .refl o, fun _ _ => rfl⟩
  · next row =>
    obtain ⟨o', survivor, call, step, made, asked, handled⟩ :=
      decodeSingleRow_spec world received (0, row) (served row List.mem_cons_self)
    have once : ([call].flatMap GeneratorCall.rows).Perm ([row].map rowCall) := by simp [asked]
    have alone : [rowKey (0, row)].Perm ((enumerateRows [row]).map rowKey) := .refl _
    have decoded := handled.decoded alone made once
    have restored : restoreSurvivingRows survivor.toList = survivor.toList.map Prod.snd := by
      cases survivor with
      | none => rw [Option.toList_none, restoreSurvivingRows, List.mergeSort_nil]
      | some row => rw [Option.toList_some, restoreSurvivingRows, List.mergeSort_singleton]
    rw [restored] at decoded
    rw [step]
    exact ⟨o', _, rfl, decoded⟩
  · split
    · next position common =>
      have asked := batchCall_rows (enumerateRows active) position fun row member =>
        commonDecodePosition_spec common row.2 (enumerated row member)
      obtain ⟨o', survivors, step, made, handled⟩ :=
        decodeBatchGroup_spec world received position (enumerateRows active)
        (fun row member => commonDecodePosition_spec common row.2 (enumerated row member))
        (fun row member => served row.2 (enumerated row member)) (by rwa [ids])
      rw [step]
      have once : ([batchCall position (enumerateRows active)].flatMap GeneratorCall.rows).Perm
          (active.map rowCall) := by
        rw [List.flatMap_singleton, asked, calls]
      exact ⟨o', _, rfl, handled.decoded (.refl _) made once⟩
    · obtain ⟨groups, taken, all, own⟩ := takeDecodePositionGroups_spec active
      obtain ⟨o', survivors, made_, step, made, asked, handled⟩ := decodeGroups_spec world received groups own
        (fun row member => served row.2 (enumerated row (all.mem_iff.mp member)))
        (((all.map fun row => row.2.tokenTx).nodup_iff).mpr (by rwa [ids]))
      simp only [taken, step]
      refine ⟨o', _, rfl, handled.decoded (all.map rowKey) made ?_⟩
      rw [asked, ← calls]
      exact all.map _

end World

end PegaInfer.DeepSeekV2Lite
