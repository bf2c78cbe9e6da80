import PegaInfer.Kvbm.Rows
import PegaInfer.KvStore.Delivered
import PegaInfer.KvStore.Floor

namespace PegaInfer.KvStore

open PegaInfer.Kvbm PegaInfer.Lib

variable {H : Type} [DecidableEq H] [SequenceHashing H]

/-- The operations that leave a request's output budget unspent. -/
def KvOp.Spares (op : KvOp) (seq : SchedulableSequence H) : Prop :=
  ∀ accepted, op = .applySpeculative accepted → seq.generatedTokens < seq.maxOutputTokens

theorem RequestKv.runOp_rowStep {seq seq' : SchedulableSequence H} {store store' : BlockStore H}
    {op : KvOp} {rest : Holding H}
    (wf : seq.Wf) (rows : seq.Rows) (ok : store.Ok (seq.holding + rest))
    (done : runOp seq store op = .ok (seq', store')) :
    seq.RowStep seq' (op.Spares seq') := by
  have always (step : seq.RowStep seq' True) : seq.RowStep seq' (op.Spares seq') :=
    ⟨step.rows, step.row, step.generated, step.budget, step.position, fun backed _ =>
      step.backed backed trivial⟩
  cases op with
  | matchAndAddPrefix =>
    obtain ⟨⟨_, _, _⟩, got, rfl, rfl⟩ := map_ok done
    exact always (.matched wf.pos rows got)
  | schedulePrefill numTokens => exact always (.schedulePrefill wf.settled rows ok done)
  | scheduleDecode => exact always (.scheduleDecode wf.pos wf.settled rows ok done)
  | scheduleSpeculative numDraftTokens => exact always (.scheduleSpeculative wf.settled rows ok done)
  | applyPrefill token => exact always (.applyPrefill wf rows done)
  | applyPrefillChunk => exact always (.applyPrefill wf rows done)
  | applyDecode token =>
    obtain ⟨⟨_, _, _⟩, got, rfl, rfl⟩ := map_ok done
    exact always (.applyDecode wf rows got)
  | applySpeculative accepted =>
    obtain ⟨⟨_, _, _⟩, got, rfl, rfl⟩ := map_ok done
    have step := SchedulableSequence.RowStep.applySpeculative wf rows got
    exact ⟨step.rows, step.row, step.generated, step.budget, step.position, fun backed spared =>
      step.backed backed (spared accepted rfl)⟩
  | revertSchedule => exact always (.revertSchedule wf.settled rows done)
  | padToBoundary =>
    obtain ⟨⟨_, _, _⟩, got, rfl, rfl⟩ := map_ok done
    exact always (.padTailBlock wf rows got)
  | adoptExternalPrefillAnchor =>
    obtain ⟨_, got, eq⟩ := map_ok done
    cases eq
    exact always (.adopt rows got)

namespace System

variable {s s' : System H} {a : Action} {k : Nat}

/-- Where the sequence of a request comes from in one move. -/
inductive Origin (s : System H) (a : Action) (k : Nat) (seq' : SchedulableSequence H) : Prop
  | fresh (prompt : List Token) (maxOutputTokens : Nat) (salt : Option SaltHash) (new_ : s.holders[k]? = none)
      (same : seq' = .new prompt maxOutputTokens s.pool.blockSize salt)
  | kept {request : RequestKv H} (atK : s.holders[k]? = some (.request request)) (same : seq' = request.seq)
  | called {request : RequestKv H} {op : KvOp} {store' : BlockStore H}
      (atK : s.holders[k]? = some (.request request))
      (call : a = .call k op) (done : RequestKv.runOp request.seq s.pool.store op = .ok (seq', store'))
  | released {request : RequestKv H} {store' : BlockStore H}
      (atK : s.holders[k]? = some (.request request)) (call : a = .release k)
      (done : request.seq.release s.pool.store = .ok (seq', store'))

omit [DecidableEq H] [SequenceHashing H] in
theorem set_cases {holders : List (Holder H)} {j : Nat} {new_ old holder : Holder H}
    (atJ : holders[j]? = some old)
    (atK : (holders.set j new_)[k]? = some holder) : j = k ∧ new_ = holder ∨ holders[k]? = some holder := by
  rw [List.getElem?_set] at atK
  split at atK
  · rename_i same
    rw [if_pos (List.getElem?_eq_some_iff.mp atJ).1] at atK
    exact Or.inl ⟨same, Option.some.inj atK⟩
  · exact Or.inr atK

omit [DecidableEq H] [SequenceHashing H] in
theorem append_cases {holders : List (Holder H)} {new_ holder : Holder H}
    (atK : (holders ++ [new_])[k]? = some holder) :
    holders[k]? = none ∧ new_ = holder ∨ holders[k]? = some holder := by
  rcases Nat.lt_or_ge k holders.length with old | past
  · rw [List.getElem?_append_left old] at atK
    exact Or.inr atK
  · rw [List.getElem?_append_right past] at atK
    have found := List.mem_of_getElem? atK
    exact Or.inl ⟨List.getElem?_eq_none past, (List.mem_singleton.mp found).symm⟩

theorem origin {request' : RequestKv H} (moved : Moved s a s')
    (atK : s'.holders[k]? = some (.request request')) :
    Origin s a k request'.seq := by
  have kept (same : s.holders[k]? = some (.request request')) : Origin s a k request'.seq := .kept same rfl
  have other {j : Nat} {new_ old : Holder H} (atJ : s.holders[j]? = some old)
      (kind : ∀ request, new_ ≠ .request request)
      (found : (s.holders.set j new_)[k]? = some (.request request')) : Origin s a k request'.seq := by
    rcases set_cases atJ found with ⟨-, same⟩ | old
    · exact absurd same (kind _)
    · exact kept old
  have beside {new_ : Holder H} (kind : ∀ request, new_ ≠ .request request)
      (found : (s.holders ++ [new_])[k]? = some (.request request')) : Origin s a k request'.seq := by
    rcases append_cases found with ⟨-, same⟩ | old
    · exact absurd same (kind _)
    · exact kept old
  cases moved with
  | newRequest prompt maxOutputTokens salt =>
    rcases append_cases atK with ⟨new_, same⟩ | old
    · cases same
      exact .fresh prompt maxOutputTokens salt new_ rfl
    · exact kept old
  | evictInactive => exact kept atK
  | admitAgain atJ admitted => exact kept atK
  | admitRead gate atJ fresh => exact kept atK
  | admitGranted gate atJ covered =>
    rcases set_cases atJ atK with ⟨rfl, same⟩ | old
    · cases same
      exact .kept atJ rfl
    · exact kept old
  | admitRefused gate atJ => exact kept atK
  | call atJ passes done =>
    rcases set_cases atJ atK with ⟨rfl, same⟩ | old
    · cases same
      exact .called atJ rfl done
    · exact kept old
  | callFailed atJ passes failed calm => exact kept atK
  | retire atJ owned =>
    rcases set_cases atJ atK with ⟨rfl, same⟩ | old
    · cases same
      exact .kept atJ (retire_unchanged _ _).2.2
    · exact kept old
  | release atJ retired owned done =>
    rcases set_cases atJ atK with ⟨rfl, same⟩ | old
    · cases same
      exact .released atJ rfl done
    · exact kept old
  | releaseFailed atJ failed => exact kept atK
  | dropRequest atJ retired owned => exact other atJ (by simp) atK
  | dropProbe atJ => exact other atJ (by simp) atK
  | dropReservation atJ => exact other atJ (by simp) atK
  | probe prompt salt => exact beside (by simp) atK
  | includeFinal atJ => exact other atJ (by simp) atK
  | truncate atJ => exact other atJ (by simp) atK
  | reserveRead gate => exact kept atK
  | reserveRefused gate => exact kept atK
  | reserveGranted gate above => exact kept atK
  | reserveFailed gate => exact kept atK
  | reserveTake gate alloc => exact beside (by simp) atK
  | @commit p r probe probe' ids pool atP atR done =>
    have there : (s.holders.set r .gone)[p]? ≠ none := by
      simpa using (List.getElem?_eq_some_iff.mp atP).1
    obtain ⟨old, atP'⟩ := Option.ne_none_iff_exists'.mp there
    rcases set_cases atP' atK with ⟨-, same⟩ | old
    · cases same
    · exact other atR (by simp) old

/-- Every request's row is in order. -/
def AllRows (s : System H) : Prop :=
  ∀ (k : Nat) (request : RequestKv H), s.holders[k]? = some (.request request) → request.seq.Rows

theorem AllRows.moved (ok : s.Ok) (all : s.AllRows) (moved : Moved s a s') : s'.AllRows := by
  intro k request' atK
  cases origin moved atK with
  | fresh prompt maxOutputTokens salt new_ same => exact same ▸ SchedulableSequence.Rows.new _ _ _ _
  | kept before same => exact same ▸ all k _ before
  | called before call done =>
    obtain ⟨rest, owned⟩ := ok.frame_at before
    exact (RequestKv.runOp_rowStep (ok.request_at before).1 (all k _ before) owned done).rows
  | released before call done =>
    have rows := all k _ before
    obtain ⟨idle, -, same⟩ := SchedulableSequence.release_cases done
    rw [same]
    refine ⟨rows.order, rows.aligned, rows.prefilling, rows.generating, fun busy => absurd idle busy, ?_⟩
    exact List.nodup_nil

theorem AllRows.run {actions : List Action} (ok : s.Ok) (all : s.AllRows)
    (ran : s.run actions = some s') : s'.AllRows := by
  induction actions generalizing s with
  | nil =>
    cases ran
    exact all
  | cons a actions ih =>
    obtain ⟨next, went, ran⟩ := Option.bind_eq_some_iff.mp ran
    have moved := step_moved went
    exact ih (ok.moved moved) (all.moved ok moved) ran

theorem moved_length (moved : Moved s a s') : s.holders.length ≤ s'.holders.length := by
  cases moved <;> simp [setHolder, setStore]

theorem run_snoc {actions : List Action} (ran : s.run (actions ++ [a]) = some s') :
    ∃ mid, s.run actions = some mid ∧ mid.step a = some s' := by
  induction actions generalizing s with
  | nil =>
    obtain ⟨next, went, rest⟩ := Option.bind_eq_some_iff.mp ran
    cases rest
    exact ⟨s, rfl, went⟩
  | cons b actions ih =>
    obtain ⟨next, went, rest⟩ := Option.bind_eq_some_iff.mp ran
    obtain ⟨mid, first, last⟩ := ih rest
    exact ⟨mid, Option.bind_eq_some_iff.mpr ⟨next, went, first⟩, last⟩

theorem run_length {actions : List Action} (ran : s.run actions = some s') :
    s.holders.length ≤ s'.holders.length := by
  induction actions generalizing s with
  | nil =>
    cases ran
    exact le_rfl
  | cons a actions ih =>
    obtain ⟨next, went, ran⟩ := Option.bind_eq_some_iff.mp ran
    exact (moved_length (step_moved went)).trans (ih ran)

/-- The move does not spend the output budget of a request with drafts to drop. -/
def SparesAt (a : Action) (k : Nat) (seq : SchedulableSequence H) : Prop :=
  ∀ accepted, a = .call k (.applySpeculative accepted) → seq.generatedTokens < seq.maxOutputTokens

/-- Where a request was before a move that releases it not, and what the move did to its row. -/
theorem rowStep {request' : RequestKv H} (ok : s.Ok) (all : s.AllRows) (moved : Moved s a s')
    (atK : s'.holders[k]? = some (.request request')) (unreleased : a ≠ .release k) :
    (s.holders[k]? = none ∧ request'.seq.Backed) ∨
      ∃ request, s.holders[k]? = some (.request request) ∧
        request.seq.RowStep request'.seq (SparesAt a k request'.seq) := by
  cases origin moved atK with
  | fresh prompt maxOutputTokens salt new_ same =>
    exact Or.inl ⟨new_, same ▸ SchedulableSequence.Backed.new _ _ _ _⟩
  | @kept request before same =>
    refine Or.inr ⟨request, before, ?_⟩
    rw [same]
    exact ⟨all k request before, Or.inl List.prefix_rfl, le_rfl, rfl, fun _ => le_rfl, fun backed _ => backed⟩
  | @called request op store' before call done =>
    obtain ⟨rest, owned⟩ := ok.frame_at before
    have step := RequestKv.runOp_rowStep (ok.request_at before).1 (all k request before) owned done
    refine Or.inr ⟨request, before, step.rows, step.row, step.generated, step.budget, step.position,
      fun backed spared => ?_⟩
    exact step.backed backed fun accepted same => spared accepted (by rw [call, same])
  | released before call done => exact absurd call unreleased

/-- Nothing in a run releases the request, and no drafts are dropped as its budget runs out. -/
structure Unspent (actions : List Action) (k : Nat) (seq : SchedulableSequence H) : Prop where
  unreleased : .release k ∉ actions
  spared : seq.generatedTokens < seq.maxOutputTokens ∨
    ∀ accepted, .call k (.applySpeculative accepted) ∉ actions

omit [DecidableEq H] [SequenceHashing H] in
theorem Unspent.before {actions : List Action} {seq seq' : SchedulableSequence H} {spared : Prop}
    (unspent : Unspent (actions ++ [a]) k seq') (step : seq.RowStep seq' spared) : Unspent actions k seq := by
  refine ⟨fun member => unspent.unreleased (List.mem_append_left _ member), ?_⟩
  have generated := step.generated
  have budget := step.budget
  rcases unspent.spared with open_ | none
  · exact Or.inl (by omega)
  · exact Or.inr fun accepted member => none accepted (List.mem_append_left _ member)

omit [DecidableEq H] [SequenceHashing H] in
theorem Unspent.last {actions : List Action} {seq' : SchedulableSequence H}
    (unspent : Unspent (actions ++ [a]) k seq') :
    a ≠ .release k ∧ SparesAt a k seq' := by
  have last : a ∈ actions ++ [a] := List.mem_append_right _ (List.mem_singleton_self a)
  refine ⟨fun same => unspent.unreleased (same ▸ last), fun accepted same => ?_⟩
  rcases unspent.spared with open_ | none
  · exact open_
  · exact absurd (same ▸ last) (none accepted)

theorem new_without {blockSize numBlocks : Nat} (made : System.new blockSize numBlocks = some s)
    (k : Nat) (request : RequestKv H) :
    s.holders[k]? ≠ some (.request request) := by
  obtain ⟨_, _, _, _, -, -, rfl⟩ := new_cases made
  intro found
  have member := List.mem_of_getElem? found
  simp at member

theorem backed_run {blockSize numBlocks : Nat} (pos : 0 < blockSize) {start : System H}
    (made : System.new blockSize numBlocks = some start) {actions : List Action}
    (ran : start.run actions = some s)
    {request : RequestKv H} (atK : s.holders[k]? = some (.request request))
    (unspent : Unspent actions k request.seq) :
    request.seq.Backed := by
  have ok := Ok.new pos made
  have none := new_without made
  induction actions using List.reverseRecOn generalizing s request with
  | nil =>
    cases ran
    exact absurd atK (none k request)
  | append_singleton actions a ih =>
    obtain ⟨mid, first, went⟩ := run_snoc ran
    have all : mid.AllRows := AllRows.run ok (fun k request found => absurd found (none k request)) first
    rcases rowStep (ok.run first) all (step_moved went) atK unspent.last.1
      with ⟨-, backed⟩ | ⟨before, found, step⟩
    · exact backed
    · exact step.backed (ih first found (unspent.before step)) unspent.last.2

/-- What leaves a request unspent in the end has left it unspent before. -/
theorem unspent_earlier (ok : s.Ok) (all : s.AllRows) {request : RequestKv H}
    (atK : s.holders[k]? = some (.request request))
    {before later : List Action} (ran : s.run later = some s') {request' : RequestKv H}
    (atK' : s'.holders[k]? = some (.request request')) (unspent : Unspent (before ++ later) k request'.seq) :
    Unspent before k request.seq := by
  induction later using List.reverseRecOn generalizing s' request' with
  | nil =>
    cases ran
    cases atK.symm.trans atK'
    rwa [List.append_nil] at unspent
  | append_singleton actions a ih =>
    obtain ⟨mid, first, went⟩ := run_snoc ran
    rw [← List.append_assoc] at unspent
    rcases rowStep (ok.run first) (all.run ok first) (step_moved went) atK' unspent.last.1
      with ⟨gone, -⟩ | ⟨between, found, step⟩
    · have long := run_length first
      have here := (List.getElem?_eq_some_iff.mp atK).1
      have past := List.getElem?_eq_none_iff.mp gone
      omega
    · exact ih first found (unspent.before step)

/-- The pages of the committed KV, place by place, along a run from a request that is backed. -/
theorem pages_run (ok : s.Ok) (all : s.AllRows) {request : RequestKv H}
    (atK : s.holders[k]? = some (.request request))
    (backed : request.seq.Backed) {actions : List Action} (ran : s.run actions = some s')
    {request' : RequestKv H}
    (atK' : s'.holders[k]? = some (.request request')) (unspent : Unspent actions k request'.seq) :
    request'.seq.Backed ∧ request.seq.kvPosition ≤ request'.seq.kvPosition ∧
      ∀ i < request.seq.kvPosition ⌈/⌉ s.pool.blockSize, request'.seq.pages[i]? = request.seq.pages[i]? := by
  induction actions using List.reverseRecOn generalizing s' request' with
  | nil =>
    cases ran
    cases atK.symm.trans atK'
    exact ⟨backed, le_rfl, fun _ _ => rfl⟩
  | append_singleton actions a ih =>
    obtain ⟨mid, first, went⟩ := run_snoc ran
    rcases rowStep (ok.run first) (all.run ok first) (step_moved went) atK' unspent.last.1
      with ⟨gone, -⟩ | ⟨before, found, step⟩
    · have long := run_length first
      have here := (List.getElem?_eq_some_iff.mp atK).1
      have past := List.getElem?_eq_none_iff.mp gone
      omega
    · obtain ⟨backedMid, position, same⟩ := ih first found (unspent.before step)
      have after := step.backed backedMid unspent.last.2
      have onward := step.position backedMid
      refine ⟨after, position.trans onward, fun i inside => ?_⟩
      have size : before.seq.blockSize = s.pool.blockSize :=
        ((ok.run first).request_at found).2.trans (run_blockSize first)
      have pos : 0 < before.seq.blockSize := size ▸ ok.pos
      have size' : request'.seq.blockSize = s.pool.blockSize :=
        (((ok.run first).moved (step_moved went)).request_at atK').2.trans (run_blockSize ran)
      have heldMid := (Nat.le_add_right _ _).trans backedMid.backed
      have heldAfter := (Nat.le_add_right _ _).trans after.backed
      rw [← same i inside]
      rw [← size] at inside
      have reach := SchedulableSequence.ceilDiv_mono pos position
      have reach' := SchedulableSequence.ceilDiv_mono pos onward
      rw [size', ← size] at heldAfter
      rcases step.row with grown | cut
      · obtain ⟨more, row⟩ := grown
        rw [← row, List.getElem?_append_left (by omega)]
      · obtain ⟨more, row⟩ := cut
        rw [← row, List.getElem?_append_left (by omega)]

/-- The page row of a scheduled step has a page for each block of its tokens and none twice, and
the pages of the committed KV stay in their places whatever the request and the others do, until
it is released or its budget is spent. -/
theorem page_rows_exact {blockSize numBlocks : Nat} (pos : 0 < blockSize) {start : System H}
    (made : System.new blockSize numBlocks = some start) {before : List Action}
    (ran : start.run before = some s)
    {request : RequestKv H} (atK : s.holders[k]? = some (.request request)) :
    (∀ n, 0 < n → n ≤ request.seq.state.scheduledTokens →
      (request.stepPageIndices n).length = (request.kvPosition + n) ⌈/⌉ blockSize ∧
        (request.stepPageIndices n).Nodup) ∧
    ∀ later s' (request' : RequestKv H), s.run later = some s' → s'.holders[k]? = some (.request request') →
      Unspent (before ++ later) k request'.seq → ∀ i < request.kvPosition ⌈/⌉ blockSize,
        ∃ page, request.seq.pages[i]? = some page ∧ request'.seq.pages[i]? = some page := by
  have fresh := Ok.new pos made
  have ok := fresh.run ran
  have all : s.AllRows := AllRows.run fresh (fun k request found =>
    absurd found (new_without made k request)) ran
  have size : s.pool.blockSize = blockSize := by
    obtain ⟨_, _, _, _, -, -, rfl⟩ := new_cases made
    exact run_blockSize ran
  have size' : request.seq.blockSize = blockSize := ((ok.request_at atK).2).trans size
  have rows := all k request atK
  refine ⟨fun n some_ within => ?_, fun later s' request' rest atK' unspent i inside => ?_⟩
  · have busy : request.seq.state ≠ .idle := by
      intro idle
      rw [idle, SequenceState.scheduledTokens] at within
      omega
    have covers := rows.covers busy
    have reserved := request.seq.state.scheduledTokens_le
    have reach : (request.kvPosition + n) ⌈/⌉ blockSize ≤
        (request.seq.kvPosition + request.seq.state.reserved) ⌈/⌉ blockSize :=
      SchedulableSequence.ceilDiv_mono pos (Nat.add_le_add_left (within.trans reserved) _)
    rw [size'] at covers
    refine ⟨?_, rows.distinct.sublist (List.take_sublist _ _)⟩
    rw [RequestKv.stepPageIndices, size', List.length_take]
    exact Nat.min_eq_left (reach.trans covers)
  · have backed := backed_run pos made ran atK (unspent_earlier ok all atK rest atK' unspent)
    have later_ : Unspent later k request'.seq :=
      ⟨fun member => unspent.unreleased (List.mem_append_right _ member),
        unspent.spared.imp_right fun none accepted member => none accepted (List.mem_append_right _ member)⟩
    obtain ⟨-, -, same⟩ := pages_run ok all atK backed rest atK' later_
    have held := (Nat.le_add_right _ _).trans backed.backed
    rw [size'] at held
    have found : request.seq.pages[i]? = some _ := List.getElem?_eq_getElem (inside.trans_le held)
    exact ⟨_, found, (same i (by rw [size]; exact inside)).trans found⟩

/-- Three drafts over pages of four: one accepted token later the third page is gone and the
first two stand. -/
theorem page_rows_exact_drafts : ∃ (s s' : System ChainKey) (request request' : RequestKv ChainKey),
    s.holders[1]? = some (.request request) ∧ s'.holders[1]? = some (.request request') ∧
      request.seq.pages.length = 3 ∧ request'.seq.pages.length = 2 ∧ (request.stepPageIndices 3).length = 2 ∧
      ∀ i < 2, ∃ page, request.seq.pages[i]? = some page ∧ request'.seq.pages[i]? = some page := by
  have shape : (do
      let start ← (System.new 4 8 : Option (System ChainKey))
      let s ← start.run [.newRequest [1, 2, 3, 4, 5] 4 none, .call 1 (.schedulePrefill 5),
        .call 1 (.applyPrefill 9),
        .call 1 (.scheduleSpeculative 3)]
      let s' ← s.run [.call 1 (.applySpeculative [7]), .call 1 .scheduleDecode, .call 1 .revertSchedule]
      let request ← s.requestAt 1
      let request' ← s'.requestAt 1
      some (request.kvPosition, request.seq.state.scheduledTokens, request.seq.pages.length,
        request'.seq.pages.length,
        request'.seq.generatedTokens, request'.seq.maxOutputTokens)) =
          some (5, 3, 3, 2, 2, 4) := by decide +kernel
  obtain ⟨start, made, shape⟩ := Option.bind_eq_some_iff.mp shape
  obtain ⟨s, ran, shape⟩ := Option.bind_eq_some_iff.mp shape
  obtain ⟨s', later, shape⟩ := Option.bind_eq_some_iff.mp shape
  obtain ⟨request, atK, shape⟩ := Option.bind_eq_some_iff.mp shape
  obtain ⟨request', atK', shape⟩ := Option.bind_eq_some_iff.mp shape
  simp only [Option.some.injEq, Prod.mk.injEq] at shape
  obtain ⟨position, scheduled, pages, pages', generated, budget⟩ := shape
  have found := requestAt_eq atK
  have found' := requestAt_eq atK'
  obtain ⟨exact_, stays⟩ := page_rows_exact (by decide) made ran found
  have row := (exact_ 3 (by decide) (by rw [scheduled])).1
  rw [position] at row
  have kept := stays _ s' request' later found' ⟨by decide, Or.inl (by rw [generated, budget]; decide)⟩
  rw [position] at kept
  exact ⟨s, s', request, request', found, found', pages, pages', row, kept⟩

end System

end PegaInfer.KvStore
