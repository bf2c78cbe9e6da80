import PegaInfer.Gemma4.Calm

namespace PegaInfer.Gemma4

open Frontend (RequestId LedgerCall Instant)

theorem grow_ge (n fuel power : Nat) (reach : n ≤ power * 2 ^ fuel) :
    n ≤ nextPowerOfTwo.grow n fuel power := by
  induction fuel generalizing power with
  | zero => simpa [nextPowerOfTwo.grow] using reach
  | succ fuel ih =>
    unfold nextPowerOfTwo.grow
    split
    · assumption
    · exact ih _ (by rw [Nat.mul_comm 2, Nat.mul_assoc, ← Nat.pow_succ']; exact reach)

theorem le_nextPowerOfTwo (n : Nat) : n ≤ nextPowerOfTwo n :=
  grow_ge n n 1 (by rw [Nat.one_mul]; exact Nat.lt_two_pow_self.le)

theorem settleStep_continues {window : Nat} {pools later : Pools} {kv moved : GemmaKv}
    (settled : settleStep window pools kv 1 = some (moved, later)) : Continues kv moved := by
  unfold settleStep at settled
  split at settled
  · cases settled
  · rename_i released
    cases settled
    unfold advanceAndRelease at released
    split at released
    · cases released
    · rename_i plan planned
      cases released
      unfold planRelease at planned
      dsimp only at planned
      split at planned
      · cases planned
      · split at planned
        · cases planned
        · cases planned
          exact ⟨rfl, ⟨[], by simp⟩, ⟨[], by simp⟩⟩

namespace Sched

variable (config : EngineConfig) (world : World)

/-- A launch whose tables were kept ran over its own batch's rows. -/
def Launch.Sound (launch : Launch) : Prop :=
  launch.kvs ≠ [] ∧ ∀ tables, launch.tables = some tables →
    (∃ count, Written config launch.kvs launch.padded count tables) ∧
    ∀ kv ∈ launch.kvs, checkStepBounds config.maxContext kv (kv.local_.frontier + 1) = true

/-- Every launch so far was sound, and a fingerprint is one of a batch. -/
structure Logged (s : Sched) : Prop where
  launches : ∀ launch ∈ s.launches, Launch.Sound config launch
  rows : ∀ steady, s.steady = some steady → 0 < steady.rows.length

/-- While the batch still has the fingerprint's rows, the tables are those of the last step after
its increment, and every row is the request it was. -/
structure Steadied (s : Sched) : Prop extends Logged config s where
  steady : ∀ steady, s.steady = some steady → s.active.length < steady.rows.length ∨
    ∃ kvs count tables, decodeFingerprint kvs steady.padded = some steady ∧
      Written config kvs steady.padded count tables ∧
      s.tables = tables.advance steady.padded config.globalSplitFactor ∧
        List.Forall₂ (fun kv (entry : Active) => Continues kv entry.seat.kv) kvs s.active

variable {config world} {s later : Sched}

theorem Logged.settles (logged : Logged config s) (calm : Calm s later) : Logged config later := by
  refine ⟨calm.launches ▸ logged.launches, fun steady now => ?_⟩
  rcases calm.arena with gone | ⟨same, -⟩
  · rw [gone] at now
    cases now
  · exact logged.rows steady (same ▸ now)

/-- Without rows there is nothing to keep up with. -/
theorem Logged.steadied (logged : Logged config s) (empty : s.active = []) : Steadied config s :=
  ⟨logged, fun steady now => .inl (by rw [empty]; exact logged.rows steady now)⟩

theorem fingerprint_length {kvs : List GemmaKv} {padded : Nat} {steady : SteadyDecode}
    (taken : decodeFingerprint kvs padded = some steady) :
    steady.rows.length = kvs.length ∧ steady.padded = padded := by
  obtain ⟨rows, mapped, rfl⟩ := Option.map_eq_some_iff.mp taken
  exact ⟨(forall₂_mapM mapped).length_eq.symm, rfl⟩

theorem continues_grown {kvs : List GemmaKv} {rows rows' : List Active}
    (continues : List.Forall₂ (fun kv (entry : Active) => Continues kv entry.seat.kv) kvs rows)
    (grown : RowsGrown rows rows') :
    List.Forall₂ (fun kv (entry : Active) => Continues kv entry.seat.kv) kvs rows' := by
  induction continues generalizing rows' with
  | nil =>
    cases grown
    exact .nil
  | cons head _ ih =>
    cases grown with
    | cons head' rest => exact .cons (head.grown head') (ih rest)

/-- What the invariant survives. -/
theorem Steadied.calm (steadied : Steadied config s) (calm : Calm s later) : Steadied config later := by
  refine ⟨steadied.toLogged.settles calm, fun steady now => ?_⟩
  rcases calm.arena with gone | ⟨same, tables, -, rows⟩
  · rw [gone] at now
    cases now
  · rw [same] at now
    have upper : later.active.length ≤ s.active.length := by
      rcases rows with fewer | grown
      · exact fewer.le
      · exact grown.length_eq.ge
    rcases steadied.steady steady now with fewer | ⟨kvs, count, before, taken, written, held, continues⟩
    · exact .inl (by omega)
    · rcases rows with fewer | grown
      · have length := continues.length_eq
        have rows := (fingerprint_length taken).1
        exact .inl (by omega)
      · exact .inr ⟨kvs, count, before, taken, written, tables.trans held, continues_grown continues grown⟩

theorem settleRows_continues {window : Nat} {pools pools' : Pools} {rows rows' : List Active}
    {tokens : List Token}
    (settled : settleRows window pools rows tokens = some (rows', pools')) :
    List.Forall₂ (fun entry (entry' : Active) => Continues entry.seat.kv entry'.seat.kv) rows rows' := by
  induction rows generalizing pools rows' tokens with
  | nil =>
    cases settled
    exact .nil
  | cons entry rest ih =>
    unfold settleRows at settled
    split at settled
    · cases settled
    · rename_i kv pools₁ moved
      split at settled
      · cases settled
      · rename_i rows₁ pools₂ rest_
        cases settled
        exact .cons (settleStep_continues moved) (ih rest_)

/-- A plan leaves the batch's fingerprint, or the one it found when it is refused. -/
theorem planDecodeBatch_steady (kvs : List GemmaKv) (padded : Nat) :
    (planDecodeBatch config s kvs padded).1 = decodeFingerprint kvs padded ∨
      (planDecodeBatch config s kvs padded).1 = s.steady ∧
        (planDecodeBatch config s kvs padded).2 = none := by
  unfold planDecodeBatch
  dsimp only
  split
  · split
    · exact .inl rfl
    · exact .inr ⟨rfl, rfl⟩
  · exact .inl rfl

/-- The tables a step reads are those of its batch, whichever branch wrote them. -/
theorem planDecodeBatch_written {tables : Tables} (steadied : Steadied config s) (nonempty : s.active ≠ [])
    (planned : (planDecodeBatch config s (s.active.map (·.seat.kv))
      (nextPowerOfTwo s.active.length)).2 = some tables) :
    (∃ count, Written config (s.active.map (·.seat.kv)) (nextPowerOfTwo s.active.length) count tables) ∧
      ∀ kv ∈ s.active.map (·.seat.kv), checkStepBounds config.maxContext kv
        (kv.local_.frontier + 1) = true := by
  unfold planDecodeBatch at planned
  dsimp only at planned
  split at planned
  · rename_i kept
    split at planned
    · rename_i bounds
      cases planned
      refine ⟨?_, List.all_eq_true.mp bounds⟩
      cases old : s.steady with
      | none => rw [old] at kept; cases kept
      | some current =>
        cases fresh : decodeFingerprint (s.active.map (·.seat.kv)) (nextPowerOfTwo s.active.length) with
        | none => rw [old, fresh] at kept; cases kept
        | some next =>
          rw [old, fresh] at kept
          have counted : current.rows.length = next.rows.length := by
            have same : current.advancesTo next = true := kept
            simp only [SteadyDecode.advancesTo, Bool.and_eq_true, beq_iff_eq] at same
            exact same.1.2
          have length := (fingerprint_length fresh).1
          rw [List.length_map] at length
          rcases steadied.steady current old
            with fewer | ⟨kvs, count, before, taken, written, held, continues⟩
          · omega
          · have some_ : kvs ≠ [] := by
              rintro rfl
              exact nonempty (List.forall₂_nil_left_iff.mp continues)
            have related : List.Forall₂ Continues kvs (s.active.map (·.seat.kv)) :=
              List.forall₂_map_right_iff.mpr continues
            rw [held]
            exact ⟨count + 1, written.advance taken fresh related some_ kept⟩
    · cases planned
  · obtain ⟨written, bounds⟩ := written_refill (by rw [List.length_map]; exact le_nextPowerOfTwo _) planned
    exact ⟨⟨0, written⟩, bounds⟩

theorem decodeBatchStep_logged {tokens : Option (List Token)} (steadied : Steadied config s) :
    (∀ later, s.decodeBatchStep config tokens = .error later → Logged config later ∧ later.walk = s.walk) ∧
      ∀ later, s.decodeBatchStep config tokens = .ok later → Steadied config later ∧ later.walk = s.walk := by
  unfold decodeBatchStep
  dsimp only
  by_cases outside : s.active.length = 0 ∨ config.arenaRows < s.active.length
  · rw [if_pos outside]
    refine ⟨fun later failed => ?_, fun later ok => (by cases ok)⟩
    cases failed
    exact ⟨steadied.toLogged, rfl⟩
  · rw [if_neg outside]
    have nonempty : s.active ≠ [] := fun empty => outside (.inl (by rw [empty]; rfl))
    have written := fun tables => @planDecodeBatch_written config s tables steadied nonempty
    have left_ := @planDecodeBatch_steady config s (s.active.map (·.seat.kv)) (nextPowerOfTwo s.active.length)
    generalize planDecodeBatch config s (s.active.map (·.seat.kv))
      (nextPowerOfTwo s.active.length) = planned at *
    obtain ⟨steady, plannedTables⟩ := planned
    have logged : ∀ launch ∈ s.launches ++ [(⟨s.active.map (·.seat.kv), nextPowerOfTwo s.active.length,
        regular s.steady (decodeFingerprint (s.active.map (·.seat.kv))
          (nextPowerOfTwo s.active.length)), plannedTables⟩ : Launch)],
        Launch.Sound config launch := by
      intro launch member
      rcases List.mem_append.mp member with old | new
      · exact steadied.launches launch old
      · obtain rfl := List.mem_singleton.mp new
        exact ⟨by simpa using nonempty, written⟩
    have rows : ∀ steady', steady = some steady' → 0 < steady'.rows.length := by
      intro steady' made
      rcases left_ with new | ⟨old, -⟩
      · rw [(fingerprint_length (new.symm.trans made)).1, List.length_map]
        exact List.length_pos_iff.mpr nonempty
      · exact steadied.rows steady' (old.symm.trans made)
    cases plannedTables with
    | none =>
      refine ⟨fun later failed => ?_, fun later ok => (by cases ok)⟩
      cases failed
      exact ⟨⟨logged, rows⟩, rfl⟩
    | some tables =>
      dsimp only
      split
      · refine ⟨fun later failed => ?_, fun later ok => (by cases ok)⟩
        cases failed
        exact ⟨⟨logged, rows⟩, rfl⟩
      · rename_i settled
        refine ⟨fun later failed => (by cases failed), fun later ok => ?_⟩
        cases ok
        refine ⟨⟨⟨logged, rows⟩, fun steady' made => .inr ?_⟩, rfl⟩
        rcases left_ with new | ⟨-, refused⟩
        · have taken := new.symm.trans made
          have padded := (fingerprint_length taken).2
          obtain ⟨⟨count, written⟩, -⟩ := written tables rfl
          exact ⟨s.active.map (·.seat.kv), count, tables, padded ▸ taken, padded ▸ written, by rw [padded],
            List.forall₂_map_left_iff.mpr (settleRows_continues settled)⟩
        · cases refused

/-- Steadied, with the walk `walk` in place. -/
def SteadyWith (config : EngineConfig) (walk : Option Walk) (s : Sched) : Prop :=
  Steadied config s ∧ s.walk = walk

theorem SteadyWith.settles {walk : Option Walk} (steady : SteadyWith config walk s)
    (settles : Settles s later) :
    SteadyWith config walk later :=
  ⟨steady.1.calm settles.toCalm, settles.walk.trans steady.2⟩

/-- A property is kept by what goes on only after a step that returned. -/
theorem next_keeps {P : Sched → Prop} {rest : Sched → Sched} (holds : P s)
    (goesOn : P s → P (rest s)) : P (s.next rest) := by
  unfold Sched.next
  split
  · exact holds
  · exact goesOn holds

theorem batchFatal_steady {walk : Option Walk} (logged : Logged config s)
    (same : s.walk = walk) (message : String) :
    SteadyWith config walk (s.batchFatal message) :=
  ⟨(logged.settles (settles_batchFatal s message).toCalm).steadied rfl,
    (settles_batchFatal s message).walk.trans same⟩

theorem launchStaged_steady {walk : Option Walk} (steady : SteadyWith config walk s)
    (resident : Bool) (slot : Nat) :
    (∀ later, s.launchStaged config world resident slot = .error later →
      Logged config later ∧ later.walk = walk) ∧
      ∀ later, s.launchStaged config world resident slot = .ok later → SteadyWith config walk later := by
  unfold launchStaged
  have stepped := @decodeBatchStep_logged config s (if resident then none
    else some (s.active.map (·.next))) steady.1
  split
  · rename_i later failed
    refine ⟨fun later' same => ?_, fun later' ok => (by cases ok)⟩
    cases same
    exact ⟨(stepped.1 later failed).1, (stepped.1 later failed).2.trans steady.2⟩
  · rename_i later ran
    refine ⟨fun later' failed => (by cases failed), fun later' ok => ?_⟩
    cases ok
    obtain ⟨steadied, walk⟩ := stepped.2 later ran
    exact ⟨⟨⟨steadied.launches, steadied.rows⟩, steadied.steady⟩, walk.trans steady.2⟩

theorem decodeRoundCollect_steady {walk : Option Walk} (steady : SteadyWith config walk s) :
    SteadyWith config walk (s.decodeRoundCollect config world) := by
  have stepped := @decodeBatchStep_logged config s (some (s.active.map (·.next))) steady.1
  unfold decodeRoundCollect
  split
  · rename_i later failed
    obtain ⟨logged, same⟩ := stepped.1 later failed
    exact batchFatal_steady logged (same.trans steady.2) _
  · rename_i later ran
    obtain ⟨steadied, same⟩ := stepped.2 later ran
    have here : SteadyWith config walk later := ⟨steadied, same.trans steady.2⟩
    exact here.settles (settles_emitActive world later)

theorem decodeRoundFresh_steady {walk : Option Walk} (steady : SteadyWith config walk s) :
    SteadyWith config walk (s.decodeRoundFresh config world) := by
  have ready := steady.settles (settles_readyDecodeRows world s)
  unfold decodeRoundFresh
  dsimp only
  split
  · exact ready
  · refine next_keeps (ready.settles (Aside.requireOpen _ _).settles) fun ready => ?_
    split
    · have launched := @launchStaged_steady config world _ walk ready false 0
      split
      · rename_i later failed
        obtain ⟨logged, same⟩ := launched.1 later failed
        exact batchFatal_steady logged same _
      · rename_i later ran
        obtain ⟨steadied, same⟩ := launched.2 later ran
        exact ⟨⟨⟨steadied.launches, steadied.rows⟩, steadied.steady⟩, same⟩
    · exact decodeRoundCollect_steady ready

theorem decodeRoundDrained_steady {walk : Option Walk} (steady : SteadyWith config walk s) :
    SteadyWith config walk (s.decodeRoundDrained config world) := by
  unfold decodeRoundDrained
  refine next_keeps (steady.settles (settles_drainPipeline world s)) fun drained => ?_
  split
  · exact drained
  · exact decodeRoundFresh_steady drained

theorem decodeRoundStaged_steady {walk : Option Walk} (steady : SteadyWith config walk s)
    (pending : PendingDecode) :
    SteadyWith config walk (s.decodeRoundStaged config world pending) := by
  have launched := @launchStaged_steady config world s walk steady true ((pending.slot + 1) % 2)
  unfold decodeRoundStaged
  dsimp only
  split
  · rename_i later failed
    obtain ⟨logged, same⟩ := launched.1 later failed
    have collected := @settles_collectPending world later pending
    split
    · rename_i collected' wrong
      obtain rfl := collected.1 _ wrong
      exact batchFatal_steady logged same _
    · rename_i collected' ok
      have settles := collected.2 _ ok
      exact batchFatal_steady (logged.settles settles.toCalm) (settles.walk.trans same) _
  · rename_i later ran
    have here := launched.2 later ran
    have collected := @settles_collectPending world later pending
    split
    · rename_i collected' wrong
      obtain rfl := collected.1 _ wrong
      exact batchFatal_steady here.1.toLogged here.2 _
    · rename_i collected' ok
      obtain ⟨steadied, same⟩ := here.settles (collected.2 _ ok)
      exact ⟨⟨⟨steadied.launches, steadied.rows⟩, steadied.steady⟩, same⟩

theorem decodeRound_steady {walk : Option Walk} (steady : SteadyWith config walk s) :
    SteadyWith config walk (s.decodeRound config world) := by
  unfold decodeRound
  split
  · exact decodeRoundFresh_steady steady
  · rename_i pending _
    refine next_keeps (steady.settles (Aside.requireOpen _ _).settles) fun ready => ?_
    split
    · dsimp only
      generalize s.requireOpen s.eligibleAsks = s at *
      have moved : Settles s { s with pipeline := none } :=
        .of_fewer rfl rfl rfl rfl (.inr (RowsGrown.refl _))
      have pinned := moved.trans ((Aside.pinRows world s.active { s with pipeline := none }).settles_rows
        (.inr (rowsGrown_pinRows world s.active { s with pipeline := none })))
      refine next_keeps (ready.settles pinned) fun held => ?_
      split
      · exact decodeRoundStaged_steady held pending
      · refine decodeRoundDrained_steady (held.settles (.of_fewer rfl rfl rfl rfl (.inr (RowsGrown.refl _))))
    · exact decodeRoundDrained_steady ready

section

variable (config world)

theorem aside_passSingle {seat seat' : Seat} {tokens : List Token} {s later : Sched}
    (passed : s.passSingle config world seat tokens = some (seat', later)) : Aside s later := by
  unfold passSingle at passed
  split at passed
  · cases passed
  · split at passed
    · cases passed
      exact Aside.pools s _
    · cases passed

theorem idle_firstTokenFlow (s : Sched) (seat : Seat) : Idle s (s.firstTokenFlow world seat) :=
  idle_settleFirstToken world s seat _ _

/-- A solo admission drops the fingerprint before anything else. -/
theorem calm_admitSolo (s : Sched) (newcomer : Newcomer) : Calm s (s.admitSolo config world newcomer) := by
  have gone : Calm s { s with steady := none, newcomers := [] } := ⟨rfl, .inl rfl⟩
  refine gone.trans (Idle.calm ?_ rfl)
  have settled : ∀ stepped : Bool × Seat × Sched,
    Aside { s with steady := none, newcomers := [] } stepped.2.2 →
      Idle { s with steady := none, newcomers := [] }
        (if stepped.1 then
          (stepped.2.2.capturePrefix config stepped.2.1.kv newcomer.seat.request.promptTokens
            newcomer.resumed).firstTokenFlow world stepped.2.1
        else (stepped.2.2.dropSeat stepped.2.1).tell (.fail newcomer.seat.request.id "prefill failed")) := by
    intro stepped aside
    split
    · exact aside.idle.trans ((apart_capturePrefix config _ _ _ _).idle.trans (idle_firstTokenFlow world _ _))
    · exact (aside.trans ((Aside.dropSeat _ _).trans (Aside.tell _ _))).idle
  refine settled _ ?_
  split
  · exact aside_walkPlainPrompt config world _ _ _ _
  · split
    · exact .refl _
    · rename_i passed
      exact aside_passSingle config world passed

theorem calm_launchAsyncPrefill (s : Sched) (newcomer : Newcomer) :
    Calm s (s.launchAsyncPrefill config world newcomer) := by
  have out : Apart s { s with newcomers := [] } := ⟨rfl, rfl, rfl, rfl, rfl⟩
  unfold launchAsyncPrefill
  dsimp only
  split
  · exact Apart.calm ⟨rfl, rfl, rfl, rfl, rfl⟩
  · exact (out.trans ((Aside.dropSeat _ _).trans (Aside.tell _ _)).apart).calm

/-- The lane's join drops the fingerprint before the pipeline drains. -/
theorem calm_joinAsyncPrefill (s : Sched) : Calm s (s.joinAsyncPrefill config world) := by
  unfold joinAsyncPrefill
  split
  · exact (Settles.refl s).toCalm
  · have gone : Calm s { s with steady := none } := ⟨rfl, .inl rfl⟩
    have drained := gone.trans (settles_drainPipeline world { s with steady := none }).toCalm
    refine next_keeps drained fun drained => ?_
    have none_ : ({ s with steady := none } : Sched).steady = none := rfl
    have fresh := (settles_drainPipeline world { s with steady := none }).toCalm.steady_none none_
    generalize ({ s with steady := none } : Sched).drainPipeline world = s' at *
    split
    · exact drained
    · rename_i inflight _
      refine drained.trans (Idle.calm ?_ fresh)
      have out : Idle s' { s' with inflight := none } := ⟨rfl, id⟩
      refine out.trans ?_
      have probe := Aside.isAborted world { s' with inflight := none } inflight.seat.request.id
      dsimp only
      split
      · exact ((probe.trans (Aside.tell _ _)).trans (Aside.dropSeat _ _)).idle
      · split
        · exact ((probe.trans (Aside.tell _ _)).trans (Aside.dropSeat _ _)).idle
        · split
          · exact ((probe.trans (Aside.tell _ _)).trans (Aside.dropSeat _ _)).idle
          · rename_i kv pools _
            exact (probe.trans (Aside.pools _ pools)).idle.trans
              ((apart_capturePrefix config _ _ _ _).idle.trans (idle_firstTokenFlow world _ _))

theorem idle_settleNewcomers (newcomers : List Newcomer) (s : Sched) :
    Idle s (settleNewcomers world newcomers s) := by
  induction newcomers generalizing s with
  | nil => exact .refl s
  | cons newcomer rest ih => exact (idle_firstTokenFlow world s newcomer.seat).trans (ih _)

theorem apart_failNewcomers (s : Sched) (message : String) : Apart s (s.failNewcomers message) := by
  have aside : Aside s (s.newcomers.foldl (fun s newcomer =>
      (s.failIfActive newcomer.seat.request.id message).dropSeat newcomer.seat) s) :=
    Aside.foldl (fun s (newcomer : Newcomer) =>
      (Aside.failIfActive s newcomer.seat.request.id message).trans
        (Aside.dropSeat _ newcomer.seat)) _ s
  exact ⟨aside.launches, aside.steady, aside.tables, aside.walk, aside.active⟩

theorem idle_mixedAdmission (s : Sched) : Idle s (s.mixedAdmission config world) := by
  unfold mixedAdmission
  split
  · exact ⟨rfl, id⟩
  · dsimp only
    have mixed := mixedPrefillDecodeStep_calm config world s (s.newcomers.map fun newcomer =>
      (newcomer.seat, newcomer.seat.request.promptTokens.drop newcomer.seat.kv.local_.frontier))
    split
    · rename_i later failed
      obtain ⟨launches, gone⟩ := mixed.1 later failed
      have here : Idle s later := ⟨launches, fun _ => gone⟩
      exact here.trans ((settles_failActiveBatch later _).toCalm.idle.trans
        ((apart_failNewcomers _ _).idle.trans (Aside.halt _ _).idle))
    · rename_i seats later ran
      obtain ⟨launches, gone⟩ := mixed.2 seats later ran
      have captured : ∀ newcomers : List Newcomer, Apart { later with newcomers }
          (newcomers.foldl (fun s newcomer =>
            s.capturePrefix config newcomer.seat.kv newcomer.seat.request.promptTokens newcomer.resumed)
            { later with newcomers }) :=
        fun newcomers => Apart.foldl (fun s (newcomer : Newcomer) =>
          apart_capturePrefix config s _ _ _) newcomers _
      have here : ∀ newcomers, Idle s { later with newcomers } := fun _ => ⟨launches, fun _ => gone⟩
      refine (here _).trans ((captured _).idle.trans ((Aside.requireOpen _ _).idle.trans (.next ?_)))
      refine Idle.trans ?_ (idle_settleNewcomers world _ _)
      exact (settles_emitDecodeRows world _ _).toCalm.idle.trans ⟨rfl, id⟩

theorem idle_gather (fuel rowsBudget attempts : Nat) (s : Sched) :
    Idle s (s.gather config world fuel rowsBudget attempts).2 := by
  induction fuel generalizing rowsBudget attempts s with
  | zero => exact .refl s
  | succ fuel ih =>
    unfold gather
    split
    · split
      · exact .refl s
      · rename_i candidate pending _
        dsimp only
        have popped : Idle s { s with pending } := ⟨rfl, id⟩
        split
        · rename_i later prepared
          exact popped.trans ((prepared ▸ apart_prepareNewcomer config world _ _ _).idle.trans (ih _ _ _))
        · rename_i later prepared
          exact popped.trans ((prepared ▸ apart_prepareNewcomer config world _ _ _).idle.trans (ih _ _ _))
        · rename_i later prepared
          exact popped.trans ((prepared ▸ apart_prepareNewcomer config world _ _ _).idle.trans ⟨rfl, id⟩)
    · exact .refl s

theorem calm_admitMixed (s : Sched) (newcomer : Newcomer) (attempts : Nat) :
    Calm s (s.admitMixed config world newcomer attempts).2 := by
  have gone : Calm s { s with steady := none } := ⟨rfl, .inl rfl⟩
  have ready : Settles { s with steady := none }
      (({ s with steady := none }.drainPipeline world).next fun s => s.readyDecodeRows world) :=
    (settles_drainPipeline world _).trans (.next (settles_readyDecodeRows world _))
  have fresh := ready.toCalm.steady_none rfl
  refine (gone.trans ready.toCalm).trans ?_
  unfold admitMixed
  dsimp only
  generalize (({ s with steady := none }.drainPipeline world).next fun s => s.readyDecodeRows world) = s' at *
  split
  · exact (Settles.refl s').toCalm
  · split
    · exact calm_admitSolo config world s' newcomer
    · exact Idle.calm ((idle_gather config world _ _ _ _).trans
        (.next (idle_mixedAdmission config world _))) fresh

theorem calm_admitAndPrefill (s : Sched) (item : Request) (attempts : Nat) :
    Calm s (s.admitAndPrefill config world item attempts).2.2 := by
  unfold admitAndPrefill
  dsimp only
  split
  · rename_i later prepared
    exact (prepared ▸ apart_prepareNewcomer config world s item _).calm
  · rename_i later prepared
    exact (prepared ▸ apart_prepareNewcomer config world s item _).calm
  · rename_i later prepared
    have moved := (apart_prepareNewcomer config world s item
      ⟨config.chunk.isNone || config.lane && !s.active.isEmpty, true, !s.active.isEmpty, none⟩).calm
    rw [prepared] at moved
    split
    · exact moved
    · split
      · exact moved
      · split
        · exact moved.trans (calm_launchAsyncPrefill config world _ _)
        · split
          · exact moved.trans (calm_admitSolo config world _ _)
          · exact moved.trans (calm_admitMixed config world _ _ _)

theorem calm_admitFromQueue (fuel attempts : Nat) (s : Sched) :
    Calm s (s.admitFromQueue config world fuel attempts) := by
  induction fuel generalizing attempts s with
  | zero => exact (Settles.refl s).toCalm
  | succ fuel ih =>
    unfold admitFromQueue
    split
    · split
      · exact (Settles.refl s).toCalm
      · rename_i item pending _
        have popped : Calm s { s with pending } := (Apart.calm ⟨rfl, rfl, rfl, rfl, rfl⟩)
        have admitted := popped.trans
          (calm_admitAndPrefill config world { s with pending } item (attempts + 1))
        split
        · rename_i item' attempts' later same
          rw [same] at admitted
          exact admitted.trans (Apart.calm ⟨rfl, rfl, rfl, rfl, rfl⟩)
        · rename_i attempts' later same
          rw [same] at admitted
          split
          · exact admitted
          · exact admitted.trans (ih _ _)
    · exact (Settles.refl s).toCalm

theorem calm_intakeTurn (s : Sched) (now : Instant) : Calm s (s.intakeTurn config world now) := by
  unfold intakeTurn
  split
  · exact calm_admitFromQueue config world _ _ s
  · rename_i door _
    have watched : ∀ door, Calm s { s with door := some door } :=
      fun _ => (Apart.calm ⟨rfl, rfl, rfl, rfl, rfl⟩)
    dsimp only
    split
    · exact (watched _).trans (calm_admitFromQueue config world _ _ _)
    · exact watched _

theorem idle_walkStep (s : Sched) (walk : Walk) : Idle s (s.walkStep config world walk) := by
  have taken := Aside.takeSegments walk.chunk walk.walkers s
  have mixed := mixedPrefillDecodeStep_calm config world (takeSegments walk.chunk walk.walkers s).2
    (segments (takeSegments walk.chunk walk.walkers s).1)
  unfold walkStep
  dsimp only
  split
  · rename_i later failed
    obtain ⟨launches, gone⟩ := mixed.1 later failed
    have here : Idle s later := ⟨launches.trans taken.launches, fun _ => gone⟩
    exact here.trans ((settles_failActiveBatch later _).toCalm.idle.trans
      ((Aside.failWalkers _ _).trans (Aside.halt _ _)).idle)
  · rename_i seats later ran
    obtain ⟨launches, gone⟩ := mixed.2 seats later ran
    have here : Idle s later := ⟨launches.trans taken.launches, fun _ => gone⟩
    refine here.trans ((settles_emitActive world later).toCalm.idle.trans (.next ?_))
    have graduated := idle_graduateReadyWalkers config world
      (walkOn world later.tick (takeSegments walk.chunk walk.walkers s).1 seats)
        ((later.requireOpen (later.active.map (·.seat.request.id))).next
        fun s => s.emitDecodeRows world (s.activeSamples world))
    split
    · exact graduated.trans ⟨rfl, id⟩
    · exact graduated.trans (idle_endWalk _ _)

theorem idle_advanceWalkRound (s : Sched) (walk : Walk) : Idle s (s.advanceWalkRound config world walk) := by
  have probed := (Aside.retireWalkers world walk.walkers s).idle.trans
    (idle_graduateReadyWalkers config world (retireWalkers world walk.walkers s).1
      (retireWalkers world walk.walkers s).2)
  unfold advanceWalkRound
  dsimp only
  split
  · exact probed.trans (idle_endWalk _ _)
  · have readied : ∀ s : Sched, Idle s (if walk.firstRound then s else s.readyDecodeRows world) := by
      intro s
      split
      · exact .refl s
      · exact (settles_readyDecodeRows world s).toCalm.idle
    refine probed.trans ((readied _).trans (.next ?_))
    generalize (if walk.firstRound then _ else _ : Sched) = s
    split
    · refine (idle_finishWalkers config world _ _ _).trans (.next ?_)
      exact (idle_graduateReadyWalkers config world _ _).trans (idle_endWalk _ _)
    · exact idle_walkStep config world _ _

theorem idle_advanceWalk (s : Sched) : Idle s (s.advanceWalk config world) := by
  unfold advanceWalk
  split
  · exact .refl s
  · exact idle_advanceWalkRound config world s _

end

/-- Between two steps: a walk runs without a fingerprint. -/
structure Rested (config : EngineConfig) (s : Sched) : Prop extends Steadied config s where
  walking : s.walk.isSome → s.steady = none

theorem Rested.calm (rested : Rested config s) (calm : Calm s later) : Rested config later := by
  refine ⟨rested.toSteadied.calm calm, fun walking => ?_⟩
  rcases calm.walk_or_none with same | gone
  · exact calm.steady_none (rested.walking (same ▸ walking))
  · exact gone

/-- A move made without a fingerprint keeps everything. -/
theorem Rested.idle (rested : Rested config s) (gone : s.steady = none) (idle : Idle s later) :
    Rested config later :=
  rested.calm (idle.calm gone)

theorem Rested.step (rested : Rested config s) (complete : Bool) (now : Instant) :
    Rested config (s.step config world complete now) := by
  have advance : ∀ s : Sched, Rested config s → s.walk.isSome →
    Rested config (s.advanceWalk config world) := fun s rested walking =>
    rested.idle (rested.walking walking) (idle_advanceWalk config world s)
  unfold Sched.step
  split
  · rename_i walking
    exact advance s rested walking
  · dsimp only
    have joined : ∀ ready : Bool, Rested config (if ready then s.joinAsyncPrefill config world else s) := by
      intro ready
      split
      · exact rested.calm (calm_joinAsyncPrefill config world s)
      · exact rested
    refine next_keeps (next_keeps (joined _) fun joined =>
      joined.calm (calm_intakeTurn config world _ now)) fun admitted => ?_
    generalize Sched.next _ _ = s at *
    split
    · rename_i walking
      exact advance _ admitted walking
    · rename_i still
      split
      · exact admitted
      · obtain ⟨steadied, walk⟩ := @decodeRound_steady config world _ _ ⟨admitted.toSteadied, rfl⟩
        exact ⟨steadied, fun walking => absurd (walk ▸ walking) still⟩

theorem calm_submit (s : Sched) (request : Request) : Calm s (s.submit request) :=
  Apart.calm ⟨rfl, rfl, rfl, rfl, rfl⟩

theorem Rested.perform (rested : Rested config s) (op : SchedOp) :
    Rested config (Sched.perform config world s op) := by
  unfold Sched.perform
  cases op with
  | submit request => exact next_keeps rested fun rested => rested.calm (calm_submit s request)
  | step complete now => exact next_keeps rested fun rested => rested.step complete now

theorem rested_run (config : EngineConfig) (world : World) (ops : List SchedOp) :
    Rested config (Sched.run config world ops) := by
  induction ops using List.reverseRecOn with
  | nil =>
    refine ⟨⟨⟨fun launch member => ?_, fun steady now => ?_⟩, fun steady now => ?_⟩, fun walking => ?_⟩
    · cases member
    · cases now
    · cases now
    · cases walking
  | append_singleton ops op ih =>
    rw [Sched.run, List.foldl_append]
    exact ih.perform op

/-- At the launch of every decode step that kept its tables, they are those a refill would
upload on every real row, and every pad row is still on its padding page. -/
theorem run_steady_path_is_rebuild (config : EngineConfig) (world : World) (ops : List SchedOp) :
    ∀ launch ∈ (Sched.run config world ops).launches, launch.regular = true →
      ∀ tables, launch.tables = some tables →
      ∃ refilled, refillTables config launch.kvs launch.padded tables = some refilled ∧
        SameRows tables refilled launch.kvs.length config.globalSplitFactor ∧
        (∀ row, launch.kvs.length ≤ row → row < launch.padded → PadRow tables row) ∧
        ∀ row, launch.kvs.length * config.globalSplitFactor ≤ row →
          row < launch.padded * config.globalSplitFactor →
          PseudoPadRow tables row := by
  intro launch member regular tables ran
  obtain ⟨nonempty, written⟩ := (rested_run config world ops).launches launch member
  obtain ⟨⟨count, written⟩, bounds⟩ := written tables ran
  obtain ⟨refilled, made, same⟩ := written.refill nonempty bounds tables
  exact ⟨refilled, made, same, fun row => written.pad nonempty, fun row => written.pseudoPad nonempty⟩

/-- The second decode step of a lone request keeps the tables of the first. -/
theorem run_steady_path_is_rebuild_lone :
    ∃ launch ∈ (Sched.run ⟨64, 1, 32, none, false, none, none, 2,
      true, by decide, by decide, by simp, by simp, by simp, by simp⟩
        ⟨fun _ _ _ => 7, fun _ _ _ => ⟨0, []⟩, fun _ => true, [], fun _ _ => false, fun _ => 0⟩
        [.submit ⟨0, [1, 2], 6, false, 0, true, false, false, false⟩, .step false 0, .step false 0]).launches,
      launch.regular = true ∧ ∃ tables, launch.tables = some tables ∧
        ∃ refilled, refillTables ⟨64, 1, 32, none, false, none, none, 2,
          true, by decide, by decide, by simp, by simp, by simp, by simp⟩
            launch.kvs launch.padded tables = some refilled ∧
          SameRows tables refilled launch.kvs.length 2 ∧
          (∀ row, launch.kvs.length ≤ row → row < launch.padded → PadRow tables row) ∧
          ∀ row, launch.kvs.length * 2 ≤ row → row < launch.padded * 2 → PseudoPadRow tables row := by
  have ran : ∃ launch ∈ (Sched.run ⟨64, 1, 32, none, false, none, none, 2,
    true, by decide, by decide, by simp, by simp, by simp, by simp⟩
      ⟨fun _ _ _ => 7, fun _ _ _ => ⟨0, []⟩, fun _ => true, [], fun _ _ => false, fun _ => 0⟩
      [.submit ⟨0, [1, 2], 6, false, 0, true, false, false, false⟩, .step false 0, .step false 0]).launches,
      launch.regular = true ∧ launch.tables.isSome = true := by
    decide +kernel
  obtain ⟨launch, member, regular, ran⟩ := ran
  obtain ⟨tables, held⟩ := Option.isSome_iff_exists.mp ran
  exact ⟨launch, member, regular, tables, held,
    run_steady_path_is_rebuild _ _ _ launch member regular tables held⟩

end Sched

end PegaInfer.Gemma4
