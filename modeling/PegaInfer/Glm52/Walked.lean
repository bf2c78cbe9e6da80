import PegaInfer.Glm52.SingleRow

namespace PegaInfer.Glm52

/-- An intake the rank accepted: validated, and a handoff it can restore. -/
inductive Accepted (config : EngineConfig) : Resolved → Prop
  | plain {req : GenerateRequest}
      (valid : validateRequest req config.maxModelLen config.mtpDraftLen false false = .ok ()) :
      Accepted config (.plain req)
  | native {req : GenerateRequest} {handoff : NativeMtpHandoff} {ours : String}
      (valid : validateRequest req config.maxModelLen config.mtpDraftLen false false = .ok ())
      (envelope : nativeMtpHandoff ours req handoff = .ok handoff) : Accepted config (.native req handoff)
  | failed (req : GenerateRequest) (message : String) : Accepted config (.failed req message)

/-- What every slot and every queued request has. -/
structure Kept (config : EngineConfig) (engine : RankEngine) : Prop where
  queued : ∀ entry ∈ engine.pending, Accepted config entry
  sound : ∀ slot active, engine.slots slot = some active → active.state.Sound
  within : ∀ slot active, engine.slots slot = some active → slot < maxBatchPerRank

section

variable {config : EngineConfig} {engine : RankEngine}

theorem Seated.sound {req : GenerateRequest} {mtpDraftLen maxModelLen : Nat}
    {prefillOnly nativeMtpPrefill : Bool} {state : SlotState}
    (accepted : validateRequest req maxModelLen mtpDraftLen prefillOnly nativeMtpPrefill = .ok ())
    (seated : Seated req mtpDraftLen state) : state.Sound := by
  refine ⟨fun feeding => ?_, (seated.inside accepted).anchored⟩
  cases seated with
  | plain => rfl
  | native envelope seated =>
    obtain ⟨-, anchor, rfl⟩ := admitNative_eq seated
    have fed := nativeMtpHandoff_ok envelope
    have unfed := of_decide_eq_true feeding
    simp only [SlotState.setDrafts, SlotState.new] at unfed
    omega

theorem Kept.seat (kept : Kept config engine) {slot : Nat} (req : GenerateRequest)
    {state : SlotState} (low : slot < maxBatchPerRank)
    (sound : state.Sound) : Kept config (engine.seat slot req state) := by
  refine ⟨kept.queued, fun other active found => ?_, fun other active found => ?_⟩
  all_goals
    simp only [RankEngine.seat, Function.update_apply] at found
    split at found
  · cases found
    exact sound
  · exact kept.sound other active found
  · rename_i same
    rw [same]
    exact low
  · exact kept.within other active found

theorem Kept.pending (kept : Kept config engine) {pending : List Resolved}
    (fewer : ∀ entry ∈ pending, entry ∈ engine.pending) :
    Kept config { engine with pending } :=
      ⟨fun entry member => kept.queued entry (fewer entry member), kept.sound, kept.within⟩

theorem Kept.seatNative (kept : Kept config engine) {slot : Nat} {req : GenerateRequest}
    {handoff : NativeMtpHandoff} {clientGone : Bool}
    {after : RankEngine} {seated : List Nat} (low : slot < maxBatchPerRank)
    (accepted : Accepted config (.native req handoff))
    (admitted : engine.seatNative config slot req handoff clientGone = some (after, seated)) :
    Kept config after ∧ after.leasedShape = engine.leasedShape ∧
      after.deferredReleases = engine.deferredReleases := by
  cases accepted with
  | native valid envelope =>
    unfold RankEngine.seatNative at admitted
    obtain ⟨state, found, outcome⟩ := Option.map_eq_some_iff.mp admitted
    split at outcome
    · cases outcome
      exact ⟨kept, rfl, rfl⟩
    · cases outcome
      exact ⟨kept.seat _ low (Seated.sound valid (Seated.native envelope found)), rfl, rfl⟩

theorem Kept.admitOne (kept : Kept config engine) {slot : Nat} {answer : AdmitAnswer}
    {after : RankEngine} {seated : List Nat}
    (low : slot < maxBatchPerRank) (admitted : engine.admitOne config slot answer = some (after, seated)) :
    Kept config after ∧ after.leasedShape = engine.leasedShape ∧
      after.deferredReleases = engine.deferredReleases := by
  cases answer with
  | closed =>
    simp only [RankEngine.admitOne] at admitted
    cases admitted
    exact ⟨kept.pending fun entry member => List.mem_of_mem_tail member, rfl, rfl⟩
  | fits cachedTokens clientGone =>
    simp only [RankEngine.admitOne] at admitted
    split at admitted
    · cases admitted
      exact ⟨kept, rfl, rfl⟩
    · rename_i queue
      cases admitted
      exact ⟨kept.pending fun entry member => by rw [queue]; exact List.mem_cons_of_mem _ member, rfl, rfl⟩
    · rename_i req pending queue
      cases admitted
      have fewer := @Kept.pending _ _ kept pending fun entry member => by
        rw [queue]; exact List.mem_cons_of_mem _ member
      have accepted := kept.queued (.plain req) (by rw [queue]; exact List.mem_cons_self ..)
      cases accepted with
      | plain valid =>
        have prompt := (validateRequest_ok valid).1
        exact ⟨fewer.seat req low (Seated.sound valid (Seated.plain (by omega))), rfl, rfl⟩
    · rename_i req handoff pending queue
      have fewer := @Kept.pending _ _ kept pending fun entry member => by
        rw [queue]; exact List.mem_cons_of_mem _ member
      exact fewer.seatNative low (kept.queued _ (by rw [queue]; exact List.mem_cons_self ..)) admitted
  | bypass index clientGone =>
    simp only [RankEngine.admitOne] at admitted
    split at admitted
    · rename_i req handoff found
      have fewer := @Kept.pending _ _ kept (engine.pending.eraseIdx index) fun entry member =>
        List.mem_of_mem_eraseIdx member
      exact fewer.seatNative low (kept.queued _ (List.mem_of_getElem? found)) admitted
    · cases admitted

theorem Kept.admitLoop (kept : Kept config engine) {answers : List AdmitAnswer}
    {after : RankEngine} {seated : List Nat}
    (admitted : engine.admitLoop config answers = some (after, seated)) :
    Kept config after ∧ after.leasedShape = engine.leasedShape ∧
      after.deferredReleases = engine.deferredReleases := by
  induction answers generalizing engine after seated with
  | nil =>
    cases admitted
    exact ⟨kept, rfl, rfl⟩
  | cons answer answers ih =>
    rw [RankEngine.admitLoop] at admitted
    split at admitted
    · cases admitted
      exact ⟨kept, rfl, rfl⟩
    · rename_i slot found
      have low := (List.mem_range.mp (List.mem_of_find?_eq_some found)).trans_le config.slotsFit
      obtain ⟨⟨middle, now⟩, first, rest⟩ := Option.bind_eq_some_iff.mp admitted
      obtain ⟨⟨last, later⟩, second, whole⟩ := Option.bind_eq_some_iff.mp rest
      cases whole
      obtain ⟨middleKept, shape, deferred⟩ := kept.admitOne low first
      obtain ⟨lastKept, shape', deferred'⟩ := ih middleKept second
      exact ⟨lastKept, shape'.trans shape, deferred'.trans deferred⟩

variable {world : TurnWorld} {walk : Walk} {run : Nat × List Token}

/-- Whether a run ends the request of its slot. -/
def Frees (config : EngineConfig) (world : TurnWorld) (run : Nat × List Token)
    (active : ActiveRequest) : Bool :=
  (active.state.advanceSpan run.2 config.eosTokenIds).2.frees (world.gone run.1)

def ActiveRequest.advance (config : EngineConfig) (active : ActiveRequest)
    (outputs : List Token) : ActiveRequest :=
  { active with state := (active.state.advanceSpan outputs config.eosTokenIds).1 }

/-- Everything one run can do to the walk. -/
inductive Applied (config : EngineConfig) (world : TurnWorld) (walk : Walk)
    (run : Nat × List Token) : Walk → Prop
  | skipped (idle : run.1 ∈ walk.engine.deferredReleases ∨ walk.engine.slots run.1 = none) :
      Applied config world walk run walk
  | advanced {active} (owed : run.1 ∉ walk.engine.deferredReleases)
      (found : walk.engine.slots run.1 = some active)
      (goes : Frees config world run active = false) :
      Applied config world walk run
        { walk with engine := { walk.engine with
          slots := Function.update walk.engine.slots run.1 (some (active.advance config run.2)) } }
  | deferred {active} (owed : run.1 ∉ walk.engine.deferredReleases)
      (found : walk.engine.slots run.1 = some active)
      (ends : Frees config world run active = true) (leased : walk.engine.leasedShape.isSome = true) :
      Applied config world walk run
        { engine := { walk.engine with
            slots := Function.update walk.engine.slots run.1 (some (active.advance config run.2))
            deferredReleases := walk.engine.deferredReleases ++ [run.1] }
          freed := walk.freed ++ [run.1], returned := walk.returned }
  | retired {active} (owed : run.1 ∉ walk.engine.deferredReleases)
      (found : walk.engine.slots run.1 = some active)
      (ends : Frees config world run active = true) (unleased : walk.engine.leasedShape.isSome = false) :
      Applied config world walk run
        { engine := { walk.engine with slots := Function.update walk.engine.slots run.1 none }
          freed := walk.freed ++ [run.1], returned := walk.returned ++ [run.1] }

theorem Walk.applyRun_applied (config : EngineConfig) (world : TurnWorld) (walk : Walk)
    (run : Nat × List Token) :
    Applied config world walk run (walk.applyRun config world run) := by
  unfold Walk.applyRun
  split
  · rename_i dead
    exact .skipped (Or.inl dead)
  · rename_i owed
    split
    · rename_i none
      exact .skipped (Or.inr none)
    · rename_i active found
      dsimp only
      split
      · rename_i ends
        split
        · rename_i leased
          exact .deferred owed found ends leased
        · rename_i unleased
          exact .retired owed found ends (by simpa using unleased)
      · rename_i goes
        exact .advanced owed found (by simpa [Frees] using goes)

theorem Kept.update (kept : Kept config engine) {slot : Nat} {active : ActiveRequest}
    (found : engine.slots slot = some active)
    {outputs : List Token} (some_ : outputs ≠ []) :
    Kept config { engine with
      slots := Function.update engine.slots slot (some (active.advance config outputs)) } := by
  refine ⟨kept.queued, fun other next there => ?_, fun other next there => ?_⟩
  all_goals
    simp only [Function.update_apply] at there
    split at there
  · cases there
    exact (kept.sound slot active found).span config.eosTokenIds some_
  · exact kept.sound other next there
  · rename_i same
    rw [same]
    exact kept.within slot active found
  · exact kept.within other next there

theorem Kept.clear (kept : Kept config engine) {slots : RankSlots} {deferred : List Nat}
    (fewer : ∀ slot active, slots slot = some active → engine.slots slot = some active) :
    Kept config { engine with slots, deferredReleases := deferred } :=
  ⟨kept.queued, fun slot active found => kept.sound slot active (fewer slot active found),
    fun slot active found => kept.within slot active (fewer slot active found)⟩

theorem Function.update_none_some {slots : RankSlots} {cleared slot : Nat} {active : ActiveRequest}
    (found : Function.update slots cleared none slot = some active) : slots slot = some active := by
  rw [Function.update_apply] at found
  split at found
  · cases found
  · exact found

/-- A run of the walk keeps the slots sound, the queue and the lease; without a lease it defers nothing. -/
theorem Applied.kept {walked : Walk} (applied : Applied config world walk run walked)
    (kept : Kept config walk.engine)
    (some_ : run.2 ≠ []) : Kept config walked.engine ∧ walked.engine.leasedShape = walk.engine.leasedShape ∧
      walked.engine.pending = walk.engine.pending ∧
      (walk.engine.leasedShape = none → walked.engine.deferredReleases = walk.engine.deferredReleases) := by
  cases applied with
  | skipped => exact ⟨kept, rfl, rfl, fun _ => rfl⟩
  | advanced owed found goes => exact ⟨kept.update found some_, rfl, rfl, fun _ => rfl⟩
  | deferred owed found ends leased =>
    have updated := kept.update found some_
    exact ⟨⟨updated.queued, updated.sound, updated.within⟩, rfl, rfl,
      fun none => by rw [none] at leased; cases leased⟩
  | retired owed found ends unleased =>
    exact ⟨kept.clear fun slot active there => Function.update_none_some there, rfl, rfl, fun _ => rfl⟩

theorem Kept.walked {runs : List (Nat × List Token)} (kept : Kept config walk.engine)
    (some_ : ∀ run ∈ runs, run.2 ≠ []) :
    Kept config (runs.foldl (Walk.applyRun config world) walk).engine ∧
      (runs.foldl (Walk.applyRun config world) walk).engine.leasedShape = walk.engine.leasedShape ∧
      (runs.foldl (Walk.applyRun config world) walk).engine.pending = walk.engine.pending ∧
      (walk.engine.leasedShape = none →
        (runs.foldl (Walk.applyRun config world) walk).engine.deferredReleases =
          walk.engine.deferredReleases) := by
  induction runs generalizing walk with
  | nil => exact ⟨kept, rfl, rfl, fun _ => rfl⟩
  | cons run runs ih =>
    obtain ⟨next, shape, queue, deferred⟩ :=
      (walk.applyRun_applied config world run).kept kept (some_ run (List.mem_cons_self ..))
    obtain ⟨last, shape', queue', deferred'⟩ :=
      ih next fun other member => some_ other (List.mem_cons_of_mem _ member)
    exact ⟨last, shape'.trans shape, queue'.trans queue, fun none =>
      (deferred' (shape.trans none)).trans (deferred none)⟩

/-- What a walk under a lease leaves: no page given back, the ended slots deferred, and every other slot
advanced by its own run. -/
structure UnderLease (config : EngineConfig) (walk : Walk) (runs : List (Nat × List Token))
    (walked : Walk) (new : List Nat) : Prop where
  returned : walked.returned = walk.returned
  freed : walked.freed = walk.freed ++ new
  deferred : walked.engine.deferredReleases = walk.engine.deferredReleases ++ new
  seats : ∀ slot, (walked.engine.slots slot).isSome = (walk.engine.slots slot).isSome
  advanced : ∀ slot active', walked.engine.slots slot = some active' → slot ∉ walked.engine.deferredReleases →
    ∃ active, walk.engine.slots slot = some active ∧
      (slot ∉ runs.map Prod.fst ∧ active' = active ∨ ∃ outputs, (slot, outputs) ∈ runs ∧
        active' = active.advance config outputs)

theorem Walk.underLease {runs : List (Nat × List Token)} (leased : walk.engine.leasedShape.isSome = true)
    (distinct : (runs.map Prod.fst).Nodup) :
    ∃ new, UnderLease config walk runs (runs.foldl (Walk.applyRun config world) walk) new ∧
      ((∀ run ∈ runs, ∀ active, walk.engine.slots run.1 = some active →
        Frees config world run active = false) → new = []) := by
  induction runs generalizing walk with
  | nil =>
    exact ⟨[], ⟨rfl, (List.append_nil _).symm, (List.append_nil _).symm, fun _ => rfl,
      fun slot active' found _ => ⟨active', found, Or.inl ⟨List.not_mem_nil, rfl⟩⟩⟩, fun _ => rfl⟩
  | cons run runs ih =>
    rw [List.map_cons, List.nodup_cons] at distinct
    have others : ∀ next ∈ runs, next.1 ≠ run.1 :=
      fun next member same => distinct.1 (by rw [← same]; exact List.mem_map_of_mem member)
    have applied := walk.applyRun_applied config world run
    rw [List.foldl_cons]
    generalize walk.applyRun config world run = middle at applied
    cases applied with
    | skipped idle =>
      obtain ⟨new, under, quiet⟩ := ih leased distinct.2
      refine ⟨new, ⟨under.returned, under.freed, under.deferred, under.seats,
        fun slot active' found owed => ?_⟩,
        fun calm => quiet fun next member => calm next (List.mem_cons_of_mem _ member)⟩
      obtain ⟨active, before, ⟨out, same⟩ | ⟨outputs, member, advanced⟩⟩ :=
        under.advanced slot active' found owed
      · refine ⟨active, before, Or.inl ⟨fun member => ?_, same⟩⟩
        rcases List.mem_cons.mp member with rfl | member
        · rw [under.deferred] at owed
          exact idle.elim (fun dead => owed (List.mem_append_left _ dead)) fun none => by
            rw [none] at before; cases before
        · exact out member
      · exact ⟨active, before, Or.inr ⟨outputs, List.mem_cons_of_mem _ member, advanced⟩⟩
    | @advanced first owed found goes =>
      obtain ⟨new, under, quiet⟩ := @ih { walk with engine := { walk.engine with
        slots := Function.update walk.engine.slots run.1 (some (first.advance config run.2)) } }
          leased distinct.2
      refine ⟨new, ⟨under.returned, under.freed, under.deferred, fun slot => ?_,
        fun slot active' there owed => ?_⟩,
        fun calm => quiet fun next member active before => ?_⟩
      · rw [under.seats slot]
        dsimp only
        rw [Function.update_apply]
        split
        · rename_i same
          rw [same, found, Option.isSome_some, Option.isSome_some]
        · rfl
      · obtain ⟨active, before, kind⟩ := under.advanced slot active' there owed
        dsimp only at before
        rw [Function.update_apply] at before
        split at before
        · rename_i same
          subst same
          cases before
          rcases kind with ⟨-, rfl⟩ | ⟨outputs, member, -⟩
          · exact ⟨first, found, Or.inr ⟨run.2, List.mem_cons_self .., rfl⟩⟩
          · exact absurd rfl (others (run.1, outputs) member)
        · rename_i apart
          rcases kind with ⟨out, same⟩ | ⟨outputs, member, advanced⟩
          · refine ⟨active, before, Or.inl ⟨fun member => ?_, same⟩⟩
            rcases List.mem_cons.mp member with rfl | member
            · exact apart rfl
            · exact out member
          · exact ⟨active, before, Or.inr ⟨outputs, List.mem_cons_of_mem _ member, advanced⟩⟩
      · dsimp only at before
        rw [Function.update_of_ne (others next member)] at before
        exact calm next (List.mem_cons_of_mem _ member) active before
    | @deferred first owed found ends leased =>
      obtain ⟨new, under, -⟩ := @ih ⟨{ walk.engine with
        slots := Function.update walk.engine.slots run.1 (some (first.advance config run.2))
        deferredReleases := walk.engine.deferredReleases ++ [run.1] }, walk.freed ++ [run.1],
          walk.returned⟩ leased distinct.2
      refine ⟨run.1 :: new, ⟨under.returned, ?_, ?_, fun slot => ?_, fun slot active' there owed =>
        ?_⟩, fun calm => ?_⟩
      · rw [under.freed]
        exact List.append_assoc _ [run.1] new
      · rw [under.deferred]
        exact List.append_assoc _ [run.1] new
      · rw [under.seats slot]
        dsimp only
        rw [Function.update_apply]
        split
        · rename_i same
          rw [same, found, Option.isSome_some, Option.isSome_some]
        · rfl
      · have apart : slot ≠ run.1 := by
          rintro rfl
          rw [under.deferred] at owed
          exact owed (by simp)
        obtain ⟨active, before, kind⟩ := under.advanced slot active' there owed
        dsimp only at before
        rw [Function.update_of_ne apart] at before
        rcases kind with ⟨out, same⟩ | ⟨outputs, member, advanced⟩
        · refine ⟨active, before, Or.inl ⟨fun member => ?_, same⟩⟩
          rcases List.mem_cons.mp member with rfl | member
          · exact apart rfl
          · exact out member
        · exact ⟨active, before, Or.inr ⟨outputs, List.mem_cons_of_mem _ member, advanced⟩⟩
      · have goes := calm run (List.mem_cons_self ..) first found
        rw [ends] at goes
        cases goes
    | retired owed found ends unleased =>
      rw [leased] at unleased
      cases unleased

end

end PegaInfer.Glm52
