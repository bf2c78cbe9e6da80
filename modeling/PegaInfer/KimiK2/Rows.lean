import PegaInfer.KimiK2.Started

namespace PegaInfer.KimiK2

open Frontend Kvbm Lib SwapRemove

variable {H : Type} [DecidableEq H]

/-- A row that has at most `fuel` tokens to go. -/
structure ActiveKimiRequest.Lasting (req : ActiveKimiRequest H) [SequenceHashing H] (fuel : Nat) : Prop where
  good : req.Good
  few : req.maxTokens ≤ req.completionTokens + fuel

/-- What the rows hold together. -/
abbrev rowsHold (active : List (ActiveKimiRequest H)) : Holding H :=
  (active.map fun req => req.kv.holding).sum

/-- The requests the rows are run for. -/
abbrev rowsTx (active : List (ActiveKimiRequest H)) : List Nat := active.map ActiveKimiRequest.tokenTx

section

omit [DecidableEq H]

theorem rowsHold_nil : rowsHold ([] : List (ActiveKimiRequest H)) = 0 := rfl

theorem rowsHold_cons (req : ActiveKimiRequest H) (active : List (ActiveKimiRequest H)) :
    rowsHold (req :: active) = req.kv.holding + rowsHold active := List.sum_cons

theorem rowsTx_cons (req : ActiveKimiRequest H) (active : List (ActiveKimiRequest H)) :
    rowsTx (req :: active) = req.tokenTx :: rowsTx active :=
  rfl

end

namespace World

variable {world : World} {w : Wave H} {held : Holding H} {fuel : Nat}

theorem drainErrors_spec (world : World) (message : String) (active : List (ActiveKimiRequest H))
    (ok : w.store.Ok (rowsHold active + held)) :
    Settles world w (rowsTx active) (world.drainErrors w message active) [] ∧
      (world.drainErrors w message active).store.Ok held := by
  induction active generalizing w with
  | nil =>
    rw [rowsHold_nil, zero_add] at ok
    exact ⟨.refl w [], ok⟩
  | cons req active ih =>
    rw [rowsHold_cons, add_assoc] at ok
    have dropped := SchedulableSequence.transfers_dropBlocks req.kv w.store _ ok
    rw [zero_add] at dropped
    obtain ⟨settles, ok'⟩ :=
      ih (w := (world.send w req.tokenTx
        (.error message req.promptLen req.completionTokens)).1.release req.kv)
      (by simpa [Wave.release] using dropped)
    exact ⟨((send_terminal rfl).release req.kv).append settles, ok'⟩

theorem removeRow_spec {store : BlockStore H} {active : List (ActiveKimiRequest H)} {idx : Nat}
    (bound : idx < active.length)
    (ok : store.Ok (rowsHold active + held)) :
    ∃ store', removeRow store active idx = some (store', swapRemove active idx) ∧
      store'.Ok (rowsHold (swapRemove active idx) + held) ∧
      (swapRemove active idx).length + 1 = active.length := by
  have found : active[idx]? = some active[idx] := List.getElem?_eq_getElem bound
  obtain ⟨rest, removed, moved⟩ := swapRemove_spec bound
  have cut : active.Perm (active[idx] :: swapRemove active idx) := by
    have whole : active = active.take idx ++ (active[idx] :: active.drop (idx + 1)) := by simp
    conv_lhs => rw [whole]
    rw [removed]
    exact List.perm_middle.trans ((moved.symm.append_left _).cons _)
  have sum : rowsHold active = active[idx].kv.holding + rowsHold (swapRemove active idx) := (cut.map _).sum_eq
  rw [sum, add_assoc] at ok
  have dropped := SchedulableSequence.transfers_dropBlocks active[idx].kv store _ ok
  rw [zero_add] at dropped
  refine ⟨active[idx].kv.dropBlocks store, ?_, dropped, ?_⟩
  · rw [removeRow, found]
  · rw [cut.length_eq, List.length_cons]

theorem removeRows_spec {store : BlockStore H} {active : List (ActiveKimiRequest H)} {retire : List Nat}
    (falling : retire.Pairwise (· > ·)) (bound : ∀ idx ∈ retire, idx < active.length)
    (ok : store.Ok (rowsHold active + held)) :
    ∃ store', removeRows store active retire = some (store', retire.foldl swapRemove active) ∧
      store'.Ok (rowsHold (retire.foldl swapRemove active) + held) := by
  induction retire generalizing store active with
  | nil => exact ⟨store, rfl, ok⟩
  | cons idx retire ih =>
    obtain ⟨below, falling⟩ := List.pairwise_cons.mp falling
    have here := bound idx List.mem_cons_self
    obtain ⟨store₁, removed, ok₁, shorter⟩ := removeRow_spec here ok
    obtain ⟨store₂, rest, ok₂⟩ := ih falling (fun other member => by
      have lower : other < idx := below other member
      omega) ok₁
    exact ⟨store₂, by rw [removeRows, removed]; exact rest, ok₂⟩

variable [SequenceHashing H]

theorem scheduleRows_spec {store : BlockStore H} (active : List (ActiveKimiRequest H))
    (lasting : ∀ req ∈ active, req.Lasting fuel)
    (ok : store.Ok (rowsHold active + held)) :
    ∃ store' active' failed, scheduleRows store active = some (store', active', failed) ∧
      rowsTx active' = rowsTx active ∧
      (∀ req ∈ active', req.Lasting fuel) ∧ store'.Ok (rowsHold active' + held) := by
  induction active generalizing store held with
  | nil => exact ⟨store, [], false, rfl, rfl, lasting, ok⟩
  | cons req active ih =>
    obtain ⟨good, few⟩ := lasting req List.mem_cons_self
    rw [scheduleRows]
    cases scheduled : req.kv.scheduleDecode store with
    | error fault =>
      have calm : fault ≠ .panicked := by
        rintro rfl
        exact SchedulableSequence.scheduleDecode_calm scheduled
      cases fault with
      | panicked => exact absurd rfl calm
      | _ => exact ⟨store, req :: active, true, rfl, rfl, lasting, ok⟩
    | ok drawn =>
      obtain ⟨kv, store₁⟩ := drawn
      obtain ⟨-, count, -, draws⟩ := SchedulableSequence.scheduleDecode_cases scheduled
      rw [rowsHold_cons, add_assoc] at ok
      have ok₁ : store₁.Ok (rowsHold active + (kv.holding + held)) := by
        rw [add_left_comm]
        exact draws.transfers _ ok
      obtain ⟨store₂, active₂, failed, rest, same, lasting₂, ok₂⟩ :=
        ih (fun other member => lasting other (List.mem_cons_of_mem _ member)) ok₁
      simp only [rest]
      refine ⟨store₂, { req with kv } :: active₂, failed, rfl, ?_, ?_, ?_⟩
      · rw [rowsTx_cons, same, rowsTx_cons]
      · intro other member
        rcases List.mem_cons.mp member with rfl | later
        · have wf := draws.wf good.wf
          obtain ⟨_, alloc, rfl⟩ := draws
          obtain ⟨ids, -, rfl, -⟩ := SchedulableSequence.allocateBlocks_cases alloc
          exact ⟨⟨wf, good.counted, good.budget, good.running⟩, few⟩
        · exact lasting₂ other later
      · rw [rowsHold_cons, add_assoc, add_left_comm]
        exact ok₂

theorem applyRow_spec (world : World) (report : ForwardReport) {req : ActiveKimiRequest H}
    (lasting : req.Lasting (fuel + 1))
    (ok : w.store.Ok (req.kv.holding + held)) :
    ∃ w' req' retires, world.applyRow w report req = some (w', req', retires) ∧
      w'.store.Ok (req'.kv.holding + held) ∧
      Settles world w [req.tokenTx] w' (if retires = true then [] else [req'.tokenTx]) ∧
        (retires = false → req'.Lasting fuel) := by
  obtain ⟨good, few⟩ := lasting
  have room : req.kv.generatedTokens < req.kv.maxOutputTokens := by
    rw [good.counted, good.budget]
    exact good.running
  unfold applyRow
  dsimp only
  cases applied : req.kv.applyDecode report.localNextTokenGlobalId w.store with
  | error fault =>
    have calm : fault ≠ .panicked := by
      rintro rfl
      exact SchedulableSequence.applyDecode_calm good.wf.settled ok room applied
    cases fault with
    | panicked => exact absurd rfl calm
    | _ => exact ⟨_, _, true, rfl, by simpa using ok, send_terminal rfl, fun clash => by cases clash⟩
  | ok done =>
    obtain ⟨kv, store, result⟩ := done
    have wf := SchedulableSequence.applyDecode_wf good.wf applied
    have ok' : store.Ok (kv.holding + held) :=
      SchedulableSequence.applyDecode_transfers good.wf.settled applied held ok
    dsimp only
    split
    · exact ⟨_, _, true, rfl, by simpa using ok', (send_terminal rfl).from_store, fun clash => by cases clash⟩
    · cases told : world.send { w with store := store } req.tokenTx
        (.token report.localNextTokenGlobalId report.logprob) with
      | mk w₁ heard =>
        have first : w₁ = (world.send { w with store := store } req.tokenTx
            (.token report.localNextTokenGlobalId report.logprob)).1 := by
          rw [told]
        have store_ : w₁.store = store := by rw [first, send_store]
        cases heard with
        | false =>
          refine ⟨_, _, true, rfl, by simpa [store_] using ok', ?_, fun clash => by cases clash⟩
          rw [first]
          exact (send_unheard rfl (by rw [told])).from_store
        | true =>
          have streamed : Settles world w [req.tokenTx] w₁ [req.tokenTx] := by
            rw [first]
            exact (send_other rfl _).from_store
          dsimp only
          split
          · exact ⟨_, _, true, rfl, by simpa [store_] using ok', streamed.trans (send_terminal rfl),
              fun clash => by cases clash⟩
          · next more =>
            refine ⟨_, _, false, rfl, by simpa [store_] using ok', streamed, fun _ => ⟨⟨wf, ?_, ?_, ?_⟩, ?_⟩⟩
            · obtain ⟨_, blocks, -, -, -, rfl⟩ :=
                SchedulableSequence.applyDecode_cases good.wf.settled applied
              simp [SchedulableSequence.appended, SchedulableSequence.registered, good.counted]
            · obtain ⟨_, blocks, -, -, -, rfl⟩ :=
                SchedulableSequence.applyDecode_cases good.wf.settled applied
              exact good.budget
            · dsimp only
              omega
            · dsimp only
              omega

theorem applyRows_spec (world : World) (reports : Nat → ForwardReport) (idx : Nat)
    (active : List (ActiveKimiRequest H))
    (lasting : ∀ req ∈ active, req.Lasting (fuel + 1)) (ok : w.store.Ok (rowsHold active + held)) :
    ∃ w' active' retire, world.applyRows w reports idx active = some (w', active', retire) ∧
      w'.store.Ok (rowsHold active' + held) ∧
      retire.Pairwise (· < ·) ∧ (∀ i ∈ retire, idx ≤ i ∧ i < idx + active'.length) ∧
      Settles world w (rowsTx active) w' (rowsTx (survivorsFrom idx active' retire)) ∧
      ∀ req ∈ survivorsFrom idx active' retire, req.Lasting fuel := by
  induction active generalizing w idx held with
  | nil =>
    exact ⟨w, [], [], rfl, ok, List.Pairwise.nil, fun _ member => absurd member List.not_mem_nil, .refl w [],
      fun _ member => absurd member List.not_mem_nil⟩
  | cons req active ih =>
    rw [rowsHold_cons, add_assoc] at ok
    obtain ⟨w₁, req₁, retires, applied, ok₁, settles₁, lasting₁⟩ :=
      applyRow_spec world (reports idx) (lasting req List.mem_cons_self) ok
    rw [add_left_comm] at ok₁
    obtain ⟨w₂, active₂, retire, rest, ok₂, rising, range, settles₂, lasting₂⟩ :=
      ih (idx + 1) (fun other member => lasting other (List.mem_cons_of_mem _ member)) ok₁
    have whole := settles₁.append settles₂
    have ok' : w₂.store.Ok (rowsHold (req₁ :: active₂) + held) := by
      rw [rowsHold_cons, add_assoc, add_left_comm]
      exact ok₂
    have out : idx ∉ retire := fun member => by
      have low := (range idx member).1
      omega
    rw [applyRows, applied]
    simp only [rest]
    cases retires with
    | true =>
      have others : survivorsFrom (idx + 1) active₂ (idx :: retire) =
          survivorsFrom (idx + 1) active₂ retire :=
        survivorsFrom_congr fun i low _ => by
          have apart : i ≠ idx := by omega
          simp [apart]
      refine ⟨w₂, req₁ :: active₂, idx :: retire, rfl, ok', ?_, ?_, ?_, ?_⟩
      · exact List.pairwise_cons.mpr ⟨fun i member => (range i member).1, rising⟩
      · intro i member
        rw [List.length_cons]
        rcases List.mem_cons.mp member with rfl | later
        · omega
        · obtain ⟨low, high⟩ := range i later
          omega
      · rw [survivorsFrom, if_pos List.mem_cons_self, others]
        exact whole
      · rw [survivorsFrom, if_pos List.mem_cons_self, others]
        exact lasting₂
    | false =>
      refine ⟨w₂, req₁ :: active₂, retire, rfl, ok', rising, ?_, ?_, ?_⟩
      · intro i member
        obtain ⟨low, high⟩ := range i member
        rw [List.length_cons]
        omega
      · rw [survivorsFrom, if_neg out]
        exact whole
      · rw [survivorsFrom, if_neg out]
        intro other member
        rcases List.mem_cons.mp member with rfl | later
        · exact lasting₁ rfl
        · exact lasting₂ other later

/-- The decode loop settles every row and gives all their pages back. -/
theorem decodeRounds_spec (world : World) (active : List (ActiveKimiRequest H))
    (lasting : ∀ req ∈ active, req.Lasting fuel)
    (ok : w.store.Ok (rowsHold active + held)) :
    ∃ w', world.decodeRounds fuel w active = some w' ∧ Settles world w (rowsTx active) w' [] ∧
      w'.store.Ok held := by
  induction fuel generalizing w active with
  | zero =>
    cases active with
    | nil =>
      rw [rowsHold_nil, zero_add] at ok
      exact ⟨w, rfl, .refl w [], ok⟩
    | cons req active =>
      obtain ⟨good, few⟩ := lasting req List.mem_cons_self
      have running := good.running
      omega
  | succ fuel ih =>
    cases active with
    | nil =>
      rw [rowsHold_nil, zero_add] at ok
      exact ⟨w, by rw [decodeRounds], .refl w [], ok⟩
    | cons req rows =>
      obtain ⟨store, active, failed, scheduled, same, lasting₁, ok₁⟩ :=
        scheduleRows_spec (req :: rows) lasting ok
      rw [decodeRounds, scheduled]
      rw [← same]
      cases failed with
      | true =>
        obtain ⟨settles, ok₂⟩ := drainErrors_spec world (w := { w with store })
          "Kimi-K2 decode KV block accounting violated full-lifetime reservation" active ok₁
        exact ⟨_, rfl, settles.from_store, ok₂⟩
      | false =>
        obtain ⟨pages, gathered⟩ := mapM_stepPageIndices active ActiveKimiRequest.kv
        simp only [gathered]
        split
        · obtain ⟨settles, ok₂⟩ := drainErrors_spec world (w := { w with store, calls := w.calls + 1 })
            "Kimi-K2 batch decode forward failed" active ok₁
          exact ⟨_, rfl, ⟨settles.most, settles.heard⟩, ok₂⟩
        · next reports _ =>
          obtain ⟨w₁, active₁, retire, applied, ok₂, rising, range, settles₁, lasting₂⟩ :=
            applyRows_spec world (w := { w with store, calls := w.calls + 1 }) reports 0 active lasting₁ ok₁
          have falling : retire.reverse.Pairwise (· > ·) := List.pairwise_reverse.mpr rising
          have bound : ∀ i ∈ retire.reverse, i < active₁.length := fun i member => by
            obtain ⟨-, high⟩ := range i (List.mem_reverse.mp member)
            omega
          obtain ⟨store₂, removed, ok₃⟩ := removeRows_spec falling bound ok₂
          have left : (retire.reverse.foldl swapRemove active₁).Perm (survivors active₁ retire) := by
            have moved := @foldl_swapRemove _ _ falling active₁ [] bound
            rw [List.append_nil, List.append_nil] at moved
            exact moved.trans (List.Perm.of_eq (survivorsFrom_congr fun i _ _ => List.mem_reverse))
          obtain ⟨w₂, done, settles₂, ok₄⟩ :=
            ih (w := { w₁ with store := store₂ }) (retire.reverse.foldl swapRemove active₁)
            (fun req member => lasting₂ req (left.mem_iff.mp member)) ok₃
          simp only [applied, removed]
          refine ⟨w₂, done, ?_, ok₄⟩
          have here : Settles world w (rowsTx active) w₁ (rowsTx (survivors active₁ retire)) :=
            ⟨settles₁.most, settles₁.heard⟩
          exact (here.perm (.refl _) (left.map _).symm).trans settles₂.from_store

end World

end PegaInfer.KimiK2
