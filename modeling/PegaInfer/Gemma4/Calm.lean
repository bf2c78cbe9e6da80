import PegaInfer.Gemma4.Aside
import PegaInfer.Gemma4.Increment

namespace PegaInfer.Gemma4

open Frontend (RequestId LedgerCall Instant)
open SwapRemove

/-- The same request with pages reserved behind those it has. -/
structure Grown (kv later : GemmaKv) : Prop where
  frontier : later.local_.frontier = kv.local_.frontier
  origin : later.local_.originPages = kv.local_.originPages
  resident : ∃ extra, later.local_.resident = kv.local_.resident ++ extra
  pages : ∃ extra, later.global.pages = kv.global.pages ++ extra

theorem Grown.refl (kv : GemmaKv) : Grown kv kv := ⟨rfl, rfl, ⟨[], by simp⟩, ⟨[], by simp⟩⟩

theorem Grown.trans {kv middle later : GemmaKv} (first : Grown kv middle)
    (second : Grown middle later) : Grown kv later := by
  obtain ⟨one, resident⟩ := first.resident
  obtain ⟨two, resident'⟩ := second.resident
  obtain ⟨three, pages⟩ := first.pages
  obtain ⟨four, pages'⟩ := second.pages
  exact ⟨second.frontier.trans first.frontier, second.origin.trans first.origin,
    ⟨one ++ two, by rw [resident', resident, List.append_assoc]⟩,
      ⟨three ++ four, by rw [pages', pages, List.append_assoc]⟩⟩

theorem Continues.grown {kv middle later : GemmaKv} (first : Continues kv middle)
    (second : Grown middle later) : Continues kv later := by
  obtain ⟨one, resident⟩ := first.resident
  obtain ⟨two, resident'⟩ := second.resident
  obtain ⟨three, pages⟩ := first.pages
  obtain ⟨four, pages'⟩ := second.pages
  exact ⟨second.frontier.trans first.frontier,
    ⟨one ++ two, by rw [resident', resident, second.origin, List.append_assoc]⟩,
    ⟨three ++ four, by rw [pages', pages, List.append_assoc]⟩⟩

theorem admitTokens_grown {pools later : Pools} {kv grown : GemmaKv} {count : Nat}
    (admitted : admitTokens pools kv count = (some grown, later)) : Grown kv grown := by
  unfold admitTokens at admitted
  dsimp only at admitted
  split at admitted
  · simp at admitted
  · split at admitted
    · split at admitted
      · split at admitted
        · obtain ⟨rfl, rfl⟩ := Prod.mk.inj admitted |>.imp Option.some.inj id
          exact ⟨rfl, rfl, ⟨_, rfl⟩, ⟨_, rfl⟩⟩
        · simp at admitted
      · simp at admitted
    · simp at admitted

/-- Every row is still at its place, perhaps with more pages. -/
abbrev RowsGrown (rows later : List Active) : Prop :=
  List.Forall₂ (fun entry grown : Active => Grown entry.seat.kv grown.seat.kv) rows later

theorem RowsGrown.refl (rows : List Active) : RowsGrown rows rows :=
  List.forall₂_same.mpr fun entry _ => Grown.refl entry.seat.kv

theorem RowsGrown.trans {rows middle later : List Active} (first : RowsGrown rows middle)
    (second : RowsGrown middle later) :
    RowsGrown rows later := by
  induction first generalizing later with
  | nil =>
    cases second
    exact .nil
  | cons head _ ih =>
    cases second with
    | cons head' rest => exact .cons (head.trans head') (ih rest)

/-- The rows stay as they are, or there are fewer of them. -/
def Fewer (rows later : List Active) : Prop := later.length < rows.length ∨ RowsGrown rows later

theorem Fewer.trans {rows middle later : List Active} (first : Fewer rows middle)
    (second : Fewer middle later) : Fewer rows later := by
  have upper : middle.length ≤ rows.length := by
    rcases first with fewer | grown
    · exact fewer.le
    · exact grown.length_eq.ge
  rcases second with fewer | grown
  · exact .inl (fewer.trans_le upper)
  · rcases first with fewer | grown'
    · exact .inl (grown.length_eq ▸ fewer)
    · exact .inr (grown'.trans grown)

theorem length_swapRemove_lt {α : Type} {items : List α} {index : Nat} {item : α}
    (found : items[index]? = some item) :
    (swapRemove items index).length < items.length := by
  have inside : index < items.length := (List.getElem?_eq_some_iff.mp found).1
  unfold swapRemove
  cases last : items.getLast? with
  | none =>
    rw [List.getLast?_eq_none_iff.mp last] at inside
    exact absurd inside (Nat.not_lt_zero _)
  | some last =>
    dsimp only
    rw [List.length_dropLast, List.length_set]
    omega

namespace Sched

/-- The arena keeps what it holds, and no row joins the batch or changes its place, unless the
fingerprint is gone. -/
structure Calm (s later : Sched) : Prop where
  launches : later.launches = s.launches
  arena : later.steady = none ∨
    later.steady = s.steady ∧ later.tables = s.tables ∧ later.walk = s.walk ∧ Fewer s.active later.active

/-- A calm move that leaves the walk alone. -/
structure Settles (s later : Sched) : Prop extends Calm s later where
  walk : later.walk = s.walk

namespace Calm

variable {s middle later : Sched}

theorem trans (first : Calm s middle) (second : Calm middle later) : Calm s later := by
  refine ⟨second.launches.trans first.launches, ?_⟩
  rcases second.arena with gone | ⟨steady, tables, walk, rows⟩
  · exact .inl gone
  · rcases first.arena with gone | ⟨steady', tables', walk', rows'⟩
    · exact .inl (steady.trans gone)
    · exact .inr ⟨steady.trans steady', tables.trans tables', walk.trans walk', rows'.trans rows⟩

theorem steady_none (calm : Calm s later) (gone : s.steady = none) : later.steady = none := by
  rcases calm.arena with gone' | ⟨same, -⟩
  · exact gone'
  · exact same.trans gone

theorem walk_or_none (calm : Calm s later) : later.walk = s.walk ∨ later.steady = none := by
  rcases calm.arena with gone | ⟨-, -, same, -⟩
  · exact .inr gone
  · exact .inl same

end Calm

namespace Settles

variable {s middle later : Sched}

theorem trans (first : Settles s middle) (second : Settles middle later) : Settles s later :=
  ⟨first.toCalm.trans second.toCalm, second.walk.trans first.walk⟩

theorem of_fewer (launches : later.launches = s.launches) (steady : later.steady = s.steady)
    (tables : later.tables = s.tables)
    (walk : later.walk = s.walk) (rows : Fewer s.active later.active) : Settles s later :=
  ⟨⟨launches, .inr ⟨steady, tables, walk, rows⟩⟩, walk⟩

theorem refl (s : Sched) : Settles s s := of_fewer rfl rfl rfl rfl (.inr (RowsGrown.refl _))

theorem next {rest : Sched → Sched} (goesOn : Settles s (rest s)) : Settles s (s.next rest) := by
  unfold Sched.next
  split
  · exact refl s
  · exact goesOn

theorem foldl {α : Type} {step : Sched → α → Sched} (one : ∀ s x, Settles s (step s x))
    (items : List α) (s : Sched) :
    Settles s (items.foldl step s) := by
  induction items generalizing s with
  | nil => exact refl s
  | cons item items ih => exact (one s item).trans (ih _)

end Settles

theorem Aside.settles {s later : Sched} (aside : Aside s later) : Settles s later :=
  .of_fewer aside.launches aside.steady aside.tables aside.walk
    (.inr (by rw [aside.active]; exact RowsGrown.refl _))

/-- A move beside the batch, then new rows for it. -/
theorem Aside.settles_rows {s later : Sched} {rows : List Active} (aside : Aside s later)
    (fewer : Fewer s.active rows) :
    Settles s { later with active := rows } :=
  .of_fewer aside.launches aside.steady aside.tables aside.walk fewer

theorem settles_dropRow {s : Sched} {row : Nat} {entry : Active}
    (found : s.active[row]? = some entry) : Settles s (s.dropRow row entry) :=
  .of_fewer rfl rfl rfl rfl (.inl (length_swapRemove_lt found))

section

variable (world : World)

theorem rowsGrown_set {rows : List Active} {row : Nat} {entry : Active} {kv : GemmaKv}
    (found : rows[row]? = some entry)
    (grown : Grown entry.seat.kv kv) :
    RowsGrown rows (rows.set row { entry with seat := { entry.seat with kv } }) := by
  induction rows generalizing row with
  | nil => simp at found
  | cons first rest ih =>
    cases row with
    | zero =>
      obtain rfl : first = entry := by simpa using found
      exact .cons grown (RowsGrown.refl rest)
    | succ row => exact .cons (Grown.refl _) (ih (by simpa using found))

theorem settles_readyFrom (fuel row : Nat) (s : Sched) : Settles s (s.readyFrom world fuel row) := by
  induction fuel generalizing row s with
  | zero => exact .refl s
  | succ fuel ih =>
    unfold readyFrom
    split
    · exact .refl s
    · rename_i entry found
      split
      · exact (settles_dropRow found).trans (ih _ _)
      · have probe := Aside.isAborted world s entry.seat.request.id
        dsimp only
        split
        · have told := probe.trans (Aside.tell _ (.retire entry.seat.request.id))
          exact (told.settles.trans (settles_dropRow (told.active ▸ found))).trans (ih _ _)
        · split
          · rename_i kv pools admitted
            have rows := rowsGrown_set (probe.active.symm ▸ found) (admitTokens_grown admitted)
            exact ((probe.trans (Aside.pools _ pools)).settles_rows
              (.inr (probe.active ▸ rows))).trans (ih _ _)
          · rename_i pools _
            have told := (probe.trans ((Aside.pools _ pools).trans (Aside.refuse _ .readyRows))).trans
              (Aside.tell _ (.fail entry.seat.request.id "decode KV admission failed"))
            exact (told.settles.trans (settles_dropRow (told.active ▸ found))).trans (ih _ _)

theorem settles_readyDecodeRows (s : Sched) : Settles s (s.readyDecodeRows world) :=
  settles_readyFrom world _ _ s

theorem rowsGrown_settleStagedRows (rows : List Active) (tokens : List Token) (s : Sched) :
    RowsGrown rows (settleStagedRows world rows tokens s).1 := by
  induction rows generalizing tokens s with
  | nil => exact .nil
  | cons entry rest ih =>
    refine .cons ?_ (ih _ _)
    dsimp only
    split
    · exact Grown.refl _
    · dsimp only [deliverDecodeRow]
      split
      · exact Grown.refl _
      · split
        · exact Grown.refl _
        · split <;> exact Grown.refl _

theorem settles_collectPending {s : Sched} {pending : PendingDecode} :
    (∀ later, s.collectPending world pending = .error later → later = s) ∧
      ∀ later, s.collectPending world pending = .ok later → Settles s later := by
  unfold collectPending
  split
  · exact ⟨fun later failed => (Except.error.inj failed).symm, fun later ok => by cases ok⟩
  · refine ⟨fun later failed => (by cases failed), fun later ok => ?_⟩
    cases ok
    exact (Aside.settleStagedRows world _ _ s).settles_rows (.inr (rowsGrown_settleStagedRows world _ _ s))

theorem settles_retainRunning (s : Sched) : Settles s s.retainRunning := by
  have aside : Aside s ((s.active.filter (·.stopping)).foldl (fun s entry => s.dropSeat entry.seat) s) :=
    Aside.foldl (fun s (entry : Active) => Aside.dropSeat s entry.seat) _ s
  refine aside.settles_rows ?_
  by_cases running : ∀ entry ∈ s.active, (!entry.stopping) = true
  · rw [List.filter_eq_self.mpr running]
    exact .inr (RowsGrown.refl _)
  · push Not at running
    exact .inl (List.length_filter_lt_length_iff_exists.mpr running)

theorem settles_failActiveBatch (s : Sched) (message : String) : Settles s (s.failActiveBatch message) := by
  have aside : Aside s (s.active.foldl (fun s entry =>
      (s.failIfActive entry.seat.request.id message).dropSeat entry.seat) s) :=
    Aside.foldl (fun s (entry : Active) =>
      (Aside.failIfActive s entry.seat.request.id message).trans (Aside.dropSeat _ entry.seat)) _ s
  refine aside.settles_rows ?_
  cases rows : s.active with
  | nil => exact .inr .nil
  | cons entry rest => exact .inl (by simp)

theorem settles_batchFatal (s : Sched) (message : String) : Settles s (s.batchFatal message) :=
  (settles_failActiveBatch s message).trans (Aside.halt _ _).settles

theorem settles_drainPipeline (s : Sched) : Settles s (s.drainPipeline world) := by
  unfold drainPipeline
  split
  · exact .refl s
  · rename_i pending _
    have stopped : Settles s { s with pipeline := none } :=
      .of_fewer rfl rfl rfl rfl (.inr (RowsGrown.refl _))
    split
    · rename_i later failed
      obtain rfl := (settles_collectPending world).1 later failed
      exact stopped.trans (settles_batchFatal _ _)
    · rename_i later collected
      exact (stopped.trans ((settles_collectPending world).2 later collected)).trans
        (.next (settles_retainRunning later))

theorem rowsGrown_pinRows (rows : List Active) (s : Sched) : RowsGrown rows (pinRows world rows s).2.1 := by
  induction rows generalizing s with
  | nil => exact .nil
  | cons entry rest ih =>
    unfold pinRows
    dsimp only
    split
    · exact RowsGrown.refl _
    · split
      · exact RowsGrown.refl _
      · rename_i kv pools admitted
        exact .cons (admitTokens_grown admitted) (ih _)

theorem fewer_deliverRows (rows : List Active) (samples : List Sample) (s : Sched) :
    Fewer rows ((deliverRows world rows samples s).1.map (·.2)) := by
  induction rows generalizing samples s with
  | nil => exact .inr .nil
  | cons entry rest ih =>
    cases samples with
    | nil => exact .inl (by simp [deliverRows])
    | cons token samples =>
      have row : Grown entry.seat.kv (s.deliverDecodeRow world entry token).2.1.seat.kv := by
        dsimp only [deliverDecodeRow]
        split
        · exact Grown.refl _
        · split
          · exact Grown.refl _
          · split <;> exact Grown.refl _
      rcases ih samples (s.deliverDecodeRow world entry token).2.2 with fewer | grown
      · exact .inl (by simpa [deliverRows] using fewer)
      · exact .inr (.cons row grown)

theorem settles_emitDecodeRows (s : Sched) (samples : List Sample) :
    Settles s (s.emitDecodeRows world samples) := by
  have delivered := (Aside.deliverRows world s.active samples s).settles_rows
    (fewer_deliverRows world s.active samples s)
  refine delivered.trans (Settles.foldl (fun s row => ?_) _ _)
  cases found : s.active[row]? with
  | none => exact .refl s
  | some entry => exact settles_dropRow found

/-- What `emit_decode_rows` does once its accounts were found open. -/
theorem settles_emitActive (s : Sched) :
    Settles s ((s.requireOpen (s.active.map (·.seat.request.id))).next fun s =>
      s.emitDecodeRows world (s.activeSamples world)) :=
  (Aside.requireOpen s _).settles.trans (.next (settles_emitDecodeRows world _ _))

end

/-- The batch and the arena are left alone. -/
structure Apart (s later : Sched) : Prop where
  launches : later.launches = s.launches
  steady : later.steady = s.steady
  tables : later.tables = s.tables
  walk : later.walk = s.walk
  active : later.active = s.active

/-- A move that is made without a fingerprint leaves none. -/
structure Idle (s later : Sched) : Prop where
  launches : later.launches = s.launches
  steady : s.steady = none → later.steady = none

namespace Apart

variable {s middle later : Sched}

theorem trans (first : Apart s middle) (second : Apart middle later) : Apart s later :=
  ⟨second.launches.trans first.launches, second.steady.trans first.steady, second.tables.trans first.tables,
    second.walk.trans first.walk, second.active.trans first.active⟩

theorem refl (s : Sched) : Apart s s := ⟨rfl, rfl, rfl, rfl, rfl⟩

theorem settles (apart : Apart s later) : Settles s later :=
  .of_fewer apart.launches apart.steady apart.tables apart.walk
    (.inr (by rw [apart.active]; exact RowsGrown.refl _))

theorem calm (apart : Apart s later) : Calm s later := apart.settles.toCalm

theorem foldl {α : Type} {step : Sched → α → Sched} (one : ∀ s x, Apart s (step s x))
    (items : List α) (s : Sched) :
    Apart s (items.foldl step s) := by
  induction items generalizing s with
  | nil => exact refl s
  | cons item items ih => exact (one s item).trans (ih _)

end Apart

theorem Aside.apart {s later : Sched} (aside : Aside s later) : Apart s later :=
  ⟨aside.launches, aside.steady, aside.tables, aside.walk, aside.active⟩

namespace Idle

variable {s middle later : Sched}

theorem trans (first : Idle s middle) (second : Idle middle later) : Idle s later :=
  ⟨second.launches.trans first.launches, fun gone => second.steady (first.steady gone)⟩

theorem refl (s : Sched) : Idle s s := ⟨rfl, id⟩

theorem calm (idle : Idle s later) (gone : s.steady = none) : Calm s later :=
  ⟨idle.launches, .inl (idle.steady gone)⟩

theorem next {rest : Sched → Sched} (goesOn : Idle s (rest s)) : Idle s (s.next rest) := by
  unfold Sched.next
  split
  · exact refl s
  · exact goesOn

end Idle

theorem Calm.idle {s later : Sched} (calm : Calm s later) : Idle s later := ⟨calm.launches, calm.steady_none⟩

theorem Aside.idle {s later : Sched} (aside : Aside s later) : Idle s later := aside.settles.toCalm.idle

theorem Apart.idle {s later : Sched} (apart : Apart s later) : Idle s later := apart.settles.toCalm.idle

section

variable (config : EngineConfig) (world : World)

theorem apart_capturePrefix (s : Sched) (kv : GemmaKv) (prompt : List Token) (resumed : Option Nat) :
    Apart s (s.capturePrefix config kv prompt resumed) := by
  unfold capturePrefix
  split
  · exact .refl s
  · split
    · exact (Aside.pools s _).apart
    · exact ⟨rfl, rfl, rfl, rfl, rfl⟩

theorem apart_resolveNewcomerKv (s : Sched) (prompt : List Token) :
    Apart s (s.resolveNewcomerKv config prompt).2.2 := by
  unfold resolveNewcomerKv
  split
  · exact .refl s
  · split
    · exact ⟨rfl, rfl, rfl, rfl, rfl⟩
    · split <;> exact ⟨rfl, rfl, rfl, rfl, rfl⟩

theorem apart_reserveWithEviction (kv : GemmaKv) (need : AdmissionNeed) (evictCache canWait : Bool)
    (fuel : Nat) (s : Sched) :
    Apart s (reserveWithEviction kv need evictCache canWait fuel s).2 := by
  induction fuel generalizing s with
  | zero =>
    unfold reserveWithEviction
    dsimp only
    split
    · exact (Aside.pools s _).apart
    · exact (Aside.pools s _).apart
  | succ fuel ih =>
    unfold reserveWithEviction
    dsimp only
    split
    · exact (Aside.pools s _).apart
    · split
      · rename_i same _
        obtain rfl := Nat.succ.inj same
        split
        · split
          · refine Apart.trans ?_ (ih _)
            exact ⟨rfl, rfl, rfl, rfl, rfl⟩
          · exact (Aside.pools s _).apart
        · exact (Aside.pools s _).apart
      · exact (Aside.pools s _).apart

theorem apart_prepareValid (s : Sched) (request : Request) (contextLen : Nat) (options : NewcomerOptions) :
    Apart s (s.prepareValid config world request contextLen options).2 := by
  unfold prepareValid
  have resolved := apart_resolveNewcomerKv config s request.promptTokens
  dsimp only
  split
  · exact resolved.trans (Aside.dropSeat _ _).apart
  · split
    · rename_i later reserved
      have moved := resolved.trans (reserved ▸ apart_reserveWithEviction _ _ _ _ _ _)
      exact moved.trans (Aside.dropSeat _ _).apart
    · rename_i later reserved
      have moved := resolved.trans (reserved ▸ apart_reserveWithEviction _ _ _ _ _ _)
      exact moved.trans (((Aside.dropSeat _ _).trans (Aside.refuse _ _)).trans (Aside.tell _ _)).apart
    · rename_i kv later reserved
      have moved := resolved.trans (reserved ▸ apart_reserveWithEviction _ _ _ _ _ _)
      have told := moved.trans (Aside.sendScheduled world _ request.id kv.local_.frontier).apart
      exact told.trans ⟨rfl, rfl, rfl, rfl, rfl⟩

theorem apart_prepareNewcomer (s : Sched) (request : Request) (options : NewcomerOptions) :
    Apart s (s.prepareNewcomer config world request options).2 := by
  have probe := Aside.isAborted world s request.id
  unfold prepareNewcomer
  dsimp only
  split
  · exact (probe.trans (Aside.tell _ _)).apart
  · split
    · exact (probe.trans (Aside.tell _ _)).apart
    · exact probe.apart.trans (apart_prepareValid config world _ request _ options)

theorem idle_settleFirstToken (s : Sched) (seat : Seat) (next : Token)
    (logprob : Option Frontend.TokenLogprob) :
    Idle s (s.settleFirstToken world seat next logprob) := by
  have probe := Aside.isAborted world s seat.request.id
  unfold settleFirstToken
  dsimp only
  split
  · exact ((probe.trans (Aside.tell _ _)).trans (Aside.dropSeat _ _)).idle
  · split
    · exact ((probe.trans (Aside.tell _ _)).trans (Aside.dropSeat _ _)).idle
    · have pushed := probe.trans (Aside.tell _ (.pushTokens seat.request.id [next] [logprob]))
      split
      · exact ((pushed.trans (Aside.tell _ _)).trans (Aside.dropSeat _ _)).idle
      · exact pushed.idle.trans ⟨rfl, id⟩

theorem aside_stepPlainSegment (s : Sched) (seat : Seat) (tokens : List Token) :
    Aside s (s.stepPlainSegment config world seat tokens).2.2 := by
  unfold stepPlainSegment
  split
  · exact (Aside.pools s _).trans (Aside.refuse _ _)
  · split
    · exact Aside.pools s _
    · rename_i later passed
      unfold passSingle at passed
      split at passed
      · cases passed
      · split at passed
        · cases passed
          exact Aside.pools s _
        · cases passed

theorem aside_walkPlainPrompt (chunk fuel : Nat) (seat : Seat) (s : Sched) :
    Aside s (walkPlainPrompt config world chunk fuel seat s).2.2 := by
  induction fuel generalizing seat s with
  | zero => exact aside_stepPlainSegment config world s seat _
  | succ fuel ih =>
    unfold walkPlainPrompt
    dsimp only
    split
    · split
      · exact (aside_stepPlainSegment config world s seat _).trans (ih _ _)
      · exact aside_stepPlainSegment config world s seat _
    · exact aside_stepPlainSegment config world s seat _

theorem idle_graduateReadyWalkers (walkers : List Walker) (s : Sched) :
    Idle s (graduateReadyWalkers config world walkers s).2 := by
  induction walkers generalizing s with
  | nil => exact .refl s
  | cons walker rest ih =>
    unfold graduateReadyWalkers
    split
    · exact ((apart_capturePrefix config s _ _ _).idle.trans
        (idle_settleFirstToken world _ _ _ _)).trans (ih _)
    · exact ih s

theorem idle_finishWalkers (chunk : Nat) (walkers : List Walker) (s : Sched) :
    Idle s (finishWalkers config world chunk walkers s).2 := by
  induction walkers generalizing s with
  | nil => exact .refl s
  | cons walker rest ih =>
    unfold finishWalkers
    dsimp only
    split
    · refine Idle.trans ?_ (ih _)
      have walked := aside_walkPlainPrompt config world chunk
        walker.seat.request.promptTokens.length walker.seat s
      unfold finishPlainWalker
      dsimp only
      split
      · exact walked.idle.trans (settles_emitActive world _).toCalm.idle
      · exact (walked.trans (Aside.tell _ _)).idle
    · exact ih s

theorem idle_endWalk (s : Sched) (walkers : List Walker) : Idle s (s.endWalk walkers) := by
  have dropped : Aside s (walkers.foldl (fun s walker => s.dropSeat walker.seat) s) :=
    Aside.foldl (fun s (walker : Walker) => Aside.dropSeat s walker.seat) _ s
  exact dropped.idle.trans ⟨rfl, id⟩

/-- A mixed step drops the fingerprint before anything else. -/
theorem mixedPrefillDecodeStep_calm (s : Sched) (prefills : List (Seat × List Token)) :
    (∀ later, s.mixedPrefillDecodeStep config world prefills = .error later →
      later.launches = s.launches ∧ later.steady = none) ∧
      ∀ seats later, s.mixedPrefillDecodeStep config world prefills = .ok (seats, later) →
        later.launches = s.launches ∧ later.steady = none := by
  unfold mixedPrefillDecodeStep
  dsimp only
  split
  · exact ⟨fun later failed => (by cases failed; exact ⟨rfl, rfl⟩), fun seats later ok => (by cases ok)⟩
  · split
    · exact ⟨fun later failed => (by cases failed; exact ⟨rfl, rfl⟩), fun seats later ok => (by cases ok)⟩
    · split
      · exact ⟨fun later failed => (by cases failed), fun seats later ok => (by cases ok; exact ⟨rfl, rfl⟩)⟩
      · exact ⟨fun later failed => (by cases failed; exact ⟨rfl, rfl⟩), fun seats later ok => (by cases ok)⟩

end

end Sched

end PegaInfer.Gemma4
