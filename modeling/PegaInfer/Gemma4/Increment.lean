import PegaInfer.Gemma4.Arena

namespace PegaInfer.Gemma4

/-- The tokens the row's global pages hold. -/
def DecodeRow.kvLen (row : DecodeRow) : Nat := (row.globalRow.length - 1) * 16 + row.globalLast

/-- One token further in the same pages, and in as many chunks. -/
structure DecodeRow.Advances (row next : DecodeRow) : Prop where
  position : next.position = row.position + 1
  localRow : next.localRow = row.localRow
  localLast : next.localLast = row.localLast + 1
  localStart : next.localStart = row.localStart + 1
  localOrigin : next.localOrigin = row.localOrigin
  globalRow : next.globalRow = row.globalRow
  globalLast : next.globalLast = row.globalLast + 1
  chunks : max (chunksFor next.kvLen) 1 = max (chunksFor row.kvLen) 1

theorem forall₂_map_eq {α β γ : Type} {R : α → β → Prop} {xs : List α} {ys : List β} {f : α → γ} {g : β → γ}
    (related : List.Forall₂ R xs ys) (same : ∀ x y, R x y → g y = f x) : ys.map g = xs.map f := by
  induction related with
  | nil => rfl
  | cons head _ ih => rw [List.map_cons, List.map_cons, same _ _ head, ih]

theorem forall₂_flatMap_eq {α β γ : Type} {R : α → β → Prop} {xs : List α} {ys : List β}
    {f : α → List γ} {g : β → List γ}
    (related : List.Forall₂ R xs ys) (same : ∀ x y, R x y → g y = f x) : ys.flatMap g = xs.flatMap f := by
  rw [List.flatMap_def, List.flatMap_def, forall₂_map_eq related same]

theorem forall₂_replicate {α β : Type} {R : α → β → Prop} {x : α} {y : β} (related : R x y) (count : Nat) :
    List.Forall₂ R (List.replicate count x) (List.replicate count y) := by
  induction count with
  | zero => exact .nil
  | succ count ih => exact .cons related ih

/-- Rows repeated as pseudo requests stay related. -/
theorem forall₂_repeat {α β : Type} {R : α → β → Prop} {xs : List α} {ys : List β}
    (related : List.Forall₂ R xs ys) (factor : Nat) :
    List.Forall₂ R (xs.flatMap (List.replicate factor)) (ys.flatMap (List.replicate factor)) :=
  List.rel_flatMap related fun _ _ head => forall₂_replicate head factor

theorem length_repeat {α : Type} (xs : List α) (factor : Nat) :
    (xs.flatMap (List.replicate factor)).length = xs.length * factor := by
  induction xs with
  | nil => simp
  | cons x xs ih =>
    rw [List.flatMap_cons, List.length_append, ih, List.length_replicate, List.length_cons,
      Nat.succ_mul, Nat.add_comm]

/-- An increment over a whole column. -/
theorem bump_map {α : Type} (xs : List α) (f : α → Nat) :
    bump xs.length (xs.map f) = xs.map fun x => f x + 1 := by
  unfold bump
  rw [List.take_of_length_le (by simp), List.drop_of_length_le (by simp), List.append_nil, List.map_map]
  rfl

/-- The split tables depend on the lengths through their chunk counts only. -/
theorem buildSplitKvCsr_eq {cap : Nat} {lens lens' : List Nat} (length : lens'.length = lens.length)
    (chunks : lens'.map (fun kvLen => max (chunksFor kvLen) 1) = lens.map fun kvLen =>
      max (chunksFor kvLen) 1) :
    buildSplitKvCsr cap lens' = buildSplitKvCsr cap lens := by
  unfold buildSplitKvCsr
  rw [chunks, length]

/-- What an upload writes. -/
def tablesOf (config : EngineConfig) (rows : List DecodeRow) (csr : SplitKvCsr) : Tables :=
  let pseudo := rows.flatMap (List.replicate config.globalSplitFactor)
  ⟨rows.flatMap (·.localRow), indptr (rows.map (·.localRow.length)), rows.map (·.localOrigin),
    rows.map (·.localLast),
    rows.map (·.localStart + 1), rows.flatMap (·.globalRow), indptr (rows.map (·.globalRow.length)),
      rows.map (·.position),
    pseudo.flatMap (·.globalRow), indptr (pseudo.map (·.globalRow.length)), pseudo.map (·.globalLast), csr⟩

theorem uploadTables_eq_some {config : EngineConfig} {rows : List DecodeRow} {before tables : Tables} :
    uploadTables config rows before = some tables ↔ config.tablesFit rows = true ∧ ∃ csr,
      buildSplitKvCsr config.splitCap
        ((rows.flatMap (List.replicate config.globalSplitFactor)).map DecodeRow.kvLen) = some csr ∧
        tables = tablesOf config rows csr := by
  unfold uploadTables
  cases fits : config.tablesFit rows with
  | false => simp
  | true =>
    simp only [Bool.not_true, Bool.false_eq_true, if_false, true_and, uploadSplitKvTables,
      Option.map_eq_some_iff]
    constructor
    · rintro ⟨csr, built, rfl⟩
      exact ⟨csr, built, rfl⟩
    · rintro ⟨csr, built, rfl⟩
      exact ⟨csr, built, rfl⟩

section

variable {config : EngineConfig} {rows next : List DecodeRow} {tables : Tables}

theorem tablesFit_advances (advance : List.Forall₂ DecodeRow.Advances rows next) :
    config.tablesFit next = config.tablesFit rows := by
  unfold EngineConfig.tablesFit
  rw [forall₂_flatMap_eq advance fun _ _ h => h.localRow, forall₂_flatMap_eq advance fun _ _ h => h.globalRow]

theorem splitCsr_advances (advance : List.Forall₂ DecodeRow.Advances rows next) (cap : Nat) :
    buildSplitKvCsr cap (next.map DecodeRow.kvLen) = buildSplitKvCsr cap (rows.map DecodeRow.kvLen) := by
  apply buildSplitKvCsr_eq
  · rw [List.length_map, List.length_map, advance.length_eq]
  · rw [List.map_map, List.map_map]
    exact forall₂_map_eq advance fun _ _ h => h.chunks

/-- One device increment over all rows is what an upload of the advanced rows writes. -/
theorem uploadTables_advance (advance : List.Forall₂ DecodeRow.Advances rows next)
    (uploaded : uploadTables config rows .blank = some tables) :
    uploadTables config next .blank = some (tables.advance rows.length config.globalSplitFactor) := by
  have pseudo := forall₂_repeat advance config.globalSplitFactor
  obtain ⟨fits, csr, built, rfl⟩ := uploadTables_eq_some.mp uploaded
  refine uploadTables_eq_some.mpr ⟨(tablesFit_advances advance).trans fits, csr,
    (splitCsr_advances pseudo _).trans built, ?_⟩
  simp only [Tables.advance, tablesOf]
  rw [← length_repeat, bump_map, bump_map, bump_map, bump_map]
  congr 1
  · exact (forall₂_flatMap_eq advance fun _ _ h => h.localRow).symm
  · rw [forall₂_map_eq advance fun _ _ h => by rw [h.localRow]]
  · exact (forall₂_map_eq advance fun _ _ h => h.localOrigin).symm
  · exact (forall₂_map_eq advance fun _ _ h => h.localLast).symm
  · exact (forall₂_map_eq advance fun _ _ h => by rw [h.localStart]).symm
  · exact (forall₂_flatMap_eq advance fun _ _ h => h.globalRow).symm
  · rw [forall₂_map_eq advance fun _ _ h => by rw [h.globalRow]]
  · exact (forall₂_map_eq advance fun _ _ h => h.position).symm
  · exact (forall₂_flatMap_eq pseudo fun _ _ h => h.globalRow).symm
  · rw [forall₂_map_eq pseudo fun _ _ h => by rw [h.globalRow]]
  · exact (forall₂_map_eq pseudo fun _ _ h => h.globalLast).symm

end

/-- A pad row after `count` increments. -/
def padAt (count : Nat) : DecodeRow := ⟨count, [0], count + 1, count, 0, [0], count + 1⟩

theorem padAt_advances {count : Nat} (small : count < 16) : (padAt count).Advances (padAt (count + 1)) := by
  refine ⟨rfl, rfl, rfl, rfl, rfl, rfl, rfl, ?_⟩
  simp only [DecodeRow.kvLen, padAt, chunksFor, List.length_singleton]
  omega

/-- What `decode_row` reads off a request's KV. -/
def rowOf (kv : GemmaKv) : DecodeRow :=
  ⟨kv.local_.frontier, kv.local_.resident, lastPageLen (kv.local_.frontier - kv.local_.originPages * 16 + 1),
    kv.local_.frontier - kv.local_.originPages * 16, kv.local_.originPages, kv.global.pages,
      lastPageLen (kv.local_.frontier + 1)⟩

/-- Both rows cover one more token exactly. -/
structure Covers (kv : GemmaKv) : Prop where
  started : kv.local_.originPages * 16 ≤ kv.local_.frontier
  localPages : kv.local_.resident.length = pagesFor (kv.local_.frontier + 1 - kv.local_.originPages * 16)
  globalPages : kv.global.pages.length = pagesFor (kv.local_.frontier + 1)

theorem steadyRow_some {kv : GemmaKv} {row : SteadyRow} (taken : steadyRow kv = some row) :
    Covers kv ∧ row = ⟨kv.local_.frontier + 1, kv.local_.originPages, kv.local_.resident.length,
      kv.global.pages.length,
      chunksFor (kv.local_.frontier + 1)⟩ := by
  unfold steadyRow at taken
  dsimp only [pageSize] at taken
  by_cases started : kv.local_.frontier + 1 < kv.local_.originPages * 16
  · rw [if_pos started] at taken
    cases taken
  rw [if_neg started] at taken
  by_cases empty : kv.local_.frontier + 1 - kv.local_.originPages * 16 = 0
  · rw [if_pos empty] at taken
    cases taken
  rw [if_neg empty] at taken
  by_cases pages : kv.local_.resident.length ≠
    pagesFor (kv.local_.frontier + 1 - kv.local_.originPages * 16) ∨
      kv.global.pages.length ≠ pagesFor (kv.local_.frontier + 1)
  · rw [if_pos pages] at taken
    cases taken
  rw [if_neg pages] at taken
  push Not at pages
  exact ⟨⟨by omega, pages.1, pages.2⟩, (Option.some.inj taken).symm⟩

theorem decodeRow_eq_some {maxContext : Nat} {kv : GemmaKv} {row : DecodeRow} :
    decodeRow maxContext kv = some row ↔
      (Covers kv ∧ checkStepBounds maxContext kv (kv.local_.frontier + 1) = true) ∧ row = rowOf kv := by
  unfold decodeRow
  rw [Option.map_eq_some_iff]
  constructor
  · rintro ⟨⟨localRow, globalRow⟩, prepared, rfl⟩
    unfold prepareSingle stepBounds at prepared
    dsimp only [pageSize] at prepared
    rw [if_neg (by omega)] at prepared
    by_cases bounds : (checkStepBounds maxContext kv (kv.local_.frontier + 1) &&
      decide (kv.local_.originPages * 16 ≤ kv.local_.frontier)) = true
    · rw [bounds, if_neg (by simp)] at prepared
      rw [Bool.and_eq_true, decide_eq_true_eq] at bounds
      by_cases localPages : kv.local_.resident.length =
        pagesFor (kv.local_.frontier + 1 - kv.local_.originPages * 16)
      · rw [if_neg (not_not.mpr localPages)] at prepared
        by_cases globalPages : kv.global.pages.length = pagesFor (kv.local_.frontier + 1)
        · rw [if_neg (not_not.mpr globalPages)] at prepared
          cases prepared
          exact ⟨⟨⟨bounds.2, localPages, globalPages⟩, bounds.1⟩, rfl⟩
        · rw [if_pos globalPages] at prepared
          cases prepared
      · rw [if_pos localPages] at prepared
        cases prepared
    · rw [Bool.eq_false_iff.mpr bounds, if_pos (by simp)] at prepared
      cases prepared
  · rintro ⟨⟨covers, bounds⟩, rfl⟩
    refine ⟨(kv.local_.resident, kv.global.pages), ?_, rfl⟩
    have started : decide (kv.local_.originPages * 16 ≤ kv.local_.frontier) = true :=
      decide_eq_true covers.started
    unfold prepareSingle stepBounds
    dsimp only [pageSize]
    rw [if_neg (by omega), bounds, started, if_neg (by simp),
      if_neg (not_not.mpr covers.localPages), if_neg (not_not.mpr covers.globalPages)]

/-- The same request after one step, and perhaps more pages at the back of its rows. -/
structure Continues (kv later : GemmaKv) : Prop where
  frontier : later.local_.frontier = kv.local_.frontier + 1
  resident : ∃ extra, later.local_.resident =
    kv.local_.resident.drop (later.local_.originPages - kv.local_.originPages) ++ extra
  pages : ∃ extra, later.global.pages = kv.global.pages ++ extra

theorem lastPageLen_succ {tokens : Nat} (same : pagesFor (tokens + 1) = pagesFor tokens) :
    lastPageLen (tokens + 1) = lastPageLen tokens + 1 ∧ tokens % 16 ≠ 0 := by
  unfold pagesFor at same
  have inside : tokens % 16 ≠ 0 := by omega
  unfold lastPageLen
  rw [if_neg inside]
  split <;> omega

theorem kvLen_rowOf {kv : GemmaKv} (covers : Covers kv) : (rowOf kv).kvLen = kv.local_.frontier + 1 := by
  simp only [DecodeRow.kvLen, rowOf, covers.globalPages, pagesFor, lastPageLen]
  split <;> omega

/-- A request that kept its counts is in the pages it was in. -/
theorem rowOf_advances {kv later : GemmaKv} (covers : Covers kv) (still : Covers later)
    (continues : Continues kv later)
    (origin : later.local_.originPages = kv.local_.originPages)
    (resident : later.local_.resident.length = kv.local_.resident.length)
    (pages : later.global.pages.length = kv.global.pages.length)
    (chunks : chunksFor (later.local_.frontier + 1) = chunksFor (kv.local_.frontier + 1)) :
    (rowOf kv).Advances (rowOf later) ∧ (kv.local_.frontier + 1) % 16 ≠ 0 := by
  have frontier := continues.frontier
  have sameResident : later.local_.resident = kv.local_.resident := by
    obtain ⟨extra, grown⟩ := continues.resident
    rw [origin, Nat.sub_self, List.drop_zero] at grown
    have none_ : extra.length = 0 := by
      have count := congrArg List.length grown
      rw [List.length_append] at count
      omega
    rw [grown, List.length_eq_zero_iff.mp none_, List.append_nil]
  have samePages : later.global.pages = kv.global.pages := by
    obtain ⟨extra, grown⟩ := continues.pages
    have none_ : extra.length = 0 := by
      have count := congrArg List.length grown
      rw [List.length_append] at count
      omega
    rw [grown, List.length_eq_zero_iff.mp none_, List.append_nil]
  have started := covers.started
  have localCount : pagesFor (kv.local_.frontier - kv.local_.originPages * 16 + 1 + 1) =
      pagesFor (kv.local_.frontier - kv.local_.originPages * 16 + 1) := by
    have before := covers.localPages
    have after := still.localPages
    rw [resident, before, origin, frontier] at after
    rw [show kv.local_.frontier + 1 - kv.local_.originPages * 16 =
      kv.local_.frontier - kv.local_.originPages * 16 + 1 by omega,
      show kv.local_.frontier + 1 + 1 - kv.local_.originPages * 16 =
        kv.local_.frontier - kv.local_.originPages * 16 + 1 + 1 by omega] at after
    exact after.symm
  have globalCount : pagesFor (kv.local_.frontier + 1 + 1) = pagesFor (kv.local_.frontier + 1) := by
    have before := covers.globalPages
    have after := still.globalPages
    rw [pages, before, frontier] at after
    exact after.symm
  have localLast := (lastPageLen_succ localCount).1
  have globalLast := lastPageLen_succ globalCount
  have start : later.local_.frontier - later.local_.originPages * 16 =
      kv.local_.frontier - kv.local_.originPages * 16 + 1 := by
    rw [origin, frontier]
    omega
  refine ⟨⟨frontier, sameResident, ?_, start, origin, samePages, ?_, ?_⟩, globalLast.2⟩
  · simp only [rowOf]
    rw [start, localLast]
  · simp only [rowOf]
    rw [frontier, globalLast.1]
  · rw [kvLen_rowOf covers, kvLen_rowOf still, chunks]

/-- The tables hold the batch's rows, and pad rows `count` increments after their upload. -/
structure Written (config : EngineConfig) (kvs : List GemmaKv) (padded count : Nat)
    (tables : Tables) : Prop where
  covers : ∀ kv ∈ kvs, Covers kv
  few : ∀ kv ∈ kvs, count ≤ kv.local_.frontier % 16
  fits : kvs.length ≤ padded
  uploaded : uploadTables config (kvs.map rowOf ++
    List.replicate (padded - kvs.length) (padAt count)) .blank = some tables

theorem forall₂_mapM {α β : Type} {f : α → Option β} {xs : List α} {ys : List β}
    (mapped : xs.mapM f = some ys) :
    List.Forall₂ (fun x y => f x = some y) xs ys := by
  induction xs generalizing ys with
  | nil =>
    rw [List.mapM_nil] at mapped
    cases mapped
    exact .nil
  | cons x xs ih =>
    rw [List.mapM_cons] at mapped
    obtain ⟨y, head, rest⟩ := Option.bind_eq_some_iff.mp mapped
    obtain ⟨ys, tail, made⟩ := Option.bind_eq_some_iff.mp rest
    cases made
    exact .cons head (ih tail)

theorem exists_of_forall₂ {α β : Type} {R : α → β → Prop} {xs : List α} {ys : List β}
    (related : List.Forall₂ R xs ys) {x : α} (member : x ∈ xs) :
    ∃ y, R x y := by
  induction related with
  | nil => cases member
  | cons head _ ih =>
    rcases List.mem_cons.mp member with rfl | member
    · exact ⟨_, head⟩
    · exact ih member

theorem mapM_of_forall {α β : Type} {f : α → Option β} {g : α → β} {xs : List α}
    (each : ∀ x ∈ xs, f x = some (g x)) :
    xs.mapM f = some (xs.map g) := by
  induction xs with
  | nil => rfl
  | cons x xs ih =>
    rw [List.mapM_cons, each x (by simp), ih fun y member => each y (by simp [member])]
    rfl

/-- A batch that kept every count it is compared by is in the pages it was in. -/
theorem rows_advance {kvs later : List GemmaKv} {current next : List SteadyRow}
    (before : List.Forall₂ (fun kv row => steadyRow kv = some row) kvs current)
    (after : List.Forall₂ (fun kv row => steadyRow kv = some row) later next)
    (continues : List.Forall₂ Continues kvs later)
    (advances : ((current.zip next).all fun pair => pair.1.advancesTo pair.2) = true) :
    List.Forall₂ DecodeRow.Advances (kvs.map rowOf) (later.map rowOf) ∧
      ∀ count, (∀ kv ∈ kvs, count ≤ kv.local_.frontier % 16) →
        ∀ kv ∈ later, count + 1 ≤ kv.local_.frontier % 16 := by
  induction continues generalizing current next with
  | nil => exact ⟨.nil, fun _ _ kv member => absurd member (by simp)⟩
  | @cons kv kv' kvs later head _ ih =>
    cases before with
    | @cons _ row _ current row_kv before =>
    cases after with
    | @cons _ row' _ next row_kv' after =>
    rw [List.zip_cons_cons, List.all_cons, Bool.and_eq_true] at advances
    obtain ⟨covers, rfl⟩ := steadyRow_some row_kv
    obtain ⟨covers', rfl⟩ := steadyRow_some row_kv'
    obtain ⟨same, rest⟩ := advances
    simp only [SteadyRow.advancesTo, Bool.and_eq_true, beq_iff_eq] at same
    obtain ⟨⟨⟨⟨-, origin⟩, resident⟩, pages⟩, chunks⟩ := same
    obtain ⟨row, inside⟩ := rowOf_advances covers covers' head origin resident pages chunks
    obtain ⟨rows, few⟩ := ih before after rest
    refine ⟨.cons row rows, fun count small kv'' member => ?_⟩
    rcases List.mem_cons.mp member with rfl | member
    · have bound := small kv (by simp)
      rw [head.frontier]
      omega
    · exact few count (fun kv member => small kv (by simp [member])) kv'' member

/-- The increment of an executed step keeps the tables up with a batch whose fingerprint
advances. -/
theorem Written.advance {config : EngineConfig} {kvs later : List GemmaKv}
    {current next : SteadyDecode} {padded count : Nat} {tables : Tables}
    (written : Written config kvs current.padded count tables)
    (before : decodeFingerprint kvs current.padded = some current)
    (after : decodeFingerprint later padded = some next)
    (continues : List.Forall₂ Continues kvs later) (nonempty : kvs ≠ [])
    (advances : current.advancesTo next = true) :
    Written config later padded (count + 1) (tables.advance current.padded config.globalSplitFactor) := by
  unfold decodeFingerprint at before after
  obtain ⟨rows, taken, made⟩ := Option.map_eq_some_iff.mp before
  obtain ⟨rows', taken', rfl⟩ := Option.map_eq_some_iff.mp after
  simp only [SteadyDecode.advancesTo, Bool.and_eq_true, beq_iff_eq] at advances
  obtain ⟨⟨rfl, -⟩, advances⟩ := advances
  rw [← made] at advances
  have covers' : ∀ kv ∈ later, Covers kv := fun kv member => by
    obtain ⟨row, found⟩ := exists_of_forall₂ (forall₂_mapM taken') member
    exact (steadyRow_some found).1
  obtain ⟨rows, few⟩ := rows_advance (forall₂_mapM taken) (forall₂_mapM taken') continues advances
  have length := continues.length_eq
  have small : count < 16 := by
    obtain ⟨kv, member⟩ := List.exists_mem_of_ne_nil _ nonempty
    have := written.few kv member
    omega
  have fits := written.fits
  refine ⟨covers', few count written.few, by omega, ?_⟩
  have all := List.rel_append rows (forall₂_replicate (padAt_advances small) (current.padded - kvs.length))
  have uploaded := uploadTables_advance all written.uploaded
  rw [List.length_append, List.length_map, List.length_replicate, Nat.add_sub_cancel' fits] at uploaded
  rw [← length]
  exact uploaded

/-- The pages of one row of a table. -/
def slice (pages starts : List Nat) (row : Nat) : List Nat :=
  (pages.take (starts.getD (row + 1) 0)).drop (starts.getD row 0)

theorem indptr_getD (lengths : List Nat) {row : Nat} (inside : row ≤ lengths.length) :
    (indptr lengths).getD row 0 = (lengths.take row).sum := by
  unfold indptr
  rw [List.getD_eq_getElem?_getD, List.getElem?_scanl, if_pos inside, Option.getD_some, List.sum_eq_foldl]

theorem slice_flatMap {α : Type} (rows : List α) (pages : α → List Nat) {row : Nat} {entry : α}
    (found : rows[row]? = some entry) :
    slice (rows.flatMap pages) (indptr (rows.map fun entry => (pages entry).length)) row = pages entry := by
  obtain ⟨inside, rfl⟩ := List.getElem?_eq_some_iff.mp found
  unfold slice
  rw [indptr_getD _ (by rw [List.length_map]; omega),
    indptr_getD _ (by rw [List.length_map]; omega), List.flatMap_def]
  have spec := List.drop_take_succ_flatten_eq_getElem (rows.map pages) row (by simpa using inside)
  rw [List.map_map] at spec
  rw [List.getElem_map] at spec
  exact spec

/-- Two tables tell the first `rows` rows the same. -/
structure SameRows (tables refilled : Tables) (rows factor : Nat) : Prop where
  localPages : tables.localPages = refilled.localPages
  localIndptr : tables.localIndptr = refilled.localIndptr
  localOrigins : tables.localOrigins = refilled.localOrigins
  localLast : tables.localLast.take rows = refilled.localLast.take rows
  kvChunk : tables.kvChunk.take rows = refilled.kvChunk.take rows
  globalPages : tables.globalPages = refilled.globalPages
  globalIndptr : tables.globalIndptr = refilled.globalIndptr
  positions : tables.positions.take rows = refilled.positions.take rows
  pseudoPages : tables.pseudoPages = refilled.pseudoPages
  pseudoIndptr : tables.pseudoIndptr = refilled.pseudoIndptr
  pseudoLast : tables.pseudoLast.take (rows * factor) = refilled.pseudoLast.take (rows * factor)
  csr : tables.csr = refilled.csr

/-- A row addresses the padding page alone. -/
structure PadRow (tables : Tables) (row : Nat) : Prop where
  localPages : slice tables.localPages tables.localIndptr row = [0]
  globalPages : slice tables.globalPages tables.globalIndptr row = [0]
  position : ∃ position, tables.positions[row]? = some position ∧ position < pageSize
  localLast : ∃ last, tables.localLast[row]? = some last ∧ last ≤ pageSize

structure PseudoPadRow (tables : Tables) (row : Nat) : Prop where
  pages : slice tables.pseudoPages tables.pseudoIndptr row = [0]
  last : ∃ last, tables.pseudoLast[row]? = some last ∧ last ≤ pageSize

theorem repeat_append_replicate {α : Type} (xs : List α) (x : α) (count factor : Nat) :
    (xs ++ List.replicate count x).flatMap (List.replicate factor) =
      xs.flatMap (List.replicate factor) ++ List.replicate (count * factor) x := by
  rw [List.flatMap_append]
  congr 1
  induction count with
  | zero => simp
  | succ count ih =>
    rw [List.replicate_succ, List.flatMap_cons, ih, Nat.succ_mul, Nat.add_comm, List.replicate_add]

theorem getElem?_pad {α : Type} {xs : List α} {x : α} {count row : Nat} (beyond : xs.length ≤ row)
    (inside : row < xs.length + count) :
    (xs ++ List.replicate count x)[row]? = some x := by
  rw [List.getElem?_append_right beyond, List.getElem?_replicate, if_pos (by omega)]

section

variable {config : EngineConfig} {kvs : List GemmaKv} {padded count : Nat} {tables : Tables}

/-- Pad rows differ from fresh ones in what the increments count only. -/
theorem pads_chunks (small : count < 16) (rows : List DecodeRow) (pads : Nat) :
    (rows ++ List.replicate pads (padAt count)).map (fun row => max (chunksFor row.kvLen) 1) =
      (rows ++ List.replicate pads padRow).map fun row => max (chunksFor row.kvLen) 1 := by
  have one : max (chunksFor (padAt count).kvLen) 1 = max (chunksFor padRow.kvLen) 1 := by
    simp only [DecodeRow.kvLen, padAt, padRow, chunksFor, List.length_singleton]
    omega
  rw [List.map_append, List.map_append, List.map_replicate, List.map_replicate, one]

theorem Written.count_lt (written : Written config kvs padded count tables)
    (nonempty : kvs ≠ []) : count < 16 := by
  obtain ⟨kv, member⟩ := List.exists_mem_of_ne_nil _ nonempty
  have few := written.few kv member
  omega

theorem flatMap_pads (pages : DecodeRow → List Nat) (rows : List DecodeRow) (pads : Nat)
    (same : pages (padAt count) = pages padRow) :
    (rows ++ List.replicate pads (padAt count)).flatMap pages =
      (rows ++ List.replicate pads padRow).flatMap pages := by
  rw [List.flatMap_append, List.flatMap_append, List.flatMap_replicate, List.flatMap_replicate, same]

theorem map_pads (value : DecodeRow → Nat) (rows : List DecodeRow) (pads : Nat)
    (same : value (padAt count) = value padRow) :
    (rows ++ List.replicate pads (padAt count)).map value =
      (rows ++ List.replicate pads padRow).map value := by
  rw [List.map_append, List.map_append, List.map_replicate, List.map_replicate, same]

theorem take_map_pads (value : DecodeRow → Nat) (rows : List DecodeRow) (pads : Nat) (pad pad' : DecodeRow) :
    ((rows ++ List.replicate pads pad).map value).take rows.length =
      ((rows ++ List.replicate pads pad').map value).take rows.length := by
  rw [List.map_append, List.map_append, List.take_left' (List.length_map _),
    List.take_left' (List.length_map _)]

theorem sameRows_pads (config : EngineConfig) (rows : List DecodeRow) (csr : SplitKvCsr) (pads count : Nat) :
    SameRows (tablesOf config (rows ++ List.replicate pads (padAt count)) csr)
      (tablesOf config (rows ++ List.replicate pads padRow) csr)
      rows.length config.globalSplitFactor := by
  unfold tablesOf
  rw [repeat_append_replicate, repeat_append_replicate]
  refine
    { localPages := flatMap_pads _ _ _ rfl
      localIndptr := congrArg indptr (map_pads _ _ _ rfl)
      localOrigins := map_pads _ _ _ rfl
      localLast := take_map_pads _ _ _ _ _
      kvChunk := take_map_pads _ _ _ _ _
      globalPages := flatMap_pads _ _ _ rfl
      globalIndptr := congrArg indptr (map_pads _ _ _ rfl)
      positions := take_map_pads _ _ _ _ _
      pseudoPages := flatMap_pads _ _ _ rfl
      pseudoIndptr := congrArg indptr (map_pads _ _ _ rfl)
      pseudoLast := ?_
      csr := rfl }
  rw [← length_repeat]
  exact take_map_pads _ _ _ _ _

/-- A refill succeeds and writes the real rows alike. -/
theorem Written.refill (written : Written config kvs padded count tables) (nonempty : kvs ≠ [])
    (bounds : ∀ kv ∈ kvs, checkStepBounds config.maxContext kv (kv.local_.frontier + 1) = true)
    (before : Tables) :
    ∃ refilled, refillTables config kvs padded before = some refilled ∧
      SameRows tables refilled kvs.length config.globalSplitFactor := by
  have planned : kvs.mapM (decodeRow config.maxContext) = some (kvs.map rowOf) :=
    mapM_of_forall fun kv member => decodeRow_eq_some.mpr ⟨⟨written.covers kv member, bounds kv member⟩, rfl⟩
  obtain ⟨fits, csr, built, rfl⟩ := uploadTables_eq_some.mp written.uploaded
  have small := written.count_lt nonempty
  have fits' : config.tablesFit (kvs.map rowOf ++ List.replicate (padded - kvs.length) padRow) = true := by
    rw [← fits]
    unfold EngineConfig.tablesFit
    rw [List.flatMap_append, List.flatMap_append, List.flatMap_append, List.flatMap_append,
      List.flatMap_replicate, List.flatMap_replicate,
      List.flatMap_replicate, List.flatMap_replicate]
    rfl
  have built' : buildSplitKvCsr config.splitCap
      (((kvs.map rowOf ++ List.replicate (padded - kvs.length) padRow).flatMap
        (List.replicate config.globalSplitFactor)).map DecodeRow.kvLen) =
        some csr := by
    rw [← built]
    rw [repeat_append_replicate, repeat_append_replicate]
    apply buildSplitKvCsr_eq
    · simp
    · rw [List.map_map, List.map_map]
      exact (pads_chunks small _ _).symm
  refine ⟨tablesOf config (kvs.map rowOf ++ List.replicate (padded - kvs.length) padRow) csr, ?_, ?_⟩
  · unfold refillTables
    rw [planned]
    exact uploadTables_eq_some.mpr ⟨fits', csr, built', rfl⟩
  · have same := sameRows_pads config (kvs.map rowOf) csr (padded - kvs.length) count
    rwa [List.length_map] at same

/-- Every pad row addresses its padding page alone. -/
theorem Written.pad (written : Written config kvs padded count tables) (nonempty : kvs ≠ [])
    {row : Nat} (beyond : kvs.length ≤ row)
    (inside : row < padded) : PadRow tables row := by
  obtain ⟨-, csr, -, rfl⟩ := uploadTables_eq_some.mp written.uploaded
  have small := written.count_lt nonempty
  have found : (kvs.map rowOf ++ List.replicate (padded - kvs.length) (padAt count))[row]? =
      some (padAt count) :=
    getElem?_pad (by rwa [List.length_map]) (by rw [List.length_map]; omega)
  refine ⟨slice_flatMap _ DecodeRow.localRow found, slice_flatMap _ DecodeRow.globalRow found,
    ⟨count, ?_, small⟩, ⟨count + 1, ?_, by dsimp only [pageSize]; omega⟩⟩
  · rw [tablesOf, List.getElem?_map, found]
    rfl
  · rw [tablesOf, List.getElem?_map, found]
    rfl

theorem Written.pseudoPad (written : Written config kvs padded count tables) (nonempty : kvs ≠ []) {row : Nat}
    (beyond : kvs.length * config.globalSplitFactor ≤ row)
    (inside : row < padded * config.globalSplitFactor) : PseudoPadRow tables row := by
  obtain ⟨-, csr, -, rfl⟩ := uploadTables_eq_some.mp written.uploaded
  have small := written.count_lt nonempty
  have room : kvs.length * config.globalSplitFactor +
      (padded - kvs.length) * config.globalSplitFactor = padded * config.globalSplitFactor := by
    rw [← Nat.add_mul, Nat.add_sub_cancel' written.fits]
  have found : ((kvs.map rowOf ++ List.replicate (padded - kvs.length) (padAt count)).flatMap
    (List.replicate config.globalSplitFactor))[row]? =
      some (padAt count) := by
    rw [repeat_append_replicate]
    exact getElem?_pad (by rwa [length_repeat, List.length_map])
      (by rw [length_repeat, List.length_map]; omega)
  refine ⟨slice_flatMap _ DecodeRow.globalRow found, ⟨count + 1, ?_, by dsimp only [pageSize]; omega⟩⟩
  rw [tablesOf, List.getElem?_map, found]
  rfl

/-- A refill writes the batch. -/
theorem written_refill {before : Tables} (fits : kvs.length ≤ padded)
    (refilled : refillTables config kvs padded before = some tables) :
    Written config kvs padded 0 tables ∧ ∀ kv ∈ kvs,
      checkStepBounds config.maxContext kv (kv.local_.frontier + 1) = true := by
  unfold refillTables at refilled
  split at refilled
  · cases refilled
  · rename_i rows planned
    have each := forall₂_mapM planned
    have same : rows = kvs.map rowOf := by
      have mapped := forall₂_map_eq (f := rowOf) (g := id) each fun kv row found =>
        (decodeRow_eq_some.mp found).2
      rwa [List.map_id] at mapped
    have planned : ∀ kv ∈ kvs, Covers kv ∧
        checkStepBounds config.maxContext kv (kv.local_.frontier + 1) = true := fun kv member => by
      obtain ⟨row, found⟩ := exists_of_forall₂ each member
      exact (decodeRow_eq_some.mp found).1
    exact ⟨⟨fun kv member => (planned kv member).1, fun _ _ => Nat.zero_le _, fits,
      same ▸ refilled⟩, fun kv member => (planned kv member).2⟩

end

end PegaInfer.Gemma4
