import PegaInfer.Gemma4.Held

namespace PegaInfer.Gemma4

open PagedRows SwapRemove

/-- A request's KV: both families hold the rows of its own tokens, in as many pages as the
release law and the last admission leave. -/
structure LiveOk (window : Nat) (rows : Rows) (live : Live) : Prop where
  frontiers : live.kv.global.seqLen = live.kv.local_.frontier
  within : live.kv.local_.frontier ≤ live.context.length
  origin : live.stage ≠ .flying → live.kv.local_.originPages = originAt window live.kv.local_.frontier
  originLe : live.kv.local_.originPages ≤ originAt window live.kv.local_.frontier
  localPages : live.kv.local_.originPages + live.kv.local_.resident.length =
    pagesFor (live.kv.local_.frontier + live.reserved)
  globalPages : live.kv.global.pages.length = pagesFor (live.kv.local_.frontier + live.reserved)
  localRows : Holds rows.local_ live.kv.local_.resident live.kv.local_.originPages live.context
    live.kv.local_.frontier
  globalRows : Holds rows.global live.kv.global.pages 0 live.context live.kv.local_.frontier
  prompting : live.stage = .prefilling → live.fed = [] ∧
    live.kv.local_.frontier + live.reserved ≤ live.prompt.length
  filled : live.stage = .flying ∨ live.stage = .prefilled →
    live.fed = [] ∧ live.kv.local_.frontier = live.prompt.length ∧ live.reserved = 0
  decoding : live.stage = .decoding → live.kv.local_.frontier = live.context.length

structure EntryOk (window maxContext : Nat) (rows : Rows) (entry : CachedKv) : Prop where
  origin : entry.localOrigin = originAt window entry.tokenIds.length
  localPages : entry.localOrigin + entry.localPages.length = pagesFor entry.tokenIds.length
  globalPages : entry.globalPages.length = pagesFor entry.tokenIds.length
  small : entry.globalPages.length ≤ entryGlobalPages maxContext
  localRows : Holds rows.local_ entry.localPages entry.localOrigin entry.tokenIds entry.tokenIds.length
  globalRows : Holds rows.global entry.globalPages 0 entry.tokenIds entry.tokenIds.length

abbrev Live.resident (live : Live) : List Nat := live.kv.local_.resident
abbrev Live.globals (live : Live) : List Nat := live.kv.global.pages

/-- How often a page of the local pool is free, held by a request or held by the cache. -/
def KvMachine.localOccupancy (machine : KvMachine) (page : Nat) : Nat :=
  machine.pools.local_.free.count page + tally page Live.resident machine.live +
    tally page CachedKv.localPages machine.cache.entries

def KvMachine.globalOccupancy (machine : KvMachine) (page : Nat) : Nat :=
  machine.pools.global.free.count page + tally page Live.globals machine.live +
    tally page CachedKv.globalPages machine.cache.entries

structure KvInv (config : KvConfig) (machine : KvMachine) : Prop where
  localOwned : ∀ page, machine.localOccupancy page ≤ 1
  globalOwned : ∀ page, machine.globalOccupancy page ≤ 1
  live : ∀ live ∈ machine.live, LiveOk config.window machine.rows live
  entries : ∀ entry ∈ machine.cache.entries, EntryOk config.window config.maxContext machine.rows entry
  bounded : machine.cache.entries.length ≤ config.cap
  cap : machine.cache.cap = config.cap
  window : machine.cache.window = config.window

section

variable {config : KvConfig} {machine : KvMachine} {window maxContext : Nat} {rows rows' : Rows}
  {live : Live} {entry : CachedKv}

theorem LiveOk.frame (ok : LiveOk window rows live)
    (locals : ∀ page ∈ live.resident, rows'.local_ page = rows.local_ page)
    (globals : ∀ page ∈ live.globals, rows'.global page = rows.global page) : LiveOk window rows' live :=
  { ok with localRows := ok.localRows.congr locals, globalRows := ok.globalRows.congr globals }

theorem EntryOk.frame (ok : EntryOk window maxContext rows entry)
    (locals : ∀ page ∈ entry.localPages, rows'.local_ page = rows.local_ page)
    (globals : ∀ page ∈ entry.globalPages, rows'.global page = rows.global page) :
    EntryOk window maxContext rows' entry :=
  { ok with localRows := ok.localRows.congr locals, globalRows := ok.globalRows.congr globals }

theorem originAt_le (window frontier : Nat) : originAt window frontier * 16 ≤ frontier := by
  unfold originAt
  omega

theorem originAt_mono (window : Nat) {one two : Nat} (le : one ≤ two) :
    originAt window one ≤ originAt window two := by
  unfold originAt
  omega

/-- What is told of a page no one else lists. -/
theorem KvInv.resident_nodup (inv : KvInv config machine) (member : live ∈ machine.live) :
    live.resident.Nodup ∧ live.globals.Nodup := by
  obtain ⟨front, back, split⟩ := List.append_of_mem member
  constructor <;> refine List.nodup_iff_count_le_one.mpr fun page => ?_
  · have owned := inv.localOwned page
    simp only [KvMachine.localOccupancy, split, tally_append, tally_cons] at owned
    omega
  · have owned := inv.globalOwned page
    simp only [KvMachine.globalOccupancy, split, tally_append, tally_cons] at owned
    omega

/-- Requests and entries whose pages nobody writes stay as they were. -/
theorem KvInv.framed (inv : KvInv config machine) {front back : List Live}
    (split : machine.live = front ++ live :: back)
    (locals : ∀ page, page ∉ live.resident → rows.local_ page = machine.rows.local_ page)
    (globals : ∀ page, page ∉ live.globals → rows.global page = machine.rows.global page) :
    (∀ other ∈ front ++ back, LiveOk config.window rows other) ∧
      ∀ entry ∈ machine.cache.entries, EntryOk config.window config.maxContext rows entry := by
  have localOwned := inv.localOwned
  have globalOwned := inv.globalOwned
  simp only [KvMachine.localOccupancy, KvMachine.globalOccupancy, split, tally_append, tally_cons]
    at localOwned globalOwned
  refine ⟨fun other member => ?_, fun entry member => ?_⟩
  · have known : other ∈ machine.live := by
      rw [split]
      rcases List.mem_append.mp member with here | there
      · exact List.mem_append_left _ here
      · exact List.mem_append_right _ (List.mem_cons_of_mem _ there)
    refine (inv.live other known).frame (fun page listed => locals page fun mine =>
      ?_) fun page listed => globals page fun mine => ?_
    · have once := tally_pos member listed
      have here := List.count_pos_iff.mpr mine
      have owned := localOwned page
      rw [tally_append] at once
      omega
    · have once := tally_pos member listed
      have here := List.count_pos_iff.mpr mine
      have owned := globalOwned page
      rw [tally_append] at once
      omega
  · refine (inv.entries entry member).frame (fun page listed => locals page fun mine =>
      ?_) fun page listed => globals page fun mine => ?_
    · have once := tally_pos member listed
      have here := List.count_pos_iff.mpr mine
      have owned := localOwned page
      omega
    · have once := tally_pos member listed
      have here := List.count_pos_iff.mpr mine
      have owned := globalOwned page
      omega

/-- A request changed in place, its pages traded with the pools only. -/
theorem KvInv.changed (inv : KvInv config machine) {front back : List Live} {live' : Live} {pools : Pools}
    (split : machine.live = front ++ live :: back)
    (locals : ∀ page, pools.local_.free.count page + live'.resident.count page =
      machine.pools.local_.free.count page + live.resident.count page)
    (globals : ∀ page, pools.global.free.count page + live'.globals.count page =
      machine.pools.global.free.count page + live.globals.count page)
    (localFrame : ∀ page, page ∉ live.resident → rows.local_ page = machine.rows.local_ page)
    (globalFrame : ∀ page, page ∉ live.globals → rows.global page = machine.rows.global page)
    (ok : LiveOk config.window rows live') :
    KvInv config ⟨pools, rows, machine.cache, front ++ live' :: back⟩ := by
  obtain ⟨others, entries⟩ := inv.framed split localFrame globalFrame
  refine ⟨fun page => ?_, fun page => ?_, fun other member => ?_, entries, inv.bounded, inv.cap, inv.window⟩
  · have owned := inv.localOwned page
    have traded := locals page
    simp only [KvMachine.localOccupancy, split, tally_append, tally_cons] at owned ⊢
    omega
  · have owned := inv.globalOwned page
    have traded := globals page
    simp only [KvMachine.globalOccupancy, split, tally_append, tally_cons] at owned ⊢
    omega
  · rcases List.mem_append.mp member with here | there
    · exact others other (List.mem_append_left _ here)
    · rcases List.mem_cons.mp there with rfl | there
      · exact ok
      · exact others other (List.mem_append_right _ there)

theorem tryReserve_some {pool rest : Pool} {pages : List Nat} {n : Nat}
    (reserved : pool.tryReserve n = some (pages, rest)) :
    pages.length = n ∧ pool.free = pages ++ rest.free := by
  unfold Pool.tryReserve at reserved
  split at reserved
  · simp at reserved
  · simp only [Option.some.injEq, Prod.mk.injEq] at reserved
    obtain ⟨rfl, rfl⟩ := reserved
    exact ⟨List.length_take_of_le (by omega), (List.take_append_drop _ _).symm⟩

theorem pagesToReserve_some {kvLen accounted need : Nat}
    (needs : pagesToReserve kvLen accounted = some need) :
    accounted + need = pagesFor kvLen := by
  unfold pagesToReserve at needs
  split at needs
  · simp at needs
  · simp only [Option.some.injEq] at needs
    omega

theorem count_dropEach (pool : Pool) (need page : Nat) :
    ((pool.reserveEach need).2.dropEach (pool.reserveEach need).1).free.count page =
      pool.free.count page := by
  unfold Pool.dropEach Pool.reserveEach
  rw [List.count_append, List.count_reverse, count_reserved]

/-- A successful admission accounts for exactly the pages its tokens need. -/
theorem admitTokens_some {pools pools' : Pools} {kv kv' : GemmaKv} {count : Nat}
    (admitted : admitTokens pools kv count = (some kv', pools')) :
    ∃ locals globals, kv' = ⟨⟨kv.local_.resident ++ locals, kv.local_.originPages,
      kv.local_.frontier⟩, ⟨kv.global.pages ++ globals, kv.global.seqLen⟩⟩ ∧
      kv.local_.originPages + (kv.local_.resident ++ locals).length = pagesFor (kv.local_.frontier + count) ∧
      (kv.global.pages ++ globals).length = pagesFor (kv.local_.frontier + count) ∧
      pools.local_.free = locals ++ pools'.local_.free ∧
        pools.global.free = globals ++ pools'.global.free := by
  unfold admitTokens at admitted
  dsimp only at admitted
  split at admitted
  · simp at admitted
  · cases localEq : pagesToReserve (kv.local_.frontier + count)
      (kv.local_.originPages + kv.local_.resident.length) with
    | none => simp [localEq] at admitted
    | some localNeed =>
      cases globalEq : pagesToReserve (kv.local_.frontier + count) kv.global.pages.length with
      | none => simp [localEq, globalEq] at admitted
      | some globalNeed =>
        rw [localEq, globalEq] at admitted
        by_cases enough : (pools.local_.reserveEach localNeed).1.length = localNeed
        · cases reserved : pools.global.tryReserve globalNeed with
          | none => simp [enough, reserved] at admitted
          | some taken =>
            obtain ⟨globals, rest⟩ := taken
            simp only [enough, reserved, if_true, Prod.mk.injEq, Option.some.injEq] at admitted
            obtain ⟨rfl, rfl⟩ := admitted
            obtain ⟨long, left⟩ := tryReserve_some reserved
            have localTotal := pagesToReserve_some localEq
            have globalTotal := pagesToReserve_some globalEq
            refine ⟨_, globals, rfl, ?_, ?_, (List.take_append_drop localNeed _).symm, left⟩
            · rw [List.length_append, enough]
              omega
            · rw [List.length_append, long]
              omega
        · simp [enough] at admitted

/-- A refused admission leaves the global pool alone and hands the local pages it had drawn back
in the other order. -/
theorem admitTokens_refused {pools pools' : Pools} {kv : GemmaKv} {count : Nat}
    (refused : admitTokens pools kv count = (none, pools')) :
    pools'.global = pools.global ∧
      ∃ drawn rest, pools.local_.free = drawn ++ rest ∧ pools'.local_.free = drawn.reverse ++ rest := by
  unfold admitTokens at refused
  dsimp only at refused
  split at refused
  · obtain rfl := (Prod.mk.inj refused).2
    exact ⟨rfl, [], _, rfl, rfl⟩
  · cases localEq : pagesToReserve (kv.local_.frontier + count)
      (kv.local_.originPages + kv.local_.resident.length) with
    | none =>
      rw [localEq] at refused
      obtain rfl := (Prod.mk.inj refused).2
      exact ⟨rfl, [], _, rfl, rfl⟩
    | some localNeed =>
      cases globalEq : pagesToReserve (kv.local_.frontier + count) kv.global.pages.length with
      | none =>
        rw [localEq, globalEq] at refused
        obtain rfl := (Prod.mk.inj refused).2
        exact ⟨rfl, [], _, rfl, rfl⟩
      | some globalNeed =>
        have split := (List.take_append_drop localNeed pools.local_.free).symm
        rw [localEq, globalEq] at refused
        by_cases enough : (pools.local_.reserveEach localNeed).1.length = localNeed
        · cases reserved : pools.global.tryReserve globalNeed with
          | none =>
            simp only [enough, reserved, if_true, Prod.mk.injEq, true_and] at refused
            subst refused
            exact ⟨rfl, _, _, split, rfl⟩
          | some taken => simp [enough, reserved] at refused
        · simp only [enough, if_false, Prod.mk.injEq, true_and] at refused
          subst refused
          exact ⟨rfl, _, _, split, rfl⟩

theorem admitTokens_none {pools pools' : Pools} {kv : GemmaKv} {count : Nat}
    (refused : admitTokens pools kv count = (none, pools')) (page : Nat) :
    pools'.local_.free.count page = pools.local_.free.count page ∧
      pools'.global.free.count page = pools.global.free.count page := by
  obtain ⟨global, drawn, rest, before, after⟩ := admitTokens_refused refused
  rw [global, before, after, List.count_append, List.count_append, List.count_reverse]
  exact ⟨rfl, rfl⟩

theorem pagesFor_sub {origin tokens : Nat} (le : origin * 16 ≤ tokens) :
    origin + pagesFor (tokens - origin * 16) = pagesFor tokens := by
  unfold pagesFor
  omega

/-- A pass runs over the request's own rows, which cover it exactly. -/
theorem prepareSingle_some {kv : GemmaKv} {count : Nat} {localRow globalRow : List Nat}
    (prepared : prepareSingle maxContext kv count = some (localRow, globalRow)) :
    localRow = kv.local_.resident ∧ globalRow = kv.global.pages ∧
      kv.local_.originPages + kv.local_.resident.length = pagesFor (kv.local_.frontier + count) ∧
      kv.global.pages.length = pagesFor (kv.local_.frontier + count) := by
  unfold prepareSingle at prepared
  dsimp only [pageSize] at prepared
  split at prepared
  · simp at prepared
  · split at prepared
    · simp at prepared
    · rename_i bounds
      simp only [stepBounds, checkStepBounds, pageSize, Bool.not_eq_true', Bool.not_eq_false,
        Bool.and_eq_true, decide_eq_true_eq] at bounds
      split at prepared
      · simp at prepared
      · split at prepared
        · simp at prepared
        · rename_i locals globals
          simp only [ne_eq, Decidable.not_not] at locals globals
          simp only [Option.some.injEq, Prod.mk.injEq] at prepared
          refine ⟨prepared.1.symm, prepared.2.symm, ?_, globals⟩
          rw [locals]
          exact pagesFor_sub (by omega)

theorem LiveOk.prepareMixed_some (ok : LiveOk window rows live) {localRow globalRow : List Nat}
    (prepared : prepareMixed maxContext live.kv live.reserved = some (localRow, globalRow)) :
    localRow = live.resident ∧ globalRow = live.globals := by
  have below := originAt_le window live.kv.local_.frontier
  have start := ok.originLe
  have cover := @pagesFor_sub live.kv.local_.originPages (live.kv.local_.frontier + live.reserved) (by omega)
  have locals := ok.localPages
  have globals := ok.globalPages
  unfold prepareMixed at prepared
  dsimp only [pageSize] at prepared
  split at prepared
  · simp at prepared
  · split at prepared
    · simp at prepared
    · split at prepared
      · simp at prepared
      · simp only [Option.some.injEq, Prod.mk.injEq] at prepared
        obtain ⟨rfl, rfl⟩ := prepared
        exact ⟨List.take_of_length_le (by omega), List.take_of_length_le (by omega)⟩

theorem settleStep_some {pools pools' : Pools} {kv kv' : GemmaKv} {count : Nat}
    (settled : settleStep window pools kv count = some (kv', pools')) :
    kv.local_.originPages ≤ originAt window (kv.local_.frontier + count) ∧
    originAt window (kv.local_.frontier + count) - kv.local_.originPages ≤ kv.local_.resident.length ∧
    kv' = ⟨⟨kv.local_.resident.drop (originAt window (kv.local_.frontier + count) - kv.local_.originPages),
        originAt window (kv.local_.frontier + count), kv.local_.frontier + count⟩,
          ⟨kv.global.pages, kv.global.seqLen + count⟩⟩ ∧
      pools' = ⟨pools.local_.dropEach (kv.local_.resident.take
        (originAt window (kv.local_.frontier + count) - kv.local_.originPages)), pools.global⟩ := by
  unfold settleStep advanceAndRelease at settled
  cases planned : planRelease kv.local_ count window with
  | none => simp [planned] at settled
  | some plan =>
    simp only [planned, Option.some.injEq, Prod.mk.injEq] at settled
    unfold planRelease at planned
    dsimp only at planned
    split at planned
    · simp at planned
    · split at planned
      · simp at planned
      · simp only [Option.some.injEq] at planned
        subst planned
        obtain ⟨rfl, rfl⟩ := settled
        exact ⟨by omega, by omega, rfl, rfl⟩

theorem LiveOk.lastPrefix (ok : LiveOk window rows live) :
    lastPrefix rows live.kv = live.context.take live.kv.local_.frontier := by
  unfold Gemma4.lastPrefix
  rw [ok.frontiers]
  split
  · rename_i zero
    rw [zero, List.take_zero]
  · have last := ok.globalRows (live.kv.local_.frontier - 1) (by omega) (by omega)
    have shift : live.kv.local_.frontier - 1 + 1 = live.kv.local_.frontier := by omega
    rw [Nat.zero_mul, Nat.sub_zero, shift] at last
    rw [last, Option.getD_some]

/-- What a pass over the next tokens leaves: their rows, and every other page as it was. -/
theorem LiveOk.towered (ok : LiveOk window rows live)
    (distinct : live.resident.Nodup ∧ live.globals.Nodup) {tokens context : List Token}
    (same : context.take live.kv.local_.frontier = live.context.take live.kv.local_.frontier)
    (next : context.take (live.kv.local_.frontier + tokens.length) =
      context.take live.kv.local_.frontier ++ tokens)
    (localCover : live.kv.local_.originPages + live.resident.length =
      pagesFor (live.kv.local_.frontier + tokens.length))
    (globalCover : live.globals.length = pagesFor (live.kv.local_.frontier + tokens.length)) :
    Holds (runTower rows live.kv live.resident live.globals tokens).local_ live.resident
      live.kv.local_.originPages context
        (live.kv.local_.frontier + tokens.length) ∧
      Holds (runTower rows live.kv live.resident live.globals tokens).global live.globals 0 context
        (live.kv.local_.frontier + tokens.length) := by
  have below := originAt_le window live.kv.local_.frontier
  have start := ok.originLe
  unfold runTower
  dsimp only
  rw [ok.lastPrefix, ok.frontiers, ← same]
  refine ⟨?_, ?_⟩
  · exact (ok.localRows.of_take same).written distinct.1 (by omega) next localCover.ge
  · have rest := (ok.globalRows.of_take same).written distinct.2
      (by omega) next (by rw [Nat.zero_add]; exact globalCover.ge)
    rwa [Nat.zero_mul, Nat.sub_zero] at rest

theorem runTower_local {kv : GemmaKv} {localRow globalRow : List Nat} (tokens : List Token)
    (page : Nat) (outside : page ∉ localRow) :
    (runTower rows kv localRow globalRow tokens).local_ page = rows.local_ page := write_of_notMem outside _

theorem runTower_global {kv : GemmaKv} {localRow globalRow : List Nat} (tokens : List Token)
    (page : Nat) (outside : page ∉ globalRow) :
    (runTower rows kv localRow globalRow tokens).global page = rows.global page := write_of_notMem outside _

variable {index : Nat}

theorem KvInv.reserve (inv : KvInv config machine) (found : machine.live[index]? = some live) (count : Nat) :
    KvInv config (machine.reserve index live count) := by
  obtain ⟨front, back, split, replaced, -⟩ := split_at_index found
  have ok := inv.live live (List.mem_of_getElem? found)
  unfold KvMachine.reserve
  split
  case isFalse => exact inv
  case isTrue asked =>
    cases admitted : admitTokens machine.pools live.kv count with
    | mk granted pools =>
      cases granted with
      | none =>
        have back := admitTokens_none admitted
        refine ⟨fun page => ?_, fun page => ?_, inv.live, inv.entries, inv.bounded, inv.cap, inv.window⟩
        · have owned := inv.localOwned page
          simp only [KvMachine.localOccupancy] at owned ⊢
          rw [(back page).1]
          exact owned
        · have owned := inv.globalOwned page
          simp only [KvMachine.globalOccupancy] at owned ⊢
          rw [(back page).2]
          exact owned
      | some kv =>
        obtain ⟨locals, globals, rfl, localTotal, globalTotal, localFree, globalFree⟩ :=
          admitTokens_some admitted
        dsimp only
        rw [replaced]
        refine inv.changed split (fun page => ?_) (fun page => ?_) (fun _ _ => rfl) (fun _ _ => rfl) ?_
        · simp only [Live.resident, localFree, List.count_append]
          omega
        · simp only [Live.globals, globalFree, List.count_append]
          omega
        · refine ⟨ok.frontiers, ok.within, ok.origin, ok.originLe, localTotal, globalTotal,
            ok.localRows.append _,
            ok.globalRows.append _, fun stage => ?_, fun stage => ?_, ok.decoding⟩
          · simp only at stage
            simp only [Live.mayReserve, stage, decide_eq_true_eq] at asked
            exact ⟨(ok.prompting stage).1, asked⟩
          · rcases stage with stage | stage <;> simp only at stage <;> simp [Live.mayReserve, stage] at asked

/-- A step that wrote its rows and released the front. -/
theorem KvInv.passed (inv : KvInv config machine) (found : machine.live[index]? = some live)
    {tokens fed : List Token} {stage : Stage}
    {kv : GemmaKv} {pools : Pools}
    (settled : settleStep config.window machine.pools live.kv tokens.length = some (kv, pools))
    (localCover : live.kv.local_.originPages + live.resident.length =
      pagesFor (live.kv.local_.frontier + tokens.length))
    (globalCover : live.globals.length = pagesFor (live.kv.local_.frontier + tokens.length))
    (same : (live.prompt ++ fed).take live.kv.local_.frontier = live.context.take live.kv.local_.frontier)
    (next : (live.prompt ++ fed).take (live.kv.local_.frontier + tokens.length) =
      (live.prompt ++ fed).take live.kv.local_.frontier ++ tokens)
    (within : live.kv.local_.frontier + tokens.length ≤ (live.prompt ++ fed).length)
    (prompting : stage = .prefilling → fed = [] ∧
      live.kv.local_.frontier + tokens.length ≤ live.prompt.length)
    (filled : stage = .flying ∨ stage = .prefilled →
      fed = [] ∧ live.kv.local_.frontier + tokens.length = live.prompt.length)
    (decoding : stage = .decoding → live.kv.local_.frontier + tokens.length = (live.prompt ++ fed).length) :
    KvInv config ⟨pools, runTower machine.rows live.kv live.resident live.globals tokens, machine.cache,
      machine.live.set index ⟨live.prompt, fed, live.resumed, kv, 0, stage⟩⟩ := by
  obtain ⟨front, back, split, replaced, -⟩ := split_at_index found
  have member := List.mem_of_getElem? found
  have ok := inv.live live member
  obtain ⟨locals, globals⟩ := ok.towered (inv.resident_nodup member) same next localCover globalCover
  obtain ⟨moved, enough, rfl, rfl⟩ := settleStep_some settled
  rw [replaced]
  refine inv.changed split (fun page => ?_) (fun _ => rfl) (fun page outside => runTower_local _ page outside)
    (fun page outside => runTower_global _ page outside) ?_
  · have parts := @count_reserved page live.kv.local_.resident
      (originAt config.window (live.kv.local_.frontier + tokens.length) - live.kv.local_.originPages)
    simp only [Live.resident, Pool.dropEach, List.count_append, List.count_reverse]
    omega
  · refine ⟨?_, within, fun _ => rfl, le_rfl, ?_, ?_, locals.release moved, globals,
      prompting, fun filled' => ⟨(filled filled').1, (filled filled').2, rfl⟩, decoding⟩
    · dsimp only
      rw [ok.frontiers]
    · dsimp only [Live.resident] at localCover ⊢
      rw [List.length_drop, Nat.add_zero]
      omega
    · exact globalCover

theorem LiveOk.nextSegment_length (ok : LiveOk window rows live) (stage : live.stage = .prefilling) :
    live.nextSegment.length = live.reserved := by
  have fits := (ok.prompting stage).2
  unfold Live.nextSegment
  rw [List.length_take, List.length_drop]
  omega

theorem KvInv.segment (inv : KvInv config machine) (found : machine.live[index]? = some live) (mixed : Bool) :
    KvInv config (machine.segment config index live mixed) := by
  have ok := inv.live live (List.mem_of_getElem? found)
  unfold KvMachine.segment
  split
  case isFalse => exact inv
  case isTrue guard =>
    obtain ⟨stage, -⟩ := guard
    obtain ⟨unfed, fits⟩ := ok.prompting stage
    have long := ok.nextSegment_length stage
    dsimp only
    cases prepared : (if mixed then prepareMixed
      else prepareSingle) config.maxContext live.kv live.reserved with
    | none => exact inv
    | some cut =>
      obtain ⟨localRow, globalRow⟩ := cut
      obtain ⟨rfl, rfl⟩ : localRow = live.resident ∧ globalRow = live.globals := by
        cases mixed with
        | true => exact ok.prepareMixed_some prepared
        | false => exact ⟨(prepareSingle_some prepared).1, (prepareSingle_some prepared).2.1⟩
      cases settled : settleStep config.window machine.pools live.kv live.reserved with
      | none => exact inv
      | some moved =>
        obtain ⟨kv, pools⟩ := moved
        have frontier : kv.local_.frontier = live.kv.local_.frontier + live.reserved := by
          rw [(settleStep_some settled).2.2.1]
        dsimp only
        refine inv.passed found (by rw [long]; exact settled) ?_ ?_ rfl ?_ ?_ ?_ ?_ ?_
        · rw [long]
          exact ok.localPages
        · rw [long]
          exact ok.globalPages
        · rw [long, unfed, List.append_nil]
          exact List.take_add
        · rw [long, unfed, List.append_nil]
          exact fits
        · intro _
          rw [long]
          exact ⟨unfed, fits⟩
        · intro whole
          refine ⟨unfed, ?_⟩
          rw [long, ← frontier]
          by_contra short
          simp [short] at whole
        · intro later
          split at later <;> simp at later

theorem KvInv.decode (inv : KvInv config machine) (found : machine.live[index]? = some live) (token : Token) :
    KvInv config (machine.decode config index live token) := by
  have ok := inv.live live (List.mem_of_getElem? found)
  unfold KvMachine.decode
  split
  case isFalse => exact inv
  case isTrue stage =>
    have whole : live.kv.local_.frontier = live.prompt.length + live.fed.length := by
      rw [ok.decoding stage, Live.context, List.length_append]
    cases prepared : prepareSingle config.maxContext live.kv 1 with
    | none => exact inv
    | some cut =>
      obtain ⟨localRow, globalRow⟩ := cut
      obtain ⟨rfl, rfl, localCover, globalCover⟩ := prepareSingle_some prepared
      cases settled : settleStep config.window machine.pools live.kv 1 with
      | none => exact inv
      | some moved =>
        obtain ⟨kv, pools⟩ := moved
        dsimp only
        refine @KvInv.passed _ _ _ _ inv found [token] _ _ _ _ settled localCover
          globalCover ?_ ?_ ?_ ?_ ?_ ?_
        · rw [← List.append_assoc, List.take_append_of_le_length (by rw [List.length_append, whole])]
          rfl
        · have base : (live.prompt ++ live.fed).length = live.kv.local_.frontier := by
            rw [List.length_append, whole]
          rw [← List.append_assoc, ← base, List.take_left,
            List.take_of_length_le (by rw [List.length_append])]
        · simp only [List.length_append, List.length_singleton]
          omega
        · intro other
          rw [stage] at other
          simp at other
        · intro other
          rw [stage] at other
          simp at other
        · intro _
          simp only [List.length_append, List.length_singleton]
          omega

theorem KvInv.launch (inv : KvInv config machine) (found : machine.live[index]? = some live) :
    KvInv config (machine.launch config index live) := by
  obtain ⟨front, back, split, replaced, -⟩ := split_at_index found
  have member := List.mem_of_getElem? found
  have ok := inv.live live member
  unfold KvMachine.launch
  split
  case isFalse => exact inv
  case isTrue guard =>
    obtain ⟨stage, rest⟩ := guard
    obtain ⟨unfed, fits⟩ := ok.prompting stage
    have long := ok.nextSegment_length stage
    have context : live.context = live.prompt := by rw [Live.context, unfed, List.append_nil]
    cases prepared : prepareSingle config.maxContext live.kv live.reserved with
    | none => exact inv
    | some cut =>
      obtain ⟨localRow, globalRow⟩ := cut
      obtain ⟨rfl, rfl, localCover, globalCover⟩ := prepareSingle_some prepared
      have next : live.context.take (live.kv.local_.frontier + live.nextSegment.length) =
          live.context.take live.kv.local_.frontier ++ live.nextSegment := by
        rw [long, context]
        exact List.take_add
      obtain ⟨locals, globals⟩ :=
        ok.towered (inv.resident_nodup member) rfl next (by rw [long]; exact localCover)
          (by rw [long]; exact globalCover)
      rw [long] at locals globals
      dsimp only
      rw [replaced]
      refine inv.changed split (fun _ => rfl) (fun _ => rfl)
        (fun page outside => runTower_local _ page outside)
        (fun page outside => runTower_global _ page outside) ?_
      refine ⟨?_, ?_, fun other => absurd rfl other, ?_, localCover, globalCover, locals, globals,
        ?_, fun _ => ⟨unfed, rest, rfl⟩, ?_⟩
      · dsimp only
        rw [ok.frontiers]
      · change live.kv.local_.frontier + live.reserved ≤ live.context.length
        rw [context]
        exact fits
      · exact ok.originLe.trans (originAt_mono _ (by dsimp only; omega))
      · intro other
        simp at other
      · intro other
        simp at other

theorem KvInv.join (inv : KvInv config machine) (found : machine.live[index]? = some live) :
    KvInv config (machine.join config index live) := by
  have ok := inv.live live (List.mem_of_getElem? found)
  unfold KvMachine.join
  split
  case isFalse => exact inv
  case isTrue stage =>
    obtain ⟨unfed, whole, empty⟩ := ok.filled (.inl stage)
    cases settled : settleStep config.window machine.pools live.kv 0 with
    | none => exact inv
    | some moved =>
      obtain ⟨kv, pools⟩ := moved
      have localCover := ok.localPages
      have globalCover := ok.globalPages
      rw [empty] at localCover globalCover
      have joined := @KvInv.passed _ _ _ _ inv found [] live.fed .prefilled _ _ settled localCover
        globalCover rfl (by simp)
        ok.within (fun other => absurd other (by decide)) (fun _ => ⟨unfed, whole⟩)
          (fun other => absurd other (by decide))
      rw [← empty] at joined
      exact joined

theorem KvInv.settle (inv : KvInv config machine) (found : machine.live[index]? = some live) :
    KvInv config (machine.settle index live) := by
  obtain ⟨front, back, split, replaced, -⟩ := split_at_index found
  have ok := inv.live live (List.mem_of_getElem? found)
  unfold KvMachine.settle
  split
  case isFalse => exact inv
  case isTrue stage =>
    obtain ⟨unfed, whole, -⟩ := ok.filled (.inr stage)
    rw [replaced]
    refine inv.changed split (fun _ => rfl) (fun _ => rfl) (fun _ _ => rfl) (fun _ _ => rfl) ?_
    refine { ok with
      origin := fun _ => ok.origin (by rw [stage]; decide)
      prompting := ?_
      filled := ?_
      decoding := ?_ }
    · intro other
      simp at other
    · intro other
      simp at other
    · intro _
      change live.kv.local_.frontier = live.context.length
      rw [Live.context, unfed, List.append_nil]
      exact whole

theorem KvInv.retire (inv : KvInv config machine) (found : machine.live[index]? = some live) :
    KvInv config { machine with
      pools := machine.pools.drop live.kv
      live := machine.live.eraseIdx index } := by
  obtain ⟨front, back, split, -, erased⟩ := split_at_index found
  refine ⟨fun page => ?_, fun page => ?_, fun other member => ?_, inv.entries,
    inv.bounded, inv.cap, inv.window⟩
  · have owned := inv.localOwned page
    simp only [KvMachine.localOccupancy, split, tally_append, tally_cons, Live.resident] at owned
    simp only [KvMachine.localOccupancy, erased, Pools.drop, Pool.dropEach, tally_append,
      List.count_append, List.count_reverse]
    omega
  · have owned := inv.globalOwned page
    simp only [KvMachine.globalOccupancy, split, tally_append, tally_cons, Live.globals] at owned
    simp only [KvMachine.globalOccupancy, erased, Pools.drop, Pool.dropPermit,
      tally_append, List.count_append]
    omega
  · exact inv.live other (List.mem_of_mem_eraseIdx member)

/-- Rows stored in free pages are nobody's. -/
theorem KvInv.freshFramed (inv : KvInv config machine)
    (locals : ∀ page, page ∉ machine.pools.local_.free → rows.local_ page = machine.rows.local_ page)
    (globals : ∀ page, page ∉ machine.pools.global.free → rows.global page = machine.rows.global page) :
    (∀ live ∈ machine.live, LiveOk config.window rows live) ∧
      ∀ entry ∈ machine.cache.entries, EntryOk config.window config.maxContext rows entry := by
  have localOwned := inv.localOwned
  have globalOwned := inv.globalOwned
  simp only [KvMachine.localOccupancy, KvMachine.globalOccupancy] at localOwned globalOwned
  refine ⟨fun other member => ?_, fun entry member => ?_⟩
  · refine (inv.live other member).frame (fun page listed => locals page fun free =>
      ?_) fun page listed => globals page fun free => ?_
    · have once := tally_pos member listed
      have here := List.count_pos_iff.mpr free
      have owned := localOwned page
      omega
    · have once := tally_pos member listed
      have here := List.count_pos_iff.mpr free
      have owned := globalOwned page
      omega
  · refine (inv.entries entry member).frame (fun page listed => locals page fun free =>
      ?_) fun page listed => globals page fun free => ?_
    · have once := tally_pos member listed
      have here := List.count_pos_iff.mpr free
      have owned := localOwned page
      omega
    · have once := tally_pos member listed
      have here := List.count_pos_iff.mpr free
      have owned := globalOwned page
      omega

end

end PegaInfer.Gemma4
