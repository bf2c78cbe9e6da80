import PegaInfer.Gemma4.KvInvariant
import PegaInfer.Gemma4.CacheKept

namespace PegaInfer.Gemma4

open PagedRows

variable {config : KvConfig} {machine : KvMachine} {window maxContext : Nat} {rows rows' : Rows}
  {pools pools' : Pools}
  {live : Live} {entry : CachedKv}

theorem reserveEach_full {pool : Pool} {need : Nat} (enough : ¬ (pool.reserveEach need).1.length < need) :
    (pool.reserveEach need).1.length = need ∧
      pool.free = (pool.reserveEach need).1 ++ (pool.reserveEach need).2.free := by
  refine ⟨?_, (List.take_append_drop need _).symm⟩
  have le : (pool.reserveEach need).1.length ≤ need := List.length_take_le need _
  omega

/-- A captured tail has as many pages as the request, of those that were free. -/
theorem capturePages_some {kv : GemmaKv} {tokenIds : List Token} {copied : Bool}
    (captured : capturePages maxContext pools kv tokenIds copied = (some entry, pools')) :
    entry.tokenIds = tokenIds ∧ entry.localOrigin = kv.local_.originPages ∧
      entry.localPages.length = kv.local_.resident.length ∧
        entry.globalPages.length = kv.global.pages.length ∧
      kv.global.pages.length ≤ entryGlobalPages maxContext ∧
      pools.local_.free = entry.localPages ++ pools'.local_.free ∧
        pools.global.free = entry.globalPages ++ pools'.global.free := by
  unfold capturePages at captured
  dsimp only at captured
  by_cases large : entryGlobalPages maxContext < kv.global.pages.length
  · simp [large] at captured
  · rw [if_neg large] at captured
    split at captured
    · simp at captured
    · cases reserved : pools.global.tryReserve kv.global.pages.length with
      | none => simp [reserved] at captured
      | some taken =>
        obtain ⟨globals, rest⟩ := taken
        obtain ⟨long, left⟩ := tryReserve_some reserved
        rw [reserved] at captured
        dsimp only at captured
        split at captured
        · simp at captured
        · rename_i enough
          obtain ⟨full, kept⟩ := reserveEach_full (not_or.mp enough).1
          simp only [Prod.mk.injEq, Option.some.injEq] at captured
          obtain ⟨rfl, rfl⟩ := captured
          exact ⟨rfl, rfl, full, long, by omega, kept, left⟩

theorem count_dropPermit {pool rest : Pool} {pages : List Nat}
    (left : pool.free = pages ++ rest.free) (page : Nat) :
    (rest.dropPermit pages).free.count page = pool.free.count page := by
  unfold Pool.dropPermit
  rw [left]

/-- A capture that comes to nothing returns what it had reserved. -/
theorem capturePages_none {kv : GemmaKv} {tokenIds : List Token} {copied : Bool}
    (refused : capturePages maxContext pools kv tokenIds copied = (none, pools')) (page : Nat) :
    pools'.local_.free.count page = pools.local_.free.count page ∧
      pools'.global.free.count page = pools.global.free.count page := by
  unfold capturePages at refused
  dsimp only at refused
  split at refused
  · obtain rfl := (Prod.mk.inj refused).2
    exact ⟨rfl, rfl⟩
  · split at refused
    · obtain rfl := (Prod.mk.inj refused).2
      exact ⟨rfl, rfl⟩
    · cases reserved : pools.global.tryReserve kv.global.pages.length with
      | none =>
        rw [reserved] at refused
        obtain rfl := (Prod.mk.inj refused).2
        exact ⟨rfl, rfl⟩
      | some taken =>
        obtain ⟨globals, rest⟩ := taken
        rw [reserved] at refused
        dsimp only at refused
        split at refused
        · obtain rfl := (Prod.mk.inj refused).2
          exact ⟨count_dropEach _ _ _, count_dropPermit (tryReserve_some reserved).2 page⟩
        · simp at refused

/-- A restored request has as many pages as the release law leaves at its frontier. -/
theorem restorePages_some {t : Nat} {copied : Bool} {kv : GemmaKv}
    (restored : restorePages window pools entry t copied = (some kv, pools')) :
    ∃ locals globals, kv = ⟨⟨locals, originAt window t, t⟩, ⟨globals, t⟩⟩ ∧ t ≤ entry.tokenIds.length ∧
      entry.localOrigin ≤ originAt window t ∧ originAt window t + locals.length = pagesFor t ∧
        globals.length = pagesFor t ∧
      originAt window t - entry.localOrigin + locals.length ≤ entry.localPages.length ∧
        globals.length ≤ entry.globalPages.length ∧
      pools.local_.free = locals ++ pools'.local_.free ∧
        pools.global.free = globals ++ pools'.global.free := by
  have below : originAt window t ≤ pagesFor t := by
    unfold originAt pagesFor
    omega
  unfold restorePages at restored
  dsimp only at restored
  by_cases outside : t = 0 ∨ entry.tokenIds.length < t
  · simp [outside] at restored
  · rw [if_neg outside] at restored
    by_cases early : originAt window t < entry.localOrigin
    · simp [early] at restored
    · rw [if_neg early] at restored
      by_cases short : entry.localPages.length <
        originAt window t - entry.localOrigin + (pagesFor t - originAt window t)
      · simp [short] at restored
      · rw [if_neg short] at restored
        cases reserved : pools.global.tryReserve (pagesFor t) with
        | none => simp [reserved] at restored
        | some taken =>
          obtain ⟨globals, rest⟩ := taken
          obtain ⟨long, left⟩ := tryReserve_some reserved
          rw [reserved] at restored
          dsimp only at restored
          split at restored
          · simp at restored
          · rename_i matches_
            split at restored
            · simp at restored
            · rename_i enough
              obtain ⟨full, kept⟩ := reserveEach_full (not_or.mp enough).1
              simp only [Prod.mk.injEq, Option.some.injEq] at restored
              obtain ⟨rfl, rfl⟩ := restored
              simp only [List.length_take, ne_eq, Decidable.not_not] at matches_
              exact ⟨_, globals, rfl, by omega, by omega, by omega, long, by omega, by omega, kept, left⟩

theorem restorePages_none {t : Nat} {copied : Bool}
    (refused : restorePages window pools entry t copied = (none, pools')) (page : Nat) :
    pools'.local_.free.count page = pools.local_.free.count page ∧
      pools'.global.free.count page = pools.global.free.count page := by
  unfold restorePages at refused
  dsimp only at refused
  split at refused
  · obtain rfl := (Prod.mk.inj refused).2
    exact ⟨rfl, rfl⟩
  · split at refused
    · obtain rfl := (Prod.mk.inj refused).2
      exact ⟨rfl, rfl⟩
    · split at refused
      · obtain rfl := (Prod.mk.inj refused).2
        exact ⟨rfl, rfl⟩
      · cases reserved : pools.global.tryReserve (pagesFor t) with
        | none =>
          rw [reserved] at refused
          obtain rfl := (Prod.mk.inj refused).2
          exact ⟨rfl, rfl⟩
        | some taken =>
          obtain ⟨globals, rest⟩ := taken
          rw [reserved] at refused
          dsimp only at refused
          split at refused
          · obtain rfl := (Prod.mk.inj refused).2
            exact ⟨rfl, count_dropPermit (tryReserve_some reserved).2 page⟩
          · split at refused
            · obtain rfl := (Prod.mk.inj refused).2
              exact ⟨count_dropEach _ _ _, count_dropPermit (tryReserve_some reserved).2 page⟩
            · simp at refused

theorem captureCheckpoint_some {kv : GemmaKv} {tokenIds : List Token} {copied : Bool}
    (captured : captureCheckpoint maxContext pools rows kv tokenIds copied = (some entry, pools', rows')) :
    capturePages maxContext pools kv tokenIds copied = (some entry, pools') ∧
      rows' = ⟨copy rows.local_ (kv.local_.resident.zip entry.localPages),
        copy rows.global (kv.global.pages.zip entry.globalPages)⟩ := by
  unfold captureCheckpoint at captured
  split at captured
  · simp at captured
  · rename_i taken
    simp only [Prod.mk.injEq, Option.some.injEq] at captured
    obtain ⟨rfl, rfl, rfl⟩ := captured
    exact ⟨taken, rfl⟩

theorem captureCheckpoint_none {kv : GemmaKv} {tokenIds : List Token} {copied : Bool}
    (refused : captureCheckpoint maxContext pools rows kv tokenIds copied = (none, pools', rows')) :
    capturePages maxContext pools kv tokenIds copied = (none, pools') ∧ rows' = rows := by
  unfold captureCheckpoint at refused
  split at refused
  · rename_i kept
    simp only [Prod.mk.injEq, true_and] at refused
    obtain ⟨rfl, rfl⟩ := refused
    exact ⟨kept, rfl⟩
  · simp at refused

/-- A restored request has copies of the entry's rows. -/
theorem restoreFromCheckpoint_some {t : Nat} {copied : Bool} {kv : GemmaKv}
    (restored : restoreFromCheckpoint window pools rows entry t copied = (some kv, pools', rows')) :
    restorePages window pools entry t copied = (some kv, pools') ∧
      rows' = ⟨copy rows.local_
          (((entry.localPages.drop (originAt window t - entry.localOrigin)).take
            kv.local_.resident.length).zip kv.local_.resident),
        copy rows.global ((entry.globalPages.take kv.global.pages.length).zip kv.global.pages)⟩ := by
  unfold restoreFromCheckpoint at restored
  split at restored
  · simp at restored
  · rename_i taken
    simp only [Prod.mk.injEq, Option.some.injEq] at restored
    obtain ⟨rfl, rfl, rfl⟩ := restored
    exact ⟨taken, rfl⟩

theorem restoreFromCheckpoint_none {t : Nat} {copied : Bool}
    (refused : restoreFromCheckpoint window pools rows entry t copied = (none, pools', rows')) :
    restorePages window pools entry t copied = (none, pools') ∧ rows' = rows := by
  unfold restoreFromCheckpoint at refused
  split at refused
  · rename_i kept
    simp only [Prod.mk.injEq, true_and] at refused
    obtain ⟨rfl, rfl⟩ := refused
    exact ⟨kept, rfl⟩
  · simp at refused

theorem copy_frame {memory : Memory (List Token)} {sources targets free rest : List Nat}
    (kept : free = targets ++ rest) (page : Nat)
    (outside : page ∉ free) : copy memory (sources.zip targets) page = memory page := by
  refine copy_of_notMem fun member => outside ?_
  obtain ⟨pair, inside, rfl⟩ := List.mem_map.mp member
  rw [kept]
  exact List.mem_append_left _ (List.of_mem_zip inside).2

/-- Pages taken from the free list are distinct and nobody's. -/
theorem taken_apart {free targets rest others : List Nat} (kept : free = targets ++ rest)
    (owned : ∀ page, free.count page + others.count page ≤ 1) :
    targets.Nodup ∧ ∀ page ∈ targets, page ∉ others := by
  refine ⟨List.nodup_iff_count_le_one.mpr fun page => ?_, fun page inside mine => ?_⟩
  · have once := owned page
    rw [kept, List.count_append] at once
    omega
  · have once := owned page
    have here := List.count_pos_iff.mpr inside
    have there := List.count_pos_iff.mpr mine
    rw [kept, List.count_append] at once
    omega

theorem KvInv.live_owned (inv : KvInv config machine) (member : live ∈ machine.live) (page : Nat) :
    machine.pools.local_.free.count page + live.resident.count page ≤ 1 ∧
      machine.pools.global.free.count page + live.globals.count page ≤ 1 := by
  obtain ⟨front, back, split⟩ := List.append_of_mem member
  have locals := inv.localOwned page
  have globals := inv.globalOwned page
  simp only [KvMachine.localOccupancy, KvMachine.globalOccupancy, split, tally_append, tally_cons]
    at locals globals
  omega

theorem KvInv.entry_owned (inv : KvInv config machine) (member : entry ∈ machine.cache.entries) (page : Nat) :
    machine.pools.local_.free.count page + entry.localPages.count page ≤ 1 ∧
      machine.pools.global.free.count page + entry.globalPages.count page ≤ 1 := by
  obtain ⟨front, back, split⟩ := List.append_of_mem member
  have locals := inv.localOwned page
  have globals := inv.globalOwned page
  simp only [KvMachine.localOccupancy, KvMachine.globalOccupancy, split, tally_append, tally_cons]
    at locals globals
  omega

/-- The rows a restore leaves are those of the prompt's own front. -/
theorem KvInv.restored (inv : KvInv config machine) (member : entry ∈ machine.cache.entries)
    {t : Nat} {copied : Bool} {kv : GemmaKv}
    {prompt : List Token} (shared : entry.tokenIds.take t = prompt.take t)
    (restored : restoreFromCheckpoint config.window machine.pools machine.rows entry t copied =
      (some kv, pools', rows')) :
    Holds rows'.local_ kv.local_.resident kv.local_.originPages prompt t ∧
      Holds rows'.global kv.global.pages 0 prompt t := by
  have ok := inv.entries entry member
  obtain ⟨taken, rfl⟩ := restoreFromCheckpoint_some restored
  obtain ⟨locals, globals, rfl, within, origin, localLength, globalLength, localShort, globalShort,
      localFree, globalFree⟩ :=
    restorePages_some taken
  obtain ⟨localDistinct, localApart⟩ := taken_apart localFree fun page => (inv.entry_owned member page).1
  obtain ⟨globalDistinct, globalApart⟩ := taken_apart globalFree fun page => (inv.entry_owned member page).2
  constructor
  · have sources := ((ok.localRows.shorten within).of_take shared.symm).release origin
    refine (sources.cut localLength.ge).copied localDistinct (fun page inside mine => ?_) ?_ localLength.ge
    · exact localApart page inside (List.mem_of_mem_drop (List.mem_of_mem_take mine))
    · dsimp only
      rw [List.length_take, List.length_drop]
      omega
  · have sources := (ok.globalRows.shorten within).of_take shared.symm
    refine (sources.cut (by rw [globalLength, Nat.zero_add])).copied globalDistinct
      (fun page inside mine => ?_) ?_ ?_
    · exact globalApart page inside (List.mem_of_mem_take mine)
    · dsimp only
      rw [List.length_take]
      omega
    · rw [globalLength, Nat.zero_add]

theorem LiveOk.fresh (window : Nat) (rows : Rows) (prompt : List Token) :
    LiveOk window rows ⟨prompt, [], none, allocKv, 0, .prefilling⟩ := by
  have zero : originAt window 0 = 0 := by
    unfold originAt
    omega
  refine ⟨rfl, Nat.zero_le _, fun _ => zero.symm,
    zero.ge, by simp [allocKv, pagesFor], by simp [allocKv, pagesFor], ?_, ?_, fun _ =>
      ⟨rfl, Nat.zero_le _⟩, fun other => ?_, fun other => ?_⟩
  · intro p _ high
    exact absurd high (Nat.not_lt_zero p)
  · intro p _ high
    exact absurd high (Nat.not_lt_zero p)
  · rcases other with other | other <;> cases other
  · cases other

/-- A newcomer without pages. -/
theorem KvInv.newcomer (inv : KvInv config machine) {pools : Pools} (prompt : List Token)
    (counts : ∀ page, pools.local_.free.count page = machine.pools.local_.free.count page ∧
      pools.global.free.count page = machine.pools.global.free.count page) :
    KvInv config ⟨pools, machine.rows, machine.cache,
      machine.live ++ [⟨prompt, [], none, allocKv, 0, .prefilling⟩]⟩ := by
  refine ⟨fun page => ?_, fun page => ?_, fun live member => ?_, inv.entries,
    inv.bounded, inv.cap, inv.window⟩
  · have owned := inv.localOwned page
    simp only [KvMachine.localOccupancy, tally_append, tally_cons, tally_nil] at owned ⊢
    rw [(counts page).1]
    simpa [Live.resident, allocKv] using owned
  · have owned := inv.globalOwned page
    simp only [KvMachine.globalOccupancy, tally_append, tally_cons, tally_nil] at owned ⊢
    rw [(counts page).2]
    simpa [Live.globals, allocKv] using owned
  · rcases List.mem_append.mp member with old | new
    · exact inv.live live old
    · obtain rfl := List.mem_singleton.mp new
      exact LiveOk.fresh _ _ _

/-- A lookup changes at most a stamp. -/
theorem KvInv.resolved (inv : KvInv config machine) (prompt : List Token) :
    KvInv config ⟨machine.pools, machine.rows, (machine.cache.resolve prompt).2, machine.live⟩ := by
  cases found : machine.cache.resolve prompt with
  | mk hit cache' =>
    cases hit with
    | none =>
      obtain ⟨entries, cap, window⟩ := resolve_none found
      refine ⟨?_, ?_, inv.live, ?_, ?_, cap.trans inv.cap, window.trans inv.window⟩
      · simpa only [KvMachine.localOccupancy, entries] using inv.localOwned
      · simpa only [KvMachine.globalOccupancy, entries] using inv.globalOwned
      · rw [entries]
        exact inv.entries
      · rw [entries]
        exact inv.bounded
    | some pick =>
      obtain ⟨entry, t⟩ := pick
      obtain ⟨index, best, at_, -, rfl, entries, cap, window⟩ := resolve_some found
      obtain ⟨front, back, split, replaced, -⟩ := split_at_index at_
      have same := inv.entries best (List.mem_of_getElem? at_)
      rw [replaced] at entries
      refine ⟨?_, ?_, inv.live, fun entry inside => ?_, ?_, cap.trans inv.cap, window.trans inv.window⟩
      · simpa only [KvMachine.localOccupancy, entries, split, tally_append, tally_cons] using inv.localOwned
      · simpa only [KvMachine.globalOccupancy, entries, split, tally_append, tally_cons] using inv.globalOwned
      · rw [entries] at inside
        rcases List.mem_append.mp inside with here | there
        · exact inv.entries entry (by rw [split]; exact List.mem_append_left _ here)
        · rcases List.mem_cons.mp there with rfl | there
          · exact ⟨same.origin, same.localPages, same.globalPages, same.small,
              same.localRows, same.globalRows⟩
          · exact inv.entries entry
              (by rw [split]; exact List.mem_append_right _ (List.mem_cons_of_mem _ there))
      · have bounded := inv.bounded
        rw [split] at bounded
        rw [entries]
        simpa using bounded

/-- The entry of a hit is in the cache, and resumes where the lookup said. -/
theorem hit_mem {prompt : List Token} {t : Nat} {cache cache' : PrefixCache}
    (found : cache.resolve prompt = (some (entry, t), cache')) :
    entry ∈ cache'.entries ∧ resumePoint entry cache.window prompt = some t ∧
      cache'.window = cache.window := by
  obtain ⟨index, best, at_, resumes, rfl, entries, -, window⟩ := resolve_some found
  obtain ⟨front, back, -, replaced, -⟩ := split_at_index at_
  rw [entries, replaced]
  exact ⟨List.mem_append_right _ List.mem_cons_self, resumes, window⟩

/-- A newcomer with a restored front. -/
theorem KvInv.resumed (inv : KvInv config machine) (member : entry ∈ machine.cache.entries)
    {t : Nat} {copied : Bool} {kv : GemmaKv}
    {prompt : List Token} (resumes : resumePoint entry config.window prompt = some t)
    (restored : restoreFromCheckpoint config.window machine.pools machine.rows entry t copied =
      (some kv, pools', rows')) :
    KvInv config ⟨pools', rows', machine.cache,
      machine.live ++ [⟨prompt, [], some entry.id, kv, 0, .prefilling⟩]⟩ := by
  obtain ⟨before, -, shared, -, -⟩ := resumePoint_some resumes
  obtain ⟨localRows, globalRows⟩ := inv.restored member shared restored
  obtain ⟨taken, rfl⟩ := restoreFromCheckpoint_some restored
  obtain ⟨locals, globals, rfl, -, -, localLength, globalLength, -, -, localFree, globalFree⟩ :=
    restorePages_some taken
  obtain ⟨others, entries⟩ := @KvInv.freshFramed _ _ ⟨_, _⟩ inv (copy_frame localFree) (copy_frame globalFree)
  refine ⟨fun page => ?_, fun page => ?_, fun live inside => ?_, entries, inv.bounded, inv.cap, inv.window⟩
  · have owned := inv.localOwned page
    simp only [KvMachine.localOccupancy, tally_append, tally_cons, tally_nil, localFree,
      List.count_append, Live.resident] at owned ⊢
    omega
  · have owned := inv.globalOwned page
    simp only [KvMachine.globalOccupancy, tally_append, tally_cons, tally_nil, globalFree,
      List.count_append, Live.globals] at owned ⊢
    omega
  · rcases List.mem_append.mp inside with old | new
    · exact others live old
    · obtain rfl := List.mem_singleton.mp new
      have context : (⟨prompt, [], some entry.id,
          ⟨⟨locals, originAt config.window t, t⟩, ⟨globals, t⟩⟩, 0, .prefilling⟩ : Live).context =
            prompt :=
        List.append_nil prompt
      refine ⟨rfl, ?_, fun _ => rfl, le_rfl, localLength, globalLength, ?_, ?_,
        fun _ => ⟨rfl, before.le⟩, fun other => ?_, fun other => ?_⟩
      · rw [context]
        exact before.le
      · rw [context]
        exact localRows
      · rw [context]
        exact globalRows
      · rcases other with other | other <;> cases other
      · cases other

theorem KvInv.arrive (inv : KvInv config machine) (prompt : List Token) (copied : Bool) :
    KvInv config (machine.arrive prompt copied) := by
  have stamped := inv.resolved prompt
  unfold KvMachine.arrive
  cases found : machine.cache.resolve prompt with
  | mk hit cache' =>
    rw [found] at stamped
    cases hit with
    | none => exact stamped.newcomer prompt fun _ => ⟨rfl, rfl⟩
    | some pick =>
      obtain ⟨entry, t⟩ := pick
      obtain ⟨member, resumes, window⟩ := hit_mem found
      rw [inv.window] at resumes window
      dsimp only
      rw [window]
      cases restored : restoreFromCheckpoint config.window machine.pools machine.rows entry t copied with
      | mk outcome rest =>
        obtain ⟨pools', rows'⟩ := rest
        cases outcome with
        | none =>
          obtain ⟨kept, rfl⟩ := restoreFromCheckpoint_none restored
          exact stamped.newcomer prompt (restorePages_none kept)
        | some kv => exact stamped.resumed member resumes restored

/-- What is shed is nobody's. -/
theorem KvInv.shed (inv : KvInv config machine) {cache' : PrefixCache} {gone : List CachedKv}
    (shed : Shed machine.cache machine.pools cache' pools' gone) :
    KvInv config ⟨pools', machine.rows, cache', machine.live⟩ := by
  refine ⟨fun page => ?_, fun page => ?_, inv.live, fun entry member => ?_, ?_,
    shed.cap.trans inv.cap, shed.window.trans inv.window⟩
  · have owned := inv.localOwned page
    have traded := (shed.count page).1
    simp only [KvMachine.localOccupancy] at owned ⊢
    omega
  · have owned := inv.globalOwned page
    have traded := (shed.count page).2
    simp only [KvMachine.globalOccupancy] at owned ⊢
    omega
  · exact inv.entries entry (shed.entries.mem_iff.mpr (List.mem_append_right _ member))
  · have total := shed.entries.length_eq
    have bounded := inv.bounded
    rw [List.length_append] at total
    dsimp only
    omega

/-- A captured tail holds the rows of the prompt it was captured from. -/
theorem KvInv.captured (inv : KvInv config machine) (member : live ∈ machine.live)
    (stage : live.stage = .prefilled) {copied : Bool}
    (captured : captureCheckpoint config.maxContext machine.pools machine.rows live.kv live.prompt
      copied = (some entry, pools', rows')) :
    EntryOk config.window config.maxContext rows' entry := by
  have ok := inv.live live member
  obtain ⟨unfed, whole, empty⟩ := ok.filled (.inr stage)
  have context : live.context = live.prompt := by rw [Live.context, unfed, List.append_nil]
  have originEq := ok.origin (by rw [stage]; decide)
  have localPages := ok.localPages
  have globalPages := ok.globalPages
  have localRows := ok.localRows
  have globalRows := ok.globalRows
  rw [whole] at originEq
  rw [whole, empty, Nat.add_zero] at localPages globalPages
  rw [whole, context] at localRows globalRows
  obtain ⟨taken, rfl⟩ := captureCheckpoint_some captured
  obtain ⟨tokens, origin, localLength, globalLength, small, localFree, globalFree⟩ := capturePages_some taken
  obtain ⟨localDistinct, localApart⟩ := taken_apart localFree fun page => (inv.live_owned member page).1
  obtain ⟨globalDistinct, globalApart⟩ := taken_apart globalFree fun page => (inv.live_owned member page).2
  refine ⟨?_, ?_, ?_, ?_, ?_, ?_⟩
  · rw [origin, tokens]
    exact originEq
  · rw [origin, localLength, tokens]
    exact localPages
  · rw [globalLength, tokens]
    exact globalPages
  · rw [globalLength]
    exact small
  · rw [origin, tokens]
    exact localRows.copied localDistinct localApart localLength.le (by rw [localLength]; exact localPages.ge)
  · rw [tokens]
    exact globalRows.copied globalDistinct globalApart globalLength.le
      (by rw [globalLength, Nat.zero_add]; exact globalPages.ge)

theorem KvInv.capture (inv : KvInv config machine) (member : live ∈ machine.live) (copied : Bool) :
    KvInv config (machine.capture config live copied) := by
  unfold KvMachine.capture
  split
  case isFalse => exact inv
  case isTrue stage =>
    cases captured : captureCheckpoint config.maxContext machine.pools machine.rows live.kv
      live.prompt copied with
    | mk outcome rest =>
      obtain ⟨pools', rows'⟩ := rest
      cases outcome with
      | none =>
        obtain ⟨kept, rfl⟩ := captureCheckpoint_none captured
        have counts := capturePages_none kept
        refine ⟨fun page => ?_, fun page => ?_, inv.live, inv.entries, inv.bounded, inv.cap, inv.window⟩
        · have owned := inv.localOwned page
          simp only [KvMachine.localOccupancy] at owned ⊢
          rw [(counts page).1]
          exact owned
        · have owned := inv.globalOwned page
          simp only [KvMachine.globalOccupancy] at owned ⊢
          rw [(counts page).2]
          exact owned
      | some entry =>
        have new := inv.captured member stage captured
        obtain ⟨taken, rfl⟩ := captureCheckpoint_some captured
        obtain ⟨-, -, -, -, -, localFree, globalFree⟩ := capturePages_some taken
        obtain ⟨others, entries⟩ :=
          @KvInv.freshFramed _ _ ⟨_, _⟩ inv (copy_frame localFree) (copy_frame globalFree)
        obtain ⟨kept, gone, shed, inserted, room, cap, window⟩ :=
          insert_spec machine.cache pools' entry live.resumed
          (by rw [inv.cap]; exact config.cap_pos) (by rw [inv.cap]; exact inv.bounded)
        refine ⟨fun page => ?_, fun page => ?_, others, fun other inside => ?_, ?_,
          cap.trans inv.cap, window.trans inv.window⟩
        · have owned := inv.localOwned page
          have traded := (shed.count page).1
          simp only [KvMachine.localOccupancy, localFree, inserted, tally_append, tally_cons,
            tally_nil, List.count_append] at owned ⊢
          omega
        · have owned := inv.globalOwned page
          have traded := (shed.count page).2
          simp only [KvMachine.globalOccupancy, globalFree, inserted, tally_append, tally_cons,
            tally_nil, List.count_append] at owned ⊢
          omega
        · dsimp only at inside
          rw [inserted] at inside
          rcases List.mem_append.mp inside with old | mine
          · exact entries other (shed.entries.mem_iff.mpr (List.mem_append_right _ old))
          · obtain rfl := List.mem_singleton.mp mine
            exact ⟨new.origin, new.localPages, new.globalPages, new.small, new.localRows, new.globalRows⟩
        · dsimp only
          rw [inserted, List.length_append, List.length_singleton, ← inv.cap]
          exact room

theorem KvInv.onLive (inv : KvInv config machine) {index : Nat} {move : Live → KvMachine}
    (kept : ∀ live, machine.live[index]? = some live → KvInv config (move live)) :
    KvInv config (machine.live[index]?.elim machine move) := by
  cases found : machine.live[index]? with
  | none => exact inv
  | some live => exact kept live found

theorem KvInv.step (inv : KvInv config machine) (op : KvOp) : KvInv config (machine.step config op) := by
  cases op with
  | arrive prompt copied => exact inv.arrive prompt copied
  | evict =>
    obtain ⟨gone, shed, -⟩ := evictLru_shed machine.cache machine.pools
    exact inv.shed shed
  | reserve index count => exact inv.onLive fun live found => inv.reserve found count
  | segment index mixed => exact inv.onLive fun live found => inv.segment found mixed
  | launch index => exact inv.onLive fun live found => inv.launch found
  | join index => exact inv.onLive fun live found => inv.join found
  | capture index copied => exact inv.onLive fun live found => inv.capture (List.mem_of_getElem? found) copied
  | settle index => exact inv.onLive fun live found => inv.settle found
  | decode index token => exact inv.onLive fun live found => inv.decode found token
  | retire index => exact inv.onLive fun live found => inv.retire found

theorem KvInv.initial (config : KvConfig) (rows : Rows) : KvInv config (KvMachine.initial config rows) := by
  have once : ∀ pages page : Nat, (Pool.new pages).free.count page ≤ 1 := fun pages page =>
    List.nodup_iff_count_le_one.mp (List.nodup_range' ..) page
  refine ⟨fun page => ?_, fun page => ?_, ?_, ?_, Nat.zero_le _, rfl, rfl⟩
  · simpa [KvMachine.localOccupancy, KvMachine.initial, PrefixCache.new] using once config.localPages page
  · simpa [KvMachine.globalOccupancy, KvMachine.initial, PrefixCache.new] using once config.globalPages page
  · simp [KvMachine.initial]
  · simp [KvMachine.initial, PrefixCache.new]

theorem KvInv.run (config : KvConfig) (rows : Rows) (ops : List KvOp) :
    KvInv config (KvMachine.run config rows ops) := by
  unfold KvMachine.run
  generalize start : KvMachine.initial config rows = machine
  have inv : KvInv config machine := start ▸ KvInv.initial config rows
  clear start
  induction ops generalizing machine with
  | nil => exact inv
  | cons op ops ih => exact ih _ (inv.step op)

/-- Between steps a request's frontier fixes how it is laid out. -/
theorem LiveOk.shape (ok : LiveOk window rows live) (landed : live.stage ≠ .flying)
    (settled : live.reserved = 0) :
    live.kv.shape = (live.kv.local_.frontier, originAt window live.kv.local_.frontier,
      pagesFor live.kv.local_.frontier - originAt window live.kv.local_.frontier, live.kv.local_.frontier,
      pagesFor live.kv.local_.frontier) := by
  have origin := ok.origin landed
  have locals := ok.localPages
  have globals := ok.globalPages
  rw [settled, Nat.add_zero] at locals globals
  have resident : live.kv.local_.resident.length =
    pagesFor live.kv.local_.frontier - originAt window live.kv.local_.frontier := by omega
  unfold GemmaKv.shape
  rw [resident, origin, ok.frontiers, globals]

/-- A captured tail keeps no more than the window, rounded out to whole pages. -/
theorem EntryOk.localPages_le (ok : EntryOk window maxContext rows entry) :
    entry.localPages.length ≤ pagesFor window + 1 := by
  have origin := ok.origin
  have locals := ok.localPages
  unfold originAt at origin
  unfold pagesFor at locals ⊢
  omega

theorem sum_le_mul {α : Type} (items : List α) (size : α → Nat) {cap bound : Nat} (short : items.length ≤ cap)
    (each : ∀ item ∈ items, size item ≤ bound) : (items.map size).sum ≤ cap * bound := by
  have total : (items.map size).sum ≤ items.length * bound := by
    simpa using List.sum_le_card_nsmul (items.map size) bound (by simpa using each)
  exact total.trans (Nat.mul_le_mul_right bound short)

/-- No page is listed by a request and by an entry. -/
theorem KvInv.apart (inv : KvInv config machine) (member : live ∈ machine.live)
    (cached : entry ∈ machine.cache.entries) :
    live.resident.Disjoint entry.localPages ∧ live.globals.Disjoint entry.globalPages := by
  constructor
  · intro page mine theirs
    have owned := inv.localOwned page
    have here := tally_pos member mine
    have there := @tally_pos _ _ CachedKv.localPages _ _ cached theirs
    simp only [KvMachine.localOccupancy] at owned
    omega
  · intro page mine theirs
    have owned := inv.globalOwned page
    have here := tally_pos member mine
    have there := @tally_pos _ _ CachedKv.globalPages _ _ cached theirs
    simp only [KvMachine.globalOccupancy] at owned
    omega

/-- What a hit leaves behind: the rows of the prompt's own front, wherever a later query can
read, in the layout of a request that came to the same frontier by itself. -/
structure Transparent (config : KvConfig) (prompt : List Token) (t : Nat) (kv : GemmaKv)
    (rows : Rows) : Prop where
  short : t < prompt.length
  localRows : ∀ p q, p < t → t ≤ q → q < p + config.window → kv.localRow rows p = some (prompt.take (p + 1))
  globalRows : ∀ p, p < t → kv.globalRow rows p = some (prompt.take (p + 1))
  shape : ∀ start ops, ∀ live ∈ (KvMachine.run config start ops).live,
    live.kv.local_.frontier = t → live.stage ≠ .flying → live.reserved = 0 → kv.shape = live.kv.shape

/-- The cache stays within the pages it was budgeted. -/
structure Budgeted (config : KvConfig) (cache : PrefixCache) : Prop where
  entries : cache.entries.length ≤ config.cap
  globalPages : (cache.entries.map (·.globalPages.length)).sum ≤
    config.cap * entryGlobalPages config.maxContext
  localPages : (cache.entries.map (·.localPages.length)).sum ≤ config.cap * (pagesFor config.window + 1)

theorem KvInv.transparent (inv : KvInv config machine) {prompt : List Token} {t : Nat}
    {copied : Bool} {kv : GemmaKv}
    (hit : (machine.cache.resolve prompt).1 = some (entry, t))
    (restored : (restoreFromCheckpoint config.window machine.pools machine.rows entry t copied).1 = some kv) :
    Transparent config prompt t kv
      (restoreFromCheckpoint config.window machine.pools machine.rows entry t copied).2.2 := by
  have stamped := inv.resolved prompt
  have found : machine.cache.resolve prompt = (some (entry, t), (machine.cache.resolve prompt).2) :=
    Prod.ext hit rfl
  obtain ⟨member, resumes, -⟩ := hit_mem found
  rw [inv.window] at resumes
  obtain ⟨short, -, shared, -, -⟩ := resumePoint_some resumes
  have outcome : restoreFromCheckpoint config.window machine.pools machine.rows entry t copied =
      (some kv, (restoreFromCheckpoint config.window machine.pools machine.rows entry t
        copied).2) := Prod.ext restored rfl
  obtain ⟨localHolds, globalHolds⟩ := @KvInv.restored _ _ _ _ _ stamped member _ _ _ _ shared outcome
  obtain ⟨locals, globals, rfl, -, -, localLength, globalLength, -⟩ :=
    restorePages_some (restoreFromCheckpoint_some outcome).1
  refine ⟨short, fun p q below reads window => ?_, fun p below => ?_,
    fun start ops live inside frontier landed settled => ?_⟩
  · have resident : originAt config.window t * 16 ≤ p := by
      unfold originAt
      omega
    unfold GemmaKv.localRow
    dsimp only [pageSize]
    rw [if_pos resident]
    exact localHolds p resident below
  · have held := globalHolds p (by omega) below
    rw [Nat.zero_mul, Nat.sub_zero] at held
    exact held
  · rw [((KvInv.run config start ops).live live inside).shape landed settled, frontier]
    unfold GemmaKv.shape
    dsimp only
    rw [globalLength, ← localLength, Nat.add_sub_cancel_left]

theorem KvInv.budgeted (inv : KvInv config machine) : Budgeted config machine.cache :=
  ⟨inv.bounded, sum_le_mul _ _ inv.bounded fun entry member => (inv.entries entry member).small,
    sum_le_mul _ _ inv.bounded fun entry member => (inv.entries entry member).localPages_le⟩

/-- In every run, a hit that is restored is transparent, no page of the cache is a live
request's, and the cache stays within its budget. -/
theorem prefix_cache_transparent (config : KvConfig) (rows : Rows) (ops : List KvOp) :
    (∀ prompt entry t copied kv, ((KvMachine.run config rows ops).cache.resolve prompt).1 = some (entry, t) →
      (restoreFromCheckpoint config.window (KvMachine.run config rows ops).pools
        (KvMachine.run config rows ops).rows entry t copied).1 = some kv →
      Transparent config prompt t kv
        (restoreFromCheckpoint config.window (KvMachine.run config rows ops).pools
          (KvMachine.run config rows ops).rows entry t copied).2.2) ∧
    (∀ live ∈ (KvMachine.run config rows ops).live, ∀ entry ∈ (KvMachine.run config rows ops).cache.entries,
      live.kv.local_.resident.Disjoint entry.localPages ∧ live.kv.global.pages.Disjoint entry.globalPages) ∧
    Budgeted config (KvMachine.run config rows ops).cache := by
  have inv := KvInv.run config rows ops
  exact ⟨fun prompt entry t copied kv hit restored => inv.transparent hit restored,
    fun live member entry cached => inv.apart member cached, inv.budgeted⟩

def windowConfig : KvConfig := ⟨32, 160, 1, 300, 300, by decide⟩

def windowPrompt : List Token := List.replicate 65 7

/-- A prompt past the window is prefilled whole and captured. -/
def windowOps : List KvOp := [.arrive windowPrompt true, .reserve 0 65, .segment 0 false, .capture 0 true]

def windowRows : Rows := ⟨fun _ _ => [], fun _ _ => []⟩

def windowTail : CachedKv := ⟨windowPrompt, [6, 7, 8, 9, 10], [2, 1, 6], 2, 2, 3⟩

theorem prefix_cache_transparent_resumed :
    ((KvMachine.run windowConfig windowRows windowOps).cache.resolve windowPrompt).1 = some (windowTail, 64) ∧
      Transparent windowConfig windowPrompt 64 ⟨⟨[7, 8], 2, 64⟩, ⟨[11, 12, 13, 14], 64⟩⟩
        (restoreFromCheckpoint windowConfig.window (KvMachine.run windowConfig windowRows windowOps).pools
          (KvMachine.run windowConfig windowRows windowOps).rows windowTail 64 true).2.2 := by
  have hit : ((KvMachine.run windowConfig windowRows windowOps).cache.resolve windowPrompt).1 =
    some (windowTail, 64) := by decide +kernel
  have restored : (restoreFromCheckpoint windowConfig.window
    (KvMachine.run windowConfig windowRows windowOps).pools
          (KvMachine.run windowConfig windowRows windowOps).rows windowTail 64 true).1 =
      some ⟨⟨[7, 8], 2, 64⟩, ⟨[11, 12, 13, 14], 64⟩⟩ := by decide +kernel
  exact ⟨hit, (prefix_cache_transparent windowConfig windowRows windowOps).1 windowPrompt windowTail
    64 true _ hit restored⟩

end PegaInfer.Gemma4
