import PegaInfer.Gemma4.Held

namespace PegaInfer.Gemma4

open SwapRemove

variable {cache cache' : PrefixCache} {pools pools' : Pools} {entry : CachedKv}
  {window : Nat} {prompt : List Token}

theorem commonLength_le (one two : List Token) {n : Nat} (le : n ≤ commonLength one two) :
    one.take n = two.take n ∧ n ≤ one.length := by
  induction one generalizing two n with
  | nil =>
    simp only [commonLength, Nat.le_zero] at le
    simp [le]
  | cons cached one ih =>
    cases two with
    | nil =>
      simp only [commonLength, Nat.le_zero] at le
      simp [le]
    | cons requested two =>
      cases n with
      | zero => simp
      | succ n =>
        rw [commonLength] at le
        split at le
        · rename_i same
          obtain ⟨shared, short⟩ := ih two (Nat.le_of_succ_le_succ le)
          exact ⟨by rw [List.take_succ_cons, List.take_succ_cons, same, shared], Nat.succ_le_succ short⟩
        · omega

/-- A resume point is inside the shared front, short of the prompt and past the oldest row
the captured window still has. -/
theorem resumePoint_some {t : Nat} (resumes : resumePoint entry window prompt = some t) :
    t < prompt.length ∧ t ≤ entry.tokenIds.length ∧ entry.tokenIds.take t = prompt.take t ∧ 64 ≤ t ∧
      (entry.localOrigin = 0 ∨ entry.localOrigin * 16 + window ≤ t) := by
  unfold resumePoint at resumes
  dsimp only [pageSize] at resumes
  by_cases empty : prompt.length = 0
  · simp [empty] at resumes
  · rw [if_neg empty] at resumes
    by_cases reaches : (if entry.localOrigin = 0 then 64 else max (entry.localOrigin * 16 + window) 64) ≤
        min (commonLength entry.tokenIds prompt) (prompt.length - 1)
    · rw [if_pos reaches, Option.some.injEq] at resumes
      obtain ⟨shared, short⟩ :=
        commonLength_le entry.tokenIds prompt (show t ≤ commonLength entry.tokenIds prompt by omega)
      refine ⟨by omega, short, shared, ?_⟩
      split at reaches
      · exact ⟨by omega, .inl (by assumption)⟩
      · exact ⟨by omega, .inr (by omega)⟩
    · rw [if_neg reaches] at resumes
      simp at resumes

theorem bestResume_some {entries : List CachedKv} {start k t : Nat} {best : Option (Nat × Nat)}
    (found : bestResume window prompt start entries best = some (k, t)) :
    best = some (k, t) ∨ start ≤ k ∧ ∃ entry, entries[k - start]? = some entry ∧
      resumePoint entry window prompt = some t := by
  induction entries generalizing start best with
  | nil => exact .inl found
  | cons entry entries ih =>
    rw [bestResume] at found
    rcases ih found with here | ⟨later, other, at_, resumes⟩
    · cases resumes : resumePoint entry window prompt with
      | none =>
        rw [resumes] at here
        exact .inl here
      | some u =>
        rw [resumes, pickResume] at here
        split at here
        · exact .inl here
        · obtain ⟨rfl, rfl⟩ := Prod.mk.inj (Option.some.inj here)
          exact .inr ⟨le_rfl, entry, by simp, resumes⟩
    · refine .inr ⟨by omega, other, ?_, resumes⟩
      have shift : k - start = (k - (start + 1)) + 1 := by omega
      rw [shift, List.getElem?_cons_succ]
      exact at_

/-- A hit names an entry of the cache, which only its stamp changes. -/
theorem resolve_some {t : Nat} (hit : cache.resolve prompt = (some (entry, t), cache')) :
    ∃ index best, cache.entries[index]? = some best ∧ resumePoint best cache.window prompt = some t ∧
      entry = { best with stamp := cache.clock + 1 } ∧ cache'.entries = cache.entries.set index entry ∧
      cache'.cap = cache.cap ∧ cache'.window = cache.window := by
  unfold PrefixCache.resolve at hit
  dsimp only at hit
  cases found : bestResume cache.window prompt 0 cache.entries none with
  | none => simp [found] at hit
  | some pick =>
    obtain ⟨index, u⟩ := pick
    rcases bestResume_some found with none_ | ⟨-, best, at_, resumes⟩
    · simp at none_
    · rw [Nat.sub_zero] at at_
      simp only [found, at_, Prod.mk.injEq, Option.some.injEq] at hit
      obtain ⟨⟨rfl, rfl⟩, rfl⟩ := hit
      exact ⟨index, best, at_, resumes, rfl, rfl, rfl, rfl⟩

theorem resolve_none (miss : cache.resolve prompt = (none, cache')) :
    cache'.entries = cache.entries ∧ cache'.cap = cache.cap ∧ cache'.window = cache.window := by
  unfold PrefixCache.resolve at miss
  dsimp only at miss
  split at miss
  · obtain rfl := (Prod.mk.inj miss).2
    exact ⟨rfl, rfl, rfl⟩
  · split at miss
    · obtain rfl := (Prod.mk.inj miss).2
      exact ⟨rfl, rfl, rfl⟩
    · simp at miss

theorem oldestFrom_some (entries : List CachedKv) (start : Nat) (oldest : Option (Nat × Nat))
    (some_ : entries ≠ [] ∨ oldest.isSome) :
    ∃ k stamp, oldestFrom start entries oldest = some (k, stamp) ∧
      (oldest = some (k, stamp) ∨ start ≤ k ∧ k < start + entries.length) := by
  induction entries generalizing start oldest with
  | nil =>
    obtain ⟨⟨k, stamp⟩, rfl⟩ := Option.isSome_iff_exists.mp (some_.resolve_left (by simp))
    exact ⟨k, stamp, rfl, .inl rfl⟩
  | cons entry entries ih =>
    rw [oldestFrom]
    split
    · rename_i keeps
      have present : oldest.isSome := by
        cases oldest with
        | none => simp at keeps
        | some before => rfl
      obtain ⟨k, stamp, found, origin⟩ := ih (start + 1) oldest (.inr present)
      exact ⟨k, stamp, found, origin.imp_right fun inside => ⟨by omega, by rw [List.length_cons]; omega⟩⟩
    · obtain ⟨k, stamp, found, origin⟩ := ih (start + 1) (some (start, entry.stamp)) (.inr rfl)
      refine ⟨k, stamp, found, .inr ?_⟩
      rw [List.length_cons]
      rcases origin with same | inside
      · obtain ⟨rfl, rfl⟩ := Prod.mk.inj (Option.some.inj same)
        omega
      · omega

/-- Entries left the cache and their pages went back. -/
structure Shed (cache : PrefixCache) (pools : Pools) (cache' : PrefixCache) (pools' : Pools)
    (gone : List CachedKv) : Prop where
  entries : cache.entries.Perm (gone ++ cache'.entries)
  pools : pools' = gone.foldl Pools.dropEntry pools
  cap : cache'.cap = cache.cap
  window : cache'.window = cache.window

theorem Shed.none (cache : PrefixCache) (pools : Pools) : Shed cache pools cache pools [] :=
  ⟨.refl _, rfl, rfl, rfl⟩

theorem Shed.trans {cache'' : PrefixCache} {pools'' : Pools} {gone more : List CachedKv}
    (one : Shed cache pools cache' pools' gone)
    (two : Shed cache' pools' cache'' pools'' more) : Shed cache pools cache'' pools'' (gone ++ more) := by
  refine ⟨?_, ?_, two.cap.trans one.cap, two.window.trans one.window⟩
  · rw [List.append_assoc]
    exact one.entries.trans (two.entries.append_left gone)
  · rw [two.pools, one.pools, List.foldl_append]

theorem foldl_dropEntry_count (gone : List CachedKv) (pools : Pools) (page : Nat) :
    (gone.foldl Pools.dropEntry pools).local_.free.count page =
      tally page CachedKv.localPages gone + pools.local_.free.count page ∧
      (gone.foldl Pools.dropEntry pools).global.free.count page =
        tally page CachedKv.globalPages gone + pools.global.free.count page := by
  induction gone generalizing pools with
  | nil => simp
  | cons entry gone ih =>
    obtain ⟨locals, globals⟩ := ih (pools.dropEntry entry)
    rw [List.foldl_cons, locals, globals, tally_cons, tally_cons]
    simp only [Pools.dropEntry, Pool.dropEach, Pool.dropPermit, List.count_append, List.count_reverse]
    omega

/-- What leaves the cache is free. -/
theorem Shed.count {gone : List CachedKv} (shed : Shed cache pools cache' pools' gone) (page : Nat) :
    pools'.local_.free.count page + tally page CachedKv.localPages cache'.entries =
        pools.local_.free.count page + tally page CachedKv.localPages cache.entries ∧
      pools'.global.free.count page + tally page CachedKv.globalPages cache'.entries =
        pools.global.free.count page + tally page CachedKv.globalPages cache.entries := by
  obtain ⟨locals, globals⟩ := foldl_dropEntry_count gone pools page
  rw [shed.pools, locals, globals, tally_perm shed.entries, tally_perm shed.entries,
    tally_append, tally_append]
  omega

theorem evictLru_shed (cache : PrefixCache) (pools : Pools) :
    ∃ gone, Shed cache pools (cache.evictLru pools).2.1 (cache.evictLru pools).2.2 gone ∧
      (cache.entries ≠ [] → gone.length = 1) := by
  by_cases empty : cache.entries = []
  · have idle : cache.evictLru pools = (false, cache, pools) := by
      simp [PrefixCache.evictLru, empty, oldestFrom]
    rw [idle]
    exact ⟨[], .none _ _, fun some_ => absurd empty some_⟩
  · obtain ⟨k, stamp, found, origin⟩ := oldestFrom_some cache.entries 0 none (.inl empty)
    obtain ⟨-, inside⟩ := origin.resolve_left (by simp)
    rw [Nat.zero_add] at inside
    have at_ : cache.entries[k]? = some cache.entries[k] := List.getElem?_eq_getElem inside
    unfold PrefixCache.evictLru
    rw [found]
    dsimp only
    rw [at_]
    refine ⟨[cache.entries[k]], ⟨?_, rfl, rfl, rfl⟩, fun _ => rfl⟩
    obtain ⟨rest, removed, moved⟩ := swapRemove_spec inside
    obtain ⟨front, back, split, -, -⟩ := split_at_index at_
    dsimp only
    rw [removed]
    have whole : cache.entries = cache.entries.take k ++
      (cache.entries[k] :: cache.entries.drop (k + 1)) := by simp
    refine (List.Perm.of_eq whole).trans ?_
    refine List.perm_middle.trans ?_
    exact ((moved.symm).append_left _).cons _

theorem replaceAncestor_shed (cache : PrefixCache) (pools : Pools) (ancestor : Option Nat) :
    ∃ gone, Shed cache pools (cache.replaceAncestor pools ancestor).1
      (cache.replaceAncestor pools ancestor).2 gone := by
  cases ancestor with
  | none => exact ⟨[], .none _ _⟩
  | some id =>
    refine ⟨cache.entries.filter (·.id == id), ?_, rfl, rfl, rfl⟩
    exact (List.filter_append_perm (·.id == id) cache.entries).symm

/-- An insert sheds enough for the new entry to fit. -/
theorem insert_spec (cache : PrefixCache) (pools : Pools) (entry : CachedKv) (ancestor : Option Nat)
    (positive : 0 < cache.cap)
    (bounded : cache.entries.length ≤ cache.cap) :
    ∃ kept gone, Shed cache pools kept (cache.insert pools entry ancestor).2 gone ∧
      (cache.insert pools entry ancestor).1.entries =
        kept.entries ++ [{ entry with id := cache.clock + 1, stamp := cache.clock + 1 }] ∧
      kept.entries.length + 1 ≤ cache.cap ∧ (cache.insert pools entry ancestor).1.cap = cache.cap ∧
      (cache.insert pools entry ancestor).1.window = cache.window := by
  obtain ⟨gone, shed⟩ := replaceAncestor_shed { cache with clock := cache.clock + 1 } pools ancestor
  have shed : Shed cache pools _ _ gone := ⟨shed.entries, shed.pools, shed.cap, shed.window⟩
  have fewer : (({ cache with clock := cache.clock + 1 } : PrefixCache).replaceAncestor pools
      ancestor).1.entries.length ≤ cache.cap := by
    have total := shed.entries.length_eq
    rw [List.length_append] at total
    omega
  unfold PrefixCache.insert
  dsimp only
  split
  · rename_i full
    obtain ⟨more, evicted, one⟩ := evictLru_shed
        (({ cache with clock := cache.clock + 1 } : PrefixCache).replaceAncestor pools ancestor).1
      (({ cache with clock := cache.clock + 1 } : PrefixCache).replaceAncestor pools ancestor).2
    have both := shed.trans evicted
    have single : more.length = 1 := one fun empty => by
      rw [empty, shed.cap, List.length_nil] at full
      omega
    have total := evicted.entries.length_eq
    rw [List.length_append] at total
    exact ⟨_, _, both, rfl, by omega, both.cap, both.window⟩
  · rename_i room
    rw [shed.cap] at room
    exact ⟨_, _, shed, rfl, by omega, shed.cap, shed.window⟩

end PegaInfer.Gemma4
