import PegaInfer.Gemma4.KvInvariant

namespace PegaInfer.Gemma4

/-- One request's KV and the pools it draws from. `drawn` are the local pages in the order of
the positions they hold, `none` before the origin of a restore, and `admitted` is the length the
last admission made room for. -/
structure KvAccount where
  pools : Pools
  kv : GemmaKv
  drawn : List (Option Nat)
  admitted : Nat

inductive AccountOp
  | admitTokens (tokens : Nat)
  | step (tokens : Nat)
  | advance (tokens : Nat)
  | release
  | restore (entry : CachedKv) (t : Nat) (copied : Bool)
  | others (pools : Pools)

namespace KvAccount

/-- A step is covered by the admission before it. -/
def Covered (s : KvAccount) : AccountOp → Prop
  | .step tokens | .advance tokens => s.kv.local_.frontier + tokens ≤ s.admitted
  | _ => True

/-- A settled move of both families. -/
def settle (window : Nat) (s : KvAccount) (tokens : Nat) : KvAccount :=
  match settleStep window s.pools s.kv tokens with
  | none => s
  | some (kv, pools) => { s with kv, pools }

/-- What a move does. `others` is whatever other requests did to the pools meanwhile, and a
restore replaces the KV, whose pages go back. -/
def perform (window : Nat) (s : KvAccount) : AccountOp → KvAccount
  | .admitTokens tokens =>
    match admitTokens s.pools s.kv tokens with
    | (none, pools) => { s with pools }
    | (some kv, pools) =>
      ⟨pools, kv, s.drawn ++ (kv.local_.resident.drop s.kv.local_.resident.length).map some,
        s.kv.local_.frontier + tokens⟩
  | .step tokens => s.settle window tokens
  | .advance tokens =>
    { s with
      kv := ⟨⟨s.kv.local_.resident, s.kv.local_.originPages, s.kv.local_.frontier + tokens⟩,
        ⟨s.kv.global.pages, s.kv.global.seqLen + tokens⟩⟩ }
  | .release => s.settle window 0
  | .restore entry t copied =>
    match restorePages window s.pools entry t copied with
    | (none, pools) => { s with pools }
    | (some kv, pools) =>
      ⟨pools.drop s.kv, kv, List.replicate kv.local_.originPages none ++ kv.local_.resident.map some, t⟩
  | .others pools => { s with pools }

/-- A run of covered moves over any two pools. -/
inductive Reach (window : Nat) : KvAccount → Prop
  | start (pools : Pools) : Reach window ⟨pools, allocKv, [], 0⟩
  | next {s : KvAccount} (op : AccountOp) (reach : Reach window s) (covered : s.Covered op) :
      Reach window (s.perform window op)

/-- Both families account for the admitted length, and the local one holds its back. -/
structure Accounted (window : Nat) (s : KvAccount) : Prop where
  frontiers : s.kv.global.seqLen = s.kv.local_.frontier
  origin : s.kv.local_.originPages ≤ originAt window s.kv.local_.frontier
  within : s.kv.local_.frontier ≤ s.admitted
  localPages : s.kv.local_.originPages + s.kv.local_.resident.length = pagesFor s.admitted
  globalPages : s.kv.global.pages.length = pagesFor s.admitted
  drawn : ∃ released, released.length = s.kv.local_.originPages ∧
    s.drawn = released ++ s.kv.local_.resident.map some

variable {window : Nat} {s : KvAccount}

theorem pagesFor_mono {one two : Nat} (le : one ≤ two) : pagesFor one ≤ pagesFor two := by
  unfold pagesFor
  omega

/-- A covered move is never refused. -/
theorem Accounted.settles (accounted : Accounted window s) {tokens : Nat}
    (covered : s.kv.local_.frontier + tokens ≤ s.admitted) :
    ∃ kv pools, settleStep window s.pools s.kv tokens = some (kv, pools) := by
  have forward : s.kv.local_.originPages ≤ originAt window (s.kv.local_.frontier + tokens) :=
    accounted.origin.trans (originAt_mono window (Nat.le_add_right _ _))
  have ahead := originAt_le window (s.kv.local_.frontier + tokens)
  have pages := pagesFor_mono covered
  have held := accounted.localPages
  have enough : originAt window (s.kv.local_.frontier + tokens) - s.kv.local_.originPages ≤
      s.kv.local_.resident.length := by
    unfold pagesFor at pages
    unfold pagesFor at held
    omega
  unfold settleStep advanceAndRelease planRelease
  dsimp only
  rw [if_neg (Nat.not_lt.mpr forward), if_neg (Nat.not_lt.mpr enough)]
  exact ⟨_, _, rfl⟩

theorem Accounted.settle (accounted : Accounted window s) {tokens : Nat}
    (covered : s.kv.local_.frontier + tokens ≤ s.admitted) :
    Accounted window (s.settle window tokens) := by
  obtain ⟨kv, pools, moved⟩ := accounted.settles covered
  obtain ⟨forward, enough, rfl, rfl⟩ := settleStep_some moved
  obtain ⟨released, length, drawn⟩ := accounted.drawn
  have held := accounted.localPages
  unfold KvAccount.settle
  rw [moved]
  refine ⟨?_, le_rfl, covered, ?_, accounted.globalPages,
    released ++ (s.kv.local_.resident.take
      (originAt window (s.kv.local_.frontier + tokens) - s.kv.local_.originPages)).map some, ?_, ?_⟩
  · exact congrArg (· + tokens) accounted.frontiers
  · dsimp only
    rw [List.length_drop]
    omega
  · rw [List.length_append, List.length_map, List.length_take_of_le enough, length]
    dsimp only
    omega
  · dsimp only
    rw [drawn, List.append_assoc, ← List.map_append, List.take_append_drop]

theorem Accounted.afterAdmission (accounted : Accounted window s) (tokens : Nat) :
    Accounted window (s.perform window (.admitTokens tokens)) := by
  dsimp only [perform]
  split
  · exact ⟨accounted.frontiers, accounted.origin, accounted.within, accounted.localPages,
      accounted.globalPages, accounted.drawn⟩
  · rename_i kv pools admitted
    obtain ⟨locals, globals, rfl, localPages, globalPages, -, -⟩ := admitTokens_some admitted
    obtain ⟨released, length, drawn⟩ := accounted.drawn
    refine ⟨accounted.frontiers, accounted.origin, Nat.le_add_right _ _, localPages,
      globalPages, released, length, ?_⟩
    dsimp only
    rw [List.drop_left, drawn, List.append_assoc, List.map_append]

theorem restorePages_some {pools later : Pools} {entry : CachedKv} {t : Nat} {copied : Bool} {kv : GemmaKv}
    (restored : restorePages window pools entry t copied = (some kv, later)) :
    kv.local_.frontier = t ∧ kv.global.seqLen = t ∧ kv.local_.originPages = originAt window t ∧
      kv.local_.resident.length = pagesFor t - originAt window t ∧ kv.global.pages.length = pagesFor t := by
  unfold restorePages at restored
  dsimp only at restored
  split at restored
  · cases restored
  split at restored
  · cases restored
  split at restored
  · cases restored
  split at restored
  · cases restored
  · rename_i globalDst globalRest reserved
    split at restored
    · cases restored
    split at restored
    · cases restored
    · rename_i enough
      cases restored
      push Not at enough
      refine ⟨rfl, rfl, rfl, le_antisymm ?_ enough.1, (tryReserve_some reserved).1⟩
      exact List.length_take_le _ _

theorem Accounted.restore (accounted : Accounted window s) (entry : CachedKv) (t : Nat) (copied : Bool) :
    Accounted window (s.perform window (.restore entry t copied)) := by
  dsimp only [perform]
  split
  · exact ⟨accounted.frontiers, accounted.origin, accounted.within, accounted.localPages,
      accounted.globalPages, accounted.drawn⟩
  · rename_i kv pools restored
    obtain ⟨frontier, seqLen, origin, localPages, globalPages⟩ := restorePages_some restored
    have ahead := originAt_le window t
    refine ⟨seqLen.trans frontier.symm, by rw [origin, frontier], frontier.le, ?_, globalPages, _,
      List.length_replicate, rfl⟩
    dsimp only
    rw [origin, localPages]
    unfold pagesFor
    omega

theorem Reach.accounted (reach : Reach window s) : Accounted window s := by
  induction reach with
  | start pools =>
    exact ⟨rfl, Nat.zero_le _, le_rfl, by simp [allocKv, pagesFor], by simp [allocKv, pagesFor], [], rfl, rfl⟩
  | @next s op _ covered ih =>
    cases op with
    | admitTokens tokens => exact ih.afterAdmission tokens
    | step tokens => exact ih.settle covered
    | release => exact ih.settle ih.within
    | restore entry t copied => exact ih.restore entry t copied
    | others pools => exact ⟨ih.frontiers, ih.origin, ih.within, ih.localPages, ih.globalPages, ih.drawn⟩
    | advance tokens =>
      exact ⟨congrArg (· + tokens) ih.frontiers,
        ih.origin.trans (originAt_mono window (Nat.le_add_right _ _)), covered, ih.localPages,
        ih.globalPages, ih.drawn⟩

/-- Asking again for the length that was admitted draws nothing. -/
theorem Accounted.again (accounted : Accounted window s) {tokens : Nat}
    (same : s.kv.local_.frontier + tokens = s.admitted) :
    admitTokens s.pools s.kv tokens = (some s.kv, s.pools) := by
  have none_ : ∀ accounted, accounted = pagesFor s.admitted →
      pagesToReserve s.admitted accounted = some 0 := by
    rintro accounted rfl
    unfold pagesToReserve
    rw [if_neg (lt_irrefl _), Nat.sub_self]
  unfold admitTokens
  dsimp only
  rw [if_neg (not_not.mpr accounted.frontiers.symm), same, none_ _ accounted.localPages,
    none_ _ accounted.globalPages]
  simp [Pool.reserveEach, Pool.tryReserve]

/-- A position that a query can still read is in a page the request holds. -/
theorem Accounted.readable (accounted : Accounted window s) {position query : Nat}
    (later : s.kv.local_.frontier ≤ query)
    (reads : query < position + window) (admitted : position < s.admitted) :
    s.kv.local_.originPages ≤ position / 16 ∧
      ∃ page, s.kv.local_.resident[position / 16 - s.kv.local_.originPages]? = some page ∧
      s.drawn[position / 16]? = some (some page) := by
  have above : s.kv.local_.originPages ≤ position / 16 := by
    have origin := accounted.origin
    unfold originAt at origin
    omega
  have inside : position / 16 - s.kv.local_.originPages < s.kv.local_.resident.length := by
    have held := accounted.localPages
    unfold pagesFor at held
    omega
  obtain ⟨released, length, drawn⟩ := accounted.drawn
  refine ⟨above, _, List.getElem?_eq_getElem inside, ?_⟩
  rw [drawn, List.getElem?_append_right (by omega), length, List.getElem?_map,
    List.getElem?_eq_getElem inside, Option.map_some]

/-- The law of the two families, in every state covered moves reach. -/
theorem Reach.two_family_accounting (reach : Reach window s) :
    s.kv.global.seqLen = s.kv.local_.frontier ∧
    s.kv.local_.frontier ≤ s.admitted ∧
    s.kv.local_.originPages + s.kv.local_.resident.length = pagesFor s.admitted ∧
    s.kv.global.pages.length = pagesFor s.admitted ∧
    (∀ tokens, s.kv.local_.frontier + tokens ≤ s.admitted →
      ∃ kv pools, settleStep window s.pools s.kv tokens = some (kv, pools)) ∧
    (∀ tokens, s.kv.local_.frontier + tokens = s.admitted →
      admitTokens s.pools s.kv tokens = (some s.kv, s.pools)) ∧
    (∀ position query, s.kv.local_.frontier ≤ query → query < position + window → position < s.admitted →
      s.kv.local_.originPages ≤ position / 16 ∧
        ∃ page, s.kv.local_.resident[position / 16 - s.kv.local_.originPages]? = some page ∧
        s.drawn[position / 16]? = some (some page)) ∧
    (∀ tokens, (admitTokens s.pools s.kv tokens).1 = none →
      (s.perform window (.admitTokens tokens)).kv = s.kv ∧
        (s.perform window (.admitTokens tokens)).pools.global = s.pools.global ∧
        ∃ drawn rest, s.pools.local_.free = drawn ++ rest ∧
          (s.perform window (.admitTokens tokens)).pools.local_.free = drawn.reverse ++ rest) ∧
    ∀ tokens, settleStep window s.pools s.kv tokens = none → s.perform window (.step tokens) = s := by
  have accounted := reach.accounted
  refine ⟨accounted.frontiers, accounted.within, accounted.localPages, accounted.globalPages,
    fun tokens => accounted.settles,
    fun tokens => accounted.again, fun position query => accounted.readable, fun tokens refused =>
      ?_, fun tokens refused => ?_⟩
  · have same : admitTokens s.pools s.kv tokens = (none, (admitTokens s.pools s.kv tokens).2) :=
      Prod.ext refused rfl
    have pools := admitTokens_refused same
    dsimp only [perform]
    rw [same]
    exact ⟨rfl, pools⟩
  · dsimp only [perform, settle]
    rw [refused]

/-- Forty tokens over a window of sixteen, their front released after the step. -/
def forty : KvAccount :=
  (((⟨⟨Pool.new 8, Pool.new 8⟩, allocKv, [], 0⟩ : KvAccount).perform 16 (.admitTokens 40)).perform
    16 (.advance 40)).perform 16 .release

/-- Then thirty-five of the forty are restored from an entry. -/
def restored : KvAccount :=
  forty.perform 16
    (.restore { tokenIds := List.replicate 40 9, globalPages := [1, 2, 3], localPages := [2, 3],
                localOrigin := 1, id := 0, stamp := 0 } 35 true)

/-- Both are reached, a query at thirty-five finds position thirty, and two hundred tokens more
are refused. -/
theorem Reach.two_family_accounting_forty :
    forty.kv = ⟨⟨[2, 3], 1, 40⟩, ⟨[1, 2, 3], 40⟩⟩ ∧ restored.kv = ⟨⟨[1, 4], 1, 35⟩, ⟨[4, 5, 6], 35⟩⟩ ∧
      forty.kv.local_.originPages + forty.kv.local_.resident.length = pagesFor forty.admitted ∧
      (∃ page, restored.kv.local_.resident[30 / 16 - restored.kv.local_.originPages]? = some page) ∧
      (restored.perform 16 (.admitTokens 200)).pools.global = restored.pools.global := by
  have start : Reach 16 ⟨⟨Pool.new 8, Pool.new 8⟩, allocKv, [], 0⟩ := .start _
  have advanced := (start.next (.admitTokens 40) trivial).next (.advance 40)
    (by dsimp only [Covered]; decide +kernel)
  have settled : Reach 16 forty := advanced.next .release trivial
  have back : Reach 16 restored := settled.next (.restore _ 35 true) trivial
  obtain ⟨-, -, localPages, -⟩ := settled.two_family_accounting
  obtain ⟨-, -, -, -, -, -, readable, refused, -⟩ := back.two_family_accounting
  obtain ⟨-, page, found, -⟩ := readable 30 35 (by decide +kernel) (by decide) (by decide +kernel)
  exact ⟨by decide +kernel, by decide +kernel, localPages, ⟨page, found⟩,
    (refused 200 (by decide +kernel)).2.1⟩

/-- A refusal by the global pool hands two local pages back in the other order. -/
theorem refused_admission_reorders :
    ¬ ∀ (window : Nat) (s : KvAccount), Reach window s →
      ∀ tokens, (admitTokens s.pools s.kv tokens).1 = none →
      (s.perform window (.admitTokens tokens)).pools = s.pools := by
  intro unchanged
  have same := unchanged 16 ⟨⟨⟨[1, 2]⟩, ⟨[]⟩⟩, allocKv, [], 0⟩ (.start _) 32 (by decide +kernel)
  have free := congrArg (fun pools => pools.local_.free) same
  exact absurd free (by decide +kernel)

end KvAccount

end PegaInfer.Gemma4
